import SchemaAlign.Token.Lexer

/-!
# Cutting parts of a text

Where a token ends depends on nothing but its own characters and the one after it. So the tokens of
a text are those of its parts, if the parts are cut where this character does not matter.

* `lexeme_congr`: a token before another text;
* `ofChars_chars`: the last tokens of a text;
* `Firm`: tokens that any text may follow, such as those up to a punctuation mark;
* `ofChars_semicolon`: tokens that a semicolon follows;
* `Quiet`: characters that say nothing, whatever follows them.
-/

namespace SchemaAlign.Token

open Text

variable {c q : Char} {body n n' cs ds : List Char} {k : TokenKind} {t : Token}
  {ts us vs : List Token}

/-! ## One token -/

theorem head?_append_congr (hn : n.head? = n'.head?) (body : List Char) :
    (body ++ n).head? = (body ++ n').head? := by
  cases body with
  | nil => exact hn
  | cons => rfl

theorem eq_nil_of_head? (hn : n.head? = n'.head?) (h : n = []) : n' = [] := by
  subst h
  exact List.head?_eq_none_iff.1 hn.symm

theorem cutLine_congr (h : (cutLine (body ++ n)).1 = body) (hn : n.head? = n'.head?) :
    (cutLine (body ++ n')).1 = body := by
  induction body with
  | nil =>
    cases n with
    | nil => rw [eq_nil_of_head? hn rfl]; rfl
    | cons d n => by_cases hd : d = '\n' <;> simp [cutLine, hd] at h
  | cons b body ih =>
    by_cases hb : b = '\n'
    · simp only [List.cons_append, cutLine, hb, if_true] at h ⊢
      exact h
    · simp only [List.cons_append, cutLine, hb, if_false, List.cons.injEq, true_and] at h ⊢
      exact ih h

theorem cutBlock_congr (h : (cutBlock (body ++ n)).1 = body) (hn : n.head? = n'.head?) :
    (cutBlock (body ++ n')).1 = body := by
  induction body with
  | nil =>
    cases n with
    | nil => rw [eq_nil_of_head? hn rfl]; rfl
    | cons d n => by_cases hd : d = '*' ∧ n.head? = some '/' <;> simp [cutBlock, hd] at h
  | cons b body ih =>
    simp only [List.cons_append, cutBlock, ← head?_append_congr hn body] at h ⊢
    split at h
    · next hb =>
      rw [if_pos hb]
      exact h
    · next hb =>
      rw [if_neg hb]
      simp only [List.cons.injEq, true_and] at h ⊢
      exact ih h

theorem cutString_ne_nil (q c : Char) (cs : List Char) : (cutString q (c :: cs)).1 ≠ [] := by
  cases cs with
  | nil => simp [cutString]
  | cons d cs => by_cases hc : c = q <;> by_cases hd : d = q <;> simp [cutString, hc, hd]

theorem cutString_congr (q : Char) : ∀ body : List Char,
    (cutString q (body ++ n)).1 = body → n.head? = n'.head? → (cutString q (body ++ n')).1 = body
  | [], h, hn => by
    cases n with
    | nil => rw [eq_nil_of_head? hn rfl]; rfl
    | cons d n => exact absurd h (cutString_ne_nil q d n)
  | [b], h, hn => by
    cases n with
    | nil => rw [eq_nil_of_head? hn rfl]; rfl
    | cons d n =>
      obtain ⟨n', rfl⟩ : ∃ ds, n' = d :: ds := List.head?_eq_some_iff.1 hn.symm
      -- A last quote closes the string unless one more follows, which the next character tells.
      by_cases hb : b = q
      · by_cases hd : d = q
        · simp [cutString, hb, hd] at h
        · simp [cutString, hb, hd]
      · simp only [List.cons_append, List.nil_append, cutString, hb, if_false, List.cons.injEq,
          true_and] at h
        exact absurd h (cutString_ne_nil q d n)
  | b :: b' :: body, h, hn => by
    by_cases hb : b = q
    · by_cases hb' : b' = q
      · simp only [List.cons_append, cutString, hb, hb', if_true, List.cons.injEq, true_and] at h ⊢
        exact cutString_congr q body h hn
      · simp [cutString, hb, hb'] at h
    · simp only [List.cons_append, cutString, hb, if_false, List.cons.injEq, true_and] at h ⊢
      exact cutString_congr q (b' :: body) h hn
termination_by body => body.length

theorem cutRun_congr {p : Char → Bool} (h : (cutRun p (body ++ n)).1 = body)
    (hn : n.head? = n'.head?) : (cutRun p (body ++ n')).1 = body := by
  simp only [cutRun] at h ⊢
  induction body with
  | nil =>
    cases n with
    | nil => rw [eq_nil_of_head? hn rfl]; rfl
    | cons d n =>
      obtain ⟨n', rfl⟩ : ∃ ds, n' = d :: ds := List.head?_eq_some_iff.1 hn.symm
      by_cases hd : p d = true <;> simp_all
  | cons b body ih =>
    by_cases hb : p b = true
    · simp only [List.cons_append, List.takeWhile_cons, hb, if_true, List.cons.injEq,
        true_and] at h ⊢
      exact ih h
    · simp [hb] at h

theorem eq_of_append {x : List Char × List Char} (happend : x.1 ++ x.2 = body ++ n)
    (h : x.1 = body) : x = (body, n) := by
  rw [h] at happend
  exact Prod.ext h (List.append_cancel_left happend)

/-- A token is the same before all texts that begin with the same character. -/
theorem lexeme_congr (h : lexeme c (body ++ n) = (k, body, n)) (hn : n.head? = n'.head?) :
    lexeme c (body ++ n') = (k, body, n') := by
  have cut {k' : TokenKind} {f : List Char → List Char × List Char}
      (happend : ∀ cs, (f cs).1 ++ (f cs).2 = cs)
      (congr : (f (body ++ n)).1 = body → (f (body ++ n')).1 = body)
      (h : (k', f (body ++ n)) = (k, body, n)) : (k', f (body ++ n')) = (k, body, n') := by
    obtain ⟨rfl, hf⟩ := Prod.mk.inj h
    rw [eq_of_append (happend _) (congr (by rw [hf]))]
  have hhead := head?_append_congr hn body
  -- The class of a token depends on its first character and the one behind it, alike in both texts.
  unfold lexeme at h ⊢
  rw [← hhead]
  split at h
  · rw [if_pos ‹_›]
    exact cut (cutRun_append _) (fun h => cutRun_congr h hn) h
  rw [if_neg ‹_›]
  split at h
  · rw [if_pos ‹_›]
    exact cut cutLine_append (fun h => cutLine_congr h hn) h
  rw [if_neg ‹_›]
  split at h
  · next hc =>
    rw [if_pos hc]
    cases body with
    | nil => cases h
    | cons b body =>
      simp only [List.cons_append, List.tail_cons, Prod.mk.injEq, List.cons.injEq] at h ⊢
      obtain ⟨rfl, ⟨rfl, h⟩, -⟩ := h
      rw [eq_of_append (cutBlock_append _) (cutBlock_congr h hn)]
      exact ⟨rfl, ⟨rfl, rfl⟩, rfl⟩
  rw [if_neg ‹_›]
  split at h
  · rw [if_pos ‹_›]
    exact cut (cutString_append c) (fun h => cutString_congr c body h hn) h
  rw [if_neg ‹_›]
  split at h
  · rw [if_pos ‹_›]
    exact cut (fun _ => rfl) (fun h => h) h
  rw [if_neg ‹_›]
  split at h
  · rw [if_pos ‹_›]
    exact cut (cutRun_append _) (fun h => cutRun_congr h hn) h
  rw [if_neg ‹_›]
  exact cut (fun _ => rfl) (fun h => h) h

/-- A punctuation mark is the same before all texts. -/
theorem lexeme_of_isPunctuation (h : isPunctuation c = true) (cs : List Char) :
    lexeme c cs = (.punctuation, [], cs) := by
  have hmarks : ['(', ')', '[', ']', '$', '.', ',', ';', '#', '@'].all (fun d =>
      decide (isBlank d = false ∧ d ≠ '-' ∧ d ≠ '/' ∧ isQuote d = false)) = true := by decide
  have hc := of_decide_eq_true (List.all_eq_true.1 hmarks c (List.contains_iff_mem.1 h))
  simp [lexeme, hc, h]

theorem isPunctuation_of_lexeme (h : (lexeme c cs).1 = .punctuation) : isPunctuation c = true := by
  unfold lexeme at h
  split at h; · cases h
  split at h; · cases h
  split at h; · cases h
  split at h; · cases h
  split at h; · assumption
  split at h <;> cases h

/-! ## The tokens of a part -/

theorem ofChars_cons (h : lexeme c (body ++ n) = (k, body, n)) :
    ofChars (c :: (body ++ n)) = ⟨k, String.ofList (c :: body)⟩ :: ofChars n := by
  rw [ofChars, h]

/-- The first token of a text, its characters, and the rest. -/
theorem exists_lexeme (h : ofChars cs = t :: ts) :
    ∃ c body n, cs = c :: (body ++ n) ∧ lexeme c (body ++ n) = (t.kind, body, n) ∧
      t.text.toList = c :: body ∧ ts = ofChars n := by
  cases cs with
  | nil => rw [ofChars] at h; cases h
  | cons c cs =>
    rw [ofChars] at h
    cases h
    refine ⟨c, (lexeme c cs).2.1, (lexeme c cs).2.2, by rw [lexeme_append], ?_, by simp, rfl⟩
    rw [lexeme_append]

/-- The last tokens of a text are the tokens of their characters. -/
theorem ofChars_chars (us : List Token) (h : ofChars cs = us ++ vs) : ofChars (chars vs) = vs := by
  induction us generalizing cs with
  | nil => rw [← show ofChars cs = vs from h, chars_ofChars]
  | cons u us ih =>
    obtain ⟨c, body, n, -, -, -, hn⟩ := exists_lexeme h
    exact ih hn.symm

theorem eq_chars_append (h : us ++ ofChars n = ofChars cs) : cs = chars us ++ n := by
  rw [← chars_ofChars cs, ← h, chars_append, chars_ofChars]

/-- The tokens stay as they are, whatever text follows. -/
def Firm (us : List Token) : Prop :=
  ∀ rest, ofChars (chars us ++ rest) = us ++ ofChars rest

/-- Tokens up to a punctuation mark are firm. -/
theorem firm_of_getLast? (h : ofChars (chars us ++ n) = us ++ ofChars n)
    (ht : us.getLast? = some t) (hpunct : t.kind = .punctuation) : Firm us := by
  induction us with
  | nil => cases ht
  | cons u us ih =>
    intro rest
    rw [List.cons_append] at h
    obtain ⟨c, body, m, hcs, hlex, htext, hm⟩ := exists_lexeme h
    obtain rfl := eq_chars_append hm
    obtain ⟨kind, text⟩ := u
    obtain rfl : text = String.ofList (c :: body) := by rw [← htext, String.ofList_toList]
    simp only [chars_cons, String.toList_ofList, List.cons_append, List.append_assoc]
    -- The mark at the end needs no look at what follows, and the other tokens look at the next one.
    cases us with
    | nil =>
      cases ht
      have hc : isPunctuation c = true :=
        isPunctuation_of_lexeme ((congrArg Prod.fst hlex).trans hpunct)
      rw [lexeme_of_isPunctuation hc] at hlex
      obtain ⟨rfl, rfl⟩ : TokenKind.punctuation = kind ∧ body = [] := by simpa using hlex
      exact ofChars_cons (lexeme_of_isPunctuation hc _)
    | cons u' us =>
      have hhead : (chars (u' :: us) ++ n).head? = (chars (u' :: us) ++ rest).head? := by
        obtain ⟨d, body', _, _, _, htext', _⟩ := exists_lexeme hm.symm
        simp [htext']
      rw [ofChars_cons (lexeme_congr hlex hhead), ih hm.symm ht rest]

/-! ## A semicolon at the end -/

/-- The class of a token that carries meaning is the same before a semicolon. -/
theorem kind_lexeme_semicolon (h : lexeme c (body ++ n) = (k, body, n)) (hk : k.isTrivia = false) :
    (lexeme c (body ++ [';'])).1 = k := by
  have hhead : ∀ d, d ≠ ';' → (body ++ [';']).head? = some d → (body ++ n).head? = some d := by
    intro d hd hhead
    cases body with
    | nil => exact absurd (Option.some.inj hhead).symm hd
    | cons => exact hhead
  replace h := congrArg Prod.fst h
  unfold lexeme at h ⊢
  split at h; · subst h; cases hk
  rw [if_neg ‹_›]
  split at h; · subst h; cases hk
  rw [if_neg fun hc => ‹¬ (c = '-' ∧ _)› ⟨hc.1, hhead '-' (by decide) hc.2⟩]
  split at h; · subst h; cases hk
  rw [if_neg fun hc => ‹¬ (c = '/' ∧ _)› ⟨hc.1, hhead '*' (by decide) hc.2⟩]
  split at h; · rwa [if_pos ‹_›]
  rw [if_neg ‹_›]
  split at h; · rwa [if_pos ‹_›]
  rw [if_neg ‹_›]
  split at h
  · rwa [if_pos ‹_›]
  · rwa [if_neg ‹_›]

/-- A token that carries meaning is the same before a semicolon, unless the semicolon becomes a part
    of it. -/
theorem lexeme_semicolon (h : lexeme c (body ++ n) = (k, body, n)) (hk : k.isTrivia = false) :
    lexeme c (body ++ [';']) = (k, body, [';']) ∨
      lexeme c (body ++ [';']) = (k, body ++ [';'], []) := by
  have happend := lexeme_append c (body ++ [';'])
  have hkind := kind_lexeme_semicolon h hk
  generalize hx : lexeme c (body ++ [';']) = x at happend hkind ⊢
  obtain ⟨k', body', n'⟩ := x
  obtain rfl : k' = k := hkind
  rcases List.eq_nil_or_concat n' with rfl | ⟨m, d, rfl⟩
  · rw [List.append_nil] at happend
    exact .inr (by rw [← show body' = _ from happend])
  · rw [List.concat_eq_append, ← List.append_assoc] at happend
    obtain ⟨rfl, hd⟩ := List.append_inj' happend rfl
    obtain rfl : d = ';' := by simpa using hd
    refine .inl ?_
    cases m with
    | nil => simp
    | cons e m =>
      -- The token ends before what it holds is over, and it does so before any text.
      rw [List.concat_eq_append, ← happend, List.append_assoc] at hx
      have hshort := lexeme_congr hx (show (e :: _).head? = (e :: m ++ n).head? from rfl)
      rw [← List.append_assoc, h] at hshort
      have hlen := congrArg (fun x => x.2.1.length) hshort
      simp at hlen

/-- Tokens before a semicolon are the same as before blanks and comments, unless the semicolon
    becomes a part of the last one. -/
theorem ofChars_semicolon (h : ofChars (chars us ++ n) = us ++ ofChars n)
    (ht : us.getLast? = some t) (hsignificant : t.isTrivia = false) :
    ofChars (chars us ++ [';']) = us ++ [semicolon] ∨
      ∃ us' t', ofChars (chars us ++ [';']) = us' ++ [t'] ∧ t'.isTrivia = false ∧
        t'.isPunct ";" = false := by
  have hsemicolon : ofChars [';'] = [semicolon] := by decide +kernel
  induction us with
  | nil => cases ht
  | cons u us ih =>
    rw [List.cons_append] at h
    obtain ⟨c, body, m, hcs, hlex, htext, hm⟩ := exists_lexeme h
    obtain rfl := eq_chars_append hm
    obtain ⟨kind, text⟩ := u
    obtain rfl : text = String.ofList (c :: body) := by rw [← htext, String.ofList_toList]
    simp only [chars_cons, String.toList_ofList, List.cons_append, List.append_assoc]
    -- Only the last token stands before the semicolon, all others before the same token as before.
    cases us with
    | nil =>
      cases ht
      obtain hlex' | hlex' := lexeme_semicolon hlex hsignificant
      · exact .inl (by rw [chars_nil, List.nil_append, ofChars_cons hlex', hsemicolon]; rfl)
      · refine .inr ⟨[], ⟨kind, String.ofList (c :: (body ++ [';']))⟩, ?_, hsignificant, ?_⟩
        · rw [chars_nil, List.nil_append, ofChars, hlex', ofChars]
          rfl
        · have : String.ofList (c :: (body ++ [';'])) ≠ ";" := by
            intro heq
            have hlen := congrArg (fun s => s.toList.length) heq
            simp at hlen
          rw [isPunct, beq_false_of_ne this, Bool.and_false]
    | cons u' us =>
      have hhead : (chars (u' :: us) ++ n).head? = (chars (u' :: us) ++ [';']).head? := by
        obtain ⟨d, body', _, _, _, htext', _⟩ := exists_lexeme hm.symm
        simp [htext']
      rw [ofChars_cons (lexeme_congr hlex hhead)]
      obtain h' | ⟨us', t', h', ht'⟩ := ih hm.symm ht
      · exact .inl (by rw [h'])
      · exact .inr ⟨_ :: us', t', by rw [h']; rfl, ht'⟩

/-! ## Blanks and comments -/

/-- The characters say nothing, whatever text follows: they are blanks and closed comments. The
    blanks at the end may be one token with those that follow. -/
def Quiet (cs : List Char) : Prop :=
  ∀ rest, (ofChars (cs ++ rest)).dropWhile (·.isTrivia) =
    (ofChars rest).dropWhile (·.isTrivia)

theorem quiet_nil : Quiet [] :=
  fun _ => rfl

theorem Quiet.append (h : Quiet cs) (h' : Quiet ds) : Quiet (cs ++ ds) := by
  intro rest
  rw [List.append_assoc, h, h']

theorem ofChars_blank (h : isBlank c = true) (cs : List Char) :
    (ofChars (c :: cs)).dropWhile (·.isTrivia) =
      (ofChars (cs.dropWhile isBlank)).dropWhile (·.isTrivia) := by
  rw [ofChars, show lexeme c cs = (.whitespace, cutRun isBlank cs) by simp [lexeme, h]]
  rfl

/-- Blanks at the front say nothing. -/
theorem quiet_of_all_isBlank (h : ∀ c ∈ cs, isBlank c = true) : Quiet cs := by
  induction cs with
  | nil => exact quiet_nil
  | cons c cs ih =>
    obtain ⟨hc, h⟩ := List.forall_mem_cons.1 h
    intro rest
    have hdrop : (cs ++ rest).dropWhile isBlank = rest.dropWhile isBlank := by
      rw [List.dropWhile_append_of_pos h]
    rw [List.cons_append, ofChars_blank hc, hdrop]
    cases rest with
    | nil => rfl
    | cons d rest =>
      by_cases hd : isBlank d = true
      · rw [ofChars_blank hd, List.dropWhile_cons_of_pos hd]
      · rw [List.dropWhile_cons_of_neg hd]

/-- A comment that ends where it does before any text says nothing. -/
theorem quiet_of_lexeme (h : ∀ n, lexeme c (body ++ n) = (.comment, body, n)) :
    Quiet (c :: body) := by
  intro rest
  rw [List.cons_append, ofChars_cons (h rest)]
  rfl

/-- A line that does not go on to the end of the text has its line feed. -/
theorem newline_of_cutLine (h : (cutLine (body ++ n)).1 = body) (hn : n ≠ []) : '\n' ∈ body := by
  induction body with
  | nil =>
    cases n with
    | nil => exact absurd rfl hn
    | cons d n => by_cases hd : d = '\n' <;> simp [cutLine, hd] at h
  | cons b body ih =>
    by_cases hb : b = '\n'
    · exact hb ▸ List.mem_cons_self
    · simp only [List.cons_append, cutLine, hb, if_false, List.cons.injEq, true_and] at h
      exact List.mem_cons_of_mem _ (ih h)

theorem cutLine_of_newline (h : (cutLine (body ++ n)).1 = body) (hbody : '\n' ∈ body)
    (n' : List Char) : (cutLine (body ++ n')).1 = body := by
  induction body with
  | nil => cases hbody
  | cons b body ih =>
    by_cases hb : b = '\n'
    · simp only [List.cons_append, cutLine, hb, if_true] at h ⊢
      exact h
    · simp only [List.cons_append, cutLine, hb, if_false, List.cons.injEq, true_and] at h ⊢
      exact ih h ((List.mem_cons.1 hbody).resolve_left (Ne.symm hb))

/-- A line feed after the text closes a line that has none. -/
theorem cutLine_append_newline (hbody : '\n' ∉ body) (n : List Char) :
    cutLine (body ++ '\n' :: n) = (body ++ ['\n'], n) := by
  induction body with
  | nil => rfl
  | cons b body ih =>
    obtain ⟨hb, hbody⟩ := not_or.1 (mt List.mem_cons.2 hbody)
    simp only [List.cons_append, cutLine, Ne.symm hb, if_false, ih hbody]

/-- A block that does not go on to the end of the text has its end mark. -/
theorem mark_of_cutBlock (h : (cutBlock (body ++ n)).1 = body) (hn : n ≠ []) :
    ['*', '/'] <:+: body := by
  induction body with
  | nil =>
    cases n with
    | nil => exact absurd rfl hn
    | cons d n => by_cases hd : d = '*' ∧ n.head? = some '/' <;> simp [cutBlock, hd] at h
  | cons b body ih =>
    simp only [List.cons_append, cutBlock] at h
    split at h
    · next hb =>
      obtain ⟨rfl, -⟩ := hb
      exact h ▸ List.infix_rfl
    · simp only [List.cons.injEq, true_and] at h
      exact (ih h).trans (List.suffix_cons b body).isInfix

theorem cutBlock_of_mark (h : (cutBlock (body ++ n)).1 = body) (hbody : ['*', '/'] <:+: body)
    (n' : List Char) : (cutBlock (body ++ n')).1 = body := by
  induction body with
  | nil => exact absurd (List.infix_nil.1 hbody) nofun
  | cons b body ih =>
    cases body with
    | nil => exact absurd hbody.length_le (by simp)
    | cons b' body =>
      simp only [List.cons_append, cutBlock, List.head?_cons] at h ⊢
      split at h
      · next hb =>
        rw [if_pos hb]
        exact h
      · next hb =>
        rw [if_neg hb]
        simp only [List.cons.injEq, true_and] at h ⊢
        refine ih h ((List.infix_cons_iff.1 hbody).resolve_left fun hprefix => hb ?_)
        obtain ⟨rest, hrest⟩ := hprefix
        simp only [List.cons_append, List.nil_append, List.cons.injEq] at hrest
        exact ⟨hrest.1.symm, by rw [← hrest.2.1]⟩

theorem lexeme_line (cs : List Char) :
    lexeme '-' ('-' :: cs) = (.comment, '-' :: (cutLine cs).1, (cutLine cs).2) := by
  rfl

theorem lexeme_block (cs : List Char) :
    lexeme '/' ('*' :: cs) = (.comment, '*' :: (cutBlock cs).1, (cutBlock cs).2) := by
  rfl

theorem comment_cases (h : lexeme c (body ++ n) = (.comment, body, n)) :
    (∃ line, c = '-' ∧ body = '-' :: line ∧ (cutLine (line ++ n)).1 = line) ∨
      ∃ block, c = '/' ∧ body = '*' :: block ∧ (cutBlock (block ++ n)).1 = block := by
  have hbody := congrArg (·.2.1) h
  unfold lexeme at h hbody
  split at h; · cases h
  rw [if_neg ‹_›] at hbody
  split at h
  · next hc =>
    rw [if_pos hc] at hbody
    left
    cases body with
    | nil =>
      cases n with
      | nil => simp at hc
      | cons d n => simp_all [cutLine]
    | cons b line =>
      obtain rfl : b = '-' := by simpa using hc.2
      exact ⟨line, hc.1, rfl, by simpa [cutLine] using hbody⟩
  rw [if_neg ‹_›] at hbody
  split at h
  · next hc =>
    rw [if_pos hc] at hbody
    right
    cases body with
    | nil => cases hbody
    | cons b block =>
      obtain rfl : b = '*' := by simpa using hc.2
      exact ⟨block, hc.1, rfl, by simpa using hbody⟩
  split at h; · cases h
  split at h; · cases h
  split at h <;> cases h

/-- A comment with its end mark is the same before all texts. -/
theorem line_closed {line : List Char} (h : (cutLine (line ++ n)).1 = line) (hline : '\n' ∈ line) :
    Quiet ('-' :: '-' :: line) := by
  refine quiet_of_lexeme fun n' => ?_
  rw [List.cons_append, lexeme_line,
    eq_of_append (cutLine_append _) (cutLine_of_newline h hline n')]

theorem block_closed {block : List Char} (h : (cutBlock (block ++ n)).1 = block)
    (hblock : ['*', '/'] <:+: block) : Quiet ('/' :: '*' :: block) := by
  refine quiet_of_lexeme fun n' => ?_
  rw [List.cons_append, lexeme_block,
    eq_of_append (cutBlock_append _) (cutBlock_of_mark h hblock n')]

theorem all_isBlank_of_lexeme (h : lexeme c (body ++ n) = (.whitespace, body, n)) :
    ∀ d ∈ c :: body, isBlank d = true := by
  unfold lexeme at h
  split at h
  · next hc =>
    refine List.forall_mem_cons.2 ⟨hc, fun d hd => ?_⟩
    have hbody : (body ++ n).takeWhile isBlank = body := congrArg (·.2.1) h
    rw [← hbody] at hd
    exact List.all_eq_true.1 List.all_takeWhile d hd
  split at h; · cases h
  split at h; · cases h
  split at h; · cases h
  split at h; · cases h
  split at h <;> cases h

/-- A blank or comment before some text says nothing. -/
theorem quiet_of_isTrivia (h : lexeme c (body ++ n) = (k, body, n)) (hk : k.isTrivia = true)
    (hn : n ≠ []) : Quiet (c :: body) := by
  cases k with
  | whitespace => exact quiet_of_all_isBlank (all_isBlank_of_lexeme h)
  | comment =>
    obtain ⟨line, rfl, rfl, hline⟩ | ⟨block, rfl, rfl, hblock⟩ := comment_cases h
    · exact line_closed hline (newline_of_cutLine hline hn)
    · exact block_closed hblock (mark_of_cutBlock hblock hn)
  | string | punctuation | word | other => cases hk

theorem quiet_of_trivia (hw : ∀ t ∈ us, t.isTrivia = true)
    (h : ofChars (chars us ++ n) = us ++ ofChars n) (hn : n ≠ []) : Quiet (chars us) := by
  induction us with
  | nil => exact quiet_nil
  | cons u us ih =>
    obtain ⟨hu, hw⟩ := List.forall_mem_cons.1 hw
    rw [List.cons_append] at h
    obtain ⟨c, body, m, hcs, hlex, htext, hm⟩ := exists_lexeme h
    obtain rfl := eq_chars_append hm
    rw [chars_cons, htext]
    exact (quiet_of_isTrivia hlex hu (by simp [hn])).append (ih hw hm.symm)

/-! ## The end of a text -/

/-- A block comment without its end mark. -/
def OpenComment (t : Token) : Prop :=
  ∃ block, t = ⟨.comment, String.ofList ('/' :: '*' :: block)⟩ ∧ ¬ ['*', '/'] <:+: block

/-- The tokens end inside a block comment that is not closed. -/
def EndsInComment (tokens : List Token) : Prop :=
  ∃ t, tokens.getLast? = some t ∧ t.OpenComment

/-- A blank or comment at the end of a text says nothing once an empty line follows, unless it is a
    block comment that is not closed. -/
theorem quiet_of_last (h : lexeme c body = (k, body, [])) (hk : k.isTrivia = true)
    (hopen : ¬ OpenComment ⟨k, String.ofList (c :: body)⟩) : Quiet (c :: body ++ ['\n', '\n']) := by
  have hlines : Quiet ['\n', '\n'] := quiet_of_all_isBlank (List.all_eq_true.1 (by decide))
  have h : lexeme c (body ++ []) = (k, body, []) := by rw [List.append_nil, h]
  cases k with
  | whitespace => exact (quiet_of_all_isBlank (all_isBlank_of_lexeme h)).append hlines
  | comment =>
    obtain ⟨line, rfl, rfl, hline⟩ | ⟨block, rfl, rfl, hblock⟩ := comment_cases h
    · by_cases hnewline : '\n' ∈ line
      · exact (line_closed hline hnewline).append hlines
      · -- The first line feed of the empty line ends the comment.
        have hline' : (cutLine (line ++ ['\n'] ++ [])).1 = line ++ ['\n'] := by
          rw [List.append_nil, cutLine_append_newline hnewline]
        have := (line_closed hline' (by simp)).append
          (quiet_of_all_isBlank (List.all_eq_true.1 (show ['\n'].all isBlank = true by decide)))
        simpa using this
    · refine (block_closed hblock ?_).append hlines
      exact Decidable.of_not_not fun hmark => hopen ⟨block, rfl, hmark⟩
  | string | punctuation | word | other => cases hk

/-- Blanks and comments at the end of a text say nothing once an empty line follows. -/
theorem quiet_of_tail (hw : ∀ t ∈ us, t.isTrivia = true) (h : ofChars (chars us) = us)
    (hopen : ¬ EndsInComment us) : Quiet (chars us ++ ['\n', '\n']) := by
  induction us with
  | nil => exact quiet_of_all_isBlank (List.all_eq_true.1 (by decide))
  | cons u us ih =>
    obtain ⟨hu, hw⟩ := List.forall_mem_cons.1 hw
    obtain ⟨c, body, m, hcs, hlex, htext, hm⟩ := exists_lexeme h
    obtain rfl : m = chars us := by rw [hm, chars_ofChars]
    rw [chars_cons, htext]
    cases us with
    | nil =>
      rw [chars_nil, List.append_nil] at hlex ⊢
      refine quiet_of_last hlex hu fun hu' => hopen ⟨u, rfl, ?_⟩
      rwa [← htext, String.ofList_toList] at hu'
    | cons u' us =>
      rw [List.append_assoc]
      refine (quiet_of_isTrivia hlex hu ?_).append (ih hw hm.symm fun h => hopen h)
      obtain ⟨d, body', _, _, _, htext', _⟩ := exists_lexeme hm.symm
      simp [htext']

end SchemaAlign.Token
