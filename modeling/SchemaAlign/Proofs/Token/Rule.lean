import SchemaAlign.Proofs.Token.Lexer

/-!
# The rules of tokens

How a token of each class is spelled and where it ends, told without scanning: what its characters
are, and what may follow it in the text. A text is cut into tokens that follow the rules in one way
only.

* `MaximalRun`, `Closes`, `EndsString`: where blanks and words, comments, and strings end;
* `Obeys`: the rules;
* `obeys_lexeme`, `Obeys.lexeme_eq`: the first token of a text is the one that obeys its rule;
* `tokenize_eq_iff`: the tokens of a text are the only ones that make up the text and obey the
  rules.
-/

namespace SchemaAlign.Token

open Text

variable {c q : Char} {p : Char → Bool} {mark body body' next next' cs : List Char} {k : TokenKind}
  {ts : List Token}

/-! ## Where tokens end -/

/-- Characters of a class, up to the first one that is not of the class. -/
structure MaximalRun (p : Char → Bool) (cs next : List Char) : Prop where
  ne_nil : cs ≠ []
  inside : ∀ c ∈ cs, p c = true
  outside : ∀ c ∈ next.head?, p c = false

/-- What follows the opening of a comment ends right after the first end mark in it, or there is no
    end mark and no further text. -/
def Closes (mark body next : List Char) : Prop :=
  (mark <:+ body ∧ ¬ mark <:+: body.dropLast) ∨ (¬ mark <:+: body ∧ next = [])

/-- Every quote `q` is one of two in a row. -/
inductive Paired (q : Char) : List Char → Prop
  | nil : Paired q []
  | char {c : Char} {cs : List Char} : c ≠ q → Paired q cs → Paired q (c :: cs)
  | pair {cs : List Char} : Paired q cs → Paired q (q :: q :: cs)

/-- What follows the opening quote of a string ends with a quote that is not one of two in a row, or
    there is no such quote and no further text. -/
inductive EndsString (q : Char) : List Char → List Char → Prop
  | closed {cs next : List Char} : Paired q cs → next.head? ≠ some q →
      EndsString q (cs ++ [q]) next
  | opened {cs : List Char} : Paired q cs → EndsString q cs []

/-- The rule of each class: how a token is spelled that the given text follows. -/
inductive Obeys : TokenKind → List Char → List Char → Prop
  | whitespace {cs next : List Char} : MaximalRun isBlank cs next → Obeys .whitespace cs next
  | line {body next : List Char} : Closes ['\n'] body next →
      Obeys .comment ('-' :: '-' :: body) next
  | block {body next : List Char} : Closes ['*', '/'] body next →
      Obeys .comment ('/' :: '*' :: body) next
  | string {q : Char} {body next : List Char} : isQuote q = true → EndsString q body next →
      Obeys .string (q :: body) next
  | punctuation {c : Char} {next : List Char} : isPunctuation c = true → Obeys .punctuation [c] next
  | word {cs next : List Char} : MaximalRun isWordChar cs next → Obeys .word cs next
  | other {c : Char} {next : List Char} : isBlank c = false → isQuote c = false →
      isPunctuation c = false → isWordChar c = false → ¬ (c = '-' ∧ next.head? = some '-') →
      ¬ (c = '/' ∧ next.head? = some '*') → Obeys .other [c] next

/-- Every token obeys its rule at its place: before the text of the tokens that follow it. -/
def Lawful : List Token → Prop
  | [] => True
  | t :: ts => Obeys t.kind t.text.toList (chars ts) ∧ Lawful ts

theorem Obeys.ne_nil (h : Obeys k cs next) : cs ≠ [] := by
  cases h with
  | whitespace h | word h => exact h.ne_nil
  | line | block | string | punctuation | other => exact List.cons_ne_nil _ _

/-! ## Runs -/

theorem maximalRun_cutRun (h : p c = true) (cs : List Char) :
    MaximalRun p (c :: (cutRun p cs).1) (cutRun p cs).2 where
  ne_nil := List.cons_ne_nil _ _
  inside := List.forall_mem_cons.2 ⟨h, List.all_eq_true.1 List.all_takeWhile⟩
  outside d hd := by
    have := List.head?_dropWhile_not p cs
    rw [show (cs.dropWhile p).head? = some d from hd] at this
    exact this

theorem MaximalRun.cutRun_eq (h : MaximalRun p (c :: body) next) :
    p c = true ∧ cutRun p (body ++ next) = (body, next) := by
  obtain ⟨hc, hbody⟩ := List.forall_mem_cons.1 h.inside
  refine ⟨hc, eq_of_append (cutRun_append p _) ?_⟩
  have hnext : next.takeWhile p = [] := by
    cases next with
    | nil => rfl
    | cons d next => exact List.takeWhile_cons_of_neg (by rw [h.outside d rfl]; nofun)
  rw [cutRun, List.takeWhile_append_of_pos hbody, hnext, List.append_nil]

/-! ## Comments -/

/-- One more character before what follows the opening of a comment, unless it is the first one of
    an end mark. -/
theorem Closes.cons (h : Closes mark body next) (hc : ¬ mark <+: c :: body) :
    Closes mark (c :: body) next := by
  rcases h with ⟨hsuffix, hfirst⟩ | ⟨hnone, hnext⟩
  · refine .inl ⟨hsuffix.trans (List.suffix_cons c body), ?_⟩
    cases body with
    | nil =>
      rw [List.suffix_nil.1 hsuffix] at hfirst
      exact absurd List.nil_infix hfirst
    | cons b body =>
      rw [List.dropLast_cons_cons, List.infix_cons_iff]
      rintro (hstart | hwithin)
      · refine hc (hstart.trans ?_)
        exact List.cons_prefix_cons.2 ⟨rfl, List.dropLast_prefix _⟩
      · exact hfirst hwithin
  · exact .inr ⟨fun hwithin => (List.infix_cons_iff.1 hwithin).elim hc hnone, hnext⟩

theorem closes_cutLine (cs : List Char) : Closes ['\n'] (cutLine cs).1 (cutLine cs).2 := by
  induction cs with
  | nil => exact .inr ⟨by simp [cutLine], rfl⟩
  | cons c cs ih =>
    by_cases hc : c = '\n'
    · subst hc
      exact .inl ⟨List.suffix_refl _, by simp [cutLine]⟩
    · simp only [cutLine, hc, if_false]
      refine ih.cons fun hstart => hc ?_
      exact (List.cons_prefix_cons.1 hstart).1.symm

theorem closes_cutBlock (cs : List Char) : Closes ['*', '/'] (cutBlock cs).1 (cutBlock cs).2 := by
  induction cs with
  | nil => exact .inr ⟨by simp [cutBlock], rfl⟩
  | cons c cs ih =>
    by_cases hc : c = '*' ∧ cs.head? = some '/'
    · obtain ⟨rfl, hhead⟩ := hc
      simp only [cutBlock, hhead, and_self, if_true]
      exact .inl ⟨List.suffix_refl _, by decide⟩
    · simp only [cutBlock, hc, if_false]
      refine ih.cons fun hstart => hc ?_
      obtain ⟨hstar, hslash⟩ := List.cons_prefix_cons.1 hstart
      refine ⟨hstar.symm, ?_⟩
      -- What is cut off begins like the text.
      obtain ⟨block, hblock⟩ := hslash
      rw [← cutBlock_append cs, ← hblock]
      rfl

/-- Of two cuts of one text, the later one is not behind its first end mark. -/
theorem Closes.eq_nil (h : Closes mark body (body' ++ next))
    (h' : Closes mark (body ++ body') next) : body' = [] := by
  refine Decidable.byContradiction fun hne => ?_
  rcases h with ⟨hsuffix, -⟩ | ⟨-, hnil⟩
  · have hwithin (cs : List Char) : mark <:+: body ++ cs :=
      hsuffix.isInfix.trans (List.prefix_append _ _).isInfix
    rcases h' with ⟨-, hfirst⟩ | ⟨hnone, -⟩
    · rw [List.dropLast_append_of_ne_nil hne] at hfirst
      exact hfirst (hwithin _)
    · exact hnone (hwithin _)
  · exact hne (List.append_eq_nil_iff.1 hnil).1

/-- A text has one place where a comment closes. -/
theorem Closes.unique (h : Closes mark body next) (h' : Closes mark body' next')
    (heq : body ++ next = body' ++ next') : body = body' := by
  rcases List.append_eq_append_iff.1 heq with ⟨cs, rfl, rfl⟩ | ⟨cs, rfl, rfl⟩
  · rw [h.eq_nil h', List.append_nil]
  · rw [h'.eq_nil h, List.append_nil]

theorem Closes.cutLine_eq (h : Closes ['\n'] body next) : cutLine (body ++ next) = (body, next) :=
  eq_of_append (cutLine_append _) ((closes_cutLine _).unique h (cutLine_append _))

theorem Closes.cutBlock_eq (h : Closes ['*', '/'] body next) :
    cutBlock (body ++ next) = (body, next) :=
  eq_of_append (cutBlock_append _) ((closes_cutBlock _).unique h (cutBlock_append _))

/-! ## Strings -/

theorem EndsString.char (hc : c ≠ q) (h : EndsString q body next) :
    EndsString q (c :: body) next := by
  cases h with
  | closed hcs hnext => exact .closed (.char hc hcs) hnext
  | opened hcs => exact .opened (.char hc hcs)

theorem EndsString.pair (h : EndsString q body next) : EndsString q (q :: q :: body) next := by
  cases h with
  | closed hcs hnext => exact .closed (.pair hcs) hnext
  | opened hcs => exact .opened (.pair hcs)

theorem cutString_cons_of_ne (hc : c ≠ q) (cs : List Char) :
    cutString q (c :: cs) = (c :: (cutString q cs).1, (cutString q cs).2) := by
  cases cs with
  | nil => rfl
  | cons d cs => rw [cutString, if_neg hc]

theorem cutString_pair (q : Char) (cs : List Char) :
    cutString q (q :: q :: cs) = (q :: q :: (cutString q cs).1, (cutString q cs).2) := by
  rw [cutString, if_pos rfl, if_pos rfl]

theorem endsString_cutString (q : Char) (cs : List Char) :
    EndsString q (cutString q cs).1 (cutString q cs).2 := by
  fun_induction cutString q cs with
  | case1 => exact .opened .nil
  | case2 c =>
    by_cases hc : c = q
    · subst hc
      exact .closed .nil (Option.some_ne_none _).symm
    · exact .opened (.char hc .nil)
  | case3 cs string rest heq ih =>
    rw [heq] at ih
    exact ih.pair
  | case4 d cs hd => exact .closed .nil fun heq => hd (Option.some.inj heq)
  | case5 c d cs hc string rest heq ih =>
    rw [heq] at ih
    exact ih.char hc

theorem Paired.cutString_closed (h : Paired q cs) (hnext : next.head? ≠ some q) :
    cutString q (cs ++ [q] ++ next) = (cs ++ [q], next) := by
  induction h with
  | nil =>
    cases next with
    | nil => rfl
    | cons d next =>
      have hd : d ≠ q := fun heq => hnext (congrArg some heq)
      rw [List.nil_append, List.singleton_append, cutString, if_pos rfl, if_neg hd]
  | char hc _ ih =>
    rw [List.cons_append, List.cons_append, cutString_cons_of_ne hc, ih]
  | pair _ ih =>
    simp only [List.cons_append, cutString_pair] at ih ⊢
    rw [ih]

theorem Paired.cutString_opened (h : Paired q cs) : cutString q cs = (cs, []) := by
  induction h with
  | nil => rfl
  | char hc _ ih => rw [cutString_cons_of_ne hc, ih]
  | pair _ ih => rw [cutString_pair, ih]

theorem Paired.not_concat (h : Paired q cs) : ¬ Paired q (cs ++ [q]) := by
  induction h with
  | nil => exact fun h => by cases h with | char hq => exact hq rfl
  | @char c cs hc _ ih =>
    -- The list has to be a variable for the case split on how it is paired.
    rw [List.cons_append]
    generalize cs ++ [q] = ds at ih
    intro h
    cases h with
    | char _ hds => exact ih hds
    | pair => exact hc rfl
  | pair _ ih =>
    intro h
    cases h with
    | char hq => exact hq rfl
    | pair hcs => exact ih hcs

theorem EndsString.cutString_eq (h : EndsString q body next) :
    cutString q (body ++ next) = (body, next) := by
  cases h with
  | closed hcs hnext => exact hcs.cutString_closed hnext
  | opened hcs => rw [List.append_nil, hcs.cutString_opened]

/-! ## The first token -/

/-- No blank is a word character. -/
theorem isWordChar_of_isBlank (h : isBlank c = true) : isWordChar c = false := by
  have hall : ∀ r ∈ blankRanges, ∀ n ∈ List.range' r.1 (r.2 + 1 - r.1),
      isWordChar (Char.ofNat n) = false := by decide +kernel
  obtain ⟨r, hr, hfirst, hlast⟩ := exists_mem_of_inRanges h
  rw [← Char.ofNat_toNat c]
  exact hall r hr c.toNat (List.mem_range'_1.2 (by omega))

/-- A word character begins no token of another class. -/
theorem lexeme_of_isWordChar (h : isWordChar c = true) (cs : List Char) :
    lexeme c cs = (.word, cutRun isWordChar cs) := by
  have hblank : isBlank c = false := by
    refine Bool.eq_false_iff.2 fun hblank => ?_
    rw [isWordChar_of_isBlank hblank] at h
    cases h
  let marks := ['-', '/', '\'', '"', '(', ')', '[', ']', '$', '.', ',', ';', '#', '@']
  have hmarks : ∀ d ∈ marks, c ≠ d := by
    have hmarks : marks.all (!isWordChar ·) = true := by decide
    rintro d hd rfl
    simpa [h] using List.all_eq_true.1 hmarks c hd
  simp only [marks, List.forall_mem_cons] at hmarks
  simp [lexeme, hblank, h, isQuote, isPunctuation, hmarks]

theorem lexeme_of_isQuote (h : isQuote q = true) (cs : List Char) :
    lexeme q cs = (.string, cutString q cs) := by
  simp only [isQuote, Bool.or_eq_true, beq_iff_eq] at h
  obtain rfl | rfl := h <;> rfl

/-- The first token of a text obeys the rule of its class. -/
theorem obeys_lexeme (c : Char) (cs : List Char) :
    Obeys (lexeme c cs).1 (c :: (lexeme c cs).2.1) (lexeme c cs).2.2 := by
  unfold lexeme
  split
  · next hblank => exact .whitespace (maximalRun_cutRun hblank cs)
  · next hblank =>
    split
    · next hline =>
      obtain ⟨rfl, hhead⟩ := hline
      obtain ⟨cs, rfl⟩ := List.head?_eq_some_iff.1 hhead
      exact .line (closes_cutLine cs)
    · next hline =>
      split
      · next hblock =>
        obtain ⟨rfl, hhead⟩ := hblock
        exact .block (closes_cutBlock cs.tail)
      · next hblock =>
        split
        · next hquote => exact .string hquote (endsString_cutString c cs)
        · next hquote =>
          split
          · next hpunctuation => exact .punctuation hpunctuation
          · next hpunctuation =>
            split
            · next hword => exact .word (maximalRun_cutRun hword cs)
            · next hword =>
              exact .other (by simpa using hblank) (by simpa using hquote)
                (by simpa using hpunctuation) (by simpa using hword) hline hblock

/-- A token that obeys its rule is the first one of its text. -/
theorem Obeys.lexeme_eq (h : Obeys k (c :: body) next) :
    lexeme c (body ++ next) = (k, body, next) := by
  cases h with
  | whitespace hrun =>
    obtain ⟨hc, hcut⟩ := hrun.cutRun_eq
    rw [lexeme, if_pos hc, hcut]
  | line hcloses => rw [List.cons_append, lexeme_line, hcloses.cutLine_eq]
  | block hcloses => rw [List.cons_append, lexeme_block, hcloses.cutBlock_eq]
  | string hquote hends => rw [lexeme_of_isQuote hquote, hends.cutString_eq]
  | punctuation hpunctuation => exact lexeme_of_isPunctuation hpunctuation next
  | word hrun =>
    obtain ⟨hc, hcut⟩ := hrun.cutRun_eq
    rw [lexeme_of_isWordChar hc, hcut]
  | other hblank hquote hpunctuation hword hline hblock =>
    simp [lexeme, hblank, hquote, hpunctuation, hword, hline, hblock]

/-! ## All tokens -/

theorem lawful_ofChars (cs : List Char) : Lawful (ofChars cs) := by
  fun_induction ofChars cs with
  | case1 => trivial
  | case2 c cs ih =>
    refine ⟨?_, ih⟩
    rw [chars_ofChars, String.toList_ofList]
    exact obeys_lexeme c cs

theorem Lawful.ofChars_chars (h : Lawful ts) : ofChars (chars ts) = ts := by
  induction ts with
  | nil => rw [chars_nil, ofChars]
  | cons t ts ih =>
    obtain ⟨ht, hts⟩ := h
    obtain ⟨c, body, htext⟩ := List.exists_cons_of_ne_nil ht.ne_nil
    rw [htext] at ht
    rw [chars_cons, htext, List.cons_append, ofChars_cons ht.lexeme_eq, ih hts, ← htext,
      String.ofList_toList]

theorem Lawful.exists_obeys (h : Lawful ts) {t : Token} (ht : t ∈ ts) :
    ∃ next, Obeys t.kind t.text.toList next := by
  induction ts with
  | nil => cases ht
  | cons u ts ih =>
    rcases List.mem_cons.1 ht with rfl | ht
    · exact ⟨_, h.1⟩
    · exact ih h.2 ht

theorem Lawful.text_ne_empty (h : Lawful ts) : ∀ t ∈ ts, t.text ≠ "" := by
  intro t ht hempty
  obtain ⟨next, hobeys⟩ := h.exists_obeys ht
  exact hobeys.ne_nil (by rw [hempty]; rfl)

/-- The tokens of a text are the only ones that make up the text and obey their rules. None of them
    is empty, and each ends between two characters of the text. -/
theorem tokenize_eq_iff (s : String) :
    (∀ ts, tokenize s = ts ↔ render ts = s ∧ Lawful ts) ∧
      (∀ t ∈ tokenize s, t.text ≠ "") ∧
      ∀ us vs, tokenize s = us ++ vs → (render us).rawEndPos.IsValid s := by
  refine ⟨fun ts => ⟨?_, ?_⟩, (lawful_ofChars s.toList).text_ne_empty, fun us vs h => ?_⟩
  · rintro rfl
    exact ⟨render_tokenize s, lawful_ofChars s.toList⟩
  · rintro ⟨rfl, hlawful⟩
    rw [tokenize, toList_render, hlawful.ofChars_chars]
  · refine String.Pos.Raw.isValid_iff_exists_append.2 ⟨render us, render vs, ?_, rfl⟩
    rw [← render_tokenize s, h, render, chars_append, String.ofList_append]
    rfl

end SchemaAlign.Token
