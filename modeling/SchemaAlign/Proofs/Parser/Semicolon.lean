import SchemaAlign.Proofs.Parser.Outline

/-!
# A semicolon put at the end

A statement that ends where the tokens do creates the same object when a semicolon is put at the
end. What creates the object are its first words; the semicolon is none of them.

* `Ended`: a stream with a semicolon more;
* `Steady`: parsers that a semicolon at the end makes no difference to;
* `ofStatement?_of_ended`: the object that a statement creates.
-/

namespace SchemaAlign.Parser

open SchemaAlign.Parser.Stream (ofTokens)

variable {α β : Type} {s s' r : Stream} {us vs ts : List Token} {t u : Token} {n : Nat}
  {st : Statement}

/-- The second stream has a semicolon more at its end. The gaps do not matter. -/
inductive Ended : Stream → Stream → Prop
  | done {g g' g'' : Gap} : Ended (.done g) (.item g' Token.semicolon (.done g''))
  | item {g g' : Gap} {t : Token} {s s' : Stream} : Ended s s' →
      Ended (.item g t s) (.item g' t s')

theorem ended_ofTokens (n n' : Nat) (us : List Token) (hvs : Trivia vs) :
    Ended (ofTokens n (us ++ vs)) (ofTokens n' (us ++ [Token.semicolon])) := by
  induction us using significant_induction generalizing n n' with
  | trivia w hw =>
    rw [ofTokens_trivia n (hw.append hvs), ofTokens_append n' hw rfl]
    exact .done
  | item w t us hw ht ih =>
    rw [List.append_assoc, List.append_assoc, List.cons_append, List.cons_append,
      ofTokens_append n hw ht, ofTokens_append n' hw ht]
    exact .item (ih _ _)

/-! ## Steady parsers -/

/-- What the parser reads, it reads with a semicolon more at the end, too. -/
def Steady (p : Parser α) : Prop :=
  ∀ s s' a r, Ended s s' → p s = .ok (a, r) → ∃ r', p s' = .ok (a, r') ∧ Ended r r'

theorem steady_pure (a : α) : Steady (pure a) := by
  rintro s s' _ _ hs ⟨⟩
  exact ⟨s', rfl, hs⟩

theorem steady_fail (fault : Fault) : Steady (fail fault : Parser α) :=
  fun _ _ _ _ _ h => nomatch h

theorem Steady.bind {p : Parser α} {k : α → Parser β} (hp : Steady p) (hk : ∀ a, Steady (k a)) :
    Steady (p >>= k) := by
  intro s s' b r hs h
  obtain ⟨a, s₁, h₁, h₂⟩ := bind_eq_ok h
  obtain ⟨s₁', h₁', hs₁⟩ := hp s s' a s₁ hs h₁
  obtain ⟨r', h₂', hr⟩ := hk a s₁ s₁' b r hs₁ h₂
  exact ⟨r', by rw [run_bind, h₁']; exact h₂', hr⟩

theorem Steady.ite {c : Prop} [Decidable c] {p q : Parser α} (hp : Steady p) (hq : Steady q) :
    Steady (if c then p else q) := by
  split
  · exact hp
  · exact hq

theorem ended_afterPhrase? (ks : List String) (hs : Ended s s') :
    Option.Rel Ended (s.afterPhrase? ks) (s'.afterPhrase? ks) := by
  induction ks generalizing s s' with
  | nil => exact .some hs
  | cons k ks ih =>
    cases hs with
    | done => exact .none
    | @item _ _ t _ _ hs =>
      rw [Stream.afterPhrase?, Stream.afterPhrase?]
      split
      · exact ih hs
      · exact .none

theorem steady_phrase? (ks : List String) : Steady (phrase? ks) := by
  intro s s' a r hs h
  have hrel := ended_afterPhrase? ks hs
  simp only [phrase?] at h ⊢
  generalize s.afterPhrase? ks = x at h hrel
  generalize s'.afterPhrase? ks = x' at hrel ⊢
  cases hrel with
  | none => cases h; exact ⟨s', rfl, hs⟩
  | some hr => cases h; exact ⟨_, rfl, hr⟩

theorem steady_punct? {mark : String} (h : mark ≠ ";") : Steady (punct? mark) := by
  intro s s' a r hs hr
  cases hs with
  | @done g g' g'' =>
    cases hr
    have hmark : Token.semicolon.isPunct mark = false := by
      simp [Token.isPunct, Token.semicolon, h.symm]
    refine ⟨.item g' Token.semicolon (.done g''), ?_, .done⟩
    simp only [punct?, hmark, Bool.false_eq_true, if_false]
  | @item _ _ t _ _ hs =>
    simp only [punct?] at hr ⊢
    split at hr
    · next ht => cases hr; exact ⟨_, if_pos ht, hs⟩
    · next ht => cases hr; exact ⟨_, if_neg ht, .item hs⟩

theorem steady_name? : Steady name? := by
  intro s s' a r hs hr
  cases hs with
  | done => cases hr; exact ⟨_, rfl, .done⟩
  | item hs =>
    simp only [name?] at hr ⊢
    split at hr
    · next ht => cases hr; exact ⟨_, rfl, hs⟩
    · next ht => cases hr; exact ⟨_, rfl, .item hs⟩

theorem steady_expectKeyword (keyword : String) (fault : Fault) :
    Steady (expectKeyword keyword fault) :=
  (steady_phrase? [keyword]).bind fun b => by
    cases b
    · exact steady_fail fault
    · exact steady_pure ()

theorem steady_expectName (fault : Fault) : Steady (expectName fault) :=
  steady_name?.bind fun name => by
    cases name
    · exact steady_fail fault
    · exact steady_pure _

theorem steady_ifNotExists : Steady ifNotExists :=
  (steady_phrase? ["IF"]).bind fun _ => .ite
    ((steady_expectKeyword _ _).bind fun _ => (steady_expectKeyword _ _).bind fun _ => steady_pure _)
    (steady_pure _)

theorem steady_tableName : Steady tableName :=
  (steady_expectName _).bind fun _ => (steady_punct? (by decide)).bind fun _ => .ite
    ((steady_expectName _).bind fun _ => steady_pure _) (steady_pure _)

theorem tableName_of_tableBody {x : Bool × String × List Column × List TableOption}
    (h : tableBody s = .ok (x, r)) :
    ∃ s₁ s₂, ifNotExists s = .ok (x.1, s₁) ∧ tableName s₁ = .ok (x.2.1, s₂) := by
  obtain ⟨_, s₁, hb, h₁⟩ := bind_eq_ok h
  obtain ⟨_, s₂, hname, h₂⟩ := bind_eq_ok h₁
  obtain ⟨_, _, -, h₃⟩ := bind_eq_ok h₂
  obtain ⟨_, _, -, h₄⟩ := bind_eq_ok h₃
  obtain ⟨_, _, -, h₅⟩ := bind_eq_ok h₄
  cases h₅
  exact ⟨s₁, s₂, hb, hname⟩

/-- The name of a table does not depend on a semicolon at the end. -/
theorem name_of_ended {x x' : Bool × String × List Column × List TableOption} {r' : Stream}
    (hs : Ended s s') (h : tableBody s = .ok (x, r)) (h' : tableBody s' = .ok (x', r')) :
    x'.2.1 = x.2.1 := by
  obtain ⟨s₁, s₂, hb, hname⟩ := tableName_of_tableBody h
  obtain ⟨s₁', s₂', hb', hname'⟩ := tableName_of_tableBody h'
  obtain ⟨s₃, hb₃, hs₁⟩ := steady_ifNotExists _ _ _ _ hs hb
  obtain ⟨-, rfl⟩ := Prod.mk.inj (Except.ok.inj (hb'.symm.trans hb₃))
  obtain ⟨s₄, hname₄, -⟩ := steady_tableName _ _ _ _ hs₁ hname
  exact (Prod.mk.inj (Except.ok.inj (hname'.symm.trans hname₄))).1

/-- Any other statement has the same words, and the semicolon as one more unless it ended
    before. -/
theorem words_of_ended (n : Nesting) (hs : Ended s s') :
    (s'.cutStatement n).1 = (s.cutStatement n).1 ∨
      (s'.cutStatement n).1 = (s.cutStatement n).1 ++ [";"] := by
  induction hs generalizing n with
  | done =>
    refine .inr ?_
    simp only [Stream.cutStatement]
    split <;> rfl
  | @item g g' t s s' hs ih =>
    simp only [Stream.cutStatement]
    split
    · exact .inl rfl
    · obtain h | h := ih (n.step t)
      · exact .inl (by rw [h])
      · exact .inr (by rw [h]; rfl)

/-! ## The object that a statement creates -/

open ObjectKey

theorem after?_semicolon (keywords words : List String) (h : isAnyOf keywords ";" = false) :
    after? keywords (words ++ [";"]) = (after? keywords words).map (· ++ [";"]) := by
  cases words with
  | nil => rw [List.nil_append, after?, h]; rfl
  | cons word words =>
    rw [List.cons_append, after?, after?]
    split <;> rfl

theorem getD_after?_semicolon (keywords words : List String) (h : isAnyOf keywords ";" = false) :
    (after? keywords (words ++ [";"])).getD (words ++ [";"]) =
      (after? keywords words).getD words ++ [";"] := by
  rw [after?_semicolon keywords words h]
  cases after? keywords words <;> rfl

theorem qualifiedName?_semicolon (words : List String) :
    qualifiedName? (words ++ [";"]) = qualifiedName? words := by
  have hname : ObjectKey.name? ";" = none := by decide +kernel
  match words with
  | [] => exact hname
  | [first] => rfl
  | [first, second] =>
    by_cases hdot : second = "."
    · subst hdot
      simp [qualifiedName?, hname]
    · simp_all [qualifiedName?]
  | first :: second :: third :: words =>
    by_cases hdot : second = "."
    · subst hdot
      rfl
    · simp_all [qualifiedName?]

/-- The semicolon belongs to none of the words that tell what a statement creates. -/
theorem ofWords?_semicolon (words : List String) : ofWords? (words ++ [";"]) = ofWords? words := by
  -- Word by word. The semicolon is no keyword, so both lists have a keyword at a place or neither.
  rw [ofWords?, ofWords?, after?_semicolon _ _ (by decide +kernel)]
  cases after? ["CREATE"] words with
  | none => rfl
  | some words₁ =>
    simp only [Option.map_some, bind, Option.bind_some]
    rw [getD_after?_semicolon _ _ (by decide +kernel)]
    generalize (after? ["TEMP", "TEMPORARY"] words₁).getD words₁ = words₂
    rw [getD_after?_semicolon _ _ (by decide +kernel), after?_semicolon _ _ (by decide +kernel),
      Option.isSome_map]
    generalize (after? ["UNIQUE"] words₂).isSome = unique
    generalize (after? ["UNIQUE"] words₂).getD words₂ = words₃
    cases words₃ with
    | nil =>
      have hkind : kind? unique ";" = none := by cases unique <;> decide +kernel
      simp [hkind]
    | cons keyword words₃ =>
      simp only [List.cons_append, after?_semicolon ["IF"] words₃ (by decide +kernel)]
      cases after? ["IF"] words₃ with
      | none => simp only [Option.map_none, qualifiedName?_semicolon]
      | some words₄ =>
        simp only [Option.map_some, after?_semicolon ["NOT"] words₄ (by decide +kernel)]
        cases after? ["NOT"] words₄ with
        | none => rfl
        | some words₅ =>
          simp only [Option.map_some, Option.bind_some,
            after?_semicolon ["EXISTS"] words₅ (by decide +kernel)]
          cases after? ["EXISTS"] words₅ with
          | none => rfl
          | some words₆ => simp only [Option.map_some, Option.bind_some, qualifiedName?_semicolon]

/-- A statement that is read up to the end creates the same object with a semicolon at the end. -/
theorem ofStatement?_of_ended {st st' : Statement} {r' : Stream} (hs : Ended s s')
    (h : statement s = .ok (st, r)) (h' : statement s' = .ok (st', r')) :
    ofStatement? st' = ofStatement? st := by
  rw [statement_eq] at h h'
  have hrel := ended_afterPhrase? ["CREATE", "TABLE"] hs
  generalize s.afterPhrase? ["CREATE", "TABLE"] = x at h hrel
  generalize s'.afterPhrase? ["CREATE", "TABLE"] = x' at h' hrel
  cases hrel with
  | none =>
    cases h
    cases h'
    rw [ofStatement?, ofStatement?]
    obtain hwords | hwords := words_of_ended .start hs
    · rw [hwords]
    · rw [hwords, ofWords?_semicolon]
  | some hr =>
    dsimp only at h h'
    split at h <;> cases h
    split at h' <;> cases h'
    next _ _ _ hbody _ _ _ hbody' =>
    rw [tableOf, tableOf, ofStatement?, ofStatement?, name_of_ended hr hbody hbody']

/-! ## The only statement of a closed list -/

/-- The last token of a statement is none that carries no meaning. -/
theorem last_of_statement (ht : t.isTrivia = false)
    (h : statement (ofTokens n (t :: us ++ vs)) = .ok (st, ofTokens (n + us.length + 1) vs)) :
    ∃ xs u, t :: us = xs ++ [u] ∧ u.isTrivia = false := by
  have hhead : (ofTokens n (t :: us ++ vs)).head? ≠ none := by
    rw [List.cons_append, ofTokens_cons n ht]
    nofun
  rcases (forward_statement _ _ _ h).ofTokens with heq | ⟨xs, u, zs, heq, hu, hrest⟩
  · exact absurd (size_of_statement h hhead) (by rw [heq]; exact Nat.lt_irrefl _)
  · obtain ⟨-, rfl⟩ := ofTokens_inj hrest
    refine ⟨xs, u, (List.append_left_inj vs).1 ?_, hu⟩
    rw [heq, List.append_assoc]
    rfl

/-- A list with one statement. The statement begins and ends with tokens that carry meaning, and
    those around it carry none. -/
theorem Reading.single (h : Reading 0 ts [st]) : ∃ w t us vs u, ts = w ++ (t :: us) ++ vs ∧
    statement (ofTokens w.length (t :: us ++ vs)) =
      .ok (st, ofTokens (w.length + us.length + 1) vs) ∧
    st.span = ⟨w.length, w.length + (t :: us).length⟩ ∧ Trivia w ∧ Trivia vs ∧
    t.isTrivia = false ∧ (t :: us).getLast? = some u ∧ u.isTrivia = false := by
  cases h with
  | @cons _ m w us vs t _ _ hw ht hm hst hvs =>
  rw [Nat.zero_add] at hm
  subst hm
  obtain ⟨xs, u, hxs, hu⟩ := last_of_statement ht hst
  refine ⟨w, t, us, vs, u, by rw [List.append_assoc], hst, ?_, hw, ?_, ht, ?_, hu⟩
  · rw [span_of_statement_ofTokens ht hst, List.length_cons, Nat.add_assoc]
  · cases hvs
    assumption
  · rw [hxs, List.getLast?_concat]

/-- A list that is one statement from the first to the last token begins and ends with tokens that
    carry meaning. -/
theorem Reading.ends (h : Reading 0 ts [st]) (hspan : st.span = ⟨0, ts.length⟩) :
    ∃ t us u, ts = t :: us ∧ t.isTrivia = false ∧ ts.getLast? = some u ∧ u.isTrivia = false := by
  obtain ⟨w, t, us, vs, u, rfl, -, hspan', -, -, ht, hlast, hu⟩ := h.single
  rw [hspan'] at hspan
  simp only [Span.mk.injEq, List.length_append] at hspan
  obtain rfl : w = [] := List.length_eq_zero_iff.1 hspan.1
  obtain rfl : vs = [] := List.length_eq_zero_iff.1 (by omega)
  rw [List.nil_append, List.append_nil]
  exact ⟨t, us, u, rfl, ht, hlast, hu⟩

/-- Sentences end with a semicolon. -/
theorem flat_eq_append {Ss : List Sentence} (h : Ss ≠ []) :
    ∃ us t, flat Ss = us ++ [t] ∧ t.isPunct ";" = true := by
  induction Ss with
  | nil => exact absurd rfl h
  | cons S Ss ih =>
    rcases Ss with _ | ⟨S', Ss⟩
    · obtain ⟨us, t, htokens, ht⟩ := S.exists_semicolon
      exact ⟨S.before ++ us, t, by simp [flat, htokens], ht⟩
    · obtain ⟨us, t, hflat, ht⟩ := ih (List.cons_ne_nil S' Ss)
      exact ⟨S.before ++ S.tokens ++ us, t, by rw [flat, hflat, ← List.append_assoc], ht⟩

/-- A closed list up to a significant token consists of sentences, so this token is a semicolon. -/
theorem flat_of_closed (h : Statement.Closed ts) (hlast : ts.getLast? = some u)
    (hu : u.isTrivia = false) : u.isPunct ";" = true ∧ ∃ Ss, ts = flat Ss := by
  obtain ⟨Ss, tail, htail, rfl⟩ := exists_sentences h
  rcases List.eq_nil_or_concat tail with rfl | ⟨tail, u', rfl⟩
  · rw [List.append_nil] at hlast ⊢
    have hne : Ss ≠ [] := by rintro rfl; cases hlast
    obtain ⟨us, u', hflat, hu'⟩ := flat_eq_append hne
    rw [hflat, List.getLast?_concat] at hlast
    cases hlast
    exact ⟨hu', Ss, rfl⟩
  · rw [List.concat_eq_append, ← List.append_assoc, List.getLast?_concat] at hlast
    cases hlast
    have := htail u (by simp)
    rw [hu] at this
    cases this

/-- If its first token is significant, too, it begins with a sentence. -/
theorem exists_sentence_of_closed (h : Statement.Closed (t :: us)) (ht : t.isTrivia = false)
    (hlast : (t :: us).getLast? = some u) (hu : u.isTrivia = false) :
    ∃ (S : Sentence) (vs : List Token), t :: us = S.tokens ++ vs := by
  obtain ⟨-, Ss, heq⟩ := flat_of_closed h hlast hu
  rcases Ss with _ | ⟨S, Ss⟩
  · cases heq
  refine ⟨S, flat Ss, ?_⟩
  rw [flat] at heq
  cases hbefore : S.before with
  | nil => rwa [hbefore] at heq
  | cons x w =>
    rw [hbefore] at heq
    cases heq
    have := S.trivia t (by simp [hbefore])
    rw [ht] at this
    cases this

/-- A statement that is the only one in a closed list is a sentence. -/
theorem exists_sentence_of_semicolon (ht : t.isTrivia = false)
    (h : statement (ofTokens n (t :: us ++ vs)) = .ok (st, ofTokens (n + us.length + 1) vs))
    (hlast : (t :: us).getLast? = some u) (hu : u.isTrivia = false)
    (hclosed : Statement.Closed (t :: us)) :
    ∃ S : Sentence, S.tokens = t :: us ∧ st = S.statement.shift 0 n := by
  obtain ⟨S, zs, heq⟩ := exists_sentence_of_closed hclosed ht hlast hu
  have hst := S.stands n (zs ++ vs)
  rw [show S.first :: S.more ++ (zs ++ vs) = t :: us ++ vs by
    rw [heq, List.append_assoc]; rfl, h] at hst
  obtain ⟨rfl, hrest⟩ := Prod.mk.inj (Except.ok.inj hst)
  obtain ⟨-, hzs⟩ := ofTokens_inj hrest
  obtain rfl : zs = [] := by simpa using hzs
  exact ⟨S, by rw [heq, List.append_nil], rfl⟩

/-- So is one that is closed by a semicolon after it. The sentence creates the same object. -/
theorem exists_sentence_of_terminated (ht : t.isTrivia = false) (hvs : Trivia vs)
    (h : statement (ofTokens n (t :: us ++ vs)) = .ok (st, ofTokens (n + us.length + 1) vs))
    (hlast : (t :: us).getLast? = some u) (hu : u.isPunct ";" = false)
    (hclosed : Statement.Closed (t :: us ++ [Token.semicolon])) :
    ∃ S : Sentence, S.tokens = t :: us ++ [Token.semicolon] ∧
      ObjectKey.ofStatement? S.statement = ObjectKey.ofStatement? st := by
  obtain ⟨S, zs, heq⟩ : ∃ (S : Sentence) (zs : List Token),
      t :: us ++ [Token.semicolon] = S.tokens ++ zs :=
    exists_sentence_of_closed hclosed ht (List.getLast?_concat (l := t :: us)) rfl
  have hfirst : S.first :: S.more ++ zs = t :: us ++ [Token.semicolon] := heq.symm
  rcases List.eq_nil_or_concat zs with rfl | ⟨zs, u', rfl⟩
  · rw [List.append_nil] at heq hfirst
    refine ⟨S, heq.symm, ?_⟩
    have hst := S.stands 0 []
    rw [List.append_nil, hfirst] at hst
    rw [← ofStatement?_shift S.statement 0 0]
    exact ofStatement?_of_ended (ended_ofTokens n 0 (t :: us) hvs) h hst
  · -- The sentence would be over before the semicolon, so the statement would be.
    rw [List.concat_eq_append, ← List.append_assoc] at heq
    obtain ⟨heq, -⟩ := List.append_inj' heq rfl
    have hst := S.stands n (zs ++ vs)
    rw [show S.first :: S.more ++ (zs ++ vs) = t :: us ++ vs by
      rw [heq, List.append_assoc]; rfl, h] at hst
    obtain ⟨-, hrest⟩ := Prod.mk.inj (Except.ok.inj hst)
    obtain ⟨-, hzs⟩ := ofTokens_inj hrest
    obtain rfl : zs = [] := by simpa using hzs
    obtain ⟨xs, u', htokens, hu'⟩ := S.exists_semicolon
    rw [heq, List.append_nil, htokens, List.getLast?_concat] at hlast
    cases hlast
    rw [hu] at hu'
    cases hu'

end SchemaAlign.Parser
