import SchemaAlign.Proofs.Parser.Forward
import SchemaAlign.Proofs.Parser.Parallel

/-!
# Expressions and literals are read alike everywhere

An expression is cut before a semicolon at the latest, and the parts of a literal are looked for
among neighbours, none of which is a semicolon. So the rules for both are uniform.

* `parallel_cutExpression`, `uniform_expression?`: expressions;
* `parallel_adjacent?`, `uniform_defaultValue`: literals.
-/

namespace SchemaAlign.Parser

open SchemaAlign.Parser.Stream (Meets Parallel isBarrier)

variable {d : Nat} {T T' s s' : Stream}

/-! ## Expressions -/

variable {α β : Type} {ρ : α → β → Prop}

theorem cutExpression_of_isBarrier {B : Stream} (h : B.isBarrier = true) (depth : Nat) :
    B.cutExpression depth = (B.gap.trivia, depth, B) := by
  cases B with
  | done => rfl
  | item g t rest =>
    have ht : endsExpression depth t = true := by simp [endsExpression, show t.isPunct ";" = true from h]
    simp only [Stream.cutExpression, ht, if_true, Stream.gap]

variable (hT : Meets d T T')
include hT

/-- The depth at the end of an expression is the same, and so are its tokens, unless they go on to
    barriers with different gaps before them. -/
theorem parallel_cutExpression (hs : Parallel d T T' s s') (depth : Nat) :
    (s'.cutExpression depth).2.1 = (s.cutExpression depth).2.1 ∧
      Parallel d T T' (s.cutExpression depth).2.2 (s'.cutExpression depth).2.2 ∧
      ((s'.cutExpression depth).1 = (s.cutExpression depth).1 ∨
        T'.gap ≠ T.gap.shift d ∧ (s.cutExpression depth).2.2 = T ∧
          (s'.cutExpression depth).2.2 = T') := by
  induction hs generalizing depth with
  | barrier =>
    rw [cutExpression_of_isBarrier hT.left, cutExpression_of_isBarrier hT.right]
    refine ⟨rfl, .barrier, ?_⟩
    by_cases hgap : T'.gap = T.gap.shift d
    · exact .inl (by rw [hgap]; rfl)
    · exact .inr ⟨hgap, rfl, rfl⟩
  | @item g t s s' hs ih =>
    by_cases he : endsExpression depth t = true
    · simp only [Stream.cutExpression, he, if_true]
      exact ⟨trivial, .item hs, .inl rfl⟩
    · obtain ⟨h1, h2, h3⟩ := ih (depthAfter depth t)
      simp only [Stream.cutExpression, he, Gap.shift, Bool.false_eq_true, if_false]
      exact ⟨h1, h2, h3.imp_left fun h => by rw [h]⟩

omit hT in
theorem uniform_expressionText (ts : List Token) (n : Nat) :
    Uniform d T T' Eq (expressionText ts n) (expressionText ts n) := by
  unfold expressionText
  split
  · exact (uniform_fail _).bind_eq fun _ => .pure rfl
  · exact .pure rfl

omit hT in
/-- What fails after any text of an expression fails after the text of these tokens. -/
theorem error_of_expressionText {k : Option String → Parser α} (ts : List Token) (n : Nat)
    (hk : ∀ text, ∃ e, k text s = .error e) : ∃ e, (expressionText ts n >>= k) s = .error e := by
  unfold expressionText
  split
  · exact ⟨_, rfl⟩
  · exact hk _

/-- An expression, and what follows it. As that cannot be a barrier, the gap before a barrier is no
    part of the text. -/
theorem uniform_expression? {k : Option String → Parser α} {l : Option String → Parser β}
    (hk : ∀ text, Uniform d T T' ρ (k text) (l text))
    (hleft : ∀ text, ∃ e, k text T = .error e) (hright : ∀ text, ∃ e, l text T' = .error e) :
    Uniform d T T' ρ (expression? >>= k) (expression? >>= l) := by
  intro s s' hs
  obtain ⟨hdepth, hrest, htokens⟩ := parallel_cutExpression hT hs 0
  change Matches d T T' ρ
    ((expressionText (s.cutExpression 0).1 (s.cutExpression 0).2.1 >>= k) (s.cutExpression 0).2.2)
    ((expressionText (s'.cutExpression 0).1 (s'.cutExpression 0).2.1 >>= l) (s'.cutExpression 0).2.2)
  obtain htokens | ⟨hgap, h, h'⟩ := htokens
  · rw [htokens, hdepth]
    exact (uniform_expressionText _ _).bind_eq hk _ _ hrest
  · rw [h, h']
    obtain ⟨e, he⟩ := error_of_expressionText _ _ hleft
    obtain ⟨e', he'⟩ := error_of_expressionText _ _ hright
    rw [he, he']
    exact fun h => absurd h hgap

omit hT in
theorem error_of_expectPunct {B : Stream} (h : B.isBarrier = true) {mark : String} (hm : mark ≠ ";")
    (fault : Fault) (k : Unit → Parser α) : ∃ e, (expectPunct mark fault >>= k) B = .error e := by
  refine ⟨⟨fault, B.gap.stop⟩, ?_⟩
  simp only [expectPunct, run_bind, punct?_of_barrier h hm]
  rfl

theorem uniform_parenthesized : Uniform d T T' Eq parenthesized parenthesized := by
  refine (uniform_expectPunct hT (by decide) _).bind_eq fun _ => ?_
  refine uniform_expression? hT (fun text => ?_) (fun text => ?_) (fun text => ?_) <;>
    cases text with
    | none => ?_
    | some text => ?_
  · exact uniform_fail _
  · exact (uniform_expectPunct hT (by decide) _).bind_eq fun _ => .pure rfl
  · exact ⟨_, rfl⟩
  · exact error_of_expectPunct hT.left (by decide) _ _
  · exact ⟨_, rfl⟩
  · exact error_of_expectPunct hT.right (by decide) _ _

/-! ## Literals -/

omit hT in
theorem kind_of_isPunct {t : Token} {mark : String} (h : t.isPunct mark = true) :
    t.kind = .punctuation := by
  rw [eq_of_isPunct h]

omit hT in
theorem blob?_of_isBarrier {B : Stream} (h : B.isBarrier = true) (value : String) :
    blob? value B = none := by
  cases B with
  | done => rfl
  | item g t rest =>
    rcases g with ⟨n, _ | _⟩
    · simp [blob?, kind_of_isPunct h]
    · rfl

theorem parallel_blob? (hs : Parallel d T T' s s') (value : String) :
    (blob? value s = none ∧ blob? value s' = none) ∨
      ∃ v r r', blob? value s = some (v, r) ∧ blob? value s' = some (v, r') ∧
        Parallel d T T' r r' := by
  cases hs with
  | barrier => exact .inl ⟨blob?_of_isBarrier hT.left _, blob?_of_isBarrier hT.right _⟩
  | @item g t s s' hs =>
    rcases g with ⟨n, _ | _⟩
    · simp only [blob?, Gap.shift]
      split
      · exact .inr ⟨_, _, _, rfl, rfl, hs⟩
      · exact .inl ⟨rfl, rfl⟩
    · exact .inl ⟨rfl, rfl⟩

omit hT in
theorem adjacent?_of_isBarrier {p : Token → Token → Bool} {B : Stream} (h : B.isBarrier = true)
    (hp : ∀ t u : Token, t.isPunct ";" = true → p t u = false) : adjacent? p B = none := by
  unfold adjacent?
  split
  · rw [hp _ _ h]
    rfl
  · rfl

omit hT in
theorem adjacent?_item_of_isBarrier {p : Token → Token → Bool} {B : Stream}
    (h : B.isBarrier = true) (hp : ∀ t u : Token, u.isPunct ";" = true → p t u = false) (g : Gap)
    (t : Token) : adjacent? p (.item g t B) = none := by
  unfold adjacent?
  split
  · next heq =>
    cases heq
    rw [hp _ _ h]
    rfl
  · rfl

/-- Two neighbours are the same on parallel streams, unless one of them may be a semicolon. -/
theorem parallel_adjacent? (hs : Parallel d T T' s s') {p : Token → Token → Bool}
    (hp : ∀ t u : Token, t.isPunct ";" = true ∨ u.isPunct ";" = true → p t u = false) :
    (adjacent? p s = none ∧ adjacent? p s' = none) ∨
      ∃ x r r', adjacent? p s = some (x, r) ∧ adjacent? p s' = some (x, r') ∧
        Parallel d T T' r r' := by
  cases hs with
  | barrier =>
    exact .inl ⟨adjacent?_of_isBarrier hT.left fun t u h => hp t u (.inl h),
      adjacent?_of_isBarrier hT.right fun t u h => hp t u (.inl h)⟩
  | @item g t _ _ hs =>
    -- The second neighbour may be the barrier, which `p` refuses as it refuses any semicolon.
    cases hs with
    | barrier =>
      exact .inl ⟨adjacent?_item_of_isBarrier hT.left (fun t u h => hp t u (.inr h)) _ _,
        adjacent?_item_of_isBarrier hT.right (fun t u h => hp t u (.inr h)) _ _⟩
    | @item g' u _ _ hs =>
      rcases g with ⟨_, _ | _⟩ <;> rcases g' with ⟨_, _ | _⟩
      · simp only [adjacent?, Gap.shift]
        split
        · exact .inr ⟨_, _, _, rfl, rfl, hs⟩
        · exact .inl ⟨rfl, rfl⟩
      all_goals exact .inl ⟨rfl, rfl⟩

theorem parallel_fraction (hs : Parallel d T T' s s') (value : String) :
    (fraction value s').1 = (fraction value s).1 ∧
      Parallel d T T' (fraction value s).2 (fraction value s').2 := by
  have hp : ∀ t u : Token, t.isPunct ";" = true ∨ u.isPunct ";" = true →
      (t.isPunct "." && u.kind == .word) = false := by
    rintro t u (h | h)
    · simp [isPunct_of_isPunct h]
    · simp [kind_of_isPunct h]
  simp only [fraction]
  obtain ⟨h, h'⟩ | ⟨x, r, r', h, h', hr⟩ := parallel_adjacent? hT hs hp
  · rw [h, h']
    exact ⟨rfl, hs⟩
  · rw [h, h']
    exact ⟨rfl, hr⟩

theorem parallel_exponent (hs : Parallel d T T' s s') (value : String) :
    (exponent value s').1 = (exponent value s).1 ∧
      Parallel d T T' (exponent value s).2 (exponent value s').2 := by
  have hp : ∀ t u : Token, t.isPunct ";" = true ∨ u.isPunct ";" = true →
      (opensExponent value && isExponent t u) = false := by
    rintro t u (h | h) <;> simp [isExponent, isSign, kind_of_isPunct h]
  simp only [exponent]
  obtain ⟨h, h'⟩ | ⟨x, r, r', h, h', hr⟩ := parallel_adjacent? hT hs hp
  · rw [h, h']
    exact ⟨rfl, hs⟩
  · rw [h, h']
    exact ⟨rfl, hr⟩

omit hT in
/-- The end of a literal, in one piece. -/
theorem literalRest_eq (value : String) (s : Stream) :
    literalRest value s =
      match blob? value s with
      | some found => .ok found
      | none =>
        if isBareSign (exponent (fraction value s).1 (fraction value s).2).1 then
          .error ⟨.defaultValue, (exponent (fraction value s).1 (fraction value s).2).2.gap.start⟩
        else .ok (exponent (fraction value s).1 (fraction value s).2) :=
  rfl

theorem uniform_literalRest (value : String) :
    Uniform d T T' Eq (literalRest value) (literalRest value) := by
  intro s s' hs
  obtain ⟨h1, hf⟩ := parallel_fraction hT hs value
  obtain ⟨h2, he⟩ := parallel_exponent hT hf (fraction value s).1
  rw [literalRest_eq, literalRest_eq]
  obtain ⟨h, h'⟩ | ⟨v, r, r', h, h', hr⟩ := parallel_blob? hT hs value
  · simp only [h, h', h1, h2]
    split
    · exact fun _ => by rw [he.start_gap hT]
    · exact ⟨h2.symm, he⟩
  · rw [h, h']
    exact ⟨rfl, hr⟩

theorem uniform_sign : Uniform d T T' Eq sign sign := by
  intro s s' hs
  cases hs with
  | @item g t s s' hs =>
    simp only [sign]
    split
    · exact ⟨rfl, hs⟩
    · exact ⟨rfl, .item hs⟩
  | barrier =>
    have hB : ∀ B : Stream, B.isBarrier = true → sign B = .ok ("", B) := by
      rintro (_ | ⟨g, t, rest⟩) h
      · rfl
      · simp [sign, isSign, kind_of_isPunct h]
    rw [hB T hT.left, hB T' hT.right]
    exact ⟨rfl, .barrier⟩

theorem uniform_unsignedLiteral (signText : String) :
    Uniform d T T' Eq (unsignedLiteral signText) (unsignedLiteral signText) := by
  intro s s' hs
  cases hs with
  | @item g t s s' hs =>
    simp only [unsignedLiteral]
    split
    · exact uniform_literalRest hT _ _ _ hs
    split
    · rw [Gap.skipped_shift]
      exact uniform_literalRest hT _ _ _ (.item hs)
    · exact uniform_fail _ _ _ (.item hs)
  | barrier =>
    have hB : ∀ B : Stream, B.isBarrier = true →
        unsignedLiteral signText B = fail .defaultValue B := by
      rintro (_ | ⟨g, t, rest⟩) h
      · rfl
      · simp [unsignedLiteral, kind_of_isPunct h, isPunct_of_isPunct h]
    rw [hB T hT.left, hB T' hT.right]
    exact uniform_fail _ _ _ .barrier

theorem uniform_defaultValue : Uniform d T T' Eq defaultValue defaultValue := by
  have hp : ∀ t : Token, t.isPunct ";" = true → t.isPunct "(" = false :=
    fun t h => isPunct_of_isPunct h (by decide)
  refine (uniform_nextIs hT hp).ite ?_ ?_
  · exact (uniform_parenthesized hT).bind_eq fun _ => .pure rfl
  · exact (uniform_sign hT).bind_eq fun text => uniform_unsignedLiteral hT text

end SchemaAlign.Parser
