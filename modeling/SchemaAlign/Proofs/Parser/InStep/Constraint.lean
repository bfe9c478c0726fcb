import SchemaAlign.Proofs.Parser.InStep

/-!
# Constraints in step

The rules for the constraints of a column keep in step on streams that compare equal, and where they
are stuck they find nothing.

* `Rule.kind`: what the constraints of two columns have in common;
* `pairwise_toEnd`, `inStep_defaultValue`: expressions and literals;
* `inStep_foreignKey`, `tracks_rule?`: what a constraint demands;
* `tracks_constraint?`: a constraint with its name.
-/

namespace SchemaAlign

/-- The kinds of constraints. -/
inductive RuleKind where
  | primaryKey
  | notNull
  | null
  | unique
  | check
  | defaultsTo
  | collate
  | references
  | generated
  deriving DecidableEq, Repr

/-- What kind of constraint the rule belongs to. -/
def Rule.kind : Rule → RuleKind
  | primaryKey .. => .primaryKey
  | notNull _ => .notNull
  | null _ => .null
  | unique _ => .unique
  | check _ => .check
  | defaultsTo _ => .defaultsTo
  | collate _ => .collate
  | references _ => .references
  | generated .. => .generated

namespace Parser

open Text
open SchemaAlign.Parser.Stream (Pairwise)

variable {α β : Type} {R : Token → Token → Prop} {s s' r r' : Stream} {t t' : Token}

/-! ## Expressions and literals -/

section

variable (hR : ∀ t t', R t t' → t.meaning = t'.meaning)
include hR

theorem pairwise_toEnd (hs : Pairwise R s s') (d : Nat) : Pairwise R (s.toEnd d) (s'.toEnd d) := by
  induction hs generalizing d with
  | done => exact .done
  | @item g g' t t' s s' ht hs ih =>
    have hmark := isPunct_eq_of_meaning (hR t t' ht)
    have hends : endsExpression d t = endsExpression d t' := by simp only [endsExpression, hmark]
    have hdepth : depthAfter d t = depthAfter d t' := by simp only [depthAfter, hmark]
    by_cases h : endsExpression d t' = true
    · rw [toEnd_of_ends (hends.trans h), toEnd_of_ends h]
      exact .item ht hs
    · rw [toEnd_item (by simpa [hends] using h), toEnd_item (by simpa using h), hdepth]
      exact ih _

theorem inStep_expression? :
    InStep R (fun _ => False) (fun _ _ => True) expression? expression? := by
  intro s s' a b r r' hs ha hb
  rw [(expression?_eq_ok ha).1, (expression?_eq_ok hb).1]
  exact .inl ⟨trivial, pairwise_toEnd hR hs 0⟩

theorem inStep_parenthesized :
    InStep R (fun _ => False) (fun _ _ => True) parenthesized parenthesized := by
  refine (takesOne_expectPunct _ _).inStep.bind_exact fun _ _ _ =>
    (inStep_expression? hR).bind_exact fun a b _ => ?_
  cases a with
  | none => exact inStep_fail_left _ _
  | some text =>
    cases b with
    | none => exact inStep_fail_right _ _
    | some text' =>
      exact (takesOne_expectPunct _ _).inStep.bind_exact fun _ _ _ => .pure trivial

end

/-- `n` tokens are read or none. They are only read before a token that satisfies `p`. -/
def Passes (p : Token → Bool) (n : Nat) (s r : Stream) : Prop :=
  r = s ∨ s.headIs p = true ∧ r = Stream.tail^[n] s

theorem Passes.eq {p q : Token → Bool} {n : Nat} (h : Passes p n s r) (hq : s.headIs q = true)
    (hpq : ∀ t, q t = true → p t = false) : r = s := by
  rcases h with rfl | ⟨hp, -⟩
  · rfl
  · cases s with
    | done => cases hp
    | item g t s => exact absurd (show p t = true from hp) (by simp [hpq t hq])

theorem Passes.pairwise {p : Token → Bool} {n : Nat} (hp : ∀ t t', R t t' → p t = p t')
    (hs : Pairwise R s s') (h : Passes p n s r) (h' : Passes p n s' r') :
    Pairwise R r r' ∨ r.headIs p = true ∨ r'.headIs p = true := by
  rcases h with rfl | ⟨hhead, rfl⟩ <;> rcases h' with rfl | ⟨hhead', rfl⟩
  · exact .inl hs
  · exact .inr (.inl ((hs.headIs_eq hp).trans hhead'))
  · exact .inr (.inr ((hs.headIs_eq hp).symm.trans hhead))
  · exact .inl (hs.tail n)

theorem passes_adjacent? {p : Token → Token → Bool} {q : Token → Bool} {x : Token × Token}
    (hq : ∀ t u, p t u = true → q t = true) (h : adjacent? p s = some (x, r)) : Passes q 2 s r := by
  unfold adjacent? at h
  split at h
  · split at h
    · next htu =>
      cases h
      exact .inr ⟨hq _ _ htu, rfl⟩
    · cases h
  · cases h

/-- What a literal reads after its first part: the string of a blob, or the digits after a dot and
    those of an exponent, each of them or not. -/
theorem passes_literalRest {value v : String} (h : literalRest value s = .ok (v, r)) :
    ∃ s₁ s₂, Passes (·.kind == .string) 1 s s₁ ∧ Passes (·.isPunct ".") 2 s₁ s₂ ∧
      Passes isSign 2 s₂ r := by
  unfold literalRest at h
  split at h
  · next hblob =>
    cases h
    -- A blob is over with its string.
    refine ⟨r, r, .inr ?_, .inl rfl, .inl rfl⟩
    unfold blob? at hblob
    split at hblob
    · split at hblob
      · next ht =>
        cases hblob
        rw [Bool.and_eq_true] at ht
        exact ⟨ht.2, rfl⟩
      · cases hblob
    · cases hblob
  · simp only at h
    split at h
    · cases h
    · cases h
      refine ⟨s, (fraction value s).2, .inl rfl, ?fraction, ?exponent⟩
      case fraction =>
        unfold fraction
        split
        · next hdot =>
          exact passes_adjacent? (fun t u htu => ((Bool.and_eq_true _ _).mp htu).1) hdot
        · exact .inl rfl
      case exponent =>
        unfold exponent
        split
        · next hsign =>
          refine passes_adjacent? (fun t u htu => ?_) hsign
          simp only [isExponent, Bool.and_eq_true] at htu
          exact htu.2.1.1
        · exact .inl rfl

/-- No constraint begins where a literal might have gone on. -/
theorem stuck_of_sign (h : r.headIs isSign = true) : Stuck r := by
  cases r with
  | done => cases h
  | item g t r =>
    have hkind : t.kind = .other := kind_of_isSign h
    exact stuck_of_kind (by rw [hkind]; decide) (endsColumn_of_kind (by rw [hkind]; decide))

theorem stuck_of_dot (h : s.headIs (·.isPunct ".") = true) (hsign : Passes isSign 2 s r) :
    Stuck r := by
  obtain rfl := hsign.eq h fun t ht => by simp [isSign, kind_of_isPunct ht]
  cases r with
  | done => cases h
  | item g t r =>
    have ht : t.isPunct "." = true := h
    refine stuck_of_kind (by rw [kind_of_isPunct ht]; decide) ?_
    rw [endsColumn, isPunct_of_isPunct ht (by decide), isPunct_of_isPunct ht (by decide)]
    rfl

theorem stuck_of_string {q : Stream} (h : s.headIs (·.kind == .string) = true)
    (hdot : Passes (·.isPunct ".") 2 s q) (hsign : Passes isSign 2 q r) : Stuck r := by
  obtain rfl := hdot.eq h fun t ht => by simp [Token.isPunct, beq_iff_eq.1 ht]
  obtain rfl := hsign.eq h fun t ht => by simp [isSign, beq_iff_eq.1 ht]
  cases r with
  | done => cases h
  | item g t r =>
    have hkind : t.kind = .string := beq_iff_eq.1 (show (t.kind == .string) = true from h)
    exact stuck_of_kind (by rw [hkind]; decide) (endsColumn_of_kind (by rw [hkind]; decide))

section

variable (hR : ∀ t t', R t t' → t.meaning = t'.meaning)
include hR

/-- The rest of a literal, after first parts that may be written in different ways. Where only one
    of the literals goes on, the other one is stuck before what it does not read. -/
theorem inStep_literalRest (value value' : String) :
    InStep R (fun _ => True) (fun _ _ => True) (literalRest value) (literalRest value') := by
  intro s s' a b r r' hs ha hb
  obtain ⟨s₁, s₂, hstring, hdot, hsign⟩ := passes_literalRest ha
  obtain ⟨s₁', s₂', hstring', hdot', hsign'⟩ := passes_literalRest hb
  rcases hstring.pairwise (fun t t' ht => by rw [kind_eq_of_meaning (hR t t' ht)]) hs hstring' with
    hs₁ | hstop | hstop
  · rcases hdot.pairwise (fun t t' ht => isPunct_eq_of_meaning (hR t t' ht) _) hs₁ hdot' with
      hs₂ | hstop | hstop
    · rcases hsign.pairwise (fun t t' ht => isSign_eq_of_meaning (hR t t' ht)) hs₂ hsign' with
        hr | hstop | hstop
      · exact .inl ⟨trivial, hr⟩
      · exact .inr (.inl ⟨trivial, stuck_of_sign hstop⟩)
      · exact .inr (.inr ⟨trivial, stuck_of_sign hstop⟩)
    · exact .inr (.inl ⟨trivial, stuck_of_dot hstop hsign⟩)
    · exact .inr (.inr ⟨trivial, stuck_of_dot hstop hsign'⟩)
  · exact .inr (.inl ⟨trivial, stuck_of_string hstop hdot hsign⟩)
  · exact .inr (.inr ⟨trivial, stuck_of_string hstop hdot' hsign'⟩)

theorem inStep_sign : InStep R (fun _ => False) Eq sign sign := by
  intro s s' a b r r' hs ha hb
  cases hs with
  | done =>
    cases ha
    cases hb
    exact .inl ⟨rfl, .done⟩
  | @item _ _ t t' _ _ ht hs =>
    have hsame := isSign_eq_of_meaning (hR _ _ ht)
    simp only [sign] at ha hb
    by_cases hsign : isSign t = true
    · rw [if_pos hsign] at ha
      rw [if_pos (hsame ▸ hsign)] at hb
      cases ha
      cases hb
      have hkind := kind_of_isSign hsign
      exact .inl ⟨text_eq_of_meaning (hR _ _ ht) (by rw [hkind]; decide), hs⟩
    · rw [if_neg hsign] at ha
      rw [if_neg (hsame ▸ hsign)] at hb
      cases ha
      cases hb
      exact .inl ⟨rfl, .item ht hs⟩

theorem inStep_unsignedLiteral (signText : String) :
    InStep R (fun _ => True) (fun _ _ => True) (unsignedLiteral signText)
      (unsignedLiteral signText) := by
  intro s s' a b r r' hs ha hb
  cases hs with
  | done => cases ha
  | @item _ _ t t' _ _ ht hs =>
    have hkind := kind_eq_of_meaning (hR _ _ ht)
    have hdot := isPunct_eq_of_meaning (hR _ _ ht) "."
    simp only [unsignedLiteral, ← hkind, ← hdot] at ha hb
    split at ha
    · next hfirst =>
      rw [if_pos hfirst] at hb
      exact inStep_literalRest hR _ _ _ _ a b r r' hs ha hb
    · next hfirst =>
      rw [if_neg hfirst] at hb
      split at ha
      · next hfirst =>
        rw [if_pos hfirst] at hb
        exact inStep_literalRest hR _ _ _ _ a b r r' (.item ht hs) ha hb
      · cases ha

theorem inStep_defaultValue :
    InStep R (fun _ => True) (fun _ _ => True) defaultValue defaultValue := by
  refine .ite_exact (inStep_nextIs fun t t' ht => isPunct_eq_of_meaning (hR t t' ht) _) ?_ ?_
  · exact (inStep_parenthesized hR).bind_exact fun _ _ _ => .pure trivial
  · exact (inStep_sign hR).bind_exact fun a b hab => hab ▸ inStep_unsignedLiteral hR a

/-! ## Clauses -/

theorem tracks_conflict? : Tracks R (fun _ => True) (fun _ _ => True) conflict? :=
  .ite hR (by decide) (TakesOne.inStep (takesOne_choose (by decide) ⟨_, rfl⟩ fun _ => ⟨_, rfl⟩))
    (.pure trivial trivial)

theorem inStep_keyEffect : InStep R (fun _ => True) (fun _ _ => True) keyEffect keyEffect := by
  -- Where a word of the first two rules does not come next, no other one does.
  refine Tracks.inStep (τ := fun _ => False) (.ite hR (by decide) ?set (.ite hR (by decide) ?no
    (.bind_choose hR (by decide) (fun _ => .pure trivial) (tracks_fail _))))
  case set => exact TakesOne.inStep (takesOne_choose (by decide) ⟨_, rfl⟩ fun _ => ⟨_, rfl⟩)
  case no => exact (takesOne_expectKeyword _ _).inStep.bind_exact fun _ _ _ => .pure trivial

theorem tracks_keyCheck? : Tracks R (fun _ => True) (fun _ _ => True) keyCheck? :=
  .ite hR (by decide) (TakesOne.inStep (takesOne_choose (by decide) ⟨_, rfl⟩ fun _ => ⟨_, rfl⟩))
    (.pure trivial trivial)

theorem tracks_keyAction? : Tracks R (· = none) (Option.Rel fun _ _ => True) keyAction? := by
  refine .bind_choose hR (by decide) (fun event => ?on)
    (.ite hR (by decide) ?matching (.bind_choose hR (by decide) (fun negated => ?deferrable)
      (.pure .none rfl)))
  case on => exact (inStep_keyEffect hR).map (fun _ _ _ => .some trivial) fun _ _ => trivial
  case matching =>
    exact (takesOne_expectName _).inStep.bind_exact fun _ _ _ => .pure (.some trivial)
  case deferrable =>
    exact (tracks_keyCheck? hR).inStep.map (fun _ _ _ => .some trivial) fun _ _ => trivial

theorem inStep_keyColumns :
    InStep R (fun _ => False) (fun _ _ => True) keyColumns keyColumns := by
  refine (inStep_punct? hR _).ite_exact ?_ (.pure trivial)
  exact (inStep_commaSeparated hR (takesOne_expectName _).inStep).bind_exact fun _ _ _ =>
    (takesOne_expectPunct _ _).inStep.bind_exact fun _ _ _ => .pure trivial

theorem inStep_foreignKey : InStep R (fun _ => True) (fun _ _ => True) foreignKey foreignKey :=
  (takesOne_expectName _).inStep.bind_exact fun _ _ _ =>
    (inStep_keyColumns hR).bind_exact fun _ _ _ =>
      (tracks_keyAction? hR).many.inStep.bind (fun _ _ _ => .pure trivial)
        (fun _ _ => .pure trivial) fun _ _ => .pure trivial

/-! ## Rules -/

theorem inStep_primaryKey :
    InStep R (fun _ => True) (fun a b => a.kind = b.kind) primaryKey primaryKey := by
  have autoincrement (order : Option SortOrder) (conflict : Option Conflict) :
      Stays (fun _ => True) (do
        let autoincrement ← keyword? "AUTOINCREMENT"
        return Rule.primaryKey order conflict autoincrement) :=
    (stays_phrase? (by decide)).bind fun _ _ => .pure trivial
  have conflict (order : Option SortOrder) : Stays (fun _ => True) (do
      let conflict ← conflict?
      let autoincrement ← keyword? "AUTOINCREMENT"
      return Rule.primaryKey order conflict autoincrement) :=
    (tracks_conflict? hR).stays.bind fun _ _ => autoincrement order _
  refine (takesOne_expectKeyword _ _).inStep.bind_exact fun _ _ _ => ?_
  refine (inStep_choose hR (by decide)).bind (fun order order' _ => ?_) (fun _ _ => conflict _)
    fun _ _ => conflict _
  refine (tracks_conflict? hR).inStep.bind (fun _ _ _ => ?_) (fun _ _ => autoincrement _ _)
    fun _ _ => autoincrement _ _
  exact (inStep_phrase? hR (by decide)).bind (fun _ _ _ => .pure rfl) (fun _ _ => .pure trivial)
    fun _ _ => .pure trivial

theorem inStep_generated :
    InStep R (fun _ => True) (fun a b => a.kind = b.kind) generated generated :=
  (inStep_parenthesized hR).bind_exact fun _ _ _ =>
    (inStep_choose hR (by decide)).bind (fun _ _ _ => .pure rfl) (fun _ _ => .pure trivial)
      fun _ _ => .pure trivial

theorem tracks_rule? : Tracks R (· = none) (Option.Rel fun a b => a.kind = b.kind) rule? := by
  have found {α : Type} {p : Parser α} {τ : α → Prop} {ρ : α → α → Prop} {f : α → Rule}
      (hp : InStep R τ ρ p p) (hf : ∀ a b, ρ a b → (f a).kind = (f b).kind) :
      InStep R (fun _ => True) (Option.Rel fun a b => a.kind = b.kind)
        (do return some (f (← p))) (do return some (f (← p))) :=
    hp.map (fun a b hab => .some (hf a b hab)) fun _ _ => trivial
  have conflict (f : Option Conflict → Rule) (hf : ∀ a b, (f a).kind = (f b).kind) :=
    found (f := f) (tracks_conflict? hR).inStep fun a b _ => hf a b
  -- `NOT` is read alone, but nothing else than `NULL` may follow it.
  refine .ite hR (by decide) ?primary (.of_ok ?others fun _ _ => phrase?_concat)
  case primary => exact found (inStep_primaryKey hR) fun _ _ h => h
  refine .ite hR (by decide) ?notNull (.ite hR (by decide) ?null (.ite hR (by decide) ?unique
    (.ite hR (by decide) ?check (.ite hR (by decide) ?default (.ite hR (by decide) ?collate
    (.ite hR (by decide) ?references (.ite hR (by decide) ?generated (.ite hR (by decide) ?as
    (.pure .none rfl)))))))))
  case notNull => exact conflict .notNull fun _ _ => rfl
  case null => exact conflict .null fun _ _ => rfl
  case unique => exact conflict .unique fun _ _ => rfl
  case check => exact found (inStep_parenthesized hR) fun _ _ _ => rfl
  case default => exact found (inStep_defaultValue hR) fun _ _ _ => rfl
  case collate =>
    exact (takesOne_expectName _).inStep.bind_exact fun _ _ _ => .pure (.some rfl)
  case references => exact found (inStep_foreignKey hR) fun _ _ _ => rfl
  case generated =>
    exact (takesOne_expectKeyword _ _).inStep.bind_exact fun _ _ _ =>
      (takesOne_expectKeyword _ _).inStep.bind_exact fun _ _ _ =>
        found (inStep_generated hR) fun _ _ h => h
  case as => exact found (inStep_generated hR) fun _ _ h => h

/-! ## Constraints -/

theorem tracks_constraintName? : Tracks R (fun _ => True) (fun _ _ => True) constraintName? :=
  .ite hR (by decide) ((takesOne_expectName _).inStep.bind_exact fun _ _ _ => .pure trivial)
    (.pure trivial trivial)

theorem tracks_constraint? :
    Tracks R (· = none) (Option.Rel fun a b => a.rule.kind = b.rule.kind) constraint? := by
  -- That a name is not without a rule is one more thing that may fail.
  have unchecked : Tracks R (·.2 = none) (fun x y => Option.Rel (·.kind = ·.kind) x.2 y.2) (do
      let name ← constraintName?
      let rule ← rule?
      return (name, rule)) := by
    have named (name : Option String) : Stays (·.2 = none) (do
        let rule ← rule?
        return (name, rule)) :=
      (tracks_rule? hR).stays.bind fun _ h => .pure h
    constructor
    case inStep =>
      refine (tracks_constraintName? hR).inStep.bind (fun name name' _ => ?_)
        (fun name _ => (named name).mono fun _ _ => trivial)
        fun name _ => (named name).mono fun _ _ => trivial
      exact (tracks_rule? hR).inStep.bind (fun _ _ h => .pure h) (fun _ _ => .pure trivial)
        fun _ _ => .pure trivial
    case stays => exact (tracks_constraintName? hR).stays.bind fun name _ => named name
  have parts : Tracks R (·.2 = none) (fun x y => Option.Rel (·.kind = ·.kind) x.2 y.2) (do
      let name ← constraintName?
      let rule ← rule?
      if name.isSome && rule.isNone then fail .columnConstraint
      return (name, rule)) := by
    refine unchecked.of_ok fun s x h => ?_
    obtain ⟨name, s₁, hname, h⟩ := bind_eq_ok h
    obtain ⟨rule, s₂, hrule, h⟩ := bind_eq_ok h
    simp only [run_bind, hname, hrule]
    split at h
    · cases h
    · exact h
  refine parts.spanned.map (fun x y h => ?_) fun x h => ?_
  · obtain ⟨⟨name, rule⟩, span⟩ := x
    obtain ⟨⟨name', rule'⟩, span'⟩ := y
    cases h with
    | some h => exact .some h
    | none => exact .none
  · obtain ⟨⟨name, rule⟩, span⟩ := x
    exact congrArg (Option.map _) h

end

end Parser

end SchemaAlign
