import SchemaAlign.Parser.Statement

/-!
# Parsers go forward

What a parser leaves is the rest of what it was given.

* `Stream.Rest`: what is left of a stream after some of its tokens;
* `Forward`: parsers that leave such a rest;
* `Finding`: those of them that read a token where they find something;
* `forward_statement`: one statement.
-/

namespace SchemaAlign.Parser

open Text

/-! ## What is left of a stream -/

namespace Stream

/-- `Rest s r`: what is left of `s` after some significant tokens is `r`. -/
inductive Rest : Stream → Stream → Prop
  | refl {s : Stream} : Rest s s
  | item {g : Gap} {t : Token} {s r : Stream} : Rest s r → Rest (.item g t s) r

variable {s r q : Stream}

theorem Rest.trans (h : Rest s r) (h' : Rest r q) : Rest s q := by
  induction h with
  | refl => exact h'
  | item _ ih => exact .item (ih h')

theorem Rest.size_le (h : Rest s r) : r.size ≤ s.size := by
  induction h with
  | refl => exact Nat.le_refl _
  | item _ ih => exact Nat.le_succ_of_le ih

theorem Rest.of_withGap {g : Gap} (h : Rest (s.withGap g) r) :
    r = s.withGap g ∨ (Rest s r ∧ r.size < s.size) := by
  cases s with
  | done => cases h; exact .inl rfl
  | item =>
    cases h with
    | refl => exact .inl rfl
    | item h => exact .inr ⟨.item h, Nat.lt_succ_of_le h.size_le⟩

/-- The tokens of a rest are the last ones of the list, in their places. -/
theorem Rest.ofTokens {ts : List Token} {n : Nat} (h : Rest (ofTokens n ts) r) :
    r = ofTokens n ts ∨
      ∃ us t vs, ts = us ++ t :: vs ∧ t.isTrivia = false ∧
        r = ofTokens (n + us.length + 1) vs := by
  induction ts generalizing n with
  | nil => cases h; exact .inl rfl
  | cons t ts ih =>
    by_cases ht : t.isTrivia = true
    · simp only [Stream.ofTokens, ht, if_true] at h ⊢
      obtain rfl | ⟨h, hlt⟩ := h.of_withGap
      · exact .inl rfl
      obtain rfl | ⟨us, u, vs, rfl, hu, rfl⟩ := ih h
      · exact absurd hlt (Nat.lt_irrefl _)
      · exact .inr ⟨t :: us, u, vs, rfl, hu, by rw [List.length_cons]; congr 1; omega⟩
    · simp only [Stream.ofTokens, ht, Bool.false_eq_true, if_false] at h ⊢
      cases h with
      | refl => exact .inl rfl
      | item h =>
        obtain rfl | ⟨us, u, vs, rfl, hu, rfl⟩ := ih h
        · exact .inr ⟨[], t, ts, rfl, by simpa using ht, rfl⟩
        · exact .inr ⟨t :: us, u, vs, rfl, hu, by rw [List.length_cons]; congr 1; omega⟩

end Stream

open SchemaAlign.Parser.Stream (Rest)

/-! ## Running parsers -/

section

variable {α β : Type} {s r : Stream}

theorem run_bind (p : Parser α) (k : α → Parser β) (s : Stream) :
    (p >>= k) s =
      match p s with
      | .error e => .error e
      | .ok (a, s) => k a s := by
  change (p s >>= fun x => k x.1 x.2) = _
  cases p s <;> rfl

theorem run_pure (a : α) (s : Stream) : (pure a : Parser α) s = .ok (a, s) := rfl

theorem run_get (s : Stream) : (get : Parser Stream) s = .ok (s, s) := rfl

/-- What two parsers one after the other read. -/
theorem bind_eq_ok {p : Parser α} {k : α → Parser β} {b : β} (h : (p >>= k) s = .ok (b, r)) :
    ∃ a s', p s = .ok (a, s') ∧ k a s' = .ok (b, r) := by
  rw [run_bind] at h
  split at h
  · cases h
  · next a s' hp => exact ⟨a, s', hp, h⟩

theorem spanned_eq_ok {p : Parser α} {x : α × Span} (h : spanned p s = .ok (x, r)) :
    p s = .ok (x.1, r) ∧ x.2 = ⟨s.gap.stop, r.gap.start⟩ := by
  obtain ⟨_, _, hs, h₁⟩ := bind_eq_ok h
  cases hs
  obtain ⟨a, r', hp, h₂⟩ := bind_eq_ok h₁
  cases h₂
  exact ⟨hp, rfl⟩

end

/-! ## Combining parsers -/

variable {α β : Type}

/-- What the parser leaves is the rest of what it was given. -/
def Forward (p : Parser α) : Prop :=
  ∀ s a r, p s = .ok (a, r) → Rest s r

theorem Forward.pure {a : α} : Forward (pure a) := by
  intro s b r h
  cases h
  exact .refl

theorem Forward.bind {p : Parser α} {k : α → Parser β} (hp : Forward p)
    (hk : ∀ a, Forward (k a)) : Forward (p >>= k) := by
  intro s b r h
  obtain ⟨a, s', ha, hb⟩ := bind_eq_ok h
  exact (hp s a s' ha).trans (hk a s' b r hb)

/-- A parser that finds something or nothing, and what is done in either case. -/
theorem Forward.bind_option {p : Parser (Option α)} {k : Option α → Parser β} (hp : Forward p)
    (hnone : Forward (k none)) (hsome : ∀ a, Forward (k (some a))) : Forward (p >>= k) :=
  hp.bind fun
    | none => hnone
    | some a => hsome a

theorem Forward.ite {p : Parser Bool} {k l : Parser α} (hp : Forward p) (hk : Forward k)
    (hl : Forward l) : Forward (do if ← p then k else l) :=
  hp.bind fun b => by cases b <;> assumption

theorem forward_fail (fault : Fault) : Forward (fail fault : Parser α) := by
  intro s a r h
  cases h

theorem forward_nextIs (p : Token → Bool) : Forward (nextIs p) := by
  intro s b r h
  cases h
  exact .refl

theorem rest_of_afterPhrase? {ks : List String} {s r : Stream} (h : s.afterPhrase? ks = some r) :
    Rest s r := by
  induction ks generalizing s with
  | nil => cases h; exact .refl
  | cons k ks ih =>
    cases s with
    | done => cases h
    | item g t rest =>
      rw [Stream.afterPhrase?] at h
      split at h
      · exact .item (ih h)
      · cases h

theorem forward_phrase? (ks : List String) : Forward (phrase? ks) := by
  intro s b r h
  simp only [phrase?] at h
  split at h
  · next hk => cases h; exact rest_of_afterPhrase? hk
  · cases h; exact .refl

theorem forward_keyword? (k : String) : Forward (keyword? k) :=
  forward_phrase? [k]

theorem forward_punct? (mark : String) : Forward (punct? mark) := by
  intro s b r h
  cases s with
  | done => cases h; exact .refl
  | item g t rest =>
    simp only [punct?] at h
    split at h <;> cases h
    · exact .item .refl
    · exact .refl

theorem forward_name? : Forward name? := by
  intro s b r h
  cases s with
  | done => cases h; exact .refl
  | item g t rest =>
    simp only [name?] at h
    split at h <;> cases h
    · exact .item .refl
    · exact .refl

theorem forward_choose (choices : List (List String × α)) : Forward (choose choices) := by
  induction choices with
  | nil => exact .pure
  | cons choice choices ih => exact (forward_phrase? choice.1).ite .pure ih

theorem forward_expectKeyword (k : String) (fault : Fault) : Forward (expectKeyword k fault) :=
  (forward_keyword? k).ite .pure (forward_fail fault)

theorem forward_expectPunct (mark : String) (fault : Fault) : Forward (expectPunct mark fault) :=
  (forward_punct? mark).ite .pure (forward_fail fault)

theorem forward_expectName (fault : Fault) : Forward (expectName fault) :=
  forward_name?.bind_option (forward_fail fault) fun _ => .pure

theorem Forward.spanned {p : Parser α} (hp : Forward p) : Forward (spanned p) := by
  intro s x r h
  exact hp s _ r (spanned_eq_ok h).1

theorem Forward.rounds {p : Parser (Round α)} (hp : Forward p) : Forward (rounds p) := by
  intro s as r h
  fun_induction Parser.rounds p s generalizing as with
  | case1 => cases h
  | case2 s rest hs => cases h; exact hp _ _ _ hs
  | case3 s a rest hs => cases h; exact hp _ _ _ hs
  | case4 => cases h
  | case5 s a rest hs hlt as rest' hr ih => cases h; exact (hp _ _ _ hs).trans (ih _ hr)
  | case6 s a rest hs hlt => cases h; exact hp _ _ _ hs

theorem Forward.many {p : Parser (Option α)} (hp : Forward p) : Forward (many p) := by
  refine Forward.rounds (hp.bind_option ?_ fun a => ?_)
  · exact .pure
  · exact .pure

theorem Forward.commaSeparated {p : Parser α} (hp : Forward p) : Forward (commaSeparated p) :=
  Forward.rounds (hp.bind fun _ => (forward_punct? _).ite .pure .pure)

/-! ## Parsers that may find something -/

theorem size_afterPhrase? {ks : List String} {s r : Stream} (h : s.afterPhrase? ks = some r) :
    r.size + ks.length = s.size := by
  induction ks generalizing s with
  | nil => cases h; rfl
  | cons k ks ih =>
    cases s with
    | done => cases h
    | item g t rest =>
      rw [Stream.afterPhrase?] at h
      split at h
      · rw [List.length_cons, ← Nat.add_assoc, ih h, Stream.size]
      · cases h

/-- A keyword that is there is read, and nothing otherwise. -/
theorem keyword?_eq_ok {k : String} {b : Bool} {s r : Stream}
    (h : keyword? k s = .ok (b, r)) :
    (b = true ∧ r.size < s.size) ∨ (b = false ∧ r = s) := by
  simp only [keyword?, phrase?] at h
  split at h
  · next rest hk =>
    cases h
    have := size_afterPhrase? hk
    exact .inl ⟨rfl, by rw [← this]; simp⟩
  · cases h
    exact .inr ⟨rfl, rfl⟩

/-- A parser that may find something: it goes forward, and reads a token if it finds something. -/
def Finding (p : Parser (Option α)) : Prop :=
  ∀ s a r, p s = .ok (a, r) → Rest s r ∧ (a.isSome = true → r.size < s.size)

theorem Finding.forward {p : Parser (Option α)} (hp : Finding p) : Forward p :=
  fun s a r h => (hp s a r h).1

theorem finding_none : Finding (pure none : Parser (Option α)) := by
  intro s a r h
  cases h
  exact ⟨.refl, nofun⟩

/-- What a keyword introduces, and what is looked for where it does not stand. -/
theorem Finding.keyword {k : String} {p q : Parser (Option α)} (hp : Forward p)
    (hq : Finding q) : Finding (do if ← keyword? k then p else q) := by
  intro s a r h
  obtain ⟨b, s', hk, h'⟩ := bind_eq_ok h
  obtain ⟨rfl, hlt⟩ | ⟨rfl, rfl⟩ := keyword?_eq_ok hk
  · have hr := hp _ _ _ h'
    exact ⟨(forward_keyword? _ _ _ _ hk).trans hr, fun _ => Nat.lt_of_le_of_lt hr.size_le hlt⟩
  · exact hq _ _ _ h'

/-! ## Expressions and literals -/

theorem rest_cutExpression (depth : Nat) (s : Stream) : Rest s (s.cutExpression depth).2.2 := by
  induction s generalizing depth with
  | done => exact .refl
  | item g t rest ih =>
    by_cases h : endsExpression depth t = true
    · simp only [Stream.cutExpression, h, if_true]
      exact .refl
    · simp only [Stream.cutExpression, h, Bool.false_eq_true, if_false]
      exact .item (ih _)

theorem forward_expression? : Forward expression? := by
  intro s a r h
  change expressionText (s.cutExpression 0).1 (s.cutExpression 0).2.1 (s.cutExpression 0).2.2 =
    .ok (a, r) at h
  refine (rest_cutExpression 0 s).trans ?_
  have text : Forward (expressionText (s.cutExpression 0).1 (s.cutExpression 0).2.1) := by
    unfold expressionText
    split
    · exact (forward_fail _).bind fun _ => .pure
    · exact .pure
  exact text _ _ _ h

theorem forward_parenthesized : Forward parenthesized := by
  refine (forward_expectPunct _ _).bind fun _ => ?_
  refine forward_expression?.bind_option (forward_fail _) fun text => ?_
  exact (forward_expectPunct _ _).bind fun _ => .pure

theorem blob?_eq_some {value v : String} {s r : Stream} :
    blob? value s = some (v, r) ↔ ∃ g t, s = .item g t r ∧ g.trivia = [] ∧
      (eqIgnoreAsciiCase value "x" && t.kind == .string) = true ∧ v = value ++ t.text := by
  unfold blob?
  split
  · next n t rest =>
    constructor
    · intro h
      split at h <;> cases h
      exact ⟨_, _, rfl, rfl, by assumption, rfl⟩
    · rintro ⟨g, t, ⟨⟩, -, ht, rfl⟩
      rw [if_pos ht]
  · next hne =>
    refine ⟨nofun, ?_⟩
    rintro ⟨⟨n, _⟩, t, rfl, rfl, -⟩
    exact absurd rfl (hne n t r)

theorem adjacent?_eq_some {p : Token → Token → Bool} {t u : Token} {s r : Stream} :
    adjacent? p s = some ((t, u), r) ↔ ∃ g g', s = .item g t (.item g' u r) ∧ g.trivia = [] ∧
      g'.trivia = [] ∧ p t u = true := by
  unfold adjacent?
  split
  · constructor
    · intro h
      split at h <;> cases h
      exact ⟨_, _, rfl, rfl, rfl, by assumption⟩
    · rintro ⟨g, g', ⟨⟩, -, -, htu⟩
      rw [if_pos htu]
  · next hne =>
    refine ⟨nofun, ?_⟩
    rintro ⟨⟨n, _⟩, ⟨m, _⟩, rfl, rfl, rfl, -⟩
    exact absurd rfl (hne n t m u r)

/-- Two neighbours that are read are the first token and one behind it. -/
theorem rest_of_adjacent? {p : Token → Token → Bool} {x : Token × Token} {s r : Stream}
    (h : adjacent? p s = some (x, r)) :
    ∃ g t s', s = .item g t s' ∧ p t x.2 = true ∧ Rest s' r := by
  obtain ⟨g, g', rfl, -, -, hp⟩ := adjacent?_eq_some.1 h
  exact ⟨g, x.1, _, rfl, hp, .item .refl⟩

theorem rest_fraction (value : String) (s : Stream) : Rest s (fraction value s).2 := by
  unfold fraction
  split
  · next h =>
    obtain ⟨_, _, _, rfl, -, hr⟩ := rest_of_adjacent? h
    exact .item hr
  · exact .refl

theorem rest_exponent (value : String) (s : Stream) : Rest s (exponent value s).2 := by
  unfold exponent
  split
  · next h =>
    obtain ⟨_, _, _, rfl, -, hr⟩ := rest_of_adjacent? h
    exact .item hr
  · exact .refl

theorem forward_literalRest (value : String) : Forward (literalRest value) := by
  intro s v r h
  unfold literalRest at h
  split at h
  · next hb =>
    cases h
    obtain ⟨g, t, rfl, -⟩ := blob?_eq_some.1 hb
    exact .item .refl
  · simp only at h
    split at h
    · cases h
    · cases h
      exact (rest_fraction _ _).trans (rest_exponent _ _)

theorem forward_sign : Forward sign := by
  intro s v r h
  unfold sign at h
  split at h
  · split at h <;> cases h
    · exact .item .refl
    · exact .refl
  · cases h
    exact .refl

/-- Where nothing but a sign is known of a literal, a dot begins a fraction. -/
theorem exists_fraction_of_literalRest {value v : String} {g : Gap} {t : Token} {s r : Stream}
    (hv : isBareSign value = true) (ht : t.isPunct "." = true)
    (h : literalRest value (.item g t s) = .ok (v, r)) :
    ∃ g' u s', s = .item g' u s' ∧ u.kind = .word ∧
      exponent (value ++ "." ++ u.text) s' = (v, r) := by
  have hk : t.kind = .punctuation := by simp_all [Token.isPunct]
  have hblob : blob? value (.item g t s) = none := by
    rcases g with ⟨n, _ | _⟩
    · simp [blob?, hk]
    · rfl
  have hexponent : exponent value (.item g t s) = (value, .item g t s) := by
    unfold exponent
    split
    · next h =>
      obtain ⟨_, _, _, heq, hp, -⟩ := rest_of_adjacent? h
      cases heq
      simp [isExponent, isSign, hk] at hp
    · rfl
  simp only [literalRest, hblob] at h
  cases hf : adjacent? (fun dot digits => dot.isPunct "." && digits.kind == .word)
      (.item g t s) with
  | none =>
    -- Without digits there would be nothing but a sign, which is no literal.
    have hfraction : fraction value (.item g t s) = (value, .item g t s) := by
      simp only [fraction, hf]
    rw [hfraction] at h
    simp only [hexponent, hv, if_true] at h
    cases h
  | some x =>
    obtain ⟨⟨dot, digits⟩, s'⟩ := x
    obtain ⟨_, g', heq, -, -, hdigits⟩ := adjacent?_eq_some.1 hf
    cases heq
    rw [Bool.and_eq_true, beq_iff_eq] at hdigits
    simp only [fraction, hf] at h
    split at h
    · cases h
    · cases h
      exact ⟨g', digits, s', rfl, hdigits.2, rfl⟩

theorem rest_of_literalRest {value v : String} {g : Gap} {t : Token} {s r : Stream}
    (hv : isBareSign value = true) (ht : t.isPunct "." = true)
    (h : literalRest value (.item g t s) = .ok (v, r)) : Rest s r := by
  obtain ⟨g', u, s', rfl, -, hexponent⟩ := exists_fraction_of_literalRest hv ht h
  have hrest := rest_exponent (value ++ "." ++ u.text) s'
  rw [hexponent] at hrest
  exact .item hrest

theorem forward_unsignedLiteral {signText : String} (hv : isBareSign signText = true) :
    Forward (unsignedLiteral signText) := by
  intro s v r h
  unfold unsignedLiteral at h
  split at h
  · split at h
    · exact .item (forward_literalRest _ _ _ _ h)
    · split at h
      · next ht => exact .item (rest_of_literalRest hv ht h)
      · cases h
  · cases h

theorem isBareSign_of_sign {s r : Stream} {v : String} (h : sign s = .ok (v, r)) :
    isBareSign v = true := by
  unfold sign at h
  split at h
  · split at h
    · next ht =>
      cases h
      simp only [isSign, Bool.and_eq_true, Bool.or_eq_true, beq_iff_eq] at ht
      obtain ⟨-, ht | ht⟩ := ht <;> rw [ht] <;> decide
    · cases h
      decide
  · cases h
    decide

theorem forward_literal : Forward literal := by
  intro s v r h
  obtain ⟨signText, s', hs, hl⟩ := bind_eq_ok h
  exact (forward_sign _ _ _ hs).trans
    (forward_unsignedLiteral (isBareSign_of_sign hs) _ _ _ hl)

theorem forward_defaultValue : Forward defaultValue := by
  refine (forward_nextIs _).ite ?_ forward_literal
  exact forward_parenthesized.bind fun _ => .pure

/-! ## Column constraints -/

theorem forward_conflict? : Forward conflict? := by
  refine (forward_phrase? _).ite ?_ .pure
  exact (forward_choose _).bind_option (forward_fail _) fun _ => .pure

theorem forward_keyEffect : Forward keyEffect := by
  refine (forward_keyword? _).ite ?_ ((forward_keyword? _).ite ?_ ?_)
  · exact (forward_choose _).bind_option (forward_fail _) fun _ => .pure
  · exact (forward_expectKeyword _ _).bind fun _ => .pure
  · exact (forward_choose _).bind_option (forward_fail _) fun _ => .pure

theorem forward_keyCheck? : Forward keyCheck? := by
  refine (forward_keyword? _).ite ?_ .pure
  exact (forward_choose _).bind_option (forward_fail _) fun _ => .pure

theorem forward_keyAction? : Forward keyAction? := by
  refine (forward_choose _).bind_option ?_ fun event => ?_
  · refine (forward_keyword? _).ite ?_ ?_
    · exact (forward_expectName _).bind fun _ => .pure
    · refine (forward_choose _).bind_option .pure fun negated => ?_
      exact forward_keyCheck?.bind fun _ => .pure
  · exact forward_keyEffect.bind fun _ => .pure

theorem forward_keyColumns : Forward keyColumns := by
  refine (forward_punct? _).ite ?_ .pure
  refine (forward_expectName _).commaSeparated.bind fun names => ?_
  exact (forward_expectPunct _ _).bind fun _ => .pure

theorem forward_foreignKey : Forward foreignKey := by
  refine (forward_expectName _).bind fun table => ?_
  refine forward_keyColumns.bind fun columns => ?_
  exact forward_keyAction?.many.bind fun actions => .pure

theorem forward_primaryKey : Forward primaryKey := by
  refine (forward_expectKeyword _ _).bind fun _ => ?_
  refine (forward_choose _).bind fun order => ?_
  refine forward_conflict?.bind fun conflict => ?_
  exact (forward_keyword? _).bind fun autoincrement => .pure

theorem forward_generated : Forward generated := by
  refine forward_parenthesized.bind fun expr => ?_
  exact (forward_choose _).bind fun storage => .pure

theorem finding_rule? : Finding rule? := by
  have conflict (f : Option Conflict → Rule) :
      Forward (do return some (f (← conflict?))) :=
    forward_conflict?.bind fun _ => .pure
  refine .keyword ?primary (.keyword ?notNull (.keyword ?null (.keyword ?unique (.keyword ?check
    (.keyword ?default (.keyword ?collate (.keyword ?references (.keyword ?generated
    (.keyword ?as finding_none)))))))))
  case primary => exact forward_primaryKey.bind fun _ => .pure
  case notNull => exact (forward_expectKeyword _ _).bind fun _ => conflict .notNull
  case null => exact conflict .null
  case unique => exact conflict .unique
  case check => exact forward_parenthesized.bind fun _ => .pure
  case default => exact forward_defaultValue.bind fun _ => .pure
  case collate => exact (forward_expectName _).bind fun _ => .pure
  case references => exact forward_foreignKey.bind fun _ => .pure
  case generated =>
    refine (forward_expectKeyword _ _).bind fun _ => ?_
    refine (forward_expectKeyword _ _).bind fun _ => ?_
    exact forward_generated.bind fun _ => .pure
  case as => exact forward_generated.bind fun _ => .pure

theorem forward_constraintName? : Forward constraintName? := by
  refine (forward_keyword? _).ite ?_ .pure
  exact (forward_expectName _).bind fun _ => .pure

theorem forward_constraint? : Forward constraint? := by
  refine (Forward.spanned ?parts).bind fun x => .pure
  case parts =>
    refine forward_constraintName?.bind fun name => finding_rule?.forward.bind fun rule => ?_
    split
    · exact (forward_fail _).bind fun _ => .pure
    · exact .pure

/-! ## Tables and statements -/

theorem rest_cutWhile (p : Token → Bool) (s : Stream) : Rest s (s.cutWhile p).2 := by
  induction s with
  | done => exact .refl
  | item g t rest ih =>
    simp only [Stream.cutWhile]
    split
    · exact .item ih
    · exact .refl

theorem forward_typeWords : Forward typeWords := by
  intro s words r h
  cases h
  exact rest_cutWhile _ s

theorem forward_typeArguments : Forward typeArguments := by
  refine (forward_punct? _).ite ?_ .pure
  refine forward_expression?.bind fun first => ?_
  refine (forward_punct? _).ite ?_ ?_
  · refine forward_expression?.bind fun second => ?_
    exact (forward_expectPunct _ _).bind fun _ => .pure
  · exact (forward_expectPunct _ _).bind fun _ => .pure

theorem forward_typeName? : Forward typeName? := by
  refine (Forward.spanned ?parts).bind fun x => .pure
  case parts =>
    refine forward_typeWords.bind fun words => ?_
    split
    · exact .pure
    · exact forward_typeArguments.bind fun _ => .pure

theorem forward_column? : Forward column? := by
  refine (forward_nextIs _).ite .pure ?_
  refine (Forward.spanned ?parts).bind fun x => .pure
  case parts =>
    refine forward_name?.bind_option .pure fun name => ?_
    refine forward_typeName?.bind fun type => ?_
    exact forward_constraint?.many.bind fun constraints => .pure

theorem forward_columns : Forward columns := by
  refine (Forward.rounds ?round).bind fun columns => ?_
  case round =>
    refine forward_column?.bind_option .pure fun column => ?_
    exact (forward_punct? _).ite .pure .pure
  exact (forward_expectPunct _ _).bind fun _ => .pure

theorem finding_tableOption? : Finding tableOption? := by
  intro s a r h
  obtain ⟨⟨kind, span⟩, s₁, hkind, h₁⟩ := bind_eq_ok h
  cases h₁
  rw [Option.isSome_map]
  refine Finding.keyword ?rowid (.keyword .pure finding_none) _ _ _ (spanned_eq_ok hkind).1
  case rowid => exact (forward_expectKeyword _ _).bind fun _ => .pure

theorem forward_nextOption? : Forward nextOption? := by
  have option : Forward expectOption := by
    refine finding_tableOption?.forward.bind_option (forward_fail _) fun option => ?_
    exact (forward_punct? _).bind fun _ => .pure
  refine Forward.ite ?_ .pure ((forward_nextIs _).ite .pure (option.bind fun _ => .pure))
  intro s b r h
  cases h
  exact .refl

theorem forward_tableName : Forward tableName := by
  refine (forward_expectName _).bind fun name => ?_
  refine (forward_punct? _).ite ?_ .pure
  exact (forward_expectName _).bind fun _ => .pure

theorem forward_ifNotExists : Forward ifNotExists := by
  refine (forward_keyword? _).ite ?_ .pure
  refine (forward_expectKeyword _ _).bind fun _ => ?_
  exact (forward_expectKeyword _ _).bind fun _ => .pure

theorem forward_tableBody : Forward tableBody := by
  refine forward_ifNotExists.bind fun ifNotExists => ?_
  refine forward_tableName.bind fun name => ?_
  refine (forward_expectPunct _ _).bind fun _ => ?_
  refine forward_columns.bind fun columns => ?_
  exact forward_nextOption?.many.bind fun options => .pure

theorem forward_createTable? : Forward createTable? := by
  refine (Forward.spanned ?table).bind fun x => .pure
  case table =>
    refine (forward_phrase? _).ite ?_ .pure
    refine forward_tableBody.bind fun body => ?_
    exact (forward_punct? _).bind fun _ => .pure

theorem rest_cutStatement (n : Nesting) (s : Stream) : Rest s (s.cutStatement n).2 := by
  induction s generalizing n with
  | done => exact .refl
  | item g t rest ih =>
    by_cases hn : n.isEnd t = true
    · simp only [Stream.cutStatement, hn, if_true]
      exact .item .refl
    · simp only [Stream.cutStatement, hn, Bool.false_eq_true, if_false]
      exact .item (ih _)

theorem forward_statement : Forward statement := by
  refine forward_createTable?.bind_option ?_ fun table => .pure
  refine (Forward.spanned ?words).bind fun x => .pure
  case words =>
    intro s words r h
    have hr := rest_cutStatement .start s
    rw [Except.ok.inj h] at hr
    exact hr

theorem forward_atEnd : Forward atEnd := by
  rintro s _ _ ⟨⟩
  exact .refl

end SchemaAlign.Parser
