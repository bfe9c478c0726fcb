import SchemaAlign.Proofs.Parser.Forward
import SchemaAlign.Proofs.Parser.Parallel

/-!
# Where a column ends

What stands between the name of a column and its end is balanced: each rule closes the parentheses
it opens, and reads commas only inside of them. So a column that is read with all of its constraints
ends where an expression would end, at the first comma or closing parenthesis outside all
parentheses, however its words are taken.

* `Stream.toEnd`: the stream from that place on;
* `Nested`: rules that go from one depth of parentheses to another;
* `nested_column?`: a column.
-/

namespace SchemaAlign.Parser

variable {α β : Type} {d d' d'' : Nat} {s r : Stream} {t : Token} {g : Gap}

/-! ## Ends -/

/-- The stream from where an expression ends that has come to the given depth of parentheses. -/
def Stream.toEnd (d : Nat) (s : Stream) : Stream :=
  (s.cutExpression d).2.2

theorem toEnd_of_ends (h : endsExpression d t = true) :
    (Stream.item g t s).toEnd d = .item g t s := by
  rw [Stream.toEnd, Stream.cutExpression, if_pos h]

theorem toEnd_item (h : endsExpression d t = false) :
    (Stream.item g t s).toEnd d = s.toEnd (depthAfter d t) := by
  rw [Stream.toEnd, Stream.cutExpression, if_neg (by simp [h])]
  rfl

/-- The token neither ends an expression nor opens or closes a parenthesis. -/
def IsInner (t : Token) : Prop :=
  ∀ mark ∈ ["(", ")", ",", ";"], t.isPunct mark = false

theorem isInner_of_kind (h : t.kind ≠ .punctuation) : IsInner t :=
  fun mark _ => by simp [Token.isPunct, h]

theorem isInner_dot (h : t.isPunct "." = true) : IsInner t := by
  intro mark hmark
  refine isPunct_of_isPunct h ?_
  rintro rfl
  exact absurd hmark (by decide)

theorem IsInner.toEnd (h : IsInner t) : (Stream.item g t s).toEnd d = s.toEnd d := by
  simp only [IsInner, List.forall_mem_cons] at h
  obtain ⟨hopen, hclose, hcomma, hsemicolon, -⟩ := h
  rw [toEnd_item (by simp [endsExpression, hclose, hcomma, hsemicolon]), depthAfter, hopen, hclose]
  rfl

/-- One parenthesis further in, an expression goes on where it would have ended. -/
theorem toEnd_succ (d : Nat) (s : Stream) :
    s.toEnd (d + 1) = (s.toEnd d).toEnd ((s.cutExpression d).2.1 + 1) := by
  induction s generalizing d with
  | done => rfl
  | item g t s ih =>
    by_cases h : endsExpression d t = true
    · rw [toEnd_of_ends h, Stream.cutExpression, if_pos h]
    · have hdepth : depthAfter (d + 1) t = depthAfter d t + 1 := by
        -- A closing parenthesis outside all others would have ended it.
        simp only [endsExpression, Bool.or_eq_true, Bool.and_eq_true, beq_iff_eq] at h
        unfold depthAfter
        split
        · rfl
        · split
          · have : d ≠ 0 := fun hd => h (.inr ⟨hd, .inl ‹_›⟩)
            omega
          · rfl
      have hends : endsExpression (d + 1) t = false := by
        simp only [endsExpression, Bool.or_eq_true] at h ⊢
        simp [not_or.1 h]
      rw [toEnd_item hends, toEnd_item (by simpa using h), Stream.cutExpression, if_neg h, hdepth]
      exact ih _

/-! ## Rules and depths -/

/-- The rule goes from the depth `d` of parentheses to the depth `d'`, and not past an end on the
    way. -/
def Nested (d d' : Nat) (p : Parser α) : Prop :=
  ∀ s a r, p s = .ok (a, r) → s.toEnd d = r.toEnd d'

theorem Nested.pure {a : α} : Nested d d (pure a) := by
  intro s b r h
  cases h
  rfl

theorem Nested.bind {p : Parser α} {k : α → Parser β} (hp : Nested d d' p)
    (hk : ∀ a, Nested d' d'' (k a)) : Nested d d'' (p >>= k) := by
  intro s b r h
  obtain ⟨a, s', ha, hb⟩ := bind_eq_ok h
  exact (hp s a s' ha).trans (hk a s' b r hb)

theorem Nested.bind_option {p : Parser (Option α)} {k : Option α → Parser β} (hp : Nested d d' p)
    (hnone : Nested d' d'' (k none)) (hsome : ∀ a, Nested d' d'' (k (some a))) :
    Nested d d'' (p >>= k) :=
  hp.bind fun
    | none => hnone
    | some a => hsome a

theorem Nested.ite {p : Parser Bool} {k l : Parser α} (hp : Nested d d' p) (hk : Nested d' d'' k)
    (hl : Nested d' d'' l) : Nested d d'' (do if ← p then k else l) :=
  hp.bind fun b => by cases b <;> assumption

theorem nested_fail (fault : Fault) : Nested d d' (fail fault : Parser α) := by
  intro s a r h
  cases h

theorem Nested.spanned {p : Parser α} (hp : Nested d d' p) : Nested d d' (spanned p) :=
  fun s _ r h => hp s _ r (spanned_eq_ok h).1

theorem Nested.rounds {p : Parser (Round α)} (hp : Nested d d p) : Nested d d (rounds p) := by
  intro s as r h
  fun_induction Parser.rounds p s generalizing as with
  | case1 => cases h
  | case2 s rest hs => cases h; exact hp _ _ _ hs
  | case3 s a rest hs => cases h; exact hp _ _ _ hs
  | case4 => cases h
  | case5 s a rest hs hlt as rest' hr ih => cases h; exact (hp _ _ _ hs).trans (ih _ hr)
  | case6 s a rest hs hlt => cases h; exact hp _ _ _ hs

theorem Nested.many {p : Parser (Option α)} (hp : Nested d d p) : Nested d d (many p) :=
  Nested.rounds (hp.bind_option .pure fun _ => .pure)

/-! ## Words and marks -/

theorem nested_nextIs (p : Token → Bool) : Nested d d (nextIs p) := by
  intro s b r h
  cases h
  rfl

theorem toEnd_afterPhrase? {ks : List String} (h : s.afterPhrase? ks = some r) :
    s.toEnd d = r.toEnd d := by
  induction ks generalizing s with
  | nil => cases h; rfl
  | cons k ks ih =>
    cases s with
    | done => cases h
    | item g t rest =>
      rw [Stream.afterPhrase?] at h
      split at h
      · next ht =>
        simp only [Token.isKeyword, Bool.and_eq_true, beq_iff_eq] at ht
        exact (isInner_of_kind (by rw [ht.1]; decide)).toEnd.trans (ih h)
      · cases h

theorem nested_phrase? (ks : List String) : Nested d d (phrase? ks) := by
  intro s b r h
  simp only [phrase?] at h
  split at h
  · next hk => cases h; exact toEnd_afterPhrase? hk
  · cases h; rfl

theorem nested_keyword? (k : String) : Nested d d (keyword? k) :=
  nested_phrase? [k]

theorem nested_name? : Nested d d name? := by
  intro s b r h
  cases s with
  | done => cases h; rfl
  | item g t rest =>
    simp only [name?] at h
    split at h
    · next hname =>
      cases h
      refine (isInner_of_kind fun hkind => ?_).toEnd
      simp [Token.name?, hkind] at hname
    · cases h; rfl

theorem nested_choose (choices : List (List String × α)) : Nested d d (choose choices) := by
  induction choices with
  | nil => exact .pure
  | cons choice choices ih => exact (nested_phrase? choice.1).ite .pure ih

theorem nested_expectKeyword (k : String) (fault : Fault) : Nested d d (expectKeyword k fault) :=
  (nested_keyword? k).ite .pure (nested_fail fault)

theorem nested_expectName (fault : Fault) : Nested d d (expectName fault) :=
  nested_name?.bind_option (nested_fail fault) fun _ => .pure

/-- A mark that is there is read, and nothing otherwise. -/
theorem punct?_eq_ok {mark : String} {b : Bool} (h : punct? mark s = .ok (b, r)) :
    (b = true ∧ ∃ g t, t.isPunct mark = true ∧ s = .item g t r) ∨
      (b = false ∧ r = s ∧ s.headIs (·.isPunct mark) = false) := by
  cases s with
  | done => cases h; exact .inr ⟨rfl, rfl, rfl⟩
  | item g t rest =>
    simp only [punct?] at h
    split at h
    · next ht => cases h; exact .inl ⟨rfl, g, t, ht, rfl⟩
    · next ht => cases h; exact .inr ⟨rfl, rfl, by simpa [Stream.headIs, Stream.head?] using ht⟩

theorem expectPunct_eq_ok {mark : String} {fault : Fault} {u : Unit}
    (h : expectPunct mark fault s = .ok (u, r)) :
    ∃ g t, t.isPunct mark = true ∧ s = .item g t r := by
  obtain ⟨b, s', hb, h'⟩ := bind_eq_ok h
  obtain ⟨rfl, g, t, ht, rfl⟩ | ⟨rfl, -, -⟩ := punct?_eq_ok hb
  · cases h'
    exact ⟨g, t, ht, rfl⟩
  · cases h'

theorem toEnd_open (h : t.isPunct "(" = true) :
    (Stream.item g t s).toEnd d = s.toEnd (d + 1) := by
  simp only [Token.isPunct, Bool.and_eq_true, beq_iff_eq] at h
  rw [toEnd_item (by simp [endsExpression, Token.isPunct, h]), depthAfter,
    if_pos (by simp [Token.isPunct, h])]

theorem toEnd_close (h : t.isPunct ")" = true) :
    (Stream.item g t s).toEnd (d + 1) = s.toEnd d := by
  simp only [Token.isPunct, Bool.and_eq_true, beq_iff_eq] at h
  rw [toEnd_item (by simp [endsExpression, Token.isPunct, h]), depthAfter,
    if_neg (by simp [Token.isPunct, h]), if_pos (by simp [Token.isPunct, h]), Nat.add_sub_cancel]

theorem toEnd_comma (h : t.isPunct "," = true) :
    (Stream.item g t s).toEnd (d + 1) = s.toEnd (d + 1) := by
  simp only [Token.isPunct, Bool.and_eq_true, beq_iff_eq] at h
  rw [toEnd_item (by simp [endsExpression, Token.isPunct, h]), depthAfter,
    if_neg (by simp [Token.isPunct, h]), if_neg (by simp [Token.isPunct, h])]

theorem nested_open (fault : Fault) : Nested d (d + 1) (expectPunct "(" fault) := by
  intro s u r h
  obtain ⟨g, t, ht, rfl⟩ := expectPunct_eq_ok h
  exact toEnd_open ht

theorem nested_close (fault : Fault) : Nested (d + 1) d (expectPunct ")" fault) := by
  intro s u r h
  obtain ⟨g, t, ht, rfl⟩ := expectPunct_eq_ok h
  exact toEnd_close ht

theorem nested_comma : Nested (d + 1) (d + 1) (punct? ",") := by
  intro s b r h
  obtain ⟨-, g, t, ht, rfl⟩ | ⟨-, rfl, -⟩ := punct?_eq_ok h
  · exact toEnd_comma ht
  · rfl

/-- What a parenthesis opens, if there is one. -/
theorem Nested.ite_open {k l : Parser α} (hk : Nested (d + 1) d' k) (hl : Nested d d' l) :
    Nested d d' (do if ← punct? "(" then k else l) := by
  intro s a r h
  obtain ⟨b, s', hb, h'⟩ := bind_eq_ok h
  obtain ⟨rfl, g, t, ht, rfl⟩ | ⟨rfl, rfl, -⟩ := punct?_eq_ok hb
  · exact (toEnd_open ht).trans (hk _ _ _ h')
  · exact hl _ _ _ h'

theorem nested_commaSeparated {p : Parser α} (hp : Nested (d + 1) (d + 1) p) :
    Nested (d + 1) (d + 1) (commaSeparated p) :=
  Nested.rounds (hp.bind fun _ => nested_comma.ite .pure .pure)

/-! ## Expressions and literals -/

/-- An expression ends where its parentheses are closed. -/
theorem expression?_eq_ok {text : Option String} (h : expression? s = .ok (text, r)) :
    r = s.toEnd 0 ∧ (s.cutExpression 0).2.1 = 0 := by
  change expressionText (s.cutExpression 0).1 (s.cutExpression 0).2.1 (s.toEnd 0) =
    .ok (text, r) at h
  generalize (s.cutExpression 0).2.1 = n at h ⊢
  rw [expressionText] at h
  split at h
  · cases h
  · next hdepth =>
    dsimp only at h
    rw [run_pure] at h
    exact ⟨(congrArg Prod.snd (Except.ok.inj h)).symm, Nat.le_zero.1 (Nat.not_lt.1 hdepth)⟩

theorem nested_expression? : Nested 1 1 expression? := by
  intro s text r h
  obtain ⟨rfl, hdepth⟩ := expression?_eq_ok h
  rw [toEnd_succ, hdepth]

theorem nested_parenthesized : Nested 0 0 parenthesized := by
  refine (nested_open _).bind fun _ => ?_
  refine nested_expression?.bind_option (nested_fail _) fun text => ?_
  exact (nested_close _).bind fun _ => .pure

theorem toEnd_blob? {value v : String} (h : blob? value s = some (v, r)) :
    s.toEnd d = r.toEnd d := by
  obtain ⟨g, t, rfl, -, ht, -⟩ := blob?_eq_some.1 h
  rw [Bool.and_eq_true, beq_iff_eq] at ht
  exact (isInner_of_kind (by rw [ht.2]; decide)).toEnd

theorem toEnd_adjacent? {p : Token → Token → Bool} {x : Token × Token}
    (hp : ∀ t u, p t u = true → IsInner t ∧ IsInner u) (h : adjacent? p s = some (x, r)) :
    s.toEnd d = r.toEnd d := by
  obtain ⟨g, g', rfl, -, -, htu⟩ := adjacent?_eq_some.1 h
  obtain ⟨ht, hu⟩ := hp _ _ htu
  rw [ht.toEnd, hu.toEnd]

theorem toEnd_fraction (value : String) (s : Stream) :
    s.toEnd d = (fraction value s).2.toEnd d := by
  unfold fraction
  split
  · next h =>
    refine toEnd_adjacent? (fun t u htu => ?_) h
    rw [Bool.and_eq_true, beq_iff_eq] at htu
    exact ⟨isInner_dot htu.1, isInner_of_kind (by rw [htu.2]; decide)⟩
  · rfl

theorem kind_of_isSign (h : isSign t = true) : t.kind = .other := by
  rw [isSign, Bool.and_eq_true, beq_iff_eq] at h
  exact h.1

theorem isInner_sign (h : isSign t = true) : IsInner t :=
  isInner_of_kind (by rw [kind_of_isSign h]; decide)

theorem toEnd_exponent (value : String) (s : Stream) :
    s.toEnd d = (exponent value s).2.toEnd d := by
  unfold exponent
  split
  · next h =>
    refine toEnd_adjacent? (fun t u htu => ?_) h
    simp only [isExponent, Bool.and_eq_true, beq_iff_eq] at htu
    exact ⟨isInner_sign htu.2.1.1, isInner_of_kind (by rw [htu.2.1.2]; decide)⟩
  · rfl

theorem nested_literalRest (value : String) : Nested d d (literalRest value) := by
  intro s v r h
  unfold literalRest at h
  split at h
  · next hb => cases h; exact toEnd_blob? hb
  · simp only at h
    split at h
    · cases h
    · cases h
      exact (toEnd_fraction _ _).trans (toEnd_exponent _ _)

theorem nested_sign : Nested d d sign := by
  intro s v r h
  unfold sign at h
  split at h
  · split at h
    · next ht => cases h; exact (isInner_sign ht).toEnd
    · cases h; rfl
  · cases h; rfl

theorem nested_unsignedLiteral (signText : String) : Nested d d (unsignedLiteral signText) := by
  intro s v r h
  unfold unsignedLiteral at h
  split at h
  · next g t rest =>
    split at h
    · next ht =>
      have hkind : t.kind ≠ .punctuation := by
        rw [Bool.or_eq_true, beq_iff_eq, beq_iff_eq] at ht
        rcases ht with ht | ht <;> rw [ht] <;> decide
      exact (isInner_of_kind hkind).toEnd.trans (nested_literalRest _ _ _ _ h)
    · split at h
      · next ht =>
        -- The dot is read again, as the beginning of a fraction.
        have hdot := isInner_dot ht
        rw [hdot.toEnd, ← nested_literalRest _ _ _ _ h, hdot.toEnd]
      · cases h
  · cases h

theorem nested_defaultValue : Nested 0 0 defaultValue := by
  refine (nested_nextIs _).ite ?_ (nested_sign.bind nested_unsignedLiteral)
  exact nested_parenthesized.bind fun _ => .pure

/-! ## Columns -/

theorem nested_conflict? : Nested d d conflict? := by
  refine (nested_phrase? _).ite ?_ .pure
  exact (nested_choose _).bind_option (nested_fail _) fun _ => .pure

theorem nested_keyEffect : Nested d d keyEffect := by
  refine (nested_keyword? _).ite ?_ ((nested_keyword? _).ite ?_ ?_)
  · exact (nested_choose _).bind_option (nested_fail _) fun _ => .pure
  · exact (nested_expectKeyword _ _).bind fun _ => .pure
  · exact (nested_choose _).bind_option (nested_fail _) fun _ => .pure

theorem nested_keyAction? : Nested d d keyAction? := by
  have check : Nested d d keyCheck? := by
    refine (nested_keyword? _).ite ?_ .pure
    exact (nested_choose _).bind_option (nested_fail _) fun _ => .pure
  refine (nested_choose _).bind_option ?_ fun event => ?_
  · refine (nested_keyword? _).ite ?_ ?_
    · exact (nested_expectName _).bind fun _ => .pure
    · exact (nested_choose _).bind_option .pure fun negated => check.bind fun _ => .pure
  · exact nested_keyEffect.bind fun _ => .pure

theorem nested_foreignKey : Nested d d foreignKey := by
  have columns : Nested d d keyColumns := by
    refine .ite_open ?_ .pure
    refine (nested_commaSeparated (nested_expectName _)).bind fun names => ?_
    exact (nested_close _).bind fun _ => .pure
  refine (nested_expectName _).bind fun table => columns.bind fun columns => ?_
  exact nested_keyAction?.many.bind fun actions => .pure

theorem nested_primaryKey : Nested d d primaryKey := by
  refine (nested_expectKeyword _ _).bind fun _ => (nested_choose _).bind fun order => ?_
  exact nested_conflict?.bind fun conflict => (nested_keyword? _).bind fun _ => .pure

theorem nested_generated : Nested 0 0 generated := by
  refine nested_parenthesized.bind fun expr => ?_
  exact (nested_choose _).bind fun storage => .pure

theorem nested_rule? : Nested 0 0 rule? := by
  have conflict (f : Option Conflict → Rule) : Nested 0 0 (do return some (f (← conflict?))) :=
    nested_conflict?.bind fun _ => .pure
  refine (nested_keyword? _).ite ?primary ((nested_keyword? _).ite ?notNull
    ((nested_keyword? _).ite ?null ((nested_keyword? _).ite ?unique ((nested_keyword? _).ite ?check
    ((nested_keyword? _).ite ?default ((nested_keyword? _).ite ?collate
    ((nested_keyword? _).ite ?references ((nested_keyword? _).ite ?generated
    ((nested_keyword? _).ite ?as .pure)))))))))
  case primary => exact nested_primaryKey.bind fun _ => .pure
  case notNull => exact (nested_expectKeyword _ _).bind fun _ => conflict .notNull
  case null => exact conflict .null
  case unique => exact conflict .unique
  case check => exact nested_parenthesized.bind fun _ => .pure
  case default => exact nested_defaultValue.bind fun _ => .pure
  case collate => exact (nested_expectName _).bind fun _ => .pure
  case references => exact nested_foreignKey.bind fun _ => .pure
  case generated =>
    refine (nested_expectKeyword _ _).bind fun _ => (nested_expectKeyword _ _).bind fun _ => ?_
    exact nested_generated.bind fun _ => .pure
  case as => exact nested_generated.bind fun _ => .pure

theorem nested_constraint? : Nested 0 0 constraint? := by
  have name : Nested 0 0 constraintName? := by
    refine (nested_keyword? _).ite ?_ .pure
    exact (nested_expectName _).bind fun _ => .pure
  refine (Nested.spanned ?parts).bind fun x => .pure
  case parts =>
    refine name.bind fun name => nested_rule?.bind fun rule => ?_
    split
    · exact (nested_fail _).bind fun _ => .pure
    · exact .pure

theorem toEnd_cutWhile {p : Token → Bool} (hp : ∀ t, p t = true → t.kind ≠ .punctuation)
    (s : Stream) : s.toEnd d = (s.cutWhile p).2.toEnd d := by
  induction s with
  | done => rfl
  | item g t rest ih =>
    rw [Stream.cutWhile]
    split
    · next ht => exact (isInner_of_kind (hp t ht)).toEnd.trans ih
    · rfl

theorem nested_typeName? : Nested 0 0 typeName? := by
  have words : Nested 0 0 typeWords := by
    intro s words r h
    cases h
    refine toEnd_cutWhile (fun t ht => ?_) s
    rw [Bool.and_eq_true, beq_iff_eq] at ht
    rw [ht.1]
    decide
  have arguments : Nested 0 0 typeArguments := by
    refine .ite_open (nested_expression?.bind fun first => ?_) .pure
    refine nested_comma.ite (nested_expression?.bind fun second => ?_) ?_
    · exact (nested_close _).bind fun _ => .pure
    · exact (nested_close _).bind fun _ => .pure
  refine (Nested.spanned ?parts).bind fun x => .pure
  case parts =>
    refine words.bind fun words => ?_
    split
    · exact .pure
    · exact arguments.bind fun _ => .pure

theorem nested_column? : Nested 0 0 column? := by
  refine (nested_nextIs _).ite .pure ?_
  refine (Nested.spanned ?parts).bind fun x => .pure
  case parts =>
    refine nested_name?.bind_option .pure fun name => nested_typeName?.bind fun type => ?_
    exact nested_constraint?.many.bind fun constraints => .pure

end SchemaAlign.Parser
