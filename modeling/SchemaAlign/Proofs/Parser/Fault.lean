import SchemaAlign.Proofs.Parser.InStep
import SchemaAlign.Proofs.Parser.Reading
import SchemaAlign.Proofs.Token.Rule

/-!
# Where a fault shows

A rule that does not find what it needs gives up at the next significant token, or at the end if
there is none. (A literal that is no more than a sign would be the exception, but the words and
strings of a text are more than that.)

* `Legible`: words and strings as a text holds them;
* `Exact`: parsers whose faults stand at a significant token, or at the end;
* `Exact.bind`, `exact_rule?`, …: such parsers combine;
* `exists_split_of_misfit`: where a list of tokens is outside the grammar.
-/

namespace SchemaAlign.Parser

open Text
open SchemaAlign.Parser.Stream (Rest ofTokens)
open SchemaAlign.Token (Obeys Lawful)

variable {α β : Type} {s r : Stream} {m : Misfit} {t : Token} {ts : List Token} {value : String}
  {c : Char} {next : List Char}

/-! ## Words and strings of a text -/

/-- As a word or a string, the token is more than the sign of a number. -/
def Legible (t : Token) : Prop :=
  t.kind = .word ∨ t.kind = .string → isBareSign t.text = false

theorem isBareSign_iff :
    isBareSign value = true ↔ value = "" ∨ value = "-" ∨ value = "+" := by
  rw [isBareSign, Bool.or_eq_true, Bool.or_eq_true, String.isEmpty_iff, beq_iff_eq, beq_iff_eq,
    or_assoc]

/-- A value with another character in it is more than a sign. -/
theorem isBareSign_of_mem (h : c ∈ value.toList) (hminus : c ≠ '-') (hplus : c ≠ '+') :
    isBareSign value = false := by
  rw [Bool.eq_false_iff, ne_eq, isBareSign_iff]
  rintro (rfl | rfl | rfl)
  · cases h
  · exact hminus (List.mem_singleton.1 h)
  · exact hplus (List.mem_singleton.1 h)

/-- With a sign before it, a value that is more than a sign is more than a sign. -/
theorem isBareSign_append {sign : String} (hsign : isBareSign sign = true)
    (h : isBareSign value = false) : isBareSign (sign ++ value) = false := by
  have hne : value ≠ "" := by
    rintro rfl
    cases h
  have hlength : value.length ≠ 0 := fun h => hne (String.length_eq_zero_iff.1 h)
  have hshort {v : String} (hv : isBareSign v = true) : v.length ≤ 1 := by
    obtain rfl | rfl | rfl := isBareSign_iff.1 hv <;> decide
  obtain rfl | rfl | rfl := isBareSign_iff.1 hsign
  · rwa [String.empty_append]
  all_goals
    rw [Bool.eq_false_iff]
    intro hbare
    have hle := hshort hbare
    rw [String.length_append, Nat.add_comm] at hle
    exact hlength (Nat.le_zero.1 (Nat.le_of_succ_le_succ hle))

theorem legible_of_obeys (h : Obeys t.kind t.text.toList next) : Legible t := by
  intro hkind
  generalize htext : t.text.toList = cs at h
  generalize t.kind = k at h hkind
  have other {d : Char} (hd : d ∈ cs) (hminus : d ≠ '-') (hplus : d ≠ '+') :=
    isBareSign_of_mem (htext ▸ hd) hminus hplus
  cases h with
  | whitespace | line | block | punctuation | other => simp at hkind
  | @string q body next hq h =>
    refine other List.mem_cons_self ?_ ?_ <;> rintro rfl <;> exact absurd hq (by decide)
  | word h =>
    obtain ⟨d, cs, rfl⟩ := List.exists_cons_of_ne_nil h.ne_nil
    have hd := h.inside d List.mem_cons_self
    refine other List.mem_cons_self ?_ ?_ <;> rintro rfl <;> exact absurd hd (by decide)

theorem legible_of_lawful (h : Lawful ts) : ∀ t ∈ ts, Legible t := by
  induction ts with
  | nil => nofun
  | cons t ts ih => exact List.forall_mem_cons.2 ⟨legible_of_obeys h.1, ih h.2⟩

/-! ## Parsers with exact faults -/

/-- The significant tokens of the stream are legible. -/
def Stream.Legible (s : Stream) : Prop :=
  ∀ t ∈ s.significant, Parser.Legible t

theorem Stream.Legible.rest (hs : s.Legible) (h : Rest s r) : r.Legible := by
  induction h with
  | refl => exact hs
  | item _ ih => exact ih fun t ht => hs t (List.mem_cons_of_mem _ ht)

/-- Where the parser gives up, it does so at a significant token of the stream or at the end. -/
structure Exact (p : Parser α) : Prop where
  forward : Forward p
  fault : ∀ s m, s.Legible → p s = .error m → ∃ r, Rest s r ∧ m.position = r.gap.stop

theorem bind_eq_error {p : Parser α} {f : α → Parser β} (h : (p >>= f) s = .error m) :
    p s = .error m ∨ ∃ a s', p s = .ok (a, s') ∧ f a s' = .error m := by
  rw [run_bind] at h
  split at h
  · next hp => exact .inl (hp.trans (congrArg _ (Except.error.inj h)))
  · next a s' hp => exact .inr ⟨a, s', hp, h⟩

/-- A parser that never gives up. -/
theorem Exact.of_forall_ne {p : Parser α} (hp : Forward p) (h : ∀ s m, p s ≠ .error m) : Exact p :=
  ⟨hp, fun s m _ he => absurd he (h s m)⟩

theorem Exact.pure {a : α} : Exact (pure a) :=
  .of_forall_ne .pure nofun

/-- The same when some tokens were read before. -/
theorem Exact.fault_of_rest {p : Parser α} (hp : Exact p) (hs : s.Legible) {s' : Stream}
    (h : Rest s s') (herror : p s' = .error m) : ∃ r, Rest s r ∧ m.position = r.gap.stop := by
  obtain ⟨r, hr, hm⟩ := hp.fault s' m (hs.rest h) herror
  exact ⟨r, h.trans hr, hm⟩

theorem Exact.bind {p : Parser α} {f : α → Parser β} (hp : Exact p) (hf : ∀ a, Exact (f a)) :
    Exact (p >>= f) := by
  refine ⟨hp.forward.bind fun a => (hf a).forward, fun s m hs h => ?_⟩
  obtain h | ⟨a, s', ha, h⟩ := bind_eq_error h
  · exact hp.fault s m hs h
  · exact (hf a).fault_of_rest hs (hp.forward _ _ _ ha) h

theorem Exact.bind_option {p : Parser (Option α)} {f : Option α → Parser β} (hp : Exact p)
    (hnone : Exact (f none)) (hsome : ∀ a, Exact (f (some a))) : Exact (p >>= f) :=
  hp.bind fun
    | none => hnone
    | some a => hsome a

theorem Exact.ite {p : Parser Bool} {q q' : Parser α} (hp : Exact p) (hq : Exact q)
    (hq' : Exact q') : Exact (do if ← p then q else q') :=
  hp.bind fun b => by cases b <;> assumption

theorem exact_fail (fault : Fault) : Exact (fail fault : Parser α) := by
  refine ⟨forward_fail fault, fun s m _ h => ⟨s, .refl, ?_⟩⟩
  cases h
  rfl

theorem Exact.spanned {p : Parser α} (hp : Exact p) : Exact (spanned p) := by
  have get : Exact get := by
    refine .of_forall_ne ?_ nofun
    rintro s _ _ ⟨⟩
    exact .refl
  exact get.bind fun _ => hp.bind fun _ => get.bind fun _ => .pure

theorem Exact.rounds {p : Parser (Round α)} (hp : Exact p) : Exact (rounds p) := by
  refine ⟨hp.forward.rounds, fun s m hs h => ?_⟩
  fun_induction Parser.rounds p s with
  | case1 s e he =>
    cases h
    exact hp.fault _ _ hs he
  | case2 => cases h
  | case3 => cases h
  | case4 s a rest hr hlt e he ih =>
    cases h
    have hrest := hp.forward _ _ _ hr
    obtain ⟨r, hr, hm⟩ := ih (hs.rest hrest) he
    exact ⟨r, hrest.trans hr, hm⟩
  | case5 => cases h
  | case6 => cases h

theorem Exact.many {p : Parser (Option α)} (hp : Exact p) : Exact (many p) :=
  Exact.rounds (hp.bind_option .pure fun _ => .pure)

/-! ### Words and marks -/

theorem exact_nextIs (p : Token → Bool) : Exact (nextIs p) :=
  .of_forall_ne (forward_nextIs p) nofun

theorem exact_phrase? (ks : List String) : Exact (phrase? ks) := by
  refine .of_forall_ne (forward_phrase? ks) fun s m h => ?_
  unfold phrase? at h
  split at h <;> cases h

theorem exact_keyword? (k : String) : Exact (keyword? k) :=
  exact_phrase? [k]

theorem exact_punct? (mark : String) : Exact (punct? mark) := by
  refine .of_forall_ne (forward_punct? mark) fun s m h => ?_
  cases s with
  | done => cases h
  | item g t rest =>
    simp only [punct?] at h
    split at h <;> cases h

theorem exact_name? : Exact name? := by
  refine .of_forall_ne forward_name? fun s m h => ?_
  cases s with
  | done => cases h
  | item g t rest =>
    simp only [name?] at h
    split at h <;> cases h

theorem exact_choose (choices : List (List String × α)) : Exact (choose choices) := by
  induction choices with
  | nil => exact .pure
  | cons choice choices ih => exact (exact_phrase? choice.1).ite .pure ih

theorem exact_expectKeyword (k : String) (fault : Fault) : Exact (expectKeyword k fault) :=
  (exact_keyword? k).ite .pure (exact_fail fault)

theorem exact_expectPunct (mark : String) (fault : Fault) : Exact (expectPunct mark fault) :=
  (exact_punct? mark).ite .pure (exact_fail fault)

theorem exact_expectName (fault : Fault) : Exact (expectName fault) :=
  exact_name?.bind_option (exact_fail fault) fun _ => .pure

/-! ### Expressions and literals -/

theorem exact_expression? : Exact expression? := by
  refine ⟨forward_expression?, fun s m _ h => ?_⟩
  change expressionText (s.cutExpression 0).1 (s.cutExpression 0).2.1 (s.cutExpression 0).2.2 =
    .error m at h
  refine ⟨_, rest_cutExpression 0 s, ?_⟩
  unfold expressionText at h
  split at h
  · cases h
    rfl
  · cases h

theorem exact_parenthesized : Exact parenthesized := by
  refine (exact_expectPunct _ _).bind fun _ => ?_
  refine exact_expression?.bind_option (exact_fail _) fun text => ?_
  exact (exact_expectPunct _ _).bind fun _ => .pure

/-- A fraction makes more of a value than a sign. -/
theorem fraction_of_isBareSign (h : isBareSign (fraction value s).1 = true) :
    fraction value s = (value, s) := by
  unfold fraction at h ⊢
  split at h
  · refine absurd h (Bool.eq_false_iff.1 (isBareSign_of_mem (c := '.') ?_ (by decide) (by decide)))
    simp
  · rfl

theorem exponent_of_isBareSign (h : isBareSign (exponent value s).1 = true) :
    exponent value s = (value, s) := by
  unfold exponent at h ⊢
  split at h
  · next hadjacent =>
    obtain ⟨_, _, _, -, hopens, -⟩ := rest_of_adjacent? hadjacent
    rw [Bool.and_eq_true, opensExponent, Bool.and_eq_true, Bool.or_eq_true, beq_iff_eq,
      beq_iff_eq] at hopens
    -- The value ends in the letter that opens the exponent.
    have hletter : 'e' ∈ value.toList ∨ 'E' ∈ value.toList :=
      hopens.1.1.imp List.mem_of_getLast? List.mem_of_getLast?
    refine absurd h (Bool.eq_false_iff.1 ?_)
    obtain he | he := hletter
    · exact isBareSign_of_mem (c := 'e') (by simp [he]) (by decide) (by decide)
    · exact isBareSign_of_mem (c := 'E') (by simp [he]) (by decide) (by decide)
  · rfl

/-- A literal is given up only where nothing but a sign was read. -/
theorem literalRest_eq_error (h : literalRest value s = .error m) :
    isBareSign value = true ∧ m.position = s.gap.start := by
  unfold literalRest at h
  split at h
  · cases h
  dsimp only at h
  split at h
  · next hbare =>
    cases h
    have hexponent := exponent_of_isBareSign hbare
    rw [hexponent] at hbare ⊢
    have hfraction := fraction_of_isBareSign hbare
    rw [hfraction] at hbare ⊢
    exact ⟨hbare, rfl⟩
  · cases h

theorem exact_unsignedLiteral {signText : String} (hsign : isBareSign signText = true) :
    Exact (unsignedLiteral signText) := by
  refine ⟨forward_unsignedLiteral hsign, fun s m hs h => ⟨s, .refl, ?_⟩⟩
  cases s with
  | done => cases h; rfl
  | item g t rest =>
    simp only [unsignedLiteral] at h
    split at h
    · next hkind =>
      rw [Bool.or_eq_true, beq_iff_eq, beq_iff_eq] at hkind
      have hlegible := isBareSign_append hsign (hs t List.mem_cons_self hkind)
      rw [(literalRest_eq_error h).1] at hlegible
      cases hlegible
    · split at h
      · exact (literalRest_eq_error h).2
      · cases h
        rfl

theorem exact_defaultValue : Exact defaultValue := by
  refine (exact_nextIs _).ite (exact_parenthesized.bind fun _ => .pure) ?_
  refine ⟨forward_literal, fun s m hs h => ?_⟩
  obtain h | ⟨signText, s', hsign, h⟩ := bind_eq_error h
  · unfold sign at h
    split at h
    · split at h <;> cases h
    · cases h
  · have hliteral := exact_unsignedLiteral (isBareSign_of_sign hsign)
    exact hliteral.fault_of_rest hs (forward_sign _ _ _ hsign) h

/-! ### Constraints -/

theorem exact_conflict? : Exact conflict? := by
  refine (exact_phrase? _).ite ?_ .pure
  exact (exact_choose _).bind_option (exact_fail _) fun _ => .pure

theorem exact_keyEffect : Exact keyEffect := by
  refine (exact_keyword? _).ite ?_ ((exact_keyword? _).ite ?_ ?_)
  · exact (exact_choose _).bind_option (exact_fail _) fun _ => .pure
  · exact (exact_expectKeyword _ _).bind fun _ => .pure
  · exact (exact_choose _).bind_option (exact_fail _) fun _ => .pure

theorem exact_keyAction? : Exact keyAction? := by
  have check : Exact keyCheck? := by
    refine (exact_keyword? _).ite ?_ .pure
    exact (exact_choose _).bind_option (exact_fail _) fun _ => .pure
  refine (exact_choose _).bind_option ?_ fun event => ?_
  · refine (exact_keyword? _).ite ?_ ?_
    · exact (exact_expectName _).bind fun _ => .pure
    · exact (exact_choose _).bind_option .pure fun negated => check.bind fun _ => .pure
  · exact exact_keyEffect.bind fun _ => .pure

theorem exact_foreignKey : Exact foreignKey := by
  have columns : Exact keyColumns := by
    have names : Exact (commaSeparated (expectName .columnName)) :=
      Exact.rounds ((exact_expectName _).bind fun _ => (exact_punct? _).ite .pure .pure)
    refine (exact_punct? _).ite (names.bind fun names => ?_) .pure
    exact (exact_expectPunct _ _).bind fun _ => .pure
  refine (exact_expectName _).bind fun table => columns.bind fun columns => ?_
  exact exact_keyAction?.many.bind fun actions => .pure

theorem exact_primaryKey : Exact primaryKey := by
  refine (exact_expectKeyword _ _).bind fun _ => (exact_choose _).bind fun order => ?_
  exact exact_conflict?.bind fun conflict => (exact_keyword? _).bind fun _ => .pure

theorem exact_generated : Exact generated :=
  exact_parenthesized.bind fun _ => (exact_choose _).bind fun _ => .pure

theorem exact_rule? : Exact rule? := by
  have conflict (f : Option Conflict → Rule) : Exact (do return some (f (← conflict?))) :=
    exact_conflict?.bind fun _ => .pure
  refine (exact_keyword? _).ite ?primary ((exact_keyword? _).ite ?notNull
    ((exact_keyword? _).ite ?null ((exact_keyword? _).ite ?unique ((exact_keyword? _).ite ?check
    ((exact_keyword? _).ite ?default ((exact_keyword? _).ite ?collate
    ((exact_keyword? _).ite ?references ((exact_keyword? _).ite ?generated
    ((exact_keyword? _).ite ?as .pure)))))))))
  case primary => exact exact_primaryKey.bind fun _ => .pure
  case notNull => exact (exact_expectKeyword _ _).bind fun _ => conflict .notNull
  case null => exact conflict .null
  case unique => exact conflict .unique
  case check => exact exact_parenthesized.bind fun _ => .pure
  case default => exact exact_defaultValue.bind fun _ => .pure
  case collate => exact (exact_expectName _).bind fun _ => .pure
  case references => exact exact_foreignKey.bind fun _ => .pure
  case generated =>
    refine (exact_expectKeyword _ _).bind fun _ => (exact_expectKeyword _ _).bind fun _ => ?_
    exact exact_generated.bind fun _ => .pure
  case as => exact exact_generated.bind fun _ => .pure

theorem exact_constraint? : Exact constraint? := by
  have name : Exact constraintName? := by
    refine (exact_keyword? _).ite ?_ .pure
    exact (exact_expectName _).bind fun _ => .pure
  refine (Exact.spanned ?parts).bind fun x => .pure
  case parts =>
    refine name.bind fun name => exact_rule?.bind fun rule => ?_
    split
    · exact (exact_fail _).bind fun _ => .pure
    · exact .pure

/-! ### Tables -/

theorem exact_typeName? : Exact typeName? := by
  have arguments : Exact typeArguments := by
    refine (exact_punct? _).ite (exact_expression?.bind fun first => ?_) .pure
    refine (exact_punct? _).ite (exact_expression?.bind fun second => ?_) ?_
    · exact (exact_expectPunct _ _).bind fun _ => .pure
    · exact (exact_expectPunct _ _).bind fun _ => .pure
  refine (Exact.spanned ?parts).bind fun x => .pure
  case parts =>
    refine (Exact.of_forall_ne forward_typeWords nofun).bind fun words => ?_
    split
    · exact .pure
    · exact arguments.bind fun _ => .pure

theorem exact_columns : Exact columns := by
  have column : Exact column? := by
    refine (exact_nextIs _).ite .pure ((Exact.spanned ?parts).bind fun x => .pure)
    case parts =>
      refine exact_name?.bind_option .pure fun name => exact_typeName?.bind fun type => ?_
      exact exact_constraint?.many.bind fun constraints => .pure
  refine (Exact.rounds ?round).bind fun columns => (exact_expectPunct _ _).bind fun _ => .pure
  case round =>
    exact column.bind_option .pure fun column => (exact_punct? _).ite .pure .pure

theorem exact_tableOptions : Exact tableOptions := by
  have option : Exact tableOption? := by
    refine (Exact.spanned ?kind).bind fun x => .pure
    case kind =>
      refine (exact_keyword? _).ite ?_ ((exact_keyword? _).ite .pure .pure)
      exact (exact_expectKeyword _ _).bind fun _ => .pure
  have expected : Exact expectOption := by
    refine option.bind_option (exact_fail _) fun option => ?_
    exact (exact_punct? _).bind fun _ => .pure
  refine Exact.many ⟨forward_nextOption?, fun s m hs h => ?_⟩
  rw [nextOption?_eq] at h
  split at h
  · cases h
  · exact (expected.bind fun _ => .pure).fault s m hs h

theorem exact_tableBody : Exact tableBody := by
  have ifNotExists : Exact ifNotExists := by
    refine (exact_keyword? _).ite ?_ .pure
    refine (exact_expectKeyword _ _).bind fun _ => ?_
    exact (exact_expectKeyword _ _).bind fun _ => .pure
  have name : Exact tableName := by
    refine (exact_expectName _).bind fun name => (exact_punct? _).ite ?_ .pure
    exact (exact_expectName _).bind fun _ => .pure
  refine ifNotExists.bind fun _ => name.bind fun _ => (exact_expectPunct _ _).bind fun _ => ?_
  exact exact_columns.bind fun _ => exact_tableOptions.bind fun _ => .pure

/-! ## Statements -/

theorem exact_statement : Exact statement := by
  refine ⟨forward_statement, fun s m hs h => ?_⟩
  rw [statement_eq] at h
  split at h
  · cases h
  · next s' hphrase =>
    split at h
    · next e hbody =>
      cases h
      exact exact_tableBody.fault_of_rest hs (rest_of_afterPhrase? hphrase) hbody
    · cases h

theorem exact_statements : Exact statements := by
  have atEnd : Exact atEnd := .of_forall_ne forward_atEnd nofun
  exact Exact.many (atEnd.ite .pure (exact_statement.bind fun _ => .pure))

/-- Where a list of tokens is outside the grammar, a significant token begins, or the list ends. -/
theorem exists_split_of_misfit (hts : Lawful ts) (h : Statement.ofTokens ts = .error m) :
    ∃ us vs, ts = us ++ vs ∧ m.position = us.length ∧ ∀ t ∈ vs.head?, t.isTrivia = false := by
  have hlegible : (ofTokens 0 ts).Legible := by
    intro t ht
    rw [significant_ofTokens] at ht
    exact legible_of_lawful hts t (List.mem_filter.1 ht).1
  have herror : statements (ofTokens 0 ts) = .error m := by
    unfold Statement.ofTokens StateT.run at h
    cases hs : statements (ofTokens 0 ts) with
    | error e => rw [hs] at h; cases h; rfl
    | ok x => rw [hs] at h; cases h
  obtain ⟨r, hr, hm⟩ := exact_statements.fault _ _ hlegible herror
  -- The tokens that are left begin with a gap.
  obtain ⟨us, vs, rfl, rfl⟩ : ∃ us vs, ts = us ++ vs ∧ r = ofTokens us.length vs := by
    obtain rfl | ⟨us, t, vs, rfl, -, rfl⟩ := hr.ofTokens
    · exact ⟨[], ts, rfl, rfl⟩
    · exact ⟨us ++ [t], vs, by simp, by simp⟩
  obtain hvs | ⟨w, t, vs, rfl, hw, ht⟩ := trivia_or vs
  · rw [ofTokens_trivia _ hvs] at hm
    exact ⟨us ++ vs, [], by simp, by simpa [Stream.gap, Gap.stop] using hm, nofun⟩
  · rw [ofTokens_append _ hw ht] at hm
    refine ⟨us ++ w, t :: vs, by simp, by simpa [Stream.gap, Gap.stop] using hm, ?_⟩
    rintro _ ⟨⟩
    exact ht

end SchemaAlign.Parser
