import SchemaAlign.Parser.Table
import SchemaAlign.Proofs.Parser.Literal

/-!
# The columns of a table are read alike everywhere

The rules for what stands between the parentheses of `CREATE TABLE`, and for the options after them,
are uniform. Constraints, types, columns and options come with the tokens they were read from, so
those read at places `d` apart agree up to `d`.

* `uniform_rule?`, `uniform_constraint?`: the constraints of a column;
* `uniform_columns`: all columns of a table;
* `uniform_tableOptions`: its options.
-/

namespace SchemaAlign.Parser

open SchemaAlign.Parser.Stream (Meets Parallel isBarrier)
open SchemaAlign.Text

/-- At a barrier there is no rule to read. -/
theorem rule?_of_barrier {B : Stream} (h : B.isBarrier = true) : rule? B = .ok (none, B) := by
  simp only [rule?, run_bind, keyword?_of_barrier h, Bool.false_eq_true, if_false]
  rfl

variable {d : Nat} {T T' : Stream} (hT : Meets d T T')
include hT

/-! ## Rules -/

theorem uniform_conflict? : Uniform d T T' Eq conflict? conflict? := by
  refine (uniform_phrase? hT _).ite ?_ (.pure rfl)
  exact (uniform_choose hT _).bind_option (uniform_fail _) fun _ => .pure rfl

theorem uniform_keyEffect : Uniform d T T' Eq keyEffect keyEffect := by
  refine (uniform_keyword? hT _).ite ?_ ((uniform_keyword? hT _).ite ?_ ?_)
  · exact (uniform_choose hT _).bind_option (uniform_fail _) fun _ => .pure rfl
  · exact (uniform_expectKeyword hT _ _).bind_eq fun _ => .pure rfl
  · exact (uniform_choose hT _).bind_option (uniform_fail _) fun _ => .pure rfl

theorem uniform_keyCheck? : Uniform d T T' Eq keyCheck? keyCheck? := by
  refine (uniform_keyword? hT _).ite ?_ (.pure rfl)
  exact (uniform_choose hT _).bind_option (uniform_fail _) fun _ => .pure rfl

theorem uniform_keyAction? : Uniform d T T' Eq keyAction? keyAction? := by
  refine (uniform_choose hT _).bind_option ?_ fun event => ?_
  · refine (uniform_keyword? hT _).ite ?_ ?_
    · exact (uniform_expectName hT _).bind_eq fun _ => .pure rfl
    · refine (uniform_choose hT _).bind_option (.pure rfl) fun negated => ?_
      exact (uniform_keyCheck? hT).bind_eq fun _ => .pure rfl
  · exact (uniform_keyEffect hT).bind_eq fun _ => .pure rfl

theorem uniform_keyColumns : Uniform d T T' Eq keyColumns keyColumns := by
  refine (uniform_punct? hT (by decide)).ite ?_ (.pure rfl)
  refine (uniform_commaSeparated hT (uniform_expectName hT _)).bind fun names names' h => ?_
  rw [List.forall₂_eq_eq_eq] at h
  subst h
  exact (uniform_expectPunct hT (by decide) _).bind_eq fun _ => .pure rfl

theorem uniform_foreignKey : Uniform d T T' Eq foreignKey foreignKey := by
  refine (uniform_expectName hT _).bind_eq fun table => ?_
  refine (uniform_keyColumns hT).bind_eq fun columns => ?_
  have action : Uniform d T T' (fun a b => a.map id = b) keyAction? keyAction? :=
    (uniform_keyAction? hT).mono fun a _ h => by rw [Option.map_id_apply, h]
  refine (uniform_many_map action).bind fun actions _ h => ?_
  exact .pure (by rw [← h, List.map_id])

theorem uniform_primaryKey : Uniform d T T' Eq primaryKey primaryKey := by
  refine (uniform_expectKeyword hT _ _).bind_eq fun _ => ?_
  refine (uniform_choose hT _).bind_eq fun order => ?_
  refine (uniform_conflict? hT).bind_eq fun conflict => ?_
  exact (uniform_keyword? hT _).bind_eq fun autoincrement => .pure rfl

theorem uniform_generated : Uniform d T T' Eq generated generated := by
  refine (uniform_parenthesized hT).bind_eq fun expr => ?_
  exact (uniform_choose hT _).bind_eq fun storage => .pure rfl

theorem uniform_rule? : Uniform d T T' Eq rule? rule? := by
  have keyword (k : String) := uniform_keyword? hT k
  have conflict (f : Option Conflict → Rule) :
      Uniform d T T' Eq (do return some (f (← conflict?))) (do return some (f (← conflict?))) :=
    (uniform_conflict? hT).bind_eq fun _ => .pure rfl
  refine (keyword _).ite ?primary ((keyword _).ite ?notNull ((keyword _).ite ?null
    ((keyword _).ite ?unique ((keyword _).ite ?check ((keyword _).ite ?default
    ((keyword _).ite ?collate ((keyword _).ite ?references ((keyword _).ite ?generated
    ((keyword _).ite ?as (.pure rfl))))))))))
  case primary => exact (uniform_primaryKey hT).bind_eq fun _ => .pure rfl
  case notNull => exact (uniform_expectKeyword hT _ _).bind_eq fun _ => conflict .notNull
  case null => exact conflict .null
  case unique => exact conflict .unique
  case check => exact (uniform_parenthesized hT).bind_eq fun _ => .pure rfl
  case default => exact (uniform_defaultValue hT).bind_eq fun _ => .pure rfl
  case collate => exact (uniform_expectName hT _).bind_eq fun _ => .pure rfl
  case references => exact (uniform_foreignKey hT).bind_eq fun _ => .pure rfl
  case generated =>
    refine (uniform_expectKeyword hT _ _).bind_eq fun _ => ?_
    refine (uniform_expectKeyword hT _ _).bind_eq fun _ => ?_
    exact (uniform_generated hT).bind_eq fun _ => .pure rfl
  case as => exact (uniform_generated hT).bind_eq fun _ => .pure rfl

theorem uniform_constraintName? : Uniform d T T' Eq constraintName? constraintName? := by
  refine (uniform_keyword? hT _).ite ?_ (.pure rfl)
  exact (uniform_expectName hT _).bind_eq fun _ => .pure rfl

/-! ## Columns -/

theorem uniform_constraint? :
    Uniform d T T' (fun a b => a.map (·.mapSpan (Span.shift 0 d)) = b) constraint? constraint? := by
  refine (uniform_spanned hT (?parts : Uniform d T T' Eq _ _)).map ?_
  case parts =>
    refine (uniform_constraintName? hT).bind_eq fun name => ?_
    refine (uniform_rule? hT).bind_eq fun rule => ?_
    split
    · exact (uniform_fail _).bind_eq fun _ => .pure rfl
    · exact .pure rfl
  -- The spans differ by `d`, or were read at the barrier, where there is no rule to keep a span.
  rintro ⟨⟨name, rule⟩, span⟩ ⟨_, _⟩ ⟨rfl, rfl | ⟨r, hr⟩⟩
  · cases rule <;> rfl
  · simp only [constraintName?, run_bind, keyword?_of_barrier hT.right, rule?_of_barrier hT.right,
      Bool.false_eq_true, if_false, run_pure] at hr
    cases hr
    rfl

omit hT in
theorem cutWhile_of_isBarrier {p : Token → Bool} {B : Stream} (h : B.isBarrier = true)
    (hp : ∀ t : Token, t.isPunct ";" = true → p t = false) : B.cutWhile p = ([], B) := by
  cases B with
  | done => rfl
  | item g t rest => simp [Stream.cutWhile, hp t h]

theorem parallel_cutWhile (p : Token → Bool) (hp : ∀ t : Token, t.isPunct ";" = true → p t = false)
    {s s' : Stream} (hs : Parallel d T T' s s') :
    (s.cutWhile p).1 = (s'.cutWhile p).1 ∧
      Parallel d T T' (s.cutWhile p).2 (s'.cutWhile p).2 := by
  induction hs with
  | barrier =>
    rw [cutWhile_of_isBarrier hT.left hp, cutWhile_of_isBarrier hT.right hp]
    exact ⟨rfl, .barrier⟩
  | @item g t s s' hs ih =>
    simp only [Stream.cutWhile]
    split
    · exact ⟨congrArg (t :: ·) ih.1, ih.2⟩
    · exact ⟨rfl, .item hs⟩

omit hT in
theorem typeWords_of_barrier {B : Stream} (h : B.isBarrier = true) :
    typeWords B = .ok ([], B) := by
  have hcut := cutWhile_of_isBarrier (p := fun t =>
    t.kind == .word && !isOneOf columnConstraintKeywords t) h fun t ht => by simp [kind_of_isPunct ht]
  simp only [typeWords, hcut, List.map_nil]

theorem uniform_typeWords : Uniform d T T' Eq typeWords typeWords := by
  intro s s' hs
  obtain ⟨h, hr⟩ := parallel_cutWhile hT
    (fun t => t.kind == .word && !isOneOf columnConstraintKeywords t)
    (fun t ht => by simp [kind_of_isPunct ht]) hs
  exact ⟨by rw [h], hr⟩

theorem uniform_typeArguments : Uniform d T T' Eq typeArguments typeArguments := by
  refine (uniform_punct? hT (by decide)).ite ?_ (.pure rfl)
  have close (first second : Option String) : Uniform d T T' Eq
      (do expectPunct ")" .closingParenthesis; return (first, second))
      (do expectPunct ")" .closingParenthesis; return (first, second)) :=
    (uniform_expectPunct hT (by decide) _).bind_eq fun _ => .pure rfl
  have unclosed {B : Stream} (hB : B.isBarrier = true) (first second : Option String) :
      ∃ e, (do expectPunct ")" .closingParenthesis; return (first, second) : Parser _) B =
        .error e :=
    error_of_expectPunct hB (by decide) _ _
  refine uniform_expression? hT (fun first => ?_) (fun first => ?_) (fun first => ?_)
  · refine (uniform_punct? hT (by decide)).ite ?_ (close first none)
    exact uniform_expression? hT (close first) (unclosed hT.left first) (unclosed hT.right first)
  · rw [run_bind, punct?_of_barrier hT.left (by decide)]
    exact unclosed hT.left first none
  · rw [run_bind, punct?_of_barrier hT.right (by decide)]
    exact unclosed hT.right first none

theorem uniform_typeName? :
    Uniform d T T' (fun a b => a.map (·.mapSpan (Span.shift 0 d)) = b) typeName? typeName? := by
  refine (uniform_spanned hT (?parts : Uniform d T T' Eq _ _)).map ?_
  case parts =>
    refine (uniform_typeWords hT).bind_eq fun words => ?_
    split
    · exact .pure rfl
    · exact (uniform_typeArguments hT).bind_eq fun _ => .pure rfl
  rintro ⟨⟨words, first, second⟩, span⟩ ⟨_, _⟩ ⟨rfl, rfl | ⟨r, hr⟩⟩
  · cases words <;> rfl
  · rw [run_bind, typeWords_of_barrier hT.right] at hr
    cases hr
    rfl

theorem uniform_column? :
    Uniform d T T' (fun a b => a.map (·.mapSpan (Span.shift 0 d)) = b) column? column? := by
  have hp : ∀ t : Token, t.isPunct ";" = true → isOneOf tableConstraintKeywords t = false :=
    fun t ht => by simp [isOneOf, isKeyword_of_isPunct ht]
  refine (uniform_nextIs hT hp).ite (.pure rfl) ?_
  refine (uniform_spanned hT (?parts : Uniform d T T' (fun a b => a.map (fun x =>
    (x.1, x.2.1.map (·.mapSpan (Span.shift 0 d)), x.2.2.map (·.mapSpan (Span.shift 0 d)))) = b)
      _ _)).map ?_
  case parts =>
    refine (uniform_name? hT).bind_option (.pure rfl) fun name => ?_
    refine (uniform_typeName? hT).bind fun type _ htype => ?_
    refine (uniform_many_map (uniform_constraint? hT)).bind fun constraints _ hconstraints => ?_
    subst htype hconstraints
    exact .pure rfl
  rintro ⟨found, span⟩ ⟨_, _⟩ ⟨rfl, rfl | ⟨r, hr⟩⟩
  · cases found <;> rfl
  · rw [run_bind, name?_of_barrier hT.right] at hr
    cases found
    · rfl
    · cases hr

theorem uniform_ifNotExists : Uniform d T T' Eq ifNotExists ifNotExists := by
  refine (uniform_keyword? hT _).ite ?_ (.pure rfl)
  refine (uniform_expectKeyword hT _ _).bind_eq fun _ => ?_
  exact (uniform_expectKeyword hT _ _).bind_eq fun _ => .pure rfl

theorem uniform_tableName : Uniform d T T' Eq tableName tableName := by
  refine (uniform_expectName hT _).bind_eq fun name => ?_
  refine (uniform_punct? hT (by decide)).ite ?_ (.pure rfl)
  exact (uniform_expectName hT _).bind_eq fun _ => .pure rfl

theorem uniform_columns :
    Uniform d T T' (fun as bs => as.map (·.mapSpan (Span.shift 0 d)) = bs) columns columns := by
  refine (uniform_rounds (?round : Uniform d T T'
    (RoundMatches fun a b => a.mapSpan (Span.shift 0 d) = b) _ _)).bind fun as bs h => ?_
  case round =>
    refine (uniform_column? hT).bind fun column _ h => ?_
    subst h
    cases column with
    | none => exact .pure .stop
    | some column =>
      exact (uniform_punct? hT (by decide)).ite (.pure (.next rfl)) (.pure (.last rfl))
  rw [← List.forall₂_map_left_iff, List.forall₂_eq_eq_eq] at h
  exact (uniform_expectPunct hT (by decide) _).bind_eq fun _ => .pure h

/-! ## Options -/

theorem uniform_tableOption? :
    Uniform d T T' (fun a b => a.map (·.mapSpan (Span.shift 0 d)) = b)
      tableOption? tableOption? := by
  refine (uniform_spanned hT (?kind : Uniform d T T' Eq _ _)).map ?_
  case kind =>
    refine (uniform_keyword? hT _).ite ?_ ((uniform_keyword? hT _).ite ?_ ?_)
    · exact (uniform_expectKeyword hT _ _).bind_eq fun _ => .pure rfl
    all_goals exact .pure rfl
  rintro ⟨kind, span⟩ ⟨_, _⟩ ⟨rfl, rfl | ⟨r, hr⟩⟩
  · cases kind <;> rfl
  · simp only [run_bind, keyword?_of_barrier hT.right, Bool.false_eq_true, if_false] at hr
    cases hr
    rfl

theorem uniform_expectOption :
    Uniform d T T' (fun a b => a.mapSpan (Span.shift 0 d) = b) expectOption expectOption := by
  refine (uniform_tableOption? hT).bind fun option _ h => ?_
  subst h
  cases option with
  | none => exact uniform_fail _
  | some option => exact (uniform_punct? hT (by decide)).bind_eq fun _ => .pure rfl

omit hT in
/-- Which option comes next is decided at the first token. -/
theorem nextOption?_eq (s : Stream) :
    nextOption? s =
      if s.isBarrier then .ok (none, s) else (do return some (← expectOption) : Parser _) s := by
  cases s with
  | done => rfl
  | item g t rest =>
    change (if t.isPunct ";" then pure none else do return some (← expectOption) : Parser _)
      (.item g t rest) = if t.isPunct ";" then _ else _
    split <;> rfl

theorem uniform_nextOption? :
    Uniform d T T' (fun a b => a.map (·.mapSpan (Span.shift 0 d)) = b)
      nextOption? nextOption? := by
  have some_option : Uniform d T T' (fun a b => a.map (·.mapSpan (Span.shift 0 d)) = b)
      (do return some (← expectOption)) (do return some (← expectOption)) :=
    (uniform_expectOption hT).map fun _ _ h => congrArg some h
  intro s s' hs
  rw [nextOption?_eq, nextOption?_eq]
  cases hs with
  | barrier =>
    rw [if_pos hT.left, if_pos hT.right]
    exact ⟨rfl, .barrier⟩
  | @item g t s s' hs =>
    by_cases ht : t.isPunct ";" = true
    · rw [if_pos (by exact ht), if_pos (by exact ht)]
      exact ⟨rfl, .item hs⟩
    · rw [if_neg (by exact ht), if_neg (by exact ht)]
      exact some_option _ _ (.item hs)

/-- The options end at a semicolon or at the end of the tokens, and so at a barrier if nothing
    stands before it. -/
theorem uniform_tableOptions :
    Uniform d T T' (fun as bs => as.map (·.mapSpan (Span.shift 0 d)) = bs)
      tableOptions tableOptions :=
  uniform_many_map (uniform_nextOption? hT)

theorem uniform_tableBody :
    Uniform d T T' (fun a b => (a.1, a.2.1, a.2.2.1.map (·.mapSpan (Span.shift 0 d)),
      a.2.2.2.map (·.mapSpan (Span.shift 0 d))) = b) tableBody tableBody := by
  refine (uniform_ifNotExists hT).bind_eq fun ifNotExists => ?_
  refine (uniform_tableName hT).bind_eq fun name => ?_
  refine (uniform_expectPunct hT (by decide) _).bind_eq fun _ => ?_
  refine (uniform_columns hT).bind fun columns _ hcolumns => ?_
  refine (uniform_tableOptions hT).bind fun options _ hoptions => ?_
  exact .pure (by rw [hcolumns, hoptions])

end SchemaAlign.Parser
