import SchemaAlign.Proofs.Parser.Alike
import SchemaAlign.Proofs.Parser.Grammar.Column
import SchemaAlign.Proofs.Parser.Stretch
import SchemaAlign.Proofs.Parser.Wording.Read
import SchemaAlign.Proofs.Parser.Wording.Slips
import SchemaAlign.Proofs.Source

/-!
# What the parser accepts

Every `CREATE TABLE` that is read is a sentence of the grammar if all slips are allowed. Of them, it
needs exactly those that show in its tokens.

* `worded_rule?`, `worded_constraint?`, `worded_column?`, `worded_columns`, `worded_tableOptions`:
  the parts of the statement, each in the language of the same name;
* `filter_mem_createTable`: one statement;
* `Statement.parse_worded`: all statements of a list of tokens;
* `Statement.parse_trailing_comma`: two statements that the grammar without slips does not have.
-/

namespace SchemaAlign

namespace Parser

open Text
open SchemaAlign.Wording
open SchemaAlign.Parser.Grammar (dispatch ruleTable rule?_eq_dispatch)
open SchemaAlign.Parser.Stream (ofTokens)
open scoped Computability

variable {α : Type} {s r : Stream} {L : Language Token}

/-! ## Constraints -/

theorem worded_conflict? : Worded (found 1 conflict) conflict? := by
  refine (worded_phrase? _).ite (A := found 0 (anyKeyword _)) ?_ (worded_pure le_rfl)
    (mul_found le_rfl)
  exact (worded_choose_any rfl).demand (fun _ => ⟨_, rfl, le_rfl⟩) ⟨_, rfl⟩

theorem worded_keyEffect : Worded (fun _ => effect) keyEffect := by
  refine (worded_keyword? _).ite (A := fun _ => anyKeyword ["NULL", "DEFAULT"]) ?set
    ((worded_keyword? _).ite (A := fun _ => keywords ["ACTION"]) ?no ?other
      fun _ _ h => .inl (.inr h)) fun _ _ h => .inl (.inl h)
  case set =>
    exact (worded_choose_any rfl).demand (fun _ => ⟨_, rfl, le_rfl⟩) ⟨_, rfl⟩
  case no => exact (worded_expectKeyword _ _).seq fun _ => worded_pure le_rfl
  case other =>
    exact (worded_choose_any rfl).demand (fun _ => ⟨_, rfl, fun _ h => .inr h⟩) ⟨_, rfl⟩

theorem worded_keyCheck? :
    Worded (found 1 (keyword "INITIALLY" * anyKeyword ["DEFERRED", "IMMEDIATE"])) keyCheck? := by
  refine (worded_keyword? _).ite (A := found 0 (anyKeyword _)) ?_ (worded_pure le_rfl)
    (mul_found le_rfl)
  exact (worded_choose_any rfl).demand (fun _ => ⟨_, rfl, le_rfl⟩) ⟨_, rfl⟩

theorem worded_keyAction? : Worded (found 1 action) keyAction? := by
  refine (worded_choose (L := keyword "ON" * anyKeyword ["DELETE", "UPDATE"]) ?events).bind_option
    (H := found 0 effect) ?on ?other (mul_found fun _ h => .inl (.inl h))
  case events =>
    simp only [List.forall_mem_cons]
    exact ⟨mul_le_mul_right (keyword_le_anyKeyword (by simp)) _,
      mul_le_mul_right (keyword_le_anyKeyword (by simp)) _, nofun⟩
  case on => exact fun _ => worded_keyEffect.map fun _ => le_rfl
  case other =>
    refine (worded_keyword? _).ite (A := found 0 name) ?matching ?deferrable
      (mul_found fun _ h => .inl (.inr h))
    case matching => exact (worded_expectName _).map fun _ => le_rfl
    case deferrable =>
      refine (worded_choose (L := maybe (keyword "NOT") * keyword "DEFERRABLE") ?_).bind_option
        (H := found 0 (maybe (keyword "INITIALLY" * anyKeyword ["DEFERRED", "IMMEDIATE"])))
        (fun _ => worded_keyCheck?.map found_le_maybe) (worded_pure le_rfl)
        (mul_found fun _ h => .inr h)
      simp only [List.forall_mem_cons, keywords_cons, keywords_nil, mul_one]
      exact ⟨mul_le_mul_left (le_maybe _) _, le_maybe_mul _ _, nofun⟩

theorem worded_keyColumns :
    Worded (fun _ => maybe (mark "(" * separated name * mark ")")) keyColumns := by
  refine (worded_punct? _).ite (A := fun _ => separated name * mark ")") ?_
    (worded_pure (one_le_maybe _)) fun _ => ?_
  · refine (worded_expectName _).commaSeparated.seq fun _ => ?_
    exact (worded_expectPunct _ _).map fun _ => le_rfl
  · rw [← mul_assoc]
    exact le_maybe _

theorem worded_foreignKey : Worded (fun _ => Wording.foreignKey) foreignKey := by
  refine ((worded_expectName _).seq fun _ => worded_keyColumns.seq fun _ =>
    worded_keyAction?.many.map fun _ => le_rfl).mono fun _ => ?_
  rw [← mul_assoc]
  rfl

theorem worded_primaryKey : Worded (fun _ => keyword "KEY" * (maybe (anyKeyword ["ASC", "DESC"]) *
    (maybe conflict * maybe (keyword "AUTOINCREMENT")))) primaryKey := by
  refine (worded_expectKeyword _ _).seq fun _ => ?_
  refine ((worded_choose_any rfl).mono found_le_maybe).seq fun _ => ?_
  refine (worded_conflict?.mono found_le_maybe).seq fun _ => ?_
  exact (worded_keyword? _).map flag_le_maybe

theorem worded_generated :
    Worded (fun _ => parens .univ * maybe (anyKeyword ["STORED", "VIRTUAL"])) generated :=
  worded_parenthesized.seq fun _ => (worded_choose_any rfl).map found_le_maybe

theorem worded_dispatch {table : List (String × Parser (Option α))}
    (h : ∀ x ∈ table, ∃ M, Worded (found 0 M) x.2 ∧ keyword x.1 * M ≤ L) :
    Worded (found 1 L) (dispatch (pure none) table) := by
  induction table with
  | nil => exact worded_pure le_rfl
  | cons x table ih =>
    obtain ⟨⟨M, hp, hM⟩, htable⟩ := List.forall_mem_cons.1 h
    exact (worded_keyword? _).ite hp (ih htable) (mul_found hM)

/-- What follows each keyword of a rule. -/
theorem worded_ruleTable :
    ∀ x ∈ ruleTable, ∃ M, Worded (found 0 M) x.2 ∧ keyword x.1 * M ≤ rule .univ := by
  have hexpect {k : String} {p : Parser (Option Rule)} (fault : Fault) {M : Language Token}
      (hp : Worded (found 0 M) p) :
      Worded (found 0 (keyword k * M)) (expectKeyword k fault >>= fun _ => p) :=
    (worded_expectKeyword k fault).bind (fun _ => hp) fun _ => mul_found le_rfl
  have hconflict (f : Option Conflict → Rule) :
      Worded (found 0 (maybe conflict)) (do return some (f (← conflict?))) :=
    worded_conflict?.map found_le_maybe
  have hgenerated : Worded (found 0 (parens .univ * maybe (anyKeyword ["STORED", "VIRTUAL"])))
      (do return some (← generated)) :=
    worded_generated.map fun _ => le_rfl
  -- One language for each keyword, and each of them with its keyword is a rule.
  simp only [ruleTable, List.forall_mem_cons]
  refine ⟨⟨_, worded_primaryKey.map fun _ => le_rfl, ?_⟩, ⟨_, hexpect _ (hconflict _), ?_⟩,
    ⟨_, hconflict _, ?_⟩, ⟨_, hconflict _, ?_⟩,
    ⟨parens .univ, worded_parenthesized.map fun _ => le_rfl, ?_⟩,
    ⟨parens .univ + Wording.literal, worded_defaultValue.map fun _ => le_rfl, ?_⟩,
    ⟨name, (worded_expectName _).map fun _ => le_rfl, ?_⟩,
    ⟨Wording.foreignKey, worded_foreignKey.map fun _ => le_rfl, ?_⟩,
    ⟨_, hexpect _ (hexpect _ hgenerated), ?_⟩, ⟨_, hgenerated, ?_⟩, nofun⟩
  all_goals
    refine le_of_forall_mem fun w hw => ?_
    simp only [rule, keywords_cons, keywords_nil, mul_one, mul_assoc, add_mul, Language.mem_add, hw,
      true_or, or_true]

theorem worded_rule? : Worded (found 1 (rule .univ)) rule? := by
  rw [rule?_eq_dispatch]
  exact worded_dispatch worded_ruleTable

theorem worded_constraintName? :
    Worded (found 1 (keyword "CONSTRAINT" * name)) constraintName? :=
  (worded_keyword? _).ite ((worded_expectName _).map (G := found 0 name) fun _ => le_rfl)
    (worded_pure le_rfl) (mul_found le_rfl)

theorem worded_constraint? : Worded (found 1 (constraint .univ)) constraint? := by
  intro s o r h
  obtain ⟨⟨⟨name, rule⟩, span⟩, s₁, hspanned, h₁⟩ := bind_eq_ok h
  cases h₁
  obtain ⟨name, s₂, hname, h₂⟩ := bind_eq_ok (spanned_eq_ok hspanned).1
  obtain ⟨rule, s₃, hrule, h₃⟩ := bind_eq_ok h₂
  obtain ⟨u, hu, hread⟩ := worded_constraintName? _ _ _ hname
  obtain ⟨v, hv, hread'⟩ := worded_rule? _ _ _ hrule
  split at h₃
  · cases h₃
  cases h₃
  refine ⟨u ++ v, ?_, by rw [hread, hread', List.append_assoc]⟩
  cases rule with
  | some rule => exact Language.append_mem_mul (found_le_maybe name hu) hv
  | none =>
    cases name with
    | some name => contradiction
    | none =>
      obtain rfl : u = [] := hu
      exact hv

/-! ## Columns -/

theorem cutWhile_mem (q : Token → Bool) (s : Stream) :
    (s.cutWhile q).1 ∈ (one q)∗ ∧
      s.significant = (s.cutWhile q).1 ++ (s.cutWhile q).2.significant := by
  induction s with
  | done g => exact ⟨Language.nil_mem_kstar _, rfl⟩
  | item g t s ih =>
    rw [Stream.cutWhile]
    split
    · next ht =>
      have hfirst : [t] ∈ one q := ⟨t, ht, rfl⟩
      have hle : one q * (one q)∗ ≤ (one q)∗ := mul_kstar_le_kstar
      exact ⟨hle (Language.append_mem_mul hfirst ih.1), congrArg (t :: ·) ih.2⟩
    · exact ⟨Language.nil_mem_kstar _, rfl⟩

/-- What is read as long as there are words of a type. -/
def wordsOf : List String → Language Token
  | [] => 1
  | _ :: _ => typeWord * typeWord∗

theorem worded_typeWords : Worded wordsOf typeWords := by
  intro s words r h
  cases h
  cases s with
  | done g => exact ⟨[], rfl, rfl⟩
  | item g t s =>
    rw [Stream.cutWhile]
    split
    · next ht =>
      obtain ⟨hmem, hread⟩ :=
        cutWhile_mem (fun t => t.kind == .word && !isOneOf columnConstraintKeywords t) s
      have hfirst : [t] ∈ typeWord := ⟨t, ht, rfl⟩
      exact ⟨_, Language.append_mem_mul hfirst hmem, congrArg (t :: ·) hread⟩
    · exact ⟨[], rfl, rfl⟩

theorem worded_typeArguments : Worded (fun _ => maybe (arguments .univ)) typeArguments := by
  have hclose (first second : Option String) : Worded (fun _ => mark ")") (do
      expectPunct ")" .closingParenthesis
      return (first, second)) :=
    (worded_expectPunct _ _).map fun _ => le_rfl
  refine (worded_punct? _).ite
    (A := fun _ => argument .univ * (maybe (mark "," * argument .univ) * mark ")")) ?_
    (worded_pure (one_le_maybe _)) fun _ => ?_
  · refine worded_expression?.seq fun first => ?_
    refine (worded_punct? _).ite (worded_expression?.seq (hclose first)) ?_ fun _ => ?_
    · exact (hclose first none).mono fun _ => le_maybe_mul _ _
    · rw [← mul_assoc]
      exact mul_le_mul_left (le_maybe _) _
  · rw [← mul_assoc, ← mul_assoc]
    exact le_maybe _

theorem worded_typeName? : Worded (found 1 (type .univ)) typeName? := by
  intro s o r h
  obtain ⟨⟨⟨words, first, second⟩, span⟩, s₁, hspanned, h₁⟩ := bind_eq_ok h
  cases h₁
  obtain ⟨words, s₂, hwords, h₂⟩ := bind_eq_ok (spanned_eq_ok hspanned).1
  obtain ⟨u, hu, hread⟩ := worded_typeWords _ _ _ hwords
  cases words with
  | nil => cases h₂; exact ⟨u, hu, hread⟩
  | cons word words =>
    obtain ⟨x, s₃, hx, h₃⟩ := bind_eq_ok h₂
    cases h₃
    obtain ⟨v, hv, hread'⟩ := worded_typeArguments _ _ _ hx
    exact ⟨u ++ v, Language.append_mem_mul hu hv, by rw [hread, hread', List.append_assoc]⟩

theorem worded_column? : Worded (found 1 (column .univ)) column? := by
  intro s o r h
  obtain ⟨rfl, rfl⟩ | ⟨c, s₁, s₂, rfl, hname, htype, hconstraints, -⟩ := column?_eq_ok h
  · exact ⟨[], rfl, rfl⟩
  obtain ⟨v, hv, hread⟩ := worded_typeName?.mono found_le_maybe _ _ _ htype
  obtain ⟨w, hw, hread'⟩ := worded_constraint?.many _ _ _ hconstraints
  obtain ⟨b, s₀, hnext, h₀⟩ := bind_eq_ok h
  cases hnext
  split at h₀
  · cases h₀
  next hstart =>
  cases s with
  | done => cases hname
  | item g t s =>
    rw [name?] at hname
    split at hname
    · next ht =>
      cases hname
      have hfirst : [t] ∈ columnName := ⟨t, by simp_all [Stream.headIs, Stream.head?], rfl⟩
      refine ⟨[t] ++ v ++ w, Language.append_mem_mul (Language.append_mem_mul hfirst hv) hw, ?_⟩
      rw [Stream.significant, hread, hread', List.append_assoc, List.append_assoc]
      rfl
    · cases hname

theorem worded_columns : Worded (fun _ => (column .univ * mark ",")∗ * (1 + column .univ) *
    mark ")") columns := by
  refine (Worded.rounds (S := 1) (L := column .univ) (M := column .univ * mark ",") ?round
    fun h => absurd h (nil_notMem_mul_mark _ ",")).seq fun _ => ?close
  case round =>
    refine worded_column?.bind_option worded_commaRound (worded_pure le_rfl) fun x => ?_
    cases x <;> simp [roundOf]
  case close => exact (worded_expectPunct _ _).map fun _ => le_rfl

theorem mark_mul_columns_le :
    mark "(" * ((column .univ * mark ",")∗ * (1 + column .univ) * mark ")") ≤
      columnList .univ := by
  have hle := kstar_mul_one_add_le (column .univ)
  calc mark "(" * ((column .univ * mark ",")∗ * (1 + column .univ) * mark ")")
      ≤ mark "(" * ((maybe (separated (column .univ)) + separated (column .univ) * mark ",") *
          mark ")") := by gcongr
    _ = columnList .univ := by
      rw [columnList, slip_univ, add_mul, mul_add, mul_assoc, mul_assoc, mul_assoc]

/-! ## The statement -/

theorem worded_tableOption? : Worded (found 1 option) tableOption? := by
  have hkind : Worded (found 1 option) (do
      if ← keyword? "WITHOUT" then
        expectKeyword "ROWID" .rowid
        return some OptionKind.withoutRowid
      else if ← keyword? "STRICT" then return some .strict
      else return none : Parser (Option OptionKind)) := by
    refine (worded_keyword? _).ite (A := found 0 (keyword "ROWID")) ?rowid
      ((worded_keyword? _).ite (A := found 0 1) (worded_pure le_rfl) (worded_pure le_rfl) ?strict)
      ?without
    case rowid => exact (worded_expectKeyword _ _).map fun _ => le_rfl
    case strict => exact mul_found ((mul_one _).le.trans fun _ h => .inr h)
    case without =>
      refine mul_found fun _ h => .inl ?_
      rwa [keywords_cons, keywords_singleton]
  intro s o r h
  obtain ⟨⟨kind, span⟩, s₁, hspanned, h₁⟩ := bind_eq_ok h
  cases h₁
  obtain ⟨w, hw, hread⟩ := hkind _ _ _ (spanned_eq_ok hspanned).1
  exact ⟨w, by cases kind <;> exact hw, hread⟩

theorem worded_expectOption : Worded (fun _ => option * maybe (mark ",")) expectOption := by
  refine worded_tableOption?.bind_option (H := fun _ => maybe (mark ",")) (fun o => ?_)
    (worded_fail _) fun _ => le_rfl
  exact (worded_punct? _).map flag_le_maybe

theorem worded_nextOption? : Worded (found 1 (option * maybe (mark ","))) nextOption? := by
  have hnext (b : Bool) : Worded (found 1 (option * maybe (mark ","))) (do
      if b then return none
      return some (← expectOption)) := by
    cases b
    · exact worded_expectOption.map fun _ => le_rfl
    · exact worded_pure le_rfl
  refine worded_atEnd.test fun b => ?_
  cases b
  · exact (worded_nextIs _).test hnext
  · exact worded_pure le_rfl

theorem worded_tableOptions : Worded (fun _ => options .univ) tableOptions :=
  worded_nextOption?.many.mono fun _ _ h => .inr ⟨trivial, h⟩

theorem worded_tableName : Worded (fun _ => Wording.tableName) tableName := by
  refine (worded_expectName _).seq fun first => ?_
  exact (worded_punct? _).ite ((worded_expectName _).map fun _ => le_rfl)
    (worded_pure (one_le_maybe _)) fun _ => le_maybe _

theorem worded_ifNotExists :
    Worded (fun _ => maybe (keywords ["IF", "NOT", "EXISTS"])) ifNotExists := by
  refine (worded_keyword? _).ite ((worded_expectKeyword _ _).seq fun _ =>
    (worded_expectKeyword _ _).map fun _ => le_rfl) (worded_pure (one_le_maybe _)) fun _ => ?_
  rw [keywords_cons, keywords_cons, keywords_singleton]
  exact le_maybe _

theorem worded_tableBody : Worded (fun _ => maybe (keywords ["IF", "NOT", "EXISTS"]) *
    (Wording.tableName * (columnList .univ * options .univ))) tableBody := by
  refine worded_ifNotExists.seq fun _ => worded_tableName.seq fun _ => ?_
  refine ((worded_expectPunct _ _).seq fun _ => worded_columns.seq fun _ =>
    worded_tableOptions.map fun _ => le_rfl).mono fun _ => ?_
  rw [← mul_assoc]
  exact mul_le_mul_left mark_mul_columns_le _

theorem worded_createTable? : Worded (found 1 (createTable .univ)) createTable? := by
  intro s o r h
  obtain ⟨⟨found, span⟩, s₁, hspanned, h₁⟩ := bind_eq_ok h
  cases h₁
  obtain ⟨b, s₂, hphrase, h₂⟩ := bind_eq_ok (spanned_eq_ok hspanned).1
  obtain ⟨u, hu, hread⟩ := worded_phrase? _ _ _ _ hphrase
  cases b
  · cases h₂
    exact ⟨u, hu, hread⟩
  obtain ⟨body, s₃, hbody, h₃⟩ := bind_eq_ok h₂
  obtain ⟨mark, s₄, hmark, h₄⟩ := bind_eq_ok h₃
  cases h₄
  obtain ⟨v, hv, hread'⟩ := worded_tableBody _ _ _ hbody
  obtain ⟨w, hw, hread''⟩ := (worded_punct? _).mono flag_le_maybe _ _ _ hmark
  refine ⟨u ++ v ++ w, ?_, by rw [hread, hread', hread'', List.append_assoc, List.append_assoc]⟩
  change _ ∈ createTable .univ
  simpa only [createTable, head, mul_assoc, flag] using
    Language.append_mem_mul (Language.append_mem_mul hu hv) hw

/-- The tokens of a `CREATE TABLE` statement. -/
theorem exists_createTable {table : CreateTable}
    (h : statement s = .ok (.createTable table, r)) :
    ∃ w ∈ createTable .univ, s.significant = w ++ r.significant := by
  obtain ⟨_ | table', s₁, htable, h₁⟩ := bind_eq_ok h
  · obtain ⟨⟨words, span⟩, s₂, -, h₂⟩ := bind_eq_ok h₁
    cases h₂
  · cases h₁
    exact worded_createTable? _ _ _ htable

theorem filter_mem_createTable {table : CreateTable} {n m : Nat} {us vs : List Token}
    (h : statement (ofTokens n (us ++ vs)) = .ok (.createTable table, ofTokens m vs)) :
    us.filter Token.isSignificant ∈ createTable .univ := by
  obtain ⟨w, hw, hread⟩ := exists_createTable h
  rw [significant_ofTokens, significant_ofTokens, List.filter_append] at hread
  rwa [List.append_cancel_right hread]

end Parser

open SchemaAlign.Wording (Slip)

/-- The significant tokens of every `CREATE TABLE` are a sentence of the grammar with exactly those
    slips that show in them. Where none shows, they are a sentence of the grammar without slips. -/
theorem Statement.parse_worded {tokens : List Token} {statements : List Statement}
    {table : CreateTable} (h : Statement.parse tokens = .ok statements)
    (htable : createTable table ∈ statements) :
    ∃ part, slice? tokens table.span = some part ∧ ∀ D : Set Slip,
      part.filter Token.isSignificant ∈ Wording.createTable D ↔
        ∀ x : Slip, x.Shows (part.filter Token.isSignificant) → x ∈ D := by
  obtain ⟨us, t, ws, vs, rfl, ht, hstatement⟩ := (parse_eq_ok h).exists_part htable
  rw [Nat.zero_add] at hstatement
  have hall := Parser.filter_mem_createTable hstatement
  exact ⟨t :: ws, Parser.slice?_statement ht hstatement, fun D =>
    Wording.mem_createTable_iff.trans (and_iff_right hall)⟩

theorem Statement.parse_worded_clean :
    let tokens := Token.tokenize "CREATE TABLE t (a INT(1), b) STRICT, WITHOUT ROWID;"
    ∃ part, slice? tokens ⟨0, 25⟩ = some part ∧
      part.filter Token.isSignificant ∈ Wording.createTable ∅ := by
  intro tokens
  let type : TypeName := { name := "INT", first := some "1", second := none, span := ⟨9, 13⟩ }
  let table : CreateTable :=
    { name := "t", ifNotExists := false, span := ⟨0, 25⟩
      columns := [{ name := "a", type := some type, constraints := [], span := ⟨7, 13⟩ },
                  { name := "b", type := none, constraints := [], span := ⟨15, 16⟩ }]
      options := [{ kind := .strict, span := ⟨18, 19⟩ },
                  { kind := .withoutRowid, span := ⟨21, 24⟩ }] }
  have h : Statement.parse tokens = .ok [createTable table] := parse_of_toOption (by decide +kernel)
  obtain ⟨part, hpart, hiff⟩ := parse_worded h (List.mem_singleton_self _)
  have hclean : ∀ part ∈ slice? tokens ⟨0, 25⟩, ∀ x ∈ [Slip.trailingComma, .emptyExpression,
      .looseOptions], ¬ x.Shows (part.filter Token.isSignificant) := by
    decide +kernel
  exact ⟨part, hpart, (hiff ∅).2 fun x hx =>
    absurd hx (hclean part hpart x (by cases x <;> simp))⟩

/-- A comma behind the last column or behind the last option is no part of the grammar, but it is
    read. -/
theorem Statement.parse_trailing_comma :
    let column : Column := { name := "a", type := none, constraints := [], span := ⟨7, 8⟩ }
    let table : CreateTable :=
      { name := "t", ifNotExists := false, columns := [column], options := [], span := ⟨0, 10⟩ }
    let strict : TableOption := { kind := .strict, span := ⟨10, 11⟩ }
    (Statement.parse (Token.tokenize "CREATE TABLE t (a,)")).toOption = some [createTable table] ∧
    (Token.tokenize "CREATE TABLE t (a,)").filter Token.isSignificant ∉ Wording.createTable ∅ ∧
    (Statement.parse (Token.tokenize "CREATE TABLE t (a) STRICT,")).toOption =
      some [createTable { table with options := [strict], span := ⟨0, 12⟩ }] ∧
    (Token.tokenize "CREATE TABLE t (a) STRICT,").filter Token.isSignificant ∉
      Wording.createTable ∅ := by
  refine ⟨by decide +kernel, fun hcolumns => ?columns, by decide +kernel, fun hoptions => ?options⟩
  case columns =>
    exact (Wording.mem_createTable_iff.1 hcolumns).2 .trailingComma (by decide +kernel)
  case options =>
    exact (Wording.mem_createTable_iff.1 hoptions).2 .looseOptions (by decide +kernel)

end SchemaAlign
