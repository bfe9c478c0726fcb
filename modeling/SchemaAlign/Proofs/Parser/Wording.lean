import Mathlib.Computability.Language
import Mathlib.Order.CompletePartialOrder
import SchemaAlign.Parser.Table

/-!
# The wording of `CREATE TABLE`

The grammar once more, as languages of significant tokens: which tokens may follow each other, and
not what they say. The parser is laxer than the grammar in three places. Each of these *slips* is an
alternative of its own, so there is one grammar for each set of slips: the one without slips, and
those that allow some of them.

* `Slip`: what the parser lets pass;
* `Beside`: a place between two tokens, by the parentheses that are open there;
* `Slip.Shows`: what can be seen of a slip in the tokens;
* `expression`, `literal`, `rule`, `column`, `columnList`, `options`: the parts of the statement;
* `createTable`: the statement.
-/

namespace SchemaAlign.Wording

open Text
open SchemaAlign.Parser (columnConstraintKeywords isExponent isOneOf isSign opensExponent
  tableConstraintKeywords)
open scoped Computability

/-- What is no part of the grammar but read all the same. -/
inductive Slip
  /-- A comma behind the last column. -/
  | trailingComma
  /-- An expression, or an argument of a type, without a token. -/
  | emptyExpression
  /-- Options of a table without a comma between them, or with a comma behind the last one. -/
  | looseOptions
  deriving DecidableEq, Repr

/-- The parentheses that are open behind the tokens. -/
def depth (w : List Token) : Int :=
  w.countP (·.isPunct "(") - w.countP (·.isPunct ")")

/-- A place in the tokens where `d` parentheses are open, with a token that satisfies `p` right
    before it and one that satisfies `q` right behind it. -/
def Beside (d : Int) (p q : Token → Bool) (w : List Token) : Prop :=
  ∃ us vs, w = us ++ vs ∧ depth us = d ∧ us.getLast?.any p = true ∧ vs.head?.any q = true

instance (d : Int) (p q : Token → Bool) (w : List Token) : Decidable (Beside d p q w) :=
  decidable_of_iff (∃ i < w.length + 1, depth (w.take i) = d ∧
      (w.take i).getLast?.any p = true ∧ (w.drop i).head?.any q = true) <| by
    constructor
    · rintro ⟨i, -, h⟩
      exact ⟨w.take i, w.drop i, (List.take_append_drop i w).symm, h⟩
    · rintro ⟨us, vs, rfl, h⟩
      refine ⟨us.length, by rw [List.length_append]; omega, ?_⟩
      rwa [List.take_left, List.drop_left]

/-- What stands before an argument: an opening parenthesis, or the comma behind another argument. -/
def opensArgument (t : Token) : Bool :=
  t.isPunct "(" || t.isPunct ","

/-- What stands behind an argument. -/
def closesArgument (t : Token) : Bool :=
  t.isPunct "," || t.isPunct ")"

/-- What can be seen of a slip in the tokens of a statement: where the list of columns ends, in the
    parentheses of a type or a constraint, and outside of all parentheses. -/
def Slip.Shows (w : List Token) : Slip → Prop
  | trailingComma => Beside 1 (·.isPunct ",") (·.isPunct ")") w
  | emptyExpression => Beside 2 opensArgument closesArgument w
  | looseOptions =>
    Beside 0 (isOneOf ["ROWID", "STRICT"]) (isOneOf ["WITHOUT", "STRICT"]) w ∨
      Beside 0 (·.isPunct ",") (·.isPunct ";") w ∨ w.getLast? = some ⟨.punctuation, ","⟩

instance (w : List Token) : DecidablePred (Slip.Shows w)
  | .trailingComma => inferInstanceAs (Decidable (Beside ..))
  | .emptyExpression => inferInstanceAs (Decidable (Beside ..))
  | .looseOptions => inferInstanceAs (Decidable (Beside .. ∨ Beside .. ∨ _ = _))

/-! ## Tokens -/

/-- One token that satisfies `p`. -/
def one (p : Token → Bool) : Language Token :=
  {w | ∃ t, p t = true ∧ w = [t]}

/-- A keyword, in any case. -/
def keyword (k : String) : Language Token :=
  one (·.isKeyword k)

/-- Keywords in a row. -/
def keywords (ks : List String) : Language Token :=
  (ks.map keyword).prod

/-- One of some keywords. -/
def anyKeyword (ks : List String) : Language Token :=
  one (isOneOf ks)

/-- A punctuation mark. -/
def mark (m : String) : Language Token :=
  {[⟨.punctuation, m⟩]}

/-- A word. -/
def word : Language Token :=
  one (·.kind == .word)

/-- A name: a word, or a string that stands for a name. -/
def name : Language Token :=
  one (·.name?.isSome)

/-! ## Languages from languages -/

/-- Once or not at all. -/
def maybe (L : Language Token) : Language Token :=
  1 + L

/-- Once or more, with a comma between every two. -/
def separated (L : Language Token) : Language Token :=
  L * (mark "," * L)∗

/-- `L`, if the slip is allowed. -/
def slip (D : Set Slip) (x : Slip) (L : Language Token) : Language Token :=
  {w | x ∈ D ∧ w ∈ L}

variable {L M : Language Token}

theorem le_of_forall_mem (h : ∀ w ∈ L, w ∈ M) : L ≤ M :=
  h

theorem nil_notMem_mul (h : [] ∉ L) : [] ∉ L * M := by
  rintro ⟨u, hu, v, -, hnil⟩
  obtain ⟨rfl, -⟩ := List.append_eq_nil_iff.1 hnil
  exact h hu

theorem nil_notMem_mul_mark (L : Language Token) (k : String) : [] ∉ L * mark k := by
  rintro ⟨u, -, v, rfl, hnil⟩
  exact List.cons_ne_nil _ _ (List.append_eq_nil_iff.1 hnil).2

theorem keywords_nil : keywords [] = 1 :=
  rfl

theorem keywords_cons (k : String) (ks : List String) :
    keywords (k :: ks) = keyword k * keywords ks :=
  rfl

theorem keywords_singleton (k : String) : keywords [k] = keyword k :=
  mul_one _

theorem one_le_maybe (L : Language Token) : 1 ≤ maybe L :=
  fun _ h => .inl h

theorem le_maybe (L : Language Token) : L ≤ maybe L :=
  fun _ h => .inr h

theorem le_maybe_mul (L M : Language Token) : M ≤ maybe L * M := by
  have := mul_le_mul_left (one_le_maybe L) M
  rwa [one_mul] at this

theorem slip_univ (x : Slip) (L : Language Token) : slip .univ x L = L :=
  Set.ext fun _ => and_iff_right trivial

theorem mul_mark_separated_le (L : Language Token) :
    L * (mark "," * separated L) ≤ separated L := by
  rw [separated, ← mul_assoc (mark ",")]
  exact mul_le_mul_right mul_kstar_le_kstar L

theorem kstar_mul_le_separated (L : Language Token) : (L * mark ",")∗ * L ≤ separated L := by
  refine kstar_mul_le ?_ ?_
  · have := mul_le_mul_right (one_le_kstar (a := mark "," * L)) L
    rwa [mul_one] at this
  · rw [mul_assoc]
    exact mul_mark_separated_le L

/-- Where a comma asks for another round, one may stand behind the last value. -/
theorem kstar_mul_one_add_le (L : Language Token) :
    (L * mark ",")∗ * (1 + L) ≤ maybe (separated L) + separated L * mark "," := by
  have hlast := kstar_mul_le_separated L
  calc (L * mark ",")∗ * (1 + L)
      = (L * mark ",")∗ + (L * mark ",")∗ * L := by rw [mul_add, mul_one]
    _ = 1 + (L * mark ",")∗ * L * mark "," + (L * mark ",")∗ * L := by
      rw [mul_assoc _ L (mark ","), Language.one_add_kstar_mul_self_eq_kstar]
    _ ≤ 1 + separated L * mark "," + separated L := by gcongr
    _ = maybe (separated L) + separated L * mark "," := by rw [maybe, add_right_comm]

/-! ## Expressions -/

/-- Tokens without a semicolon in which parentheses match. Outside of them there is a comma only if
    `nested` holds. -/
inductive Balanced : Bool → List Token → Prop
  | nil {nested : Bool} : Balanced nested []
  | token {nested : Bool} {t : Token} {ts : List Token} : t.isPunct ";" = false →
      t.isPunct "(" = false → t.isPunct ")" = false → (t.isPunct "," = true → nested = true) →
      Balanced nested ts → Balanced nested (t :: ts)
  | group {nested : Bool} {us vs : List Token} : Balanced true us → Balanced nested vs →
      Balanced nested (⟨.punctuation, "("⟩ :: us ++ ⟨.punctuation, ")"⟩ :: vs)

/-- An expression has a token. -/
def expression : Language Token :=
  {w | w ≠ [] ∧ Balanced false w}

/-- The word or the string that a literal begins with. -/
def value : Language Token :=
  one fun t => t.kind == .word || t.kind == .string

/-- A literal without its sign and its exponent. -/
def mantissa : Language Token :=
  value * maybe (mark "." * word) + mark "." * word

/-- A blob: an `x` and a string. -/
def blob : Language Token :=
  one (fun t => (t.kind == .word || t.kind == .string) && eqIgnoreAsciiCase t.text "x") *
    one (·.kind == .string)

/-- A number that goes on with a signed exponent. -/
def scientific : Language Token :=
  {w | ∃ us t u, us ∈ maybe (one isSign) * mantissa ∧ opensExponent (Token.render us) = true ∧
    isExponent t u = true ∧ w = us ++ [t, u]}

/-- A blob, a number with an exponent, or anything else with an optional sign. -/
def literal : Language Token :=
  blob + maybe (one isSign) * mantissa + scientific

/-! ## The statement -/

section

variable (D : Set Slip)

/-- An expression, or nothing by a slip. -/
def argument : Language Token :=
  expression + slip D .emptyExpression 1

/-- An expression in parentheses. -/
def parens : Language Token :=
  mark "(" * argument D * mark ")"

/-- A conflict resolution. -/
def conflict : Language Token :=
  keywords ["ON", "CONFLICT"] * anyKeyword ["ROLLBACK", "ABORT", "FAIL", "IGNORE", "REPLACE"]

/-- The answer to a change of the parent row. -/
def effect : Language Token :=
  keyword "SET" * anyKeyword ["NULL", "DEFAULT"] + keywords ["NO", "ACTION"] +
    anyKeyword ["CASCADE", "RESTRICT"]

/-- A clause that follows the columns of a foreign key. -/
def action : Language Token :=
  keyword "ON" * anyKeyword ["DELETE", "UPDATE"] * effect +
    keyword "MATCH" * name +
    maybe (keyword "NOT") * keyword "DEFERRABLE" *
      maybe (keyword "INITIALLY" * anyKeyword ["DEFERRED", "IMMEDIATE"])

/-- What follows `REFERENCES`. -/
def foreignKey : Language Token :=
  name * maybe (mark "(" * separated name * mark ")") * action∗

/-- What a column constraint demands. -/
def rule : Language Token :=
  keywords ["PRIMARY", "KEY"] * maybe (anyKeyword ["ASC", "DESC"]) * maybe conflict *
      maybe (keyword "AUTOINCREMENT") +
    (keywords ["NOT", "NULL"] + keyword "NULL" + keyword "UNIQUE") * maybe conflict +
    keyword "CHECK" * parens D +
    keyword "DEFAULT" * (parens D + literal) +
    keyword "COLLATE" * name +
    keyword "REFERENCES" * foreignKey +
    (keywords ["GENERATED", "ALWAYS", "AS"] + keyword "AS") * parens D *
      maybe (anyKeyword ["STORED", "VIRTUAL"])

/-- A column constraint. -/
def constraint : Language Token :=
  maybe (keyword "CONSTRAINT" * name) * rule D

/-- The arguments of a type. -/
def arguments : Language Token :=
  mark "(" * argument D * maybe (mark "," * argument D) * mark ")"

/-- A word of a type. No column constraint begins with it. -/
def typeWord : Language Token :=
  one fun t => t.kind == .word && !isOneOf columnConstraintKeywords t

/-- The type of a column. -/
def type : Language Token :=
  typeWord * typeWord∗ * maybe (arguments D)

/-- The name of a column. No constraint of a table begins with it. -/
def columnName : Language Token :=
  one fun t => t.name?.isSome && !isOneOf tableConstraintKeywords t

/-- The definition of a column. -/
def column : Language Token :=
  columnName * maybe (type D) * (constraint D)∗

/-- The columns of a table, with a comma behind the last one by a slip. -/
def columnList : Language Token :=
  mark "(" * maybe (separated (column D)) * mark ")" +
    slip D .trailingComma (mark "(" * separated (column D) * (mark "," * mark ")"))

/-- An option of a table. -/
def option : Language Token :=
  keywords ["WITHOUT", "ROWID"] + keyword "STRICT"

/-- The options of a table, with commas between them, or not by a slip. -/
def options : Language Token :=
  maybe (separated option) + slip D .looseOptions (option * maybe (mark ","))∗

/-- The name of a table, with the name of its database before it if there is a dot. -/
def tableName : Language Token :=
  name * maybe (mark "." * name)

/-- The statement up to its columns, and with them. -/
def head : Language Token :=
  keywords ["CREATE", "TABLE"] * maybe (keywords ["IF", "NOT", "EXISTS"]) * tableName *
    columnList D

/-- A `CREATE TABLE` statement. -/
def createTable : Language Token :=
  head D * (options D * maybe (mark ";"))

end

end SchemaAlign.Wording
