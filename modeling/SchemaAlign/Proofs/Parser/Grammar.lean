import SchemaAlign.Parser.Statement
import SchemaAlign.Proofs.Token.Rule

/-!
# The grammar of `CREATE TABLE`

How the statement is spelled, told without reading it. A clause of the grammar relates the stream at
whose front it stands, the value it spells, and the stream behind it. Any blanks and comments may
stand in the gaps of a stream; only the parts of a literal stand without a gap.

* `Keywords`, `Mark`, `Name`: what is spelled by single tokens;
* `Maybe`, `Flag`, `Many`, `Separated`, `Listed`, `OneOf`: how clauses are put together;
* `Expression`, `Literal`: expressions and default values;
* `RuleAt`, `ConstraintAt`, `TypeAt`, `ColumnAt`, `TableAt`: the parts of the statement;
* `Spells`: the tokens that spell one `CREATE TABLE` and nothing else.
-/

namespace SchemaAlign

open Text

/-- The token is spelled as its class demands, whatever text it stands before. -/
def Token.Shaped (t : Token) : Prop :=
  ∃ next, Token.Obeys t.kind t.text.toList next

namespace Parser.Grammar

/-- A clause: the stream at whose front it stands, what it spells, and the stream behind it. -/
abbrev Clause (α : Type) := Stream → α → Stream → Prop

variable {α : Type}

/-! ## Tokens -/

/-- The keywords, in any case. -/
inductive Keywords : List String → Stream → Stream → Prop
  | nil {s : Stream} : Keywords [] s s
  | cons {k : String} {ks : List String} {g : Gap} {t : Token} {s r : Stream} :
      t.isKeyword k = true → Keywords ks s r → Keywords (k :: ks) (.item g t s) r

/-- The punctuation mark. -/
inductive Mark (mark : String) : Stream → Stream → Prop
  | mk {g : Gap} {t : Token} {s : Stream} : t.isPunct mark = true → Mark mark (.item g t s) s

/-- The characters with each quote `q` written twice. -/
def double (q : Char) (cs : List Char) : List Char :=
  cs.flatMap fun c => if c = q then [q, q] else [c]

/-- A name: a word, or a string that ends, without its quotes. -/
inductive Name : Clause String
  | word {g : Gap} {t : Token} {s : Stream} : t.kind = .word → Name (.item g t s) t.text s
  | string {q : Char} {name : String} {g : Gap} {t : Token} {s : Stream} :
      t.kind = .string → isQuote q = true → t.text.toList = q :: (double q name.toList ++ [q]) →
      Name (.item g t s) name s

/-! ## Clauses from clauses -/

/-- The clause once or not at all: `[R]`. -/
inductive Maybe (R : Clause α) : Clause (Option α)
  | none {s : Stream} : Maybe R s none s
  | some {a : α} {s r : Stream} : R s a r → Maybe R s (some a) r

/-- Whether the keywords are there. -/
inductive Flag (ks : List String) : Clause Bool
  | absent {s : Stream} : Flag ks s false s
  | present {s r : Stream} : Keywords ks s r → Flag ks s true r

/-- The clause any number of times: `{R}`. -/
inductive Many (R : Clause α) : Clause (List α)
  | nil {s : Stream} : Many R s [] s
  | cons {a : α} {as : List α} {s s' r : Stream} :
      R s a s' → Many R s' as r → Many R s (a :: as) r

/-- The clause at least once, with commas between: `R {',' R}`. -/
inductive Separated (R : Clause α) : Clause (List α)
  | last {a : α} {s r : Stream} : R s a r → Separated R s [a] r
  | next {a : α} {as : List α} {s s₁ s₂ r : Stream} :
      R s a s₁ → Mark "," s₁ s₂ → Separated R s₂ as r → Separated R s (a :: as) r

/-- The clause any number of times, with commas between: `[R {',' R}]`. -/
inductive Listed (R : Clause α) : Clause (List α)
  | none {s : Stream} : Listed R s [] s
  | some {as : List α} {s r : Stream} : Separated R s as r → Listed R s as r

/-- One of the choices: its keywords spell the value beside them. -/
def OneOf (choices : List (List String × α)) : Clause α := fun s a r =>
  ∃ ks, (ks, a) ∈ choices ∧ Keywords ks s r

/-! ## Expressions -/

/-- Tokens without a semicolon in which parentheses match. Outside of them there is a comma only if
    `nested` holds. The gap behind the last one is not among the tokens. -/
inductive Balanced : Bool → Clause (List Token)
  | nil {nested : Bool} {s : Stream} : Balanced nested s [] s
  | token {nested : Bool} {g : Gap} {t : Token} {ts : List Token} {s r : Stream} :
      t.isPunct ";" = false → t.isPunct "(" = false → t.isPunct ")" = false →
      (t.isPunct "," = true → nested = true) →
      Balanced nested s ts r → Balanced nested (.item g t s) (g.trivia ++ t :: ts) r
  | group {nested : Bool} {g g' : Gap} {t t' : Token} {us vs : List Token} {s s' r : Stream} :
      t.isPunct "(" = true → Balanced true s us (.item g' t' s') → t'.isPunct ")" = true →
      Balanced nested s' vs r →
      Balanced nested (.item g t s) (g.trivia ++ t :: (us ++ (g'.trivia ++ t' :: vs))) r

/-- An expression: the text of its tokens, up to the token behind it, without blanks at either end.
    There is something between the blanks. -/
inductive Expression : Clause String
  | mk {ts : List Token} {s r : Stream} : Balanced false s ts r →
      isBlankText (Token.render (ts ++ r.gap.trivia)) = false →
      Expression s (trim (Token.render (ts ++ r.gap.trivia))) r

/-- An expression in parentheses. -/
inductive Parens : Clause String
  | mk {text : String} {s s₁ s₂ r : Stream} : Mark "(" s s₁ → Expression s₁ text s₂ →
      Mark ")" s₂ r → Parens s text r

/-! ## Literals -/

/-- A sign, or nothing. -/
inductive Sign : Clause String
  | absent {s : Stream} : Sign s "" s
  | present {g : Gap} {t : Token} {s : Stream} : isSign t = true → Sign (.item g t s) t.text s

/-- The word or the string that a literal begins with. -/
inductive Head : Clause String
  | mk {g : Gap} {t : Token} {s : Stream} : t.kind = .word ∨ t.kind = .string → t.Shaped →
      Head (.item g t s) t.text s

/-- A dot and the word after it, without a gap before either. -/
inductive Fraction : Clause String
  | mk {m n : Nat} {dot digits : Token} {s : Stream} : dot.isPunct "." = true →
      digits.kind = .word →
      Fraction (.item ⟨m, []⟩ dot (.item ⟨n, []⟩ digits s)) ("." ++ digits.text) s

/-- A sign and digits, without a gap before either. -/
inductive Exponent : Clause String
  | mk {m n : Nat} {sign digits : Token} {s : Stream} : isExponent sign digits = true →
      Exponent (.item ⟨m, []⟩ sign (.item ⟨n, []⟩ digits s)) (sign.text ++ digits.text) s

/-- A literal without its sign and its signed exponent. What begins with a dot may have a gap
    before it. -/
inductive Mantissa : Clause String
  | plain {head : String} {s r : Stream} : Head s head r → Mantissa s head r
  | decimal {head digits : String} {s s₁ r : Stream} : Head s head s₁ → Fraction s₁ digits r →
      Mantissa s (head ++ digits) r
  | point {digits : String} {s r : Stream} : Fraction (s.withGap s.gap.skipped) digits r →
      Mantissa s digits r

/-- A number that goes on with a signed exponent: it begins with a digit or a dot and ends with
    `e`. -/
structure Unfinished (value : String) : Prop where
  first : ∃ c ∈ value.toList.head?, c.isDigit = true ∨ c = '.'
  last : ∃ c ∈ value.toList.getLast?, c = 'e' ∨ c = 'E'

/-- A literal: a blob, or anything else with an optional sign. -/
inductive Literal : Clause String
  | blob {g : Gap} {n : Nat} {x string : Token} {s : Stream} : x.kind = .word →
      eqIgnoreAsciiCase x.text "x" = true → string.kind = .string →
      Literal (.item g x (.item ⟨n, []⟩ string s)) (x.text ++ string.text) s
  | plain {sign value : String} {s s₁ r : Stream} : Sign s sign s₁ → Mantissa s₁ value r →
      Literal s (sign ++ value) r
  | scientific {sign value power : String} {s s₁ s₂ r : Stream} : Sign s sign s₁ →
      Mantissa s₁ value s₂ → Unfinished value → Exponent s₂ power r →
      Literal s (sign ++ value ++ power) r

/-! ## Constraints -/

/-- A conflict resolution after `ON CONFLICT`. -/
inductive ConflictAt : Clause Conflict
  | mk {c : Conflict} {s r : Stream} : Keywords ["ON", "CONFLICT", c.keyword] s r →
      ConflictAt s c r

/-- The keywords for the answer to a change of the parent row. -/
def effectWords : KeyEffect → List String
  | .setNull => ["SET", "NULL"]
  | .setDefault => ["SET", "DEFAULT"]
  | .noAction => ["NO", "ACTION"]
  | .cascade => ["CASCADE"]
  | .restrict => ["RESTRICT"]

/-- The keywords before the check of a foreign key. -/
def deferrableWords : Bool → List String
  | true => ["NOT", "DEFERRABLE"]
  | false => ["DEFERRABLE"]

/-- When a foreign key is checked at first, after `INITIALLY`. -/
inductive CheckAt : Clause KeyCheck
  | mk {c : KeyCheck} {s r : Stream} : Keywords ["INITIALLY", c.keyword] s r → CheckAt s c r

/-- A clause that follows the columns of a foreign key. -/
inductive ActionAt : Clause KeyAction
  | on {event : KeyEvent} {effect : KeyEffect} {s s₁ r : Stream} :
      Keywords ["ON", event.keyword] s s₁ → Keywords (effectWords effect) s₁ r →
      ActionAt s (.on event effect) r
  | matching {name : String} {s s₁ r : Stream} : Keywords ["MATCH"] s s₁ → Name s₁ name r →
      ActionAt s (.matching (asciiUpper name)) r
  | deferrable {negated : Bool} {check : Option KeyCheck} {s s₁ r : Stream} :
      Keywords (deferrableWords negated) s s₁ → Maybe CheckAt s₁ check r →
      ActionAt s (.deferrable negated check) r

/-- The columns of a foreign key in parentheses, or nothing. -/
inductive KeyColumns : Clause (List String)
  | none {s : Stream} : KeyColumns s [] s
  | some {names : List String} {s s₁ s₂ r : Stream} : Mark "(" s s₁ → Separated Name s₁ names s₂ →
      Mark ")" s₂ r → KeyColumns s names r

/-- What a column constraint demands. -/
inductive RuleAt : Clause Rule
  | primaryKey {order : Option SortOrder} {conflict : Option Conflict} {autoincrement : Bool}
      {s s₁ s₂ s₃ r : Stream} : Keywords ["PRIMARY", "KEY"] s s₁ →
      Maybe (OneOf [(["ASC"], .asc), (["DESC"], .desc)]) s₁ order s₂ →
      Maybe ConflictAt s₂ conflict s₃ → Flag ["AUTOINCREMENT"] s₃ autoincrement r →
      RuleAt s (.primaryKey order conflict autoincrement) r
  | notNull {conflict : Option Conflict} {s s₁ r : Stream} : Keywords ["NOT", "NULL"] s s₁ →
      Maybe ConflictAt s₁ conflict r → RuleAt s (.notNull conflict) r
  | null {conflict : Option Conflict} {s s₁ r : Stream} : Keywords ["NULL"] s s₁ →
      Maybe ConflictAt s₁ conflict r → RuleAt s (.null conflict) r
  | unique {conflict : Option Conflict} {s s₁ r : Stream} : Keywords ["UNIQUE"] s s₁ →
      Maybe ConflictAt s₁ conflict r → RuleAt s (.unique conflict) r
  | check {expr : String} {s s₁ r : Stream} : Keywords ["CHECK"] s s₁ → Parens s₁ expr r →
      RuleAt s (.check expr) r
  | expression {expr : String} {s s₁ r : Stream} : Keywords ["DEFAULT"] s s₁ → Parens s₁ expr r →
      RuleAt s (.defaultsTo ("(" ++ expr ++ ")")) r
  | literal {value : String} {s s₁ r : Stream} : Keywords ["DEFAULT"] s s₁ → Literal s₁ value r →
      RuleAt s (.defaultsTo value) r
  | collate {collation : String} {s s₁ r : Stream} : Keywords ["COLLATE"] s s₁ →
      Name s₁ collation r → RuleAt s (.collate collation) r
  | references {table : String} {columns : List String} {actions : List KeyAction}
      {s s₁ s₂ s₃ r : Stream} : Keywords ["REFERENCES"] s s₁ → Name s₁ table s₂ →
      KeyColumns s₂ columns s₃ → Many ActionAt s₃ actions r →
      RuleAt s (.references { table, columns, actions }) r
  | generated {words : List String} {expr : String} {storage : Option Storage}
      {s s₁ s₂ r : Stream} : words ∈ [["GENERATED", "ALWAYS", "AS"], ["AS"]] →
      Keywords words s s₁ → Parens s₁ expr s₂ →
      Maybe (OneOf [(["STORED"], .stored), (["VIRTUAL"], .virtual)]) s₂ storage r →
      RuleAt s (.generated expr storage) r

/-- A name after `CONSTRAINT`. -/
inductive ConstraintName : Clause String
  | mk {name : String} {s s₁ r : Stream} : Keywords ["CONSTRAINT"] s s₁ → Name s₁ name r →
      ConstraintName s name r

/-- A column constraint. -/
inductive ConstraintAt : Clause Constraint
  | mk {name : Option String} {rule : Rule} {s s₁ r : Stream} : Maybe ConstraintName s name s₁ →
      RuleAt s₁ rule r → ConstraintAt s { name, rule, span := ⟨s.gap.stop, r.gap.start⟩ } r

/-! ## Columns -/

/-- A word of a type name, in upper case. No column constraint begins with it. -/
inductive TypeWord : Clause String
  | mk {g : Gap} {t : Token} {s : Stream} : t.kind = .word →
      isOneOf columnConstraintKeywords t = false → TypeWord (.item g t s) (asciiUpper t.text) s

/-- The arguments of a type name, or nothing. -/
inductive TypeArguments : Clause (Option String × Option String)
  | none {s : Stream} : TypeArguments s (none, none) s
  | one {first : String} {s s₁ s₂ r : Stream} : Mark "(" s s₁ → Expression s₁ first s₂ →
      Mark ")" s₂ r → TypeArguments s (some first, none) r
  | two {first second : String} {s s₁ s₂ s₃ s₄ r : Stream} : Mark "(" s s₁ →
      Expression s₁ first s₂ → Mark "," s₂ s₃ → Expression s₃ second s₄ → Mark ")" s₄ r →
      TypeArguments s (some first, some second) r

/-- The type of a column. -/
inductive TypeAt : Clause TypeName
  | mk {word : String} {words : List String} {first second : Option String} {s s₁ r : Stream} :
      Many TypeWord s (word :: words) s₁ → TypeArguments s₁ (first, second) r →
      TypeAt s { name := " ".intercalate (word :: words), first, second,
                 span := ⟨s.gap.stop, r.gap.start⟩ } r

/-- The definition of a column. -/
inductive ColumnAt : Clause Column
  | mk {name : String} {type : Option TypeName} {constraints : List Constraint}
      {s s₁ s₂ r : Stream} : s.headIs (isOneOf tableConstraintKeywords) = false →
      Name s name s₁ → Maybe TypeAt s₁ type s₂ → Many ConstraintAt s₂ constraints r →
      ColumnAt s { name, type, constraints, span := ⟨s.gap.stop, r.gap.start⟩ } r

/-! ## Tables -/

/-- The keywords of a table option. -/
def optionWords : OptionKind → List String
  | .withoutRowid => ["WITHOUT", "ROWID"]
  | .strict => ["STRICT"]

/-- A table option. -/
inductive OptionAt : Clause TableOption
  | mk {kind : OptionKind} {s r : Stream} : Keywords (optionWords kind) s r →
      OptionAt s { kind, span := ⟨s.gap.stop, r.gap.start⟩ } r

/-- The name of a table, with the name of its database before it if there is a dot. -/
inductive TableName : Clause String
  | plain {name : String} {s r : Stream} : Name s name r → TableName s name r
  | qualified {database name : String} {s s₁ s₂ r : Stream} : Name s database s₁ →
      Mark "." s₁ s₂ → Name s₂ name r → TableName s (database ++ "." ++ name) r

/-- A semicolon, or nothing. -/
inductive Ended : Stream → Stream → Prop
  | bare {s : Stream} : Ended s s
  | semicolon {s r : Stream} : Mark ";" s r → Ended s r

/-- A `CREATE TABLE` statement. The name of the table is not the word `IF`, unless `IF NOT EXISTS`
    stands before it. -/
inductive TableAt : Clause CreateTable
  | mk {ifNotExists : Bool} {name : String} {columns : List Column} {options : List TableOption}
      {s s₁ s₂ s₃ s₄ s₅ s₆ s₇ r : Stream} : Keywords ["CREATE", "TABLE"] s s₁ →
      Flag ["IF", "NOT", "EXISTS"] s₁ ifNotExists s₂ →
      (ifNotExists = false → s₂.headIs (·.isKeyword "IF") = false) →
      TableName s₂ name s₃ → Mark "(" s₃ s₄ → Listed ColumnAt s₄ columns s₅ → Mark ")" s₅ s₆ →
      Listed OptionAt s₆ options s₇ → Ended s₇ r →
      TableAt s { name, ifNotExists, columns, options, span := ⟨s.gap.stop, r.gap.start⟩ } r

/-- The tokens spell the table, and no significant token follows it. -/
def Spells (tokens : List Token) (table : CreateTable) : Prop :=
  ∃ r, TableAt (Stream.ofTokens 0 tokens) table r ∧ r.head? = none

end Parser.Grammar

end SchemaAlign
