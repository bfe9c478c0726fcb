import SchemaAlign.Proofs.Parser.Grammar.Column

/-!
# The grammar of `CREATE TABLE` is complete

* `columns_of_listed`, `tableOptions_of_listed`: what stands in the parentheses and behind them;
* `TableAt.statement`: one statement;
* `ofTokens_of_spells`: tokens that spell a table are read as that table.
-/

namespace SchemaAlign.Parser.Grammar

open Text

variable {s s₁ r : Stream} {k : String} {ks : List String}

/-! ## Tables -/

theorem Mark.column? (h : Mark ")" s r) : column? s = .ok (none, s) := by
  cases h with
  | @mk g t _ ht =>
    have hkind := kind_of_isPunct ht
    have hfirst : isOneOf tableConstraintKeywords t = false := by
      simp [isOneOf, Token.isKeyword, hkind]
    have hname : name? (.item g t r) = .ok (none, .item g t r) := by
      simp only [name?, Token.name?, hkind]
    simp only [Parser.column?, spanned, nextIs, run_bind, run_get, run_pure, Stream.headIs,
      Stream.head?, Option.any_some, hfirst, Bool.false_eq_true, if_false, hname, Option.map_none]

theorem columns_of_listed {cs : List Column} (h : Listed ColumnAt s cs r) (hr : Mark ")" r s₁) :
    columns s = .ok (cs, s₁) := by
  refine run_bind_eq (?rounds : _ = Except.ok (cs, r)) ?close
  case close => simp only [run_bind, hr.expectPunct, run_pure]
  case rounds =>
    cases h with
    | none =>
      rw [rounds]
      simp only [run_bind, hr.column?, run_pure]
    | some h =>
      refine h.rounds (F := fun r => ∃ s₁, Mark ")" r s₁) ?next ?last ⟨s₁, hr⟩
      case next =>
        intro s c s₁ s₂ hcolumn hcomma
        obtain ⟨hread, hlt⟩ := hcolumn.column? (.comma hcomma)
        refine ⟨?_, hcomma.size_lt.trans hlt⟩
        simp only [run_bind, hread, hcomma.punct?, if_true, run_pure]
      case last =>
        rintro s c r hcolumn ⟨s₁, hclose⟩
        have hread := (hcolumn.column? (.close hclose)).1
        have hcomma := hclose.punct?_of_ne (show ")" ≠ "," by decide)
        rw [rounds]
        simp only [run_bind, hread, hcomma, Bool.false_eq_true, if_false, run_pure]

theorem OptionAt.tableOption? {o : TableOption} (h : OptionAt s o r) :
    tableOption? s = .ok (some o, r) := by
  cases h with
  | @mk kind _ _ h =>
    cases kind with
    | withoutRowid =>
      obtain ⟨s₁, hwithout, hrowid⟩ := h.uncons
      simp only [Parser.tableOption?, spanned, run_bind, run_get, run_pure, hwithout.keyword?,
        if_true, hrowid.expectKeyword, Option.map_some]
    | strict =>
      replace h : Keywords ["STRICT"] s r := h
      have hwithout : keyword? "WITHOUT" s = .ok (false, s) := h.keyword?_of_clash (by decide)
      simp only [Parser.tableOption?, spanned, run_bind, run_get, run_pure, hwithout,
        Bool.false_eq_true, if_false, h.keyword?, if_true, Option.map_some]

theorem Keywords.isBarrier (h : Keywords (k :: ks) s r) : s.isBarrier = false := by
  cases h with
  | cons hk => simp [Stream.isBarrier, Stream.head?, Token.isPunct, kind_of_isKeyword hk]

theorem OptionAt.isBarrier {o : TableOption} (h : OptionAt s o r) : s.isBarrier = false := by
  cases h with
  | @mk kind _ _ h => cases kind <;> exact h.isBarrier

/-- An option is read with the comma behind it, if there is one. -/
theorem OptionAt.nextOption? {o : TableOption} {b : Bool} (h : OptionAt s o r)
    (hr : punct? "," r = .ok (b, s₁)) : nextOption? s = .ok (some o, s₁) ∧ s₁.size < s.size := by
  have hlt := (finding_tableOption? _ _ _ h.tableOption?).2 rfl
  refine ⟨?_, (forward_punct? _ _ _ _ hr).size_le.trans_lt hlt⟩
  rw [nextOption?_eq, h.isBarrier]
  simp only [Bool.false_eq_true, if_false, expectOption, run_bind, h.tableOption?, hr, run_pure]

theorem punct?_comma_of_isBarrier (h : s.isBarrier = true) : punct? "," s = .ok (false, s) := by
  cases s with
  | done => rfl
  | item g t s =>
    have ht : t.isPunct ";" = true := h
    simp only [punct?, isPunct_of_ne ht (show ";" ≠ "," by decide), Bool.false_eq_true, if_false]

theorem tableOptions_of_listed {os : List TableOption} (h : Listed OptionAt s os r)
    (hr : r.isBarrier = true) : tableOptions s = .ok (os, r) := by
  have hstop : nextOption? r = .ok (none, r) := by rw [nextOption?_eq, if_pos hr]
  cases h with
  | none => exact many_of_none hstop
  | some h =>
    induction h with
    | last ho =>
      obtain ⟨hread, hlt⟩ := ho.nextOption? (punct?_comma_of_isBarrier hr)
      exact many_of_some hread hlt (many_of_none hstop)
    | next ho hcomma _ ih =>
      obtain ⟨hread, hlt⟩ := ho.nextOption? hcomma.punct?
      exact many_of_some hread hlt (ih hr hstop)

theorem TableName.tableName {name : String} (h : TableName s name r) (hr : Mark "(" r s₁) :
    tableName s = .ok (name, r) := by
  cases h with
  | plain hname =>
    have hdot := hr.punct?_of_ne (show "(" ≠ "." by decide)
    simp only [Parser.tableName, run_bind, hname.expectName, hdot, Bool.false_eq_true, if_false,
      run_pure]
  | qualified hdatabase hdot hname =>
    simp only [Parser.tableName, run_bind, hdatabase.expectName, hdot.punct?, if_true,
      hname.expectName, run_pure]

theorem Flag.ifNotExists {b : Bool} (h : Flag ["IF", "NOT", "EXISTS"] s b r)
    (hr : b = false → r.headIs (·.isKeyword "IF") = false) : ifNotExists s = .ok (b, r) := by
  cases h with
  | absent =>
    have hno : Parser.keyword? "IF" s = .ok (false, s) := by
      cases s with
      | done => rfl
      | item g t s =>
        have ht : t.isKeyword "IF" = false := hr rfl
        simp only [Parser.keyword?, Parser.phrase?, Stream.afterPhrase?, ht, Bool.false_eq_true,
          if_false]
    simp only [Parser.ifNotExists, run_bind, hno, Bool.false_eq_true, if_false, run_pure]
  | present h =>
    obtain ⟨s₁, hif, h⟩ := h.uncons
    obtain ⟨s₂, hnot, hexists⟩ := h.uncons
    simp only [Parser.ifNotExists, run_bind, hif.keyword?, if_true, hnot.expectKeyword,
      hexists.expectKeyword, run_pure]

/-! ## Statements -/

theorem Ended.isBarrier (h : Ended s r) (hr : r.head? = none) :
    s.isBarrier = true ∧ s.tail = r := by
  cases h with
  | bare =>
    -- Without a semicolon, the statement ends with the tokens.
    cases s with
    | done => exact ⟨rfl, rfl⟩
    | item => cases hr
  | semicolon hm =>
    obtain ⟨ht⟩ := hm
    exact ⟨ht, rfl⟩

theorem TableAt.statement {table : CreateTable} (h : TableAt s table r) (hr : r.head? = none) :
    statement s = .ok (.createTable table, r) := by
  obtain ⟨hcreate, hflag, hif, hname, hopen, hcolumns, hclose, hoptions, hended⟩ := h
  obtain ⟨hbarrier, rfl⟩ := hended.isBarrier hr
  rw [statement_eq, hcreate.afterPhrase?]
  simp only [tableBody, run_bind, hflag.ifNotExists hif, hname.tableName hopen, hopen.expectPunct,
    columns_of_listed hcolumns hclose, tableOptions_of_listed hoptions hbarrier, run_pure, tableOf]

theorem TableAt.statements {table : CreateTable} (h : TableAt s table r) (hr : r.head? = none) :
    statements s = .ok ([.createTable table], r) := by
  have hstatement := h.statement hr
  have hrest : Parser.statements r = .ok ([], r) := by
    cases r with
    | done g => exact statements_done g
    | item => cases hr
  obtain ⟨hcreate⟩ := h
  cases hcreate with
  | cons =>
    rw [statements_item, hstatement]
    change (Parser.statements r).map _ = _
    rw [hrest]
    rfl

/-- Tokens that spell a `CREATE TABLE` statement are read as this statement and nothing else. -/
theorem ofTokens_of_spells {tokens : List Token} {table : CreateTable} (h : Spells tokens table) :
    Statement.ofTokens tokens = .ok [.createTable table] := by
  obtain ⟨r, htable, hr⟩ := h
  change (statements (.ofTokens 0 tokens)).map _ = _
  rw [htable.statements hr]
  rfl

/-- In `references p match full not null`, `not` begins the next constraint. -/
theorem ofTokens_of_spells_reference :
    let blank : Token := ⟨.whitespace, " "⟩
    let tokens : List Token :=
      [⟨.word, "Create"⟩, blank, ⟨.word, "table"⟩, ⟨.comment, "/**/"⟩, ⟨.string, "'a''b'"⟩,
       ⟨.punctuation, "("⟩, ⟨.word, "k"⟩, blank, ⟨.word, "int"⟩, ⟨.punctuation, "("⟩, ⟨.word, "8"⟩,
       ⟨.punctuation, ")"⟩, ⟨.word, "references"⟩, blank, ⟨.word, "p"⟩, blank, ⟨.word, "match"⟩,
       blank, ⟨.word, "full"⟩, blank, ⟨.word, "not"⟩, blank, ⟨.word, "null"⟩, ⟨.punctuation, ")"⟩,
       ⟨.punctuation, ";"⟩, blank]
    let table : CreateTable :=
      { name := "a'b", ifNotExists := false, options := [], span := ⟨0, 25⟩,
        columns :=
          [{ name := "k", span := ⟨6, 23⟩,
             type := some { name := "INT", first := some "8", second := none, span := ⟨8, 12⟩ },
             constraints :=
               [{ name := none, span := ⟨12, 19⟩,
                  rule := .references
                    { table := "p", columns := [], actions := [.matching "FULL"] } },
                { name := none, rule := .notNull none, span := ⟨20, 23⟩ }] }] }
    Spells tokens table ∧ Statement.ofTokens tokens = .ok [.createTable table] := by
  intro blank tokens table
  let after : Stream := .done ⟨25, [blank]⟩
  let close : Stream :=
    .item ⟨23, []⟩ ⟨.punctuation, ")"⟩ (.item ⟨24, []⟩ ⟨.punctuation, ";"⟩ after)
  let notNull : Stream :=
    .item ⟨19, [blank]⟩ ⟨.word, "not"⟩ (.item ⟨21, [blank]⟩ ⟨.word, "null"⟩ close)
  let references : Stream :=
    .item ⟨12, []⟩ ⟨.word, "references"⟩ (.item ⟨13, [blank]⟩ ⟨.word, "p"⟩
      (.item ⟨15, [blank]⟩ ⟨.word, "match"⟩ (.item ⟨17, [blank]⟩ ⟨.word, "full"⟩ notNull)))
  let argument : Stream := .item ⟨11, []⟩ ⟨.punctuation, ")"⟩ references
  let type : Stream :=
    .item ⟨7, [blank]⟩ ⟨.word, "int"⟩
      (.item ⟨9, []⟩ ⟨.punctuation, "("⟩ (.item ⟨10, []⟩ ⟨.word, "8"⟩ argument))
  have hreference : ConstraintAt references _ notNull :=
    .mk .none (.references (.cons rfl .nil) (.word rfl) .none
      (.cons (.matching (.cons rfl .nil) (.word rfl)) .nil))
  have hnotNull : ConstraintAt notNull _ close :=
    .mk .none (.notNull (.cons rfl (.cons rfl .nil)) .none)
  have hargument : Balanced false (.item ⟨10, []⟩ ⟨.word, "8"⟩ argument) [⟨.word, "8"⟩] argument :=
    .token rfl rfl rfl nofun .nil
  have hexpression := Expression.mk hargument (by decide)
  rw [show Text.trim _ = "8" by decide] at hexpression
  have htype : TypeAt type _ references :=
    .mk (.cons (.mk rfl rfl) .nil) (.one (.mk rfl) hexpression (.mk rfl))
  have hcolumn : ColumnAt (.item ⟨6, []⟩ ⟨.word, "k"⟩ type) _ close :=
    .mk rfl (.word rfl) (.some htype) (.cons hreference (.cons hnotNull .nil))
  have h : TableAt (.ofTokens 0 tokens) table after :=
    .mk (s := .item ⟨0, []⟩ ⟨.word, "Create"⟩ (.item ⟨1, [blank]⟩ ⟨.word, "table"⟩
        (.item ⟨3, [⟨.comment, "/**/"⟩]⟩ ⟨.string, "'a''b'"⟩ (.item ⟨5, []⟩ ⟨.punctuation, "("⟩
          (.item ⟨6, []⟩ ⟨.word, "k"⟩ type)))))
      (.cons rfl (.cons rfl .nil)) .absent (fun _ => rfl) (.plain (.string (q := '\'') rfl rfl rfl))
      (.mk rfl) (.some (.last hcolumn)) (.mk rfl) .none (.semicolon (.mk rfl))
  exact ⟨⟨after, h, rfl⟩, ofTokens_of_spells ⟨after, h, rfl⟩⟩

end SchemaAlign.Parser.Grammar
