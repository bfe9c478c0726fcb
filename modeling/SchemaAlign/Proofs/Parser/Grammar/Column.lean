import SchemaAlign.Proofs.Parser.Grammar.Value

/-!
# Columns are read as they are spelled

A word says where the constraint before it ends. `NOT`, `ON` and `NULL` may begin what belongs to
that constraint or what does not; then the next word decides.

* `ActionAt.keyAction?`: the clauses of a foreign key;
* `RuleAt.rule?`, `ConstraintAt.constraint?`: constraints;
* `ColumnAt.column?`: columns.
-/

namespace SchemaAlign.Parser.Grammar

open Text

variable {α : Type} {s r : Stream} {k m : String} {ps : List (List String)}

/-! ## Constraints -/

/-- The phrases that a rule begins with. -/
def ruleStarts : List (List String) :=
  [["PRIMARY", "KEY"], ["NOT", "NULL"], ["NULL"], ["UNIQUE"], ["CHECK"], ["DEFAULT"], ["COLLATE"],
   ["REFERENCES"], ["GENERATED", "ALWAYS", "AS"], ["AS"]]

/-- The phrases that a constraint begins with. -/
def constraintStarts : List (List String) :=
  ["CONSTRAINT"] :: ruleStarts

/-- The phrases that a clause of a foreign key begins with. -/
def actionStarts : List (List String) :=
  [["ON", "DELETE"], ["ON", "UPDATE"], ["MATCH"], ["NOT", "DEFERRABLE"], ["DEFERRABLE"]]

theorem ConflictAt.before {c : Conflict} (h : ConflictAt s c r) :
    Before [["ON", "CONFLICT"]] s := by
  obtain ⟨h⟩ := h
  obtain ⟨s₁, hon, -⟩ := Keywords.split ["ON", "CONFLICT"] h
  exact .phrase List.mem_cons_self hon

theorem Maybe.conflict? {c : Option Conflict} (h : Maybe ConflictAt s c r) (hr : Before ps r)
    (hps : ps.all (clash ["ON", "CONFLICT"]) = true) : conflict? s = .ok (c, r) := by
  cases h with
  | none =>
    simp only [Parser.conflict?, run_bind, hr.phrase? hps, Bool.false_eq_true, if_false, run_pure]
  | @some c _ _ h =>
    obtain ⟨h⟩ := h
    obtain ⟨s₁, hon, hc⟩ := Keywords.split ["ON", "CONFLICT"] h
    have hchoice : OneOf conflictChoices s₁ c r := ⟨_, by cases c <;> decide, hc⟩
    simp only [Parser.conflict?, run_bind, hon.phrase?, if_true, hchoice.choose (by decide),
      run_pure]

theorem keyEffect_of_keywords {effect : KeyEffect} (h : Keywords (effectWords effect) s r) :
    keyEffect s = .ok (effect, r) := by
  have set {ks : List String} (h : Keywords ("SET" :: ks) s r)
      (hks : (ks, effect) ∈ [(["NULL"], KeyEffect.setNull), (["DEFAULT"], .setDefault)]) :
      keyEffect s = .ok (effect, r) := by
    obtain ⟨s₁, hset, heffect⟩ := h.uncons
    have hchoice : OneOf _ s₁ effect r := ⟨ks, hks, heffect⟩
    simp only [keyEffect, run_bind, hset.keyword?, if_true, hchoice.choose (by decide), run_pure]
  have single {ks : List String} (h : Keywords ks s r)
      (hks : (ks, effect) ∈ [(["CASCADE"], KeyEffect.cascade), (["RESTRICT"], .restrict)]) :
      keyEffect s = .ok (effect, r) := by
    have hchoice : OneOf _ s effect r := ⟨ks, hks, h⟩
    -- A single word is neither of the two that are tried before it.
    have hbefore := hchoice.before (by decide)
    have hset : keyword? "SET" s = .ok (false, s) := hbefore.keyword? (by decide)
    have hno : keyword? "NO" s = .ok (false, s) := hbefore.keyword? (by decide)
    simp only [keyEffect, run_bind, hset, hno, Bool.false_eq_true, if_false,
      hchoice.choose (by decide), run_pure]
  cases effect with
  | setNull => exact set h (by decide)
  | setDefault => exact set h (by decide)
  | noAction =>
    obtain ⟨s₁, hno, haction⟩ := h.uncons
    have hset : keyword? "SET" s = .ok (false, s) := hno.keyword?_of_clash (by decide)
    simp only [keyEffect, run_bind, hset, hno.keyword?, haction.expectKeyword, Bool.false_eq_true,
      if_false, if_true, run_pure]
  | cascade => exact single h (by decide)
  | restrict => exact single h (by decide)

theorem Maybe.keyCheck? {c : Option KeyCheck} (h : Maybe CheckAt s c r) (hr : Before ps r)
    (hps : ps.all (clash ["INITIALLY"]) = true) : keyCheck? s = .ok (c, r) := by
  cases h with
  | none =>
    simp only [Parser.keyCheck?, run_bind, hr.keyword? hps, Bool.false_eq_true, if_false, run_pure]
  | @some c _ _ h =>
    obtain ⟨h⟩ := h
    obtain ⟨s₁, hinitially, hc⟩ := h.uncons
    have hchoice : OneOf [(["DEFERRED"], KeyCheck.deferred), (["IMMEDIATE"], .immediate)] s₁ c r :=
      ⟨_, by cases c <;> decide, hc⟩
    simp only [Parser.keyCheck?, run_bind, hinitially.keyword?, if_true,
      hchoice.choose (by decide), run_pure]

theorem ActionAt.before {a : KeyAction} (h : ActionAt s a r) : Before actionStarts s := by
  cases h with
  | @on event _ _ _ _ hon => cases event <;> exact .phrase (by decide) hon
  | matching hmatch => exact .phrase (by decide) hmatch
  | @deferrable negated _ _ _ _ hwords => cases negated <;> exact .phrase (by decide) hwords

theorem Before.events (h : Before ps s)
    (hps : refused ps [(["ON", "DELETE"], KeyEvent.delete), (["ON", "UPDATE"], .update)] = true) :
    Parser.choose [(["ON", "DELETE"], KeyEvent.delete), (["ON", "UPDATE"], .update)] s =
      .ok (none, s) :=
  h.choose hps

/-- A clause of a foreign key, where another one or a constraint follows. -/
theorem ActionAt.keyAction? {a : KeyAction} (h : ActionAt s a r)
    (hr : Before (actionStarts ++ constraintStarts) r) :
    keyAction? s = .ok (some a, r) ∧ r.size < s.size := by
  cases h with
  | @on event effect _ s₁ _ hon heffect =>
    have hchoice : OneOf [(["ON", "DELETE"], KeyEvent.delete), (["ON", "UPDATE"], .update)] s event
        s₁ := ⟨_, by cases event <;> decide, hon⟩
    have hread := keyEffect_of_keywords heffect
    refine ⟨?_, Nat.lt_of_le_of_lt (forward_keyEffect _ _ _ hread).size_le hon.size_lt⟩
    simp only [Parser.keyAction?, run_bind, hchoice.choose (by decide), hread, run_pure]
  | @matching name _ s₁ _ hmatch hname =>
    -- `ON` is tried first, and does not stand here.
    have hbefore : Before [["MATCH"]] s := .phrase (by decide) hmatch
    have hevents := hbefore.events (by decide)
    refine ⟨?_, hname.size_lt.trans hmatch.size_lt⟩
    simp only [Parser.keyAction?, run_bind, hevents, hmatch.keyword?, if_true, hname.expectName,
      run_pure]
  | @deferrable negated check _ s₁ _ hwords hcheck =>
    have hchoice : OneOf [(["NOT", "DEFERRABLE"], true), (["DEFERRABLE"], false)] s negated s₁ :=
      ⟨_, by cases negated <;> decide, hwords⟩
    -- Nor does `MATCH`, which is tried next.
    have hbefore := hchoice.before (by decide)
    have hevents := hbefore.events (by decide)
    have hmatch : keyword? "MATCH" s = .ok (false, s) := hbefore.keyword? (by decide)
    have hread := hcheck.keyCheck? hr (by decide)
    refine ⟨?_, ?_⟩
    · simp only [Parser.keyAction?, run_bind, hevents, hmatch, Bool.false_eq_true, if_false,
        hchoice.choose (by decide), hread, run_pure]
    · refine Nat.lt_of_le_of_lt (forward_keyCheck? _ _ _ hread).size_le ?_
      cases negated <;> exact hwords.size_lt

theorem Before.keyAction? (h : Before constraintStarts s) : keyAction? s = .ok (none, s) := by
  have hevents := h.events (by decide)
  have hmatch : Parser.keyword? "MATCH" s = .ok (false, s) := h.keyword? (by decide)
  have hdeferrable : Parser.choose [(["NOT", "DEFERRABLE"], true), (["DEFERRABLE"], false)] s =
      .ok (none, s) := h.choose (by decide)
  simp only [Parser.keyAction?, run_bind, hevents, hmatch, hdeferrable, Bool.false_eq_true,
    if_false, run_pure]

theorem Separated.names {names : List String} (h : Separated Name s names r) (hr : Mark ")" r s₁)
    (fault : Fault) : commaSeparated (expectName fault) s = .ok (names, r) := by
  unfold commaSeparated
  refine h.rounds (F := fun r => ∃ s₁, Mark ")" r s₁) ?next ?last ⟨s₁, hr⟩
  case next =>
    intro s name s₁ s₂ hname hcomma
    refine ⟨?_, hcomma.size_lt.trans hname.size_lt⟩
    simp only [run_bind, hname.expectName, hcomma.punct?, if_true, run_pure]
  case last =>
    rintro s name r hname ⟨s₁, hclose⟩
    have hcomma := hclose.punct?_of_ne (show ")" ≠ "," by decide)
    rw [Parser.rounds]
    simp only [run_bind, hname.expectName, hcomma, Bool.false_eq_true, if_false, run_pure]

theorem KeyColumns.keyColumns {names : List String} (h : KeyColumns s names r) (hr : Before ps r) :
    keyColumns s = .ok (names, r) := by
  cases h with
  | none =>
    have hopen := hr.punct? (m := "(") (by decide) (by decide)
    simp only [Parser.keyColumns, run_bind, hopen, Bool.false_eq_true, if_false, run_pure]
  | some hopen hnames hclose =>
    simp only [Parser.keyColumns, run_bind, hopen.punct?, if_true, hnames.names hclose,
      hclose.expectPunct, run_pure]

/-! ### Rules -/

theorem RuleAt.before {rule : Rule} (h : RuleAt s rule r) : Before ruleStarts s := by
  cases h with
  | primaryKey h => exact .phrase (by decide) h
  | notNull h => exact .phrase (by decide) h
  | null h => exact .phrase (by decide) h
  | unique h => exact .phrase (by decide) h
  | check h => exact .phrase (by decide) h
  | expression h => exact .phrase (by decide) h
  | literal h => exact .phrase (by decide) h
  | collate h => exact .phrase (by decide) h
  | references h => exact .phrase (by decide) h
  | generated hwords h =>
    simp only [List.mem_cons, List.not_mem_nil, or_false] at hwords
    obtain rfl | rfl := hwords <;> exact .phrase (by decide) h

/-- Reads one of some keywords and what belongs to it, or `q` if none of them comes next. -/
def dispatch (q : Parser α) : List (String × Parser α) → Parser α
  | [] => q
  | (k, p) :: table => do if ← keyword? k then p else dispatch q table

/-- The keywords of the rules, and what is read after each. -/
def ruleTable : List (String × Parser (Option Rule)) :=
  [("PRIMARY", return some (← primaryKey)),
   ("NOT", do expectKeyword "NULL" .null; return some (.notNull (← conflict?))),
   ("NULL", return some (.null (← conflict?))),
   ("UNIQUE", return some (.unique (← conflict?))),
   ("CHECK", return some (.check (← parenthesized))),
   ("DEFAULT", return some (.defaultsTo (← defaultValue))),
   ("COLLATE", return some (.collate (← expectName .collationName))),
   ("REFERENCES", return some (.references (← foreignKey))),
   ("GENERATED", do
      expectKeyword "ALWAYS" .always
      expectKeyword "AS" .as
      return some (← generated)),
   ("AS", return some (← generated))]

theorem rule?_eq_dispatch : rule? = dispatch (pure none) ruleTable :=
  rfl

theorem Keywords.dispatch {p q : Parser α} {table : List (String × Parser α)} {i : Nat}
    (h : Keywords [k] s r) (hd : table.Pairwise fun x y => clash [x.1] [y.1] = true)
    (hi : table[i]? = some (k, p)) : dispatch q table s = p r := by
  induction table generalizing i with
  | nil => cases hi
  | cons x table ih =>
    obtain ⟨hx, hd⟩ := List.pairwise_cons.1 hd
    cases i with
    | zero =>
      cases hi
      simp only [Grammar.dispatch, run_bind, h.keyword?, if_true]
    | succ i =>
      have hno := h.keyword?_of_clash (hx (k, p) (List.mem_of_getElem? hi))
      simp only [Grammar.dispatch, run_bind, hno, Bool.false_eq_true, if_false]
      exact ih hd hi

/-- The rule whose keyword is the `i`-th one is read. -/
theorem Keywords.rule? {p : Parser (Option Rule)} (h : Keywords [k] s r) (i : Nat)
    (hi : ruleTable[i]? = some (k, p)) : rule? s = p r :=
  rule?_eq_dispatch ▸ h.dispatch (by decide) hi

/-- What follows the word `PRIMARY`. -/
theorem primaryKey_of_parts {order : Option SortOrder} {conflict : Option Conflict}
    {autoincrement : Bool} {s₁ s₂ s₃ : Stream} (h : Keywords ["KEY"] s s₁)
    (horder : Maybe (OneOf [(["ASC"], .asc), (["DESC"], .desc)]) s₁ order s₂)
    (hconflict : Maybe ConflictAt s₂ conflict s₃)
    (hautoincrement : Flag ["AUTOINCREMENT"] s₃ autoincrement r) (hr : Before constraintStarts r) :
    primaryKey s = .ok (.primaryKey order conflict autoincrement, r) := by
  -- What may follow each of the parts, from the last one on.
  have hr₁ := hautoincrement.before hr
  have hr₂ := hconflict.before ConflictAt.before hr₁
  have horder := horder.choose hr₂ (by decide) (by decide)
  have hconflict := hconflict.conflict? hr₁ (by decide)
  have hautoincrement := hautoincrement.keyword? hr (by decide)
  simp only [Parser.primaryKey, run_bind, h.expectKeyword, horder, hconflict, hautoincrement,
    run_pure]

/-- What follows the word `REFERENCES`. -/
theorem foreignKey_of_parts {table : String} {columns : List String} {actions : List KeyAction}
    {s₁ s₂ : Stream} (htable : Name s table s₁) (hcolumns : KeyColumns s₁ columns s₂)
    (hactions : Many ActionAt s₂ actions r) (hr : Before constraintStarts r) :
    foreignKey s = .ok ({ table, columns, actions }, r) := by
  -- Behind `NOT`, only `DEFERRABLE` belongs to the foreign key.
  have hmany := hactions.many (F := Before (actionStarts ++ constraintStarts))
    (fun h hr => h.keyAction? hr) (fun h => h.before.mono (List.subset_append_left _ _))
    (hr.mono (List.subset_append_right _ _)) hr.keyAction?
  have hcolumns := hcolumns.keyColumns (hactions.before ActionAt.before hr)
  simp only [foreignKey, run_bind, htable.expectName, hcolumns, hmany, run_pure]

/-- What follows the word `AS`. -/
theorem generated_of_parts {expr : String} {storage : Option Storage} {s₁ : Stream}
    (hexpr : Parens s expr s₁)
    (hstorage : Maybe (OneOf [(["STORED"], .stored), (["VIRTUAL"], .virtual)]) s₁ storage r)
    (hr : Before constraintStarts r) : generated s = .ok (.generated expr storage, r) := by
  have hstorage := hstorage.choose hr (by decide) (by decide)
  simp only [Parser.generated, run_bind, hexpr.parenthesized, hstorage, run_pure]

theorem RuleAt.rule? {rule : Rule} (h : RuleAt s rule r) (hr : Before constraintStarts r) :
    rule? s = .ok (some rule, r) := by
  -- For each form of a rule, `ruleTable` has its keyword at the place that is given.
  cases h with
  | primaryKey h horder hconflict hautoincrement =>
    obtain ⟨_, hprimary, hkey⟩ := h.uncons
    rw [hprimary.rule? 0 rfl]
    simp only [run_bind, primaryKey_of_parts hkey horder hconflict hautoincrement hr, run_pure]
  | notNull h hconflict =>
    obtain ⟨_, hnot, hnull⟩ := h.uncons
    rw [hnot.rule? 1 rfl]
    simp only [run_bind, hnull.expectKeyword, hconflict.conflict? hr (by decide), run_pure]
  | null h hconflict =>
    rw [h.rule? 2 rfl]
    simp only [run_bind, hconflict.conflict? hr (by decide), run_pure]
  | unique h hconflict =>
    rw [h.rule? 3 rfl]
    simp only [run_bind, hconflict.conflict? hr (by decide), run_pure]
  | check h hexpr =>
    rw [h.rule? 4 rfl]
    simp only [run_bind, hexpr.parenthesized, run_pure]
  | expression h hexpr =>
    rw [h.rule? 5 rfl]
    simp only [run_bind, hexpr.defaultValue, run_pure]
  | literal h hvalue =>
    rw [h.rule? 5 rfl]
    simp only [run_bind, hvalue.defaultValue hr, run_pure]
  | collate h hname =>
    rw [h.rule? 6 rfl]
    simp only [run_bind, hname.expectName, run_pure]
  | references h htable hcolumns hactions =>
    rw [h.rule? 7 rfl]
    simp only [run_bind, foreignKey_of_parts htable hcolumns hactions hr, run_pure]
  | generated hwords h hexpr hstorage =>
    have hgenerated := generated_of_parts hexpr hstorage hr
    simp only [List.mem_cons, List.not_mem_nil, or_false] at hwords
    obtain rfl | rfl := hwords
    · obtain ⟨_, hword, h⟩ := h.uncons
      obtain ⟨_, halways, has⟩ := h.uncons
      rw [hword.rule? 8 rfl]
      simp only [run_bind, halways.expectKeyword, has.expectKeyword, hgenerated, run_pure]
    · rw [h.rule? 9 rfl]
      simp only [run_bind, hgenerated, run_pure]

theorem ConstraintAt.before {c : Constraint} (h : ConstraintAt s c r) :
    Before constraintStarts s := by
  obtain ⟨hname, hrule⟩ := h
  have hstart {s r : Stream} {name : String} (h : ConstraintName s name r) :
      Before [["CONSTRAINT"]] s := by
    obtain ⟨h, -⟩ := h
    exact .phrase List.mem_cons_self h
  exact hname.before hstart hrule.before

theorem Maybe.constraintName? {name : Option String} (h : Maybe ConstraintName s name r)
    (hr : Before ruleStarts r) : constraintName? s = .ok (name, r) := by
  cases h with
  | none =>
    have hno : keyword? "CONSTRAINT" s = .ok (false, s) := hr.keyword? (by decide)
    simp only [Parser.constraintName?, run_bind, hno, Bool.false_eq_true, if_false, run_pure]
  | some h =>
    obtain ⟨hkeyword, hname⟩ := h
    simp only [Parser.constraintName?, run_bind, hkeyword.keyword?, if_true, hname.expectName,
      run_pure]

/-- A constraint, where another one or the end of the column follows. -/
theorem ConstraintAt.constraint? {c : Constraint} (h : ConstraintAt s c r)
    (hr : Before constraintStarts r) :
    constraint? s = .ok (some c, r) ∧ r.size < s.size := by
  obtain ⟨hname, hrule⟩ := h
  have hname := hname.constraintName? hrule.before
  have hrule := hrule.rule? hr
  refine ⟨?_, ?_⟩
  · simp only [Parser.constraint?, spanned, run_bind, run_get, run_pure, hname, hrule,
      Option.isNone_some, Bool.and_false, Bool.false_eq_true, if_false, Option.map_some]
  · exact Nat.lt_of_lt_of_le ((finding_rule? _ _ _ hrule).2 rfl)
      (forward_constraintName? _ _ _ hname).size_le

/-- Where a column ends there is no constraint. -/
theorem Before.constraint? (h : Before [] s) : constraint? s = .ok (none, s) := by
  have hno (k : String) : Parser.keyword? k s = .ok (false, s) := h.keyword? rfl
  simp only [Parser.constraint?, Parser.constraintName?, Parser.rule?, spanned, run_bind, run_get,
    run_pure, hno, Bool.false_eq_true, if_false, Option.isSome_none, Bool.false_and,
    Option.map_none]

/-! ## Columns -/

theorem Mark.typeWords (h : Mark m s r) : typeWords s = .ok ([], s) := by
  cases h with
  | mk ht => simp [Parser.typeWords, Stream.cutWhile, kind_of_isPunct ht]

/-- A word that begins a constraint is not a word of a type name. -/
theorem Before.typeWords (h : Before constraintStarts s) : typeWords s = .ok ([], s) := by
  cases h with
  | @phrase k ks s r hmem hks =>
    have hstarts : ∀ p ∈ constraintStarts, ∀ k ∈ p.head?, k ∈ columnConstraintKeywords := by decide
    cases hks with
    | @cons _ _ g t s r hk =>
      have ht : isOneOf columnConstraintKeywords t = true :=
        List.any_eq_true.2 ⟨k, hstarts _ hmem k rfl, hk⟩
      simp [Parser.typeWords, Stream.cutWhile, ht]
  | comma hm => exact hm.typeWords
  | close hm => exact hm.typeWords

theorem typeWords_of_many {words : List String} (h : Many TypeWord s words r)
    (hr : typeWords r = .ok ([], r)) : typeWords s = .ok (words, r) := by
  induction h with
  | nil => exact hr
  | cons hword _ ih =>
    have hrest := ih hr
    cases hword with
    | mk hkind hno =>
      simp only [typeWords, Except.ok.injEq, Prod.mk.injEq] at hrest ⊢
      simp [Stream.cutWhile, hkind, hno, hrest]

theorem TypeArguments.typeWords {x : Option String × Option String} (h : TypeArguments s x r)
    (hr : Before constraintStarts r) : typeWords s = .ok ([], s) := by
  cases h with
  | none => exact hr.typeWords
  | one hopen => exact hopen.typeWords
  | two hopen => exact hopen.typeWords

theorem TypeArguments.typeArguments {x : Option String × Option String} (h : TypeArguments s x r)
    (hr : Before ps r) : typeArguments s = .ok (x, r) := by
  cases h with
  | none =>
    have hopen := hr.punct? (m := "(") (by decide) (by decide)
    simp only [Parser.typeArguments, run_bind, hopen, Bool.false_eq_true, if_false, run_pure]
  | one hopen hfirst hclose =>
    have hcomma := hclose.punct?_of_ne (show ")" ≠ "," by decide)
    simp only [Parser.typeArguments, run_bind, hopen.punct?, if_true,
      hfirst.expression? (.close hclose), hcomma, Bool.false_eq_true, if_false, run_pure,
      hclose.expectPunct]
  | two hopen hfirst hcomma hsecond hclose =>
    simp only [Parser.typeArguments, run_bind, hopen.punct?, if_true,
      hfirst.expression? (.comma hcomma), hcomma.punct?, hsecond.expression? (.close hclose),
      run_pure, hclose.expectPunct]

theorem Maybe.typeName? {type : Option TypeName} (h : Maybe TypeAt s type r)
    (hr : Before constraintStarts r) : typeName? s = .ok (type, r) := by
  cases h with
  | none =>
    simp only [Parser.typeName?, spanned, run_bind, run_get, run_pure, hr.typeWords,
      List.isEmpty_nil, if_true]
  | some h =>
    obtain ⟨hwords, harguments⟩ := h
    have hwords := typeWords_of_many hwords (harguments.typeWords hr)
    simp only [Parser.typeName?, spanned, run_bind, run_get, run_pure, hwords, List.isEmpty_cons,
      Bool.false_eq_true, if_false, harguments.typeArguments hr]

/-- A column, where a comma or the end of the columns follows. -/
theorem ColumnAt.column? {c : Column} (h : ColumnAt s c r) (hr : Before [] r) :
    column? s = .ok (some c, r) ∧ r.size < s.size := by
  obtain ⟨hfirst, hname, htype, hconstraints⟩ := h
  have hr' : Before constraintStarts r := hr.mono (List.nil_subset _)
  have htype := htype.typeName? ((hconstraints.before ConstraintAt.before hr).mono (by simp))
  have hconstraints := hconstraints.many (F := Before constraintStarts)
    (fun h hr => h.constraint? hr) (fun h => h.before) hr' hr.constraint?
  refine ⟨?_, ?_⟩
  · simp only [Parser.column?, spanned, nextIs, run_bind, run_get, run_pure, hfirst,
      Bool.false_eq_true, if_false, hname.name?, htype, hconstraints, Option.map_some]
  · have h₁ := (forward_constraint?.many _ _ _ hconstraints).size_le
    have h₂ := (forward_typeName? _ _ _ htype).size_le
    exact (h₁.trans h₂).trans_lt hname.size_lt

end SchemaAlign.Parser.Grammar
