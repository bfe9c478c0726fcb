import SchemaAlign.Proofs.Parser.InStep.Constraint
import SchemaAlign.Proofs.Parser.Reading
import SchemaAlign.Proofs.Parser.Stretch
import SchemaAlign.Token.Lexer

/-!
# The structure of tables that compare equal

Two definitions of tables whose tokens compare equal have as many columns, of the same names. Where
all words that begin a constraint are written in the letters of ASCII, their columns have the same
structure, too: a type or none, and constraints of the same kinds.

* `Token.IsPlain`: words that the grammar and the comparison take alike;
* `SideBySide`: what holds of two columns that are read side by side;
* `ColumnList`, `ColumnList.forall₂`: the columns of two tables, one by one;
* `Statement.forall₂_columns_of_sameMeaning`: two tables.
-/

namespace SchemaAlign

open Text

/-- Both columns have a type or none, and constraints of the same kinds in the same order. -/
structure Column.SameStructure (c c' : Column) : Prop where
  type : c.type.isSome = c'.type.isSome
  kinds : c.constraints.map (·.rule.kind) = c'.constraints.map (·.rule.kind)

/-! ## Plain words -/

/-- If the word compares equal to one that begins a constraint, it is written in ASCII. -/
def Token.IsPlain (t : Token) : Prop :=
  t.kind = .word → upper t.text ∈ Parser.columnConstraintKeywords → isAscii t.text = true

instance (t : Token) : Decidable t.IsPlain :=
  inferInstanceAs (Decidable (_ → _ → _))

theorem Token.IsPlain.isKeyword_iff {t : Token} (ht : t.IsPlain) {k : String}
    (hk : k ∈ Parser.columnConstraintKeywords) :
    t.isKeyword k = true ↔ t.meaning = (.word, k) := by
  have hkeywords : ∀ k ∈ Parser.columnConstraintKeywords, upper k = k ∧ isAscii k = true := by
    decide +kernel
  obtain ⟨hupper, hascii⟩ := hkeywords k hk
  constructor
  · intro h
    rw [Parser.meaning_of_isKeyword h, hupper]
  · intro h
    have hkind : t.kind = .word := congrArg Prod.fst h
    have htext : upper t.text = k := by
      simpa only [Token.meaning, hkind, if_true] using congrArg Prod.snd h
    have heq := (eqIgnoreAsciiCase_iff_upper (ht hkind (htext ▸ hk)) hascii).2
      (htext.trans hupper.symm)
    rw [Token.isKeyword, hkind, heq]
    rfl

/-- Two plain tokens that compare equal both begin a constraint or both do not. -/
theorem Token.IsPlain.isOneOf_eq {t t' : Token} (ht : t.IsPlain) (ht' : t'.IsPlain)
    (hmeaning : t.meaning = t'.meaning) :
    Parser.isOneOf Parser.columnConstraintKeywords t =
      Parser.isOneOf Parser.columnConstraintKeywords t' := by
  rw [Bool.eq_iff_iff]
  simp only [Parser.isOneOf, List.any_eq_true]
  refine exists_congr fun k => and_congr_right fun hk => ?_
  rw [ht.isKeyword_iff hk, ht'.isKeyword_iff hk, hmeaning]

namespace Parser

open SchemaAlign.Parser.Stream (Pairwise ofTokens)

variable {R : Token → Token → Prop} {s s' r r' : Stream} {t t' : Token} {c c' : Column}
  {cs cs' : List Column}

/-! ## Columns -/

theorem headIs_endsColumn_iff : s.headIs endsColumn = true ↔
    s.headIs (·.isPunct ",") = true ∨ s.headIs (·.isPunct ")") = true := by
  cases s with
  | done => simp [Stream.headIs, Stream.head?]
  | item g t s => exact Bool.or_eq_true_iff

/-- Two columns, read from streams that agree, and both up to where a column may end, are in the
    relation `ρ`. -/
def SideBySide (R : Token → Token → Prop) (ρ : Column → Column → Prop) : Prop :=
  ∀ s s' c c' r r', Pairwise R s s' → column? s = .ok (some c, r) →
    column? s' = .ok (some c', r') → r.headIs endsColumn = true → r'.headIs endsColumn = true →
    ρ c c'

theorem pairwise_cutWhile {p : Token → Bool} (hp : ∀ t t', R t t' → p t = p t')
    (hs : Pairwise R s s') : (s.cutWhile p).1.isEmpty = (s'.cutWhile p).1.isEmpty ∧
      Pairwise R (s.cutWhile p).2 (s'.cutWhile p).2 := by
  induction hs with
  | done => exact ⟨rfl, .done⟩
  | @item g g' t t' s s' ht hs ih =>
    rw [Stream.cutWhile, Stream.cutWhile, hp t t' ht]
    split
    · exact ⟨rfl, ih.2⟩
    · exact ⟨rfl, .item ht hs⟩

section

variable (hR : ∀ t t', R t t' → t.meaning = t'.meaning)
include hR

theorem sideBySide_name : SideBySide R fun c c' => upper c.name = upper c'.name := by
  intro s s' c c' r r' hs h h' _ _
  obtain ⟨⟨⟩, -⟩ | ⟨_, s₁, s₂, ⟨⟩, hname, -⟩ := column?_eq_ok h
  obtain ⟨⟨⟩, -⟩ | ⟨_, s₁', s₂', ⟨⟩, hname', -⟩ := column?_eq_ok h'
  obtain ⟨⟨⟩, -⟩ := (inStep_name? hR).exact hs hname hname'
  assumption

/-- Columns that are read side by side, and end where a column may end, are equally long. -/
theorem pairwise_of_column? (hs : Pairwise R s s') (h : column? s = .ok (some c, r))
    (h' : column? s' = .ok (some c', r'))
    (hr : r.headIs endsColumn = true) (hr' : r'.headIs endsColumn = true) : Pairwise R r r' := by
  have toEnd {r : Stream} (hr : r.headIs endsColumn = true) : r.toEnd 0 = r := by
    cases r with
    | done => rfl
    | item g t r =>
      have ht : (t.isPunct "," || t.isPunct ")") = true := hr
      refine toEnd_of_ends ?_
      rw [endsExpression, Bool.or_comm (t.isPunct ")"), ht]
      simp
  have hends := pairwise_toEnd hR hs 0
  rwa [nested_column? _ _ _ h, nested_column? _ _ _ h', toEnd hr, toEnd hr'] at hends

theorem inStep_typeArguments :
    InStep R (fun _ => False) (fun _ _ => True) typeArguments typeArguments := by
  refine (inStep_punct? hR _).ite_exact ?_ (.pure trivial)
  refine (inStep_expression? hR).bind_exact fun _ _ _ => (inStep_punct? hR _).bind_exact ?_
  rintro comma _ rfl
  cases comma
  · exact (takesOne_expectPunct _ _).inStep.bind_exact fun _ _ _ => .pure trivial
  · exact (inStep_expression? hR).bind_exact fun _ _ _ =>
      (takesOne_expectPunct _ _).inStep.bind_exact fun _ _ _ => .pure trivial

section

variable (hkeyword : ∀ t t', R t t' →
  isOneOf columnConstraintKeywords t = isOneOf columnConstraintKeywords t')
include hkeyword

theorem inStep_typeName? :
    InStep R (fun _ => False) (fun a b => a.isSome = b.isSome) typeName? typeName? := by
  have words :
      InStep R (fun _ => False) (fun a b => a.isEmpty = b.isEmpty) typeWords typeWords := by
    intro s s' a b r r' hs ha hb
    have hp : ∀ t t', R t t' → (t.kind == .word && !isOneOf columnConstraintKeywords t) =
        (t'.kind == .word && !isOneOf columnConstraintKeywords t') := fun t t' ht => by
      rw [kind_eq_of_meaning (hR t t' ht), hkeyword t t' ht]
    obtain ⟨hwords, hr⟩ := pairwise_cutWhile hp hs
    cases ha
    cases hb
    exact .inl ⟨by simpa using hwords, hr⟩
  -- Arguments are read only behind a word, so first both sides have words or none.
  have parts : InStep R (fun _ => False) (fun x y => x.1.isEmpty = y.1.isEmpty) (do
      let words ← typeWords
      if words.isEmpty then return ([], none, none)
      return (words, ← typeArguments)) (do
      let words ← typeWords
      if words.isEmpty then return ([], none, none)
      return (words, ← typeArguments)) := by
    refine words.bind_exact fun ws ws' hws => ?_
    cases ws with
    | nil =>
      cases ws' with
      | nil => exact .pure rfl
      | cons => cases hws
    | cons =>
      cases ws' with
      | nil => cases hws
      | cons => exact (inStep_typeArguments hR).bind_exact fun _ _ _ => .pure rfl
  refine parts.spanned.map (fun x y h => ?_) fun _ => id
  obtain ⟨⟨ws, first, second⟩, span⟩ := x
  obtain ⟨⟨ws', first', second'⟩, span'⟩ := y
  have hempty : ws.isEmpty = ws'.isEmpty := h
  dsimp only
  rw [hempty]
  cases ws'.isEmpty <;> rfl

theorem sideBySide_structure : SideBySide R Column.SameStructure := by
  intro s s' c c' r r' hs h h' hr hr'
  obtain ⟨⟨⟩, -⟩ | ⟨_, s₁, s₂, ⟨⟩, hname, htype, hconstraints, -⟩ := column?_eq_ok h
  obtain ⟨⟨⟩, -⟩ | ⟨_, s₁', s₂', ⟨⟩, hname', htype', hconstraints', -⟩ := column?_eq_ok h'
  obtain ⟨-, hs₁⟩ := (inStep_name? hR).exact hs hname hname'
  obtain ⟨htypes, hs₂⟩ := (inStep_typeName? hR hkeyword).exact hs₁ htype htype'
  -- A reading that is stuck is not where a column may end.
  obtain ⟨hkinds, -⟩ | ⟨-, hstuck⟩ | ⟨-, hstuck⟩ :=
    (tracks_constraint? hR).many.inStep _ _ _ _ _ _ hs₂ hconstraints hconstraints'
  · refine ⟨htypes, ?_⟩
    rw [← List.forall₂_eq_eq_eq, List.forall₂_map_left_iff, List.forall₂_map_right_iff]
    exact hkinds
  · exact absurd (hstuck.ends.symm.trans hr) (by decide)
  · exact absurd (hstuck.ends.symm.trans hr') (by decide)

end

end

/-! ## Tables -/

/-- The columns that a table has in its parentheses. -/
inductive ColumnList : Stream → List Column → Prop
  | nil {s : Stream} : s.headIs (·.isPunct ")") = true → ColumnList s []
  | last {s r : Stream} {c : Column} : column? s = .ok (some c, r) →
      r.headIs (·.isPunct ")") = true → ColumnList s [c]
  | next {s r : Stream} {c : Column} {cs : List Column} : column? s = .ok (some c, r) →
      r.headIs (·.isPunct ",") = true → ColumnList r.tail cs → ColumnList s (c :: cs)

theorem columnList_of_rounds {p : Parser (Round Column)}
    (hstop : ∀ s r, p s = .ok (.stop, r) → r = s)
    (hlast : ∀ s c r, p s = .ok (.last c, r) → column? s = .ok (some c, r))
    (hnext : ∀ s c r, p s = .ok (.next c, r) → ∃ q, column? s = .ok (some c, q) ∧
      q.headIs (·.isPunct ",") = true ∧ r = q.tail)
    (h : rounds p s = .ok (cs, r)) (hr : r.headIs (·.isPunct ")") = true) : ColumnList s cs := by
  fun_induction rounds p s generalizing cs with
  | case1 => cases h
  | case2 s rest hp =>
    cases h
    exact .nil (hstop _ _ hp ▸ hr)
  | case3 s c rest hp =>
    cases h
    exact .last (hlast _ _ _ hp) hr
  | case4 => cases h
  | case5 s c rest hp hlt cs rest' hrest ih =>
    cases h
    obtain ⟨q, hcolumn, hcomma, rfl⟩ := hnext _ _ _ hp
    exact .next hcolumn hcomma (ih hrest)
  | case6 s c rest hp hlt =>
    -- The comma alone makes the rest shorter.
    obtain ⟨q, hcolumn, hcomma, rfl⟩ := hnext _ _ _ hp
    have hle := (forward_column? _ _ _ hcolumn).size_le
    cases q with
    | done => cases hcomma
    | item g t q =>
      rw [Stream.size] at hle
      exact absurd hle hlt

theorem columnList_of_columns (h : columns s = .ok (cs, r)) : ColumnList s cs := by
  obtain ⟨cs', s₁, hrounds, h₁⟩ := bind_eq_ok h
  obtain ⟨u, s₂, hclose, h₂⟩ := bind_eq_ok h₁
  cases h₂
  obtain ⟨g, t, ht, rfl⟩ := expectPunct_eq_ok hclose
  refine columnList_of_rounds (fun s r h => ?stop) (fun s c r h => ?last) (fun s c r h => ?next)
    hrounds ht
  case stop =>
    obtain ⟨_ | c, q, hc, h₁⟩ := bind_eq_ok h
    · cases h₁
      obtain ⟨-, rfl⟩ | ⟨_, _, _, ⟨⟩, -⟩ := column?_eq_ok hc
      rfl
    · obtain ⟨b, q', -, h₂⟩ := bind_eq_ok h₁
      cases b <;> cases h₂
  case last =>
    obtain ⟨_ | c, q, hc, h₁⟩ := bind_eq_ok h
    · cases h₁
    · obtain ⟨b, q', hcomma, h₂⟩ := bind_eq_ok h₁
      obtain ⟨rfl, -⟩ | ⟨rfl, rfl, -⟩ := punct?_eq_ok hcomma <;> cases h₂
      exact hc
  case next =>
    obtain ⟨_ | c, q, hc, h₁⟩ := bind_eq_ok h
    · cases h₁
    · obtain ⟨b, q', hcomma, h₂⟩ := bind_eq_ok h₁
      obtain ⟨rfl, g, t, ht, rfl⟩ | ⟨rfl, rfl, -⟩ := punct?_eq_ok hcomma <;> cases h₂
      exact ⟨_, hc, ht, rfl⟩

/-- A column begins with a name. -/
theorem headIs_of_column? (h : column? s = .ok (some c, r)) (mark : String) :
    s.headIs (·.isPunct mark) = false := by
  obtain ⟨⟨⟩, -⟩ | ⟨_, s₁, s₂, ⟨⟩, hname, -⟩ := column?_eq_ok h
  cases s with
  | done => rfl
  | item g t s =>
    by_contra ht
    have ht : t.isPunct mark = true := Bool.not_eq_false _ ▸ ht
    simp only [name?, name?_of_isPunct ht] at hname
    cases hname

theorem not_close_of_comma (h : s.headIs (·.isPunct ",") = true) :
    s.headIs (·.isPunct ")") = false := by
  cases s with
  | done => rfl
  | item g t s => exact isPunct_of_isPunct (show t.isPunct "," = true from h) (by decide)

/-- After two words, no parenthesis follows the name of a table. -/
theorem not_open_of_spells {k k' : String} {ks : List String} {name : String} {q : Stream}
    {fault : Fault} {u : Unit} (hs : s.Spells (k :: k' :: ks))
    (hname : tableName s = .ok (name, q)) : expectPunct "(" fault q ≠ .ok (u, r) := by
  intro hopen
  obtain ⟨g, t, ht, rfl⟩ := expectPunct_eq_ok hopen
  obtain ⟨first, s₁, hfirst, h₁⟩ := bind_eq_ok hname
  obtain rfl := takesOne_expectName _ _ _ _ hfirst
  obtain ⟨g₁, t₁, g₂, t₂, rest, rfl, hword⟩ : ∃ g₁ t₁ g₂ t₂ rest,
      s = .item g₁ t₁ (.item g₂ t₂ rest) ∧ t₂.kind = .word :=
    match s, hs with
    | .item _ _ (.item _ _ _), ⟨_, hword, _⟩ => ⟨_, _, _, _, _, rfl, congrArg Prod.fst hword⟩
  have hmark (mark : String) : t₂.isPunct mark = false := by
    simp [Token.isPunct, hword]
  obtain ⟨b, s₂, hdot, h₂⟩ := bind_eq_ok h₁
  obtain ⟨-, g₃, t₃, ht₃, heq⟩ | ⟨rfl, rfl, -⟩ := punct?_eq_ok hdot
  · cases heq
    exact absurd ht₃ (by simp [hmark])
  · cases h₂
    exact absurd ht (by simp [hmark])

/-- The columns of a table stand behind its name. -/
theorem exists_columns_of_tableBody {x : Bool × String × List Column × List TableOption}
    (h : tableBody s = .ok (x, r)) : ∃ s₁ s₂ s₃ s₄ name, ifNotExists s = .ok (x.1, s₁) ∧
      tableName s₁ = .ok (name, s₂) ∧ expectPunct "(" .openingParenthesis s₂ = .ok ((), s₃) ∧
      columns s₃ = .ok (x.2.2.1, s₄) := by
  obtain ⟨b, s₁, hif, h₁⟩ := bind_eq_ok h
  obtain ⟨name, s₂, hname, h₂⟩ := bind_eq_ok h₁
  obtain ⟨u, s₃, hopen, h₃⟩ := bind_eq_ok h₂
  obtain ⟨cs, s₄, hcolumns, h₄⟩ := bind_eq_ok h₃
  obtain ⟨os, s₅, -, h₅⟩ := bind_eq_ok h₄
  cases h₅
  exact ⟨s₁, s₂, s₃, s₄, name, hif, hname, hopen, hcolumns⟩

theorem ifNotExists_eq_ok {b : Bool} (h : ifNotExists s = .ok (b, r)) :
    s.afterPhrase? ["IF", "NOT", "EXISTS"] = some r ∨
      r = s ∧ s.afterPhrase? ["IF", "NOT", "EXISTS"] = none := by
  have h : (do if ← phrase? ["IF", "NOT", "EXISTS"] then return true else return false) s =
      .ok (b, r) := phrase?_concat (phrase?_concat h)
  obtain ⟨b, s₁, hb, h₁⟩ := bind_eq_ok h
  obtain ⟨rfl, hif⟩ | ⟨rfl, rfl, hif⟩ := phrase?_eq_ok hb <;> cases h₁
  · exact .inl hif
  · exact .inr ⟨rfl, hif⟩

theorem exists_tableBody {ts : List Token} {T : CreateTable}
    (h : Statement.ofTokens ts = .ok [.createTable T]) :
    ∃ s x r, (ofTokens 0 ts).afterPhrase? ["CREATE", "TABLE"] = some s ∧
      tableBody s = .ok (x, r) ∧ T.columns = x.2.2.1 := by
  cases ofTokens_eq_ok_iff.1 h with
  | @cons _ _ w us vs t _ _ hw ht hm hst hrest =>
    subst hm
    rw [List.cons_append, ← statement_skip 0 hw ht, statement_eq] at hst
    split at hst
    · cases hst
    · next s hs =>
      split at hst
      · cases hst
      · next x r hx =>
        have htable : tableOf _ x = .createTable T := congrArg Prod.fst (Except.ok.inj hst)
        cases htable
        exact ⟨s, x, r, hs, hx, rfl⟩

section

variable (hR : ∀ t t', R t t' → t.meaning = t'.meaning)
include hR

/-- Where one table has a column or a comma, the other one does not close its parentheses. -/
theorem ColumnList.forall₂ {ρ : Column → Column → Prop} (hρ : SideBySide R ρ)
    (h : ColumnList s cs) (h' : ColumnList s' cs') (hs : Pairwise R s s') :
    List.Forall₂ ρ cs cs' := by
  have head {s s' : Stream} (hs : Pairwise R s s') (mark : String) :
      s.headIs (·.isPunct mark) = s'.headIs (·.isPunct mark) :=
    hs.headIs_eq fun t t' ht => isPunct_eq_of_meaning (hR t t' ht) mark
  have ends {s : Stream} := @headIs_endsColumn_iff s
  -- Along the first table. Whether a list goes on is told by its next token, and that is alike in
  -- both.
  induction h generalizing s' cs' with
  | nil hclose =>
    cases h' with
    | nil => exact .nil
    | last hc' | next hc' =>
      rw [head hs, headIs_of_column? hc'] at hclose
      cases hclose
  | last hc hclose =>
    cases h' with
    | nil hclose' =>
      rw [← head hs, headIs_of_column? hc] at hclose'
      cases hclose'
    | last hc' hclose' =>
      exact .cons (hρ _ _ _ _ _ _ hs hc hc' (ends.2 (.inr hclose)) (ends.2 (.inr hclose'))) .nil
    | next hc' hcomma' =>
      have hr := pairwise_of_column? hR hs hc hc' (ends.2 (.inr hclose)) (ends.2 (.inl hcomma'))
      rw [head hr, not_close_of_comma hcomma'] at hclose
      cases hclose
  | next hc hcomma hcs ih =>
    cases h' with
    | nil hclose' =>
      rw [← head hs, headIs_of_column? hc] at hclose'
      cases hclose'
    | last hc' hclose' =>
      have hr := pairwise_of_column? hR hs hc hc' (ends.2 (.inl hcomma)) (ends.2 (.inr hclose'))
      rw [← head hr, not_close_of_comma hcomma] at hclose'
      cases hclose'
    | next hc' hcomma' hcs' =>
      have hr := pairwise_of_column? hR hs hc hc' (ends.2 (.inl hcomma)) (ends.2 (.inl hcomma'))
      exact .cons (hρ _ _ _ _ _ _ hs hc hc' (ends.2 (.inl hcomma)) (ends.2 (.inl hcomma')))
        (ih hcs' (hr.tail 1))

theorem inStep_tableName :
    InStep R (fun _ => False) (fun _ _ => True) tableName tableName := by
  refine (takesOne_expectName _).inStep.bind_exact fun _ _ _ => (inStep_punct? hR _).bind_exact ?_
  rintro dot _ rfl
  cases dot
  · exact .pure trivial
  · exact (takesOne_expectName _).inStep.bind_exact fun _ _ _ => .pure trivial

/-- The columns of two tables begin at the same place, whatever stands before them. -/
theorem pairwise_columns {x x' : Bool × String × List Column × List TableOption}
    (hs : Pairwise R s s') (h : tableBody s = .ok (x, r)) (h' : tableBody s' = .ok (x', r')) :
    ∃ q q', Pairwise R q q' ∧ ColumnList q x.2.2.1 ∧ ColumnList q' x'.2.2.1 := by
  obtain ⟨s₁, s₂, s₃, s₄, name, hif, hname, hopen, hcolumns⟩ := exists_columns_of_tableBody h
  obtain ⟨s₁', s₂', s₃', s₄', name', hif', hname', hopen', hcolumns'⟩ :=
    exists_columns_of_tableBody h'
  have hspells := spells_iff hR hs ["IF", "NOT", "EXISTS"]
  -- Where only one of the readings finds `IF NOT EXISTS`, the other one takes `IF` for the name.
  have hs₁ : Pairwise R s₁ s₁' := by
    obtain hread | ⟨rfl, hnone⟩ := ifNotExists_eq_ok hif <;>
      obtain hread' | ⟨rfl, hnone'⟩ := ifNotExists_eq_ok hif'
    · rw [eq_tail_of_afterPhrase? hread, eq_tail_of_afterPhrase? hread']
      exact hs.tail _
    · exact absurd hopen' (not_open_of_spells (hspells.1 (spells_of_afterPhrase? hread)) hname')
    · exact absurd hopen (not_open_of_spells (hspells.2 (spells_of_afterPhrase? hread')) hname)
    · exact hs
  have hs₂ := ((inStep_tableName hR).exact hs₁ hname hname').2
  rw [takesOne_expectPunct _ _ _ _ _ hopen] at hcolumns
  rw [takesOne_expectPunct _ _ _ _ _ hopen'] at hcolumns'
  exact ⟨_, _, hs₂.tail 1, columnList_of_columns hcolumns, columnList_of_columns hcolumns'⟩

end

end Parser

namespace Statement

open SchemaAlign.Parser
open SchemaAlign.Parser.Stream (Pairwise ofTokens)

variable {ts ts' : List Token} {T T' : CreateTable}

/-- What holds of columns that are read side by side holds of all columns of two tables. -/
theorem forall₂_columns {R : Token → Token → Prop} {ρ : Column → Column → Prop}
    (hR : ∀ t t', R t t' → t.meaning = t'.meaning) (hρ : SideBySide R ρ)
    (hts : List.Forall₂ R (ts.filter Token.isSignificant) (ts'.filter Token.isSignificant))
    (h : Statement.ofTokens ts = .ok [.createTable T])
    (h' : Statement.ofTokens ts' = .ok [.createTable T']) :
    List.Forall₂ ρ T.columns T'.columns := by
  have hs : Pairwise R (Stream.ofTokens 0 ts) (Stream.ofTokens 0 ts') := by
    rw [pairwise_iff, significant_ofTokens, significant_ofTokens]
    exact hts
  obtain ⟨s, x, r, hcreate, hbody, hcolumns⟩ := exists_tableBody h
  obtain ⟨s', x', r', hcreate', hbody', hcolumns'⟩ := exists_tableBody h'
  have hafter : Pairwise R s s' := by
    rw [eq_tail_of_afterPhrase? hcreate, eq_tail_of_afterPhrase? hcreate']
    exact hs.tail _
  obtain ⟨q, q', hq, hlist, hlist'⟩ := pairwise_columns hR hafter hbody hbody'
  rw [hcolumns, hcolumns']
  exact hlist.forall₂ hR hρ hlist' hq

/-- Two definitions of tables that compare equal have as many columns, of the same names, and where
    all words that begin a constraint are written in ASCII, these have the same structure. -/
theorem forall₂_columns_of_sameMeaning (h : Statement.ofTokens ts = .ok [.createTable T])
    (h' : Statement.ofTokens ts' = .ok [.createTable T'])
    (hsame : Token.sameMeaning ts ts' = true) :
    List.Forall₂ (fun c c' => upper c.name = upper c'.name) T.columns T'.columns ∧
      ((∀ t ∈ ts, t.IsPlain) → (∀ t ∈ ts', t.IsPlain) →
        List.Forall₂ Column.SameStructure T.columns T'.columns) := by
  have hts : List.Forall₂ (fun t t' => t.meaning = t'.meaning) (ts.filter Token.isSignificant)
      (ts'.filter Token.isSignificant) := by
    rw [← List.forall₂_map_right_iff, ← List.forall₂_map_left_iff, List.forall₂_eq_eq_eq]
    exact Token.sameMeaning_iff.1 hsame
  constructor
  case left => exact forall₂_columns (fun _ _ => id) (sideBySide_name fun _ _ => id) hts h h'
  case right =>
    intro hplain hplain'
    have hleft := (List.forall₂_and_left _ _).2
      ⟨fun t ht => hplain t (List.mem_of_mem_filter ht), hts⟩
    have hboth := (List.forall₂_and_left _ _).2
      ⟨fun t ht => hplain' t (List.mem_of_mem_filter ht), hleft.flip⟩
    exact forall₂_columns (fun _ _ ht => ht.2.2)
      (sideBySide_structure (fun _ _ ht => ht.2.2) fun _ _ ht => ht.2.1.isOneOf_eq ht.1 ht.2.2)
      hboth.flip h h'

/-- A table written in two ways. -/
theorem forall₂_columns_of_sameMeaning_case :
    let ts := Token.tokenize "CREATE TABLE t (a INT NOT NULL)"
    let ts' := Token.tokenize "create table T(A int--\nnot null)"
    ∃ T T' : CreateTable, Statement.ofTokens ts = .ok [.createTable T] ∧
      Statement.ofTokens ts' = .ok [.createTable T'] ∧ Token.sameMeaning ts ts' = true ∧
      List.Forall₂ (fun c c' => upper c.name = upper c'.name) T.columns T'.columns ∧
      List.Forall₂ Column.SameStructure T.columns T'.columns := by
  intro ts ts'
  let T : CreateTable :=
    { name := "t", ifNotExists := false, options := [], span := ⟨0, 15⟩
      columns :=
        [{ name := "a", span := ⟨7, 14⟩
           type := some { name := "INT", first := none, second := none, span := ⟨9, 10⟩ }
           constraints := [{ name := none, rule := .notNull none, span := ⟨11, 14⟩ }] }] }
  let T' : CreateTable :=
    { name := "T", ifNotExists := false, options := [], span := ⟨0, 14⟩
      columns :=
        [{ name := "A", span := ⟨6, 13⟩
           type := some { name := "INT", first := none, second := none, span := ⟨8, 9⟩ }
           constraints := [{ name := none, rule := .notNull none, span := ⟨10, 13⟩ }] }] }
  have h : Statement.ofTokens ts = .ok [.createTable T] := by decide +kernel
  have h' : Statement.ofTokens ts' = .ok [.createTable T'] := by decide +kernel
  have hsame : Token.sameMeaning ts ts' = true := by decide +kernel
  obtain ⟨hnames, hstructure⟩ := forall₂_columns_of_sameMeaning h h' hsame
  exact ⟨T, T', h, h', hsame, hnames, hstructure (by decide +kernel) (by decide +kernel)⟩

/-- A dotless `ı` becomes the `I` of `PRIMARY` in upper case, but it is no letter of ASCII: the word
    is part of the type, and the column has no primary key. -/
theorem exists_sameMeaning_not_sameStructure :
    ∃ T T' : CreateTable,
      Statement.ofTokens (Token.tokenize "CREATE TABLE t (a INT PRIMARY KEY)") =
        .ok [.createTable T] ∧
      Statement.ofTokens (Token.tokenize "CREATE TABLE t (a INT prımary KEY)") =
        .ok [.createTable T'] ∧
      Token.sameMeaning (Token.tokenize "CREATE TABLE t (a INT PRIMARY KEY)")
        (Token.tokenize "CREATE TABLE t (a INT prımary KEY)") = true ∧
      T.columns.map (·.constraints.map (·.rule.kind)) = [[.primaryKey]] ∧
      T'.columns.map (·.constraints.map (·.rule.kind)) = [[]] :=
  ⟨{ name := "t", ifNotExists := false, options := [], span := ⟨0, 15⟩
     columns :=
       [{ name := "a", span := ⟨7, 14⟩
          type := some { name := "INT", first := none, second := none, span := ⟨9, 10⟩ }
          constraints :=
            [{ name := none, rule := .primaryKey none none false, span := ⟨11, 14⟩ }] }] },
   { name := "t", ifNotExists := false, options := [], span := ⟨0, 15⟩
     columns :=
       [{ name := "a", span := ⟨7, 14⟩
          type := some { name := "INT PRıMARY KEY", first := none, second := none, span := ⟨9, 14⟩ }
          constraints := [] }] },
   by decide +kernel, by decide +kernel, by decide +kernel, rfl, rfl⟩

end Statement

end SchemaAlign
