import SchemaAlign.Proofs.Parser.Forward

/-!
# Stretches of a stream

What a rule reads is a stretch of the stream: it begins at the first token that the rule reads and
ends just past the last one, and those of its parts lie in it, one after the other.

* `Stretch`: what is read from one stream to another, and its span;
* `Row`: stretches in a row;
* `row_of_rounds`: a repetition reads a row;
* `stretch_of_column?`, `rows_of_tableBody`: the parts of a column and of a table.
-/

namespace SchemaAlign

/-- Where the parts of a column stand: its type, if it has one, and its constraints. -/
def Column.parts (c : Column) : List Span :=
  c.type.toList.map (·.span) ++ c.constraints.map (·.span)

/-- Where the parts of a table stand: its columns and its options. -/
def CreateTable.parts (t : CreateTable) : List Span :=
  t.columns.map (·.span) ++ t.options.map (·.span)

namespace Parser

open SchemaAlign.Parser.Stream (Rest)

variable {α β : Type} {s s' q r : Stream}

/-! ## Rows -/

/-- `a` was read from `s`, at least one token of it, and `r` is left. -/
structure Stretch (span : α → Span) (s : Stream) (a : α) (r : Stream) : Prop where
  rest : Rest s r
  lt : r.size < s.size
  span : span a = ⟨s.gap.stop, r.gap.start⟩

/-- Between `s` and `r` the values stand one after the other, each a stretch of the kind `P`. -/
inductive Row (P : Stream → α → Stream → Prop) : Stream → List α → Stream → Prop
  | nil {s r : Stream} : Rest s r → Row P s [] r
  | cons {s s' q r : Stream} {a : α} {as : List α} : Rest s s' → P s' a q → Row P q as r →
      Row P s (a :: as) r

namespace Row

variable {P : Stream → α → Stream → Prop} {Q : Stream → β → Stream → Prop} {a : α}
  {as bs : List α}

theorem singleton (h : P s a r) : Row P s [a] r :=
  .cons .refl h (.nil .refl)

theorem of_rest (h : Rest s s') (hrow : Row P s' as r) : Row P s as r := by
  cases hrow with
  | nil h' => exact .nil (h.trans h')
  | cons h' hp hrow => exact .cons (h.trans h') hp hrow

theorem append (h : Row P s as q) (h' : Row P q bs r) : Row P s (as ++ bs) r := by
  induction h with
  | nil hrest => exact h'.of_rest hrest
  | cons hrest hp _ ih => exact .cons hrest hp (ih h')

theorem rest (hP : ∀ s a r, P s a r → Rest s r) (h : Row P s as r) : Rest s r := by
  induction h with
  | nil hrest => exact hrest
  | cons hrest hp _ ih => exact (hrest.trans (hP _ _ _ hp)).trans ih

theorem map {f : α → β} (hf : ∀ s a r, P s a r → Q s (f a) r) (h : Row P s as r) :
    Row Q s (as.map f) r := by
  induction h with
  | nil hrest => exact .nil hrest
  | cons hrest hp _ ih => exact .cons hrest (hf _ _ _ hp) ih

/-- The spans of stretches in a row. -/
theorem spans {span : α → Span} (hP : ∀ s a r, P s a r → Stretch span s a r) (h : Row P s as r) :
    Row (Stretch id) s (as.map span) r :=
  h.map fun s a r hp => ⟨(hP s a r hp).rest, (hP s a r hp).lt, (hP s a r hp).span⟩

theorem exists_stretch (hP : ∀ s a r, P s a r → Rest s r) (h : Row P s as r) (ha : a ∈ as) :
    ∃ s' q, Rest s s' ∧ P s' a q := by
  induction h with
  | nil => cases ha
  | @cons s s' q r b as hrest hp _ ih =>
    obtain rfl | ha := List.mem_cons.1 ha
    · exact ⟨s', q, hrest, hp⟩
    · obtain ⟨s'', q', hrest', hp'⟩ := ih ha
      exact ⟨s'', q', (hrest.trans (hP _ _ _ hp)).trans hrest', hp'⟩

end Row

/-! ## Repetitions -/

variable {P : Stream → α → Stream → Prop} {as : List α}

/-- Each round reads a value and perhaps something behind it. -/
theorem row_of_rounds {p : Parser (Round α)} (hp : Forward p)
    (hP : ∀ s a r, p s = .ok (.next a, r) ∨ p s = .ok (.last a, r) → ∃ q, P s a q ∧ Rest q r)
    (h : rounds p s = .ok (as, r)) : Row P s as r := by
  fun_induction rounds p s generalizing as with
  | case1 => cases h
  | case2 s rest hs =>
    cases h
    exact .nil (hp _ _ _ hs)
  | case3 s a rest hs =>
    cases h
    obtain ⟨q, ha, hrest⟩ := hP _ _ _ (.inr hs)
    exact .cons .refl ha (.nil hrest)
  | case4 => cases h
  | case5 s a rest hs hlt as rest' hr ih =>
    cases h
    obtain ⟨q, ha, hrest⟩ := hP _ _ _ (.inl hs)
    exact .cons .refl ha ((ih hr).of_rest hrest)
  | case6 s a rest hs hlt =>
    cases h
    obtain ⟨q, ha, hrest⟩ := hP _ _ _ (.inl hs)
    exact .cons .refl ha (.nil hrest)

theorem row_of_many {p : Parser (Option α)} (hp : Forward p)
    (hP : ∀ s a r, p s = .ok (some a, r) → ∃ q, P s a q ∧ Rest q r)
    (h : many p s = .ok (as, r)) : Row P s as r := by
  refine row_of_rounds (hp.bind_option .pure fun _ => .pure) (fun s a r h => ?_) h
  obtain h | h := h <;> obtain ⟨_ | a, _, hs, h⟩ := bind_eq_ok h <;> cases h
  exact hP _ _ _ hs

/-! ## Columns -/

/-- A constraint is a name, if there is one, and a rule. -/
theorem constraint?_eq_ok {c : Constraint} (h : constraint? s = .ok (some c, r)) :
    ∃ s₁, constraintName? s = .ok (c.name, s₁) ∧ rule? s₁ = .ok (some c.rule, r) ∧
      c.span = ⟨s.gap.stop, r.gap.start⟩ := by
  obtain ⟨⟨⟨name, rule⟩, span⟩, s₁, hspanned, h₁⟩ := bind_eq_ok h
  obtain ⟨hparts, hspan⟩ := spanned_eq_ok hspanned
  obtain ⟨name', s₂, hname, h₂⟩ := bind_eq_ok hparts
  obtain ⟨rule', s₃, hrule, h₃⟩ := bind_eq_ok h₂
  split at h₃
  · cases h₃
  · cases h₃
    cases rule <;> cases h₁
    exact ⟨s₂, hname, hrule, hspan⟩

theorem stretch_of_constraint? {c : Constraint} (h : constraint? s = .ok (some c, r)) :
    Stretch Constraint.span s c r := by
  obtain ⟨s₁, hname, hrule, hspan⟩ := constraint?_eq_ok h
  -- The rule has a token of its own, whether a name stands before it or not.
  have hlt := (finding_rule? _ _ _ hrule).2 rfl
  exact ⟨forward_constraint? _ _ _ h,
    Nat.lt_of_lt_of_le hlt (forward_constraintName? _ _ _ hname).size_le, hspan⟩

theorem size_cutWhile (p : Token → Bool) (s : Stream) :
    (s.cutWhile p).2.size + (s.cutWhile p).1.length = s.size := by
  induction s with
  | done => rfl
  | item g t rest ih =>
    simp only [Stream.cutWhile]
    split
    · rw [List.length_cons, ← Nat.add_assoc, ih, Stream.size]
    · rfl

theorem stretch_of_typeName? {ty : TypeName} (h : typeName? s = .ok (some ty, r)) :
    Stretch TypeName.span s ty r := by
  have hrest := forward_typeName? _ _ _ h
  obtain ⟨⟨⟨words, first, second⟩, span⟩, s₁, hspanned, h₁⟩ := bind_eq_ok h
  obtain ⟨hparts, hspan⟩ := spanned_eq_ok hspanned
  obtain ⟨words', s₂, hwords, h₂⟩ := bind_eq_ok hparts
  cases hwords
  have hsize := size_cutWhile (fun t => t.kind == .word && !isOneOf columnConstraintKeywords t) s
  split at h₂
  · cases h₂
    cases h₁
  · next hne =>
    obtain ⟨args, s₃, hargs, h₃⟩ := bind_eq_ok h₂
    cases h₃
    dsimp only at h₁
    rw [if_neg hne] at h₁
    cases h₁
    refine ⟨hrest, ?_, hspan⟩
    have hle := (forward_typeArguments _ _ _ hargs).size_le
    rw [List.isEmpty_iff_length_eq_zero, List.length_map] at hne
    omega

theorem size_of_name? {name : String} (h : name? s = .ok (some name, r)) : r.size < s.size := by
  cases s with
  | done => cases h
  | item g t rest =>
    simp only [name?] at h
    split at h <;> cases h
    exact Nat.lt_succ_self _

/-- A column, and the parts of it in a row: the type, if there is one, and the constraints. -/
structure ColumnStretch (s : Stream) (c : Column) (r : Stream) : Prop extends
    Stretch Column.span s c r where
  parts : Row (Stretch id) s c.parts r

theorem eq_of_name? (h : name? s = .ok (none, r)) : r = s := by
  cases s with
  | done => cases h; rfl
  | item g t rest =>
    simp only [name?] at h
    split at h <;> cases h
    rfl

/-- A column is a name, a type and constraints. Where there is no name, nothing is read. -/
theorem column?_eq_ok {o : Option Column} (h : column? s = .ok (o, r)) :
    (o = none ∧ r = s) ∨ ∃ c s₁ s₂, o = some c ∧ name? s = .ok (some c.name, s₁) ∧
      typeName? s₁ = .ok (c.type, s₂) ∧ many constraint? s₂ = .ok (c.constraints, r) ∧
      c.span = ⟨s.gap.stop, r.gap.start⟩ := by
  obtain ⟨b, s₀, hnext, h₀⟩ := bind_eq_ok h
  cases hnext
  split at h₀
  · cases h₀
    exact .inl ⟨rfl, rfl⟩
  obtain ⟨⟨found, span⟩, s₁, hspanned, h₁⟩ := bind_eq_ok h₀
  obtain ⟨hparts, hspan⟩ := spanned_eq_ok hspanned
  obtain ⟨_ | name, s₂, hname, h₂⟩ := bind_eq_ok hparts
  · cases h₂
    cases h₁
    exact .inl ⟨rfl, eq_of_name? hname⟩
  obtain ⟨type, s₃, htype, h₃⟩ := bind_eq_ok h₂
  obtain ⟨constraints, s₄, hconstraints, h₄⟩ := bind_eq_ok h₃
  cases h₄
  cases h₁
  exact .inr ⟨_, s₂, s₃, rfl, hname, htype, hconstraints, hspan⟩

theorem stretch_of_column? {c : Column} (h : column? s = .ok (some c, r)) :
    ColumnStretch s c r := by
  have hrest := forward_column? _ _ _ h
  obtain ⟨⟨⟩, -⟩ | ⟨_, s₁, s₂, ⟨⟩, hname, htype, hconstraints, hspan⟩ := column?_eq_ok h
  have htypes : Row (Stretch id) s₁ (c.type.toList.map (·.span)) s₂ := by
    cases hc : c.type with
    | none => exact .nil (forward_typeName? _ _ _ htype)
    | some ty =>
      rw [hc] at htype
      exact (Row.singleton (stretch_of_typeName? htype)).spans fun _ _ _ h => h
  have hrow : Row (Stretch Constraint.span) s₂ c.constraints r :=
    row_of_many forward_constraint? (fun _ _ r h => ⟨r, stretch_of_constraint? h, .refl⟩)
      hconstraints
  have hafter := (forward_typeName? _ _ _ htype).trans
    (forward_constraint?.many _ _ _ hconstraints)
  refine ⟨⟨hrest, Nat.lt_of_le_of_lt hafter.size_le (size_of_name? hname), hspan⟩, ?_⟩
  exact (htypes.append (hrow.spans fun _ _ _ h => h)).of_rest (forward_name? _ _ _ hname)

/-! ## Tables -/

theorem row_of_columns {cs : List Column} (h : columns s = .ok (cs, r)) :
    Row (fun s c r => column? s = .ok (some c, r)) s cs r := by
  obtain ⟨cs', s₁, hrounds, h₁⟩ := bind_eq_ok h
  obtain ⟨⟨⟩, s₂, hclose, h₂⟩ := bind_eq_ok h₁
  cases h₂
  have hrow : Row (fun s c r => column? s = .ok (some c, r)) s cs s₁ := by
    refine row_of_rounds ?forward (fun s c r h => ?round) hrounds
    case forward =>
      refine forward_column?.bind_option .pure fun column => ?_
      exact (forward_punct? _).ite .pure .pure
    case round =>
      -- A comma behind the column belongs to the round, but not to the column.
      obtain h | h := h
      all_goals
        obtain ⟨_ | c', q, hc, h⟩ := bind_eq_ok h
        · cases h
        obtain ⟨b, q', hcomma, h⟩ := bind_eq_ok h
        cases b <;> cases h
        exact ⟨q, hc, forward_punct? _ _ _ _ hcomma⟩
  simpa using hrow.append (.nil (forward_expectPunct _ _ _ _ _ hclose))

theorem stretch_of_tableOption? {o : TableOption} (h : tableOption? s = .ok (some o, r)) :
    Stretch TableOption.span s o r := by
  obtain ⟨hrest, hlt⟩ := finding_tableOption? _ _ _ h
  obtain ⟨⟨kind, span⟩, s₁, hspanned, h₁⟩ := bind_eq_ok h
  obtain ⟨-, hspan⟩ := spanned_eq_ok hspanned
  cases kind <;> cases h₁
  exact ⟨hrest, hlt rfl, hspan⟩

theorem row_of_tableOptions {os : List TableOption} (h : tableOptions s = .ok (os, r)) :
    Row (Stretch TableOption.span) s os r := by
  refine row_of_many forward_nextOption? (fun s o r h => ?_) h
  obtain ⟨b, s₁, hend, h₁⟩ := bind_eq_ok h
  cases hend
  split at h₁
  · cases h₁
  obtain ⟨b, s₂, hnext, h₂⟩ := bind_eq_ok h₁
  cases hnext
  split at h₂
  · cases h₂
  obtain ⟨o', s₃, ho, h₃⟩ := bind_eq_ok h₂
  cases h₃
  obtain ⟨_ | o', q, ho, h₄⟩ := bind_eq_ok ho
  · cases h₄
  obtain ⟨b, s₅, hcomma, h₅⟩ := bind_eq_ok h₄
  cases h₅
  exact ⟨q, stretch_of_tableOption? ho, forward_punct? _ _ _ _ hcomma⟩

/-- The columns of a table and its options, all in a row. -/
theorem rows_of_tableBody {x : Bool × String × List Column × List TableOption}
    (h : tableBody s = .ok (x, r)) :
    ∃ q, Row (fun s c r => column? s = .ok (some c, r)) s x.2.2.1 q ∧
      Row (Stretch TableOption.span) q x.2.2.2 r := by
  obtain ⟨ifNotExists, s₁, hif, h₁⟩ := bind_eq_ok h
  obtain ⟨name, s₂, hname, h₂⟩ := bind_eq_ok h₁
  obtain ⟨⟨⟩, s₃, hopen, h₃⟩ := bind_eq_ok h₂
  obtain ⟨cs, s₄, hcolumns, h₄⟩ := bind_eq_ok h₃
  obtain ⟨os, s₅, hoptions, h₅⟩ := bind_eq_ok h₄
  cases h₅
  have hbefore := ((forward_ifNotExists _ _ _ hif).trans (forward_tableName _ _ _ hname)).trans
    (forward_expectPunct _ _ _ _ _ hopen)
  exact ⟨s₄, (row_of_columns hcolumns).of_rest hbefore, row_of_tableOptions hoptions⟩

end Parser

end SchemaAlign
