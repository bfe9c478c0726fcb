import SchemaAlign.Proofs.Parser.Wording.Columns
import SchemaAlign.Proofs.Text.Case

/-!
# Slips show

A sentence of the grammar with all slips needs those slips, and no others, that show in its tokens.

* `mem_options_iff`: the options of a table;
* `shows_iff`: what shows in a statement is what shows in its columns and its options;
* `mem_createTable_iff`: the statement.
-/

namespace SchemaAlign.Wording

open SchemaAlign.Parser (eq_of_isPunct isOneOf)
open scoped Computability

variable {D : Set Slip} {d : Int} {p q : Token → Bool} {k m : String} {ks : List String} {t : Token}
  {w : List Token} {es : List (List Token)}

/-! ## Options -/

/-- Options without a comma between them, or with one behind the last of them. -/
def Loose (w : List Token) : Prop :=
  Beside 0 (isOneOf ["ROWID", "STRICT"]) (isOneOf ["WITHOUT", "STRICT"]) w ∨
    w.getLast? = some ⟨.punctuation, ","⟩

theorem atomic_option : Over IsAtomic option :=
  (atomic_keywords _).add (atomic_keyword _)

theorem isOneOf_of_isKeyword {b : Bool} (h : t.isKeyword k = true)
    (hk : ks.any (Text.eqIgnoreAsciiCase k) = b) : isOneOf ks t = b := by
  obtain ⟨hkind, htext⟩ := Bool.and_eq_true_iff.1 h
  rw [← hk, isOneOf]
  congr 1
  funext l
  rw [Token.isKeyword, hkind, Bool.true_and]
  exact Text.eqIgnoreAsciiCase_congr htext l

/-- An option ends like one, begins like one, and is one only. -/
theorem ends_of_option (h : w ∈ option) :
    (∃ us t, w = us ++ [t] ∧ isOneOf ["ROWID", "STRICT"] t = true) ∧
    (∃ t us, w = t :: us ∧ isOneOf ["WITHOUT", "STRICT"] t = true) ∧
    ¬ Beside 0 (isOneOf ["ROWID", "STRICT"]) (isOneOf ["WITHOUT", "STRICT"]) w := by
  obtain ⟨_, ⟨t, ht, rfl⟩, _, ⟨_, ⟨u, hu, rfl⟩, _, rfl, rfl⟩, rfl⟩ | ⟨t, ht, rfl⟩ := h
  · refine ⟨⟨[t], u, rfl, isOneOf_of_isKeyword hu (by decide)⟩,
      ⟨t, [u], rfl, isOneOf_of_isKeyword ht (by decide)⟩, fun hbeside => ?_⟩
    have hfirst : isOneOf ["ROWID", "STRICT"] t = false := isOneOf_of_isKeyword ht (by decide)
    rcases (beside_append ((atomic_keyword _).depth_eq ⟨t, ht, rfl⟩)).1 hbeside with
      hbeside | hbeside | ⟨-, hp, -⟩
    · exact not_beside_singleton hbeside
    · exact not_beside_singleton hbeside
    · exact Bool.false_ne_true (hfirst.symm.trans hp)
  · exact ⟨⟨[], t, rfl, isOneOf_of_isKeyword ht (by decide)⟩,
      ⟨t, [], rfl, isOneOf_of_isKeyword ht (by decide)⟩, not_beside_singleton⟩

/-- Between an option and the next one stands a comma. -/
theorem not_beside_commas (h : ∀ e ∈ es, e ∈ option) :
    ¬ Beside 0 (isOneOf ["ROWID", "STRICT"]) (isOneOf ["WITHOUT", "STRICT"]) (commas es) := by
  induction es with
  | nil => exact not_beside_nil
  | cons e es ih =>
    obtain ⟨he, hes⟩ := List.forall_mem_cons.1 h
    obtain ⟨-, -, hbeside⟩ := ends_of_option he
    by_cases hnil : es = []
    · rwa [hnil, commas_singleton]
    · rw [commas_cons hnil, beside_append (atomic_option.depth_eq he), beside_append depth_comma]
      rintro (h | (h | h | ⟨-, h, -⟩) | ⟨-, -, h⟩)
      · exact hbeside h
      · exact not_beside_singleton h
      · exact ih hes h
      · cases h
      · cases h

theorem not_loose (h : w ∈ maybe (separated option)) : ¬ Loose w := by
  rcases h with rfl | h
  · rintro (h | h)
    · exact not_beside_nil h
    · cases h
  obtain ⟨es, hne, hes, rfl⟩ := mem_separated_iff.1 h
  have hparts (e : List Token) (he : e ∈ es) : Balanced false e ∧ e ≠ [] := by
    refine ⟨balanced_of_isAtomic (atomic_option e (hes e he)), ?_⟩
    rintro rfl
    obtain ⟨-, ⟨t, us, hnil, -⟩, -⟩ := ends_of_option (hes [] he)
    cases hnil
  rintro (h | h)
  · exact not_beside_commas hes h
  · have hlast := (getLast?_commas hne hparts).1
    rw [h] at hlast
    cases hlast

/-- Options one after the other have commas between them, or it shows that they have not. -/
theorem loose_of_options (h : w ∈ (option * maybe (mark ","))∗) :
    w ∈ maybe (separated option) ∨ Loose w := by
  obtain ⟨ws, rfl, hws⟩ := h
  induction ws with
  | nil => exact .inl (.inl rfl)
  | cons w ws ih =>
    obtain ⟨⟨v, hv, m, hm, rfl⟩, hrest⟩ := List.forall_mem_cons.1 hws
    have hdepth : depth (v ++ m) = 0 := by
      rw [depth_append, atomic_option.depth_eq hv]
      rcases hm with rfl | rfl <;> rfl
    rw [List.flatten_cons]
    obtain (hnil | hlist) | hbeside | hlast := ih hrest
    · -- The last option
      rw [hnil, List.append_nil]
      obtain rfl | rfl := hm
      · exact .inl (.inr ⟨v, hv, [], Language.nil_mem_kstar _, rfl⟩)
      · exact .inr (.inr List.getLast?_concat)
    · -- An option before others
      obtain rfl | rfl := hm
      · obtain ⟨⟨us, t, rfl, ht⟩, -⟩ := ends_of_option hv
        obtain ⟨u', hfirst, vs, -, heq⟩ := hlist
        obtain ⟨-, ⟨u, us', rfl, hu⟩, -⟩ := ends_of_option hfirst
        refine .inr (.inl ((beside_append hdepth).2 (.inr (.inr ⟨rfl, ?_, ?_⟩))))
        · rw [List.append_nil, List.getLast?_concat]
          exact ht
        · rw [← heq]
          exact hu
      · refine .inl (.inr (mul_mark_separated_le _ ?_))
        rw [List.append_assoc]
        exact Language.append_mem_mul hv (Language.append_mem_mul rfl hlist)
    · exact .inr (.inl ((beside_append hdepth).2 (.inr (.inl hbeside))))
    · exact .inr (.inr (by rw [List.getLast?_append, hlast]; rfl))

theorem mem_options_iff : w ∈ options D ↔
    w ∈ options .univ ∧ (Loose w → Slip.looseOptions ∈ D) := by
  constructor
  · rintro (hw | ⟨hD, hw⟩)
    · exact ⟨.inl hw, fun h => absurd h (not_loose hw)⟩
    · exact ⟨.inr ⟨trivial, hw⟩, fun _ => hD⟩
  · rintro ⟨hw | ⟨-, hw⟩, hloose⟩
    · exact .inl hw
    · exact (loose_of_options hw).imp id fun h => ⟨hloose h, hw⟩

/-! ## The statement -/

/-- The statement up to its columns. -/
def opening : Language Token :=
  keywords ["CREATE", "TABLE"] * maybe (keywords ["IF", "NOT", "EXISTS"]) * tableName

theorem mem_createTable_iff_parts : w ∈ createTable D ↔ ∃ h ∈ opening, ∃ b ∈ columns D,
    ∃ o ∈ options D, ∃ m ∈ maybe (mark ";"), w = h ++ (group b ++ (o ++ m)) := by
  constructor
  · rintro ⟨_, ⟨h, hh, c, hc, rfl⟩, _, ⟨o, ho, m, hm, rfl⟩, rfl⟩
    obtain ⟨b, hb, rfl⟩ := mem_columnList_iff.1 hc
    exact ⟨h, hh, b, hb, o, ho, m, hm, List.append_assoc ..⟩
  · rintro ⟨h, hh, b, hb, o, ho, m, hm, rfl⟩
    rw [← List.append_assoc]
    exact Language.append_mem_mul (Language.append_mem_mul hh (mem_columnList_iff.2 ⟨b, hb, rfl⟩))
      (Language.append_mem_mul ho hm)

theorem atomic_create :
    Over IsAtomic (keywords ["CREATE", "TABLE"] * maybe (keywords ["IF", "NOT", "EXISTS"])) :=
  (atomic_keywords _).mul (atomic_keywords _).maybe

theorem atomic_opening : Over IsAtomic opening := by
  have hdot : Over IsAtomic (mark ".") := over_mark (by decide)
  exact atomic_create.mul (atomic_name.mul (hdot.mul atomic_name).maybe)

/-- Before the columns no options stand side by side, as only a dot comes behind a name. -/
theorem not_beside_opening (h : w ∈ opening) :
    ¬ Beside 0 (isOneOf ["ROWID", "STRICT"]) (isOneOf ["WITHOUT", "STRICT"]) w := by
  have other (ks : List String)
      (hks : ∀ k ∈ ks, ["ROWID", "STRICT"].any (Text.eqIgnoreAsciiCase k) = false) :
      Over (fun t => isOneOf ["ROWID", "STRICT"] t = false) (keywords ks) :=
    over_keywords fun k hk t ht => isOneOf_of_isKeyword ht (hks k hk)
  have hcreate := (other ["CREATE", "TABLE"] (by decide)).mul
    (other ["IF", "NOT", "EXISTS"] (by decide)).maybe
  obtain ⟨a, ha, _, ⟨_, ⟨t, ht, rfl⟩, c, hc, rfl⟩, rfl⟩ := h
  have hfirst := not_beside_left (q := isOneOf ["WITHOUT", "STRICT"]) (d := 0) (hcreate a ha)
  rw [beside_append (atomic_create.depth_eq ha), any_getLast?_eq_false (hcreate a ha),
    beside_append (atomic_name.depth_eq ⟨t, ht, rfl⟩)]
  rcases hc with rfl | ⟨_, rfl, _, ⟨u, hu, rfl⟩, rfl⟩
  · simp [hfirst, not_beside_singleton, not_beside_nil]
  · have hdot : ¬ Beside 0 (isOneOf ["ROWID", "STRICT"]) (isOneOf ["WITHOUT", "STRICT"])
        ([⟨.punctuation, "."⟩] ++ [u]) := by
      rw [beside_append rfl]
      rintro (h | h | ⟨-, h, -⟩)
      · exact not_beside_singleton h
      · exact not_beside_singleton h
      · cases h
    rintro (h | (h | h | ⟨-, -, h⟩) | ⟨-, h, -⟩)
    · exact hfirst h
    · exact not_beside_singleton h
    · exact hdot h
    · cases h
    · cases h

/-- Places between parentheses are places in the list of columns. -/
theorem beside_inside {h b v : List Token} (hd : d ≠ 0) (hh : depth h = 0)
    (hh' : ¬ Beside d p q h) (hb : Balanced true b) (hv : ¬ Beside d p q v) :
    Beside d p q (h ++ (group b ++ v)) ↔ Beside d p q (group b) := by
  rw [beside_append hh, beside_append (balanced_group hb).depth_eq]
  simp [hd, hh', hv]

/-- Places outside of all parentheses are places behind the list of columns. -/
theorem beside_outside {h b v : List Token} (hh : depth h = 0) (hh' : ¬ Beside 0 p q h)
    (hb : Balanced true b) (hp : p ⟨.punctuation, ")"⟩ = false)
    (hq : q ⟨.punctuation, "("⟩ = false) :
    Beside 0 p q (h ++ (group b ++ v)) ↔ Beside 0 p q v := by
  have hgroup : ¬ Beside 0 p q (group b) := by
    rw [beside_group]
    rintro ⟨us, vs, rfl, hd, -⟩
    have hle := hb.cut.1
    omega
  have hopen : (group b ++ v).head?.any q = false := hq
  have hclose : (group b).getLast?.any p = false := by
    rw [group, List.getLast?_concat]
    exact hp
  rw [beside_append hh, beside_append (balanced_group hb).depth_eq]
  rw [hopen, hclose]
  simp [hh', hgroup]

/-- The token is no parenthesis and no semicolon. -/
def IsFlat (t : Token) : Prop :=
  t.isPunct "(" = false ∧ t.isPunct ")" = false ∧ t.isPunct ";" = false

instance : DecidablePred IsFlat :=
  fun _ => inferInstanceAs (Decidable (_ ∧ _))

theorem flat_options : Over IsFlat (options D) := by
  have hoption : Over IsFlat option := atomic_option.mono fun t ht =>
    ⟨ht "(" (by decide), ht ")" (by decide), ht ";" (by decide)⟩
  have hcomma : Over IsFlat (mark ",") := over_mark (by decide)
  exact (hoption.mul (hcomma.mul hoption).kstar).maybe.add fun w hw =>
    (hoption.mul hcomma.maybe).kstar w hw.2

theorem any_getLast?_iff :
    w.getLast?.any (·.isPunct m) = true ↔ w.getLast? = some ⟨.punctuation, m⟩ := by
  constructor
  · intro h
    cases hlast : w.getLast? with
    | none => rw [hlast] at h; cases h
    | some t =>
      rw [hlast] at h
      rw [eq_of_isPunct (show t.isPunct m = true from h)]
  · intro h
    rw [h]
    simp [Token.isPunct]

theorem trailingComma_iff {b : List Token} (hb : Balanced true b) :
    Beside 1 (·.isPunct ",") (·.isPunct ")") (group b) ↔
      b.getLast? = some ⟨.punctuation, ","⟩ := by
  rw [beside_group]
  constructor
  · rintro ⟨us, vs, rfl, hd, hp, hq⟩
    cases vs with
    | cons t vs => cases hq.symm.trans (hb.close_eq_false hd)
    | nil =>
      rw [List.append_nil]
      cases us with
      | nil => cases hp
      | cons t us => exact any_getLast?_iff.1 hp
  · intro hlast
    refine ⟨b, [], (List.append_nil b).symm, hb.depth_eq, ?_, rfl⟩
    obtain ⟨us, rfl⟩ := List.getLast?_eq_some_iff.1 hlast
    rw [← List.cons_append, List.getLast?_concat]
    rfl

theorem emptyExpression_iff {b : List Token} (hb : Balanced true b) :
    Beside 2 opensArgument closesArgument (group b) ↔ LacksArgument b := by
  rw [beside_group]
  constructor
  · rintro ⟨us, vs, rfl, hd, hp, hq⟩
    refine ⟨us, vs, rfl, hd, ?_, ?_⟩
    · cases us with
      | nil => cases hd
      | cons t us => exact hp
    · cases vs with
      | nil =>
        have hdepth := hb.depth_eq
        rw [List.append_nil] at hdepth
        omega
      | cons t vs => exact hq
  · rintro ⟨us, vs, rfl, hd, hp, hq⟩
    refine ⟨us, vs, rfl, hd, ?_, ?_⟩
    · cases us with
      | nil => cases hp
      | cons t us => exact hp
    · cases vs with
      | nil => cases hq
      | cons t vs => exact hq

theorem looseOptions_iff {h b o m : List Token} (hh : h ∈ opening) (hb : Balanced true b)
    (ho : o ∈ options .univ) (hm : m ∈ maybe (mark ";")) :
    Slip.Shows (h ++ (group b ++ (o ++ m))) .looseOptions ↔ Loose o := by
  have hdepth := atomic_opening.depth_eq hh
  have hflat := flat_options o ho
  have hodepth : depth o = 0 := depth_eq_zero fun t ht => ⟨(hflat t ht).1, (hflat t ht).2.1⟩
  have hcomma : ¬ Beside 0 (·.isPunct ",") (·.isPunct ";") h :=
    not_beside_left fun t ht => atomic_opening h hh t ht "," (by decide)
  have hend : ¬ Beside 0 (·.isPunct ",") (·.isPunct ";") o :=
    not_beside_right fun t ht => (hflat t ht).2.2
  have hclose : (h ++ group b).getLast? = some ⟨.punctuation, ")"⟩ := by
    rw [group, ← List.append_assoc, List.getLast?_concat]
  have hlast : (h ++ (group b ++ (o ++ m))).getLast? = some ⟨.punctuation, ","⟩ ↔
      (o ++ m).getLast? = some ⟨.punctuation, ","⟩ := by
    rw [← List.append_assoc, List.getLast?_append, hclose]
    cases (o ++ m).getLast? <;> simp
  rw [Slip.Shows, beside_outside hdepth (not_beside_opening hh) hb rfl rfl,
    beside_outside hdepth hcomma hb rfl rfl, beside_append hodepth, beside_append hodepth,
    any_getLast?_iff, hlast]
  rcases hm with rfl | rfl
  · simp [not_beside_nil, hend, Loose]
  · -- A comma before the semicolon was the last token of the options.
    have hpunct : Token.isPunct ⟨.punctuation, ";"⟩ ";" = true := rfl
    have hkeyword : isOneOf ["WITHOUT", "STRICT"] ⟨.punctuation, ";"⟩ = false := rfl
    simp [not_beside_singleton, hend, Loose, hpunct, hkeyword]

/-- What shows of each slip in a statement is what shows of it in its part. -/
theorem shows_iff {h b o m : List Token} (hh : h ∈ opening) (hb : Balanced true b)
    (ho : o ∈ options .univ) (hm : m ∈ maybe (mark ";")) (x : Slip) :
    x.Shows (h ++ (group b ++ (o ++ m))) ↔ match x with
      | .trailingComma => b.getLast? = some ⟨.punctuation, ","⟩
      | .emptyExpression => LacksArgument b
      | .looseOptions => Loose o := by
  have hrest : ∀ t ∈ o ++ m, t.isPunct "(" = false ∧ t.isPunct ")" = false := by
    intro t ht
    rcases List.mem_append.1 ht with ht | ht
    · obtain ⟨hopen, hclose, -⟩ := flat_options o ho t ht
      exact ⟨hopen, hclose⟩
    · rcases hm with rfl | rfl
      · cases ht
      · rw [List.mem_singleton.1 ht]
        decide
  have inside {d : Int} {p q : Token → Bool} (hd : d ≠ 0) :
      Beside d p q (h ++ (group b ++ (o ++ m))) ↔ Beside d p q (group b) :=
    beside_inside hd (atomic_opening.depth_eq hh) (not_beside_of_isAtomic hd (atomic_opening h hh))
      hb (not_beside hd hrest)
  cases x with
  | trailingComma => exact (inside (by decide)).trans (trailingComma_iff hb)
  | emptyExpression => exact (inside (by decide)).trans (emptyExpression_iff hb)
  | looseOptions => exact looseOptions_iff hh hb ho hm

/-- A sentence of the grammar with all slips needs exactly those slips that show in its tokens. -/
theorem mem_createTable_iff : w ∈ createTable D ↔
    w ∈ createTable .univ ∧ ∀ x : Slip, x.Shows w → x ∈ D := by
  rw [mem_createTable_iff_parts, mem_createTable_iff_parts]
  constructor
  · rintro ⟨h, hh, b, hb, o, ho, m, hm, rfl⟩
    obtain ⟨hb, hcomma, hlacks⟩ := mem_columns_iff.1 hb
    obtain ⟨ho, hloose⟩ := mem_options_iff.1 ho
    refine ⟨⟨h, hh, b, hb, o, ho, m, hm, rfl⟩, fun x hx => ?_⟩
    rw [shows_iff hh (balanced_columns hb) ho hm] at hx
    cases x with
    | trailingComma => exact hcomma hx
    | emptyExpression => exact hlacks hx
    | looseOptions => exact hloose hx
  · rintro ⟨⟨h, hh, b, hb, o, ho, m, hm, rfl⟩, hD⟩
    have hshows (x : Slip) := (shows_iff hh (balanced_columns hb) ho hm x).2
    have hb' := mem_columns_iff.2 ⟨hb, fun h => hD _ (hshows .trailingComma h),
      fun h => hD _ (hshows .emptyExpression h)⟩
    have ho' := mem_options_iff.2 ⟨ho, fun h => hD _ (hshows .looseOptions h)⟩
    exact ⟨h, hh, b, hb', o, ho', m, hm, rfl⟩

end SchemaAlign.Wording
