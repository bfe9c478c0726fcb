import SchemaAlign.Proofs.Parser.Wording.Places

/-!
# The slips of a list of columns

A list of columns that the grammar has with all slips needs those slips, and no others, that show in
its tokens: a comma at its end, and an argument that is left out.

* `Over`: a language of tokens that all satisfy a condition;
* `Exact`: the parts of a column, which need the slip of an empty expression exactly if an argument
  is left out, with one lemma for each way to put languages together;
* `exact_column`: a column;
* `mem_columns_iff`: the list.
-/

namespace SchemaAlign.Wording

open SchemaAlign.Parser (isExponent isOneOf isSign)
open scoped Computability

variable {L M : Language Token} {D : Set Slip} {d : Int} {nested : Bool} {p q : Token → Bool}
  {k m : String} {ks : List String} {t : Token} {w : List Token} {es : List (List Token)}

/-! ## Tokens by themselves -/

/-- The token puts nothing together: it is no parenthesis, no comma and no semicolon. -/
def IsAtomic (t : Token) : Prop :=
  ∀ m ∈ ["(", ")", ",", ";"], t.isPunct m = false

instance : DecidablePred IsAtomic :=
  fun _ => inferInstanceAs (Decidable (∀ _ ∈ _, _))

/-- All tokens of all words satisfy `P`. -/
def Over (P : Token → Prop) (L : Language Token) : Prop :=
  ∀ w ∈ L, ∀ t ∈ w, P t

theorem isAtomic_of_kind (h : t.kind ≠ .punctuation) : IsAtomic t := by
  intro m _
  rw [Token.isPunct, beq_false_of_ne h]
  rfl

theorem balanced_of_isAtomic (h : ∀ t ∈ w, IsAtomic t) : Balanced nested w := by
  induction w with
  | nil => exact .nil
  | cons t w ih =>
    obtain ⟨ht, hw⟩ := List.forall_mem_cons.1 h
    have hcomma : t.isPunct "," = false := ht "," (by decide)
    exact .token (ht ";" (by decide)) (ht "(" (by decide)) (ht ")" (by decide))
      (fun h => absurd (hcomma.symm.trans h) Bool.false_ne_true) (ih hw)

theorem not_beside_of_isAtomic (hd : d ≠ 0) (h : ∀ t ∈ w, IsAtomic t) : ¬ Beside d p q w :=
  not_beside hd fun t ht => ⟨h t ht "(" (by decide), h t ht ")" (by decide)⟩

section

variable {P Q : Token → Prop}

theorem over_nil : Over P 1 := by
  rintro _ rfl
  exact nofun

theorem over_mark (h : P ⟨.punctuation, m⟩) : Over P (mark m) := by
  rintro _ rfl
  exact List.forall_mem_singleton.2 h

theorem Over.mono (hL : Over P L) (h : ∀ t, P t → Q t) : Over Q L :=
  fun w hw t ht => h t (hL w hw t ht)

theorem Over.add (hL : Over P L) (hM : Over P M) : Over P (L + M) :=
  fun w hw => hw.elim (hL w) (hM w)

theorem Over.maybe (hL : Over P L) : Over P (maybe L) :=
  over_nil.add hL

theorem Over.mul (hL : Over P L) (hM : Over P M) : Over P (L * M) := by
  rintro _ ⟨u, hu, v, hv, rfl⟩ t ht
  exact (List.mem_append.1 ht).elim (hL u hu t) (hM v hv t)

theorem Over.kstar (hL : Over P L) : Over P L∗ := by
  rintro _ ⟨ws, rfl, hws⟩ t ht
  obtain ⟨w, hw, ht⟩ := List.mem_flatten.1 ht
  exact hL w (hws w hw) t ht

end

theorem Over.depth_eq (hL : Over IsAtomic L) (hw : w ∈ L) : depth w = 0 :=
  (show Balanced false w from balanced_of_isAtomic (hL w hw)).depth_eq

theorem atomic_one (h : ∀ t, p t = true → t.kind ≠ .punctuation) : Over IsAtomic (one p) := by
  rintro _ ⟨t, ht, rfl⟩
  exact List.forall_mem_singleton.2 (isAtomic_of_kind (h t ht))

theorem kind_ne_of_isKeyword (h : t.isKeyword k = true) : t.kind ≠ .punctuation := by
  intro hkind
  rw [Token.isKeyword, hkind] at h
  cases h

theorem kind_ne_of_name? (h : t.name?.isSome = true) : t.kind ≠ .punctuation := by
  intro hkind
  rw [Token.name?, hkind] at h
  cases h

theorem atomic_keyword (k : String) : Over IsAtomic (keyword k) :=
  atomic_one fun _ => kind_ne_of_isKeyword

theorem over_keywords {P : Token → Prop} (h : ∀ k ∈ ks, ∀ t, t.isKeyword k = true → P t) :
    Over P (keywords ks) := by
  induction ks with
  | nil => exact over_nil
  | cons k ks ih =>
    obtain ⟨hk, hks⟩ := List.forall_mem_cons.1 h
    refine Over.mul ?_ (ih hks)
    rintro _ ⟨t, ht, rfl⟩
    exact List.forall_mem_singleton.2 (hk t ht)

theorem atomic_keywords (ks : List String) : Over IsAtomic (keywords ks) :=
  over_keywords fun _ _ _ ht => isAtomic_of_kind (kind_ne_of_isKeyword ht)

theorem atomic_anyKeyword (ks : List String) : Over IsAtomic (anyKeyword ks) := by
  refine atomic_one fun t ht => ?_
  obtain ⟨k, -, hk⟩ := List.any_eq_true.1 ht
  exact kind_ne_of_isKeyword hk

theorem atomic_name : Over IsAtomic name :=
  atomic_one fun _ => kind_ne_of_name?

theorem atomic_literal : Over IsAtomic literal := by
  have hword : Over IsAtomic word := atomic_one fun t ht => by simp_all
  have hsign : Over IsAtomic (maybe (one isSign)) :=
    (atomic_one fun t ht => by simp_all [isSign]).maybe
  have hvalue : Over IsAtomic value := atomic_one fun t ht => by
    rw [Bool.or_eq_true, beq_iff_eq, beq_iff_eq] at ht
    rcases ht with ht | ht <;> rw [ht] <;> decide
  have hdot : Over IsAtomic (mark ".") := over_mark (by decide)
  have hfraction := hdot.mul hword
  have hmantissa : Over IsAtomic mantissa := (hvalue.mul hfraction.maybe).add hfraction
  have hblob : Over IsAtomic blob := by
    refine (atomic_one fun t ht => ?_).mul (atomic_one fun t ht => by simp_all)
    rw [Bool.and_eq_true, Bool.or_eq_true, beq_iff_eq, beq_iff_eq] at ht
    rcases ht.1 with ht | ht <;> rw [ht] <;> decide
  have hscientific : Over IsAtomic scientific := by
    rintro _ ⟨us, t, u, hus, -, hexponent, rfl⟩
    have ht : t.kind ≠ .punctuation := by simp_all [isExponent, isSign]
    have hu : u.kind ≠ .punctuation := by simp_all [isExponent]
    intro v hv
    rcases List.mem_append.1 hv with hv | hv
    · exact (hsign.mul hmantissa) us hus v hv
    · rcases List.mem_pair.1 hv with rfl | rfl
      · exact isAtomic_of_kind ht
      · exact isAtomic_of_kind hu
  exact (hblob.add (hsign.mul hmantissa)).add hscientific

theorem atomic_conflict : Over IsAtomic conflict :=
  (atomic_keywords _).mul (atomic_anyKeyword _)

theorem atomic_action : Over IsAtomic action := by
  have heffect : Over IsAtomic effect :=
    (((atomic_keyword _).mul (atomic_anyKeyword _)).add (atomic_keywords _)).add
      (atomic_anyKeyword _)
  have hon : Over IsAtomic (keyword "ON" * anyKeyword ["DELETE", "UPDATE"] * effect) :=
    ((atomic_keyword _).mul (atomic_anyKeyword _)).mul heffect
  have hmatch : Over IsAtomic (keyword "MATCH" * name) := (atomic_keyword _).mul atomic_name
  have hinitially : Over IsAtomic (keyword "INITIALLY" * anyKeyword ["DEFERRED", "IMMEDIATE"]) :=
    (atomic_keyword _).mul (atomic_anyKeyword _)
  have hdeferrable : Over IsAtomic (maybe (keyword "NOT") * keyword "DEFERRABLE") :=
    (atomic_keyword _).maybe.mul (atomic_keyword _)
  exact (hon.add hmatch).add (hdeferrable.mul hinitially.maybe)

/-! ## Parts of a column -/

/-- In some parentheses an argument is left out. -/
def LacksArgument (w : List Token) : Prop :=
  Beside 1 opensArgument closesArgument w

/-- A language of the grammar whose words are balanced. A word needs the slip of an empty expression
    exactly if an argument is left out in it. -/
structure Exact (A : Set Slip → Language Token) : Prop where
  balanced : ∀ w ∈ A .univ, Balanced false w
  mem_iff : ∀ D w, w ∈ A D ↔ w ∈ A .univ ∧ (LacksArgument w → Slip.emptyExpression ∈ D)

section

variable {A B : Set Slip → Language Token}

theorem exact_const (h : ∀ w ∈ L, Balanced false w ∧ ¬ LacksArgument w) : Exact fun _ => L where
  balanced w hw := (h w hw).1
  mem_iff _ w := ⟨fun hw => ⟨hw, fun hlacks => absurd hlacks (h w hw).2⟩, And.left⟩

theorem Over.exact (h : Over IsAtomic L) : Exact fun _ => L :=
  exact_const fun w hw =>
    ⟨balanced_of_isAtomic (h w hw), not_beside_of_isAtomic (by decide) (h w hw)⟩

theorem Exact.add (hA : Exact A) (hB : Exact B) : Exact fun D => A D + B D where
  balanced w hw := hw.elim (hA.balanced w) (hB.balanced w)
  mem_iff D w := by
    rw [Language.mem_add, Language.mem_add, hA.mem_iff D, hB.mem_iff D, ← or_and_right]

theorem Exact.maybe (hA : Exact A) : Exact fun D => maybe (A D) :=
  over_nil.exact.add hA

theorem Exact.mul (hA : Exact A) (hB : Exact B) : Exact fun D => A D * B D where
  balanced := by
    rintro _ ⟨u, hu, v, hv, rfl⟩
    exact (hA.balanced u hu).append (hB.balanced v hv)
  mem_iff D w := by
    have lacks {u v : List Token} (hu : u ∈ A .univ) :
        LacksArgument (u ++ v) ↔ LacksArgument u ∨ LacksArgument v := by
      simp [LacksArgument, beside_append (hA.balanced u hu).depth_eq]
    constructor
    · rintro ⟨u, hu, v, hv, rfl⟩
      obtain ⟨hu, hlacks⟩ := (hA.mem_iff D u).1 hu
      obtain ⟨hv, hlacks'⟩ := (hB.mem_iff D v).1 hv
      exact ⟨Language.append_mem_mul hu hv, fun h => ((lacks hu).1 h).elim hlacks hlacks'⟩
    · rintro ⟨⟨u, hu, v, hv, rfl⟩, hlacks⟩
      exact Language.append_mem_mul
        ((hA.mem_iff D u).2 ⟨hu, fun h => hlacks ((lacks hu).2 (.inl h))⟩)
        ((hB.mem_iff D v).2 ⟨hv, fun h => hlacks ((lacks hu).2 (.inr h))⟩)

theorem Exact.kstar (hA : Exact A) : Exact fun D => (A D)∗ where
  balanced := by
    rintro _ ⟨ws, rfl, hws⟩
    induction ws with
    | nil => exact .nil
    | cons w ws ih =>
      obtain ⟨hw, hws⟩ := List.forall_mem_cons.1 hws
      exact (hA.balanced w hw).append (ih hws)
  mem_iff D w := by
    have lacks {ws : List (List Token)} (hws : ∀ w ∈ ws, w ∈ A .univ) :
        LacksArgument ws.flatten ↔ ∃ w ∈ ws, LacksArgument w := by
      induction ws with
      | nil => exact ⟨fun h => absurd h not_beside_nil, nofun⟩
      | cons w ws ih =>
        obtain ⟨hw, hws⟩ := List.forall_mem_cons.1 hws
        have hiff := ih hws
        rw [LacksArgument] at hiff
        simp [LacksArgument, beside_append (hA.balanced w hw).depth_eq, hiff]
    constructor
    · rintro ⟨ws, rfl, hws⟩
      have hmem (w : List Token) (hw : w ∈ ws) := (hA.mem_iff D w).1 (hws w hw)
      refine ⟨⟨ws, rfl, fun w hw => (hmem w hw).1⟩, fun h => ?_⟩
      obtain ⟨w, hw, hlacks⟩ := (lacks fun w hw => (hmem w hw).1).1 h
      exact (hmem w hw).2 hlacks
    · rintro ⟨⟨ws, rfl, hws⟩, hlacks⟩
      exact ⟨ws, rfl, fun w hw => (hA.mem_iff D w).2 ⟨hws w hw,
        fun h => hlacks ((lacks hws).2 ⟨w, hw, h⟩)⟩⟩

end

/-! ## Arguments -/

theorem mem_argument_iff :
    w ∈ argument D ↔ Balanced false w ∧ (w = [] → Slip.emptyExpression ∈ D) := by
  constructor
  · rintro (⟨hne, hw⟩ | ⟨hD, rfl⟩)
    · exact ⟨hw, fun h => absurd h hne⟩
    · exact ⟨.nil, fun _ => hD⟩
  · rintro ⟨hw, hD⟩
    by_cases hnil : w = []
    · exact .inr ⟨hD hnil, hnil⟩
    · exact .inl ⟨hnil, hw⟩

/-- Arguments in parentheses need the slip exactly if one of them is empty. -/
theorem group_iff (hne : es ≠ []) : (∀ e ∈ es, e ∈ argument D) ↔ (∀ e ∈ es, e ∈ argument .univ) ∧
    (LacksArgument (group (commas es)) → Slip.emptyExpression ∈ D) := by
  simp only [mem_argument_iff, Set.mem_univ, implies_true, and_true]
  constructor
  · intro h
    have hbalanced := fun e he => (h e he).1
    exact ⟨hbalanced, fun hlacks =>
      (h [] ((beside_arguments hne hbalanced).1 hlacks)).2 rfl⟩
  · rintro ⟨hbalanced, hlacks⟩ e he
    refine ⟨hbalanced e he, fun hnil => hlacks ?_⟩
    exact (beside_arguments hne hbalanced).2 (hnil ▸ he)

/-- A language of arguments in parentheses, of which there is a list. -/
theorem exact_group {A : Set Slip → Language Token} {P : List (List Token) → Prop}
    (hP : ∀ es, P es → es ≠ []) (hA : ∀ D w, w ∈ A D ↔
      ∃ es, P es ∧ (∀ e ∈ es, e ∈ argument D) ∧ w = group (commas es)) : Exact A where
  balanced w hw := by
    obtain ⟨es, -, hes, rfl⟩ := (hA _ w).1 hw
    exact balanced_group (balanced_commas fun e he => (mem_argument_iff.1 (hes e he)).1)
  mem_iff D w := by
    rw [hA, hA]
    constructor
    · rintro ⟨es, hPes, hes, rfl⟩
      obtain ⟨hes, hlacks⟩ := (group_iff (hP es hPes)).1 hes
      exact ⟨⟨es, hPes, hes, rfl⟩, hlacks⟩
    · rintro ⟨⟨es, hPes, hes, rfl⟩, hlacks⟩
      exact ⟨es, hPes, (group_iff (hP es hPes)).2 ⟨hes, hlacks⟩, rfl⟩

theorem exact_parens : Exact parens := by
  refine exact_group (P := fun es => ∃ e, es = [e]) ?_ fun D w => mem_group_iff.trans ?_
  · rintro _ ⟨e, rfl⟩
    exact List.cons_ne_nil _ _
  · constructor
    · rintro ⟨e, he, rfl⟩
      exact ⟨[e], ⟨e, rfl⟩, List.forall_mem_singleton.2 he, by rw [commas_singleton]⟩
    · rintro ⟨_, ⟨e, rfl⟩, he, rfl⟩
      exact ⟨e, List.forall_mem_singleton.1 he, by rw [commas_singleton]⟩

theorem exact_arguments : Exact arguments := by
  refine exact_group (P := fun es => (∃ e, es = [e]) ∨ ∃ e f, es = [e, f]) ?_ fun D w => ?_
  · rintro _ (⟨e, rfl⟩ | ⟨e, f, rfl⟩) <;> exact List.cons_ne_nil _ _
  rw [arguments, mul_assoc (mark "("), mem_group_iff]
  constructor
  · rintro ⟨_, ⟨e, he, _, rfl | ⟨_, rfl, f, hf, rfl⟩, rfl⟩, rfl⟩
    · refine ⟨[e], .inl ⟨e, rfl⟩, List.forall_mem_singleton.2 he, ?_⟩
      rw [commas_singleton]
      exact congrArg group (List.append_nil e)
    · refine ⟨[e, f], .inr ⟨e, f, rfl⟩, List.forall_mem_cons.2
        ⟨he, List.forall_mem_singleton.2 hf⟩, ?_⟩
      rw [commas_cons (List.cons_ne_nil _ _), commas_singleton]
  · rintro ⟨_, ⟨e, rfl⟩ | ⟨e, f, rfl⟩, hes, rfl⟩
    · refine ⟨e, ⟨e, List.forall_mem_singleton.1 hes, [], .inl rfl, List.append_nil e⟩, ?_⟩
      rw [commas_singleton]
    · obtain ⟨he, hf⟩ := List.forall_mem_cons.1 hes
      refine ⟨_, Language.append_mem_mul he (.inr (Language.append_mem_mul (Set.mem_singleton _)
        (List.forall_mem_singleton.1 hf))), ?_⟩
      rw [commas_cons (List.cons_ne_nil _ _), commas_singleton]

/-! ## Columns -/

theorem exact_names : Exact fun _ => mark "(" * separated name * mark ")" := by
  refine exact_const fun w hw => ?_
  obtain ⟨_, hv, rfl⟩ := mem_group_iff.1 hw
  obtain ⟨es, hne, hes, rfl⟩ := mem_separated_iff.1 hv
  have hbalanced : ∀ e ∈ es, Balanced false e :=
    fun e he => balanced_of_isAtomic (atomic_name e (hes e he))
  refine ⟨balanced_group (balanced_commas hbalanced), fun hlacks => ?_⟩
  obtain ⟨t, -, h⟩ := hes [] ((beside_arguments hne hbalanced).1 hlacks)
  cases h

theorem exact_foreignKey : Exact fun _ => foreignKey :=
  (atomic_name.exact.mul exact_names.maybe).mul atomic_action.kstar.exact

theorem exact_rule : Exact rule := by
  have hconflict := atomic_conflict.maybe
  have hkey := (atomic_keywords ["PRIMARY", "KEY"]).mul (atomic_anyKeyword ["ASC", "DESC"]).maybe
  have hprimary := (hkey.mul hconflict).mul (atomic_keyword "AUTOINCREMENT").maybe
  have hwords := (((atomic_keywords ["NOT", "NULL"]).add (atomic_keyword "NULL")).add
    (atomic_keyword "UNIQUE")).mul hconflict
  have hcheck := (atomic_keyword "CHECK").exact.mul exact_parens
  have hdefault := (atomic_keyword "DEFAULT").exact.mul (exact_parens.add atomic_literal.exact)
  have hcollate := (atomic_keyword "COLLATE").mul atomic_name
  have hreferences := (atomic_keyword "REFERENCES").exact.mul exact_foreignKey
  have has := (atomic_keywords ["GENERATED", "ALWAYS", "AS"]).add (atomic_keyword "AS")
  have hgenerated := (has.exact.mul exact_parens).mul
    (atomic_anyKeyword ["STORED", "VIRTUAL"]).maybe.exact
  exact (((((hprimary.exact.add hwords.exact).add hcheck).add hdefault).add hcollate.exact).add
    hreferences).add hgenerated

theorem exact_constraint : Exact constraint :=
  ((atomic_keyword _).mul atomic_name).maybe.exact.mul exact_rule

theorem exact_type : Exact type := by
  have hword : Over IsAtomic typeWord := atomic_one fun t ht => by simp_all
  exact (hword.mul hword.kstar).exact.mul exact_arguments.maybe

theorem atomic_columnName : Over IsAtomic columnName := atomic_one fun t ht => by
  rw [Bool.and_eq_true] at ht
  exact kind_ne_of_name? ht.1

theorem exact_column : Exact column :=
  (atomic_columnName.exact.mul exact_type.maybe).mul exact_constraint.kstar

theorem ne_nil_of_column (h : w ∈ column D) : w ≠ [] := by
  rintro rfl
  exact nil_notMem_mul (nil_notMem_mul (by rintro ⟨t, -, h⟩; cases h)) h

/-! ## The list of columns -/

theorem mem_separated_column_iff : w ∈ separated (column D) ↔
    w ∈ separated (column .univ) ∧ (LacksArgument w → Slip.emptyExpression ∈ D) := by
  have lacks {es : List (List Token)} (hne : es ≠ []) (hes : ∀ e ∈ es, e ∈ column .univ) :
      LacksArgument (commas es) ↔ ∃ e ∈ es, LacksArgument e :=
    beside_commas (by decide) hne fun e he => (exact_column.balanced e (hes e he)).depth_eq
  rw [mem_separated_iff, mem_separated_iff]
  constructor
  · rintro ⟨es, hne, hes, rfl⟩
    have hmem (e : List Token) (he : e ∈ es) := (exact_column.mem_iff D e).1 (hes e he)
    refine ⟨⟨es, hne, fun e he => (hmem e he).1, rfl⟩, fun h => ?_⟩
    obtain ⟨e, he, hlacks⟩ := (lacks hne fun e he => (hmem e he).1).1 h
    exact (hmem e he).2 hlacks
  · rintro ⟨⟨es, hne, hes, rfl⟩, hlacks⟩
    exact ⟨es, hne, fun e he => (exact_column.mem_iff D e).2 ⟨hes e he,
      fun h => hlacks ((lacks hne hes).2 ⟨e, he, h⟩)⟩, rfl⟩

/-- The columns of a table, without the parentheses around them. -/
def columns (D : Set Slip) : Language Token :=
  maybe (separated (column D)) + slip D .trailingComma (separated (column D) * mark ",")

theorem mem_columnList_iff : w ∈ columnList D ↔ ∃ b ∈ columns D, w = group b := by
  have hslip : w ∈ slip D .trailingComma (mark "(" * separated (column D) * (mark "," * mark ")")) ↔
      ∃ b ∈ slip D .trailingComma (separated (column D) * mark ","), w = group b := by
    rw [← mul_assoc, mul_assoc (mark "(")]
    constructor
    · rintro ⟨hD, hw⟩
      obtain ⟨b, hb, rfl⟩ := mem_group_iff.1 hw
      exact ⟨b, ⟨hD, hb⟩, rfl⟩
    · rintro ⟨b, ⟨hD, hb⟩, rfl⟩
      exact ⟨hD, mem_group_iff.2 ⟨b, hb, rfl⟩⟩
  rw [columnList, Language.mem_add, mem_group_iff, hslip]
  constructor
  · rintro (⟨b, hb, rfl⟩ | ⟨b, hb, rfl⟩)
    · exact ⟨b, .inl hb, rfl⟩
    · exact ⟨b, .inr hb, rfl⟩
  · rintro ⟨b, hb | hb, rfl⟩
    · exact .inl ⟨b, hb, rfl⟩
    · exact .inr ⟨b, hb, rfl⟩

theorem balanced_columns (h : w ∈ columns .univ) : Balanced true w := by
  have list {w : List Token} (h : w ∈ separated (column .univ)) : Balanced true w := by
    obtain ⟨es, -, hes, rfl⟩ := mem_separated_iff.1 h
    exact balanced_commas fun e he => exact_column.balanced e (hes e he)
  rcases h with (rfl | h) | ⟨-, v, hv, _, rfl, rfl⟩
  · exact .nil
  · exact list h
  · exact (list hv).append (.token rfl rfl rfl (fun _ => rfl) .nil)

theorem getLast?_ne_comma (h : w ∈ separated (column .univ)) :
    w.getLast? ≠ some ⟨.punctuation, ","⟩ := by
  obtain ⟨es, hne, hes, rfl⟩ := mem_separated_iff.1 h
  have hlast := (getLast?_commas hne fun e he =>
    ⟨exact_column.balanced e (hes e he), ne_nil_of_column (hes e he)⟩).1
  intro hcomma
  rw [hcomma] at hlast
  cases hlast

theorem lacksArgument_comma (h : Balanced true w) :
    LacksArgument (w ++ [⟨.punctuation, ","⟩]) ↔ LacksArgument w := by
  have hcomma : ¬ Beside 1 opensArgument closesArgument [⟨.punctuation, ","⟩] :=
    not_beside (by decide) (by decide)
  rw [LacksArgument, beside_append h.depth_eq]
  simp [LacksArgument, hcomma]

/-- Both slips that a list of columns may need. -/
theorem mem_columns_iff : w ∈ columns D ↔ w ∈ columns .univ ∧
    (w.getLast? = some ⟨.punctuation, ","⟩ → Slip.trailingComma ∈ D) ∧
    (LacksArgument w → Slip.emptyExpression ∈ D) := by
  have lacks {v : List Token} (hv : v ∈ separated (column .univ)) :=
    lacksArgument_comma (balanced_columns (.inl (.inr hv)))
  constructor
  · rintro ((rfl | hw) | ⟨hD, v, hv, _, rfl, rfl⟩)
    · exact ⟨.inl (.inl rfl), nofun, fun h => absurd h not_beside_nil⟩
    · obtain ⟨hw, hlacks⟩ := mem_separated_column_iff.1 hw
      exact ⟨.inl (.inr hw), fun h => absurd h (getLast?_ne_comma hw), hlacks⟩
    · obtain ⟨hv, hlacks⟩ := mem_separated_column_iff.1 hv
      exact ⟨.inr ⟨trivial, Language.append_mem_mul hv (Set.mem_singleton _)⟩, fun _ => hD,
        fun h => hlacks ((lacks hv).1 h)⟩
  · rintro ⟨(rfl | hw) | ⟨-, v, hv, _, rfl, rfl⟩, hcomma, hlacks⟩
    · exact .inl (.inl rfl)
    · exact .inl (.inr (mem_separated_column_iff.2 ⟨hw, hlacks⟩))
    · have hv' := mem_separated_column_iff.2 ⟨hv, fun h => hlacks ((lacks hv).2 h)⟩
      exact .inr ⟨hcomma List.getLast?_concat, Language.append_mem_mul hv' (Set.mem_singleton _)⟩

end SchemaAlign.Wording
