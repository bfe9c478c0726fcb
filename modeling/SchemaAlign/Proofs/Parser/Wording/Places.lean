import SchemaAlign.Proofs.Parser.Parallel
import SchemaAlign.Proofs.Parser.Wording

/-!
# Places between tokens

Where the parentheses of tokens match, a place in them can be told by the parentheses that are open
there, also when the tokens are a part of others.

* `Balanced.cut`: what stands around a place outside of all parentheses;
* `beside_append`, `beside_group`, `beside_commas`: places in tokens that are put together;
* `Vacant`, `beside_arguments`: in a list in parentheses, there is a place for an argument exactly
  if one of them is empty.
-/

namespace SchemaAlign.Wording

open SchemaAlign.Parser (eq_of_isPunct)
open scoped Computability

variable {L : Language Token} {d : Int} {nested : Bool} {p q : Token → Bool} {t : Token}
  {us vs w : List Token} {es : List (List Token)}

/-! ## Open parentheses -/

@[simp] theorem depth_nil : depth [] = 0 :=
  rfl

theorem depth_append (us vs : List Token) : depth (us ++ vs) = depth us + depth vs := by
  simp only [depth, List.countP_append]
  omega

theorem depth_cons (t : Token) (ts : List Token) : depth (t :: ts) = depth [t] + depth ts :=
  depth_append [t] ts

@[simp] theorem depth_open : depth [⟨.punctuation, "("⟩] = 1 :=
  rfl

@[simp] theorem depth_close : depth [⟨.punctuation, ")"⟩] = -1 :=
  rfl

@[simp] theorem depth_comma : depth [⟨.punctuation, ","⟩] = 0 :=
  rfl

theorem depth_singleton (hopen : t.isPunct "(" = false) (hclose : t.isPunct ")" = false) :
    depth [t] = 0 := by
  simp [depth, hopen, hclose]

/-! ## Balanced tokens -/

theorem Balanced.append (hu : Balanced nested us) (hv : Balanced nested vs) :
    Balanced nested (us ++ vs) := by
  induction hu with
  | nil => exact hv
  | token hend hopen hclose hcomma _ ih => exact .token hend hopen hclose hcomma (ih hv)
  | group hu _ _ ih =>
    rw [List.append_assoc]
    exact .group hu (ih hv)

theorem Balanced.depth_eq (h : Balanced nested w) : depth w = 0 := by
  induction h with
  | nil => rfl
  | token _ hopen hclose _ _ ih => rw [depth_cons, ih, depth_singleton hopen hclose]; rfl
  | @group _ us vs _ _ ihu ihv =>
    rw [depth_append, depth_cons, depth_cons _ vs, ihu, ihv]
    rfl

theorem Balanced.inner (h : Balanced nested w) : Balanced true w := by
  induction h with
  | nil => exact .nil
  | token hend hopen hclose _ _ ih => exact .token hend hopen hclose (fun _ => rfl) ih
  | group hu _ _ ih => exact .group hu ih

/-- No parenthesis is closed that was not opened before. Outside of all parentheses no comma stands,
    unless the tokens are nested. -/
theorem Balanced.cut (h : Balanced nested (us ++ vs)) :
    0 ≤ depth us ∧ (depth us = 0 → nested = false → vs.head?.any (·.isPunct ",") = false) := by
  generalize hw : us ++ vs = w at h
  induction h generalizing us vs with
  | nil =>
    obtain ⟨rfl, rfl⟩ := List.append_eq_nil_iff.1 hw
    exact ⟨le_rfl, fun _ _ => rfl⟩
  | @token nested t ts _ hopen hclose hcomma _ ih =>
    cases us with
    | nil =>
      obtain rfl : vs = t :: ts := hw
      refine ⟨le_rfl, fun _ hnested => Bool.eq_false_iff.2 fun h => ?_⟩
      rw [hcomma h] at hnested
      cases hnested
    | cons t' us =>
      obtain ⟨rfl, hts⟩ := List.cons.inj hw
      rw [depth_cons, depth_singleton hopen hclose, Int.zero_add]
      exact ih hts
  | @group nested us' vs' hu _ ihu ihv =>
    cases us with
    | nil =>
      obtain rfl : vs = _ := hw
      exact ⟨le_rfl, fun _ _ => rfl⟩
    | cons t us =>
    obtain ⟨rfl, hrest⟩ := List.cons.inj hw
    rw [depth_cons, depth_open]
    rcases List.append_eq_append_iff.1 hrest with ⟨as, rfl, -⟩ | ⟨bs, rfl, hbs⟩
    · -- A place in the group, where its parenthesis is open.
      obtain ⟨hle, -⟩ := ihu rfl
      exact ⟨by omega, fun h => absurd h (by omega)⟩
    · cases bs with
      | nil =>
        have hle := hu.depth_eq
        rw [List.append_nil]
        exact ⟨by omega, fun h => absurd h (by omega)⟩
      | cons t bs =>
        obtain ⟨rfl, hvs⟩ := List.cons.inj hbs
        rw [depth_append, depth_cons _ bs, hu.depth_eq, depth_close, Int.zero_add,
          show 1 + (-1 + depth bs) = depth bs by omega]
        exact ihv hvs.symm

theorem Balanced.close_eq_false (h : Balanced nested (us ++ vs)) (hus : depth us = 0) :
    vs.head?.any (·.isPunct ")") = false := by
  cases vs with
  | nil => rfl
  | cons t vs =>
    refine Bool.eq_false_iff.2 fun hclose => ?_
    obtain rfl := eq_of_isPunct (show t.isPunct ")" = true from hclose)
    rw [List.append_cons] at h
    have hle := h.cut.1
    rw [depth_append, hus, depth_close] at hle
    omega

/-- A place outside of all parentheses is no place for an argument: what opens one does not stand
    before it, and what closes one does not stand behind it. -/
theorem Balanced.closesArgument_eq_false (h : Balanced false (us ++ vs)) (hus : depth us = 0) :
    vs.head?.any closesArgument = false := by
  cases vs with
  | nil => rfl
  | cons t vs =>
    have hcomma : t.isPunct "," = false := h.cut.2 hus rfl
    have hclose : t.isPunct ")" = false := h.close_eq_false hus
    show (t.isPunct "," || t.isPunct ")") = false
    rw [hcomma, hclose]
    rfl

theorem Balanced.opensArgument_eq_false (h : Balanced false (us ++ vs)) (hus : depth us = 0) :
    us.getLast?.any opensArgument = false := by
  rcases us.eq_nil_or_concat with rfl | ⟨us, t, rfl⟩
  · rfl
  rw [List.concat_eq_append] at h hus ⊢
  rw [List.getLast?_concat]
  rw [List.append_assoc] at h
  rw [depth_append] at hus
  refine Bool.eq_false_iff.2 fun hopens => ?_
  rcases Bool.or_eq_true_iff.1 (show (t.isPunct "(" || t.isPunct ",") = true from hopens) with
    hopen | hcomma
  · obtain rfl := eq_of_isPunct hopen
    have hle := h.cut.1
    rw [depth_open] at hus
    omega
  · obtain rfl := eq_of_isPunct hcomma
    rw [depth_comma, Int.add_zero] at hus
    exact Bool.false_ne_true ((h.cut.2 hus rfl).symm.trans rfl)

/-! ## Places in tokens that are put together -/

/-- A place in balanced tokens and others behind them is a place in one of the two, or between
    them. -/
theorem beside_append (hu : depth us = 0) : Beside d p q (us ++ vs) ↔ Beside d p q us ∨
    Beside d p q vs ∨ (d = 0 ∧ us.getLast?.any p = true ∧ vs.head?.any q = true) := by
  constructor
  · rintro ⟨xs, ys, heq, hd, hp, hq⟩
    rcases List.append_eq_append_iff.1 heq with ⟨as, rfl, rfl⟩ | ⟨bs, rfl, rfl⟩
    · rw [depth_append, hu, Int.zero_add] at hd
      cases as with
      | nil => exact .inr (.inr ⟨hd.symm, by rwa [List.append_nil] at hp, hq⟩)
      | cons a as =>
        rw [List.getLast?_append_of_ne_nil _ (List.cons_ne_nil a as)] at hp
        exact .inr (.inl ⟨a :: as, ys, rfl, hd, hp, hq⟩)
    · cases bs with
      | nil =>
        rw [List.append_nil] at hu ⊢
        exact .inr (.inr ⟨hd.symm.trans hu, hp, hq⟩)
      | cons b bs => exact .inl ⟨xs, b :: bs, rfl, hd, hp, hq⟩
  · rintro (⟨xs, ys, rfl, hd, hp, hq⟩ | ⟨xs, ys, rfl, hd, hp, hq⟩ | ⟨rfl, hp, hq⟩)
    · refine ⟨xs, ys ++ vs, List.append_assoc .., hd, hp, ?_⟩
      cases ys with
      | nil => cases hq
      | cons y ys => exact hq
    · refine ⟨us ++ xs, ys, (List.append_assoc ..).symm, ?_, ?_, hq⟩
      · rw [depth_append, hu, hd, Int.zero_add]
      · cases xs with
        | nil => cases hp
        | cons x xs => rwa [List.getLast?_append_of_ne_nil _ (List.cons_ne_nil x xs)]
    · exact ⟨us, vs, rfl, hu, hp, hq⟩

theorem depth_eq_zero (h : ∀ t ∈ w, t.isPunct "(" = false ∧ t.isPunct ")" = false) :
    depth w = 0 := by
  induction w with
  | nil => rfl
  | cons t w ih =>
    obtain ⟨⟨hopen, hclose⟩, hw⟩ := List.forall_mem_cons.1 h
    rw [depth_cons, ih hw, depth_singleton hopen hclose]
    rfl

/-- Without parentheses, no place is in some. -/
theorem not_beside (hd : d ≠ 0) (h : ∀ t ∈ w, t.isPunct "(" = false ∧ t.isPunct ")" = false) :
    ¬ Beside d p q w := by
  rintro ⟨us, vs, rfl, hus, -⟩
  exact hd (hus.symm.trans (depth_eq_zero fun t ht => h t (List.mem_append_left _ ht)))

theorem any_getLast?_eq_false (h : ∀ t ∈ w, p t = false) : w.getLast?.any p = false := by
  cases hlast : w.getLast? with
  | none => rfl
  | some t => exact h t (List.mem_of_getLast? hlast)

theorem not_beside_left (h : ∀ t ∈ w, p t = false) : ¬ Beside d p q w := by
  rintro ⟨us, vs, rfl, -, hp, -⟩
  rw [any_getLast?_eq_false fun t ht => h t (List.mem_append_left _ ht)] at hp
  cases hp

theorem not_beside_right (h : ∀ t ∈ w, q t = false) : ¬ Beside d p q w := by
  rintro ⟨us, vs, rfl, -, -, hq⟩
  cases vs with
  | nil => cases hq
  | cons t vs => cases (h t (List.mem_append_right _ List.mem_cons_self)).symm.trans hq

theorem not_beside_nil : ¬ Beside d p q [] := by
  rintro ⟨us, vs, heq, -, hp, -⟩
  obtain ⟨rfl, -⟩ := List.append_eq_nil_iff.1 heq.symm
  cases hp

theorem not_beside_singleton : ¬ Beside d p q [t] := by
  rintro ⟨us, vs, heq, -, hp, hq⟩
  rcases List.append_eq_singleton_iff.1 heq.symm with ⟨rfl, -⟩ | ⟨-, rfl⟩
  · cases hp
  · cases hq

/-- The tokens in parentheses. -/
def group (w : List Token) : List Token :=
  ⟨.punctuation, "("⟩ :: w ++ [⟨.punctuation, ")"⟩]

theorem mem_group_iff : w ∈ mark "(" * L * mark ")" ↔ ∃ v ∈ L, w = group v := by
  constructor
  · rintro ⟨_, ⟨_, rfl, v, hv, rfl⟩, _, rfl, rfl⟩
    exact ⟨v, hv, rfl⟩
  · rintro ⟨v, hv, rfl⟩
    exact Language.append_mem_mul (Language.append_mem_mul (Set.mem_singleton _) hv)
      (Set.mem_singleton _)

theorem balanced_group (h : Balanced true w) : Balanced false (group w) :=
  .group h .nil

/-- A place in parentheses is one between the tokens in them, or at their ends. -/
theorem beside_group : Beside d p q (group w) ↔ ∃ us vs, w = us ++ vs ∧ depth us = d - 1 ∧
    ((⟨.punctuation, "("⟩ : Token) :: us).getLast?.any p = true ∧
    (vs ++ [(⟨.punctuation, ")"⟩ : Token)]).head?.any q = true := by
  constructor
  · rintro ⟨us, vs, heq, hd, hp, hq⟩
    cases us with
    | nil => cases hp
    | cons t us =>
    obtain ⟨rfl, heq⟩ := List.cons.inj heq
    rcases vs.eq_nil_or_concat with rfl | ⟨vs, u, rfl⟩
    · cases hq
    rw [List.concat_eq_append] at heq hq
    obtain ⟨hw, hu⟩ := List.append_inj' (heq.trans (List.append_assoc ..).symm) rfl
    cases hw
    cases hu
    rw [depth_cons, depth_open] at hd
    exact ⟨us, vs, rfl, by omega, hp, hq⟩
  · rintro ⟨us, vs, rfl, hd, hp, hq⟩
    refine ⟨_ :: us, vs ++ [_], congrArg _ (List.append_assoc ..), ?_, hp, hq⟩
    rw [depth_cons, depth_open, hd]
    omega

/-! ## Lists with commas -/

/-- The lists with a comma between every two. -/
def commas (es : List (List Token)) : List Token :=
  [⟨.punctuation, ","⟩].intercalate es

theorem commas_singleton (e : List Token) : commas [e] = e := by
  simp [commas]

theorem commas_cons (h : es ≠ []) (e : List Token) :
    commas (e :: es) = e ++ ([⟨.punctuation, ","⟩] ++ commas es) := by
  obtain ⟨e', es, rfl⟩ := List.exists_cons_of_ne_nil h
  rw [commas, List.intercalate_cons_cons, List.append_assoc, commas]

theorem mem_separated_iff :
    w ∈ separated L ↔ ∃ es, es ≠ [] ∧ (∀ e ∈ es, e ∈ L) ∧ w = commas es := by
  constructor
  · rintro ⟨e, he, _, ⟨ws, rfl, hws⟩, rfl⟩
    induction ws generalizing e with
    | nil => exact ⟨[e], List.cons_ne_nil _ _, List.forall_mem_singleton.2 he,
        (List.append_nil e).trans (commas_singleton e).symm⟩
    | cons w ws ih =>
      obtain ⟨⟨_, rfl, e', he', rfl⟩, hrest⟩ := List.forall_mem_cons.1 hws
      obtain ⟨es, hne, hes, heq⟩ := ih e' he' hrest
      refine ⟨e :: es, List.cons_ne_nil _ _, List.forall_mem_cons.2 ⟨he, hes⟩, ?_⟩
      rw [commas_cons hne, ← heq]
      simp
  · rintro ⟨es, hne, hes, rfl⟩
    induction es with
    | nil => exact absurd rfl hne
    | cons e es ih =>
      obtain ⟨he, hes⟩ := List.forall_mem_cons.1 hes
      by_cases hnil : es = []
      · subst hnil
        have hlast := (List.append_nil e).trans (commas_singleton e).symm
        exact ⟨e, he, [], Language.nil_mem_kstar _, hlast⟩
      · rw [commas_cons hnil]
        refine mul_mark_separated_le _ (Language.append_mem_mul he ?_)
        exact Language.append_mem_mul (Set.mem_singleton _) (ih hnil hes)

theorem balanced_commas (h : ∀ e ∈ es, Balanced false e) : Balanced true (commas es) := by
  induction es with
  | nil => exact .nil
  | cons e es ih =>
    obtain ⟨he, hes⟩ := List.forall_mem_cons.1 h
    by_cases hnil : es = []
    · rw [hnil, commas_singleton]
      exact he.inner
    · rw [commas_cons hnil]
      exact he.inner.append (.token rfl rfl rfl (fun _ => rfl) (ih hes))

/-- A list of parts that are not empty and have no comma outside of parentheses does not end with
    one. -/
theorem getLast?_commas (hne : es ≠ []) (h : ∀ e ∈ es, Balanced false e ∧ e ≠ []) :
    (commas es).getLast?.any opensArgument = false ∧ commas es ≠ [] := by
  induction es with
  | nil => exact absurd rfl hne
  | cons e es ih =>
    obtain ⟨⟨he, henil⟩, hes⟩ := List.forall_mem_cons.1 h
    by_cases hnil : es = []
    · rw [hnil, commas_singleton]
      rw [← List.append_nil e] at he
      exact ⟨he.opensArgument_eq_false (List.append_nil e ▸ he.depth_eq), henil⟩
    · obtain ⟨hlast, hrest⟩ := ih hnil hes
      rw [commas_cons hnil, ← List.append_assoc, List.getLast?_append_of_ne_nil _ hrest]
      exact ⟨hlast, fun h => hrest (List.append_eq_nil_iff.1 h).2⟩

/-- A place inside parentheses in a list is one in its parts. -/
theorem beside_commas (hd : d ≠ 0) (hne : es ≠ []) (h : ∀ e ∈ es, depth e = 0) :
    Beside d p q (commas es) ↔ ∃ e ∈ es, Beside d p q e := by
  induction es with
  | nil => exact absurd rfl hne
  | cons e es ih =>
    obtain ⟨he, hes⟩ := List.forall_mem_cons.1 h
    by_cases hnil : es = []
    · simp [hnil, commas_singleton]
    · have hcomma : ¬ Beside d p q [⟨.punctuation, ","⟩] := not_beside hd (by decide)
      rw [commas_cons hnil, beside_append he, beside_append depth_comma, ih hnil hes]
      simp [hd, hcomma]

/-- In the parentheses around the tokens, there is a place for an argument outside of all other
    parentheses. -/
def Vacant (w : List Token) : Prop :=
  ∃ us vs, w = us ++ vs ∧ depth us = 0 ∧
    ((⟨.punctuation, "("⟩ : Token) :: us).getLast?.any opensArgument = true ∧
    (vs ++ [(⟨.punctuation, ")"⟩ : Token)]).head?.any closesArgument = true

theorem Balanced.vacant_iff (h : Balanced false w) : Vacant w ↔ w = [] := by
  constructor
  · rintro ⟨us, vs, rfl, hus, hp, hq⟩
    cases us with
    | nil =>
      cases vs with
      | nil => rfl
      | cons t vs =>
        have hclose : closesArgument t = false := h.closesArgument_eq_false hus
        exact absurd (hclose.symm.trans hq) Bool.false_ne_true
    | cons t us =>
      rw [List.getLast?_cons_cons, h.opensArgument_eq_false hus] at hp
      cases hp
  · rintro rfl
    exact ⟨[], [], rfl, rfl, rfl, rfl⟩

/-- A comma opens an argument as the parenthesis does. -/
theorem any_getLast?_comma (e us : List Token) :
    ((⟨.punctuation, "("⟩ : Token) :: (e ++ ⟨.punctuation, ","⟩ :: us)).getLast?.any
        opensArgument =
      ((⟨.punctuation, "("⟩ : Token) :: us).getLast?.any opensArgument := by
  rw [← List.cons_append, List.getLast?_append_of_ne_nil _ (List.cons_ne_nil _ _)]
  cases us <;> rfl

theorem vacant_comma (h : Balanced false us) :
    Vacant (us ++ ⟨.punctuation, ","⟩ :: vs) ↔ us = [] ∨ Vacant vs := by
  constructor
  · rintro ⟨xs, ys, heq, hd, hp, hq⟩
    rcases List.append_eq_append_iff.1 heq with ⟨as, rfl, has⟩ | ⟨bs, rfl, rfl⟩
    · cases as with
      | nil =>
        rw [List.append_nil] at hp hd
        exact .inl (h.vacant_iff.1 ⟨us, [], (List.append_nil us).symm, hd, hp, rfl⟩)
      | cons t as =>
        obtain ⟨rfl, rfl⟩ := List.cons.inj has
        rw [any_getLast?_comma] at hp
        rw [depth_append, h.depth_eq, depth_cons, depth_comma, Int.zero_add, Int.zero_add] at hd
        exact .inr ⟨as, ys, rfl, hd, hp, hq⟩
    · refine .inl (h.vacant_iff.1 ⟨xs, bs, rfl, hd, hp, ?_⟩)
      cases bs with
      | nil => rfl
      | cons t bs => exact hq
  · rintro (rfl | ⟨xs, ys, rfl, hd, hp, hq⟩)
    · exact ⟨[], _, rfl, rfl, rfl, rfl⟩
    · refine ⟨us ++ ⟨.punctuation, ","⟩ :: xs, ys, ?_, ?_, (any_getLast?_comma us xs).trans hp, hq⟩
      · rw [List.append_assoc, List.cons_append]
      · rw [depth_append, h.depth_eq, depth_cons, depth_comma, hd]
        rfl

/-- In a list in parentheses, there is a place for an argument exactly if one of them is empty. -/
theorem beside_arguments (hne : es ≠ []) (h : ∀ e ∈ es, Balanced false e) :
    Beside 1 opensArgument closesArgument (group (commas es)) ↔ [] ∈ es := by
  have hvacant : Vacant (commas es) ↔ [] ∈ es := by
    induction es with
    | nil => exact absurd rfl hne
    | cons e es ih =>
      obtain ⟨he, hes⟩ := List.forall_mem_cons.1 h
      by_cases hnil : es = []
      · rw [hnil, commas_singleton, he.vacant_iff, List.mem_singleton, eq_comm]
      · rw [commas_cons hnil, List.singleton_append, vacant_comma he, ih hnil hes, List.mem_cons,
          @eq_comm _ []]
  exact beside_group.trans hvacant

end SchemaAlign.Wording
