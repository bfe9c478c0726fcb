import Mathlib.Data.List.Forall2
import SchemaAlign.Proofs.Case
import SchemaAlign.Proofs.Version

/-!
# Required versions

A requirement is cut at its dots into segments, and each of them has to name a number. A version is
held against as many of these numbers as it has itself: it will do if its own first numbers, as many
as are compared, come no earlier in their order. So a later version will do wherever an earlier one
does, and whether the requirement makes sense does not depend on the version.

* `Requirement.Names`: the number that a segment names;
* `Requirement.numbers_eq_ok_iff`: the requirements that make sense, and their numbers;
* `compareCommon_ne_lt_iff`: the comparison as the order of two lists of equal length;
* `Case.skipReason?_eq_none_iff`: the versions that a case is run for;
* `Case.skipReason?_monotone`: what becomes of a case for an earlier and a later version.
-/

namespace SchemaAlign

open Text

variable {requirement : String} {cs : List Char} {as bs ns : List Nat} {v w : Version} {n : Nat}
  {c : Case} {e : RequirementError}

/-! ## The numbers of a requirement -/

/-- A list is gone through without an error if there is none at any element. -/
theorem mapM_eq_ok_iff {ε α β : Type} {f : α → Except ε β} {xs : List α} {ys : List β} :
    xs.mapM f = .ok ys ↔ List.Forall₂ (fun x y => f x = .ok y) xs ys := by
  induction xs generalizing ys with
  | nil =>
    rw [List.forall₂_nil_left_iff]
    exact ⟨fun h => (Except.ok.inj h).symm, fun h => h ▸ rfl⟩
  | cons x xs ih =>
    simp only [List.mapM_cons, bind_eq_ok_iff, ih]
    constructor
    · rintro ⟨y, hx, zs, hxs, ⟨⟩⟩
      exact .cons hx hxs
    · rintro (_ | ⟨hx, hxs⟩)
      exact ⟨_, hx, _, hxs, rfl⟩

theorem exists_forall₂_iff {α β : Type} {ρ : α → β → Prop} {xs : List α} :
    (∃ ys, List.Forall₂ ρ xs ys) ↔ ∀ x ∈ xs, ∃ y, ρ x y := by
  induction xs with
  | nil => simp
  | cons x xs ih =>
    rw [List.forall_mem_cons, ← ih]
    constructor
    · rintro ⟨_, _ | ⟨hx, hxs⟩⟩
      exact ⟨⟨_, hx⟩, _, hxs⟩
    · rintro ⟨⟨y, hx⟩, ys, hxs⟩
      exact ⟨y :: ys, .cons hx hxs⟩

namespace Requirement

/-- The segment begins with the number, and the number fits. -/
def Names (segment : List Char) (n : Nat) : Prop :=
  Numbered segment n ∧ n < Version.limit

theorem part_eq_ok_iff : part requirement cs = .ok n ↔ Names cs n := by
  rw [Names, ← leadingNumber?_eq_some_iff]
  unfold part
  split
  · next h => simp [h]
  · next m h =>
    rw [checked_eq_ok_iff, h, Option.some.injEq]
    exact ⟨fun ⟨hm, hn⟩ => ⟨hn, hn ▸ hm⟩, fun ⟨hn, hm⟩ => ⟨hn ▸ hm, hn⟩⟩

theorem numbers_eq_ok_iff : numbers requirement = .ok ns ↔
    List.Forall₂ Names (requirement.toList.splitOn '.') ns := by
  simp only [numbers, mapM_eq_ok_iff, part_eq_ok_iff, fields_eq_splitOn]

/-- A segment that names no number is an error, wherever it stands. -/
theorem exists_error_iff : (∃ e, numbers requirement = .error e) ↔
    ∃ segment ∈ requirement.toList.splitOn '.', ∀ n, ¬ Names segment n := by
  have hok : (∃ ns, numbers requirement = .ok ns) ↔
      ∀ segment ∈ requirement.toList.splitOn '.', ∃ n, Names segment n := by
    simp only [numbers_eq_ok_iff, exists_forall₂_iff]
  have herror : (∃ e, numbers requirement = .error e) ↔ ¬ ∃ ns, numbers requirement = .ok ns := by
    cases numbers requirement <;> simp
  rw [herror, hok]
  push Not
  rfl

end Requirement

/-! ## The comparison -/

theorem take_le_take (h : as ≤ bs) (n : Nat) : as.take n ≤ bs.take n := by
  induction n generalizing as bs with
  | zero => exact le_refl []
  | succ n ih =>
    cases as with
    | nil => exact not_lt.1 (List.not_lt_nil _)
    | cons a as =>
      cases bs with
      | nil => exact absurd (List.nil_lt_cons a as) (not_lt.2 h)
      | cons b bs =>
        rw [List.take_succ_cons, List.take_succ_cons, Version.cons_le_cons_iff]
        exact (Version.cons_le_cons_iff.1 h).imp_right fun ⟨hab, has⟩ => ⟨hab, ih has⟩

/-- Where one of the two lists is over, the other one is not looked at. -/
theorem compareCommon_ne_lt_iff : compareCommon as bs ≠ .lt ↔
    bs.take (min as.length bs.length) ≤ as.take (min as.length bs.length) := by
  induction as generalizing bs with
  | nil => simp [compareCommon]
  | cons a as ih =>
    cases bs with
    | nil => simp [compareCommon]
    | cons b bs =>
      rw [List.length_cons, List.length_cons, Nat.succ_min_succ, List.take_succ_cons,
        List.take_succ_cons, Version.cons_le_cons_iff, ← ih, compareCommon]
      -- The rest counts only where the first numbers are equal.
      rcases lt_trichotomy a b with hab | rfl | hab
      · rw [Nat.compare_eq_lt.2 hab]
        exact iff_of_false (fun h => h rfl) (by rintro (h | ⟨h, -⟩) <;> omega)
      · simp
      · rw [Nat.compare_eq_gt.2 hab]
        exact iff_of_true nofun (.inl hab)

theorem Version.compareWith_ne_lt_iff : v.compareWith ns ≠ .lt ↔
    ns.take (min 3 ns.length) ≤ v.components.take (min 3 ns.length) :=
  compareCommon_ne_lt_iff

namespace Case

/-- The requirement of the case, without the blanks at its ends. -/
def required (c : Case) : String :=
  trim (c.minVersion.getD "")

theorem skipReason?_of_blank (h : c.required = "") (v : Version) : c.skipReason? v = .ok none := by
  rw [required] at h
  simp only [skipReason?, h]
  rfl

/-- A version that does not do is the reason. -/
theorem skipReason?_eq (h : c.required ≠ "") (v : Version) : c.skipReason? v =
    (Requirement.numbers c.required).map fun ns =>
      if v.compareWith ns = .lt then
        some s!"Version '{v.text}' is smaller than min_version '{c.required}'"
      else none := by
  have hempty : c.required.isEmpty = false :=
    Bool.eq_false_iff.2 fun hempty => h (String.isEmpty_iff.1 hempty)
  rw [required] at hempty ⊢
  simp only [skipReason?, hempty, Bool.false_eq_true, if_false, Version.meets]
  cases Requirement.numbers (trim (c.minVersion.getD "")) with
  | error e => rfl
  | ok ns =>
    cases hcompare : v.compareWith ns <;>
      simp [bind, Except.bind, pure, Except.pure, Except.map, hcompare]

theorem skipReason?_eq_error_iff : c.skipReason? v = .error e ↔
    c.required ≠ "" ∧ Requirement.numbers c.required = .error e := by
  by_cases hrequired : c.required = ""
  · simp [skipReason?_of_blank hrequired, hrequired]
  · rw [skipReason?_eq hrequired]
    cases Requirement.numbers c.required <;> simp [Except.map, hrequired]

theorem skipReason?_eq_none_iff : c.skipReason? v = .ok none ↔
    c.required = "" ∨ ∃ ns, Requirement.numbers c.required = .ok ns ∧
      ns.take (min 3 ns.length) ≤ v.components.take (min 3 ns.length) := by
  by_cases hrequired : c.required = ""
  · simp [skipReason?_of_blank hrequired, hrequired]
  · rw [skipReason?_eq hrequired, or_iff_right hrequired]
    cases Requirement.numbers c.required with
    | error e => simp [Except.map]
    | ok ns =>
      have hcompare : v.compareWith ns ≠ .lt ↔ _ := Version.compareWith_ne_lt_iff
      simpa [Except.map, ite_eq_right_iff] using hcompare

/-- Of two versions, the later one meets with the same error as the earlier one, and none unless a
    segment of the requirement names no number. It will do if the earlier one does. A version will
    do for a requirement that makes sense exactly if its first numbers are in order no earlier than
    the first numbers of the requirement, up to three of them. -/
theorem skipReason?_monotone (c : Case) (h : v ≤ w) :
    let segments := c.required.toList.splitOn '.'
    (∀ e, c.skipReason? v = .error e ↔ c.skipReason? w = .error e) ∧
    ((∃ e, c.skipReason? v = .error e) ↔
      c.required ≠ "" ∧ ∃ segment ∈ segments, ∀ n, ¬ Requirement.Names segment n) ∧
    (c.skipReason? v = .ok none → c.skipReason? w = .ok none) ∧
    (c.required = "" → c.skipReason? v = .ok none) ∧
    ∀ ns, c.required ≠ "" → List.Forall₂ Requirement.Names segments ns →
      (c.skipReason? v = .ok none ↔ ns.take (min 3 segments.length) ≤
        v.components.take (min 3 segments.length)) := by
  intro segments
  refine ⟨fun e => ?_, ?_, ?_, fun hblank => skipReason?_of_blank hblank v,
    fun ns hrequired hnames => ?_⟩
  · rw [skipReason?_eq_error_iff, skipReason?_eq_error_iff]
  · simp only [skipReason?_eq_error_iff, exists_and_left, Requirement.exists_error_iff, segments]
  · rw [skipReason?_eq_none_iff, skipReason?_eq_none_iff]
    rintro (hblank | ⟨ns, hns, hle⟩)
    · exact .inl hblank
    · exact .inr ⟨ns, hns, hle.trans (take_le_take h _)⟩
  · have hns := Requirement.numbers_eq_ok_iff.2 hnames
    rw [skipReason?_eq_none_iff, or_iff_right hrequired, hns, hnames.length_eq]
    simp only [Except.ok.injEq, exists_eq_left']

/-- A requirement with blanks around it and letters behind its second number. -/
theorem skipReason?_monotone_suffixed :
    let c : Case := { minVersion := some " 3.35rc " }
    (⟨3, 35, 0⟩ : Version) ≤ ⟨3, 45, 1⟩ ∧
      List.Forall₂ Requirement.Names (c.required.toList.splitOn '.') [3, 35] ∧
      c.skipReason? ⟨3, 35, 0⟩ = .ok none ∧ c.skipReason? ⟨3, 45, 1⟩ = .ok none := by
  intro c
  have h : (⟨3, 35, 0⟩ : Version) ≤ ⟨3, 45, 1⟩ := by decide
  have hnames : List.Forall₂ Requirement.Names (c.required.toList.splitOn '.') [3, 35] :=
    Requirement.numbers_eq_ok_iff.1 (by decide)
  obtain ⟨-, -, hlater, -, hruns⟩ := skipReason?_monotone c h
  have hearlier := (hruns _ (by decide) hnames).2 (by decide)
  exact ⟨h, hnames, hearlier, hlater hearlier⟩

/-- The fourth segment is not compared, but it has to name a number. -/
example : ({ minVersion := some "3.33.0.x" } : Case).skipReason? ⟨4, 0, 0⟩ =
    .error (.noNumber "3.33.0.x" "x") := by
  decide

end Case

end SchemaAlign
