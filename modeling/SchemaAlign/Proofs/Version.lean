import Mathlib.Data.List.Lex
import SchemaAlign.Proofs.Text.Fields
import SchemaAlign.Version

/-!
# The version that a report spells

The first word of a report spells a version: up to three numbers with dots between them, of any
size. Reading it takes the first number only if it is there and fits. The other two are zero where
they are missing, but also where they do not fit. So a version whose second number is too large is
read as an older one, and may be refused for its age.

* `Spelled`: the version that a report spells;
* `clipped`: the same with zeros for the numbers that do not fit;
* `ofServer?_of_spelled`, `exists_spelled`: what is read of a report;
* `ofServer?_spelled`: when this is the version that the report spells, and when it is accepted.
-/

namespace SchemaAlign

theorem checked_eq_ok_iff {ε α : Type} {p : Prop} [Decidable p] {a b : α} {e : ε} :
    (if p then Except.ok a else .error e) = .ok b ↔ p ∧ a = b := by
  by_cases hp : p <;> simp [hp]

namespace Version

open Text

variable {v w : Version} {report word : String} {cs part : List Char} {parts : List (List Char)}
  {optional : Option (List Char)} {m n : Nat}

/-! ## Order -/

/-- The three numbers. -/
def components (v : Version) : List Nat :=
  [v.major, v.minor, v.patch]

/-- Of two versions, the first number that differs decides. -/
instance : LE Version where
  le v w := v.components ≤ w.components

instance (v w : Version) : Decidable (v ≤ w) :=
  inferInstanceAs (Decidable (v.components ≤ w.components))

theorem cons_le_cons_iff {a b : Nat} {as bs : List Nat} :
    a :: as ≤ b :: bs ↔ a < b ∨ a = b ∧ as ≤ bs := by
  rw [← not_lt, ← not_lt, List.cons_lt_cons_iff]
  grind

theorem isSupported_iff : v.isSupported = true ↔ [3, 33] ≤ [v.major, v.minor] := by
  rw [isSupported, Bool.or_eq_true, Bool.and_eq_true, decide_eq_true_eq, decide_eq_true_eq,
    beq_iff_eq]
  simp only [minimum, cons_le_cons_iff, le_refl, and_true]
  omega

/-! ## The version that is spelled -/

/-- The number of a part that may be left out. It is zero where the part is missing and where it
    does not begin with a digit. -/
inductive PartNumber : Option (List Char) → Nat → Prop
  | missing : PartNumber none 0
  | unnumbered {cs : List Char} : (∀ c ∈ cs.head?, c.isDigit = false) → PartNumber (some cs) 0
  | numbered {cs : List Char} {n : Nat} : Numbered cs n → PartNumber (some cs) n

/-- The version that the first word of the report spells. Its numbers may be of any size. -/
def Spelled (report : String) (v : Version) : Prop :=
  ∃ word part parts, FirstWord report word ∧ word.toList.splitOn '.' = part :: parts ∧
    Numbered part v.major ∧ PartNumber parts[0]? v.minor ∧ PartNumber parts[1]? v.patch

theorem partNumber_iff : PartNumber optional n ↔ (optional.bind leadingNumber?).getD 0 = n := by
  constructor
  · intro h
    cases h with
    | missing => rfl
    | unnumbered hnone =>
      rw [Option.bind_some, leadingNumber?_eq_none_iff.2 hnone, Option.getD_none]
    | numbered hn => rw [Option.bind_some, leadingNumber?_eq_some_iff.2 hn, Option.getD_some]
  · rintro rfl
    cases optional with
    | none => exact .missing
    | some cs =>
      rw [Option.bind_some]
      cases h : leadingNumber? cs with
      | none => exact .unnumbered (leadingNumber?_eq_none_iff.1 h)
      | some n => exact .numbered (leadingNumber?_eq_some_iff.1 h)

theorem PartNumber.unique (hm : PartNumber optional m) (hn : PartNumber optional n) : m = n :=
  (partNumber_iff.1 hm).symm.trans (partNumber_iff.1 hn)

/-- A report spells one version at most. -/
theorem Spelled.unique (hv : Spelled report v) (hw : Spelled report w) : v = w := by
  obtain ⟨word, part, parts, hword, hparts, hmajor, hminor, hpatch⟩ := hv
  obtain ⟨word', part', parts', hword', hparts', hmajor', hminor', hpatch'⟩ := hw
  obtain rfl := Option.some.inj
    ((firstWord?_eq_some_iff.2 hword).symm.trans (firstWord?_eq_some_iff.2 hword'))
  obtain ⟨rfl, rfl⟩ := List.cons.inj (hparts.symm.trans hparts')
  obtain ⟨major, minor, patch⟩ := v
  obtain ⟨major', minor', patch'⟩ := w
  obtain rfl : major = major' := hmajor.unique hmajor'
  obtain rfl : minor = minor' := hminor.unique hminor'
  obtain rfl : patch = patch' := hpatch.unique hpatch'
  rfl

/-! ## The version that is read -/

/-- The number if it fits, and otherwise zero. -/
def fit (n : Nat) : Nat :=
  if n < limit then n else 0

/-- The version with zeros for its second and third number where they do not fit. -/
def clipped (v : Version) : Version :=
  ⟨v.major, fit v.minor, fit v.patch⟩

theorem clipped_eq_self_iff : v.clipped = v ↔ v.minor < limit ∧ v.patch < limit := by
  have hfit (n : Nat) : fit n = n ↔ n < limit := by
    unfold fit limit
    split <;> omega
  obtain ⟨major, minor, patch⟩ := v
  simp only [clipped, mk.injEq, true_and, hfit]

/-- A version 3 is too old once its second number is replaced by zero. -/
theorem le_clipped_iff : [3, 33] ≤ [v.clipped.major, v.clipped.minor] ↔
    (v.major = 3 → v.minor < limit) ∧ [3, 33] ≤ [v.major, v.minor] := by
  simp only [clipped, fit, cons_le_cons_iff, le_refl, and_true]
  split <;> omega

theorem part?_of_numbered (h : Numbered cs n) :
    part? cs = if n < limit then some n else none := by
  rw [part?, leadingNumber?_eq_some_iff.2 h, Option.filter_some]
  simp only [decide_eq_true_eq]

theorem PartNumber.getD_part? (h : PartNumber optional n) :
    (optional.bind part?).getD 0 = fit n := by
  cases h with
  | missing => rfl
  | unnumbered hnone =>
    rw [Option.bind_some, part?, leadingNumber?_eq_none_iff.2 hnone]
    rfl
  | numbered hn =>
    rw [Option.bind_some, part?_of_numbered hn, fit]
    split <;> rfl

theorem ofServer?_of_firstWord (hword : FirstWord report word)
    (hparts : word.toList.splitOn '.' = part :: parts) : ofServer? report =
      (part? part).map fun major =>
        ⟨major, (parts[0]?.bind part?).getD 0, (parts[1]?.bind part?).getD 0⟩ := by
  rw [ofServer?, firstWord?_eq_some_iff.2 hword, Option.bind_eq_bind, Option.bind_some,
    fields_eq_splitOn, hparts]
  exact Option.map_eq_bind.symm

theorem ofServer?_of_spelled (h : Spelled report v) :
    ofServer? report = if v.major < limit then some v.clipped else none := by
  obtain ⟨word, part, parts, hword, hparts, hmajor, hminor, hpatch⟩ := h
  rw [ofServer?_of_firstWord hword hparts, part?_of_numbered hmajor, hminor.getD_part?,
    hpatch.getD_part?]
  split <;> rfl

/-- What is read is spelled. -/
theorem exists_spelled (h : ofServer? report = some v) : ∃ w, Spelled report w := by
  cases hword : firstWord? report with
  | none =>
    rw [ofServer?, hword] at h
    cases h
  | some word =>
    have hfirst := firstWord?_eq_some_iff.1 hword
    obtain ⟨part, parts, hparts⟩ :=
      List.exists_cons_of_ne_nil (List.splitOnP_ne_nil (· == '.') word.toList)
    rw [ofServer?_of_firstWord hfirst hparts] at h
    obtain ⟨major, hmajor, -⟩ := Option.map_eq_some_iff.1 h
    obtain ⟨hnumber, -⟩ := Option.filter_eq_some_iff.1 hmajor
    -- The other two numbers are spelled in any case, if only as missing.
    exact ⟨⟨major, _, _⟩, word, part, parts, hfirst, hparts,
      leadingNumber?_eq_some_iff.1 hnumber, partNumber_iff.2 rfl, partNumber_iff.2 rfl⟩

theorem accept_eq_ok_iff :
    accept report = .ok v ↔ ofServer? report = some v ∧ v.isSupported = true := by
  unfold accept
  split
  · next h => simp [h]
  · next w h =>
    rw [checked_eq_ok_iff, h, Option.some.injEq]
    exact ⟨fun ⟨hw, hv⟩ => ⟨hv, hv ▸ hw⟩, fun ⟨hv, hw⟩ => ⟨hv ▸ hw, hv⟩⟩

theorem ofServer?_eq_self_iff (h : Spelled report v) :
    ofServer? report = some v ↔ ∀ n ∈ v.components, n < limit := by
  rw [ofServer?_of_spelled h]
  simp only [components, List.forall_mem_cons, List.not_mem_nil, false_imp_iff, implies_true,
    and_true, ← clipped_eq_self_iff]
  split
  · next hmajor => simp only [hmajor, true_and, Option.some.injEq]
  · next hmajor => simp only [hmajor, false_and, reduceCtorEq]

theorem exists_accept_iff (h : Spelled report v) : (∃ w, accept report = .ok w) ↔
    v.major < limit ∧ (v.major = 3 → v.minor < limit) ∧ [3, 33] ≤ [v.major, v.minor] := by
  simp only [accept_eq_ok_iff, ofServer?_of_spelled h, isSupported_iff, ← le_clipped_iff]
  split
  · next hmajor => simp only [hmajor, true_and, Option.some.injEq, exists_eq_left']
  · next hmajor => simp only [hmajor, false_and, reduceCtorEq, exists_false]

/-- A report spells one version at most, and what is read of it is this version with zeros for the
    numbers that do not fit. So the version is read as it is spelled exactly if all of its numbers
    fit. It is accepted exactly if its first number fits and it is no older than 3.33, unless it is
    a version 3 whose second number does not fit. -/
theorem ofServer?_spelled (report : String) :
    (∀ v, ofServer? report = some v ↔
      ∃ w, Spelled report w ∧ w.major < limit ∧ v = w.clipped) ∧
    ∀ w, Spelled report w → (∀ v, Spelled report v → v = w) ∧
      (ofServer? report = some w ↔ ∀ n ∈ w.components, n < limit) ∧
      ((∃ v, accept report = .ok v) ↔
        w.major < limit ∧ (w.major = 3 → w.minor < limit) ∧ [3, 33] ≤ [w.major, w.minor]) := by
  refine ⟨fun v => ⟨fun h => ?_, ?_⟩, fun w hw =>
    ⟨fun v hv => hv.unique hw, ofServer?_eq_self_iff hw, exists_accept_iff hw⟩⟩
  · obtain ⟨w, hw⟩ := exists_spelled h
    rw [ofServer?_of_spelled hw] at h
    split at h
    · next hmajor => exact ⟨w, hw, hmajor, (Option.some.inj h).symm⟩
    · cases h
  · rintro ⟨w, hw, hmajor, rfl⟩
    rw [ofServer?_of_spelled hw, if_pos hmajor]

/-- A number with a zero before it and letters behind it, and a part that is no number. -/
theorem ofServer?_spelled_suffixed :
    Spelled " 3.045rc.x 2024-01-30" ⟨3, 45, 0⟩ ∧
      ofServer? " 3.045rc.x 2024-01-30" = some ⟨3, 45, 0⟩ ∧
      ∃ v, accept " 3.045rc.x 2024-01-30" = .ok v := by
  have h : Spelled " 3.045rc.x 2024-01-30" ⟨3, 45, 0⟩ :=
    ⟨"3.045rc.x", ['3'], [['0', '4', '5', 'r', 'c'], ['x']], firstWord?_eq_some_iff.1 (by decide),
      by decide, leadingNumber?_eq_some_iff.1 (by decide),
      .numbered (leadingNumber?_eq_some_iff.1 (by decide)),
      .unnumbered (leadingNumber?_eq_none_iff.1 (by decide))⟩
  obtain ⟨-, hread, haccept⟩ := (ofServer?_spelled _).2 _ h
  exact ⟨h, hread.2 (by decide), haccept.2 (by decide)⟩

/-- The version 3.70000 is read as 3.0.0 and refused as too old. -/
theorem ofServer?_oversized :
    Spelled "3.70000" ⟨3, 70000, 0⟩ ∧ ofServer? "3.70000" = some ⟨3, 0, 0⟩ ∧
      [3, 33] ≤ [3, 70000] ∧ ∀ v, accept "3.70000" ≠ .ok v := by
  refine ⟨⟨"3.70000", ['3'], [['7', '0', '0', '0', '0']], firstWord?_eq_some_iff.1 (by decide),
    by decide, leadingNumber?_eq_some_iff.1 (by decide),
    .numbered (leadingNumber?_eq_some_iff.1 (by decide)), .missing⟩, by decide, by decide, ?_⟩
  intro v h
  obtain ⟨hread, hsupported⟩ := accept_eq_ok_iff.1 h
  cases hread.symm.trans (show ofServer? "3.70000" = some ⟨3, 0, 0⟩ by decide)
  revert hsupported
  decide

end Version

end SchemaAlign
