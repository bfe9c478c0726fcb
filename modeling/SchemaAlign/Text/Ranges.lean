/-!
# Character classes as sorted ranges

A class of characters is given by the ranges of its code points, sorted and disjoint.

* `inRanges`: membership, which stops at the first range that does not end before the code point.
-/

namespace SchemaAlign.Text

/-- Whether the code point `n` lies in one of the ranges, each given by its first and its last
    code point. The ranges are sorted and disjoint, so the first one that ends at `n` or later
    decides. -/
def inRanges (n : Nat) : List (Nat × Nat) → Bool
  | [] => false
  | (first, last) :: rest => if n ≤ last then decide (first ≤ n) else inRanges n rest

/-- A code point in one of the ranges. -/
theorem exists_mem_of_inRanges {n : Nat} {ranges : List (Nat × Nat)}
    (h : inRanges n ranges = true) : ∃ r ∈ ranges, r.1 ≤ n ∧ n ≤ r.2 := by
  induction ranges with
  | nil => cases h
  | cons r rest ih =>
    rw [inRanges] at h
    split at h
    · next hle => exact ⟨r, List.mem_cons_self, of_decide_eq_true h, hle⟩
    · obtain ⟨r', hr', hn⟩ := ih h
      exact ⟨r', List.mem_cons_of_mem _ hr', hn⟩

end SchemaAlign.Text
