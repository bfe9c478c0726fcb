/-!
# Spans

A span is a half-open range of positions in a list of tokens.

* `Span.shift`: the span moved so that one position becomes another;
* `slice?`: the part of a list that a span covers;
* `overwrite`: the list with that part replaced by another one.
-/

namespace SchemaAlign

/-- The positions from `start` up to, but not including, `stop`. -/
structure Span where
  start : Nat
  stop : Nat
  deriving DecidableEq, Repr, Inhabited

namespace Span

/-- The span moved so that the position `source` becomes `target`. -/
def shift (source target : Nat) (s : Span) : Span :=
  ⟨s.start + target - source, s.stop + target - source⟩

/-- Whether the span is a range of positions of a list of the given length. -/
def fits (s : Span) (length : Nat) : Bool :=
  s.start ≤ s.stop && s.stop ≤ length

end Span

/-- The part of the list that the span covers. There is none when the span ends before it starts
    or ends beyond the list. -/
def slice? {α : Type} (xs : List α) (s : Span) : Option (List α) :=
  if s.fits xs.length then some ((xs.take s.stop).drop s.start) else none

/-- The list with the part that the span covers replaced by `ys`. -/
def overwrite {α : Type} (xs : List α) (s : Span) (ys : List α) : List α :=
  xs.take s.start ++ ys ++ xs.drop s.stop

variable {α : Type} {xs ys zs : List α} {s : Span}

/-- A span that fits covers what stands between the two parts that it leaves. -/
theorem slice?_eq_some_iff :
    slice? xs s = some ys ↔
      s.start ≤ s.stop ∧ s.stop ≤ xs.length ∧ (xs.take s.stop).drop s.start = ys := by
  simp [slice?, Span.fits, and_assoc]

theorem length_of_slice? (h : slice? xs s = some ys) : ys.length = s.stop - s.start := by
  obtain ⟨_, hs, rfl⟩ := slice?_eq_some_iff.1 h
  rw [List.length_drop, List.length_take, Nat.min_eq_left hs]

/-- Replacing a part by one of the same length keeps the length of the list. -/
theorem length_overwrite (h : slice? xs s = some ys) (hz : zs.length = ys.length) :
    (overwrite xs s zs).length = xs.length := by
  have hy := length_of_slice? h
  obtain ⟨hle, hs, -⟩ := slice?_eq_some_iff.1 h
  simp only [overwrite, List.length_append, List.length_take, List.length_drop]
  omega

end SchemaAlign
