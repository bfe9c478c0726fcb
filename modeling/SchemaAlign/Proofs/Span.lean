import SchemaAlign.Span

/-!
# Parts of a list that do not overlap

* `slice?_eq_some_iff_append`: a list as what stands before a part, the part, and what stands
  behind it;
* `Span.Apart`: spans that share no position;
* `Span.Within`: a span inside another one, and `slice?_within`: a part of a part;
* `slice?_overwrite`, `slice?_overwrite_apart`: what overwriting one part does to it and to another.
-/

namespace SchemaAlign

variable {α : Type} {xs ys zs ws : List α} {s s' : Span}

/-- A list is what stands before a part, the part, and what stands behind it. -/
theorem slice?_eq_some_iff_append :
    slice? xs s = some ys ↔
      ∃ as bs, xs = as ++ ys ++ bs ∧ s = ⟨as.length, as.length + ys.length⟩ := by
  rw [slice?_eq_some_iff]
  constructor
  · rintro ⟨hle, hlen, rfl⟩
    refine ⟨xs.take s.start, xs.drop s.stop, ?_, ?_⟩
    · have hpart := List.take_append_drop s.start (xs.take s.stop)
      rw [List.take_take, Nat.min_eq_left hle] at hpart
      rw [hpart, List.take_append_drop]
    · obtain ⟨a, b⟩ := s
      simp only [List.length_take, List.length_drop, Span.mk.injEq]
      dsimp only at hle hlen
      omega
  · rintro ⟨as, bs, rfl, rfl⟩
    refine ⟨Nat.le_add_right _ _, by simp, ?_⟩
    rw [← List.length_append, List.take_left, List.drop_left]

theorem slice?_append (as ys bs : List α) :
    slice? (as ++ ys ++ bs) ⟨as.length, as.length + ys.length⟩ = some ys :=
  slice?_eq_some_iff_append.2 ⟨as, bs, rfl, rfl⟩

theorem slice?_length (xs : List α) : slice? xs ⟨0, xs.length⟩ = some xs :=
  slice?_eq_some_iff_append.2 ⟨[], [], by simp, by simp⟩

theorem slice?_append_left (h : s.stop ≤ xs.length) (ys : List α) :
    slice? (xs ++ ys) s = slice? xs s := by
  have hfits : s.fits (xs ++ ys).length = s.fits xs.length := by
    simp only [Span.fits, List.length_append]
    congr 1
    exact decide_eq_decide.2 (by omega)
  simp only [slice?, hfits, List.take_append_of_le_length h]

theorem slice?_append_right (xs ys : List α) (s : Span) :
    slice? (xs ++ ys) (s.shift 0 xs.length) = slice? ys s := by
  have hfits : (s.shift 0 xs.length).fits (xs ++ ys).length = s.fits ys.length := by
    simp only [Span.fits, Span.shift, List.length_append]
    congr 1 <;> exact decide_eq_decide.2 (by omega)
  have hpart : ((xs ++ ys).take (s.shift 0 xs.length).stop).drop (s.shift 0 xs.length).start =
      (ys.take s.stop).drop s.start := by
    simp only [Span.shift, Nat.sub_zero, Nat.add_comm _ xs.length, List.take_length_add_append,
      List.drop_length_add_append]
  simp only [slice?, hfits, hpart]

theorem overwrite_append (as ys bs ws : List α) :
    overwrite (as ++ ys ++ bs) ⟨as.length, as.length + ys.length⟩ ws = as ++ ws ++ bs := by
  have htake : (as ++ ys ++ bs).take as.length = as := by rw [List.append_assoc, List.take_left]
  simp only [overwrite, htake, ← List.length_append, List.drop_left]

/-- What is looked at stays if it is the same in both parts. -/
theorem map_overwrite {β : Type} {g : α → β} (h : slice? xs s = some ys)
    (hz : zs.map g = ys.map g) : (overwrite xs s zs).map g = xs.map g := by
  obtain ⟨as, bs, rfl, rfl⟩ := slice?_eq_some_iff_append.1 h
  rw [overwrite_append]
  simp only [List.map_append, hz]

theorem slice?_overwrite (h : slice? xs s = some ys) (hz : zs.length = ys.length) :
    slice? (overwrite xs s zs) s = some zs := by
  obtain ⟨as, bs, rfl, rfl⟩ := slice?_eq_some_iff_append.1 h
  rw [overwrite_append, ← hz, slice?_append]

namespace Span

/-- One of the spans ends before the other one begins. -/
def Apart (s s' : Span) : Prop :=
  s.stop ≤ s'.start ∨ s'.stop ≤ s.start

theorem Apart.symm (h : Apart s s') : Apart s' s :=
  Or.symm h

/-- A span behind the first `n` positions, as a span of the positions behind these. -/
theorem exists_shift {n : Nat} (hn : n ≤ s.start) (hs : s.start ≤ s.stop) :
    ∃ r : Span, s = r.shift 0 n := by
  refine ⟨⟨s.start - n, s.stop - n⟩, ?_⟩
  obtain ⟨a, b⟩ := s
  simp only [shift, Nat.sub_zero, mk.injEq]
  dsimp only at hn hs
  omega

/-- The span lies inside the outer one. -/
structure Within (s outer : Span) : Prop where
  start_le : outer.start ≤ s.start
  le : s.start ≤ s.stop
  stop_le : s.stop ≤ outer.stop

theorem Within.trans {u v w : Span} (h : u.Within v) (h' : v.Within w) : u.Within w :=
  ⟨Nat.le_trans h'.start_le h.start_le, h.le, Nat.le_trans h.stop_le h'.stop_le⟩

theorem Within.shift (h : s.Within s') (source target : Nat) :
    (s.shift source target).Within (s'.shift source target) := by
  obtain ⟨hstart, hle, hstop⟩ := h
  refine ⟨?_, ?_, ?_⟩ <;> simp only [Span.shift] <;> omega

end Span

theorem slice?_overwrite_apart (h : slice? xs s = some ys) (hz : zs.length = ys.length)
    (hs : s.Apart s') (hs' : s'.start ≤ s'.stop) :
    slice? (overwrite xs s zs) s' = slice? xs s' := by
  obtain ⟨as, bs, rfl, rfl⟩ := slice?_eq_some_iff_append.1 h
  rw [overwrite_append]
  obtain hs | hs := hs
  -- Behind the part that is overwritten, places count from its end, which stays where it is.
  · obtain ⟨r, rfl⟩ := Span.exists_shift hs hs'
    rw [← hz, ← List.length_append, slice?_append_right, List.length_append, hz,
      ← List.length_append, slice?_append_right]
  · rw [List.append_assoc, List.append_assoc, slice?_append_left hs, slice?_append_left hs]

/-- A part of a part, as a part of the whole. -/
theorem slice?_within (h : slice? xs s = some ys) (hw : s'.Within s) :
    slice? xs s' = slice? ys (s'.shift s.start 0) := by
  obtain ⟨as, bs, rfl, rfl⟩ := slice?_eq_some_iff_append.1 h
  obtain ⟨r, rfl⟩ := Span.exists_shift hw.start_le hw.le
  have hr : (r.shift 0 as.length).shift as.length 0 = r := by
    obtain ⟨a, b⟩ := r
    simp [Span.shift]
  have hstop : r.stop ≤ ys.length := by
    have := hw.stop_le
    simp only [Span.shift] at this
    omega
  rw [hr, List.append_assoc, slice?_append_right, slice?_append_left hstop]

theorem exists_slice?_within (h : slice? xs s = some ys) (hw : s'.Within s) :
    ∃ part, slice? xs s' = some part := by
  obtain ⟨-, hlen, -⟩ := slice?_eq_some_iff.1 h
  exact ⟨_, slice?_eq_some_iff.2 ⟨hw.le, Nat.le_trans hw.stop_le hlen, rfl⟩⟩

end SchemaAlign
