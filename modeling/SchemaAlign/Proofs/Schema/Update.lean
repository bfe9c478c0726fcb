import SchemaAlign.Proofs.Schema.Diff

/-!
# Bringing a schema in line with another one

* `Consistent.update`: an update takes the edits that `diff` finds, and never fails;
* `update_of_inSync`: there is nothing to do for schemas in sync;
* `update_of_pending`: nothing happens while changes wait to be taken.
-/

namespace SchemaAlign

namespace Schema

variable {s t d : Schema} {edition : Nat} {placement : SchemaObject → String}
  {edits : List Edit} {e : Edit} {id : String} {i : Nat}

/-! ## Changed sources -/

/-- Noting changes one after the other, each source once. -/
theorem foldl_mark (ids changed : List String) :
    ids.foldl mark changed = changed ++ (ids.filter (!changed.contains ·)).eraseDups := by
  induction ids generalizing changed with
  | nil => simp
  | cons id ids ih =>
    -- An id that is noted already is filtered out; a new one is dropped from what follows it.
    rw [List.foldl_cons, ih, mark]
    by_cases hid : changed.contains id = true
    · rw [if_pos hid, List.filter_cons_of_neg (by simpa using hid)]
    · rw [if_neg hid, List.filter_cons_of_pos (by simpa using hid), List.eraseDups_cons,
        List.filter_filter, List.append_assoc, List.singleton_append]
      have hfilter : ids.filter (!(changed ++ [id]).contains ·) =
          ids.filter fun id' => !id' == id && !changed.contains id' := by
        refine List.filter_congr fun id' _ => ?_
        by_cases h : id' = id <;> simp [h]
      rw [hfilter]

theorem foldl_mark_nil (ids : List String) : ids.foldl mark [] = ids.eraseDups := by
  rw [foldl_mark]
  simp

/-! ## The update -/

/-- An update does nothing while changes wait to be taken. -/
theorem update_of_pending (h : s.changed ≠ []) :
    s.update edition d placement = (s, .error (.pendingChanges s.changed.length)) := by
  have : s.hasPending = true := by simpa [hasPending] using h
  rw [Schema.update, this, if_pos rfl]

theorem apply_eq (h : s.changed = []) (edits : List Edit) :
    s.apply edition d edits placement =
      ((runEach (applyEdit edition d placement) s edits).1,
        (runEach (applyEdit edition d placement) s edits).2.map fun _ =>
          (runEach (applyEdit edition d placement) s edits).1.hasPending) := by
  have : s.hasPending = false := by simp [hasPending, h]
  rw [apply, this, if_neg nofun]

/-- An update never fails. What each edit preserves, the update preserves. -/
theorem Consistent.update_preserves {P : Schema → Prop} (hs : s.Consistent) (hd : d.Consistent)
    (hpending : s.changed = []) (hP : P s)
    (hstep : ∀ t e t', t.Consistent → Applied d edition placement t e t' → P t → P t') :
    ∃ t, s.update edition d placement = (t, .ok (!(s.edits d).isEmpty)) ∧
      Edited s d placement (s.edits d) t ∧ P t := by
  obtain ⟨t, hrun, ht, hPt⟩ := edited_runEach hs hd (fun e he => fits_of_mem_edits he)
    (nodup_targets hs hd) hP hstep
  refine ⟨t, ?_, ht, hPt⟩
  have hchanged : t.hasPending = !(s.edits d).isEmpty := by
    rw [hasPending, ht.changed, hpending, foldl_mark_nil]
    cases s.edits d <;> simp [List.eraseDups_cons]
  have hnone : s.hasPending = false := by simp [hasPending, hpending]
  rw [Schema.update, hnone, if_neg nofun, hs.diff hd]
  simp only [apply_eq hpending, hrun, Except.map, hchanged]

theorem Consistent.update (hs : s.Consistent) (hd : d.Consistent) (hpending : s.changed = [])
    (edition : Nat) (placement : SchemaObject → String) :
    ∃ t, s.update edition d placement = (t, .ok (!(s.edits d).isEmpty)) ∧
      Edited s d placement (s.edits d) t := by
  have h : ∃ t, s.update edition d placement = (t, .ok (!(s.edits d).isEmpty)) ∧
      Edited s d placement (s.edits d) t ∧ True :=
    hs.update_preserves hd hpending trivial fun _ _ _ _ _ _ => trivial
  simpa using h

/-- There is nothing to do for schemas in sync. -/
theorem update_of_inSync (hs : s.Consistent) (hd : d.Consistent) (h : s.InSync d)
    (hpending : s.changed = []) : s.update edition d placement = (s, .ok false) := by
  have hnone : s.hasPending = false := by simp [hasPending, hpending]
  rw [Schema.update, hnone, if_neg nofun, hs.diff hd, (edits_eq_nil_iff hs hd).2 h]
  simp only [apply_eq hpending, runEach, Except.map, hnone]

/-! ## Sources that edits change -/

theorem slots_of_not_covers (h : ∀ e ∈ edits, e.covers id i = false) (t : Token) :
    slots d id edits i t = t := by
  induction edits with
  | nil => rfl
  | cons e edits ih =>
    obtain ⟨he, hedits⟩ := List.forall_mem_cons.1 h
    rw [slots, List.foldl_cons, Edit.slot, he, if_neg Bool.false_ne_true]
    exact ih hedits

theorem covers_of_touched_ne (h : e.touched placement ≠ id) : e.covers id i = false := by
  cases e with
  | add => rfl
  | modify old new | remove old => simp [Edit.covers, show old.source ≠ id from h]

theorem appended_of_touched_ne (h : e.touched placement ≠ id) :
    e.appended d placement id = none := by
  cases e with
  | add new => exact if_neg h
  | modify | remove => rfl

/-- A source that no edit touches keeps its tokens. -/
theorem Edited.tokens?_of_touched_ne (h : Edited s d placement edits t)
    (hid : ∀ e ∈ edits, e.touched placement ≠ id) : t.tokens? id = s.tokens? id := by
  have hadditions : additions d placement id edits = [] :=
    List.filterMap_eq_nil_iff.2 fun e he => appended_of_touched_ne (hid e he)
  cases hsource : s.source? id with
  | none => rw [h.new id hsource, hadditions, tokens?, hsource]; rfl
  | some source =>
    have hslots : source.tokens.mapIdx (slots d id edits) = source.tokens :=
      mapIdx_eq_self fun i _ => slots_of_not_covers (fun e he => covers_of_touched_ne (hid e he)) _
    rw [h.old id source hsource, hadditions, hslots, tokens?, hsource, separated,
      List.flatMap_nil, List.append_nil]
    rfl

theorem Edited.mem_changed (h : Edited s d placement edits t) (hpending : s.changed = []) :
    id ∈ t.changed ↔ ∃ e ∈ edits, e.touched placement = id := by
  rw [h.changed, hpending, foldl_mark_nil, List.mem_eraseDups, List.mem_map]

/-- A source that was not changed has the tokens it had. -/
theorem Edited.tokens?_of_not_mem (h : Edited s d placement edits t) (hpending : s.changed = [])
    (hid : id ∉ t.changed) : t.tokens? id = s.tokens? id := by
  refine h.tokens?_of_touched_ne fun e he heq => hid ?_
  exact (h.mem_changed hpending).2 ⟨e, he, heq⟩

theorem Edited.edits_eq_nil (h : Edited s d placement edits t) (hpending : t.changed = [])
    (hpending' : s.changed = []) : edits = [] := by
  refine List.eq_nil_iff_forall_not_mem.2 fun e he => ?_
  have hmem := (h.mem_changed hpending').2 ⟨e, he, rfl⟩
  rw [hpending] at hmem
  cases hmem

/-- A source that was changed was there before, or objects are placed in it. -/
theorem Edited.source_of_mem (hs : s.Consistent) (h : Edited s d placement (s.edits d) t)
    (hpending : s.changed = []) (hid : id ∈ t.changed) :
    (s.source? id).isSome = true ∨ ∃ new, .add new ∈ s.edits d ∧ placement new = id := by
  obtain ⟨e, he, rfl⟩ := (h.mem_changed hpending).1 hid
  cases fits_of_mem_edits he with
  | @add new => exact .inr ⟨new, he, rfl⟩
  | @modify old new hold | @remove old hold =>
    obtain ⟨source, hsource, -⟩ := hs.located old hold
    exact .inl (by rw [Edit.touched, hsource]; rfl)

/-- The source of an object was there before, or objects are placed in it. -/
theorem Edited.source_of_object {o : SchemaObject} (hs : s.Consistent)
    (h : Edited s d placement (s.edits d) t) (hpending : s.changed = []) (ho : o ∈ t.objects) :
    (s.source? o.source).isSome = true ∨ ∃ new, .add new ∈ s.edits d ∧ placement new = o.source := by
  -- A source that was not changed has the tokens it had, so it was there.
  by_cases hid : o.source ∈ t.changed
  · exact h.source_of_mem hs hpending hid
  · obtain ⟨source, hsource, -⟩ := h.consistent.located o ho
    have htokens := h.tokens?_of_not_mem hpending hid
    rw [tokens?, hsource, Option.map_some] at htokens
    obtain ⟨old, hold, -⟩ := Option.map_eq_some_iff.1 htokens.symm
    exact .inl (by rw [hold]; rfl)

/-! ## Changes that are taken -/

theorem Consistent.takeChanged (h : s.Consistent) : s.takeChanged.2.Consistent :=
  ⟨h.sources, h.keys, h.located, h.apart, nofun⟩

theorem InSync.takeChanged (h : s.InSync d) : s.takeChanged.2.InSync d :=
  h

end Schema

end SchemaAlign
