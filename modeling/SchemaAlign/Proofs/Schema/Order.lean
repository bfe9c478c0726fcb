import SchemaAlign.Proofs.Schema.Changes
import SchemaAlign.Proofs.Schema.Failure
import SchemaAlign.Proofs.Schema.Load
import SchemaAlign.Proofs.Schema.Rewriting

/-!
# Edits in any order

Each edit is about an object of its own, and no token belongs to two objects. So what an edit does
to the tokens that are there does not depend on the edits before it. Only definitions that are added
to one source stand there in the order of the edits.

* `slots_perm`: what edits make of a token, in any order;
* `Edited.item?_of_mem`: what the schema holds of the target of an edit after all of them;
* `Reordered`: two schemas after the same edits in different orders;
* `apply_perm`: the edits of `diff` can be applied in any order.
-/

namespace SchemaAlign

variable {s t t' d : Schema} {e e' : Edit} {edits edits' : List Edit} {edition : Nat}
  {placement : SchemaObject → String} {id : String} {key : ObjectKey} {i : Nat}

namespace Edit

/-- What a schema has to hold of the target of the edit after it: the source and the definition. -/
def item? (d : Schema) (placement : SchemaObject → String) (e : Edit) : Option (String × String) :=
  e.desired?.map fun new => (e.touched placement, d.definition new)

/-- Edits that are not about the same token can change places. -/
theorem slot_comm (h : e.covers id i = true → e'.covers id i = false) (t : Token) :
    e'.slot d id i (e.slot d id i t) = e.slot d id i (e'.slot d id i t) := by
  cases he : e.covers id i with
  | true => simp [slot, he, h he]
  | false => simp [slot, he]

end Edit

namespace Schema

/-! ## Tokens in place -/

theorem slots_perm (hs : s.Consistent) (hfits : ∀ e ∈ edits, e.Fits s d)
    (htargets : (edits.map (·.target)).Nodup) (hperm : edits'.Perm edits) (id : String) :
    slots d id edits' = slots d id edits := by
  funext i t
  refine (hperm.symm.foldl_eq' (fun e he e' he' t => ?_) t).symm
  by_cases heq : e = e'
  · rw [heq]
  · -- Different edits have different targets.
    have hne : e.target ≠ e'.target := fun h =>
      heq (List.inj_on_of_nodup_map htargets he he' h)
    exact Edit.slot_comm (covers_unique hs (hfits e he) (hfits e' he') hne) t

/-! ## What the schema holds -/

theorem isSome_item? : (s.item? key).isSome = (s.get? key).isSome :=
  Option.isSome_map

/-- Of the target of an edit the schema holds what the edit says. -/
theorem Edited.item?_of_mem (h : Edited s d placement edits t) (he : e ∈ edits) :
    t.item? e.target = e.item? d placement := by
  have hagrees := h.targets e he
  cases e with
  | remove old => exact congrArg (Option.map _) hagrees
  | add new | modify _ new =>
    obtain ⟨o, hget, hsource, hdefinition⟩ := hagrees
    rw [item?, Edit.target, hget, Option.map_some, hsource, hdefinition]
    rfl

/-- Of any other key it holds what it held before. -/
theorem Edited.item?_of_forall_ne (h : Edited s d placement edits t)
    (hkey : ∀ e ∈ edits, e.target ≠ key) : t.item? key = s.item? key := by
  rw [item?, item?, h.objects key hkey]
  cases hget : s.get? key with
  | none => rfl
  | some o =>
    obtain ⟨ho, rfl⟩ := get?_eq_some hget
    rw [Option.map_some, Option.map_some, definition, h.definitions o ho hkey]
    rfl

theorem Edited.item?_perm (h : Edited s d placement edits t)
    (h' : Edited s d placement edits' t') (hperm : edits'.Perm edits) (key : ObjectKey) :
    t'.item? key = t.item? key := by
  by_cases hkey : ∃ e ∈ edits, e.target = key
  · obtain ⟨e, he, rfl⟩ := hkey
    rw [h.item?_of_mem he, h'.item?_of_mem (hperm.mem_iff.2 he)]
  · simp only [not_exists, not_and] at hkey
    rw [h.item?_of_forall_ne hkey,
      h'.item?_of_forall_ne fun e he => hkey e (hperm.mem_iff.1 he)]

/-! ## Changed sources -/

theorem nodup_foldl_mark {changed : List String} (h : changed.Nodup) (ids : List String) :
    (ids.foldl mark changed).Nodup := by
  induction ids generalizing changed with
  | nil => exact h
  | cons id ids ih => exact ih (nodup_mark h id)

theorem Edited.changed_perm (h : Edited s d placement edits t)
    (h' : Edited s d placement edits' t') (hperm : edits'.Perm edits) (hpending : s.changed = []) :
    t'.changed.Perm t.changed := by
  have hnodup {edits : List Edit} {t : Schema} (h : Edited s d placement edits t) :
      t.changed.Nodup := by
    rw [h.changed, hpending]
    exact nodup_foldl_mark .nil _
  -- Every source is noted once, and it is noted if an edit touches it.
  refine (List.perm_ext_iff_of_nodup (hnodup h') (hnodup h)).2 fun id => ?_
  rw [h.mem_changed hpending, h'.mem_changed hpending]
  simp only [hperm.mem_iff]

/-! ## Edits in another order -/

/-- The tokens of a source that was not there before the definitions were added to it. There is none
    without definitions. -/
def begun : List (List Token) → Option (List Token)
  | [] => none
  | definition :: definitions => some (definition ++ separated definitions)

/-- `t` and `t'` are `s` after the same edits in different orders. They hold the same objects, in
    the same sources and with the same definitions. The tokens that were there are the same. What
    was added to a source is the same, but for the order. -/
structure Reordered (s d : Schema) (placement : SchemaObject → String) (edits edits' : List Edit)
    (t t' : Schema) : Prop where
  items : ∀ key, t'.item? key = t.item? key
  changed : t'.changed.Perm t.changed
  additions : ∀ id, (additions d placement id edits').Perm (additions d placement id edits)
  old : ∀ id source, s.source? id = some source → ∃ kept, kept.length = source.tokens.length ∧
    t.tokens? id = some (kept ++ separated (Schema.additions d placement id edits)) ∧
    t'.tokens? id = some (kept ++ separated (Schema.additions d placement id edits'))
  new : ∀ id, s.source? id = none → t.tokens? id = begun (Schema.additions d placement id edits) ∧
    t'.tokens? id = begun (Schema.additions d placement id edits')

theorem Edited.reordered (hs : s.Consistent) (hpending : s.changed = [])
    (hfits : ∀ e ∈ edits, e.Fits s d) (htargets : (edits.map (·.target)).Nodup)
    (hperm : edits'.Perm edits) (h : Edited s d placement edits t)
    (h' : Edited s d placement edits' t') : Reordered s d placement edits edits' t t' where
  items := h.item?_perm h' hperm
  changed := h.changed_perm h' hperm hpending
  additions id := hperm.filterMap _
  old id source hsource := by
    refine ⟨_, List.length_mapIdx, h.old id source hsource, ?_⟩
    rw [h'.old id source hsource, slots_perm hs hfits htargets hperm]
  new id hid := by
    rw [h.new id hid, h'.new id hid]
    constructor
    · cases Schema.additions d placement id edits <;> rfl
    · cases Schema.additions d placement id edits' <;> rfl

/-- They hold objects of the same keys. -/
theorem Reordered.contains (h : Reordered s d placement edits edits' t t') (key : ObjectKey) :
    t'.contains key = t.contains key := by
  rw [← get?_isSome, ← get?_isSome, ← isSome_item?, ← isSome_item?, h.items]

/-- A source to which at most one definition is added has one text. -/
theorem Reordered.render? (h : Reordered s d placement edits edits' t t') {id : String}
    (hlen : (Schema.additions d placement id edits).length ≤ 1) : t'.render? id = t.render? id := by
  have hadditions : Schema.additions d placement id edits' =
      Schema.additions d placement id edits := by
    have hperm := h.additions id
    match hxs : Schema.additions d placement id edits with
    | [] => rw [hxs] at hperm; exact hperm.eq_nil
    | [x] => rw [hxs] at hperm; exact List.perm_singleton.1 hperm
    | _ :: _ :: _ => rw [hxs] at hlen; simp at hlen
  rw [render?_eq, render?_eq]
  congr 1
  cases hsource : s.source? id with
  | none =>
    obtain ⟨ht, ht'⟩ := h.new id hsource
    rw [ht, ht', hadditions]
  | some source =>
    obtain ⟨kept, -, ht, ht'⟩ := h.old id source hsource
    rw [ht, ht', hadditions]

/-- The edits between two schemas can be applied in any order: all of them succeed, and what comes
    out differs in nothing but the order of the definitions that are added to one source. -/
theorem apply_perm (hs : s.WellFormed) (hd : d.WellFormed) (hpending : s.changed = [])
    (edition : Nat) (placement : SchemaObject → String) :
    ∃ edits t, s.diff d = .ok edits ∧
      s.apply edition d edits placement = (t, .ok (!edits.isEmpty)) ∧
      ∀ edits', edits'.Perm edits → ∃ t',
        s.apply edition d edits' placement = (t', .ok (!edits.isEmpty)) ∧
        Reordered s d placement edits edits' t t' ∧
        (∀ key, t'.contains key = t.contains key) ∧
        ∀ id, (additions d placement id edits).length ≤ 1 → t'.render? id = t.render? id := by
  have hs := hs.consistent
  have hd := hd.consistent
  have hfits (e : Edit) (he : e ∈ s.edits d) : e.Fits s d := fits_of_mem_edits he
  have htargets := nodup_targets hs hd
  have run {edits' : List Edit} (hperm : edits'.Perm (s.edits d)) : ∃ t',
      s.apply edition d edits' placement = (t', .ok (!(s.edits d).isEmpty)) ∧
        Edited s d placement edits' t' := by
    obtain ⟨t', hrun, h'⟩ := exists_edited hs hd (fun e he => hfits e (hperm.mem_iff.1 he))
      ((hperm.map _).nodup_iff.2 htargets) edition placement
    exact ⟨t', (apply_eq_ok_iff hpending).2 ⟨hrun, by rw [hperm.isEmpty_eq]⟩, h'⟩
  -- The order of `diff` is one of the orders.
  obtain ⟨t, happly, h⟩ := run (.refl _)
  refine ⟨s.edits d, t, hs.diff hd, happly, fun edits' hperm => ?_⟩
  obtain ⟨t', happly', h'⟩ := run hperm
  have hreordered := h.reordered hs hpending hfits htargets hperm h'
  exact ⟨t', happly', hreordered, hreordered.contains, fun id => hreordered.render?⟩

/-- Four edits, the last one first. Both definitions that are added go to one source. -/
theorem apply_perm_reversed :
    let s := (empty.load 0 "a" "CREATE VIEW v AS 1;CREATE VIEW w AS 2").1
    let d := (empty.load 0 "b" "CREATE VIEW v AS 3;CREATE INDEX i ON t;CREATE INDEX j ON t;").1
    let edits := s.edits d
    let apply edits := s.apply 1 d edits fun _ => "n"
    edits.map (·.tag) = ["modify", "add", "add", "remove"] ∧
      ∃ t t', apply edits = (t, .ok true) ∧ apply edits.reverse = (t', .ok true) ∧
        Reordered s d (fun _ => "n") edits edits.reverse t t' ∧
        t'.render? "a" = t.render? "a" ∧
        t.render? "n" = some "CREATE INDEX i ON t;\n\nCREATE INDEX j ON t;" ∧
        t'.render? "n" = some "CREATE INDEX j ON t;\n\nCREATE INDEX i ON t;" := by
  intro s d edits apply
  have hs : s.WellFormed := wellFormed_load _ _ _
  have hd : d.WellFormed := wellFormed_load _ _ _
  have hrun : (s.changed = [] ∧ edits.isEmpty = false) ∧
      edits.map (·.tag) = ["modify", "add", "add", "remove"] ∧
      (additions d (fun _ => "n") "a" edits).length ≤ 1 ∧
      (apply edits).1.render? "n" = some "CREATE INDEX i ON t;\n\nCREATE INDEX j ON t;" ∧
      (apply edits.reverse).1.render? "n" =
        some "CREATE INDEX j ON t;\n\nCREATE INDEX i ON t;" := by decide +kernel
  obtain ⟨⟨hpending, hedits⟩, htags, hlen, htext, htext'⟩ := hrun
  obtain ⟨edits', t, hdiff, happly, hperm⟩ := apply_perm hs hd hpending 1 fun _ => "n"
  obtain rfl : edits = edits' :=
    Except.ok.inj ((hs.consistent.diff hd.consistent).symm.trans hdiff)
  obtain ⟨t', happly', hreordered, -, hrender⟩ := hperm edits.reverse edits.reverse_perm
  rw [hedits] at happly happly'
  refine ⟨htags, t, t', happly, happly', hreordered, hrender "a" hlen, ?_, ?_⟩
  · rwa [show apply edits = (t, _) from happly] at htext
  · rwa [show apply edits.reverse = (t', _) from happly'] at htext'

end Schema

end SchemaAlign
