import Mathlib.Data.List.Nodup
import SchemaAlign.Proofs.Span
import SchemaAlign.Schema.Update

/-!
# Consistent schemas

In a consistent schema every object points to tokens of its own.

* `Schema.Consistent`: this invariant;
* `Schema.definition`: the text of the definition of an object;
* `Consistent.withTokens`, `Consistent.append`: changing the tokens of a source keeps it.
-/

namespace SchemaAlign

namespace Schema

variable {s : Schema} {o o' : SchemaObject} {key : ObjectKey} {id id' : String} {source : Source}
  {tokens : List Token}

/-! ## Looking up -/

theorem get?_eq_some (h : s.get? key = some o) : o ∈ s.objects ∧ o.key = key := by
  refine ⟨List.mem_of_find?_eq_some h, ?_⟩
  simpa using List.find?_some h

theorem source?_eq_some (h : s.source? id = some source) : source ∈ s.sources ∧ source.id = id := by
  refine ⟨List.mem_of_find?_eq_some h, ?_⟩
  simpa using List.find?_some h

theorem contains_iff : s.contains key = true ↔ ∃ o ∈ s.objects, o.key = key := by
  simp [contains]

theorem contains_eq_false_iff : s.contains key = false ↔ ∀ o ∈ s.objects, o.key ≠ key := by
  simp [contains]

theorem get?_eq_none_iff : s.get? key = none ↔ s.contains key = false := by
  rw [contains_eq_false_iff]
  simp [get?]

theorem get?_isSome : (s.get? key).isSome = s.contains key := by
  rw [Bool.eq_iff_iff, contains_iff, get?, List.find?_isSome]
  simp

/-- The tokens of the definition of an object that is in the schema. -/
def definitionTokens (s : Schema) (o : SchemaObject) : List Token :=
  match s.objectTokens o with
  | .ok tokens => tokens
  | .error _ => []

/-- The text of the definition of an object that is in the schema. -/
def definition (s : Schema) (o : SchemaObject) : String :=
  Token.render (s.definitionTokens o)

/-! ## The invariant -/

/-- Sources and objects have names of their own, every object points to some tokens of its source,
    no token belongs to two objects, and the sources that were changed are sources of the schema. -/
structure Consistent (s : Schema) : Prop where
  sources : (s.sources.map (·.id)).Nodup
  keys : (s.objects.map (·.key)).Nodup
  located : ∀ o ∈ s.objects, ∃ source, s.source? o.source = some source ∧
    source.edition = o.edition ∧ o.span.start < o.span.stop ∧ o.span.stop ≤ source.tokens.length
  apart : ∀ o ∈ s.objects, ∀ o' ∈ s.objects, o.key ≠ o'.key → o.source = o'.source →
    o.span.Apart o'.span
  changed : ∀ id ∈ s.changed, (s.source? id).isSome = true

theorem consistent_empty : empty.Consistent :=
  ⟨.nil, .nil, nofun, nofun, nofun⟩

theorem Consistent.get?_key (h : s.Consistent) (ho : o ∈ s.objects) : s.get? o.key = some o := by
  cases hget : s.get? o.key with
  | none =>
    rw [get?_eq_none_iff, contains_eq_false_iff] at hget
    exact absurd rfl (hget o ho)
  | some o' =>
    obtain ⟨ho', hkey⟩ := get?_eq_some hget
    rw [List.inj_on_of_nodup_map h.keys ho' ho hkey]

theorem Consistent.source?_id (h : s.Consistent) (hsource : source ∈ s.sources) :
    s.source? source.id = some source := by
  cases hget : s.source? source.id with
  | none =>
    have := List.find?_eq_none.1 hget source hsource
    simp at this
  | some source' =>
    obtain ⟨hsource', hid⟩ := source?_eq_some hget
    rw [List.inj_on_of_nodup_map h.sources hsource' hsource hid]

/-- Every object of the schema has a definition, of at least one token. -/
theorem Consistent.slice? (h : s.Consistent) (ho : o ∈ s.objects)
    (hsource : s.source? o.source = some source) :
    slice? source.tokens o.span = some (s.definitionTokens o) ∧
      s.objectTokens o = .ok (s.definitionTokens o) := by
  obtain ⟨source', hsource', hedition, hlt, hle⟩ := h.located o ho
  obtain rfl : source' = source := Option.some.inj (hsource'.symm.trans hsource)
  obtain ⟨tokens, hslice⟩ : ∃ tokens, SchemaAlign.slice? source'.tokens o.span = some tokens :=
    ⟨_, slice?_eq_some_iff.2 ⟨Nat.le_of_lt hlt, hle, rfl⟩⟩
  have hok : s.objectTokens o = .ok tokens := by
    simp only [Schema.objectTokens, hsource, hedition, hslice]
    simp
  rw [definitionTokens, hok]
  exact ⟨hslice, rfl⟩

theorem Consistent.objectTokens (h : s.Consistent) (ho : o ∈ s.objects) :
    s.objectTokens o = .ok (s.definitionTokens o) := by
  obtain ⟨source, hsource, -⟩ := h.located o ho
  exact (h.slice? ho hsource).2

/-! ## Changing tokens -/

theorem source?_withTokens (s : Schema) (id : String) (tokens : List Token) (id' : String) :
    (s.withTokens id tokens).source? id' =
      (s.source? id').map fun source =>
        if source.id == id then { source with tokens } else source := by
  simp only [source?, withTokens, List.find?_map]
  congr 2
  funext source
  simp only [Function.comp]
  split <;> rfl

theorem source?_withTokens_self (h : s.source? id = some source) :
    (s.withTokens id tokens).source? id = some { source with tokens } := by
  rw [source?_withTokens, h, Option.map_some, (source?_eq_some h).2, beq_self_eq_true, if_pos rfl]

theorem source?_withTokens_of_ne (tokens : List Token) (h : id' ≠ id) :
    (s.withTokens id tokens).source? id' = s.source? id' := by
  rw [source?_withTokens]
  cases hget : s.source? id' with
  | none => rfl
  | some source =>
    have hid : (source.id == id) = false := by
      rw [(source?_eq_some hget).2]
      exact beq_false_of_ne h
    simp only [Option.map_some, hid, Bool.false_eq_true, if_false]

theorem isSome_source?_withTokens (s : Schema) (id : String) (tokens : List Token) (id' : String) :
    ((s.withTokens id tokens).source? id').isSome = (s.source? id').isSome := by
  rw [source?_withTokens, Option.isSome_map]

theorem ids_withTokens (s : Schema) (id : String) (tokens : List Token) :
    (s.withTokens id tokens).sources.map (·.id) = s.sources.map (·.id) := by
  simp only [withTokens, List.map_map]
  refine List.map_congr_left fun source _ => ?_
  simp only [Function.comp]
  split <;> rfl

theorem source?_markChanged (s : Schema) (id id' : String) :
    (s.markChanged id).source? id' = s.source? id' := by
  unfold markChanged
  split <;> rfl

theorem objects_markChanged (s : Schema) (id : String) : (s.markChanged id).objects = s.objects := by
  unfold markChanged
  split <;> rfl

theorem mem_changed_markChanged : id' ∈ (s.markChanged id).changed ↔ id' ∈ s.changed ∨ id' = id := by
  unfold markChanged
  split
  · next h =>
    simp only [List.contains_iff_mem] at h
    constructor
    · exact .inl
    · rintro (h' | rfl)
      · exact h'
      · exact h
  · simp

/-- The definition of an object depends on nothing but the tokens of its source. -/
theorem objectTokens_congr {s' : Schema} (h : s'.source? o.source = s.source? o.source) :
    s'.objectTokens o = s.objectTokens o := by
  simp only [objectTokens, h]

/-- Tokens may change and be added, but none may go away. -/
theorem Consistent.withTokens (h : s.Consistent) (hsource : s.source? id = some source)
    (hlen : source.tokens.length ≤ tokens.length) : (s.withTokens id tokens).Consistent where
  sources := by rw [ids_withTokens]; exact h.sources
  keys := h.keys
  located := by
    intro o ho
    obtain ⟨source', hsource', hedition, hlt, hle⟩ := h.located o ho
    -- A span in the changed source still ends within it, since it did not get shorter.
    by_cases hid : o.source = id
    · obtain rfl : source' = source := Option.some.inj (hsource'.symm.trans (hid ▸ hsource))
      rw [hid]
      exact ⟨{ source' with tokens }, source?_withTokens_self hsource, hedition, hlt,
        Nat.le_trans hle hlen⟩
    · exact ⟨source', (source?_withTokens_of_ne _ hid).trans hsource', hedition, hlt, hle⟩
  apart := h.apart
  changed := by
    intro id' hid'
    rw [isSome_source?_withTokens]
    exact h.changed id' hid'

theorem Consistent.markChanged (h : s.Consistent) (hid : (s.source? id).isSome = true) :
    (s.markChanged id).Consistent where
  sources := by
    unfold Schema.markChanged
    split <;> exact h.sources
  keys := by rw [objects_markChanged]; exact h.keys
  located := by
    simp only [objects_markChanged, source?_markChanged]
    exact h.located
  apart := by rw [objects_markChanged]; exact h.apart
  changed := by
    intro id' hid'
    rw [source?_markChanged]
    obtain hid' | rfl := mem_changed_markChanged.1 hid'
    · exact h.changed id' hid'
    · exact hid

/-- Objects may be dropped. -/
theorem Consistent.filter (h : s.Consistent) (p : SchemaObject → Bool) :
    { s with objects := s.objects.filter p }.Consistent where
  sources := h.sources
  keys := (List.filter_sublist.map _).nodup h.keys
  located := fun o ho => h.located o (List.mem_of_mem_filter ho)
  apart := fun o ho o' ho' => h.apart o (List.mem_of_mem_filter ho) o' (List.mem_of_mem_filter ho')
  changed := h.changed

theorem source?_append (new : Source) (hnew : s.source? new.id = none) (id : String) :
    { s with sources := s.sources ++ [new] }.source? id =
      if id = new.id then some new else s.source? id := by
  simp only [source?, List.find?_append]
  by_cases hid : id = new.id
  · subst hid
    rw [show s.sources.find? (·.id == new.id) = none from hnew]
    simp
  · have : (new.id == id) = false := beq_false_of_ne (Ne.symm hid)
    cases s.sources.find? (·.id == id) <;> simp [hid, this]

theorem source?_append_of_isSome (new : Source) (hnew : s.source? new.id = none)
    (h : s.source? id = some source) :
    { s with sources := s.sources ++ [new] }.source? id = some source := by
  rw [source?_append new hnew, if_neg, h]
  rintro rfl
  rw [hnew] at h
  cases h

/-- Sources may be added. -/
theorem Consistent.append (h : s.Consistent) {new : Source} (hnew : s.source? new.id = none) :
    { s with sources := s.sources ++ [new] }.Consistent where
  sources := by
    rw [List.map_append, List.nodup_append]
    refine ⟨h.sources, List.nodup_singleton _, ?_⟩
    rintro _ hid _ hid' rfl
    obtain ⟨source, hsource, hid⟩ := List.mem_map.1 hid
    rw [List.map_singleton, List.mem_singleton] at hid'
    have := h.source?_id hsource
    rw [hid, hid', hnew] at this
    cases this
  keys := h.keys
  located := by
    intro o ho
    obtain ⟨source, hsource, hrest⟩ := h.located o ho
    exact ⟨source, source?_append_of_isSome _ hnew hsource, hrest⟩
  apart := h.apart
  changed := by
    intro id hid
    obtain ⟨source, hsource⟩ := Option.isSome_iff_exists.1 (h.changed id hid)
    rw [source?_append_of_isSome _ hnew hsource]
    rfl

/-- Objects may be added where no object is. -/
theorem Consistent.addObject (h : s.Consistent) (hkey : s.contains o.key = false)
    (hsource : s.source? o.source = some source) (hedition : source.edition = o.edition)
    (hlt : o.span.start < o.span.stop) (hle : o.span.stop ≤ source.tokens.length)
    (hapart : ∀ o' ∈ s.objects, o'.source = o.source → o'.span.Apart o.span) :
    s.addObject o = .ok { s with objects := s.objects ++ [o] } ∧
      { s with objects := s.objects ++ [o] }.Consistent := by
  refine ⟨?_, h.sources, ?_, ?_, ?_, h.changed⟩
  · simp [Schema.addObject, hkey, hsource, hedition]
  · rw [List.map_append, List.nodup_append]
    refine ⟨h.keys, List.nodup_singleton _, ?_⟩
    rintro _ hmem _ hmem' rfl
    obtain ⟨o', ho', hkey'⟩ := List.mem_map.1 hmem
    rw [List.map_singleton, List.mem_singleton] at hmem'
    exact contains_eq_false_iff.1 hkey o' ho' (hkey'.trans hmem')
  · refine List.forall_mem_append.2 ⟨h.located, List.forall_mem_singleton.2 ?_⟩
    exact ⟨source, hsource, hedition, hlt, hle⟩
  · intro o₁ h₁ o₂ h₂ hne hid
    simp only [List.mem_append, List.mem_singleton] at h₁ h₂
    -- Two old objects, an old and the new one in either order, and the new one twice.
    obtain h₁ | rfl := h₁ <;> obtain h₂ | rfl := h₂
    · exact h.apart o₁ h₁ o₂ h₂ hne hid
    · exact hapart o₁ h₁ hid
    · exact (hapart o₂ h₂ hid.symm).symm
    · exact absurd rfl hne

end Schema

end SchemaAlign
