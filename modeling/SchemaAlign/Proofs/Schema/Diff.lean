import SchemaAlign.Proofs.Schema.Edit

/-!
# The edits between two schemas

* `Schema.edits`: the edits that `diff` finds between consistent schemas;
* `fits_of_mem_edits`, `nodup_targets`: they can be applied;
* `Schema.InSync`: both schemas define the same objects, alike; there are no edits exactly then;
* `Schema.Restates`: two schemas that ask for the same changes of any third one;
* `Edited.inSync`: the edits bring this about.
-/

namespace SchemaAlign

namespace Token

open Text

theorem sameWord_self (s : String) : sameWord s s = true := by
  unfold sameWord
  split
  · simp [eqIgnoreAsciiCase]
  · exact beq_self_eq_true _

theorem agrees_self (t : Token) : agrees t t = true := by
  unfold agrees
  split <;> simp [sameWord_self]

theorem pairwiseAgree_self (ts : List Token) : pairwiseAgree ts ts = true := by
  induction ts with
  | nil => rfl
  | cons t ts ih => simp [pairwiseAgree, agrees_self, ih]

/-- What is compared of a definition. -/
def substance (ts : List Token) : List Token :=
  withoutTerminator (relex ts)

theorem sameDefinition_eq (left right : List Token) :
    sameDefinition left right = sameMeaning (substance left) (substance right) :=
  rfl

/-- Definitions with the same text say the same. -/
theorem sameDefinition_of_render {left right : List Token} (h : render left = render right) :
    sameDefinition left right = true := by
  rw [sameDefinition, relex, relex, h]
  exact pairwiseAgree_self _

end Token

namespace Schema

variable {s t d : Schema} {edition : Nat} {placement : SchemaObject → String}
  {new old o : SchemaObject} {e : Edit} {key : ObjectKey}

/-! ## What the edits are -/

/-- The edit that gives `s` the given object of `d`, if one is needed. -/
def editFor (s d : Schema) (new : SchemaObject) : Option Edit :=
  match s.get? new.key with
  | none => some (.add new)
  | some old =>
    if Token.sameDefinition (s.definitionTokens old) (d.definitionTokens new) then none
    else some (.modify old new)

/-- The edits from one schema to another. -/
def edits (s d : Schema) : List Edit :=
  d.objects.filterMap (s.editFor d) ++ s.removals d

theorem mapM_eq_ok {ε α β : Type} {f : α → Except ε β} {g : α → β} {xs : List α}
    (h : ∀ x ∈ xs, f x = .ok (g x)) : xs.mapM f = .ok (xs.map g) := by
  induction xs with
  | nil => rfl
  | cons x xs ih =>
    obtain ⟨hx, hxs⟩ := List.forall_mem_cons.1 h
    rw [List.mapM_cons, hx, ih hxs]
    rfl

theorem differs_of_objectTokens {ts us : List Token} (hkey : old.key = new.key)
    (hold : s.objectTokens old = .ok ts) (hnew : d.objectTokens new = .ok us) :
    s.differs old d new = .ok (!Token.sameDefinition ts us) := by
  simp [differs, hkey, hold, hnew, bind, Except.bind, pure, Except.pure]

theorem differs_eq_ok (hs : s.Consistent) (hd : d.Consistent) (hold : old ∈ s.objects)
    (hnew : new ∈ d.objects) (hkey : old.key = new.key) : s.differs old d new =
      .ok (!Token.sameDefinition (s.definitionTokens old) (d.definitionTokens new)) :=
  differs_of_objectTokens hkey (hs.objectTokens hold) (hd.objectTokens hnew)

theorem edit?_eq_ok (hs : s.Consistent) (hd : d.Consistent) (hnew : new ∈ d.objects) :
    s.edit? d new = .ok (s.editFor d new) := by
  unfold edit? editFor
  cases hget : s.get? new.key with
  | none => rfl
  | some old =>
    obtain ⟨hold, hkey⟩ := get?_eq_some hget
    simp only [differs_eq_ok hs hd hold hnew hkey, bind, Except.bind, pure, Except.pure]
    cases Token.sameDefinition (s.definitionTokens old) (d.definitionTokens new) <;> rfl

theorem Consistent.diff (hs : s.Consistent) (hd : d.Consistent) : s.diff d = .ok (s.edits d) := by
  rw [Schema.diff, mapM_eq_ok fun new hnew => edit?_eq_ok hs hd hnew]
  simp only [bind, Except.bind, pure, Except.pure, edits]
  exact congrArg (fun changes => Except.ok (changes ++ s.removals d)) List.filterMap_map

theorem target_of_editFor (h : s.editFor d new = some e) : e.target = new.key := by
  unfold editFor at h
  split at h
  · cases h
    rfl
  · split at h <;> cases h
    rfl

/-- No edit is needed exactly if the object is held with a definition that says the same. -/
theorem editFor_eq_none_iff : s.editFor d new = none ↔ ∃ old, s.get? new.key = some old ∧
    Token.sameDefinition (s.definitionTokens old) (d.definitionTokens new) = true := by
  unfold editFor
  cases s.get? new.key <;> simp

theorem mem_removals : e ∈ s.removals d ↔
    ∃ old ∈ s.objects, d.contains old.key = false ∧ e = .remove old := by
  simp only [removals, List.mem_map, List.mem_filter]
  constructor
  · rintro ⟨old, ⟨hold, hkey⟩, rfl⟩
    exact ⟨old, hold, by simpa using hkey, rfl⟩
  · rintro ⟨old, hold, hkey, rfl⟩
    exact ⟨old, ⟨hold, by simpa using hkey⟩, rfl⟩

theorem fits_of_mem_edits (h : e ∈ s.edits d) : e.Fits s d := by
  obtain h | h := List.mem_append.1 h
  · obtain ⟨new, hnew, h⟩ := List.mem_filterMap.1 h
    unfold editFor at h
    split at h
    · next hget =>
      cases h
      exact .add hnew (get?_eq_none_iff.1 hget)
    · next old hget =>
      split at h <;> cases h
      obtain ⟨hold, hkey⟩ := get?_eq_some hget
      exact .modify hold hnew hkey
  · obtain ⟨old, hold, -, rfl⟩ := mem_removals.1 h
    exact .remove hold

theorem mem_of_mem_edits (h : e ∈ s.edits d) (hnew : e.desired? = some new) : new ∈ d.objects := by
  cases fits_of_mem_edits h with
  | add hmem | modify _ hmem =>
    cases hnew
    exact hmem
  | remove => cases hnew

/-- No two edits are about the same object. -/
theorem nodup_targets (hs : s.Consistent) (hd : d.Consistent) :
    ((s.edits d).map (·.target)).Nodup := by
  have hadd : ((d.objects.filterMap (s.editFor d)).map (·.target)).Sublist
      (d.objects.map (·.key)) := by
    induction d.objects with
    | nil => exact .slnil
    | cons new objects ih =>
      rw [List.filterMap_cons]
      cases hedit : s.editFor d new with
      | none => exact ih.cons _
      | some e =>
        rw [List.map_cons, List.map_cons, target_of_editFor hedit]
        exact ih.cons_cons _
  have hremove : (s.removals d).map (·.target) =
      (s.objects.filter (!d.contains ·.key)).map (·.key) := by
    rw [removals, List.map_map]
    rfl
  rw [edits, List.map_append, List.nodup_append, hremove]
  refine ⟨hadd.nodup hd.keys, (List.filter_sublist.map _).nodup hs.keys, ?_⟩
  -- What is removed is not in `d`, so no other edit is about it.
  rintro _ h _ h' rfl
  obtain ⟨new, hnew, hkey⟩ := List.mem_map.1 (hadd.subset h)
  obtain ⟨old, hold, hkey'⟩ := List.mem_map.1 h'
  have hcontains : d.contains old.key = false := by simpa using (List.mem_filter.1 hold).2
  exact contains_eq_false_iff.1 hcontains new hnew (hkey.trans hkey'.symm)

/-! ## Schemas in sync -/

/-- Both schemas define the same objects, and each definition says the same. -/
def InSync (s d : Schema) : Prop :=
  ∀ key, match s.get? key, d.get? key with
    | none, none => True
    | some o, some o' =>
      Token.sameDefinition (s.definitionTokens o) (d.definitionTokens o') = true
    | _, _ => False

theorem InSync.exists_same (h : s.InSync d) (hnew : d.get? key = some new) :
    ∃ o, s.get? key = some o ∧
      Token.sameDefinition (s.definitionTokens o) (d.definitionTokens new) = true := by
  have hkey := h key
  rw [hnew] at hkey
  cases hget : s.get? key with
  | none => rw [hget] at hkey; exact hkey.elim
  | some o =>
    rw [hget] at hkey
    exact ⟨o, rfl, hkey⟩

/-- Schemas are in sync exactly if there is nothing to do. -/
theorem edits_eq_nil_iff (hs : s.Consistent) (hd : d.Consistent) :
    s.edits d = [] ↔ s.InSync d := by
  simp only [edits, List.append_eq_nil_iff, List.filterMap_eq_nil_iff]
  constructor
  · rintro ⟨hedit, hremove⟩ key
    cases hget : d.get? key with
    | some new =>
      obtain ⟨hnew, rfl⟩ := get?_eq_some hget
      obtain ⟨old, hold, hsame⟩ := editFor_eq_none_iff.1 (hedit new hnew)
      rw [hold]
      exact hsame
    | none =>
      cases hget' : s.get? key with
      | none => trivial
      | some old =>
        obtain ⟨hold, rfl⟩ := get?_eq_some hget'
        have h := mem_removals.2 ⟨old, hold, get?_eq_none_iff.1 hget, rfl⟩
        rw [hremove] at h
        cases h
  · intro h
    refine ⟨fun new hnew => editFor_eq_none_iff.2 (h.exists_same (hd.get?_key hnew)),
      List.eq_nil_iff_forall_not_mem.2 fun e he => ?_⟩
    -- An object that is removed is not wanted, but held.
    obtain ⟨old, hold, hcontains, rfl⟩ := mem_removals.1 he
    have hkey := h old.key
    rw [hs.get?_key hold, get?_eq_none_iff.2 hcontains] at hkey
    exact hkey

theorem edits_self (hs : s.Consistent) : s.edits s = [] := by
  refine (edits_eq_nil_iff hs hs).2 fun key => ?_
  cases s.get? key with
  | none => trivial
  | some o => exact Token.sameDefinition_of_render rfl

theorem InSync.contains (h : s.InSync d) (key : ObjectKey) : s.contains key = d.contains key := by
  have hkey := h key
  rw [← get?_isSome, ← get?_isSome]
  cases hs : s.get? key <;> cases hd : d.get? key <;> simp_all

/-- Only what `d` does not hold is removed. -/
theorem get?_eq_none_of_remove (h : .remove old ∈ s.edits d) : d.get? old.key = none := by
  obtain h | h := List.mem_append.1 h
  · obtain ⟨new, -, h⟩ := List.mem_filterMap.1 h
    unfold editFor at h
    split at h
    · cases h
    · split at h <;> cases h
  · obtain ⟨old', -, hcontains, h⟩ := mem_removals.1 h
    cases h
    exact get?_eq_none_iff.2 hcontains

/-- Objects that no edit is about are in sync already. -/
theorem inSync_of_no_edit (hkey : ∀ e ∈ s.edits d, e.target ≠ key) :
    (s.get? key = none ∧ d.get? key = none) ∨
      ∃ old new, s.get? key = some old ∧ d.get? key = some new ∧
        Token.sameDefinition (s.definitionTokens old) (d.definitionTokens new) = true := by
  cases hget : d.get? key with
  | some new =>
    obtain ⟨hnew, rfl⟩ := get?_eq_some hget
    have hedit : s.editFor d new = none := by
      refine Option.eq_none_iff_forall_ne_some.2 fun e he => ?_
      exact hkey e (List.mem_append_left _ (List.mem_filterMap.2 ⟨new, hnew, he⟩))
        (target_of_editFor he)
    unfold editFor at hedit
    split at hedit
    · cases hedit
    · next old hold =>
      refine .inr ⟨old, new, hold, rfl, ?_⟩
      split at hedit
      · assumption
      · cases hedit
  | none =>
    refine .inl ⟨?_, rfl⟩
    refine Option.eq_none_iff_forall_ne_some.2 fun old hget' => ?_
    obtain ⟨hold, rfl⟩ := get?_eq_some hget'
    exact hkey _ (List.mem_append_right _
      (mem_removals.2 ⟨old, hold, get?_eq_none_iff.1 hget, rfl⟩)) rfl

/-- The edits between two schemas bring them in sync. -/
theorem Edited.inSync (hd : d.Consistent) (h : Edited s d placement (s.edits d) t) : t.InSync d := by
  intro key
  -- Where no edit is needed, both definitions say the same already.
  by_cases hkey : ∀ e ∈ s.edits d, e.target ≠ key
  · rw [h.objects key hkey]
    obtain ⟨hnone, hnone'⟩ | ⟨old, new, hold, hnew, hsame⟩ := inSync_of_no_edit hkey
    · rw [hnone, hnone']
      trivial
    · obtain ⟨hmem, rfl⟩ := get?_eq_some hold
      rw [hold, hnew]
      dsimp only
      rw [h.definitions old hmem hkey, hsame]
  · simp only [not_forall, not_not] at hkey
    obtain ⟨e, he, rfl⟩ := hkey
    have htarget := h.targets e he
    have hfits := fits_of_mem_edits he
    cases hfits with
    | remove hold =>
      rw [Edit.target, show t.get? _ = none from htarget, get?_eq_none_of_remove he]
      trivial
    | add hnew _ | modify _ hnew _ =>
      obtain ⟨o, ho, -, hdefinition⟩ := htarget
      rw [Edit.target, ho, hd.get?_key hnew]
      exact Token.sameDefinition_of_render hdefinition

/-! ## Schemas that ask for the same changes -/

/-- The objects have the same keys in the same order, and what is compared of their definitions is
    the same. -/
def Restates (d d' : Schema) : Prop :=
  List.Forall₂ (fun o o' => o.key = o'.key ∧
    Token.substance (d.definitionTokens o) = Token.substance (d'.definitionTokens o'))
    d.objects d'.objects

variable {d' : Schema}

theorem Restates.keys (h : d.Restates d') :
    d.objects.map (·.key) = d'.objects.map (·.key) := by
  rw [← List.forall₂_eq_eq_eq, List.forall₂_map_left_iff, List.forall₂_map_right_iff]
  exact h.imp fun _ _ ho => ho.1

theorem Restates.contains (h : d.Restates d') (key : ObjectKey) :
    d.contains key = d'.contains key := by
  rw [Bool.eq_iff_iff, contains_iff, contains_iff, ← List.mem_map, h.keys, List.mem_map]

/-- The same changes lead to both schemas, from any other one. -/
theorem Restates.edits (h : d.Restates d') (s : Schema) :
    (s.edits d).map (fun e => (e.tag, e.target)) =
      (s.edits d').map fun e => (e.tag, e.target) := by
  have hremovals : s.removals d = s.removals d' := by
    simp only [removals, h.contains]
  have hchanges : List.Forall₂ (fun e e' : Edit => (e.tag, e.target) = (e'.tag, e'.target))
      (d.objects.filterMap (s.editFor d)) (d'.objects.filterMap (s.editFor d')) := by
    refine List.rel_filterMap (fun o o' ho => ?_) h
    unfold editFor
    rw [ho.1]
    cases s.get? o'.key with
    | none => exact .some (Prod.ext rfl ho.1)
    | some old =>
      have hsame : Token.sameDefinition (s.definitionTokens old) (d.definitionTokens o) =
          Token.sameDefinition (s.definitionTokens old) (d'.definitionTokens o') := by
        rw [Token.sameDefinition_eq, Token.sameDefinition_eq, ho.2]
      dsimp only
      rw [hsame]
      split
      · exact .none
      · exact .some (Prod.ext rfl ho.1)
  rw [Schema.edits, Schema.edits, List.map_append, List.map_append, hremovals]
  congr 1
  rwa [← List.forall₂_eq_eq_eq, List.forall₂_map_left_iff, List.forall₂_map_right_iff]

end Schema

end SchemaAlign
