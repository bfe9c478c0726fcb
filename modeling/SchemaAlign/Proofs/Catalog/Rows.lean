import Mathlib.Data.List.Forall2
import Mathlib.Data.List.Induction
import Mathlib.Data.Option.Basic
import SchemaAlign.Proofs.Catalog

/-!
# A catalog is read row by row

Every row is a reading of its own, with a number of its own. Two rows would share a source only if
they described one object, and then the second one is refused for its key, before its source is
looked at. So nothing depends on the numbers.

* `Schema.ofNumbered`: the schema of rows that are read under given numbers;
* `Schema.Listing`: what was read of the rows, in order, is what the schema holds;
* `Schema.Offends`: why a row cannot be added;
* `Listing.step`: a row is added, or it offends;
* `ofNumbered_outcome`: when rows are read, as what, and otherwise which row is at fault.
-/

namespace SchemaAlign

variable {p : ParsedSource} {edition : Nat} {row : CatalogRow}

/-- The object that a row describes, if its kind is known. -/
def CatalogRow.key? (row : CatalogRow) : Option ObjectKey :=
  (ObjectKind.ofText? row.type).map (⟨·, row.name⟩)

theorem ParsedSource.objects_of_ofRow (h : ParsedSource.ofRow edition row = .ok p) :
    ∃ o, p.objects = [o] ∧ row.key? = some o.key ∧ p.id = Source.catalogId o.key := by
  obtain ⟨kind, st, hkind, -, rfl⟩ := ofRow_eq_ok h
  exact ⟨_, rfl, by simp [CatalogRow.key?, hkind], rfl⟩

namespace Schema

variable {s t : Schema} {ps : List ParsedSource} {xs ys : List (Nat × CatalogRow)}
  {x : Nat × CatalogRow} {key : ObjectKey}

/-- The rows that hold a statement. The others add nothing. -/
def stated (xs : List (Nat × CatalogRow)) : List (Nat × CatalogRow) :=
  xs.filter fun x => !Text.isBlankText x.2.sql

/-- The schema that the rows describe, each row read under the number beside it. -/
def ofNumbered (xs : List (Nat × CatalogRow)) : Except Error Schema :=
  xs.foldlM (fun s x => addRow x.1 s x.2) empty

theorem ofRows_eq_ofNumbered (edition : Nat) (rows : List CatalogRow) :
    ofRows edition rows = ofNumbered (rows.map fun row => (edition, row)) := by
  rw [ofNumbered, List.foldlM_map]
  rfl

theorem ofNumbered_concat (xs : List (Nat × CatalogRow)) (x : Nat × CatalogRow) :
    ofNumbered (xs ++ [x]) = (ofNumbered xs).bind fun s => addRow x.1 s x.2 := by
  rw [ofNumbered, List.foldlM_append]
  refine congrArg _ (funext fun s => ?_)
  rw [List.foldlM_cons]
  exact bind_pure _

/-! ## What was read -/

/-- `ps` is what was read of the rows, in order, and the schema holds their sources and objects,
    in order, and nothing else. -/
structure Listing (xs : List (Nat × CatalogRow)) (ps : List ParsedSource) (s : Schema) :
    Prop where
  consistent : s.Consistent
  read : List.Forall₂ (fun x p => ParsedSource.ofRow x.1 x.2 = .ok p) (stated xs) ps
  sources : s.sources = ps.map (·.toSource)
  objects : s.objects = ps.flatMap (·.objects)

theorem listing_nil : Listing [] [] empty :=
  ⟨consistent_empty, .nil, rfl, rfl⟩

/-- The keys of the objects are those of the rows. -/
theorem map_key_of_read
    (h : List.Forall₂ (fun x p => ParsedSource.ofRow x.1 x.2 = .ok p) xs ps) :
    (ps.flatMap (·.objects)).map (fun o => some o.key) = xs.map (·.2.key?) := by
  induction h with
  | nil => rfl
  | cons hread _ ih =>
    obtain ⟨o, hobjects, hkey, -⟩ := ParsedSource.objects_of_ofRow hread
    rw [List.flatMap_cons, List.map_append, ih, hobjects, List.map_singleton, List.map_cons, hkey]
    rfl

theorem Listing.map_key (h : Listing xs ps s) :
    s.objects.map (fun o => some o.key) = (stated xs).map (·.2.key?) := by
  rw [h.objects, map_key_of_read h.read]

theorem Listing.contains_iff (h : Listing xs ps s) :
    s.contains key = true ↔ some key ∈ (stated xs).map (·.2.key?) := by
  rw [Schema.contains_iff, ← h.map_key, List.mem_map]
  simp only [Option.some.injEq]

theorem Listing.nodup (h : Listing xs ps s) : ((stated xs).map (·.2.key?)).Nodup := by
  have hkeys := h.consistent.keys.map (Option.some_injective ObjectKey)
  rwa [List.map_map, Function.comp_def, h.map_key] at hkeys

theorem exists_mem_of_forall₂ {α β : Type} {ρ : α → β → Prop} {as : List α} {bs : List β} {b : β}
    (h : List.Forall₂ ρ as bs) (hb : b ∈ bs) : ∃ a ∈ as, ρ a b := by
  induction h with
  | nil => cases hb
  | @cons a b' as bs hab _ ih =>
    obtain rfl | hb := List.mem_cons.1 hb
    · exact ⟨a, List.mem_cons_self, hab⟩
    · obtain ⟨a', ha', hab'⟩ := ih hb
      exact ⟨a', List.mem_cons_of_mem a ha', hab'⟩

/-- Where each source has one object, these are the objects of all of them. -/
theorem forall₂_flatMap {P : ParsedSource → SchemaObject → Prop}
    (h : ∀ p ∈ ps, ∃ o, p.objects = [o] ∧ P p o) :
    List.Forall₂ (fun p o => p.objects = [o] ∧ P p o) ps (ps.flatMap (·.objects)) := by
  induction ps with
  | nil => exact .nil
  | cons p ps ih =>
    obtain ⟨⟨o, hobjects, ho⟩, hps⟩ := List.forall_mem_cons.1 h
    rw [List.flatMap_cons, hobjects]
    exact .cons ⟨hobjects, ho⟩ (ih hps)

theorem Listing.exists_row (h : Listing xs ps s) (hp : p ∈ ps) :
    ∃ x : Nat × CatalogRow, ParsedSource.ofRow x.1 x.2 = .ok p := by
  obtain ⟨x, -, hread⟩ := exists_mem_of_forall₂ h.read hp
  exact ⟨x, hread⟩

/-- Each row has a source and an object of its own, and the definition of the object is the one
    that was read. -/
theorem Listing.forall₂_objects (h : Listing xs ps s) :
    List.Forall₂ (fun p o => p.objects = [o] ∧
      ∃ tokens, slice? p.tokens o.span = some tokens ∧ s.objectTokens o = .ok tokens)
      ps s.objects := by
  rw [h.objects]
  refine forall₂_flatMap fun p hp => ?_
  obtain ⟨x, hread⟩ := h.exists_row hp
  obtain ⟨o, hobjects, -, -⟩ := ParsedSource.objects_of_ofRow hread
  have ho : o ∈ p.objects := by simp [hobjects]
  have hmem : o ∈ s.objects := h.objects ▸ List.mem_flatMap.2 ⟨p, hp, ho⟩
  have hsource : s.source? o.source = some p.toSource := by
    rw [((ParsedSource.sound_of_ofRow hread).source o ho).1]
    exact h.consistent.source?_id (h.sources ▸ List.mem_map_of_mem hp)
  obtain ⟨hslice, htokens⟩ := h.consistent.slice? hmem hsource
  exact ⟨o, hobjects, _, hslice, htokens⟩

/-- The source of a row is new if its object is: a source of that name would belong to a row that
    describes this object. -/
theorem Listing.source?_eq_none (h : Listing xs ps s)
    (hread : ParsedSource.ofRow edition row = .ok p) (hkey : row.key? = some key)
    (hnew : s.contains key = false) : s.source? p.id = none := by
  rw [← Option.not_isSome_iff_eq_none, Option.isSome_iff_exists]
  rintro ⟨source, hsource⟩
  obtain ⟨hmem, hid⟩ := source?_eq_some hsource
  rw [h.sources] at hmem
  obtain ⟨q, hq, rfl⟩ := List.mem_map.1 hmem
  obtain ⟨y, hread'⟩ := h.exists_row hq
  obtain ⟨o, -, hkey', hidp⟩ := ParsedSource.objects_of_ofRow hread
  obtain ⟨o', hobjects, -, hidq⟩ := ParsedSource.objects_of_ofRow hread'
  have ho' : o' ∈ s.objects := h.objects ▸ List.mem_flatMap.2 ⟨q, hq, by simp [hobjects]⟩
  refine contains_eq_false_iff.1 hnew o' ho' ?_
  rw [catalogId_injective (hidq.symm.trans (hid.trans hidp))]
  exact Option.some.inj (hkey'.symm.trans hkey)

/-! ## One more row -/

/-- Why a row cannot be added behind others: it cannot be read, or it describes an object that one
    of the others describes. -/
inductive Offends (before : List (Nat × CatalogRow)) (x : Nat × CatalogRow) : Error → Prop
  | unread {e : ParseError} : ParsedSource.ofRow x.1 x.2 = .error e → Offends before x (.parse e)
  | repeated {p : ParsedSource} {key : ObjectKey} : ParsedSource.ofRow x.1 x.2 = .ok p →
      x.2.key? = some key → some key ∈ (stated before).map (·.2.key?) →
      Offends before x (.contract (.duplicateObject key))

theorem stated_concat_of_blank (h : Text.isBlankText x.2.sql = true) :
    stated (xs ++ [x]) = stated xs := by
  simp [stated, h]

theorem stated_concat (h : Text.isBlankText x.2.sql = false) :
    stated (xs ++ [x]) = stated xs ++ [x] := by
  simp [stated, h]

theorem Listing.step (h : Listing xs ps s) (x : Nat × CatalogRow) :
    (∃ qs t, addRow x.1 s x.2 = .ok t ∧ Listing (xs ++ [x]) qs t) ∨
      ∃ e, addRow x.1 s x.2 = .error e ∧ Text.isBlankText x.2.sql = false ∧ Offends xs x e := by
  cases hblank : Text.isBlankText x.2.sql with
  | true =>
    -- A row without a definition is passed over.
    refine .inl ⟨ps, s, by simp only [addRow, hblank, if_true], ?_⟩
    exact ⟨h.consistent, (stated_concat_of_blank hblank).symm ▸ h.read, h.sources, h.objects⟩
  | false =>
    cases hread : ParsedSource.ofRow x.1 x.2 with
    | error e =>
      -- The definition cannot be read.
      refine .inr ⟨.parse e, ?_, rfl, .unread hread⟩
      simp only [addRow, hblank, hread, Bool.false_eq_true, if_false]
    | ok p =>
      obtain ⟨o, hobjects, hkey, -⟩ := ParsedSource.objects_of_ofRow hread
      cases hcontains : s.contains o.key with
      | true =>
        -- A row before it describes the same object.
        refine .inr ⟨.contract (.duplicateObject o.key), ?_, rfl,
          .repeated hread hkey (h.contains_iff.1 hcontains)⟩
        simp only [addRow, hblank, hread, Schema.addSource, hobjects, List.map_singleton,
          duplicate?, hcontains, Bool.false_eq_true, if_false, if_true]
      | false =>
        -- The source of a row is that of its object, so both are new.
        have hnone := h.source?_eq_none hread hkey hcontains
        obtain ⟨t, hadd, ht⟩ := h.consistent.addSource (.row hread) hnone
          (duplicate?_eq_none_iff.2 (by simp [hobjects, hcontains]))
        refine .inl ⟨ps ++ [p], t, ?_, ht.consistent, ?_, ?_, ?_⟩
        · simp only [addRow, hblank, hread, hadd, Bool.false_eq_true, if_false]
        · rw [stated_concat hblank]
          exact List.rel_append h.read (.cons hread .nil)
        · rw [ht.sources, h.sources, List.map_append, List.map_singleton]
        · rw [ht.objects, h.objects, List.flatMap_append, List.flatMap_singleton]

/-! ## All rows -/

/-- All rows are added, or the first one that offends ends the reading. -/
theorem ofNumbered_cases (xs : List (Nat × CatalogRow)) :
    (∃ ps s, ofNumbered xs = .ok s ∧ Listing xs ps s) ∨
      ∃ before x after e, xs = before ++ x :: after ∧ ofNumbered xs = .error e ∧
        (∃ s, ofNumbered before = .ok s) ∧ Text.isBlankText x.2.sql = false ∧
        Offends before x e := by
  induction xs using List.reverseRecOn with
  | nil => exact .inl ⟨[], empty, rfl, listing_nil⟩
  | append_singleton xs x ih =>
    rw [ofNumbered_concat]
    obtain ⟨ps, s, hok, h⟩ | ⟨before, y, after, e, rfl, herror, hbefore, hstated, hy⟩ := ih
    · rw [hok]
      obtain ⟨qs, t, hadd, ht⟩ | ⟨e, hadd, hstated, hx⟩ := h.step x
      · exact .inl ⟨qs, t, hadd, ht⟩
      · exact .inr ⟨xs, x, [], e, rfl, hadd, ⟨s, hok⟩, hstated, hx⟩
    · rw [herror]
      exact .inr ⟨before, y, after ++ [x], e, by simp, rfl, hbefore, hstated, hy⟩

/-- A row that offends is not read, or the rows do not describe different objects. -/
theorem Offends.not_accepted {before after : List (Nat × CatalogRow)} {e : Error}
    (h : Offends before x e) (hstated : Text.isBlankText x.2.sql = false)
    (hread : ∀ y ∈ stated (before ++ x :: after), ∃ p, ParsedSource.ofRow y.1 y.2 = .ok p) :
    ¬ ((stated (before ++ x :: after)).map (·.2.key?)).Nodup := by
  have hsplit : stated (before ++ x :: after) = stated before ++ x :: stated after := by
    simp [stated, hstated]
  rw [hsplit] at hread ⊢
  intro hnodup
  cases h with
  | unread herror =>
    obtain ⟨p, hp⟩ := hread x (by simp)
    rw [herror] at hp
    cases hp
  | repeated _ hkey hmem =>
    rw [List.map_append, List.map_cons, hkey] at hnodup
    exact List.disjoint_of_nodup_append hnodup hmem List.mem_cons_self

/-- Rows are read, under whatever numbers, exactly if each one that holds a statement is read by
    itself and they all describe different objects. Then each of them has one source and one
    object, in order, with the tokens that it has by itself. Otherwise the first row that is not
    read, or describes an object that one before it describes, is at fault; sources never clash. -/
theorem ofNumbered_outcome (xs : List (Nat × CatalogRow)) :
    (∀ edition rows, ofRows edition rows = ofNumbered (rows.map fun row => (edition, row))) ∧
    ((∃ s, ofNumbered xs = .ok s) ↔
      (∀ x ∈ stated xs, ∃ p, ParsedSource.ofRow x.1 x.2 = .ok p) ∧
        ((stated xs).map (·.2.key?)).Nodup) ∧
    (∀ s, ofNumbered xs = .ok s → ∃ ps,
      List.Forall₂ (fun x p => ParsedSource.ofRow x.1 x.2 = .ok p) (stated xs) ps ∧
        s.sources = ps.map (·.toSource) ∧
        List.Forall₂ (fun p o => p.objects = [o] ∧
          ∃ tokens, slice? p.tokens o.span = some tokens ∧ s.objectTokens o = .ok tokens)
          ps s.objects) ∧
    ∀ e, ofNumbered xs = .error e →
      (∃ before x after, xs = before ++ x :: after ∧ (∃ s, ofNumbered before = .ok s) ∧
        Text.isBlankText x.2.sql = false ∧ Offends before x e) ∧
      ∀ id, e ≠ .contract (.sourceMismatch id) ∧ e ≠ .contract (.unknownSource id) := by
  refine ⟨ofRows_eq_ofNumbered, ?_⟩
  obtain ⟨ps, s, hok, h⟩ | ⟨before, x, after, e, rfl, herror, hbefore, hstated, hx⟩ :=
    ofNumbered_cases xs
  · refine ⟨⟨fun _ => ⟨fun x hx => ?_, h.nodup⟩, fun _ => ⟨s, hok⟩⟩, fun t ht => ?_, fun e he => ?_⟩
    · obtain ⟨p, -, hread⟩ := exists_mem_of_forall₂ (List.Forall₂.flip h.read) hx
      exact ⟨p, hread⟩
    · obtain rfl := Except.ok.inj (hok.symm.trans ht)
      exact ⟨ps, h.read, h.sources, h.forall₂_objects⟩
    · rw [hok] at he
      cases he
  · refine ⟨⟨fun ⟨s, hs⟩ => ?_, fun ⟨hread, hnodup⟩ => ?_⟩, fun s hs => ?_, fun e' he => ?_⟩
    · rw [herror] at hs
      cases hs
    · exact absurd hnodup (hx.not_accepted hstated hread)
    · rw [herror] at hs
      cases hs
    · obtain rfl := Except.error.inj (herror.symm.trans he)
      refine ⟨⟨before, x, after, rfl, hbefore, hstated, hx⟩, fun id => ?_⟩
      cases hx <;> exact ⟨nofun, nofun⟩

/-- A name with a slash, and none at all. The last row describes the object of the first one. -/
theorem ofNumbered_outcome_repeated :
    let xs : List (Nat × CatalogRow) :=
      [(1, ⟨"table", "a/b", "a/b", "CREATE TABLE x (y)"⟩), (2, ⟨"view", "a/b", "a/b", " "⟩),
       (3, ⟨"index", "", "t", "CREATE INDEX i ON t (x)"⟩),
       (4, ⟨"table", "a/b", "a/b", "CREATE TABLE z (y);"⟩)]
    (ofNumbered (xs.take 3)).toOption.map (fun s => s.sources.map (·.id)) =
        some ["<catalog>/table/a/b", "<catalog>/index/"] ∧
      ofNumbered xs = .error (.contract (.duplicateObject ⟨.table, "a/b"⟩)) ∧
      ∃ before x after, xs = before ++ x :: after ∧ (∃ s, ofNumbered before = .ok s) ∧
        Text.isBlankText x.2.sql = false ∧
        Offends before x (.contract (.duplicateObject ⟨.table, "a/b"⟩)) := by
  intro xs
  have herror : ofNumbered xs = .error (.contract (.duplicateObject ⟨.table, "a/b"⟩)) := by
    decide +kernel
  exact ⟨by decide +kernel, herror, ((ofNumbered_outcome xs).2.2.2 _ herror).1⟩

end Schema

end SchemaAlign
