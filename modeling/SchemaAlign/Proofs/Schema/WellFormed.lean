import SchemaAlign.Proofs.Schema.Apply
import SchemaAlign.Proofs.Source

/-!
# Schemas as they come about

* `Readings`: the readings of sources that were made;
* `Schema.Built`: the schemas that come about from the empty one;
* `Built.traced`: in such a schema every object either is one that was read, or stands behind all
  that was read of its source;
* `Schema.WellFormed`: a schema that comes about somehow.
-/

namespace SchemaAlign

/-- The readings of sources that were made. Two readings of one source have different numbers. -/
structure Readings where
  made : ParsedSource → Prop
  isReading : ∀ p, made p → p.IsReading
  unique : ∀ p q, made p → made q → p.id = q.id → p.edition = q.edition → p = q

/-- The readings of some texts. Each comes with its number and the name of its source. -/
def Readings.ofTexts (texts : List (Nat × String × String))
    (h : (texts.map fun x => (x.1, x.2.1)).Nodup) : Readings where
  made p := ∃ x ∈ texts, ParsedSource.ofText x.1 x.2.1 x.2.2 = .ok p
  isReading := by
    rintro p ⟨x, -, hp⟩
    exact .text hp
  unique := by
    rintro p q ⟨x, hx, hp⟩ ⟨y, hy, hq⟩ hid hedition
    obtain ⟨hidp, hedp⟩ := ParsedSource.place_of_ofText hp
    obtain ⟨hidq, hedq⟩ := ParsedSource.place_of_ofText hq
    obtain rfl : x = y := List.inj_on_of_nodup_map h hx hy
      (Prod.ext (hedp.symm.trans (hedition.trans hedq)) (hidp.symm.trans (hid.trans hidq)))
    exact Except.ok.inj (hp.symm.trans hq)

namespace Schema

variable {R : Readings} {s t t' d : Schema} {p : ParsedSource} {o : SchemaObject} {e : Edit}
  {edition : Nat} {placement : SchemaObject → String} {id text : String} {row : CatalogRow}
  {rows : List CatalogRow}

/-- No source that would be new to the schema was read with the given number. -/
def Fresh (R : Readings) (edition : Nat) (s : Schema) : Prop :=
  ∀ p, R.made p → p.edition = edition → (s.source? p.id).isSome = true

theorem fresh_ofTexts {texts : List (Nat × String × String)}
    {h : (texts.map fun x => (x.1, x.2.1)).Nodup} (hne : ∀ x ∈ texts, x.1 ≠ edition) (s : Schema) :
    s.Fresh (.ofTexts texts h) edition := by
  rintro p ⟨x, hx, hp⟩ hedition
  exact absurd ((ParsedSource.place_of_ofText hp).2.symm.trans hedition) (hne x hx)

/-- The schemas that come about from the empty one. An operation that fails may leave another
    schema than it was given. -/
inductive Built (R : Readings) : Schema → Prop
  | empty : Built R empty
  | load {s : Schema} {edition : Nat} {id text : String} : Built R s →
      (∀ p, ParsedSource.ofText edition id text = .ok p → R.made p) →
      Built R (s.load edition id text).1
  | addSource {s : Schema} {p : ParsedSource} : Built R s → R.made p → Built R (s.addSource p).1
  | ofRows {s : Schema} {edition : Nat} {rows : List CatalogRow} :
      (∀ row ∈ rows, ∀ p, ParsedSource.ofRow edition row = .ok p → R.made p) →
      ofRows edition rows = .ok s → Built R s
  | update {s d : Schema} {edition : Nat} {placement : SchemaObject → String} :
      Built R s → Built R d → s.Fresh R edition → Built R (s.update edition d placement).1
  | takeChanged {s : Schema} : Built R s → Built R s.takeChanged.2

/-- A schema that comes about somehow. -/
def WellFormed (s : Schema) : Prop :=
  ∃ R, Built R s

/-! ## Where the objects come from -/

/-- Every object that points into a reading either is one of its objects or stands behind all its
    tokens. So a reading can be added twice, when its objects were removed in between. -/
structure Traced (R : Readings) (s : Schema) : Prop where
  consistent : s.Consistent
  tokens : ∀ p, R.made p → ∀ source, s.source? p.id = some source →
    source.edition = p.edition → p.tokens.length ≤ source.tokens.length
  objects : ∀ p, R.made p → ∀ o ∈ s.objects, o.source = p.id → o.edition = p.edition →
    o ∈ p.objects ∨ p.tokens.length ≤ o.span.start

theorem traced_empty : empty.Traced R :=
  ⟨consistent_empty, nofun, nofun⟩

/-! ### Adding a source -/

theorem contains_addObject (s : Schema) (o : SchemaObject) (key : ObjectKey) :
    { s with objects := s.objects ++ [o] }.contains key = (s.contains key || o.key == key) := by
  simp [contains]

theorem Traced.addObject (h : s.Traced R) (hp : R.made p) (ho : o ∈ p.objects)
    {source : Source} (hsource : s.source? p.id = some source)
    (hedition : source.edition = p.edition) (hkey : s.contains o.key = false) :
    s.addObject o = .ok { s with objects := s.objects ++ [o] } ∧
      { s with objects := s.objects ++ [o] }.Traced R := by
  have hsound := (R.isReading p hp).sound
  obtain ⟨hid, hed⟩ := hsound.source o ho
  obtain ⟨hlt, hle⟩ := hsound.inside o ho
  have hapart : ∀ o' ∈ s.objects, o'.source = o.source → o'.span.Apart o.span := by
    intro o' ho' hid'
    have hid' := hid'.trans hid
    obtain ⟨source', hsource', hed', -⟩ := h.consistent.located o' ho'
    obtain rfl : source = source' := by
      rw [hid', hsource] at hsource'
      exact Option.some.inj hsource'
    obtain hmem | hbehind := h.objects p hp o' ho' hid' (hed'.symm.trans hedition)
    · exact hsound.apart o' hmem o ho (contains_eq_false_iff.1 hkey o' ho')
    · exact .inr (Nat.le_trans hle hbehind)
  obtain ⟨hok, hconsistent⟩ := h.consistent.addObject hkey (hid ▸ hsource)
    (hedition.trans hed.symm) hlt (Nat.le_trans hle (h.tokens p hp source hsource hedition)) hapart
  refine ⟨hok, hconsistent, h.tokens, fun q hq => ?_⟩
  refine List.forall_mem_append.2 ⟨h.objects q hq, List.forall_mem_singleton.2 fun hid' hed' => ?_⟩
  obtain rfl := R.unique p q hp hq (hid.symm.trans hid') (hed.symm.trans hed')
  exact .inl ho

/-- Objects of one reading, each with a key of its own that is not taken, are all added. -/
theorem Traced.addObjects {objects : List SchemaObject} (h : s.Traced R) (hp : R.made p)
    (hobjects : ∀ o ∈ objects, o ∈ p.objects) {source : Source}
    (hsource : s.source? p.id = some source) (hedition : source.edition = p.edition)
    (hkeys : duplicate? s.contains (objects.map (·.key)) = none) :
    runEach Schema.addObject s objects = ({ s with objects := s.objects ++ objects }, .ok ()) ∧
      { s with objects := s.objects ++ objects }.Traced R := by
  induction objects generalizing s with
  | nil => simpa [runEach] using h
  | cons o objects ih =>
    obtain ⟨ho, hobjects⟩ := List.forall_mem_cons.1 hobjects
    rw [List.map_cons, duplicate?] at hkeys
    split at hkeys
    · cases hkeys
    · next hkey =>
      obtain ⟨hok, h'⟩ := h.addObject hp ho hsource hedition (by simpa using hkey)
      have hkeys' : duplicate? { s with objects := s.objects ++ [o] }.contains
          (objects.map (·.key)) = none := by
        rw [← hkeys]
        congr 1
        funext key
        rw [contains_addObject, Bool.beq_comm]
      obtain ⟨hrun, h''⟩ := ih h' hobjects hsource hkeys'
      simp only [List.append_assoc, List.singleton_append] at hrun h''
      exact ⟨by rw [runEach, hok]; exact hrun, h''⟩

/-- A source may be registered that is not there. -/
theorem Traced.register (h : s.Traced R) (hp : R.made p) (hnew : s.source? p.id = none) :
    { s with sources := s.sources ++ [p.toSource] }.Traced R := by
  have hsource (id : String) := source?_append p.toSource hnew id
  refine ⟨h.consistent.append hnew, fun q hq source hget hedition => ?_, h.objects⟩
  rw [hsource] at hget
  split at hget
  · next hid =>
    cases hget
    obtain rfl := R.unique p q hp hq hid.symm hedition
    exact Nat.le_refl _
  · exact h.tokens q hq source hget hedition

theorem Traced.addSource (h : s.Traced R) (hp : R.made p) : (s.addSource p).1.Traced R := by
  unfold Schema.addSource
  split
  · exact h
  · next hkeys =>
    have add {s : Schema} (h : s.Traced R) {source : Source}
        (hsource : s.source? p.id = some source) (hedition : source.edition = p.edition)
        (hkeys : duplicate? s.contains (p.objects.map (·.key)) = none) :
        (runEach Schema.addObject s p.objects).1.Traced R := by
      obtain ⟨hrun, h'⟩ := h.addObjects hp (fun o ho => ho) hsource hedition hkeys
      rw [hrun]
      exact h'
    -- A source that is there already has to be of the same edition.
    unfold Schema.register
    cases hsource : s.source? p.id with
    | none =>
      refine add (h.register hp hsource) ?_ rfl hkeys
      rw [source?_append p.toSource hsource, if_pos rfl]
    | some source =>
      dsimp only
      by_cases hedition : source.edition = p.edition
      · rw [if_pos hedition]
        exact add h hsource hedition hkeys
      · rw [if_neg hedition]
        exact h

theorem Traced.load (h : s.Traced R)
    (hp : ∀ p, ParsedSource.ofText edition id text = .ok p → R.made p) :
    (s.load edition id text).1.Traced R := by
  unfold Schema.load
  split
  · exact h
  · next p hread => exact h.addSource (hp p hread)

theorem addRow_eq_ok (h : addRow edition s row = .ok t) :
    t = s ∨ ∃ p n, ParsedSource.ofRow edition row = .ok p ∧ s.addSource p = (t, .ok n) := by
  rw [addRow] at h
  split at h
  · cases h
    exact .inl rfl
  · split at h
    · cases h
    · next p hread =>
      split at h
      · next t' n hadd =>
        cases h
        exact .inr ⟨p, n, hread, hadd⟩
      · cases h

/-- What adding the source of a row preserves, adding all of them preserves. -/
theorem addRows_preserves {P : Schema → Prop} (hs : P s)
    (hstep : ∀ row ∈ rows, ∀ p t t' n, ParsedSource.ofRow edition row = .ok p →
      t.addSource p = (t', .ok n) → P t → P t')
    (hrows : rows.foldlM (addRow edition) s = .ok t) : P t := by
  induction rows generalizing s with
  | nil =>
    cases hrows
    exact hs
  | cons row rows ih =>
    obtain ⟨hrow, hlater⟩ := List.forall_mem_cons.1 hstep
    rw [List.foldlM_cons] at hrows
    cases hadd : addRow edition s row with
    | error e =>
      rw [hadd] at hrows
      cases hrows
    | ok s' =>
      rw [hadd] at hrows
      refine ih ?_ hlater hrows
      obtain rfl | ⟨p, n, hread, hsource⟩ := addRow_eq_ok hadd
      · exact hs
      · exact hrow p s s' n hread hsource hs

theorem Traced.ofRows (h : s.Traced R)
    (hp : ∀ row ∈ rows, ∀ p, ParsedSource.ofRow edition row = .ok p → R.made p)
    (hrows : rows.foldlM (addRow edition) s = .ok t) : t.Traced R := by
  refine addRows_preserves h (fun row hrow p u u' n hread hadd hu => ?_) hrows
  have hu' := hu.addSource (hp row hrow p hread)
  rwa [hadd] at hu'

/-! ### Updating -/

theorem Redefined.source?_isSome {f : List Token → List Token} (hr : t.Redefined o f t')
    (h : (t.source? id).isSome = true) : (t'.source? id).isSome = true := by
  by_cases hid : id = o.source
  · subst hid
    obtain ⟨source, hsource⟩ := Option.isSome_iff_exists.1 h
    rw [hr.source source hsource]
    rfl
  · rw [hr.others id hid, h]

theorem Redefined.traced {f : List Token → List Token} (h : t.Traced R) (ho : o ∈ t.objects)
    (hf : ∀ tokens, (f tokens).length = tokens.length) (hr : t.Redefined o f t') : t'.Traced R := by
  refine ⟨hr.consistent, fun p hp source' hsource' hedition => ?_, hr.objects ▸ h.objects⟩
  by_cases hid : p.id = o.source
  · obtain ⟨source, hsource, -⟩ := h.consistent.located o ho
    obtain ⟨hslice, -⟩ := h.consistent.slice? ho hsource
    rw [hid, hr.source source hsource] at hsource'
    cases hsource'
    rw [length_overwrite hslice (hf _)]
    exact h.tokens p hp source (hid ▸ hsource) hedition
  · rw [hr.others p.id hid] at hsource'
    exact h.tokens p hp source' hsource' hedition

theorem Appended.traced {new : SchemaObject} {target : String} (h : t.Traced R)
    (hfresh : t.Fresh R edition) (ha : t.Appended d edition new target o t') : t'.Traced R := by
  obtain ⟨source', hsource', htokens', hedition'⟩ := ha.source
  -- A reading of the source stands before the definition that is added.
  have read (p : ParsedSource) (hp : R.made p) (hid : target = p.id)
      (hed : source'.edition = p.edition) : p.tokens.length ≤ (t.before target).length := by
    cases hsource : t.source? target with
    | none =>
      rw [editionOf, hsource] at hedition'
      have := hfresh p hp (hed.symm.trans hedition')
      rw [← hid, hsource] at this
      cases this
    | some source =>
      rw [editionOf, hsource] at hedition'
      have := h.tokens p hp source (hid ▸ hsource) (hedition'.symm.trans hed)
      rw [before, hsource]
      exact Nat.le_trans this (by simp)
  refine ⟨ha.consistent, fun p hp source hsource hedition => ?_, fun p hp => ?_⟩
  · by_cases hid : p.id = target
    · rw [hid, hsource'] at hsource
      cases hsource
      rw [htokens', List.length_append]
      exact Nat.le_add_right_of_le (read p hp hid.symm hedition)
    · rw [ha.others p.id hid] at hsource
      exact h.tokens p hp source hsource hedition
  · rw [ha.objects]
    refine List.forall_mem_append.2
      ⟨h.objects p hp, List.forall_mem_singleton.2 fun hid hed => .inr ?_⟩
    have ho : o ∈ t'.objects := by rw [ha.objects]; simp
    obtain ⟨source, hsource, hedition, -⟩ := ha.consistent.located o ho
    rw [ha.place, hsource'] at hsource
    cases hsource
    rw [ha.span]
    exact read p hp (ha.place.symm.trans hid) (hedition.trans hed)

theorem Performed.traced (ht : t.Traced R) (hfresh : t.Fresh R edition)
    (h : Performed d edition placement t e t') : t'.Traced R ∧ t'.Fresh R edition := by
  cases h with
  | @add new o _ _ ha =>
    refine ⟨ha.traced ht hfresh, fun p hp hed => ?_⟩
    by_cases hid : p.id = placement new
    · obtain ⟨source', hsource', -⟩ := ha.source
      rw [hid, hsource']
      rfl
    · rw [ha.others p.id hid]
      exact hfresh p hp hed
  | modify ho _ hr =>
    exact ⟨hr.traced ht ho (length_replaceText _),
      fun p hp hed => hr.source?_isSome (hfresh p hp hed)⟩
  | remove ho _ hr =>
    have h' := hr.traced ht ho length_blankOut
    refine ⟨⟨h'.consistent.filter _, h'.tokens, fun p hp o ho => ?_⟩,
      fun p hp hed => hr.source?_isSome (hfresh p hp hed)⟩
    exact h'.objects p hp o (List.mem_of_mem_filter ho)

theorem Traced.applyPlaced {edits : List (Edit × String)} (h : s.Traced R)
    (hfresh : s.Fresh R edition)
    (hspan : ∀ x ∈ edits, ∀ o, x.1.desired? = some o → o.span.start < o.span.stop) :
    (s.applyPlaced edition d edits).1.Traced R :=
  (h.consistent.applyPlaced_preserves (P := fun t => t.Traced R ∧ t.Fresh R edition) hspan
    ⟨h, hfresh⟩ fun _ _ _ _ _ happlied ht => happlied.traced ht.1 ht.2).2.1

theorem Traced.update (h : s.Traced R) (hd : d.Consistent) (hfresh : s.Fresh R edition) :
    (s.update edition d placement).1.Traced R := by
  rw [h.consistent.update_eq_apply hd, apply_eq_applyPlaced]
  exact h.applyPlaced hfresh hd.span_of_mem_edits

theorem Built.traced (h : Built R s) : s.Traced R := by
  induction h with
  | empty => exact traced_empty
  | load _ hp ih => exact ih.load hp
  | addSource _ hp ih => exact ih.addSource hp
  | ofRows hp hrows => exact traced_empty.ofRows hp hrows
  | update _ _ hfresh ih ihd => exact ih.update ihd.consistent hfresh
  | takeChanged _ ih => exact ⟨ih.consistent.takeChanged, ih.tokens, ih.objects⟩

theorem WellFormed.consistent (h : s.WellFormed) : s.Consistent := by
  obtain ⟨R, h⟩ := h
  exact h.traced.consistent

end Schema

end SchemaAlign
