import SchemaAlign.Proofs.Schema.WellFormed

/-!
# Sessions

A session works on schemas: it loads and adds sources, updates, applies lists of edits and takes
changes, in any order. The objects in a list of edits may have been taken from any of the schemas,
at any time, so operations may fail, also after a part of the edits.

* `Schema.Session`: the schemas that come about;
* `Schema.Keeps`: what stays in a schema when it changes;
* `session_invariant`: all these schemas are consistent, and no operation moves an object.
-/

namespace SchemaAlign

variable {R : Readings} {s t t' u d : Schema} {p : ParsedSource} {e : Edit} {o : SchemaObject}
  {edition : Nat} {placement : SchemaObject → String} {id text : String} {source : Source}
  {removed : ObjectKey → Prop}

/-- The tokens of the source are still there, in the same places, and any others stand behind them.
    Their texts may have changed. -/
def Source.Keeps (source source' : Source) : Prop :=
  source'.edition = source.edition ∧
    source.tokens.map (·.kind) <+: source'.tokens.map (·.kind)

theorem Source.Keeps.refl (source : Source) : source.Keeps source :=
  ⟨rfl, List.prefix_rfl⟩

theorem Source.Keeps.trans {source' source'' : Source} (h : source.Keeps source')
    (h' : source'.Keeps source'') : source.Keeps source'' :=
  ⟨h'.1.trans h.1, h.2.trans h'.2⟩

theorem Source.Keeps.length_le {source' : Source} (h : source.Keeps source') :
    source.tokens.length ≤ source'.tokens.length := by
  simpa using h.2.length_le

theorem map_kind_blankOut (tokens : List Token) :
    (Token.blankOut tokens).map (·.kind) = tokens.map (·.kind) := by
  simp [Token.blankOut, Function.comp_def]

theorem map_kind_replaceText (text : String) (tokens : List Token) :
    (Token.replaceText text tokens).map (·.kind) = tokens.map (·.kind) := by
  cases tokens with
  | nil => rfl
  | cons t ts => simp [Token.replaceText, map_kind_blankOut]

/-- The objects that an edit is about. -/
def Edit.objects : Edit → List SchemaObject
  | add new => [new]
  | modify old new => [old, new]
  | remove old => [old]

theorem Edit.mem_objects_of_desired? (h : e.desired? = some o) : o ∈ e.objects := by
  cases e <;> cases h <;> simp [objects]

namespace Schema

/-! ## Operations -/

/-- What can be done to a schema. Edits come with the sources for the objects that they add. -/
inductive Operation where
  | load (edition : Nat) (id text : String)
  | addSource (p : ParsedSource)
  | update (edition : Nat) (desired : Schema) (placement : SchemaObject → String)
  | apply (edition : Nat) (desired : Schema) (edits : List (Edit × String))
  | takeChanged

namespace Operation

/-- The schema after the operation, whether it succeeds or fails. -/
def run (s : Schema) : Operation → Schema
  | load edition id text => (s.load edition id text).1
  | addSource p => (s.addSource p).1
  | update edition desired placement => (s.update edition desired placement).1
  | apply edition desired edits => (s.applyPlaced edition desired edits).1
  | takeChanged => s.takeChanged.2

/-- The other schema that takes part, if there is one. -/
def desired? : Operation → Option Schema
  | update _ desired _ | apply _ desired _ => some desired
  | _ => none

/-- The objects that the edits are about. -/
def objects : Operation → List SchemaObject
  | apply _ _ edits => edits.flatMap (·.1.objects)
  | _ => []

/-- The keys of the objects that the operation is to remove. -/
def Removes (op : Operation) (key : ObjectKey) : Prop :=
  match op with
  | update _ desired _ => desired.contains key = false
  | apply _ _ edits => ∃ x ∈ edits, ∃ old, x.1 = .remove old ∧ old.key = key
  | _ => False

/-- What is read is one of the readings, and the number for new sources is a new one. -/
def Numbered (R : Readings) (s : Schema) : Operation → Prop
  | load edition id text => ∀ p, ParsedSource.ofText edition id text = .ok p → R.made p
  | addSource p => R.made p
  | update edition _ _ | apply edition _ _ => s.Fresh R edition
  | takeChanged => True

end Operation

/-- The schemas of a session. The other schema of an operation is one of them, and so are those that
    the objects of its edits were taken from. -/
inductive Session (R : Readings) : Schema → Prop
  | empty : Session R empty
  | run {s : Schema} {op : Operation} {origin : SchemaObject → Schema} : Session R s →
      op.Numbered R s → (∀ d, op.desired? = some d → Session R d) →
      (∀ o ∈ op.objects, Session R (origin o)) → (∀ o ∈ op.objects, o ∈ (origin o).objects) →
      Session R (op.run s)

theorem Session.step {op : Operation} (h : Session R s) (hnumbered : op.Numbered R s)
    (hd : ∀ d, op.desired? = some d → Session R d)
    (hobjects : ∀ o ∈ op.objects, ∃ r, Session R r ∧ o ∈ r.objects) : Session R (op.run s) := by
  have : Nonempty Schema := ⟨Schema.empty⟩
  choose! origin hsession hmem using hobjects
  exact .run h hnumbered hd hsession hmem

theorem Session.load (h : Session R s)
    (hp : ∀ p, ParsedSource.ofText edition id text = .ok p → R.made p) :
    Session R (s.load edition id text).1 := by
  have hnumbered : (Operation.load edition id text).Numbered R s := hp
  exact h.step hnumbered nofun nofun

/-! ## Consistency -/

theorem Traced.span (h : s.Traced R) (ho : o ∈ s.objects) : o.span.start < o.span.stop := by
  obtain ⟨-, -, -, hlt, -⟩ := h.consistent.located o ho
  exact hlt

theorem Session.traced (h : Session R s) : s.Traced R := by
  induction h with
  | empty => exact traced_empty
  | @run s op origin _ hnumbered _ _ hmem ih ihd ihorigin =>
    cases op with
    | load edition id text => exact ih.load hnumbered
    | addSource p => exact ih.addSource hnumbered
    | update edition d placement => exact ih.update (ihd d rfl).consistent hnumbered
    | apply edition d edits =>
      refine ih.applyPlaced hnumbered fun x hx o ho => ?_
      have ho' : o ∈ (Operation.apply edition d edits).objects :=
        List.mem_flatMap.2 ⟨x, hx, Edit.mem_objects_of_desired? ho⟩
      exact (ihorigin o ho').span (hmem o ho')
    | takeChanged => exact ⟨ih.consistent.takeChanged, ih.tokens, ih.objects⟩

/-- What edits bring that was taken from schemas of the session has at least one token. -/
theorem Session.span_of_mem_edits {edits : List (Edit × String)}
    (h : ∀ o ∈ (Operation.apply edition d edits).objects, ∃ r, Session R r ∧ o ∈ r.objects) :
    ∀ x ∈ edits, ∀ o, x.1.desired? = some o → o.span.start < o.span.stop := by
  intro x hx o ho
  obtain ⟨r, hr, hmem⟩ := h o (List.mem_flatMap.2 ⟨x, hx, Edit.mem_objects_of_desired? ho⟩)
  exact hr.traced.span hmem

/-! ## What stays in its place -/

/-- The object stands behind all tokens that its source has in the schema. -/
def Behind (s : Schema) (o : SchemaObject) : Prop :=
  ∀ source, s.source? o.source = some source → source.tokens.length ≤ o.span.start

/-- `t` is `s` after some changes. The sources of `s` keep their tokens in their places, and so do
    its objects, except those that were removed. One of the same key that was added since stands
    behind all the tokens there were. -/
structure Keeps (removed : ObjectKey → Prop) (s t : Schema) : Prop where
  objects : ∀ o ∈ s.objects, ¬removed o.key → o ∈ t.objects
  places : ∀ o ∈ s.objects, ∀ o' ∈ t.objects, o'.key = o.key → o' = o ∨ s.Behind o'
  sources : ∀ id source, s.source? id = some source →
    ∃ source', t.source? id = some source' ∧ source.Keeps source'

/-- What edits keep. -/
structure Grown (s t : Schema) : Prop where
  objects : ∀ o ∈ t.objects, o ∈ s.objects ∨ s.Behind o
  sources : ∀ id source, s.source? id = some source →
    ∃ source', t.source? id = some source' ∧ source.Keeps source'

theorem Grown.refl (s : Schema) : Grown s s :=
  ⟨fun _ => .inl, fun _ source h => ⟨source, h, .refl source⟩⟩

theorem Grown.trans (h : Grown s t) (h' : Grown t u) : Grown s u where
  objects o ho := by
    obtain ho | hbehind := h'.objects o ho
    · exact h.objects o ho
    -- An object behind the tokens of `t` is behind those of `s`, as sources do not get shorter.
    · refine .inr fun source hsource => ?_
      obtain ⟨source', hsource', hkeeps⟩ := h.sources _ source hsource
      exact Nat.le_trans hkeeps.length_le (hbehind source' hsource')
  sources id source hsource := by
    obtain ⟨source', hsource', hkeeps⟩ := h.sources id source hsource
    obtain ⟨source'', hsource'', hkeeps'⟩ := h'.sources id source' hsource'
    exact ⟨source'', hsource'', hkeeps.trans hkeeps'⟩

theorem Redefined.grown {f : List Token → List Token} (ht : t.Consistent) (ho : o ∈ t.objects)
    (hf : ∀ tokens, (f tokens).map (·.kind) = tokens.map (·.kind)) (hr : t.Redefined o f t') :
    Grown t t' where
  objects o' ho' := .inl (hr.objects ▸ ho')
  sources id source hsource := by
    by_cases hid : id = o.source
    · subst hid
      obtain ⟨hslice, -⟩ := ht.slice? ho hsource
      exact ⟨_, hr.source source hsource, rfl, map_overwrite hslice (hf _) ▸ List.prefix_rfl⟩
    · exact ⟨source, (hr.others id hid).trans hsource, .refl source⟩

theorem Appended.grown {new : SchemaObject} {target : String}
    (ha : t.Appended d edition new target o t') : Grown t t' where
  objects o' ho' := by
    rw [ha.objects, List.mem_append, List.mem_singleton] at ho'
    obtain ho' | rfl := ho'
    · exact .inl ho'
    · refine .inr fun source hsource => ?_
      rw [ha.place] at hsource
      simp [ha.span, before, hsource]
  sources id source hsource := by
    by_cases hid : id = target
    · subst hid
      obtain ⟨source', hsource', htokens, hedition⟩ := ha.source
      refine ⟨source', hsource', ?_, ?_⟩
      · rw [hedition, editionOf, hsource]
        rfl
      · rw [htokens, before, hsource, List.append_assoc, List.map_append]
        exact List.prefix_append _ _
    · exact ⟨source, (ha.others id hid).trans hsource, .refl source⟩

theorem Performed.grown (ht : t.Consistent) (h : Performed d edition placement t e t') :
    Grown t t' := by
  cases h with
  | add _ ha => exact ha.grown
  | modify ho _ hr => exact hr.grown ht ho (map_kind_replaceText _)
  | remove ho _ hr =>
    have h' := hr.grown ht ho map_kind_blankOut
    exact ⟨fun o' ho' => h'.objects o' (List.mem_of_mem_filter ho'), h'.sources⟩

/-- An edit keeps all objects but the one that it removes. -/
theorem Performed.mem (h : Performed d edition placement t e t') (ho : o ∈ t.objects)
    (hkey : ∀ old, e = .remove old → old.key ≠ o.key) : o ∈ t'.objects := by
  cases h with
  | add _ ha => rw [ha.objects]; exact List.mem_append_left _ ho
  | modify _ _ hr => rw [hr.objects]; exact ho
  | @remove old o' _ _ hkey' hr =>
    refine List.mem_filter.2 ⟨hr.objects ▸ ho, ?_⟩
    simpa [hkey'] using (hkey old rfl).symm

theorem Consistent.keeps_applyPlaced {edits : List (Edit × String)} (hs : s.Consistent)
    (hspan : ∀ x ∈ edits, ∀ o, x.1.desired? = some o → o.span.start < o.span.stop)
    (hremoved : ∀ x ∈ edits, ∀ old, x.1 = .remove old → removed old.key) :
    Keeps removed s (s.applyPlaced edition d edits).1 := by
  -- Each edit keeps both, so they hold after any number of edits, and at the one that fails.
  obtain ⟨hgrown, hmem⟩ : Grown s (s.applyPlaced edition d edits).1 ∧
      ∀ o ∈ s.objects, ¬removed o.key → o ∈ (s.applyPlaced edition d edits).1.objects := by
    refine (hs.applyPlaced_preserves (P := fun t => Grown s t ∧
      ∀ o ∈ s.objects, ¬removed o.key → o ∈ t.objects) hspan ⟨.refl s, fun _ ho _ => ho⟩ ?_).2
    rintro x hx t t' ht happlied ⟨hgrown, hmem⟩
    refine ⟨hgrown.trans (happlied.grown ht), fun o ho hkey => ?_⟩
    exact happlied.mem (hmem o ho hkey) fun old hold heq => hkey (heq ▸ hremoved x hx old hold)
  refine ⟨hmem, fun o ho o' ho' hkey => ?_, hgrown.sources⟩
  refine (hgrown.objects o' ho').imp_left fun hmem' => ?_
  exact List.inj_on_of_nodup_map hs.keys hmem' ho hkey

theorem Consistent.keeps_update (hs : s.Consistent) (hd : d.Consistent)
    (hremoved : ∀ key, d.contains key = false → removed key) :
    Keeps removed s (s.update edition d placement).1 := by
  rw [hs.update_eq_apply hd, apply_eq_applyPlaced]
  refine hs.keeps_applyPlaced hd.span_of_mem_edits fun x hx old hold => ?_
  obtain ⟨e, he, rfl⟩ := List.mem_map.1 hx
  rw [show e = .remove old from hold] at he
  exact hremoved old.key (get?_eq_none_iff.1 (get?_eq_none_of_remove he))

/-! ### What is added -/

theorem addObject_eq_ok (h : s.addObject o = .ok t) :
    s.contains o.key = false ∧ t = { s with objects := s.objects ++ [o] } := by
  unfold Schema.addObject at h
  split at h
  · cases h
  · next hkey =>
    split at h
    · cases h
    · split at h <;> cases h
      exact ⟨by simpa using hkey, rfl⟩

/-- Objects that are added have new keys, whether all of them are added or not. -/
theorem exists_addObjects (s : Schema) (objects : List SchemaObject) :
    ∃ new, (runEach Schema.addObject s objects).1 = { s with objects := s.objects ++ new } ∧
      ∀ o ∈ new, s.contains o.key = false := by
  refine runEach_preserves (P := fun t => ∃ new, t = { s with objects := s.objects ++ new } ∧
    ∀ o ∈ new, s.contains o.key = false) ⟨[], by rw [List.append_nil], nofun⟩ ?_
  rintro o - _ t' ⟨new, rfl, hnew⟩ hok
  obtain ⟨hkey, rfl⟩ := addObject_eq_ok hok
  refine ⟨new ++ [o], by rw [List.append_assoc], ?_⟩
  refine List.forall_mem_append.2 ⟨hnew, List.forall_mem_singleton.2 ?_⟩
  rw [contains_eq_false_iff] at hkey ⊢
  exact fun o' ho' => hkey o' (List.mem_append_left _ ho')

/-- Adding a source does nothing, or adds objects of a source that is registered, or registers it
    first. -/
theorem addSource_cases (s : Schema) (p : ParsedSource) :
    (s.addSource p).1 = s ∨
      (∃ new, (s.addSource p).1 = { s with objects := s.objects ++ new } ∧
        ∀ o ∈ new, s.contains o.key = false) ∨
      ∃ new, s.source? p.id = none ∧
        (s.addSource p).1 =
          { s with sources := s.sources ++ [p.toSource], objects := s.objects ++ new } ∧
        ∀ o ∈ new, s.contains o.key = false := by
  unfold Schema.addSource
  split
  · exact .inl rfl
  · cases hsource : s.source? p.id with
    | some registered =>
      by_cases hedition : registered.edition = p.edition
      · obtain ⟨new, heq, hnew⟩ := exists_addObjects s p.objects
        simp only [register, hsource, hedition, if_true]
        exact .inr (.inl ⟨new, heq, hnew⟩)
      · simp only [register, hsource, hedition, if_false]
        exact .inl trivial
    | none =>
      obtain ⟨new, heq, hnew⟩ :=
        exists_addObjects { s with sources := s.sources ++ [p.toSource] } p.objects
      simp only [register, hsource]
      exact .inr (.inr ⟨new, trivial, heq, hnew⟩)

theorem Consistent.keeps_of_append {new : List SchemaObject} (hs : s.Consistent)
    (hobjects : t.objects = s.objects ++ new) (hnew : ∀ o ∈ new, s.contains o.key = false)
    (hsources : ∀ id source, s.source? id = some source → t.source? id = some source) :
    Keeps removed s t where
  objects o ho _ := by rw [hobjects]; exact List.mem_append_left _ ho
  places o ho o' ho' hkey := by
    rw [hobjects, List.mem_append] at ho'
    obtain ho' | ho' := ho'
    · exact .inl (List.inj_on_of_nodup_map hs.keys ho' ho hkey)
    · exact absurd hkey.symm (contains_eq_false_iff.1 (hnew o' ho') o ho)
  sources id source hsource := ⟨source, hsources id source hsource, .refl source⟩

theorem Consistent.keeps_self (hs : s.Consistent) : Keeps removed s s :=
  hs.keeps_of_append (List.append_nil _).symm nofun fun _ _ h => h

theorem Consistent.keeps_addSource (hs : s.Consistent) (p : ParsedSource) :
    Keeps removed s (s.addSource p).1 := by
  obtain heq | ⟨new, heq, hnew⟩ | ⟨new, hsource, heq, hnew⟩ := addSource_cases s p
  · rw [heq]
    exact hs.keeps_self
  · rw [heq]
    exact hs.keeps_of_append rfl hnew fun _ _ h => h
  · rw [heq]
    exact hs.keeps_of_append rfl hnew fun id source h => source?_append_of_isSome _ hsource h

theorem Consistent.keeps_load (hs : s.Consistent) : Keeps removed s (s.load edition id text).1 := by
  unfold Schema.load
  split
  · exact hs.keeps_self
  · exact hs.keeps_addSource _

/-! ## The invariant -/

/-- In every schema of a session, each object is found under its own key and points to tokens of its
    own in a source of the schema, and the changed sources are sources of the schema. Whatever is
    done next, and whether it succeeds or fails, the sources keep their tokens in their places and
    the objects that are not removed keep their spans. -/
theorem session_invariant (h : Session R s) :
    s.Consistent ∧ (∀ o ∈ s.objects, s.get? o.key = some o) ∧
      ∀ op : Operation, (∀ d, op.desired? = some d → Session R d) →
        (∀ o ∈ op.objects, ∃ r, Session R r ∧ o ∈ r.objects) → Keeps op.Removes s (op.run s) := by
  have hs := h.traced.consistent
  refine ⟨hs, fun o ho => hs.get?_key ho, fun op hd hobjects => ?_⟩
  cases op with
  | load edition id text => exact hs.keeps_load
  | addSource p => exact hs.keeps_addSource p
  | update edition d placement => exact hs.keeps_update (hd d rfl).traced.consistent fun _ h => h
  | apply edition d edits =>
    refine hs.keeps_applyPlaced (fun x hx o ho => ?_) fun x hx old hold => ⟨x, hx, old, hold, rfl⟩
    obtain ⟨r, hr, ho⟩ := hobjects o (List.mem_flatMap.2 ⟨x, hx, Edit.mem_objects_of_desired? ho⟩)
    exact hr.traced.span ho
  | takeChanged => exact hs.keeps_of_append (List.append_nil _).symm nofun fun _ _ h => h

/-- A list of edits that fails with the second one, after the first one was applied. -/
theorem session_invariant_failing_edits :
    let s := (empty.load 0 "f.sql" "CREATE TABLE a (x);").1
    let d := (empty.load 1 "d.sql" "CREATE TABLE a (x INT);").1
    let edits := s.objects.flatMap fun old => d.objects.flatMap fun new =>
      [(Edit.modify old new, "f.sql"), (Edit.add new, "f.sql")]
    let op := Operation.apply 2 d edits
    (s.applyPlaced 2 d edits).2 = .error (.duplicateObject ⟨.table, "a"⟩) ∧
      (op.run s).render? "f.sql" = some "CREATE TABLE a (x INT);" ∧
      (op.run s).Consistent ∧ Keeps op.Removes s (op.run s) := by
  intro s d edits op
  let R := Readings.ofTexts [(0, "f.sql", "CREATE TABLE a (x);"),
    (1, "d.sql", "CREATE TABLE a (x INT);")] (by decide)
  have hs : Session R s := Session.empty.load fun p hp => ⟨_, .head _, hp⟩
  have hd : Session R d := Session.empty.load fun p hp => ⟨_, .tail _ (.head _), hp⟩
  have hdesired (d' : Schema) (h : op.desired? = some d') : Session R d' := by
    cases h
    exact hd
  have hobjects (o : SchemaObject) (ho : o ∈ op.objects) : ∃ r, Session R r ∧ o ∈ r.objects := by
    obtain ⟨x, hx, ho⟩ := List.mem_flatMap.1 ho
    obtain ⟨old, hold, hx⟩ := List.mem_flatMap.1 hx
    obtain ⟨new, hnew, hx⟩ := List.mem_flatMap.1 hx
    simp only [List.mem_cons, List.not_mem_nil, or_false] at hx
    obtain rfl | rfl := hx
    · simp only [Edit.objects, List.mem_cons, List.not_mem_nil, or_false] at ho
      obtain rfl | rfl := ho
      · exact ⟨s, hs, hold⟩
      · exact ⟨d, hd, hnew⟩
    · exact ⟨d, hd, List.mem_singleton.1 ho ▸ hnew⟩
  have hnumbered : op.Numbered R s := by
    rintro p ⟨x, hx, hp⟩ hedition
    have hp := (ParsedSource.place_of_ofText hp).2.symm.trans hedition
    simp only [List.mem_cons, List.not_mem_nil, or_false] at hx
    obtain rfl | rfl := hx <;> cases hp
  have hrun : Session R (op.run s) := hs.step hnumbered hdesired hobjects
  exact ⟨by decide +kernel, by decide +kernel, (session_invariant hrun).1,
    (session_invariant hs).2.2 op hdesired hobjects⟩

end Schema

end SchemaAlign
