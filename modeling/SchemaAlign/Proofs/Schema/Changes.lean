import SchemaAlign.Proofs.Schema.Session

/-!
# Changes that wait to be taken

Whoever works on a schema writes back those sources that it says were changed. So a source that was
changed without a note of it is a file that is silently not written. Nothing in a schema says what
its sources were like before. A log kept beside the session does.

* `Schema.Log`: what the texts were when they were last written or read;
* `Schema.Logged`: the schemas of a session, each with its log;
* `Schema.Noticed`: edits change no source without a note, even if one of them fails;
* `no_change_lost`: what is not among the changed sources is as the log has it.
-/

namespace SchemaAlign

namespace Schema

variable {R : Readings} {s t u d : Schema} {e : Edit} {edition : Nat}
  {placement : SchemaObject → String} {p : ParsedSource} {id id' text : String}
  {changed : List String}

/-! ## The log of a session -/

/-- What a session is remembered by. -/
structure Log where
  /-- The text that a source had when it was registered from a reading, or when it was taken last,
      whichever is later. -/
  saved : String → Option String
  /-- The sources that an edit created and that were not taken since. -/
  created : String → Prop

/-- There is nothing to remember at first. -/
def Log.empty : Log :=
  ⟨fun _ => none, fun _ => False⟩

namespace Operation

/-- Whether a source is registered after the operation that was not registered before. -/
def registers (op : Operation) (s : Schema) (id : String) : Bool :=
  (s.source? id).isNone && ((op.run s).source? id).isSome

/-- Whether the operation registers the source from a reading, or takes it. -/
def settles (op : Operation) (s : Schema) (id : String) : Bool :=
  match op with
  | load .. | addSource _ => op.registers s id
  | takeChanged => s.takeChanged.1.contains id
  | update .. | apply .. => false

/-- Whether an edit of the operation creates the source. -/
def creates (op : Operation) (s : Schema) (id : String) : Bool :=
  match op with
  | update .. | apply .. => op.registers s id
  | load .. | addSource _ | takeChanged => false

end Operation

/-- The log after an operation on the schema. -/
def Log.after (log : Log) (s : Schema) (op : Operation) : Log where
  saved id := if op.settles s id then (op.run s).render? id else log.saved id
  created id := op.settles s id = false ∧ (log.created id ∨ op.creates s id = true)

/-- The schemas of a session, each with the log of the operations that led to it. -/
inductive Logged (R : Readings) : Schema → Log → Prop
  | empty : Logged R empty .empty
  | run {s : Schema} {log : Log} {op : Operation} : Logged R s log → op.Numbered R s →
      (∀ d, op.desired? = some d → Session R d) →
      (∀ o ∈ op.objects, ∃ r, Session R r ∧ o ∈ r.objects) →
      Logged R (op.run s) (log.after s op)

theorem Logged.session {log : Log} (h : Logged R s log) : Session R s := by
  induction h with
  | empty => exact .empty
  | run _ hnumbered hd hobjects ih => exact ih.step hnumbered hd hobjects

/-- A log can be kept of every session. -/
theorem Session.exists_log (h : Session R s) : ∃ log, Logged R s log := by
  induction h with
  | empty => exact ⟨_, .empty⟩
  | @run s op origin _ hnumbered hd horigin hmem ih =>
    obtain ⟨log, hlog⟩ := ih
    exact ⟨_, hlog.run hnumbered hd fun o ho => ⟨origin o, horigin o ho, hmem o ho⟩⟩

/-! ## Operations that edit -/

theorem mem_mark : id' ∈ mark changed id ↔ id' ∈ changed ∨ id' = id := by
  unfold mark
  split
  · next h =>
    refine ⟨.inl, fun h' => h'.elim (fun h' => h') ?_⟩
    rintro rfl
    exact List.contains_iff_mem.1 h
  · simp

theorem nodup_mark (h : changed.Nodup) (id : String) : (mark changed id).Nodup := by
  unfold mark
  split
  · exact h
  · next hid =>
    rw [← List.concat_eq_append]
    exact h.concat fun hmem => hid (List.contains_iff_mem.2 hmem)

/-- `t` is `s` after some edits, which left their notes. -/
structure Noticed (s t : Schema) : Prop where
  nodup : s.changed.Nodup → t.changed.Nodup
  changed : ∀ id ∈ s.changed, id ∈ t.changed
  others : ∀ id, id ∉ t.changed → t.source? id = s.source? id

theorem Noticed.refl (s : Schema) : Noticed s s :=
  ⟨fun h => h, fun _ h => h, fun _ _ => rfl⟩

theorem Noticed.trans (h : Noticed s t) (h' : Noticed t u) : Noticed s u where
  nodup hs := h'.nodup (h.nodup hs)
  changed id hid := h'.changed id (h.changed id hid)
  others id hid := (h'.others id hid).trans (h.others id fun hmem => hid (h'.changed id hmem))

/-- One source changes, and its name is noted. -/
theorem noticed_of_mark (hchanged : t.changed = mark s.changed id)
    (hothers : ∀ id', id' ≠ id → t.source? id' = s.source? id') : Noticed s t where
  nodup hs := hchanged ▸ nodup_mark hs id
  changed id' hid' := by
    rw [hchanged, mem_mark]
    exact .inl hid'
  others id' hid' := by
    rw [hchanged, mem_mark, not_or] at hid'
    exact hothers id' hid'.2

theorem Performed.noticed (h : Performed d edition placement s e t) : Noticed s t := by
  cases h with
  | add _ ha => exact noticed_of_mark ha.changed ha.others
  | modify _ _ hr => exact noticed_of_mark hr.changed hr.others
  | remove _ _ hr => exact noticed_of_mark hr.changed hr.others

/-- Edits that fail midway have left the notes of those before. -/
theorem Consistent.noticed_applyPlaced {edits : List (Edit × String)} (hs : s.Consistent)
    (hspan : ∀ x ∈ edits, ∀ o, x.1.desired? = some o → o.span.start < o.span.stop) :
    Noticed s (s.applyPlaced edition d edits).1 :=
  (hs.applyPlaced_preserves (P := Noticed s) hspan (.refl s)
    fun _ _ _ _ _ happlied h => h.trans happlied.noticed).2

theorem Consistent.noticed_update (hs : s.Consistent) (hd : d.Consistent) :
    Noticed s (s.update edition d placement).1 := by
  rw [hs.update_eq_apply hd, apply_eq_applyPlaced]
  exact hs.noticed_applyPlaced hd.span_of_mem_edits

/-! ## Operations that read -/

/-- `t` is `s` with more sources. -/
structure Enlarged (s t : Schema) : Prop where
  changed : t.changed = s.changed
  sources : ∀ id, (s.source? id).isSome = true → t.source? id = s.source? id

theorem enlarged_addSource (s : Schema) (p : ParsedSource) : Enlarged s (s.addSource p).1 := by
  obtain heq | ⟨new, heq, -⟩ | ⟨new, hnew, heq, -⟩ := addSource_cases s p
  · rw [heq]
    exact ⟨rfl, fun _ _ => rfl⟩
  · rw [heq]
    exact ⟨rfl, fun _ _ => rfl⟩
  · rw [heq]
    refine ⟨rfl, fun id hid => ?_⟩
    obtain ⟨source, hsource⟩ := Option.isSome_iff_exists.1 hid
    exact (source?_append_of_isSome _ hnew hsource).trans hsource.symm

theorem enlarged_load (s : Schema) (edition : Nat) (id text : String) :
    Enlarged s (s.load edition id text).1 := by
  unfold Schema.load
  split
  · exact ⟨rfl, fun _ _ => rfl⟩
  · exact enlarged_addSource s _

/-! ## The invariant -/

/-- The changed sources tell all that happened since the log was last written. -/
structure Noted (s : Schema) (log : Log) : Prop where
  nodup : s.changed.Nodup
  saved : ∀ id, id ∉ s.changed → s.render? id = log.saved id
  created : ∀ id, log.created id → id ∈ s.changed

theorem render?_congr (h : t.source? id = s.source? id) : t.render? id = s.render? id := by
  rw [render?, render?, h]

/-- A source that an edit creates was not there, so it can only be one of the changed ones. -/
theorem Noted.edit {log : Log} {op : Operation} (h : s.Noted log) (hop : Noticed s (op.run s))
    (hsettles : ∀ id, op.settles s id = false) : (op.run s).Noted (log.after s op) where
  nodup := hop.nodup h.nodup
  saved id hid := by
    have hs : id ∉ s.changed := fun hmem => hid (hop.changed id hmem)
    simp only [Log.after, hsettles, Bool.false_eq_true, if_false]
    rw [render?_congr (hop.others id hid), h.saved id hs]
  created id := by
    rintro ⟨-, hcreated | hcreates⟩
    · exact hop.changed id (h.created id hcreated)
    · -- A source whose name is not noted is as it was, and so not a new one.
      by_contra hid
      have hregisters : op.registers s id = true := by
        cases op with
        | update | apply => exact hcreates
        | load | addSource | takeChanged => cases hcreates
      rw [Operation.registers, hop.others id hid] at hregisters
      cases hsource : s.source? id <;> simp [hsource] at hregisters

/-- A source that is new is as it was read, and the others are as they were. -/
theorem Noted.read {log : Log} {op : Operation} (h : s.Noted log) (hop : Enlarged s (op.run s))
    (hsettles : op.settles s = op.registers s) (hcreates : ∀ id, op.creates s id = false) :
    (op.run s).Noted (log.after s op) where
  nodup := hop.changed ▸ h.nodup
  saved id hid := by
    rw [hop.changed] at hid
    simp only [Log.after, hsettles]
    split
    · rfl
    · next hregisters =>
      rw [← h.saved id hid]
      cases hsource : s.source? id with
      | some source => exact render?_congr (hop.sources id (by rw [hsource]; rfl))
      | none =>
        simp only [Operation.registers, hsource, Option.isNone_none, Bool.true_and,
          Bool.not_eq_true, Option.isSome_eq_false_iff, Option.isNone_iff_eq_none] at hregisters
        exact render?_congr (hregisters.trans hsource.symm)
  created id := by
    rintro ⟨-, hcreated | h'⟩
    · exact hop.changed ▸ h.created id hcreated
    · rw [hcreates] at h'
      cases h'

theorem Noted.takeChanged {log : Log} (h : s.Noted log) :
    s.takeChanged.2.Noted (log.after s .takeChanged) where
  nodup := .nil
  saved id _ := by
    -- The log takes the text of what is taken; nothing else was waiting.
    by_cases hid : s.takeChanged.1.contains id = true
    · exact (if_pos hid).symm
    · exact (h.saved id fun hmem => hid (List.contains_iff_mem.2 hmem)).trans (if_neg hid).symm
  created id := by
    rintro ⟨htaken, hcreated | hcreates⟩
    · have hmem : s.takeChanged.1.contains id = true :=
        List.contains_iff_mem.2 (h.created id hcreated)
      exact absurd (hmem.symm.trans htaken) (by decide)
    · cases hcreates

theorem Logged.noted {log : Log} (h : Logged R s log) : s.Noted log := by
  induction h with
  | empty => exact ⟨.nil, fun _ _ => rfl, nofun⟩
  | @run s log op hs hnumbered hd hobjects ih =>
    have hcons := hs.session.traced.consistent
    cases op with
    | load edition id text => exact ih.read (enlarged_load s edition id text) rfl fun _ => rfl
    | addSource p => exact ih.read (enlarged_addSource s p) rfl fun _ => rfl
    | update edition d placement =>
      exact ih.edit (hcons.noticed_update (hd d rfl).traced.consistent) fun _ => rfl
    | apply edition d edits =>
      exact ih.edit (hcons.noticed_applyPlaced (Session.span_of_mem_edits hobjects)) fun _ => rfl
    | takeChanged => exact ih.takeChanged

/-- At every point of a session, a source that is not among the changed ones has the text that it
    had when it was registered from a reading or last taken, and one that an edit created is among
    them until it is taken. Taking the changes gives each of them once and leaves none. -/
theorem no_change_lost {log : Log} (h : Logged R s log) :
    (∀ id, id ∉ s.changed → s.render? id = log.saved id) ∧
      (∀ id, log.created id → id ∈ s.changed) ∧
      (∀ id, s.takeChanged.1.count id = if id ∈ s.changed then 1 else 0) ∧
      s.takeChanged.2.changed = [] ∧ ∀ id, s.takeChanged.2.render? id = s.render? id := by
  have hnoted := h.noted
  refine ⟨hnoted.saved, hnoted.created, fun id => ?_, rfl, fun _ => rfl⟩
  split
  · next hid => exact List.count_eq_one_of_mem hnoted.nodup hid
  · next hid => exact List.count_eq_zero_of_not_mem hid

/-- A list of edits that fails with the last one. The source for the object that the first one adds
    waits to be taken, and the other one is as it was read. -/
theorem no_change_lost_failing_edits :
    let s := (empty.load 0 "f.sql" "CREATE TABLE b (y);").1
    let d := (empty.load 1 "d.sql" "CREATE TABLE a (x); CREATE TABLE b (y INT);").1
    let op := Operation.apply 2 d (d.objects.map fun o => (Edit.add o, "g.sql"))
    let log := (Log.empty.after empty (.load 0 "f.sql" "CREATE TABLE b (y);")).after s op
    let t := op.run s
    log.created "g.sql" ∧ "g.sql" ∈ t.changed ∧ t.takeChanged.1.count "g.sql" = 1 ∧
      "f.sql" ∉ t.changed ∧ t.render? "f.sql" = log.saved "f.sql" ∧
      log.saved "f.sql" = some "CREATE TABLE b (y);" := by
  intro s d op log t
  let R := Readings.ofTexts [(0, "f.sql", "CREATE TABLE b (y);"),
    (1, "d.sql", "CREATE TABLE a (x); CREATE TABLE b (y INT);")] (by decide)
  have hread : (Operation.load 0 "f.sql" "CREATE TABLE b (y);").Numbered R empty :=
    fun p hp => ⟨_, .head _, hp⟩
  have hs : Logged R s _ := Logged.empty.run hread nofun nofun
  have hd : Session R d := Session.empty.load fun p hp => ⟨_, .tail _ (.head _), hp⟩
  have hnumbered : op.Numbered R s := by
    rintro p ⟨x, hx, hp⟩ hedition
    have hp := (ParsedSource.place_of_ofText hp).2.symm.trans hedition
    simp only [List.mem_cons, List.not_mem_nil, or_false] at hx
    obtain rfl | rfl := hx <;> cases hp
  have hdesired (d' : Schema) (h : op.desired? = some d') : Session R d' := by
    cases h
    exact hd
  have hobjects (o : SchemaObject) (ho : o ∈ op.objects) : ∃ r, Session R r ∧ o ∈ r.objects := by
    obtain ⟨x, hx, ho⟩ := List.mem_flatMap.1 ho
    obtain ⟨new, hnew, rfl⟩ := List.mem_map.1 hx
    exact ⟨d, hd, List.mem_singleton.1 ho ▸ hnew⟩
  obtain ⟨hsaved, hcreated, hcount, -⟩ := no_change_lost (hs.run hnumbered hdesired hobjects)
  have hf : "f.sql" ∉ t.changed := by decide +kernel
  have hg : log.created "g.sql" := ⟨by decide +kernel, .inr (by decide +kernel)⟩
  refine ⟨hg, hcreated _ hg, ?_, hf, hsaved _ hf, by decide +kernel⟩
  rw [hcount, if_pos (hcreated _ hg)]

end Schema

end SchemaAlign
