import SchemaAlign.Proofs.Parser.Outline
import SchemaAlign.Proofs.Schema.WellFormed

/-!
# Adding a source

* `Schema.Holds`: an object with its source and its definition, as a schema holds it;
* `Schema.Extended`: a schema after a source was added;
* `load_eq_ok`, `extended_of_load`: a text is loaded exactly if its objects can be added.
-/

namespace SchemaAlign

open SchemaAlign.Statement (outline?)

/-- The only reading that was made. -/
def Readings.single (p : ParsedSource) (h : p.IsReading) : Readings where
  made q := q = p
  isReading _ hq := hq ▸ h
  unique _ _ hq hq' _ _ := hq.trans hq'.symm

namespace Schema

variable {s t : Schema} {p : ParsedSource} {o : SchemaObject} {edition n : Nat} {id text : String}
  {key : ObjectKey} {out : List (ObjectKey × String)}

/-- The schema holds an object of the given source and definition. -/
def Holds (s : Schema) (key : ObjectKey) (id definition : String) : Prop :=
  ∃ o ∈ s.objects, o.key = key ∧ o.source = id ∧ s.definition o = definition

/-- The object of the given key: its source and its definition. -/
def item? (s : Schema) (key : ObjectKey) : Option (String × String) :=
  (s.get? key).map fun o => (o.source, s.definition o)

theorem Consistent.item?_eq_some_iff (h : s.Consistent) {definition : String} :
    s.item? key = some (id, definition) ↔ s.Holds key id definition := by
  rw [item?, Option.map_eq_some_iff]
  constructor
  · rintro ⟨o, hget, heq⟩
    obtain ⟨ho, hkey⟩ := get?_eq_some hget
    cases heq
    exact ⟨o, ho, hkey, rfl, rfl⟩
  · rintro ⟨o, ho, rfl, rfl, rfl⟩
    exact ⟨o, h.get?_key ho, rfl⟩

/-- Schemas that hold the same have the same entries. -/
theorem item?_congr (hs : s.Consistent) (ht : t.Consistent)
    (h : ∀ key id definition, s.Holds key id definition ↔ t.Holds key id definition)
    (key : ObjectKey) : s.item? key = t.item? key := by
  refine Option.ext fun x => ?_
  obtain ⟨id, definition⟩ := x
  rw [hs.item?_eq_some_iff, ht.item?_eq_some_iff, h]

/-- Keys can be added exactly if each is new and none stands twice. -/
theorem duplicate?_eq_none_iff {taken : ObjectKey → Bool} {keys : List ObjectKey} :
    duplicate? taken keys = none ↔ keys.Nodup ∧ ∀ k ∈ keys, taken k = false := by
  induction keys generalizing taken with
  | nil => simp [duplicate?]
  | cons k keys ih =>
    rw [duplicate?, List.nodup_cons, List.forall_mem_cons]
    by_cases hk : taken k = true
    · simp [hk]
    · rw [if_neg hk, ih]
      simp only [Bool.or_eq_false_iff, beq_eq_false_iff_ne, ne_eq]
      constructor
      · rintro ⟨hnodup, htaken⟩
        exact ⟨⟨fun hmem => (htaken k hmem).2 rfl, hnodup⟩, by simpa using hk,
          fun k' hk' => (htaken k' hk').1⟩
      · rintro ⟨⟨hmem, hnodup⟩, -, htaken⟩
        refine ⟨hnodup, fun k' hk' => ⟨htaken k' hk', ?_⟩⟩
        rintro rfl
        exact hmem hk'

/-! ## A source that is not there yet -/

/-- `t` is `s` with one source more, and its objects. -/
structure Extended (s : Schema) (p : ParsedSource) (t : Schema) : Prop where
  consistent : t.Consistent
  sources : t.sources = s.sources ++ [p.toSource]
  objects : t.objects = s.objects ++ p.objects
  changed : t.changed = s.changed

/-- A source that is not there can be added if all its objects can. -/
theorem Consistent.addSource (hs : s.Consistent) (hp : p.IsReading) (hid : s.source? p.id = none)
    (hkeys : duplicate? s.contains (p.objects.map (·.key)) = none) :
    ∃ t, s.addSource p = (t, .ok p.objects.length) ∧ s.Extended p t := by
  have htraced : s.Traced (.single p hp) := by
    refine ⟨hs, fun q hq source hsource => ?_, fun q hq o ho hsource => ?_⟩ <;>
      obtain rfl : q = p := hq
    · rw [hid] at hsource
      cases hsource
    · obtain ⟨source, hsource', -⟩ := hs.located o ho
      rw [hsource, hid] at hsource'
      cases hsource'
  have hregister := htraced.register rfl hid
  have hsource : Schema.source? { s with sources := s.sources ++ [p.toSource] } p.id =
      some p.toSource := by
    rw [source?_append p.toSource hid, if_pos rfl]
  obtain ⟨hrun, h⟩ := hregister.addObjects rfl (fun o ho => ho) hsource rfl hkeys
  refine ⟨_, ?_, h.consistent, rfl, rfl, rfl⟩
  simp only [Schema.addSource, hkeys, Schema.register, hid, hrun]
  rfl

theorem duplicate?_of_addSource (h : s.addSource p = (t, .ok n)) :
    duplicate? s.contains (p.objects.map (·.key)) = none := by
  unfold Schema.addSource at h
  split at h
  · cases h
  · assumption

theorem extended_of_addSource (hs : s.Consistent) (hp : p.IsReading) (hid : s.source? p.id = none)
    (h : s.addSource p = (t, .ok n)) : s.Extended p t := by
  obtain ⟨t', hadd, hextended⟩ := hs.addSource hp hid (duplicate?_of_addSource h)
  rw [h] at hadd
  cases hadd
  exact hextended

/-- A source that is there cannot be read and added once more. -/
theorem source?_of_addSource (h : s.addSource p = (t, .ok n))
    (hedition : ∀ source, s.source? p.id = some source → source.edition ≠ p.edition) :
    s.source? p.id = none := by
  cases hsource : s.source? p.id with
  | none => rfl
  | some source =>
    simp only [Schema.addSource, duplicate?_of_addSource h, Schema.register, hsource,
      hedition source hsource, if_false] at h
    cases h

/-- The objects that were there keep their definitions. -/
theorem Extended.definitionTokens (hs : s.Consistent) (h : s.Extended p t)
    (hid : s.source? p.id = none) (ho : o ∈ s.objects) :
    t.definitionTokens o = s.definitionTokens o := by
  obtain ⟨source, hsource, -⟩ := hs.located o ho
  refine definitionTokens_congr ?_
  rw [hsource]
  have h' := source?_append_of_isSome p.toSource hid hsource
  rwa [Schema.source?, ← h.sources] at h'

theorem Extended.source? (h : s.Extended p t) (hid : s.source? p.id = none) (id : String) :
    t.source? id = if id = p.id then some p.toSource else s.source? id := by
  have h' := source?_append p.toSource hid id
  rwa [Schema.source?, ← h.sources] at h'

/-- Those that are new have the definitions that were read. -/
theorem Extended.slice? (h : s.Extended p t) (hid : s.source? p.id = none) (hp : p.IsReading)
    (ho : o ∈ p.objects) : slice? p.tokens o.span = some (t.definitionTokens o) := by
  have ho' : o ∈ t.objects := by
    rw [h.objects]
    exact List.mem_append_right _ ho
  have hsource : t.source? o.source = some p.toSource := by
    rw [h.source? hid, if_pos (hp.sound.source o ho).1]
  exact (h.consistent.slice? ho' hsource).1

theorem Extended.definition_eq (h : s.Extended p t) (hid : s.source? p.id = none) (hp : p.IsReading)
    (ho : o ∈ p.objects) :
    t.definition o = Token.render ((SchemaAlign.slice? p.tokens o.span).getD []) := by
  rw [h.slice? hid hp ho]
  rfl

/-- What the schema holds after the source was added. -/
theorem Extended.holds_iff (hs : s.Consistent) (h : s.Extended p t) (hid : s.source? p.id = none)
    {definition : String} : t.Holds key id definition ↔ s.Holds key id definition ∨
      ∃ o ∈ p.objects, o.key = key ∧ o.source = id ∧ t.definition o = definition := by
  rw [Holds, h.objects]
  simp only [List.mem_append, or_and_right, exists_or]
  refine or_congr_left ⟨?_, ?_⟩
  · rintro ⟨o, ho, hkey, hsource, rfl⟩
    refine ⟨o, ho, hkey, hsource, ?_⟩
    rw [definition, definition, h.definitionTokens hs hid ho]
  · rintro ⟨o, ho, hkey, hsource, rfl⟩
    refine ⟨o, ho, hkey, hsource, ?_⟩
    rw [definition, definition, h.definitionTokens hs hid ho]

/-! ## A text that is loaded -/

theorem load_of_ofText (h : ParsedSource.ofText edition id text = .ok p) :
    s.load edition id text = ((s.addSource p).1, (s.addSource p).2.mapError .contract) := by
  simp only [load, h]

/-- The objects of a text are those of its outline. -/
theorem ofText_of_outline? (h : outline? (Token.tokenize text) = some out) (edition : Nat)
    (id : String) : ∃ p, ParsedSource.ofText edition id text = .ok p ∧ p.id = id ∧
      p.edition = edition ∧ p.tokens = Token.tokenize text ∧
      p.objects.map (fun o => (o.key, Token.render ((slice? p.tokens o.span).getD []))) = out := by
  unfold outline? at h
  split at h
  · next statements hstatements =>
    cases h
    let objects := statements.filterMap (SchemaObject.ofStatement? id edition)
    refine ⟨{ id, edition, tokens := Token.tokenize text, objects }, ?_, rfl, rfl, rfl, ?_⟩
    · simp only [ParsedSource.ofText, Statement.parse, hstatements, bind, Except.bind, pure,
        Except.pure, Except.mapError]
      rfl
    · rw [List.map_filterMap]
      refine List.filterMap_congr fun st _ => ?_
      rw [Statement.item?, SchemaObject.ofStatement?, Option.map_map]
      rfl
  · cases h

theorem outline?_of_ofText (h : ParsedSource.ofText edition id text = .ok p) :
    ∃ out, outline? (Token.tokenize text) = some out := by
  obtain ⟨statements, hreading, -⟩ := ParsedSource.ofText_eq_ok h
  exact ⟨_, hreading.outline⟩

theorem addSource_of_load (h : s.load edition id text = (t, .ok n)) :
    ∃ p, ParsedSource.ofText edition id text = .ok p ∧ p.id = id ∧ p.edition = edition ∧
      s.addSource p = (t, .ok n) := by
  unfold load at h
  split at h
  · cases h
  · next p hread =>
    obtain ⟨statements, -, rfl⟩ := ParsedSource.ofText_eq_ok hread
    refine ⟨_, hread, rfl, rfl, ?_⟩
    generalize s.addSource _ = x at h ⊢
    obtain ⟨t', result⟩ := x
    cases result <;> cases h
    rfl

theorem extended_of_load (hs : s.Consistent) (h : s.load edition id text = (t, .ok n))
    (hid : s.source? id = none) :
    ∃ p, ParsedSource.ofText edition id text = .ok p ∧ s.Extended p t := by
  obtain ⟨p, hread, rfl, -, hadd⟩ := addSource_of_load h
  exact ⟨p, hread, extended_of_addSource hs (.text hread) hid hadd⟩

/-- The objects of a text that was loaded are those of its statements, and their definitions are
    parts of the text. -/
theorem exists_statements_of_load (h : empty.load edition id text = (s, .ok n)) :
    s.Consistent ∧ s.changed = [] ∧ ∃ sts, Parser.Reading 0 (Token.tokenize text) sts ∧
      s.objects = sts.filterMap (SchemaObject.ofStatement? id edition) ∧
      ∀ o ∈ s.objects, slice? (Token.tokenize text) o.span = some (s.definitionTokens o) := by
  obtain ⟨p, hread, hextended⟩ := extended_of_load consistent_empty h rfl
  have hslice {o : SchemaObject} := hextended.slice? (o := o) rfl (.text hread)
  have hobjects : s.objects = p.objects := hextended.objects
  obtain ⟨sts, hreading, rfl⟩ := ParsedSource.ofText_eq_ok hread
  refine ⟨hextended.consistent, hextended.changed, sts, hreading, hobjects, fun o ho => ?_⟩
  exact hslice (hobjects ▸ ho)

/-- Every object was found in the tokens of its source. -/
def Found (s : Schema) : Prop :=
  ∀ o ∈ s.objects, ∃ tokens out, s.tokens? o.source = some tokens ∧
    outline? tokens = some out ∧ (o.key, s.definition o) ∈ out

theorem found_of_extended (hs : s.Consistent) (hfound : s.Found) (h : s.Extended p t)
    (hid : s.source? id = none) (hread : ParsedSource.ofText edition id text = .ok p) :
    t.Found := by
  obtain ⟨out, hout⟩ := outline?_of_ofText hread
  obtain ⟨p', hread', hid', -, htokens, hobjects⟩ := ofText_of_outline? hout edition id
  cases hread.symm.trans hread'
  have hnone : s.source? p.id = none := by rw [hid', hid]
  intro o ho
  rw [h.objects] at ho
  rcases List.mem_append.1 ho with ho | ho
  · obtain ⟨tokens, out, hsource, hout, hmem⟩ := hfound o ho
    refine ⟨tokens, out, ?_, hout, by rwa [definition, h.definitionTokens hs hnone ho]⟩
    rw [tokens?, h.source? hnone, if_neg, ← tokens?, hsource]
    intro heq
    rw [tokens?, heq, hnone] at hsource
    cases hsource
  · have hsource := ((ParsedSource.sound_of_ofText hread).source o ho).1
    refine ⟨p.tokens, out, ?_, htokens ▸ hout, ?_⟩
    · rw [tokens?, h.source? hnone, if_pos hsource]
      rfl
    · rw [← hobjects, h.definition_eq hnone (.text hread) ho]
      exact List.mem_map_of_mem ho

/-! ## What a text says of a schema -/

/-- The text says what the schema holds of the source. -/
def Mirrors (m : Schema) (id text : String) : Prop :=
  ∃ out, outline? (Token.tokenize text) = some out ∧ (out.map (·.1)).Nodup ∧
    ∀ key definition, (key, definition) ∈ out ↔ m.Holds key id definition

/-- `s` holds what `m` holds of the given sources. -/
structure Reloaded (m : Schema) (ids : List String) (s : Schema) : Prop where
  consistent : s.Consistent
  changed : s.changed = []
  sources : ∀ id, (s.source? id).isSome = true ↔ id ∈ ids
  holds : ∀ key id definition, s.Holds key id definition ↔ id ∈ ids ∧ m.Holds key id definition

theorem reloaded_empty (m : Schema) : Reloaded m [] empty where
  consistent := consistent_empty
  changed := rfl
  sources id := by simp [empty, source?]
  holds key id definition := by simp [empty, Holds]

/-- A key of another source is not taken: `m` holds it in one source only, and `s` holds no more. -/
theorem Reloaded.contains_eq_false {m : Schema} {ids : List String} {key : ObjectKey}
    {definition : String} (hm : m.Consistent) (h : Reloaded m ids s) (hid : id ∉ ids)
    (hholds : m.Holds key id definition) : s.contains key = false := by
  rw [contains_eq_false_iff]
  intro o ho hkey
  obtain ⟨hmem, hother⟩ := (h.holds _ _ _).1 ⟨o, ho, hkey, rfl, rfl⟩
  have heq := (hm.item?_eq_some_iff.2 hother).symm.trans (hm.item?_eq_some_iff.2 hholds)
  exact hid ((Prod.mk.inj (Option.some.inj heq)).1 ▸ hmem)

/-- One more source is loaded from a text that says what `m` holds of it. -/
theorem Reloaded.load {m : Schema} {ids : List String} (hm : m.Consistent) (h : Reloaded m ids s)
    (hid : id ∉ ids) (hmirrors : m.Mirrors id text) (edition : Nat) :
    ∃ t n, s.load edition id text = (t, .ok n) ∧ Reloaded m (ids ++ [id]) t := by
  obtain ⟨out, hout, hnodup, hmem⟩ := hmirrors
  obtain ⟨p, hread, rfl, hedition, htokens, hobjects⟩ := ofText_of_outline? hout edition id
  have hnone : s.source? p.id = none := by
    rw [← Option.not_isSome_iff_eq_none, h.sources]
    exact hid
  have hkeys : p.objects.map (·.key) = out.map (·.1) := by
    rw [← hobjects, List.map_map]
    rfl
  have hfresh : ∀ key ∈ out.map (·.1), s.contains key = false := by
    intro key hkey
    obtain ⟨⟨_, definition⟩, hentry, rfl⟩ := List.mem_map.1 hkey
    exact h.contains_eq_false hm hid ((hmem _ _).1 hentry)
  obtain ⟨t, hadd, hextended⟩ := h.consistent.addSource (.text hread) hnone
    (duplicate?_eq_none_iff.2 ⟨hkeys ▸ hnodup, hkeys ▸ hfresh⟩)
  refine ⟨t, p.objects.length, by rw [load_of_ofText hread, hadd]; rfl, hextended.consistent,
    hextended.changed.trans h.changed, fun id' => ?_, fun key id' definition => ?_⟩
  · rw [hextended.source? hnone, List.mem_append, List.mem_singleton, ← h.sources]
    by_cases hid' : id' = p.id <;> simp [hid']
  · have hdefinition {o : SchemaObject} (ho : o ∈ p.objects) :=
      hextended.definition_eq hnone (.text hread) ho
    rw [hextended.holds_iff h.consistent hnone, h.holds, List.mem_append, List.mem_singleton,
      or_and_right]
    -- Of the new source, `t` holds what the text says, and this is what `m` holds.
    refine or_congr_right ?_
    rw [← hobjects] at hmem
    constructor
    · rintro ⟨o, ho, rfl, hsource, rfl⟩
      have hid' := hsource.symm.trans ((ParsedSource.sound_of_ofText hread).source o ho).1
      refine ⟨hid', hid' ▸ (hmem _ _).1 (List.mem_map.2 ⟨o, ho, ?_⟩)⟩
      rw [hdefinition ho]
    · rintro ⟨rfl, hholds⟩
      obtain ⟨o, ho, heq⟩ := List.mem_map.1 ((hmem _ _).2 hholds)
      cases heq
      exact ⟨o, ho, rfl, ((ParsedSource.sound_of_ofText hread).source o ho).1, hdefinition ho⟩

/-- Once all sources of `m` are loaded, the entries are those of `m`. -/
theorem Reloaded.item? {m : Schema} {ids : List String} (hm : m.Consistent) (h : Reloaded m ids s)
    (hids : ∀ o ∈ m.objects, o.source ∈ ids) (key : ObjectKey) : s.item? key = m.item? key := by
  refine item?_congr h.consistent hm (fun key id definition => ?_) key
  rw [h.holds, and_iff_right_iff_imp]
  rintro ⟨o, ho, -, rfl, -⟩
  exact hids o ho

/-- Whether schemas are in sync depends on nothing but their entries. -/
theorem InSync.congr {d : Schema} (h : t.InSync d) (hentries : ∀ key, s.item? key = t.item? key) :
    s.InSync d := by
  intro key
  have hkey := h key
  have hentry := hentries key
  rw [Schema.item?, Schema.item?] at hentry
  cases hs : s.get? key with
  | none =>
    cases ht : t.get? key with
    | none =>
      cases hd : d.get? key with
      | none => trivial
      | some new => simp [ht, hd] at hkey
    | some o' => simp [hs, ht] at hentry
  | some o =>
    cases ht : t.get? key with
    | none => simp [hs, ht] at hentry
    | some o' =>
      rw [ht] at hkey
      simp only [hs, ht, Option.map_some, Option.some.injEq, Prod.mk.injEq] at hentry
      cases hd : d.get? key with
      | none => simp [hd] at hkey
      | some new =>
        simp only [hd] at hkey ⊢
        rw [Token.sameDefinition, Token.relex, show Token.render _ = _ from hentry.2]
        exact hkey

end Schema

end SchemaAlign
