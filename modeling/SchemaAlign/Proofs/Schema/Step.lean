import SchemaAlign.Proofs.Schema.Consistent

/-!
# What one edit does

An edit sets, adds or blanks the tokens of its own object. All other objects keep theirs.

* `Edit.Fits`: an edit that can be applied;
* `Schema.Redefined`, `Schema.Appended`: changing a definition, adding one;
* `Schema.Frame`: all that does not concern one object stays;
* `Schema.Applied`: a schema after one edit, and `applyEdit_eq_ok`: edits that fit succeed.
-/

namespace SchemaAlign

variable {s t t' d : Schema} {e : Edit} {edition : Nat} {placement : SchemaObject → String}
  {o old new : SchemaObject} {f : List Token → List Token} {id target : String} {source : Source}

/-- The edit is about objects of the two schemas. -/
inductive Edit.Fits (s d : Schema) : Edit → Prop
  | add {new : SchemaObject} : new ∈ d.objects → s.contains new.key = false → Fits s d (.add new)
  | modify {old new : SchemaObject} : old ∈ s.objects → new ∈ d.objects → old.key = new.key →
      Fits s d (.modify old new)
  | remove {old : SchemaObject} : old ∈ s.objects → Fits s d (.remove old)

/-! ## The tokens of a definition -/

theorem length_replaceText (text : String) (tokens : List Token) :
    (Token.replaceText text tokens).length = tokens.length := by
  cases tokens <;> simp [Token.replaceText, Token.blankOut]

theorem length_blankOut (tokens : List Token) :
    (Token.blankOut tokens).length = tokens.length := by
  simp [Token.blankOut]

theorem chars_blankOut (tokens : List Token) : Token.chars (Token.blankOut tokens) = [] := by
  simp [Token.chars, Token.blankOut]

theorem render_replaceText (text : String) {tokens : List Token} (h : tokens ≠ []) :
    Token.render (Token.replaceText text tokens) = text := by
  cases tokens with
  | nil => exact absurd rfl h
  | cons t ts => simp [Token.replaceText, Token.render, chars_blankOut]

namespace Schema

/-! ## Changing a definition -/

/-- Notes that a source was changed. -/
def mark (changed : List String) (id : String) : List String :=
  if changed.contains id then changed else changed ++ [id]

theorem changed_markChanged (s : Schema) (id : String) :
    (s.markChanged id).changed = mark s.changed id := by
  unfold markChanged mark
  split <;> rfl

/-- `t` is `s` with the tokens of the definition of `o` changed by `f`. -/
structure Redefined (s : Schema) (o : SchemaObject) (f : List Token → List Token) (t : Schema) :
    Prop where
  consistent : t.Consistent
  objects : t.objects = s.objects
  changed : t.changed = mark s.changed o.source
  source : ∀ source, s.source? o.source = some source → t.source? o.source =
    some { source with tokens := overwrite source.tokens o.span (f (s.definitionTokens o)) }
  others : ∀ id, id ≠ o.source → t.source? id = s.source? id

theorem Consistent.redefine (h : s.Consistent) (ho : o ∈ s.objects)
    (hf : ∀ tokens, (f tokens).length = tokens.length) :
    ∃ t, s.redefine o f = .ok t ∧ s.Redefined o f t := by
  obtain ⟨source, hsource, hedition, -, -⟩ := h.located o ho
  obtain ⟨hslice, -⟩ := h.slice? ho hsource
  refine ⟨(s.withTokens o.source (overwrite source.tokens o.span
    (f (s.definitionTokens o)))).markChanged o.source, ?_, ?_⟩
  · simp [Schema.redefine, h.get?_key ho, hsource, hedition, hslice]
  · have hlen := length_overwrite hslice (hf (s.definitionTokens o))
    have hsome : (s.source? o.source).isSome = true := by rw [hsource]; rfl
    constructor
    case consistent =>
      refine (h.withTokens hsource (Nat.le_of_eq hlen.symm)).markChanged ?_
      rw [isSome_source?_withTokens, hsome]
    case objects => rw [objects_markChanged]; rfl
    case changed => rw [changed_markChanged]; rfl
    case source =>
      intro source' hsource'
      obtain rfl := Option.some.inj (hsource.symm.trans hsource')
      rw [source?_markChanged, source?_withTokens_self hsource]
    case others =>
      intro id hid
      rw [source?_markChanged, source?_withTokens_of_ne _ hid]

/-! ## Adding a definition -/

/-- What stands before a definition that is added to the source: its tokens and an empty line, or
    nothing if there is no such source. -/
def before (s : Schema) (target : String) : List Token :=
  match s.source? target with
  | some source => source.tokens ++ [Token.separator]
  | none => []

/-- The edition of a source, or the given one if there is no such source. -/
def editionOf (s : Schema) (edition : Nat) (target : String) : Nat :=
  (s.source? target).elim edition (·.edition)

/-- `t` is `s` with the definition that an object has in `d` put at the end of a source; `o` is the
    object there. -/
structure Appended (s d : Schema) (edition : Nat) (new : SchemaObject) (target : String)
    (o : SchemaObject) (t : Schema) : Prop where
  consistent : t.Consistent
  key : o.key = new.key
  place : o.source = target
  span : o.span = ⟨(s.before target).length,
    (s.before target).length + (d.definitionTokens new).length⟩
  objects : t.objects = s.objects ++ [o]
  changed : t.changed = mark s.changed target
  source : ∃ source, t.source? target = some source ∧
    source.tokens = s.before target ++ d.definitionTokens new ∧
    source.edition = s.editionOf edition target
  others : ∀ id, id ≠ target → t.source? id = s.source? id

theorem Consistent.appendTokens (h : s.Consistent) (edition : Nat) (target : String)
    (definition : List Token) :
    ∃ t source, s.appendTokens edition target definition =
        (t, source.edition, (s.before target).length) ∧
      t.Consistent ∧ t.objects = s.objects ∧ t.changed = s.changed ∧
      t.source? target = some source ∧ source.tokens = s.before target ++ definition ∧
      source.edition = s.editionOf edition target ∧
      ∀ id, id ≠ target → t.source? id = s.source? id := by
  cases hsource : s.source? target with
  | some source =>
    simp only [Schema.appendTokens, before, editionOf, hsource]
    have hlen : source.tokens.length ≤ (source.tokens ++ [Token.separator] ++ definition).length := by
      simp only [List.length_append]
      omega
    exact ⟨_, { source with tokens := source.tokens ++ [Token.separator] ++ definition }, rfl,
      h.withTokens hsource hlen, rfl, rfl, source?_withTokens_self hsource, rfl, rfl,
      fun id hid => source?_withTokens_of_ne _ hid⟩
  | none =>
    simp only [Schema.appendTokens, before, editionOf, hsource]
    have hnew := source?_append ⟨target, edition, definition⟩ hsource
    refine ⟨_, ⟨target, edition, definition⟩, rfl, h.append hsource, rfl, rfl, ?_, rfl, rfl, ?_⟩
    · rw [hnew, if_pos rfl]
    · intro id hid
      rw [hnew, if_neg hid]

theorem shift_span (o : SchemaObject) (base n : Nat) (h : o.span.stop = o.span.start + n) :
    o.span.shift o.span.start base = ⟨base, base + n⟩ := by
  simp only [Span.shift, Span.mk.injEq]
  omega

theorem length_of_objectTokens {tokens : List Token} (h : d.objectTokens new = .ok tokens) :
    tokens.length = new.span.stop - new.span.start := by
  unfold objectTokens at h
  split at h
  · cases h
  · split at h
    · cases h
    · split at h
      · next hslice =>
        cases h
        exact length_of_slice? hslice
      · cases h

/-- The objects of a source end before a definition does that is put behind them. -/
theorem Consistent.stop_le_before (h : s.Consistent) (ho : o ∈ s.objects) :
    o.span.stop ≤ (s.before o.source).length := by
  obtain ⟨source, hsource, -, -, hle⟩ := h.located o ho
  rw [before, hsource, List.length_append]
  exact Nat.le_add_right_of_le hle

/-- An object with a definition of at least one token is added where no object of its key is. It
    need not be in `d`. -/
theorem Consistent.appendObject (h : s.Consistent)
    (hok : d.objectTokens new = .ok (d.definitionTokens new))
    (hlt : new.span.start < new.span.stop) (hkey : s.contains new.key = false) (edition : Nat)
    (target : String) :
    ∃ o t, s.appendObject edition d new target = .ok t ∧ s.Appended d edition new target o t := by
  have hlen := length_of_objectTokens hok
  obtain ⟨t, source, happend, ht, hobjects, hchanged, htarget, htokens, hedition, hothers⟩ :=
    h.appendTokens edition target (d.definitionTokens new)
  let o : SchemaObject :=
    { key := new.key
      statement := new.statement.shift new.span.start (s.before target).length
      source := target
      edition := source.edition }
  have hspan : o.span = ⟨(s.before target).length,
      (s.before target).length + (d.definitionTokens new).length⟩ := by
    have : o.span = new.span.shift new.span.start (s.before target).length :=
      Statement.span_mapSpan _ _
    rw [this]
    exact shift_span new _ _ (by omega)
  have hkey' : t.contains o.key = false := by
    rw [contains_eq_false_iff, hobjects]
    exact contains_eq_false_iff.1 hkey
  have hapart : ∀ o' ∈ t.objects, o'.source = o.source → o'.span.Apart o.span := by
    intro o' ho' hid
    rw [hobjects] at ho'
    refine .inl ?_
    rw [hspan, show target = o'.source from hid.symm]
    exact h.stop_le_before ho'
  obtain ⟨hadd, hcons⟩ := ht.addObject hkey' htarget rfl (by rw [hspan]; dsimp only; omega)
    (Nat.le_of_eq (by rw [hspan, htokens, List.length_append])) hapart
  refine ⟨o, ({ t with objects := t.objects ++ [o] } : Schema).markChanged target, ?_, ?_⟩
  · simp only [Schema.appendObject, hkey, hok, bind, Except.bind, pure, Except.pure]
    simp [happend, o, hadd]
  · constructor
    case consistent =>
      refine hcons.markChanged ?_
      show (t.source? target).isSome = true
      rw [htarget]
      rfl
    case key => rfl
    case place => rfl
    case span => exact hspan
    case objects => rw [objects_markChanged, hobjects]
    case changed => rw [changed_markChanged, hchanged]
    case source =>
      exact ⟨source, (source?_markChanged _ _ _).trans htarget, htokens, hedition⟩
    case others => exact fun id hid => (source?_markChanged _ _ _).trans (hothers id hid)

/-! ## What stays as it is -/

/-- `t'` is like `t` in all that does not concern the given key. -/
structure Frame (key : ObjectKey) (t t' : Schema) : Prop where
  objects : ∀ k, k ≠ key → t'.get? k = t.get? k
  definitions : ∀ o ∈ t.objects, o.key ≠ key → t'.definitionTokens o = t.definitionTokens o

theorem definitionTokens_congr (h : t'.source? o.source = t.source? o.source) :
    t'.definitionTokens o = t.definitionTokens o := by
  rw [definitionTokens, definitionTokens, objectTokens_congr h]

/-- Another definition keeps its tokens where those of its source stay, or where those in its span
    do. -/
theorem definitionTokens_of_slice? {source' : Source} (hsource : t.source? o.source = some source)
    (hsource' : t'.source? o.source = some source') (hedition : source'.edition = source.edition)
    (h : slice? source'.tokens o.span = slice? source.tokens o.span) :
    t'.definitionTokens o = t.definitionTokens o := by
  rw [definitionTokens, definitionTokens, objectTokens, objectTokens, hsource, hsource']
  simp only [hedition, h]

theorem Redefined.frame (h : t.Consistent) (ho : old ∈ t.objects)
    (hf : ∀ tokens, (f tokens).length = tokens.length) (hr : t.Redefined old f t') :
    Frame old.key t t' where
  objects _ _ := by rw [get?, get?, hr.objects]
  definitions := by
    intro o' ho' hne
    by_cases hid : o'.source = old.source
    -- In the same source the two spans are apart, so the tokens of `o'` are not overwritten.
    · obtain ⟨source, hsource, -, hlt, -⟩ := h.located o' ho'
      rw [hid] at hsource
      obtain ⟨hslice, -⟩ := h.slice? ho hsource
      have hsource' := hr.source source hsource
      rw [← hid] at hsource hsource'
      refine definitionTokens_of_slice? hsource hsource' rfl ?_
      exact slice?_overwrite_apart hslice (hf _) (h.apart old ho o' ho' (Ne.symm hne) hid.symm)
        (Nat.le_of_lt hlt)
    · exact definitionTokens_congr (hr.others _ hid)

theorem Appended.frame (h : t.Consistent) (ha : t.Appended d edition new target o t') :
    Frame new.key t t' where
  objects k hk := by
    rw [get?, get?, ha.objects, List.find?_append]
    have : (o.key == k) = false := by rw [ha.key]; exact beq_false_of_ne (Ne.symm hk)
    simp [this]
  definitions := by
    intro o' ho' _
    by_cases hid : o'.source = target
    -- The new tokens stand behind all that the source had, and so behind the span of `o'`.
    · obtain ⟨source, hsource, -, -, hle⟩ := h.located o' ho'
      obtain ⟨source', hsource', htokens, hedition⟩ := ha.source
      rw [hid] at hsource
      have hbefore : t.before target = source.tokens ++ [Token.separator] := by
        rw [before, hsource]
      rw [hbefore, List.append_assoc] at htokens
      rw [editionOf, hsource] at hedition
      rw [← hid] at hsource hsource'
      refine definitionTokens_of_slice? hsource hsource' hedition ?_
      rw [htokens, slice?_append_left hle]
    · exact definitionTokens_congr (ha.others _ hid)

theorem Redefined.definition {t' : Schema} (h : t.Consistent) (ho : old ∈ t.objects)
    (hf : ∀ tokens, (f tokens).length = tokens.length) (hr : t.Redefined old f t') :
    t'.definitionTokens old = f (t.definitionTokens old) := by
  obtain ⟨source, hsource, hedition, -⟩ := h.located old ho
  obtain ⟨hslice, -⟩ := h.slice? ho hsource
  rw [Schema.definitionTokens, Schema.objectTokens, hr.source source hsource]
  simp [hedition, slice?_overwrite hslice (hf _)]

theorem definitionTokens_ne_nil (h : t.Consistent) (ho : o ∈ t.objects) :
    t.definitionTokens o ≠ [] := by
  obtain ⟨source, hsource, -, hlt, -⟩ := h.located o ho
  have hlen := length_of_slice? (h.slice? ho hsource).1
  intro hnil
  rw [hnil, List.length_nil] at hlen
  omega

/-- The object that was added has the definition that it was added with. -/
theorem Appended.definitionTokens (ha : t.Appended d edition new target o s) :
    s.definitionTokens o = d.definitionTokens new := by
  obtain ⟨source, hsource, htokens, -⟩ := ha.source
  have ho : o ∈ s.objects := by rw [ha.objects]; simp
  have hslice := (ha.consistent.slice? ho (ha.place ▸ hsource)).1
  have hpart := slice?_append (t.before target) (d.definitionTokens new) []
  rw [List.append_nil, ← htokens, ← ha.span, hslice] at hpart
  exact Option.some.inj hpart

theorem Appended.tokens? (ha : t.Appended d edition new target o s) (id : String) :
    s.tokens? id = if target = id then some (t.before id ++ d.definitionTokens new)
      else t.tokens? id := by
  split
  · next hid =>
    subst hid
    obtain ⟨source, hsource, htokens, -⟩ := ha.source
    rw [Schema.tokens?, hsource, Option.map_some, htokens]
  · next hid => rw [Schema.tokens?, Schema.tokens?, ha.others id (Ne.symm hid)]

theorem before_eq (s : Schema) (id : String) :
    s.before id = match s.tokens? id with
      | some tokens => tokens ++ [Token.separator]
      | none => [] := by
  rw [before, Schema.tokens?]
  cases s.source? id <;> rfl

/-! ## One edit -/

/-- A schema after one edit about objects that are there at that time. -/
inductive Applied (d : Schema) (edition : Nat) (placement : SchemaObject → String) (t : Schema) :
    Edit → Schema → Prop
  | add {new o : SchemaObject} {t' : Schema} : new ∈ d.objects → t.contains new.key = false →
      t.Appended d edition new (placement new) o t' → Applied d edition placement t (.add new) t'
  | modify {old new : SchemaObject} {t' : Schema} : old ∈ t.objects → new ∈ d.objects →
      old.key = new.key → t.Redefined old (Token.replaceText (d.definition new)) t' →
      Applied d edition placement t (.modify old new) t'
  | remove {old : SchemaObject} {t' : Schema} : old ∈ t.objects →
      t.Redefined old Token.blankOut t' → Applied d edition placement t (.remove old)
        { t' with objects := t'.objects.filter (·.key != old.key) }

/-- An edit that fits can be applied. -/
theorem applyEdit_eq_ok (ht : t.Consistent) (hd : d.Consistent) (he : e.Fits t d) :
    ∃ t', applyEdit edition d placement t e = .ok t' ∧ Applied d edition placement t e t' := by
  cases he with
  | @add new hnew hkey =>
    obtain ⟨-, -, -, hlt, -⟩ := hd.located new hnew
    obtain ⟨o, t', hok, ha⟩ :=
      ht.appendObject (hd.objectTokens hnew) hlt hkey edition (placement new)
    exact ⟨t', hok, .add hnew hkey ha⟩
  | @modify old new hold hnew hkey =>
    obtain ⟨t', hok, hr⟩ := ht.redefine (f := Token.replaceText (d.definition new)) hold
      (length_replaceText _)
    refine ⟨t', ?_, .modify hold hnew hkey hr⟩
    simp only [applyEdit, replaceObject, hkey, hd.objectTokens hnew, bind, Except.bind]
    simpa [definition] using hok
  | @remove old hold =>
    obtain ⟨t', hok, hr⟩ := ht.redefine hold length_blankOut
    refine ⟨_, ?_, .remove hold hr⟩
    simp only [applyEdit, removeObject, hok]
    rfl

end Schema

end SchemaAlign
