import SchemaAlign.Proofs.Parser.Tiling
import SchemaAlign.Proofs.Schema.Addition

/-!
# Definitions that are moved

An object that is added to a schema gets the statement of the desired one, with all its spans moved
to where the definition was put.

* `Statement.spans`: all spans of a statement;
* `Statement.Nested`: they lie inside the span of the whole;
* `Session.nested`: the statements of all objects are nested, however often they were moved;
* `Schema.Copied`: an object that is a copy of another one, span by span;
* `update_copies`: what an update adds is a copy.
-/

namespace SchemaAlign

variable {s t t' u d : Schema} {o new : SchemaObject} {p : ParsedSource} {e : Edit} {sp : Span}
  {statement : Statement} {tokens : List Token} {edition base : Nat}
  {placement : SchemaObject → String} {R R' : Readings}

/-! ## The spans of a statement -/

theorem Column.parts_mapSpan (f : Span → Span) (c : Column) :
    (c.mapSpan f).parts = c.parts.map f := by
  cases h : c.type <;>
    simp [Column.parts, Column.mapSpan, h, TypeName.mapSpan, Constraint.mapSpan]

theorem CreateTable.parts_mapSpan (f : Span → Span) (table : CreateTable) :
    (table.mapSpan f).parts = table.parts.map f := by
  simp [CreateTable.parts, CreateTable.mapSpan, Column.mapSpan, TableOption.mapSpan,
    Function.comp_def]

namespace Statement

/-- All spans of a statement: of the whole, of the columns and the options of a table, and of the
    type and the constraints of each column. -/
def spans : Statement → List Span
  | createTable table => table.span :: (table.parts ++ table.columns.flatMap Column.parts)
  | other _ span => [span]

theorem span_mem_spans (statement : Statement) : statement.span ∈ statement.spans := by
  cases statement <;> exact List.mem_cons_self

theorem spans_mapSpan (f : Span → Span) (statement : Statement) :
    (statement.mapSpan f).spans = statement.spans.map f := by
  cases statement with
  | createTable table =>
    have hcolumns : (table.mapSpan f).columns.flatMap Column.parts =
        (table.columns.flatMap Column.parts).map f := by
      simp only [CreateTable.mapSpan, List.flatMap_map, Column.parts_mapSpan, List.map_flatMap]
    simp only [mapSpan, spans, hcolumns, CreateTable.parts_mapSpan, List.map_cons, List.map_append]
    rfl
  | other words span => rfl

theorem spans_withSpan (statement : Statement) (sp : Span) :
    (statement.withSpan sp).spans = sp :: statement.spans.tail := by
  cases statement <;> rfl

/-- Moving spans depends on nothing but what becomes of those that are there. -/
theorem mapSpan_congr {f g : Span → Span} (h : ∀ sp ∈ statement.spans, f sp = g sp) :
    statement.mapSpan f = statement.mapSpan g := by
  cases statement with
  | createTable table =>
    obtain ⟨hspan, h⟩ := List.forall_mem_cons.1 h
    obtain ⟨hparts, hcolumns⟩ := List.forall_mem_append.1 h
    obtain ⟨hcolumn, hoption⟩ := List.forall_mem_append.1 hparts
    simp only [mapSpan, CreateTable.mapSpan, hspan, createTable.injEq, CreateTable.mk.injEq,
      true_and, and_true]
    refine ⟨List.map_congr_left fun c hc => ?_, List.map_congr_left fun o ho => ?_⟩
    · obtain ⟨htype, hconstraint⟩ := List.forall_mem_append.1 fun sp hsp =>
        hcolumns sp (List.mem_flatMap.2 ⟨c, hc, hsp⟩)
      simp only [Column.mapSpan, hcolumn c.span (List.mem_map_of_mem hc), Column.mk.injEq, true_and,
        and_true]
      refine ⟨Option.map_congr fun ty hty => ?_, List.map_congr_left fun k hk => ?_⟩
      · have hmem : ty.span ∈ c.type.toList.map (·.span) :=
          List.mem_map_of_mem (Option.mem_toList.2 hty)
        rw [TypeName.mapSpan, TypeName.mapSpan, htype ty.span hmem]
      · rw [Constraint.mapSpan, Constraint.mapSpan, hconstraint k.span (List.mem_map_of_mem hk)]
    · rw [TableOption.mapSpan, TableOption.mapSpan, hoption o.span (List.mem_map_of_mem ho)]
  | other words span => rw [mapSpan, mapSpan, h span List.mem_cons_self]

/-! ## Spans inside the whole -/

/-- All spans of the statement lie inside the span of the whole. -/
def Nested (statement : Statement) : Prop :=
  ∀ sp ∈ statement.spans, sp.Within statement.span

theorem Nested.shift (h : statement.Nested) (source target : Nat) :
    (statement.shift source target).Nested := by
  intro sp hsp
  rw [Statement.shift, spans_mapSpan] at hsp
  obtain ⟨inner, hinner, rfl⟩ := List.mem_map.1 hsp
  rw [Statement.shift, span_mapSpan]
  exact (h inner hinner).shift source target

/-- The span of the whole may grow. -/
theorem Nested.withSpan (h : statement.Nested) (hsp : statement.span.Within sp) :
    (statement.withSpan sp).Nested := by
  intro inner hinner
  rw [spans_withSpan] at hinner
  rw [span_withSpan]
  obtain rfl | hinner := List.mem_cons.1 hinner
  · exact ⟨Nat.le_refl _, Nat.le_trans hsp.start_le (Nat.le_trans hsp.le hsp.stop_le),
      Nat.le_refl _⟩
  · exact (h inner (List.mem_of_mem_tail hinner)).trans hsp

end Statement

namespace Span

/-- The span moved so that the position `source` becomes `target`, where `source` is subtracted
    before `target` is added. -/
def rebase (source target : Nat) (s : Span) : Span :=
  ⟨s.start - source + target, s.stop - source + target⟩

theorem rebase_eq_shift {source target : Nat} (hstart : source ≤ sp.start)
    (hle : sp.start ≤ sp.stop) : sp.rebase source target = sp.shift source target := by
  simp only [rebase, shift, Span.mk.injEq]
  omega

end Span

/-- Spans in a row lie inside the outer one. -/
theorem Span.HasRow.within {outer : Span} {spans : List Span} (h : outer.HasRow tokens spans)
    (hsp : sp ∈ spans) : sp.Within outer :=
  ⟨(h.inside sp hsp).1, Nat.le_of_lt (h.tight sp hsp).lt, (h.inside sp hsp).2⟩

/-- A statement that was read is nested. -/
theorem Parser.Reading.nested {sts : List Statement} (h : Parser.Reading 0 tokens sts)
    (hst : statement ∈ sts) : statement.Nested := by
  obtain ⟨htight, htiled⟩ := h.tiled hst
  have hwhole : statement.span.Within statement.span :=
    ⟨Nat.le_refl _, Nat.le_of_lt htight.lt, Nat.le_refl _⟩
  cases statement with
  | createTable table =>
    obtain ⟨hrow, hcolumns⟩ := htiled
    refine List.forall_mem_cons.2 ⟨hwhole, List.forall_mem_append.2 ⟨fun sp => hrow.within, ?_⟩⟩
    intro sp hsp
    obtain ⟨c, hc, hsp⟩ := List.mem_flatMap.1 hsp
    have hcolumn : c.span ∈ table.parts := List.mem_append_left _ (List.mem_map_of_mem hc)
    exact ((hcolumns c hc).within hsp).trans (hrow.within hcolumn)
  | other words span => exact List.forall_mem_singleton.2 hwhole

theorem nested_terminate (h : statement.Nested) : (terminate tokens statement).2.Nested := by
  unfold terminate
  dsimp only
  split
  · exact h
  · have hwhole := h statement.span statement.span_mem_spans
    exact h.withSpan ⟨Nat.le_refl _, hwhole.le, Nat.le_succ _⟩

/-- The objects of a reading are nested, also those that got a semicolon. -/
theorem ParsedSource.IsReading.nested (h : p.IsReading) : ∀ o ∈ p.objects, o.statement.Nested := by
  cases h with
  | text h =>
    obtain ⟨statements, hreading, rfl⟩ := ofText_eq_ok h
    intro o ho
    obtain ⟨st, hst, ho⟩ := List.mem_filterMap.1 ho
    obtain ⟨key, -, rfl⟩ := Option.map_eq_some_iff.1 ho
    exact hreading.nested hst
  | row h =>
    obtain ⟨kind, statement, -, hreading, rfl⟩ := ofRow_eq_ok h
    exact List.forall_mem_singleton.2 (nested_terminate (hreading.nested List.mem_cons_self))

/-- The only reading of a row. -/
def Readings.ofRow (edition : Nat) (row : CatalogRow) : Readings where
  made p := ParsedSource.ofRow edition row = .ok p
  isReading _ := .row
  unique _ _ hp hq _ _ := Except.ok.inj (hp.symm.trans hq)

namespace Schema

/-! ## The statements of a schema -/

theorem mem_objects_addSource (h : o ∈ (s.addSource p).1.objects) :
    o ∈ s.objects ∨ o ∈ p.objects := by
  have objects (s' : Schema) (hs' : s'.objects = s.objects) :
      ∀ o ∈ (runEach addObject s' p.objects).1.objects, o ∈ s.objects ∨ o ∈ p.objects := by
    refine runEach_preserves (P := fun t : Schema => ∀ o ∈ t.objects, o ∈ s.objects ∨ o ∈ p.objects)
      (fun o ho => .inl (hs' ▸ ho)) fun o ho t t' ht hok => ?_
    obtain ⟨-, rfl⟩ := addObject_eq_ok hok
    exact List.forall_mem_append.2 ⟨ht, List.forall_mem_singleton.2 (.inr ho)⟩
  unfold Schema.addSource at h
  split at h
  · exact .inl h
  · split at h
    · exact .inl h
    · next s' hregister =>
      refine objects s' ?_ o h
      unfold register at hregister
      split at hregister
      · split at hregister <;> cases hregister
        rfl
      · cases hregister
        rfl

theorem objects_redefine {f : List Token → List Token} (h : s.redefine o f = .ok t) :
    t.objects = s.objects := by
  unfold redefine at h
  repeat' split at h
  all_goals cases h
  exact objects_markChanged _ _

/-- What is added has the statement of the desired object, moved to where the definition begins. -/
theorem appendObject_eq_ok {target : String} (h : s.appendObject edition d new target = .ok t) :
    ∃ o, t.objects = s.objects ++ [o] ∧
      o.statement = new.statement.shift new.span.start (s.before target).length := by
  simp only [appendObject, bind, Except.bind, pure, Except.pure] at h
  split at h
  · cases h
  · split at h
    · cases h
    · next definition _ =>
      split at h
      · cases h
      · next hadd =>
        cases h
        obtain ⟨-, rfl⟩ := addObject_eq_ok hadd
        rw [objects_markChanged]
        unfold appendTokens before
        cases s.source? target <;> exact ⟨_, rfl, rfl⟩

/-- An edit brings no object but the one that it adds. -/
theorem mem_objects_applyEdit (h : applyEdit edition d placement t e = .ok t')
    (ho : o ∈ t'.objects) : o ∈ t.objects ∨ ∃ new base, e.desired? = some new ∧
      o.statement = new.statement.shift new.span.start base := by
  cases e with
  | add new =>
    obtain ⟨o', hobjects, hstatement⟩ := appendObject_eq_ok h
    rw [hobjects] at ho
    obtain ho | ho := List.mem_append.1 ho
    · exact .inl ho
    · obtain rfl := List.mem_singleton.1 ho
      exact .inr ⟨new, _, rfl, hstatement⟩
  | modify old new =>
    simp only [applyEdit, replaceObject, bind, Except.bind] at h
    split at h
    · cases h
    · split at h
      · cases h
      · exact .inl (objects_redefine h ▸ ho)
  | remove old =>
    simp only [applyEdit, removeObject, bind, Except.bind, pure, Except.pure] at h
    split at h <;> cases h
    next hredefine =>
      exact .inl (objects_redefine hredefine ▸ List.mem_of_mem_filter ho)

/-- The statements of all objects are nested. -/
def Nested (s : Schema) : Prop :=
  ∀ o ∈ s.objects, o.statement.Nested

theorem Nested.addSource (h : s.Nested) (hp : p.IsReading) : (s.addSource p).1.Nested := by
  intro o ho
  obtain ho | ho := mem_objects_addSource ho
  · exact h o ho
  · exact hp.nested o ho

/-- Edits that bring nested statements keep the schema nested. -/
theorem Nested.applyPlaced {edits : List (Edit × String)} (h : s.Nested)
    (hedits : ∀ x ∈ edits, ∀ o, x.1.desired? = some o → o.statement.Nested) :
    (s.applyPlaced edition d edits).1.Nested := by
  unfold Schema.applyPlaced
  split
  · exact h
  · refine runEach_preserves (P := Nested) h fun x hx t t' ht hok o ho => ?_
    obtain ho | ⟨new, base, hnew, hstatement⟩ := mem_objects_applyEdit hok ho
    · exact ht o ho
    · rw [hstatement]
      exact (hedits x hx new hnew).shift _ _

/-- In every schema of a session the statements of all objects are nested. -/
theorem Session.nested (h : Session R s) : s.Nested := by
  -- What is read is nested, and a copy has all its spans moved alike.
  induction h with
  | empty => exact nofun
  | @run s op origin hs hnumbered hd _ hmem ih ihd ihorigin =>
    cases op with
    | load edition id text =>
      simp only [Operation.run]
      cases hread : ParsedSource.ofText edition id text with
      | error error =>
        rw [Schema.load, hread]
        exact ih
      | ok p =>
        rw [load_of_ofText hread]
        exact ih.addSource (.text hread)
    | addSource p => exact ih.addSource (R.isReading p hnumbered)
    | update edition d placement =>
      simp only [Operation.run]
      rw [hs.traced.consistent.update_eq_apply (hd d rfl).traced.consistent,
        apply_eq_applyPlaced]
      refine ih.applyPlaced fun x hx o ho => ?_
      obtain ⟨e, he, rfl⟩ := List.mem_map.1 hx
      exact ihd d rfl o (mem_of_mem_edits he ho)
    | apply edition d edits =>
      refine ih.applyPlaced fun x hx o ho => ?_
      have ho' : o ∈ (Operation.apply edition d edits).objects :=
        List.mem_flatMap.2 ⟨x, hx, Edit.mem_objects_of_desired? ho⟩
      exact ihorigin o ho' o (hmem o ho')
    | takeChanged => exact ih

/-! ## What an update adds -/

/-- `o` is a copy of the object `new` of `d`. Each span of its statement is one of the desired
    statement, moved by the same distance as all others, and the same tokens stand there. What is
    subtracted to move a span is never greater than what it is subtracted from. -/
structure Copied (d : Schema) (new : SchemaObject) (base : Nat) (t : Schema) (o : SchemaObject) :
    Prop where
  mem : o ∈ t.objects
  key : o.key = new.key
  statement : o.statement = new.statement.mapSpan (Span.rebase new.span.start base)
  tokens : ∃ source target, d.source? new.source = some source ∧
    t.source? o.source = some target ∧ target.edition = o.edition ∧
    ∀ sp ∈ new.statement.spans, new.span.start ≤ sp.start ∧ new.span.start ≤ sp.stop ∧
      (sp.rebase new.span.start base).stop ≤ target.tokens.length ∧
      ∃ part, slice? source.tokens sp = some part ∧
        slice? target.tokens (sp.rebase new.span.start base) = some part

/-- An object with the moved statement and the same definition is a copy. -/
theorem copied_of_definitionTokens (ht : t.Consistent) (hd : d.Consistent) (ho : o ∈ t.objects)
    (hnew : new ∈ d.objects) (hkey : o.key = new.key) (hnested : new.statement.Nested)
    (hstatement : o.statement = new.statement.shift new.span.start base)
    (hdefinition : t.definitionTokens o = d.definitionTokens new) : Copied d new base t o := by
  obtain ⟨source, hsource, -⟩ := hd.located new hnew
  obtain ⟨target, htarget, hedition, -⟩ := ht.located o ho
  have hfrom := (hd.slice? hnew hsource).1
  have hto := (ht.slice? ho htarget).1
  have hspan : o.span = new.span.shift new.span.start base := by
    rw [SchemaObject.span, hstatement, Statement.shift, Statement.span_mapSpan]
    rfl
  have hrebase (sp : Span) (hsp : sp ∈ new.statement.spans) :
      sp.rebase new.span.start base = sp.shift new.span.start base :=
    Span.rebase_eq_shift (hnested sp hsp).start_le (hnested sp hsp).le
  refine ⟨ho, hkey, hstatement.trans (Statement.mapSpan_congr fun sp hsp => (hrebase sp hsp).symm),
    source, target, hsource, htarget, hedition, fun sp hsp => ?_⟩
  have hin : sp.Within new.span := hnested sp hsp
  have hin' : (sp.shift new.span.start base).Within o.span := hspan ▸ hin.shift _ _
  obtain ⟨part, hpart⟩ := exists_slice?_within hfrom hin
  -- Both are the same part of the same definition.
  have hsame : slice? target.tokens (sp.shift new.span.start base) = some part := by
    rw [slice?_within hto hin', hdefinition, ← hpart, slice?_within hfrom hin, hspan]
    congr 1
    have := hin.start_le
    have := hin.le
    simp only [Span.shift, Span.mk.injEq]
    omega
  rw [hrebase sp hsp]
  exact ⟨hin.start_le, Nat.le_trans hin.start_le hin.le, (slice?_eq_some_iff.1 hsame).2.1, part,
    hpart, hsame⟩

/-- Every object that an update adds is a copy of the desired one, from the end of its source on,
    at the time when it is added and also once the update is done. -/
theorem update_copies {done rest : List Edit} (hs : Session R s) (hd : Session R' d)
    (hpending : s.changed = []) (hdiff : s.diff d = .ok (done ++ .add new :: rest)) :
    ∃ t t' u o, runEach (applyEdit edition d placement) s done = (t, .ok ()) ∧
      applyEdit edition d placement t (.add new) = .ok t' ∧
      runEach (applyEdit edition d placement) t' rest = (u, .ok ()) ∧
      s.update edition d placement = (u, .ok true) ∧
      t'.objects = t.objects ++ [o] ∧ o.source = placement new ∧
      Copied d new (t.before (placement new)).length t' o ∧
      Copied d new (t.before (placement new)).length u o := by
  have hcs := hs.traced.consistent
  have hcd := hd.traced.consistent
  have hedits : s.edits d = done ++ .add new :: rest :=
    Except.ok.inj ((hcs.diff hcd).symm.trans hdiff)
  have htargets := hedits ▸ nodup_targets hcs hcd
  obtain ⟨t, t', u, hrun, hok, hrunRest, happlied, hu⟩ := exists_run_at hcs hcd
    (fun e he => fits_of_mem_edits (hedits ▸ he)) htargets edition placement
  have hupdate := hcs.update_eq_of_run hcd hpending hedits hrun hok hrunRest
  cases happlied with
  | @add _ o _ hnew _ ha =>
    obtain ⟨o', hobjects, hstatement⟩ := appendObject_eq_ok hok
    obtain rfl : o = o' := by
      have := List.append_cancel_left (ha.objects.symm.trans hobjects)
      exact List.singleton_inj.1 this
    have ho : o ∈ t'.objects := by rw [ha.objects]; simp
    have hlater : ∀ e ∈ rest, e.target ≠ o.key := fun e he =>
      ha.key ▸ (ne_of_nodup_targets htargets).2.1 e he
    refine ⟨t, t', u, o, hrun, hok, hrunRest, hupdate, ha.objects, ha.place, ?_, ?_⟩
    · exact copied_of_definitionTokens ha.consistent hcd ho hnew ha.key (hd.nested new hnew)
        hstatement ha.definitionTokens
    · -- The edits behind it leave the object and its definition as they are.
      exact copied_of_definitionTokens hu.consistent hcd (hu.mem ha.consistent ho hlater) hnew
        ha.key (hd.nested new hnew) hstatement
        ((hu.definitions o ho hlater).trans ha.definitionTokens)

/-- A row whose statement does not begin its text and got its semicolon is put behind a definition
    that is removed afterwards. -/
theorem update_copies_row :
    let row : CatalogRow :=
      ⟨"table", "b", "b", "/* b */ CREATE TABLE b (x TEXT(3) NOT NULL, y) STRICT"⟩
    let s := (empty.load 0 "s.sql" "CREATE VIEW v AS SELECT 1;").1
    let d := (ofRows 0 [row]).toOption.getD empty
    let placement := fun _ => "s.sql"
    ∃ new ∈ d.objects, ∃ old ∈ s.objects, s.diff d = .ok ([] ++ .add new :: [.remove old]) ∧
      new.statement.spans = [⟨2, 26⟩, ⟨9, 19⟩, ⟨21, 22⟩, ⟨24, 25⟩, ⟨11, 15⟩, ⟨16, 19⟩] ∧
      ∃ t t' u o, runEach (applyEdit 1 d placement) s [] = (t, .ok ()) ∧
        applyEdit 1 d placement t (.add new) = .ok t' ∧
        runEach (applyEdit 1 d placement) t' [.remove old] = (u, .ok ()) ∧
        s.update 1 d placement = (u, .ok true) ∧
        t'.objects = t.objects ++ [o] ∧ o.source = placement new ∧
        Copied d new (t.before (placement new)).length t' o ∧
        Copied d new (t.before (placement new)).length u o := by
  intro row s d placement
  have hs : Session (.ofTexts [(0, "s.sql", "CREATE VIEW v AS SELECT 1;")] (by decide)) s :=
    Session.empty.load fun p hp => ⟨_, .head _, hp⟩
  have hrows : ofRows 0 [row] = .ok d := by decide +kernel
  have hd : Session (.ofRow 0 row) d :=
    Built.session (.ofRows (List.forall_mem_singleton.2 fun p hp => hp) hrows)
  have hdiff : ∃ new ∈ d.objects, ∃ old ∈ s.objects,
      s.diff d = .ok ([] ++ .add new :: [.remove old]) ∧
      new.statement.spans = [⟨2, 26⟩, ⟨9, 19⟩, ⟨21, 22⟩, ⟨24, 25⟩, ⟨11, 15⟩, ⟨16, 19⟩] := by
    decide +kernel
  obtain ⟨new, hnew, old, hold, hdiff, hspans⟩ := hdiff
  exact ⟨new, hnew, old, hold, hdiff, hspans, update_copies hs hd (by decide +kernel) hdiff⟩

end Schema

end SchemaAlign
