import SchemaAlign.Proofs.Catalog
import SchemaAlign.Proofs.Schema.Reload
import SchemaAlign.Proofs.Sync.Files

/-!
# Synchronizing twice

A second run with the same catalog finds nothing to do exactly if the file reader finds again what
the first run wrote.

* `done_of_synchronize`: what a run that succeeds has done;
* `Edit.Findable`: whether the file reader will find what an edit writes;
* `Ran`: the files after a run;
* `Ran.again`: a second run changes nothing if all edits of the first one are findable;
* `Ran.findable`: they are if a second run changes nothing;
* `synchronize_idempotent`: both together.
-/

namespace SchemaAlign

open Job (Gives gives_pure gives_bind not_gives_throw)
open SchemaAlign.Token (EndsInComment chars)
open SchemaAlign.Parser (Reads)
open Target (Site Present Fits)

variable {t t₀ t' : FileTree} {path id : String} {db : Database} {target : Target}
  {report : SyncReport} {s m d : Schema} {ids : List String} {e : Edit}

/-- What a run does, step by step. -/
theorem gives_synchronize : Gives (synchronize path db false) t report t' ↔
    ∃ t₀ d s t₁ m b, Gives (Target.make path) t report.target t₀ ∧
      Schema.ofDatabase 0 db = .ok d ∧ Gives report.target.readSchema t₀ s t₁ ∧
      s.update 0 d report.target.placement.sourceOf = (m, .ok b) ∧
      report.updated = m.changed.filter (fun id => (m.source? id).isSome) ∧
      Gives (report.updated.forM (writeSource m.takeChanged.2)) t₁ () t' := by
  rw [synchronize, gives_bind]
  constructor
  -- A step that fails makes the run fail, so each of them gave something.
  · rintro ⟨target, t₀, hmake, h⟩
    dsimp only at h
    cases hd : Schema.ofDatabase 0 db with
    | error e =>
      rw [hd] at h
      obtain ⟨_, _, hthrow, -⟩ := gives_bind.1 h
      exact absurd hthrow not_gives_throw
    | ok d =>
      rw [hd] at h
      obtain ⟨_, _, hpure, hread⟩ := gives_bind.1 h
      obtain ⟨rfl, rfl⟩ := gives_pure.1 hpure
      obtain ⟨s, t₁, hs, hupdate⟩ := gives_bind.1 hread
      split at hupdate
      · exact absurd hupdate not_gives_throw
      · next m b hm =>
        obtain ⟨updated, t₂, hwrite, hreport⟩ := gives_bind.1 hupdate
        obtain ⟨rfl, rfl⟩ := gives_pure.1 hreport
        obtain ⟨_, _, heach, hupdated⟩ := gives_bind.1 hwrite
        obtain ⟨rfl, rfl⟩ := gives_pure.1 hupdated
        exact ⟨_, _, s, t₁, m, b, hmake, rfl, hs, hm, rfl, heach⟩
  · rintro ⟨t₀, d, s, t₁, m, b, hmake, hd, hs, hm, hupdated, heach⟩
    refine ⟨report.target, t₀, hmake, ?_⟩
    rw [hd]
    refine gives_bind.2 ⟨d, t₀, gives_pure.2 ⟨rfl, rfl⟩, gives_bind.2 ⟨s, t₁, hs, ?_⟩⟩
    rw [hm]
    refine gives_bind.2 ⟨report.updated, t', ?_, gives_pure.2 ⟨rfl, rfl⟩⟩
    rw [hupdated] at heach ⊢
    exact gives_bind.2 ⟨_, _, heach, gives_pure.2 ⟨rfl, rfl⟩⟩

/-! ## What a run reads and edits -/

/-- A run loads the given text from the given file. -/
def Loads (path : String) (t : FileTree) (id text : String) : Prop :=
  ∃ target t₀ ids, Gives (Target.make path) t target t₀ ∧
    Gives target.sourcePaths t₀ ids t₀ ∧ id ∈ ids ∧ t₀.read id = .ok text

/-- A run finds that the given edit is needed to bring what it loads in line with `d`. -/
def Needs (path : String) (t : FileTree) (d : Schema) (e : Edit) : Prop :=
  ∃ target t₀ s edits, Gives (Target.make path) t target t₀ ∧
    Gives target.readSchema t₀ s t₀ ∧ s.diff d = .ok edits ∧ e ∈ edits

/-- The file reader will find what the edit writes: it finds the same object in the statement, and
    an object that goes to a file of its own has a name. For which statements and names it does so,
    `found_iff_of_ofRow` and `ObjectKey.name?_text` tell. -/
def Edit.Findable (target : Target) : Edit → Prop
  | .add new => ObjectKey.ofStatement? new.statement = some new.key ∧
    ∀ directory, target = .directory directory → new.key.name ≠ ""
  | .modify _ new => ObjectKey.ofStatement? new.statement = some new.key
  | .remove _ => True

/-- No two definitions of the schema say the same. -/
def Schema.Distinct (d : Schema) : Prop :=
  ∀ o ∈ d.objects, ∀ o' ∈ d.objects,
    Token.sameDefinition (d.definitionTokens o) (d.definitionTokens o') = true → o = o'

theorem Edit.Findable.ofStatement? {new : SchemaObject} (h : e.Findable target)
    (hnew : e.desired? = some new) : ObjectKey.ofStatement? new.statement = some new.key := by
  cases e with
  | add => cases hnew; exact h.1
  | modify => cases hnew; exact h
  | remove => cases hnew

/-! ## What a run does -/

/-- A run that succeeds: the files of the target are loaded as `s`, `s` is brought in line with `d`
    and is `m` then, and what has changed is written back. -/
structure Done (path : String) (t : FileTree) (d : Schema) (report : SyncReport) (t₀ : FileTree)
    (ids : List String) (s m : Schema) (t' : FileTree) : Prop where
  make : Gives (Target.make path) t report.target t₀
  named : path ≠ ""
  wellFormed : t₀.WellFormed
  fits : Fits t₀ path report.target
  read : Gives report.target.readSchema t₀ s t₀
  present : ∀ id, id ∈ ids ↔ Present t₀ report.target id
  loaded : Loaded t₀ ids s
  update : ∃ b, s.update 0 d report.target.placement.sourceOf = (m, .ok b)
  edited : Schema.Edited s d report.target.placement.sourceOf (s.edits d) m
  updated : report.updated = m.changed
  back : WrittenBack t₀ report.target m m.changed t'

/-- A source that was changed has its place: it was loaded from there, or the target has one for
    it. -/
theorem site_of_mem_changed (ht : t.WellFormed) (hfits : Fits t path target)
    (hids : ∀ id, id ∈ ids ↔ Present t target id) (hloaded : Loaded t ids s)
    (hedited : Schema.Edited s d target.placement.sourceOf (s.edits d) m) (hid : id ∈ m.changed) :
    ∃ parent name, Site t target id parent name := by
  rcases hedited.source_of_mem hloaded.consistent hloaded.changed hid with hsome | ⟨new, -, rfl⟩
  · obtain ⟨parent, name, c, hsite, -⟩ := (hids id).1 ((hloaded.sources id).1 hsome)
    exact ⟨parent, name, hsite⟩
  · obtain ⟨parent, name, hsite, -⟩ := hfits.site ht new
    exact ⟨parent, name, hsite⟩

theorem done_of_synchronize (ht : t.WellFormed)
    (hdevice : ∀ target t₀, Gives (Target.make path) t target t₀ → target.NoSqlDevice t₀)
    (hd : Schema.ofDatabase 0 db = .ok d)
    (h : Gives (synchronize path db false) t report t') :
    ∃ t₀ ids s m, Done path t d report t₀ ids s m t' := by
  obtain ⟨t₀, d', s, t₁, m, b, hmake, hd', hread, hupdate, hupdated, heach⟩ := gives_synchronize.1 h
  obtain rfl : d' = d := Except.ok.inj (hd'.symm.trans hd)
  obtain ⟨hpath, ht₀, hfits⟩ := Target.fits_of_make ht hmake
  -- The files are loaded.
  obtain ⟨rfl, ids, hids, hloaded, -⟩ := loaded_of_readSchema (P := fun _ => True) ht₀ hfits trivial
    (fun _ _ _ _ _ _ _ _ _ _ _ _ _ _ => trivial) hread
  have hs := hloaded.consistent
  -- The schema is brought in line with the catalog.
  obtain ⟨m', hupdate', hedited⟩ := hs.update (Schema.fromRows_of_ofDatabase hd).consistent
    hloaded.changed 0 report.target.placement.sourceOf
  obtain ⟨rfl, -⟩ := Prod.mk.inj (hupdate.symm.trans hupdate')
  -- What was changed is written back.
  rw [List.filter_eq_self.2 hedited.consistent.changed] at hupdated
  rw [hupdated] at heach
  exact ⟨t₁, ids, s, m, hmake, hpath, ht₀, hfits, hread, hids, hloaded, ⟨b, hupdate⟩, hedited,
    hupdated, writtenBack_of_forM ht₀ hfits (hdevice _ _ hmake)
      (fun id => site_of_mem_changed ht₀ hfits hids hloaded hedited) heach⟩

/-! ## The files after a run -/

/-- The files after a run that has brought `s`, which it loaded, in line with `d`. They say what `m`
    says, whatever the file reader finds in them. -/
structure Ran (path : String) (target : Target) (s d m : Schema) (t : FileTree) : Prop where
  named : path ≠ ""
  wellFormed : t.WellFormed
  fits : Fits t path target
  loaded : s.Consistent
  recites : s.Recites
  edited : Schema.Edited s d target.placement.sourceOf (s.edits d) m
  laidOut : m.LaidOut
  texts : ∀ id, Present t target id → ∃ tokens, m.tokens? id = some tokens ∧
    t.read id = .ok (Token.render tokens)
  /-- The files of all objects are loaded, apart from those that new objects without names got. -/
  sources : ∀ o ∈ m.objects, Present t target o.source ∨
    ∃ new, .add new ∈ s.edits d ∧ target.placement.sourceOf new = o.source
  added : ∀ new, .add new ∈ s.edits d → (Present t target (target.placement.sourceOf new) ↔
    ∀ directory, target = .directory directory → new.key.name ≠ "")

/-- The text of a source after a run, whether it was written or not. -/
theorem WrittenBack.text {changed : List String} (ht : t.WellFormed) (hfits : Fits t path target)
    (hloaded : Loaded t ids s) (hids : ∀ id, id ∈ ids ↔ Present t target id)
    (hchanged : ∀ id ∈ changed, (m.source? id).isSome = true)
    (hkept : ∀ id, id ∉ changed → m.tokens? id = s.tokens? id)
    (h : WrittenBack t target m changed t') (hpresent : Present t' target id) :
    ∃ tokens, m.tokens? id = some tokens ∧ t'.read id = .ok (Token.render tokens) := by
  obtain ⟨parent, name, c, hsite, hlists, hget⟩ := hpresent
  have hsite₀ := hfits.site_of_grows ht h.grows hsite
  by_cases hid : id ∈ changed
  · obtain ⟨source, hsource⟩ := Option.isSome_iff_exists.1 (hchanged id hid)
    have hrender : m.render? id = some source.render := by rw [Schema.render?, hsource]; rfl
    obtain ⟨hleads, hfile⟩ := h.written id hid _ hrender parent name hsite₀
    exact ⟨source.tokens, by rw [Schema.tokens?, hsource]; rfl, hleads.read hfile⟩
  · -- Nothing was written there, so the file was there before, and it was loaded.
    have hother : ∀ id' ∈ changed, ∀ parent' name', Site t target id' parent' name' →
        parent' ++ [name'] ≠ parent ++ [name] :=
      fun id' hid' parent' name' hsite' heq => hid ((hsite'.eq_iff hsite₀).2 heq ▸ hid')
    obtain heq := (h.others _ hother).resolve_right fun hdir => by
      rw [hget] at hdir
      cases hdir.2
    rw [heq] at hget
    obtain ⟨text, hread, htokens⟩ :=
      hloaded.texts id ((hids id).2 ⟨parent, name, c, hsite₀, hlists, hget⟩)
    obtain rfl := hsite₀.eq_text_of_read hread hget
    refine ⟨Token.tokenize text, (hkept id hid).trans htokens, ?_⟩
    rw [Token.render_tokenize]
    exact ((hsite₀.leads_of_read hread).grows h.grows).read (heq.trans hget)

/-- A source that was written back is there, and it is loaded if its name allows for it. -/
theorem WrittenBack.present_iff {changed : List String} {parent : Route} {name : String}
    (h : WrittenBack t target m changed t') (hid : id ∈ changed)
    (hsource : (m.source? id).isSome = true) (hsite : Site t target id parent name) :
    Present t' target id ↔ target.lists name = true := by
  obtain ⟨source, hsource⟩ := Option.isSome_iff_exists.1 hsource
  have hrender : m.render? id = some source.render := by rw [Schema.render?, hsource]; rfl
  have hget := (h.written id hid _ hrender parent name hsite).2
  have hsite' := hsite.grows h.grows
  constructor
  · rintro ⟨parent₂, name₂, c, hsite₂, hlists, -⟩
    obtain ⟨rfl, hname⟩ := List.append_inj' ((hsite₂.eq_iff hsite').1 rfl) rfl
    cases hname
    exact hlists
  · exact fun hlists => ⟨parent, name, _, hsite', hlists, hget⟩

/-- A new object is in a file that is loaded if the object has a name. -/
theorem Done.present_added {ids : List String} {new : SchemaObject}
    (h : Done path t d report t₀ ids s m t') (hnew : .add new ∈ s.edits d) :
    Present t' report.target (report.target.placement.sourceOf new) ↔
      ∀ directory, report.target = .directory directory → new.key.name ≠ "" := by
  have hid := (h.edited.mem_changed h.loaded.changed).2 ⟨_, hnew, rfl⟩
  obtain ⟨parent, name, hsite, hlists⟩ := h.fits.site h.wellFormed new
  rw [← hlists]
  exact h.back.present_iff hid (h.edited.consistent.changed _ hid) hsite

theorem needs_iff (hmake : Gives (Target.make path) t target t₀)
    (hread : Gives target.readSchema t₀ s t₀) (hs : s.Consistent) (hd : d.Consistent) :
    Needs path t d e ↔ e ∈ s.edits d := by
  constructor
  · rintro ⟨target', t₁, s', edits, hmake', hread', hdiff, he⟩
    obtain ⟨htarget, rfl⟩ := Prod.mk.inj (hmake.symm.trans hmake')
    cases htarget
    cases hread.symm.trans hread'
    rw [hs.diff hd] at hdiff
    cases hdiff
    exact he
  · exact fun he => ⟨target, t₀, s, _, hmake, hread, hs.diff hd, he⟩

/-- What a run loads is laid out, and all its definitions are read by themselves. -/
theorem Done.laidOut_loaded (h : Done path t d report t₀ ids s m t')
    (hfiles : ∀ id text, Loads path t id text →
      Statement.Closed (Token.tokenize text) ∧ ¬ EndsInComment (Token.tokenize text)) :
    s.LaidOut ∧ s.Recites := by
  -- Both hold of no files at all, and each file that is loaded preserves both.
  obtain ⟨-, -, -, -, hlaidOut, hrecites⟩ :=
    loaded_of_readSchema (P := fun s => s.LaidOut ∧ s.Recites) h.wellFormed h.fits
      ⟨nofun, nofun⟩
      (fun ids hpaths id hid text hread s p s' hs hnone hp hextended ⟨hlaidOut, hrecites⟩ => by
        obtain ⟨hclosed, hcomment⟩ := hfiles id text ⟨_, _, ids, h.make, hpaths, hid, hread⟩
        exact ⟨Schema.laidOut_of_extended hs hlaidOut hextended hnone hp hclosed hcomment,
          Schema.recites_of_extended hs hrecites hextended hnone hp hclosed⟩) h.read
  exact ⟨hlaidOut, hrecites⟩

/-- The edits keep it laid out. -/
theorem Done.laidOut (h : Done path t d report t₀ ids s m t')
    (hd : Schema.ofDatabase 0 db = .ok d)
    (hclosed : ∀ o ∈ d.objects, Statement.Closed (Token.tokenize (d.definition o)))
    (hlaidOut : s.LaidOut) : m.LaidOut := by
  have hrows := Schema.fromRows_of_ofDatabase hd
  have hlegible : d.Legible := fun o ho => ⟨_, hrows.reads ho (hclosed o ho)⟩
  obtain ⟨m', hupdate', -, hlaidOut'⟩ : ∃ m',
      s.update 0 d report.target.placement.sourceOf = (m', .ok (!(s.edits d).isEmpty)) ∧
        s.Edited d report.target.placement.sourceOf (s.edits d) m' ∧ m'.LaidOut :=
    h.loaded.consistent.update_preserves hrows.consistent h.loaded.changed hlaidOut
      fun t e t' ht happlied => happlied.laidOut hlegible ht
  obtain ⟨b, hupdate⟩ := h.update
  obtain ⟨rfl, -⟩ := Prod.mk.inj (hupdate.symm.trans hupdate')
  exact hlaidOut'

/-- A run with definitions that are statements with semicolons of their own. -/
theorem ran_of_synchronize (ht : t.WellFormed)
    (hdevice : ∀ target t₀, Gives (Target.make path) t target t₀ → target.NoSqlDevice t₀)
    (hd : Schema.ofDatabase 0 db = .ok d)
    (hclosed : ∀ o ∈ d.objects, Statement.Closed (Token.tokenize (d.definition o)))
    (hfiles : ∀ id text, Loads path t id text →
      Statement.Closed (Token.tokenize text) ∧ ¬ EndsInComment (Token.tokenize text))
    (h : Gives (synchronize path db false) t report t') :
    ∃ s m, Ran path report.target s d m t' ∧ ∀ e, Needs path t d e ↔ e ∈ s.edits d := by
  obtain ⟨t₀, ids, s, m, hdone⟩ := done_of_synchronize ht hdevice hd h
  have hs := hdone.loaded.consistent
  have hloaded := hdone.loaded
  have hedited := hdone.edited
  obtain ⟨hlaidOut, hrecites⟩ := hdone.laidOut_loaded hfiles
  refine ⟨s, m, ?_, fun e =>
    needs_iff hdone.make hdone.read hs (Schema.fromRows_of_ofDatabase hd).consistent⟩
  constructor
  case named => exact hdone.named
  case wellFormed => exact hdone.back.wellFormed
  case fits => exact hdone.fits.grows hdone.back.grows
  case loaded => exact hs
  case recites => exact hrecites
  case edited => exact hedited
  case laidOut => exact hdone.laidOut hd hclosed hlaidOut
  case texts =>
    exact fun id => hdone.back.text hdone.wellFormed hdone.fits hloaded hdone.present
      hedited.consistent.changed fun id hid => hedited.tokens?_of_not_mem hloaded.changed hid
  case sources =>
    intro o ho
    exact (hedited.source_of_object hs hloaded.changed ho).imp_left fun hsome =>
      ((hdone.present _).1 ((hloaded.sources _).1 hsome)).grows hdone.back.grows
  case added => exact fun new => hdone.present_added

/-! ## A second run -/

/-- A run changes nothing if the files say what is in sync with the catalog already. -/
theorem synchronize_of_mirrors (hpath : path ≠ "") (ht : t.WellFormed) (hfits : Fits t path target)
    (hd : Schema.ofDatabase 0 db = .ok d) (hm : m.Consistent) (hsync : m.InSync d)
    (hmirrors : ∀ id, Present t target id → ∃ text, t.read id = .ok text ∧ m.Mirrors id text)
    (hsources : ∀ o ∈ m.objects, Present t target o.source) :
    Gives (synchronize path db false) t { target, updated := [] } t := by
  obtain ⟨ids, hpaths, hnodup, hids⟩ := Target.sourcePaths_of_fits ht hfits
  obtain ⟨r, hload, hr⟩ := reload_foldlM hm (Schema.reloaded_empty m)
    (by rwa [List.nil_append]) fun id hid => hmirrors id ((hids id).1 hid)
  rw [List.nil_append] at hr
  have hitems := hr.item? hm fun o ho => (hids o.source).2 (hsources o ho)
  have hupdate : r.update 0 d target.placement.sourceOf = (r, .ok false) :=
    Schema.update_of_inSync hr.consistent (Schema.fromRows_of_ofDatabase hd).consistent
      (hsync.congr hitems) hr.changed
  refine gives_synchronize.2 ⟨t, d, r, t, r, false, Target.make_of_fits hpath hfits, hd,
    gives_bind.2 ⟨ids, t, hpaths, hload⟩, hupdate, ?_, gives_pure.2 ⟨rfl, rfl⟩⟩
  rw [hr.changed]
  rfl

/-- A second run changes nothing if the file reader finds what the first one wrote. -/
theorem Ran.again (hd : Schema.ofDatabase 0 db = .ok d)
    (hclosed : ∀ o ∈ d.objects, Statement.Closed (Token.tokenize (d.definition o)))
    (h : Ran path target s d m t) (hfindable : ∀ e ∈ s.edits d, e.Findable target) :
    Gives (synchronize path db false) t { target, updated := [] } t := by
  have hrows := Schema.fromRows_of_ofDatabase hd
  have hm := h.edited.consistent
  have hrecites : m.Recites := h.edited.recites h.recites fun e he new hnew => by
    have hmem := Schema.mem_of_mem_edits he hnew
    have hreads := hrows.reads hmem (hclosed new hmem)
    rwa [itemOf, (hfindable e he).ofStatement? hnew] at hreads
  refine synchronize_of_mirrors h.named h.wellFormed h.fits hd hm
    (h.edited.inSync hrows.consistent) (fun id hid => ?_) fun o ho => ?_
  · obtain ⟨tokens, htokens, hread⟩ := h.texts id hid
    exact ⟨_, hread, h.laidOut.mirrors hm hrecites htokens⟩
  · rcases h.sources o ho with hpresent | ⟨new, hnew, heq⟩
    · exact hpresent
    · exact heq ▸ (h.added new hnew).2 (hfindable _ hnew).2

/-- A run that reports nothing finds all that is needed in the files. -/
theorem exists_loaded_of_synchronize (hpath : path ≠ "") (ht : t.WellFormed)
    (hfits : Fits t path target) (hd : Schema.ofDatabase 0 db = .ok d)
    (h : Gives (synchronize path db false) t { target, updated := [] } t') :
    ∃ r ids, (∀ id, id ∈ ids ↔ Present t target id) ∧ Loaded t ids r ∧ r.Found ∧ r.InSync d := by
  obtain ⟨t₀, d', r, t₁, m, b, hmake, hd', hread, hupdate, hupdated, -⟩ := gives_synchronize.1 h
  obtain rfl : d' = d := Except.ok.inj (hd'.symm.trans hd)
  obtain ⟨-, rfl⟩ := Prod.mk.inj ((Target.make_of_fits hpath hfits).symm.trans hmake)
  have hrows := Schema.fromRows_of_ofDatabase hd
  obtain ⟨rfl, ids, hids, hloaded, hfound⟩ := loaded_of_readSchema ht hfits (P := Schema.Found)
    nofun (fun _ _ id _ text _ s p s' hs hnone hp hextended hfound =>
      Schema.found_of_extended hs hfound hextended hnone hp) hread
  refine ⟨r, ids, hids, hloaded, hfound, ?_⟩
  obtain ⟨m', hupdate', hedited⟩ :=
    hloaded.consistent.update hrows.consistent hloaded.changed 0 target.placement.sourceOf
  obtain ⟨rfl, -⟩ := Prod.mk.inj (hupdate.symm.trans hupdate')
  rw [List.filter_eq_self.2 hedited.consistent.changed] at hupdated
  exact (Schema.edits_eq_nil_iff hloaded.consistent hrows.consistent).1
    (hedited.edits_eq_nil hupdated.symm hloaded.changed)

/-- Where the file reader finds an object that an edit of the run is about: in what an edit
    wrote. -/
theorem Ran.exists_edit (hd : d.FromRows 0)
    (hclosed : ∀ o ∈ d.objects, Statement.Closed (Token.tokenize (d.definition o)))
    (h : Ran path target s d m t) {tokens : List Token} (htokens : m.tokens? id = some tokens)
    {out : List (ObjectKey × String)}
    (hout : Statement.outline? (Token.tokenize (Token.render tokens)) = some out)
    {definition : String} (he : e ∈ s.edits d) (hmem : (e.target, definition) ∈ out) :
    ∃ e' ∈ s.edits d, ∃ new, e'.desired? = some new ∧
      e'.touched target.placement.sourceOf = id ∧
      ObjectKey.ofStatement? new.statement = some e.target ∧ d.definition new = definition := by
  obtain ⟨o, ho, rfl, out', hreads, hmem⟩ :=
    h.laidOut.exists_object h.edited.consistent htokens hout hmem
  rcases h.edited.origin ho with ⟨ho', hnone, heq⟩ | ⟨e', he', new, hnew, hkey, htouched, heq⟩
  · -- In the definition of an object that stays, the file reader finds this object.
    rw [heq] at hreads
    rw [hreads.unique (h.recites o ho'), List.mem_singleton] at hmem
    exact absurd (congrArg Prod.fst hmem) (hnone e he)
  · have hchars : chars (m.definitionTokens o) = chars (d.definitionTokens new) := by
      rw [← Token.toList_render, ← Token.toList_render]
      exact congrArg String.toList heq
    have hreads' := hd.reads (Schema.mem_of_mem_edits he' hnew)
      (hclosed new (Schema.mem_of_mem_edits he' hnew))
    rw [← hchars] at hreads'
    rw [hreads.unique hreads', itemOf, Option.mem_toList, Option.map_eq_some_iff] at hmem
    obtain ⟨key, hstatement, hitem⟩ := hmem
    cases hitem
    exact ⟨e', he', new, hnew, htouched.symm, hstatement, rfl⟩

/-- If a second run changes nothing, the file reader found each object that the first one wrote,
    where it wrote it. -/
theorem Ran.found_of_desired? (hd : Schema.ofDatabase 0 db = .ok d)
    (hclosed : ∀ o ∈ d.objects, Statement.Closed (Token.tokenize (d.definition o)))
    (hdistinct : d.Distinct) (h : Ran path target s d m t)
    (hagain : Gives (synchronize path db false) t { target, updated := [] } t')
    (he : e ∈ s.edits d) {new : SchemaObject} (hnew : e.desired? = some new) :
    ObjectKey.ofStatement? new.statement = some new.key ∧
      Present t target (e.touched target.placement.sourceOf) := by
  have hrows := Schema.fromRows_of_ofDatabase hd
  obtain ⟨r, ids, hids, hloaded, hfound, hsync⟩ :=
    exists_loaded_of_synchronize h.named h.wellFormed h.fits hd hagain
  have hmem := Schema.mem_of_mem_edits he hnew
  have htarget := Edit.target_of_desired? hnew
  -- The second run holds an object of this key, and found it in the text of some file.
  obtain ⟨o, hget, hsame⟩ := hsync.exists_same (hrows.consistent.get?_key hmem)
  obtain ⟨ho, hkey⟩ := Schema.get?_eq_some hget
  obtain ⟨tokens, out, htokens, hout, hitem⟩ := hfound o ho
  have hid : o.source ∈ ids := by
    obtain ⟨source, hsource, -⟩ := Option.map_eq_some_iff.1 htokens
    exact (hloaded.sources o.source).1 (by rw [hsource]; rfl)
  obtain ⟨text, hread, htext⟩ := hloaded.texts o.source hid
  obtain ⟨tokens', htokens', hread'⟩ := h.texts o.source ((hids o.source).1 hid)
  cases htokens.symm.trans htext
  cases hread.symm.trans hread'
  rw [hkey, ← htarget] at hitem
  -- There some edit wrote the same definition, which no other object has.
  obtain ⟨e', he', new', hnew', htouched, hstatement, hdefinition⟩ :=
    h.exists_edit hrows hclosed htokens' hout he hitem
  obtain rfl : new' = new := by
    refine hdistinct new' (Schema.mem_of_mem_edits he' hnew') new hmem ?_
    rwa [Token.sameDefinition, Token.relex, show Token.render _ = _ from hdefinition]
  obtain rfl : e' = e := by
    have htarget' := Edit.target_of_desired? hnew'
    exact List.inj_on_of_nodup_map (Schema.nodup_targets h.loaded hrows.consistent) he' he
      (htarget'.trans htarget.symm)
  exact ⟨htarget ▸ hstatement, htouched ▸ (hids _).1 hid⟩

/-- The file reader finds what the first run wrote if a second one changes nothing. -/
theorem Ran.findable (hd : Schema.ofDatabase 0 db = .ok d)
    (hclosed : ∀ o ∈ d.objects, Statement.Closed (Token.tokenize (d.definition o)))
    (hdistinct : d.Distinct) (h : Ran path target s d m t)
    (hagain : Gives (synchronize path db false) t { target, updated := [] } t') :
    ∀ e ∈ s.edits d, e.Findable target := by
  intro e he
  cases e with
  | add new =>
    obtain ⟨hkey, hpresent⟩ := h.found_of_desired? hd hclosed hdistinct hagain he rfl
    exact ⟨hkey, (h.added new he).1 hpresent⟩
  | modify old new => exact (h.found_of_desired? hd hclosed hdistinct hagain he rfl).1
  | remove old => trivial

/-! ## Two runs -/

/-- Let a run succeed with a catalog whose definitions are statements with semicolons of their own,
    and with files that consist of such statements, none of them with a block comment open at its
    end. If the target is a directory, no device in it has a name that ends in `.sql`. A second run
    with the same catalog reports no file and leaves all files as they are if the file reader finds
    what the first one wrote, and only then, unless definitions of different objects say the
    same. -/
theorem synchronize_idempotent (ht : t.WellFormed)
    (hdevice : ∀ target t₀, Gives (Target.make path) t target t₀ → target.NoSqlDevice t₀)
    (hd : Schema.ofDatabase 0 db = .ok d)
    (hclosed : ∀ o ∈ d.objects, Statement.Closed (Token.tokenize (d.definition o)))
    (hfiles : ∀ id text, Loads path t id text →
      Statement.Closed (Token.tokenize text) ∧ ¬ EndsInComment (Token.tokenize text))
    (hrun : (synchronize path db false).run.run t = (.ok report, t')) :
    ((∀ e, Needs path t d e → e.Findable report.target) →
      (synchronize path db false).run.run t' = (.ok { report with updated := [] }, t')) ∧
    (d.Distinct →
      (synchronize path db false).run.run t' = (.ok { report with updated := [] }, t') →
      ∀ e, Needs path t d e → e.Findable report.target) := by
  obtain ⟨s, m, hran, hneeds⟩ := ran_of_synchronize ht hdevice hd hclosed hfiles hrun
  simp only [hneeds]
  exact ⟨hran.again hd hclosed, fun hdistinct hagain => hran.findable hd hclosed hdistinct hagain⟩

/-- One definition is changed, and one is added. The file reader finds both. -/
theorem synchronize_idempotent_two_rows :
    let db : Database := ⟨fun _ => .ok (), fun _ => .ok
      [⟨"index", "i", "t", "CREATE INDEX i ON t (a)"⟩, ⟨"view", "v", "v", "CREATE VIEW v AS 2"⟩]⟩
    let t := FileTree.fresh.put ["schema.sql"] (.file (.text "CREATE VIEW v AS 1;"))
    let t' := FileTree.fresh.put ["schema.sql"]
      (.file (.text "CREATE VIEW v AS 2;\n\nCREATE INDEX i ON t (a);"))
    (synchronize "schema.sql" db false).run.run t =
        (.ok ⟨.file "schema.sql", ["schema.sql"]⟩, t') ∧
      (synchronize "schema.sql" db false).run.run t' = (.ok ⟨.file "schema.sql", []⟩, t') := by
  intro db t t'
  let d := ((Schema.ofDatabase 0 db).toOption).getD .empty
  let s := (Schema.empty.load 0 "schema.sql" "CREATE VIEW v AS 1;").1
  have ht : t.WellFormed := FileTree.wellFormed_fresh.put (r := []) rfl
    ⟨by decide, by decide, by decide, by decide⟩ (by decide)
  have hd : Schema.ofDatabase 0 db = .ok d := by decide +kernel
  have hclosed : ∀ o ∈ d.objects, Statement.Closed (Token.tokenize (d.definition o)) := by
    have hcount : ∀ o ∈ d.objects, Statement.count? (Token.tokenize (d.definition o)) = some 1 ∧
        Statement.count? (Token.tokenize (d.definition o) ++ [Token.semicolon]) = some 2 := by
      decide +kernel
    exact fun o ho => ⟨1, hcount o ho⟩
  have hmake : Gives (Target.make "schema.sql") t (.file "schema.sql") t := by
    show @Eq (Except SyncError Target × FileTree) _ _
    decide +kernel
  have hdevice (target : Target) (t₀ : FileTree)
      (hmake' : Gives (Target.make "schema.sql") t target t₀) : target.NoSqlDevice t₀ := by
    obtain ⟨htarget, -⟩ := Prod.mk.inj (hmake.symm.trans hmake')
    cases htarget
    trivial
  have hfiles : ∀ id text, Loads "schema.sql" t id text →
      Statement.Closed (Token.tokenize text) ∧ ¬ EndsInComment (Token.tokenize text) := by
    rintro id text ⟨target, t₀, ids, hmake', hpaths, hid, hread⟩
    obtain ⟨htarget, rfl⟩ := Prod.mk.inj (hmake.symm.trans hmake')
    cases htarget
    cases hpaths
    cases List.mem_singleton.1 hid
    have hread' : t.read "schema.sql" = .ok "CREATE VIEW v AS 1;" := by decide +kernel
    cases hread.symm.trans hread'
    exact ⟨⟨1, by decide +kernel, by decide +kernel⟩, Schema.not_endsInComment (by decide +kernel)⟩
  have hfindable : ∀ e, Needs "schema.sql" t d e → e.Findable (.file "schema.sql") := by
    rintro e ⟨target, t₀, s', edits, hmake', hread, hdiff, he⟩
    obtain ⟨htarget, rfl⟩ := Prod.mk.inj (hmake.symm.trans hmake')
    cases htarget
    have hread' : Gives (Target.file "schema.sql").readSchema t s t := by
      show @Eq (Except SyncError Schema × FileTree) _ _
      decide +kernel
    cases hread'.symm.trans hread
    have hkeys : ∀ e ∈ (s.diff d).toOption.getD [], e.desired?.all (fun new =>
        decide (ObjectKey.ofStatement? new.statement = some new.key)) = true := by
      decide +kernel
    have hkey := hkeys e (by rw [hdiff]; exact he)
    cases e with
    | add new => exact ⟨of_decide_eq_true hkey, nofun⟩
    | modify old new =>
      have hkey : ObjectKey.ofStatement? new.statement = some new.key := of_decide_eq_true hkey
      exact hkey
    | remove old => trivial
  have hrun : (synchronize "schema.sql" db false).run.run t =
      (.ok ⟨.file "schema.sql", ["schema.sql"]⟩, t') := by
    show @Eq (Except SyncError SyncReport × FileTree) _ _
    decide +kernel
  exact ⟨hrun, (synchronize_idempotent ht hdevice hd hclosed hfiles hrun).1 hfindable⟩

/-- The file reader does not recognise a virtual table, so each run adds it once more. -/
theorem synchronize_virtual_table :
    let db : Database := ⟨fun _ => .ok (), fun _ => .ok
      [⟨"table", "docs", "docs", "CREATE VIRTUAL TABLE docs USING fts5(body)"⟩]⟩
    let t := FileTree.fresh.put ["schema.sql"]
      (.file (.text "\n\nCREATE VIRTUAL TABLE docs USING fts5(body);"))
    let t' := FileTree.fresh.put ["schema.sql"] (.file (.text
      ("\n\nCREATE VIRTUAL TABLE docs USING fts5(body);" ++
        "\n\nCREATE VIRTUAL TABLE docs USING fts5(body);")))
    (synchronize "schema.sql" db false).run.run .fresh =
        (.ok ⟨.file "schema.sql", ["schema.sql"]⟩, t) ∧
      (synchronize "schema.sql" db false).run.run t =
        (.ok ⟨.file "schema.sql", ["schema.sql"]⟩, t') := by
  show @Eq (Except SyncError SyncReport × FileTree) _ _ ∧
    @Eq (Except SyncError SyncReport × FileTree) _ _
  decide +kernel

end SchemaAlign
