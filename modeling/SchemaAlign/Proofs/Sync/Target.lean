import SchemaAlign.Proofs.Sync.Job

/-!
# Targets

* `Target.Fits`: a path names a target;
* `fits_of_make`, `make_of_fits`: making a target, and making it again;
* `Target.Site`, `Target.Present`: where the sources of a target are, and which are there;
* `Target.NoSqlDevice`: no device takes the place of a source;
* `sourcePaths_of_fits`: the sources that are there;
* `Fits.site`: the source for an object.
-/

namespace SchemaAlign

open SchemaAlign.Path (IsName join)
open Job (Gives gives_pure gives_bind gives_get gives_look gives_write not_gives_throw)

namespace Target

variable {t t' : FileTree} {path id id' : String} {target : Target} {r parent parent' : Route}
  {name name' : String} {c : Content} {o : SchemaObject}

/-- The path names the target. -/
inductive Fits (t : FileTree) (path : String) : Target → Prop
  | file {r : Route} {c : Content} : t.find path = .ok (r, .file c) → Fits t path (.file path)
  | directory {r : Route} : t.find path = .ok (r, .directory) → Fits t path (.directory path)

theorem Fits.grows (h : Fits t path target) (hgrows : t.Grows t') : Fits t' path target := by
  cases h with
  | file hfind =>
    obtain ⟨c', hfind'⟩ := hgrows.find_file hfind
    exact .file hfind'
  | directory hfind => exact .directory (hgrows.find_directory hfind)

/-! ## Making a target -/

theorem wellFormed_of_create {u : Unit} (ht : t.WellFormed) (h : Gives (create path) t u t') :
    t'.WellFormed := by
  obtain ⟨s, t₁, hget, hcreate⟩ := gives_bind.1 h
  obtain ⟨rfl, rfl⟩ := gives_get.1 hget
  split at hcreate
  · obtain ⟨-, rfl⟩ := gives_pure.1 hcreate
    exact ht
  · split at hcreate
    · obtain ⟨_, t₂, hparent, hwrite⟩ := gives_bind.1 hcreate
      obtain ⟨parent, name, hwritten⟩ := FileTree.written_of_write (gives_write.1 hwrite)
      exact hwritten.wellFormed ((Job.widens_of_makeParent hparent).wellFormed ht)
    · exact (Job.widens_of_makeDirectories hcreate).wellFormed ht

/-- What is made is named by the path. -/
theorem fits_of_make (ht : t.WellFormed) (h : Gives (make path) t target t') :
    path ≠ "" ∧ t'.WellFormed ∧ Fits t' path target := by
  rw [make] at h
  split at h
  · obtain ⟨_, _, hthrow, -⟩ := gives_bind.1 h
    exact absurd hthrow not_gives_throw
  next hempty =>
  obtain ⟨_, t₁, hcreate, hinspect⟩ := gives_bind.1 h
  obtain ⟨x, _, hlook, hkind⟩ := gives_bind.1 hinspect
  obtain ⟨hfind, rfl⟩ := gives_look.1 hlook
  have ht' := wellFormed_of_create ht hcreate
  refine ⟨by simpa using hempty, ?_⟩
  split at hkind
  · obtain ⟨rfl, rfl⟩ := gives_pure.1 hkind
    exact ⟨ht', .directory hfind⟩
  · obtain ⟨rfl, rfl⟩ := gives_pure.1 hkind
    exact ⟨ht', .file hfind⟩
  · exact absurd hkind not_gives_throw

/-- A target that is there is made once more, and nothing changes. -/
theorem make_of_fits (hpath : path ≠ "") (h : Fits t path target) :
    Gives (make path) t target t := by
  have hcreate {x : Route × Entry} (hfind : t.find path = .ok x) :
      Gives (create path) t () t := by
    refine gives_bind.2 ⟨t, t, gives_get.2 ⟨rfl, rfl⟩, ?_⟩
    rw [hfind]
    exact gives_pure.2 ⟨rfl, rfl⟩
  have hempty : path.isEmpty = false := by simpa using hpath
  rw [make, hempty]
  cases h with
  | file hfind =>
    exact gives_bind.2 ⟨_, t, hcreate hfind, gives_bind.2
      ⟨_, t, gives_look.2 ⟨hfind, rfl⟩, gives_pure.2 ⟨rfl, rfl⟩⟩⟩
  | directory hfind =>
    exact gives_bind.2 ⟨_, t, hcreate hfind, gives_bind.2
      ⟨_, t, gives_look.2 ⟨hfind, rfl⟩, gives_pure.2 ⟨rfl, rfl⟩⟩⟩

/-! ## The places of sources -/

/-- Where a source of the target is: the file itself, or a file in the directory, there or not,
    whose name ends in `.sql`. -/
inductive Site (t : FileTree) : Target → String → Route → String → Prop
  | file {path : String} {parent : Route} {name : String} {c : Content} :
      t.Leads path parent name → t.get? (parent ++ [name]) = some (.file c) →
      Site t (.file path) path parent name
  | directory {path : String} {r : Route} {name : String} :
      t.find path = .ok (r, .directory) → IsName name → Path.IsSqlName name →
      Site t (.directory path) (join path name) r name

theorem Site.grows (h : Site t target id parent name) (hgrows : t.Grows t') :
    Site t' target id parent name := by
  cases h with
  | file hleads hget =>
    obtain ⟨c', hget'⟩ := hgrows.file _ _ hget
    exact .file (hleads.grows hgrows) hget'
  | directory hfind hname hsql => exact .directory (hgrows.find_directory hfind) hname hsql

/-- A source is known by its place, and its place by the source. -/
theorem Site.eq_iff (h : Site t target id parent name) (h' : Site t target id' parent' name') :
    id = id' ↔ parent ++ [name] = parent' ++ [name'] := by
  cases h with
  | file hleads hget =>
    cases h' with
    | file hleads' hget' =>
      rw [eq_self, true_iff, Except.ok.inj (hleads.follow.symm.trans hleads'.follow),
        Option.some.inj (hleads.last.symm.trans hleads'.last)]
  | directory hfind hname =>
    cases h' with
    | directory hfind' hname' =>
      have hpath := (FileTree.checkPath_eq_ok (FileTree.find_eq_ok_iff.1 hfind).1).2
      obtain ⟨rfl, -⟩ := Prod.mk.inj (Except.ok.inj (hfind.symm.trans hfind'))
      rw [List.append_cancel_left_eq, List.singleton_inj]
      exact ⟨Path.join_injective hpath hname hname', fun h => by rw [h]⟩

/-- No device in the directory has a name that ends in `.sql`. It would take the text of a source
    and not hold it. -/
def NoSqlDevice (t : FileTree) : Target → Prop
  | file _ => True
  | directory path => ∀ r name, t.find path = .ok (r, .directory) → Path.IsSqlName name →
    t.get? (r ++ [name]) ≠ some .device

/-- No device comes about where a source is, as the directory stays where it is. -/
theorem NoSqlDevice.grows (h : target.NoSqlDevice t) (hfits : Fits t path target)
    (hgrows : t.Grows t') : target.NoSqlDevice t' := by
  cases hfits with
  | file => trivial
  | directory hfind =>
    intro r' name hfind' hsql
    cases hfind'.symm.trans (hgrows.find_directory hfind)
    exact (hgrows.device _).not.2 (h _ name hfind hsql)

theorem Site.ne_device (hdevice : target.NoSqlDevice t) (h : Site t target id parent name) :
    t.get? (parent ++ [name]) ≠ some .device := by
  cases h with
  | file hleads hget =>
    rw [hget]
    nofun
  | directory hfind hname hsql => exact hdevice _ _ hfind hsql

/-- The source leads to its place if it can be written. -/
theorem Site.leads_of_write (h : Site t target id parent name) (hwrite : t.write id c = .ok t') :
    t.Leads id parent name := by
  cases h with
  | file hleads => exact hleads
  | directory hfind hname => exact FileTree.leads_join_of_write hfind hname hwrite

/-- The same if it can be read. -/
theorem Site.leads_of_read {text : String} (h : Site t target id parent name)
    (hread : t.read id = .ok text) : t.Leads id parent name := by
  cases h with
  | file hleads => exact hleads
  | directory hfind hname => exact FileTree.leads_join_of_read hfind hname hread

/-- What is read is the text that is there. -/
theorem Site.eq_text_of_read {text : String} (h : Site t target id parent name)
    (hread : t.read id = .ok text) (hget : t.get? (parent ++ [name]) = some (.file c)) :
    c = .text text := by
  rw [FileTree.read, (h.leads_of_read hread).find hget] at hread
  cases c with
  | text s => cases hread; rfl
  | bytes => cases hread

/-! ## The sources of a target -/

/-- Whether a file of this name is loaded: in a directory, something has to be before `.sql`. -/
def lists (target : Target) (name : String) : Bool :=
  match target with
  | file _ => true
  | directory _ => Path.isSqlFile name

/-- The source is there and is loaded. -/
def Present (t : FileTree) (target : Target) (id : String) : Prop :=
  ∃ parent name c, Site t target id parent name ∧ target.lists name = true ∧
    t.get? (parent ++ [name]) = some (.file c)

theorem Present.grows (h : Present t target id) (hgrows : t.Grows t') : Present t' target id := by
  obtain ⟨parent, name, c, hsite, hlists, hget⟩ := h
  obtain ⟨c', hget'⟩ := hgrows.file _ _ hget
  exact ⟨parent, name, c', hsite.grows hgrows, hlists, hget'⟩

theorem Fits.site_file (ht : t.WellFormed) (hfind : t.find path = .ok (r, .file c)) :
    ∃ parent name, r = parent ++ [name] ∧ Site t (.file path) path parent name := by
  obtain ⟨parent, name, rfl, hleads⟩ := FileTree.leads_of_find ht hfind
  exact ⟨parent, name, rfl, .file hleads (FileTree.find_eq_ok_iff.1 hfind).2.2.1⟩

/-- Places were there before. -/
theorem Fits.site_of_grows (ht : t.WellFormed) (h : Fits t path target) (hgrows : t.Grows t')
    (hsite : Site t' target id parent name) : Site t target id parent name := by
  cases h with
  | file hfind =>
    obtain ⟨parent₀, name₀, -, hsite₀⟩ := Fits.site_file ht hfind
    cases hsite with
    | file hleads hget =>
      obtain ⟨rfl, hname⟩ := List.append_inj' (((hsite₀.grows hgrows).eq_iff
        (.file hleads hget)).1 rfl) rfl
      cases hname
      exact hsite₀
  | directory hfind =>
    cases hsite with
    | directory hfind' hname hsql =>
      have := hfind'.symm.trans (hgrows.find_directory hfind)
      cases this
      exact .directory hfind hname hsql

/-- The sources that are there are listed, each once. -/
theorem sourcePaths_of_fits (ht : t.WellFormed) (h : Fits t path target) :
    ∃ ids, Gives target.sourcePaths t ids t ∧ ids.Nodup ∧
      ∀ id, id ∈ ids ↔ Present t target id := by
  cases h with
  | @file r c hfind =>
    refine ⟨[path], gives_pure.2 ⟨rfl, rfl⟩, List.nodup_singleton _, fun id => ?_⟩
    rw [List.mem_singleton]
    constructor
    · rintro rfl
      obtain ⟨parent, name, rfl, hsite⟩ := Fits.site_file ht hfind
      exact ⟨parent, name, c, hsite, rfl, (FileTree.find_eq_ok_iff.1 hfind).2.2.1⟩
    · rintro ⟨parent, name, c', hsite, -⟩
      cases hsite
      rfl
  | @directory r hfind =>
    have hpath := (FileTree.checkPath_eq_ok (FileTree.find_eq_ok_iff.1 hfind).1).2
    refine ⟨((t.files r).filter Path.isSqlFile).map (join path), ?_, ?_, fun id => ?_⟩
    · exact gives_bind.2 ⟨_, t, gives_look.2 ⟨hfind, rfl⟩,
        gives_bind.2 ⟨t, t, gives_get.2 ⟨rfl, rfl⟩, gives_pure.2 ⟨rfl, rfl⟩⟩⟩
    -- Different names in one directory make different paths.
    · refine ((FileTree.nodup_files ht r).filter _).map_on fun n hn n' hn' => ?_
      exact Path.join_injective hpath
        (FileTree.isName_of_mem_files ht (List.mem_of_mem_filter hn))
        (FileTree.isName_of_mem_files ht (List.mem_of_mem_filter hn'))
    · rw [List.mem_map]
      constructor
      · rintro ⟨name, hmem, rfl⟩
        obtain ⟨hmem, hsql⟩ := List.mem_filter.1 hmem
        obtain ⟨c, hget⟩ := (FileTree.mem_files ht).1 hmem
        have hname := FileTree.isName_of_mem_files ht hmem
        exact ⟨r, name, c, .directory hfind hname (Path.isSqlName_of_isSqlFile hname hsql), hsql,
          hget⟩
      · rintro ⟨parent, name, c, hsite, hsql, hget⟩
        cases hsite with
        | directory hfind' hname =>
          obtain ⟨rfl, -⟩ := Prod.mk.inj (Except.ok.inj (hfind.symm.trans hfind'))
          exact ⟨name, List.mem_filter.2 ⟨(FileTree.mem_files ht).2 ⟨c, hget⟩, hsql⟩, rfl⟩

/-- Every object has a source of the target. In a directory, it is loaded only if the object has a
    name. -/
theorem Fits.site (ht : t.WellFormed) (h : Fits t path target) (o : SchemaObject) :
    ∃ parent name, Site t target (target.placement.sourceOf o) parent name ∧
      (target.lists name = true ↔ ∀ directory, target = .directory directory → o.key.name ≠ "") := by
  cases h with
  | file hfind =>
    obtain ⟨parent, name, -, hsite⟩ := Fits.site_file ht hfind
    exact ⟨parent, name, hsite, iff_of_true rfl nofun⟩
  | directory hfind =>
    refine ⟨_, _, .directory hfind (Placement.isName_stem _) (Placement.isSqlName_stem _), ?_⟩
    rw [lists, Placement.isSqlFile_stem]
    exact ⟨fun hname _ _ => hname, fun h => h path rfl⟩

end Target

end SchemaAlign
