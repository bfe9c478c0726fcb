import SchemaAlign.Proofs.Sync
import SchemaAlign.Proofs.Sync.Rehearsal

/-!
# Directories of schema files

A run writes files of the directory itself, and it reads their texts before. The file for an object
without a name is the exception: it is written, but never read.

* `loads_iff`: the files that are loaded;
* `Done.place`: the place of a file that was written;
* `Done.kept`: files that stay as they are;
* `synchronize_directory`: the files after a run.
-/

namespace SchemaAlign

open SchemaAlign.Path (IsName join)
open Job (Gives gives_look gives_bind)
open Target (Site Present Fits)

variable {t t₀ t' : FileTree} {path id text : String} {db : Database} {target : Target}
  {report : SyncReport} {s m d : Schema} {ids updated : List String} {r : Route} {name : String}

/-! ## Loaded files -/

theorem loads_iff (hmake : Gives (Target.make path) t target t₀) (ht₀ : t₀.WellFormed)
    (hfits : Fits t₀ path target) :
    Loads path t id text ↔ Present t₀ target id ∧ t₀.read id = .ok text := by
  obtain ⟨ids, hpaths, -, hids⟩ := Target.sourcePaths_of_fits ht₀ hfits
  constructor
  · rintro ⟨target', t₁, ids', hmake', hpaths', hid, hread⟩
    obtain ⟨htarget, rfl⟩ := Prod.mk.inj (hmake.symm.trans hmake')
    cases htarget
    obtain ⟨hsame, -⟩ := Prod.mk.inj (hpaths.symm.trans hpaths')
    cases hsame
    exact ⟨(hids id).1 hid, hread⟩
  · rintro ⟨hpresent, hread⟩
    exact ⟨target, t₀, ids, hmake, hpaths, (hids id).2 hpresent, hread⟩

theorem ne_nameless_of_present (hfind : t.find path = .ok (r, .directory)) (hname : IsName name)
    (hsql : Path.IsSqlName name) (h : Present t (.directory path) (join path name)) :
    name ≠ ".sql" := by
  obtain ⟨parent, name', c, hsite, hlists, -⟩ := h
  obtain ⟨-, hsame⟩ :=
    List.append_inj' ((hsite.eq_iff (.directory hfind hname hsql)).1 rfl) rfl
  cases hsame
  exact (Path.isSqlFile_iff_ne hname hsql).1 hlists

/-- A file of the directory is loaded unless nothing is before `.sql` in its name. -/
theorem present_join_iff (hfind : t.find path = .ok (r, .directory)) (hname : IsName name)
    (hsql : Path.IsSqlName name) {c : Content} (hget : t.get? (r ++ [name]) = some (.file c)) :
    Present t (.directory path) (join path name) ↔ name ≠ ".sql" :=
  ⟨ne_nameless_of_present hfind hname hsql, fun hne =>
    ⟨r, name, c, .directory hfind hname hsql, (Path.isSqlFile_iff_ne hname hsql).2 hne, hget⟩⟩

/-! ## Written files -/

section

variable (h : Done path t d ⟨.directory path, updated⟩ t₀ ids s m t')
include h

theorem Done.find_directory : ∃ r, t₀.find path = .ok (r, .directory) := by
  cases h.fits with
  | directory hfind => exact ⟨_, hfind⟩

/-- What was written is in the directory. -/
theorem Done.place (hfind : t₀.find path = .ok (r, .directory)) (hid : id ∈ updated) :
    ∃ name text, id = join path name ∧ IsName name ∧ Path.IsSqlName name ∧
      t'.find id = .ok (r ++ [name], .file (.text text)) := by
  obtain rfl : updated = m.changed := h.updated
  obtain ⟨parent, name, hsite⟩ :=
    site_of_mem_changed h.wellFormed h.fits h.present h.loaded h.edited hid
  obtain ⟨source, hsource⟩ := Option.isSome_iff_exists.1 (h.edited.consistent.changed id hid)
  have hrender : m.render? id = some source.render := by rw [Schema.render?, hsource]; rfl
  obtain ⟨hleads, hget⟩ := h.back.written id hid _ hrender parent name hsite
  cases hsite with
  | directory hfind' hname hsql =>
    cases hfind.symm.trans hfind'
    exact ⟨name, _, rfl, hname, hsql, hleads.find hget⟩

/-- A file that was there before stays as it is, or it is written to, and it was loaded then if
    files of its name are. -/
theorem Done.kept (hfind : t₀.find path = .ok (r, .directory)) {r' : Route} {c : Content}
    (hget : t₀.get? r' = some (.file c)) :
    t'.get? r' = some (.file c) ∨ ∃ name, r' = r ++ [name] ∧ join path name ∈ updated ∧
      (name = ".sql" ∨ ∃ text, c = .text text ∧ Loads path t (join path name) text) := by
  obtain rfl : updated = m.changed := h.updated
  -- A file is written exactly if the path of a changed source leads to its route.
  by_cases hwritten : ∃ id ∈ m.changed, ∃ parent name,
      Site t₀ (.directory path) id parent name ∧ parent ++ [name] = r'
  · right
    obtain ⟨id, hid, parent, name, hsite, rfl⟩ := hwritten
    have hsite' := hsite
    cases hsite with
    | directory hfind' hname hsql =>
      cases hfind.symm.trans hfind'
      refine ⟨name, rfl, hid, or_iff_not_imp_left.2 fun hne => ?_⟩
      have hpresent := (present_join_iff hfind hname hsql hget).2 hne
      obtain ⟨text, hread, -⟩ := h.loaded.texts _ ((h.present _).2 hpresent)
      exact ⟨text, hsite'.eq_text_of_read hread hget,
        (loads_iff h.make h.wellFormed h.fits).2 ⟨hpresent, hread⟩⟩
  · left
    rcases h.back.others r' fun id hid parent name hsite heq =>
      hwritten ⟨id, hid, parent, name, hsite, heq⟩ with heq | ⟨hnone, -⟩
    · exact heq.trans hget
    · rw [hget] at hnone
      cases hnone

/-- The file without a name is written for objects without one. -/
theorem Done.mem_nameless_iff : join path ".sql" ∈ updated ↔
    ∃ new, .add new ∈ s.edits d ∧ new.key.name = "" := by
  obtain rfl : updated = m.changed := h.updated
  obtain ⟨r, hfind⟩ := h.find_directory
  have hpath := (FileTree.checkPath_eq_ok (FileTree.find_eq_ok_iff.1 hfind).1).2
  have hsql : Placement.stem "" ++ ".sql" = ".sql" := Placement.stem_append_eq_iff.2 rfl
  have hname : IsName ".sql" := hsql ▸ Placement.isName_stem ""
  constructor
  · intro hid
    rcases h.edited.source_of_mem h.loaded.consistent h.loaded.changed hid with
      hsome | ⟨new, hnew, heq⟩
    · exact absurd rfl (ne_nameless_of_present hfind hname (hsql ▸ Placement.isSqlName_stem "")
        ((h.present _).1 ((h.loaded.sources _).1 hsome)))
    · exact ⟨new, hnew, Placement.stem_append_eq_iff.1
        (Path.join_injective hpath (Placement.isName_stem _) hname heq)⟩
  · rintro ⟨new, hnew, hempty⟩
    refine (h.edited.mem_changed h.loaded.changed).2 ⟨_, hnew, ?_⟩
    exact congrArg (join path) (Placement.stem_append_eq_iff.2 hempty)

end

/-! ## Runs -/

/-- Let a run succeed whose target is a directory in which no device has a name that ends in
    `.sql`. All files that it writes are files of the directory itself, and a later run loads them,
    apart from `.sql`. All files that were there before, anywhere, stay as they are, apart from
    those that it writes, and it has loaded the texts of these, again apart from `.sql`. That is
    written exactly if an object without a name is added. -/
theorem synchronize_directory (ht : t.WellFormed)
    (hdevice : ∀ target t₀, Gives (Target.make path) t target t₀ → target.NoSqlDevice t₀)
    (hd : Schema.ofDatabase 0 db = .ok d)
    (hrun : (synchronize path db false).run.run t = (.ok ⟨.directory path, updated⟩, t')) :
    ∃ r, t'.find path = .ok (r, .directory) ∧
      (∀ id ∈ updated, ∃ name text, id = join path name ∧
        t'.find id = .ok (r ++ [name], .file (.text text)) ∧
        (Loads path t' id text ↔ name ≠ ".sql")) ∧
      (∀ r' c, t.get? r' = some (.file c) → t'.get? r' = some (.file c) ∨
        ∃ name, r' = r ++ [name] ∧ join path name ∈ updated ∧
          (name = ".sql" ∨ ∃ text, c = .text text ∧ Loads path t (join path name) text)) ∧
      (join path ".sql" ∈ updated ↔ ∃ new, Needs path t d (.add new) ∧ new.key.name = "") := by
  obtain ⟨t₀, ids, s, m, h⟩ := done_of_synchronize ht hdevice hd hrun
  obtain ⟨r, hfind⟩ := h.find_directory
  have hfind' := h.back.grows.find_directory hfind
  refine ⟨r, hfind', fun id hid => ?_, fun r' c hget => ?_, ?_⟩
  · obtain ⟨name, text, rfl, hname, hsql, hwritten⟩ := h.place hfind hid
    refine ⟨name, text, rfl, hwritten, ?_⟩
    have hget := (FileTree.find_eq_ok_iff.1 hwritten).2.2.1
    have hread : t'.read (join path name) = .ok text := by
      rw [FileTree.read, hwritten]
      rfl
    rw [loads_iff (Target.make_of_fits h.named (.directory hfind')) h.back.wellFormed
      (.directory hfind'), present_join_iff hfind' hname hsql hget, and_iff_left hread]
  · exact h.kept hfind (get?_of_make h.make hfind hget)
  · simp only [h.mem_nameless_iff, needs_iff h.make h.read h.loaded.consistent
      (Schema.fromRows_of_ofDatabase hd).consistent]

/-- One object is changed in the file that it was loaded from, another one gets a file of its own,
    and the notes stay as they are. -/
theorem synchronize_directory_two_files :
    let db : Database := ⟨fun _ => .ok (), fun _ => .ok
      [⟨"view", "v", "v", "CREATE VIEW v AS 2"⟩,
        ⟨"table", "a/b", "a/b", "CREATE TABLE \"a/b\" (x)"⟩]⟩
    let t := ((FileTree.fresh.put ["d"] .directory).put ["d", "all.sql"]
      (.file (.text "CREATE VIEW v AS 1;"))).put ["notes"] (.file (.text "-- kept"))
    let t' := (t.put ["d", "all.sql"] (.file (.text "CREATE VIEW v AS 2;"))).put ["d", "a_b.sql"]
      (.file (.text "CREATE TABLE \"a/b\" (x);"))
    (synchronize "d" db false).run.run t =
        (.ok ⟨.directory "d", ["d/all.sql", "d/a_b.sql"]⟩, t') ∧
      ∃ r, t'.find "d" = .ok (r, .directory) ∧
        ∀ id ∈ ["d/all.sql", "d/a_b.sql"], ∃ name text, id = join "d" name ∧
          t'.find id = .ok (r ++ [name], .file (.text text)) ∧
          (Loads "d" t' id text ↔ name ≠ ".sql") := by
  intro db t t'
  have ht : t.WellFormed := by
    have hd : (FileTree.fresh.put ["d"] .directory).WellFormed :=
      FileTree.wellFormed_fresh.put (r := []) rfl ⟨by decide, by decide, by decide, by decide⟩
        fun _ => rfl
    have hall : ((FileTree.fresh.put ["d"] .directory).put ["d", "all.sql"]
        (.file (.text "CREATE VIEW v AS 1;"))).WellFormed :=
      hd.put (r := ["d"]) (by decide +kernel) ⟨by decide, by decide, by decide, by decide⟩
        (by decide +kernel)
    exact hall.put (r := []) rfl ⟨by decide, by decide, by decide, by decide⟩
      (by decide +kernel)
  have hmake : Gives (Target.make "d") t (.directory "d") t := by
    show @Eq (Except SyncError Target × FileTree) _ _
    decide +kernel
  have hdevice (target : Target) (t₀ : FileTree) (hmake' : Gives (Target.make "d") t target t₀) :
      target.NoSqlDevice t₀ := by
    obtain ⟨htarget, rfl⟩ := Prod.mk.inj (hmake.symm.trans hmake')
    cases htarget
    rintro r name hfind - hget
    -- The null device is in another directory.
    have hfind' : t.find "d" = .ok (["d"], .directory) := by decide +kernel
    cases hfind.symm.trans hfind'
    have hmem := FileTree.mem_of_get? (FileTree.isHomeOrAbove_of_get? hget nofun) hget
    simp [t, FileTree.fresh, FileTree.put, FileTree.setEntry] at hmem
  have hrun : (synchronize "d" db false).run.run t =
      (.ok ⟨.directory "d", ["d/all.sql", "d/a_b.sql"]⟩, t') := by
    show @Eq (Except SyncError SyncReport × FileTree) _ _
    decide +kernel
  obtain ⟨r, hfind, hwritten, -⟩ := synchronize_directory ht hdevice
    (d := ((Schema.ofDatabase 0 db).toOption).getD .empty) (by decide +kernel) hrun
  exact ⟨hrun, r, hfind, hwritten⟩

/-- The text of the file without a name is lost, and what is written there is not read: another run
    writes it once more. -/
theorem synchronize_nameless :
    let db : Database := ⟨fun _ => .ok (), fun _ => .ok [⟨"table", "", "", "CREATE TABLE \"\" (x)"⟩]⟩
    let t := (FileTree.fresh.put ["d"] .directory).put ["d", ".sql"] (.file (.text "-- kept\n"))
    let t' := t.put ["d", ".sql"] (.file (.text "CREATE TABLE \"\" (x);"))
    (synchronize "d" db false).run.run t = (.ok ⟨.directory "d", ["d/.sql"]⟩, t') ∧
      (synchronize "d" db false).run.run t' = (.ok ⟨.directory "d", ["d/.sql"]⟩, t') := by
  show @Eq (Except SyncError SyncReport × FileTree) _ _ ∧
    @Eq (Except SyncError SyncReport × FileTree) _ _
  decide +kernel

end SchemaAlign
