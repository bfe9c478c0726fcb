import Mathlib.Data.List.Nodup
import SchemaAlign.Proofs.FileTree

/-!
# Files by their paths

A path that ends with a name leads to a place in a directory, whether something is there or not.
What is written there can be read from there, and it is among the files of the directory.

* `FileTree.Leads`: the place that a path leads to;
* `leads_of_find`, `leads_join`: paths that lead somewhere;
* `Leads.read`, `Leads.write`: what reading and writing do there;
* `mem_files`: the files of a directory.
-/

namespace SchemaAlign

open SchemaAlign.Path (IsName join)

namespace FileTree

variable {t t' : FileTree} {r parent : Route} {name text directory content : String} {e : Entry}
  {c : Content} {path : Path}

/-- The path leads to the given name in the given directory. -/
structure Leads (t : FileTree) (text : String) (parent : Route) (name : String) : Prop where
  check : checkPath text = .ok (.parse text)
  last : (Path.parse text).steps.getLast? = some name
  ending : (Path.parse text).ending = .plain
  isName : IsName name
  short : name.utf8ByteSize ≤ maxName
  follow : t.follow (Route.start (Path.parse text).absolute) (Path.parse text).steps.dropLast =
    .ok parent
  directory : t.get? parent = some .directory

/-- A path leads where it led before. -/
theorem Leads.grows (h : t.Leads text parent name) (hgrows : t.Grows t') :
    t'.Leads text parent name :=
  { h with
    follow := hgrows.follow h.follow
    directory := hgrows.directory parent h.directory }

/-! ## The last step -/

theorem follow_name (hdirectory : t.get? parent = some .directory) (hname : IsName name)
    (hshort : name.utf8ByteSize ≤ maxName) (he : t.get? (parent ++ [name]) = some e) :
    t.follow parent [name] = .ok (parent ++ [name]) := by
  rw [FileTree.follow, if_neg (not_not_intro hdirectory), if_neg hname.ne_dots,
    if_neg (Nat.not_lt.2 hshort), he, Option.isNone_some, if_neg Bool.false_ne_true,
    FileTree.follow]

theorem Leads.find (h : t.Leads text parent name) (he : t.get? (parent ++ [name]) = some e) :
    t.find text = .ok (parent ++ [name], e) := by
  refine find_eq_ok_iff.2 ⟨h.check, ?_, he, .inl h.ending⟩
  rw [← List.dropLast_append_getLast? name h.last, follow_append, h.follow]
  exact follow_name h.directory h.isName h.short he

/-- What is there is read. -/
theorem Leads.read (h : t.Leads text parent name)
    (he : t.get? (parent ++ [name]) = some (.file (.text content))) :
    t.read text = .ok content := by
  rw [FileTree.read, h.find he]
  rfl

/-- What a path leads to that is followed to its end. -/
theorem exists_of_follow {start : Route} {steps : List String}
    (h : t.follow start (steps ++ [name]) = .ok r) :
    ∃ parent, t.follow start steps = .ok parent ∧ t.get? parent = some .directory ∧
      ((name = ".." ∧ r = parent.up) ∨
        (name ≠ ".." ∧ name.utf8ByteSize ≤ maxName ∧ r = parent ++ [name])) := by
  rw [follow_append] at h
  cases hsteps : t.follow start steps with
  | error e =>
    rw [hsteps] at h
    cases h
  | ok parent =>
    rw [hsteps] at h
    replace h : t.follow parent [name] = .ok r := h
    rw [FileTree.follow] at h
    split at h; · cases h
    next hparent =>
    refine ⟨parent, rfl, not_not.1 hparent, ?_⟩
    split at h
    · next hdots =>
      cases h
      exact .inl ⟨hdots, rfl⟩
    · next hdots =>
      split at h; · cases h
      next hshort =>
      split at h; · cases h
      cases h
      exact .inr ⟨hdots, Nat.not_lt.1 hshort, rfl⟩

/-- The path of a file leads to it. -/
theorem leads_of_find (ht : t.WellFormed) (h : t.find text = .ok (r, .file c)) :
    ∃ parent name, r = parent ++ [name] ∧ t.Leads text parent name := by
  obtain ⟨hcheck, hfollow, hget, hending⟩ := find_eq_ok_iff.1 h
  obtain ⟨parent₀, name₀, hr₀, hname₀⟩ :=
    ht.named r c (mem_of_get? (isHomeOrAbove_of_get? hget nofun) hget)
  rcases List.eq_nil_or_concat (Path.parse text).steps with hsteps | ⟨steps, name, hsteps⟩
  · -- The path of the working directory or of the root leads to no file.
    rw [hsteps] at hfollow
    cases hfollow
    cases habsolute : (Path.parse text).absolute with
    | false => rw [habsolute] at hr₀; simp [Route.start] at hr₀
    | true =>
      rw [habsolute] at hr₀
      have hroot : name₀ = "/" := by
        simpa [Route.start] using (congrArg List.getLast? hr₀).symm
      exact absurd (hroot ▸ hname₀.slash) (by decide)
  · rw [List.concat_eq_append] at hsteps
    rw [hsteps] at hfollow
    obtain ⟨parent, hparent, hdirectory, ⟨hdots, rfl⟩ | ⟨hdots, hshort, rfl⟩⟩ :=
      exists_of_follow hfollow
    · -- Nor does one that goes up in the end.
      rw [ht.inside parent hdirectory] at hget
      cases hget
    · have hmem : name ∈ (Path.parse text).steps := by
        rw [hsteps]
        exact List.mem_append_right _ List.mem_cons_self
      exact ⟨parent, name, rfl, hcheck, by rw [hsteps, List.getLast?_concat],
        hending.resolve_right nofun, Path.isName_of_mem_steps hmem hdots, hshort,
        by rw [hsteps, List.dropLast_concat, hparent], hdirectory⟩

/-! ## Files in a directory -/

theorem leads_join (hfind : t.find directory = .ok (r, .directory)) (hname : IsName name)
    (hcheck : checkPath (join directory name) = .ok path) (hshort : name.utf8ByteSize ≤ maxName) :
    t.Leads (join directory name) r name := by
  obtain ⟨hcheck', hfollow, hget, -⟩ := find_eq_ok_iff.1 hfind
  have hparse := Path.parse_join (checkPath_eq_ok hcheck').2 hname
  obtain ⟨rfl, -⟩ := checkPath_eq_ok hcheck
  refine ⟨hcheck, by rw [hparse, List.getLast?_concat], by rw [hparse], hname, hshort, ?_, hget⟩
  rw [hparse, List.dropLast_concat, hfollow]

/-- The path of a file in a directory leads to it if it can be read. -/
theorem leads_join_of_read (hfind : t.find directory = .ok (r, .directory)) (hname : IsName name)
    (hread : t.read (join directory name) = .ok content) :
    t.Leads (join directory name) r name := by
  rw [FileTree.read] at hread
  cases hfind' : t.find (join directory name) with
  | error e =>
    rw [hfind'] at hread
    cases hread
  | ok x =>
    obtain ⟨r', e⟩ := x
    obtain ⟨hcheck, hfollow, -⟩ := find_eq_ok_iff.1 hfind'
    obtain ⟨hcheck', -⟩ := find_eq_ok_iff.1 hfind
    rw [Path.parse_join (checkPath_eq_ok hcheck').2 hname] at hfollow
    obtain ⟨_, _, _, hlast⟩ := exists_of_follow hfollow
    exact leads_join hfind hname hcheck (hlast.resolve_left fun h => hname.ne_dots h.1).2.1

/-! ## Writing -/

/-- Where a text is written. A device stays as it is. -/
structure Written (t : FileTree) (text : String) (c : Content) (parent : Route) (name : String)
    (t' : FileTree) : Prop where
  check : checkPath text = .ok (.parse text)
  last : (Path.parse text).steps.getLast? = some name
  isName : IsName name
  short : name.utf8ByteSize ≤ maxName
  follow : t.follow (Route.start (Path.parse text).absolute) (Path.parse text).steps.dropLast =
    .ok parent
  directory : t.get? parent = some .directory
  replaced : t.get? (parent ++ [name]) ≠ some .directory
  result : t' = if t.get? (parent ++ [name]) = some .device then t
    else t.put (parent ++ [name]) (.file c)

theorem written_of_write (h : t.write text c = .ok t') :
    ∃ parent name, t.Written text c parent name t' := by
  simp only [write, bind, Except.bind] at h
  cases hcheck : checkPath text with
  | error e => simp [hcheck] at h
  | ok path =>
  obtain ⟨rfl, -⟩ := checkPath_eq_ok hcheck
  simp only [hcheck] at h
  split at h
  · cases h
  next name hlast =>
  cases hfollow : t.follow (Route.start (Path.parse text).absolute)
      (Path.parse text).steps.dropLast with
  | error e => simp [hfollow] at h
  | ok parent =>
  simp only [hfollow] at h
  split at h
  case isFalse => cases h
  next hdirectory =>
  split at h; · cases h
  next hname =>
  split at h; · cases h
  next hshort =>
  obtain ⟨hdots, -⟩ := not_or.1 hname
  have isName := Path.isName_of_mem_steps (List.mem_of_getLast? hlast) hdots
  refine ⟨parent, name, hcheck, hlast, isName, Nat.not_lt.1 hshort, hfollow, hdirectory, ?_, ?_⟩ <;>
    split at h <;> cases h <;> simp_all

/-- Only a path that ends with a name is written. -/
theorem Written.leads (h : t.Written text c parent name t') (hwrite : t.write text c = .ok t') :
    t.Leads text parent name := by
  refine { h with ending := ?_ }
  simp only [write, bind, Except.bind, h.check, h.last, h.follow] at hwrite
  split at hwrite
  case isFalse => cases hwrite
  split at hwrite; · cases hwrite
  next hends =>
  split at hwrite; · cases hwrite
  obtain ⟨-, hslash⟩ := not_or.1 hends
  cases hending : (Path.parse text).ending with
  | plain => rfl
  | slash => exact absurd hending hslash
  | dot => rw [hending] at hwrite; split at hwrite <;> simp_all

theorem Written.grows (h : t.Written text c parent name t') : t.Grows t' := by
  rw [h.result]
  split
  · exact .refl t
  · next hdevice =>
    refine grows_put h.isName ?_
    rcases hentry : t.get? (parent ++ [name]) with _ | _ | c' | _
    · exact .inl rfl
    · exact absurd hentry h.replaced
    · exact .inr ⟨c', rfl⟩
    · exact absurd hentry hdevice

theorem Written.wellFormed (h : t.Written text c parent name t') (ht : t.WellFormed) :
    t'.WellFormed := by
  rw [h.result]
  split
  · exact ht
  · exact ht.put h.directory h.isName fun hentry => absurd hentry h.replaced

/-- What is written where a path leads to. -/
theorem Leads.written {parent' : Route} {name' : String} (h : t.Leads text parent name)
    (hwritten : t.Written text c parent' name' t') : parent' = parent ∧ name' = name := by
  obtain rfl : name' = name := Option.some.inj (hwritten.last.symm.trans h.last)
  exact ⟨Except.ok.inj (hwritten.follow.symm.trans h.follow), rfl⟩

/-- The path of a file in a directory leads to it if it can be written. -/
theorem leads_join_of_write (hfind : t.find directory = .ok (r, .directory)) (hname : IsName name)
    (hwrite : t.write (join directory name) c = .ok t') :
    t.Leads (join directory name) r name := by
  obtain ⟨parent, name', h⟩ := written_of_write hwrite
  have hlast := h.last
  obtain ⟨hcheck, -⟩ := find_eq_ok_iff.1 hfind
  rw [Path.parse_join (checkPath_eq_ok hcheck).2 hname, List.getLast?_concat] at hlast
  cases hlast
  exact leads_join hfind hname h.check h.short

/-! ## Listing -/

/-- The name of an entry that is a file in the given directory. -/
def listed (r : Route) (x : Route × Entry) : Option String :=
  match x.1.getLast?, x.2 with
  | some name, .file _ => if x.1.dropLast = r then some name else none
  | _, _ => none

theorem files_eq (t : FileTree) (r : Route) :
    t.files r = (t.entries.filterMap (listed r)).mergeSort fun a b => decide (a ≤ b) :=
  rfl

theorem listed_eq_some {x : Route × Entry} :
    listed r x = some name ↔ ∃ c, x = (r ++ [name], .file c) := by
  obtain ⟨r', e⟩ := x
  constructor
  · intro h
    rw [listed] at h
    split at h
    · next c hlast hfile =>
      split at h
      · next hparent =>
        cases h
        refine ⟨c, ?_⟩
        rw [← hparent, List.dropLast_append_getLast? name hlast, ← show e = .file c from hfile]
      · cases h
    · cases h
  · rintro ⟨c, h⟩
    cases h
    simp [listed]

theorem mem_files (h : t.WellFormed) :
    name ∈ t.files r ↔ ∃ c, t.get? (r ++ [name]) = some (.file c) := by
  rw [files_eq, List.mem_mergeSort, List.mem_filterMap]
  constructor
  · rintro ⟨x, hmem, hname⟩
    obtain ⟨c, rfl⟩ := listed_eq_some.1 hname
    obtain ⟨parent, name₀, heq, hname₀⟩ := h.named _ c hmem
    exact ⟨c, h.get?_of_mem (heq ▸ Route.isHomeOrAbove_append hname₀ parent) hmem⟩
  · rintro ⟨c, hget⟩
    exact ⟨_, mem_of_get? (isHomeOrAbove_of_get? hget nofun) hget, listed_eq_some.2 ⟨c, rfl⟩⟩

theorem nodup_files (h : t.WellFormed) (r : Route) : (t.files r).Nodup := by
  rw [files_eq]
  refine (List.mergeSort_perm _ _).nodup_iff.2 ?_
  have hnodup : t.entries.Pairwise fun a b => a.1 ≠ b.1 := List.pairwise_map.1 h.nodup
  -- Two entries with one name in one directory would have one route.
  refine hnodup.filterMap _ fun x y hne name hx name' hy => ?_
  rintro rfl
  obtain ⟨c, rfl⟩ := listed_eq_some.1 hx
  obtain ⟨c', rfl⟩ := listed_eq_some.1 hy
  exact hne rfl

theorem isName_of_mem_files (h : t.WellFormed) (hmem : name ∈ t.files r) : IsName name := by
  obtain ⟨c, hget⟩ := (mem_files h).1 hmem
  obtain ⟨parent, name₀, heq, hname₀⟩ :=
    h.named _ c (mem_of_get? (isHomeOrAbove_of_get? hget nofun) hget)
  obtain ⟨-, hname⟩ := List.append_inj' heq rfl
  cases hname
  exact hname₀

end FileTree

end SchemaAlign
