import Mathlib.Data.List.Nodup
import SchemaAlign.FileTree
import SchemaAlign.Proofs.FileTree.Path

/-!
# File trees that grow

What a run does to the files makes the tree grow: new files and directories come about, and files
get other contents, but nothing goes away. So a path leads where it led before.

* `FileTree.WellFormed`: names that can be told apart, in directories that exist;
* `FileTree.Grows`: nothing goes away;
* `Grows.find`: paths lead where they led before;
* `widens_makeDirectories`: making directories adds directories, and nothing else.
-/

namespace SchemaAlign

open SchemaAlign.Path (IsName)

/-! ## Routes -/

namespace Route

variable {r : Route} {name : String}

theorem isHomeOrAbove_append (h : IsName name) (r : Route) :
    (r ++ [name]).isHomeOrAbove = false := by
  simp [isHomeOrAbove, h.ne_dots]

theorem isHomeOrAbove_up (h : r.isHomeOrAbove = true) : r.up.isHomeOrAbove = true := by
  rw [up, if_pos h]
  split
  · exact h
  · simpa [isHomeOrAbove] using h

theorem up_append (h : IsName name) (r : Route) : (r ++ [name]).up = r := by
  have hroot : r ++ [name] ≠ ["/"] := by
    intro heq
    have hname : name = "/" := by simpa using congrArg List.getLast? heq
    exact h.slash (by simp [hname])
  rw [up, if_neg hroot, isHomeOrAbove_append h, if_neg nofun, List.dropLast_concat]

end Route

namespace FileTree

variable {t t' t'' : FileTree} {r r' : Route} {name step text : String} {steps : List String}
  {e : Entry} {c : Content}

/-! ## Well-formed trees -/

/-- The entries have routes of their own, files have names, and what contains a directory is
    one. -/
structure WellFormed (t : FileTree) : Prop where
  nodup : (t.entries.map (·.1)).Nodup
  named : ∀ r c, (r, .file c) ∈ t.entries → ∃ parent name, r = parent ++ [name] ∧ IsName name
  inside : ∀ r, t.get? r = some .directory → t.get? r.up = some .directory

theorem mem_setEntry {entries : List (Route × Entry)} {x : Route × Entry}
    (h : x ∈ setEntry r e entries) : x = (r, e) ∨ x ∈ entries := by
  induction entries with
  | nil => exact .inl (List.mem_singleton.1 h)
  | cons y entries ih =>
    rw [setEntry] at h
    split at h
    · exact (List.mem_cons.1 h).imp_right (List.mem_cons_of_mem _)
    · rcases List.mem_cons.1 h with rfl | h
      · exact .inr List.mem_cons_self
      · exact (ih h).imp_right (List.mem_cons_of_mem _)

theorem nodup_setEntry {entries : List (Route × Entry)} (h : (entries.map (·.1)).Nodup) :
    ((setEntry r e entries).map (·.1)).Nodup := by
  induction entries with
  | nil => exact List.nodup_singleton _
  | cons y entries ih =>
    obtain ⟨hy, hentries⟩ := List.nodup_cons.1 h
    rw [setEntry]
    split
    · next hr => exact List.nodup_cons.2 ⟨by rwa [← hr], hentries⟩
    · next hr =>
      refine List.nodup_cons.2 ⟨fun hmem => ?_, ih hentries⟩
      obtain ⟨x, hx, heq⟩ := List.mem_map.1 hmem
      rcases mem_setEntry hx with rfl | hx
      · exact hr heq.symm
      · exact hy (List.mem_map.2 ⟨x, hx, heq⟩)

theorem isHomeOrAbove_of_get? (h : t.get? r = some e) (he : e ≠ .directory) :
    r.isHomeOrAbove = false := by
  rw [← Bool.not_eq_true]
  intro hr
  rw [get?, if_pos hr] at h
  exact he (Option.some.inj h).symm

theorem mem_of_get? (hr : r.isHomeOrAbove = false) (h : t.get? r = some e) :
    (r, e) ∈ t.entries := by
  rw [get?, hr, if_neg Bool.false_ne_true, List.lookup_eq_some_iff] at h
  obtain ⟨as, bs, heq, -⟩ := h
  rw [heq]
  exact List.mem_append_right _ List.mem_cons_self

theorem WellFormed.get?_of_mem (h : t.WellFormed) (hr : r.isHomeOrAbove = false)
    (hmem : (r, e) ∈ t.entries) : t.get? r = some e := by
  rw [get?, hr, if_neg Bool.false_ne_true, List.lookup_eq_some_iff]
  obtain ⟨as, bs, heq⟩ := List.append_of_mem hmem
  refine ⟨as, bs, heq, fun x hx => ?_⟩
  have hnodup := h.nodup
  rw [heq, List.map_append, List.nodup_append] at hnodup
  have := hnodup.2.2 x.1 (List.mem_map_of_mem hx) r (by simp)
  simpa using Ne.symm this

theorem wellFormed_fresh : fresh.WellFormed where
  nodup := by decide
  named r c h := by simp [fresh] at h
  inside r h := by
    by_cases hr : r.isHomeOrAbove = true
    · rw [get?, if_pos (Route.isHomeOrAbove_up hr)]
    · have hmem := mem_of_get? (by simpa using hr) h
      have hroute : r = ["/"] ∨ r = ["/", "dev"] := by simpa [fresh] using hmem
      rcases hroute with rfl | rfl <;> decide

/-- What is put under a name into a directory is found there. Nothing else changes. -/
theorem get?_put_append (hname : IsName name) (t : FileTree) (e : Entry) (r' : Route) :
    (t.put (r ++ [name]) e).get? r' = if r' = r ++ [name] then some e else t.get? r' :=
  get?_put t (Route.isHomeOrAbove_append hname r) e r'

theorem WellFormed.put (h : t.WellFormed) (hr : t.get? r = some .directory) (hname : IsName name)
    (hkeep : t.get? (r ++ [name]) = some .directory → e = .directory) :
    (t.put (r ++ [name]) e).WellFormed := by
  -- By `hkeep` no directory is lost, so all entries still are in directories.
  have directory {r' : Route} (hr' : t.get? r' = some .directory) :
      (t.put (r ++ [name]) e).get? r' = some .directory := by
    rw [get?_put_append hname]
    split
    · next heq => rw [hkeep (heq ▸ hr')]
    · exact hr'
  constructor
  case nodup => exact nodup_setEntry h.nodup
  case named =>
    intro r' c hmem
    rcases mem_setEntry hmem with heq | hmem
    · exact ⟨r, name, congrArg Prod.fst heq, hname⟩
    · exact h.named r' c hmem
  case inside =>
    intro r' hr'
    rw [get?_put_append hname] at hr'
    split at hr'
    · next heq =>
      rw [heq, Route.up_append hname]
      exact directory hr
    · exact directory (h.inside r' hr')

/-! ## Growing -/

/-- Nothing goes away: what is a directory, a file or a device stays one. No devices come about. -/
structure Grows (t t' : FileTree) : Prop where
  directory : ∀ r, t.get? r = some .directory → t'.get? r = some .directory
  file : ∀ r c, t.get? r = some (.file c) → ∃ c', t'.get? r = some (.file c')
  device : ∀ r, t'.get? r = some .device ↔ t.get? r = some .device

theorem Grows.refl (t : FileTree) : t.Grows t :=
  ⟨fun _ h => h, fun _ c h => ⟨c, h⟩, fun _ => .rfl⟩

theorem Grows.trans (h : t.Grows t') (h' : t'.Grows t'') : t.Grows t'' where
  directory r hr := h'.directory r (h.directory r hr)
  file r c hr := by
    obtain ⟨c', hr'⟩ := h.file r c hr
    exact h'.file r c' hr'
  device r := (h'.device r).trans (h.device r)

theorem Grows.isSome (h : t.Grows t') (hr : (t.get? r).isSome = true) :
    (t'.get? r).isSome = true := by
  obtain ⟨e, he⟩ := Option.isSome_iff_exists.1 hr
  cases e with
  | directory => rw [h.directory r he]; rfl
  | file c => obtain ⟨c', he'⟩ := h.file r c he; rw [he']; rfl
  | device => rw [(h.device r).2 he]; rfl

/-- A file may be put where there is none, or in the place of another one. -/
theorem grows_put (hname : IsName name)
    (h : t.get? (r ++ [name]) = none ∨ ∃ c', t.get? (r ++ [name]) = some (.file c')) :
    t.Grows (t.put (r ++ [name]) (.file c)) := by
  constructor <;> intro r'
  case directory =>
    intro hr'
    rw [get?_put_append hname, if_neg, hr']
    rintro rfl
    rcases h with h | ⟨c', h⟩ <;> rw [h] at hr' <;> cases hr'
  case file =>
    intro c' hr'
    rw [get?_put_append hname]
    split
    · exact ⟨c, rfl⟩
    · exact ⟨c', hr'⟩
  case device =>
    rw [get?_put_append hname]
    split
    · next heq => rcases h with h | ⟨c', h⟩ <;> simp [heq, h]
    · rfl

/-! ## Following a path -/

theorem follow_append (t : FileTree) (r : Route) (steps more : List String) :
    t.follow r (steps ++ more) = t.follow r steps >>= fun r' => t.follow r' more := by
  induction steps generalizing r with
  | nil => rfl
  | cons step steps ih =>
    rw [List.cons_append, follow, follow]
    split; · rfl
    split; · exact ih _
    split; · rfl
    split; · rfl
    exact ih _

theorem Grows.follow (h : t.Grows t') (hfollow : t.follow r steps = .ok r') :
    t'.follow r steps = .ok r' := by
  induction steps generalizing r with
  | nil => exact hfollow
  | cons step steps ih =>
    rw [FileTree.follow] at hfollow ⊢
    split at hfollow; · cases hfollow
    next hr =>
    rw [if_neg (not_not_intro (h.directory r (not_not.1 hr)))]
    split at hfollow
    · next hdots => rw [if_pos hdots, ih hfollow]
    next hdots =>
    split at hfollow; · cases hfollow
    next hlong =>
    split at hfollow; · cases hfollow
    next hnone =>
    have hsome := h.isSome (r := r ++ [step]) (by simpa [Option.isSome_iff_ne_none] using hnone)
    rw [if_neg hdots, if_neg hlong, if_neg (by simpa [Option.isSome_iff_ne_none] using hsome),
      ih hfollow]

theorem checkPath_eq_ok {path : Path} (h : checkPath text = .ok path) :
    path = .parse text ∧ text ≠ "" := by
  rw [checkPath] at h
  split at h; · cases h
  split at h; · cases h
  next hempty =>
  split at h; · cases h
  cases h
  exact ⟨rfl, by simpa using hempty⟩

/-- What a path leads to. -/
theorem find_eq_ok_iff : t.find text = .ok (r, e) ↔ checkPath text = .ok (.parse text) ∧
    t.follow (Route.start (Path.parse text).absolute) (Path.parse text).steps = .ok r ∧
    t.get? r = some e ∧ ((Path.parse text).ending = .plain ∨ e = .directory) := by
  cases hcheck : checkPath text with
  | error => simp [find, bind, Except.bind, hcheck]
  | ok path =>
    obtain ⟨rfl, -⟩ := checkPath_eq_ok hcheck
    cases hfollow : t.follow (Route.start (Path.parse text).absolute) (Path.parse text).steps with
    | error => simp [find, bind, Except.bind, hcheck, hfollow]
    | ok r' =>
      simp only [find, bind, Except.bind, hcheck, hfollow, Except.ok.injEq, true_and]
      cases hget : t.get? r' with
      | none =>
        constructor
        · nofun
        · rintro ⟨rfl, h, -⟩
          rw [hget] at h
          cases h
      | some e' =>
        dsimp only
        -- A path that asks for a directory leads to nothing else.
        by_cases hending : (Path.parse text).ending ≠ .plain ∧ e' ≠ .directory
        · rw [if_pos hending]
          constructor
          · nofun
          · rintro ⟨rfl, h, hplain⟩
            rw [hget] at h
            cases h
            exact (hplain.elim hending.1 hending.2).elim
        · rw [if_neg hending]
          rw [not_and_or, not_not, not_not] at hending
          simp only [pure, Except.pure, Except.ok.injEq, Prod.mk.injEq]
          constructor
          · rintro ⟨rfl, rfl⟩
            exact ⟨rfl, hget, hending⟩
          · rintro ⟨rfl, h, -⟩
            rw [hget] at h
            exact ⟨rfl, Option.some.inj h⟩

/-- A path leads where it led before, to an entry of the same kind. -/
theorem Grows.find_directory (h : t.Grows t') (hfind : t.find text = .ok (r, .directory)) :
    t'.find text = .ok (r, .directory) := by
  obtain ⟨hcheck, hfollow, hget, hending⟩ := find_eq_ok_iff.1 hfind
  exact find_eq_ok_iff.2 ⟨hcheck, h.follow hfollow, h.directory r hget, hending⟩

theorem Grows.find_file (h : t.Grows t') (hfind : t.find text = .ok (r, .file c)) :
    ∃ c', t'.find text = .ok (r, .file c') := by
  obtain ⟨hcheck, hfollow, hget, hending⟩ := find_eq_ok_iff.1 hfind
  obtain ⟨c', hget'⟩ := h.file r c hget
  exact ⟨c', find_eq_ok_iff.2 ⟨hcheck, h.follow hfollow, hget', hending.imp_right nofun⟩⟩

/-! ## Making directories -/

/-- The second tree has some directories more. -/
structure Widens (t t' : FileTree) : Prop where
  wellFormed : t.WellFormed → t'.WellFormed
  get? : ∀ r, t'.get? r = t.get? r ∨ t.get? r = none ∧ t'.get? r = some .directory

theorem Widens.refl (t : FileTree) : t.Widens t :=
  ⟨fun h => h, fun _ => .inl rfl⟩

theorem Widens.trans (h : t.Widens t') (h' : t'.Widens t'') : t.Widens t'' where
  wellFormed ht := h'.wellFormed (h.wellFormed ht)
  get? r := by
    rcases h.get? r with hr | ⟨hr, hr'⟩ <;> rcases h'.get? r with hr'' | ⟨hr'', hdir⟩
    · exact .inl (hr''.trans hr)
    · exact .inr ⟨hr ▸ hr'', hdir⟩
    · exact .inr ⟨hr, hr''.trans hr'⟩
    · rw [hr'] at hr''
      cases hr''

/-- What is there stays as it is. -/
theorem Widens.get?_eq_some (h : t.Widens t') (hr : t.get? r = some e) : t'.get? r = some e := by
  rcases h.get? r with heq | ⟨hnone, -⟩
  · rw [heq, hr]
  · rw [hr] at hnone
    cases hnone

theorem Widens.grows (h : t.Widens t') : t.Grows t' where
  directory _ := h.get?_eq_some
  file _ c hr := ⟨c, h.get?_eq_some hr⟩
  device r := by
    rcases h.get? r with heq | ⟨hnone, hdirectory⟩
    · rw [heq]
    · rw [hnone, hdirectory]
      exact iff_of_false nofun nofun

/-- The step of a path is a name or goes up. -/
def IsStep (step : String) : Prop :=
  step = ".." ∨ IsName step

theorem widens_makeStep {hasToExist : Bool} (hstep : IsStep step)
    (h : t.makeStep hasToExist r step = .ok (t', r')) : t.Widens t' := by
  rw [makeStep] at h
  split at h; · cases h
  next hr =>
  split at h; · cases h; exact .refl t
  next hdots =>
  split at h; · cases h
  have hname := hstep.resolve_left hdots
  split at h
  · cases h
    exact .refl t
  · cases h
  · next hnone =>
    split at h
    · cases h
    · cases h
      constructor
      case wellFormed =>
        intro ht
        exact ht.put (not_not.1 hr) hname fun _ => rfl
      case get? =>
        -- The new directory is where nothing was, and all else is left alone.
        intro r'
        rw [get?_put_append hname]
        split
        · next heq => exact .inr ⟨heq ▸ hnone, rfl⟩
        · exact .inl rfl

theorem widens_makeSteps {hasToExist : Bool} {start : Route} {result : Except FileError Route}
    (hsteps : ∀ step ∈ steps, IsStep step)
    (h : t.makeSteps hasToExist start steps = (t', result)) : t.Widens t' := by
  induction steps generalizing hasToExist t' result with
  | nil =>
    cases h
    exact .refl t
  | cons step before ih =>
    obtain ⟨hstep, hbefore⟩ := List.forall_mem_cons.1 hsteps
    rw [makeSteps] at h
    split at h
    · -- The steps before lead somewhere.
      next t₁ r₁ hmake =>
      cases h
      cases hfollow : t.follow start before.reverse with
      | error => rw [hfollow] at hmake; cases hmake
      | ok r' => rw [hfollow] at hmake; exact widens_makeStep hstep hmake
    · -- They do not: they are made first.
      split at h
      · next hbefore' =>
        cases h
        exact ih hbefore hbefore'
      · next hbefore' =>
        have hwidens := ih hbefore hbefore'
        split at h
        · next hmake =>
          cases h
          exact hwidens.trans (widens_makeStep hstep hmake)
        · cases h
          exact hwidens
    · cases h
      exact .refl t

theorem isStep_of_mem_steps (h : step ∈ (Path.parse text).steps) : IsStep step := by
  by_cases hdots : step = ".."
  · exact .inl hdots
  · exact .inr (Path.isName_of_mem_steps h hdots)

/-- Making directories adds directories, and nothing else. -/
theorem widens_makeDirectories (t : FileTree) (text : String) :
    t.Widens (t.makeDirectories text).1 := by
  rw [makeDirectories]
  split; · exact .refl t
  split
  · exact .refl t
  · next path hcheck =>
    obtain ⟨rfl, -⟩ := checkPath_eq_ok hcheck
    exact widens_makeSteps (fun step hstep => isStep_of_mem_steps (List.mem_reverse.1 hstep)) rfl

end FileTree

end SchemaAlign
