import SchemaAlign.Proofs.Sync.Job

/-!
# Rehearsals

A rehearsal goes through a run without writing sources back. It finds out the same, but like any
run it makes the target first if it is missing.

* `Job.Keeps`: steps that leave the files as they are;
* `Job.Rehearses`: a step that stands in for another one;
* `keeps_readSchema`, `rehearses_writeSources`: the steps of a run;
* `making_make`: what making a target changes;
* `synchronize_rehearsal`: what a rehearsal reports, and the files after it.
-/

namespace SchemaAlign

open FileTree (checkPath)

namespace Job

variable {α β : Type} {x y : Job α} {f g : α → Job β} {t t' : FileTree} {a : α} {e : SyncError}

/-! ## Steps that change nothing -/

/-- The step leaves the files as they are, whether it succeeds or not. -/
def Keeps (x : Job α) : Prop :=
  ∀ t, (x.run.run t).2 = t

theorem keeps_pure (a : α) : Keeps (pure a) :=
  fun _ => rfl

theorem keeps_throw (e : SyncError) : Keeps (throw e : Job α) :=
  fun _ => rfl

theorem keeps_get : Keeps (get : Job FileTree) :=
  fun _ => rfl

/-- After a step, the files stay as it leaves them. -/
theorem files_bind (hf : ∀ a, Keeps (f a)) (t : FileTree) :
    ((x >>= f).run.run t).2 = (x.run.run t).2 := by
  rw [run_bind]
  rcases x.run.run t with ⟨_ | a, t'⟩
  · rfl
  · exact hf a t'

theorem Keeps.bind (hx : Keeps x) (hf : ∀ a, Keeps (f a)) : Keeps (x >>= f) :=
  fun t => (files_bind hf t).trans (hx t)

theorem keeps_look (action path : String) (f : FileTree → Except FileError α) :
    Keeps (look action path f) := by
  refine keeps_get.bind fun t => ?_
  split
  · exact keeps_pure _
  · exact keeps_throw _

theorem files_write {action path content : String} {e : FileError}
    (h : t.write path (.text content) = .error e) :
    ((write action path content).run.run t).2 = t := by
  rw [write, run_bind, look, run_bind, show (get : Job FileTree).run.run t = (.ok t, t) from rfl]
  dsimp only
  rw [h]
  rfl

theorem keeps_foldlM {f : β → α → Job β} (hf : ∀ b a, Keeps (f b a)) (as : List α) (b : β) :
    Keeps (as.foldlM f b) := by
  induction as generalizing b with
  | nil => exact keeps_pure b
  | cons a as ih => exact (hf b a).bind ih

/-! ## Steps that stand in for others -/

/-- `y` does what `x` does, or else it succeeds, and with what `x` gives if that succeeds. -/
def Rehearses (y x : Job α) : Prop :=
  ∀ t, y.run.run t = x.run.run t ∨
    ∃ a, (y.run.run t).1 = .ok a ∧ ∀ a', (x.run.run t).1 = .ok a' → a' = a

theorem Rehearses.refl (x : Job α) : Rehearses x x :=
  fun _ => .inl rfl

/-- The steps before are the same. -/
theorem Rehearses.bind_left (h : ∀ a, Rehearses (g a) (f a)) :
    Rehearses (x >>= g) (x >>= f) := by
  intro t
  rw [run_bind, run_bind]
  rcases x.run.run t with ⟨_ | a, t'⟩
  · exact .inl rfl
  · exact h a t'

/-- What is given is put into something else. -/
theorem Rehearses.map (h : Rehearses y x) (k : α → β) :
    Rehearses (y >>= fun a => pure (k a)) (x >>= fun a => pure (k a)) := by
  intro t
  rw [run_bind, run_bind]
  rcases h t with heq | ⟨a, hy, hx⟩
  · rw [heq]
    exact .inl rfl
  · refine .inr ⟨k a, ?_, fun b hb => ?_⟩
    · generalize y.run.run t = result at hy
      obtain ⟨_, _⟩ := result
      cases hy
      rfl
    · generalize x.run.run t = result at hx hb
      rcases result with ⟨_ | a', _⟩
      · cases hb
      · cases hb
        rw [hx a' rfl]

theorem Rehearses.ok (h : Rehearses y x) (hx : x.run.run t = (.ok a, t')) :
    (y.run.run t).1 = .ok a := by
  rcases h t with heq | ⟨a', hy, hsame⟩
  · rw [heq, hx]
  · rw [hy, hsame a (by rw [hx])]

theorem Rehearses.error (h : Rehearses y x) (hy : (y.run.run t).1 = .error e) :
    x.run.run t = y.run.run t := by
  rcases h t with heq | ⟨a, hok, -⟩
  · exact heq.symm
  · rw [hok] at hy
    cases hy

end Job

open Job (Keeps Rehearses Gives gives_bind gives_get gives_pure gives_write)

variable {t t' : FileTree} {path : String} {r parent : Route} {name text : String} {c : Content}

/-! ## The steps of a run -/

theorem keeps_sourcePaths (target : Target) : Keeps target.sourcePaths := by
  cases target with
  | file path => exact Job.keeps_pure _
  | directory path =>
    exact (Job.keeps_look _ _ _).bind fun _ => Job.keeps_get.bind fun _ => Job.keeps_pure _

theorem keeps_loadFile (s : Schema) (path : String) : Keeps (Target.loadFile s path) := by
  refine (Job.keeps_look _ _ _).bind fun text => ?_
  split
  · exact Job.keeps_pure _
  · exact Job.keeps_throw _

theorem keeps_readSchema (target : Target) : Keeps target.readSchema :=
  (keeps_sourcePaths target).bind fun ids => Job.keeps_foldlM keeps_loadFile ids .empty

theorem keeps_writeSources (m : Schema) (ids : List String) : Keeps (writeSources m ids true) :=
  Job.keeps_pure _

theorem rehearses_writeSources (m : Schema) (ids : List String) :
    Rehearses (writeSources m ids true) (writeSources m ids false) := by
  refine fun t => .inr ⟨_, rfl, fun updated h => ?_⟩
  obtain ⟨_, _, -, hupdated⟩ := gives_bind.1 (Prod.ext h rfl : Gives _ t updated _)
  exact (gives_pure.1 hupdated).1

theorem rehearses_synchronize (path : String) (db : Database) :
    Rehearses (synchronize path db true) (synchronize path db false) := by
  refine .bind_left fun target => ?_
  dsimp only
  cases Schema.ofDatabase 0 db with
  | error e => exact .refl _
  | ok d =>
    refine .bind_left fun d => .bind_left fun s => ?_
    split
    · exact .refl _
    · exact (rehearses_writeSources _ _).map _

theorem files_synchronize (path : String) (db : Database) (t : FileTree) :
    ((synchronize path db true).run.run t).2 = ((Target.make path).run.run t).2 := by
  refine Job.files_bind (fun target => ?_) t
  dsimp only
  cases Schema.ofDatabase 0 db with
  | error e => exact Job.keeps_throw _
  | ok d =>
    refine (Job.keeps_pure _).bind fun d => (keeps_readSchema target).bind fun s => ?_
    split
    · exact Job.keeps_throw _
    · exact (keeps_writeSources _ _).bind fun _ => Job.keeps_pure _

/-! ## Making the target -/

/-- Making a target adds directories, and a file of the given path, which is empty after it. -/
def Making (path : String) (t t' : FileTree) : Prop :=
  ∀ r, t'.get? r = t.get? r ∨ t.get? r = none ∧ t'.get? r = some .directory ∨
    Path.isSqlFile path = true ∧ t'.find path = .ok (r, .file (.text ""))

theorem making_of_widens (h : t.Widens t') : Making path t t' :=
  fun r => (h.get? r).imp_right .inl

theorem making_of_write (hsql : Path.isSqlFile path = true) (h : t.Widens t')
    {t'' : FileTree} (hwrite : t'.write path (.text "") = .ok t'') : Making path t t'' := by
  obtain ⟨parent, name, hwritten⟩ := FileTree.written_of_write hwrite
  have hresult := hwritten.result
  split at hresult
  · -- A device is there, and it takes the text.
    exact hresult ▸ making_of_widens h
  · have hget (r : Route) : t''.get? r =
        if r = parent ++ [name] then some (.file (.text "")) else t'.get? r := by
      rw [hresult, FileTree.get?_put_append hwritten.isName]
    intro r
    by_cases hr : r = parent ++ [name]
    · have hleads := (hwritten.leads hwrite).grows hwritten.grows
      exact .inr (.inr ⟨hsql, hr ▸ hleads.find (by rw [hget, if_pos rfl])⟩)
    · rw [hget, if_neg hr]
      exact (h.get? r).imp_right .inl

theorem making_create (path : String) (t : FileTree) :
    Making path t ((Target.create path).run.run t).2 := by
  rw [Target.create, Job.run_bind, show (get : Job FileTree).run.run t = (.ok t, t) from rfl]
  dsimp only
  split
  · exact making_of_widens (.refl t)
  split
  · next hsql =>
    have hwidens := Job.widens_makeParent path t
    rw [Job.run_bind]
    generalize (Job.makeParent path).run.run t = made at hwidens ⊢
    obtain ⟨_ | _, t₁⟩ := made
    · exact making_of_widens hwidens
    · dsimp only
      cases hwrite : t₁.write path (.text "") with
      | error e =>
        rw [Job.files_write hwrite]
        exact making_of_widens hwidens
      | ok t₂ =>
        have hgives : Gives (Job.write "creating" path "") t₁ () t₂ := gives_write.2 hwrite
        rw [show (Job.write _ _ _).run.run t₁ = (.ok (), t₂) from hgives]
        exact making_of_write hsql hwidens hwrite
  · exact making_of_widens (Job.widens_makeDirectories path t)

/-- Apart from making what is missing, the target is only looked at. -/
theorem files_make (path : String) (t : FileTree) :
    ((Target.make path).run.run t).2 = if path.isEmpty then t
      else ((Target.create path).run.run t).2 := by
  rw [Target.make]
  split
  · rfl
  · refine Job.files_bind (fun _ => (Job.keeps_look _ _ _).bind fun entry => ?_) t
    split
    · exact Job.keeps_pure _
    · exact Job.keeps_pure _
    · exact Job.keeps_throw _

theorem files_create_of_isOk (h : (t.find path).isOk = true) :
    ((Target.create path).run.run t).2 = t := by
  rw [Target.create, Job.run_bind, show (get : Job FileTree).run.run t = (.ok t, t) from rfl]
  dsimp only
  rw [if_pos h]
  rfl

theorem making_make (path : String) (t : FileTree) :
    Making path t ((Target.make path).run.run t).2 := by
  rw [files_make]
  split
  · exact making_of_widens (.refl t)
  · exact making_create path t

/-- Making a directory writes no file. -/
theorem get?_of_make {c : Content} (hmake : Gives (Target.make path) t (.directory path) t')
    (hfind : t'.find path = .ok (parent, .directory)) (hget : t.get? r = some (.file c)) :
    t'.get? r = some (.file c) := by
  have hmaking := making_make path t r
  rw [show (Target.make path).run.run t = (.ok (.directory path), t') from hmake] at hmaking
  rcases hmaking with heq | ⟨hnone, -⟩ | ⟨-, hfile⟩
  · exact heq.trans hget
  · rw [hget] at hnone
    cases hnone
  · cases hfile.symm.trans hfind

/-! ## Rehearsals and runs -/

/-- A rehearsal reports what the run reports if it succeeds, and it fails only as the run does. The
    files are left as making the target leaves them. So they stay as they are if the target is
    there. If it is missing, directories are added, and a file may be put where the path leads
    then. It is empty, whatever was there. -/
theorem synchronize_rehearsal (path : String) (db : Database) (t : FileTree) :
    ∃ result t₀, (synchronize path db true).run.run t = (result, t₀) ∧
      (∀ report t', (synchronize path db false).run.run t = (.ok report, t') →
        result = .ok report) ∧
      (∀ e, result = .error e → (synchronize path db false).run.run t = (.error e, t₀)) ∧
      t₀ = ((Target.make path).run.run t).2 ∧ ((t.find path).isOk = true → t₀ = t) ∧
      ∀ r, t₀.get? r = t.get? r ∨ t.get? r = none ∧ t₀.get? r = some .directory ∨
        Path.isSqlFile path = true ∧ t₀.find path = .ok (r, .file (.text "")) := by
  have hmade := files_synchronize path db t
  have hok {report : SyncReport} {t' : FileTree}
      (hrun : (synchronize path db false).run.run t = (.ok report, t')) :=
    (rehearses_synchronize path db).ok hrun
  have herror {e : SyncError} (he : ((synchronize path db true).run.run t).1 = .error e) :=
    (rehearses_synchronize path db).error he
  generalize (synchronize path db true).run.run t = rehearsal at hmade hok herror ⊢
  obtain ⟨result, t₀⟩ := rehearsal
  replace hmade : t₀ = ((Target.make path).run.run t).2 := hmade
  refine ⟨result, t₀, rfl, fun report t' hrun => hok hrun, fun e he => ?_, hmade, ?_, ?_⟩
  · rw [herror he, he]
  · intro hfind
    rw [hmade, files_make, files_create_of_isOk hfind, ite_self]
  · rw [hmade]
    exact making_make path t

/-- In a rehearsal, a missing directory on the way to the target is made, and the text of the
    target, which could not be found without it, is lost. -/
theorem synchronize_rehearsal_truncates :
    let db : Database := ⟨fun _ => .ok (), fun _ => .ok [⟨"table", "a", "a", "CREATE TABLE a (x)"⟩]⟩
    let t := FileTree.fresh.put ["x.sql"] (.file (.text "CREATE TABLE b (y);\n"))
    let t' := (FileTree.fresh.put ["x.sql"] (.file (.text ""))).put ["a"] .directory
    (synchronize "a/../x.sql" db true).run.run t =
      (.ok ⟨.file "a/../x.sql", ["a/../x.sql"]⟩, t') := by
  show @Eq (Except SyncError SyncReport × FileTree) _ _
  decide +kernel

end SchemaAlign
