import SchemaAlign.Proofs.FileTree.File
import SchemaAlign.Sync

/-!
# Steps of a run

* `Job.Gives`: what a step gives, and the files after it;
* `gives_bind`: two steps one after the other;
* `gives_look`, `gives_write`: looking at the files and writing one;
* `widens_makeDirectories`, `widens_makeParent`: making directories.
-/

namespace SchemaAlign.Job

variable {α β : Type} {x : Job α} {f : α → Job β} {t t' t'' : FileTree} {a : α} {b : β}
  {action path content : String}

/-- The step succeeds. -/
def Gives (x : Job α) (t : FileTree) (a : α) (t' : FileTree) : Prop :=
  x.run.run t = (.ok a, t')

theorem gives_pure {a' : α} : Gives (pure a) t a' t' ↔ a' = a ∧ t' = t := by
  constructor
  · intro h
    cases h
    exact ⟨rfl, rfl⟩
  · rintro ⟨rfl, rfl⟩
    rfl

theorem not_gives_throw {e : SyncError} : ¬ Gives (throw e : Job α) t a t' :=
  nofun

/-- The second of two steps is taken if the first one succeeds. -/
theorem run_bind (x : Job α) (f : α → Job β) (t : FileTree) :
    (x >>= f).run.run t = match x.run.run t with
      | (.ok a, t') => (f a).run.run t'
      | (.error e, t') => (.error e, t') := by
  rw [ExceptT.run_bind, StateT.run_bind]
  rcases x.run.run t with ⟨_ | _, _⟩ <;> rfl

theorem gives_bind :
    Gives (x >>= f) t b t'' ↔ ∃ a t', Gives x t a t' ∧ Gives (f a) t' b t'' := by
  rw [Gives, run_bind]
  constructor
  · intro h
    split at h
    · next a t' hx => exact ⟨a, t', hx, h⟩
    · cases h
  · rintro ⟨a, t', hx, hf⟩
    rw [show x.run.run t = (.ok a, t') from hx]
    exact hf

theorem gives_get {s : FileTree} : Gives get t s t' ↔ s = t ∧ t' = t := by
  constructor
  · intro h
    cases h
    exact ⟨rfl, rfl⟩
  · rintro ⟨rfl, rfl⟩
    rfl

theorem gives_set {s : FileTree} {u : PUnit} : Gives (set s) t u t' ↔ t' = s := by
  constructor
  · intro h
    cases h
    rfl
  · rintro rfl
    rfl

theorem gives_look {f : FileTree → Except FileError α} :
    Gives (look action path f) t a t' ↔ f t = .ok a ∧ t' = t := by
  rw [look, gives_bind]
  constructor
  · rintro ⟨_, _, hget, h⟩
    obtain ⟨rfl, rfl⟩ := gives_get.1 hget
    split at h
    · next hf =>
      obtain ⟨rfl, rfl⟩ := gives_pure.1 h
      exact ⟨hf, rfl⟩
    · exact absurd h not_gives_throw
  · rintro ⟨hf, rfl⟩
    refine ⟨t', t', gives_get.2 ⟨rfl, rfl⟩, ?_⟩
    rw [hf]
    exact gives_pure.2 ⟨rfl, rfl⟩

theorem gives_write {u : Unit} :
    Gives (write action path content) t u t' ↔ t.write path (.text content) = .ok t' := by
  rw [write, gives_bind]
  constructor
  · rintro ⟨s, _, hlook, hset⟩
    obtain ⟨hwrite, rfl⟩ := gives_look.1 hlook
    rw [hwrite, gives_set.1 hset]
  · intro h
    exact ⟨t', t, gives_look.2 ⟨h, rfl⟩, gives_set.2 rfl⟩

/-- Directories are added, also by a step that fails. -/
theorem widens_makeDirectories (path : String) (t : FileTree) :
    t.Widens ((makeDirectories path).run.run t).2 := by
  have hwidens := FileTree.widens_makeDirectories t path
  rw [makeDirectories, run_bind, show (get : Job FileTree).run.run t = (.ok t, t) from rfl]
  dsimp only
  generalize t.makeDirectories path = made at hwidens ⊢
  obtain ⟨tree, result⟩ := made
  cases result with
  | error => exact hwidens
  | ok => exact hwidens

theorem widens_makeParent (path : String) (t : FileTree) :
    t.Widens ((makeParent path).run.run t).2 := by
  rw [makeParent]
  split
  · split
    · exact .refl t
    · exact widens_makeDirectories _ t
  · exact .refl t

theorem widens_of_makeDirectories {u : Unit} (h : Gives (makeDirectories path) t u t') :
    t.Widens t' := by
  have hwidens := widens_makeDirectories path t
  rwa [show (makeDirectories path).run.run t = (.ok u, t') from h] at hwidens

theorem widens_of_makeParent {u : Unit} (h : Gives (makeParent path) t u t') : t.Widens t' := by
  have hwidens := widens_makeParent path t
  rwa [show (makeParent path).run.run t = (.ok u, t') from h] at hwidens

end SchemaAlign.Job
