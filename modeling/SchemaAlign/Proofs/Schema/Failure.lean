import SchemaAlign.Proofs.Schema.Convergence

/-!
# Edits that fail

* `applyEdit_changes`: every edit that succeeds leaves a changed source;
* `apply_eq_error_iff`: a list of edits that fails leaves the schema as the edits before the failing
  one made it, so it leaves the schema as it was only if the first edit fails.
-/

namespace SchemaAlign

/-- Steps fail with the first one that fails, and leave what those before it gave. -/
theorem runEach_eq_error_iff {σ ι ε : Type} {step : σ → ι → Except ε σ} {s t : σ} {is : List ι}
    {e : ε} :
    runEach step s is = (t, .error e) ↔ ∃ before i after, is = before ++ i :: after ∧
      runEach step s before = (t, .ok ()) ∧ step t i = .error e := by
  induction is generalizing s with
  | nil => simp [runEach]
  | cons i is ih =>
    constructor
    · intro h
      cases hi : step s i with
      | error e' =>
        simp only [runEach, hi, Prod.mk.injEq, Except.error.injEq] at h
        obtain ⟨rfl, rfl⟩ := h
        exact ⟨[], i, is, rfl, rfl, hi⟩
      | ok s' =>
        simp only [runEach, hi] at h
        obtain ⟨before, j, after, rfl, hbefore, hj⟩ := ih.1 h
        exact ⟨i :: before, j, after, rfl, by simpa only [runEach, hi] using hbefore, hj⟩
    · rintro ⟨before, j, after, heq, hbefore, hj⟩
      cases before with
      | nil =>
        cases heq
        cases hbefore
        simp only [runEach, hj]
      | cons _ before =>
        cases heq
        cases hi : step s i with
        | error e' => simp [runEach, hi] at hbefore
        | ok s' =>
          simp only [runEach, hi] at hbefore ⊢
          exact ih.2 ⟨before, j, after, rfl, hbefore, hj⟩

namespace Schema

variable {s t d : Schema} {e : Edit} {edits : List Edit} {edition : Nat}
  {placement : SchemaObject → String} {o new : SchemaObject} {f : List Token → List Token}
  {target : String} {v : Violation}

/-! ## Edits that succeed -/

theorem changed_markChanged_ne_nil (s : Schema) (id : String) : (s.markChanged id).changed ≠ [] :=
  List.ne_nil_of_mem (mem_changed_markChanged.2 (.inr rfl))

theorem redefine_changes (h : s.redefine o f = .ok t) : t.changed ≠ [] := by
  unfold redefine at h
  repeat' split at h
  all_goals cases h
  exact changed_markChanged_ne_nil _ _

theorem appendObject_changes (h : s.appendObject edition d new target = .ok t) :
    t.changed ≠ [] := by
  simp only [appendObject, bind, Except.bind, pure, Except.pure] at h
  split at h
  · cases h
  · split at h
    · cases h
    · split at h <;> cases h
      exact changed_markChanged_ne_nil _ _

/-- After an edit a source waits to be taken. -/
theorem applyEdit_changes (h : applyEdit edition d placement s e = .ok t) : t.changed ≠ [] := by
  cases e with
  | add new => exact appendObject_changes h
  | modify old new =>
    simp only [applyEdit, replaceObject, bind, Except.bind] at h
    repeat' split at h
    all_goals first | cases h | exact redefine_changes h
  | remove old =>
    simp only [applyEdit, removeObject, bind, Except.bind, pure, Except.pure] at h
    split at h <;> cases h
    next hredefine =>
      have hchanged := redefine_changes hredefine
      exact hchanged

theorem runEach_changes (hne : edits ≠ [])
    (h : runEach (applyEdit edition d placement) s edits = (t, .ok ())) : t.changed ≠ [] := by
  induction edits generalizing s with
  | nil => exact absurd rfl hne
  | cons e edits ih =>
    cases he : applyEdit edition d placement s e with
    | error v => simp [runEach, he] at h
    | ok s' =>
      simp only [runEach, he] at h
      -- Only the last edit matters: it leaves a changed source, whatever it was applied to.
      cases edits with
      | nil =>
        cases h
        exact applyEdit_changes he
      | cons e' edits => exact ih (List.cons_ne_nil e' edits) h

/-! ## Lists of edits -/

theorem apply_eq_ok_iff (hpending : s.changed = []) {changed : Bool} :
    s.apply edition d edits placement = (t, .ok changed) ↔
      runEach (applyEdit edition d placement) s edits = (t, .ok ()) ∧ changed = !edits.isEmpty := by
  rw [apply_eq hpending]
  cases hrun : runEach (applyEdit edition d placement) s edits with
  | mk t' result =>
    cases result with
    | error v => simp [Except.map]
    | ok =>
      have hchanged : t'.hasPending = !edits.isEmpty := by
        cases edits with
        | nil =>
          cases hrun
          simp [hasPending, hpending]
        | cons e edits =>
          simpa [hasPending] using runEach_changes (List.cons_ne_nil e edits) hrun
      simp only [Except.map, hchanged, Prod.mk.injEq, Except.ok.injEq, and_true, eq_comm]

/-- A list of edits fails with the first edit that cannot be applied. It leaves the schema that the
    edits before this one made, and each of them leaves a changed source. So the schema is as it was
    exactly if the first edit of all is the one that fails. -/
theorem apply_eq_error_iff (hpending : s.changed = []) :
    s.apply edition d edits placement = (t, .error v) ↔
      ∃ before e after, edits = before ++ e :: after ∧
        s.apply edition d before placement = (t, .ok (!before.isEmpty)) ∧
        applyEdit edition d placement t e = .error v ∧ (t = s ↔ before = []) := by
  have hrun : s.apply edition d edits placement = (t, .error v) ↔
      runEach (applyEdit edition d placement) s edits = (t, .error v) := by
    rw [apply_eq hpending]
    cases runEach (applyEdit edition d placement) s edits with
    | mk t' result => cases result <;> simp [Except.map]
  rw [hrun, runEach_eq_error_iff]
  constructor
  · rintro ⟨before, e, after, heq, hbefore, he⟩
    refine ⟨before, e, after, heq, (apply_eq_ok_iff hpending).2 ⟨hbefore, rfl⟩, he, ?_, ?_⟩
    -- An edit that succeeds leaves a changed source, and `s` has none.
    · rintro rfl
      by_contra hne
      exact runEach_changes hne hbefore hpending
    · rintro rfl
      cases hbefore
      rfl
  · rintro ⟨before, e, after, heq, hbefore, he, -⟩
    exact ⟨before, e, after, heq, ((apply_eq_ok_iff hpending).1 hbefore).1, he⟩

/-- The second edit fails. -/
theorem apply_eq_error_iff_second_edit :
    let s := (empty.load 0 "f.sql" "CREATE TABLE a (x);").1
    let d := (empty.load 1 "d.sql" "CREATE TABLE a (x INT);").1
    let edits := s.objects.flatMap fun old => d.objects.flatMap fun new =>
      [Edit.modify old new, .add new]
    s.changed = [] ∧ ∃ t before e after,
      s.apply 2 d edits (fun _ => "f.sql") = (t, .error (.duplicateObject ⟨.table, "a"⟩)) ∧
      edits = before ++ e :: after ∧
      s.apply 2 d before (fun _ => "f.sql") = (t, .ok (!before.isEmpty)) ∧
      applyEdit 2 d (fun _ => "f.sql") t e = .error (.duplicateObject ⟨.table, "a"⟩) ∧
      (t = s ↔ before = []) := by
  intro s d edits
  have hpending : s.changed = [] := by decide +kernel
  have heq : s.apply 2 d edits (fun _ => "f.sql") =
      ((s.apply 2 d edits fun _ => "f.sql").1, .error (.duplicateObject ⟨.table, "a"⟩)) :=
    Prod.ext rfl (by decide +kernel)
  obtain ⟨before, e, after, h⟩ := (apply_eq_error_iff hpending).1 heq
  exact ⟨hpending, _, before, e, after, heq, h⟩

/-- Edits that fail may leave another schema than the one they were applied to. -/
theorem apply_partial :
    ¬∀ (s d : Schema) (edition : Nat) (edits : List Edit) (placement : SchemaObject → String)
      (v : Violation), s.WellFormed → d.WellFormed → s.changed = [] →
      (s.apply edition d edits placement).2 = .error v →
      (s.apply edition d edits placement).1 = s := by
  intro h
  let s := (empty.load 0 "f.sql" "CREATE TABLE a (x);").1
  let d := (empty.load 1 "d.sql" "CREATE TABLE a (x INT);").1
  let edits := s.objects.flatMap fun old => d.objects.flatMap fun new =>
    [Edit.modify old new, .add new]
  have hsame : (s.apply 2 d edits fun _ => "f.sql").1 = s :=
    h s d 2 edits _ (.duplicateObject ⟨.table, "a"⟩) (wellFormed_load _ _ _) (wellFormed_load _ _ _)
      (by decide +kernel) (by decide +kernel)
  have hchanged : (s.apply 2 d edits fun _ => "f.sql").1.changed = ["f.sql"] := by decide +kernel
  rw [hsame] at hchanged
  exact absurd hchanged (by decide +kernel)

end Schema

end SchemaAlign
