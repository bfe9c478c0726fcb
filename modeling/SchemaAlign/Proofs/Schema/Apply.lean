import SchemaAlign.Proofs.Schema.Update

/-!
# Applying any edits

The objects of an edit need not be those of the two schemas: they may have been taken from another
schema, or at an earlier time. So an edit may fail, and the edits before it stay.

* `Schema.Performed`: a schema after one such edit;
* `Schema.applyPlaced`: edits that come with the sources for the objects they add;
* `applyPlaced_preserves`: what each edit preserves, a list of edits preserves.
-/

namespace SchemaAlign

/-! ## Steps that may fail -/

section

variable {σ ι κ ε : Type} {step : σ → ι → Except ε σ}

theorem runEach_map (step : σ → κ → Except ε σ) (f : ι → κ) (s : σ) (is : List ι) :
    runEach step s (is.map f) = runEach (fun s i => step s (f i)) s is := by
  induction is generalizing s with
  | nil => rfl
  | cons i is ih => simp only [List.map_cons, runEach, ih]

/-- Steps that all succeed, and more of them. -/
theorem runEach_append {s t : σ} {is js : List ι} (h : runEach step s is = (t, .ok ())) :
    runEach step s (is ++ js) = runEach step t js := by
  induction is generalizing s with
  | nil =>
    cases h
    rfl
  | cons i is ih =>
    rw [List.cons_append, runEach]
    rw [runEach] at h
    cases hstep : step s i with
    | ok s' =>
      rw [hstep] at h
      exact ih h
    | error e =>
      rw [hstep] at h
      cases h

/-- What each step preserves, all of them preserve that are taken until one fails. -/
theorem runEach_preserves {P : σ → Prop} {s : σ} {is : List ι} (hs : P s)
    (hstep : ∀ i ∈ is, ∀ s s', P s → step s i = .ok s' → P s') : P (runEach step s is).1 := by
  induction is generalizing s with
  | nil => exact hs
  | cons i is ih =>
    obtain ⟨hi, his⟩ := List.forall_mem_cons.1 hstep
    rw [runEach]
    cases h : step s i with
    | error e => exact hs
    | ok s' => exact ih (hi s s' hs h) his

end

namespace Schema

variable {s t t' d : Schema} {e : Edit} {edition : Nat} {placement : SchemaObject → String}
  {o old new : SchemaObject} {f : List Token → List Token} {target : String}
  {tokens : List Token}

/-! ## One edit -/

/-- A schema after one edit. The object that it changes is the one that the schema holds under the
    same key. -/
inductive Performed (d : Schema) (edition : Nat) (placement : SchemaObject → String) (t : Schema) :
    Edit → Schema → Prop
  | add {new o : SchemaObject} {t' : Schema} : t.contains new.key = false →
      t.Appended d edition new (placement new) o t' →
      Performed d edition placement t (.add new) t'
  | modify {old new o : SchemaObject} {t' : Schema} : o ∈ t.objects → o.key = old.key →
      t.Redefined o (Token.replaceText (d.definition new)) t' →
      Performed d edition placement t (.modify old new) t'
  | remove {old o : SchemaObject} {t' : Schema} : o ∈ t.objects → o.key = old.key →
      t.Redefined o Token.blankOut t' → Performed d edition placement t (.remove old)
        { t' with objects := t'.objects.filter (·.key != o.key) }

theorem Consistent.redefined (h : s.Consistent) (hf : ∀ tokens, (f tokens).length = tokens.length)
    (hok : s.redefine old f = .ok t) : ∃ o ∈ s.objects, o.key = old.key ∧ s.Redefined o f t := by
  cases hget : s.get? old.key with
  | none =>
    rw [Schema.redefine, hget] at hok
    cases hok
  | some o =>
    obtain ⟨ho, hkey⟩ := get?_eq_some hget
    by_cases hplace : o.source = old.source ∧ o.edition = old.edition
    · -- The object that is held stands for the given one.
      have hsame : s.redefine o f = s.redefine old f := by
        simp only [Schema.redefine, hkey, hplace.1, hplace.2]
      obtain ⟨t', hok', hr⟩ := h.redefine ho hf
      obtain rfl := Except.ok.inj (hok'.symm.trans (hsame.trans hok))
      exact ⟨o, ho, hkey, hr⟩
    · rw [Schema.redefine, hget] at hok
      simp only [if_pos (Decidable.not_and_iff_or_not.1 hplace)] at hok
      cases hok

theorem definitionTokens_of_ok (h : d.objectTokens o = .ok tokens) :
    d.definitionTokens o = tokens := by
  rw [definitionTokens, h]

/-- An object that was added has a key of its own. -/
theorem Consistent.appended (h : s.Consistent) (hlt : new.span.start < new.span.stop)
    (hok : s.appendObject edition d new target = .ok t) :
    s.contains new.key = false ∧ ∃ o, s.Appended d edition new target o t := by
  cases hkey : s.contains new.key with
  | true =>
    simp only [Schema.appendObject, hkey, if_true] at hok
    cases hok
  | false =>
    cases htokens : d.objectTokens new with
    | error v =>
      simp only [Schema.appendObject, hkey, htokens] at hok
      cases hok
    | ok tokens =>
      rw [← definitionTokens_of_ok htokens] at htokens
      obtain ⟨o, t', hok', ha⟩ := h.appendObject htokens hlt hkey edition target
      obtain rfl := Except.ok.inj (hok'.symm.trans hok)
      exact ⟨rfl, o, ha⟩

/-- What an edit does that does not fail. An object that it brings has a span that is not empty. -/
theorem Consistent.performed (ht : t.Consistent)
    (hspan : ∀ o, e.desired? = some o → o.span.start < o.span.stop)
    (hok : applyEdit edition d placement t e = .ok t') :
    Performed d edition placement t e t' := by
  cases e with
  | add new =>
    obtain ⟨hkey, o, ha⟩ := ht.appended (hspan new rfl) hok
    exact .add hkey ha
  | modify old new =>
    cases htokens : d.objectTokens new with
    | error v =>
      simp only [applyEdit, Schema.replaceObject, htokens] at hok
      split at hok <;> cases hok
    | ok tokens =>
      simp only [applyEdit, Schema.replaceObject, htokens, bind, Except.bind] at hok
      split at hok
      · cases hok
      · rw [← definitionTokens_of_ok htokens] at hok
        obtain ⟨o, ho, hkey, hr⟩ := ht.redefined (length_replaceText _) hok
        exact .modify ho hkey hr
  | remove old =>
    cases hredefine : t.redefine old Token.blankOut with
    | error v =>
      simp only [applyEdit, Schema.removeObject, hredefine] at hok
      cases hok
    | ok t₁ =>
      simp only [applyEdit, Schema.removeObject, hredefine] at hok
      cases hok
      obtain ⟨o, ho, hkey, hr⟩ := ht.redefined length_blankOut hredefine
      rw [← hkey]
      exact .remove ho hkey hr

theorem Performed.consistent (h : Performed d edition placement t e t') : t'.Consistent := by
  cases h with
  | add _ ha => exact ha.consistent
  | modify _ _ hr => exact hr.consistent
  | remove _ _ hr => exact hr.consistent.filter _

/-! ## A list of edits -/

/-- Applies edits in turn. Each comes with the source that its object goes to if it adds one, which
    need not be the same for the same object. -/
def applyPlaced (s : Schema) (edition : Nat) (d : Schema) (edits : List (Edit × String)) :
    Schema × Except Violation Bool :=
  if s.hasPending then (s, .error (.pendingChanges s.changed.length)) else
  let (s, result) := runEach (fun s x => applyEdit edition d (fun _ => x.2) s x.1) s edits
  (s, result.map fun _ => s.hasPending)

/-- Edits whose places a function gives. -/
theorem apply_eq_applyPlaced (s : Schema) (edition : Nat) (d : Schema) (edits : List Edit)
    (placement : SchemaObject → String) :
    s.apply edition d edits placement =
      s.applyPlaced edition d (edits.map fun e => (e, e.touched placement)) := by
  have hstep (s : Schema) (e : Edit) : applyEdit edition d (fun _ => e.touched placement) s e =
      applyEdit edition d placement s e := by
    cases e <;> rfl
  simp only [apply, applyPlaced, runEach_map, hstep]

/-- An update applies the edits that `diff` finds. -/
theorem Consistent.update_eq_apply (hs : s.Consistent) (hd : d.Consistent) (edition : Nat)
    (placement : SchemaObject → String) :
    s.update edition d placement = s.apply edition d (s.edits d) placement := by
  rw [Schema.update, hs.diff hd]
  by_cases hpending : s.hasPending = true
  · rw [if_pos hpending, apply, if_pos hpending]
  · rw [if_neg hpending]

/-- What an update comes to, by its run at one of the edits. -/
theorem Consistent.update_eq_of_run {done rest : List Edit} {u : Schema} (hs : s.Consistent)
    (hd : d.Consistent) (hpending : s.changed = []) (hedits : s.edits d = done ++ e :: rest)
    (hdone : runEach (applyEdit edition d placement) s done = (t, .ok ()))
    (hok : applyEdit edition d placement t e = .ok t')
    (hrest : runEach (applyEdit edition d placement) t' rest = (u, .ok ())) :
    s.update edition d placement = (u, .ok true) := by
  obtain ⟨u', hupdate, -⟩ := hs.update hd hpending edition placement
  have hfirst : (s.update edition d placement).1 = u := by
    rw [hs.update_eq_apply hd, apply_eq hpending, hedits, runEach_append hdone, runEach, hok]
    exact congrArg Prod.fst hrest
  rw [hupdate] at hfirst ⊢
  rw [show u' = u from hfirst, hedits]
  simp

/-- What the edits of an update bring has at least one token. -/
theorem Consistent.span_of_mem_edits (hd : d.Consistent) :
    ∀ x ∈ (s.edits d).map (fun e => (e, e.touched placement)), ∀ o, x.1.desired? = some o →
      o.span.start < o.span.stop := by
  intro x hx o ho
  obtain ⟨e, he, rfl⟩ := List.mem_map.1 hx
  obtain ⟨-, -, -, hlt, -⟩ := hd.located o (mem_of_mem_edits he ho)
  exact hlt

/-- What each edit preserves, a list of edits preserves, even if one of them fails. -/
theorem Consistent.applyPlaced_preserves {P : Schema → Prop} {edits : List (Edit × String)}
    (hs : s.Consistent)
    (hspan : ∀ x ∈ edits, ∀ o, x.1.desired? = some o → o.span.start < o.span.stop)
    (hP : P s)
    (hstep : ∀ x ∈ edits, ∀ t t', t.Consistent → Performed d edition (fun _ => x.2) t x.1 t' →
      P t → P t') :
    (s.applyPlaced edition d edits).1.Consistent ∧ P (s.applyPlaced edition d edits).1 := by
  unfold applyPlaced
  split
  · exact ⟨hs, hP⟩
  · refine runEach_preserves (P := fun t => t.Consistent ∧ P t) ⟨hs, hP⟩ ?_
    rintro x hx t t' ⟨ht, hPt⟩ hok
    have happlied := ht.performed (hspan x hx) hok
    exact ⟨happlied.consistent, hstep x hx t t' ht happlied hPt⟩

end Schema

end SchemaAlign
