import SchemaAlign.Case.Run
import SchemaAlign.Proofs.Schema.Load

/-!
# Cases that pass

A case that passes has written a file that needs no further edits. So the case that expects of this
file that nothing changes passes as well.

* `Case.rewritten`: what the run of a case writes;
* `Case.settled`: the case that expects no change of what was written;
* `runOffline_eq_passed_iff`: when a case passes;
* `runOffline_settled`: a case that passes is a fixed point.
-/

namespace SchemaAlign

variable {s d : Schema} {edition : Nat} {id text : String} {c : Case} {changed : Bool}

/-! ## Successful steps -/

section

variable {ε ε' α β : Type} {x : Except ε α}

theorem bind_eq_ok_iff {f : α → Except ε β} {b : β} :
    x >>= f = .ok b ↔ ∃ a, x = .ok a ∧ f a = .ok b := by
  cases x <;> simp [bind, Except.bind]

theorem mapError_eq_ok_iff {f : ε → ε'} {a : α} : x.mapError f = .ok a ↔ x = .ok a := by
  cases x <;> simp [Except.mapError]

theorem throw_ne_ok {e : ε} {a : α} : (throw e : Except ε α) ≠ .ok a :=
  nofun

end

/-! ## Files that are read -/

/-- A schema that is read from a text is consistent, and writing it gives the text back. -/
theorem Schema.consistent_of_ofText (h : Schema.ofText edition id text = .ok s) :
    s.Consistent ∧ s.changed = [] ∧ s.render? id = some text := by
  unfold Schema.ofText at h
  split at h <;> cases h
  next n hload =>
    obtain ⟨p, hread, hextended⟩ := extended_of_load consistent_empty hload rfl
    obtain ⟨_, -, rfl⟩ := ParsedSource.ofText_eq_ok hread
    refine ⟨hextended.consistent, hextended.changed, ?_⟩
    rw [render?, hextended.source? rfl, if_pos rfl]
    exact congrArg some (Token.render_tokenize text)

namespace Case

/-! ## What a run checks -/

theorem checkSettled_eq_ok_iff : checkSettled text d = .ok () ↔
    ∃ s, Schema.ofText 0 currentSource text = .ok s ∧ s.diff d = .ok [] := by
  simp only [checkSettled, bind_eq_ok_iff, mapError_eq_ok_iff]
  refine exists_congr fun s => and_congr_right fun _ => ?_
  constructor
  · rintro ⟨edits, hdiff, hunless⟩
    cases edits with
    | nil => exact hdiff
    | cons => cases hunless
  · exact fun hdiff => ⟨[], hdiff, rfl⟩

theorem check_eq_ok_iff : c.check d = .ok () ↔
    ∃ text changed, c.reconcile d = .ok (text, changed) ∧ (∀ b ∈ c.changed, b = changed) ∧
      (∀ t ∈ c.expected, t = text) ∧ checkSettled text d = .ok () := by
  simp only [check, bind_eq_ok_iff, mapError_eq_ok_iff, Prod.exists]
  refine exists_congr fun text => exists_congr fun changed => and_congr_right fun _ => ?_
  cases c.changed with
  | none =>
    cases c.expected with
    | none => simp
    | some t => by_cases ht : t = text <;> simp [ht, bind_eq_ok_iff, throw_ne_ok]
  | some b =>
    by_cases hb : b = changed
    · cases c.expected with
      | none => simp [hb]
      | some t => by_cases ht : t = text <;> simp [hb, ht, bind_eq_ok_iff, throw_ne_ok]
    · simp [hb, bind_eq_ok_iff, throw_ne_ok]

theorem runOffline_eq_passed_iff (herror : c.error = none) : c.runOffline = .passed ↔
    ∃ d, Schema.ofText 0 desiredSource c.desired = .ok d ∧ c.check d = .ok () := by
  have houtcome (run : Except CaseFailure Unit) : outcome run = .passed ↔ run = .ok () := by
    cases run <;> simp [outcome]
  simp only [runOffline, judge, herror, houtcome, bind_eq_ok_iff, mapError_eq_ok_iff]

/-! ## A second run -/

/-- What the run of a case writes to the file, and whether this is a change. -/
def rewritten (c : Case) : Except Error (String × Bool) := do
  let desired ← Schema.ofText 0 desiredSource c.desired
  c.reconcile desired

/-- The case that expects of a file with the given text that nothing changes. -/
def settled (c : Case) (text : String) : Case :=
  { c with current := text, expected := some text, changed := some false }

theorem rewritten_eq_ok_iff : c.rewritten = .ok (text, changed) ↔
    ∃ d, Schema.ofText 0 desiredSource c.desired = .ok d ∧ c.reconcile d = .ok (text, changed) :=
  bind_eq_ok_iff

/-- A file that needs no further edits is written as it is. -/
theorem reconcile_settled (hd : d.Consistent) (h : checkSettled text d = .ok ()) :
    (c.settled text).reconcile d = .ok (text, false) := by
  obtain ⟨s, hread, hdiff⟩ := checkSettled_eq_ok_iff.1 h
  obtain ⟨hs, hpending, hrender⟩ := Schema.consistent_of_ofText hread
  have hsync : s.InSync d := by
    rw [hs.diff hd, Except.ok.injEq] at hdiff
    exact (Schema.edits_eq_nil_iff hs hd).1 hdiff
  refine bind_eq_ok_iff.2 ⟨s, hread, ?_⟩
  simp only [Schema.update_of_inSync hs hd hsync hpending, hrender]
  rfl

/-- A case that passes is a fixed point: with the file that its run writes, and with the expectation
    that this file does not change, the case passes again, and its run writes the same text. -/
theorem runOffline_settled (herror : c.error = none) (h : c.runOffline = .passed) :
    ∃ text changed, c.rewritten = .ok (text, changed) ∧
      (c.settled text).rewritten = .ok (text, false) ∧ (c.settled text).runOffline = .passed := by
  obtain ⟨d, hdesired, hcheck⟩ := (runOffline_eq_passed_iff herror).1 h
  obtain ⟨text, changed, hreconcile, -, -, hsettled⟩ := check_eq_ok_iff.1 hcheck
  -- The check at the end of the run has read the file and found nothing to do.
  have hd := (Schema.consistent_of_ofText hdesired).1
  have hagain : (c.settled text).reconcile d = .ok (text, false) := reconcile_settled hd hsettled
  have hcheck : (c.settled text).check d = .ok () := by
    refine check_eq_ok_iff.2 ⟨text, false, hagain, ?_, ?_, hsettled⟩
    · rintro _ ⟨⟩
      rfl
    · rintro _ ⟨⟩
      rfl
  have herror : (c.settled text).error = none := herror
  exact ⟨text, changed, rewritten_eq_ok_iff.2 ⟨d, hdesired, hreconcile⟩,
    rewritten_eq_ok_iff.2 ⟨d, hdesired, hagain⟩,
    (runOffline_eq_passed_iff herror).2 ⟨d, hdesired, hcheck⟩⟩

/-- A file with one definition too many and one that is out of date. -/
theorem runOffline_settled_modify_remove :
    let c : Case :=
      { current := "CREATE VIEW v AS 1; -- v\nCREATE VIEW w AS 2"
        desired := "CREATE VIEW v AS 3;"
        changed := some true }
    c.runOffline = .passed ∧ c.rewritten = .ok ("CREATE VIEW v AS 3; -- v\n", true) ∧
      (c.settled "CREATE VIEW v AS 3; -- v\n").rewritten =
        .ok ("CREATE VIEW v AS 3; -- v\n", false) ∧
      (c.settled "CREATE VIEW v AS 3; -- v\n").runOffline = .passed := by
  intro c
  have hpassed : c.runOffline = .passed := by decide +kernel
  have hwritten : c.rewritten = .ok ("CREATE VIEW v AS 3; -- v\n", true) := by decide +kernel
  obtain ⟨text, changed, hrewritten, hagain⟩ := runOffline_settled rfl hpassed
  cases hwritten.symm.trans hrewritten
  exact ⟨hpassed, hwritten, hagain⟩

end Case

end SchemaAlign
