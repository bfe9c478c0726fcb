import SchemaAlign.Proofs.Schema.WellFormed

/-!
# Updates converge

* `update_converges`: after one update nothing is left to do.
-/

namespace SchemaAlign

namespace Schema

variable {s d : Schema}

/-- A text that is read into the empty schema makes a well-formed one. -/
theorem wellFormed_load (edition : Nat) (id text : String) :
    (empty.load edition id text).1.WellFormed :=
  ⟨Readings.ofTexts [(edition, id, text)] (List.nodup_singleton _),
    .load .empty fun _ h => ⟨_, List.mem_cons_self, h⟩⟩

/-- Without changes that wait to be taken, an update succeeds, whatever placement is chosen. Then
    both schemas hold the same objects, no edit is left between them, and once the changes are taken
    another update does nothing. With changes that wait, an update fails and does nothing.

    An update asks for the place of each object at most once, so a function is as good as any other
    way to choose it. -/
theorem update_converges (hs : s.WellFormed) (hd : d.WellFormed) (edition : Nat)
    (placement : SchemaObject → String) :
    (s.changed = [] → ∃ t updated, s.update edition d placement = (t, .ok updated) ∧
      (∀ key, t.contains key = d.contains key) ∧ t.diff d = .ok [] ∧
      ∀ edition' placement', t.takeChanged.2.update edition' d placement' =
        (t.takeChanged.2, .ok false)) ∧
    (s.changed ≠ [] → s.update edition d placement =
      (s, .error (.pendingChanges s.changed.length))) := by
  refine ⟨fun hpending => ?_, update_of_pending⟩
  obtain ⟨t, hupdate, hedited⟩ := hs.consistent.update hd.consistent hpending edition placement
  have hsync : t.InSync d := hedited.inSync hd.consistent
  refine ⟨t, _, hupdate, hsync.contains, ?_, fun edition' placement' => ?_⟩
  · rw [hedited.consistent.diff hd.consistent,
      (edits_eq_nil_iff hedited.consistent hd.consistent).2 hsync]
  · exact update_of_inSync hedited.consistent.takeChanged hd.consistent hsync.takeChanged rfl

/-- An update with an object to add, one to modify and one to remove. -/
theorem update_converges_three_edits :
    let s := (empty.load 0 "a" "CREATE VIEW v AS 1;CREATE VIEW w AS 2").1
    let d := (empty.load 0 "b" "CREATE VIEW v AS 3;CREATE INDEX i ON t").1
    (s.edits d).map (·.tag) = ["modify", "add", "remove"] ∧
      ∃ t updated, s.update 1 d (fun _ => "a") = (t, .ok updated) ∧
        (∀ key, t.contains key = d.contains key) ∧ t.diff d = .ok [] ∧
        ∀ edition' placement', t.takeChanged.2.update edition' d placement' =
          (t.takeChanged.2, .ok false) :=
  ⟨by decide +kernel,
    (update_converges (wellFormed_load _ _ _) (wellFormed_load _ _ _) 1 (fun _ => "a")).1
      (by decide +kernel)⟩

end Schema

end SchemaAlign
