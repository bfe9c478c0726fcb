import SchemaAlign.Proofs.Schema.Convergence

/-!
# What an update writes

* `textAfter`: the text that a token has after some edits;
* `added`: the objects that an update adds to a source;
* `update_rewrites`: the text of each source after an update.
-/

namespace SchemaAlign

namespace Schema

variable {s t d : Schema} {edits : List Edit} {e e' : Edit} {placement : SchemaObject → String}
  {id : String} {i : Nat}

/-- The text that a token has after some edits. The first token of a definition that is modified
    gets the new text; all others of it, and those of a definition that is removed, get none. -/
def textAfter (d : Schema) (edits : List Edit) (id : String) (i : Nat) (t : Token) : String :=
  match edits.find? (·.covers id i) with
  | some (.modify old new) => if i = old.span.start then d.definition new else ""
  | some _ => ""
  | none => t.text

/-- The objects of `d` that an update adds to the given source. -/
def added (s d : Schema) (placement : SchemaObject → String) (id : String) : List SchemaObject :=
  d.objects.filter fun o => !s.contains o.key && placement o == id

/-! ## Tokens in place -/

theorem exists_of_covers (h : e.Fits s d) (hcovers : e.covers id i = true) :
    ∃ o ∈ s.objects, e.target = o.key ∧ o.source = id ∧ o.span.start ≤ i ∧ i < o.span.stop := by
  cases h with
  | add => cases hcovers
  | modify hold _ hkey =>
    simp only [Edit.covers, Bool.and_eq_true, beq_iff_eq, decide_eq_true_eq] at hcovers
    exact ⟨_, hold, hkey.symm, hcovers.1.1, hcovers.1.2, hcovers.2⟩
  | remove hold =>
    simp only [Edit.covers, Bool.and_eq_true, beq_iff_eq, decide_eq_true_eq] at hcovers
    exact ⟨_, hold, rfl, hcovers.1.1, hcovers.1.2, hcovers.2⟩

/-- No token belongs to two objects, so no two edits are about it. -/
theorem covers_unique (hs : s.Consistent) (he : e.Fits s d) (he' : e'.Fits s d)
    (htarget : e.target ≠ e'.target) (h : e.covers id i = true) : e'.covers id i = false := by
  rw [Bool.eq_false_iff]
  intro h'
  obtain ⟨o, ho, hkey, hid, hle, hlt⟩ := exists_of_covers he h
  obtain ⟨o', ho', hkey', hid', hle', hlt'⟩ := exists_of_covers he' h'
  rw [hkey, hkey'] at htarget
  rcases hs.apart o ho o' ho' htarget (hid.trans hid'.symm) with hapart | hapart <;> omega

theorem text_slots
    (h : edits.Pairwise fun e e' => e.covers id i = true → e'.covers id i = false) (t : Token) :
    (slots d id edits i t).text = textAfter d edits id i t := by
  induction edits with
  | nil => rfl
  | cons e edits ih =>
    obtain ⟨hunique, hedits⟩ := List.pairwise_cons.1 h
    by_cases he : e.covers id i = true
    · have hslots : slots d id (e :: edits) i t = { t with text := e.newText d i } := by
        rw [slots, List.foldl_cons, Edit.slot, if_pos he]
        exact slots_of_not_covers (fun e' he' => hunique e' he' he) _
      have hfind : (e :: edits).find? (·.covers id i) = some e := List.find?_cons_of_pos he
      rw [hslots, textAfter, hfind]
      cases e <;> rfl
    · have hslots : slots d id (e :: edits) i t = slots d id edits i t := by
        rw [slots, List.foldl_cons, Edit.slot, if_neg he]
        rfl
      have hfind : (e :: edits).find? (·.covers id i) = edits.find? (·.covers id i) :=
        List.find?_cons_of_neg he
      rw [hslots, ih hedits, textAfter, textAfter, hfind]

theorem text_slots_edits (hs : s.Consistent) (hd : d.Consistent) (id : String) (i : Nat)
    (t : Token) : (slots d id (s.edits d) i t).text = textAfter d (s.edits d) id i t := by
  refine text_slots ((List.pairwise_map.1 (nodup_targets hs hd)).imp_of_mem ?_) t
  exact fun he he' htarget => covers_unique hs (fits_of_mem_edits he) (fits_of_mem_edits he') htarget

theorem texts_slots_edits (hs : s.Consistent) (hd : d.Consistent) (id : String)
    (tokens : List Token) : (tokens.mapIdx (slots d id (s.edits d))).map (·.text) =
      tokens.mapIdx (textAfter d (s.edits d) id) := by
  refine List.ext_getElem (by simp) fun i hi hi' => ?_
  simp only [List.getElem_map, List.getElem_mapIdx, text_slots_edits hs hd]

/-! ## Definitions at the end -/

/-- What is added to a source goes there in the order of `d`. -/
theorem additions_edits (s d : Schema) (placement : SchemaObject → String) (id : String) :
    additions d placement id (s.edits d) = (s.added d placement id).map d.definitionTokens := by
  have hremovals : (s.removals d).filterMap (·.appended d placement id) = [] := by
    rw [List.filterMap_eq_nil_iff]
    intro e he
    obtain ⟨old, -, -, rfl⟩ := mem_removals.1 he
    rfl
  rw [additions, edits, List.filterMap_append, hremovals, List.append_nil, List.filterMap_filterMap,
    added]
  -- Only an edit for an object that is not there adds something.
  induction d.objects with
  | nil => rfl
  | cons new objects ih =>
    rw [List.filterMap_cons, List.filter_cons, ih]
    cases hget : s.get? new.key with
    | none =>
      rw [← get?_isSome, hget]
      by_cases hid : placement new = id <;> simp [editFor, hget, Edit.appended, hid]
    | some old =>
      rw [← get?_isSome, hget]
      have : (s.editFor d new).bind (·.appended d placement id) = none := by
        simp only [editFor, hget]
        by_cases h : Token.sameDefinition (s.definitionTokens old) (d.definitionTokens new) = true
        · rw [if_pos h]
          rfl
        · rw [if_neg h]
          rfl
      simp [this]

theorem render_eq_join (tokens : List Token) :
    Token.render tokens = String.join (tokens.map (·.text)) := by
  refine String.toList_injective ?_
  rw [Token.toList_render, String.toList_join, List.flatMap_map]
  rfl

theorem render_append (ts us : List Token) :
    Token.render (ts ++ us) = Token.render ts ++ Token.render us := by
  simp [render_eq_join]

theorem render_separator (definition : List Token) :
    Token.render (Token.separator :: definition) = "\n\n" ++ Token.render definition := by
  rw [← List.singleton_append, render_append]
  rfl

theorem render_separated (definitions : List (List Token)) : Token.render (separated definitions) =
    String.join (definitions.map fun definition => "\n\n" ++ Token.render definition) := by
  induction definitions with
  | nil => rfl
  | cons definition definitions ih =>
    rw [separated, List.flatMap_cons, render_append, ← separated, ih, List.map_cons,
      String.join_cons, render_separator]

/-- Definitions with an empty line before all but the first one. -/
theorem render_intercalate (definition : List Token) (definitions : List (List Token)) :
    Token.render (definition ++ separated definitions) =
      "\n\n".intercalate ((definition :: definitions).map Token.render) := by
  induction definitions generalizing definition with
  | nil => simp [separated]
  | cons definition' definitions ih =>
    rw [List.map_cons, List.map_cons, String.intercalate_cons_cons, ← List.map_cons, ← ih,
      render_append, separated, List.flatMap_cons, ← separated]
    rw [List.cons_append, render_separator, String.append_assoc]

/-! ## The text of a source -/

theorem render?_eq (t : Schema) (id : String) : t.render? id = (t.tokens? id).map Token.render := by
  rw [render?, tokens?, Option.map_map]
  rfl

/-- What an update writes. A source that was there keeps the texts of its tokens, but those of
    definitions that are modified or removed; after these come the definitions that are added, each
    after an empty line. A source that was not there holds the definitions that are added to it. The
    sources that edits touch count as changed, in the order in which they are touched first. -/
theorem update_rewrites (hs : s.WellFormed) (hd : d.WellFormed) (hpending : s.changed = [])
    (edition : Nat) (placement : SchemaObject → String) :
    ∃ edits t, s.diff d = .ok edits ∧ s.update edition d placement = (t, .ok (!edits.isEmpty)) ∧
      t.changed = (edits.map (·.touched placement)).eraseDups ∧
      (∀ id source, s.source? id = some source → t.render? id =
        some (String.join (source.tokens.mapIdx (textAfter d edits id)) ++
          String.join ((s.added d placement id).map fun o => "\n\n" ++ d.definition o))) ∧
      (∀ id, s.source? id = none → t.render? id =
        if s.added d placement id = [] then none
        else some ("\n\n".intercalate ((s.added d placement id).map d.definition))) := by
  have hs := hs.consistent
  have hd := hd.consistent
  obtain ⟨t, hupdate, h⟩ := hs.update hd hpending edition placement
  refine ⟨s.edits d, t, hs.diff hd, hupdate, ?_, fun id source hsource => ?_, fun id hid => ?_⟩
  · rw [h.changed, hpending, foldl_mark_nil]
  · rw [render?_eq, h.old id source hsource, Option.map_some, render_append, render_separated,
      additions_edits, render_eq_join, List.map_map, texts_slots_edits hs hd]
    rfl
  · rw [render?_eq, h.new id hid, additions_edits]
    cases s.added d placement id with
    | nil => rfl
    | cons o objects =>
      rw [List.map_cons, if_neg nofun]
      simp only [Option.map_some, render_intercalate, List.map_cons, List.map_map]
      rfl

/-- One definition is replaced, one goes away, and one is added. -/
theorem update_rewrites_three_edits :
    let s := (empty.load 0 "a" "CREATE VIEW v AS 1;-- w\nCREATE VIEW w AS 2").1
    let d := (empty.load 0 "b" "CREATE VIEW v AS 3;CREATE INDEX i ON t").1
    ∃ t, s.update 1 d (fun _ => "a") = (t, .ok true) ∧ t.changed = ["a"] ∧
      t.render? "a" = some "CREATE VIEW v AS 3;-- w\n\n\nCREATE INDEX i ON t" := by
  intro s d
  have hs : s.WellFormed := wellFormed_load _ _ _
  have hd : d.WellFormed := wellFormed_load _ _ _
  obtain ⟨edits, t, hdiff, hupdate, hchanged, hold, -⟩ :=
    update_rewrites hs hd (by decide +kernel) 1 fun _ => "a"
  obtain rfl : s.edits d = edits :=
    Except.ok.inj ((hs.consistent.diff hd.consistent).symm.trans hdiff)
  have htouched : (s.edits d).map (·.touched fun _ => "a") = ["a", "a", "a"] := by decide +kernel
  have htext : (s.source? "a").map (fun source =>
      String.join (source.tokens.mapIdx (textAfter d (s.edits d) "a")) ++
        String.join ((s.added d (fun _ => "a") "a").map fun o => "\n\n" ++ d.definition o)) =
      some "CREATE VIEW v AS 3;-- w\n\n\nCREATE INDEX i ON t" := by decide +kernel
  refine ⟨t, ?_, ?_, ?_⟩
  · rw [hupdate]
    cases hedits : s.edits d with
    | nil => rw [hedits] at htouched; cases htouched
    | cons => rfl
  · rw [hchanged, htouched]
    decide
  · obtain ⟨source, hsource, htext⟩ := Option.map_eq_some_iff.1 htext
    rw [hold "a" source hsource, htext]

end Schema

end SchemaAlign
