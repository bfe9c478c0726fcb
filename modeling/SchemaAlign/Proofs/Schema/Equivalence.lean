import SchemaAlign.Proofs.Schema.Convergence
import SchemaAlign.Proofs.Token.Meaning

/-!
# Being in sync is an equivalence

A schema gives a meaning to each key that it holds: what the comparison sees of the definition.
Which edits lead from one schema to another depends on these meanings alone.

* `Schema.meaning?`: the meaning of a key;
* `inSync_iff`: schemas are in sync if they give the same meaning to each key;
* `mem_edits_iff`: which edits there are, by the meanings of their keys;
* `diff_equivalence`: being in sync is an equivalence, and schemas in sync need the same edits.
-/

namespace SchemaAlign

open Text
open SchemaAlign.Token (meanings substance sameDefinition_eq sameMeaning_iff sameWord sameWord_iff
  tokenize)

namespace Schema

variable {s d d' a b c : Schema} {key : ObjectKey} {tag : String} {e : Edit}

/-- What the comparison sees of the definition of the object of a key. -/
def meaning? (s : Schema) (key : ObjectKey) : Option (List (TokenKind × String)) :=
  (s.get? key).map fun o => meanings (substance (s.definitionTokens o))

theorem sameDefinition_iff {left right : List Token} :
    Token.sameDefinition left right = true ↔
      meanings (substance left) = meanings (substance right) := by
  rw [sameDefinition_eq, sameMeaning_iff]

/-- Schemas are in sync if they give the same meaning to each key. -/
theorem inSync_iff : s.InSync d ↔ ∀ key, s.meaning? key = d.meaning? key := by
  refine forall_congr' fun key => ?_
  unfold meaning?
  cases s.get? key <;> cases d.get? key <;> simp [sameDefinition_iff]

theorem diff_eq_nil_iff (hs : s.Consistent) (hd : d.Consistent) :
    s.diff d = .ok [] ↔ ∀ key, s.meaning? key = d.meaning? key := by
  rw [hs.diff hd, Except.ok.injEq, edits_eq_nil_iff hs hd, inSync_iff]

/-! ## Edits by meanings -/

/-- The change from one meaning of a key to another, if there is one. -/
def change : Option (List (TokenKind × String)) → Option (List (TokenKind × String)) → Option String
  | none, none => none
  | none, some _ => some "add"
  | some _, none => some "remove"
  | some m, some m' => if m = m' then none else some "modify"

theorem change_of_mem (hs : s.Consistent) (hd : d.Consistent) (he : e ∈ s.edits d) :
    change (s.meaning? e.target) (d.meaning? e.target) = some e.tag := by
  unfold meaning?
  obtain h | h := List.mem_append.1 he
  · obtain ⟨new, hnew, h⟩ := List.mem_filterMap.1 h
    rw [target_of_editFor h, hd.get?_key hnew]
    unfold editFor at h
    split at h
    · next hnone =>
      cases h
      rw [hnone]
      rfl
    · next old hold =>
      rw [hold]
      split at h
      · cases h
      · next hdiffers =>
        cases h
        exact if_neg (mt sameDefinition_iff.2 hdiffers)
  · obtain ⟨old, hold, hcontains, rfl⟩ := mem_removals.1 h
    rw [Edit.target, hs.get?_key hold, get?_eq_none_iff.2 hcontains]
    rfl

theorem exists_mem_of_change (h : change (s.meaning? key) (d.meaning? key) = some tag) :
    ∃ e ∈ s.edits d, e.tag = tag ∧ e.target = key := by
  unfold meaning? at h
  have hedit {new : SchemaObject} {e : Edit} (hnew : d.get? key = some new)
      (he : s.editFor d new = some e) : e ∈ s.edits d :=
    List.mem_append_left _ (List.mem_filterMap.2 ⟨new, (get?_eq_some hnew).1, he⟩)
  -- What the meaning changes from and to tells which edit it is.
  cases hold : s.get? key with
  | none =>
    cases hnew : d.get? key with
    | none => rw [hold, hnew] at h; cases h
    | some new =>
      rw [hold, hnew] at h
      cases h
      obtain ⟨-, rfl⟩ := get?_eq_some hnew
      exact ⟨.add new, hedit hnew (by rw [editFor, hold]), rfl, rfl⟩
  | some old =>
    obtain ⟨hmem, rfl⟩ := get?_eq_some hold
    cases hnew : d.get? old.key with
    | none =>
      rw [hold, hnew] at h
      cases h
      exact ⟨.remove old, List.mem_append_right _
        (mem_removals.2 ⟨old, hmem, get?_eq_none_iff.1 hnew, rfl⟩), rfl, rfl⟩
    | some new =>
      rw [hold, hnew, Option.map_some, Option.map_some, change] at h
      split at h
      · cases h
      · next hdiffers =>
        cases h
        obtain ⟨-, hkey⟩ := get?_eq_some hnew
        refine ⟨.modify old new, hedit hnew ?_, rfl, hkey⟩
        rw [editFor, hkey, hold]
        exact if_neg (mt sameDefinition_iff.1 hdiffers)

/-- There is an edit for a key exactly if its meaning changes. -/
theorem mem_edits_iff (hs : s.Consistent) (hd : d.Consistent) :
    (tag, key) ∈ (s.edits d).map (fun e => (e.tag, e.target)) ↔
      change (s.meaning? key) (d.meaning? key) = some tag := by
  rw [List.mem_map]
  constructor
  · rintro ⟨e, he, heq⟩
    obtain ⟨rfl, rfl⟩ := Prod.mk.inj heq
    exact change_of_mem hs hd he
  · intro h
    obtain ⟨e, he, rfl, rfl⟩ := exists_mem_of_change h
    exact ⟨e, he, rfl⟩

/-- That no edit leads from one schema to another is reflexive, symmetric and transitive. Schemas
    in this relation need the same edits, by their kinds and their keys, from any other schema. All
    this holds since words are compared by their upper case: for words of ASCII, the short way
    gives the same answer. -/
theorem diff_equivalence (ha : a.WellFormed) (hb : b.WellFormed) (hc : c.WellFormed) :
    a.diff a = .ok [] ∧
    (a.diff b = .ok [] → b.diff a = .ok []) ∧
    (a.diff b = .ok [] → b.diff c = .ok [] → a.diff c = .ok []) ∧
    (b.diff c = .ok [] → ∃ edits edits', a.diff b = .ok edits ∧ a.diff c = .ok edits' ∧
      ∀ tag key, (tag, key) ∈ edits.map (fun e => (e.tag, e.target)) ↔
        (tag, key) ∈ edits'.map fun e => (e.tag, e.target)) ∧
    ∀ v w, sameWord v w = (upper v == upper w) := by
  have ha := ha.consistent
  have hb := hb.consistent
  have hc := hc.consistent
  rw [diff_eq_nil_iff ha ha, diff_eq_nil_iff ha hb, diff_eq_nil_iff hb ha, diff_eq_nil_iff hb hc,
    diff_eq_nil_iff ha hc]
  refine ⟨fun _ => rfl, fun hab key => (hab key).symm, fun hab hbc key => (hab key).trans (hbc key),
    fun hbc => ⟨_, _, ha.diff hb, ha.diff hc, fun tag key => ?_⟩, fun v w => ?_⟩
  · rw [mem_edits_iff ha hb, mem_edits_iff ha hc, hbc]
  · rw [Bool.eq_iff_iff, sameWord_iff, beq_iff_eq]

/-- Three spellings of one word: the first two are not compared by the short way, nor are the last
    two. -/
theorem diff_equivalence_three_spellings :
    let a := (empty.load 0 "a" "CREATE VIEW v AS straße").1
    let b := (empty.load 0 "b" "CREATE VIEW v AS STRASSE;").1
    let c := (empty.load 0 "c" "create view v as ſtrasse;").1
    let d := (empty.load 0 "d" "CREATE VIEW v AS x;CREATE INDEX i ON t").1
    (a.diff b = .ok [] ∧ b.diff c = .ok []) ∧ b.diff a = .ok [] ∧ a.diff c = .ok [] ∧
      ∃ edits edits', d.diff b = .ok edits ∧ d.diff c = .ok edits' ∧
        edits.map (·.tag) = ["modify", "remove"] ∧
        ∀ tag key, (tag, key) ∈ edits.map (fun e => (e.tag, e.target)) ↔
          (tag, key) ∈ edits'.map fun e => (e.tag, e.target) := by
  intro a b c d
  have ha : a.WellFormed := wellFormed_load _ _ _
  have hb : b.WellFormed := wellFormed_load _ _ _
  have hc : c.WellFormed := wellFormed_load _ _ _
  have hd : d.WellFormed := wellFormed_load _ _ _
  have hab : a.diff b = .ok [] := by decide +kernel
  have hbc : b.diff c = .ok [] := by decide +kernel
  obtain ⟨-, hsymm, htrans, -⟩ := diff_equivalence ha hb hc
  obtain ⟨-, -, -, hcongr, -⟩ := diff_equivalence hd hb hc
  obtain ⟨edits, edits', hedits, hedits', hsame⟩ := hcongr hbc
  have htags : (d.diff b).toOption.map (fun edits => edits.map (·.tag)) =
      some ["modify", "remove"] := by decide +kernel
  rw [hedits] at htags
  exact ⟨⟨hab, hbc⟩, hsymm hab, htrans hab hbc, edits, edits', hedits, hedits',
    Option.some.inj htags, hsame⟩

end Schema

end SchemaAlign
