import SchemaAlign.Proofs.Schema.Convergence
import SchemaAlign.Proofs.Schema.Loaded

/-!
# Memory and disk agree

A schema is updated again and again in memory. Loaded from the texts of its sources, it is the same.

* `loadEach`: loading texts one after the other;
* `Turn`, `updateEach`: updates one after the other, the changes taken after each;
* `reload_agrees`: a schema loaded from what such a run writes holds what the run holds.
-/

namespace SchemaAlign

open SchemaAlign.Token (EndsInComment)

/-- One update: the schema to bring in line with, where its new objects go, and the edition of the
    sources that begin with one. -/
structure Turn where
  edition : Nat
  desired : Schema
  placement : SchemaObject → String

namespace Schema

variable {s t d : Schema} {first : Nat} {texts : List (String × String)} {turns : List Turn}

/-- Loads texts one after the other, each given with the name of its source. The readings are
    numbered from `first` on. -/
def loadEach (s : Schema) (first : Nat) : List (String × String) → Except Error Schema
  | [] => .ok s
  | (id, text) :: texts =>
    match s.load first id text with
    | (s, .ok _) => s.loadEach (first + 1) texts
    | (_, .error e) => .error e

/-- Brings the schema in line with another one, and takes the changes. -/
def take (s : Schema) (turn : Turn) : Except Violation Schema :=
  match s.update turn.edition turn.desired turn.placement with
  | (s, .ok _) => .ok s.takeChanged.2
  | (_, .error e) => .error e

/-- Takes turns one after the other. -/
def updateEach (s : Schema) (turns : List Turn) : Schema × Except Violation Unit :=
  runEach take s turns

/-! ## Texts that are loaded -/

/-- Each source that is there was read before. -/
def ReadBefore (s : Schema) (first : Nat) : Prop :=
  ∀ source ∈ s.sources, source.edition < first

/-- What loading each text preserves holds in the end. -/
theorem loadEach_preserves {P : Schema → Prop} (hs : s.Consistent) (hfirst : s.ReadBefore first)
    (hP : P s) (hload : s.loadEach first texts = .ok t)
    (hstep : ∀ s t p edition, ∀ x ∈ texts, s.Consistent → s.source? x.1 = none →
      ParsedSource.ofText edition x.1 x.2 = .ok p → s.Extended p t → P s → P t) :
    t.Consistent ∧ t.changed = s.changed ∧ P t := by
  induction texts generalizing s first with
  | nil =>
    cases hload
    exact ⟨hs, rfl, hP⟩
  | cons x texts ih =>
    obtain ⟨id, text⟩ := x
    rw [loadEach] at hload
    split at hload
    · next s₁ n hs₁ =>
      -- A second reading of a source has another number than the first one.
      have hid : s.source? id = none := by
        obtain ⟨p, -, rfl, hedition, hadd⟩ := addSource_of_load hs₁
        refine source?_of_addSource hadd fun source hsource => ?_
        have := hfirst source (source?_eq_some hsource).1
        omega
      obtain ⟨p, hread, hextended⟩ := extended_of_load hs hs₁ hid
      have hfirst₁ : s₁.ReadBefore (first + 1) := by
        intro source hsource
        rw [hextended.sources] at hsource
        rcases List.mem_append.1 hsource with hsource | hsource
        · exact Nat.lt_succ_of_lt (hfirst source hsource)
        · obtain ⟨statements, -, rfl⟩ := ParsedSource.ofText_eq_ok hread
          rw [List.mem_singleton.1 hsource]
          exact Nat.lt_succ_self first
      obtain ⟨ht, hchanged, hPt⟩ := ih hextended.consistent hfirst₁
        (hstep s s₁ p first _ List.mem_cons_self hs hid hread hextended hP) hload
        fun s t p edition x hx => hstep s t p edition x (List.mem_cons_of_mem _ hx)
      exact ⟨ht, hchanged.trans hextended.changed, hPt⟩
    · cases hload

/-- A schema whose texts are made of statements with semicolons of their own. -/
structure LoadedFrom (texts : List (String × String)) (s : Schema) : Prop where
  load : ∃ first, empty.loadEach first texts = .ok s
  closed : ∀ x ∈ texts, Statement.Closed (Token.tokenize x.2)

theorem LoadedFrom.recites (h : s.LoadedFrom texts) :
    s.Consistent ∧ s.changed = [] ∧ s.Recites := by
  obtain ⟨⟨first, hload⟩, hclosed⟩ := h
  exact loadEach_preserves (P := Recites) consistent_empty nofun nofun hload
    fun s t p edition x hx hs hid hread hextended hrecites =>
      recites_of_extended hs hrecites hextended hid hread (hclosed x hx)

theorem LoadedFrom.laidOut (h : s.LoadedFrom texts)
    (hcomments : ∀ x ∈ texts, ¬ EndsInComment (Token.tokenize x.2)) : s.LaidOut := by
  obtain ⟨⟨first, hload⟩, hclosed⟩ := h
  exact (loadEach_preserves (P := LaidOut) consistent_empty nofun nofun hload
    fun s t p edition x hx hs hid hread hextended hlaidOut =>
      laidOut_of_extended hs hlaidOut hextended hid hread (hclosed x hx) (hcomments x hx)).2.2

/-! ## Updates -/

/-- One update keeps all sources laid out, and brings the schema in sync. -/
theorem take_eq_ok {turn : Turn} (hs : s.Consistent) (hpending : s.changed = [])
    (hlaidOut : s.LaidOut) (hrecites : s.Recites) (hd : turn.desired.Consistent)
    (hdesired : turn.desired.Recites) :
    ∃ t, s.take turn = .ok t ∧ t.Consistent ∧ t.changed = [] ∧ t.LaidOut ∧ t.Recites ∧
      t.InSync turn.desired := by
  obtain ⟨t, hupdate, hedited, ht⟩ : ∃ t, s.update turn.edition turn.desired turn.placement =
      (t, .ok (!(s.edits turn.desired).isEmpty)) ∧
      Edited s turn.desired turn.placement (s.edits turn.desired) t ∧ t.LaidOut :=
    hs.update_preserves hd hpending hlaidOut fun t e t' ht happlied =>
      happlied.laidOut hdesired.legible ht
  have hrecites' : t.Recites := hedited.recites hrecites fun e he new hnew =>
    hdesired new (mem_of_mem_edits he hnew)
  have hlaidOut' : t.takeChanged.2.LaidOut := fun id tokens htokens => by
    obtain ⟨ps, tail, hlayout, hquiet⟩ := ht id tokens htokens
    exact ⟨ps, tail, hlayout.congr fun _ _ => Iff.rfl, hquiet⟩
  refine ⟨t.takeChanged.2, ?_, hedited.consistent.takeChanged, rfl, hlaidOut', hrecites',
    (hedited.inSync hd).takeChanged⟩
  rw [take, hupdate]

theorem updateEach_eq_ok (hs : s.Consistent) (hpending : s.changed = []) (hlaidOut : s.LaidOut)
    (hrecites : s.Recites)
    (hturns : ∀ turn ∈ turns, turn.desired.Consistent ∧ turn.desired.Recites) :
    ∃ t, s.updateEach turns = (t, .ok ()) ∧ t.Consistent ∧ t.LaidOut ∧ t.Recites ∧
      ∀ turn, turns.getLast? = some turn → t.InSync turn.desired := by
  induction turns generalizing s with
  | nil => exact ⟨s, rfl, hs, hlaidOut, hrecites, nofun⟩
  | cons turn turns ih =>
    obtain ⟨hturn, hturns⟩ := List.forall_mem_cons.1 hturns
    obtain ⟨s₁, htake, hs₁, hpending₁, hlaidOut₁, hrecites₁, hsync⟩ :=
      take_eq_ok hs hpending hlaidOut hrecites hturn.1 hturn.2
    obtain ⟨t, hrun, ht, hlaidOut', hrecites', hlast⟩ :=
      ih hs₁ hpending₁ hlaidOut₁ hrecites₁ hturns
    refine ⟨t, by rw [updateEach, runEach, htake]; exact hrun, ht, hlaidOut', hrecites',
      fun turn' h => ?_⟩
    cases turns with
    | nil =>
      cases hrun
      cases h
      exact hsync
    | cons turn₂ turns => exact hlast turn' (by rwa [List.getLast?_cons_cons] at h)

/-! ## Loading again -/

/-- Sources with names of their own, each with a text that says what `m` holds of it, are loaded one
    after the other. -/
theorem Reloaded.loadEach {m : Schema} {ids : List String} (hm : m.Consistent)
    (h : Reloaded m ids s) (hnodup : (ids ++ texts.map (·.1)).Nodup)
    (hmirrors : ∀ x ∈ texts, m.Mirrors x.1 x.2) (first : Nat) :
    ∃ t, s.loadEach first texts = .ok t ∧ Reloaded m (ids ++ texts.map (·.1)) t := by
  induction texts generalizing s ids first with
  | nil => exact ⟨s, rfl, by simpa using h⟩
  | cons x texts ih =>
    obtain ⟨id, text⟩ := x
    obtain ⟨hx, hmirrors⟩ := List.forall_mem_cons.1 hmirrors
    have hid : id ∉ ids := by
      intro hmem
      exact (List.nodup_append.1 hnodup).2.2 id hmem id (by simp) rfl
    obtain ⟨s₁, n, hload, hs₁⟩ := h.load hm hid hx first
    rw [List.map_cons, List.append_cons] at hnodup ⊢
    obtain ⟨t, hrun, ht⟩ := ih hs₁ hnodup hmirrors (first + 1)
    exact ⟨t, by rw [Schema.loadEach, hload]; exact hrun, ht⟩

/-- The names and the texts of all sources. -/
def written (t : Schema) : List (String × String) :=
  t.sources.map fun source => (source.id, source.render)

/-- A schema that is laid out can be loaded from what is written of it, and it is the same then. -/
theorem LaidOut.reload (ht : t.Consistent) (h : t.LaidOut) (hrecites : t.Recites) (first : Nat) :
    ∃ r, empty.loadEach first t.written = .ok r ∧ r.Consistent ∧
      ∀ key, r.item? key = t.item? key := by
  have hids : t.written.map (·.1) = t.sources.map (·.id) := by rw [written, List.map_map]; rfl
  have hmirrors : ∀ x ∈ t.written, t.Mirrors x.1 x.2 := by
    intro x hx
    obtain ⟨source, hsource, rfl⟩ := List.mem_map.1 hx
    have htokens : t.tokens? source.id = some source.tokens := by
      rw [tokens?, ht.source?_id hsource]
      rfl
    exact h.mirrors ht hrecites htokens
  obtain ⟨r, hload, hr⟩ := (reloaded_empty t).loadEach ht (by rw [hids]; exact ht.sources)
    hmirrors first
  refine ⟨r, hload, hr.consistent, hr.item? ht fun o ho => ?_⟩
  obtain ⟨source, hsource, -⟩ := ht.located o ho
  obtain ⟨hmem, hid⟩ := source?_eq_some hsource
  rw [hids]
  exact List.mem_map.2 ⟨source, hmem, hid⟩

/-- Texts whose statements all end with their own semicolons, and none of which ends inside a block
    comment, are loaded, and brought in line with one schema after the other; the statements of
    these end with their own semicolons, too. Then the texts of all sources can be loaded again.
    Every object comes from the same source then, with the same definition, and no edits are left
    between this schema and the last one of those. -/
theorem reload_agrees (hs : s.LoadedFrom texts)
    (hcomments : ∀ x ∈ texts, ¬ EndsInComment (Token.tokenize x.2))
    (hturns : ∀ turn ∈ turns, ∃ texts, turn.desired.LoadedFrom texts) :
    ∃ t, s.updateEach turns = (t, .ok ()) ∧
      ∀ first, ∃ r, empty.loadEach first t.written = .ok r ∧
        (∀ key, r.item? key = t.item? key) ∧
        ∀ turn, turns.getLast? = some turn → r.diff turn.desired = .ok [] := by
  have hdesired : ∀ turn ∈ turns, turn.desired.Consistent ∧ turn.desired.Recites := by
    intro turn hturn
    obtain ⟨texts, h⟩ := hturns turn hturn
    exact ⟨h.recites.1, h.recites.2.2⟩
  obtain ⟨hs', hpending, hrecites⟩ := hs.recites
  obtain ⟨t, hrun, ht, hlaidOut, hrecites', hlast⟩ :=
    updateEach_eq_ok hs' hpending (hs.laidOut hcomments) hrecites hdesired
  refine ⟨t, hrun, fun first => ?_⟩
  obtain ⟨r, hload, hr, hentries⟩ := hlaidOut.reload ht hrecites' first
  refine ⟨r, hload, hentries, fun turn hturn => ?_⟩
  have hd := (hdesired turn (List.mem_of_getLast? hturn)).1
  rw [hr.diff hd, (edits_eq_nil_iff hr hd).2 ((hlast turn hturn).congr hentries)]

theorem loadedFrom_load {edition n : Nat} {id text : String}
    (h : (empty.load edition id text).2 = .ok n) (hclosed : Statement.Closed (Token.tokenize text)) :
    (empty.load edition id text).1.LoadedFrom [(id, text)] := by
  refine ⟨⟨edition, ?_⟩, List.forall_mem_singleton.2 hclosed⟩
  rw [loadEach]
  split
  · next hload => rw [hload]; rfl
  · next hload => rw [hload] at h; cases h

theorem not_endsInComment {tokens : List Token}
    (h : tokens.getLast?.all (·.kind != .comment) = true) : ¬ EndsInComment tokens := by
  rintro ⟨_, hlast, block, rfl, -⟩
  rw [hlast] at h
  cases h

/-- A definition changes and one goes to a new source; then the first one goes away, and the other
    one changes. -/
theorem reload_agrees_two_turns :
    let s := (empty.load 0 "a" "CREATE VIEW v AS 1;").1
    let d₁ := (empty.load 0 "d" "CREATE VIEW v AS 2;CREATE INDEX i ON t;").1
    let d₂ := (empty.load 0 "d" "CREATE INDEX i ON u;").1
    let turns := [Turn.mk 1 d₁ fun _ => "b", Turn.mk 2 d₂ fun _ => "b"]
    ∃ t, s.updateEach turns = (t, .ok ()) ∧
      ∀ first, ∃ r, empty.loadEach first t.written = .ok r ∧
        (∀ key, r.item? key = t.item? key) ∧ r.diff d₂ = .ok [] := by
  intro s d₁ d₂ turns
  have hs : s.LoadedFrom [("a", "CREATE VIEW v AS 1;")] :=
    loadedFrom_load (n := 1) (by decide +kernel) ⟨1, by decide +kernel, by decide +kernel⟩
  have h₁ : d₁.LoadedFrom [("d", "CREATE VIEW v AS 2;CREATE INDEX i ON t;")] :=
    loadedFrom_load (n := 2) (by decide +kernel) ⟨2, by decide +kernel, by decide +kernel⟩
  have h₂ : d₂.LoadedFrom [("d", "CREATE INDEX i ON u;")] :=
    loadedFrom_load (n := 1) (by decide +kernel) ⟨1, by decide +kernel, by decide +kernel⟩
  have hturns : ∀ turn ∈ turns, ∃ texts, turn.desired.LoadedFrom texts :=
    List.forall_mem_cons.2 ⟨⟨_, h₁⟩, List.forall_mem_singleton.2 ⟨_, h₂⟩⟩
  obtain ⟨t, hrun, h⟩ := reload_agrees hs
    (List.forall_mem_singleton.2 (not_endsInComment (by decide +kernel))) hturns
  refine ⟨t, hrun, fun first => ?_⟩
  obtain ⟨r, hload, hentries, hdiff⟩ := h first
  exact ⟨r, hload, hentries, hdiff (Turn.mk 2 d₂ fun _ => "b") rfl⟩

end Schema

end SchemaAlign
