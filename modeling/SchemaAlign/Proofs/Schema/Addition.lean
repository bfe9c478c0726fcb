import SchemaAlign.Proofs.Schema.Load
import SchemaAlign.Proofs.Schema.Session

/-!
# Adding a source does all or nothing

The keys are checked before anything is registered, and after that check no step can fail except
the registration itself.

* `Built.session`: what comes about without lists of edits, comes about in a session;
* `Schema.Refuses`: why a source cannot be added;
* `Schema.Joined`: a schema with a source and its objects added;
* `Schema.AllOrNothing`: what an operation gives that adds a source;
* `addSource_atomic`: reading and text alike, for every schema of a session.
-/

namespace SchemaAlign

namespace Schema

variable {R : Readings} {s t : Schema} {p : ParsedSource} {edition : Nat} {id text : String}
  {rows : List CatalogRow}

/-! ## Schemas of a session -/

theorem Session.addSource (h : Session R s) (hp : R.made p) : Session R (s.addSource p).1 := by
  have hnumbered : (Operation.addSource p).Numbered R s := hp
  exact h.step hnumbered nofun nofun

/-- The rows of a catalog are sources that are added one after the other. -/
theorem Session.addRows (h : Session R s)
    (hp : ∀ row ∈ rows, ∀ p, ParsedSource.ofRow edition row = .ok p → R.made p)
    (hrows : rows.foldlM (addRow edition) s = .ok t) : Session R t := by
  refine addRows_preserves h (fun row hrow p u u' n hread hadd hu => ?_) hrows
  have hu' := hu.addSource (hp row hrow p hread)
  rwa [hadd] at hu'

theorem Built.session (h : Built R s) : Session R s := by
  induction h with
  | empty => exact .empty
  | load _ hp ih => exact ih.load hp
  | addSource _ hp ih => exact ih.addSource hp
  | ofRows hp hrows => exact Session.empty.addRows hp hrows
  | @update s d edition placement _ _ hfresh ih ihd =>
    have hnumbered : (Operation.update edition d placement).Numbered R s := hfresh
    refine ih.step hnumbered (fun d' hd' => ?_) nofun
    cases hd'
    exact ihd
  | @takeChanged s _ ih =>
    have hnumbered : Operation.takeChanged.Numbered R s := trivial
    exact ih.step hnumbered nofun nofun

/-! ## The two outcomes -/

/-- The source cannot be added: two of its objects have one key, or the schema holds an object of
    one of the keys, or another reading of the source is registered. -/
def Refuses (s : Schema) (p : ParsedSource) : Prop :=
  ¬ (p.objects.map (·.key)).Nodup ∨ (∃ o ∈ p.objects, s.contains o.key = true) ∨
    ∃ source, s.source? p.id = some source ∧ source.edition ≠ p.edition

/-- `t` is `s` with the source, unless it was there, and with its objects behind all others. -/
structure Joined (s : Schema) (p : ParsedSource) (t : Schema) : Prop where
  sources : t.sources = s.sources ++ if (s.source? p.id).isSome then [] else [p.toSource]
  objects : t.objects = s.objects ++ p.objects
  changed : t.changed = s.changed
  registered : ∃ source, t.source? p.id = some source ∧ source.edition = p.edition

theorem Extended.joined (h : s.Extended p t) (hid : s.source? p.id = none) : s.Joined p t where
  sources := by simp [h.sources, hid]
  objects := h.objects
  changed := h.changed
  registered := ⟨p.toSource, by rw [h.source? hid, if_pos rfl], rfl⟩

/-- The keys are refused that are found twice. -/
theorem refuses_of_duplicate? (h : duplicate? s.contains (p.objects.map (·.key)) ≠ none) :
    s.Refuses p := by
  rw [ne_eq, duplicate?_eq_none_iff, not_and_or] at h
  refine h.imp_right fun htaken => .inl ?_
  push Not at htaken
  obtain ⟨key, hkey, hcontains⟩ := htaken
  obtain ⟨o, ho, rfl⟩ := List.mem_map.1 hkey
  exact ⟨o, ho, by simpa using hcontains⟩

/-- Where the keys are free, only another reading of the source is refused. -/
theorem refuses_iff_of_duplicate? (h : duplicate? s.contains (p.objects.map (·.key)) = none) :
    s.Refuses p ↔ ∃ source, s.source? p.id = some source ∧ source.edition ≠ p.edition := by
  obtain ⟨hnodup, hfree⟩ := duplicate?_eq_none_iff.1 h
  refine ⟨?_, fun hsource => .inr (.inr hsource)⟩
  rintro (hkeys | ⟨o, ho, hcontains⟩ | hsource)
  · exact absurd hnodup hkeys
  · rw [hfree _ (List.mem_map_of_mem ho)] at hcontains
    cases hcontains
  · exact hsource

/-- What an operation gives that adds the source. It fails exactly if the source is refused, and
    leaves the schema as it was; otherwise it adds all and gives the number of the objects. -/
structure AllOrNothing {ε : Type} (s : Schema) (p : ParsedSource) (out : Schema × Except ε Nat) :
    Prop where
  fails_iff : (∃ e, out.2 = .error e) ↔ s.Refuses p
  unchanged : ∀ e, out.2 = .error e → out.1 = s
  joined : ∀ n, out.2 = .ok n → n = p.objects.length ∧ s.Joined p out.1

theorem allOrNothing_error {ε : Type} (h : s.Refuses p) (e : ε) :
    s.AllOrNothing p (s, .error e) :=
  ⟨⟨fun _ => h, fun _ => ⟨e, rfl⟩⟩, fun _ _ => rfl, nofun⟩

theorem allOrNothing_ok (ε : Type) (h : ¬ s.Refuses p) (ht : s.Joined p t) :
    s.AllOrNothing p (t, (.ok p.objects.length : Except ε Nat)) := by
  refine ⟨⟨fun ⟨e, he⟩ => ?_, fun hrefuses => absurd hrefuses h⟩, nofun, fun n hn => ?_⟩
  · cases he
  · cases hn
    exact ⟨rfl, ht⟩

/-- Another way to tell the error does not matter. -/
theorem AllOrNothing.mapError {ε ε' : Type} {out : Schema × Except ε Nat} {f : ε → ε'}
    (h : s.AllOrNothing p out) : s.AllOrNothing p (out.1, out.2.mapError f) := by
  obtain ⟨t, e | n⟩ := out
  · obtain rfl : t = s := h.unchanged e rfl
    exact allOrNothing_error (h.fails_iff.1 ⟨e, rfl⟩) (f e)
  · obtain ⟨rfl, ht⟩ := h.joined n rfl
    refine allOrNothing_ok ε' (fun hrefuses => ?_) ht
    obtain ⟨e, he⟩ := h.fails_iff.2 hrefuses
    cases he

theorem Traced.allOrNothing (h : s.Traced R) (hp : R.made p) :
    s.AllOrNothing p (s.addSource p) := by
  cases hkeys : duplicate? s.contains (p.objects.map (·.key)) with
  | some key =>
    simp only [Schema.addSource, hkeys]
    exact allOrNothing_error (refuses_of_duplicate? (by simp [hkeys])) _
  | none =>
    have hrefuses := refuses_iff_of_duplicate? hkeys
    cases hsource : s.source? p.id with
    | none =>
      obtain ⟨t, hadd, ht⟩ := h.consistent.addSource (R.isReading p hp) hsource hkeys
      rw [hadd]
      exact allOrNothing_ok _ (by simp [hrefuses, hsource]) (ht.joined hsource)
    | some source =>
      by_cases hedition : source.edition = p.edition
      · -- The reading is registered already, so its objects are all that is added.
        obtain ⟨hrun, -⟩ := h.addObjects hp (fun o ho => ho) hsource hedition hkeys
        simp only [Schema.addSource, hkeys, Schema.register, hsource, hedition, if_true, hrun]
        refine allOrNothing_ok _ (by simp [hrefuses, hsource, hedition]) ?_
        exact ⟨by simp [hsource], rfl, rfl, source, hsource, hedition⟩
      · simp only [Schema.addSource, hkeys, Schema.register, hsource, hedition, if_false]
        exact allOrNothing_error (hrefuses.2 ⟨source, hsource, hedition⟩) _

theorem load_of_parse_error {e : ParseError}
    (h : Statement.parse (Token.tokenize text) = .error e) :
    s.load edition id text = (s, .error (.parse e)) := by
  simp only [load, ParsedSource.ofText, h, bind, Except.bind]

/-- Adding a reading to a schema of a session does all or nothing. It fails exactly if two of the
    objects have one key, or a key is taken, or another reading of the source is registered; else
    the objects stand behind all others, and nothing that was there is altered. A text that is
    loaded does the same, and besides it fails if it is outside the grammar. -/
theorem addSource_atomic (hs : Session R s) (hp : R.made p)
    (hread : ∀ q, ParsedSource.ofText edition id text = .ok q → R.made q) :
    s.AllOrNothing p (s.addSource p) ∧
      (∀ e, Statement.parse (Token.tokenize text) = .error e →
        s.load edition id text = (s, .error (.parse e))) ∧
      ∀ sts, Statement.parse (Token.tokenize text) = .ok sts →
        ∃ q, ParsedSource.ofText edition id text = .ok q ∧
          s.AllOrNothing q (s.load edition id text) := by
  refine ⟨hs.traced.allOrNothing hp, fun e => load_of_parse_error, fun sts hsts => ?_⟩
  obtain ⟨q, hq⟩ : ∃ q, ParsedSource.ofText edition id text = .ok q := by
    simp only [ParsedSource.ofText, hsts, bind, Except.bind, pure, Except.pure]
    exact ⟨_, rfl⟩
  refine ⟨q, hq, ?_⟩
  rw [load_of_ofText hq]
  exact (hs.traced.allOrNothing (hread q hq)).mapError

/-- A reading whose objects were removed, which is a change that waits to be taken, is added once
    more. Another reading of the same source cannot be added. -/
theorem addSource_atomic_again :
    let text := "CREATE TABLE a (x); CREATE VIEW v AS SELECT 1;"
    let s := ((empty.load 0 "a.sql" text).1.update 1 empty fun _ => "b.sql").1
    ∃ p, ParsedSource.ofText 0 "a.sql" text = .ok p ∧ s.changed = ["a.sql"] ∧ s.objects = [] ∧
      (s.addSource p).2 = .ok 2 ∧
      (s.load 2 "a.sql" text).2 = .error (.contract (.sourceMismatch "a.sql")) ∧
      s.AllOrNothing p (s.addSource p) ∧
      (∀ e, Statement.parse (Token.tokenize text) = .error e →
        s.load 2 "a.sql" text = (s, .error (.parse e))) ∧
      ∀ sts, Statement.parse (Token.tokenize text) = .ok sts →
        ∃ q, ParsedSource.ofText 2 "a.sql" text = .ok q ∧
          s.AllOrNothing q (s.load 2 "a.sql" text) := by
  intro text s
  let R := Readings.ofTexts [(0, "a.sql", text), (2, "a.sql", text)] (by decide)
  have hloaded : Built R (empty.load 0 "a.sql" text).1 :=
    Built.empty.load fun p hp => ⟨_, .head _, hp⟩
  have hs : Built R s := hloaded.update .empty (fresh_ofTexts (by decide) _)
  have hcount : (ParsedSource.ofText 0 "a.sql" text).toOption.map
      (fun p => (s.addSource p).2.toOption) = some (some 2) := by decide +kernel
  cases hp : ParsedSource.ofText 0 "a.sql" text with
  | error e =>
    rw [hp] at hcount
    cases hcount
  | ok p =>
    rw [hp] at hcount
    obtain ⟨n, hn, rfl⟩ : ∃ n, (s.addSource p).2 = .ok n ∧ n = 2 := by
      cases hadd : (s.addSource p).2 with
      | error e =>
        rw [Except.toOption, Option.map_some, hadd] at hcount
        cases hcount
      | ok n =>
        rw [Except.toOption, Option.map_some, hadd] at hcount
        cases hcount
        exact ⟨2, rfl, rfl⟩
    exact ⟨p, rfl, by decide +kernel, by decide +kernel, hn, by decide +kernel,
      addSource_atomic hs.session ⟨_, .head _, hp⟩ fun q hq => ⟨_, .tail _ (.head _), hq⟩⟩

end Schema

end SchemaAlign
