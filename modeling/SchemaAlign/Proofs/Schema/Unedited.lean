import SchemaAlign.Proofs.Catalog
import SchemaAlign.Proofs.Schema.Changes
import SchemaAlign.Proofs.Schema.Cosmetic

/-!
# Definitions that were not edited

The comparison cuts the text of a definition into tokens again, since an edit leaves a token behind
that holds the text of many. Where no edit was made, this gives the tokens that are there.

* `ParsedSource.StringsClosed`: sources that have the tokens of a text, and
  `IsReading.relex_eq_iff`: there are no others;
* `Operation.edits`: the edits that an operation makes;
* `Schema.Unedited`: the objects of a session that no edit was about since they were read;
* `Unedited.asRead`: they have the tokens that were read;
* `relex_of_unedited`: what the comparison sees of them.
-/

namespace SchemaAlign

open SchemaAlign.Token (relex render sameMeaning tokenize withoutTerminator)

/-! ## Sources that have the tokens of a text -/

namespace ParsedSource

variable {p : ParsedSource} {o : SchemaObject} {edition : Nat} {row : CatalogRow} {t : Token}
  {ts : List Token}

/-- If the source is a row of a catalog, no string is open in the statement of the row. -/
def StringsClosed (p : ParsedSource) : Prop :=
  ∀ edition row, ofRow edition row = .ok p → ∀ t ∈ tokenize row.sql, ¬t.IsOpen

theorem lawful_of_ofRow (h : ofRow edition row = .ok p)
    (hopen : ∀ t ∈ tokenize row.sql, ¬t.IsOpen) : Token.Lawful p.tokens := by
  obtain ⟨kind, st, -, hreading, rfl⟩ := ofRow_eq_ok h
  have hlawful : Token.Lawful (tokenize row.sql) := Token.lawful_ofChars _
  dsimp only
  generalize tokenize row.sql = tokens at hreading hlawful hopen ⊢
  obtain ⟨w, t, us, vs, u, rfl, -, hspan, -, -, -, hlast, hu⟩ := hreading.single
  rw [terminate_eq hspan hlast]
  split
  · exact hlawful
  · -- The semicolon goes behind the last token of the statement.
    have hlast' : (w ++ t :: us).getLast? = some u := by rw [List.getLast?_append, hlast]; rfl
    have hclosed : ¬u.IsOpen :=
      hopen u (List.mem_append_left _ (List.mem_of_getLast? hlast'))
    have h := (hlawful.left.semicolon hlast' hu hclosed).insert_semicolon hlawful.right
    simpa using h

/-- The tokens of a row are those of a text if no string is open in its statement. -/
theorem tokenize_render_of_ofRow (h : ofRow edition row = .ok p)
    (hopen : ∀ t ∈ tokenize row.sql, ¬t.IsOpen) : tokenize (render p.tokens) = p.tokens :=
  Token.relex_of_ofChars (lawful_of_ofRow h hopen).ofChars_chars

/-- An open string is the last token of a statement, and the semicolon goes behind it. -/
theorem exists_open_of_ofRow (h : ofRow edition row = .ok p) (ht : t ∈ tokenize row.sql)
    (hopen : t.IsOpen) : ∃ o us, p.objects = [o] ∧
      slice? p.tokens o.span = some (us ++ [t, Token.semicolon]) := by
  obtain ⟨kind, st, -, hreading, rfl⟩ := ofRow_eq_ok h
  have hlawful : Token.Lawful (tokenize row.sql) := Token.lawful_ofChars _
  dsimp only
  generalize tokenize row.sql = tokens at hreading hlawful ht ⊢
  obtain ⟨w, t', us, vs, u, rfl, -, hspan, -, hvs, -, hlast, -⟩ := hreading.single
  -- What follows the statement carries no meaning, so nothing follows it.
  have hend := hlawful.getLast?_of_isOpen ht hopen
  have hkind : t.isTrivia = false := by rw [Token.isTrivia, hopen.1]; rfl
  obtain rfl : vs = [] := by
    refine List.getLast?_eq_none_iff.1 (Option.eq_none_iff_forall_ne_some.2 fun v hv => ?_)
    rw [List.getLast?_append, hv] at hend
    cases hend
    rw [hvs t (List.mem_of_getLast? hv)] at hkind
    cases hkind
  obtain rfl : u = t := by
    rw [List.append_nil, List.getLast?_append, hlast] at hend
    exact Option.some.inj hend
  obtain ⟨xs, hxs⟩ := List.getLast?_eq_some_iff.1 hlast
  have hpunct : ¬ u.isPunct ";" = true := by simp [Token.isPunct, hopen.1]
  refine ⟨_, xs, rfl, ?_⟩
  rw [terminate_eq hspan hlast, if_neg hpunct, SchemaObject.span, Statement.span_withSpan,
    slice?_append, hxs, List.append_assoc]
  rfl

theorem stringsClosed_of_lawful (h : Token.Lawful p.tokens) : p.StringsClosed := by
  intro edition row hrow t ht hopen
  obtain ⟨o, us, -, hslice⟩ := exists_open_of_ofRow hrow ht hopen
  obtain ⟨as, bs, htokens, -⟩ := slice?_eq_some_iff_append.1 hslice
  rw [htokens, List.append_assoc, List.append_assoc] at h
  cases h.right.right.1.eq_nil_of_isOpen hopen

theorem lawful_of_ofText {id text : String} (h : ofText edition id text = .ok p) :
    Token.Lawful p.tokens := by
  obtain ⟨_, -, rfl⟩ := ofText_eq_ok h
  exact Token.lawful_ofChars _

/-- The definition of an object has the tokens of its text, unless the object was read from a row
    with an open string. There, the semicolon becomes a part of the string. -/
theorem IsReading.relex_eq_iff (h : p.IsReading) (ho : o ∈ p.objects)
    (hslice : slice? p.tokens o.span = some ts) : relex ts = ts ↔ p.StringsClosed := by
  constructor
  · rintro hrelex edition row hrow t ht hopen
    obtain ⟨o', xs, hobjects, hslice'⟩ := exists_open_of_ofRow hrow ht hopen
    rw [hobjects, List.mem_singleton] at ho
    subst ho
    obtain rfl := Option.some.inj (hslice.symm.trans hslice')
    have hlawful : Token.Lawful (xs ++ [t, Token.semicolon]) := hrelex ▸ Token.lawful_ofChars _
    cases hlawful.right.1.eq_nil_of_isOpen hopen
  · intro hclosed
    have hlawful : Token.Lawful p.tokens := by
      cases h with
      | text h => exact lawful_of_ofText h
      | row h => exact lawful_of_ofRow h (hclosed _ _ h)
    obtain ⟨us, vs, htokens, -⟩ := slice?_eq_some_iff_append.1 hslice
    rw [htokens] at hlawful
    exact Token.relex_of_ofChars hlawful.left.right.ofChars_chars

end ParsedSource

/-! ## Steps that are taken -/

/-- The items for which a step is taken: those before the first one whose step fails. -/
def taken {σ ι ε : Type} (step : σ → ι → Except ε σ) : σ → List ι → List ι
  | _, [] => []
  | s, i :: is =>
    match step s i with
    | .ok s => i :: taken step s is
    | .error _ => []

/-- What is done is what the steps that are taken do. -/
theorem runEach_taken {σ ι ε : Type} (step : σ → ι → Except ε σ) (s : σ) (is : List ι) :
    (runEach step s (taken step s is)).1 = (runEach step s is).1 := by
  induction is generalizing s with
  | nil => rfl
  | cons i is ih =>
    rw [taken, runEach]
    cases h : step s i with
    | error e => rfl
    | ok s' =>
      simp only [runEach, h]
      exact ih s'

theorem mem_of_mem_taken {σ ι ε : Type} {step : σ → ι → Except ε σ} {s : σ} {is : List ι} {i : ι}
    (h : i ∈ taken step s is) : i ∈ is := by
  induction is generalizing s with
  | nil => cases h
  | cons j is ih =>
    rw [taken] at h
    cases hj : step s j with
    | error e =>
      rw [hj] at h
      cases h
    | ok s' =>
      rw [hj, List.mem_cons] at h
      exact List.mem_cons.2 (h.imp_right ih)

/-- The edit is not about the object of the key. -/
def Edit.Spares (e : Edit) (key : ObjectKey) : Prop :=
  ∀ o ∈ e.objects, o.key ≠ key

instance (e : Edit) (key : ObjectKey) : Decidable (e.Spares key) :=
  inferInstanceAs (Decidable (∀ o ∈ e.objects, o.key ≠ key))

namespace Schema

variable {R : Readings} {s t t' d : Schema} {p : ParsedSource} {e : Edit} {o new : SchemaObject}
  {op : Operation} {edition n : Nat} {placement : SchemaObject → String} {id text : String}

/-! ## Edits that are made -/

/-- The edits that an operation makes, with the sources for the objects that they add. None are made
    while changes wait to be taken, and none after one that fails. -/
def Operation.edits (s : Schema) (op : Operation) : List (Edit × String) :=
  if s.hasPending then [] else
  match op with
  | update _ desired placement => (s.edits desired).map fun e => (e, e.touched placement)
  | apply edition desired edits =>
    taken (fun s x => applyEdit edition desired (fun _ => x.2) s x.1) s edits
  | load .. | addSource _ | takeChanged => []

/-- What the operation needs is there: its readings are those that were made, and the other schema
    and the objects of the edits are those of the session. -/
structure Operation.Admissible (R : Readings) (s : Schema) (op : Operation) : Prop where
  numbered : op.Numbered R s
  desired : ∀ d, op.desired? = some d → Session R d
  objects : ∀ o ∈ op.objects, ∃ r, Session R r ∧ o ∈ r.objects

theorem Session.operation (h : Session R s) (hop : op.Admissible R s) : Session R (op.run s) :=
  h.step hop.numbered hop.desired hop.objects

/-- What each edit preserves that is made, the operation preserves. -/
theorem Session.run_preserves {P : Schema → Prop} (h : Session R s) (hop : op.Admissible R s)
    (hd : op.desired? = some d) (hP : P s)
    (hstep : ∀ x ∈ op.edits s, ∀ edition t t', t.Consistent →
      Performed d edition (fun _ => x.2) t x.1 t' → P t → P t') : P (op.run s) := by
  have hs := h.traced.consistent
  by_cases hpending : s.hasPending = true
  · cases op with
    | load | addSource | takeChanged => cases hd
    | update => rwa [Operation.run, Schema.update, if_pos hpending]
    | apply => rwa [Operation.run, applyPlaced, if_pos hpending]
  · rw [Operation.edits.eq_def, if_neg hpending] at hstep
    cases op with
    | load | addSource | takeChanged => cases hd
    | update edition _ placement =>
      cases hd
      have hd := hop.desired d rfl
      rw [Operation.run, hs.update_eq_apply hd.traced.consistent, apply_eq_applyPlaced]
      exact (hs.applyPlaced_preserves hd.traced.consistent.span_of_mem_edits hP
        fun x hx => hstep x hx edition).2
    | apply edition _ edits =>
      cases hd
      -- The edits that are made are a list of edits of its own, which leads to the same schema.
      have htaken : (s.applyPlaced edition d edits).1 = (s.applyPlaced edition d
          (taken (fun s x => applyEdit edition d (fun _ => x.2) s x.1) s edits)).1 := by
        simp only [applyPlaced, if_neg hpending, runEach_taken]
      rw [Operation.run, htaken]
      exact (hs.applyPlaced_preserves
        (fun x hx => Session.span_of_mem_edits hop.objects x (mem_of_mem_taken hx)) hP
        fun x hx => hstep x hx edition).2

/-! ## Objects that an edit is not about -/

/-- An edit changes nothing that does not concern one of its objects. -/
theorem Performed.frame (ht : t.Consistent) (h : Performed d edition placement t e t') :
    ∃ o ∈ e.objects, Frame o.key t t' := by
  cases h with
  | @add new _ _ _ ha => exact ⟨new, List.mem_cons_self, ha.frame ht⟩
  | @modify old _ o _ ho hkey hr =>
    exact ⟨old, List.mem_cons_self, hkey ▸ hr.frame ht ho (length_replaceText _)⟩
  | @remove old o t₁ ho hkey hr =>
    have hframe := hr.frame ht ho length_blankOut
    refine ⟨old, List.mem_cons_self, fun k hk => ?_, fun o' ho' hne => ?_⟩
    · rw [← hkey] at hk
      exact (get?_filter t₁ o.key k).trans ((if_neg hk).trans (hframe.objects k hk))
    · exact hframe.definitions o' ho' (hkey ▸ hne)

/-- Objects that an edit is not about stay, with their definitions, and there are no others of their
    keys. -/
theorem Performed.spares (ht : t.Consistent) (h : Performed d edition placement t e t')
    (hkey : e.Spares o.key) : (o ∈ t'.objects ↔ o ∈ t.objects) ∧
      (o ∈ t.objects → t'.definitionTokens o = t.definitionTokens o) := by
  obtain ⟨o', ho', hframe⟩ := h.frame ht
  have hne := hkey o' ho'
  have hget := hframe.objects o.key hne.symm
  refine ⟨⟨fun ho => ?_, fun ho => ?_⟩, fun ho => hframe.definitions o ho hne.symm⟩
  · exact (get?_eq_some (hget.symm.trans (h.consistent.get?_key ho))).1
  · exact (get?_eq_some (hget.trans (ht.get?_key ho))).1

/-- An operation keeps the objects that none of its edits is about, with their definitions. -/
theorem Session.keeps_definition (h : Session R s) (hop : op.Admissible R s)
    (hkey : ∀ x ∈ op.edits s, x.1.Spares o.key) (ho : o ∈ s.objects) :
    o ∈ (op.run s).objects ∧ (op.run s).definitionTokens o = s.definitionTokens o := by
  have hs := h.traced.consistent
  -- Reading adds sources and objects, and edits change the tokens of other objects.
  have read (ht : Enlarged s (op.run s)) (hkeeps : Keeps (fun _ => False) s (op.run s)) :
      o ∈ (op.run s).objects ∧ (op.run s).definitionTokens o = s.definitionTokens o := by
    obtain ⟨source, hsource, -⟩ := hs.located o ho
    refine ⟨hkeeps.objects o ho id, definitionTokens_congr (ht.sources _ ?_)⟩
    rw [hsource]
    rfl
  have edit {d : Schema} (hd : op.desired? = some d) :
      o ∈ (op.run s).objects ∧ (op.run s).definitionTokens o = s.definitionTokens o := by
    refine h.run_preserves (P := fun t => o ∈ t.objects ∧
      t.definitionTokens o = s.definitionTokens o) hop hd ⟨ho, rfl⟩ ?_
    rintro x hx edition t t' ht happlied ⟨hmem, htokens⟩
    obtain ⟨hiff, hsame⟩ := happlied.spares ht (hkey x hx)
    exact ⟨hiff.2 hmem, (hsame hmem).trans htokens⟩
  cases op with
  | load edition id text => exact read (enlarged_load s edition id text) hs.keeps_load
  | addSource p => exact read (enlarged_addSource s p) (hs.keeps_addSource p)
  | update | apply => exact edit rfl
  | takeChanged => exact ⟨ho, rfl⟩

/-- An object that is added has the tokens of the one that it was made from. -/
theorem Session.copies_definition (h : Session R s) (hop : op.Admissible R s)
    (hd : op.desired? = some d) (hnew : s.contains new.key = false)
    (hkey : ∀ x ∈ op.edits s, x.1 = .add new ∨ x.1.Spares new.key)
    (ho : o ∈ (op.run s).objects) (heq : o.key = new.key) :
    (op.run s).definitionTokens o = d.definitionTokens new := by
  refine h.run_preserves (P := fun t => ∀ o ∈ t.objects, o.key = new.key →
    t.definitionTokens o = d.definitionTokens new) hop hd ?_ ?_ o ho heq
  · exact fun o ho heq => absurd heq (contains_eq_false_iff.1 hnew o ho)
  · -- No object of the key is there until the edit adds one, and no other edit is about it.
    rintro x hx edition t t' ht happlied ih o ho heq
    rcases hkey x hx with hadd | hspares
    · rw [hadd] at happlied
      cases happlied with
      | @add _ o' _ hcontains ha =>
        rw [ha.objects, List.mem_append, List.mem_singleton] at ho
        rcases ho with ho | rfl
        · exact absurd heq (contains_eq_false_iff.1 hcontains o ho)
        · exact ha.definitionTokens
    · obtain ⟨hiff, hsame⟩ := happlied.spares ht (heq ▸ hspares)
      have hmem := hiff.1 ho
      exact (hsame hmem).trans (ih o hmem heq)

/-! ## Objects that no edit is about -/

/-- The objects of a session that were not edited since they were read from `p`. The source was new
    when they were read. Then they were kept, or copied from another schema of the session where
    they were not edited, and no edit that was made since then was about them. -/
inductive Unedited (R : Readings) (p : ParsedSource) : Schema → SchemaObject → Prop
  | read {s t : Schema} {n : Nat} {o : SchemaObject} : Session R s → R.made p →
      s.source? p.id = none → s.addSource p = (t, .ok n) → o ∈ p.objects → Unedited R p t o
  | keep {s : Schema} {op : Operation} {o : SchemaObject} : Unedited R p s o →
      op.Admissible R s → (∀ x ∈ op.edits s, x.1.Spares o.key) → Unedited R p (op.run s) o
  | copy {s d : Schema} {op : Operation} {new o : SchemaObject} : Session R s →
      op.Admissible R s → op.desired? = some d → Unedited R p d new → s.contains new.key = false →
      (∀ x ∈ op.edits s, x.1 = .add new ∨ x.1.Spares new.key) → o ∈ (op.run s).objects →
      o.key = new.key → Unedited R p (op.run s) o

/-- The objects of a text that is loaded for the first time were not edited. -/
theorem Session.unedited_load (h : Session R s)
    (hp : ∀ p, ParsedSource.ofText edition id text = .ok p → R.made p) (hid : s.source? id = none)
    (hload : s.load edition id text = (t, .ok n)) (ho : o ∈ t.objects) (hnew : o ∉ s.objects) :
    ∃ p, ParsedSource.ofText edition id text = .ok p ∧ Unedited R p t o := by
  obtain ⟨p, hread, rfl, -, hadd⟩ := addSource_of_load hload
  have hextended := extended_of_addSource h.traced.consistent (.text hread) hid hadd
  rw [hextended.objects, List.mem_append, or_iff_right hnew] at ho
  exact ⟨p, hread, .read h (hp p hread) hid hadd ho⟩

/-- The definition of the object is that of an object of the source. -/
def AsRead (p : ParsedSource) (s : Schema) (o : SchemaObject) : Prop :=
  o ∈ s.objects ∧ ∃ o₀ ∈ p.objects, slice? p.tokens o₀.span = some (s.definitionTokens o)

theorem Unedited.made (h : Unedited R p s o) : R.made p := by
  induction h with
  | read _ hp => exact hp
  | keep _ _ _ ih | copy _ _ _ _ _ _ _ _ ih => exact ih

theorem Unedited.session (h : Unedited R p s o) : Session R s := by
  induction h with
  | @read s t n o hs hp _ hadd _ =>
    have hop : (Operation.addSource p).Admissible R s := ⟨hp, nofun, nofun⟩
    have ht := hs.operation hop
    rwa [Operation.run, hadd] at ht
  | keep _ hop _ ih => exact ih.operation hop
  | copy hs hop => exact hs.operation hop

theorem Unedited.asRead (h : Unedited R p s o) : AsRead p s o := by
  induction h with
  | @read s t n o hs hp hid hadd ho =>
    have hreading := R.isReading p hp
    have hextended := extended_of_addSource hs.traced.consistent hreading hid hadd
    exact ⟨hextended.objects ▸ List.mem_append_right _ ho, o, ho,
      hextended.slice? hid hreading ho⟩
  | keep h hop hkey ih =>
    obtain ⟨ho, o₀, ho₀, hslice⟩ := ih
    obtain ⟨ho', htokens⟩ := h.session.keeps_definition hop hkey ho
    exact ⟨ho', o₀, ho₀, htokens ▸ hslice⟩
  | copy hs hop hd _ hnew hkey ho heq ih =>
    obtain ⟨-, o₀, ho₀, hslice⟩ := ih
    have htokens := hs.copies_definition hop hd hnew hkey ho heq
    exact ⟨ho, o₀, ho₀, htokens ▸ hslice⟩

/-! ## What the comparison sees -/

/-- Some tokens of a text in a row are the tokens of what they make up. The tokens in the span of an
    object that was not edited are the tokens of what they make up exactly if the object was not
    read from a row with an open string, and then the comparison sees these tokens, on either
    side. -/
theorem relex_of_unedited :
    (∀ text span ts, slice? (tokenize text) span = some ts → tokenize (render ts) = ts) ∧
    ∀ R p s o, Unedited R p s o → ∃ source ts, s.source? o.source = some source ∧
      slice? source.tokens o.span = some ts ∧ (relex ts = ts ↔ p.StringsClosed) ∧
      (p.StringsClosed → ∀ d new us, new.key = o.key → d.objectTokens new = .ok us →
        s.differs o d new =
          .ok (!sameMeaning (withoutTerminator ts) (withoutTerminator (relex us))) ∧
        d.differs new s o =
          .ok (!sameMeaning (withoutTerminator (relex us)) (withoutTerminator ts))) := by
  refine ⟨fun text span ts => Token.relex_slice, fun R p s o h => ?_⟩
  obtain ⟨ho, o₀, ho₀, hread⟩ := h.asRead
  have hs := h.session.traced.consistent
  obtain ⟨source, hsource, -⟩ := hs.located o ho
  obtain ⟨hslice, hok⟩ := hs.slice? ho hsource
  have hiff := (R.isReading p h.made).relex_eq_iff ho₀ hread
  refine ⟨source, _, hsource, hslice, hiff, fun hclosed d new us hkey hus => ⟨?_, ?_⟩⟩
  · rw [differs_of_objectTokens hkey.symm hok hus, Token.sameDefinition, hiff.2 hclosed]
  · rw [differs_of_objectTokens hkey hus hok, Token.sameDefinition, hiff.2 hclosed]

/-- After an update, the view that was left alone has its tokens, and the one that was modified has
    others than its text has. -/
theorem relex_of_unedited_update :
    let s := (empty.load 0 "a" "CREATE VIEW v AS 1;CREATE VIEW w AS x--y").1
    let d := (empty.load 0 "b" "CREATE VIEW v AS 3;CREATE VIEW w AS X;").1
    let t := (s.update 1 d fun _ => "a").1
    (∃ p o source ts, ParsedSource.ofText 0 "a" "CREATE VIEW v AS 1;CREATE VIEW w AS x--y" = .ok p ∧
      p.StringsClosed ∧ t.get? ⟨.view, "w"⟩ = some o ∧ t.source? o.source = some source ∧
      slice? source.tokens o.span = some ts ∧ relex ts = ts ∧
      ∀ new ∈ d.objects, new.key = o.key → t.differs o d new =
        .ok (!sameMeaning (withoutTerminator ts)
          (withoutTerminator (relex (d.definitionTokens new))))) ∧
      (t.get? ⟨.view, "v"⟩).map (fun o => decide (relex (t.definitionTokens o) =
        t.definitionTokens o)) = some false := by
  intro s d t
  let op := Operation.update 1 d fun _ => "a"
  let R := Readings.ofTexts [(0, "a", "CREATE VIEW v AS 1;CREATE VIEW w AS x--y"),
    (0, "b", "CREATE VIEW v AS 3;CREATE VIEW w AS X;")] (by decide)
  have hd : Session R d := Session.empty.load fun p hp => ⟨_, .tail _ (.head _), hp⟩
  have hop : op.Admissible R s := by
    refine ⟨fresh_ofTexts (by decide) s, fun d' h => ?_, nofun⟩
    cases h
    exact hd
  have hrun : ((s.get? ⟨.view, "w"⟩).isSome = true ∧
      (empty.load 0 "a" "CREATE VIEW v AS 1;CREATE VIEW w AS x--y").2 = .ok 2) ∧
      (∀ x ∈ op.edits s, x.1.Spares ⟨.view, "w"⟩) ∧
      (t.get? ⟨.view, "v"⟩).map (fun o => decide (relex (t.definitionTokens o) =
        t.definitionTokens o)) = some false := by decide +kernel
  obtain ⟨⟨hsome, hload⟩, hspares, hmodified⟩ := hrun
  obtain ⟨o, hget⟩ := Option.isSome_iff_exists.1 hsome
  obtain ⟨ho, hkey⟩ := get?_eq_some hget
  obtain ⟨p, hp, hs⟩ : ∃ p, _ ∧ Unedited R p s o := Session.empty.unedited_load
    (fun p hp => ⟨_, .head _, hp⟩) rfl (Prod.ext rfl hload) ho nofun
  have ht : Unedited R p t o := hs.keep hop (hkey.symm ▸ hspares)
  obtain ⟨source, ts, hsource, hslice, hiff, hdiffers⟩ := relex_of_unedited.2 R p t o ht
  have hclosed : p.StringsClosed :=
    ParsedSource.stringsClosed_of_lawful (ParsedSource.lawful_of_ofText hp)
  refine ⟨⟨p, o, source, ts, hp, hclosed, ?_, hsource, hslice, hiff.2 hclosed,
    fun new hnew heq => ?_⟩, hmodified⟩
  · rw [← hkey]
    exact ht.session.traced.consistent.get?_key ht.asRead.1
  · exact (hdiffers hclosed d new _ heq (hd.traced.consistent.objectTokens hnew)).1

/-- The row of a view with an open string. Behind the string stands a semicolon of its own, but the
    comparison sees one string with the semicolon in it, and so it finds the view different from the
    same text in a file. -/
theorem differs_of_open_string :
    let row : CatalogRow := ⟨"view", "v", "v", "CREATE VIEW v AS 'x"⟩
    let d := (empty.load 1 "d.sql" "CREATE VIEW v AS 'x").1
    ∃ p s o source ts new us, ParsedSource.ofRow 0 row = .ok p ∧ ofRows 0 [row] = .ok s ∧
      (∃ R, Unedited R p s o) ∧ s.source? o.source = some source ∧
      slice? source.tokens o.span = some ts ∧ new.key = o.key ∧ d.objectTokens new = .ok us ∧
      tokenize (render ts) ≠ ts ∧ s.differs o d new = .ok true ∧
      sameMeaning (withoutTerminator ts) (withoutTerminator (relex us)) = true := by
  intro row d
  let key : ObjectKey := ⟨.view, "v"⟩
  let o : SchemaObject := ⟨key, .other ["CREATE", "VIEW", "v", "AS", "'x"] ⟨0, 10⟩,
    "<catalog>/view/v", 0⟩
  let new : SchemaObject := ⟨key, .other ["CREATE", "VIEW", "v", "AS", "'x"] ⟨0, 9⟩, "d.sql", 1⟩
  let us := tokenize "CREATE VIEW v AS 'x"
  let source : Source := ⟨"<catalog>/view/v", 0, us ++ [Token.semicolon]⟩
  let p : ParsedSource := ⟨source, [o]⟩
  let s : Schema := ⟨[source], [o], []⟩
  have hp : ParsedSource.ofRow 0 row = .ok p := by decide +kernel
  have hadd : empty.addSource p = (s, .ok 1) := by decide +kernel
  have hs : Unedited (Readings.single p (.row hp)) p s o :=
    .read .empty rfl rfl hadd (List.mem_singleton_self o)
  refine ⟨p, s, o, source, us ++ [Token.semicolon], new, us, hp, ?_, ⟨_, hs⟩, ?_⟩
  · decide +kernel
  · decide +kernel

end Schema

end SchemaAlign
