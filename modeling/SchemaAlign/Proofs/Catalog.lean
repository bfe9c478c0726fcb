import SchemaAlign.Catalog
import SchemaAlign.Proofs.Parser.Alike
import SchemaAlign.Proofs.Parser.InnerSemicolon
import SchemaAlign.Proofs.Parser.Semicolon
import SchemaAlign.Proofs.Schema.Layout

/-!
# The schema of a catalog

A row of a catalog says itself which object it describes; in a file, the statement has to say it.

* `reads_of_ofRow`: what the file reader finds in the definition of a row;
* `found_iff_of_ofRow`: whether that is the object of the row;
* `fromRows_of_ofRows`: where the objects of a catalog come from;
* `FromRows.reads`: what the file reader finds in their definitions.
-/

namespace SchemaAlign

open SchemaAlign.Parser (Sentence Trivia Reading Reads exists_sentence_of_semicolon
  exists_sentence_of_terminated filter_isSignificant_trivia flat_of_closed reads_of_sentence
  significant_of_other statement)
open SchemaAlign.Parser.Stream (ofTokens)
open SchemaAlign.Token (ofChars chars Firm)

variable {p : ParsedSource} {o : SchemaObject} {edition : Nat} {row : CatalogRow}
  {rows : List CatalogRow} {w us vs definition : List Token} {t u : Token} {st : Statement}

/-! ## The definition of a row -/

/-- The tokens of the statement, with a semicolon put after them unless there is one. -/
theorem terminate_eq (hspan : st.span = ⟨w.length, w.length + us.length⟩)
    (hlast : us.getLast? = some u) : terminate (w ++ us ++ vs) st =
      if u.isPunct ";" then (w ++ us ++ vs, st)
      else (w ++ (us ++ [Token.semicolon]) ++ vs,
        st.withSpan ⟨w.length, w.length + (us ++ [Token.semicolon]).length⟩) := by
  have htake : (w ++ us ++ vs).take (w.length + us.length) = w ++ us :=
    List.take_left' (List.length_append ..)
  have hdrop : (w ++ us ++ vs).drop (w.length + us.length) = vs :=
    List.drop_left' (List.length_append ..)
  have hany : (w ++ us).getLast?.any (·.isPunct ";") = u.isPunct ";" := by
    rw [List.getLast?_append, hlast]
    rfl
  rw [terminate, hspan]
  dsimp only
  rw [htake, hdrop, hany, List.length_append, ← Nat.add_assoc]
  simp only [List.append_assoc, List.singleton_append, List.length_singleton]

theorem ofStatement?_withSpan (st : Statement) (span : Span) :
    ObjectKey.ofStatement? (st.withSpan span) = ObjectKey.ofStatement? st := by
  cases st <;> rfl

/-- What the file reader finds in a definition that is one statement. -/
def itemOf (st : Statement) (definition : List Token) : List (ObjectKey × String) :=
  ((ObjectKey.ofStatement? st).map fun key => (key, Token.render definition)).toList

/-- A sentence with the given tokens is read by itself. -/
theorem reads_of_tokens {S : Sentence} (htokens : S.tokens = definition)
    (hlex : ofChars (chars definition) = definition)
    (hkey : ObjectKey.ofStatement? S.statement = ObjectKey.ofStatement? st) :
    Reads (chars definition) (itemOf st definition) := by
  subst htokens
  have hsame : ofChars (chars S.tokens ++ []) = S.tokens ++ ofChars [] := by
    rw [List.append_nil, hlex, ofChars, List.append_nil]
  have hreads := reads_of_sentence S [] hsame
  rwa [Sentence.item?, hkey] at hreads

/-- A definition that ends with a semicolon of its own. -/
theorem reads_of_semicolon (ht : t.isTrivia = false)
    (hst : statement (ofTokens w.length (t :: us ++ vs)) =
      .ok (st, ofTokens (w.length + us.length + 1) vs))
    (hlex : ofChars (chars (t :: us) ++ chars vs) = t :: us ++ ofChars (chars vs))
    (hlast : (t :: us).getLast? = some u) (hu : u.isTrivia = false) (hpunct : u.isPunct ";" = true)
    (hclosed : Statement.Closed (ofChars (chars (t :: us)))) :
    Reads (chars (t :: us)) (itemOf st (t :: us)) := by
  have hfirm := Token.firm_of_getLast? hlex hlast (Parser.kind_of_isPunct hpunct)
  have hlex' : ofChars (chars (t :: us)) = t :: us := by
    have := hfirm []
    rwa [List.append_nil, ofChars, List.append_nil] at this
  rw [hlex'] at hclosed
  obtain ⟨S, htokens, rfl⟩ := exists_sentence_of_semicolon ht hst hlast hu hclosed
  exact reads_of_tokens htokens hlex' (Parser.ofStatement?_shift ..).symm

/-- A definition behind which a semicolon is put. -/
theorem reads_of_terminated (ht : t.isTrivia = false) (hvs : Trivia vs)
    (hst : statement (ofTokens w.length (t :: us ++ vs)) =
      .ok (st, ofTokens (w.length + us.length + 1) vs))
    (hlex : ofChars (chars (t :: us) ++ chars vs) = t :: us ++ ofChars (chars vs))
    (hlast : (t :: us).getLast? = some u) (hu : u.isTrivia = false)
    (hpunct : u.isPunct ";" = false)
    (hclosed : Statement.Closed (ofChars (chars (t :: us ++ [Token.semicolon])))) :
    Reads (chars (t :: us ++ [Token.semicolon])) (itemOf st (t :: us ++ [Token.semicolon])) := by
  have hchars : chars (t :: us ++ [Token.semicolon]) = chars (t :: us) ++ [';'] := by
    rw [Token.chars_append]
    rfl
  have hlex' : ofChars (chars (t :: us ++ [Token.semicolon])) = t :: us ++ [Token.semicolon] := by
    rw [hchars]
    rcases Token.ofChars_semicolon hlex hlast hu with hlex' | ⟨us', u', hlex', hu', hpunct'⟩
    · exact hlex'
    · -- The semicolon would be a part of the last token, and the definition would have no end.
      rw [hchars, hlex'] at hclosed
      have := (flat_of_closed hclosed List.getLast?_concat hu').1
      rw [hpunct'] at this
      cases this
  rw [hlex'] at hclosed
  obtain ⟨S, htokens, hS⟩ := exists_sentence_of_terminated ht hvs hst hlast hpunct hclosed
  exact reads_of_tokens htokens hlex' hS

/-- The definition of a row is read by itself if its statement ends where the definition does. The
    file reader finds the object that the statement creates. -/
theorem reads_of_ofRow (h : ParsedSource.ofRow edition row = .ok p) (ho : o ∈ p.objects)
    (hslice : slice? p.tokens o.span = some definition)
    (hclosed : Statement.Closed (ofChars (chars definition))) :
    Reads (chars definition) (itemOf o.statement definition) := by
  obtain ⟨kind, st, -, hreading, rfl⟩ := ParsedSource.ofRow_eq_ok h
  obtain rfl := List.mem_singleton.1 ho
  generalize hsql : Token.tokenize row.sql = tokens at hreading hslice ⊢
  obtain ⟨w, t, us, vs, u, rfl, hst, hspan, -, hvs, ht, hlast, hu⟩ := hreading.single
  -- A text may be read from any of its tokens on, so what stands before the statement is left out.
  have hlex : ofChars (chars (t :: us) ++ chars vs) = t :: us ++ ofChars (chars vs) := by
    rw [List.append_assoc] at hsql
    have hrest := Token.ofChars_chars w (show ofChars row.sql.toList = _ from hsql)
    have hlast := Token.ofChars_chars _ hrest
    rw [← Token.chars_append, hrest, hlast]
  simp only [SchemaObject.span] at hslice
  rw [terminate_eq hspan hlast] at hslice ⊢
  -- The statement ends with a semicolon, or one was put behind it.
  split at hslice
  · next hpunct =>
    rw [if_pos hpunct]
    rw [hspan, slice?_append] at hslice
    cases hslice
    exact reads_of_semicolon ht hst hlex hlast hu hpunct hclosed
  · next hpunct =>
    rw [if_neg hpunct]
    rw [Statement.span_withSpan, slice?_append] at hslice
    cases hslice
    have hreads := reads_of_terminated ht hvs hst hlex hlast hu (Bool.eq_false_iff.2 hpunct) hclosed
    rwa [itemOf, ← ofStatement?_withSpan] at hreads

/-- The words of a row: the tokens of its statement that carry meaning. -/
def CatalogRow.words (row : CatalogRow) : List String :=
  ((Token.tokenize row.sql).filter Token.isSignificant).map (·.text)

/-- The words of a statement that is not read in detail are those of its row. -/
theorem words_of_ofRow {words : List String} {span : Span}
    (h : ParsedSource.ofRow edition row = .ok p) (ho : o ∈ p.objects)
    (hother : o.statement = .other words span) : words = row.words := by
  obtain ⟨kind, st, -, hreading, rfl⟩ := ParsedSource.ofRow_eq_ok h
  obtain rfl := List.mem_singleton.1 ho
  obtain ⟨w, t, us, vs, u, hsql, hst, hspan, hw, hvs, -, hlast, -⟩ := hreading.single
  obtain ⟨span', rfl⟩ : ∃ span', st = .other words span' := by
    dsimp only at hother
    rw [hsql, terminate_eq hspan hlast] at hother
    split at hother
    · exact ⟨span, hother⟩
    · cases st with
      | createTable => cases hother
      | other => cases hother; exact ⟨_, rfl⟩
  rw [(significant_of_other hst).1, CatalogRow.words, hsql, List.filter_append,
    List.filter_append, filter_isSignificant_trivia hw, filter_isSignificant_trivia hvs,
    List.nil_append, List.append_nil]

/-- The file reader finds the object of a row in a `CREATE TABLE` of that name, and in the statement
    of an index, a view or a trigger whose words name the object. In other statements it finds
    none. -/
theorem found_iff_of_ofRow (h : ParsedSource.ofRow edition row = .ok p) (ho : o ∈ p.objects) :
    ObjectKey.ofStatement? o.statement = some o.key ↔
      (∃ table, o.statement = .createTable table ∧ o.key = ⟨.table, table.name⟩) ∨
        (∃ words span, o.statement = .other words span) ∧ ObjectKey.Creates row.words o.key := by
  rw [ObjectKey.ofStatement?_eq_some_iff]
  refine or_congr_right ⟨?_, ?_⟩
  · rintro ⟨words, span, hother, hcreates⟩
    exact ⟨⟨words, span, hother⟩, words_of_ofRow h ho hother ▸ hcreates⟩
  · rintro ⟨⟨words, span, hother⟩, hcreates⟩
    exact ⟨words, span, hother, words_of_ofRow h ho hother ▸ hcreates⟩

/-! ## Where the objects of a catalog come from -/

/-- Every object has a source of its own. -/
theorem catalogId_injective {key key' : ObjectKey}
    (h : Source.catalogId key = Source.catalogId key') : key = key' := by
  obtain ⟨kind, name⟩ := key
  obtain ⟨kind', name'⟩ := key'
  have hlist := congrArg String.toList h
  simp only [Source.catalogId, ObjectKey.text, String.toList_append, List.append_assoc,
    List.append_cancel_left_eq] at hlist
  -- The words for two kinds differ before one of them is over.
  cases kind <;> cases kind' <;>
    simp [ObjectKind.text, String.toList_inj] at hlist <;> rw [hlist]

namespace Schema

variable {s t d : Schema}

/-- Every source belongs to an object of the schema, and every object was read from a row. -/
structure FromRows (edition : Nat) (s : Schema) : Prop where
  consistent : s.Consistent
  sources : ∀ id, (s.source? id).isSome = true → ∃ o ∈ s.objects, id = Source.catalogId o.key
  objects : ∀ o ∈ s.objects, ∃ row p, ParsedSource.ofRow edition row = .ok p ∧ o ∈ p.objects ∧
    s.source? p.id = some p.toSource

theorem fromRows_empty (edition : Nat) : empty.FromRows edition :=
  ⟨consistent_empty, nofun, nofun⟩

/-- The source of a row is new if its object is: a source of that name would belong to an object of
    this key. -/
theorem FromRows.source?_eq_none (hs : s.FromRows edition)
    (hread : ParsedSource.ofRow edition row = .ok p)
    (hkeys : ∀ k ∈ p.objects.map (·.key), s.contains k = false) : s.source? p.id = none := by
  obtain ⟨kind, st, -, -, rfl⟩ := ParsedSource.ofRow_eq_ok hread
  rw [← Option.not_isSome_iff_eq_none]
  intro hsome
  obtain ⟨o, ho, hid⟩ := hs.sources _ hsome
  have hnew := hkeys ⟨kind, row.name⟩ List.mem_cons_self
  exact contains_eq_false_iff.1 hnew o ho (catalogId_injective hid).symm

theorem FromRows.extended (hs : s.FromRows edition)
    (hread : ParsedSource.ofRow edition row = .ok p) (hnone : s.source? p.id = none)
    (hextended : s.Extended p t) : t.FromRows edition := by
  obtain ⟨o, ho, hid⟩ : ∃ o ∈ p.objects, p.id = Source.catalogId o.key := by
    obtain ⟨kind, st, -, -, rfl⟩ := ParsedSource.ofRow_eq_ok hread
    exact ⟨_, List.mem_cons_self, rfl⟩
  constructor
  case consistent => exact hextended.consistent
  case sources =>
    intro id hsome
    rw [hextended.source? hnone] at hsome
    rw [hextended.objects]
    by_cases hid' : id = p.id
    · exact ⟨o, List.mem_append_right _ ho, hid'.trans hid⟩
    · rw [if_neg hid'] at hsome
      obtain ⟨o', ho', hid'⟩ := hs.sources id hsome
      exact ⟨o', List.mem_append_left _ ho', hid'⟩
  case objects =>
    intro o' ho'
    rw [hextended.objects] at ho'
    rcases List.mem_append.1 ho' with ho' | ho'
    · obtain ⟨row', p', hread', hmem, hsource⟩ := hs.objects o' ho'
      refine ⟨row', p', hread', hmem, ?_⟩
      -- The new source was not there before, so no older object belongs to it.
      rw [hextended.source? hnone, if_neg, hsource]
      intro heq
      rw [heq, hnone] at hsource
      cases hsource
    · exact ⟨row, p, hread, ho', by rw [hextended.source? hnone, if_pos rfl]⟩

theorem FromRows.addSource {n : Nat} (hs : s.FromRows edition)
    (hread : ParsedSource.ofRow edition row = .ok p) (h : s.addSource p = (t, .ok n)) :
    t.FromRows edition := by
  have hkeys := (duplicate?_eq_none_iff.1 (duplicate?_of_addSource h)).2
  have hnone := hs.source?_eq_none hread hkeys
  exact hs.extended hread hnone (extended_of_addSource hs.consistent (.row hread) hnone h)

theorem fromRows_of_ofRows (h : ofRows edition rows = .ok d) : d.FromRows edition :=
  addRows_preserves (fromRows_empty edition)
    (fun _ _ _ _ _ _ hread hadd hs => hs.addSource hread hadd) h

/-- Rows that can be read, and whose objects have keys of their own, can be added. -/
theorem FromRows.exists_addRows {ps : List ParsedSource} (hs : s.FromRows edition)
    (hread : List.Forall₂ (fun row p => Text.isBlankText row.sql = false ∧
      ParsedSource.ofRow edition row = .ok p) rows ps)
    (hkeys : ((s.objects ++ ps.flatMap (·.objects)).map (·.key)).Nodup) :
    ∃ t, rows.foldlM (Schema.addRow edition) s = .ok t ∧ t.FromRows edition ∧
      t.sources = s.sources ++ ps.map (·.toSource) ∧
      t.objects = s.objects ++ ps.flatMap (·.objects) := by
  induction hread generalizing s with
  | nil => exact ⟨s, rfl, hs, by simp, by simp⟩
  | @cons row p rows ps hrow _ ih =>
    obtain ⟨hblank, hread⟩ := hrow
    rw [List.flatMap_cons, ← List.append_assoc, List.map_append, List.map_append] at hkeys
    have hnodup := hkeys.of_append_left
    -- No row before this one describes the same object.
    have hnew : ∀ k ∈ p.objects.map (·.key), s.contains k = false := by
      intro k hk
      refine contains_eq_false_iff.2 fun o ho heq => ?_
      exact List.disjoint_of_nodup_append hnodup (List.mem_map_of_mem ho) (heq ▸ hk)
    have hnone := hs.source?_eq_none hread hnew
    obtain ⟨t, hadd, hextended⟩ := hs.consistent.addSource (.row hread) hnone
      (duplicate?_eq_none_iff.2 ⟨hnodup.of_append_right, hnew⟩)
    have hstep : Schema.addRow edition s row = .ok t := by
      simp only [Schema.addRow, hblank, hread, hadd, Bool.false_eq_true, if_false]
    obtain ⟨u, hrun, hu, hsources, hobjects⟩ := ih (hs.extended hread hnone hextended)
      (by rwa [hextended.objects, List.map_append, List.map_append])
    refine ⟨u, ?_, hu, ?_, ?_⟩
    · rw [List.foldlM_cons, hstep]
      exact hrun
    · rw [hsources, hextended.sources, List.map_cons, List.append_assoc]
      rfl
    · rw [hobjects, hextended.objects, List.flatMap_cons, List.append_assoc]

theorem fromRows_of_ofDatabase {db : Database} (h : ofDatabase edition db = .ok d) :
    d.FromRows edition := by
  rw [ofDatabase] at h
  cases hselect : db.select catalogQuery with
  | error e =>
    rw [hselect] at h
    cases h
  | ok rows =>
    rw [hselect] at h
    exact fromRows_of_ofRows h

/-! ## Definitions in a file -/

/-- A definition that is a statement with a semicolon of its own is read by itself from a file. -/
theorem FromRows.reads (hd : d.FromRows edition) (ho : o ∈ d.objects)
    (hclosed : Statement.Closed (Token.tokenize (d.definition o))) :
    Reads (chars (d.definitionTokens o)) (itemOf o.statement (d.definitionTokens o)) := by
  obtain ⟨row, p, hread, hmem, hsource⟩ := hd.objects o ho
  have hplace := ((ParsedSource.sound_of_ofRow hread).source o hmem).1
  rw [← hplace] at hsource
  rw [Token.tokenize, definition, Token.toList_render] at hclosed
  exact reads_of_ofRow hread hmem (hd.consistent.slice? ho hsource).1 hclosed

end Schema

end SchemaAlign
