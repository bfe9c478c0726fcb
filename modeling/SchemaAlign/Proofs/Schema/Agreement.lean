import SchemaAlign.Proofs.Catalog
import SchemaAlign.Proofs.Token.Excerpt

/-!
# The definitions of a file as a catalog

A database keeps each definition of a file as the text of a row of its own. The rows that a file
amounts to are read as a schema that no comparison tells from the file.

* `substance_terminated`: a semicolon after a definition is not compared;
* `RestatedBy`, `exists_restating_row`: one definition as a row;
* `restates_of_sources`: the schema of such rows;
* `ofRows_of_load`: the catalog with the definitions of a file says what the file says.
-/

namespace SchemaAlign

open SchemaAlign.Parser (Reading)
open SchemaAlign.Token (ofChars chars tokenize)

variable {p : ParsedSource} {o : SchemaObject} {edition edition' n : Nat} {id text : String}
  {row : CatalogRow} {rows : List CatalogRow} {part : List Token} {t : Token} {st : Statement}

namespace Token

/-- A semicolon that ends a definition is not compared. -/
theorem substance_terminated (h : ofChars (chars part) = part) (hlast : part.getLast? = some t)
    (ht : t.isTrivia = false) (hpunct : t.isPunct ";" = false) (hclosed : ¬ t.IsOpen) :
    substance (part ++ [semicolon]) = substance part := by
  obtain ⟨xs, rfl⟩ := List.getLast?_eq_some_iff.1 hlast
  have hsemicolon : semicolon.isTrivia = false ∧ semicolon.isPunct ";" = true := by decide
  rw [substance, substance, relex_of_ofChars h,
    relex_of_ofChars (ofChars_terminated h hlast ht hclosed)]
  simp [withoutTerminator, ht, hpunct, hsemicolon]

end Token

/-! ## One definition -/

/-- The source holds one object, of the given key, and what is compared of its definition is the
    same as of the given one. -/
def ParsedSource.RestatedBy (key : ObjectKey) (definition : List Token) (p : ParsedSource) : Prop :=
  ∃ o tokens, p.objects = [o] ∧ o.key = key ∧ slice? p.tokens o.span = some tokens ∧
    Token.substance definition = Token.substance tokens

/-- A statement on its own, as a row. -/
theorem exists_restating_row {key : ObjectKey} (hlex : ofChars (chars part) = part)
    (hreading : Reading 0 part [st]) (hspan : st.span = ⟨0, part.length⟩)
    (hclosed : ∀ t ∈ part, ¬ t.IsOpen) (htype : row.type = key.kind.text)
    (hname : row.name = key.name) (hsql : row.sql = Token.render part) (edition : Nat) :
    Text.isBlankText row.sql = false ∧
      ∃ p, ParsedSource.ofRow edition row = .ok p ∧ p.RestatedBy key part := by
  obtain ⟨t, us, u, rfl, ht, hlast, hu⟩ := hreading.ends hspan
  have htokens : tokenize row.sql = t :: us := by rw [hsql, tokenize, Token.toList_render, hlex]
  refine ⟨hsql ▸ Token.isBlankText_render hlex ht, ?_⟩
  have hkind : ObjectKind.ofText? row.type = some key.kind := by
    rw [htype, ObjectKind.ofText?_text]
  obtain ⟨p, hread⟩ := ParsedSource.exists_ofRow hkind (htokens ▸ hreading) edition
  refine ⟨p, hread, ?_⟩
  obtain ⟨kind, st', hkind', hreading', rfl⟩ := ParsedSource.ofRow_eq_ok hread
  rw [htokens] at hreading' ⊢
  obtain rfl : key.kind = kind := Option.some.inj (hkind.symm.trans hkind')
  obtain rfl : st = st' := List.singleton_inj.1 (hreading.unique hreading')
  have hkey : (⟨key.kind, row.name⟩ : ObjectKey) = key := by rw [hname]
  -- The statement is the whole text, so the semicolon goes to its end.
  have hterminate := @terminate_eq [] (t :: us) [] u st (by simpa using hspan) hlast
  simp only [List.nil_append, List.append_nil, List.length_nil, Nat.zero_add] at hterminate
  by_cases hpunct : u.isPunct ";" = true
  · rw [if_pos hpunct] at hterminate
    refine ⟨_, t :: us, rfl, hkey, ?_, rfl⟩
    simp only [hterminate, SchemaObject.span, hspan]
    exact slice?_length (t :: us)
  · rw [if_neg hpunct] at hterminate
    refine ⟨_, t :: us ++ [Token.semicolon], rfl, hkey, ?_, ?_⟩
    · simp only [hterminate, SchemaObject.span, Statement.span_withSpan]
      exact slice?_length (t :: us ++ [Token.semicolon])
    · exact (Token.substance_terminated hlex hlast hu (by simpa using hpunct)
        (hclosed u (List.mem_of_getLast? hlast))).symm

/-! ## All definitions -/

namespace Schema

variable {s t : Schema} {ps : List ParsedSource}

theorem exists_of_forall₂_exists {α β γ : Type} {ρ : α → β → Prop} {σ : β → γ → Prop} {as : List α}
    {cs : List γ} (h : List.Forall₂ (fun a c => ∃ b, ρ a b ∧ σ b c) as cs) :
    ∃ bs, List.Forall₂ ρ as bs ∧ List.Forall₂ σ bs cs := by
  induction h with
  | nil => exact ⟨[], .nil, .nil⟩
  | cons hac _ ih =>
    obtain ⟨b, hab, hbc⟩ := hac
    obtain ⟨bs, hρ, hσ⟩ := ih
    exact ⟨b :: bs, .cons hab hρ, .cons hbc hσ⟩

/-- The objects of sources that each restate one of the given objects. -/
theorem forall₂_objects {objects : List SchemaObject}
    (h : List.Forall₂ (fun p o => p.RestatedBy o.key (s.definitionTokens o)) ps objects) :
    List.Forall₂ (fun o o' => o.key = o'.key ∧ ∃ p ∈ ps, o' ∈ p.objects ∧
      ∃ tokens, slice? p.tokens o'.span = some tokens ∧
        Token.substance (s.definitionTokens o) = Token.substance tokens)
      objects (ps.flatMap (·.objects)) := by
  induction h with
  | nil => exact .nil
  | @cons p o ps objects hp _ ih =>
    obtain ⟨o', tokens, hobjects, hkey, hslice, hsubstance⟩ := hp
    rw [List.flatMap_cons, hobjects]
    refine .cons ⟨hkey.symm, p, List.mem_cons_self, by simp [hobjects], tokens, hslice,
      hsubstance⟩ ?_
    exact ih.imp fun _ _ ⟨hkey, q, hq, h⟩ => ⟨hkey, q, List.mem_cons_of_mem p hq, h⟩

/-- The schema of these sources restates the given one. -/
theorem restates_of_sources (ht : t.Consistent) (hsources : t.sources = ps.map (·.toSource))
    (hobjects : t.objects = ps.flatMap (·.objects)) (hps : ∀ p ∈ ps, p.IsReading)
    (h : List.Forall₂ (fun p o => p.RestatedBy o.key (s.definitionTokens o)) ps s.objects) :
    s.Restates t := by
  unfold Restates
  rw [hobjects]
  refine (forall₂_objects h).imp fun o o' ⟨hkey, p, hp, ho', tokens, hslice, hsubstance⟩ => ?_
  have hmem : o' ∈ t.objects := hobjects ▸ List.mem_flatMap.2 ⟨p, hp, ho'⟩
  have hsource : t.source? o'.source = some p.toSource := by
    rw [((hps p hp).sound.source o' ho').1]
    exact ht.source?_id (hsources ▸ List.mem_map_of_mem hp)
  have hslice' := (ht.slice? hmem hsource).1
  rw [Option.some.inj (hslice'.symm.trans hslice)]
  exact ⟨hkey, hsubstance⟩

/-- The definition of an object of a file is a part of the text that is one statement by itself. -/
theorem exists_definition (hs : empty.load edition id text = (s, .ok n)) (ho : o ∈ s.objects) :
    ∃ as bs st, tokenize text = as ++ s.definitionTokens o ++ bs ∧
      Reading 0 (s.definitionTokens o) [st] ∧ st.span = ⟨0, (s.definitionTokens o).length⟩ := by
  obtain ⟨-, -, sts, hreading, hobjects, hslice⟩ := exists_statements_of_load hs
  have hst : o.statement ∈ sts := by
    rw [hobjects] at ho
    obtain ⟨st, hst, hcreates⟩ := List.mem_filterMap.1 ho
    obtain ⟨key, -, rfl⟩ := Option.map_eq_some_iff.1 hcreates
    exact hst
  obtain ⟨as, part, bs, st₀, htext, h₀, hspan, hplace⟩ := hreading.exists_excerpt hst
  have hpart := hslice o ho
  rw [SchemaObject.span, hplace, Statement.shift, Statement.span_mapSpan, hspan, Nat.zero_add,
    htext] at hpart
  have hspan' : Span.shift 0 as.length ⟨0, part.length⟩ =
      ⟨as.length, as.length + part.length⟩ := by
    simp [Span.shift, Nat.add_comm]
  rw [hspan', slice?_append] at hpart
  obtain rfl := Option.some.inj hpart
  exact ⟨as, bs, st₀, htext, h₀, hspan⟩

/-- The rows with the definitions of a file can be read, each as a source that restates an object. -/
theorem exists_restating_rows (hs : empty.load edition id text = (s, .ok n))
    (hclosed : ∀ t ∈ tokenize text, ¬ t.IsOpen)
    (hrows : rows.map (fun row => (row.type, row.name, row.sql)) =
      s.objects.map fun o => (o.key.kind.text, o.key.name, s.definition o)) :
    ∃ ps, List.Forall₂ (fun row p => Text.isBlankText row.sql = false ∧
        ParsedSource.ofRow edition' row = .ok p) rows ps ∧ (∀ p ∈ ps, p.IsReading) ∧
      List.Forall₂ (fun p o => p.RestatedBy o.key (s.definitionTokens o)) ps s.objects := by
  rw [eq_comm, ← List.forall₂_eq_eq_eq, List.forall₂_map_left_iff,
    List.forall₂_map_right_iff] at hrows
  have hmem := (List.forall₂_and_left _ _).2 ⟨fun o (ho : o ∈ s.objects) => ho, hrows⟩
  have hrow : List.Forall₂ (fun row o => ∃ p, (Text.isBlankText row.sql = false ∧
      ParsedSource.ofRow edition' row = .ok p) ∧
        p.IsReading ∧ p.RestatedBy o.key (s.definitionTokens o)) rows s.objects := by
    refine (hmem.imp fun o row ⟨ho, hrow⟩ => ?_).flip
    simp only [Prod.mk.injEq] at hrow
    obtain ⟨as, bs, st, htext, hreading, hspan⟩ := exists_definition hs ho
    have hlex := Token.ofChars_part (show ofChars text.toList = as ++ (s.definitionTokens o ++ bs)
      by rw [← List.append_assoc, ← htext, tokenize])
    obtain ⟨hblank, p, hread, hrestated⟩ := exists_restating_row hlex hreading hspan
      (fun t ht => hclosed t (by simp [htext, ht])) hrow.1.symm hrow.2.1.symm hrow.2.2.symm edition'
    exact ⟨p, ⟨hblank, hread⟩, .row hread, hrestated⟩
  obtain ⟨ps, hread, hps⟩ := exists_of_forall₂_exists hrow
  exact ⟨ps, hread, (List.forall₂_and_left _ _).1 hps⟩

/-- A text is loaded that holds no string without an end, and for each of its objects there is a
    row, in order, with its kind, its name and its definition. The rows are read as a schema with
    the same keys in the same order; there is nothing to do between the two schemas, and from any
    other one, the same has to be done to the same objects. -/
theorem ofRows_of_load (hs : empty.load edition id text = (s, .ok n))
    (hclosed : ∀ t ∈ tokenize text, ¬ t.IsOpen)
    (hrows : rows.map (fun row => (row.type, row.name, row.sql)) =
      s.objects.map fun o => (o.key.kind.text, o.key.name, s.definition o)) :
    ∃ t, ofRows edition' rows = .ok t ∧
      t.objects.map (·.key) = s.objects.map (·.key) ∧
      s.diff t = .ok [] ∧ t.diff s = .ok [] ∧
      ∀ current : Schema, current.WellFormed → ∃ edits edits', current.diff s = .ok edits ∧
        current.diff t = .ok edits' ∧
        edits.map (fun e => (e.tag, e.target)) = edits'.map fun e => (e.tag, e.target) := by
  have hscons := (exists_statements_of_load hs).1
  obtain ⟨ps, hread, hreadings, hrestated⟩ := exists_restating_rows hs hclosed hrows
  have hkeys : (ps.flatMap (·.objects)).map (·.key) = s.objects.map (·.key) := by
    rw [eq_comm, ← List.forall₂_eq_eq_eq, List.forall₂_map_left_iff, List.forall₂_map_right_iff]
    exact (forall₂_objects hrestated).imp fun _ _ h => h.1
  obtain ⟨t, hrun, hfrom, hsources, hobjects⟩ := (fromRows_empty edition').exists_addRows hread
    (by rw [empty, List.nil_append, hkeys]; exact hscons.keys)
  have htcons := hfrom.consistent
  have hrestates : s.Restates t :=
    restates_of_sources htcons hsources hobjects hreadings hrestated
  -- Nothing is to be done from a schema to itself, and so to one that restates it.
  have hst : s.edits t = [] := by
    rw [← List.map_eq_nil_iff, ← hrestates.edits, edits_self hscons, List.map_nil]
  have hts : t.edits s = [] := by
    rw [← List.map_eq_nil_iff, hrestates.edits, edits_self htcons, List.map_nil]
  refine ⟨t, hrun, hrestates.keys.symm, ?_, ?_, fun current hcurrent => ?_⟩
  · rw [hscons.diff htcons, hst]
  · rw [htcons.diff hscons, hts]
  · exact ⟨_, _, hcurrent.consistent.diff hscons, hcurrent.consistent.diff htcons,
      hrestates.edits current⟩

/-- A table and a view, the second one without a semicolon. -/
theorem ofRows_of_load_view :
    let text := "CREATE TABLE a(x); CREATE VIEW v AS SELECT 'y' --"
    let s := (empty.load 0 "a.sql" text).1
    let rows : List CatalogRow :=
      [⟨"table", "a", "a", "CREATE TABLE a(x);"⟩, ⟨"view", "v", "v", "CREATE VIEW v AS SELECT 'y'"⟩]
    ∃ t, ofRows 1 rows = .ok t ∧ t.objects.map (·.key) = s.objects.map (·.key) ∧
      s.diff t = .ok [] ∧ t.diff s = .ok [] ∧
      ∀ current : Schema, current.WellFormed → ∃ edits edits', current.diff s = .ok edits ∧
        current.diff t = .ok edits' ∧
        edits.map (fun e => (e.tag, e.target)) = edits'.map fun e => (e.tag, e.target) := by
  intro text s rows
  have hs : empty.load 0 "a.sql" text = (s, .ok 2) := Prod.ext rfl (by decide +kernel)
  have hclosed : ∀ t ∈ tokenize text, ¬ t.IsOpen := by
    have hstring : ∀ t ∈ tokenize text, t.kind = .string → t.text.toList = ['\'', 'y', '\''] := by
      decide +kernel
    rintro t ht ⟨hkind, q, body, htext, hpaired⟩
    rw [hstring t ht hkind] at htext
    cases htext
    rcases hpaired with _ | ⟨-, _ | ⟨hquote, -⟩⟩
    exact hquote rfl
  have hrows : rows.map (fun row => (row.type, row.name, row.sql)) =
      s.objects.map fun o => (o.key.kind.text, o.key.name, s.definition o) := by decide +kernel
  exact ofRows_of_load hs hclosed hrows

end Schema

end SchemaAlign
