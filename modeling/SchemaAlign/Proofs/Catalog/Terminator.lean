import SchemaAlign.Proofs.Parser.Tiling
import SchemaAlign.Proofs.Schema.Unedited

/-!
# The semicolon at the end of a row

A database keeps a definition without the semicolon that ended it. Reading a row puts one behind the
last token of the statement, unless there is one. A row with the new text would be read the same:
with the same tokens, and with the same span for the whole definition. Only a statement that is not
a table would have the semicolon as one more of its words.

* `Statement.ended`: a statement with a semicolon more;
* `statement_semicolon`: this statement is read where the semicolon was put;
* `Terminated`, `exists_terminated`: what is made of the text of a row;
* `terminate_of_semicolon`: what ends with a semicolon is left alone;
* `ofRow_terminated`: a row, and the row with the new text.
-/

namespace SchemaAlign

/-- The statement with a semicolon more at its end. -/
def Statement.ended : Statement → Statement
  | .createTable table =>
    .createTable { table with span := ⟨table.span.start, table.span.stop + 1⟩ }
  | .other words span => .other (words ++ [";"]) ⟨span.start, span.stop + 1⟩

theorem Statement.span_ended (st : Statement) :
    st.ended.span = ⟨st.span.start, st.span.stop + 1⟩ := by
  cases st <;> rfl

theorem Column.mapSpan_id (c : Column) : c.mapSpan id = c := by
  obtain ⟨name, type, constraints, span⟩ := c
  have hconstraints : constraints.map (·.mapSpan id) = constraints := List.map_id'' (fun _ => rfl) _
  cases type <;> simp only [mapSpan, hconstraints] <;> rfl

theorem Statement.shift_zero (st : Statement) : st.shift 0 0 = st := by
  change st.mapSpan id = st
  cases st with
  | other => rfl
  | createTable table =>
    have hcolumns : table.columns.map (·.mapSpan id) = table.columns :=
      List.map_id'' Column.mapSpan_id _
    have hoptions : table.options.map (·.mapSpan id) = table.options :=
      List.map_id'' (fun _ => rfl) _
    simp only [mapSpan, CreateTable.mapSpan, hcolumns, hoptions]
    rfl

namespace Parser

open SchemaAlign.Parser.Stream (Parallel ofTokens)

variable {n : Nat} {xs vs : List Token} {u : Token} {st : Statement} {s : Stream}

/-- A statement that leaves a semicolon ends with one itself. -/
theorem isPunct_of_leaves_semicolon
    (h : statement (ofTokens n (xs ++ u :: Token.semicolon :: vs)) =
      .ok (st, ofTokens (n + xs.length + 1) (Token.semicolon :: vs))) : u.isPunct ";" = true := by
  have hne : ¬ Trivia (Token.semicolon :: vs) := fun h => nomatch h _ List.mem_cons_self
  rw [← List.singleton_append, ← List.append_assoc] at h
  obtain ⟨ys, v, hys, hv⟩ :=
    semicolon_of_statement (h.trans (by rw [List.length_append]; rfl)) hne
  obtain ⟨-, heq⟩ := List.append_inj' hys rfl
  cases heq
  exact hv

/-- A statement of words that takes all tokens has one word more where a semicolon was put. -/
theorem texts_ne_of_semicolon {words : List String} {span span' : Span} {g g' : Gap}
    (hu : u.isTrivia = false)
    (h : statement (ofTokens n (xs ++ u :: vs)) = .ok (.other words span, .done g)) :
    statement (ofTokens n (xs ++ u :: Token.semicolon :: vs)) ≠
      .ok (.other words span', .done g') := by
  intro h'
  have hwords := texts_of_statement h
  rw [texts_ofTokens, significantTexts_append] at hwords
  have hwords' := texts_of_statement h'
  rw [texts_ofTokens, significantTexts_append] at hwords'
  have hlist : significantTexts (u :: vs) = significantTexts (u :: Token.semicolon :: vs) :=
    List.append_cancel_left (hwords.symm.trans hwords')
  have hlength := congrArg List.length hlist
  simp [significantTexts, hu, show Token.semicolon.isTrivia = false from rfl] at hlength

/-- A statement that ends with the last significant token goes on with a semicolon that is put
    behind this token. -/
theorem statement_semicolon (hu : u.isTrivia = false) (hpunct : u.isPunct ";" = false)
    (hvs : Trivia vs)
    (h : statement (ofTokens n (xs ++ u :: vs)) = .ok (st, ofTokens (n + xs.length + 1) vs)) :
    statement (ofTokens n (xs ++ u :: Token.semicolon :: vs)) =
      .ok (st.ended, ofTokens (n + xs.length + 2) vs) := by
  -- What follows the last token: the end, or the semicolon and then the end.
  let m := n + xs.length + 1
  have hleft : ofTokens m vs = .done ⟨m, vs⟩ := ofTokens_trivia m hvs
  have hright : ofTokens m (Token.semicolon :: vs) =
      .item ⟨m, []⟩ Token.semicolon (.done ⟨m + 1, vs⟩) := by
    rw [ofTokens_cons m rfl, ofTokens_trivia (m + 1) hvs]
  obtain ⟨g, hlast⟩ := parallel_ofTokens_cons (d := 0) n xs hu vs (Token.semicolon :: vs)
  have hstop := hlast.stop_gap rfl
  change Parallel 0 (.item g u (ofTokens m vs)) (.item g u (ofTokens m (Token.semicolon :: vs))) _ _
    at hlast
  rw [hleft, hright] at hlast
  have hs := hlast.trans (.item .barrier)
  have hp := parallel_statement ⟨rfl, rfl, rfl⟩ hs hstop
  change statement _ = .ok (st, ofTokens m vs) at h
  change statement (ofTokens (n + 0) _) = .ok (st.ended, ofTokens (m + 1) vs)
  rw [hleft] at h
  rw [h] at hp
  rw [ofTokens_trivia (m + 1) hvs]
  generalize hx' : statement (ofTokens (n + 0) (xs ++ u :: Token.semicolon :: vs)) = x' at hp ⊢
  generalize hx : Except.ok (st, Stream.done ⟨m, vs⟩) = x at hp
  cases hp with
  | fault => cases hx
  | before hr =>
    -- The statement would have a semicolon for its last token.
    cases hx
    cases hr
    rw [← hright] at hx'
    rw [isPunct_of_leaves_semicolon hx'] at hpunct
    cases hpunct
  | @table st₀ start =>
    cases hx
    cases st₀ with
    | createTable table =>
      rw [Statement.shift_zero]
      rfl
    | other words span => exact absurd hx' (texts_ne_of_semicolon hu h)
  | other =>
    cases hx
    simp only [Stream.cutStatement, List.append_nil]
    split <;> rfl

/-- The statement of a list without semicolons at its end, and the one where a semicolon was put. -/
theorem reading_ended {w us : List Token} {t : Token} (hw : Trivia w) (hvs : Trivia vs)
    (ht : t.isTrivia = false) (hlast : t :: us = xs ++ [u]) (hu : u.isTrivia = false)
    (hpunct : u.isPunct ";" = false)
    (h : statement (ofTokens w.length (t :: us ++ vs)) =
      .ok (st, ofTokens (w.length + us.length + 1) vs)) :
    Reading 0 (w ++ (t :: us ++ [Token.semicolon]) ++ vs) [st.ended] := by
  have hlength : us.length = xs.length := by
    have := congrArg List.length hlast
    simpa using this
  rw [hlength, hlast, List.append_assoc] at h
  have hended := statement_semicolon hu hpunct hvs h
  have hlist : t :: (us ++ [Token.semicolon]) ++ vs = xs ++ u :: Token.semicolon :: vs := by
    rw [← List.cons_append, hlast, List.append_assoc, List.append_assoc]
    rfl
  have hstatement : statement (ofTokens (0 + w.length) (t :: (us ++ [Token.semicolon]) ++ vs)) =
      .ok (st.ended, ofTokens (0 + w.length + (us ++ [Token.semicolon]).length + 1) vs) := by
    rw [hlist, Nat.zero_add, hended, ← hlength, List.length_append, List.length_singleton]
    rfl
  rw [List.append_assoc]
  exact Reading.cons hw ht rfl hstatement (.nil hvs)

end Parser

open SchemaAlign.Parser (Reading Trivia reading_ended)
open SchemaAlign.Token (render semicolon tokenize)

variable {tokens us vs : List Token} {u : Token} {st : Statement} {sql : String}
  {row : CatalogRow} {edition : Nat} {p : ParsedSource}

/-- What is made of a text with the one statement `st`: the text itself if its last significant
    token is a semicolon, or else the text with a semicolon right behind that token. In both cases
    with the one statement of the new text. -/
inductive Terminated (sql : String) (st : Statement) : String → Statement → Prop
  | kept {us vs : List Token} : tokenize sql = us ++ semicolon :: vs → Trivia vs →
      Terminated sql st sql st
  | added {us vs : List Token} {t : Token} : tokenize sql = us ++ t :: vs → t.isTrivia = false →
      t ≠ semicolon → Trivia vs →
      Terminated sql st (render (us ++ [t]) ++ ";" ++ render vs) st.ended

theorem Statement.withSpan_span (st : Statement) : st.withSpan st.span = st := by
  cases st <;> rfl

/-- A definition that ends with a semicolon is left alone. -/
theorem terminate_of_semicolon (h : slice? tokens st.span = some (us ++ [semicolon])) :
    terminate tokens st = (tokens, st) := by
  obtain ⟨as, bs, rfl, hspan⟩ := slice?_eq_some_iff_append.1 h
  rw [terminate_eq hspan List.getLast?_concat, if_pos (by decide)]

/-- A text with one statement, ended with a semicolon, has one statement again, whose span is the
    one that is kept for the definition. It ends with a semicolon. -/
theorem exists_terminated (h : Reading 0 (tokenize sql) [st]) : ∃ st' us,
    Terminated sql st (render (terminate (tokenize sql) st).1) st' ∧
      Reading 0 (terminate (tokenize sql) st).1 [st'] ∧
      (terminate (tokenize sql) st).2 = st.withSpan st'.span ∧
      slice? (terminate (tokenize sql) st).1 st'.span = some (us ++ [semicolon]) := by
  obtain ⟨w, t, us, vs, u, htokens, hst, hspan, hw, hvs, ht, hlast, hu⟩ := h.single
  obtain ⟨xs, hxs⟩ := List.getLast?_eq_some_iff.1 hlast
  have hsplit : tokenize sql = (w ++ xs) ++ u :: vs := by
    rw [htokens, hxs]
    simp
  have hterminate : terminate (w ++ (t :: us) ++ vs) st = _ := terminate_eq hspan hlast
  rw [← htokens] at hterminate
  by_cases hpunct : u.isPunct ";" = true
  -- The last token is a semicolon, and all tokens stay.
  · obtain rfl : u = semicolon := Parser.eq_of_isPunct hpunct
    rw [if_pos hpunct] at hterminate
    rw [hterminate, Token.render_tokenize]
    refine ⟨st, xs, .kept hsplit hvs, h, (Statement.withSpan_span st).symm, ?_⟩
    rw [hspan, htokens, slice?_append, hxs]
  -- A semicolon is put right behind it, before blanks and comments.
  · rw [if_neg hpunct] at hterminate
    have hreading := reading_ended hw hvs ht hxs hu (Bool.eq_false_iff.2 hpunct) hst
    have hspan' : st.ended.span =
        ⟨w.length, w.length + (t :: us ++ [semicolon]).length⟩ := by
      rw [Statement.span_ended, hspan, List.length_append, List.length_singleton, ← Nat.add_assoc]
    have hrender : render (w ++ (t :: us ++ [semicolon]) ++ vs) =
        render (w ++ xs ++ [u]) ++ ";" ++ render vs := by
      rw [hxs]
      simp [render, String.ofList_append, String.append_assoc, semicolon]
    rw [hterminate]
    refine ⟨st.ended, t :: us, ?_, hreading, by rw [hspan'], by rw [hspan', slice?_append]⟩
    rw [hrender]
    exact .added hsplit hu (fun h => hpunct (by rw [h]; decide)) hvs

/-- A row whose statement ends with a semicolon has the tokens of its text. -/
theorem ParsedSource.exists_ofRow_of_semicolon (row : CatalogRow) {kind : ObjectKind}
    (hkind : ObjectKind.ofText? row.type = some kind)
    (hreading : Reading 0 (tokenize row.sql) [st])
    (hslice : slice? (tokenize row.sql) st.span = some (us ++ [semicolon])) (edition : Nat) :
    ∃ p o, ofRow edition row = .ok p ∧ p.tokens = tokenize row.sql ∧ p.objects = [o] ∧
      o.span = st.span := by
  obtain ⟨p, hp⟩ := exists_ofRow hkind hreading edition
  obtain ⟨kind', st', -, hreading', rfl⟩ := ofRow_eq_ok hp
  obtain rfl : st = st' := List.singleton_inj.1 (hreading.unique hreading')
  have hkept := terminate_of_semicolon hslice
  exact ⟨_, _, hp, by rw [hkept], rfl, by rw [SchemaObject.span, hkept]⟩

/-- A row in whose text no string is open is read with the text itself, or with one semicolon more
    right behind the last significant token. What is read is what the new text says: its tokens, and
    its one statement, with the same spans inside and for the whole of it. The definition ends with
    a semicolon, and the row with the new text is read as the same tokens and the same span. -/
theorem ParsedSource.ofRow_terminated (h : ofRow edition row = .ok p)
    (hopen : ∀ t ∈ tokenize row.sql, ¬t.IsOpen) :
    ∃ o st st', p.objects = [o] ∧ Statement.parse (tokenize row.sql) = .ok [st] ∧
      Terminated row.sql st p.render st' ∧ tokenize p.render = p.tokens ∧
      Statement.parse (tokenize p.render) = .ok [st'] ∧ st'.span = o.span ∧
      o.statement = st.withSpan o.span ∧
      (∃ us, slice? p.tokens o.span = some (us ++ [semicolon])) ∧
      ∀ edition', ∃ q o', ofRow edition' { row with sql := p.render } = .ok q ∧
        q.tokens = p.tokens ∧ q.objects = [o'] ∧ o'.span = o.span := by
  have htokens : tokenize p.render = p.tokens := tokenize_render_of_ofRow h hopen
  obtain ⟨kind, st, hkind, hreading, hp⟩ := ofRow_eq_ok h
  obtain ⟨st', us, htext, hreading', hst', hslice⟩ := exists_terminated hreading
  let o : SchemaObject :=
    { key := ⟨kind, row.name⟩, statement := (terminate (tokenize row.sql) st).2,
      source := Source.catalogId ⟨kind, row.name⟩, edition }
  have hspan : o.span = st'.span := by
    rw [SchemaObject.span, show o.statement = _ from hst', Statement.span_withSpan]
  have hsame : p.tokens = (terminate (tokenize row.sql) st).1 := by rw [hp]
  rw [← hsame, ← htokens] at hreading' hslice
  have hagain := exists_ofRow_of_semicolon { row with sql := p.render } hkind hreading' hslice
  rw [← hspan, htokens] at hslice
  rw [← hspan, htokens] at hagain
  rw [← hsame] at htext
  exact ⟨o, st, st', by rw [hp], Statement.parse_of_reading hreading, htext, htokens,
    Statement.parse_of_reading hreading', hspan.symm, hspan ▸ hst', ⟨us, hslice⟩, hagain⟩

/-- The semicolon of a trigger goes behind the `END` of its body and before the comment. -/
theorem ParsedSource.ofRow_terminated_trigger :
    let row : CatalogRow := ⟨"trigger", "r", "t",
      "CREATE TRIGGER r AFTER INSERT ON t BEGIN SELECT 1; END -- on t"⟩
    ∃ p q o o', ofRow 0 row = .ok p ∧ ofRow 1 { row with sql := p.render } = .ok q ∧
      p.render = "CREATE TRIGGER r AFTER INSERT ON t BEGIN SELECT 1; END; -- on t" ∧
      p.objects = [o] ∧ q.objects = [o'] ∧ q.tokens = p.tokens ∧ o'.span = o.span := by
  intro row
  have hsome : (ofRow 0 row).toOption.map (·.render) =
    some "CREATE TRIGGER r AFTER INSERT ON t BEGIN SELECT 1; END; -- on t" := by decide +kernel
  obtain ⟨p, hp, hrender⟩ := Option.map_eq_some_iff.1 hsome
  have hclosed : ∀ t ∈ tokenize row.sql, t.kind ≠ .string := by decide +kernel
  have hrow : ofRow 0 row = .ok p := by
    cases h : ofRow 0 row with
    | error => rw [h] at hp; cases hp
    | ok => rw [h] at hp; cases hp; rfl
  obtain ⟨o, st, st', ho, -, -, -, -, -, -, -, hagain⟩ := ofRow_terminated hrow fun t ht hopen =>
    absurd hopen.1 (hclosed t ht)
  obtain ⟨q, o', hq, htokens, ho', hspan⟩ := hagain 1
  exact ⟨p, q, o, o', hrow, hq, hrender, ho, ho', htokens, hspan⟩

end SchemaAlign
