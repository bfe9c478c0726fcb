import SchemaAlign.Proofs.Parser.Stretch
import SchemaAlign.Proofs.Parser.Reading
import SchemaAlign.Proofs.Span
import SchemaAlign.Token.Lexer

/-!
# Statements tile their tokens

* `Span.HasRow`: tight spans in a row inside another span;
* `Stream.On`: a stream whose tokens stand in a list;
* `Row.hasRow`: its stretches in a row have spans in a row;
* `Statement.Tiled`: the parts of a statement stand inside it, in a row;
* `statements_tile`: all statements of a list of tokens.
-/

namespace SchemaAlign

/-! ## Spans in a row -/

namespace Span

/-- The span begins at a significant token and ends just past one. -/
structure Tight (tokens : List Token) (s : Span) : Prop where
  lt : s.start < s.stop
  first : ∃ t, tokens[s.start]? = some t ∧ t.isTrivia = false
  last : ∃ t, tokens[s.stop - 1]? = some t ∧ t.isTrivia = false

theorem Tight.stop_le {tokens : List Token} {s : Span} (h : s.Tight tokens) :
    s.stop ≤ tokens.length := by
  obtain ⟨t, ht, -⟩ := h.last
  have := (List.getElem?_eq_some_iff.1 ht).1
  omega

/-- The spans are tight and stand inside the outer one, each before the next one, so that no two of
    them overlap. -/
structure HasRow (tokens : List Token) (outer : Span) (spans : List Span) : Prop where
  tight : ∀ s ∈ spans, s.Tight tokens
  inside : ∀ s ∈ spans, outer.start ≤ s.start ∧ s.stop ≤ outer.stop
  ordered : spans.Pairwise fun a b => a.stop ≤ b.start

/-- Whether the position is one of the span. -/
def covers (s : Span) (i : Nat) : Bool :=
  decide (s.start ≤ i) && decide (i < s.stop)

end Span

namespace Parser

open SchemaAlign.Parser.Stream (Rest ofTokens)

/-! ## Streams of a list -/

/-- The significant tokens of the stream stand in the list, at the positions that the stream gives
    them. -/
inductive Stream.On (tokens : List Token) : Stream → Prop
  | done {g : Gap} : On tokens (.done g)
  | item {g : Gap} {t : Token} {rest : Stream} : tokens[g.stop]? = some t → t.isTrivia = false →
      rest.gap.start = g.stop + 1 → On tokens rest → On tokens (.item g t rest)

open SchemaAlign.Parser.Stream (On)

variable {tokens us vs ts : List Token} {s r : Stream} {n : Nat} {t : Token}

theorem on_ofTokens (us vs : List Token) : On (us ++ vs) (ofTokens us.length vs) := by
  induction vs using significant_induction generalizing us with
  | trivia w hw =>
    rw [ofTokens_trivia _ hw]
    exact .done
  | item w t vs hw ht ih =>
    rw [ofTokens_append _ hw ht]
    have hrest := ih (us ++ w ++ [t])
    rw [List.length_append, List.length_append, List.length_singleton] at hrest
    refine .item ?_ ht (Stream.start_gap_ofTokens _ _) (by simpa using hrest)
    simp [Gap.stop]

theorem Stream.On.rest (hs : On tokens s) (h : Rest s r) : On tokens r := by
  induction h with
  | refl => exact hs
  | item _ ih =>
    cases hs with
    | item _ _ _ hs => exact ih hs

theorem Stream.On.stop_le (hs : On tokens s) (h : Rest s r) : s.gap.stop ≤ r.gap.stop := by
  induction h with
  | refl => exact Nat.le_refl _
  | @item g t s r _ ih =>
    cases hs with
    | item _ _ hstart hs =>
      have hle := s.gap.start_le_stop
      have hstop := ih hs
      rw [hstart] at hle
      exact Nat.le_of_succ_le (Nat.le_trans hle hstop)

theorem Stream.On.start_le (hs : On tokens s) (h : Rest s r) : s.gap.start ≤ r.gap.start := by
  induction h with
  | refl => exact Nat.le_refl _
  | @item g t s r _ ih =>
    cases hs with
    | item _ _ hstart hs =>
      have hle := ih hs
      rw [hstart] at hle
      exact Nat.le_trans g.start_le_stop (Nat.le_of_succ_le hle)

/-- What is left begins just past a significant token, if anything was read. -/
theorem Stream.On.last (hs : On tokens s) (h : Rest s r) :
    r = s ∨ ∃ t, tokens[r.gap.start - 1]? = some t ∧ t.isTrivia = false := by
  induction h with
  | refl => exact .inl rfl
  | item _ ih =>
    cases hs with
    | item ht htrivia hstart hs =>
      obtain rfl | hlast := ih hs
      · refine .inr ⟨_, ?_, htrivia⟩
        rw [hstart, Nat.add_sub_cancel, ht]
      · exact .inr hlast

theorem Stream.On.tight (hs : On tokens s) (h : Rest s r) (hlt : r.size < s.size) :
    Span.Tight tokens ⟨s.gap.stop, r.gap.start⟩ := by
  obtain rfl | hlast := hs.last h
  · exact absurd hlt (Nat.lt_irrefl _)
  cases h with
  | refl => exact absurd hlt (Nat.lt_irrefl _)
  | item h =>
    cases hs with
    | item ht htrivia hstart hs =>
      refine ⟨?_, ⟨_, ht, htrivia⟩, hlast⟩
      have hle := hs.start_le h
      rw [hstart] at hle
      exact hle

/-- Stretches in a row have spans in a row. -/
theorem Row.hasRow {spans : List Span} (hs : On tokens s) (h : Row (Stretch id) s spans r) :
    Span.HasRow tokens ⟨s.gap.stop, r.gap.start⟩ spans := by
  induction h with
  | nil => exact ⟨nofun, nofun, .nil⟩
  | @cons s s' q r a spans hrest hp hrow ih =>
    have hs' := hs.rest hrest
    have hq := hs'.rest hp.rest
    obtain ⟨tight, inside, ordered⟩ := ih hq
    obtain rfl : a = ⟨s'.gap.stop, q.gap.start⟩ := hp.span
    have hqr := hq.start_le (hrow.rest fun _ _ _ hp => hp.rest)
    refine ⟨List.forall_mem_cons.2 ⟨hs'.tight hp.rest hp.lt, tight⟩,
      List.forall_mem_cons.2 ⟨⟨hs.stop_le hrest, hqr⟩, fun b hb => ?_⟩,
      .cons (fun b hb => ?_) ordered⟩
    · obtain ⟨hstart, hstop⟩ := inside b hb
      exact ⟨Nat.le_trans (hs.stop_le (hrest.trans hp.rest)) hstart, hstop⟩
    · exact Nat.le_trans q.gap.start_le_stop (inside b hb).1

/-! ## Words -/

/-- The texts of the significant tokens. -/
def significantTexts (ts : List Token) : List String :=
  (ts.filter (!·.isTrivia)).map (·.text)

theorem significantTexts_append (us vs : List Token) :
    significantTexts (us ++ vs) = significantTexts us ++ significantTexts vs := by
  simp [significantTexts]

theorem significantTexts_trivia {w : List Token} (hw : Trivia w) : significantTexts w = [] := by
  rw [significantTexts, List.filter_eq_nil_iff.2 (fun t ht => by simp [hw t ht]), List.map_nil]

/-- The texts of the significant tokens of a stream. -/
def Stream.texts : Stream → List String
  | done _ => []
  | item _ t rest => t.text :: rest.texts

theorem texts_ofTokens (n : Nat) (ts : List Token) :
    (ofTokens n ts).texts = significantTexts ts := by
  induction ts using significant_induction generalizing n with
  | trivia w hw => rw [ofTokens_trivia n hw, significantTexts_trivia hw, Stream.texts]
  | item w t us hw ht ih =>
    rw [ofTokens_append n hw ht, significantTexts_append, significantTexts_trivia hw, Stream.texts,
      ih]
    simp [significantTexts, ht]

/-- The words of a statement and what it leaves are all there is. -/
theorem texts_cutStatement (n : Nesting) (s : Stream) :
    (s.cutStatement n).1 ++ (s.cutStatement n).2.texts = s.texts := by
  induction s generalizing n with
  | done => rfl
  | item g t rest ih =>
    by_cases hn : n.isEnd t = true
    · simp only [Stream.cutStatement, hn, if_true, Stream.texts, List.singleton_append]
    · simp only [Stream.cutStatement, hn, Bool.false_eq_true, if_false, Stream.texts,
        List.cons_append, ih]

end Parser

/-! ## Statements -/

/-- The parts of a table stand inside it in a row, and so do those of each column. The words of any
    other statement are the significant tokens of its span. -/
def Statement.Tiled (tokens : List Token) : Statement → Prop
  | createTable table => table.span.HasRow tokens table.parts ∧
      ∀ c ∈ table.columns, c.span.HasRow tokens c.parts
  | other words span => ∃ part, slice? tokens span = some part ∧
      words = Parser.significantTexts part

namespace Parser

open SchemaAlign.Parser.Stream (Rest On ofTokens)

variable {tokens us vs ts : List Token} {s r : Stream} {n : Nat} {t : Token} {st : Statement}
  {sts : List Statement}

theorem row_of_statement {table : CreateTable} (h : statement s = .ok (.createTable table, r)) :
    Row (Stretch id) s table.parts r ∧
      ∀ c ∈ table.columns, ∃ s' q, Rest s s' ∧ column? s' = .ok (some c, q) := by
  rw [statement_eq] at h
  split at h
  · cases h
  · next s' hphrase =>
    split at h
    · cases h
    · next x B hbody =>
      cases h
      obtain ⟨q, hcolumns, hoptions⟩ := rows_of_tableBody hbody
      replace hcolumns := hcolumns.of_rest (rest_of_afterPhrase? hphrase)
      have htail : Rest B B.tail := by
        cases B with
        | done => exact .refl
        | item => exact .item .refl
      refine ⟨?_, fun c hc => hcolumns.exists_stretch (fun _ _ _ h => forward_column? _ _ _ h) hc⟩
      have hrow := (hcolumns.spans fun _ _ _ hp => (stretch_of_column? hp).toStretch).append
        (hoptions.spans fun _ _ _ hp => hp)
      have hend : Row (Stretch id) B [] B.tail := .nil htail
      simpa [CreateTable.parts] using hrow.append hend

theorem texts_of_statement {words : List String} {span : Span}
    (h : statement s = .ok (.other words span, r)) : words ++ r.texts = s.texts := by
  rw [statement_eq] at h
  split at h
  · cases h
    exact texts_cutStatement .start s
  · split at h <;> cases h

/-- A statement that is read from the tokens `ts`, at their place in a list. -/
theorem tiled_of_statement
    (h : statement (ofTokens us.length (ts ++ vs)) =
      .ok (st, ofTokens (us.length + ts.length) vs))
    (hspan : st.span = ⟨us.length, us.length + ts.length⟩) : st.Tiled (us ++ (ts ++ vs)) := by
  have hs := on_ofTokens us (ts ++ vs)
  cases st with
  | createTable table =>
    obtain ⟨hrow, hcolumns⟩ := row_of_statement h
    refine ⟨?_, fun c hc => ?_⟩
    · rw [show table.span = _ from span_of_statement h]
      exact hrow.hasRow hs
    · obtain ⟨s', q, hrest, hcolumn⟩ := hcolumns c hc
      have hc := stretch_of_column? hcolumn
      rw [hc.span]
      exact hc.parts.hasRow (hs.rest hrest)
  | other words span =>
    have hwords := texts_of_statement h
    rw [texts_ofTokens, texts_ofTokens, significantTexts_append] at hwords
    refine ⟨ts, ?_, (List.append_left_inj _).1 hwords⟩
    rw [show span = _ from hspan, ← List.append_assoc]
    exact slice?_append us ts vs

/-! ## All statements -/

theorem Reading.tiled (h : Reading 0 ts sts) (hst : st ∈ sts) :
    st.span.Tight ts ∧ st.Tiled ts := by
  obtain ⟨us, t, ws, vs, rfl, ht, h⟩ := h.exists_part hst
  rw [Nat.zero_add] at h
  have hs := on_ofTokens us (t :: ws ++ vs)
  refine ⟨?_, tiled_of_statement h (span_of_statement_ofTokens ht h)⟩
  rw [span_of_statement h]
  refine hs.tight (forward_statement _ _ _ h) (size_of_statement h ?_)
  rw [List.cons_append, ofTokens_cons _ ht]
  exact Option.some_ne_none t

/-- Every significant token is read by one statement, and only one. -/
theorem Reading.countP_covers (h : Reading n ts sts) {i : Nat} (hi : ts[i]? = some t)
    (ht : t.isTrivia = false) : (sts.map (·.span)).countP (·.covers (n + i)) = 1 := by
  induction h generalizing i with
  | nil hw =>
    have := hw t (List.mem_of_getElem? hi)
    rw [ht] at this
    cases this
  | @cons n m w us vs u st sts hw hu hm hst hrest ih =>
    have hspan := span_of_statement_ofTokens hu hst
    have hlater := hrest.spans.1
    rw [List.map_cons, List.countP_cons, hspan]
    obtain hlt | hge := Nat.lt_or_ge i w.length
    · -- Before the first statement there is nothing significant.
      rw [List.getElem?_append_left hlt] at hi
      have := hw t (List.mem_of_getElem? hi)
      rw [ht] at this
      cases this
    obtain hlt | hge := Nat.lt_or_ge i (w.length + us.length + 1)
    · -- In the first statement. The others begin behind it.
      have hothers : (sts.map (·.span)).countP (·.covers (n + i)) = 0 := by
        refine List.countP_eq_zero.2 fun sp hsp => ?_
        obtain ⟨st', hst', rfl⟩ := List.mem_map.1 hsp
        have := (hlater st' hst').1
        simp only [Span.covers, Bool.and_eq_true, decide_eq_true_eq]
        omega
      rw [hothers, if_pos (by simp only [Span.covers, Bool.and_eq_true, decide_eq_true_eq]; omega)]
    · -- Behind the first statement.
      obtain ⟨j, rfl⟩ := Nat.exists_eq_add_of_le hge
      have hj : vs[j]? = some t := by
        rw [List.getElem?_append_right (by omega), List.getElem?_append_right
          (by simp only [List.length_cons]; omega)] at hi
        rw [← hi]
        congr 1
        simp only [List.length_cons]
        omega
      have := ih hj
      rw [show n + (w.length + us.length + 1 + j) = m + us.length + 1 + j by omega, this,
        if_neg (by simp only [Span.covers, Bool.and_eq_true, decide_eq_true_eq]; omega)]

end Parser

open SchemaAlign.Parser (Reading ofTokens_eq_ok_iff) in
/-- The statements of a list of tokens have tight spans, one after the other, and every significant
    token is in exactly one of them. Their parts stand inside them in the same way, first the
    columns of a table and then its options, first the type of a column and then its constraints. -/
theorem statements_tile {tokens : List Token} {sts : List Statement}
    (h : Statement.ofTokens tokens = .ok sts) :
    Span.HasRow tokens ⟨0, tokens.length⟩ (sts.map (·.span)) ∧
      (∀ i t, tokens[i]? = some t → t.isTrivia = false →
        (sts.map (·.span)).countP (·.covers i) = 1) ∧
      ∀ st ∈ sts, st.Tiled tokens := by
  have hreading := ofTokens_eq_ok_iff.1 h
  have htight : ∀ sp ∈ sts.map (·.span), sp.Tight tokens := by
    intro sp hsp
    obtain ⟨st, hst, rfl⟩ := List.mem_map.1 hsp
    exact (hreading.tiled hst).1
  refine ⟨⟨htight, fun sp hsp => ⟨Nat.zero_le _, (htight sp hsp).stop_le⟩,
    List.pairwise_map.2 hreading.spans.2⟩, fun i t hi ht => ?_,
    fun st hst => (hreading.tiled hst).2⟩
  have hcount := hreading.countP_covers hi ht
  rwa [Nat.zero_add] at hcount

/-- A table whose column has a type and a constraint, before a statement that is not read in
    detail. The last word is none that a text gives. -/
theorem statements_tile_table :
    let tokens := Token.tokenize "CREATE TABLE a (x INT /* */ NOT NULL, y) STRICT; SELECT " ++
      [⟨.word, "1 2"⟩]
    ∃ sts, Statement.ofTokens tokens = .ok sts ∧
      sts.map (·.span) = [⟨0, 23⟩, ⟨24, 27⟩] ∧
      Span.HasRow tokens ⟨0, tokens.length⟩ (sts.map (·.span)) ∧
      (∀ i t, tokens[i]? = some t → t.isTrivia = false →
        (sts.map (·.span)).countP (·.covers i) = 1) ∧
      ∀ st ∈ sts, st.Tiled tokens := by
  intro tokens
  have hspans : ((Statement.ofTokens tokens).toOption.map (·.map (·.span))) =
      some [⟨0, 23⟩, ⟨24, 27⟩] := by decide +kernel
  cases h : Statement.ofTokens tokens with
  | error e => rw [h] at hspans; cases hspans
  | ok sts =>
    rw [h] at hspans
    exact ⟨sts, rfl, Option.some.inj hspans, statements_tile h⟩

end SchemaAlign
