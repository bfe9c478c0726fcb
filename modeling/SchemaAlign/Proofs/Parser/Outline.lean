import SchemaAlign.Object
import SchemaAlign.Proofs.Parser.Sentence
import SchemaAlign.Proofs.Span
import SchemaAlign.Proofs.Token.Lexer

/-!
# The objects of a text

A text can be cut into parts that are read by themselves: blanks and closed comments, which say
nothing, and statements up to their semicolon. What the parts say, one after the other, is what the
text says, whatever the parts are.

* `Statement.outline?`: the objects that the statements of a list of tokens create, and their
  definitions;
* `Reads`: characters with an outline of their own, whatever text follows;
* `reads_of_quiet`, `reads_of_sentence`: the two kinds of parts.
-/

namespace SchemaAlign

/-- The object that a statement of the given tokens creates, and its definition. -/
def Statement.item? (tokens : List Token) (st : Statement) : Option (ObjectKey × String) :=
  (ObjectKey.ofStatement? st).map fun key => (key, Token.render ((slice? tokens st.span).getD []))

/-- The objects that the statements of a list of tokens create, if the list is within the grammar. -/
def Statement.outline? (tokens : List Token) : Option (List (ObjectKey × String)) :=
  match Statement.ofTokens tokens with
  | .ok statements => some (statements.filterMap (item? tokens))
  | .error _ => none

namespace Parser

open SchemaAlign.Statement (outline? item?)
open SchemaAlign.Parser.Stream (ofTokens)
open SchemaAlign.Token (Quiet Firm ofChars chars)

variable {n d : Nat} {w us vs ts : List Token} {t : Token} {cs ds : List Char}
  {sts : List Statement} {out out' : List (ObjectKey × String)}

theorem Reading.outline (h : Reading 0 ts sts) : outline? ts = some (sts.filterMap (item? ts)) := by
  rw [outline?, ofTokens_eq_ok_iff.2 h]

theorem outline?_eq_none (h : ∀ sts, ¬ Reading 0 ts sts) : outline? ts = none := by
  unfold outline?
  split
  · next sts hok => exact absurd (ofTokens_eq_ok_iff.1 hok) (h sts)
  · rfl

/-! ## Readings in other places -/

/-- What is read at one place is read at another, and blanks and comments at the end are no part of
    it. -/
theorem Reading.exists_alone (h : Reading (n + d) (ts ++ vs) sts) (hvs : Trivia vs) :
    ∃ sts₀, Reading n ts sts₀ ∧ sts = sts₀.map (Statement.shift 0 d) := by
  obtain ⟨r, hr⟩ := h.statements
  obtain ⟨g, hs⟩ := parallel_ofTokens_done (d := d) n ts trivia_nil hvs
  simp only [List.append_nil] at hs
  have h := uniform_statements ⟨rfl, rfl, rfl⟩ rfl rfl _ _ hs
  cases hx : Parser.statements (ofTokens n ts) with
  | error e =>
    rw [hx, hr] at h
    exact h.elim
  | ok x =>
    obtain ⟨sts₀, r₀⟩ := x
    rw [hx, hr] at h
    exact ⟨sts₀, reading_of_statements hx, h.1.symm⟩

theorem Reading.exists_shift (h : Reading (n + d) ts sts) :
    ∃ sts₀, Reading n ts sts₀ ∧ sts = sts₀.map (Statement.shift 0 d) :=
  exists_alone (by rwa [List.append_nil]) trivia_nil

theorem Reading.shift (h : Reading n ts sts) (d : Nat) :
    Reading (n + d) ts (sts.map (Statement.shift 0 d)) := by
  obtain ⟨r, hr⟩ := h.statements
  obtain ⟨g, hs⟩ := parallel_ofTokens_done (d := d) n ts trivia_nil trivia_nil
  simp only [List.append_nil] at hs
  have h := uniform_statements ⟨rfl, rfl, rfl⟩ rfl rfl _ _ hs
  rw [hr] at h
  obtain ⟨_, r', hr', rfl, -⟩ := h.of_ok
  exact reading_of_statements hr'

/-- Blanks and comments before the first statement only move what follows. -/
theorem reading_trivia_append (hw : Trivia w) :
    Reading n (w ++ ts) sts ↔ Reading (n + w.length) ts sts := by
  constructor
  · intro h
    rcases trivia_or ts with hts | ⟨w', t, us, rfl, hw', ht⟩
    · obtain rfl : sts = [] := h.eq_nil (by rw [ofTokens_trivia n (hw.append hts)]; rfl)
      exact .nil hts
    · rw [← List.append_assoc] at h
      obtain ⟨us, vs, st, sts', rfl, rfl, hst, hvs⟩ := h.cons_inv (hw.append hw') ht
      rw [List.length_append, ← Nat.add_assoc] at hst hvs
      exact .cons hw' ht rfl hst hvs
  · intro h
    cases h with
    | nil hts => exact .nil (hw.append hts)
    | cons hw' ht hm hst hvs =>
      rw [← List.append_assoc]
      exact .cons (hw.append hw') ht (by rw [hm, List.length_append, Nat.add_assoc]) hst hvs

/-- A list with one statement, and perhaps blanks and comments behind it. -/
theorem reading_singleton {st : Statement} (ht : t.isTrivia = false) (hvs : Trivia vs)
    (h : statement (ofTokens n (t :: us ++ vs)) = .ok (st, ofTokens (n + us.length + 1) vs)) :
    Reading n (t :: us ++ vs) [st] :=
  @Reading.cons n n [] us vs t st [] trivia_nil ht rfl h (.nil hvs)

/-- A statement is read by itself from its own tokens. -/
theorem exists_reading_alone {st : Statement} (ht : t.isTrivia = false)
    (h : statement (ofTokens n (t :: us ++ vs)) = .ok (st, ofTokens (n + us.length + 1) vs)) :
    ∃ st₀, Reading 0 (t :: us) [st₀] ∧ st₀.span = ⟨0, (t :: us).length⟩ ∧
      st = st₀.shift 0 n := by
  have halone : ∃ sts₀, Reading 0 (t :: us) sts₀ ∧ [st] = sts₀.map (Statement.shift 0 n) := by
    by_cases hvs : Trivia vs
    · have hreading := reading_singleton ht hvs h
      rw [← Nat.zero_add n] at hreading
      simpa only [Nat.zero_add] using hreading.exists_alone hvs
    · -- The statement is the same before no text.
      obtain ⟨S, -, htokens, rfl⟩ := exists_sentence trivia_nil ht h hvs
      obtain ⟨rfl, rfl⟩ := List.cons.inj htokens
      have hreading := reading_singleton ht trivia_nil (S.stands n [])
      rw [List.append_nil, ← Nat.zero_add n] at hreading
      simpa only [Nat.zero_add] using hreading.exists_shift
  obtain ⟨sts₀, h₀, hsts₀⟩ := halone
  obtain ⟨st₀, rfl, rfl⟩ := List.map_eq_singleton_iff.1 hsts₀.symm
  refine ⟨st₀, h₀, ?_, rfl⟩
  have hspan := span_of_statement_ofTokens ht h
  simp only [Statement.shift, Statement.span_mapSpan, Span.shift, Span.mk.injEq] at hspan
  generalize st₀.span = span at hspan ⊢
  obtain ⟨a, b⟩ := span
  dsimp only at hspan
  simp only [Span.mk.injEq, List.length_cons]
  omega

/-- So every statement of a list has a part of its own. -/
theorem Reading.exists_excerpt {st : Statement} (h : Reading n ts sts) (hst : st ∈ sts) :
    ∃ as part bs st₀, ts = as ++ part ++ bs ∧ Reading 0 part [st₀] ∧
      st₀.span = ⟨0, part.length⟩ ∧ st = st₀.shift 0 (n + as.length) := by
  obtain ⟨as, t, us, bs, rfl, ht, h⟩ := h.exists_part hst
  obtain ⟨st₀, h₀, hspan, rfl⟩ := exists_reading_alone ht h
  exact ⟨as, t :: us, bs, st₀, (List.append_assoc ..).symm, h₀, hspan, rfl⟩

theorem ofStatement?_shift (st : Statement) (source target : Nat) :
    ObjectKey.ofStatement? (st.shift source target) = ObjectKey.ofStatement? st := by
  cases st <;> rfl

/-- An entry does not depend on what stands before the statement. -/
theorem item?_shift (us vs : List Token) (st : Statement) :
    item? (us ++ vs) (st.shift 0 us.length) = item? vs st := by
  rw [item?, item?, ofStatement?_shift, Statement.shift, Statement.span_mapSpan,
    slice?_append_right]

theorem filterMap_item?_shift (us vs : List Token) (sts : List Statement) :
    (sts.map (Statement.shift 0 us.length)).filterMap (item? (us ++ vs)) =
      sts.filterMap (item? vs) := by
  rw [List.filterMap_map]
  exact List.filterMap_congr fun st _ => item?_shift us vs st

/-! ## Parts of a list -/

theorem outline?_trivia_append (hw : Trivia w) (ts : List Token) :
    outline? (w ++ ts) = outline? ts := by
  by_cases h : ∃ sts, Reading 0 ts sts
  · obtain ⟨sts, h⟩ := h
    have h' : Reading 0 (w ++ ts) (sts.map (Statement.shift 0 w.length)) :=
      (reading_trivia_append hw).2 (h.shift w.length)
    rw [h.outline, h'.outline, filterMap_item?_shift]
  · have h := not_exists.1 h
    rw [outline?_eq_none h, outline?_eq_none]
    intro sts hsts
    obtain ⟨sts₀, h₀, -⟩ := ((reading_trivia_append hw).1 hsts).exists_shift
    exact h sts₀ h₀

theorem outline?_trivia (hw : Trivia w) : outline? w = some [] :=
  (Reading.nil hw).outline

theorem outline?_dropWhile (ts : List Token) :
    outline? (ts.dropWhile (·.isTrivia)) = outline? ts := by
  have hw : Trivia (ts.takeWhile (·.isTrivia)) :=
    fun t ht => List.all_eq_true.1 List.all_takeWhile t ht
  have h := outline?_trivia_append hw (ts.dropWhile (·.isTrivia))
  rwa [List.takeWhile_append_dropWhile, eq_comm] at h

/-- The object that a sentence creates, and its definition. -/
def Sentence.item? (S : Sentence) : Option (ObjectKey × String) :=
  (ObjectKey.ofStatement? S.statement).map fun key => (key, Token.render S.tokens)

theorem Sentence.span_shift (S : Sentence) (n : Nat) :
    (S.statement.shift 0 n).span = ⟨n, n + S.tokens.length⟩ := by
  have h := S.stands n []
  rw [List.append_nil] at h
  rw [span_of_statement_ofTokens S.significant h, tokens, List.length_cons, Nat.add_assoc]

theorem Sentence.item?_eq (S : Sentence) (vs : List Token) :
    Statement.item? (S.tokens ++ vs) (S.statement.shift 0 0) = S.item? := by
  have hslice : slice? (S.tokens ++ vs) ⟨0, 0 + S.tokens.length⟩ = some S.tokens :=
    slice?_append [] S.tokens vs
  rw [Statement.item?, ofStatement?_shift, S.span_shift, hslice]
  rfl

/-- What follows a sentence is read as if it stood alone. -/
theorem outline?_sentence_append (S : Sentence) (vs : List Token) :
    outline? (S.tokens ++ vs) = (outline? vs).map (S.item?.toList ++ ·) := by
  by_cases h : ∃ sts, Reading 0 vs sts
  · obtain ⟨sts, h⟩ := h
    have hvs := h.shift S.tokens.length
    rw [Sentence.tokens, List.length_cons, ← Nat.add_assoc] at hvs
    have h' : Reading 0 (S.tokens ++ vs) (S.statement.shift 0 0 ::
        sts.map (Statement.shift 0 S.tokens.length)) :=
      .cons trivia_nil S.significant rfl (S.stands 0 vs) hvs
    rw [h.outline, h'.outline, Option.map_some, List.filterMap_cons, S.item?_eq,
      filterMap_item?_shift]
    cases S.item? <;> rfl
  -- A reading of all tokens would begin with the sentence, and go on with a reading of the rest.
  · have h := not_exists.1 h
    rw [outline?_eq_none h, outline?_eq_none]
    · rfl
    · intro sts hsts
      obtain ⟨us', vs', st, sts', heq, rfl, hst, hvs'⟩ :=
        Reading.cons_inv (w := []) trivia_nil S.significant hsts
      have hstands := S.stands 0 vs
      rw [List.cons_append, show S.more ++ vs = us' ++ vs' from heq] at hstands
      have hrest := (Prod.mk.inj (Except.ok.inj (hst.symm.trans hstands))).2
      obtain ⟨-, rfl⟩ := ofTokens_inj hrest
      obtain ⟨sts₀, h₀, -⟩ := (show Reading (0 + _) vs' sts' from by
        rw [Nat.zero_add]; exact hvs').exists_shift
      exact h sts₀ h₀

/-! ## Parts of a text -/

/-- The characters have an outline of their own, whatever text follows. -/
def Reads (cs : List Char) (out : List (ObjectKey × String)) : Prop :=
  ∀ rest, outline? (ofChars (cs ++ rest)) = (outline? (ofChars rest)).map (out ++ ·)

theorem Reads.append (h : Reads cs out) (h' : Reads ds out') : Reads (cs ++ ds) (out ++ out') := by
  intro rest
  rw [List.append_assoc, h, h', Option.map_map]
  congr 1
  funext x
  exact (List.append_assoc out out' x).symm

/-- What says nothing has an empty outline. -/
theorem reads_of_quiet (h : Quiet cs) : Reads cs [] := by
  intro rest
  rw [← outline?_dropWhile, h, outline?_dropWhile]
  simp

theorem outline?_ofChars_nil : outline? (ofChars []) = some [] := by
  rw [ofChars]
  exact outline?_trivia trivia_nil

/-- There is only one such outline. -/
theorem Reads.unique (h : Reads cs out) (h' : Reads cs out') : out = out' := by
  have heq := (h []).symm.trans (h' [])
  rw [outline?_ofChars_nil] at heq
  simpa using heq

theorem reads_nil : Reads [] [] :=
  reads_of_quiet Token.quiet_nil

/-- The last token of a sentence is its semicolon. -/
theorem Sentence.exists_semicolon (S : Sentence) :
    ∃ us t, S.tokens = us ++ [t] ∧ t.isPunct ";" = true := by
  refine semicolon_of_statement (S.stands 0 [Token.semicolon]) fun htrivia => ?_
  have := htrivia Token.semicolon List.mem_cons_self
  cases this

/-- A sentence has its statement as its outline. -/
theorem reads_of_sentence (S : Sentence) (ds : List Char)
    (h : ofChars (chars S.tokens ++ ds) = S.tokens ++ ofChars ds) :
    Reads (chars S.tokens) S.item?.toList := by
  obtain ⟨us, t, htokens, ht⟩ := S.exists_semicolon
  have hfirm : Firm S.tokens :=
    Token.firm_of_getLast? h (by rw [htokens, List.getLast?_concat]) (kind_of_isPunct ht)
  intro rest
  rw [hfirm, outline?_sentence_append]

end Parser

end SchemaAlign
