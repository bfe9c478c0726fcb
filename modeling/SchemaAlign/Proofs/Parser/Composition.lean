import SchemaAlign.Proofs.Parser.Sentence
import SchemaAlign.Proofs.Source

/-!
# What follows a closed list

Where every statement of a list ends with its own semicolon, tokens that are put behind the list are
read as if they stood alone. Neither their statements nor a fault in them can tell what is before
them, but for the positions.

* `statementsAt`: the statements of a list of tokens at a given position, or the misfit in it;
* `statementsAt_shift`: what they are at another position;
* `statementsAt_flat_append`: what they are behind sentences;
* `parse_append_of_closed`: what they are behind a closed list.
-/

namespace SchemaAlign

namespace Parser

open SchemaAlign.Parser.Stream (ofTokens)

variable {n : Nat} {w us ts : List Token} {t : Token}

/-- The misfit `d` positions further on. -/
def Misfit.shift (d : Nat) (m : Misfit) : Misfit :=
  ⟨m.fault, m.position + d⟩

/-- The statements of a list of tokens whose first one has the position `n`. -/
def statementsAt (n : Nat) (ts : List Token) : Except Misfit (List Statement) :=
  (statements (ofTokens n ts)).map (·.1)

theorem ofTokens_eq_statementsAt (ts : List Token) : Statement.ofTokens ts = statementsAt 0 ts :=
  rfl

theorem statementsAt_trivia (n : Nat) (hw : Trivia w) : statementsAt n w = .ok [] := by
  rw [statementsAt, ofTokens_trivia n hw, statements_done]
  rfl

/-- The first statement begins with the first significant token. -/
theorem statementsAt_item (n : Nat) (hw : Trivia w) (ht : t.isTrivia = false) (us : List Token) :
    statementsAt n (w ++ t :: us) = statement (ofTokens (n + w.length) (t :: us)) >>= fun x =>
      (statements x.2).map fun y => x.1 :: y.1 := by
  rw [statementsAt, ofTokens_append n hw ht, statements_item, ← ofTokens_append n hw ht,
    statement_skip n hw ht]
  cases statement (ofTokens (n + w.length) (t :: us)) with
  | error m => rfl
  | ok x =>
    change ((statements x.2).map _).map _ = (statements x.2).map _
    cases statements x.2 <;> rfl

/-! ## In another place -/

/-- Further on, the statements are the same with all their spans moved, and a fault is the same at a
    position moved as far. -/
theorem statementsAt_shift (n d : Nat) (ts : List Token) : statementsAt (n + d) ts =
    ((statementsAt n ts).map (·.map (Statement.shift 0 d))).mapError (Misfit.shift d) := by
  obtain ⟨g, hs⟩ := parallel_ofTokens_done (d := d) n ts trivia_nil trivia_nil
  simp only [List.append_nil] at hs
  have h := uniform_statements ⟨rfl, rfl, rfl⟩ rfl rfl _ _ hs
  rw [statementsAt, statementsAt]
  cases hx : statements (ofTokens n ts) with
  | error m =>
    rw [hx] at h
    obtain ⟨m', hm', hshift⟩ := h.of_error
    rw [hm', hshift rfl]
    rfl
  | ok x =>
    rw [hx] at h
    obtain ⟨sts, r, hsts, rfl, -⟩ := h.of_ok
    rw [hsts]
    rfl

/-- Blanks and comments before them only move them. -/
theorem statementsAt_trivia_append (n : Nat) (hw : Trivia w) (ts : List Token) :
    statementsAt n (w ++ ts) = statementsAt (n + w.length) ts := by
  rcases trivia_or ts with hts | ⟨w', t, us, rfl, hw', ht⟩
  · rw [statementsAt_trivia n (hw.append hts), statementsAt_trivia _ hts]
  · rw [← List.append_assoc, statementsAt_item n (hw.append hw') ht, statementsAt_item _ hw' ht,
      List.length_append, Nat.add_assoc]

/-! ## Behind sentences -/

/-- Behind one sentence. -/
theorem statementsAt_sentence_append (n : Nat) (S : Sentence) (ts : List Token) :
    statementsAt n (S.before ++ S.tokens ++ ts) =
      (statementsAt (n + S.before.length + S.tokens.length) ts).map
        (S.statement.shift 0 (n + S.before.length) :: ·) := by
  rw [List.append_assoc, Sentence.tokens, List.cons_append,
    statementsAt_item n S.trivia S.significant, ← List.cons_append, S.stands, statementsAt,
    List.length_cons, ← Nat.add_assoc]
  change (statements _).map _ = _
  cases statements (ofTokens (n + S.before.length + S.more.length + 1) ts) <;> rfl

/-- Behind sentences, tokens are read as if they stood alone. -/
theorem statementsAt_flat_append (n : Nat) (Ss : List Sentence) (ts : List Token) :
    statementsAt n (flat Ss ++ ts) =
      (statementsAt (n + (flat Ss).length) ts).map (placed n Ss ++ ·) := by
  induction Ss generalizing n with
  | nil =>
    change statementsAt n ts = (statementsAt n ts).map id
    cases statementsAt n ts <;> rfl
  | cons S Ss ih =>
    have hlen : n + (flat (S :: Ss)).length =
        n + S.before.length + S.tokens.length + (flat Ss).length := by
      simp only [flat, List.length_append]
      omega
    rw [hlen, flat, placed, List.append_assoc, statementsAt_sentence_append, ih]
    cases statementsAt (n + S.before.length + S.tokens.length + (flat Ss).length) ts <;> rfl

/-- Behind a closed list, tokens are read as if they stood alone. -/
theorem ofTokens_append_of_closed {sts : List Statement} (hclosed : Statement.Closed us)
    (hus : Statement.ofTokens us = .ok sts) (ts : List Token) :
    Statement.ofTokens (us ++ ts) = (statementsAt us.length ts).map (sts ++ ·) := by
  obtain ⟨Ss, tail, htail, rfl⟩ := exists_sentences hclosed
  -- The statements of the list itself are those of its sentences.
  rw [ofTokens_eq_statementsAt, statementsAt_flat_append, statementsAt_trivia _ htail] at hus
  obtain rfl : placed 0 Ss = sts := by
    rw [← List.append_nil (placed 0 Ss)]
    exact Except.ok.inj hus
  rw [ofTokens_eq_statementsAt, List.append_assoc, statementsAt_flat_append,
    statementsAt_trivia_append _ htail, List.length_append, Nat.zero_add]

end Parser

namespace Statement

open SchemaAlign.Parser (statementsAt Misfit)

variable {us : List Token} {sts : List Statement}

/-- Tokens behind a closed list. If they are within the grammar, the statements of both lists follow
    one another, those of the second one with every span in them moved by the length of the first
    one. If they are not, the lists together have the same fault, and so the same message, at a
    position moved as far. -/
theorem parse_append_of_closed (hclosed : Closed us) (hus : parse us = .ok sts) (vs : List Token) :
    (∀ sts', parse vs = .ok sts' → parse (us ++ vs) = .ok (sts ++ sts'.map (shift 0 us.length))) ∧
      ∀ e, parse vs = .error e → ∃ fault position, e = .ofMisfit vs ⟨fault, position⟩ ∧
        parse (us ++ vs) = .error (.ofMisfit (us ++ vs) ⟨fault, position + us.length⟩) := by
  have hus : Statement.ofTokens us = .ok sts := Parser.ofTokens_eq_ok_iff.2 (parse_eq_ok hus)
  have happend := Parser.ofTokens_append_of_closed hclosed hus vs
  have hshift := Parser.statementsAt_shift 0 us.length vs
  rw [Nat.zero_add, ← Parser.ofTokens_eq_statementsAt] at hshift
  rw [hshift] at happend
  simp only [parse, happend]
  cases Statement.ofTokens vs with
  | error m =>
    constructor
    · rintro _ ⟨⟩
    · rintro _ ⟨⟩
      exact ⟨m.fault, m.position, rfl, rfl⟩
  | ok sts' =>
    constructor
    · rintro _ ⟨⟩
      rfl
    · rintro _ ⟨⟩

/-- Behind a trigger with a semicolon inside stands a table, or a table that goes wrong. -/
theorem parse_append_of_closed_trigger :
    let us := Token.tokenize "CREATE TRIGGER r BEGIN x; END; -- r\n"
    let sts := [other ["CREATE", "TRIGGER", "r", "BEGIN", "x", ";", "END", ";"] ⟨0, 13⟩]
    let vs := Token.tokenize "CREATE TABLE t (a INT)"
    let table : CreateTable :=
      { name := "t", ifNotExists := false, options := [], span := ⟨0, 11⟩
        columns := [{ name := "a", type := some ⟨"INT", none, none, ⟨9, 10⟩⟩, constraints := []
                      span := ⟨7, 10⟩ }] }
    let vs' := Token.tokenize "CREATE TABLE t (a DEFAULT)"
    Closed us ∧ parse us = .ok sts ∧ parse vs = .ok [createTable table] ∧
      parse (us ++ vs) = .ok (sts ++ [createTable table].map (shift 0 us.length)) ∧
      ∃ fault position, parse vs' = .error (.ofMisfit vs' ⟨fault, position⟩) ∧
        parse (us ++ vs') = .error (.ofMisfit (us ++ vs') ⟨fault, position + us.length⟩) := by
  intro us sts vs table vs'
  have hclosed : Closed us := ⟨1, by decide +kernel, by decide +kernel⟩
  have hus : parse us = .ok sts := by decide +kernel
  have hvs : parse vs = .ok [createTable table] := by decide +kernel
  have hvs' : parse vs' = .error (.ofMisfit vs' ⟨.defaultValue, 10⟩) := by decide +kernel
  obtain ⟨fault, position, heq, happend⟩ := (parse_append_of_closed hclosed hus vs').2 _ hvs'
  exact ⟨hclosed, hus, hvs, (parse_append_of_closed hclosed hus vs).1 _ hvs, fault, position,
    hvs'.trans (congrArg _ heq), happend⟩

end Statement

end SchemaAlign
