import SchemaAlign.Proofs.Parser.Reading

/-!
# Statements that end with their own semicolon

Such a statement reads the same wherever its tokens stand, and what follows it is read as if it
stood alone.

* `Sentence`: tokens that are one statement everywhere;
* `Statement.Closed`: the statements of a list of tokens all end that way;
* `exists_sentences`: a closed list consists of sentences;
* `Reading.sentences`: reading sentences and what follows them.
-/

namespace SchemaAlign

/-- The number of statements, if the tokens are within the grammar. -/
def Statement.count? (tokens : List Token) : Option Nat :=
  match Statement.ofTokens tokens with
  | .ok statements => some statements.length
  | .error _ => none

/-- Every statement ends with a semicolon of its own: one more semicolon is one more statement. -/
def Statement.Closed (tokens : List Token) : Prop :=
  ∃ n, Statement.count? tokens = some n ∧
    Statement.count? (tokens ++ [Token.semicolon]) = some (n + 1)

namespace Parser

open SchemaAlign.Parser.Stream (Parallel Rest ofTokens)

variable {n m d : Nat} {w us vs ts : List Token} {t : Token}

/-- Tokens that are one statement wherever they stand, after some blanks and comments. -/
structure Sentence where
  before : List Token
  first : Token
  more : List Token
  /-- The statement, read at the position zero. -/
  statement : Statement
  trivia : Trivia before
  significant : first.isTrivia = false
  stands : ∀ n vs, Parser.statement (ofTokens n (first :: more ++ vs)) =
    .ok (statement.shift 0 n, ofTokens (n + more.length + 1) vs)

/-- The tokens of the statement. -/
def Sentence.tokens (S : Sentence) : List Token :=
  S.first :: S.more

/-! ## Where a statement ends -/

/-- A statement before another one ends with a semicolon. -/
theorem rest_of_statement {s r : Stream} {st : Statement} (h : statement s = .ok (st, r))
    (hr : r.head? ≠ none) : ∃ g t, t.isPunct ";" = true ∧ Rest s (.item g t r) := by
  -- A statement of words is cut behind a semicolon, or at the end.
  have words (n : Nesting) (s : Stream) (hs : (s.cutStatement n).2.head? ≠ none) :
      ∃ g t, t.isPunct ";" = true ∧ Rest s (.item g t (s.cutStatement n).2) := by
    induction s generalizing n with
    | done => exact absurd rfl hs
    | item g t rest ih =>
      by_cases hn : n.isEnd t = true
      · simp only [Stream.cutStatement, hn, if_true]
        simp only [Nesting.isEnd, Bool.and_eq_true] at hn
        exact ⟨g, t, hn.1, .refl⟩
      · simp only [Stream.cutStatement, hn, Bool.false_eq_true, if_false] at hs ⊢
        obtain ⟨g', t', ht', h⟩ := ih _ hs
        exact ⟨g', t', ht', .item h⟩
  rw [statement_eq] at h
  split at h
  · cases h
    exact words _ _ hr
  · next r' hphrase =>
    split at h
    · cases h
    · next x B hb =>
      cases h
      -- The body of a table reaches up to a semicolon or to the end.
      have hB := isBarrier_of_tableBody hb
      cases B with
      | done => exact absurd rfl hr
      | item g t B =>
        exact ⟨g, t, hB, (rest_of_afterPhrase? hphrase).trans (forward_tableBody _ _ _ hb)⟩

theorem head?_ofTokens (n : Nat) (h : ¬ Trivia ts) : (ofTokens n ts).head? ≠ none := by
  obtain hw | ⟨w, t, us, rfl, hw, ht⟩ := trivia_or ts
  · exact absurd hw h
  · rw [ofTokens_append n hw ht]
    nofun

theorem semicolon_of_statement {st : Statement}
    (h : statement (ofTokens n (us ++ vs)) = .ok (st, ofTokens (n + us.length) vs))
    (hvs : ¬ Trivia vs) : ∃ xs u, us = xs ++ [u] ∧ u.isPunct ";" = true := by
  obtain ⟨g, u, hu, hrest⟩ := rest_of_statement h (head?_ofTokens _ hvs)
  -- The list from the semicolon on, and perhaps some trivia before it.
  obtain ⟨xs, zs, hzs, heq⟩ : ∃ xs zs, us ++ vs = xs ++ zs ∧
      Stream.item g u (ofTokens (n + us.length) vs) = ofTokens (n + xs.length) zs := by
    obtain heq | ⟨xs, t', zs, hzs, -, heq⟩ := hrest.ofTokens
    · exact ⟨[], _, rfl, heq⟩
    · refine ⟨xs ++ [t'], zs, by rw [hzs, List.append_assoc]; rfl, ?_⟩
      rw [heq, List.length_append, List.length_singleton, Nat.add_assoc]
  obtain hw | ⟨w, u', zs, rfl, hw, hu'⟩ := trivia_or zs
  · rw [ofTokens_trivia _ hw] at heq
    cases heq
  · rw [ofTokens_append _ hw hu'] at heq
    obtain ⟨-, rfl, hvs⟩ := Stream.item.inj heq
    obtain ⟨-, rfl⟩ := ofTokens_inj hvs
    exact ⟨xs ++ w, u, (List.append_left_inj vs).1 (by rw [hzs]; simp), hu⟩

/-! ## Sentences -/

/-- Tokens up to a semicolon, in two places and before different tokens: they are one statement in
    both places, or in none of the two where more tokens follow. -/
theorem statement_moved {xs : List Token} {u : Token} (hus : us = xs ++ [u])
    (hu : u.isPunct ";" = true) (n d : Nat) (vs vs' : List Token) :
    (∃ st, statement (ofTokens n (us ++ vs)) = .ok (st, ofTokens (n + us.length) vs) ∧
      statement (ofTokens (n + d) (us ++ vs')) =
        .ok (st.shift 0 d, ofTokens (n + d + us.length) vs')) ∨
    (¬ Trivia vs → ∀ st, statement (ofTokens n (us ++ vs)) ≠
      .ok (st, ofTokens (n + us.length) vs)) ∧
    (¬ Trivia vs' → ∀ st, statement (ofTokens (n + d) (us ++ vs')) ≠
      .ok (st, ofTokens (n + d + us.length) vs')) := by
  subst hus
  have hu' : u.isTrivia = false := by simp [Token.isTrivia, kind_of_isPunct hu, TokenKind.isTrivia]
  obtain ⟨g, hs⟩ := parallel_ofTokens_cons (d := d) n xs hu' vs vs'
  have hB : ∀ g s, Stream.isBarrier (.item g u s) = true := fun _ _ => hu
  have h := (parallel_statement ⟨rfl, hB _ _, hB _ _⟩ hs (hs.stop_gap rfl)).at_semicolon (by
    rw [Stream.start_gap_ofTokens, Stream.start_gap_ofTokens]
    omega)
  simp only [List.append_assoc, List.singleton_append, List.length_append, List.length_singleton,
    ← Nat.add_assoc]
  obtain h | ⟨h, h'⟩ := h
  · exact .inl h
  · exact .inr ⟨fun hvs => h (head?_ofTokens _ hvs), fun hvs => h' (head?_ofTokens _ hvs)⟩

/-- A statement before another one is a sentence. -/
theorem exists_sentence {st : Statement} (hw : Trivia w) (ht : t.isTrivia = false)
    (h : statement (ofTokens n (t :: us ++ vs)) = .ok (st, ofTokens (n + us.length + 1) vs))
    (hvs : ¬ Trivia vs) :
    ∃ S : Sentence, S.before = w ∧ S.tokens = t :: us ∧ st = S.statement.shift 0 n := by
  obtain ⟨xs, u, hxs, hu⟩ := semicolon_of_statement h hvs
  -- From the place where the statement was found back to the position zero.
  have back := statement_moved hxs hu 0 n vs vs
  simp only [Nat.zero_add] at back
  obtain ⟨st₀, h₀, hn⟩ | ⟨-, hn⟩ := back
  · obtain rfl : st = st₀.shift 0 n := (Prod.mk.inj (Except.ok.inj (h.symm.trans hn))).1
    refine ⟨⟨w, t, us, st₀, hw, ht, fun m vs' => ?_⟩, rfl, rfl, rfl⟩
    -- And from there to any other place.
    have there := statement_moved hxs hu 0 m vs vs'
    simp only [Nat.zero_add] at there
    obtain ⟨st₁, h₁, hm⟩ | ⟨h₁, -⟩ := there
    · obtain rfl : st₀ = st₁ := (Prod.mk.inj (Except.ok.inj (h₀.symm.trans h₁))).1
      exact hm
    · exact absurd h₀ (h₁ hvs st₀)
  · exact absurd h (hn hvs st)

/-- The tokens of sentences, one after the other. -/
def flat : List Sentence → List Token
  | [] => []
  | S :: Ss => S.before ++ S.tokens ++ flat Ss

/-- The statements of sentences whose first token has the position `n`. -/
def placed (n : Nat) : List Sentence → List Statement
  | [] => []
  | S :: Ss => S.statement.shift 0 (n + S.before.length) ::
      placed (n + S.before.length + S.tokens.length) Ss

/-- What follows sentences is read as if it stood alone. -/
theorem Reading.sentences {sts : List Statement} (Ss : List Sentence)
    (h : Reading (n + (flat Ss).length) vs sts) :
    Reading n (flat Ss ++ vs) (placed n Ss ++ sts) := by
  induction Ss generalizing n with
  | nil => exact h
  | cons S Ss ih =>
    have rest : Reading (n + S.before.length + S.tokens.length) (flat Ss ++ vs)
        (placed (n + S.before.length + S.tokens.length) Ss ++ sts) := by
      refine ih ?_
      simp only [flat, List.length_append] at h
      rwa [Nat.add_assoc, Nat.add_assoc, ← Nat.add_assoc S.before.length]
    have h := Reading.cons S.trivia S.significant rfl (S.stands (n + S.before.length) (flat Ss ++ vs))
      rest
    simp only [flat, placed, Sentence.tokens, List.append_assoc, List.cons_append] at h ⊢
    exact h

/-! ## Closed lists -/

theorem Reading.eq_nil {sts : List Statement} (h : Reading n ts sts)
    (hts : (ofTokens n ts).head? = none) : sts = [] := by
  cases h with
  | nil => rfl
  | cons hw ht =>
    rw [List.cons_append, ofTokens_append n hw ht] at hts
    cases hts

/-- The first statement begins with the first significant token. -/
theorem Reading.cons_inv {sts : List Statement} (hw : Trivia w) (ht : t.isTrivia = false)
    (h : Reading n (w ++ t :: ts) sts) :
    ∃ us vs st sts', ts = us ++ vs ∧ sts = st :: sts' ∧
      statement (ofTokens (n + w.length) (t :: us ++ vs)) =
        .ok (st, ofTokens (n + w.length + us.length + 1) vs) ∧
      Reading (n + w.length + us.length + 1) vs sts' := by
  generalize hts : w ++ t :: ts = zs at h
  cases h with
  | nil hz =>
    subst hts
    have htrivia := hz t (by simp)
    rw [ht] at htrivia
    cases htrivia
  | @cons n m w' us vs t' st sts' hw' ht' hm hst hvs =>
    have h := congrArg (ofTokens n) hts
    rw [List.cons_append, ofTokens_append n hw ht, ofTokens_append n hw' ht'] at h
    obtain ⟨hgap, rfl, hrest⟩ := Stream.item.inj h
    obtain rfl : w = w' := congrArg Gap.trivia hgap
    obtain ⟨-, rfl⟩ := ofTokens_inj hrest
    subst hm
    exact ⟨us, vs, st, sts', rfl, rfl, hst, hvs⟩

/-- The first statement of a list, and of the list with a semicolon more: either they take the same
    tokens, or the second one takes all that there are. -/
theorem first_of_semicolon {st st' : Statement} {us' vs' : List Token}
    (hst : statement (ofTokens n (t :: us ++ vs)) = .ok (st, ofTokens (n + us.length + 1) vs))
    (hst' : statement (ofTokens n (t :: us' ++ vs')) = .ok (st', ofTokens (n + us'.length + 1) vs'))
    (heq : us ++ vs ++ [Token.semicolon] = us' ++ vs') :
    (us' = us ∧ vs' = vs ++ [Token.semicolon]) ∨
      (ofTokens (n + us'.length + 1) vs').head? = none := by
  obtain ⟨g, hs⟩ := parallel_ofTokens_semicolon n (t :: us ++ vs)
  have h := parallel_statement ⟨rfl, rfl, rfl⟩ hs (hs.stop_gap (by rfl))
  have hlist : t :: us ++ vs ++ [Token.semicolon] = t :: us' ++ vs' := congrArg (t :: ·) heq
  rw [hst, hlist, hst'] at h
  generalize hx : Except.ok (st, _) = x at h
  generalize hx' : Except.ok (st', _) = x' at h
  have left {r : Stream} {a : Statement} (h : Except.ok (st', ofTokens (n + us'.length + 1) vs') =
      (.ok (a, r) : Except Misfit _)) : ofTokens (n + us'.length + 1) vs' = r :=
    (Prod.mk.inj (Except.ok.inj h)).2
  -- Only a statement that ends before the semicolon leaves something.
  cases h with
  | fault => cases hx
  | table =>
    right
    rw [left hx']
    rfl
  | other =>
    right
    rw [left hx']
    unfold Stream.cutStatement
    split <;> rfl
  | before hr =>
    cases hx
    cases hx'
    -- What is left begins at the same position in both lists, so they took as many tokens.
    have hstart := hr.start_gap ⟨rfl, rfl, rfl⟩
    rw [Stream.start_gap_ofTokens, Stream.start_gap_ofTokens] at hstart
    rw [List.append_assoc] at heq
    obtain ⟨hus, hvs⟩ := List.append_inj heq.symm (by omega)
    exact .inl ⟨hus, hvs⟩

/-- A semicolon at the end is a statement of its own, or it belongs to the last statement. In the
    first case, all statements before it are sentences. -/
theorem Reading.semicolon {sts sts' : List Statement} (h : Reading n ts sts)
    (h' : Reading n (ts ++ [Token.semicolon]) sts') (hlen : sts.length < sts'.length) :
    ∃ Ss tail, Trivia tail ∧ ts = flat Ss ++ tail := by
  induction h generalizing sts' with
  | @nil n w hw => exact ⟨[], w, hw, rfl⟩
  | @cons n m w us vs t st sts hw ht hm hst hvs ih =>
    subst hm
    rw [List.append_assoc, List.append_assoc, List.cons_append] at h'
    obtain ⟨us', vs', st', sts', heq, rfl, hst', hvs'⟩ := h'.cons_inv hw ht
    obtain ⟨rfl, rfl⟩ | hlast := first_of_semicolon hst hst' (by rw [← heq, List.append_assoc])
    · have hne : ¬ Trivia (vs ++ [Token.semicolon]) := fun htrivia =>
        nomatch htrivia Token.semicolon (by simp)
      obtain ⟨S, hbefore, htokens, hS⟩ := exists_sentence hw ht hst' hne
      obtain ⟨Ss, tail, htail, rfl⟩ := ih hvs' (Nat.lt_of_succ_lt_succ hlen)
      refine ⟨S :: Ss, tail, htail, ?_⟩
      simp only [flat, hbefore, htokens, List.append_assoc, List.cons_append]
    · -- The statement that goes on to the end is the only one, so there is none more.
      simp [hvs'.eq_nil hlast] at hlen

/-- A closed list consists of sentences, with blanks and comments after the last one. -/
theorem exists_sentences (h : Statement.Closed ts) :
    ∃ Ss tail, Trivia tail ∧ ts = flat Ss ++ tail := by
  obtain ⟨n, hn, hn'⟩ := h
  simp only [Statement.count?] at hn hn'
  split at hn
  · next sts h =>
    split at hn'
    · next sts' h' =>
      cases hn
      rw [ofTokens_eq_ok_iff] at h h'
      exact h.semicolon h' (by rw [Option.some.inj hn']; omega)
    · cases hn'
  · cases hn

end Parser

end SchemaAlign
