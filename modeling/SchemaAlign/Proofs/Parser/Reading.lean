import SchemaAlign.Proofs.Parser.Statement

/-!
# Reading a list of tokens

The statements of a list of tokens, told without streams: blanks and comments, a statement, and so
on to the end.

* `Trivia`: tokens that say nothing;
* `ofTokens_append`, `parallel_ofTokens`: streams of lists that have a part in common;
* `Reading`: how a list of tokens is read, and `statements_eq_ok_iff`;
* `Reading.spans`: where the statements stand.
-/

namespace SchemaAlign.Parser

open SchemaAlign.Parser.Stream (Parallel Rest ofTokens)

/-! ## Streams of lists -/

/-- The tokens are blanks and comments. -/
def Trivia (w : List Token) : Prop :=
  ∀ t ∈ w, t.isTrivia = true

variable {n d : Nat} {w us vs ts : List Token} {t : Token}

theorem trivia_nil : Trivia [] :=
  nofun

theorem Trivia.append (h : Trivia us) (h' : Trivia vs) : Trivia (us ++ vs) :=
  List.forall_mem_append.2 ⟨h, h'⟩

/-- A list of tokens is trivia, or else it has a first significant token. -/
theorem trivia_or (ts : List Token) :
    Trivia ts ∨ ∃ w t us, ts = w ++ t :: us ∧ Trivia w ∧ t.isTrivia = false := by
  induction ts with
  | nil => exact .inl trivia_nil
  | cons t ts ih =>
    cases ht : t.isTrivia with
    | false => exact .inr ⟨[], t, ts, rfl, trivia_nil, ht⟩
    | true =>
      obtain h | ⟨w, u, us, rfl, hw, hu⟩ := ih
      · exact .inl (List.forall_mem_cons.2 ⟨ht, h⟩)
      · exact .inr ⟨t :: w, u, us, rfl, List.forall_mem_cons.2 ⟨ht, hw⟩, hu⟩

/-- Induction over the significant tokens. -/
theorem significant_induction {P : List Token → Prop} (trivia : ∀ w, Trivia w → P w)
    (item : ∀ w t us, Trivia w → t.isTrivia = false → P us → P (w ++ t :: us))
    (ts : List Token) : P ts := by
  induction hn : ts.length using Nat.strongRecOn generalizing ts with
  | ind n ih =>
    obtain h | ⟨w, t, us, rfl, hw, ht⟩ := trivia_or ts
    · exact trivia ts h
    · refine item w t us hw ht (ih us.length ?_ us rfl)
      rw [← hn, List.length_append, List.length_cons]
      omega

theorem ofTokens_trivia (n : Nat) (hw : Trivia w) : ofTokens n w = .done ⟨n, w⟩ := by
  induction w generalizing n with
  | nil => rfl
  | cons t w ih =>
    obtain ⟨ht, hw⟩ := List.forall_mem_cons.1 hw
    simp only [ofTokens, ht, if_true, ih (n + 1) hw]
    rfl

theorem ofTokens_append (n : Nat) (hw : Trivia w) (ht : t.isTrivia = false) (ts : List Token) :
    ofTokens n (w ++ t :: ts) = .item ⟨n, w⟩ t (ofTokens (n + w.length + 1) ts) := by
  induction w generalizing n with
  | nil => simp [ofTokens, ht]
  | cons u w ih =>
    obtain ⟨hu, hw⟩ := List.forall_mem_cons.1 hw
    simp only [List.cons_append, ofTokens, hu, if_true, ih (n + 1) hw, Stream.withGap, Stream.gap,
      List.length_cons]
    congr 2
    omega

theorem ofTokens_cons (n : Nat) (ht : t.isTrivia = false) (ts : List Token) :
    ofTokens n (t :: ts) = .item ⟨n, []⟩ t (ofTokens (n + 1) ts) :=
  ofTokens_append n trivia_nil ht ts

/-- A list and its place are known from its stream. -/
theorem ofTokens_inj {n' : Nat} {ts' : List Token} (h : ofTokens n ts = ofTokens n' ts') :
    n = n' ∧ ts = ts' := by
  constructor
  · rw [← Stream.start_gap_ofTokens n ts, h, Stream.start_gap_ofTokens]
  · rw [← Stream.toTokens_ofTokens n ts, h, Stream.toTokens_ofTokens]

/-- The streams of two lists that begin alike, where `F` and `F'` are what follows the last gap that
    begins in the common part. -/
theorem parallel_ofTokens {vs' : List Token} {F F' : Gap → Stream} (n : Nat) (us : List Token)
    (hF : ∀ m w, Trivia w → m + w.length = n + us.length → ofTokens m (w ++ vs) = F ⟨m, w⟩)
    (hF' : ∀ m w, Trivia w → m + w.length = n + d + us.length →
      ofTokens m (w ++ vs') = F' ⟨m, w⟩) :
    ∃ g, Parallel d (F g) (F' (g.shift d)) (ofTokens n (us ++ vs))
      (ofTokens (n + d) (us ++ vs')) := by
  induction us using significant_induction generalizing n with
  | trivia w hw =>
    rw [hF n w hw rfl, hF' (n + d) w hw rfl]
    exact ⟨⟨n, w⟩, .barrier⟩
  | item w t us hw ht ih =>
    simp only [List.length_append, List.length_cons] at hF hF'
    obtain ⟨g, h⟩ := ih (n + w.length + 1) (fun m w' hw' hm => hF m w' hw' (by omega))
      (fun m w' hw' hm => hF' m w' hw' (by omega))
    refine ⟨g, ?_⟩
    rw [List.append_assoc, List.append_assoc, List.cons_append, List.cons_append,
      ofTokens_append n hw ht, ofTokens_append (n + d) hw ht,
      show n + d + w.length + 1 = n + w.length + 1 + d by omega]
    exact .item h

/-- The streams of two lists that begin alike and go on with the same significant token. -/
theorem parallel_ofTokens_cons (n : Nat) (us : List Token) (ht : t.isTrivia = false)
    (vs vs' : List Token) :
    ∃ g, Parallel d (.item g t (ofTokens (n + us.length + 1) vs))
      (.item (g.shift d) t (ofTokens (n + d + us.length + 1) vs'))
      (ofTokens n (us ++ t :: vs)) (ofTokens (n + d) (us ++ t :: vs')) := by
  refine @parallel_ofTokens d (t :: vs) (t :: vs')
    (fun g => .item g t (ofTokens (n + us.length + 1) vs))
    (fun g => .item g t (ofTokens (n + d + us.length + 1) vs')) n us
    (fun m w hw hm => ?_) (fun m w hw hm => ?_)
  · rw [ofTokens_append m hw ht, hm]
  · rw [ofTokens_append m hw ht, hm]

/-- The streams of one list in two places, before different blanks and comments at the end. -/
theorem parallel_ofTokens_done {vs' : List Token} (n : Nat) (us : List Token) (hvs : Trivia vs)
    (hvs' : Trivia vs') :
    ∃ g : Gap, Parallel d (.done ⟨g.start, g.trivia ++ vs⟩) (.done ⟨g.start + d, g.trivia ++ vs'⟩)
      (ofTokens n (us ++ vs)) (ofTokens (n + d) (us ++ vs')) :=
  @parallel_ofTokens d vs vs' (fun g => .done ⟨g.start, g.trivia ++ vs⟩)
    (fun g => .done ⟨g.start, g.trivia ++ vs'⟩) n us
    (fun m _ hw _ => ofTokens_trivia m (hw.append hvs))
    (fun m _ hw _ => ofTokens_trivia m (hw.append hvs'))

/-- The stream of a list, without and with a semicolon at the end. -/
theorem parallel_ofTokens_semicolon (n : Nat) (us : List Token) :
    ∃ g, Parallel 0 (.done g) (.item g Token.semicolon (.done ⟨n + us.length + 1, []⟩))
      (ofTokens n us) (ofTokens n (us ++ [Token.semicolon])) := by
  obtain ⟨g, h⟩ := @parallel_ofTokens 0 [] [Token.semicolon] Stream.done
    (fun g => .item g Token.semicolon (.done ⟨n + us.length + 1, []⟩)) n us
    (fun m w hw _ => by rw [List.append_nil, ofTokens_trivia m hw])
    (fun m w hw hm => by rw [ofTokens_append m hw rfl, hm]; rfl)
  rw [List.append_nil] at h
  exact ⟨g, h⟩

/-! ## One statement after the other -/

/-- A statement does not depend on what the gap before it holds. -/
theorem statement_item {g g' : Gap} (h : g.stop = g'.stop) (t : Token) (s : Stream) :
    statement (.item g t s) = statement (.item g' t s) := by
  simp only [statement_eq, Stream.afterPhrase?, Stream.cutStatement, Stream.gap, h]

theorem statement_skip (n : Nat) (hw : Trivia w) (ht : t.isTrivia = false) (ts : List Token) :
    statement (ofTokens n (w ++ t :: ts)) = statement (ofTokens (n + w.length) (t :: ts)) := by
  rw [ofTokens_append n hw ht, ofTokens_cons _ ht]
  exact statement_item (show Gap.stop ⟨n, w⟩ = Gap.stop ⟨n + w.length, []⟩ from rfl) t _

/-- Every statement has a token. -/
theorem size_of_statement {s r : Stream} {st : Statement} (h : statement s = .ok (st, r))
    (hs : s.head? ≠ none) : r.size < s.size := by
  rw [statement_eq] at h
  split at h
  · cases h
    exact size_cutStatement _ hs
  · next r' hr =>
    split at h
    · cases h
    · next x B hb =>
      cases h
      have h₁ := size_afterPhrase? hr
      have h₂ := (forward_tableBody _ _ _ hb).size_le
      have h₃ : B.tail.size ≤ B.size := by cases B <;> simp [Stream.tail, Stream.size]
      simp only [List.length_cons, List.length_nil] at h₁
      omega

theorem rounds_of_next {α : Type} {p : Parser (Round α)} {s r : Stream} {a : α}
    (h : p s = .ok (.next a, r)) (hlt : r.size < s.size) :
    rounds p s = (rounds p r).map fun x => (a :: x.1, x.2) := by
  rw [rounds, h]
  simp only [hlt, if_true]
  cases rounds p r <;> rfl

theorem statements_done (g : Gap) : statements (.done g) = .ok ([], .done g) := by
  rw [statements, many, rounds]
  rfl

/-- All statements are the first one and those of what it leaves. -/
theorem statements_item (g : Gap) (t : Token) (s : Stream) :
    statements (.item g t s) = statement (.item g t s) >>= fun x =>
      (statements x.2).map fun y => (x.1 :: y.1, y.2) := by
  cases hs : statement (.item g t s) with
  | error e =>
    rw [statements, many, rounds]
    simp only [run_bind, atEnd, run_get, run_pure, Stream.head?, Option.isNone_some,
      Bool.false_eq_true, if_false, hs]
    rfl
  | ok x =>
    refine rounds_of_next ?_ (size_of_statement hs (Option.some_ne_none t))
    simp only [run_bind, atEnd, run_get, run_pure, Stream.head?, Option.isNone_some,
      Bool.false_eq_true, if_false, hs]

/-- How a list of tokens is read: blanks and comments, a statement, and so on to the end. -/
inductive Reading : Nat → List Token → List Statement → Prop
  | nil {n : Nat} {w : List Token} : Trivia w → Reading n w []
  | cons {n m : Nat} {w us vs : List Token} {t : Token} {st : Statement} {sts : List Statement} :
      Trivia w → t.isTrivia = false → m = n + w.length →
      statement (ofTokens m (t :: us ++ vs)) = .ok (st, ofTokens (m + us.length + 1) vs) →
      Reading (m + us.length + 1) vs sts → Reading n (w ++ (t :: us ++ vs)) (st :: sts)

theorem Reading.statements {sts : List Statement} (h : Reading n ts sts) :
    ∃ r, statements (ofTokens n ts) = .ok (sts, r) := by
  induction h with
  | nil hw => exact ⟨_, by rw [ofTokens_trivia _ hw, statements_done]⟩
  | @cons n m w us vs t st sts hw ht hm hst _ ih =>
    obtain ⟨r, hr⟩ := ih
    subst hm
    have h := (statement_skip n hw ht (us ++ vs)).trans hst
    rw [ofTokens_append n hw ht] at h
    rw [List.cons_append, ofTokens_append n hw ht, statements_item, h]
    exact ⟨r, congrArg (Except.map _) hr⟩

/-- What is left after a significant token, and perhaps some more. -/
theorem rest_ofTokens_cons {s : Stream} (h : Rest (ofTokens n (t :: ts)) s)
    (hlt : s.size < (ofTokens n (t :: ts)).size) :
    ∃ us vs, ts = us ++ vs ∧ s = ofTokens (n + us.length + 1) vs := by
  obtain rfl | ⟨us, u, vs, heq, hu, rfl⟩ := h.ofTokens
  · exact absurd hlt (Nat.lt_irrefl _)
  cases us with
  | nil =>
    cases heq
    exact ⟨[], ts, rfl, rfl⟩
  | cons t' us =>
    cases heq
    exact ⟨us ++ [u], vs, by rw [List.append_assoc]; rfl, by simp⟩

theorem reading_of_statements {sts : List Statement} {r : Stream}
    (h : statements (ofTokens n ts) = .ok (sts, r)) : Reading n ts sts := by
  -- By the number of tokens, as every statement takes one at least.
  induction hl : ts.length using Nat.strongRecOn generalizing n ts sts r with
  | ind l ih =>
  obtain hw | ⟨w, t, us, rfl, hw, ht⟩ := trivia_or ts
  · rw [ofTokens_trivia n hw, statements_done] at h
    cases h
    exact .nil hw
  rw [ofTokens_append n hw ht, statements_item, ← ofTokens_append n hw ht,
    statement_skip n hw ht] at h
  cases hst : statement (ofTokens (n + w.length) (t :: us)) with
  | error e => rw [hst] at h; cases h
  | ok x =>
    obtain ⟨st, r₁⟩ := x
    rw [hst] at h
    change (Parser.statements r₁).map _ = _ at h
    have hhead : (ofTokens (n + w.length) (t :: us)).head? ≠ none := by
      rw [ofTokens_cons _ ht]
      nofun
    obtain ⟨us, vs, rfl, rfl⟩ := rest_ofTokens_cons (forward_statement _ _ _ hst)
      (size_of_statement hst hhead)
    cases hr : Parser.statements (ofTokens (n + w.length + us.length + 1) vs) with
    | error e => rw [hr] at h; cases h
    | ok y =>
      rw [hr] at h
      cases h
      have hlt : vs.length < l := by
        simp only [List.length_append, List.length_cons] at hl
        omega
      exact .cons hw ht rfl hst (ih _ hlt hr rfl)

/-- The statements of a list of tokens are those of its reading. -/
theorem ofTokens_eq_ok_iff {sts : List Statement} :
    Statement.ofTokens ts = .ok sts ↔ Reading 0 ts sts := by
  unfold Statement.ofTokens
  constructor
  · intro h
    cases hs : Parser.statements (ofTokens 0 ts) with
    | error e => rw [StateT.run, hs] at h; cases h
    | ok x =>
      rw [StateT.run, hs] at h
      cases h
      exact reading_of_statements hs
  · intro h
    obtain ⟨r, hr⟩ := h.statements
    rw [StateT.run, hr]
    rfl

theorem Reading.unique {sts sts' : List Statement} (h : Reading 0 ts sts) (h' : Reading 0 ts sts') :
    sts = sts' :=
  Except.ok.inj ((ofTokens_eq_ok_iff.2 h).symm.trans (ofTokens_eq_ok_iff.2 h'))

/-! ## Where statements stand -/

theorem span_of_statement {s r : Stream} {st : Statement} (h : statement s = .ok (st, r)) :
    st.span = ⟨s.gap.stop, r.gap.start⟩ := by
  rw [statement_eq] at h
  split at h
  · cases h
    rfl
  · split at h
    · cases h
    · cases h
      rfl

theorem span_of_statement_ofTokens {m : Nat} {st : Statement} (ht : t.isTrivia = false)
    (h : statement (ofTokens n (t :: ts)) = .ok (st, ofTokens m vs)) : st.span = ⟨n, m⟩ := by
  rw [span_of_statement h, Stream.start_gap_ofTokens, ofTokens_cons n ht]
  rfl

/-- Every statement was read at a place of its own. -/
theorem Reading.exists_part {sts : List Statement} {st : Statement} (h : Reading n ts sts)
    (hst : st ∈ sts) :
    ∃ us t ws vs, ts = us ++ (t :: ws ++ vs) ∧ t.isTrivia = false ∧
      statement (ofTokens (n + us.length) (t :: ws ++ vs)) =
        .ok (st, ofTokens (n + us.length + ws.length + 1) vs) := by
  induction h with
  | nil => cases hst
  | @cons n m w us vs t st' sts hw ht hm h' _ ih =>
    subst hm
    obtain rfl | hst := List.mem_cons.1 hst
    · exact ⟨w, t, us, vs, rfl, ht, h'⟩
    · obtain ⟨us', t', ws, vs', rfl, ht', h⟩ := ih hst
      refine ⟨w ++ t :: us ++ us', t', ws, vs', by simp, ht', ?_⟩
      have hn : n + (w ++ t :: us ++ us').length = n + w.length + us.length + 1 + us'.length := by
        simp only [List.length_append, List.length_cons]
        omega
      rw [hn]
      exact h

/-- Every statement has a token, none goes beyond the end, and each ends before the next one
    begins. -/
theorem Reading.spans {sts : List Statement} (h : Reading n ts sts) :
    (∀ st ∈ sts, n ≤ st.span.start ∧ st.span.start < st.span.stop ∧
      st.span.stop ≤ n + ts.length) ∧
    sts.Pairwise fun a b => a.span.stop ≤ b.span.start := by
  induction h with
  | nil hw => exact ⟨nofun, .nil⟩
  | @cons n m w us vs t st sts hw ht hm hst _ ih =>
    obtain ⟨inside, ordered⟩ := ih
    have hspan := span_of_statement_ofTokens ht hst
    simp only [List.length_append, List.length_cons]
    refine ⟨List.forall_mem_cons.2 ⟨?_, fun st' h' => ?_⟩, .cons (fun st' h' => ?_) ordered⟩
    · rw [hspan]
      dsimp only
      omega
    · obtain ⟨h₁, h₂, h₃⟩ := inside st' h'
      omega
    · rw [hspan]
      exact (inside st' h').1

end SchemaAlign.Parser
