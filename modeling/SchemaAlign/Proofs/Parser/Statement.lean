import SchemaAlign.Proofs.Parser.Columns
import SchemaAlign.Proofs.Parser.Forward

/-!
# Statements are read alike up to a barrier

`CREATE TABLE` ends at the first barrier after its columns, any other statement at a semicolon
outside the body of a trigger. So on parallel streams one statement either ends before the barriers,
alike on both, or it reaches them.

* `isBarrier_of_tableBody`, `eq_toBarrier_of_tableBody`: where `CREATE TABLE` ends;
* `parallel_cutStatement`: where any other statement ends;
* `Passage`, `parallel_statement`: one statement on parallel streams;
* `uniform_statements`: all statements of a stream, wherever it begins.
-/

namespace SchemaAlign.Parser

open SchemaAlign.Parser.Stream (Meets Parallel isBarrier)

/-! ## What a parser has read -/

section

variable {α β : Type} {s r : Stream}

/-- Rounds that go on where something is read, and only there, end where nothing is found. -/
theorem rounds_eq_ok {p : Parser (Round α)} {as : List α}
    (hnext : ∀ s a r, p s = .ok (.next a, r) → r.size < s.size)
    (hlast : ∀ s a r, p s ≠ .ok (.last a, r)) (h : rounds p s = .ok (as, r)) :
    ∃ s', p s' = .ok (.stop, r) := by
  fun_induction rounds p s generalizing as with
  | case1 => cases h
  | case2 s rest hp => cases h; exact ⟨s, hp⟩
  | case3 s a rest hp => exact absurd hp (hlast s a rest)
  | case4 => cases h
  | case5 s a rest hp hlt as rest' hr ih => cases h; exact ih hr
  | case6 s a rest hp hlt => exact absurd (hnext s a rest hp) hlt

theorem many_eq_ok {p : Parser (Option α)} {as : List α}
    (hp : ∀ s a r, p s = .ok (some a, r) → r.size < s.size) (h : many p s = .ok (as, r)) :
    ∃ s', p s' = .ok (none, r) := by
  refine (rounds_eq_ok ?next ?last h).imp fun s' h => ?stop
  case next =>
    intro s a r h
    obtain ⟨_ | a, s₁, hs, h⟩ := bind_eq_ok h <;> cases h
    exact hp _ _ _ hs
  case last =>
    intro s a r h
    obtain ⟨_ | a, s₁, hs, h⟩ := bind_eq_ok h <;> cases h
  case stop =>
    obtain ⟨_ | a, s₁, hs, h⟩ := bind_eq_ok h <;> cases h
    exact hs

/-- An option is at least one word. -/
theorem size_of_expectOption {o : TableOption} (h : expectOption s = .ok (o, r)) :
    r.size < s.size := by
  obtain ⟨_ | o, s₁, ho, h₁⟩ := bind_eq_ok h
  · cases h₁
  · obtain ⟨b, s₂, hb, h₂⟩ := bind_eq_ok h₁
    cases h₂
    have hlt := (finding_tableOption? _ _ _ ho).2 rfl
    exact Nat.lt_of_le_of_lt (forward_punct? _ _ _ _ hb).size_le hlt

/-- The options go on to the next barrier. -/
theorem isBarrier_of_tableOptions {os : List TableOption} (h : tableOptions s = .ok (os, r)) :
    r.isBarrier = true := by
  have progress : ∀ s o r, nextOption? s = .ok (some o, r) → r.size < s.size := by
    intro s o r h
    rw [nextOption?_eq] at h
    split at h
    · cases h
    · obtain ⟨o, s₁, ho, h₁⟩ := bind_eq_ok h
      cases h₁
      exact size_of_expectOption ho
  obtain ⟨s', h⟩ := many_eq_ok progress h
  rw [nextOption?_eq] at h
  split at h
  · next hB =>
    cases h
    exact hB
  · obtain ⟨o, s₁, ho, h₁⟩ := bind_eq_ok h
    cases h₁

/-- What stands before the semicolon of `CREATE TABLE` goes on to the next barrier. -/
theorem isBarrier_of_tableBody {x : Bool × String × List Column × List TableOption}
    (h : tableBody s = .ok (x, r)) : r.isBarrier = true := by
  obtain ⟨_, _, _, h₁⟩ := bind_eq_ok h
  obtain ⟨_, _, _, h₂⟩ := bind_eq_ok h₁
  obtain ⟨_, _, _, h₃⟩ := bind_eq_ok h₂
  obtain ⟨_, _, _, h₄⟩ := bind_eq_ok h₃
  obtain ⟨_, _, hoptions, h₅⟩ := bind_eq_ok h₄
  cases h₅
  exact isBarrier_of_tableOptions hoptions

/-- The stream from its first barrier on. -/
def Stream.toBarrier : Stream → Stream
  | .done g => .done g
  | .item g t rest => if t.isPunct ";" then .item g t rest else rest.toBarrier

theorem Stream.toBarrier_of_isBarrier (h : s.isBarrier = true) : s.toBarrier = s := by
  cases s with
  | done => rfl
  | item g t rest => exact if_pos h

theorem Stream.isBarrier_toBarrier (s : Stream) : s.toBarrier.isBarrier = true := by
  induction s with
  | done => rfl
  | item g t rest ih =>
    rw [Stream.toBarrier]
    split
    · assumption
    · exact ih

theorem Stream.parallel_toBarrier (s : Stream) : Parallel 0 s.toBarrier s.toBarrier s s := by
  induction s with
  | done => exact .barrier
  | item g t rest ih =>
    rw [Stream.toBarrier]
    split
    · exact .barrier
    · exact .item ih

/-- A rest that goes on to a barrier, but has no fewer tokens than stand behind the first one,
    begins there. -/
theorem Stream.Rest.eq_toBarrier (h : Rest s r) (hr : r.isBarrier = true)
    (hsize : s.toBarrier.size ≤ r.size) : r = s.toBarrier := by
  induction h with
  | refl => exact (Stream.toBarrier_of_isBarrier hr).symm
  | @item g t s r h ih =>
    rw [Stream.toBarrier] at hsize ⊢
    split
    · next ht =>
      rw [if_pos ht, Stream.size] at hsize
      have := h.size_le
      omega
    · next ht =>
      rw [if_neg ht] at hsize
      exact ih hr hsize

/-- What stands before the semicolon of `CREATE TABLE` holds no semicolon. -/
theorem eq_toBarrier_of_tableBody {x : Bool × String × List Column × List TableOption}
    (h : tableBody s = .ok (x, r)) : r = s.toBarrier := by
  refine (forward_tableBody _ _ _ h).eq_toBarrier (isBarrier_of_tableBody h) ?_
  have hbarrier := s.isBarrier_toBarrier
  have huniform := uniform_tableBody ⟨rfl, hbarrier, hbarrier⟩ _ _ s.parallel_toBarrier
  rw [h] at huniform
  exact huniform.2.size_le

end

/-! ## One statement on parallel streams -/

/-- What follows the first significant token. -/
def Stream.tail : Stream → Stream
  | done g => done g
  | item _ _ rest => rest

variable {d : Nat} {T T' s s' : Stream}

theorem punct?_of_isBarrier {B : Stream} (h : B.isBarrier = true) :
    ∃ b, punct? ";" B = .ok (b, B.tail) := by
  cases B with
  | done => exact ⟨false, rfl⟩
  | item g t rest =>
    have ht : t.isPunct ";" = true := h
    exact ⟨true, by simp only [punct?, ht, if_true, Stream.tail]⟩

/-- The table that the given parts make up. -/
def tableOf (span : Span) (x : Bool × String × List Column × List TableOption) : Statement :=
  .createTable { name := x.2.1, ifNotExists := x.1, columns := x.2.2.1, options := x.2.2.2, span }

/-- Reading `CREATE TABLE`, in one piece. -/
theorem statement_eq (s : Stream) :
    statement s =
      match s.afterPhrase? ["CREATE", "TABLE"] with
      | none => .ok (.other (s.cutStatement .start).1
          ⟨s.gap.stop, (s.cutStatement .start).2.gap.start⟩, (s.cutStatement .start).2)
      | some r =>
        match tableBody r with
        | .error e => .error e
        | .ok (x, B) => .ok (tableOf ⟨s.gap.stop, B.tail.gap.start⟩ x, B.tail) := by
  cases hs : s.afterPhrase? ["CREATE", "TABLE"] with
  | none =>
    simp only [statement, createTable?, otherStatement, spanned, phrase?, run_bind, run_get,
      run_pure, hs, Bool.false_eq_true, if_false, Option.map_none]
  | some r =>
    cases hb : tableBody r with
    | error e =>
      simp only [statement, createTable?, spanned, phrase?, run_bind, run_get, hs, hb, if_true]
    | ok x =>
      obtain ⟨b, hp⟩ := punct?_of_isBarrier (isBarrier_of_tableBody hb)
      simp only [statement, createTable?, spanned, phrase?, run_bind, run_get, run_pure, hs, hb,
        hp, if_true, Option.map_some, tableOf]

/-- One statement either ends before the barrier, alike on both streams, or it reaches the barrier:
    `CREATE TABLE` ends there, any other statement is cut from there on. -/
inductive Passage (d : Nat) (T T' : Stream) :
    Except Misfit (Statement × Stream) → Except Misfit (Statement × Stream) → Prop
  | fault {e e' : Misfit} : (T'.gap = T.gap.shift d → e' = ⟨e.fault, e.position + d⟩) →
      Passage d T T' (.error e) (.error e')
  | before {st : Statement} {r r' : Stream} : Parallel d T T' r r' →
      Passage d T T' (.ok (st, r)) (.ok (st.shift 0 d, r'))
  | table {st : Statement} {start : Nat} :
      Passage d T T' (.ok (st.withSpan ⟨start, T.tail.gap.start⟩, T.tail))
        (.ok ((st.shift 0 d).withSpan ⟨start + d, T'.tail.gap.start⟩, T'.tail))
  | other {words : List String} {n : Nesting} {start : Nat} :
      Passage d T T'
        (.ok (.other (words ++ (T.cutStatement n).1) ⟨start, (T.cutStatement n).2.gap.start⟩,
          (T.cutStatement n).2))
        (.ok (.other (words ++ (T'.cutStatement n).1)
          ⟨start + d, (T'.cutStatement n).2.gap.start⟩, (T'.cutStatement n).2))

theorem parallel_cutStatement (hs : Parallel d T T' s s') (n : Nesting) :
    (∃ words r r', s.cutStatement n = (words, r) ∧ s'.cutStatement n = (words, r') ∧
        Parallel d T T' r r') ∨
      ∃ words m, s.cutStatement n = (words ++ (T.cutStatement m).1, (T.cutStatement m).2) ∧
        s'.cutStatement n = (words ++ (T'.cutStatement m).1, (T'.cutStatement m).2) := by
  induction hs generalizing n with
  | barrier => exact .inr ⟨[], n, rfl, rfl⟩
  | @item g t s s' hs ih =>
    by_cases hn : n.isEnd t = true
    · simp only [Stream.cutStatement, hn, if_true]
      exact .inl ⟨_, _, _, rfl, rfl, hs⟩
    · simp only [Stream.cutStatement, hn, Bool.false_eq_true, if_false]
      obtain ⟨words, r, r', h, h', hr⟩ | ⟨words, m, h, h'⟩ := ih (n.step t)
      · exact .inl ⟨t.text :: words, r, r', by rw [h], by rw [h'], hr⟩
      · exact .inr ⟨t.text :: words, m, by rw [h]; rfl, by rw [h']; rfl⟩

theorem parallel_statement (hT : Meets d T T') (hs : Parallel d T T' s s')
    (hstop : s'.gap.stop = s.gap.stop + d) : Passage d T T' (statement s) (statement s') := by
  have h := parallel_afterPhrase? hT ["CREATE", "TABLE"] hs
  rw [statement_eq, statement_eq, hstop]
  generalize s.afterPhrase? ["CREATE", "TABLE"] = x at h ⊢
  generalize s'.afterPhrase? ["CREATE", "TABLE"] = x' at h ⊢
  -- Both streams begin with `CREATE TABLE`, or neither does.
  cases h with
  | none =>
    obtain ⟨words, r, r', h, h', hr⟩ | ⟨words, n, h, h'⟩ := parallel_cutStatement hs .start
    · simp only [h, h', hr.start_gap hT]
      exact .before hr
    · simp only [h, h']
      exact .other
  | @some r r' hr =>
    have h := uniform_tableBody hT r r' hr
    cases hb : tableBody r with
    | error e =>
      rw [hb] at h
      obtain ⟨e', hb', he⟩ := h.of_error
      simp only [hb, hb']
      exact .fault he
    | ok x =>
      obtain ⟨x, B⟩ := x
      rw [hb] at h
      obtain ⟨y, B', hb', rfl, hB⟩ := h.of_ok
      simp only [hb, hb']
      -- The body ends at the barrier, or before it on both streams.
      cases hB with
      | barrier => exact @Passage.table d _ _ (tableOf ⟨0, 0⟩ x) s.gap.stop
      | item hB =>
        simp only [Stream.tail, hB.start_gap hT]
        exact .before hB

/-! ## A statement in another place -/

/-- Any statement but `CREATE TABLE` goes on to a semicolon, or else to the end. -/
theorem size_cutStatement {s : Stream} (n : Nesting) (h : s.head? ≠ none) :
    (s.cutStatement n).2.size < s.size := by
  induction s generalizing n with
  | done => exact absurd rfl h
  | item g t rest ih =>
    by_cases hn : n.isEnd t = true
    · simp only [Stream.cutStatement, hn, if_true, Stream.size]
      exact Nat.lt_succ_self _
    · simp only [Stream.cutStatement, hn, Bool.false_eq_true, if_false, Stream.size]
      cases rest with
      | done => exact Nat.lt_succ_self _
      | item g' t' rest => exact Nat.lt_succ_of_lt (ih (n.step t) (Option.some_ne_none t'))

/-- A statement that ends with the semicolon at the barrier, and not just because the tokens end
    there, ends there on both streams, and is the same on both. -/
theorem Passage.at_semicolon {g : Gap} {t : Token} {rest rest' : Stream}
    {x x' : Except Misfit (Statement × Stream)} (hgap : rest'.gap.start = rest.gap.start + d)
    (h : Passage d (.item g t rest) (.item (g.shift d) t rest') x x') :
    (∃ st, x = .ok (st, rest) ∧ x' = .ok (st.shift 0 d, rest')) ∨
      (rest.head? ≠ none → ∀ st, x ≠ .ok (st, rest)) ∧
        (rest'.head? ≠ none → ∀ st, x' ≠ .ok (st, rest')) := by
  cases h with
  | fault => exact .inr ⟨nofun, nofun⟩
  | before hr =>
    -- The semicolon is not read.
    have hlt := hr.size_le
    have hlt' := hr.size_add
    simp only [Stream.size] at hlt hlt'
    refine .inr ⟨fun _ st h => ?_, fun _ st h => ?_⟩ <;> cases h <;> omega
  | @table st start =>
    refine .inl ⟨_, rfl, ?_⟩
    cases st <;> simp [Stream.tail, hgap, Statement.shift, Statement.withSpan, Statement.mapSpan,
      CreateTable.mapSpan, Span.shift]
  | @other words n start =>
    by_cases hn : n.isEnd t = true
    · simp only [Stream.cutStatement, hn, if_true]
      exact .inl ⟨_, rfl, by simp [Statement.shift, Statement.mapSpan, Span.shift, hgap]⟩
    · -- Inside a body, the end is further on.
      simp only [Stream.cutStatement, hn, Bool.false_eq_true, if_false]
      refine .inr ⟨fun hrest st h => ?_, fun hrest st h => ?_⟩ <;>
      · have hlt := size_cutStatement (n.step t) hrest
        have heq := congrArg Stream.size (Prod.mk.inj (Except.ok.inj h)).2
        omega

/-! ## All statements -/

/-- A statement that begins before the end is the same on both streams. What follows its last token
    up to the end is no part of it. -/
theorem matches_statement (hT : Meets d T T') (hend : T.head? = none) (hend' : T'.head? = none)
    (hs : Parallel d T T' s s') (hstop : s'.gap.stop = s.gap.stop + d) :
    Matches d T T' (fun a b => a.shift 0 d = b) (statement s) (statement s') := by
  have hp := parallel_statement hT hs hstop
  obtain ⟨g, rfl⟩ : ∃ g, T = .done g := by
    cases T with
    | done g => exact ⟨g, rfl⟩
    | item => cases hend
  obtain ⟨g', rfl⟩ : ∃ g', T' = .done g' := by
    cases T' with
    | done g' => exact ⟨g', rfl⟩
    | item => cases hend'
  -- The barriers are ends, so a statement that reaches them takes nothing from there on.
  generalize statement s = x at hp ⊢
  generalize statement s' = x' at hp ⊢
  have hstart : g'.start = g.start + d := hT.start_eq
  cases hp with
  | fault he => exact he
  | before hr => exact ⟨rfl, hr⟩
  | @table st start =>
    refine ⟨?_, .barrier⟩
    cases st <;> simp [Stream.tail, Stream.gap, hstart, Statement.shift, Statement.withSpan,
      Statement.mapSpan, CreateTable.mapSpan, Span.shift]
  | other =>
    refine ⟨?_, .barrier⟩
    simp [Stream.cutStatement, Stream.gap, hstart, Statement.shift, Statement.mapSpan, Span.shift]

/-- Streams that run in parallel up to their ends hold the same statements, `d` positions apart. -/
theorem uniform_statements (hT : Meets d T T') (hend : T.head? = none) (hend' : T'.head? = none) :
    Uniform d T T' (fun as bs => as.map (Statement.shift 0 d) = bs) statements statements := by
  refine uniform_many_map fun s s' hs => ?_
  simp only [run_bind, atEnd, run_get, run_pure]
  cases hs with
  | barrier =>
    simp only [hend, hend', Option.isNone_none, if_true]
    exact ⟨rfl, .barrier⟩
  | @item g t s s' hs =>
    have h := matches_statement hT hend hend' (.item (t := t) hs) (Gap.stop_shift d g)
    change Matches d T T' _ ((do return some (← statement) : Parser _) (.item g t s))
      ((do return some (← statement) : Parser _) (.item (g.shift d) t s'))
    rw [run_bind, run_bind]
    cases hst : statement (.item g t s) with
    | error e =>
      rw [hst] at h
      obtain ⟨e', hst', he⟩ := h.of_error
      rw [hst']
      exact he
    | ok x =>
      rw [hst] at h
      obtain ⟨st, r, hst', rfl, hr⟩ := h.of_ok
      rw [hst']
      exact ⟨rfl, hr⟩

end SchemaAlign.Parser
