import Mathlib.Data.List.Forall2
import SchemaAlign.Parser.Basic

/-!
# Parsers that stop at a semicolon

A `CREATE TABLE` statement ends at a semicolon or at the end of the text, and no rule of its grammar
looks further. Two streams *run in parallel* up to such barriers if they have the same tokens and
gaps before them, those of the second one `d` positions further on. What lies behind the barriers,
which of the two kinds they are, and what the gaps right before them hold is left open. A rule is
*uniform* if it does the same on parallel streams: it gives the same value, and what it leaves is
parallel again, or it fails on both. Only a fault may depend on the gaps before the barriers.

* `Stream.Parallel`, `Uniform`: the two notions;
* `Uniform.bind`, `uniform_rounds`, …: uniform rules combine into uniform rules.

So a definition reads the same at any place of any text (`SchemaAlign.Proofs.Parser.Sentence`).
-/

namespace SchemaAlign.Parser

/-! ## Parallel streams -/

/-- The gap `d` positions further on. -/
def Gap.shift (d : Nat) (g : Gap) : Gap :=
  ⟨g.start + d, g.trivia⟩

theorem Gap.stop_shift (d : Nat) (g : Gap) : (g.shift d).stop = g.stop + d :=
  Nat.add_right_comm _ _ _

theorem Gap.skipped_shift (d : Nat) (g : Gap) : (g.shift d).skipped = g.skipped.shift d := by
  rw [skipped, stop_shift]
  rfl

namespace Stream

/-- Whether the stream is at its end or at a semicolon. -/
def isBarrier (s : Stream) : Bool :=
  s.head?.all (·.isPunct ";")

/-- Two barriers. The gap before the second one begins `d` positions further on. -/
structure Meets (d : Nat) (T T' : Stream) : Prop where
  start_eq : T'.gap.start = T.gap.start + d
  left : T.isBarrier = true
  right : T'.isBarrier = true

/-- `s` and `s'` have the same tokens and gaps before `T` and `T'`. -/
inductive Parallel (d : Nat) (T T' : Stream) : Stream → Stream → Prop
  | barrier : Parallel d T T' T T'
  | item {g : Gap} {t : Token} {s s' : Stream} : Parallel d T T' s s' →
      Parallel d T T' (.item g t s) (.item (g.shift d) t s')

variable {d : Nat} {T T' s s' : Stream}

theorem Parallel.start_gap (hT : Meets d T T') (h : Parallel d T T' s s') :
    s'.gap.start = s.gap.start + d := by
  cases h with
  | barrier => exact hT.start_eq
  | item => rfl

theorem Parallel.stop_gap (hgap : T'.gap = T.gap.shift d) (h : Parallel d T T' s s') :
    s'.gap.stop = s.gap.stop + d := by
  cases h with
  | barrier => rw [hgap, Gap.stop_shift]
  | item => exact Gap.stop_shift _ _

/-- Streams that run in parallel up to others that do. -/
theorem Parallel.trans {B B' : Stream} (h : Parallel d B B' s s') (hB : Parallel d T T' B B') :
    Parallel d T T' s s' := by
  induction h with
  | barrier => exact hB
  | item _ ih => exact .item ih

/-- As many tokens stand before one barrier as before the other. -/
theorem Parallel.size_add (h : Parallel d T T' s s') :
    s.size + T'.size = s'.size + T.size := by
  induction h with
  | barrier => exact Nat.add_comm _ _
  | item _ ih => simp only [size]; omega

theorem Parallel.size_le (h : Parallel d T T' s s') : T.size ≤ s.size := by
  induction h with
  | barrier => exact Nat.le_refl _
  | item _ ih => exact Nat.le_succ_of_le ih

/-- A test that no semicolon passes gives the same on both streams. -/
theorem Parallel.headIs_eq (hT : Meets d T T') {p : Token → Bool}
    (hp : ∀ t : Token, t.isPunct ";" = true → p t = false) (h : Parallel d T T' s s') :
    s'.headIs p = s.headIs p := by
  cases h with
  | item => rfl
  | barrier =>
    have hB : ∀ B : Stream, B.isBarrier = true → B.headIs p = false := by
      rintro (_ | ⟨_, t, _⟩) h
      · rfl
      · exact hp t h
    rw [hB T hT.left, hB T' hT.right]

end Stream

open SchemaAlign.Parser.Stream (Meets Parallel isBarrier)

/-! ## Uniform parsers -/

variable {α β γ δ : Type}

/-- Two results agree: values in the relation `ρ` before parallel streams, or two faults. Those are
    the same, at places `d` apart, if the gaps before the barriers hold the same. -/
def Matches (d : Nat) (T T' : Stream) (ρ : α → β → Prop) :
    Except Misfit (α × Stream) → Except Misfit (β × Stream) → Prop
  | .ok (a, s), .ok (b, s') => ρ a b ∧ Parallel d T T' s s'
  | .error e, .error e' => T'.gap = T.gap.shift d → e' = ⟨e.fault, e.position + d⟩
  | _, _ => False

variable {d : Nat} {T T' : Stream} {ρ : α → β → Prop} {σ : γ → δ → Prop}

theorem Matches.of_ok {a : α} {s : Stream} {x : Except Misfit (β × Stream)}
    (h : Matches d T T' ρ (.ok (a, s)) x) :
    ∃ b s', x = .ok (b, s') ∧ ρ a b ∧ Parallel d T T' s s' := by
  match x, h with
  | .ok (b, s'), h => exact ⟨b, s', rfl, h⟩

theorem Matches.of_error {e : Misfit} {x : Except Misfit (β × Stream)}
    (h : Matches d T T' ρ (.error e : Except Misfit (α × Stream)) x) :
    ∃ e', x = .error e' ∧ (T'.gap = T.gap.shift d → e' = ⟨e.fault, e.position + d⟩) := by
  match x, h with
  | .error e', h => exact ⟨e', rfl, h⟩

/-- The two parsers do the same on parallel streams. -/
def Uniform (d : Nat) (T T' : Stream) (ρ : α → β → Prop) (p : Parser α) (q : Parser β) : Prop :=
  ∀ s s', Parallel d T T' s s' → Matches d T T' ρ (p s) (q s')

theorem Uniform.pure {a : α} {b : β} (h : ρ a b) : Uniform d T T' ρ (pure a) (pure b) :=
  fun _ _ hs => ⟨h, hs⟩

theorem Uniform.bind {p : Parser α} {q : Parser β} {k : α → Parser γ} {l : β → Parser δ}
    (hp : Uniform d T T' ρ p q) (hk : ∀ a b, ρ a b → Uniform d T T' σ (k a) (l b)) :
    Uniform d T T' σ (p >>= k) (q >>= l) := by
  intro s s' hs
  have h := hp s s' hs
  change Matches d T T' σ (p s >>= fun x => k x.1 x.2) (q s' >>= fun x => l x.1 x.2)
  cases hps : p s with
  | error e =>
    rw [hps] at h
    obtain ⟨e', hqs, he⟩ := h.of_error
    rw [hqs]
    exact he
  | ok x =>
    rw [hps] at h
    obtain ⟨b, r', hqs, hab, hr⟩ := h.of_ok
    rw [hqs]
    exact hk x.1 b hab x.2 r' hr

/-- The value of the first parser is used as it is. -/
theorem Uniform.bind_eq {p : Parser α} {k : α → Parser γ} {l : α → Parser δ}
    (hp : Uniform d T T' Eq p p) (hk : ∀ a, Uniform d T T' σ (k a) (l a)) :
    Uniform d T T' σ (p >>= k) (p >>= l) :=
  hp.bind fun a _ h => h ▸ hk a

/-- The first parser finds something or nothing. -/
theorem Uniform.bind_option {p : Parser (Option α)} {k : Option α → Parser γ}
    {l : Option α → Parser δ} (hp : Uniform d T T' Eq p p)
    (hnone : Uniform d T T' σ (k none) (l none))
    (hsome : ∀ a, Uniform d T T' σ (k (some a)) (l (some a))) :
    Uniform d T T' σ (p >>= k) (p >>= l) :=
  hp.bind_eq fun
    | none => hnone
    | some a => hsome a

theorem Uniform.map {p : Parser α} {q : Parser β} {f : α → γ} {g : β → δ}
    (hp : Uniform d T T' ρ p q) (hf : ∀ a b, ρ a b → σ (f a) (g b)) :
    Uniform d T T' σ (do return f (← p)) (do return g (← q)) :=
  hp.bind fun a b h => .pure (hf a b h)

theorem Uniform.mono {p : Parser α} {q : Parser β} {τ : α → β → Prop}
    (hp : Uniform d T T' ρ p q) (h : ∀ a b, ρ a b → τ a b) : Uniform d T T' τ p q := by
  intro s s' hs
  have hm := hp s s' hs
  cases hps : p s with
  | error e =>
    rw [hps] at hm
    obtain ⟨e', hqs, he⟩ := hm.of_error
    rw [hqs]
    exact he
  | ok x =>
    rw [hps] at hm
    obtain ⟨b, r', hqs, hab, hr⟩ := hm.of_ok
    rw [hqs]
    exact ⟨h _ _ hab, hr⟩

/-- A choice by the value of a test that is uniform. -/
theorem Uniform.ite {p : Parser Bool} {k l : Parser α} {k' l' : Parser β}
    (hp : Uniform d T T' Eq p p) (hk : Uniform d T T' ρ k k') (hl : Uniform d T T' ρ l l') :
    Uniform d T T' ρ (do if ← p then k else l) (do if ← p then k' else l') :=
  hp.bind_eq fun b => by cases b <;> assumption

section

variable (hT : Meets d T T')
include hT

omit hT in
theorem uniform_fail (fault : Fault) : Uniform d T T' ρ (fail fault) (fail fault) := by
  intro s s' hs hgap
  rw [hs.stop_gap hgap]

theorem uniform_nextIs {p : Token → Bool} (hp : ∀ t : Token, t.isPunct ";" = true → p t = false) :
    Uniform d T T' Eq (nextIs p) (nextIs p) :=
  fun _ _ hs => ⟨(hs.headIs_eq hT hp).symm, hs⟩

/-! ### Words and marks -/

end

theorem eq_of_isPunct {t : Token} {mark : String} (h : t.isPunct mark = true) :
    t = ⟨.punctuation, mark⟩ := by
  obtain ⟨kind, text⟩ := t
  obtain ⟨rfl, rfl⟩ : kind = .punctuation ∧ text = mark := by simpa [Token.isPunct] using h
  rfl

theorem isKeyword_of_isPunct {t : Token} {mark : String} (h : t.isPunct mark = true) (k : String) :
    t.isKeyword k = false := by
  rw [eq_of_isPunct h]
  rfl

theorem name?_of_isPunct {t : Token} {mark : String} (h : t.isPunct mark = true) :
    t.name? = none := by
  rw [eq_of_isPunct h]
  rfl

theorem isPunct_of_isPunct {t : Token} {mark mark' : String} (h : t.isPunct mark = true)
    (hne : mark' ≠ mark) : t.isPunct mark' = false := by
  have ht : t.text = mark := by simp_all [Token.isPunct]
  simp [Token.isPunct, ht, hne.symm]

section

variable {B : Stream} (h : B.isBarrier = true)
include h

/-- A phrase does not begin at a barrier. -/
theorem afterPhrase?_of_isBarrier (k : String) (ks : List String) :
    B.afterPhrase? (k :: ks) = none := by
  cases B with
  | done => rfl
  | item g t rest => simp [Stream.afterPhrase?, isKeyword_of_isPunct h]

theorem keyword?_of_barrier (k : String) : keyword? k B = .ok (false, B) := by
  simp only [keyword?, phrase?, afterPhrase?_of_isBarrier h]

theorem punct?_of_barrier {mark : String} (hm : mark ≠ ";") : punct? mark B = .ok (false, B) := by
  cases B with
  | done => rfl
  | item g t rest => simp [punct?, isPunct_of_isPunct h hm]

theorem name?_of_barrier : name? B = .ok (none, B) := by
  cases B with
  | done => rfl
  | item g t rest => simp [name?, name?_of_isPunct h]

end

section

variable (hT : Meets d T T')
include hT

theorem parallel_afterPhrase? (ks : List String) {s s' : Stream} (hs : Parallel d T T' s s') :
    Option.Rel (Parallel d T T') (s.afterPhrase? ks) (s'.afterPhrase? ks) := by
  induction ks generalizing s s' with
  | nil => exact .some hs
  | cons k ks ih =>
    cases hs with
    | barrier =>
      rw [afterPhrase?_of_isBarrier hT.left, afterPhrase?_of_isBarrier hT.right]
      exact .none
    | item hs =>
      simp only [Stream.afterPhrase?]
      split
      · exact ih hs
      · exact .none

theorem uniform_phrase? (ks : List String) : Uniform d T T' Eq (phrase? ks) (phrase? ks) := by
  intro s s' hs
  have h := parallel_afterPhrase? hT ks hs
  simp only [phrase?]
  generalize s.afterPhrase? ks = x at h ⊢
  generalize s'.afterPhrase? ks = x' at h ⊢
  cases h with
  | some hr => exact ⟨rfl, hr⟩
  | none => exact ⟨rfl, hs⟩

theorem uniform_keyword? (k : String) : Uniform d T T' Eq (keyword? k) (keyword? k) :=
  uniform_phrase? hT [k]

theorem uniform_punct? {mark : String} (hm : mark ≠ ";") :
    Uniform d T T' Eq (punct? mark) (punct? mark) := by
  intro s s' hs
  cases hs with
  | item hs =>
    simp only [punct?]
    split
    · exact ⟨rfl, hs⟩
    · exact ⟨rfl, .item hs⟩
  | barrier =>
    rw [punct?_of_barrier hT.left hm, punct?_of_barrier hT.right hm]
    exact ⟨rfl, .barrier⟩

theorem uniform_name? : Uniform d T T' Eq name? name? := by
  intro s s' hs
  cases hs with
  | @item g t s s' hs =>
    simp only [name?]
    cases t.name? with
    | some name => exact ⟨rfl, hs⟩
    | none => exact ⟨rfl, .item hs⟩
  | barrier =>
    rw [name?_of_barrier hT.left, name?_of_barrier hT.right]
    exact ⟨rfl, .barrier⟩

theorem uniform_choose (choices : List (List String × α)) :
    Uniform d T T' Eq (choose choices) (choose choices) := by
  induction choices with
  | nil => exact .pure rfl
  | cons choice choices ih => exact (uniform_phrase? hT choice.1).ite (.pure rfl) ih

theorem uniform_expectKeyword (k : String) (fault : Fault) :
    Uniform d T T' Eq (expectKeyword k fault) (expectKeyword k fault) :=
  (uniform_keyword? hT k).ite (.pure rfl) (uniform_fail fault)

theorem uniform_expectPunct {mark : String} (hm : mark ≠ ";") (fault : Fault) :
    Uniform d T T' Eq (expectPunct mark fault) (expectPunct mark fault) :=
  (uniform_punct? hT hm).ite (.pure rfl) (uniform_fail fault)

theorem uniform_expectName (fault : Fault) :
    Uniform d T T' Eq (expectName fault) (expectName fault) :=
  (uniform_name? hT).bind_option (uniform_fail fault) fun _ => .pure rfl

/-! ### Spans and repetitions -/

/-- The span that a uniform parser reads is `d` positions further on, too, unless the parser reads
    at a barrier. -/
theorem uniform_spanned {p : Parser α} {q : Parser β} (hp : Uniform d T T' ρ p q) :
    Uniform d T T' (fun x y => ρ x.1 y.1 ∧
      (y.2 = x.2.shift 0 d ∨ ∃ r, q T' = .ok (y.1, r))) (spanned p) (spanned q) := by
  intro s s' hs
  have h := hp s s' hs
  simp only [spanned]
  change Matches d T T' _
    (p s >>= fun x => .ok ((x.1, (⟨s.gap.stop, x.2.gap.start⟩ : Span)), x.2))
    (q s' >>= fun x => .ok ((x.1, (⟨s'.gap.stop, x.2.gap.start⟩ : Span)), x.2))
  cases hps : p s with
  | error e =>
    rw [hps] at h
    obtain ⟨e', hqs, he⟩ := h.of_error
    rw [hqs]
    exact he
  | ok x =>
    rw [hps] at h
    obtain ⟨b, r', hqs, hab, hr⟩ := h.of_ok
    rw [hqs]
    refine ⟨⟨hab, ?_⟩, hr⟩
    -- At a barrier the two gaps need not be alike, so nothing is known of where the span begins.
    cases hs with
    | barrier => exact .inr ⟨r', hqs⟩
    | @item g t s s' hs =>
      refine .inl ?_
      change (⟨(g.shift d).stop, r'.gap.start⟩ : Span) = (⟨g.stop, x.2.gap.start⟩ : Span).shift 0 d
      simp only [Span.shift, Gap.stop_shift, hr.start_gap hT, Nat.sub_zero]

omit hT in
/-- How the rounds of two repetitions agree. -/
inductive RoundMatches (ρ : α → β → Prop) : Round α → Round β → Prop
  | stop : RoundMatches ρ .stop .stop
  | last {a : α} {b : β} : ρ a b → RoundMatches ρ (.last a) (.last b)
  | next {a : α} {b : β} : ρ a b → RoundMatches ρ (.next a) (.next b)

omit hT in
theorem uniform_rounds {p : Parser (Round α)} {q : Parser (Round β)}
    (hp : Uniform d T T' (RoundMatches ρ) p q) :
    Uniform d T T' (List.Forall₂ ρ) (rounds p) (rounds q) := by
  intro s s' hs
  -- Along the rounds of the first repetition: the second one makes progress where the first does,
  -- as both have as far to go to their barriers.
  have progress {s s' r r' : Stream} (hs : Parallel d T T' s s') (hr : Parallel d T T' r r') :
      r'.size < s'.size ↔ r.size < s.size := by
    have := hs.size_add
    have := hr.size_add
    omega
  fun_induction rounds p s generalizing s' with
  | case1 s e hps =>
    obtain ⟨e', hqs, he⟩ := (hps ▸ hp s s' hs).of_error
    rw [rounds, hqs]
    exact he
  | case2 s r hps =>
    obtain ⟨_, r', hqs, hround, hr⟩ := (hps ▸ hp s s' hs).of_ok
    cases hround
    rw [rounds, hqs]
    exact ⟨.nil, hr⟩
  | case3 s a r hps =>
    obtain ⟨_, r', hqs, hround, hr⟩ := (hps ▸ hp s s' hs).of_ok
    cases hround with | last hab => ?_
    rw [rounds, hqs]
    exact ⟨.cons hab .nil, hr⟩
  | case4 s a r hps hlt e hrs ih =>
    obtain ⟨_, r', hqs, hround, hr⟩ := (hps ▸ hp s s' hs).of_ok
    cases hround with | next hab => ?_
    obtain ⟨e', hrs', he⟩ := (hrs ▸ ih r' hr).of_error
    rw [rounds, hqs]
    simp only [(progress hs hr).2 hlt, hrs', if_true]
    exact he
  | case5 s a r hps hlt as t hrs ih =>
    obtain ⟨_, r', hqs, hround, hr⟩ := (hps ▸ hp s s' hs).of_ok
    cases hround with | next hab => ?_
    obtain ⟨bs, t', hrs', habs, ht⟩ := (hrs ▸ ih r' hr).of_ok
    rw [rounds, hqs]
    simp only [(progress hs hr).2 hlt, hrs', if_true]
    exact ⟨.cons hab habs, ht⟩
  | case6 s a r hps hlt =>
    obtain ⟨_, r', hqs, hround, hr⟩ := (hps ▸ hp s s' hs).of_ok
    cases hround with | next hab => ?_
    rw [rounds, hqs]
    simp only [mt (progress hs hr).1 hlt, if_false]
    exact ⟨.cons hab .nil, hr⟩

omit hT in
theorem uniform_many {p : Parser (Option α)} {q : Parser (Option β)}
    (hp : Uniform d T T' (Option.Rel ρ) p q) :
    Uniform d T T' (List.Forall₂ ρ) (many p) (many q) := by
  refine uniform_rounds (hp.bind fun a b hab => ?_)
  cases hab with
  | some hab => exact .pure (.next hab)
  | none => exact .pure .stop

omit hT in
/-- Where the values found are those of `p`, changed by `f`, all values are. -/
theorem uniform_many_map {f : α → β} {p : Parser (Option α)} {q : Parser (Option β)}
    (hp : Uniform d T T' (fun a b => a.map f = b) p q) :
    Uniform d T T' (fun as bs => as.map f = bs) (many p) (many q) := by
  have h : Uniform d T T' (Option.Rel fun a b => f a = b) p q := by
    refine hp.mono ?_
    rintro (_ | a) _ rfl
    · exact .none
    · exact .some rfl
  refine (uniform_many h).mono fun as bs habs => ?_
  rw [← List.forall₂_eq_eq_eq, List.forall₂_map_left_iff]
  exact habs

theorem uniform_commaSeparated {p : Parser α} {q : Parser β} (hp : Uniform d T T' ρ p q) :
    Uniform d T T' (List.Forall₂ ρ) (commaSeparated p) (commaSeparated q) :=
  uniform_rounds (hp.bind fun _ _ hab =>
    (uniform_punct? hT (by decide)).ite (.pure (.next hab)) (.pure (.last hab)))

end

end SchemaAlign.Parser
