import SchemaAlign.Token

/-!
# Streams of significant tokens

The grammar speaks of significant tokens; blanks and comments may stand anywhere between them. A
stream is a list of tokens seen that way: significant tokens, with the gaps before, between and
after them.

* `Gap`: what stands between two significant tokens, and where;
* `Stream.ofTokens`: the stream of a list of tokens;
* `Stream.toTokens`: the tokens of a stream, with `toTokens_ofTokens` for the way there and back;
* `Stream.size`: the number of significant tokens.
-/

namespace SchemaAlign.Parser

/-- The blanks and comments before a significant token, or at the end. -/
structure Gap where
  /-- The position just past the significant token before the gap. -/
  start : Nat
  /-- The blanks and comments. -/
  trivia : List Token

namespace Gap

/-- The position of the significant token after the gap. -/
def stop (g : Gap) : Nat :=
  g.start + g.trivia.length

/-- The gap at its own end: nothing is left in it. -/
def skipped (g : Gap) : Gap :=
  ⟨g.stop, []⟩

theorem start_le_stop (g : Gap) : g.start ≤ g.stop :=
  Nat.le_add_right _ _

end Gap

/-- Significant tokens, each after a gap, and the gap at the end. -/
inductive Stream where
  | done (gap : Gap)
  | item (gap : Gap) (token : Token) (rest : Stream)

namespace Stream

/-- The first gap. -/
def gap : Stream → Gap
  | done g => g
  | item g _ _ => g

/-- The stream with another first gap. -/
def withGap (g : Gap) : Stream → Stream
  | done _ => done g
  | item _ t rest => item g t rest

/-- The first significant token. -/
def head? : Stream → Option Token
  | done _ => none
  | item _ t _ => some t

/-- The number of significant tokens. -/
def size : Stream → Nat
  | done _ => 0
  | item _ _ rest => rest.size + 1

/-- All tokens, in order. -/
def toTokens : Stream → List Token
  | done g => g.trivia
  | item g t rest => g.trivia ++ t :: rest.toTokens

/-- The stream of a list of tokens whose first one has the position `start`. -/
def ofTokens (start : Nat) : List Token → Stream
  | [] => done ⟨start, []⟩
  | t :: ts =>
    let rest := ofTokens (start + 1) ts
    if t.isTrivia then rest.withGap ⟨start, t :: rest.gap.trivia⟩ else item ⟨start, []⟩ t rest

@[simp] theorem size_withGap (g : Gap) (s : Stream) : (s.withGap g).size = s.size := by
  cases s <;> rfl

@[simp] theorem gap_withGap (g : Gap) (s : Stream) : (s.withGap g).gap = g := by
  cases s <;> rfl

theorem start_gap_ofTokens (start : Nat) (ts : List Token) :
    (ofTokens start ts).gap.start = start := by
  cases ts with
  | nil => rfl
  | cons t ts => grind [ofTokens, gap, gap_withGap]

theorem toTokens_withGap_cons (t : Token) (start : Nat) (s : Stream) :
    (s.withGap ⟨start, t :: s.gap.trivia⟩).toTokens = t :: s.toTokens := by
  cases s <;> rfl

/-- A stream keeps all tokens. -/
theorem toTokens_ofTokens (start : Nat) (ts : List Token) :
    (ofTokens start ts).toTokens = ts := by
  induction ts generalizing start with
  | nil => rfl
  | cons t ts ih =>
    by_cases h : t.isTrivia <;> simp [ofTokens, h, ih, toTokens_withGap_cons, toTokens]

end Stream

end SchemaAlign.Parser
