import SchemaAlign.Proofs.Parser.Alike
import SchemaAlign.Proofs.Parser.Grammar.Follow
import SchemaAlign.Proofs.Parser.InStep

/-!
# Semicolons inside a statement

A semicolon ends a statement unless a block of a trigger is open there. How many blocks are open is
told by the words `BEGIN`, `CASE` and `END` alone.

* `Nesting.after`, `Nesting.goesOn`: some tokens of a statement, none of which ends it;
* `Nesting.step_of_trigger`: what counts in a statement that creates a trigger;
* `cutStatement_of_goesOn`, `exists_significant_cutStatement`: where a statement ends.
-/

namespace SchemaAlign

namespace Parser

open Text
open SchemaAlign.Parser.Grammar (isKeyword_unique kind_of_isKeyword)
open SchemaAlign.Parser.Stream (ofTokens)

variable {n : Nesting} {m : Nat} {s r : Stream} {t : Token} {k l : String}
  {us vs ts : List Token}

/-! ## Words -/

theorem isKeyword_of_clash (h : t.isKeyword k = true) (hkl : eqIgnoreAsciiCase l k = false) :
    t.isKeyword l = false := by
  by_contra hl
  rw [isKeyword_unique (by simpa using hl) h] at hkl
  cases hkl

theorem eqIgnoreAsciiCase_of_isKeyword (h : t.isKeyword k = true) :
    eqIgnoreAsciiCase t.text k = true := by
  rw [Token.isKeyword, Bool.and_eq_true] at h
  exact h.2

theorem isPunct_of_isKeyword (h : t.isKeyword k = true) (mark : String) :
    t.isPunct mark = false := by
  simp [Token.isPunct, kind_of_isKeyword h]

theorem isTrivia_of_isPunct {mark : String} (h : t.isPunct mark = true) : t.isTrivia = false := by
  simp [Token.isTrivia, kind_of_isPunct h, TokenKind.isTrivia]

/-! ## Tokens of one statement -/

namespace Nesting

/-- The nesting after some more significant tokens. -/
def after (n : Nesting) (ts : List Token) : Nesting :=
  ts.foldl step n

/-- Whether none of the significant tokens ends the statement. -/
def goesOn (n : Nesting) : List Token → Bool
  | [] => true
  | t :: ts => !n.isEnd t && (n.step t).goesOn ts

@[simp] theorem after_nil : n.after [] = n := rfl

@[simp] theorem after_cons : n.after (t :: ts) = (n.step t).after ts := rfl

theorem after_append : n.after (us ++ vs) = (n.after us).after vs :=
  List.foldl_append

theorem goesOn_append : n.goesOn (us ++ vs) = (n.goesOn us && (n.after us).goesOn vs) := by
  induction us generalizing n with
  | nil => simp [goesOn]
  | cons u us ih => simp [goesOn, ih, Bool.and_assoc]

theorem goesOn_cons_iff :
    n.goesOn (t :: ts) = true ↔ n.isEnd t = false ∧ (n.step t).goesOn ts = true := by
  simp [goesOn]

theorem isEnd_of_isKeyword (h : t.isKeyword k = true) : n.isEnd t = false := by
  rw [isEnd, isPunct_of_isKeyword h, Bool.false_and]

theorem isEnd_of_depth (h : n.depth ≠ 0) : n.isEnd t = false := by
  simp [isEnd, h]

@[simp] theorem count_step : (n.step t).count = n.count + 1 := by
  unfold step
  dsimp only
  split <;> [rfl; split <;> rfl]

/-- In a statement that creates a trigger, only the words for blocks count. -/
theorem step_of_trigger (hn : n.trigger = true) (t : Token) :
    (n.step t).trigger = true ∧ (n.step t).depth = n.depthAfter t := by
  by_cases ht : t.isKeyword "TRIGGER" = true
  · -- The word `TRIGGER` is none of the words for blocks, so it leaves the depth as it is.
    have hdepth : n.depthAfter t = n.depth := by
      simp [depthAfter, isKeyword_of_clash ht (l := "BEGIN") (by decide),
        isKeyword_of_clash ht (l := "CASE") (by decide),
        isKeyword_of_clash ht (l := "END") (by decide)]
    rw [hdepth]
    unfold step
    dsimp only
    split
    · exact ⟨rfl, rfl⟩
    · simp [hdepth]
  · simp [step, ht, hn]

end Nesting

open Nesting

/-- Tokens that do not end a statement, up to one that does. -/
theorem cutStatement_of_goesOn (hus : n.goesOn (us.filter Token.isSignificant) = true)
    (ht : (n.after (us.filter Token.isSignificant)).isEnd t = true) :
    (ofTokens m (us ++ t :: vs)).cutStatement n =
      ((us.filter Token.isSignificant).map (·.text) ++ [t.text],
        ofTokens (m + us.length + 1) vs) := by
  have htrivia : t.isTrivia = false := by
    rw [isEnd, Bool.and_eq_true] at ht
    exact isTrivia_of_isPunct ht.1
  induction us using significant_induction generalizing n m with
  | trivia w hw =>
    rw [filter_isSignificant_trivia hw] at ht ⊢
    rw [ofTokens_append m hw htrivia, Stream.cutStatement, if_pos (by exact ht)]
    rfl
  | item w u us hw hu ih =>
    rw [filter_isSignificant_append hw hu] at hus ht ⊢
    obtain ⟨hend, hus⟩ := goesOn_cons_iff.1 hus
    rw [List.append_assoc, List.cons_append, ofTokens_append m hw hu, Stream.cutStatement,
      if_neg (by simp [hend])]
    simp only [ih hus ht, List.map_cons, List.cons_append, List.length_append, List.length_cons]
    congr 2
    omega

/-- The significant tokens of a statement: none but the last one ends it. -/
theorem exists_significant_cutStatement (n : Nesting) (s : Stream) :
    ∃ ts, s.significant = ts ++ (s.cutStatement n).2.significant ∧
      (s.cutStatement n).1 = ts.map (·.text) ∧
      ∀ us t vs, ts = us ++ t :: vs → vs ≠ [] → n.goesOn (us ++ [t]) = true := by
  induction s generalizing n with
  | done => exact ⟨[], rfl, rfl, fun us t vs h => by simp at h⟩
  | item g t rest ih =>
    rw [Stream.cutStatement]
    split
    · refine ⟨[t], rfl, rfl, fun us u vs h hvs => ?_⟩
      cases us with
      | nil => exact absurd (List.cons.inj h).2.symm hvs
      | cons => simp at h
    · next hend =>
      obtain ⟨ts, hts, hwords, hgoes⟩ := ih (n.step t)
      refine ⟨t :: ts, by rw [Stream.significant, hts]; rfl, congrArg (t.text :: ·) hwords, ?_⟩
      intro us u vs h hvs
      cases us with
      | nil =>
        obtain rfl := (List.cons.inj h).1
        simp [goesOn, hend]
      | cons u' us =>
        obtain ⟨rfl, htail⟩ := List.cons.inj h
        rw [List.cons_append, goesOn_cons_iff]
        exact ⟨by simpa using hend, hgoes us u vs htail hvs⟩

end Parser

end SchemaAlign
