import SchemaAlign.Edit
import SchemaAlign.Proofs.Text.Case

/-!
# Tokens that are alike

Two tokens are alike if they differ at most in the case of the letters of a word. No test of the
grammar, and no comparison of definitions, tells such tokens apart.

* `Token.Alike`: the relation;
* `sameMeaning_of_alike`, `alike_withoutTerminator`: what the comparison sees of such tokens.
-/

namespace SchemaAlign

namespace Token

open Text

variable {s t : Token} {ss ts : List Token}

/-! ## Tokens -/

/-- The tokens are of one class and have one text, up to the case of the letters of words. -/
structure Alike (s t : Token) : Prop where
  kind : s.kind = t.kind
  text : if s.kind = .word then eqIgnoreAsciiCase s.text t.text = true else s.text = t.text

instance (s t : Token) : Decidable (Alike s t) :=
  decidable_of_iff (s.kind = t.kind ∧
    if s.kind = .word then eqIgnoreAsciiCase s.text t.text = true else s.text = t.text)
    ⟨fun h => ⟨h.1, h.2⟩, fun h => ⟨h.kind, h.text⟩⟩

theorem Alike.text_eq (h : Alike s t) (hword : s.kind ≠ .word) : s.text = t.text := by
  have htext := h.text
  rwa [if_neg hword] at htext

theorem Alike.ignoreCase (h : Alike s t) : eqIgnoreAsciiCase s.text t.text = true := by
  have htext := h.text
  split at htext
  · exact htext
  · rw [htext]
    exact eqIgnoreAsciiCase_self _

theorem Alike.isKeyword_eq (h : Alike s t) (k : String) : s.isKeyword k = t.isKeyword k := by
  rw [isKeyword, isKeyword, h.kind, eqIgnoreAsciiCase_congr h.ignoreCase]

theorem Alike.isPunct_eq (h : Alike s t) (mark : String) : s.isPunct mark = t.isPunct mark := by
  by_cases hword : s.kind = .word
  · have hkind : (TokenKind.word == TokenKind.punctuation) = false := by decide
    rw [isPunct, isPunct, ← h.kind, hword, hkind, Bool.false_and, Bool.false_and]
  · rw [isPunct, isPunct, h.kind, h.text_eq hword]

theorem sameWord_of_ignoreCase {s t : String} (h : eqIgnoreAsciiCase s t = true) :
    sameWord s t = true := by
  unfold sameWord
  split
  · exact h
  · rw [upper_congr h]
    exact beq_self_eq_true _

theorem Alike.agrees (h : Alike s t) : agrees s t = true := by
  unfold Token.agrees
  split
  · simp [h.kind, sameWord_of_ignoreCase h.ignoreCase]
  · next hword => simp [h.kind, h.text_eq hword]

/-! ## Lists of tokens -/

/-- The significant tokens are alike, one by one. -/
def AllAlike (ss ts : List Token) : Prop :=
  List.Forall₂ Alike (ss.filter isSignificant) (ts.filter isSignificant)

instance (ss ts : List Token) : Decidable (AllAlike ss ts) :=
  decidable_of_iff ((ss.filter isSignificant).length = (ts.filter isSignificant).length ∧
    ∀ x ∈ (ss.filter isSignificant).zip (ts.filter isSignificant), Alike x.1 x.2)
    (by rw [AllAlike, List.forall₂_iff_zip, Prod.forall])

theorem sameMeaning_of_alike (h : AllAlike ss ts) : sameMeaning ss ts = true := by
  unfold AllAlike at h
  unfold sameMeaning
  generalize ss.filter isSignificant = ss at h ⊢
  generalize ts.filter isSignificant = ts at h ⊢
  induction h with
  | nil => rfl
  | cons hst _ ih => rw [pairwiseAgree, hst.agrees, ih, Bool.and_self]

/-- A list without the semicolon at its end. -/
def dropSemicolon (ts : List Token) : List Token :=
  if ts.getLast?.any (·.isPunct ";") then ts.dropLast else ts

/-- Of the significant tokens, nothing but the semicolon at their end is left out. -/
theorem filter_withoutTerminator (ts : List Token) :
    (withoutTerminator ts).filter isSignificant = dropSemicolon (ts.filter isSignificant) := by
  -- The significant tokens from the last one on.
  have hreverse : (ts.reverse.dropWhile (·.isTrivia)).filter isSignificant =
      (ts.filter isSignificant).reverse := by
    rw [← List.filter_reverse]
    induction ts.reverse with
    | nil => rfl
    | cons t us ih =>
      by_cases ht : t.isTrivia = true
      · rw [List.dropWhile_cons_of_pos ht, ih, List.filter_cons_of_neg (by simp [isSignificant, ht])]
      · rw [List.dropWhile_cons_of_neg ht]
  unfold withoutTerminator dropSemicolon
  cases hlast : ts.reverse.dropWhile (·.isTrivia) with
  | nil =>
    rw [hlast, List.filter_nil, eq_comm, List.reverse_eq_nil_iff] at hreverse
    simp [hreverse]
  | cons t before =>
    have ht : t.isSignificant = true := by
      have := List.head?_dropWhile_not (·.isTrivia) ts.reverse
      rw [hlast] at this
      simpa [isSignificant] using this
    rw [hlast, List.filter_cons_of_pos ht] at hreverse
    have hfilter : ts.filter isSignificant = (before.filter isSignificant).reverse ++ [t] := by
      rw [← List.reverse_cons, hreverse, List.reverse_reverse]
    rw [hfilter, List.getLast?_concat, List.dropLast_concat]
    dsimp only [Option.any_some]
    split
    · rw [List.filter_reverse]
    · exact hfilter

theorem forall₂_dropSemicolon (h : List.Forall₂ Alike ss ts) :
    List.Forall₂ Alike (dropSemicolon ss) (dropSemicolon ts) := by
  have hreverse := List.rel_reverse h
  rw [← List.reverse_reverse ss, ← List.reverse_reverse ts]
  generalize ss.reverse = ss at hreverse ⊢
  generalize ts.reverse = ts at hreverse ⊢
  cases hreverse with
  | nil => exact .nil
  | cons hst hrest =>
    simp only [dropSemicolon, List.reverse_cons, List.getLast?_concat, List.dropLast_concat,
      Option.any_some, hst.isPunct_eq]
    split
    · exact List.rel_reverse hrest
    · exact List.rel_append (List.rel_reverse hrest) (.cons hst .nil)

theorem alike_withoutTerminator (h : AllAlike ss ts) :
    AllAlike (withoutTerminator ss) (withoutTerminator ts) := by
  unfold AllAlike
  rw [filter_withoutTerminator, filter_withoutTerminator]
  exact forall₂_dropSemicolon h

end Token

end SchemaAlign
