import SchemaAlign.Proofs.Text.Case
import SchemaAlign.Token.Compare

/-!
# What the comparison sees of a token

Of a word the comparison sees its upper case, of any other token its text. Comparing two lists of
tokens is comparing what is seen of their significant tokens, so it is an equivalence.

* `sameWord_iff`: the short way to compare words of ASCII gives the same answer as the long one;
* `Token.meaning`: what the comparison sees;
* `sameMeaning_iff`: two lists say the same if what is seen of them is equal.
-/

namespace SchemaAlign

namespace Text

variable {s t : String}

theorem isAscii_iff : isAscii s = true ↔ ∀ c ∈ s.toList, c.toNat < 0x80 := by
  simp [isAscii]

/-- In ASCII, the full mapping to upper case is that of the letters. -/
theorem upper_of_isAscii (h : isAscii s = true) : upper s = asciiUpper s := by
  rw [isAscii_iff] at h
  refine congrArg String.ofList ?_
  generalize s.toList = cs at h ⊢
  induction cs with
  | nil => rfl
  | cons c cs ih =>
    obtain ⟨hc, hcs⟩ := List.forall_mem_cons.1 h
    rw [List.flatMap_cons, List.map_cons, ih hcs, upperChar, if_pos hc, List.singleton_append]

theorem eqIgnoreAsciiCase_iff_asciiUpper :
    eqIgnoreAsciiCase s t = true ↔ asciiUpper s = asciiUpper t := by
  rw [eqIgnoreAsciiCase, beq_iff_eq, asciiUpper, asciiUpper, String.ofList_inj]

/-- Words of ASCII have one upper case if they are equal in any case. -/
theorem eqIgnoreAsciiCase_iff_upper (hs : isAscii s = true) (ht : isAscii t = true) :
    eqIgnoreAsciiCase s t = true ↔ upper s = upper t := by
  rw [upper_of_isAscii hs, upper_of_isAscii ht, eqIgnoreAsciiCase_iff_asciiUpper]

end Text

namespace Token

open Text

variable {s t : Token} {ss ts : List Token}

/-- Two words are the same if they are equal in upper case, whichever way they are compared. -/
theorem sameWord_iff {s t : String} : sameWord s t = true ↔ upper s = upper t := by
  unfold sameWord
  split
  · next h =>
    rw [Bool.and_eq_true] at h
    exact eqIgnoreAsciiCase_iff_upper h.1 h.2
  · exact beq_iff_eq

/-- What the comparison sees of a significant token. -/
def meaning (t : Token) : TokenKind × String :=
  (t.kind, if t.kind = .word then upper t.text else t.text)

theorem agrees_iff : agrees s t = true ↔ s.meaning = t.meaning := by
  rw [agrees, Bool.and_eq_true, beq_iff_eq, meaning, meaning, Prod.mk.injEq]
  refine and_congr_right fun hkind => ?_
  rw [← hkind]
  split
  · exact sameWord_iff
  · exact beq_iff_eq

theorem pairwiseAgree_iff : pairwiseAgree ss ts = true ↔ ss.map meaning = ts.map meaning := by
  induction ss generalizing ts with
  | nil => cases ts <;> simp [pairwiseAgree]
  | cons s ss ih =>
    cases ts with
    | nil => simp [pairwiseAgree]
    | cons t ts =>
      rw [pairwiseAgree, Bool.and_eq_true, agrees_iff, ih, List.map_cons, List.map_cons,
        List.cons.injEq]

/-- What the comparison sees of a list of tokens. -/
def meanings (ts : List Token) : List (TokenKind × String) :=
  (ts.filter isSignificant).map meaning

theorem sameMeaning_iff : sameMeaning ss ts = true ↔ meanings ss = meanings ts :=
  pairwiseAgree_iff

end Token

end SchemaAlign
