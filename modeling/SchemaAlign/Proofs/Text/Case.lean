import Mathlib.Data.List.Forall2
import SchemaAlign.Text.Quoted
import SchemaAlign.Text.Upper
import SchemaAlign.Text.WordChar

/-!
# The case of letters

Texts that differ at most in the case of ASCII letters.

* `apply_eq_of_toUpper`: functions of a character that do not depend on its case;
* `upper_congr`, `unquote?_congr`: functions of a text that do not.
-/

namespace SchemaAlign.Text

variable {α : Type} {f : Char → α} {c d : Char} {s t : String}

theorem toUpper_of_le (h : 0x80 ≤ c.toNat) : c.toUpper = c := by
  unfold Char.toUpper
  split
  · next hc =>
    have hle : c.toNat ≤ 122 := hc.2
    omega
  · rfl

/-- Only characters of ASCII need to be tried. -/
theorem apply_toUpper (h : ∀ n < 0x80, f (Char.ofNat n).toUpper = f (Char.ofNat n)) (c : Char) :
    f c.toUpper = f c := by
  obtain hc | hc := Nat.lt_or_ge c.toNat 0x80
  · have hfc := h c.toNat hc
    rwa [Char.ofNat_toNat] at hfc
  · rw [toUpper_of_le hc]

theorem apply_eq_of_toUpper (h : ∀ n < 0x80, f (Char.ofNat n).toUpper = f (Char.ofNat n))
    (hcd : c.toUpper = d.toUpper) : f c = f d := by
  rw [← apply_toUpper h, hcd, apply_toUpper h]

theorem upperChar_congr (h : c.toUpper = d.toUpper) : upperChar c = upperChar d :=
  apply_eq_of_toUpper (by decide) h

theorem eqIgnoreAsciiCase_iff :
    eqIgnoreAsciiCase s t = true ↔ List.Forall₂ (fun c d : Char => c.toUpper = d.toUpper)
      s.toList t.toList := by
  rw [eqIgnoreAsciiCase, beq_iff_eq, ← List.forall₂_eq_eq_eq, List.forall₂_map_left_iff,
    List.forall₂_map_right_iff]

theorem eqIgnoreAsciiCase_self (s : String) : eqIgnoreAsciiCase s s = true :=
  beq_self_eq_true _

theorem eqIgnoreAsciiCase_congr (h : eqIgnoreAsciiCase s t = true) (k : String) :
    eqIgnoreAsciiCase s k = eqIgnoreAsciiCase t k := by
  rw [eqIgnoreAsciiCase, eqIgnoreAsciiCase, beq_iff_eq.1 h]

theorem upper_congr (h : eqIgnoreAsciiCase s t = true) : upper s = upper t := by
  rw [eqIgnoreAsciiCase_iff] at h
  refine congrArg String.ofList ?_
  generalize s.toList = cs at h ⊢
  generalize t.toList = ds at h ⊢
  induction h with
  | nil => rfl
  | cons hcd _ ih => rw [List.flatMap_cons, List.flatMap_cons, upperChar_congr hcd, ih]

/-- Whether characters of a text, up to their case, satisfy a test is the same for both texts. -/
theorem all_congr {p : Char → Bool} {cs ds : List Char}
    (hp : ∀ n < 0x80, p (Char.ofNat n).toUpper = p (Char.ofNat n))
    (h : List.Forall₂ (fun c d : Char => c.toUpper = d.toUpper) cs ds) : cs.all p = ds.all p := by
  induction h with
  | nil => rfl
  | cons hcd _ ih => rw [List.all_cons, List.all_cons, apply_eq_of_toUpper hp hcd, ih]

theorem beq_quote_congr {q c d : Char} (hq : isQuote q = true) (h : c.toUpper = d.toUpper) :
    (c == q) = (d == q) := by
  simp only [isQuote, Bool.or_eq_true, beq_iff_eq] at hq
  obtain rfl | rfl := hq
  · exact @apply_eq_of_toUpper _ (· == '\'') c d (by decide) h
  · exact @apply_eq_of_toUpper _ (· == '"') c d (by decide) h

theorem eq_of_isQuote {q q' : Char} (hq : isQuote q = true) (h : q.toUpper = q'.toUpper) :
    q' = q := by
  have hself := beq_quote_congr hq h
  rw [beq_self_eq_true] at hself
  exact beq_iff_eq.1 hself.symm

theorem isSome_unquote? (s : String) :
    (unquote? s).isSome = match s.toList with
      | q :: rest => isQuote q && rest.getLast? == some q
      | [] => false := by
  unfold unquote?
  cases s.toList with
  | nil => rfl
  | cons q rest =>
    dsimp only
    split
    · next h => rw [h, Option.isSome_some]
    · next h => rw [Bool.eq_false_iff.2 h, Option.isSome_none]

theorem unquote?_congr (h : eqIgnoreAsciiCase s t = true) :
    (unquote? s).isSome = (unquote? t).isSome := by
  rw [eqIgnoreAsciiCase_iff] at h
  rw [isSome_unquote?, isSome_unquote?]
  generalize s.toList = cs at h ⊢
  generalize t.toList = ds at h ⊢
  cases h with
  | nil => rfl
  | @cons q q' cs ds hq hcs =>
    have hquote : isQuote q = isQuote q' := apply_eq_of_toUpper (by decide) hq
    cases hsome : isQuote q with
    | false => simp only [← hquote, hsome, Bool.false_and]
    | true =>
      obtain rfl := eq_of_isQuote hsome hq
      have hreverse := List.rel_reverse hcs
      simp only [hsome, Bool.true_and, ← List.head?_reverse]
      generalize cs.reverse = cs' at hreverse ⊢
      generalize ds.reverse = ds' at hreverse ⊢
      cases hreverse with
      | nil => rfl
      | cons hlast _ =>
        simp only [List.head?_cons, Option.some_beq_some, beq_quote_congr hsome hlast]

/-- A dot has no case. -/
theorem eq_dot_iff (h : eqIgnoreAsciiCase s t = true) : s = "." ↔ t = "." := by
  have hdot : ∀ {s t : String}, eqIgnoreAsciiCase s t = true → s = "." → t = "." := by
    rintro s t h rfl
    rw [eqIgnoreAsciiCase_iff, show ".".toList = ['.'] from rfl] at h
    rw [← String.toList_inj, show ".".toList = ['.'] from rfl]
    generalize t.toList = cs at h ⊢
    cases h with
    | @cons _ c _ _ hc hrest =>
      cases hrest
      have hself := @apply_eq_of_toUpper _ (· == '.') '.' c (by decide) hc
      rw [beq_self_eq_true] at hself
      rw [beq_iff_eq.1 hself.symm]
  refine ⟨hdot h, hdot ?_⟩
  rw [eqIgnoreAsciiCase, beq_iff_eq] at h ⊢
  exact h.symm

end SchemaAlign.Text
