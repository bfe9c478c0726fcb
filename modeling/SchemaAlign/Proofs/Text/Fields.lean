import Mathlib.Data.Nat.Digits.Defs
import SchemaAlign.Proofs.Token.Rule
import SchemaAlign.Text.Fields

/-!
# Fields, words and numbers in a text

What the parts of a text are, told without scanning it.

* `fields_eq_splitOn`: the fields of a text are those that the library cuts it into;
* `FirstWord`, `firstWord?_eq_some_iff`: the first word of a text;
* `Numbered`, `leadingNumber?_eq_some_iff`: the number that a text begins with.
-/

namespace SchemaAlign.Text

open Token (MaximalRun maximalRun_cutRun)

variable {p : Char → Bool} {cs run rest : List Char} {s word : String} {m n : Nat}

/-! ## Fields -/

theorem fields_eq_splitOn (separator : Char) (cs : List Char) :
    fields separator cs = cs.splitOn separator := by
  induction cs with
  | nil => rfl
  | cons c cs ih =>
    rw [List.splitOn, List.splitOnP_cons_eq_if_modifyHead, ← List.splitOn, ← ih, fields]
    cases hcs : fields separator cs with
    | nil => exact absurd hcs (fields_ne_nil separator cs)
    | cons first rest => by_cases hc : c = separator <;> simp [hc]

/-! ## Runs -/

theorem maximalRun_takeWhile (h : cs.takeWhile p ≠ []) :
    MaximalRun p (cs.takeWhile p) (cs.dropWhile p) := by
  cases cs with
  | nil => exact absurd rfl h
  | cons c cs =>
    cases hc : p c with
    | false => exact absurd (List.takeWhile_cons_of_neg (by simp [hc])) h
    | true =>
      rw [List.takeWhile_cons_of_pos hc, List.dropWhile_cons_of_pos hc]
      exact maximalRun_cutRun hc cs

theorem takeWhile_of_maximalRun (h : MaximalRun p run rest) : (run ++ rest).takeWhile p = run := by
  obtain ⟨c, body, rfl⟩ := List.exists_cons_of_ne_nil h.ne_nil
  obtain ⟨hc, hcut⟩ := h.cutRun_eq
  rw [List.cons_append, List.takeWhile_cons_of_pos hc]
  exact congrArg (c :: ·) (congrArg Prod.fst hcut)

/-! ## Words -/

/-- The word stands in the text with nothing but blanks before it, and it ends before a blank or
    with the text. -/
def FirstWord (s word : String) : Prop :=
  ∃ before after, s.toList = before ++ (word.toList ++ after) ∧ (∀ c ∈ before, isBlank c = true) ∧
    MaximalRun (!isBlank ·) word.toList after

theorem firstWord?_eq_some_iff : firstWord? s = some word ↔ FirstWord s word := by
  constructor
  · intro h
    unfold firstWord? at h
    split at h
    · cases h
    · next hword =>
      obtain rfl := Option.some.inj h
      have hrun := maximalRun_takeWhile hword
      refine ⟨s.toList.takeWhile isBlank, _, ?_, List.all_eq_true.1 List.all_takeWhile,
        by rwa [String.toList_ofList]⟩
      rw [String.toList_ofList, List.takeWhile_append_dropWhile, List.takeWhile_append_dropWhile]
  · rintro ⟨before, after, hs, hbefore, hrun⟩
    obtain ⟨c, body, hword⟩ := List.exists_cons_of_ne_nil hrun.ne_nil
    have hc : (!isBlank c) = true := hrun.inside c (hword ▸ List.mem_cons_self)
    have hdrop : s.toList.dropWhile isBlank = word.toList ++ after := by
      rw [hs, List.dropWhile_append_of_pos hbefore, hword, List.cons_append]
      exact List.dropWhile_cons_of_neg (by simpa using hc)
    rw [firstWord?, hdrop, takeWhile_of_maximalRun hrun, hword]
    exact congrArg some (hword ▸ String.ofList_toList)

/-! ## Numbers -/

/-- The text begins with decimal digits. Those up to the first other character stand for `n`. -/
def Numbered (cs : List Char) (n : Nat) : Prop :=
  ∃ digits rest, cs = digits ++ rest ∧ MaximalRun Char.isDigit digits rest ∧
    n = Nat.ofDigits 10 (digits.reverse.map fun d => d.toNat - '0'.toNat)

theorem digitsValue_eq_ofDigits (digits : List Char) :
    digitsValue digits =
      Nat.ofDigits 10 (digits.reverse.map fun d => d.toNat - '0'.toNat) := by
  rw [Nat.ofDigits_eq_foldr, List.foldr_map, List.foldr_reverse, digitsValue]
  simp only [Nat.cast_id, Nat.add_comm]

theorem leadingNumber?_eq_some_iff : leadingNumber? cs = some n ↔ Numbered cs n := by
  constructor
  · intro h
    unfold leadingNumber? at h
    split at h
    · cases h
    · next hdigits =>
      obtain rfl := Option.some.inj h
      exact ⟨_, _, List.takeWhile_append_dropWhile.symm, maximalRun_takeWhile hdigits,
        digitsValue_eq_ofDigits _⟩
  · rintro ⟨digits, rest, rfl, hrun, rfl⟩
    obtain ⟨d, ds, rfl⟩ := List.exists_cons_of_ne_nil hrun.ne_nil
    rw [leadingNumber?, takeWhile_of_maximalRun hrun]
    exact congrArg some (digitsValue_eq_ofDigits _)

theorem leadingNumber?_eq_none_iff :
    leadingNumber? cs = none ↔ ∀ c ∈ cs.head?, c.isDigit = false := by
  unfold leadingNumber?
  cases cs with
  | nil => simp
  | cons c cs => cases hc : c.isDigit <;> simp [hc]

theorem Numbered.unique (hm : Numbered cs m) (hn : Numbered cs n) : m = n :=
  Option.some.inj ((leadingNumber?_eq_some_iff.2 hm).symm.trans (leadingNumber?_eq_some_iff.2 hn))

end SchemaAlign.Text
