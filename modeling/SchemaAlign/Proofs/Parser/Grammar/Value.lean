import Mathlib.Data.List.TakeWhile
import SchemaAlign.Proofs.Parser.Grammar.Follow

/-!
# Names, expressions and literals are read as they are spelled

* `Name.name?`: names;
* `Balanced.cutExpression`, `Expression.expression?`: expressions, which end before a comma or a
  closing parenthesis;
* `Literal.literal`: literals, which end where no part of a literal follows.
-/

namespace SchemaAlign.Parser.Grammar

open Text

variable {s s₁ r : Stream} {ps : List (List String)}

/-! ## Names -/

theorem halveQuotes_double (q : Char) (cs : List Char) : halveQuotes q (double q cs) = cs := by
  induction cs with
  | nil => rfl
  | cons c cs ih =>
    unfold double at ih ⊢
    rw [List.flatMap_cons]
    split
    · next hc =>
      subst hc
      rw [List.cons_append, List.cons_append, List.nil_append, halveQuotes, if_pos ⟨rfl, rfl⟩, ih]
    · next hc =>
      rw [List.cons_append, List.nil_append]
      -- What follows `c` may be a quote, but `c` is none.
      cases hcs : cs.flatMap fun c => if c = q then [q, q] else [c] with
      | nil => rw [hcs] at ih; rw [← ih]; rfl
      | cons d ds =>
        rw [halveQuotes, if_neg fun h => hc h.1, ← hcs, ih]

theorem Name.name? {name : String} (h : Name s name r) : name? s = .ok (some name, r) := by
  cases h with
  | word ht => simp only [Parser.name?, Token.name?, ht]
  | @string q name g t s ht hq htext =>
    have hunquote : unquote? t.text = some name := by
      simp only [unquote?, htext, hq, List.getLast?_concat, List.dropLast_concat, beq_self_eq_true,
        Bool.and_self, if_true, halveQuotes_double, String.ofList_toList]
    simp only [Parser.name?, Token.name?, ht, hunquote]

theorem Name.expectName {name : String} (h : Name s name r) (fault : Fault) :
    expectName fault s = .ok (name, r) := by
  simp only [Parser.expectName, run_bind, h.name?]
  rfl

theorem Name.size_lt {name : String} (h : Name s name r) : r.size < s.size := by
  cases h <;> exact Nat.lt_succ_self _

/-! ## Expressions -/

/-- Balanced tokens are all read, and lead back to the depth before them. -/
theorem Balanced.cutExpression {nested : Bool} {ts : List Token} (h : Balanced nested s ts r)
    {depth : Nat} (hdepth : nested = true → 0 < depth) :
    s.cutExpression depth = (ts ++ (r.cutExpression depth).1, (r.cutExpression depth).2) := by
  induction h generalizing depth with
  | nil => rfl
  | @token nested g t ts s r hsemicolon hopen hclose hcomma _ ih =>
    have hends : endsExpression depth t = false := by
      cases depth with
      | zero =>
        -- Outside of all parentheses the token is no comma.
        have hcomma : t.isPunct "," = false := by
          refine Bool.eq_false_iff.2 fun ht => ?_
          exact absurd (hdepth (hcomma ht)) (Nat.lt_irrefl 0)
        simp [endsExpression, hsemicolon, hclose, hcomma]
      | succ => simp [endsExpression, hsemicolon]
    have hafter : depthAfter depth t = depth := by simp [depthAfter, hopen, hclose]
    rw [Stream.cutExpression, hends, hafter, ih hdepth]
    simp
  | @group nested g g' t t' us vs s s' r hopen _ hclose _ ihinner ihrest =>
    -- The group is read one level deeper than what surrounds it.
    have hend : endsExpression depth t = false := by
      simp [endsExpression, isPunct_of_ne hopen (show "(" ≠ ";" by decide),
        isPunct_of_ne hopen (show "(" ≠ ")" by decide),
        isPunct_of_ne hopen (show "(" ≠ "," by decide)]
    have hend' : endsExpression (depth + 1) t' = false := by
      simp [endsExpression, isPunct_of_ne hclose (show ")" ≠ ";" by decide)]
    have hafter : depthAfter depth t = depth + 1 := by simp [depthAfter, hopen]
    have hafter' : depthAfter (depth + 1) t' = depth := by
      simp [depthAfter, hclose, isPunct_of_ne hclose (show ")" ≠ "(" by decide)]
    rw [Stream.cutExpression, hend, hafter, ihinner fun _ => Nat.succ_pos depth,
      Stream.cutExpression, hend', hafter', ihrest hdepth]
    simp

/-- Something is left of a text that is not blank. -/
theorem isEmpty_trim {text : String} (h : isBlankText text = false) :
    (trim text).isEmpty = false := by
  refine Bool.eq_false_iff.2 fun hempty => ?_
  have hnil : trimBlank text.toList = [] := by
    rw [String.isEmpty_iff, trim, String.ofList_eq_empty_iff] at hempty
    exact hempty
  rw [trimBlank, List.reverse_eq_nil_iff, List.dropWhile_eq_nil_iff] at hnil
  have hhead := List.head?_dropWhile_not isBlank text.toList
  cases hrest : text.toList.dropWhile isBlank with
  | nil =>
    -- All of the text was dropped at its front.
    rw [List.dropWhile_eq_nil_iff, ← List.all_eq_true] at hrest
    rw [isBlankText, hrest] at h
    cases h
  | cons c cs =>
    rw [hrest] at hnil hhead
    have hc := hnil c (List.mem_reverse.2 List.mem_cons_self)
    simp [hc] at hhead

theorem Before.cutExpression (h : Before [] s) : s.cutExpression 0 = (s.gap.trivia, 0, s) := by
  cases h with
  | phrase hmem => cases hmem
  | comma hm =>
    cases hm with
    | mk ht => simp [Stream.cutExpression, endsExpression, ht, Stream.gap]
  | close hm =>
    cases hm with
    | mk ht => simp [Stream.cutExpression, endsExpression, ht, Stream.gap]

theorem Expression.expression? {text : String} (h : Expression s text r) (hr : Before [] r) :
    expression? s = .ok (some text, r) := by
  cases h with
  | @mk ts s r hts hblank =>
    have hcut : s.cutExpression 0 = (ts ++ r.gap.trivia, 0, r) := by
      rw [hts.cutExpression nofun, hr.cutExpression]
    change expressionText (s.cutExpression 0).1 (s.cutExpression 0).2.1 (s.cutExpression 0).2.2 = _
    simp only [hcut, expressionText, isEmpty_trim hblank]
    rfl

theorem Parens.parenthesized {text : String} (h : Parens s text r) :
    parenthesized s = .ok (text, r) := by
  cases h with
  | mk hopen htext hclose =>
    simp only [Parser.parenthesized, run_bind, hopen.expectPunct, htext.expression? (.close hclose),
      hclose.expectPunct, run_pure]

/-! ## Literals -/

/-- Only signs make up a bare sign. -/
theorem isBareSign_eq_false {value : String} {c : Char} (hc : c ∈ value.toList) (hplus : c ≠ '+')
    (hminus : c ≠ '-') : isBareSign value = false := by
  refine Bool.eq_false_iff.2 fun h => ?_
  simp only [isBareSign, Bool.or_eq_true, String.isEmpty_iff, beq_iff_eq] at h
  obtain (rfl | rfl) | rfl := h <;> simp_all

theorem Sign.sign {v : String} (h : Sign s v r) (hr : r.headIs isSign = false) :
    sign s = .ok (v, r) := by
  cases h with
  | absent =>
    cases s with
    | done => rfl
    | item g t s =>
      have ht : isSign t = false := hr
      simp only [Parser.sign, ht, Bool.false_eq_true, if_false]
  | present ht => simp only [Parser.sign, ht, if_true]

theorem Sign.text_cases {v : String} (h : Sign s v r) : v = "" ∨ v = "-" ∨ v = "+" := by
  cases h with
  | absent => exact .inl rfl
  | present ht =>
    simp only [isSign, Bool.and_eq_true, Bool.or_eq_true, beq_iff_eq] at ht
    exact .inr ht.2

/-- The sign before a number does not matter to its exponent. -/
theorem Sign.opensExponent {v value : String} (h : Sign s v r) (hvalue : Unfinished value) :
    opensExponent (v ++ value) = true := by
  obtain ⟨⟨first, hhead, hfirst⟩, last, hlast, hend⟩ := hvalue
  obtain ⟨cs, hcs⟩ := List.head?_eq_some_iff.1 hhead
  have hsign : (first == '-' || first == '+') = false := by
    rw [Bool.or_eq_false_iff, beq_eq_false_iff_ne, beq_eq_false_iff_ne]
    obtain hfirst | rfl := hfirst
    · constructor <;> rintro rfl <;> exact absurd hfirst (by decide)
    · decide
  have hdrop : (v ++ value).toList.dropWhile (fun c => c == '-' || c == '+') = first :: cs := by
    rw [String.toList_append, hcs]
    obtain rfl | rfl | rfl := h.text_cases <;> simp [hsign]
  have hlast : (v ++ value).toList.getLast? = some last := by
    rw [String.toList_append, List.getLast?_append, hlast]
    rfl
  unfold Parser.opensExponent
  rw [hdrop, hlast]
  simpa using ⟨hend, hfirst⟩

theorem blob?_of_headIs (value : String) (h : s.headIs (·.kind == .string) = false) :
    blob? value s = none := by
  cases s with
  | done => rfl
  | item g t s =>
    have ht : (t.kind == .string) = false := h
    rcases g with ⟨n, _ | _⟩
    · simp only [blob?, ht, Bool.and_false, Bool.false_eq_true, if_false]
    · rfl

theorem adjacent?_of_headIs {p : Token → Token → Bool} {q : Token → Bool}
    (hp : ∀ t u, p t u = true → q t = true) (h : s.headIs q = false) : adjacent? p s = none := by
  cases hs : adjacent? p s with
  | none => rfl
  | some x =>
    obtain ⟨g, t, s', rfl, ht, -⟩ := rest_of_adjacent? hs
    rw [Stream.headIs, Stream.head?, Option.any_some, hp _ _ ht] at h
    cases h

theorem fraction_of_headIs (value : String) (h : s.headIs (·.isPunct ".") = false) :
    fraction value s = (value, s) := by
  unfold fraction
  rw [adjacent?_of_headIs (q := (·.isPunct "."))]
  · exact fun t u htu => (Bool.and_eq_true_iff.1 htu).1
  · exact h

theorem Fraction.fraction {v : String} (h : Fraction s v r) (value : String) :
    fraction value s = (value ++ v, r) := by
  cases h with
  | mk hdot hdigits =>
    simp only [Parser.fraction, adjacent?, hdot, hdigits, beq_self_eq_true, Bool.and_self, if_true,
      String.append_assoc]

theorem exponent_of_headIs (value : String) (h : s.headIs isSign = false) :
    exponent value s = (value, s) := by
  unfold exponent
  rw [adjacent?_of_headIs (q := isSign)]
  · intro t u htu
    simp only [isExponent, Bool.and_eq_true] at htu
    exact htu.2.1.1
  · exact h

theorem Exponent.exponent {v value : String} (h : Exponent s v r)
    (hvalue : opensExponent value = true) : exponent value s = (value ++ v, r) := by
  cases h with
  | mk hexponent =>
    simp only [Parser.exponent, adjacent?, hexponent, hvalue, Bool.and_self, if_true,
      String.append_assoc]

/-- The rest of a literal from its exponent on. -/
theorem literalRest_of_exponent {value value' v : String} (hblob : blob? value s = none)
    (hfraction : fraction value s = (value', s₁)) (hexponent : exponent value' s₁ = (v, r))
    (hv : isBareSign v = false) : literalRest value s = .ok (v, r) := by
  simp only [literalRest, hblob, hfraction, hexponent, hv, Bool.false_eq_true, if_false]

theorem Head.unsignedLiteral {head : String} (h : Head s head r) (sign : String) :
    unsignedLiteral sign s = literalRest (sign ++ head) r := by
  cases h with
  | mk ht =>
    obtain ht | ht := ht <;> simp [Parser.unsignedLiteral, ht]

theorem Fraction.headIs_dot {v : String} (h : Fraction s v r) :
    s.headIs (·.isPunct ".") = true := by
  cases h with
  | mk hdot => exact hdot

theorem headIs_string_of_dot (h : s.headIs (·.isPunct ".") = true) :
    s.headIs (·.kind == .string) = false := by
  cases s with
  | done => rfl
  | item g t s =>
    have ht : t.isPunct "." = true := h
    simp [Stream.headIs, Stream.head?, kind_of_isPunct ht]

/-- A mantissa is read, and its exponent after it. -/
theorem Mantissa.unsignedLiteral {sign value v : String} (h : Mantissa s value s₁)
    (hstring : s₁.headIs (·.kind == .string) = false) (hdot : s₁.headIs (·.isPunct ".") = false)
    (hexponent : exponent (sign ++ value) s₁ = (v, r)) (hv : isBareSign v = false) :
    unsignedLiteral sign s = .ok (v, r) := by
  cases h with
  | plain hhead =>
    rw [hhead.unsignedLiteral]
    exact literalRest_of_exponent (blob?_of_headIs _ hstring) (fraction_of_headIs _ hdot)
      hexponent hv
  | decimal hhead hfraction =>
    rw [hhead.unsignedLiteral]
    refine literalRest_of_exponent
      (blob?_of_headIs _ (headIs_string_of_dot hfraction.headIs_dot))
      (hfraction.fraction _) ?_ hv
    rwa [String.append_assoc]
  | point hfraction =>
    -- The dot is seen twice: once where the literal begins, once as a part of the fraction.
    have hhead := hfraction.headIs_dot
    cases s with
    | done => cases hhead
    | item g t s =>
      have ht : t.isPunct "." = true := hhead
      have hkind := kind_of_isPunct ht
      simp only [Parser.unsignedLiteral, hkind, ht, if_true]
      exact literalRest_of_exponent
        (blob?_of_headIs _ (headIs_string_of_dot hfraction.headIs_dot))
        (hfraction.fraction _) hexponent hv

/-- A token that begins a literal is more than a sign. -/
theorem Head.exists_mem {head : String} (h : Head s head r) :
    ∃ c ∈ head.toList, c ≠ '+' ∧ c ≠ '-' := by
  have hne {c : Char} {p : Char → Bool} (hc : p c = true) (hplus : p '+' = false)
      (hminus : p '-' = false) : c ≠ '+' ∧ c ≠ '-' := by
    constructor <;> rintro rfl <;> simp_all
  obtain ⟨hkind, next, hobeys⟩ := h
  obtain hkind | hkind := hkind <;> rw [hkind] at hobeys
  · generalize String.toList _ = cs at hobeys ⊢
    cases hobeys with
    | word hrun =>
      obtain ⟨c, hc⟩ := List.exists_mem_of_ne_nil cs hrun.ne_nil
      exact ⟨c, hc, hne (hrun.inside c hc) (by decide) (by decide)⟩
  · generalize String.toList _ = cs at hobeys ⊢
    cases hobeys with
    | @string q _ _ hq =>
      exact ⟨q, List.mem_cons_self, hne hq (by decide) (by decide)⟩

theorem Mantissa.exists_mem {value : String} (h : Mantissa s value r) :
    ∃ c ∈ value.toList, c ≠ '+' ∧ c ≠ '-' := by
  have hdigits {s : Stream} {v : String} (h : Fraction s v r) : '.' ∈ v.toList := by
    cases h
    simp
  cases h with
  | plain hhead => exact hhead.exists_mem
  | decimal hhead =>
    obtain ⟨c, hc, hne⟩ := hhead.exists_mem
    exact ⟨c, by simp [hc], hne⟩
  | point hfraction => exact ⟨'.', hdigits hfraction, by decide, by decide⟩

/-- A mantissa begins neither with a sign nor with a parenthesis. -/
theorem Mantissa.headIs {value : String} (h : Mantissa s value r) :
    s.headIs isSign = false ∧ s.headIs (·.isPunct "(") = false := by
  have hhead {s r : Stream} {head : String} (h : Head s head r) :
      s.headIs isSign = false ∧ s.headIs (·.isPunct "(") = false := by
    obtain ⟨ht | ht, -⟩ := h <;> simp [Stream.headIs, Stream.head?, isSign, Token.isPunct, ht]
  cases h with
  | plain h => exact hhead h
  | decimal h => exact hhead h
  | point h =>
    have hdot := h.headIs_dot
    cases s with
    | done => cases hdot
    | item g t s =>
      simp [Stream.headIs, Stream.head?, isSign, kind_of_isPunct hdot,
        isPunct_of_ne hdot (show "." ≠ "(" by decide)]

/-- No part of a literal follows a part of a column. -/
theorem Before.headIs (h : Before ps s) : s.headIs (·.kind == .string) = false ∧
    s.headIs (·.isPunct ".") = false ∧ s.headIs isSign = false := by
  cases h with
  | phrase _ hks =>
    cases hks with
    | cons hk =>
      simp [Stream.headIs, Stream.head?, isSign, Token.isPunct, kind_of_isKeyword hk]
  | comma hm =>
    cases hm with
    | mk ht =>
      simp [Stream.headIs, Stream.head?, isSign, kind_of_isPunct ht,
        isPunct_of_ne ht (show "," ≠ "." by decide)]
  | close hm =>
    cases hm with
    | mk ht =>
      simp [Stream.headIs, Stream.head?, isSign, kind_of_isPunct ht,
        isPunct_of_ne ht (show ")" ≠ "." by decide)]

theorem Exponent.headIs {v : String} (h : Exponent s v r) :
    s.headIs (·.kind == .string) = false ∧ s.headIs (·.isPunct ".") = false := by
  cases h with
  | mk h =>
    simp only [isExponent, isSign, Bool.and_eq_true, beq_iff_eq] at h
    simp [Stream.headIs, Stream.head?, Token.isPunct, h.1.1.1]

theorem Literal.literal {v : String} (h : Literal s v r) (hr : Before ps r) :
    literal s = .ok (v, r) := by
  obtain ⟨hstring, hdot, hsign⟩ := hr.headIs
  cases h with
  | @blob g n x string s hx hname hstring =>
    have hnone : sign (.item g x (.item ⟨n, []⟩ string r)) = .ok ("", _) :=
      Sign.absent.sign (by simp [Stream.headIs, Stream.head?, isSign, hx])
    simp [Parser.literal, run_bind, hnone, unsignedLiteral, hx, literalRest, blob?, hname, hstring]
  | plain hs hm =>
    simp only [Parser.literal, run_bind, hs.sign hm.headIs.1]
    obtain ⟨c, hc, hplus, hminus⟩ := hm.exists_mem
    exact hm.unsignedLiteral hstring hdot (exponent_of_headIs _ hsign)
      (isBareSign_eq_false (by simp [hc]) hplus hminus)
  | scientific hs hm hunfinished hpower =>
    -- What follows the mantissa is the sign of its exponent.
    simp only [Parser.literal, run_bind, hs.sign hm.headIs.1]
    obtain ⟨c, hc, hplus, hminus⟩ := hm.exists_mem
    exact hm.unsignedLiteral hpower.headIs.1 hpower.headIs.2 (hpower.exponent (hs.opensExponent hunfinished))
      (isBareSign_eq_false (by simp [hc]) hplus hminus)

theorem Literal.headIs {v : String} (h : Literal s v r) :
    s.headIs (·.isPunct "(") = false := by
  have hsign {s s₁ r : Stream} {sign value : String} (hs : Sign s sign s₁)
      (hm : Mantissa s₁ value r) : s.headIs (·.isPunct "(") = false := by
    cases hs with
    | absent => exact hm.headIs.2
    | present ht =>
      simp only [isSign, Bool.and_eq_true, beq_iff_eq] at ht
      simp [Stream.headIs, Stream.head?, Token.isPunct, ht.1]
  cases h with
  | blob hx => simp [Stream.headIs, Stream.head?, Token.isPunct, hx]
  | plain hs hm => exact hsign hs hm
  | scientific hs hm => exact hsign hs hm

theorem Literal.defaultValue {v : String} (h : Literal s v r) (hr : Before ps r) :
    defaultValue s = .ok (v, r) := by
  simp only [Parser.defaultValue, run_bind, nextIs, run_get, run_pure, h.headIs, Bool.false_eq_true,
    if_false, h.literal hr]

theorem Parens.defaultValue {text : String} (h : Parens s text r) :
    defaultValue s = .ok ("(" ++ text ++ ")", r) := by
  have hhead : s.headIs (·.isPunct "(") = true := by
    obtain ⟨⟨ht⟩, -⟩ := h
    exact ht
  simp only [Parser.defaultValue, run_bind, nextIs, run_get, run_pure, hhead, if_true,
    h.parenthesized]

end SchemaAlign.Parser.Grammar
