import SchemaAlign.Proofs.Parser.Depth
import SchemaAlign.Proofs.Parser.Insertion
import SchemaAlign.Proofs.Parser.Tiling

/-!
# Blanks and comments before and behind a text that is kept

Expressions are kept with the blanks and comments in them, and the parts of a literal must not be
taken apart. So a token more in such a text may change it, but one before it or behind it does not.

* `Local`: parsers that read the same when a token is put in before or behind what they read;
* `Local.of_blind`, `Local.bind`: the rules that do not look at the gaps are such parsers, and they
  combine;
* `local_parenthesized`, `local_typeArguments`, `local_defaultValue`, `local_generated`: those that
  keep a text.
-/

namespace SchemaAlign.Parser

open Text
open SchemaAlign.Parser.Stream (On Rest)

variable {α β : Type} {s r : Stream} {k d : Nat} {t w : Token} {tokens : List Token} {g : Gap}

/-! ## Gaps -/

namespace Gap

/-- A gap on either side of the place holds what it held. -/
theorem trivia_insert (h : k < g.start ∨ g.stop < k) : (g.insert k w).trivia = g.trivia := by
  have hle := g.start_le_stop
  unfold insert
  split
  · rfl
  · rw [if_neg (by omega)]

theorem skipped_insert (h : k < g.start ∨ g.stop < k) :
    (g.insert k w).skipped = g.skipped.insert k w := by
  have hle := g.start_le_stop
  obtain h | h := h
  · rw [insert, if_pos h, insert, if_pos (show k < g.skipped.start from Nat.lt_of_lt_of_le h hle)]
    exact congrArg (Gap.mk · []) (Nat.succ_add _ _)
  · have hskipped : ¬ k < g.skipped.start := Nat.not_lt.2 (Nat.le_of_lt h)
    have hskipped' : ¬ k ≤ g.skipped.stop := Nat.not_le.2 h
    rw [insert, if_neg (by omega), if_neg (by omega), insert, if_neg hskipped, if_neg hskipped']

/-- No gap is closed. -/
theorem trivia_eq_nil_of_insert (h : (g.insert k w).trivia = []) : g.trivia = [] := by
  unfold insert at h
  split at h
  · exact h
  split at h
  · simp at h
  · exact h

end Gap

theorem Stream.On.stop_lt (hs : On tokens s) (h : Rest s r) (hlt : r.size < s.size) :
    s.gap.stop < r.gap.start :=
  (hs.tight h hlt).lt

theorem Stream.insert_eq_item {q : Stream} (h : s.insert k w = .item g t q) :
    ∃ g₀ q₀, s = .item g₀ t q₀ ∧ g = g₀.insert k w ∧ q = q₀.insert k w := by
  cases s with
  | done => cases h
  | item => cases h; exact ⟨_, _, rfl, rfl, rfl⟩

/-! ## Parsers that read a token -/

/-- The parser reads a token, at least. -/
def Consumes (p : Parser α) : Prop :=
  ∀ s a r, p s = .ok (a, r) → r.size < s.size

theorem consumes_fail (fault : Fault) : Consumes (fail fault : Parser α) :=
  fun _ _ _ h => nomatch h

theorem consumes_expectPunct (mark : String) (fault : Fault) :
    Consumes (expectPunct mark fault) := by
  intro s u r h
  obtain ⟨g, t, -, rfl⟩ := expectPunct_eq_ok h
  exact Nat.lt_succ_self _

theorem Consumes.bind {p : Parser α} {f : α → Parser β} (hp : Forward p)
    (hf : ∀ a, Consumes (f a)) : Consumes (p >>= f) := by
  intro s b r h
  obtain ⟨a, s₁, ha, hb⟩ := bind_eq_ok h
  exact Nat.lt_of_lt_of_le (hf a _ _ _ hb) (hp _ _ _ ha).size_le

theorem Consumes.bind_forward {p : Parser α} {f : α → Parser β} (hp : Consumes p)
    (hf : ∀ a, Forward (f a)) : Consumes (p >>= f) := by
  intro s b r h
  obtain ⟨a, s₁, ha, hb⟩ := bind_eq_ok h
  exact Nat.lt_of_le_of_lt (hf a _ _ _ hb).size_le (hp _ _ _ ha)

/-! ## Local parsers -/

/-- The parser reads the same when the token is put in before the gap that it begins with, or
    behind what it reads. -/
structure Local (k : Nat) (w : Token) (p : Parser α) : Prop where
  forward : Forward p
  insert : ∀ tokens s a r, On tokens s → p s = .ok (a, r) → k < s.gap.start ∨ r.gap.start ≤ k →
    p (s.insert k w) = .ok (a, r.insert k w)

theorem Local.of_blind {p : Parser α} (hp : Blind p) (hforward : Forward p) : Local k w p :=
  ⟨hforward, fun _ _ _ _ _ h _ => hp.insert h⟩

theorem Local.bind {p : Parser α} {f : α → Parser β} (hp : Local k w p)
    (hf : ∀ a, Local k w (f a)) : Local k w (p >>= f) := by
  refine ⟨hp.forward.bind fun a => (hf a).forward, fun tokens s b r hs h hk => ?_⟩
  obtain ⟨a, s₁, ha, hb⟩ := bind_eq_ok h
  have hs₁ := hp.forward _ _ _ ha
  have hr := (hs.rest hs₁).start_le ((hf a).forward _ _ _ hb)
  have hle := hs.start_le hs₁
  rw [run_bind, hp.insert _ _ _ _ hs ha (by omega)]
  exact (hf a).insert _ _ _ _ (hs.rest hs₁) hb (by omega)

theorem local_pure (a : α) : Local k w (pure a) :=
  .of_blind .pure .pure

theorem Local.map {f : α → β} {p : Parser α} (hp : Local k w p) :
    Local k w (do return f (← p)) :=
  hp.bind fun a => local_pure (f a)

theorem Local.ite {p : Parser Bool} {q q' : Parser α} (hp : Local k w p) (hq : Local k w q)
    (hq' : Local k w q') : Local k w (do if ← p then q else q') :=
  hp.bind fun b => by cases b <;> assumption

/-! ## Expressions -/

theorem cutExpression_insert (hs : On tokens s)
    (hk : k < s.gap.start ∨ (s.cutExpression d).2.2.gap.stop < k) :
    (s.insert k w).cutExpression d =
      ((s.cutExpression d).1, (s.cutExpression d).2.1, (s.cutExpression d).2.2.insert k w) := by
  induction s generalizing d with
  | done g => exact Prod.ext (Gap.trivia_insert hk) rfl
  | item g t rest ih =>
    change (Stream.item (g.insert k w) t (rest.insert k w)).cutExpression d = _
    rw [Stream.cutExpression] at hk ⊢
    rw [Stream.cutExpression]
    split
    · next ht =>
      rw [if_pos ht] at hk
      exact Prod.ext (Gap.trivia_insert hk) rfl
    · next ht =>
      rw [if_neg ht] at hk
      have hrest : Rest (.item g t rest) (rest.cutExpression (depthAfter d t)).2.2 :=
        .item (rest_cutExpression _ _)
      cases hs with
      | item _ _ hstart hs' =>
        have hle := g.start_le_stop
        have hstop := hs'.stop_le (rest_cutExpression (depthAfter d t) rest)
        have hgap := rest.gap.start_le_stop
        have hk' : k < g.start ∨ (rest.cutExpression (depthAfter d t)).2.2.gap.stop < k := hk
        rw [ih hs' (by omega), Gap.trivia_insert (by omega)]

theorem blind_expressionText (ts : List Token) (depth : Nat) : Blind (expressionText ts depth) := by
  unfold expressionText
  split
  · exact (blind_fail _).bind fun _ => .pure
  · exact .pure

/-- A token behind the end of an expression is one behind the gap there, which belongs to it. -/
theorem expression?_insert {text : Option String} (hs : On tokens s)
    (h : expression? s = .ok (text, r)) (hk : k < s.gap.start ∨ r.gap.stop < k) :
    expression? (s.insert k w) = .ok (text, r.insert k w) := by
  obtain rfl : r = (s.cutExpression 0).2.2 := (expression?_eq_ok h).1
  change expressionText (s.cutExpression 0).1 (s.cutExpression 0).2.1 (s.cutExpression 0).2.2 = _
    at h
  change expressionText ((s.insert k w).cutExpression 0).1 ((s.insert k w).cutExpression 0).2.1
    ((s.insert k w).cutExpression 0).2.2 = _
  rw [cutExpression_insert hs hk]
  exact (blind_expressionText _ _).insert h

theorem local_expectPunct (mark : String) (fault : Fault) : Local k w (expectPunct mark fault) :=
  .of_blind (blind_expectPunct _ _) (forward_expectPunct _ _)

/-- Where an expression is followed by a token, one more token behind that one does not change
    it. -/
theorem Local.bind_expression? {f : Option String → Parser β} (hf : ∀ text, Local k w (f text))
    (hreads : ∀ text, Consumes (f text)) : Local k w (expression? >>= f) := by
  refine ⟨forward_expression?.bind fun text => (hf text).forward, fun tokens s b r hs h hk => ?_⟩
  obtain ⟨text, s₁, htext, hb⟩ := bind_eq_ok h
  have hs₁ := hs.rest (forward_expression? _ _ _ htext)
  have hstart := hs.start_le (forward_expression? _ _ _ htext)
  have hend := hs₁.stop_lt ((hf text).forward _ _ _ hb) (hreads text _ _ _ hb)
  rw [run_bind, expression?_insert hs htext (by omega)]
  exact (hf text).insert _ _ _ _ hs₁ hb (by omega)

theorem local_parenthesized : Local k w parenthesized := by
  refine (local_expectPunct _ _).bind fun _ => .bind_expression? (fun text => ?_) fun text => ?_
  · cases text with
    | none => exact .of_blind (blind_fail _) (forward_fail _)
    | some text => exact (local_expectPunct _ _).bind fun _ => local_pure _
  · cases text with
    | none => exact consumes_fail _
    | some text => exact (consumes_expectPunct _ _).bind_forward fun _ => .pure

theorem local_typeArguments : Local k w typeArguments := by
  have mark (m : String) : Local k w (punct? m) := .of_blind (blind_punct? m) (forward_punct? m)
  have close (first second : Option String) : Local k w
      (do expectPunct ")" .closingParenthesis; return (first, second)) :=
    (local_expectPunct _ _).bind fun _ => local_pure _
  have closes (first second : Option String) : Consumes
      (do expectPunct ")" .closingParenthesis; return (first, second)) :=
    (consumes_expectPunct _ _).bind_forward fun _ => .pure
  refine (mark "(").ite (.bind_expression? (fun first => ?_) fun first => ?_) (local_pure _)
  · exact (mark ",").ite (.bind_expression? (close first) (closes first)) (close first none)
  · refine .bind (forward_punct? _) fun comma => ?_
    cases comma with
    | false => exact closes first none
    | true => exact .bind forward_expression? (closes first)

theorem local_generated : Local k w generated :=
  local_parenthesized.bind fun _ => (Local.of_blind (blind_choose _) (forward_choose _)).map

/-! ## Literals -/

/-- Neighbours stay neighbours, and no others become neighbours. -/
theorem blob?_insert {value : String} (hs : On tokens s)
    (hk : ∀ v r, blob? value s = some (v, r) → k < s.gap.start ∨ r.gap.start ≤ k) :
    blob? value (s.insert k w) = (blob? value s).map fun x => (x.1, x.2.insert k w) := by
  cases h : blob? value s with
  | some x =>
    obtain ⟨g, t, rfl, hg, ht, hv⟩ := blob?_eq_some.1 h
    have hapart := hk _ _ h
    cases hs with
    | item _ _ hstart _ =>
      replace hapart : k < g.start ∨ g.stop < k := by
        rw [hstart] at hapart
        exact hapart.imp_right Nat.lt_of_succ_le
      exact blob?_eq_some.2 ⟨_, t, rfl, (Gap.trivia_insert hapart).trans hg, ht, hv⟩
  | none =>
    rw [Option.map_none, Option.eq_none_iff_forall_not_mem]
    rintro ⟨v, r⟩ h'
    obtain ⟨g, t, hsr, hg, ht, -⟩ := blob?_eq_some.1 h'
    obtain ⟨g₀, r₀, rfl, rfl, -⟩ := Stream.insert_eq_item hsr
    rw [blob?_eq_some.2 ⟨g₀, t, rfl, Gap.trivia_eq_nil_of_insert hg, ht, rfl⟩] at h
    cases h

theorem adjacent?_insert {p : Token → Token → Bool} (hs : On tokens s)
    (hk : ∀ x r, adjacent? p s = some (x, r) → k < s.gap.start ∨ r.gap.start ≤ k) :
    adjacent? p (s.insert k w) = (adjacent? p s).map fun x => (x.1, x.2.insert k w) := by
  cases h : adjacent? p s with
  | some x =>
    obtain ⟨⟨t, u⟩, r⟩ := x
    obtain ⟨g, g', rfl, hg, hg', htu⟩ := adjacent?_eq_some.1 h
    have hapart := hk _ _ h
    cases hs with
    | item _ _ hstart hs =>
    cases hs with
    | item _ _ hstart' _ =>
      -- The place is before both gaps or behind them, so both stay empty.
      have hle := g.start_le_stop
      have hle' := g'.start_le_stop
      replace hstart : g'.start = g.stop + 1 := hstart
      replace hapart : k < g.start ∨ g'.stop < k := by
        rw [hstart'] at hapart
        exact hapart.imp_right Nat.lt_of_succ_le
      exact adjacent?_eq_some.2 ⟨_, _, rfl, (Gap.trivia_insert (by omega)).trans hg,
        (Gap.trivia_insert (by omega)).trans hg', htu⟩
  | none =>
    -- Tokens that stand together with the blank stood together without it.
    rw [Option.map_none, Option.eq_none_iff_forall_not_mem]
    rintro ⟨⟨t, u⟩, r⟩ h'
    obtain ⟨g, g', hsr, hg, hg', htu⟩ := adjacent?_eq_some.1 h'
    obtain ⟨g₀, q, rfl, rfl, hq⟩ := Stream.insert_eq_item hsr
    obtain ⟨g₀', r₀, rfl, rfl, -⟩ := Stream.insert_eq_item hq.symm
    rw [adjacent?_eq_some.2 ⟨g₀, g₀', rfl, Gap.trivia_eq_nil_of_insert hg,
      Gap.trivia_eq_nil_of_insert hg', htu⟩] at h
    cases h

theorem fraction_insert {value : String} (hs : On tokens s)
    (hk : k < s.gap.start ∨ (fraction value s).2.gap.start ≤ k) :
    fraction value (s.insert k w) = ((fraction value s).1, (fraction value s).2.insert k w) := by
  unfold fraction at hk ⊢
  rw [adjacent?_insert hs fun x r h => by simpa [h] using hk]
  cases adjacent? (fun dot digits => dot.isPunct "." && digits.kind == .word) s <;> rfl

theorem exponent_insert {value : String} (hs : On tokens s)
    (hk : k < s.gap.start ∨ (exponent value s).2.gap.start ≤ k) :
    exponent value (s.insert k w) = ((exponent value s).1, (exponent value s).2.insert k w) := by
  unfold exponent at hk ⊢
  rw [adjacent?_insert hs fun x r h => by simpa [h] using hk]
  cases adjacent? (fun sign digits => opensExponent value && isExponent sign digits) s <;> rfl

theorem local_literalRest (value : String) : Local k w (literalRest value) := by
  refine ⟨forward_literalRest value, fun tokens s v r hs h hk => ?_⟩
  unfold literalRest at h ⊢
  cases hblob : blob? value s with
  | some x =>
    rw [hblob] at h
    cases h
    rw [blob?_insert hs fun v' r' h' => ?_, hblob]
    · rfl
    · obtain ⟨-, rfl⟩ := Prod.mk.inj (Option.some.inj (hblob.symm.trans h'))
      exact hk
  | none =>
    have hblob' : blob? value (s.insert k w) = none := by
      rw [blob?_insert hs (by simp [hblob]), hblob, Option.map_none]
    rw [hblob] at h
    rw [hblob']
    dsimp only at h ⊢
    -- The place is before all that is read or behind it, and so it is for each part.
    have hfraction := rest_fraction value s
    generalize hx : fraction value s = x at h hfraction
    obtain ⟨value', s₁⟩ := x
    dsimp only at h hfraction
    have hexponent := rest_exponent value' s₁
    have hs₁ := hs.rest hfraction
    have hstart := hs.start_le hfraction
    have hend := hs₁.start_le hexponent
    split at h
    · cases h
    · next hbare =>
      obtain ⟨rfl, rfl⟩ := Prod.mk.inj (Except.ok.inj h)
      have hs' : fraction value (s.insert k w) = (value', s₁.insert k w) := by
        rw [fraction_insert hs (by rw [hx]; dsimp only; omega), hx]
      rw [hs']
      dsimp only
      rw [exponent_insert hs₁ (by omega), if_neg hbare]

theorem blind_sign : Blind sign := by
  intro φ s v r h
  cases s with
  | done => cases h; rfl
  | item g t rest =>
    simp only [sign, Stream.mapGap] at h ⊢
    split at h <;> cases h
    · next ht => rw [if_pos ht]
    · next ht => rw [if_neg ht]; rfl

theorem local_unsignedLiteral {signText : String} (hv : isBareSign signText = true) :
    Local k w (unsignedLiteral signText) := by
  refine ⟨forward_unsignedLiteral hv, fun tokens s v r hs h hk => ?_⟩
  cases s with
  | done => cases h
  | item g t rest =>
    cases hs with
    | item ht htrivia hstart hs' =>
    have hle := g.start_le_stop
    replace hk : k < g.start ∨ r.gap.start ≤ k := hk
    change unsignedLiteral signText (.item (g.insert k w) t (rest.insert k w)) = _
    simp only [unsignedLiteral] at h ⊢
    split at h
    · next hword =>
      rw [if_pos hword]
      exact (local_literalRest _).insert _ _ _ _ hs' h (by omega)
    · next hword =>
      rw [if_neg hword]
      split at h
      · next hdot =>
        -- The dot is read again, as the beginning of a fraction.
        have hr := hs'.start_le (rest_of_literalRest hv hdot h)
        rw [if_pos hdot, Gap.skipped_insert (by omega)]
        have hs₀ : On tokens (.item g.skipped t rest) := .item ht htrivia hstart hs'
        exact (local_literalRest _).insert _ _ _ _ hs₀ h
          (hk.imp_left fun h => Nat.lt_of_lt_of_le h hle)
      · cases h

theorem local_defaultValue : Local k w defaultValue := by
  refine (Local.of_blind (blind_nextIs _) (forward_nextIs _)).ite local_parenthesized.map ?_
  refine ⟨forward_literal, fun tokens s v r hs h hk => ?_⟩
  obtain ⟨signText, s₁, hsign, hliteral⟩ := bind_eq_ok h
  have hforward := forward_sign _ _ _ hsign
  have hstart := hs.start_le hforward
  rw [literal, run_bind, blind_sign.insert hsign]
  exact (local_unsignedLiteral (isBareSign_of_sign hsign)).insert _ _ _ _ (hs.rest hforward)
    hliteral (by omega)

end SchemaAlign.Parser
