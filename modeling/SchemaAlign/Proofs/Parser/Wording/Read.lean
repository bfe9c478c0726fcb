import SchemaAlign.Proofs.Parser.InStep
import SchemaAlign.Proofs.Parser.Literal
import SchemaAlign.Proofs.Parser.Wording

/-!
# What a parser reads

A parser is told by the language of what it reads where it gives a value. There is one lemma for
each way to put parsers together, and one for each parser of tokens, expressions and literals. The
constraints, the columns and the statement follow in `SchemaAlign.Proofs.Parser.Wording.Sound`.

* `Worded`: what a parser reads is in a language, which may depend on the value;
* `Worded.bind`, `Worded.ite`, `Worded.bind_option`, `Worded.rounds`, …: parsers from parsers;
* `unwinds_cutExpression`, `worded_expression?`: an expression is balanced;
* `worded_literal`: a literal, whose exponent depends on the text before it.
-/

namespace SchemaAlign.Parser

open Text
open SchemaAlign.Wording
open scoped Computability

variable {α β : Type} {d : Nat} {s r : Stream} {p : Parser α} {L M K S : Language Token}
  {k m : String} {ks : List String} {fault : Fault}

/-! ## Combining parsers -/

/-- What is read where the parser gives a value is in the language of that value. -/
def Worded (L : α → Language Token) (p : Parser α) : Prop :=
  ∀ s a r, p s = .ok (a, r) → ∃ w ∈ L a, s.significant = w ++ r.significant

/-- Something that may be there, and whether it is. -/
def flag (L : Language Token) : Bool → Language Token
  | true => L
  | false => 1

/-- `L` where something is found, and `S` where nothing is. -/
def found (S L : Language Token) : Option α → Language Token
  | some _ => L
  | none => S

/-- The rounds of a repetition: without a value, with the last value, and with another one. -/
def roundOf (S L M : Language Token) : Round α → Language Token
  | .stop => S
  | .last _ => L
  | .next _ => M

theorem mul_found (h : L * M ≤ K) (o : Option α) : L * found 0 M o ≤ found S K o := by
  cases o with
  | none => rw [found, mul_zero]; exact fun _ h => nomatch h
  | some a => exact h

theorem found_le_maybe (o : Option α) : found 1 L o ≤ maybe L := by
  cases o with
  | none => exact one_le_maybe L
  | some a => exact le_maybe L

theorem flag_le_maybe (b : Bool) : flag L b ≤ maybe L := by
  cases b with
  | false => exact one_le_maybe L
  | true => exact le_maybe L

section

variable {A B : α → Language Token} {F : α → β → Language Token} {G H : β → Language Token}

theorem Worded.mono (hp : Worded A p) (h : ∀ a, A a ≤ B a) : Worded B p := by
  intro s a r hs
  obtain ⟨w, hw, hread⟩ := hp s a r hs
  exact ⟨w, h a hw, hread⟩

theorem worded_pure {a : α} (h : 1 ≤ A a) : Worded A (pure a) := by
  intro s b r hs
  cases hs
  exact ⟨[], h Language.nil_mem_one, rfl⟩

theorem worded_fail (fault : Fault) : Worded A (fail fault : Parser α) := by
  intro s a r h
  cases h

theorem Worded.bind {f : α → Parser β} (hp : Worded A p) (hf : ∀ a, Worded (F a) (f a))
    (h : ∀ a b, A a * F a b ≤ G b) : Worded G (p >>= f) := by
  intro s b r hs
  obtain ⟨a, q, ha, hb⟩ := bind_eq_ok hs
  obtain ⟨u, hu, hread⟩ := hp s a q ha
  obtain ⟨v, hv, hread'⟩ := hf a q b r hb
  exact ⟨u ++ v, h a b (Language.append_mem_mul hu hv), by rw [hread, hread', List.append_assoc]⟩

/-- One parser behind the other. -/
theorem Worded.seq {f : α → Parser β} (hp : Worded (fun _ => L) p)
    (hf : ∀ a, Worded (fun _ => M) (f a)) : Worded (fun _ => L * M) (p >>= f) :=
  hp.bind hf fun _ _ => le_rfl

theorem Worded.map {f : α → β} (hp : Worded A p) (h : ∀ a, A a ≤ G (f a)) :
    Worded G (do return f (← p)) := by
  intro s b r hs
  obtain ⟨a, q, ha, hb⟩ := bind_eq_ok hs
  cases hb
  obtain ⟨w, hw, hread⟩ := hp s a r ha
  exact ⟨w, h a hw, hread⟩

/-- Something that may be there, with what follows it, or something else. -/
theorem Worded.ite {q : Parser Bool} {f g : Parser α} (hq : Worded (flag L) q)
    (hf : Worded A f) (hg : Worded B g) (h : ∀ a, L * A a ≤ B a) :
    Worded B (do if ← q then f else g) := by
  refine hq.bind (F := fun b => if b then A else B) (fun b => ?_) fun b a => ?_
  · cases b
    · exact hg
    · exact hf
  · cases b
    · exact (one_mul _).le
    · exact h a

/-- A parser that finds something or nothing, and what follows in either case. -/
theorem Worded.bind_option {o : Parser (Option α)} {f : Option α → Parser β}
    (ho : Worded (found 1 L) o) (hsome : ∀ a, Worded H (f (some a))) (hnone : Worded G (f none))
    (h : ∀ b, L * H b ≤ G b) : Worded G (o >>= f) := by
  refine ho.bind (F := fun x => if x.isSome then H else G) (fun x => ?_) fun x b => ?_
  · cases x
    · exact hnone
    · exact hsome _
  · cases x
    · exact (one_mul _).le
    · exact h b

/-- Something that has to be there. -/
theorem Worded.demand {o : Parser (Option α)} {f : Option α → Parser β}
    (ho : Worded (found 1 L) o) (hsome : ∀ a, ∃ b, f (some a) = pure b ∧ L ≤ G b)
    (hnone : ∃ fault, f none = fail fault) : Worded G (o >>= f) := by
  intro s b r hs
  obtain ⟨_ | a, q, ha, hb⟩ := bind_eq_ok hs
  · obtain ⟨fault, hfail⟩ := hnone
    rw [hfail] at hb
    cases hb
  · obtain ⟨b', hpure, hle⟩ := hsome a
    rw [hpure] at hb
    cases hb
    obtain ⟨w, hw, hread⟩ := ho _ _ _ ha
    exact ⟨w, hle hw, hread⟩

/-- A test that reads nothing, and what follows it. -/
theorem Worded.test {q : Parser Bool} {f : Bool → Parser α} (hq : Worded (fun _ => 1) q)
    (hf : ∀ b, Worded A (f b)) : Worded A (q >>= f) :=
  hq.bind hf fun _ _ => (one_mul _).le

end

theorem length_significant (s : Stream) : s.significant.length = s.size := by
  induction s with
  | done => rfl
  | item g t s ih => rw [Stream.significant, List.length_cons, ih, Stream.size]

/-- A round that reads nothing is the last one. -/
theorem Worded.rounds {p : Parser (Round α)} (hp : Worded (roundOf S L M) p)
    (hM : [] ∈ M → 1 ≤ S + L) : Worded (fun _ => M∗ * (S + L)) (rounds p) := by
  intro s as r hs
  have hlast : S + L ≤ M∗ * (S + L) := by
    have := mul_le_mul_left (one_le_kstar (a := M)) (S + L)
    rwa [one_mul] at this
  have hnext : M * (M∗ * (S + L)) ≤ M∗ * (S + L) := by
    rw [← mul_assoc]
    exact mul_le_mul_left mul_kstar_le_kstar _
  -- Along the rounds: `hlast` for the last one, `hnext` for one more in front.
  fun_induction Parser.rounds p s generalizing as with
  | case1 => cases hs
  | case2 s rest h =>
    cases hs
    obtain ⟨w, hw, hread⟩ := hp _ _ _ h
    exact ⟨w, hlast (.inl hw), hread⟩
  | case3 s a rest h =>
    cases hs
    obtain ⟨w, hw, hread⟩ := hp _ _ _ h
    exact ⟨w, hlast (.inr hw), hread⟩
  | case4 => cases hs
  | case5 s a rest h hlt as rest' hr ih =>
    cases hs
    obtain ⟨w, hw, hread⟩ := hp _ _ _ h
    obtain ⟨w', hw', hread'⟩ := ih _ hr
    exact ⟨w ++ w', hnext (Language.append_mem_mul hw hw'),
      by rw [hread, hread', List.append_assoc]⟩
  | case6 s a rest h hlt =>
    cases hs
    obtain ⟨w, hw, hread⟩ := hp _ _ _ h
    -- The round made no progress, so it read nothing, which `hM` allows for the last one.
    have hlen := congrArg List.length hread
    rw [List.length_append, length_significant, length_significant] at hlen
    obtain rfl : w = [] := List.length_eq_zero_iff.1 (by omega)
    exact ⟨[], hlast (hM hw Language.nil_mem_one), hread⟩

theorem Worded.many {p : Parser (Option α)} (hp : Worded (found 1 L) p) :
    Worded (fun _ => L∗) (many p) := by
  have hround : Worded (roundOf 1 0 L) (do
      match ← p with
      | some a => return .next a
      | none => return .stop : Parser (Round α)) := by
    refine hp.bind_option (H := roundOf 0 0 1) (fun a => worded_pure le_rfl)
      (worded_pure le_rfl) fun x => ?_
    cases x <;> simp [roundOf]
  refine (hround.rounds fun _ => by simp).mono fun _ => ?_
  simp

theorem worded_punct? (m : String) : Worded (flag (mark m)) (punct? m) := by
  intro s b r h
  obtain ⟨rfl, g, t, ht, rfl⟩ | ⟨rfl, rfl, -⟩ := punct?_eq_ok h
  · obtain rfl := eq_of_isPunct ht
    exact ⟨_, rfl, rfl⟩
  · exact ⟨[], Language.nil_mem_one, rfl⟩

/-- A comma asks for another round. -/
theorem worded_commaRound (a : α) : Worded (roundOf 0 1 (mark ",")) (do
    if ← punct? "," then return .next a else return .last a : Parser (Round α)) := by
  refine (worded_punct? ",").ite (A := roundOf 0 0 1) (worded_pure le_rfl) (worded_pure le_rfl)
    fun x => ?_
  cases x <;> simp [roundOf]

theorem Worded.commaSeparated (hp : Worded (fun _ => L) p) :
    Worded (fun _ => separated L) (commaSeparated p) := by
  have hround : Worded (roundOf 0 L (L * mark ",")) (do
      let a ← p
      if ← punct? "," then return .next a else return .last a : Parser (Round α)) := by
    refine hp.bind worded_commaRound fun a x => ?_
    cases x <;> simp [roundOf]
  refine (hround.rounds fun h => absurd h (nil_notMem_mul_mark L ",")).mono fun _ => ?_
  rw [zero_add]
  exact kstar_mul_le_separated L

/-! ## Tokens -/

theorem keyword_le_anyKeyword (h : k ∈ ks) : keywords [k] ≤ anyKeyword ks := by
  rw [keywords_singleton]
  rintro _ ⟨t, ht, rfl⟩
  exact ⟨t, List.any_eq_true.2 ⟨k, h, ht⟩, rfl⟩

theorem exists_keywords (h : s.afterPhrase? ks = some r) :
    ∃ w ∈ keywords ks, s.significant = w ++ r.significant := by
  induction ks generalizing s with
  | nil => cases h; exact ⟨[], Language.nil_mem_one, rfl⟩
  | cons k ks ih =>
    cases s with
    | done => cases h
    | item g t s =>
      rw [Stream.afterPhrase?] at h
      split at h
      · next ht =>
        obtain ⟨w, hw, hread⟩ := ih h
        have hfirst : [t] ∈ keyword k := ⟨t, ht, rfl⟩
        exact ⟨t :: w, Language.append_mem_mul hfirst hw, congrArg (t :: ·) hread⟩
      · cases h

theorem worded_phrase? (ks : List String) : Worded (flag (keywords ks)) (phrase? ks) := by
  intro s b r h
  obtain ⟨rfl, hk⟩ | ⟨rfl, rfl, -⟩ := phrase?_eq_ok h
  · exact exists_keywords hk
  · exact ⟨[], Language.nil_mem_one, rfl⟩

theorem worded_keyword? (k : String) : Worded (flag (keyword k)) (keyword? k) := by
  rw [← keywords_singleton]
  exact worded_phrase? [k]

theorem worded_expectKeyword (k : String) (fault : Fault) :
    Worded (fun _ => keyword k) (expectKeyword k fault) := by
  intro s u r h
  rw [← keywords_singleton]
  exact exists_keywords (expectKeyword_eq_ok h)

theorem worded_expectPunct (m : String) (fault : Fault) :
    Worded (fun _ => mark m) (expectPunct m fault) := by
  intro s u r h
  obtain ⟨g, t, ht, rfl⟩ := expectPunct_eq_ok h
  obtain rfl := eq_of_isPunct ht
  exact ⟨_, rfl, rfl⟩

theorem worded_expectName (fault : Fault) : Worded (fun _ => name) (expectName fault) := by
  intro s a r h
  obtain ⟨g, t, rfl, ht⟩ := expectName_eq_ok h
  exact ⟨[t], ⟨t, by simp [ht], rfl⟩, rfl⟩

theorem worded_choose {choices : List (List String × α)} (h : ∀ c ∈ choices, keywords c.1 ≤ L) :
    Worded (found 1 L) (choose choices) := by
  intro s o r hs
  obtain ⟨rfl, rfl, -⟩ | ⟨c, hc, rfl, hr⟩ := choose_eq_ok hs
  · exact ⟨[], Language.nil_mem_one, rfl⟩
  · obtain ⟨w, hw, hread⟩ := exists_keywords hr
    exact ⟨w, h c hc hw, hread⟩

/-- One of some keywords that has to come next. -/
theorem worded_choose_any {choices : List (List String × α)}
    (h : choices.map (·.1) = ks.map fun k => [k]) :
    Worded (found 1 (anyKeyword ks)) (choose choices) := by
  refine worded_choose fun c hc => ?_
  have hmem := List.mem_map_of_mem (f := (·.1)) hc
  rw [h] at hmem
  obtain ⟨k, hk, hkc⟩ := List.mem_map.1 hmem
  rw [← hkc]
  exact keyword_le_anyKeyword hk

theorem worded_nextIs (q : Token → Bool) : Worded (fun _ => 1) (nextIs q) := by
  intro s b r h
  cases h
  exact ⟨[], Language.nil_mem_one, rfl⟩

theorem worded_atEnd : Worded (fun _ => 1) atEnd := by
  intro s b r h
  cases h
  exact ⟨[], Language.nil_mem_one, rfl⟩

/-! ## Expressions -/

/-- Tokens that close so many parentheses, and what follows the last one. -/
def Unwinds : Nat → List Token → Prop
  | 0, w => Balanced false w
  | d + 1, w => ∃ us vs, w = us ++ ⟨.punctuation, ")"⟩ :: vs ∧ Balanced true us ∧ Unwinds d vs

theorem Unwinds.token {t : Token} {w : List Token} (hsemicolon : t.isPunct ";" = false)
    (hopen : t.isPunct "(" = false) (hclose : t.isPunct ")" = false)
    (hcomma : t.isPunct "," = true → 0 < d) (h : Unwinds d w) : Unwinds d (t :: w) := by
  cases d with
  | zero => exact .token hsemicolon hopen hclose (fun h => absurd (hcomma h) (by decide)) h
  | succ d =>
    obtain ⟨us, vs, rfl, hus, hvs⟩ := h
    exact ⟨t :: us, vs, rfl, .token hsemicolon hopen hclose (fun _ => rfl) hus, hvs⟩

theorem Unwinds.group {w : List Token} (h : Unwinds (d + 1) w) :
    Unwinds d (⟨.punctuation, "("⟩ :: w) := by
  obtain ⟨us, vs, rfl, hus, hvs⟩ := h
  cases d with
  | zero => exact .group hus hvs
  | succ d =>
    obtain ⟨us', vs', rfl, hus', hvs'⟩ := hvs
    exact ⟨_, vs', by simp, .group hus hus', hvs'⟩

/-- What is cut off closes all parentheses if none is open behind it. -/
theorem unwinds_cutExpression (s : Stream) (hd : (s.cutExpression d).2.1 = 0) :
    ∃ w, Unwinds d w ∧ s.significant = w ++ (s.cutExpression d).2.2.significant := by
  induction s generalizing d with
  | done g => exact ⟨[], by obtain rfl : d = 0 := hd; exact .nil, rfl⟩
  | item g t s ih =>
    rw [Stream.cutExpression] at hd ⊢
    split
    · next hends =>
      rw [if_pos hends] at hd
      exact ⟨[], by obtain rfl : d = 0 := hd; exact .nil, rfl⟩
    · next hends =>
      rw [if_neg hends] at hd
      obtain ⟨w, hw, hread⟩ := ih hd
      refine ⟨t :: w, ?_, congrArg (t :: ·) hread⟩
      simp only [endsExpression, Bool.or_eq_true, Bool.and_eq_true, not_or, beq_iff_eq] at hends
      -- The token goes one parenthesis deeper, comes out of one, or stays.
      rw [depthAfter] at hw
      split at hw
      · next hopen => exact eq_of_isPunct hopen ▸ hw.group
      split at hw
      · next hclose =>
        obtain rfl := eq_of_isPunct hclose
        cases d with
        | zero => exact absurd ⟨rfl, .inl hclose⟩ hends.2
        | succ d => exact ⟨[], w, rfl, .nil, hw⟩
      · next hopen hclose =>
        refine hw.token (by simpa using hends.1) (by simpa using hopen) (by simpa using hclose)
          fun hcomma => Nat.pos_of_ne_zero fun hd => hends.2 ⟨hd, .inr hcomma⟩

theorem worded_expression? : Worded (fun _ => argument .univ) expression? := by
  intro s text r h
  obtain ⟨rfl, hdepth⟩ := expression?_eq_ok h
  obtain ⟨w, hw, hread⟩ := unwinds_cutExpression s hdepth
  refine ⟨w, ?_, hread⟩
  by_cases hnil : w = []
  · exact .inr ⟨trivial, hnil⟩
  · exact .inl ⟨hnil, hw⟩

theorem worded_parenthesized : Worded (fun _ => parens .univ) parenthesized := by
  refine ((worded_expectPunct _ _).seq fun _ => worded_expression?.bind
    (F := fun _ _ => mark ")") (G := fun _ => argument .univ * mark ")") (fun o => ?_)
    fun _ _ => le_rfl).mono fun _ => ?_
  · cases o with
    | none => exact worded_fail _
    | some text => exact ((worded_expectPunct _ _).seq fun _ => worded_pure le_rfl).mono fun _ =>
        (mul_one _).le
  · rw [parens, mul_assoc]

/-! ## Literals -/

/-- The words of a language with the text `v`. -/
def spelling (L : Language Token) (v : String) : Language Token :=
  {w | w ∈ L ∧ v.toList = Token.chars w}

theorem render_of_spelling {v : String} {w : List Token} (h : w ∈ spelling L v) :
    Token.render w = v :=
  String.toList_injective (by rw [Token.toList_render, h.2])

theorem append_mem_spelling {v v' : String} {u w : List Token} (hu : u ∈ spelling L v)
    (hw : w ∈ spelling M v') : u ++ w ∈ spelling (L * M) (v ++ v') :=
  ⟨Language.append_mem_mul hu.1 hw.1, by
    rw [String.toList_append, hu.2, hw.2, Token.chars_append]⟩

theorem worded_sign : Worded (spelling (maybe (one isSign))) sign := by
  intro s v r h
  cases s with
  | done => cases h; exact ⟨[], ⟨.inl rfl, rfl⟩, rfl⟩
  | item g t s =>
    rw [sign] at h
    split at h
    · next ht => cases h; exact ⟨[t], ⟨.inr ⟨t, ht, rfl⟩, by simp⟩, rfl⟩
    · cases h; exact ⟨[], ⟨.inl rfl, rfl⟩, rfl⟩

/-- No blob begins with a sign. -/
theorem eq_nil_of_blob {v v' : String} {us : List Token}
    (hus : us ∈ spelling (maybe (one isSign)) v) (h : eqIgnoreAsciiCase (v ++ v') "x" = true) :
    us = [] ∧ v = "" := by
  obtain ⟨rfl | ⟨t, ht, rfl⟩, hv⟩ := hus
  · exact ⟨rfl, String.toList_eq_nil_iff.1 hv⟩
  · simp only [isSign, Bool.and_eq_true, Bool.or_eq_true, beq_iff_eq] at ht
    obtain ⟨-, ht | ht⟩ := ht <;> simp_all [eqIgnoreAsciiCase, Token.chars]

/-- A number may go on with an exponent. -/
theorem exists_exponent {v : String} {us : List Token}
    (hus : us ∈ spelling (maybe (one isSign) * mantissa) v) :
    ∃ w, us ++ w ∈ Wording.literal ∧ s.significant = w ++ (exponent v s).2.significant := by
  rw [exponent]
  split
  · next t u r h =>
    obtain ⟨g, g', rfl, -, -, h⟩ := adjacent?_eq_some.1 h
    rw [Bool.and_eq_true] at h
    exact ⟨[t, u], .inr ⟨us, t, u, hus.1, by rw [render_of_spelling hus, h.1], h.2, rfl⟩, rfl⟩
  · exact ⟨[], by rw [List.append_nil]; exact .inl (.inr hus.1), rfl⟩

/-- A word or a string may go on with a fraction. -/
theorem exists_fraction {v : String} {us : List Token}
    (hus : us ∈ spelling (maybe (one isSign) * value) v) :
    ∃ w, us ++ w ∈ spelling (maybe (one isSign) * mantissa) (fraction v s).1 ∧
      s.significant = w ++ (fraction v s).2.significant := by
  have hle : maybe (one isSign) * value * maybe (mark "." * word) ≤
      maybe (one isSign) * mantissa := by
    rw [mul_assoc]
    exact mul_le_mul_right (fun _ h => .inl h) _
  rw [fraction]
  split
  · next dot digits r h =>
    obtain ⟨g, g', rfl, -, -, h⟩ := adjacent?_eq_some.1 h
    rw [Bool.and_eq_true] at h
    obtain rfl := eq_of_isPunct h.1
    have hdigits : [⟨.punctuation, "."⟩, digits] ∈
        spelling (maybe (mark "." * word)) ("." ++ digits.text) :=
      ⟨.inr ⟨[_], rfl, [digits], ⟨digits, h.2, rfl⟩, rfl⟩, by simp⟩
    obtain ⟨hmem, htext⟩ := append_mem_spelling hus hdigits
    exact ⟨_, ⟨hle hmem, by rw [String.append_assoc, htext]⟩, rfl⟩
  · refine ⟨[], ⟨hle ⟨us, hus.1, [], .inl rfl, rfl⟩, ?_⟩, rfl⟩
    rw [List.append_nil, hus.2]

/-- Behind a word or a string: the string of a blob, or the rest of a number. -/
theorem exists_literalRest {v v' : String} {us : List Token} {t : Token}
    (hus : us ∈ spelling (maybe (one isSign)) v)
    (ht : (t.kind == .word || t.kind == .string) = true)
    (h : literalRest (v ++ t.text) s = .ok (v', r)) :
    ∃ w, us ++ t :: w ∈ Wording.literal ∧ s.significant = w ++ r.significant := by
  rw [literalRest_eq] at h
  split at h
  · next hblob =>
    cases h
    obtain ⟨g, u, rfl, -, hu, -⟩ := blob?_eq_some.1 hblob
    rw [Bool.and_eq_true] at hu
    obtain ⟨rfl, rfl⟩ := eq_nil_of_blob hus hu.1
    rw [String.empty_append] at hu
    have hblob : [t, u] ∈ blob :=
      ⟨[t], ⟨t, by simp [ht, hu.1], rfl⟩, [u], ⟨u, hu.2, rfl⟩, rfl⟩
    exact ⟨[u], .inl (.inl hblob), rfl⟩
  · split at h
    · cases h
    have hvalue : [t] ∈ spelling value t.text := ⟨⟨t, ht, rfl⟩, by simp⟩
    obtain ⟨w, hw, hread⟩ := exists_fraction (s := s) (append_mem_spelling hus hvalue)
    obtain ⟨w', hw', hread'⟩ := exists_exponent (s := (fraction (v ++ t.text) s).2) hw
    refine ⟨w ++ w', by simpa using hw', ?_⟩
    rw [Except.ok.inj h] at hread'
    rw [hread, hread', List.append_assoc]

/-- At a decimal point: digits, and the rest of a number. -/
theorem exists_pointed {v v' : String} {us : List Token} {t : Token} {g : Gap}
    (hus : us ∈ spelling (maybe (one isSign)) v) (hbare : isBareSign v = true)
    (hdot : t.isPunct "." = true) (h : literalRest v (.item g t s) = .ok (v', r)) :
    ∃ w, us ++ t :: w ∈ Wording.literal ∧ s.significant = w ++ r.significant := by
  obtain ⟨g', u, s', rfl, hu, hexponent⟩ := exists_fraction_of_literalRest hbare hdot h
  obtain rfl := eq_of_isPunct hdot
  have hmantissa : us ++ [⟨.punctuation, "."⟩, u] ∈
      spelling (maybe (one isSign) * mantissa) (v ++ "." ++ u.text) := by
    rw [String.append_assoc]
    exact append_mem_spelling hus
      ⟨.inr ⟨[_], rfl, [u], ⟨u, by simp [hu], rfl⟩, rfl⟩, by simp⟩
  obtain ⟨w, hw, hread⟩ := exists_exponent (s := s') hmantissa
  rw [hexponent] at hread
  exact ⟨u :: w, by simpa using hw, by rw [Stream.significant, hread, List.cons_append]⟩

theorem exists_unsignedLiteral {v v' : String} {us : List Token}
    (hus : us ∈ spelling (maybe (one isSign)) v) (hbare : isBareSign v = true)
    (h : unsignedLiteral v s = .ok (v', r)) :
    ∃ w, us ++ w ∈ Wording.literal ∧ s.significant = w ++ r.significant := by
  cases s with
  | done => cases h
  | item g t s =>
    rw [unsignedLiteral] at h
    split at h
    · next ht =>
      obtain ⟨w, hw, hread⟩ := exists_literalRest hus ht h
      exact ⟨t :: w, hw, by rw [Stream.significant, hread, List.cons_append]⟩
    split at h
    · next hdot =>
      obtain ⟨w, hw, hread⟩ := exists_pointed hus hbare hdot h
      exact ⟨t :: w, hw, by rw [Stream.significant, hread, List.cons_append]⟩
    · cases h

theorem worded_literal : Worded (fun _ => Wording.literal) literal := by
  intro s v r h
  obtain ⟨x, q, hsign, h'⟩ := bind_eq_ok h
  obtain ⟨us, hus, hread⟩ := worded_sign _ _ _ hsign
  obtain ⟨w, hw, hread'⟩ := exists_unsignedLiteral hus (isBareSign_of_sign hsign) h'
  exact ⟨us ++ w, hw, by rw [hread, hread', List.append_assoc]⟩

theorem worded_defaultValue :
    Worded (fun _ => parens .univ + Wording.literal) defaultValue := by
  refine (worded_nextIs _).test fun b => ?_
  cases b
  · exact worded_literal.mono fun _ _ h => .inr h
  · exact worded_parenthesized.map fun _ _ h => .inl h

end SchemaAlign.Parser
