import Mathlib.Logic.Function.Iterate
import SchemaAlign.Proofs.Parser.Depth
import SchemaAlign.Proofs.Parser.Statement
import SchemaAlign.Proofs.Token.Meaning

/-!
# Two readings in step

The comparison of definitions sees words in the upper case of Unicode, but the grammar knows its
keywords in the letters of ASCII alone. So of two texts that compare equal, one may hold a keyword
where the other one holds a word that is none. Where the keyword is optional, the first reading goes
on behind it and the second one does not. From then on the second one is *stuck*: no other phrase
of a constraint begins there, and the column does not end there either, so it cannot be read to its
end. Where neither reading is stuck, both are *in step*: they have read as many tokens.

* `Stream.Pairwise`: streams whose significant tokens are related one by one;
* `Stuck`: where no constraint begins or goes on, and no column ends;
* `InStep`, `Stays`, `Tracks`: rules that keep in step, rules that stay stuck, and rules that do
  both;
* `InStep.bind`, `Tracks.ite`, `Tracks.many`, …: such rules combine.
-/

namespace SchemaAlign.Parser

open Text

variable {α β : Type} {R : Token → Token → Prop} {s s' r r' : Stream} {t t' : Token}
  {k : String} {ks ks' : List String}

/-! ## Streams -/

/-- The significant tokens of the streams are in the relation `R`, one by one. -/
inductive Stream.Pairwise (R : Token → Token → Prop) : Stream → Stream → Prop
  | done {g g' : Gap} : Pairwise R (.done g) (.done g')
  | item {g g' : Gap} {t t' : Token} {s s' : Stream} : R t t' → Pairwise R s s' →
      Pairwise R (.item g t s) (.item g' t' s')

open SchemaAlign.Parser.Stream (Pairwise ofTokens)

/-- The significant tokens. -/
def Stream.significant : Stream → List Token
  | done _ => []
  | item _ t rest => t :: rest.significant

theorem significant_ofTokens (n : Nat) (ts : List Token) :
    (ofTokens n ts).significant = ts.filter Token.isSignificant := by
  have withGap (g : Gap) (s : Stream) : (s.withGap g).significant = s.significant := by
    cases s <;> rfl
  induction ts generalizing n with
  | nil => rfl
  | cons t ts ih =>
    rw [ofTokens]
    split
    · next ht => rw [withGap, ih, List.filter_cons_of_neg (by simp [Token.isSignificant, ht])]
    · next ht =>
      rw [Stream.significant, ih, List.filter_cons_of_pos (by simp [Token.isSignificant, ht])]

theorem pairwise_iff : Pairwise R s s' ↔ List.Forall₂ R s.significant s'.significant := by
  constructor
  · intro h
    induction h with
    | done => exact .nil
    | item ht _ ih => exact .cons ht ih
  · intro h
    induction s generalizing s' with
    | done =>
      cases s' with
      | done => exact .done
      | item => cases h
    | item g t s ih =>
      cases s' with
      | done => cases h
      | item g' t' s' =>
        cases h with
        | cons ht hs => exact .item ht (ih hs)

theorem Stream.Pairwise.tail (h : Pairwise R s s') (n : Nat) :
    Pairwise R (Stream.tail^[n] s) (Stream.tail^[n] s') := by
  induction n generalizing s s' with
  | zero => exact h
  | succ n ih =>
    cases h with
    | done => exact ih .done
    | item _ hs => exact ih hs

theorem Stream.Pairwise.size_eq (h : Pairwise R s s') : s.size = s'.size := by
  induction h with
  | done => rfl
  | item _ _ ih => rw [Stream.size, Stream.size, ih]

theorem Stream.Pairwise.headIs_eq {p : Token → Bool} (hp : ∀ t t', R t t' → p t = p t')
    (h : Pairwise R s s') : s.headIs p = s'.headIs p := by
  cases h with
  | done => rfl
  | item ht _ => exact hp _ _ ht

/-! ## Tokens that compare equal -/

section

variable (h : t.meaning = t'.meaning)
include h

theorem kind_eq_of_meaning : t.kind = t'.kind :=
  congrArg Prod.fst h

theorem text_eq_of_meaning (hword : t.kind ≠ .word) : t.text = t'.text := by
  have htext := congrArg Prod.snd h
  simp only [Token.meaning] at htext
  rwa [if_neg hword, if_neg (kind_eq_of_meaning h ▸ hword)] at htext

theorem isPunct_eq_of_meaning (mark : String) : t.isPunct mark = t'.isPunct mark := by
  rw [Token.isPunct, Token.isPunct, ← kind_eq_of_meaning h]
  by_cases hkind : t.kind = .punctuation
  · rw [text_eq_of_meaning h (by rw [hkind]; decide)]
  · rw [beq_false_of_ne hkind, Bool.false_and, Bool.false_and]

theorem isSign_eq_of_meaning : isSign t = isSign t' := by
  rw [isSign, isSign, ← kind_eq_of_meaning h]
  by_cases hkind : t.kind = .other
  · rw [text_eq_of_meaning h (by rw [hkind]; decide)]
  · rw [beq_false_of_ne hkind, Bool.false_and, Bool.false_and]

theorem name?_of_meaning : Option.Rel (fun a b => upper a = upper b) t.name? t'.name? := by
  rw [Token.name?, Token.name?, ← kind_eq_of_meaning h]
  split
  · next hkind =>
    have htext := congrArg Prod.snd h
    simp only [Token.meaning, ← kind_eq_of_meaning h, hkind, if_true] at htext
    exact .some htext
  · next hkind =>
    rw [text_eq_of_meaning h (by rw [hkind]; decide)]
    cases unquote? t'.text with
    | none => exact .none
    | some name => exact .some rfl
  · exact .none

end

theorem meaning_of_isKeyword (h : t.isKeyword k = true) : t.meaning = (.word, upper k) := by
  rw [Token.isKeyword, Bool.and_eq_true, beq_iff_eq] at h
  rw [Token.meaning, h.1, if_pos rfl, upper_congr h.2]

/-! ## Phrases -/

/-- The stream begins with words that compare equal to the given ones. -/
def Stream.Spells : List String → Stream → Prop
  | [], _ => True
  | k :: ks, .item _ t rest => t.meaning = (.word, upper k) ∧ rest.Spells ks
  | _ :: _, .done _ => False

theorem spells_of_afterPhrase? (h : s.afterPhrase? ks = some r) : s.Spells ks := by
  induction ks generalizing s with
  | nil => trivial
  | cons k ks ih =>
    cases s with
    | done => cases h
    | item g t rest =>
      rw [Stream.afterPhrase?] at h
      split at h
      · next ht => exact ⟨meaning_of_isKeyword ht, ih h⟩
      · cases h

theorem eq_tail_of_afterPhrase? (h : s.afterPhrase? ks = some r) :
    r = Stream.tail^[ks.length] s := by
  induction ks generalizing s with
  | nil => exact (Option.some.inj h).symm
  | cons k ks ih =>
    cases s with
    | done => cases h
    | item g t rest =>
      rw [Stream.afterPhrase?] at h
      split at h
      · exact ih h
      · cases h

theorem spells_iff (hR : ∀ t t', R t t' → t.meaning = t'.meaning) (hs : Pairwise R s s')
    (ks : List String) : s.Spells ks ↔ s'.Spells ks := by
  induction ks generalizing s s' with
  | nil => exact .rfl
  | cons k ks ih =>
    cases hs with
    | done => exact .rfl
    | item ht hs =>
      rw [Stream.Spells, Stream.Spells, hR _ _ ht]
      exact and_congr_right' (ih hs)

/-- Of two phrases that a stream begins with, one begins with the other. -/
theorem Stream.Spells.prefix_or (h : s.Spells ks) (h' : s.Spells ks') :
    ks.map upper <+: ks'.map upper ∨ ks'.map upper <+: ks.map upper := by
  induction ks generalizing s ks' with
  | nil => exact .inl (List.nil_prefix)
  | cons k ks ih =>
    cases ks' with
    | nil => exact .inr (List.nil_prefix)
    | cons k' ks' =>
      cases s with
      | done => exact h.elim
      | item g t rest =>
        have hk : upper k = upper k' := congrArg Prod.snd (h.1.symm.trans h'.1)
        simp only [List.map_cons, hk, List.cons_prefix_cons, true_and]
        exact ih h.2 h'.2

/-- The phrases that begin a constraint of a column, or go on with one that might also end. -/
def openings : List (List String) :=
  [["CONSTRAINT"], ["PRIMARY"], ["NOT", "NULL"], ["NULL"], ["UNIQUE"], ["CHECK"], ["DEFAULT"],
   ["COLLATE"], ["REFERENCES"], ["GENERATED"], ["AS"], ["ASC"], ["DESC"], ["ON", "CONFLICT"],
   ["AUTOINCREMENT"], ["STORED"], ["VIRTUAL"], ["ON", "DELETE"], ["ON", "UPDATE"], ["SET"], ["NO"],
   ["CASCADE"], ["RESTRICT"], ["MATCH"], ["NOT", "DEFERRABLE"], ["DEFERRABLE"], ["INITIALLY"]]

/-- No opening begins with another one. -/
theorem eq_of_prefix_of_mem_openings (hks : ks ∈ openings) (hks' : ks' ∈ openings)
    (h : ks.map upper <+: ks'.map upper) : ks = ks' := by
  have hupper : ∀ ks ∈ openings, ks.map upper = ks := by decide +kernel
  rw [hupper ks hks, hupper ks' hks'] at h
  have hprefix : ∀ ks ∈ openings, ∀ ks' ∈ openings, ks <+: ks' → ks = ks' := by decide +kernel
  exact hprefix ks hks ks' hks' h

/-- Whether a column may end before the token. -/
def endsColumn (t : Token) : Bool :=
  t.isPunct "," || t.isPunct ")"

theorem endsColumn_of_kind (h : t.kind ≠ .punctuation) : endsColumn t = false := by
  simp [endsColumn, Token.isPunct, h]

/-- No opening begins here, and no column ends here. -/
structure Stuck (s : Stream) : Prop where
  opening : ∀ ks ∈ openings, s.afterPhrase? ks = none
  ends : s.headIs endsColumn = false

/-- A reading that does not find an opening where there are words that compare equal to it is
    stuck. -/
theorem stuck_of_spells (hks : ks ∈ openings) (h : s.Spells ks) (hnone : s.afterPhrase? ks = none) :
    Stuck s := by
  constructor
  case opening =>
    intro ks' hks'
    by_contra hsome
    obtain ⟨r, hr⟩ := Option.ne_none_iff_exists'.1 hsome
    obtain rfl : ks = ks' := by
      rcases h.prefix_or (spells_of_afterPhrase? hr) with hprefix | hprefix
      · exact eq_of_prefix_of_mem_openings hks hks' hprefix
      · exact (eq_of_prefix_of_mem_openings hks' hks hprefix).symm
    exact hsome hnone
  case ends =>
    cases s with
    | done => rfl
    | item g t s =>
      cases ks with
      | nil => exact absurd hks (by decide)
      | cons k ks =>
        have hkind : t.kind = .word := congrArg Prod.fst h.1
        exact endsColumn_of_kind (by rw [hkind]; decide)

/-- Only words begin an opening. -/
theorem stuck_of_kind {g : Gap} (hword : t.kind ≠ .word) (hends : endsColumn t = false) :
    Stuck (.item g t s) where
  opening ks hks := by
    cases ks with
    | nil => exact absurd hks (by decide)
    | cons k ks => simp [Stream.afterPhrase?, Token.isKeyword, hword]
  ends := hends

/-! ## Rules in step -/

/-- Where both rules succeed on streams that agree, they find values in the relation `ρ` and leave
    streams that agree again, or one of them is stuck, and what it has found satisfies `τ`. -/
def InStep (R : Token → Token → Prop) (τ : α → Prop) (ρ : α → α → Prop) (p q : Parser α) : Prop :=
  ∀ s s' a b r r', Pairwise R s s' → p s = .ok (a, r) → q s' = .ok (b, r') →
    (ρ a b ∧ Pairwise R r r') ∨ (τ a ∧ Stuck r) ∨ (τ b ∧ Stuck r')

/-- Where the rule is stuck before, it is stuck after, and what it finds satisfies `τ`. -/
def Stays (τ : α → Prop) (p : Parser α) : Prop :=
  ∀ s a r, Stuck s → p s = .ok (a, r) → τ a ∧ Stuck r

variable {τ : α → Prop} {σ : β → Prop} {ρ : α → α → Prop} {ω : β → β → Prop}

theorem InStep.pure {a b : α} (h : ρ a b) : InStep R τ ρ (pure a) (pure b) := by
  intro s s' c d r r' hs hp hq
  cases hp
  cases hq
  exact .inl ⟨h, hs⟩

theorem InStep.bind {p q : Parser α} {k l : α → Parser β} (hp : InStep R τ ρ p q)
    (hk : ∀ a b, ρ a b → InStep R σ ω (k a) (l b)) (hstay : ∀ a, τ a → Stays σ (k a))
    (hstay' : ∀ b, τ b → Stays σ (l b)) : InStep R σ ω (p >>= k) (q >>= l) := by
  intro s s' c d r r' hs hpk hql
  obtain ⟨a, s₁, ha, hc⟩ := bind_eq_ok hpk
  obtain ⟨b, s₁', hb, hd⟩ := bind_eq_ok hql
  rcases hp s s' a b s₁ s₁' hs ha hb with ⟨hab, hs₁⟩ | ⟨hτ, hstuck⟩ | ⟨hτ, hstuck⟩
  · exact hk a b hab s₁ s₁' c d r r' hs₁ hc hd
  · exact .inr (.inl (hstay a hτ s₁ c r hstuck hc))
  · exact .inr (.inr (hstay' b hτ s₁' d r' hstuck hd))

/-- Nothing is stuck after the first rule. -/
theorem InStep.bind_exact {p q : Parser α} {k l : α → Parser β}
    (hp : InStep R (fun _ => False) ρ p q) (hk : ∀ a b, ρ a b → InStep R σ ω (k a) (l b)) :
    InStep R σ ω (p >>= k) (q >>= l) :=
  hp.bind hk (fun _ => False.elim) fun _ => False.elim

/-- Where neither rule can get stuck, both keep in step. -/
theorem InStep.exact {p q : Parser α} {a b : α} (hp : InStep R (fun _ => False) ρ p q)
    (hs : Pairwise R s s') (ha : p s = .ok (a, r)) (hb : q s' = .ok (b, r')) :
    ρ a b ∧ Pairwise R r r' := by
  obtain h | ⟨hF, -⟩ | ⟨hF, -⟩ := hp s s' a b r r' hs ha hb
  · exact h
  · exact hF.elim
  · exact hF.elim

theorem InStep.mono {p q : Parser α} {τ' : α → Prop} {ρ' : α → α → Prop}
    (hp : InStep R τ ρ p q) (hρ : ∀ a b, ρ a b → ρ' a b) (hτ : ∀ a, τ a → τ' a) :
    InStep R τ' ρ' p q :=
  fun s s' a b r r' hs ha hb => (hp s s' a b r r' hs ha hb).imp (.imp_left (hρ a b))
    (.imp (.imp_left (hτ a)) (.imp_left (hτ b)))

theorem Stays.mono {p : Parser α} {τ' : α → Prop} (hp : Stays τ p) (hτ : ∀ a, τ a → τ' a) :
    Stays τ' p :=
  fun s a r hs ha => (hp s a r hs ha).imp_left (hτ a)

theorem Stays.pure {a : α} (h : τ a) : Stays τ (pure a) := by
  intro s b r hs hb
  cases hb
  exact ⟨h, hs⟩

theorem Stays.bind {p : Parser α} {k : α → Parser β} (hp : Stays τ p)
    (hk : ∀ a, τ a → Stays σ (k a)) : Stays σ (p >>= k) := by
  intro s b r hs h
  obtain ⟨a, s₁, ha, hb⟩ := bind_eq_ok h
  obtain ⟨hτ, hs₁⟩ := hp s a s₁ hs ha
  exact hk a hτ s₁ b r hs₁ hb

theorem InStep.map {p : Parser α} {f : α → β} (hp : InStep R τ ρ p p)
    (hρ : ∀ a b, ρ a b → ω (f a) (f b)) (hτ : ∀ a, τ a → σ (f a)) :
    InStep R σ ω (do return f (← p)) (do return f (← p)) :=
  hp.bind (fun a b hab => .pure (hρ a b hab)) (fun a ha => .pure (hτ a ha))
    fun b hb => .pure (hτ b hb)

theorem inStep_fail_left (fault : Fault) (q : Parser α) : InStep R τ ρ (fail fault) q := by
  intro s s' a b r r' _ h
  cases h

theorem inStep_fail_right (fault : Fault) (p : Parser α) : InStep R τ ρ p (fail fault) := by
  intro s s' a b r r' _ _ h
  cases h

theorem stays_fail (fault : Fault) : Stays τ (fail fault : Parser α) := by
  intro s a r _ h
  cases h

/-- A choice by the value of a test on which both readings agree. -/
theorem InStep.ite_exact {p : Parser Bool} {k l : Parser α}
    (hp : InStep R (fun _ => False) Eq p p) (hk : InStep R τ ρ k k) (hl : InStep R τ ρ l l) :
    InStep R τ ρ (do if ← p then k else l) (do if ← p then k else l) :=
  hp.bind_exact fun a b hab => by subst hab; cases a <;> assumption

/-- Only where the rules succeed does it matter what they find. -/
theorem InStep.of_ok {p q : Parser α} (hp : InStep R τ ρ p p)
    (h : ∀ s x, q s = .ok x → p s = .ok x) : InStep R τ ρ q q :=
  fun s s' a b r r' hs ha hb => hp s s' a b r r' hs (h s _ ha) (h s' _ hb)

theorem Stays.of_ok {p q : Parser α} (hp : Stays τ p)
    (h : ∀ s x, q s = .ok x → p s = .ok x) : Stays τ q :=
  fun s a r hs ha => hp s a r hs (h s _ ha)

theorem InStep.spanned {p q : Parser α} (hp : InStep R τ ρ p q) :
    InStep R (fun x => τ x.1) (fun x y => ρ x.1 y.1) (spanned p) (spanned q) :=
  fun s s' _ _ r r' hs ha hb => hp s s' _ _ r r' hs (spanned_eq_ok ha).1 (spanned_eq_ok hb).1

theorem Stays.spanned {p : Parser α} (hp : Stays τ p) : Stays (fun x => τ x.1) (spanned p) :=
  fun s _ r hs h => hp s _ r hs (spanned_eq_ok h).1

/-- The rule keeps in step, and where it is stuck it finds what satisfies `τ`. -/
structure Tracks (R : Token → Token → Prop) (τ : α → Prop) (ρ : α → α → Prop) (p : Parser α) :
    Prop where
  inStep : InStep R (fun _ => True) ρ p p
  stays : Stays τ p

theorem Tracks.pure {a : α} (hρ : ρ a a) (hτ : τ a) : Tracks R τ ρ (pure a) :=
  ⟨.pure hρ, .pure hτ⟩

theorem tracks_fail (fault : Fault) : Tracks R τ ρ (fail fault : Parser α) :=
  ⟨inStep_fail_left fault _, stays_fail fault⟩

theorem Tracks.of_ok {p q : Parser α} (hp : Tracks R τ ρ p)
    (h : ∀ s x, q s = .ok x → p s = .ok x) : Tracks R τ ρ q :=
  ⟨hp.inStep.of_ok h, hp.stays.of_ok h⟩

theorem Tracks.map {p : Parser α} {f : α → β} (hp : Tracks R τ ρ p)
    (hρ : ∀ a b, ρ a b → ω (f a) (f b)) (hτ : ∀ a, τ a → σ (f a)) :
    Tracks R σ ω (do return f (← p)) :=
  ⟨hp.inStep.map hρ fun _ _ => trivial, hp.stays.bind fun a ha => .pure (hτ a ha)⟩

theorem Tracks.spanned {p : Parser α} (hp : Tracks R τ ρ p) :
    Tracks R (fun x => τ x.1) (fun x y => ρ x.1 y.1) (spanned p) :=
  ⟨hp.inStep.spanned, hp.stays.spanned⟩

/-! ### Repetitions -/

theorem exists_round {p : Parser (Round α)} {as : List α} (h : rounds p s = .ok (as, r)) :
    ∃ x r₁, p s = .ok (x, r₁) := by
  cases hp : p s with
  | error e => rw [rounds, hp] at h; cases h
  | ok x => exact ⟨x.1, x.2, rfl⟩

/-- Once a round is stuck, no other one finds anything. -/
theorem stuck_of_rounds {p : Parser (Round α)} {x : Round α} {as : List α} {r₁ : Stream}
    (hp : Stays (· = .stop) p) (hx : p s = .ok (x, r₁)) (hr₁ : Stuck r₁)
    (h : rounds p s = .ok (as, r)) : Stuck r := by
  rw [rounds, hx] at h
  cases x with
  | stop | last => cases h; exact hr₁
  | next a =>
    dsimp only at h
    split at h
    · split at h
      · cases h
      · next as' r' hrest =>
        cases h
        obtain ⟨y, r₂, hy⟩ := exists_round hrest
        obtain ⟨rfl, hr₂⟩ := hp r₁ y r₂ hr₁ hy
        rw [rounds, hy] at hrest
        cases hrest
        exact hr₂
    · cases h
      exact hr₁

theorem inStep_rounds {τ : Round α → Prop} {p : Parser (Round α)}
    (hp : InStep R τ (RoundMatches ρ) p p) (hstay : ∀ x, τ x → Stays (· = .stop) p) :
    InStep R (fun _ => ∃ x, τ x) (List.Forall₂ ρ) (rounds p) (rounds p) := by
  intro s s' as bs r r' hs h h'
  -- Along the rounds of the first repetition. The second one makes progress where the first does.
  induction hn : s.size using Nat.strongRecOn generalizing s s' as bs with
  | ind n ih =>
    obtain ⟨x, r₁, hx⟩ := exists_round h
    obtain ⟨y, r₁', hy⟩ := exists_round h'
    rcases hp s s' x y r₁ r₁' hs hx hy with ⟨hxy, hr₁⟩ | ⟨hτ, hstuck⟩ | ⟨hτ, hstuck⟩
    · rw [rounds, hx] at h
      rw [rounds, hy] at h'
      cases hxy with
      | stop =>
        cases h
        cases h'
        exact .inl ⟨.nil, hr₁⟩
      | last hab =>
        cases h
        cases h'
        exact .inl ⟨.cons hab .nil, hr₁⟩
      | next hab =>
        dsimp only at h h'
        rw [← hr₁.size_eq, ← hs.size_eq] at h'
        split at h
        · next hlt =>
          rw [if_pos hlt] at h'
          split at h
          · cases h
          next hrest =>
          split at h'
          · cases h'
          next hrest' =>
          cases h
          cases h'
          exact (ih r₁.size (hn ▸ hlt) r₁ r₁' _ _ hr₁ hrest hrest' rfl).imp_left
            fun ⟨hrest, hr⟩ => ⟨.cons hab hrest, hr⟩
        · next hlt =>
          rw [if_neg hlt] at h'
          cases h
          cases h'
          exact .inl ⟨.cons hab .nil, hr₁⟩
    · exact .inr (.inl ⟨⟨x, hτ⟩, stuck_of_rounds (hstay x hτ) hx hstuck h⟩)
    · exact .inr (.inr ⟨⟨y, hτ⟩, stuck_of_rounds (hstay y hτ) hy hstuck h'⟩)

theorem stays_round {p : Parser (Option α)} {k : Option α → Parser (Round α)}
    (hp : Stays (· = none) p) (hk : k none = pure .stop) : Stays (· = Round.stop) (p >>= k) :=
  hp.bind fun a ha => by
    rw [ha, hk]
    exact .pure rfl

/-- A rule that finds nothing where it is stuck, again and again. -/
theorem Tracks.many {p : Parser (Option α)} (hp : Tracks R (· = none) (Option.Rel ρ) p) :
    Tracks R (fun _ => True) (List.Forall₂ ρ) (many p) := by
  constructor
  case inStep =>
    refine (inStep_rounds (τ := fun _ => True) (hp.inStep.bind (fun a b hab => ?_)
      (fun a _ => ?_) fun b _ => ?_) fun _ _ => stays_round hp.stays rfl).mono (fun _ _ h => h)
      fun _ _ => trivial
    · cases hab with
      | some hab => exact .pure (.next hab)
      | none => exact .pure .stop
    · cases a <;> exact .pure trivial
    · cases b <;> exact .pure trivial
  case stays =>
    intro s as r hs h
    obtain ⟨x, r₁, hx⟩ := exists_round h
    have hstop := stays_round hp.stays rfl s x r₁ hs hx
    exact ⟨trivial, stuck_of_rounds (stays_round hp.stays rfl) hx hstop.2 h⟩

/-! ## Words and marks -/

/-- Where the rule succeeds, it has read one token. -/
def TakesOne (p : Parser α) : Prop :=
  ∀ s a r, p s = .ok (a, r) → r = s.tail

theorem TakesOne.inStep {p : Parser α} (hp : TakesOne p) : InStep R τ (fun _ _ => True) p p := by
  intro s s' a b r r' hs ha hb
  rw [hp s a r ha, hp s' b r' hb]
  exact .inl ⟨trivial, hs.tail 1⟩

theorem takesOne_expectPunct (mark : String) (fault : Fault) :
    TakesOne (expectPunct mark fault) := by
  intro s u r h
  obtain ⟨g, t, -, rfl⟩ := expectPunct_eq_ok h
  rfl

theorem phrase?_eq_ok {b : Bool} (h : phrase? ks s = .ok (b, r)) :
    (b = true ∧ s.afterPhrase? ks = some r) ∨ (b = false ∧ r = s ∧ s.afterPhrase? ks = none) := by
  simp only [phrase?] at h
  split at h
  · next hks => cases h; exact .inl ⟨rfl, hks⟩
  · next hks => cases h; exact .inr ⟨rfl, rfl, hks⟩

theorem expectKeyword_eq_ok {fault : Fault} {u : Unit} (h : expectKeyword k fault s = .ok (u, r)) :
    s.afterPhrase? [k] = some r := by
  obtain ⟨b, s₁, hb, h'⟩ := bind_eq_ok h
  obtain ⟨rfl, hk⟩ | ⟨rfl, -, -⟩ := phrase?_eq_ok hb
  · cases h'
    exact hk
  · cases h'

theorem takesOne_expectKeyword (k : String) (fault : Fault) :
    TakesOne (expectKeyword k fault) :=
  fun _ _ _ h => eq_tail_of_afterPhrase? (expectKeyword_eq_ok h)

theorem expectName_eq_ok {fault : Fault} {name : String} (h : expectName fault s = .ok (name, r)) :
    ∃ g t, s = .item g t r ∧ t.name? = some name := by
  obtain ⟨_ | name', s₁, hname, h₁⟩ := bind_eq_ok h <;> cases h₁
  cases s with
  | done => cases hname
  | item g t s =>
    simp only [name?] at hname
    split at hname
    · next ht =>
      cases hname
      exact ⟨g, t, rfl, ht⟩
    · cases hname

theorem takesOne_expectName (fault : Fault) : TakesOne (expectName fault) := by
  intro s a r h
  obtain ⟨g, t, rfl, -⟩ := expectName_eq_ok h
  rfl

theorem choose_eq_ok {choices : List (List String × α)} {o : Option α}
    (h : choose choices s = .ok (o, r)) :
    (o = none ∧ r = s ∧ ∀ c ∈ choices, s.afterPhrase? c.1 = none) ∨
      ∃ c ∈ choices, o = some c.2 ∧ s.afterPhrase? c.1 = some r := by
  induction choices with
  | nil => cases h; exact .inl ⟨rfl, rfl, nofun⟩
  | cons c choices ih =>
    obtain ⟨b, s₁, hb, h'⟩ := bind_eq_ok h
    obtain ⟨rfl, hk⟩ | ⟨rfl, rfl, hk⟩ := phrase?_eq_ok hb
    · cases h'
      exact .inr ⟨c, List.mem_cons_self, rfl, hk⟩
    · rcases ih h' with ⟨rfl, rfl, hnone⟩ | ⟨c', hc', ho, hr⟩
      · exact .inl ⟨rfl, rfl, List.forall_mem_cons.2 ⟨hk, hnone⟩⟩
      · exact .inr ⟨c', List.mem_cons_of_mem _ hc', ho, hr⟩

/-- One of several words has to come next. -/
theorem takesOne_choose {choices : List (List String × α)} {k : Option α → Parser β}
    (hlen : ∀ c ∈ choices, c.1.length = 1) (hnone : ∃ fault, k none = fail fault)
    (hsome : ∀ a, ∃ b, k (some a) = pure b) : TakesOne (choose choices >>= k) := by
  intro s b r h
  obtain ⟨o, s₁, ho, h'⟩ := bind_eq_ok h
  obtain ⟨rfl, -, -⟩ | ⟨c, hc, rfl, hr⟩ := choose_eq_ok ho
  · obtain ⟨fault, hk⟩ := hnone
    rw [hk] at h'
    cases h'
  · obtain ⟨b', hk⟩ := hsome c.2
    rw [hk] at h'
    cases h'
    rw [eq_tail_of_afterPhrase? hr, hlen c hc]
    rfl

theorem inStep_nextIs {p : Token → Bool} (hp : ∀ t t', R t t' → p t = p t') :
    InStep R (fun _ => False) Eq (nextIs p) (nextIs p) := by
  intro s s' a b r r' hs ha hb
  cases ha
  cases hb
  exact .inl ⟨hs.headIs_eq hp, hs⟩

theorem stays_phrase? (hks : ks ∈ openings) : Stays (· = false) (phrase? ks) := by
  intro s b r hs h
  obtain ⟨-, hk⟩ | ⟨rfl, rfl, -⟩ := phrase?_eq_ok h
  · rw [hs.opening ks hks] at hk
    cases hk
  · exact ⟨rfl, hs⟩

theorem stays_choose {choices : List (List String × α)} (h : ∀ c ∈ choices, c.1 ∈ openings) :
    Stays (· = none) (choose choices) := by
  induction choices with
  | nil => exact .pure rfl
  | cons c choices ih =>
    obtain ⟨hc, hchoices⟩ := List.forall_mem_cons.1 h
    exact (stays_phrase? hc).bind fun b hb => by subst hb; exact ih hchoices

theorem afterPhrase?_append (s : Stream) (ks ks' : List String) :
    s.afterPhrase? (ks ++ ks') = (s.afterPhrase? ks).bind (·.afterPhrase? ks') := by
  induction ks generalizing s with
  | nil => rfl
  | cons k ks ih =>
    cases s with
    | done => rfl
    | item g t rest =>
      simp only [List.cons_append, Stream.afterPhrase?]
      split
      · exact ih rest
      · rfl

/-- A word that has to follow a phrase is as good as a longer phrase. -/
theorem phrase?_concat {p q : Parser α} {fault : Fault} {x : α × Stream}
    (h : (do if ← phrase? ks then expectKeyword k fault; p else q) s = .ok x) :
    (do if ← phrase? (ks ++ [k]) then p else q) s = .ok x := by
  have happend := afterPhrase?_append s ks [k]
  obtain ⟨b, s₁, hb, h'⟩ := bind_eq_ok h
  obtain ⟨rfl, hks⟩ | ⟨rfl, rfl, hks⟩ := phrase?_eq_ok hb
  · obtain ⟨u, s₂, hu, h''⟩ := bind_eq_ok h'
    rw [hks, Option.bind_some, expectKeyword_eq_ok hu] at happend
    simp only [run_bind, phrase?, happend]
    exact h''
  · rw [hks, Option.bind_none] at happend
    simp only [run_bind, phrase?, happend]
    exact h'

section

variable (hR : ∀ t t', R t t' → t.meaning = t'.meaning)
include hR

theorem inStep_phrase? (hks : ks ∈ openings) :
    InStep R (· = false) Eq (phrase? ks) (phrase? ks) := by
  intro s s' a b r r' hs ha hb
  have hspells := spells_iff hR hs ks
  obtain ⟨rfl, h⟩ | ⟨rfl, rfl, h⟩ := phrase?_eq_ok ha <;>
    obtain ⟨rfl, h'⟩ | ⟨rfl, rfl, h'⟩ := phrase?_eq_ok hb
  · rw [eq_tail_of_afterPhrase? h, eq_tail_of_afterPhrase? h']
    exact .inl ⟨rfl, hs.tail _⟩
  · exact .inr (.inr ⟨rfl, stuck_of_spells hks (hspells.1 (spells_of_afterPhrase? h)) h'⟩)
  · exact .inr (.inl ⟨rfl, stuck_of_spells hks (hspells.2 (spells_of_afterPhrase? h')) h⟩)
  · exact .inl ⟨rfl, hs⟩

theorem inStep_choose {choices : List (List String × α)} (h : ∀ c ∈ choices, c.1 ∈ openings) :
    InStep R (· = none) Eq (choose choices) (choose choices) := by
  induction choices with
  | nil => exact .pure rfl
  | cons c choices ih =>
    obtain ⟨hc, hchoices⟩ := List.forall_mem_cons.1 h
    have hstay : Stays (· = none) (choose choices) := stays_choose hchoices
    refine (inStep_phrase? hR hc).bind (fun b b' hb => ?_) (fun b hb => ?_) fun b hb => ?_
    · subst hb
      cases b
      · exact ih hchoices
      · exact .pure rfl
    · subst hb
      exact hstay
    · subst hb
      exact hstay

/-- What an opening may begin, or something else. -/
theorem Tracks.ite {k l : Parser α} (hks : ks ∈ openings) (hk : InStep R (fun _ => True) ρ k k)
    (hl : Tracks R τ ρ l) : Tracks R τ ρ (do if ← phrase? ks then k else l) := by
  have hstay : Stays (fun _ => True) l := hl.stays.mono fun _ _ => trivial
  constructor
  case inStep =>
    refine (inStep_phrase? hR hks).bind (fun b b' hb => ?_) (fun b hb => ?_) fun b hb => ?_
    · subst hb
      cases b
      · exact hl.inStep
      · exact hk
    · subst hb
      exact hstay
    · subst hb
      exact hstay
  case stays => exact (stays_phrase? hks).bind fun b hb => by subst hb; exact hl.stays

/-- What one of several openings may begin, or something else. -/
theorem Tracks.bind_choose {choices : List (List String × α)} {k : Option α → Parser β}
    (h : ∀ c ∈ choices, c.1 ∈ openings)
    (hsome : ∀ a, InStep R (fun _ => True) ω (k (some a)) (k (some a)))
    (hnone : Tracks R σ ω (k none)) : Tracks R σ ω (choose choices >>= k) := by
  have hstay : Stays (fun _ => True) (k none) := hnone.stays.mono fun _ _ => trivial
  constructor
  case inStep =>
    refine (inStep_choose hR h).bind (fun a a' ha => ?_) (fun a ha => ?_) fun a ha => ?_
    · subst ha
      cases a
      · exact hnone.inStep
      · exact hsome _
    · subst ha
      exact hstay
    · subst ha
      exact hstay
  case stays => exact (stays_choose h).bind fun a ha => by subst ha; exact hnone.stays

theorem inStep_punct? (mark : String) :
    InStep R (fun _ => False) Eq (punct? mark) (punct? mark) := by
  intro s s' a b r r' hs ha hb
  have hhead := hs.headIs_eq fun t t' ht => isPunct_eq_of_meaning (hR t t' ht) mark
  obtain ⟨rfl, g, t, ht, rfl⟩ | ⟨rfl, rfl, h⟩ := punct?_eq_ok ha <;>
    obtain ⟨rfl, g', t', ht', rfl⟩ | ⟨rfl, rfl, h'⟩ := punct?_eq_ok hb
  · exact .inl ⟨rfl, hs.tail 1⟩
  · rw [h'] at hhead
    exact absurd (ht.symm.trans hhead) (by decide)
  · rw [h] at hhead
    exact absurd (ht'.symm.trans hhead.symm) (by decide)
  · exact .inl ⟨rfl, hs⟩

theorem inStep_commaSeparated {p : Parser α} (hp : InStep R (fun _ => False) ρ p p) :
    InStep R (fun _ => False) (List.Forall₂ ρ) (commaSeparated p) (commaSeparated p) := by
  refine (inStep_rounds (τ := fun _ => False) (hp.bind_exact fun a b hab =>
    (inStep_punct? hR _).bind_exact fun comma comma' hcomma => ?_) fun _ => False.elim).mono
    (fun _ _ h => h) fun _ ⟨_, h⟩ => h
  subst hcomma
  cases comma
  · exact .pure (.last hab)
  · exact .pure (.next hab)

theorem inStep_name? : InStep R (fun _ => False)
    (Option.Rel fun a b => upper a = upper b) name? name? := by
  intro s s' a b r r' hs ha hb
  cases hs with
  | done =>
    cases ha
    cases hb
    exact .inl ⟨.none, .done⟩
  | item ht hs =>
    have hname := name?_of_meaning (hR _ _ ht)
    simp only [name?] at ha hb
    generalize Token.name? _ = o at ha hname
    generalize Token.name? _ = o' at hb hname
    cases hname with
    | some hab =>
      cases ha
      cases hb
      exact .inl ⟨.some hab, hs⟩
    | none =>
      cases ha
      cases hb
      exact .inl ⟨.none, .item ht hs⟩

end

end SchemaAlign.Parser
