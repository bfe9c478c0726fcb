import SchemaAlign.Proofs.Parser.Grammar.Follow
import SchemaAlign.Proofs.Parser.Insertion.Text
import SchemaAlign.Proofs.Source

/-!
# Blanks and comments make no difference

A blank or a comment may be put in wherever no kept text is taken apart. The statements stay the
same, and their spans are those of the same tokens in the longer list.

* `Statement.Clear`: the places where no kept text is taken apart;
* `readsRule_rule?`, `moves_constraint?`, `moves_column?`: the parts of a table;
* `moves_statement`: one statement;
* `parse_insert`: all statements of a list of tokens.
-/

namespace SchemaAlign

/-! ## Places for a blank or a comment -/

/-- Whether tokens of the span stand on both sides of the place before the position `k`. -/
def Span.splitBy (k : Nat) (s : Span) : Bool :=
  decide (s.start < k) && decide (k < s.stop)

theorem Span.splitBy_eq_false {k : Nat} {s : Span} :
    s.splitBy k = false ↔ k ≤ s.start ∨ s.stop ≤ k := by
  simp only [splitBy, Bool.and_eq_false_iff, decide_eq_false_iff_not, Nat.not_lt]

/-- Whether the rule keeps a text of its own, with the blanks and comments in it. -/
def Rule.keepsText : Rule → Bool
  | check _ | defaultsTo _ | generated _ _ => true
  | _ => false

/-- The place splits neither the type of the column nor a constraint that keeps a text. -/
structure Column.Clear (k : Nat) (c : Column) : Prop where
  type : ∀ ty ∈ c.type, ty.span.splitBy k = false
  constraints : ∀ x ∈ c.constraints, x.rule.keepsText = true → x.span.splitBy k = false

/-- The place splits no type of a column and no constraint that keeps a text. -/
def Statement.Clear (k : Nat) : Statement → Prop
  | createTable table => ∀ c ∈ table.columns, c.Clear k
  | other _ _ => True

instance (k : Nat) (c : Column) : Decidable (c.Clear k) :=
  decidable_of_iff ((∀ ty ∈ c.type, ty.span.splitBy k = false) ∧
    ∀ x ∈ c.constraints, x.rule.keepsText = true → x.span.splitBy k = false)
    ⟨fun h => ⟨h.1, h.2⟩, fun h => ⟨h.type, h.constraints⟩⟩

instance (k : Nat) (st : Statement) : Decidable (st.Clear k) :=
  match st with
  | .createTable table => inferInstanceAs (Decidable (∀ c ∈ table.columns, c.Clear k))
  | .other _ _ => inferInstanceAs (Decidable True)

namespace Parser

open SchemaAlign.Parser.Stream (On Rest ofTokens)
open SchemaAlign.Parser.Grammar (run_bind_eq)

variable {α β : Type} {s r : Stream} {k d : Nat} {t w : Token} {tokens us vs : List Token}

/-! ## Rules -/

/-- The parser reads a rule wherever the token is put in, but for a place inside a rule that keeps
    a text. -/
def ReadsRule (k : Nat) (w : Token) (p : Parser (Option Rule)) : Prop :=
  ∀ tokens s x r, On tokens s → p s = .ok (x, r) →
    (∀ a ∈ x, a.keepsText = true → k ≤ s.gap.stop ∨ r.gap.start ≤ k) →
    p (s.insert k w) = .ok (x, r.insert k w)

theorem ReadsRule.of_blind {p : Parser (Option Rule)} (hp : Blind p) : ReadsRule k w p :=
  fun _ _ _ _ _ h _ => hp.insert h

/-- A keyword and the rule that it introduces, or else another rule. -/
theorem ReadsRule.keyword {keyword : String} {p q : Parser (Option Rule)} (hp : Blind p)
    (hq : ReadsRule k w q) : ReadsRule k w (do if ← keyword? keyword then p else q) := by
  intro tokens s x r hs h hk
  obtain ⟨b, s₁, hb, h₁⟩ := bind_eq_ok h
  refine run_bind_eq ((blind_keyword? _).insert hb) ?_
  obtain ⟨rfl, -⟩ | ⟨rfl, rfl⟩ := keyword?_eq_ok hb
  · exact hp.insert h₁
  · exact hq _ _ _ _ hs h₁ hk

/-- The parser gives a rule that keeps a text. -/
def GivesText (p : Parser (Option Rule)) : Prop :=
  ∀ s x r, p s = .ok (x, r) → ∃ a, x = some a ∧ a.keepsText = true

theorem givesText_map {p : Parser α} {f : α → Rule} (hf : ∀ a, (f a).keepsText = true) :
    GivesText (do return some (f (← p))) := by
  intro s x r h
  obtain ⟨a, s₁, -, h₁⟩ := bind_eq_ok h
  cases h₁
  exact ⟨f a, rfl, hf a⟩

theorem GivesText.bind {p : Parser α} {f : α → Parser (Option Rule)}
    (hf : ∀ a, GivesText (f a)) : GivesText (p >>= f) := by
  intro s x r h
  obtain ⟨a, s₁, -, h₁⟩ := bind_eq_ok h
  exact hf a _ _ _ h₁

theorem givesText_generated : GivesText (do return some (← generated)) := by
  intro s x r h
  obtain ⟨a, s₁, ha, h₁⟩ := bind_eq_ok h
  obtain ⟨expr, s₂, -, h₂⟩ := bind_eq_ok ha
  obtain ⟨storage, s₃, -, h₃⟩ := bind_eq_ok h₂
  cases h₁
  cases h₃
  exact ⟨_, rfl, rfl⟩

/-- A keyword and a rule that keeps a text, which stands behind the keyword, or else another
    rule. -/
theorem ReadsRule.keyword_text {keyword : String} {p q : Parser (Option Rule)} (hp : Local k w p)
    (htext : GivesText p) (hq : ReadsRule k w q) :
    ReadsRule k w (do if ← keyword? keyword then p else q) := by
  intro tokens s x r hs h hk
  obtain ⟨b, s₁, hb, h₁⟩ := bind_eq_ok h
  refine run_bind_eq ((blind_keyword? _).insert hb) ?_
  have hforward := forward_keyword? _ _ _ _ hb
  obtain ⟨rfl, hlt⟩ | ⟨rfl, rfl⟩ := keyword?_eq_ok hb
  · obtain ⟨a, rfl, ha⟩ := htext _ _ _ h₁
    have hplace := hk a rfl ha
    have hstop := hs.stop_lt hforward hlt
    exact hp.insert _ _ _ _ (hs.rest hforward) h₁ (by omega)
  · exact hq _ _ _ _ hs h₁ hk

theorem readsRule_rule? : ReadsRule k w rule? := by
  have conflict (f : Option Conflict → Rule) : Blind (do return some (f (← conflict?))) :=
    blind_conflict?.bind fun _ => .pure
  have word (l : String) (fault : Fault) : Local k w (expectKeyword l fault) :=
    .of_blind (blind_expectKeyword l fault) (forward_expectKeyword l fault)
  refine .keyword ?primary (.keyword ?notNull (.keyword (conflict .null)
    (.keyword (conflict .unique) (.keyword_text ?check ?checkText
    (.keyword_text ?default ?defaultText (.keyword ?collate (.keyword ?references
    (.keyword_text ?generated ?generatedText (.keyword_text ?as ?asText (.of_blind .pure))))))))))
  case primary => exact blind_primaryKey.bind fun _ => .pure
  case notNull => exact (blind_expectKeyword _ _).bind fun _ => conflict .notNull
  case check => exact local_parenthesized.map
  case checkText => exact givesText_map fun _ => rfl
  case default => exact local_defaultValue.map
  case defaultText => exact givesText_map fun _ => rfl
  case collate => exact (blind_expectName _).bind fun _ => .pure
  case references => exact blind_foreignKey.bind fun _ => .pure
  case generated => exact (word _ _).bind fun _ => (word _ _).bind fun _ => local_generated.map
  case generatedText => exact .bind fun _ => .bind fun _ => givesText_generated
  case as => exact local_generated.map
  case asText => exact givesText_generated

/-! ## Parts with spans -/

/-- The parser reads the same when the token is put in, as far as `C` allows it: what it gives is
    moved by `f`. -/
structure Moves (k : Nat) (w : Token) (C : α → Prop) (f : α → α) (p : Parser α) : Prop where
  forward : Forward p
  insert : ∀ tokens s a r, On tokens s → p s = .ok (a, r) → C a →
    p (s.insert k w) = .ok (f a, r.insert k w)

theorem spanned_insert {p : Parser α} {a : α} (h : p (s.insert k w) = .ok (a, r.insert k w)) :
    spanned p (s.insert k w) =
      .ok ((a, Span.insert k ⟨s.gap.stop, r.gap.start⟩), r.insert k w) := by
  simp only [spanned, run_bind, run_get, run_pure, h, span_insert]

/-- The round with another value. -/
def Round.map (f : α → β) : Round α → Round β
  | stop => stop
  | last a => last (f a)
  | next a => next (f a)

/-- The value of the round, if there is one. -/
def Round.value? : Round α → Option α
  | stop => none
  | last a | next a => some a

theorem Moves.rounds {C : α → Prop} {f : α → α} {p : Parser (Round α)}
    (hp : Moves k w (fun x => ∀ a ∈ x.value?, C a) (Round.map f) p) :
    Moves k w (fun as => ∀ a ∈ as, C a) (List.map f) (rounds p) := by
  refine ⟨hp.forward.rounds, fun tokens s as r hs h hC => ?_⟩
  -- A blank is no item, so the same rounds make progress.
  have size (q : Stream) : (q.insert k w).size = q.size := Stream.size_mapGap q
  fun_induction Parser.rounds p s generalizing as with
  | case1 => cases h
  | case2 s rest hr =>
    cases h
    rw [Parser.rounds, hp.insert _ _ _ _ hs hr (by simp [Round.value?])]
    rfl
  | case3 s a rest hr =>
    cases h
    rw [Parser.rounds, hp.insert _ _ _ _ hs hr (by simpa [Round.value?] using hC)]
    rfl
  | case4 => cases h
  | case5 s a rest hr hlt as rest' hrs ih =>
    cases h
    obtain ⟨ha, hC⟩ := List.forall_mem_cons.1 hC
    rw [Parser.rounds, hp.insert _ _ _ _ hs hr (by simpa [Round.value?] using ha)]
    simp only [Round.map, size, hlt, if_true, ih _ (hs.rest (hp.forward _ _ _ hr)) hrs hC,
      List.map_cons]
  | case6 s a rest hr hlt =>
    cases h
    rw [Parser.rounds, hp.insert _ _ _ _ hs hr (by simpa [Round.value?] using hC)]
    simp only [Round.map, size, hlt, if_false, List.map_cons, List.map_nil]

theorem Moves.many {C : α → Prop} {f : α → α} {p : Parser (Option α)}
    (hp : Moves k w (fun x => ∀ a ∈ x, C a) (Option.map f) p) :
    Moves k w (fun as => ∀ a ∈ as, C a) (List.map f) (many p) := by
  refine Moves.rounds ⟨hp.forward.bind_option .pure fun _ => .pure, fun tokens s x r hs h hC => ?_⟩
  obtain ⟨o, s₁, ho, h₁⟩ := bind_eq_ok h
  cases o with
  | none =>
    cases h₁
    exact run_bind_eq (hp.insert _ _ _ _ hs ho nofun) rfl
  | some a =>
    cases h₁
    exact run_bind_eq (hp.insert _ _ _ _ hs ho (by simpa [Round.value?] using hC)) rfl

/-! ## Columns -/

theorem moves_constraint? : Moves k w
    (fun x => ∀ c ∈ x, c.rule.keepsText = true → c.span.splitBy k = false)
    (Option.map (·.mapSpan (Span.insert k))) constraint? := by
  refine ⟨forward_constraint?, fun tokens s x r hs h hclear => ?_⟩
  obtain ⟨⟨⟨name, rule⟩, span⟩, s₁, hspanned, h₁⟩ := bind_eq_ok h
  obtain ⟨hparts, hspan⟩ := spanned_eq_ok hspanned
  obtain ⟨name', s₂, hname, h₂⟩ := bind_eq_ok hparts
  obtain ⟨rule', s₃, hrule, h₃⟩ := bind_eq_ok h₂
  dsimp only at hspan
  split at h₃
  · cases h₃
  next hcond =>
  cases h₃
  cases h₁
  subst hspan
  have hforward := forward_constraintName? _ _ _ hname
  -- The place does not split a rule that keeps its text.
  have hrule' : rule? (s₂.insert k w) = .ok (rule, r.insert k w) := by
    refine readsRule_rule? _ _ _ _ (hs.rest hforward) hrule fun a ha htext => ?_
    subst ha
    have hsplit := Span.splitBy_eq_false.1 (hclear _ rfl htext)
    exact hsplit.imp_left fun h => Nat.le_trans h (hs.stop_le hforward)
  refine run_bind_eq (spanned_insert (r := r) (a := (name, rule)) ?_) ?_
  · refine run_bind_eq (blind_constraintName?.insert hname) (run_bind_eq hrule' ?_)
    rw [if_neg hcond]
    rfl
  · cases rule <;> rfl

theorem size_of_typeWords {words : List String} (h : typeWords s = .ok (words, r))
    (hwords : ¬ words.isEmpty = true) : r.size < s.size := by
  cases h
  have hsize := size_cutWhile (fun t => t.kind == .word && !isOneOf columnConstraintKeywords t) s
  rw [List.isEmpty_iff_length_eq_zero, List.length_map] at hwords
  omega

theorem moves_typeName? : Moves k w (fun x => ∀ ty ∈ x, ty.span.splitBy k = false)
    (Option.map (·.mapSpan (Span.insert k))) typeName? := by
  refine ⟨forward_typeName?, fun tokens s x r hs h hclear => ?_⟩
  obtain ⟨⟨⟨words, first, second⟩, span⟩, s₁, hspanned, h₁⟩ := bind_eq_ok h
  obtain ⟨hparts, hspan⟩ := spanned_eq_ok hspanned
  obtain ⟨words', s₂, hwords, h₂⟩ := bind_eq_ok hparts
  dsimp only at hspan
  cases h₁
  subst hspan
  refine run_bind_eq (spanned_insert (r := r) (a := (words, first, second)) ?_) ?_
  · refine run_bind_eq (blind_typeWords.insert hwords) ?_
    split at h₂
    · next hempty =>
      cases h₂
      rw [if_pos hempty]
      rfl
    · next hempty =>
      obtain ⟨args, s₃, hargs, h₃⟩ := bind_eq_ok h₂
      cases h₃
      rw [if_neg hempty] at hclear ⊢
      have hforward : Rest s s₂ := forward_typeWords _ _ _ hwords
      refine run_bind_eq (local_typeArguments.insert _ _ _ _ (hs.rest hforward) hargs ?_) rfl
      -- The place does not split the type, so it is not among the arguments, which keep their text.
      have hsplit := Span.splitBy_eq_false.1 (hclear _ rfl)
      have hstop := hs.stop_lt hforward (size_of_typeWords hwords hempty)
      dsimp only at hsplit
      omega
  · cases words <;> rfl

theorem moves_column? : Moves k w (fun x => ∀ c ∈ x, c.Clear k)
    (Option.map (·.mapSpan (Span.insert k))) column? := by
  refine ⟨forward_column?, fun tokens s x r hs h hclear => ?_⟩
  obtain ⟨b, s₀, hnext, h₀⟩ := bind_eq_ok h
  refine run_bind_eq ((blind_nextIs _).insert hnext) ?_
  cases hnext
  split at h₀
  · next hword =>
    cases h₀
    rw [if_pos hword]
    rfl
  next hword =>
  rw [if_neg hword]
  obtain ⟨⟨found, span⟩, s₁, hspanned, h₁⟩ := bind_eq_ok h₀
  obtain ⟨hparts, hspan⟩ := spanned_eq_ok hspanned
  dsimp only at hspan
  subst hspan
  obtain ⟨_ | name, s₂, hname, h₂⟩ := bind_eq_ok hparts
  · cases h₂
    cases h₁
    exact run_bind_eq (spanned_insert (r := r) (run_bind_eq (blind_name?.insert hname) rfl)) rfl
  obtain ⟨type, s₃, htype, h₃⟩ := bind_eq_ok h₂
  obtain ⟨constraints, s₄, hconstraints, h₄⟩ := bind_eq_ok h₃
  cases h₄
  cases h₁
  have hc := hclear _ rfl
  have hs₂ := hs.rest (forward_name? _ _ _ hname)
  have hs₃ := hs₂.rest (forward_typeName? _ _ _ htype)
  -- The name, the type and the constraints, one after the other.
  have hname' := blind_name?.insert (k := k) (w := w) hname
  have htype' := moves_typeName?.insert (k := k) (w := w) _ _ _ _ hs₂ htype hc.type
  have hconstraints' :=
    (moves_constraint? (k := k) (w := w)).many.insert _ _ _ _ hs₃ hconstraints hc.constraints
  refine run_bind_eq (spanned_insert (r := r) (run_bind_eq hname' (run_bind_eq htype'
    (run_bind_eq hconstraints' rfl)))) rfl

theorem moves_columns : Moves k w (fun cs => ∀ c ∈ cs, c.Clear k)
    (List.map (·.mapSpan (Span.insert k))) columns := by
  refine ⟨forward_columns, fun tokens s cs r hs h hclear => ?_⟩
  obtain ⟨cs', s₁, hrounds, h₁⟩ := bind_eq_ok h
  obtain ⟨⟨⟩, s₂, hclose, h₂⟩ := bind_eq_ok h₁
  cases h₂
  refine run_bind_eq ((Moves.rounds ⟨?forward, ?round⟩).insert _ _ _ _ hs hrounds hclear)
    (run_bind_eq ((blind_expectPunct _ _).insert hclose) rfl)
  case forward =>
    exact forward_column?.bind_option .pure fun column => (forward_punct? _).ite .pure .pure
  case round =>
    intro tokens s x r hs h hclear
    obtain ⟨_ | c, s₁, hc, h₁⟩ := bind_eq_ok h
    · cases h₁
      exact run_bind_eq (moves_column?.insert _ _ _ _ hs hc nofun) rfl
    obtain ⟨b, s₂, hcomma, h₂⟩ := bind_eq_ok h₁
    have hcomma' := (blind_punct? ",").insert (k := k) (w := w) hcomma
    have hc' (h : c.Clear k) := moves_column?.insert (k := k) (w := w) _ _ _ _ hs hc (by simpa)
    cases b <;> cases h₂
    · exact run_bind_eq (hc' (by simpa [Round.value?] using hclear)) (run_bind_eq hcomma' rfl)
    · exact run_bind_eq (hc' (by simpa [Round.value?] using hclear)) (run_bind_eq hcomma' rfl)

/-! ## Options -/

theorem moves_tableOption? : Moves k w (fun _ => True) (Option.map (·.mapSpan (Span.insert k)))
    tableOption? := by
  refine ⟨finding_tableOption?.forward, fun tokens s x r hs h _ => ?_⟩
  obtain ⟨⟨kind, span⟩, s₁, hspanned, h₁⟩ := bind_eq_ok h
  obtain ⟨hkind, hspan⟩ := spanned_eq_ok hspanned
  dsimp only at hspan hkind
  cases h₁
  subst hspan
  refine run_bind_eq (spanned_insert (r := r) (Blind.insert ?_ hkind)) (by cases kind <;> rfl)
  refine (blind_keyword? _).ite ?_ ((blind_keyword? _).ite .pure .pure)
  exact (blind_expectKeyword _ _).bind fun _ => .pure

theorem moves_tableOptions : Moves k w (fun _ => True) (List.map (·.mapSpan (Span.insert k)))
    tableOptions := by
  have option : Moves k w (fun x => ∀ o ∈ x, True) (Option.map (·.mapSpan (Span.insert k)))
      nextOption? := by
    refine ⟨forward_nextOption?, fun tokens s x r hs h _ => ?_⟩
    have hbarrier : (s.insert k w).isBarrier = s.isBarrier := by
      rw [Stream.isBarrier, Stream.isBarrier, Stream.insert, Stream.head?_mapGap]
    rw [nextOption?_eq] at h ⊢
    rw [hbarrier]
    split at h
    · next hB =>
      cases h
      rw [if_pos hB]
      rfl
    next hB =>
    rw [if_neg hB]
    obtain ⟨o, s₁, ho, h₁⟩ := bind_eq_ok h
    cases h₁
    obtain ⟨_ | o', s₂, ho', h₂⟩ := bind_eq_ok ho
    · cases h₂
    obtain ⟨b, s₃, hcomma, h₃⟩ := bind_eq_ok h₂
    cases h₃
    refine run_bind_eq (run_bind_eq (moves_tableOption?.insert _ _ _ _ hs ho' trivial) ?_) rfl
    exact run_bind_eq ((blind_punct? _).insert hcomma) rfl
  refine ⟨option.many.forward, fun tokens s os r hs h _ => ?_⟩
  exact option.many.insert _ _ _ _ hs h fun _ _ => trivial

/-! ## Statements -/

theorem tableBody_insert {x : Bool × String × List Column × List TableOption} (hs : On tokens s)
    (h : tableBody s = .ok (x, r)) (hclear : ∀ c ∈ x.2.2.1, c.Clear k) :
    tableBody (s.insert k w) = .ok ((x.1, x.2.1, x.2.2.1.map (·.mapSpan (Span.insert k)),
      x.2.2.2.map (·.mapSpan (Span.insert k))), r.insert k w) := by
  obtain ⟨ifNotExists, s₁, hif, h₁⟩ := bind_eq_ok h
  obtain ⟨name, s₂, hname, h₂⟩ := bind_eq_ok h₁
  obtain ⟨⟨⟩, s₃, hopen, h₃⟩ := bind_eq_ok h₂
  obtain ⟨cs, s₄, hcolumns, h₄⟩ := bind_eq_ok h₃
  obtain ⟨os, s₅, hoptions, h₅⟩ := bind_eq_ok h₄
  cases h₅
  have hs₃ := hs.rest (((forward_ifNotExists _ _ _ hif).trans (forward_tableName _ _ _ hname)).trans
    (forward_expectPunct _ _ _ _ _ hopen))
  have hs₄ := hs₃.rest (forward_columns _ _ _ hcolumns)
  refine run_bind_eq (blind_ifNotExists.insert hif) (run_bind_eq (blind_tableName.insert hname)
    (run_bind_eq ((blind_expectPunct _ _).insert hopen) ?_))
  refine run_bind_eq (moves_columns.insert _ _ _ _ hs₃ hcolumns hclear) ?_
  exact run_bind_eq (moves_tableOptions.insert _ _ _ _ hs₄ hoptions trivial) rfl

theorem moves_statement : Moves k w (·.Clear k) (·.mapSpan (Span.insert k)) statement := by
  refine ⟨forward_statement, fun tokens s st r hs h hclear => ?_⟩
  have hphrase : (s.insert k w).afterPhrase? ["CREATE", "TABLE"] =
      (s.afterPhrase? ["CREATE", "TABLE"]).map (·.insert k w) := afterPhrase?_mapGap _ _ _
  rw [statement_eq] at h ⊢
  rw [hphrase]
  cases hs₁ : s.afterPhrase? ["CREATE", "TABLE"] with
  | none =>
    rw [hs₁] at h
    cases h
    have hcut : (s.insert k w).cutStatement .start =
      ((s.cutStatement .start).1, (s.cutStatement .start).2.insert k w) := cutStatement_mapGap _ _ _
    dsimp only [Option.map_none]
    rw [hcut, span_insert]
    rfl
  | some s₁ =>
    rw [hs₁] at h
    dsimp only [Option.map_some] at h ⊢
    split at h
    · cases h
    next x B hbody =>
    cases h
    have htail : (B.insert k w).tail = B.tail.insert k w := Stream.tail_mapGap B
    rw [tableBody_insert (hs.rest (rest_of_afterPhrase? hs₁)) hbody hclear]
    dsimp only
    rw [htail, span_insert]
    rfl

theorem moves_statements : Moves k w (fun sts => ∀ st ∈ sts, st.Clear k)
    (List.map (·.mapSpan (Span.insert k))) statements := by
  refine Moves.many ⟨forward_atEnd.ite .pure (forward_statement.bind fun _ => .pure),
    fun tokens s x r hs h hclear => ?_⟩
  have hend : Blind atEnd := by
    rintro φ s _ _ ⟨⟩
    simp only [atEnd, run_bind, run_get, run_pure, Stream.head?_mapGap]
  obtain ⟨b, s₁, hb, h₁⟩ := bind_eq_ok h
  refine run_bind_eq (hend.insert hb) ?_
  cases hb
  split at h₁
  · next hnone =>
    cases h₁
    rw [if_pos hnone]
    rfl
  next hnone =>
  rw [if_neg hnone]
  obtain ⟨st, s₂, hst, h₂⟩ := bind_eq_ok h₁
  cases h₂
  exact run_bind_eq (moves_statement.insert _ _ _ _ hs hst (hclear _ rfl)) rfl

end Parser

namespace Statement

open SchemaAlign.Parser (moves_statements insert_ofTokens on_ofTokens)

variable {us vs : List Token} {w : Token} {sts : List Statement}

/-- A blank or a comment is put in between two tokens, at a place that splits no type of a column
    and no constraint that keeps a text. The statements stay the same, and every span in them is
    that of the same tokens. -/
theorem parse_insert (h : parse (us ++ vs) = .ok sts) (hw : w.isTrivia = true)
    (hclear : ∀ st ∈ sts, st.Clear us.length) :
    parse (us ++ w :: vs) = .ok (sts.map (·.mapSpan (Span.insert us.length))) := by
  have hon := on_ofTokens [] (us ++ vs)
  have hinsert := insert_ofTokens 0 hw us vs
  rw [Nat.zero_add] at hinsert
  obtain ⟨r, hstatements⟩ := (parse_eq_ok h).statements
  have hmoved := moves_statements.insert (k := us.length) (w := w) _ _ _ _ hon hstatements hclear
  rw [List.length_nil, hinsert] at hmoved
  rw [parse, ofTokens, StateT.run, hmoved]
  rfl

/-- A comment before the type of a column, which is no place inside the constraint that keeps a
    text. -/
theorem parse_insert_comment :
    let us := Token.tokenize "CREATE TABLE t (a"
    let vs := Token.tokenize " INT DEFAULT 1.5 /* */ NOT NULL) STRICT; CREATE VIEW v AS SELECT 1"
    let w : Token := ⟨.comment, "/* a */"⟩
    ∃ sts, parse (us ++ vs) = .ok sts ∧ w.isTrivia = true ∧ (∀ st ∈ sts, st.Clear us.length) ∧
      parse (us ++ w :: vs) = .ok (sts.map (·.mapSpan (Span.insert us.length))) := by
  intro us vs w
  have hclear : (parse (us ++ vs)).toOption.any fun sts =>
      sts.all fun st => decide (st.Clear us.length) := by decide +kernel
  cases h : parse (us ++ vs) with
  | error e => rw [h] at hclear; cases hclear
  | ok sts =>
    rw [h] at hclear
    have hclear' : ∀ st ∈ sts, st.Clear us.length :=
      fun st hst => of_decide_eq_true (List.all_eq_true.1 hclear st hst)
    exact ⟨sts, rfl, rfl, hclear', parse_insert h rfl hclear'⟩

end Statement

end SchemaAlign
