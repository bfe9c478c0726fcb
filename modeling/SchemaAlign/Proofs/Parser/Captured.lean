import SchemaAlign.Proofs.Parser.Alike
import SchemaAlign.Proofs.Parser.Grammar.Column
import SchemaAlign.Proofs.Parser.InStep
import SchemaAlign.Proofs.Parser.Tiling
import SchemaAlign.Proofs.Source
import SchemaAlign.Proofs.Token.Trimmed

/-!
# Where the text of an expression was read

An expression is kept as the text of the tokens between two parentheses, trimmed. This text says
what the tokens say. But it may say nothing, where they are comments, and in the parentheses of a
default value it loses the closing one to a comment at its end.

* `Stream.Reads`: the tokens between two streams;
* `Matched`: tokens whose parentheses match;
* `Captured`: what the text of an expression has to do with its tokens;
* `Rule.ReadFrom`: the tokens of a rule, and the text that the rule keeps of them;
* `exists_readFrom_of_rule?`, `exists_readFrom_of_constraint?`: a rule, and a constraint;
* `parse_captured`: all constraints of a text.
-/

namespace SchemaAlign

open SchemaAlign.Token (closing endsInLine opening significant)

/-! ## Expressions and their tokens -/

namespace Parser

/-- The parentheses of the tokens match, if `d` of them were opened before. -/
def Matched : Nat → List Token → Prop
  | d, [] => d = 0
  | d, t :: ts => (t.isPunct ")" = true → 0 < d) ∧ Matched (depthAfter d t) ts

/-- The text of an expression, and the tokens between its parentheses. -/
structure Captured (inner : List Token) (expr : String) : Prop where
  text_eq : expr = Text.trim (Token.render inner)
  matched : Matched 0 inner
  exists_token : ∃ t ∈ inner, t.kind ≠ .whitespace
  significant_eq : significant expr = inner.filter Token.isSignificant
  enclosed_eq : significant ("(" ++ expr ++ ")") =
    opening :: (inner.filter Token.isSignificant ++ if endsInLine inner then [] else [closing])

/-- The significant tokens are the keywords. -/
def Leads (words : List String) (lead : List Token) : Prop :=
  List.Forall₂ (fun t k => t.isKeyword k = true) (lead.filter Token.isSignificant) words

end Parser

open SchemaAlign.Parser (Captured Leads)

/-- The rule was read from the tokens: if it keeps the text of an expression, this is the one
    between the parentheses that stand there. -/
def Rule.ReadFrom (us : List Token) : Rule → Prop
  | check expr => ∃ lead inner, us = lead ++ opening :: (inner ++ [closing]) ∧
      Leads ["CHECK"] lead ∧ Captured inner expr
  | generated expr _ => ∃ words lead inner tail,
      us = lead ++ opening :: (inner ++ closing :: tail) ∧
      words ∈ [["GENERATED", "ALWAYS", "AS"], ["AS"]] ∧ Leads words lead ∧ Captured inner expr
  | defaultsTo value => ∃ lead t tail, us = lead ++ t :: tail ∧
      Leads ["DEFAULT"] lead ∧ t.isTrivia = false ∧ (t = opening → ∃ inner expr,
        tail = inner ++ [closing] ∧ value = "(" ++ expr ++ ")" ∧ Captured inner expr)
  | _ => True

/-- The tokens are `CONSTRAINT` and the name, or none if there is no name. -/
inductive Parser.Names : Option String → List Token → Prop
  | none : Names none []
  | some {k t : Token} {name : String} {ws : List Token} :
      ws.filter Token.isSignificant = [k, t] → k.isKeyword "CONSTRAINT" = true →
      t.name? = some name → Names (some name) ws

namespace Parser

open SchemaAlign.Parser.Stream (Rest ofTokens)

variable {n d : Nat} {us vs ts : List Token} {s q r : Stream} {g : Gap} {t : Token}
  {words : List String}

/-! ## The tokens between two streams -/

/-- The tokens stand at the front of `s`, and `r` is the stream behind them. -/
def Stream.Reads (s : Stream) (us : List Token) (r : Stream) : Prop :=
  ∃ n vs, s = ofTokens n (us ++ vs) ∧ r = ofTokens (n + us.length) vs

namespace Stream.Reads

theorem refl (n : Nat) (ts : List Token) : (ofTokens n ts).Reads [] (ofTokens n ts) :=
  ⟨n, ts, rfl, rfl⟩

theorem left (h : s.Reads us r) : s.Reads [] s := by
  obtain ⟨n, vs, rfl, -⟩ := h
  exact refl _ _

theorem right (h : s.Reads us r) : r.Reads [] r := by
  obtain ⟨n, vs, -, rfl⟩ := h
  exact refl _ _

theorem trans (h : s.Reads us q) (h' : q.Reads vs r) : s.Reads (us ++ vs) r := by
  obtain ⟨n, xs, rfl, rfl⟩ := h
  obtain ⟨m, ys, heq, rfl⟩ := h'
  obtain ⟨rfl, rfl⟩ := ofTokens_inj heq
  exact ⟨n, ys, by rw [List.append_assoc], by rw [List.length_append, Nat.add_assoc]⟩

theorem toTokens_eq (h : s.Reads us r) : s.toTokens = us ++ r.toTokens := by
  obtain ⟨n, vs, rfl, rfl⟩ := h
  rw [toTokens_ofTokens, toTokens_ofTokens]

/-- The first significant token, and the gap before it. -/
theorem item (h : (Stream.item g t s).Reads us r) :
    Trivia g.trivia ∧ t.isTrivia = false ∧ (Stream.item g t s).Reads (g.trivia ++ [t]) s := by
  obtain ⟨n, vs, heq, -⟩ := h
  obtain hw | ⟨w, u, xs, hsplit, hw, hu⟩ := trivia_or (us ++ vs)
  · rw [ofTokens_trivia n hw] at heq
    cases heq
  · rw [hsplit, ofTokens_append n hw hu] at heq
    cases heq
    refine ⟨hw, hu, n, xs, ?_, ?_⟩
    · rw [List.append_assoc, List.singleton_append, ofTokens_append n hw hu]
    · rw [List.length_append, List.length_singleton, Nat.add_assoc]

theorem trivia_gap (h : s.Reads us r) : Trivia s.gap.trivia := by
  obtain ⟨n, vs, rfl, -⟩ := h
  obtain hw | ⟨w, t, xs, hsplit, hw, ht⟩ := trivia_or (us ++ vs)
  · rwa [ofTokens_trivia n hw]
  · rwa [hsplit, ofTokens_append n hw ht]

/-- What is left was read up to. -/
theorem exists_of_rest (h : s.Reads us q) (hrest : Rest s r) : ∃ vs, s.Reads vs r := by
  obtain ⟨n, xs, rfl, -⟩ := h
  obtain rfl | ⟨vs, t, ws, hsplit, -, rfl⟩ := hrest.ofTokens
  · exact ⟨[], refl _ _⟩
  · exact ⟨vs ++ [t], n, ws, by simp [hsplit], by simp [Nat.add_assoc]⟩

/-- A stretch of a list of tokens without the gap before it. -/
theorem slice? (h : (ofTokens 0 ts).Reads vs s) (h' : s.Reads (s.gap.trivia ++ us) r) :
    slice? ts ⟨s.gap.stop, r.gap.start⟩ = some us := by
  obtain ⟨n, xs, heq, hs⟩ := h
  obtain ⟨rfl, rfl⟩ := ofTokens_inj heq
  obtain ⟨m, ys, heq', rfl⟩ := h'
  obtain ⟨rfl, rfl⟩ := ofTokens_inj (hs.symm.trans heq')
  have hstart : s.gap.start = vs.length := by rw [hs, start_gap_ofTokens, Nat.zero_add]
  have hslice := slice?_append (vs ++ s.gap.trivia) us ys
  rw [start_gap_ofTokens, Gap.stop, hstart, Nat.zero_add, List.length_append, ← Nat.add_assoc]
  simpa [List.length_append] using hslice

end Stream.Reads

/-! ## Expressions -/

theorem matched_append (hw : Trivia us) : Matched d (us ++ vs) ↔ Matched d vs := by
  induction us with
  | nil => rfl
  | cons u us ih =>
    obtain ⟨hu, hw⟩ := List.forall_mem_cons.1 hw
    have hinner : IsInner u := isInner_of_kind fun hkind => by
      rw [Token.isTrivia, hkind] at hu
      cases hu
    rw [List.cons_append, Matched, depthAfter, hinner "(" (by simp), hinner ")" (by simp)]
    simpa using ih hw

theorem matched_trivia (hw : Trivia us) (hd : d = 0) : Matched d us := by
  have hnil : Matched d [] := hd
  simpa using (matched_append hw).2 hnil

/-- The tokens that are cut are matched if no parenthesis is open behind them. They stand before the
    token that ends them. -/
theorem cutExpression_spec (h : s.Reads [] s) (d : Nat) :
    ((s.cutExpression d).2.1 = 0 → Matched d (s.cutExpression d).1) ∧
      ∀ g t r, (s.cutExpression d).2.2 = .item g t r →
        s.Reads ((s.cutExpression d).1 ++ [t]) r := by
  induction s generalizing d with
  | done g => exact ⟨matched_trivia h.trivia_gap, nofun⟩
  | item g t s ih =>
    obtain ⟨hw, -, hitem⟩ := h.item
    by_cases hends : endsExpression d t = true
    · simp only [Stream.cutExpression, hends, if_true]
      refine ⟨matched_trivia hw, ?_⟩
      rintro _ _ _ ⟨⟩
      exact hitem
    · obtain ⟨hmatched, hread⟩ := ih hitem.right (depthAfter d t)
      simp only [Stream.cutExpression, hends, Bool.false_eq_true, if_false]
      refine ⟨fun hzero => (matched_append hw).2 ⟨fun hclose => ?_, hmatched hzero⟩, ?_⟩
      · -- A closing parenthesis outside all others would have ended it.
        refine Nat.pos_of_ne_zero fun hd => hends ?_
        simp [endsExpression, hd, hclose]
      · intro g' t' r hrest
        have := hitem.trans (hread g' t' r hrest)
        simpa using this

theorem expression?_eq_some {expr : String} (h : expression? s = .ok (some expr, r)) :
    (s.cutExpression 0).2 = (0, r) ∧ expr = Text.trim (Token.render (s.cutExpression 0).1) ∧
      expr.isEmpty = false := by
  change expressionText (s.cutExpression 0).1 (s.cutExpression 0).2.1 (s.cutExpression 0).2.2 =
    .ok (some expr, r) at h
  generalize s.cutExpression 0 = x at h ⊢
  obtain ⟨inner, depth, q⟩ := x
  rw [expressionText] at h
  split at h
  · cases h
  · next hdepth =>
    simp only [run_pure] at h
    split at h
    · cases h
    · next hempty =>
      simp only [Except.ok.injEq, Prod.mk.injEq, Option.some.injEq] at h
      obtain ⟨rfl, rfl⟩ := h
      exact ⟨Prod.ext (Nat.le_zero.1 (Nat.not_lt.1 hdepth)) rfl, rfl, by simpa using hempty⟩

/-- The text of tokens is blank if they are white space. -/
theorem exists_token_of_trim (hus : Token.Lawful (us ++ vs))
    (h : (Text.trim (Token.render us)).isEmpty = false) : ∃ t ∈ us, t.kind ≠ .whitespace := by
  refine Decidable.byContradiction fun hnone => ?_
  have hblanks : Token.Blanks us := by
    intro t ht
    exact Decidable.byContradiction fun hkind => hnone ⟨t, ht, hkind⟩
  have hall := hblanks.isBlank hus
  generalize hcs : Token.chars us = cs at hall
  have hnil : Text.trimBlank cs = [] := by
    rw [Text.trimBlank, List.dropWhile_eq_nil_iff.2 hall]
    rfl
  rw [Text.trim, Token.toList_render, hcs, hnil] at h
  cases h

theorem exists_captured (hs : s.Reads [] s) (hlawful : Token.Lawful s.toTokens) {expr : String}
    (h : parenthesized s = .ok (expr, r)) : ∃ inner,
      s.Reads (s.gap.trivia ++ opening :: (inner ++ [closing])) r ∧ Captured inner expr := by
  obtain ⟨⟨⟩, s₁, hopen, h₁⟩ := bind_eq_ok h
  obtain ⟨g, t, ht, rfl⟩ := expectPunct_eq_ok hopen
  obtain rfl := eq_of_isPunct ht
  obtain ⟨_ | text, s₂, hexpression, h₂⟩ := bind_eq_ok h₁
  · cases h₂
  obtain ⟨⟨⟩, s₃, hclose, h₃⟩ := bind_eq_ok h₂
  cases h₃
  obtain ⟨g', t', ht', rfl⟩ := expectPunct_eq_ok hclose
  obtain rfl := eq_of_isPunct ht'
  obtain ⟨hcut, rfl, hempty⟩ := expression?_eq_some hexpression
  obtain ⟨hw, -, hitem⟩ := hs.item
  obtain ⟨hmatched, hread⟩ := cutExpression_spec hitem.right 0
  -- The expression is what is cut off between the parentheses.
  have hinner := hitem.trans (hread _ _ _ (congrArg Prod.snd hcut))
  replace hmatched := hmatched (congrArg Prod.fst hcut)
  generalize (s₁.cutExpression 0).1 = inner at hinner hempty hmatched ⊢
  -- The closing parenthesis follows it in the text, so it is trimmed without harm.
  have htokens : Token.Lawful (inner ++ closing :: r.toTokens) := by
    rw [hinner.toTokens_eq, List.append_assoc, List.append_assoc, List.append_assoc] at hlawful
    exact hlawful.right.right
  have hne : Token.chars (closing :: r.toTokens) ≠ [] := List.cons_ne_nil _ _
  have htoken := exists_token_of_trim htokens hempty
  refine ⟨inner, ?_, rfl, hmatched, htoken, Token.significant_trim htokens hne htoken,
    Token.significant_enclosed htokens hne htoken⟩
  simpa [Stream.gap, opening, closing] using hinner

/-! ## Rules -/

theorem Stream.Rest.of_item (h : Rest (.item g t s) r) (hlt : r.size < (Stream.item g t s).size) :
    Rest s r := by
  cases h with
  | refl => exact absurd hlt (Nat.lt_irrefl _)
  | item h => exact h

theorem Leads.append {words' : List String} (h : Leads words us) (h' : Leads words' vs) :
    Leads (words ++ words') (us ++ vs) := by
  rw [Leads, List.filter_append]
  exact List.rel_append h h'

theorem leads_trivia (hw : Trivia us) : Leads [] us := by
  rw [Leads, filter_isSignificant_trivia hw]
  exact .nil

theorem Leads.append_trivia (h : Leads words us) (hw : Trivia vs) : Leads words (us ++ vs) := by
  simpa using h.append (leads_trivia hw)

theorem eq_item_of_afterPhrase? {k : String} (h : s.afterPhrase? [k] = some r) :
    ∃ g t, s = .item g t r ∧ t.isKeyword k = true := by
  cases s with
  | done => cases h
  | item g t s =>
    rw [Stream.afterPhrase?] at h
    split at h
    · cases h
      exact ⟨g, t, rfl, ‹_›⟩
    · cases h

/-- A keyword at the front of a stream. -/
theorem exists_lead {k : String} (hs : s.Reads [] s) (h : s.afterPhrase? [k] = some r) :
    ∃ lead, s.Reads (s.gap.trivia ++ lead) r ∧ Leads [k] lead := by
  obtain ⟨g, t, rfl, hk⟩ := eq_item_of_afterPhrase? h
  obtain ⟨-, ht, hitem⟩ := hs.item
  refine ⟨[t], hitem, ?_⟩
  rw [Leads, List.filter_cons_of_pos (by simp [Token.isSignificant, ht])]
  exact .cons hk .nil

/-- A keyword behind others. -/
theorem exists_lead_append {k : String} (h : s.Reads (s.gap.trivia ++ us) q) (hus : Leads words us)
    (hk : q.afterPhrase? [k] = some r) :
    ∃ lead, s.Reads (s.gap.trivia ++ lead) r ∧ Leads (words ++ [k]) lead := by
  obtain ⟨vs, hvs, hk⟩ := exists_lead h.right hk
  refine ⟨us ++ (q.gap.trivia ++ vs), ?_, hus.append ?_⟩
  · simpa using h.trans hvs
  · exact (leads_trivia h.right.trivia_gap).append hk

/-- An expression in parentheses behind some keywords. -/
theorem exists_captured_append (hlawful : Token.Lawful s.toTokens) {expr : String}
    (h : s.Reads (s.gap.trivia ++ us) q) (hus : Leads words us)
    (hexpr : parenthesized q = .ok (expr, r)) : ∃ lead inner,
      s.Reads (s.gap.trivia ++ (lead ++ opening :: (inner ++ [closing]))) r ∧ Leads words lead ∧
        Captured inner expr := by
  rw [h.toTokens_eq] at hlawful
  obtain ⟨inner, hread, hinner⟩ := exists_captured h.right hlawful.right hexpr
  refine ⟨us ++ q.gap.trivia, inner, ?_, hus.append_trivia h.right.trivia_gap, hinner⟩
  simpa using h.trans hread

/-- A literal has a first token. -/
theorem eq_item_of_literal {value : String} (h : literal s = .ok (value, r)) :
    ∃ g t s', s = .item g t s' ∧ Rest s' r := by
  obtain ⟨signText, s₁, hsign, h₁⟩ := bind_eq_ok h
  cases s with
  | done => cases hsign; cases h₁
  | item g t s =>
    refine ⟨g, t, s, rfl, ?_⟩
    have hbare := isBareSign_of_sign hsign
    simp only [sign] at hsign
    split at hsign <;> cases hsign
    · exact forward_unsignedLiteral hbare _ _ _ h₁
    · simp only [unsignedLiteral] at h₁
      split at h₁
      · exact forward_literalRest _ _ _ _ h₁
      · split at h₁
        · exact rest_of_literalRest hbare ‹_› h₁
        · cases h₁

theorem dispatch_eq_ok {α : Type} {p : Parser α} {table : List (String × Parser α)} {a : α}
    (h : Grammar.dispatch p table s = .ok (a, r)) :
    (∃ x ∈ table, ∃ s', s.afterPhrase? [x.1] = some s' ∧ x.2 s' = .ok (a, r)) ∨
      p s = .ok (a, r) := by
  induction table with
  | nil => exact .inr h
  | cons x table ih =>
    obtain ⟨b, s', hb, h'⟩ := bind_eq_ok h
    obtain ⟨rfl, hk⟩ | ⟨rfl, rfl, -⟩ := phrase?_eq_ok hb
    · exact .inl ⟨x, List.mem_cons_self, s', hk, h'⟩
    · exact (ih h').imp_left fun ⟨y, hy, h⟩ => ⟨y, List.mem_cons_of_mem _ hy, h⟩

/-- What is read and put into a rule. -/
theorem some_eq_ok {α : Type} {p : Parser α} {f : α → Rule} {rule : Rule}
    (h : (do return some (f (← p)) : Parser (Option Rule)) s = .ok (some rule, r)) :
    ∃ a, p s = .ok (a, r) ∧ rule = f a := by
  obtain ⟨a, s', ha, h'⟩ := bind_eq_ok h
  cases h'
  exact ⟨a, ha, rfl⟩

theorem eq_of_primaryKey {rule : Rule} (h : primaryKey s = .ok (rule, r)) :
    ∃ order conflict autoincrement, rule = .primaryKey order conflict autoincrement := by
  obtain ⟨⟨⟩, s₁, -, h₁⟩ := bind_eq_ok h
  obtain ⟨order, s₂, -, h₂⟩ := bind_eq_ok h₁
  obtain ⟨conflict, s₃, -, h₃⟩ := bind_eq_ok h₂
  obtain ⟨autoincrement, s₄, -, h₄⟩ := bind_eq_ok h₃
  cases h₄
  exact ⟨_, _, _, rfl⟩

theorem exists_readFrom_of_generated (hlawful : Token.Lawful s.toTokens) {rule : Rule}
    (hwords : words ∈ [["GENERATED", "ALWAYS", "AS"], ["AS"]])
    (h : s.Reads (s.gap.trivia ++ us) q) (hus : Leads words us)
    (hrule : generated q = .ok (rule, r)) :
    ∃ vs, s.Reads (s.gap.trivia ++ vs) r ∧ rule.ReadFrom vs := by
  obtain ⟨expr, s₁, hexpr, h₁⟩ := bind_eq_ok hrule
  obtain ⟨storage, s₂, hstorage, h₂⟩ := bind_eq_ok h₁
  cases h₂
  obtain ⟨lead, inner, hread, hlead, hinner⟩ := exists_captured_append hlawful h hus hexpr
  obtain ⟨tail, htail⟩ := hread.right.exists_of_rest (forward_choose _ _ _ _ hstorage)
  refine ⟨_, ?_, words, lead, inner, tail, rfl, hwords, hlead, hinner⟩
  simpa using hread.trans htail

theorem exists_readFrom_of_defaultValue (hlawful : Token.Lawful s.toTokens) {value : String}
    (h : s.Reads (s.gap.trivia ++ us) q) (hus : Leads ["DEFAULT"] us)
    (hvalue : defaultValue q = .ok (value, r)) :
    ∃ vs, s.Reads (s.gap.trivia ++ vs) r ∧ (Rule.defaultsTo value).ReadFrom vs := by
  obtain ⟨b, s₁, hnext, h₁⟩ := bind_eq_ok hvalue
  cases hnext
  split at h₁
  · obtain ⟨expr, s₂, hexpr, h₂⟩ := bind_eq_ok h₁
    cases h₂
    obtain ⟨lead, inner, hread, hlead, hinner⟩ := exists_captured_append hlawful h hus hexpr
    exact ⟨_, hread, lead, opening, _, rfl, hlead, rfl, fun _ => ⟨inner, expr, rfl, rfl, hinner⟩⟩
  · next hparenthesis =>
    obtain ⟨g, t, s₂, rfl, hrest⟩ := eq_item_of_literal h₁
    obtain ⟨hw, ht, hitem⟩ := h.right.item
    obtain ⟨tail, htail⟩ := hitem.right.exists_of_rest hrest
    refine ⟨us ++ g.trivia ++ t :: tail, ?_, _, t, tail, rfl, hus.append_trivia hw, ht, ?_⟩
    · simpa using (h.trans hitem).trans htail
    · rintro rfl
      exact absurd rfl hparenthesis

/-- A rule, and the tokens that it was read from. -/
theorem exists_readFrom_of_rule? (hs : s.Reads [] s) (hlawful : Token.Lawful s.toTokens)
    {rule : Rule} (h : rule? s = .ok (some rule, r)) :
    ∃ us, s.Reads (s.gap.trivia ++ us) r ∧ rule.ReadFrom us := by
  have hfinding := finding_rule? _ _ _ h
  rw [Grammar.rule?_eq_dispatch] at h
  obtain ⟨⟨k, p⟩, hmem, s₁, hk, hp⟩ | h := dispatch_eq_ok h
  rotate_left
  · cases h
  obtain ⟨lead, hlead, hleads⟩ := exists_lead hs hk
  -- A rule that keeps no text may stand in any tokens.
  have hother (hrule : ∀ us, rule.ReadFrom us) :
      ∃ us, s.Reads (s.gap.trivia ++ us) r ∧ rule.ReadFrom us := by
    obtain ⟨g, t, rfl, -⟩ := eq_item_of_afterPhrase? hk
    obtain ⟨vs, hvs⟩ := hlead.right.exists_of_rest (hfinding.1.of_item (hfinding.2 rfl))
    exact ⟨lead ++ vs, by simpa using hlead.trans hvs, hrule _⟩
  simp only [Grammar.ruleTable, List.mem_cons, List.not_mem_nil, or_false, Prod.mk.injEq] at hmem
  obtain ⟨rfl, rfl⟩ | ⟨rfl, rfl⟩ | ⟨rfl, rfl⟩ | ⟨rfl, rfl⟩ | ⟨rfl, rfl⟩ | ⟨rfl, rfl⟩ | ⟨rfl, rfl⟩ |
    ⟨rfl, rfl⟩ | ⟨rfl, rfl⟩ | ⟨rfl, rfl⟩ := hmem
  · -- `PRIMARY`
    obtain ⟨_, hprimary, rfl⟩ := some_eq_ok hp
    obtain ⟨_, _, _, rfl⟩ := eq_of_primaryKey hprimary
    exact hother fun _ => trivial
  · -- `NOT`
    obtain ⟨⟨⟩, s₂, -, h₂⟩ := bind_eq_ok hp
    obtain ⟨_, -, rfl⟩ := some_eq_ok h₂
    exact hother fun _ => trivial
  · -- `NULL`
    obtain ⟨_, -, rfl⟩ := some_eq_ok hp
    exact hother fun _ => trivial
  · -- `UNIQUE`
    obtain ⟨_, -, rfl⟩ := some_eq_ok hp
    exact hother fun _ => trivial
  · -- `CHECK`
    obtain ⟨expr, hexpr, rfl⟩ := some_eq_ok hp
    obtain ⟨lead, inner, hread, hcheck⟩ := exists_captured_append hlawful hlead hleads hexpr
    exact ⟨_, hread, lead, inner, rfl, hcheck⟩
  · -- `DEFAULT`
    obtain ⟨value, hvalue, rfl⟩ := some_eq_ok hp
    exact exists_readFrom_of_defaultValue hlawful hlead hleads hvalue
  · -- `COLLATE`
    obtain ⟨_, -, rfl⟩ := some_eq_ok hp
    exact hother fun _ => trivial
  · -- `REFERENCES`
    obtain ⟨_, -, rfl⟩ := some_eq_ok hp
    exact hother fun _ => trivial
  · -- `GENERATED`
    obtain ⟨⟨⟩, s₂, halways, h₂⟩ := bind_eq_ok hp
    obtain ⟨⟨⟩, s₃, has, h₃⟩ := bind_eq_ok h₂
    obtain ⟨_, hgenerated, rfl⟩ := some_eq_ok h₃
    obtain ⟨lead₂, hlead₂, hleads₂⟩ := exists_lead_append hlead hleads (expectKeyword_eq_ok halways)
    obtain ⟨lead₃, hlead₃, hleads₃⟩ := exists_lead_append hlead₂ hleads₂ (expectKeyword_eq_ok has)
    exact exists_readFrom_of_generated hlawful (by simp) hlead₃ hleads₃ hgenerated
  · -- `AS`
    obtain ⟨_, hgenerated, rfl⟩ := some_eq_ok hp
    exact exists_readFrom_of_generated hlawful (by simp) hlead hleads hgenerated

/-! ## Constraints -/

/-- A name with its keyword, and the gap behind it, if there is one. -/
theorem exists_names (hs : s.Reads [] s) {name : Option String}
    (h : constraintName? s = .ok (name, r)) : (name = none ∧ r = s) ∨
      ∃ ws, s.Reads (s.gap.trivia ++ ws) r ∧ Names name (ws ++ r.gap.trivia) := by
  obtain ⟨b, s₁, hb, h₁⟩ := bind_eq_ok h
  obtain ⟨rfl, hkeyword⟩ | ⟨rfl, rfl, -⟩ := phrase?_eq_ok hb
  · obtain ⟨name', s₂, hname, h₂⟩ := bind_eq_ok h₁
    cases h₂
    obtain ⟨g, k, rfl, hk⟩ := eq_item_of_afterPhrase? hkeyword
    obtain ⟨g', t, rfl, ht⟩ := expectName_eq_ok hname
    obtain ⟨-, hksignificant, hkitem⟩ := hs.item
    obtain ⟨hw, htsignificant, htitem⟩ := hkitem.right.item
    refine .inr ⟨k :: (g'.trivia ++ [t]), ?_, .some ?_ hk ht⟩
    · simpa [Stream.gap] using hkitem.trans htitem
    · rw [List.filter_append, filter_isSignificant_trivia htitem.right.trivia_gap, List.append_nil,
        List.filter_cons_of_pos (by simp [Token.isSignificant, hksignificant]),
        filter_isSignificant_append hw htsignificant, List.filter_nil]
  · cases h₁
    exact .inl ⟨rfl, rfl⟩

/-- A constraint, and the tokens that it was read from. -/
theorem exists_readFrom_of_constraint? (hs : s.Reads [] s) (hlawful : Token.Lawful s.toTokens)
    {x : Constraint} (h : constraint? s = .ok (some x, r)) : ∃ ws us,
      s.Reads (s.gap.trivia ++ (ws ++ us)) r ∧ Names x.name ws ∧ x.rule.ReadFrom us := by
  obtain ⟨s₁, hname, hrule, -⟩ := constraint?_eq_ok h
  obtain ⟨hnone, rfl⟩ | ⟨ws, hws, hnames⟩ := exists_names hs hname
  · obtain ⟨us, hus, hfrom⟩ := exists_readFrom_of_rule? hs hlawful hrule
    exact ⟨[], us, hus, hnone ▸ .none, hfrom⟩
  · rw [hws.toTokens_eq] at hlawful
    obtain ⟨us, hus, hfrom⟩ := exists_readFrom_of_rule? hws.right hlawful.right hrule
    exact ⟨_, us, by simpa using hws.trans hus, hnames, hfrom⟩

/-- Every constraint of a column is read somewhere in the column. -/
theorem exists_constraint? {c : Column} {x : Constraint} (h : column? s = .ok (some c, r))
    (hx : x ∈ c.constraints) :
    ∃ s' q, Rest s s' ∧ constraint? s' = .ok (some x, q) ∧ x.span = ⟨s'.gap.stop, q.gap.start⟩ := by
  obtain ⟨⟨⟩, -⟩ | ⟨_, s₁, s₂, ⟨⟩, hname, htype, hconstraints, -⟩ := column?_eq_ok h
  have hrow : Row (fun s x r => constraint? s = .ok (some x, r)) s₂ c.constraints r :=
    row_of_many forward_constraint? (fun _ _ r h => ⟨r, h, .refl⟩) hconstraints
  obtain ⟨s', q, hrest, hconstraint⟩ :=
    hrow.exists_stretch (fun _ _ _ => forward_constraint? _ _ _) hx
  have hafter := (forward_name? _ _ _ hname).trans (forward_typeName? _ _ _ htype)
  exact ⟨s', q, hafter.trans hrest, hconstraint, (stretch_of_constraint? hconstraint).span⟩

end Parser

open SchemaAlign.Parser (Names Reading row_of_statement)
open SchemaAlign.Token (Lawful tokenize)

/-- A constraint of a text stands in the text with its name before it, and where it keeps an
    expression, this is the text between two parentheses that belong together, trimmed. There is
    more than white space between them, and the expression has the significant tokens that stand
    there. In the parentheses of a default value it has them, too, but the closing one is lost if
    the last token before it is a comment up to the end of a line. -/
theorem Statement.parse_captured {text : String} {sts : List Statement} {table : CreateTable}
    {c : Column} {x : Constraint} (h : Statement.parse (tokenize text) = .ok sts)
    (htable : createTable table ∈ sts) (hc : c ∈ table.columns) (hx : x ∈ c.constraints) :
    ∃ ws us, slice? (tokenize text) x.span = some (ws ++ us) ∧ Names x.name ws ∧
      x.rule.ReadFrom us := by
  have hlawful : Lawful (tokenize text) := Token.lawful_ofChars _
  obtain ⟨us, t, ws, vs, htokens, -, hstatement⟩ := (Statement.parse_eq_ok h).exists_part htable
  generalize tokenize text = tokens at htokens hlawful ⊢
  subst htokens
  obtain ⟨s₁, _, hrest₁, hcolumn⟩ := (row_of_statement hstatement).2 c hc
  obtain ⟨s₂, r, hrest₂, hconstraint, hspan⟩ := Parser.exists_constraint? hcolumn hx
  have hstart : (Parser.Stream.ofTokens 0 (us ++ (t :: ws ++ vs))).Reads us
      (Parser.Stream.ofTokens (0 + us.length) (t :: ws ++ vs)) := ⟨0, _, rfl, rfl⟩
  obtain ⟨vs, hvs⟩ := hstart.right.exists_of_rest (hrest₁.trans hrest₂)
  have hread := hstart.trans hvs
  have htoTokens := hread.toTokens_eq
  rw [Parser.Stream.toTokens_ofTokens] at htoTokens
  rw [htoTokens] at hlawful
  obtain ⟨ws, us, hus, hnames, hfrom⟩ := Parser.exists_readFrom_of_constraint? hread.right
    hlawful.right hconstraint
  exact ⟨ws, us, hspan ▸ hread.slice? hus, hnames, hfrom⟩

/-- A comment at the end of an expression belongs to its text. -/
theorem Statement.parse_captured_comment :
    let text := "CREATE TABLE t (a CONSTRAINT p CHECK (a > 0 -- positive\n))"
    ∃ ws us, slice? (tokenize text) ⟨9, 24⟩ = some (ws ++ us) ∧ Names (some "p") ws ∧
      (Rule.check "a > 0 -- positive").ReadFrom us := by
  intro text
  let x : Constraint := { name := some "p", rule := .check "a > 0 -- positive", span := ⟨9, 24⟩ }
  let c : Column := { name := "a", type := none, constraints := [x], span := ⟨7, 24⟩ }
  let table : CreateTable :=
    { name := "t", ifNotExists := false, columns := [c], options := [], span := ⟨0, 25⟩ }
  have h : Statement.parse (tokenize text) = .ok [createTable table] :=
    parse_of_toOption (by decide +kernel)
  exact parse_captured (c := c) (x := x) h (List.mem_singleton_self _) (List.mem_singleton_self _)
    (List.mem_singleton_self _)

/-- A comment takes in the closing parenthesis of a default value. And a comment is enough of an
    expression. -/
theorem Statement.parse_default_unclosed :
    let tokens := tokenize "CREATE TABLE t (a DEFAULT (1 -- c\n))"
    (Statement.parse tokens).toOption = some [createTable
      { name := "t", ifNotExists := false, options := [], span := ⟨0, 17⟩
        columns :=
          [{ name := "a", type := none, span := ⟨7, 16⟩,
             constraints :=
              [{ name := none, rule := .defaultsTo "(1 -- c)", span := ⟨9, 16⟩ }] }] }] ∧
    (slice? tokens ⟨11, 16⟩).map (·.filter Token.isSignificant) =
      some [opening, ⟨.word, "1"⟩, closing] ∧
    significant "(1 -- c)" = [opening, ⟨.word, "1"⟩] ∧
    (Statement.parse (tokenize "CREATE TABLE t (a CHECK (/* c */))")).toOption = some [createTable
      { name := "t", ifNotExists := false, options := [], span := ⟨0, 15⟩
        columns :=
          [{ name := "a", type := none, span := ⟨7, 14⟩,
             constraints :=
              [{ name := none, rule := .check "/* c */", span := ⟨9, 14⟩ }] }] }] ∧
    significant "/* c */" = [] := by
  decide +kernel

end SchemaAlign
