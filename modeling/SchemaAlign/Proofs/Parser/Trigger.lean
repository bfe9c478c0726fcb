import Mathlib.Data.List.Infix
import SchemaAlign.Proofs.Parser.Composition
import SchemaAlign.Proofs.Parser.Nesting
import SchemaAlign.Proofs.Parser.Tiling

/-!
# Triggers

The body of a trigger stands between `BEGIN` and `END`. It is a list of statements with their own
semicolons, and expressions in it may have blocks of their own, from `CASE` to `END`.

* `Balanced`: every block of a body is closed;
* `TriggerDefinition`: the form of a trigger;
* `goesOn_body`: no semicolon in a body ends the statement;
* `parse_trigger_append`: a trigger ends with its own semicolon, and what follows is read as if it
  stood alone.
-/

namespace SchemaAlign

/-- Every `END` closes a `CASE` before it, and every `CASE` is closed. -/
structure Balanced (body : List Token) : Prop where
  /-- At no point more is closed than was opened. -/
  le : ∀ us, us <+: body → us.countP (·.isKeyword "END") ≤ us.countP (·.isKeyword "CASE")
  /-- In the end nothing is open. -/
  eq : body.countP (·.isKeyword "END") = body.countP (·.isKeyword "CASE")

instance (body : List Token) : Decidable (Balanced body) :=
  decidable_of_iff ((∀ us ∈ body.inits, us.countP (·.isKeyword "END") ≤
      us.countP (·.isKeyword "CASE")) ∧
    body.countP (·.isKeyword "END") = body.countP (·.isKeyword "CASE"))
    ⟨fun h => ⟨fun us hus => h.1 us ((List.mem_inits _ _).2 hus), h.2⟩,
      fun h => ⟨fun us hus => h.le us ((List.mem_inits _ _).1 hus), h.eq⟩⟩

/-- The significant tokens of `CREATE [TEMP|TEMPORARY] TRIGGER … BEGIN … END;`. -/
structure TriggerDefinition where
  create : Token
  temporary : Option Token
  trigger : Token
  /-- What stands before the body. -/
  header : List Token
  opening : Token
  body : List Token
  closing : Token
  semicolon : Token
  isKeyword_create : create.isKeyword "CREATE" = true
  isKeyword_temporary : ∀ t ∈ temporary, t.isKeyword "TEMP" = true ∨ t.isKeyword "TEMPORARY" = true
  isKeyword_trigger : trigger.isKeyword "TRIGGER" = true
  header_plain : ∀ t ∈ header, t.isPunct ";" = false ∧ t.isKeyword "BEGIN" = false
  isKeyword_opening : opening.isKeyword "BEGIN" = true
  body_plain : ∀ t ∈ body, t.isKeyword "BEGIN" = false
  balanced : Balanced body
  isKeyword_closing : closing.isKeyword "END" = true
  isPunct_semicolon : semicolon.isPunct ";" = true

namespace TriggerDefinition

/-- What stands before the header. -/
def head (d : TriggerDefinition) : List Token :=
  d.create :: d.temporary.toList ++ [d.trigger]

/-- All significant tokens before the semicolon. -/
def tokens (d : TriggerDefinition) : List Token :=
  d.head ++ d.header ++ d.opening :: d.body ++ [d.closing]

/-- The tokens are those of the definition up to its semicolon, with blanks and comments anywhere
    before and between them. -/
def Spells (d : TriggerDefinition) (ts : List Token) : Prop :=
  ∃ us, ts = us ++ [d.semicolon] ∧ us.filter Token.isSignificant = d.tokens

end TriggerDefinition

namespace Parser

open Text Nesting
open SchemaAlign.Parser.Stream (ofTokens)

variable {n : Nesting} {d : TriggerDefinition} {us vs ts header body : List Token} {t : Token}

/-! ## The parts of a trigger -/

/-- Before the body nothing opens a block. -/
theorem goesOn_header (hn : n.trigger = true) (hdepth : n.depth = 0)
    (h : ∀ t ∈ header, t.isPunct ";" = false ∧ t.isKeyword "BEGIN" = false) :
    n.goesOn header = true ∧ (n.after header).trigger = true ∧ (n.after header).depth = 0 := by
  induction header generalizing n with
  | nil => exact ⟨rfl, hn, hdepth⟩
  | cons t header ih =>
    obtain ⟨⟨hsemicolon, hbegin⟩, h⟩ := List.forall_mem_cons.1 h
    obtain ⟨htrigger, hstep⟩ := step_of_trigger hn t
    have hzero : (n.step t).depth = 0 := by simp [hstep, Nesting.depthAfter, hbegin, hdepth]
    rw [goesOn_cons_iff, after_cons]
    obtain ⟨hgoes, hafter⟩ := ih htrigger hzero h
    exact ⟨⟨by rw [isEnd, hsemicolon, Bool.false_and], hgoes⟩, hafter⟩

/-- Inside a body, `CASE` opens a block and `END` closes one. -/
theorem depth_step_body (hn : n.trigger = true) (hdepth : n.depth ≠ 0)
    (hbegin : t.isKeyword "BEGIN" = false) :
    (n.step t).depth + [t].countP (·.isKeyword "END") =
      n.depth + [t].countP (·.isKeyword "CASE") := by
  rw [(step_of_trigger hn t).2, Nesting.depthAfter, List.countP_singleton, List.countP_singleton]
  by_cases hcase : t.isKeyword "CASE" = true
  · have hend := isKeyword_of_clash hcase (l := "END") (by decide)
    simp [hcase, hend, hdepth]
  by_cases hend : t.isKeyword "END" = true
  · simp [hbegin, hcase, hend, Nat.sub_one_add_one hdepth]
  · simp [hbegin, hcase, hend]

/-- Inside a body, with `k` blocks open in it, the depth goes with the words for blocks. As the body
    itself stays open, no semicolon ends the statement. -/
theorem goesOn_body {k : Nat} (hn : n.trigger = true) (hdepth : n.depth = k + 1)
    (hbegin : ∀ t ∈ body, t.isKeyword "BEGIN" = false)
    (hle : ∀ us, us <+: body →
      us.countP (·.isKeyword "END") ≤ us.countP (·.isKeyword "CASE") + k) :
    n.goesOn body = true ∧ (n.after body).trigger = true ∧
      (n.after body).depth + body.countP (·.isKeyword "END") =
        body.countP (·.isKeyword "CASE") + (k + 1) := by
  induction body generalizing n k with
  | nil => exact ⟨rfl, hn, by simpa using hdepth⟩
  | cons t body ih =>
    obtain ⟨ht, hbegin⟩ := List.forall_mem_cons.1 hbegin
    have hopen : n.depth ≠ 0 := by omega
    have hstep := depth_step_body hn hopen ht
    have count (p : Token → Bool) (us : List Token) :
        (t :: us).countP p = [t].countP p + us.countP p := by
      rw [← List.singleton_append, List.countP_append]
    have hprefix (us : List Token) (hus : us <+: body) :
        [t].countP (·.isKeyword "END") + us.countP (·.isKeyword "END") ≤
          [t].countP (·.isKeyword "CASE") + us.countP (·.isKeyword "CASE") + k := by
      have h := hle (t :: us) (List.cons_prefix_cons.2 ⟨rfl, hus⟩)
      rwa [count _ us, count _ us] at h
    -- What `END` closes is not the body.
    have hone := hprefix [] List.nil_prefix
    simp only [List.countP_nil, Nat.add_zero] at hone
    obtain ⟨k', hk'⟩ : ∃ k', (n.step t).depth = k' + 1 := ⟨(n.step t).depth - 1, by omega⟩
    obtain ⟨hgoes, hafter, hcount⟩ := ih (step_of_trigger hn t).1 hk' hbegin fun us hus => by
      have := hprefix us hus
      omega
    rw [goesOn_cons_iff, after_cons, count _ body, count _ body]
    exact ⟨⟨isEnd_of_depth hopen, hgoes⟩, hafter, by omega⟩

/-- The first words say that a trigger is created. -/
theorem goesOn_head (d : TriggerDefinition) :
    Nesting.start.goesOn d.head = true ∧ (Nesting.start.after d.head).trigger = true ∧
      (Nesting.start.after d.head).depth = 0 := by
  have hcreate : Nesting.start.step d.create = ⟨1, true, false, 0⟩ := by
    simp [Nesting.start, step, eqIgnoreAsciiCase_of_isKeyword d.isKeyword_create]
  have htrigger {c : Nat} (hc : c ≤ 2) :
      (⟨c, true, false, 0⟩ : Nesting).step d.trigger =
        ⟨c + 1, if c = 0 then eqIgnoreAsciiCase d.trigger.text "CREATE" else true, true, 0⟩ := by
    simp [step, d.isKeyword_trigger, hc]
  have hend := @isEnd_of_isKeyword
  cases htemporary : d.temporary with
  | none =>
    simp [TriggerDefinition.head, htemporary, goesOn, hcreate, htrigger,
      hend d.isKeyword_create, hend d.isKeyword_trigger]
  | some t =>
    have ht := d.isKeyword_temporary t htemporary
    have hplain : t.isKeyword "TRIGGER" = false :=
      ht.elim (isKeyword_of_clash · (by decide)) (isKeyword_of_clash · (by decide))
    have hnot (n : Nesting) : n.isEnd t = false := ht.elim (hend ·) (hend ·)
    have hstep : (⟨1, true, false, 0⟩ : Nesting).step t = ⟨2, true, false, 0⟩ := by
      simp [step, hplain]
    simp [TriggerDefinition.head, htemporary, goesOn, hcreate, hstep, htrigger, hnot,
      hend d.isKeyword_create, hend d.isKeyword_trigger]

/-- No token before the semicolon of a trigger ends it, and after them no block is open. -/
theorem goesOn_tokens (d : TriggerDefinition) :
    Nesting.start.goesOn d.tokens = true ∧ (Nesting.start.after d.tokens).depth = 0 := by
  obtain ⟨hhead, htrigger, hzero⟩ := goesOn_head d
  obtain ⟨hheader, htrigger, hzero⟩ := goesOn_header htrigger hzero d.header_plain
  -- Before the body, in it, and behind it.
  generalize hn : (Nesting.start.after d.head).after d.header = n at htrigger hzero
  obtain ⟨htrigger, hstep⟩ := step_of_trigger htrigger d.opening
  have hone : (n.step d.opening).depth = 0 + 1 := by
    simp [hstep, Nesting.depthAfter, d.isKeyword_opening, hzero]
  obtain ⟨hbody, htrigger, hcount⟩ := goesOn_body htrigger hone d.body_plain d.balanced.le
  generalize hm : (n.step d.opening).after d.body = m at htrigger hcount
  obtain ⟨-, hlast⟩ := step_of_trigger htrigger d.closing
  have hclosed : (m.step d.closing).depth = 0 := by
    rw [d.balanced.eq] at hcount
    simp [hlast, Nesting.depthAfter, d.isKeyword_closing,
      isKeyword_of_clash d.isKeyword_closing (l := "BEGIN") (by decide),
      isKeyword_of_clash d.isKeyword_closing (l := "CASE") (by decide)]
    omega
  simp only [TriggerDefinition.tokens, goesOn_append, after_append, goesOn_cons_iff, after_cons,
    Bool.and_eq_true, hn, hm]
  exact ⟨⟨⟨⟨hhead, hheader⟩, isEnd_of_isKeyword d.isKeyword_opening, hbody⟩,
    isEnd_of_isKeyword d.isKeyword_closing, rfl⟩, hclosed⟩

/-! ## A trigger among other statements -/

/-- The first word of a trigger is `CREATE`, the second one is not `TABLE`. -/
theorem tokens_eq (d : TriggerDefinition) :
    ∃ t ts, d.tokens = d.create :: t :: ts ∧ t.isKeyword "TABLE" = false := by
  unfold TriggerDefinition.tokens TriggerDefinition.head
  cases htemporary : d.temporary with
  | none => exact ⟨d.trigger, _, rfl, isKeyword_of_clash d.isKeyword_trigger (by decide)⟩
  | some t =>
    have ht := d.isKeyword_temporary t htemporary
    exact ⟨t, _, rfl, ht.elim (isKeyword_of_clash · (by decide)) (isKeyword_of_clash · (by decide))⟩

theorem afterPhrase?_of_isKeyword {s : Stream} {u : Token} {k l : String} {ks : List String}
    (hs : s.significant = t :: u :: ts) (hu : u.isKeyword l = false) :
    s.afterPhrase? (k :: l :: ks) = none := by
  obtain _ | ⟨g, t', _ | ⟨g', u', s⟩⟩ := s
  · cases hs
  · cases hs
  · cases hs
    simp [Stream.afterPhrase?, hu]

/-- The significant tokens of a trigger are one statement, which ends with the semicolon. -/
theorem statement_of_filter (m : Nat) (hus : us.filter Token.isSignificant = d.tokens)
    (vs : List Token) :
    statement (ofTokens m (us ++ d.semicolon :: vs)) =
      .ok (.other ((d.tokens ++ [d.semicolon]).map (·.text))
        ⟨(ofTokens m (us ++ d.semicolon :: vs)).gap.stop, m + us.length + 1⟩,
        ofTokens (m + us.length + 1) vs) := by
  obtain ⟨t, l, htokens, ht⟩ := tokens_eq d
  obtain ⟨hgoes, hdepth⟩ := goesOn_tokens d
  have hend : (Nesting.start.after d.tokens).isEnd d.semicolon = true := by
    simp [isEnd, d.isPunct_semicolon, hdepth]
  have hsignificant : (ofTokens m (us ++ d.semicolon :: vs)).significant =
      d.create :: t :: (l ++ (d.semicolon :: vs).filter Token.isSignificant) := by
    rw [significant_ofTokens, List.filter_append, hus, htokens]
    rfl
  rw [statement_eq, afterPhrase?_of_isKeyword hsignificant ht,
    cutStatement_of_goesOn (by rw [hus]; exact hgoes) (by rw [hus]; exact hend), hus]
  dsimp only
  rw [Stream.start_gap_ofTokens, List.map_append]
  rfl

/-- A trigger is one statement wherever it stands. -/
theorem exists_sentence_of_spells (hts : d.Spells ts) :
    ∃ S : Sentence, ts = S.before ++ S.tokens ∧ S.statement =
      .other ((d.tokens ++ [d.semicolon]).map (·.text)) ⟨0, S.tokens.length⟩ := by
  obtain ⟨us, rfl, hus⟩ := hts
  obtain ⟨t, l, htokens, -⟩ := tokens_eq d
  obtain ⟨w, more, rfl, hw, hcreate, hmore⟩ := List.filter_eq_cons_iff.1 (hus.trans htokens)
  replace hcreate : d.create.isTrivia = false := by simpa [Token.isSignificant] using hcreate
  have htrivia : Trivia w := fun u hu => by simpa [Token.isSignificant] using hw u hu
  have hfilter : (d.create :: more).filter Token.isSignificant = d.tokens := by
    rw [htokens, ← hmore]
    exact filter_isSignificant_append trivia_nil hcreate more
  let st : Statement :=
    .other ((d.tokens ++ [d.semicolon]).map (·.text)) ⟨0, (more ++ [d.semicolon]).length + 1⟩
  -- The position and the tokens that follow are arbitrary.
  refine ⟨⟨w, d.create, more ++ [d.semicolon], st, htrivia, hcreate, fun m vs => ?_⟩,
    by simp [Sentence.tokens], rfl⟩
  have h := statement_of_filter m hfilter vs
  have hlist :
      d.create :: more ++ d.semicolon :: vs = d.create :: (more ++ [d.semicolon]) ++ vs := by
    simp
  rw [hlist] at h
  have hlength : (d.create :: more).length = (more ++ [d.semicolon]).length := by simp
  have hstop : (ofTokens m (d.create :: (more ++ [d.semicolon]) ++ vs)).gap.stop = m := by
    rw [List.cons_append, ofTokens_cons m hcreate]
    rfl
  rw [h, hstop, hlength]
  simp [st, Statement.shift, Statement.mapSpan, Span.shift]
  omega

end Parser

namespace Statement

open SchemaAlign.Parser (Sentence statementsAt statementsAt_sentence_append statementsAt_shift
  exists_sentence_of_spells ofTokens_eq_statementsAt)

variable {d : TriggerDefinition} {ts : List Token}

/-- The tokens of a trigger are one statement, which ends with its own semicolon, however many
    semicolons and blocks its body holds. What follows is read as if it stood alone: its statements
    have every span in them moved, and a fault in it is the same, with the same message, at a
    position moved as far. -/
theorem parse_trigger_append (hts : d.Spells ts) (rest : List Token) :
    (∀ sts, parse rest = .ok sts → parse (ts ++ rest) =
      .ok (other ((d.tokens ++ [d.semicolon]).map (·.text))
        ⟨(ts.takeWhile Token.isTrivia).length, ts.length⟩ :: sts.map (shift 0 ts.length))) ∧
      ∀ e, parse rest = .error e → ∃ fault position, e = .ofMisfit rest ⟨fault, position⟩ ∧
        parse (ts ++ rest) = .error (.ofMisfit (ts ++ rest) ⟨fault, position + ts.length⟩) := by
  obtain ⟨S, rfl, hS⟩ := exists_sentence_of_spells hts
  have hbefore : (S.before ++ S.tokens).takeWhile Token.isTrivia = S.before := by
    rw [List.takeWhile_append_of_pos S.trivia, Sentence.tokens,
      List.takeWhile_cons_of_neg (by simp [S.significant]), List.append_nil]
  have happend := statementsAt_sentence_append 0 S rest
  rw [Nat.zero_add, ← List.length_append] at happend
  have hshift := statementsAt_shift 0 (S.before ++ S.tokens).length rest
  rw [Nat.zero_add, ← ofTokens_eq_statementsAt] at hshift
  rw [hshift, ← ofTokens_eq_statementsAt] at happend
  rw [hbefore]
  simp only [parse, happend]
  cases Statement.ofTokens rest with
  | error m =>
    constructor
    · rintro _ ⟨⟩
    · rintro _ ⟨⟩
      exact ⟨m.fault, m.position, rfl, rfl⟩
  | ok sts =>
    constructor
    · rintro _ ⟨⟩
      simp [Except.map, Except.mapError, hS, shift, mapSpan, Span.shift, Nat.add_comm]
    · rintro _ ⟨⟩

/-- A trigger with a block before its body and nested blocks and semicolons in it, before a table
    and before a table that goes wrong. -/
theorem parse_trigger_append_nested :
    let text := "CREATE TEMP TRIGGER r WHEN CASE a END BEGIN x; SELECT CASE CASE b END END; END"
    let ts := Token.tokenize ("-- r\n" ++ text ++ " /* r */ ;")
    let vs := Token.tokenize " CREATE TABLE t (a)"
    let table : CreateTable :=
      { name := "t", ifNotExists := false, options := [], span := ⟨1, 10⟩
        columns := [{ name := "a", type := none, constraints := [], span := ⟨8, 9⟩ }] }
    let vs' := Token.tokenize " CREATE TABLE t (a"
    ∃ d : TriggerDefinition, d.Spells ts ∧
      d.tokens = (Token.tokenize text).filter Token.isSignificant ∧
      parse vs = .ok [createTable table] ∧
      parse (ts ++ vs) = .ok (other ((d.tokens ++ [d.semicolon]).map (·.text)) ⟨1, 40⟩ ::
        [createTable table].map (shift 0 ts.length)) ∧
      ∃ fault position, parse vs' = .error (.ofMisfit vs' ⟨fault, position⟩) ∧
        parse (ts ++ vs') = .error (.ofMisfit (ts ++ vs') ⟨fault, position + ts.length⟩) := by
  intro text ts vs table vs'
  let d : TriggerDefinition :=
    { create := ⟨.word, "CREATE"⟩
      temporary := some ⟨.word, "TEMP"⟩
      trigger := ⟨.word, "TRIGGER"⟩
      header := (Token.tokenize "r WHEN CASE a END").filter Token.isSignificant
      opening := ⟨.word, "BEGIN"⟩
      body := (Token.tokenize "x; SELECT CASE CASE b END END;").filter Token.isSignificant
      closing := ⟨.word, "END"⟩
      semicolon := .semicolon
      isKeyword_create := by decide
      isKeyword_temporary := by decide
      isKeyword_trigger := by decide
      header_plain := by decide +kernel
      isKeyword_opening := by decide
      body_plain := by decide +kernel
      balanced := by decide +kernel
      isKeyword_closing := by decide
      isPunct_semicolon := by decide }
  have hsplit : ts = ts.dropLast ++ [d.semicolon] ∧
      ts.dropLast.filter Token.isSignificant = d.tokens ∧
      d.tokens = (Token.tokenize text).filter Token.isSignificant ∧
      (ts.takeWhile Token.isTrivia).length = 1 ∧ ts.length = 40 := by decide +kernel
  obtain ⟨hlast, hfilter, htokens, hstart, hstop⟩ := hsplit
  have hts : d.Spells ts := ⟨ts.dropLast, hlast, hfilter⟩
  have hvs : parse vs = .ok [createTable table] := by decide +kernel
  have hvs' : parse vs' = .error (.ofMisfit vs' ⟨.columnOrConstraint, 9⟩) := by decide +kernel
  obtain ⟨fault, position, heq, happend⟩ := (parse_trigger_append hts vs').2 _ hvs'
  refine ⟨d, hts, htokens, hvs, ?_, fault, position, hvs'.trans (congrArg _ heq), happend⟩
  rw [(parse_trigger_append hts vs).1 _ hvs, hstart, hstop]

end Statement

end SchemaAlign
