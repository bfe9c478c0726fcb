import SchemaAlign.Proofs.Parser.Grammar.Complete
import SchemaAlign.Proofs.Token.Trimmed

/-!
# Numbers as default values

A number is written with ASCII digits and a dot behind them, between them or before them, or with no
dot. A sign may stand before it and an exponent behind it. The lexer cuts it into up to six tokens:
letters and digits make up words, while dots and signs stand alone. The parser puts these together
again, but it takes a dot only with a word behind it. So it reads `1.e5`, and no number that ends
with its dot.

* `Numeral`, `Pointed`: the numbers, and those that end with their dot;
* `Unsigned`, `Digital`: how the lexer cuts a number;
* `Digital.lawful`, `Digital.literal`: a number is cut like that before a parenthesis, and read as
  the default value that it spells;
* `parse_default_numeral`: a table with a number for a default value.
-/

namespace SchemaAlign.Parser.Grammar

open Text
open SchemaAlign.Parser.Stream (ofTokens)
open SchemaAlign.Token (Lawful MaximalRun Obeys chars closing lawful_closing render tokenize)

variable {c : Char} {cs ds es sign value power x next : List Char} {us vs w ts : List Token}
  {t : Token} {n : Nat}

/-! ## Numbers -/

/-- ASCII digits, at least one. -/
structure Digits (cs : List Char) : Prop where
  ne_nil : cs ≠ []
  inside : ∀ c ∈ cs, c.isDigit = true

/-- A number without its sign and its exponent. -/
inductive Significand : List Char → Prop
  | whole {ds : List Char} : Digits ds → Significand ds
  | pointed {ds : List Char} : Digits ds → Significand (ds ++ ['.'])
  | decimal {ds es : List Char} : Digits ds → Digits es → Significand (ds ++ '.' :: es)
  | point {es : List Char} : Digits es → Significand ('.' :: es)

/-- The signs, and no sign. -/
def signs : List (List Char) :=
  [[], ['+'], ['-']]

/-- An exponent, or nothing. -/
inductive Power : List Char → Prop
  | none : Power []
  | some {e : Char} {sign ds : List Char} : e = 'e' ∨ e = 'E' → sign ∈ signs → Digits ds →
      Power (e :: (sign ++ ds))

/-- A number with an optional sign. -/
def Numeral (text : String) : Prop :=
  ∃ sign value power, sign ∈ signs ∧ Significand value ∧ Power power ∧
    text.toList = sign ++ value ++ power

/-- A number that ends with its dot. -/
def Pointed (text : String) : Prop :=
  ∃ sign ds, sign ∈ signs ∧ Digits ds ∧ text.toList = sign ++ ds ++ ['.']

/-! ## The tokens of a number -/

/-- A word. -/
def wordOf (cs : List Char) : Token :=
  ⟨.word, String.ofList cs⟩

/-- A sign, if there is one. -/
def signOf : List Char → List Token
  | [] => []
  | c :: cs => [⟨.other, String.ofList (c :: cs)⟩]

/-- The decimal point. -/
def dot : Token :=
  ⟨.punctuation, "."⟩

/-- Word characters, at least one. -/
def Run (cs : List Char) : Prop :=
  cs ≠ [] ∧ ∀ c ∈ cs, isWordChar c = true

/-- The tokens of a number up to the sign of its exponent. -/
inductive Unsigned : List Token → Prop
  | plain {cs : List Char} : Run cs → Unsigned [wordOf cs]
  | decimal {cs ds : List Char} : Run cs → Run ds → Unsigned [wordOf cs, dot, wordOf ds]
  | point {ds : List Char} : Run ds → Unsigned [dot, wordOf ds]

/-- The sign and the digits of an exponent, if it has a sign. -/
inductive SignedPower : List Token → Prop
  | none : SignedPower []
  | some {sign ds : List Char} : sign ∈ signs → sign ≠ [] → Digits ds →
      SignedPower (signOf sign ++ [wordOf ds])

/-- The tokens of a number. -/
inductive Digital : List Token → Prop
  | mk {sign : List Char} {us vs : List Token} : sign ∈ signs → Unsigned us → SignedPower vs →
      (vs ≠ [] → Unfinished (render us)) → Digital (signOf sign ++ us ++ vs)

theorem chars_signOf (sign : List Char) : chars (signOf sign) = sign := by
  cases sign <;> simp [signOf]

theorem isWordChar_of_isDigit (h : c.isDigit = true) : isWordChar c = true := by
  have hc : c.toNat < 0x80 := by
    simp only [Char.isDigit, Bool.and_eq_true, decide_eq_true_eq] at h
    exact Nat.lt_of_le_of_lt h.2 (by decide)
  simp [isWordChar, isAlphanumeric, hc, Char.isAlphanum, h]

theorem Digits.run (h : Digits cs) : Run cs :=
  ⟨h.ne_nil, fun c hc => isWordChar_of_isDigit (h.inside c hc)⟩

theorem Run.append (h : Run cs) (hx : ∀ c ∈ x, isWordChar c = true) : Run (cs ++ x) :=
  ⟨fun hnil => h.1 (List.append_eq_nil_iff.1 hnil).1, List.forall_mem_append.2 ⟨h.2, hx⟩⟩

/-- An exponent without a sign is a part of the word before it. Of one with a sign only its letter
    is. -/
theorem Power.exists_tokens (h : Power power) : ∃ x vs, power = x ++ chars vs ∧ SignedPower vs ∧
    (∀ c ∈ x, isWordChar c = true) ∧ (vs ≠ [] → ∃ c ∈ x.getLast?, c = 'e' ∨ c = 'E') := by
  cases h with
  | none => exact ⟨[], [], rfl, .none, nofun, nofun⟩
  | @some e sign ds he hsign hds =>
    have hletter : isWordChar e = true := by obtain rfl | rfl := he <;> decide
    by_cases hnil : sign = []
    · -- Letter and digits are word characters, so no token begins here.
      subst hnil
      exact ⟨e :: ds, [], by simp, .none, List.forall_mem_cons.2 ⟨hletter, hds.run.2⟩, nofun⟩
    · refine ⟨[e], _, ?_, .some hsign hnil hds, by simpa using hletter, fun _ => ⟨e, rfl, he⟩⟩
      obtain ⟨s, sign, rfl⟩ := List.exists_cons_of_ne_nil hnil
      simp [signOf, wordOf]

/-- A number is cut at its dot. The dot does not stand at the end, or else the number does. -/
theorem Significand.exists_tokens (h : Significand value) (hx : ∀ c ∈ x, isWordChar c = true) :
    (∃ us, Unsigned us ∧ chars us = value ++ x) ∨
      x = [] ∧ ∃ ds, Digits ds ∧ value = ds ++ ['.'] := by
  cases h with
  | whole hds => exact .inl ⟨_, .plain (hds.run.append hx), by simp [wordOf]⟩
  | @pointed ds hds =>
    -- With an exponent, its letter is the word that the dot needs.
    by_cases hnil : x = []
    · exact .inr ⟨hnil, ds, hds, rfl⟩
    · exact .inl ⟨_, .decimal hds.run ⟨hnil, hx⟩, by simp [wordOf, dot]⟩
  | decimal hds hes => exact .inl ⟨_, .decimal hds.run (hes.run.append hx), by simp [wordOf, dot]⟩
  | point hes => exact .inl ⟨_, .point (hes.run.append hx), by simp [wordOf, dot]⟩

theorem Significand.exists_head (h : Significand value) :
    ∃ c ∈ value.head?, c.isDigit = true ∨ c = '.' := by
  have hdigit {ds : List Char} (h : Digits ds) (cs : List Char) :
      ∃ c ∈ (ds ++ cs).head?, c.isDigit = true ∨ c = '.' := by
    obtain ⟨d, ds, rfl⟩ := List.exists_cons_of_ne_nil h.ne_nil
    exact ⟨d, rfl, .inl (h.inside d List.mem_cons_self)⟩
  cases h with
  | whole hds => simpa using hdigit hds []
  | pointed hds | decimal hds => exact hdigit hds _
  | point => exact ⟨'.', rfl, .inr rfl⟩

/-- The tokens of a number that does not end with its dot. -/
theorem Numeral.exists_tokens {text : String} (h : Numeral text) (hpointed : ¬ Pointed text) :
    ∃ ts, Digital ts ∧ text.toList = chars ts := by
  obtain ⟨sign, value, power, hsign, hvalue, hpower, htext⟩ := h
  obtain ⟨x, vs, rfl, hvs, hx, hletter⟩ := hpower.exists_tokens
  obtain ⟨us, hus, hchars⟩ | ⟨rfl, ds, hds, rfl⟩ := hvalue.exists_tokens hx
  -- Where the digits of an exponent stand apart, the word before their sign ends with its letter.
  · have hunfinished (hne : vs ≠ []) : Unfinished (render us) := by
      obtain ⟨c, hc, hfirst⟩ := hvalue.exists_head
      obtain ⟨e, he, hlast⟩ := hletter hne
      constructor
      · refine ⟨c, ?_, hfirst⟩
        rw [Token.toList_render, hchars]
        exact Token.head?_append_of_mem hc
      · refine ⟨e, ?_, hlast⟩
        rw [Token.toList_render, hchars, List.getLast?_append, he]
        rfl
    refine ⟨_, .mk hsign hus hvs hunfinished, ?_⟩
    rw [htext, Token.chars_append, Token.chars_append, hchars, chars_signOf]
    simp
  · -- The exponent begins with a word, so there is none.
    have hvs : vs = [] := by
      refine Decidable.byContradiction fun hne => ?_
      obtain ⟨_, hc, -⟩ := hletter hne
      cases hc
    subst hvs
    exact absurd ⟨sign, ds, hsign, hds, by simpa using htext⟩ hpointed

/-! ## How a number is cut and read -/

theorem Run.obeys (h : Run cs) (hnext : ∀ c ∈ next.head?, isWordChar c = false) :
    Obeys .word (wordOf cs).text.toList next := by
  rw [wordOf, String.toList_ofList]
  exact .word ⟨h.1, h.2, hnext⟩

theorem Unsigned.lawful (h : Unsigned us) (hvs : Lawful vs)
    (hhead : ∀ c ∈ (chars vs).head?, isWordChar c = false) : Lawful (us ++ vs) := by
  have hdot (next : List Char) : Obeys dot.kind dot.text.toList next := .punctuation (by decide)
  cases h with
  | plain hcs => exact ⟨hcs.obeys hhead, hvs⟩
  | decimal hcs hds => exact ⟨hcs.obeys (by rintro c ⟨⟩; decide), hdot _, hds.obeys hhead, hvs⟩
  | point hds => exact ⟨hdot _, hds.obeys hhead, hvs⟩

/-- A sign stands alone before a digit or a dot. -/
theorem lawful_signOf (hsign : sign ∈ signs) (hvs : Lawful vs)
    (hhead : ∀ c ∈ (chars vs).head?, c ≠ '-') : Lawful (signOf sign ++ vs) := by
  have hobeys {c : Char} (hc : c = '+' ∨ c = '-') :
      Obeys .other (String.ofList [c]).toList (chars vs) := by
    rw [String.toList_ofList]
    have hline : ¬ (c = '-' ∧ (chars vs).head? = some '-') := fun h => hhead _ h.2 rfl
    obtain rfl | rfl := hc <;>
      exact .other (by decide) (by decide) (by decide) (by decide) hline (by simp)
  simp only [signs, List.mem_cons, List.not_mem_nil, or_false] at hsign
  obtain rfl | rfl | rfl := hsign
  · exact hvs
  · exact ⟨hobeys (.inl rfl), hvs⟩
  · exact ⟨hobeys (.inr rfl), hvs⟩

theorem Unsigned.exists_head (h : Unsigned us) : ∃ c cs, chars us = c :: cs ∧ c ≠ '-' := by
  have hword {cs : List Char} (hcs : Run cs) (us : List Token) :
      ∃ c ds, chars (wordOf cs :: us) = c :: ds ∧ c ≠ '-' := by
    obtain ⟨c, cs, rfl⟩ := List.exists_cons_of_ne_nil hcs.1
    refine ⟨c, cs ++ chars us, by simp [wordOf], ?_⟩
    rintro rfl
    exact absurd (hcs.2 _ List.mem_cons_self) (by decide)
  cases h with
  | plain hcs | decimal hcs => exact hword hcs _
  | point => exact ⟨'.', _, rfl, by decide⟩

theorem lawful_signed (hsign : sign ∈ signs) (hus : Unsigned us) (hvs : Lawful vs)
    (hhead : ∀ c ∈ (chars vs).head?, isWordChar c = false) :
    Lawful (signOf sign ++ (us ++ vs)) := by
  obtain ⟨c, cs, hchars, hc⟩ := hus.exists_head
  refine lawful_signOf hsign (hus.lawful hvs hhead) ?_
  rw [Token.chars_append, hchars]
  rintro c ⟨⟩
  exact hc

/-- A number is cut into its tokens before what can neither go on with a word nor make a comment of
    a sign. -/
theorem Digital.lawful (h : Digital ts) (hvs : Lawful vs)
    (hhead : ∀ c ∈ (chars vs).head?, isWordChar c = false) : Lawful (ts ++ vs) := by
  obtain ⟨hsign, hus, hpower, -⟩ := h
  rw [List.append_assoc, List.append_assoc]
  cases hpower with
  | none => exact lawful_signed hsign hus hvs hhead
  | some hsign' hne hds =>
    have hpower := lawful_signed hsign' (.plain hds.run) hvs hhead
    rw [List.append_assoc]
    refine lawful_signed hsign hus hpower ?_
    simp only [signs, List.mem_cons, List.not_mem_nil, or_false] at hsign'
    obtain rfl | rfl | rfl := hsign'
    · exact absurd rfl hne
    all_goals rintro c ⟨⟩; decide

/-! ### Reading -/

theorem Unsigned.mantissa (h : Unsigned us) (hw : Trivia w) (n : Nat) (vs : List Token) :
    Mantissa (ofTokens n (w ++ (us ++ vs))) (render us)
      (ofTokens (n + w.length + us.length) vs) := by
  have hword {cs : List Char} (hcs : Run cs) : (wordOf cs).Shaped := ⟨[], hcs.obeys nofun⟩
  cases h with
  | @plain cs hcs =>
    rw [List.singleton_append, ofTokens_append n hw rfl]
    have hrender : render [wordOf cs] = (wordOf cs).text := by simp [render]
    rw [hrender]
    exact .plain (.mk (.inl rfl) (hword hcs))
  | @decimal cs ds hcs hds =>
    have hrender : render [wordOf cs, dot, wordOf ds] =
      (wordOf cs).text ++ ("." ++ (wordOf ds).text) := by
        simp [render, String.ofList_append, dot]
    rw [hrender, List.cons_append, ofTokens_append n hw rfl, List.cons_append, ofTokens_cons _ rfl,
      List.singleton_append, ofTokens_cons _ rfl]
    exact .decimal (.mk (.inl rfl) (hword hcs)) (.mk rfl rfl)
  | @point ds hds =>
    have hrender : render [dot, wordOf ds] = "." ++ (wordOf ds).text := by
      simp [render, dot]
    rw [hrender, List.cons_append, ofTokens_append n hw rfl, List.singleton_append,
      ofTokens_cons _ rfl]
    exact .point (.mk rfl rfl)

/-- The sign is read, and what is left has no gap unless there was no sign. -/
theorem sign_signOf (hsign : sign ∈ signs) (hw : Trivia w) (n : Nat) (ts : List Token) :
    ∃ m w', Trivia w' ∧ m + w'.length = n + w.length + (signOf sign).length ∧
      Sign (ofTokens n (w ++ (signOf sign ++ ts))) (String.ofList sign)
        (ofTokens m (w' ++ ts)) := by
  have hpresent {cs : List Char} (hsign : isSign ⟨.other, String.ofList cs⟩ = true) :
      Sign (ofTokens n (w ++ (⟨.other, String.ofList cs⟩ :: ts))) (String.ofList cs)
        (ofTokens (n + w.length + 1) ts) := by
    rw [ofTokens_append n hw rfl]
    exact .present hsign
  simp only [signs, List.mem_cons, List.not_mem_nil, or_false] at hsign
  obtain rfl | rfl | rfl := hsign
  · exact ⟨n, w, hw, rfl, .absent⟩
  all_goals exact ⟨_, [], trivia_nil, rfl, hpresent (by decide)⟩

theorem SignedPower.exponent (h : SignedPower us) (hne : us ≠ []) (n : Nat) (vs : List Token) :
    Exponent (ofTokens n (us ++ vs)) (render us) (ofTokens (n + us.length) vs) := by
  cases h with
  | none => exact absurd rfl hne
  | @some sign ds hsign hsome hds =>
    have hpower (cs : List Char) (hsign : isSign ⟨.other, String.ofList cs⟩ = true) :
        Exponent (ofTokens n (⟨.other, String.ofList cs⟩ :: wordOf ds :: vs))
          (String.ofList cs ++ (wordOf ds).text) (ofTokens (n + 1 + 1) vs) := by
      rw [ofTokens_cons n rfl, ofTokens_cons (n + 1) rfl]
      refine .mk ?_
      simp only [isExponent, hsign, wordOf, String.toList_ofList, List.all_eq_true.2 hds.inside]
      rfl
    simp only [signs, List.mem_cons, List.not_mem_nil, or_false] at hsign
    obtain rfl | rfl | rfl := hsign
    · exact absurd rfl hsome
    · simpa [render, signOf, wordOf] using hpower ['+'] (by decide)
    · simpa [render, signOf, wordOf] using hpower ['-'] (by decide)

/-- The tokens of a number are read as the number. -/
theorem Digital.literal (h : Digital ts) (hw : Trivia w) (n : Nat) (vs : List Token) :
    Literal (ofTokens n (w ++ (ts ++ vs))) (render ts)
      (ofTokens (n + w.length + ts.length) vs) := by
  obtain @⟨sign, us, es, hsign, hus, hpower, hunfinished⟩ := h
  obtain ⟨m, w', hw', hm, hsigned⟩ := sign_signOf hsign hw n (us ++ (es ++ vs))
  have hmantissa := hus.mantissa hw' m (es ++ vs)
  have hrender : render (signOf sign ++ us ++ es) =
      String.ofList sign ++ render us ++ render es := by
    simp only [render, Token.chars_append, String.ofList_append, chars_signOf]
  have hstop : n + w.length + (signOf sign ++ us ++ es).length =
      m + w'.length + us.length + es.length := by
    simp only [List.length_append]
    omega
  rw [hrender, hstop, List.append_assoc, List.append_assoc]
  by_cases hnil : es = []
  · subst hnil
    have hempty : render ([] : List Token) = "" := rfl
    rw [hempty, String.append_empty]
    exact .plain hsigned hmantissa
  · exact .scientific hsigned hmantissa (hunfinished hnil) (hpower.exponent hnil _ vs)

/-! ## A column with a default value -/

/-- A blank. -/
def blank : Token :=
  ⟨.whitespace, " "⟩

/-- The tokens before the default value. -/
def preamble : List Token :=
  [⟨.word, "CREATE"⟩, blank, ⟨.word, "TABLE"⟩, blank, ⟨.word, "t"⟩, blank, ⟨.punctuation, "("⟩,
   ⟨.word, "a"⟩, blank, ⟨.word, "DEFAULT"⟩, blank]

/-- The stream up to a default value, and the stream from there on. -/
def upTo (s : Stream) : Stream :=
  .item ⟨0, []⟩ ⟨.word, "CREATE"⟩ (.item ⟨1, [blank]⟩ ⟨.word, "TABLE"⟩
    (.item ⟨3, [blank]⟩ ⟨.word, "t"⟩ (.item ⟨5, [blank]⟩ ⟨.punctuation, "("⟩
      (.item ⟨7, []⟩ ⟨.word, "a"⟩ (.item ⟨8, [blank]⟩ ⟨.word, "DEFAULT"⟩ s)))))

theorem trivia_blank : Trivia [blank] :=
  List.forall_mem_singleton.2 rfl

theorem ofTokens_preamble (ts : List Token) :
    ofTokens 0 (preamble ++ ts) = upTo (ofTokens 10 ([blank] ++ ts)) :=
  rfl

/-- The table with a column that has the default value and nothing else, where `n` is the position
    of the closing parenthesis. -/
def tableOfDefault (value : String) (n : Nat) : CreateTable :=
  { name := "t", ifNotExists := false, options := [], span := ⟨0, n + 1⟩
    columns :=
      [{ name := "a", type := none, span := ⟨7, n⟩,
         constraints := [{ name := none, rule := .defaultsTo value, span := ⟨9, n⟩ }] }] }

/-- The tokens of the statement, if the default value is cut into the given ones. -/
theorem tokenize_default {text : String} (hts : Lawful (t :: ts ++ [closing]))
    (ht : t.isTrivia = false) (htext : text.toList = chars (t :: ts)) :
    tokenize ("CREATE TABLE t (a DEFAULT " ++ text ++ ")") =
      preamble ++ (t :: ts ++ [closing]) := by
  have hpreamble : Lawful preamble := by
    have h : Token.ofChars (chars preamble) = preamble := by decide +kernel
    exact h ▸ Token.lawful_ofChars _
  have hlawful : Lawful (preamble ++ (t :: ts ++ [closing])) := by
    refine hpreamble.append ?_ hts
    -- The value begins with no blank, so it ends the one before it.
    rintro _ ⟨⟩
    obtain ⟨c, cs, hc⟩ := List.exists_cons_of_ne_nil hts.1.ne_nil
    have hblank : isBlank c = false := (hc ▸ hts.1).isBlank_head (Token.kind_ne_whitespace ht)
    refine .whitespace ⟨List.cons_ne_nil _ _, List.forall_mem_singleton.2 rfl, ?_⟩
    rw [List.cons_append, Token.chars_cons, hc]
    rintro c ⟨⟩
    exact hblank
  have hchars : ("CREATE TABLE t (a DEFAULT " ++ text ++ ")").toList =
      chars (preamble ++ (t :: ts ++ [closing])) := by
    rw [String.toList_append, String.toList_append, htext, Token.chars_append, Token.chars_append,
      List.append_assoc]
    rfl
  rw [tokenize, hchars, hlawful.ofChars_chars]

theorem tableAt_upTo {s : Stream} {value : String} (n : Nat)
    (h : Literal s value (ofTokens n [closing])) :
    TableAt (upTo s) (tableOfDefault value n) (ofTokens (n + 1) []) := by
  have hconstraint : ConstraintAt (.item ⟨8, [blank]⟩ ⟨.word, "DEFAULT"⟩ s) _ _ :=
    .mk .none (.literal (.cons rfl .nil) h)
  have hcolumn : ColumnAt (.item ⟨7, []⟩ ⟨.word, "a"⟩ _) _ _ :=
    .mk rfl (.word rfl) .none (.cons hconstraint .nil)
  exact .mk (.cons rfl (.cons rfl .nil)) .absent (fun _ => rfl) (.plain (.word rfl)) (.mk rfl)
    (.some (.last hcolumn)) (.mk rfl) .none .bare

theorem Mark.constraint? {m : String} {s r : Stream} (h : Mark m s r) :
    constraint? s = .ok (none, s) := by
  have hno (k : String) : Parser.keyword? k s = .ok (false, s) := by
    simp only [Parser.keyword?, Parser.phrase?, h.afterPhrase?]
  simp only [Parser.constraint?, Parser.constraintName?, Parser.rule?, spanned, run_bind, run_get,
    run_pure, hno, Bool.false_eq_true, if_false, Option.isSome_none, Bool.false_and,
    Option.map_none]

/-- A column with a default value ends where a mark follows. -/
theorem column?_of_default {s s₁ s₂ r r' : Stream} {name value m : String}
    (hfirst : s.headIs (isOneOf tableConstraintKeywords) = false) (hname : Name s name s₁)
    (hdefault : Keywords ["DEFAULT"] s₁ s₂) (h : defaultValue s₂ = .ok (value, r))
    (hr : Mark m r r') : ∃ c, column? s = .ok (some c, r) := by
  have hbefore : Before ruleStarts s₁ := .phrase (by decide) hdefault
  have hnone : constraintName? s₁ = .ok (none, s₁) := Maybe.none.constraintName? hbefore
  have htype : typeName? s₁ = .ok (none, s₁) := Maybe.none.typeName? (hbefore.mono (by decide))
  have hrule : rule? s₁ = .ok (some (.defaultsTo value), r) := by
    rw [hdefault.rule? 5 rfl]
    simp only [run_bind, h, run_pure]
  obtain ⟨k, hconstraint⟩ : ∃ k, constraint? s₁ = .ok (some k, r) := by
    simp only [Parser.constraint?, spanned, run_bind, run_get, run_pure, hnone, hrule,
      Option.isNone_some, Bool.and_false, Bool.false_eq_true, if_false, Option.map_some]
    exact ⟨_, rfl⟩
  have hconstraints := many_of_some hconstraint ((finding_rule? _ _ _ hrule).2 rfl)
    (many_of_none hr.constraint?)
  simp only [Parser.column?, spanned, nextIs, run_bind, run_get, run_pure, hfirst,
    Bool.false_eq_true, if_false, hname.name?, htype, hconstraints, Option.map_some]
  exact ⟨_, rfl⟩

/-- Only a comma or the closing parenthesis may stand behind a column. -/
theorem columns_of_mark {s r r' : Stream} {column : Column} {m : String}
    (h : column? s = .ok (some column, r)) (hr : Mark m r r') (hcomma : m ≠ ",")
    (hclose : m ≠ ")") :
    columns s = .error ⟨.columnOrConstraint, r.gap.stop⟩ := by
  refine run_bind_eq (?rounds : _ = Except.ok ([column], r)) ?close
  case rounds =>
    rw [rounds]
    simp only [run_bind, h, hr.punct?_of_ne hcomma, Bool.false_eq_true, if_false, run_pure]
  case close =>
    simp only [expectPunct, run_bind, hr.punct?_of_ne hclose, Bool.false_eq_true, if_false]
    rfl

/-- A fault in the columns is one of the statement. -/
theorem statement_of_columns {s s₁ s₂ s₃ : Stream} {name : String} {e : Misfit}
    (hcreate : Keywords ["CREATE", "TABLE"] s s₁) (hif : s₁.headIs (·.isKeyword "IF") = false)
    (hname : TableName s₁ name s₂) (hopen : Mark "(" s₂ s₃) (h : columns s₃ = .error e) :
    statement s = .error e := by
  have hflag : ifNotExists s₁ = .ok (false, s₁) := Flag.absent.ifNotExists fun _ => hif
  rw [statement_eq, hcreate.afterPhrase?]
  simp only [tableBody, run_bind, hflag, hname.tableName hopen, hopen.expectPunct, h]

/-- Behind the default value, a mark that does not end the column is an error. -/
theorem statements_upTo {s r r' : Stream} {value m : String}
    (h : defaultValue s = .ok (value, r)) (hr : Mark m r r') (hcomma : m ≠ ",") (hclose : m ≠ ")") :
    statements (upTo s) = .error ⟨.columnOrConstraint, r.gap.stop⟩ := by
  have hdefault : Keywords ["DEFAULT"] (.item ⟨8, [blank]⟩ ⟨.word, "DEFAULT"⟩ s) s :=
    .cons rfl .nil
  obtain ⟨c, hcolumn⟩ := column?_of_default (s := .item ⟨7, []⟩ ⟨.word, "a"⟩ _) rfl (.word rfl)
    hdefault h hr
  have hstatement : statement (upTo s) = .error ⟨.columnOrConstraint, r.gap.stop⟩ :=
    statement_of_columns (.cons rfl (.cons rfl .nil)) rfl (.plain (.word rfl)) (.mk rfl)
      (columns_of_mark hcolumn hr hcomma hclose)
  rw [upTo] at hstatement ⊢
  rw [statements_item, hstatement]
  rfl

/-- A dot that no word follows is left. -/
theorem defaultValue_pointed (hsign : sign ∈ signs) (hds : Digits ds) (hw : Trivia w) (n : Nat)
    (vs : List Token) : ∃ value m, m = n + w.length + (signOf sign).length + 1 ∧
      defaultValue (ofTokens n (w ++ (signOf sign ++ wordOf ds :: dot :: closing :: vs))) =
        .ok (value, ofTokens m (dot :: closing :: vs)) := by
  have hparenthesis : (ofTokens n (w ++ (signOf sign ++ wordOf ds :: dot :: closing :: vs))).headIs
      (·.isPunct "(") = false := by
    cases sign with
    | nil => rw [signOf, List.nil_append, ofTokens_append n hw rfl]; rfl
    | cons => rw [signOf, List.singleton_append, ofTokens_append n hw rfl]; rfl
  obtain ⟨m, w', hw', hm, hsigned⟩ := sign_signOf hsign hw n (wordOf ds :: dot :: closing :: vs)
  rw [ofTokens_append m hw' rfl] at hsigned
  generalize hrest : ofTokens (m + w'.length + 1) (dot :: closing :: vs) = r at hsigned
  -- The dot is no string and no sign, and no word follows it, so the number ends before it.
  have hvalue (value : String) (hsome : isBareSign value = false) :
      literalRest value r = .ok (value, r) := by
    rw [ofTokens_cons _ rfl, ofTokens_cons _ rfl] at hrest
    subst hrest
    exact literalRest_of_exponent (blob?_of_headIs value rfl) rfl (exponent_of_headIs value rfl)
      hsome
  refine ⟨String.ofList sign ++ (wordOf ds).text, m + w'.length + 1, by omega, ?_⟩
  have hsome : isBareSign (String.ofList sign ++ (wordOf ds).text) = false := by
    obtain ⟨d, ds, rfl⟩ := List.exists_cons_of_ne_nil hds.ne_nil
    have hd := hds.inside d List.mem_cons_self
    refine isBareSign_eq_false (c := d) (by simp [wordOf]) ?_ ?_ <;>
      (rintro rfl; exact absurd hd (by decide))
  simp only [defaultValue, nextIs, run_bind, run_get, run_pure, hparenthesis, Bool.false_eq_true,
    if_false, literal, hsigned.sign rfl, hrest]
  exact hvalue _ hsome

theorem exists_cons_signOf (ht : t.isTrivia = false) (sign : List Char) (ts : List Token) :
    ∃ u us, signOf sign ++ t :: ts = u :: us ∧ u.isTrivia = false := by
  cases sign with
  | nil => exact ⟨t, ts, rfl, ht⟩
  | cons c cs => exact ⟨_, _, rfl, rfl⟩

theorem Digital.exists_cons (h : Digital ts) : ∃ t us, ts = t :: us ∧ t.isTrivia = false := by
  obtain @⟨sign, _, es, -, hus, -, -⟩ := h
  rw [List.append_assoc]
  cases hus <;> exact exists_cons_signOf rfl sign _

theorem parse_of_not_pointed {text : String} (h : Numeral text) (hpointed : ¬ Pointed text) :
    ∃ n, (tokenize ("CREATE TABLE t (a DEFAULT " ++ text ++ ")")).length = n + 1 ∧
      Statement.parse (tokenize ("CREATE TABLE t (a DEFAULT " ++ text ++ ")")) =
        .ok [.createTable (tableOfDefault text n)] := by
  obtain ⟨ts, hts, htext⟩ := h.exists_tokens hpointed
  obtain ⟨t, us, rfl, ht⟩ := hts.exists_cons
  have hclose : ∀ c ∈ (chars [closing]).head?, isWordChar c = false := by rintro c ⟨⟩; decide
  have htokens := tokenize_default (hts.lawful lawful_closing hclose) ht htext
  have hstatements := (tableAt_upTo _ (hts.literal trivia_blank 10 [closing])).statements rfl
  have hrender : render (t :: us) = text := by rw [render, ← htext, String.ofList_toList]
  refine ⟨11 + (t :: us).length, ?_, ?_⟩
  · rw [htokens, List.length_append, List.length_append, ← Nat.add_assoc]
    rfl
  · rw [Statement.parse, Statement.ofTokens, htokens, ofTokens_preamble, ← hrender]
    exact congrArg _ (congrArg _ hstatements)

/-- The dot at the end of a number is where the parser stops. -/
theorem parse_of_pointed {text : String} (h : Pointed text) :
    ∃ n, (tokenize ("CREATE TABLE t (a DEFAULT " ++ text ++ ")"))[n]? = some dot ∧
      Statement.parse (tokenize ("CREATE TABLE t (a DEFAULT " ++ text ++ ")")) =
        .error (.ofMisfit (tokenize ("CREATE TABLE t (a DEFAULT " ++ text ++ ")"))
          ⟨.columnOrConstraint, n⟩) := by
  obtain ⟨sign, ds, hsign, hds, htext⟩ := h
  obtain ⟨u, us, hcons, hu⟩ := exists_cons_signOf (t := wordOf ds) rfl sign [dot]
  have hchars : text.toList = chars (u :: us) := by
    rw [← hcons, Token.chars_append, chars_signOf, htext]
    simp [wordOf, dot]
  have hdot : Lawful [dot, closing] := ⟨.punctuation (by decide), lawful_closing⟩
  have hsigned : Lawful (signOf sign ++ ([wordOf ds] ++ [dot, closing])) :=
    lawful_signed hsign (.plain hds.run) hdot (by rintro c ⟨⟩; decide)
  have hlawful : Lawful (u :: us ++ [closing]) := by
    rwa [← hcons, List.append_assoc]
  have htokens := tokenize_default hlawful hu hchars
  obtain ⟨value, m, rfl, hdefault⟩ := defaultValue_pointed hsign hds trivia_blank 10 []
  have hstatements := statements_upTo hdefault (m := ".") (.mk rfl) (by decide) (by decide)
  refine ⟨10 + [blank].length + (signOf sign).length + 1, ?_, ?_⟩
  · have hlength : (preamble ++ (signOf sign ++ [wordOf ds])).length =
        10 + [blank].length + (signOf sign).length + 1 := by
      simp [preamble]
      omega
    have hsplit : preamble ++ (signOf sign ++ [wordOf ds, dot] ++ [closing]) =
        preamble ++ (signOf sign ++ [wordOf ds]) ++ [dot, closing] := by simp
    rw [htokens, ← hcons, hsplit, ← hlength, List.getElem?_append_right (Nat.le_refl _),
      Nat.sub_self]
    rfl
  · rw [Statement.parse, Statement.ofTokens, htokens, ofTokens_preamble, ← hcons,
      List.append_assoc]
    exact congrArg _ (congrArg _ hstatements)

/-- A table with a number for the default value of its column is read as such, with the number as it
    is written, unless the number ends with its dot. In this case the dot is an error. -/
theorem parse_default_numeral {text : String} (h : Numeral text) :
    let tokens := tokenize ("CREATE TABLE t (a DEFAULT " ++ text ++ ")")
    (¬ Pointed text → ∃ n, tokens.length = n + 1 ∧
      Statement.parse tokens = .ok [.createTable (tableOfDefault text n)]) ∧
    (Pointed text → ∃ n, tokens[n]? = some dot ∧
      Statement.parse tokens = .error (.ofMisfit tokens ⟨.columnOrConstraint, n⟩)) :=
  ⟨parse_of_not_pointed h, parse_of_pointed⟩

/-- Of a number with all its parts, the lexer makes six tokens. -/
theorem parse_default_numeral_six : ∃ n,
    Statement.parse (tokenize "CREATE TABLE t (a DEFAULT -2.5E+10)") =
      .ok [.createTable (tableOfDefault "-2.5E+10" n)] := by
  have hdigits {cs : List Char} (hne : cs ≠ []) (h : cs.all Char.isDigit = true) : Digits cs :=
    ⟨hne, List.all_eq_true.1 h⟩
  have hvalue : Significand (['2'] ++ '.' :: ['5']) :=
    .decimal (hdigits (by decide) (by decide)) (hdigits (by decide) (by decide))
  have hpower : Power ('E' :: (['+'] ++ ['1', '0'])) :=
    .some (.inr rfl) (by decide) (hdigits (by decide) (by decide))
  have h : Numeral "-2.5E+10" := ⟨['-'], _, _, by decide, hvalue, hpower, rfl⟩
  have hpointed : ¬ Pointed "-2.5E+10" := by
    rintro ⟨sign, ds, -, -, htext⟩
    have := congrArg List.getLast? htext
    rw [List.getLast?_concat] at this
    exact absurd this (by decide)
  exact ((parse_default_numeral h).1 hpointed).imp fun n h => h.2

/-- The number `1.` is not read as a default value. -/
theorem parse_default_pointed : Numeral "1." ∧
    ∀ sts, Statement.parse (tokenize "CREATE TABLE t (a DEFAULT 1.)") ≠ .ok sts := by
  have hdigit : Digits ['1'] := ⟨by decide, List.forall_mem_singleton.2 rfl⟩
  refine ⟨⟨[], ['1', '.'], [], by decide, .pointed hdigit, .none, rfl⟩, fun sts h => ?_⟩
  have hfails : (Statement.parse (tokenize "CREATE TABLE t (a DEFAULT 1.)")).toOption = none := by
    decide +kernel
  rw [h] at hfails
  cases hfails

end SchemaAlign.Parser.Grammar
