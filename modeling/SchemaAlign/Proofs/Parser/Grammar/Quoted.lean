import SchemaAlign.Proofs.Parser.Grammar.Value
import SchemaAlign.Proofs.Token.Excerpt

/-!
# Texts in quotes

A text is put in quotes by writing every quote in it twice, with one more at either end. Reading
takes the two ends away and each pair of quotes inside as one. It does not ask whether every quote
inside has a second one: a quote that has none stands for itself. So what was put in quotes is read
back, but more is read than was ever put in quotes, `'a'b'` for one.

The lexer pairs the quotes from the left, and a string whose last quote is one of a pair is open.
Reading sees its last quote as the end all the same, and the one before it as a character.

* `quote`: a string in quotes;
* `IsQuoted`: the texts that have the form of a string in quotes;
* `Stands`: what the characters between two quotes are read as;
* `unquote?_eq_some`, `exists_quote_eq`: which texts are read, and which of them are strings in
  quotes;
* `Shaped.exists_double`, `unquote?_of_opened`: the string tokens of a text, closed or open;
* `unquote?_iff_quote`: all of this together.
-/

namespace SchemaAlign.Token

open Text Parser.Grammar

variable {c q : Char} {cs ds : List Char} {s text : String} {t : Token} {ts : List Token}

/-- The string in quotes `q`, with every such quote in it written twice. -/
def quote (q : Char) (s : String) : String :=
  String.ofList (q :: (double q s.toList ++ [q]))

/-- The text stands between two equal quotes, and each quote of their kind between them is one of
    two in a row. -/
def IsQuoted (text : String) : Prop :=
  ∃ q body, isQuote q = true ∧ text.toList = q :: (body ++ [q]) ∧ Paired q body

/-- What the characters between two quotes `q` stand for: a pair of quotes, taken from the left,
    for one, and any other character for itself. -/
inductive Stands (q : Char) : List Char → List Char → Prop
  | nil : Stands q [] []
  | char {c : Char} {cs ds : List Char} : c ≠ q → Stands q cs ds → Stands q (c :: cs) (c :: ds)
  | pair {cs ds : List Char} : Stands q cs ds → Stands q (q :: q :: cs) (q :: ds)
  | lone {cs ds : List Char} : cs.head? ≠ some q → Stands q cs ds → Stands q (q :: cs) (q :: ds)

/-! ## Reading pairs as one -/

theorem halveQuotes_cons_of_ne (hc : c ≠ q) (cs : List Char) :
    halveQuotes q (c :: cs) = c :: halveQuotes q cs := by
  cases cs with
  | nil => rfl
  | cons d ds => rw [halveQuotes, if_neg fun h => hc h.1]

theorem halveQuotes_cons_of_head? (hcs : cs.head? ≠ some q) (c : Char) :
    halveQuotes q (c :: cs) = c :: halveQuotes q cs := by
  cases cs with
  | nil => rfl
  | cons d ds => rw [halveQuotes, if_neg fun h => hcs (congrArg some h.2)]

theorem stands_halveQuotes (q : Char) (cs : List Char) : Stands q cs (halveQuotes q cs) := by
  fun_induction halveQuotes q cs with
  | case1 a b rest h ih =>
    obtain ⟨rfl, rfl⟩ := h
    exact .pair ih
  | case2 a b rest h ih =>
    by_cases ha : a = q
    · subst ha
      exact .lone (fun hb => h ⟨rfl, Option.some.inj hb⟩) ih
    · exact .char ha ih
  | case3 a =>
    by_cases ha : a = q
    · subst ha
      exact .lone nofun .nil
    · exact .char ha .nil
  | case4 => exact .nil

theorem Stands.halveQuotes_eq (h : Stands q cs ds) : halveQuotes q cs = ds := by
  induction h with
  | nil => rfl
  | char hc _ ih => rw [halveQuotes_cons_of_ne hc, ih]
  | pair _ ih => rw [halveQuotes, if_pos ⟨rfl, rfl⟩, ih]
  | lone hcs _ ih => rw [halveQuotes_cons_of_head? hcs, ih]

/-- Which texts are read, and as what. -/
theorem unquote?_eq_some : unquote? text = some s ↔
    ∃ q body, isQuote q = true ∧ text.toList = q :: (body ++ [q]) ∧ Stands q body s.toList := by
  unfold unquote?
  constructor
  · intro h
    split at h
    · next q rest htext =>
      split at h
      · next hends =>
        obtain ⟨hq, hlast⟩ : isQuote q = true ∧ rest.getLast? = some q := by simpa using hends
        have hs : String.ofList (halveQuotes q rest.dropLast) = s := Option.some.inj h
        refine ⟨q, rest.dropLast, hq, ?_, ?_⟩
        · rw [htext, List.dropLast_append_getLast? q hlast]
        · rw [← hs, String.toList_ofList]
          exact stands_halveQuotes q rest.dropLast
      · cases h
    · cases h
  · rintro ⟨q, body, hq, htext, hstands⟩
    simp only [htext, hq, List.getLast?_concat, List.dropLast_concat, beq_self_eq_true,
      Bool.and_self, if_true, hstands.halveQuotes_eq, String.ofList_toList]

/-! ## Writing quotes twice -/

theorem double_nil (q : Char) : double q [] = [] := rfl

theorem double_cons_self (q : Char) (cs : List Char) :
    double q (q :: cs) = q :: q :: double q cs := by
  simp [double]

theorem double_cons_of_ne (hc : c ≠ q) (cs : List Char) :
    double q (c :: cs) = c :: double q cs := by
  simp [double, hc]

theorem paired_double (q : Char) (cs : List Char) : Paired q (double q cs) := by
  induction cs with
  | nil => exact .nil
  | cons c cs ih =>
    by_cases hc : c = q
    · subst hc
      rw [double_cons_self]
      exact .pair ih
    · rw [double_cons_of_ne hc]
      exact .char hc ih

/-- Where every quote is one of two, reading takes back that quotes were written twice. -/
theorem Stands.eq_double (h : Stands q cs ds) (hcs : Paired q cs) : cs = double q ds := by
  induction h with
  | nil => rfl
  | char hc _ ih =>
    cases hcs with
    | char _ hcs => rw [double_cons_of_ne hc, ← ih hcs]
    | pair => exact absurd rfl hc
  | pair _ ih =>
    cases hcs with
    | char hq => exact absurd rfl hq
    | pair hcs => rw [double_cons_self, ← ih hcs]
  | lone hhead =>
    -- A quote that no other follows is not one of two.
    cases hcs with
    | char hq => exact absurd rfl hq
    | pair => exact absurd rfl hhead

theorem Paired.exists_double (h : Paired q cs) : ∃ s : String, cs = double q s.toList :=
  ⟨String.ofList (halveQuotes q cs), by
    rw [String.toList_ofList]
    exact (stands_halveQuotes q cs).eq_double h⟩

theorem Stands.double_append (h : Stands q cs ds) (es : List Char) :
    Stands q (double q es ++ cs) (es ++ ds) := by
  induction es with
  | nil => exact h
  | cons e es ih =>
    by_cases he : e = q
    · subst he
      rw [double_cons_self]
      exact .pair ih
    · rw [double_cons_of_ne he]
      exact .char he ih

theorem stands_double (q : Char) (cs : List Char) : Stands q (double q cs) cs := by
  have h := Stands.nil (q := q).double_append cs
  rwa [List.append_nil, List.append_nil] at h

theorem toList_quote (q : Char) (s : String) :
    (quote q s).toList = q :: (double q s.toList ++ [q]) :=
  String.toList_ofList

/-- The strings in quotes are the texts of that form, and they are read as the string. -/
theorem exists_quote_eq : (∃ q, isQuote q = true ∧ text = quote q s) ↔
    unquote? text = some s ∧ IsQuoted text := by
  constructor
  · rintro ⟨q, hq, rfl⟩
    have htext := toList_quote q s
    exact ⟨unquote?_eq_some.2 ⟨q, _, hq, htext, stands_double q s.toList⟩,
      q, _, hq, htext, paired_double q s.toList⟩
  · rintro ⟨hs, q, body, hq, htext, hpaired⟩
    obtain ⟨q', body', -, htext', hstands⟩ := unquote?_eq_some.1 hs
    -- The text has one first and one last character.
    obtain ⟨rfl, hbody⟩ := List.cons.inj (htext.symm.trans htext')
    obtain rfl := List.append_cancel_right hbody
    refine ⟨q, hq, ?_⟩
    rw [quote, ← hstands.eq_double hpaired, ← htext, String.ofList_toList]

/-! ## The string tokens of a text -/

theorem getLast?_double (q : Char) (cs : List Char) :
    (double q cs).getLast? = cs.getLast? := by
  induction cs with
  | nil => rfl
  | cons c cs ih =>
    by_cases hc : c = q
    · subst hc
      rw [double_cons_self, List.getLast?_cons, List.getLast?_cons, List.getLast?_cons, ih]
      cases cs.getLast? <;> rfl
    · rw [double_cons_of_ne hc, List.getLast?_cons, List.getLast?_cons, ih]

theorem double_append (q : Char) (cs ds : List Char) :
    double q (cs ++ ds) = double q cs ++ double q ds :=
  List.flatMap_append

/-- An open string is read if it ends with a quote: the pair that this quote belongs to is read as
    one character and the end. -/
theorem unquote?_of_opened (hq : isQuote q = true) (htext : text.toList = q :: double q s.toList) :
    unquote? text = if s.toList.getLast? = some q then some s else none := by
  split
  · next hlast =>
    obtain ⟨ds, hds⟩ := List.getLast?_eq_some_iff.1 hlast
    -- Of the last pair, one quote is the end and the other stands alone.
    refine unquote?_eq_some.2 ⟨q, double q ds ++ [q], hq, ?_, ?_⟩
    · rw [htext, hds, double_append, double_cons_self, double_nil, List.append_assoc]
      rfl
    · rw [hds]
      have hlone : Stands q [q] [q] := .lone nofun .nil
      exact hlone.double_append ds
  · next hlast =>
    refine Option.eq_none_iff_forall_ne_some.2 fun t ht => hlast ?_
    obtain ⟨q', body, -, htext', -⟩ := unquote?_eq_some.1 ht
    obtain ⟨rfl, hbody⟩ := List.cons.inj (htext.symm.trans htext')
    rw [← getLast?_double, hbody, List.getLast?_concat]

/-- Each token of a text is spelled as its class demands. -/
theorem Lawful.shaped (h : Lawful ts) : ∀ t ∈ ts, t.Shaped := by
  induction ts with
  | nil => nofun
  | cons t ts ih => exact List.forall_mem_cons.2 ⟨⟨_, h.1⟩, ih h.2⟩

/-- A string token is a string in quotes, or it is open and its last quote is missing. -/
theorem Shaped.exists_double (h : t.Shaped) (hk : t.kind = .string) :
    ∃ q s, isQuote q = true ∧ (¬ t.IsOpen ∧ t.text = quote q s ∨
      t.IsOpen ∧ t.text.toList = q :: double q s.toList) := by
  obtain ⟨next, hobeys⟩ := h
  rw [hk] at hobeys
  generalize htext : t.text.toList = cs at hobeys
  cases hobeys with
  | @string q body _ hq hends =>
    cases hends with
    | @closed cs _ hpaired =>
      obtain ⟨s, rfl⟩ := hpaired.exists_double
      refine ⟨q, s, hq, .inl ⟨?_, ?_⟩⟩
      · rintro ⟨-, q', body, htext', hbody⟩
        obtain ⟨rfl, rfl⟩ := List.cons.inj (htext.symm.trans htext')
        exact hpaired.not_concat hbody
      · rw [quote, ← htext, String.ofList_toList]
    | opened hpaired =>
      obtain ⟨s, rfl⟩ := hpaired.exists_double
      exact ⟨q, s, hq, .inr ⟨⟨hk, q, _, htext, hpaired⟩, rfl⟩⟩

/-- A text is read as `s` exactly if it stands between two equal quotes and the characters between
    them stand for `s`. It is the string `s` in quotes exactly if, besides, each quote between the
    two ends is one of two in a row. A string token of a text is closed, in quotes, and read as the
    string, or it is open, and then read exactly if it ends with a quote. -/
theorem unquote?_iff_quote (text s : String) :
    (unquote? text = some s ↔ ∃ q body, isQuote q = true ∧
      text.toList = q :: (body ++ [q]) ∧ Stands q body s.toList) ∧
    ((∃ q, isQuote q = true ∧ text = quote q s) ↔ unquote? text = some s ∧ IsQuoted text) ∧
    ∀ t ∈ tokenize text, t.kind = .string → ∃ q s, isQuote q = true ∧
      (¬ t.IsOpen ∧ t.text = quote q s ∧ unquote? t.text = some s ∨
        t.IsOpen ∧ t.text.toList = q :: double q s.toList ∧
          unquote? t.text = if s.toList.getLast? = some q then some s else none) := by
  refine ⟨unquote?_eq_some, exists_quote_eq, fun t ht hk => ?_⟩
  obtain ⟨q, s, hq, hcases⟩ := ((lawful_ofChars text.toList).shaped t ht).exists_double hk
  refine ⟨q, s, hq, ?_⟩
  obtain ⟨hclosed, htext⟩ | ⟨hopen, htext⟩ := hcases
  · exact .inl ⟨hclosed, htext, (exists_quote_eq.1 ⟨q, hq, htext⟩).1⟩
  · exact .inr ⟨hopen, htext, unquote?_of_opened hq htext⟩

/-- The open string of an `a` and two quotes is read as if the last quote closed it. It is no string
    in quotes. -/
theorem unquote?_open_string : ∃ t, tokenize "'a''" = [t] ∧ t.IsOpen ∧
    unquote? t.text = some "a'" ∧ ¬ ∃ q, isQuote q = true ∧ t.text = quote q "a'" := by
  refine ⟨⟨.string, "'a''"⟩, by decide +kernel, ⟨rfl, '\'', ['a', '\'', '\''], rfl, ?_⟩,
    by decide +kernel, ?_⟩
  · exact .char (by decide) (.pair .nil)
  · rintro ⟨q, hq, htext⟩
    simp only [isQuote, Bool.or_eq_true, beq_iff_eq] at hq
    obtain rfl | rfl := hq <;> revert htext <;> decide +kernel

end SchemaAlign.Token
