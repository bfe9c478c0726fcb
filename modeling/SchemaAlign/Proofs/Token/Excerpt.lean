import SchemaAlign.Edit
import SchemaAlign.Proofs.Token.Rule

/-!
# Parts of a text

What stands between two tokens of a text is cut into the same tokens when it stands alone. For the
rules of tokens speak of what follows a token only to say where the token ends, and the end of the
text ends every token.

* `Obeys.of_append`: a token obeys its rule before a shorter text, too;
* `ofChars_part`: some tokens in a row are the tokens of their own text;
* `ofChars_terminated`: they stay the same with a semicolon after them, unless a string is open.
-/

namespace SchemaAlign.Token

open Text

variable {c q : Char} {p : Char → Bool} {mark body next next' more cs : List Char} {k : TokenKind}
  {us vs ws ts : List Token} {t : Token}

theorem head?_append_of_mem (h : c ∈ next.head?) : c ∈ (next ++ more).head? := by
  rw [List.head?_append, h]
  rfl

theorem MaximalRun.of_append (h : MaximalRun p cs (next ++ more)) : MaximalRun p cs next :=
  ⟨h.ne_nil, h.inside, fun c hc => h.outside c (head?_append_of_mem hc)⟩

theorem Closes.of_append (h : Closes mark body (next ++ more)) : Closes mark body next :=
  h.imp_right fun ⟨hnone, hnil⟩ => ⟨hnone, (List.append_eq_nil_iff.1 hnil).1⟩

theorem EndsString.of_append (h : EndsString q body (next ++ more)) : EndsString q body next := by
  generalize htext : next ++ more = text at h
  cases h with
  | closed hpaired hnext =>
    subst htext
    exact .closed hpaired fun hhead => hnext (head?_append_of_mem hhead)
  | opened hpaired =>
    rw [(List.append_eq_nil_iff.1 htext).1]
    exact .opened hpaired

/-- A token may be followed by less of the text. -/
theorem Obeys.of_append (h : Obeys k cs (next ++ more)) : Obeys k cs next := by
  cases h with
  | whitespace hrun => exact .whitespace hrun.of_append
  | line hcloses => exact .line hcloses.of_append
  | block hcloses => exact .block hcloses.of_append
  | string hquote hends => exact .string hquote hends.of_append
  | punctuation hpunctuation => exact .punctuation hpunctuation
  | word hrun => exact .word hrun.of_append
  | other hblank hquote hpunctuation hword hline hblock =>
    exact .other hblank hquote hpunctuation hword
      (fun h => hline (h.imp_right head?_append_of_mem))
      (fun h => hblock (h.imp_right head?_append_of_mem))

theorem Lawful.left (h : Lawful (us ++ vs)) : Lawful us := by
  induction us with
  | nil => trivial
  | cons t us ih =>
    obtain ⟨ht, hus⟩ : Obeys t.kind t.text.toList (chars (us ++ vs)) ∧ Lawful (us ++ vs) := h
    rw [chars_append] at ht
    exact ⟨ht.of_append, ih hus⟩

theorem Lawful.right (h : Lawful (us ++ vs)) : Lawful vs := by
  induction us with
  | nil => exact h
  | cons t us ih => exact ih h.2

/-- Of the text that follows a token, its rule speaks of the first character only. -/
theorem Obeys.congr (h : Obeys k cs next) (hhead : next.head? = next'.head?) :
    Obeys k cs next' := by
  obtain ⟨c, body, rfl⟩ := List.exists_cons_of_ne_nil h.ne_nil
  have hlexeme := lexeme_congr h.lexeme_eq hhead
  have hobeys := obeys_lexeme c (body ++ next')
  rwa [hlexeme] at hobeys

/-- Tokens stay lawful before other ones that begin with the same character. -/
theorem Lawful.congr (h : Lawful (us ++ vs)) (hhead : (chars vs).head? = (chars ws).head?)
    (hws : Lawful ws) : Lawful (us ++ ws) := by
  induction us with
  | nil => exact hws
  | cons u us ih =>
    obtain ⟨hu, hus⟩ : Obeys u.kind u.text.toList (chars (us ++ vs)) ∧ Lawful (us ++ vs) := h
    refine ⟨hu.congr ?_, ih hus⟩
    rw [chars_append, List.head?_append, hhead, ← List.head?_append]
    exact congrArg List.head? (chars_append us ws).symm

/-- Before another token, it does not matter what the text goes on with. -/
theorem Obeys.append (h : Obeys k cs next) (hnext : next ≠ []) (more : List Char) :
    Obeys k cs (next ++ more) := by
  refine h.congr ?_
  cases next with
  | nil => exact absurd rfl hnext
  | cons => rfl

/-- Other tokens may follow if the last token obeys its rule before them. -/
theorem Lawful.append (hus : Lawful us)
    (hlast : ∀ t ∈ us.getLast?, Obeys t.kind t.text.toList (chars vs)) (hvs : Lawful vs) :
    Lawful (us ++ vs) := by
  -- Only the last token of `us` meets `vs`; before another token, `Obeys.append` is enough.
  induction us with
  | nil => exact hvs
  | cons u us ih =>
    cases us with
    | nil => exact ⟨hlast u rfl, hvs⟩
    | cons v us =>
      obtain ⟨hu, hus⟩ : Obeys u.kind u.text.toList (chars (v :: us)) ∧ Lawful (v :: us) := hus
      have hne : chars (v :: us) ≠ [] := fun hnil =>
        hus.1.ne_nil (List.append_eq_nil_iff.1 hnil).1
      refine ⟨?_, ih hus hlast⟩
      change Obeys u.kind u.text.toList (chars (v :: us ++ vs))
      rw [chars_append]
      exact hu.append hne _

/-- Some tokens of a text, one after the other, are the tokens of what they make up. -/
theorem ofChars_part (h : ofChars cs = us ++ (vs ++ ws)) : ofChars (chars vs) = vs :=
  (h ▸ lawful_ofChars cs).right.left.ofChars_chars

theorem relex_of_ofChars (h : ofChars (chars ts) = ts) : relex ts = ts := by
  rw [relex, tokenize, toList_render, h]

/-! ## A semicolon after a part -/

/-- The token is a string without an end. -/
def IsOpen (t : Token) : Prop :=
  t.kind = .string ∧ ∃ q body, t.text.toList = q :: body ∧ Paired q body

/-- An open string goes on to the end of the text. -/
theorem Obeys.eq_nil_of_isOpen (h : Obeys t.kind t.text.toList next) (hopen : t.IsOpen) :
    next = [] := by
  obtain ⟨hkind, q, body, htext, hpaired⟩ := hopen
  rw [hkind, htext] at h
  cases h with
  | string _ hends =>
    cases hends with
    | closed hcs => exact absurd hpaired hcs.not_concat
    | opened => rfl

theorem Lawful.getLast?_of_isOpen (h : Lawful ts) (ht : t ∈ ts) (hopen : t.IsOpen) :
    ts.getLast? = some t := by
  obtain ⟨us, vs, rfl⟩ := List.append_of_mem ht
  have hnil : chars vs = [] := h.right.1.eq_nil_of_isOpen hopen
  cases vs with
  | nil => exact List.getLast?_concat
  | cons v vs => exact absurd (List.append_eq_nil_iff.1 hnil).1 h.right.2.1.ne_nil

/-- A semicolon is part of no token before it but a comment or a string that is open. -/
theorem Obeys.semicolon (h : Obeys k cs []) (hk : k.isTrivia = false)
    (hclosed : k = .string → ¬ ∃ q body, cs = q :: body ∧ Paired q body) : Obeys k cs [';'] := by
  cases h with
  | whitespace | line | block => cases hk
  | punctuation hpunctuation => exact .punctuation hpunctuation
  | word hrun =>
    refine .word ⟨hrun.ne_nil, hrun.inside, fun c hc => ?_⟩
    cases hc
    decide
  | other hblank hquote hpunctuation hword =>
    exact .other hblank hquote hpunctuation hword (by simp) (by simp)
  | @string q body _ hquote hends =>
    cases hends with
    | closed hpaired =>
      refine .string hquote (.closed hpaired fun hq => ?_)
      cases hq
      cases hquote
    | opened hpaired => exact absurd ⟨q, body, rfl, hpaired⟩ (hclosed rfl)

theorem Lawful.semicolon (h : Lawful ts) (hlast : ts.getLast? = some t) (ht : t.isTrivia = false)
    (hclosed : ¬ t.IsOpen) : Lawful (ts ++ [Token.semicolon]) := by
  refine h.append (fun u hu => ?_) ⟨.punctuation (by decide), trivial⟩
  obtain rfl : u = t := Option.some.inj (hu.symm.trans hlast)
  obtain ⟨us, rfl⟩ := List.getLast?_eq_some_iff.1 hlast
  exact h.right.1.semicolon ht fun hk hopen => hclosed ⟨hk, hopen⟩

/-- A semicolon may stand between lawful tokens if it may stand behind the first of them. -/
theorem Lawful.insert_semicolon (h : Lawful (us ++ [Token.semicolon])) (hvs : Lawful vs) :
    Lawful (us ++ Token.semicolon :: vs) :=
  h.congr rfl ⟨.punctuation (by decide), hvs⟩

/-- Some tokens of a text and a semicolon after them are the tokens of what they make up. -/
theorem ofChars_terminated (h : ofChars (chars ts) = ts) (hlast : ts.getLast? = some t)
    (ht : t.isTrivia = false) (hclosed : ¬ t.IsOpen) :
    ofChars (chars (ts ++ [Token.semicolon])) = ts ++ [Token.semicolon] :=
  ((h ▸ lawful_ofChars (chars ts)).semicolon hlast ht hclosed).ofChars_chars

/-- A token that is not white space does not begin with a blank. -/
theorem Obeys.isBlank_head (h : Obeys k (c :: body) next) (hk : k ≠ .whitespace) :
    isBlank c = false := by
  have hkind := congrArg Prod.fst h.lexeme_eq
  unfold lexeme at hkind
  split at hkind
  · exact absurd hkind.symm hk
  · simpa using ‹¬ isBlank c = true›

theorem kind_ne_whitespace (ht : t.isTrivia = false) : t.kind ≠ .whitespace := fun hkind => by
  rw [isTrivia, hkind] at ht
  cases ht

/-- A text whose first token carries meaning is not blank. -/
theorem isBlankText_render (h : ofChars (chars (t :: ts)) = t :: ts) (ht : t.isTrivia = false) :
    isBlankText (render (t :: ts)) = false := by
  obtain ⟨hobeys, -⟩ : Lawful (t :: ts) := h ▸ lawful_ofChars _
  obtain ⟨c, body, htext⟩ := List.exists_cons_of_ne_nil hobeys.ne_nil
  rw [htext] at hobeys
  rw [isBlankText, toList_render, chars_cons, htext, List.cons_append, List.all_cons,
    hobeys.isBlank_head (kind_ne_whitespace ht), Bool.false_and]

end SchemaAlign.Token
