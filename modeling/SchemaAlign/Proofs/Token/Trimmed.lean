import Mathlib.Data.List.DropRight
import Mathlib.Data.List.Infix
import SchemaAlign.Proofs.Token.Excerpt

/-!
# Trimmed parts of a text

Blanks at the ends of a text say nothing, and neither do those at the end of a comment. So a part of
a text that more of the text follows still has its significant tokens after its ends are trimmed.
But a comment up to the end of its line loses this end, and then it takes in whatever is put behind
it, such as a closing parenthesis.

* `isLine`, `endsInLine`: comments up to the end of a line, and lists of tokens that end with one;
* `Obeys.parenthesis`, `Obeys.line_trimmed`: what becomes of the last token;
* `Trims`: what trimming and a closing parenthesis do to a token;
* `Lawful.exists_core`: the tokens of a part without the white space at its ends;
* `significant_trim`, `significant_enclosed`: the significant tokens of a trimmed part, and of a
  trimmed part in parentheses.
-/

namespace SchemaAlign.Token

open Text

variable {c : Char} {cs ds body next : List Char} {k : TokenKind} {us vs ts : List Token}
  {t u : Token}

/-- The opening parenthesis. -/
def opening : Token :=
  ⟨.punctuation, "("⟩

/-- The closing parenthesis. -/
def closing : Token :=
  ⟨.punctuation, ")"⟩

/-- The significant tokens of a text. -/
def significant (text : String) : List Token :=
  (tokenize text).filter isSignificant

/-- Whether the token is a comment up to the end of its line. -/
def isLine (t : Token) : Bool :=
  t.kind == .comment && ['-', '-'].isPrefixOf t.text.toList

/-- Whether such a comment stands last, but for white space. -/
def endsInLine (ts : List Token) : Bool :=
  (ts.filter (·.kind != .whitespace)).getLast?.any isLine

/-! ## The last token -/

theorem rdropWhile_append (p : Char → Bool) (cs ds : List Char) :
    (cs ++ ds).rdropWhile p =
      if ds.rdropWhile p = [] then cs.rdropWhile p else cs ++ ds.rdropWhile p := by
  simp only [List.rdropWhile, List.reverse_append, List.dropWhile_append, List.isEmpty_iff,
    List.reverse_eq_nil_iff]
  split
  · rfl
  · rw [List.reverse_append, List.reverse_reverse]

/-- A token that more of the text follows ends with no blank, and it stays the same before a closing
    parenthesis, unless it is white space or a comment up to the end of its line. -/
theorem Obeys.parenthesis (h : Obeys k cs next) (hnext : next ≠ []) (hk : k ≠ .whitespace)
    (hline : k = .comment → ¬ ['-', '-'] <+: cs) :
    Obeys k cs [')'] ∧ cs.rdropWhile isBlank = cs := by
  have hself (ds : List Char) {c : Char} (hc : isBlank c = false) :
      (ds ++ [c]).rdropWhile isBlank = ds ++ [c] :=
    List.rdropWhile_concat_neg _ _ _ (by simp [hc])
  cases h with
  | whitespace => exact absurd rfl hk
  | @line body => exact absurd (List.prefix_append ['-', '-'] body) (hline rfl)
  | block hcloses =>
    -- Only at the end of the text may a comment or a string be open.
    obtain ⟨⟨body, rfl⟩, hfirst⟩ | ⟨-, hnil⟩ := hcloses
    · refine ⟨.block (.inl ⟨List.suffix_append _ _, hfirst⟩), ?_⟩
      simpa using hself ('/' :: '*' :: (body ++ ['*'])) (c := '/') (by decide)
    · exact absurd hnil hnext
  | @string q _ _ hquote hends =>
    have hq : isBlank q = false := (Obeys.string hquote hends).isBlank_head (by decide)
    cases hends with
    | @closed body _ hpaired =>
      refine ⟨.string hquote (.closed hpaired ?_), hself (q :: body) hq⟩
      rintro ⟨⟩
      cases hquote
    | opened => exact absurd rfl hnext
  | @punctuation c _ hpunctuation =>
    have hself' : Obeys .punctuation [c] [] := .punctuation hpunctuation
    have hc := hself'.isBlank_head (by decide)
    exact ⟨.punctuation hpunctuation, hself [] hc⟩
  | word hrun =>
    obtain ⟨ds, c, rfl⟩ := (List.eq_nil_or_concat' cs).resolve_left hrun.ne_nil
    refine ⟨.word ⟨hrun.ne_nil, hrun.inside, ?_⟩, hself ds ?_⟩
    · rintro c ⟨⟩
      decide
    · refine Bool.eq_false_iff.2 fun hc => ?_
      have hword := hrun.inside c (by simp)
      rw [isWordChar_of_isBlank hc] at hword
      cases hword
  | other hblank hquote hpunctuation hword =>
    exact ⟨.other hblank hquote hpunctuation hword (by simp) (by simp), hself [] hblank⟩

/-- A comment up to the end of its line loses the line feed, and the blanks before it. What is left
    is a comment up to the end of the text, and so it is with more characters in the same line. -/
theorem Obeys.line_trimmed (h : Obeys .comment ('-' :: '-' :: body) next) (hnext : next ≠ []) :
    ∃ rest, ('-' :: '-' :: body).rdropWhile isBlank = '-' :: '-' :: rest ∧
      ∀ more, '\n' ∉ more → Obeys .comment ('-' :: '-' :: (rest ++ more)) [] := by
  cases h with
  | line hcloses =>
    obtain ⟨⟨line, rfl⟩, hfirst⟩ | ⟨-, hnil⟩ := hcloses
    · rw [List.dropLast_concat, List.singleton_infix_iff] at hfirst
      refine ⟨line.rdropWhile isBlank, ?_, fun more hmore => .line (.inr ⟨?_, rfl⟩)⟩
      · rw [← List.cons_append, ← List.cons_append, List.rdropWhile_concat_pos _ _ _ (by decide)]
        change (['-', '-'] ++ line).rdropWhile isBlank = ['-', '-'] ++ line.rdropWhile isBlank
        rw [rdropWhile_append]
        split
        · next hnil => rw [hnil]; decide
        · rfl
      · rw [List.singleton_infix_iff, List.mem_append]
        exact not_or.2 ⟨fun hmem => hfirst ((List.rdropWhile_prefix _ _).subset hmem), hmore⟩
    · exact absurd hnil hnext

/-- The token without the blanks at its end. -/
def trimmed (t : Token) : Token :=
  ⟨t.kind, String.ofList (t.text.toList.rdropWhile isBlank)⟩

/-- The tokens of a token without the blanks at its end and a closing parenthesis behind it. -/
def enclosed (t : Token) : List Token :=
  if t.isLine then [⟨.comment, t.trimmed.text ++ ")"⟩] else [t, closing]

theorem lawful_closing : Lawful [closing] :=
  ⟨.punctuation (by decide), trivial⟩

theorem isLine_iff : t.isLine = true ↔ t.kind = .comment ∧ ['-', '-'] <+: t.text.toList := by
  rw [isLine, Bool.and_eq_true, beq_iff_eq, List.isPrefixOf_iff_prefix]

theorem filter_comment (ht : t.kind = .comment) : [t].filter isSignificant = [] := by
  simp [isSignificant, isTrivia, ht, TokenKind.isTrivia]

/-- What trimming and a closing parenthesis do to a token that is no white space. -/
structure Trims (t : Token) : Prop where
  lawful_trimmed : Lawful [t.trimmed]
  lawful_enclosed : Lawful t.enclosed
  head? : ∃ c ∈ t.trimmed.text.toList.head?, c ∈ t.text.toList.head?
  chars_enclosed : chars t.enclosed = t.trimmed.text.toList ++ [')']
  significant_trimmed : [t.trimmed].filter isSignificant = [t].filter isSignificant
  significant_enclosed : t.enclosed.filter isSignificant =
    [t].filter isSignificant ++ if t.isLine then [] else [closing]

theorem Obeys.trims_of_isLine (h : Obeys t.kind t.text.toList next) (hnext : next ≠ [])
    (hline : t.isLine = true) : t.Trims := by
  obtain ⟨hkind, body, hbody⟩ := isLine_iff.1 hline
  rw [hkind, ← hbody] at h
  obtain ⟨rest, hrest, hobeys⟩ := h.line_trimmed hnext
  have htrimmed : t.trimmed = ⟨.comment, String.ofList ('-' :: '-' :: rest)⟩ := by
    rw [trimmed, hkind, ← hbody]
    exact congrArg _ (congrArg _ hrest)
  have henclosed : t.enclosed = [⟨.comment, String.ofList ('-' :: '-' :: (rest ++ [')']))⟩] := by
    rw [enclosed, if_pos hline, htrimmed]
    simp [String.append_assoc]
  exact {
    lawful_trimmed := by
      rw [htrimmed]
      simpa [Lawful] using hobeys [] (by simp)
    lawful_enclosed := by
      rw [henclosed]
      simpa [Lawful] using hobeys [')'] (by decide)
    head? := by simp [htrimmed, ← hbody]
    chars_enclosed := by simp [henclosed, htrimmed]
    significant_trimmed := by rw [htrimmed, filter_comment rfl, filter_comment hkind]
    significant_enclosed := by
      rw [henclosed, filter_comment rfl, filter_comment hkind, if_pos hline, List.append_nil] }

theorem Obeys.trims_of_not_isLine (h : Obeys t.kind t.text.toList next) (hnext : next ≠ [])
    (ht : t.kind ≠ .whitespace) (hline : t.isLine = false) : t.Trims := by
  have hline' : ¬ t.isLine = true := by simp [hline]
  obtain ⟨hobeys, hself⟩ := h.parenthesis hnext ht fun hkind hprefix =>
    hline' (isLine_iff.2 ⟨hkind, hprefix⟩)
  -- Such a token ends with no blank, so trimming leaves it as it is.
  have htrimmed : t.trimmed = t := by rw [trimmed, hself, String.ofList_toList]
  have henclosed : t.enclosed = [t, closing] := by rw [enclosed, if_neg hline']
  exact {
    lawful_trimmed := by
      rw [htrimmed]
      have hend : Obeys t.kind t.text.toList ([] ++ next) := h
      exact ⟨hend.of_append, trivial⟩
    lawful_enclosed := by
      rw [henclosed]
      exact ⟨hobeys, lawful_closing⟩
    head? := by
      obtain ⟨c, body, hbody⟩ := List.exists_cons_of_ne_nil h.ne_nil
      rw [htrimmed, hbody]
      exact ⟨c, rfl, rfl⟩
    chars_enclosed := by simp [henclosed, htrimmed, closing]
    significant_trimmed := by rw [htrimmed]
    significant_enclosed := by
      rw [henclosed, if_neg hline', ← List.singleton_append, List.filter_append]
      rfl }

/-- What stands before more of the text is trimmed without harm. -/
theorem Obeys.trims (h : Obeys t.kind t.text.toList next) (hnext : next ≠ [])
    (ht : t.kind ≠ .whitespace) : t.Trims := by
  cases hline : t.isLine with
  | true => exact h.trims_of_isLine hnext hline
  | false => exact h.trims_of_not_isLine hnext ht hline

theorem Trims.lawful_append_trimmed (ht : t.Trims) (h : Lawful (us ++ t :: vs)) :
    Lawful (us ++ [t.trimmed]) := by
  obtain ⟨c, hc, hc'⟩ := ht.head?
  exact h.congr ((head?_append_of_mem hc').trans (head?_append_of_mem hc).symm) ht.lawful_trimmed

theorem Trims.lawful_append_enclosed (ht : t.Trims) (h : Lawful (us ++ t :: vs)) :
    Lawful (us ++ t.enclosed) := by
  obtain ⟨c, hc, hc'⟩ := ht.head?
  refine h.congr ((head?_append_of_mem hc').trans ?_) ht.lawful_enclosed
  rw [ht.chars_enclosed]
  exact (head?_append_of_mem hc).symm

/-! ## Parts -/

/-- The tokens are white space. -/
def Blanks (ts : List Token) : Prop :=
  ∀ t ∈ ts, t.kind = .whitespace

theorem exists_first (h : ∃ t ∈ us, t.kind ≠ .whitespace) :
    ∃ bs t ts, us = bs ++ t :: ts ∧ Blanks bs ∧ t.kind ≠ .whitespace := by
  obtain ⟨t, ht⟩ := Option.isSome_iff_exists.1
    (List.find?_isSome.2 (h.imp fun t ht => ⟨ht.1, bne_iff_ne.2 ht.2⟩))
  obtain ⟨hkind, bs, ts, rfl, hbs⟩ := List.find?_eq_some_iff_append.1 ht
  exact ⟨bs, t, ts, rfl, fun b hb => by simpa using hbs b hb, bne_iff_ne.1 hkind⟩

theorem exists_last (h : ∃ t ∈ us, t.kind ≠ .whitespace) :
    ∃ ts t ws, us = ts ++ t :: ws ∧ Blanks ws ∧ t.kind ≠ .whitespace := by
  have hreverse : ∃ t ∈ us.reverse, t.kind ≠ .whitespace := by simpa using h
  obtain ⟨ws, t, ts, hus, hws, ht⟩ := exists_first hreverse
  rw [List.reverse_eq_iff] at hus
  exact ⟨ts.reverse, t, ws.reverse, by simp [hus], fun w hw => hws w (List.mem_reverse.1 hw), ht⟩

theorem Blanks.isBlank (hus : Blanks us) (h : Lawful (us ++ vs)) :
    ∀ c ∈ chars us, isBlank c = true := by
  induction us with
  | nil => nofun
  | cons u us ih =>
    obtain ⟨hu, hus⟩ := List.forall_mem_cons.1 hus
    obtain ⟨hobeys, h⟩ : Obeys u.kind u.text.toList (chars (us ++ vs)) ∧ Lawful (us ++ vs) := h
    rw [hu] at hobeys
    cases hobeys with
    | whitespace hrun => exact List.forall_mem_append.2 ⟨hrun.inside, ih hus h⟩

theorem Blanks.filter {p : Token → Bool} (hus : Blanks us)
    (hp : ∀ t : Token, t.kind = .whitespace → p t = false) : us.filter p = [] :=
  List.filter_eq_nil_iff.2 fun u hu => by simp [hp u (hus u hu)]

/-- Where the first token is no white space, trimming the front takes nothing away. -/
theorem Obeys.dropWhile_isBlank (h : Obeys t.kind t.text.toList next) (ht : t.kind ≠ .whitespace) :
    (chars (t :: us)).dropWhile isBlank = chars (t :: us) := by
  obtain ⟨c, body, htext⟩ := List.exists_cons_of_ne_nil h.ne_nil
  rw [htext] at h
  rw [chars_cons, htext, List.cons_append, List.dropWhile_cons_of_neg]
  simp [h.isBlank_head ht]

/-- Trimming the end takes the white space behind the last token away, and trims this token. -/
theorem Trims.rdropWhile_isBlank {ws : List Token} (ht : t.Trims)
    (hws : ∀ c ∈ chars ws, isBlank c = true) :
    (chars (ts ++ t :: ws)).rdropWhile isBlank = chars (ts ++ [t.trimmed]) := by
  have hend : (chars ws).rdropWhile isBlank = [] := List.rdropWhile_eq_nil_iff.2 hws
  have hlast : t.text.toList.rdropWhile isBlank ≠ [] := fun hnil => by
    obtain ⟨c, hc, -⟩ := ht.head?
    rw [trimmed, String.toList_ofList, hnil] at hc
    cases hc
  rw [List.append_cons, chars_append, rdropWhile_append, if_pos hend, chars_append,
    chars_append, chars_cons, chars_nil, List.append_nil, rdropWhile_append, if_neg hlast]
  simp [trimmed]

/-- What is left of a part is its tokens but for the white space at both ends, the last one
    trimmed. -/
theorem Lawful.exists_core (h : Lawful (us ++ vs)) (hvs : chars vs ≠ [])
    (hus : ∃ t ∈ us, t.kind ≠ .whitespace) :
    ∃ ts t ws, Lawful (ts ++ t :: ws) ∧ t.Trims ∧
      trimBlank (chars us) = chars (ts ++ [t.trimmed]) ∧
      us.filter isSignificant = (ts ++ [t]).filter isSignificant ∧ endsInLine us = t.isLine := by
  obtain ⟨bs, u, us, rfl, hbs, hu⟩ := exists_first hus
  have hmem : ∃ t ∈ u :: us, t.kind ≠ .whitespace := ⟨u, List.mem_cons_self, hu⟩
  obtain ⟨ts, t, ws, hsplit, hws, ht⟩ := exists_last hmem
  rw [List.append_assoc] at h
  have hblanks := hbs.isBlank h
  replace h := h.right
  have hfront : (chars (u :: us)).dropWhile isBlank = chars (u :: us) := h.1.dropWhile_isBlank hu
  rw [hsplit, List.append_assoc, List.cons_append] at h
  have hnext : chars (ws ++ vs) ≠ [] := by
    rw [chars_append]
    exact fun hnil => hvs (List.append_eq_nil_iff.1 hnil).2
  have htrims : t.Trims := h.right.1.trims hnext ht
  have hfilter (p : Token → Bool) (hp : ∀ t : Token, t.kind = .whitespace → p t = false) :
      (bs ++ u :: us).filter p = (ts ++ [t]).filter p := by
    rw [List.filter_append, hbs.filter hp, List.nil_append, hsplit, List.append_cons,
      List.filter_append, hws.filter hp, List.append_nil]
  refine ⟨ts, t, ws ++ vs, h, htrims, ?_, hfilter _ fun t ht => ?_, ?_⟩
  · rw [trimBlank, chars_append, List.dropWhile_append_of_pos hblanks, hfront, hsplit]
    exact htrims.rdropWhile_isBlank (hws.isBlank h.right.2)
  · rw [isSignificant, isTrivia, ht]
    rfl
  · rw [endsInLine, hfilter _ (by simp), List.filter_append, List.filter_cons_of_pos (by simpa)]
    simp

/-- The trimmed text of a part has the significant tokens of the part. -/
theorem significant_trim (h : Lawful (us ++ vs)) (hvs : chars vs ≠ [])
    (hus : ∃ t ∈ us, t.kind ≠ .whitespace) :
    significant (trim (render us)) = us.filter isSignificant := by
  obtain ⟨ts, t, ws, hlawful, ht, htrim, hfilter, -⟩ := h.exists_core hvs hus
  rw [significant, tokenize, trim, toList_render, String.toList_ofList, htrim,
    (ht.lawful_append_trimmed hlawful).ofChars_chars, hfilter, List.filter_append,
    List.filter_append, ht.significant_trimmed]

/-- In parentheses, the trimmed text of a part has the significant tokens of the part between its
    parentheses. Only a comment at the end takes in the closing one. -/
theorem significant_enclosed (h : Lawful (us ++ vs)) (hvs : chars vs ≠ [])
    (hus : ∃ t ∈ us, t.kind ≠ .whitespace) :
    significant ("(" ++ trim (render us) ++ ")") =
      opening :: (us.filter isSignificant ++ if endsInLine us then [] else [closing]) := by
  obtain ⟨ts, t, ws, hlawful, ht, htrim, hfilter, hline⟩ := h.exists_core hvs hus
  have hts : Lawful (opening :: (ts ++ t.enclosed)) :=
    ⟨.punctuation (by decide), ht.lawful_append_enclosed hlawful⟩
  have hchars : ("(" ++ trim (render us) ++ ")").toList =
      chars (opening :: (ts ++ t.enclosed)) := by
    simp [trim, htrim, ht.chars_enclosed, opening]
  rw [significant, tokenize, hchars, hts.ofChars_chars, List.filter_cons_of_pos rfl, hfilter, hline,
    List.filter_append, List.filter_append, ht.significant_enclosed, List.append_assoc]

end SchemaAlign.Token
