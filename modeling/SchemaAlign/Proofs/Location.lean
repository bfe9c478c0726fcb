import SchemaAlign.Location
import SchemaAlign.Proofs.Token.Excerpt

/-!
# Lines of a text

The place of a token is found by reading the tokens before it, one after the other. As no pair of a
carriage return and a line feed belongs to two tokens of a text, the place is that of the first
character of the token in the text.

* `lines`: the lines of a text, without their ends;
* `Seam`: where a text may be taken apart;
* `Place.linesOn_append`, `Place.linesOn_tokens`: the lines before a place and those that follow;
* `Location.behind`, `location_ofTokens`: the place of a token is that of its first character;
* `lines_getElem?_ofTokens`: the line of a token is one of the lines of the text.
-/

namespace SchemaAlign

open Text
open SchemaAlign.Token (Obeys Lawful chars)

variable {us vs cs next : List Char} {ts ts' : List Token} {k : TokenKind}

/-! ## Lines -/

/-- The lines of a text, without the line feeds, carriage returns and pairs of both that end
    them. -/
def lines : List Char → List (List Char)
  | '\r' :: '\n' :: cs => [] :: lines cs
  | c :: cs => if endsLine c then [] :: lines cs else (lines cs).modifyHead (c :: ·)
  | [] => [[]]

theorem lines_end {c : Char} (hc : endsLine c = true) (h : c = '\r' → cs.head? ≠ some '\n') :
    lines (c :: cs) = [] :: lines cs := by
  rw [lines, if_pos hc]
  rintro cs rfl rfl
  exact h rfl rfl

theorem lines_char {c : Char} (hc : endsLine c = false) (cs : List Char) :
    lines (c :: cs) = (lines cs).modifyHead (c :: ·) := by
  rw [lines, if_neg (by simp [hc])]
  rintro cs rfl -
  cases hc

/-- A line goes up to the next character that ends one. -/
theorem lines_eq_cons (cs : List Char) :
    ∃ later, lines cs = cs.takeWhile (!endsLine ·) :: later := by
  induction cs with
  | nil => exact ⟨[], rfl⟩
  | cons c cs ih =>
    cases hc : endsLine c with
    | false =>
      obtain ⟨later, hlater⟩ := ih
      refine ⟨later, ?_⟩
      rw [lines_char hc, hlater, List.takeWhile_cons_of_pos (by simp [hc])]
      rfl
    | true =>
      rw [List.takeWhile_cons_of_neg (by simp [hc])]
      by_cases hpair : c = '\r' ∧ cs.head? = some '\n'
      · obtain ⟨rfl, hhead⟩ := hpair
        obtain ⟨cs, rfl⟩ := List.head?_eq_some_iff.1 hhead
        exact ⟨lines cs, by rw [lines]⟩
      · exact ⟨_, lines_end hc fun hr hn => hpair ⟨hr, hn⟩⟩

/-- No line holds a character that ends one. -/
theorem endsLine_of_mem_lines {line : List Char} (h : line ∈ lines cs) :
    ∀ c ∈ line, endsLine c = false := by
  fun_induction lines cs generalizing line with
  | case1 cs ih =>
    obtain rfl | h := List.mem_cons.1 h
    · nofun
    · exact ih h
  | case2 c cs _ hc ih =>
    obtain rfl | h := List.mem_cons.1 h
    · nofun
    · exact ih h
  | case3 c cs _ hc ih =>
    obtain ⟨later, hlater⟩ := lines_eq_cons cs
    rw [hlater, List.modifyHead_cons] at h
    rw [hlater] at ih
    obtain rfl | h := List.mem_cons.1 h
    · exact List.forall_mem_cons.2 ⟨by simpa using hc, ih List.mem_cons_self⟩
    · exact ih (List.mem_cons_of_mem _ h)
  | case4 =>
    obtain rfl := List.mem_singleton.1 h
    nofun

/-- Without a character that ends one, a text is a single line. -/
theorem lines_of_any (h : cs.any endsLine = false) : lines cs = [cs] := by
  induction cs with
  | nil => rfl
  | cons c cs ih =>
    obtain ⟨hc, hcs⟩ := Bool.or_eq_false_iff.1 h
    rw [lines_char hc, ih hcs]
    rfl

/-- A line feed ends the line that is written before it. -/
theorem lines_append_newline (h : us.any endsLine = false) (vs : List Char) :
    lines (us ++ '\n' :: vs) = us :: lines vs := by
  induction us with
  | nil => exact lines_end rfl nofun
  | cons c us ih =>
    obtain ⟨hc, hus⟩ := Bool.or_eq_false_iff.1 h
    rw [List.cons_append, lines_char hc, ih hus]
    rfl

/-- A pair that ends a line does not begin in the first text and end in the second one. -/
def Seam (us vs : List Char) : Prop :=
  us.getLast? = some '\r' → vs.head? ≠ some '\n'

theorem Seam.tail {c : Char} (h : Seam (c :: us) vs) : Seam us vs := fun hlast =>
  h (by rw [List.getLast?_cons, hlast]; rfl)

namespace Place

/-- The lines of a text that goes on from the place, and before them the line of the place. -/
def linesOn (p : Place) (cs : List Char) : List (List Char) :=
  (lines cs).modifyHead (p.before.reverse ++ ·)

theorem linesOn_start (cs : List Char) : start.linesOn cs = lines cs := by
  unfold linesOn
  cases lines cs <;> rfl

theorem linesOn_nil (p : Place) : p.linesOn [] = [p.before.reverse] := by
  simp [linesOn, lines]

theorem linesOn_char (p : Place) {c : Char} (hc : endsLine c = false) (cs : List Char) :
    p.linesOn (c :: cs) = linesOn ⟨p.line, c :: p.before⟩ cs := by
  unfold linesOn
  rw [lines_char hc, List.modifyHead_modifyHead]
  congr 1
  funext line
  simp

theorem linesOn_end (p : Place) {c : Char} (hc : endsLine c = true)
    (h : c = '\r' → cs.head? ≠ some '\n') :
    p.linesOn (c :: cs) = p.before.reverse :: p.nextLine.linesOn cs := by
  have hnext : p.nextLine.linesOn cs = lines cs := linesOn_start cs
  rw [hnext, linesOn, lines_end hc h, List.modifyHead_cons, List.append_nil]

/-- Lines that end before the place, and those that are read on from it. -/
theorem linesOn_append (p : Place) (h : Seam us vs) :
    ∃ front, p.linesOn (us ++ vs) = front ++ (p.advance us).linesOn vs ∧
      (p.advance us).line = p.line + front.length := by
  -- Along what is read. No pair at the seam ends a line, so the lines that end before it are lines
  -- of the whole text.
  fun_induction advance p us with
  | case1 p us ih =>
    obtain ⟨front, hfront, hline⟩ := ih h.tail.tail
    refine ⟨p.before.reverse :: front, ?_, ?_⟩
    · have hnext : p.nextLine.linesOn (us ++ vs) = lines (us ++ vs) := linesOn_start _
      rw [List.cons_append, List.cons_append, List.cons_append, ← hfront, hnext, linesOn, lines,
        List.modifyHead_cons, List.append_nil]
    · have hnext : p.nextLine.line = p.line + 1 := rfl
      rw [List.length_cons]
      omega
  | case2 p c us hpair hc ih =>
    obtain ⟨front, hfront, hline⟩ := ih h.tail
    refine ⟨p.before.reverse :: front, ?_, ?_⟩
    · rw [List.cons_append, List.cons_append, ← hfront, linesOn_end p hc]
      rintro rfl hhead
      cases us with
      | nil => exact h rfl hhead
      | cons d us =>
        obtain rfl : d = '\n' := Option.some.inj hhead
        exact hpair us rfl rfl
    · have hnext : p.nextLine.line = p.line + 1 := rfl
      rw [List.length_cons]
      omega
  | case3 p c us hpair hc ih =>
    obtain ⟨front, hfront, hline⟩ := ih h.tail
    refine ⟨front, ?_, hline⟩
    rw [List.cons_append, linesOn_char p (by simpa using hc), hfront]
  | case4 p => exact ⟨[], rfl, rfl⟩

end Place

/-! ## Tokens -/

theorem getLast?_of_cons {c d : Char} (hne : c ≠ d) (h : (c :: cs).getLast? = some d) :
    cs.getLast? = some d := by
  cases cs with
  | nil => exact absurd (Option.some.inj h) hne
  | cons b cs => rwa [List.getLast?_cons_cons] at h

theorem getLast?_ne_of_closes (mark : List Char) {body : List Char} {c d : Char} (hne : c ≠ d)
    (h : Token.Closes (mark ++ [c]) body next) (hnext : next ≠ []) : body.getLast? ≠ some d := by
  obtain ⟨⟨front, rfl⟩, -⟩ | ⟨-, rfl⟩ := h
  · simp [hne]
  · exact absurd rfl hnext

/-- No pair that ends a line begins in a token and ends in the next one. -/
theorem seam_of_obeys (h : Obeys k cs next) : Seam cs next := by
  intro hlast hhead
  have hnext : next ≠ [] := by
    rintro rfl
    cases hhead
  cases h with
  | whitespace h => exact absurd (h.outside _ hhead) (by decide)
  | line h =>
    exact getLast?_ne_of_closes [] (by decide) h hnext
      (getLast?_of_cons (by decide) (getLast?_of_cons (by decide) hlast))
  | block h =>
    exact getLast?_ne_of_closes ['*'] (by decide) h hnext
      (getLast?_of_cons (by decide) (getLast?_of_cons (by decide) hlast))
  | string hq h =>
    cases h with
    | closed =>
      rw [← List.cons_append, List.getLast?_concat] at hlast
      cases hlast
      exact absurd hq (by decide)
    | opened => exact hnext rfl
  | punctuation hc =>
    cases hlast
    exact absurd hc (by decide)
  | word h => exact absurd (h.inside _ (List.mem_of_getLast? hlast)) (by decide)
  | other hblank =>
    cases hlast
    exact absurd hblank (by decide)

/-- The lines of a text whose tokens stand in two lists: those that end before the second list, and
    those that are read on from it. -/
theorem Place.linesOn_tokens (p : Place) (h : Lawful (ts ++ ts')) :
    ∃ front, p.linesOn (chars ts ++ chars ts') =
        front ++ (ts.foldl (fun p t => p.advance t.text.toList) p).linesOn (chars ts') ∧
      (ts.foldl (fun p t => p.advance t.text.toList) p).line = p.line + front.length := by
  induction ts generalizing p with
  | nil => exact ⟨[], rfl, rfl⟩
  | cons t ts ih =>
    obtain ⟨ht, hts⟩ := h
    obtain ⟨front, hfront, hline⟩ := p.linesOn_append (seam_of_obeys ht)
    obtain ⟨front', hfront', hline'⟩ := ih (p.advance t.text.toList) hts
    refine ⟨front ++ front', ?_, ?_⟩
    · have happend : chars (ts.append ts') = chars ts ++ chars ts' := Token.chars_append ts ts'
      rw [happend, hfront'] at hfront
      rw [Token.chars_cons, List.append_assoc, hfront, List.foldl_cons, List.append_assoc]
    · rw [List.foldl_cons, List.length_append]
      omega

/-- Where the text goes on behind the given characters. -/
def Location.behind (cs : List Char) : Location :=
  ⟨(lines cs).length, ((lines cs).getLastD []).length + 1⟩

/-- The place of a token is that behind the characters of the tokens before it. -/
theorem location_ofTokens (h : Lawful ts) :
    (Place.ofTokens ts).location = Location.behind (chars ts) := by
  have hall : Lawful (ts ++ []) := by rwa [List.append_nil]
  obtain ⟨front, hfront, hline⟩ := Place.start.linesOn_tokens hall
  rw [Token.chars_nil, List.append_nil, Place.linesOn_start, Place.linesOn_nil] at hfront
  rw [Location.behind, hfront, List.getLastD_concat, List.length_append, List.length_reverse]
  change Location.mk (Place.ofTokens ts).line _ = _
  rw [show (Place.ofTokens ts).line = 1 + front.length from hline, Nat.add_comm]
  rfl

/-- The line that a token begins on is the line of its place in the text. -/
theorem lines_getElem?_ofTokens (h : Lawful (ts ++ ts')) :
    1 ≤ (Place.ofTokens ts).line ∧ (lines (chars (ts ++ ts')))[(Place.ofTokens ts).line - 1]? =
      some (lineAt ts ts').toList := by
  obtain ⟨front, hfront, hline⟩ := Place.start.linesOn_tokens h
  obtain ⟨later, hlater⟩ := lines_eq_cons (chars ts')
  rw [Place.linesOn_start, ← Token.chars_append, Place.linesOn, hlater, List.modifyHead_cons]
    at hfront
  have hline : (Place.ofTokens ts).line = 1 + front.length := hline
  rw [hfront, hline, Nat.add_sub_cancel_left, List.getElem?_append_right (Nat.le_refl _),
    Nat.sub_self, lineAt, String.toList_ofList]
  exact ⟨Nat.le_add_right _ _, rfl⟩

/-- The column of a token is on its line, or right behind it. -/
theorem column_ofTokens_le (ts ts' : List Token) :
    (Place.ofTokens ts).location.column ≤ (lineAt ts ts').length + 1 := by
  rw [lineAt, String.length_ofList, List.length_append, List.length_reverse]
  exact Nat.succ_le_succ (Nat.le_add_right _ _)

end SchemaAlign
