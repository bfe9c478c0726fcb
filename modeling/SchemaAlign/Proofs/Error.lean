import SchemaAlign.Proofs.Location
import SchemaAlign.Proofs.Parser.Fault
import SchemaAlign.Source

/-!
# What an error shows of a text

A text outside the grammar is refused with a place in this text. The wording of the error shows the
line of the place, with a mark under its column.

* `ParseError.Shows`: what an error says about the text that it is the error of;
* `Statement.parse_error_shows`: each error of a text is such an error.
-/

namespace SchemaAlign

variable {text : String} {e : ParseError}

/-! ## Wording -/

theorem Parser.Fault.any_message (f : Fault) : f.message.toList.any endsLine = false := by
  cases f <;> decide +kernel

theorem any_toString_nat (n : Nat) : (toString n).toList.any endsLine = false := by
  rw [Nat.toString_eq_ofList_toDigits, String.toList_ofList, List.any_eq_false]
  intro c hc hend
  have hdigit := Nat.isDigit_of_mem_toDigits (by decide) (by decide) hc
  rw [endsLine, Bool.or_eq_true, beq_iff_eq, beq_iff_eq] at hend
  obtain rfl | rfl := hend <;> exact absurd hdigit (by decide)

theorem ParseError.message_malformed (message line : String) (location : Location) :
    (malformed message location line).message =
      s!"{message}\nat line {location.line}, column {location.column}:\n  {line}\n  " ++
        caret location.column :=
  rfl

/-- The wording of an error, line by line. -/
theorem ParseError.lines_message {message line : String} (location : Location)
    (hmessage : message.toList.any endsLine = false) (hline : line.toList.any endsLine = false) :
    lines (malformed message location line).message.toList =
      [message.toList, s!"at line {location.line}, column {location.column}:".toList,
        "  ".toList ++ line.toList,
        "  ".toList ++ List.replicate (location.column - 1) ' ' ++ ['^']] := by
  have hplace : s!"at line {location.line}, column {location.column}:".toList.any endsLine =
      false := by
    simp only [String.toList_append, List.any_append, any_toString_nat, Bool.or_false]
    decide
  have hexcerpt : ("  ".toList ++ line.toList).any endsLine = false := by
    rw [List.any_append, hline]
    decide
  have hcaret : ("  ".toList ++ List.replicate (location.column - 1) ' ' ++ ['^']).any endsLine =
      false := by
    have hindent : (List.replicate (location.column - 1) ' ').any endsLine = false := by
      rw [List.any_replicate]
      split <;> rfl
    rw [List.any_append, List.any_append, hindent]
    decide
  rw [← lines_of_any hcaret, ← lines_append_newline hexcerpt, ← lines_append_newline hplace,
    ← lines_append_newline hmessage, message_malformed, caret]
  simp [toString]

/-! ## Place -/

/-- The error of a text shows one of its lines, and on this line the front of a significant token
    or the end of the text. -/
structure ParseError.Shows (text message line : String) (location : Location) : Prop where
  line_pos : 1 ≤ location.line
  line_le : location.line ≤ (lines text.toList).length
  getElem?_line : (lines text.toList)[location.line - 1]? = some line.toList
  endsLine_line : ∀ c ∈ line.toList, endsLine c = false
  column_pos : 1 ≤ location.column
  column_le : location.column ≤ line.length + 1
  /-- The place is behind some of the tokens, and in front of a significant one or none at all. -/
  place : ∃ before after, Token.tokenize text = before ++ after ∧
    (∀ t ∈ after.head?, t.isTrivia = false) ∧ location = Location.behind (Token.chars before)
  /-- The wording has four lines: what is wrong, where, the line, and the mark. -/
  wording : lines (ParseError.malformed message location line).message.toList =
    [message.toList, s!"at line {location.line}, column {location.column}:".toList,
      "  ".toList ++ line.toList,
      "  ".toList ++ List.replicate (location.column - 1) ' ' ++ ['^']]

/-- An error shows the place of the token that it stands at. -/
theorem ParseError.shows_ofTokens {message : String} {before after : List Token}
    (hmessage : message.toList.any endsLine = false)
    (htext : Token.tokenize text = before ++ after)
    (hafter : ∀ t ∈ after.head?, t.isTrivia = false) :
    Shows text message (lineAt before after) (Place.ofTokens before).location := by
  have hlawful : Token.Lawful (before ++ after) := htext ▸ Token.lawful_ofChars text.toList
  have hchars : Token.chars (before ++ after) = text.toList :=
    htext ▸ Token.chars_ofChars text.toList
  obtain ⟨hpos, hline⟩ := lines_getElem?_ofTokens hlawful
  rw [hchars] at hline
  have hbreak := endsLine_of_mem_lines (List.mem_of_getElem? hline)
  exact
    { line_pos := hpos
      line_le := Nat.le_of_pred_lt (List.getElem?_eq_some_iff.1 hline).1
      getElem?_line := hline
      endsLine_line := hbreak
      column_pos := Nat.succ_pos _
      column_le := column_ofTokens_le before after
      place := ⟨before, after, htext, hafter, location_ofTokens hlawful.left⟩
      wording := lines_message _ hmessage (by simpa using hbreak) }

/-- A text outside the grammar is refused with an error that shows a place of the text. -/
theorem Statement.parse_error_shows (h : parse (Token.tokenize text) = .error e) :
    ∃ message location line, e = .malformed message location line ∧
      ParseError.Shows text message line location := by
  obtain ⟨m, hm, rfl⟩ : ∃ m, ofTokens (Token.tokenize text) = .error m ∧
      ParseError.ofMisfit (Token.tokenize text) m = e := by
    unfold parse Except.mapError at h
    split at h
    next m hm => exact ⟨m, hm, Except.error.inj h⟩
    next => cases h
  obtain ⟨before, after, htext, hposition, hafter⟩ :=
    Parser.exists_split_of_misfit (Token.lawful_ofChars text.toList) hm
  refine ⟨_, _, _, rfl, ?_⟩
  rw [show Token.tokenize text = before ++ after from htext, hposition, List.take_left,
    List.drop_left]
  exact ParseError.shows_ofTokens m.fault.any_message htext hafter

/-- Lines end in three ways before the token at fault, in a comment too. -/
theorem Statement.parse_error_shows_behind_comment :
    let text := "CREATE TABLE t (\r\n  a INT, /* one\rtwo */ PRIMARY KEY (a)\n);"
    let message := "Expected column definition or constraint"
    let line := "two */ PRIMARY KEY (a)"
    parse (Token.tokenize text) = .error (.malformed message ⟨3, 8⟩ line) ∧
      ParseError.Shows text message line ⟨3, 8⟩ := by
  intro text message line
  have h : parse (Token.tokenize text) = .error (.malformed message ⟨3, 8⟩ line) := by
    decide +kernel
  obtain ⟨_, _, _, he, hshows⟩ := parse_error_shows h
  cases he
  exact ⟨h, hshows⟩

end SchemaAlign
