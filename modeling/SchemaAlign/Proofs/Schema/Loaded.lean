import SchemaAlign.Proofs.Schema.Layout

/-!
# The pieces of a text that was loaded

Where every statement of a text ends with its own semicolon, the sentences of the text are the
pieces of its source.

* `Parser.Sentence.pieces`: what stands before a sentence, and the sentence;
* `layout_of_extended`: they are the pieces of the source;
* `laidOut_of_extended`, `recites_of_extended`: so the source is laid out, and all its definitions
  are read by themselves.
-/

namespace SchemaAlign

open SchemaAlign.Token (Quiet ofChars chars EndsInComment)
open Piece (join keys)

namespace Parser

variable {n : Nat} {cs : List Char} {tail : List Token} {Ss : List Sentence} {st : Statement}

/-- What stands before a sentence, and the sentence, as pieces. -/
def Sentence.pieces (S : Sentence) : List Piece :=
  [⟨none, S.before⟩, ⟨ObjectKey.ofStatement? S.statement, S.tokens⟩]

theorem join_pieces (Ss : List Sentence) : join (Ss.flatMap (·.pieces)) = flat Ss := by
  induction Ss with
  | nil => rfl
  | cons S Ss ih =>
    rw [List.flatMap_cons, Piece.join_append, ih, flat]
    simp [Sentence.pieces, join]

theorem keys_pieces (n : Nat) (Ss : List Sentence) :
    keys (Ss.flatMap (·.pieces)) = (placed n Ss).filterMap ObjectKey.ofStatement? := by
  induction Ss generalizing n with
  | nil => rfl
  | cons S Ss ih =>
    rw [List.flatMap_cons, Piece.keys_append, ih (n + S.before.length + S.tokens.length), placed,
      List.filterMap_cons, ofStatement?_shift]
    cases hkey : ObjectKey.ofStatement? S.statement <;> simp [Sentence.pieces, keys, hkey]

/-- Where a statement stands, by its sentence. -/
theorem exists_of_mem_placed (h : st ∈ placed n Ss) : ∃ As S Bs, Ss = As ++ S :: Bs ∧
    st = S.statement.shift 0 (n + (flat As ++ S.before).length) := by
  induction Ss generalizing n with
  | nil => cases h
  | cons S Ss ih =>
    rcases List.mem_cons.1 h with rfl | h
    · exact ⟨[], S, Ss, rfl, rfl⟩
    · obtain ⟨As, S', Bs, rfl, rfl⟩ := ih h
      refine ⟨S :: As, S', Bs, rfl, ?_⟩
      simp only [flat, List.length_append]
      congr 1
      omega

/-- The piece of a statement stands where the statement does. -/
theorem exists_piece_of_mem_placed (h : st ∈ placed 0 Ss) :
    ∃ as p bs, Ss.flatMap (·.pieces) = as ++ p :: bs ∧ p.key? = ObjectKey.ofStatement? st ∧
      st.span = ⟨(join as).length, (join as).length + p.tokens.length⟩ := by
  obtain ⟨As, S, Bs, rfl, rfl⟩ := exists_of_mem_placed h
  have hjoin : join (As.flatMap (·.pieces) ++ [⟨none, S.before⟩]) = flat As ++ S.before := by
    rw [Piece.join_append, join_pieces]
    simp [join]
  refine ⟨As.flatMap (·.pieces) ++ [⟨none, S.before⟩],
    ⟨ObjectKey.ofStatement? S.statement, S.tokens⟩, Bs.flatMap (·.pieces), ?_,
    (ofStatement?_shift ..).symm, ?_⟩
  · rw [List.flatMap_append, List.flatMap_cons, List.append_assoc]
    rfl
  · rw [hjoin, S.span_shift, Nat.zero_add]

/-- The pieces define the objects of the statements. -/
theorem keys_pieces_eq_map_key (id : String) (edition : Nat) (Ss : List Sentence) :
    keys (Ss.flatMap (·.pieces)) =
      ((placed 0 Ss).filterMap (SchemaObject.ofStatement? id edition)).map (·.key) := by
  rw [keys_pieces 0, List.map_filterMap]
  refine List.filterMap_congr fun st _ => ?_
  rw [SchemaObject.ofStatement?, Option.map_map]
  exact Option.map_id'.symm

/-- The pieces of a text are read by themselves. -/
theorem reads_pieces (h : ofChars cs = flat Ss ++ tail) :
    ∀ p ∈ Ss.flatMap (·.pieces), Reads (chars p.tokens) p.item?.toList := by
  induction Ss generalizing cs with
  | nil => nofun
  | cons S Ss ih =>
    rw [flat, List.append_assoc, List.append_assoc] at h
    -- The tokens from the sentence on, and those behind it, are those of their characters.
    have hsentence := Token.ofChars_chars _ h
    have hrest : ofChars (chars (flat Ss ++ tail)) = flat Ss ++ tail := Token.ofChars_chars _ hsentence
    intro p hp
    rw [List.flatMap_cons, Sentence.pieces] at hp
    rcases List.mem_cons.1 hp with rfl | hp
    · refine reads_of_quiet (Token.quiet_of_trivia (n := chars (S.tokens ++ (flat Ss ++ tail)))
        S.trivia ?_ fun hnil => ?_)
      · rw [← Token.chars_append, hsentence, ← h, Token.chars_ofChars]
      · rw [hnil, ofChars] at hsentence
        cases hsentence
    rcases List.mem_cons.1 hp with rfl | hp
    · refine reads_of_sentence S (chars (flat Ss ++ tail)) ?_
      rw [← Token.chars_append, hsentence, hrest]
    · exact ih hrest p hp

end Parser

namespace Schema

open SchemaAlign.Parser (Sentence Trivia Reading flat placed join_pieces
  keys_pieces_eq_map_key exists_piece_of_mem_placed reads_pieces)

variable {s t : Schema} {p : ParsedSource} {o : SchemaObject} {edition : Nat} {id text : String}
  {Ss : List Sentence} {tail : List Token}

/-- A text of sentences. -/
theorem ofText_of_flat (h : ParsedSource.ofText edition id text = .ok p)
    (htext : Token.tokenize text = flat Ss ++ tail) (htail : Trivia tail) :
    p = { id, edition, tokens := Token.tokenize text,
          objects := (placed 0 Ss).filterMap (SchemaObject.ofStatement? id edition) } := by
  obtain ⟨statements, hreading, rfl⟩ := ParsedSource.ofText_eq_ok h
  have hplaced : Reading 0 (flat Ss ++ tail) (placed 0 Ss ++ []) := .sentences Ss (.nil htail)
  rw [htext, ← Parser.ofTokens_eq_ok_iff] at hreading
  rw [← Parser.ofTokens_eq_ok_iff, hreading] at hplaced
  obtain rfl : statements = placed 0 Ss := by simpa using hplaced
  rfl

theorem layout_of_extended (hs : s.Consistent) (h : s.Extended p t) (hid : s.source? id = none)
    (hread : ParsedSource.ofText edition id text = .ok p)
    (htext : Token.tokenize text = flat Ss ++ tail) (htail : Trivia tail) :
    t.Layout id (Token.tokenize text) (Ss.flatMap (·.pieces)) tail := by
  obtain rfl := ofText_of_flat hread htext htail
  have hobjects := h.objects
  have hkeys := keys_pieces_eq_map_key id edition Ss
  constructor
  case tokens => rw [join_pieces, htext]
  case legible =>
    intro p hp
    have hreads := reads_pieces htext p hp
    refine ⟨⟨_, hreads⟩, fun hkey => ?_⟩
    rwa [Piece.item?, hkey] at hreads
  case nodup =>
    have hnodup := h.consistent.keys
    rw [hobjects, List.map_append, List.nodup_append] at hnodup
    rw [hkeys]
    exact hnodup.2.1
  case known =>
    intro key hkey
    rw [hkeys] at hkey
    obtain ⟨o, ho, hkey⟩ := List.mem_map.1 hkey
    refine ⟨o, by rw [hobjects]; exact List.mem_append_right _ ho, ?_, hkey⟩
    exact ((ParsedSource.sound_of_ofText hread).source o ho).1
  case placed =>
    intro o ho hsource
    rw [hobjects] at ho
    -- The source is new, so its objects are those of the text.
    rcases List.mem_append.1 ho with ho | ho
    · obtain ⟨source, hsource', -⟩ := hs.located o ho
      rw [hsource, hid] at hsource'
      cases hsource'
    · obtain ⟨st, hst, ho⟩ := List.mem_filterMap.1 ho
      obtain ⟨key, hkey, rfl⟩ := Option.map_eq_some_iff.1 ho
      obtain ⟨as, p, bs, hps, hpkey, hspan⟩ := exists_piece_of_mem_placed hst
      exact ⟨as, p, bs, hps, hpkey.trans hkey, hspan⟩
  case last =>
    have htokens := Token.ofChars_chars (flat Ss) (show ofChars text.toList = _ from htext)
    rw [htokens]
    exact Parser.outline?_trivia htail

/-- A text of sentences is laid out, if a definition can follow it. -/
theorem laidOut_of_extended (hs : s.Consistent) (hlaidOut : s.LaidOut) (h : s.Extended p t)
    (hid : s.source? id = none) (hread : ParsedSource.ofText edition id text = .ok p)
    (hclosed : Statement.Closed (Token.tokenize text))
    (hcomment : ¬ EndsInComment (Token.tokenize text)) : t.LaidOut := by
  obtain ⟨Ss, tail, htail, htext⟩ := Parser.exists_sentences hclosed
  have hp := ofText_of_flat hread htext htail
  have hid' : s.source? p.id = none := by rw [hp]; exact hid
  intro id' tokens htokens
  rw [tokens?, h.source? hid'] at htokens
  split at htokens
  · next heq =>
    obtain rfl : id' = id := by rw [heq, hp]
    rw [hp] at htokens
    cases htokens
    refine ⟨_, tail, layout_of_extended hs h hid hread htext htail, ?_⟩
    refine Token.quiet_of_tail htail ?_ fun hends => hcomment ?_
    · exact Token.ofChars_chars (flat Ss) (show ofChars text.toList = _ from htext)
    · obtain ⟨t, ht, hopen⟩ := hends
      exact ⟨t, by rw [htext, List.getLast?_append, ht]; rfl, hopen⟩
  · next hne =>
    obtain ⟨ps, tail', hlayout, hquiet⟩ := hlaidOut id' tokens htokens
    refine ⟨ps, tail', hlayout.congr fun o hsource => ?_, hquiet⟩
    rw [h.objects, List.mem_append, or_iff_left_iff_imp]
    intro ho
    exact absurd (hsource.symm.trans ((ParsedSource.sound_of_ofText hread).source o ho).1) hne

/-- The definitions in a text of sentences are read by themselves. -/
theorem recites_of_extended (hs : s.Consistent) (hrecites : s.Recites) (h : s.Extended p t)
    (hid : s.source? id = none) (hread : ParsedSource.ofText edition id text = .ok p)
    (hclosed : Statement.Closed (Token.tokenize text)) : t.Recites := by
  obtain ⟨Ss, tail, htail, htext⟩ := Parser.exists_sentences hclosed
  have hlayout := layout_of_extended hs h hid hread htext htail
  have hp := ofText_of_flat hread htext htail
  have hid' : s.source? p.id = none := by rw [hp]; exact hid
  intro o ho
  have ho' := ho
  rw [h.objects] at ho'
  rcases List.mem_append.1 ho' with ho' | ho'
  · rw [definition, h.definitionTokens hs hid' ho']
    exact hrecites o ho'
  · have hsource : o.source = id := by
      rw [((ParsedSource.sound_of_ofText hread).source o ho').1, hp]
    have htokens : t.tokens? id = some (Token.tokenize text) := by
      rw [tokens?, h.source? hid', hp, if_pos rfl]
      rfl
    obtain ⟨as, p, bs, hps, hkey, hspan⟩ := hlayout.placed o ho hsource
    have hreads := reads_pieces htext p (by simp [hps])
    rw [Piece.item?, hkey] at hreads
    rw [definition, hlayout.definitionTokens h.consistent htokens ho hsource hps hspan]
    exact hreads

end Schema

end SchemaAlign
