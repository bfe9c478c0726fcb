import SchemaAlign.Proofs.Schema.Load

/-!
# The pieces of a source

In memory, the tokens of a source are not those of its text once a definition was changed. But they
are always a row of pieces, each of which is read by itself: the definitions of the objects, and what
stands between them. Edits change the pieces and add new ones, so the text always says what the
schema holds.

* `Piece`, `Layout`: the pieces of a source;
* `Layout.mirrors`: the text of a source that is laid out says what the schema holds of it;
* `Layout.set`, `Layout.append`: changing a piece, adding one;
* `Applied.laidOut`: edits keep all sources laid out.
-/

namespace SchemaAlign

open SchemaAlign.Statement (outline?)
open SchemaAlign.Token (Quiet ofChars chars)
open SchemaAlign.Parser (Reads reads_nil reads_of_quiet)

/-- Tokens that are read by themselves, whatever the reader finds in them. -/
def Token.Legible (tokens : List Token) : Prop :=
  ∃ out, Reads (chars tokens) out

/-- Some tokens of a source: the definition of an object, or what stands between definitions. -/
structure Piece where
  key? : Option ObjectKey
  tokens : List Token

namespace Piece

variable {ps as bs : List Piece} {p q : Piece} {key : ObjectKey} {key' : Option ObjectKey}
  {f : List Token → List Token}

/-- The tokens of pieces, one after the other. -/
def join (ps : List Piece) : List Token :=
  ps.flatMap (·.tokens)

/-- The object of the piece, and its definition. -/
def item? (p : Piece) : Option (ObjectKey × String) :=
  p.key?.map fun key => (key, Token.render p.tokens)

/-- The objects of pieces. -/
def keys (ps : List Piece) : List ObjectKey :=
  ps.filterMap (·.key?)

/-- The piece, changed if it is the definition of the given object. -/
def set (key : ObjectKey) (key' : Option ObjectKey) (f : List Token → List Token) (p : Piece) :
    Piece :=
  if p.key? = some key then ⟨key', f p.tokens⟩ else p

theorem join_append (as bs : List Piece) : join (as ++ bs) = join as ++ join bs :=
  List.flatMap_append

theorem join_cons (p : Piece) (ps : List Piece) : join (p :: ps) = p.tokens ++ join ps :=
  List.flatMap_cons

theorem keys_append (as bs : List Piece) : keys (as ++ bs) = keys as ++ keys bs :=
  List.filterMap_append

theorem keys_cons (p : Piece) (ps : List Piece) : keys (p :: ps) = p.key?.toList ++ keys ps := by
  rw [keys, List.filterMap_cons]
  cases p.key? <;> rfl

theorem mem_keys : key ∈ keys ps ↔ ∃ p ∈ ps, p.key? = some key :=
  List.mem_filterMap

/-- The piece is read by itself. If it is the definition of no object, it says nothing. -/
structure Legible (p : Piece) : Prop where
  tokens : Token.Legible p.tokens
  quiet : p.key? = none → Reads (chars p.tokens) []

theorem Legible.of_quiet (h : Reads (chars p.tokens) []) : p.Legible :=
  ⟨⟨_, h⟩, fun _ => h⟩

theorem Legible.of_key (h : Token.Legible p.tokens) (hkey : p.key? ≠ none) : p.Legible :=
  ⟨h, fun hnone => absurd hnone hkey⟩

/-- Pieces that are read by themselves are read one after the other. -/
theorem reads_join {out : Piece → List (ObjectKey × String)}
    (h : ∀ p ∈ ps, Reads (chars p.tokens) (out p)) : Reads (chars (join ps)) (ps.flatMap out) := by
  induction ps with
  | nil => exact reads_nil
  | cons p ps ih =>
    obtain ⟨hp, hps⟩ := List.forall_mem_cons.1 h
    rw [join_cons, Token.chars_append, List.flatMap_cons]
    exact hp.append (ih hps)

theorem map_item?_fst (ps : List Piece) : (ps.filterMap item?).map (·.1) = keys ps := by
  rw [keys, List.map_filterMap]
  refine List.filterMap_congr fun p _ => ?_
  rw [item?, Option.map_map]
  exact Option.map_id'

/-- The definition of an object is one piece. -/
theorem eq_of_key? (h : (keys ps).Nodup) (hp : p ∈ ps) (hq : q ∈ ps) (hkey : p.key? = some key)
    (hkey' : q.key? = some key) : p = q := by
  induction ps with
  | nil => cases hp
  | cons r ps ih =>
    rw [keys_cons] at h
    obtain ⟨-, hps, hdisjoint⟩ := List.nodup_append.1 h
    -- One of the two stands at the front, or both behind it.
    rcases List.mem_cons.1 hp with rfl | hp₁ <;> rcases List.mem_cons.1 hq with rfl | hq₁
    · rfl
    · exact absurd rfl (hdisjoint key (by simp [hkey]) key (mem_keys.2 ⟨q, hq₁, hkey'⟩))
    · exact absurd rfl (hdisjoint key (by simp [hkey']) key (mem_keys.2 ⟨p, hp₁, hkey⟩))
    · exact ih hps hp₁ hq₁

/-! ## Changing a piece -/

theorem map_set_of_not_mem (h : key ∉ keys ps) : ps.map (set key key' f) = ps := by
  refine (List.map_congr_left fun p hp => ?_).trans (List.map_id ps)
  exact if_neg fun hkey => h (mem_keys.2 ⟨p, hp, hkey⟩)

/-- Only the one piece is changed. -/
theorem map_set (h : (keys (as ++ p :: bs)).Nodup) (hp : p.key? = some key) :
    (as ++ p :: bs).map (set key key' f) = as ++ ⟨key', f p.tokens⟩ :: bs := by
  rw [keys_append, keys_cons, hp, List.nodup_append] at h
  obtain ⟨-, hbs, has⟩ := h
  have hbs : key ∉ keys bs := (List.nodup_cons.1 hbs).1
  have has : key ∉ keys as := fun hmem => has key hmem key (by simp) rfl
  rw [List.map_append, List.map_cons, map_set_of_not_mem has, map_set_of_not_mem hbs, set, if_pos hp]

theorem length_tokens_set (hf : ∀ tokens, (f tokens).length = tokens.length) (p : Piece) :
    (set key key' f p).tokens.length = p.tokens.length := by
  unfold set
  split
  · exact hf _
  · rfl

theorem length_join_map_set (hf : ∀ tokens, (f tokens).length = tokens.length) (ps : List Piece) :
    (join (ps.map (set key key' f))).length = (join ps).length := by
  induction ps with
  | nil => rfl
  | cons p ps ih =>
    rw [List.map_cons, join_cons, join_cons, List.length_append, List.length_append, ih,
      length_tokens_set hf]

/-- Every piece keeps its object, unless it is the one that is removed. -/
theorem key?_set (hkey' : key' = some key ∨ key' = none) {other : ObjectKey}
    (hp : p.key? = some other) (hne : key' = none → other ≠ key) :
    (set key key' f p).key? = some other := by
  unfold set
  split
  · next hpkey =>
    obtain rfl : other = key := Option.some.inj (hp.symm.trans hpkey)
    exact hkey'.resolve_right fun hnone => hne hnone rfl
  · exact hp

theorem not_mem_keys_map_set (ps : List Piece) : key ∉ keys (ps.map (set key none f)) := by
  rw [mem_keys]
  rintro ⟨_, hq, hkey⟩
  obtain ⟨p, -, rfl⟩ := List.mem_map.1 hq
  unfold set at hkey
  split at hkey
  · cases hkey
  · contradiction

theorem keys_map_set_sublist (hkey' : key' = some key ∨ key' = none) (ps : List Piece) :
    (keys (ps.map (set key key' f))).Sublist (keys ps) := by
  induction ps with
  | nil => exact List.Sublist.refl _
  | cons p ps ih =>
    have hp : (set key key' f p).key?.toList.Sublist p.key?.toList := by
      unfold set
      split
      · next hp =>
        rw [hp]
        rcases hkey' with rfl | rfl
        · exact List.Sublist.refl _
        · exact List.nil_sublist _
      · exact List.Sublist.refl _
    rw [List.map_cons, keys_cons, keys_cons]
    exact hp.append ih

end Piece

open Piece (join keys)

namespace Schema

variable {s t t' d : Schema} {o : SchemaObject} {e : Edit} {edition : Nat} {id : String}
  {placement : SchemaObject → String} {tokens tail : List Token} {ps : List Piece}

/-- The tokens of a source as pieces that are read by themselves. Among them are the definitions of
    all objects of the source. What stands behind the last piece says nothing. -/
structure Layout (s : Schema) (id : String) (tokens : List Token) (ps : List Piece)
    (tail : List Token) : Prop where
  tokens : tokens = join ps ++ tail
  legible : ∀ p ∈ ps, p.Legible
  nodup : (keys ps).Nodup
  known : ∀ key ∈ keys ps, ∃ o ∈ s.objects, o.source = id ∧ o.key = key
  placed : ∀ o ∈ s.objects, o.source = id → ∃ as p bs, ps = as ++ p :: bs ∧
    p.key? = some o.key ∧ o.span = ⟨(join as).length, (join as).length + p.tokens.length⟩
  last : outline? (ofChars (chars tail)) = some []

/-- All sources of the schema are laid out, and their ends still say nothing once a definition
    follows. -/
def LaidOut (s : Schema) : Prop :=
  ∀ id tokens, s.tokens? id = some tokens →
    ∃ ps tail, s.Layout id tokens ps tail ∧ Quiet (chars tail ++ ['\n', '\n'])

/-- All definitions of the schema are read by themselves. -/
def Legible (d : Schema) : Prop :=
  ∀ o ∈ d.objects, Token.Legible (d.definitionTokens o)

/-- In all definitions of the schema, the reader finds the objects that they define. -/
def Recites (d : Schema) : Prop :=
  ∀ o ∈ d.objects, Reads (chars (d.definitionTokens o)) [(o.key, d.definition o)]

theorem Recites.legible (h : d.Recites) : d.Legible :=
  fun o ho => ⟨_, h o ho⟩

/-! ## What the text says -/

theorem Layout.definitionTokens (hs : s.Consistent) (htokens : s.tokens? id = some tokens)
    (h : s.Layout id tokens ps tail) (ho : o ∈ s.objects) (hid : o.source = id)
    {as bs : List Piece} {p : Piece} (hps : ps = as ++ p :: bs)
    (hspan : o.span = ⟨(join as).length, (join as).length + p.tokens.length⟩) :
    s.definitionTokens o = p.tokens := by
  obtain ⟨source, hsource, rfl⟩ := Option.map_eq_some_iff.1 htokens
  have hslice := (hs.slice? ho (hid ▸ hsource)).1
  rw [h.tokens, hspan, hps, Piece.join_append, Piece.join_cons, List.append_assoc,
    List.append_assoc, ← List.append_assoc, slice?_append] at hslice
  exact (Option.some.inj hslice).symm

theorem Layout.definitionTokens_of_key? (hs : s.Consistent) (htokens : s.tokens? id = some tokens)
    (h : s.Layout id tokens ps tail) (ho : o ∈ s.objects) (hid : o.source = id) {p : Piece}
    (hp : p ∈ ps) (hkey : p.key? = some o.key) : s.definitionTokens o = p.tokens := by
  obtain ⟨as, q, bs, hps, hkey', hspan⟩ := h.placed o ho hid
  obtain rfl : p = q := Piece.eq_of_key? h.nodup hp (by simp [hps]) hkey hkey'
  exact h.definitionTokens hs htokens ho hid hps hspan

/-- A piece that defines an object is its definition. -/
theorem Layout.exists_object (hs : s.Consistent) (htokens : s.tokens? id = some tokens)
    (h : s.Layout id tokens ps tail) {p : Piece} {key : ObjectKey} (hp : p ∈ ps)
    (hkey : p.key? = some key) :
    ∃ o ∈ s.objects, o.source = id ∧ o.key = key ∧ s.definitionTokens o = p.tokens := by
  obtain ⟨o, ho, hid, rfl⟩ := h.known _ (Piece.mem_keys.2 ⟨p, hp, hkey⟩)
  exact ⟨o, ho, hid, rfl, h.definitionTokens_of_key? hs htokens ho hid hp hkey⟩

theorem Layout.mem_entries (hs : s.Consistent) (htokens : s.tokens? id = some tokens)
    (h : s.Layout id tokens ps tail) (key : ObjectKey) (definition : String) :
    (key, definition) ∈ ps.filterMap Piece.item? ↔ s.Holds key id definition := by
  simp only [List.mem_filterMap, Piece.item?, Option.map_eq_some_iff, Prod.mk.injEq]
  constructor
  · rintro ⟨p, hp, key, hkey, rfl, rfl⟩
    obtain ⟨o, ho, hid, rfl, heq⟩ := h.exists_object hs htokens hp hkey
    exact ⟨o, ho, rfl, hid, by rw [definition, heq]⟩
  · rintro ⟨o, ho, rfl, hid, rfl⟩
    obtain ⟨as, p, bs, hps, hkey, hspan⟩ := h.placed o ho hid
    refine ⟨p, by simp [hps], o.key, hkey, rfl, ?_⟩
    rw [definition, h.definitionTokens hs htokens ho hid hps hspan]

/-- In a piece, the reader finds the object that it defines. -/
theorem Layout.reads (hs : s.Consistent) (htokens : s.tokens? id = some tokens)
    (h : s.Layout id tokens ps tail) (hrecites : s.Recites) {p : Piece} (hp : p ∈ ps) :
    Reads (chars p.tokens) p.item?.toList := by
  cases hkey : p.key? with
  | none =>
    rw [Piece.item?, hkey]
    exact (h.legible p hp).quiet hkey
  | some key =>
    obtain ⟨o, ho, -, rfl, heq⟩ := h.exists_object hs htokens hp hkey
    have hreads := hrecites o ho
    rw [definition, heq] at hreads
    rw [Piece.item?, hkey]
    exact hreads

/-- The text of a source that is laid out says what the schema holds of it. -/
theorem Layout.mirrors (hs : s.Consistent) (htokens : s.tokens? id = some tokens)
    (h : s.Layout id tokens ps tail) (hrecites : s.Recites) :
    s.Mirrors id (Token.render tokens) := by
  refine ⟨ps.filterMap Piece.item?, ?_, ?_, h.mem_entries hs htokens⟩
  · have hreads := Piece.reads_join fun p hp => h.reads hs htokens hrecites hp
    rw [Token.tokenize, Token.toList_render, h.tokens, Token.chars_append, hreads, h.last,
      Option.map_some, List.append_nil, List.filterMap_eq_flatMap_toList]
  · rw [Piece.map_item?_fst]
    exact h.nodup

theorem LaidOut.mirrors (hs : s.Consistent) (h : s.LaidOut) (hrecites : s.Recites)
    (htokens : s.tokens? id = some tokens) : s.Mirrors id (Token.render tokens) := by
  obtain ⟨ps, tail, hlayout, -⟩ := h id tokens htokens
  exact hlayout.mirrors hs htokens hrecites

/-- Whatever the reader finds in a source that is laid out, it finds in the definition of some
    object. -/
theorem LaidOut.exists_object (hs : s.Consistent) (h : s.LaidOut)
    (htokens : s.tokens? id = some tokens) {out : List (ObjectKey × String)}
    (hout : outline? (Token.tokenize (Token.render tokens)) = some out)
    {x : ObjectKey × String} (hx : x ∈ out) :
    ∃ o ∈ s.objects, o.source = id ∧
      ∃ out', Reads (chars (s.definitionTokens o)) out' ∧ x ∈ out' := by
  obtain ⟨ps, tail, hlayout, -⟩ := h id tokens htokens
  choose! items hitems using fun p hp => (hlayout.legible p hp).tokens
  have hreads := Piece.reads_join hitems
  rw [Token.tokenize, Token.toList_render, hlayout.tokens, Token.chars_append, hreads,
    hlayout.last, Option.map_some, List.append_nil, Option.some.injEq] at hout
  subst hout
  obtain ⟨p, hp, hx⟩ := List.mem_flatMap.1 hx
  cases hkey : p.key? with
  | none =>
    have hquiet := (hlayout.legible p hp).quiet hkey
    rw [(hitems p hp).unique hquiet] at hx
    cases hx
  | some key =>
    obtain ⟨o, ho, hid, rfl, heq⟩ := hlayout.exists_object hs htokens hp hkey
    exact ⟨o, ho, hid, items p, heq ▸ hitems p hp, hx⟩

/-! ## Edits -/

theorem Layout.congr (h : s.Layout id tokens ps tail)
    (hobjects : ∀ o, o.source = id → (o ∈ t.objects ↔ o ∈ s.objects)) :
    t.Layout id tokens ps tail where
  tokens := h.tokens
  legible := h.legible
  nodup := h.nodup
  known key hkey := by
    obtain ⟨o, ho, hid, hkey⟩ := h.known key hkey
    exact ⟨o, (hobjects o hid).2 ho, hid, hkey⟩
  placed o ho hid := h.placed o ((hobjects o hid).1 ho) hid
  last := h.last

/-- Changing the piece of an object. Either it stays the piece of this object, or the object is
    removed. -/
theorem Layout.set {key' : Option ObjectKey} {f : List Token → List Token} (hs : s.Consistent)
    (htokens : s.tokens? id = some tokens) (h : s.Layout id tokens ps tail) (ho : o ∈ s.objects)
    (hid : o.source = id) (hf : ∀ tokens, (f tokens).length = tokens.length)
    (hlegible : Piece.Legible ⟨key', f (s.definitionTokens o)⟩)
    (hkey' : key' = some o.key ∨ key' = none)
    (hobjects : ∀ o', o'.source = id →
      (o' ∈ t.objects ↔ o' ∈ s.objects ∧ (key' = none → o'.key ≠ o.key))) :
    t.Layout id (overwrite tokens o.span (f (s.definitionTokens o)))
      (ps.map (Piece.set o.key key' f)) tail := by
  have hsub := Piece.keys_map_set_sublist (f := f) hkey' ps
  constructor
  case tokens =>
    obtain ⟨as, p, bs, rfl, hkey, hspan⟩ := h.placed o ho hid
    rw [Piece.map_set h.nodup hkey, h.definitionTokens hs htokens ho hid rfl hspan, h.tokens, hspan,
      Piece.join_append, Piece.join_append, Piece.join_cons, Piece.join_cons]
    have := overwrite_append (join as) p.tokens (join bs ++ tail) (f p.tokens)
    simpa only [List.append_assoc] using this
  case legible =>
    intro _ hq
    obtain ⟨p, hp, rfl⟩ := List.mem_map.1 hq
    unfold Piece.set
    split
    · next hkey => rwa [h.definitionTokens_of_key? hs htokens ho hid hp hkey] at hlegible
    · exact h.legible p hp
  case nodup => exact hsub.nodup h.nodup
  case known =>
    intro key hkey
    obtain ⟨o', ho', hid', rfl⟩ := h.known key (hsub.subset hkey)
    refine ⟨o', (hobjects o' hid').2 ⟨ho', ?_⟩, hid', rfl⟩
    rintro rfl heq
    exact Piece.not_mem_keys_map_set ps (heq ▸ hkey)
  case placed =>
    intro o' ho' hid'
    obtain ⟨ho', hne⟩ := (hobjects o' hid').1 ho'
    obtain ⟨as, p, bs, hps, hkey, hspan⟩ := h.placed o' ho' hid'
    refine ⟨as.map (Piece.set o.key key' f), Piece.set o.key key' f p,
      bs.map (Piece.set o.key key' f), by rw [hps, List.map_append, List.map_cons],
      Piece.key?_set hkey' hkey hne, ?_⟩
    -- No piece changes its length, so all pieces stay where they were.
    rw [Piece.length_join_map_set hf, Piece.length_tokens_set hf]
    exact hspan
  case last => exact h.last

/-- What stands between the definitions before and one that is added says nothing. -/
theorem legible_between (hquiet : Quiet (chars tail ++ ['\n', '\n'])) :
    Piece.Legible ⟨none, tail ++ [Token.separator]⟩ := by
  have hchars : chars (tail ++ [Token.separator]) = chars tail ++ ['\n', '\n'] := by
    rw [Token.chars_append]
    rfl
  refine .of_quiet ?_
  rw [hchars]
  exact reads_of_quiet hquiet

theorem Layout.not_mem_keys (h : s.Layout id tokens ps tail) (hkey : s.contains o.key = false) :
    o.key ∉ keys ps := by
  intro hmem
  obtain ⟨o', ho', -, hkey'⟩ := h.known _ hmem
  exact contains_eq_false_iff.1 hkey o' ho' hkey'

/-- A definition that is added is a piece behind all others. -/
theorem Layout.append {definition : List Token} (h : s.Layout id tokens ps tail)
    (hquiet : Quiet (chars tail ++ ['\n', '\n']))
    (hlegible : Token.Legible definition) (hkey : s.contains o.key = false) (hid : o.source = id)
    (hspan : o.span = ⟨(tokens ++ [Token.separator]).length,
      (tokens ++ [Token.separator]).length + definition.length⟩)
    (hobjects : t.objects = s.objects ++ [o]) :
    t.Layout id (tokens ++ [Token.separator] ++ definition)
      (ps ++ [⟨none, tail ++ [Token.separator]⟩, ⟨some o.key, definition⟩]) [] := by
  have hkeys : keys (ps ++ [⟨none, tail ++ [Token.separator]⟩, ⟨some o.key, definition⟩]) =
      keys ps ++ [o.key] := by
    rw [Piece.keys_append]
    rfl
  constructor
  case tokens =>
    rw [h.tokens]
    simp [join]
  case legible =>
    have hnew : Piece.Legible ⟨some o.key, definition⟩ := .of_key hlegible nofun
    exact List.forall_mem_append.2 ⟨h.legible,
      List.forall_mem_cons.2 ⟨legible_between hquiet, List.forall_mem_singleton.2 hnew⟩⟩
  case nodup =>
    rw [hkeys, ← List.concat_eq_append]
    exact .concat (h.not_mem_keys hkey) h.nodup
  case known =>
    intro key hmem
    rw [hkeys] at hmem
    rw [hobjects]
    rcases List.mem_append.1 hmem with hmem | hmem
    · obtain ⟨o', ho', hid', hkey'⟩ := h.known key hmem
      exact ⟨o', List.mem_append_left _ ho', hid', hkey'⟩
    · exact ⟨o, by simp, hid, (List.mem_singleton.1 hmem).symm⟩
  case placed =>
    intro o' ho' hid'
    rw [hobjects] at ho'
    -- The pieces that were there stay in their places, and the new one begins behind them.
    rcases List.mem_append.1 ho' with ho' | ho'
    · obtain ⟨as, p, bs, rfl, hkey', hspan'⟩ := h.placed o' ho' hid'
      exact ⟨as, p, _, by rw [List.append_assoc, List.cons_append], hkey', hspan'⟩
    · obtain rfl := List.mem_singleton.1 ho'
      refine ⟨ps ++ [⟨none, tail ++ [Token.separator]⟩], ⟨some o'.key, definition⟩, [],
        by rw [List.append_assoc]; rfl, rfl, ?_⟩
      have hlen : (join (ps ++ [⟨none, tail ++ [Token.separator]⟩])).length =
          (tokens ++ [Token.separator]).length := by
        rw [h.tokens]
        simp [join]
      rw [hlen]
      exact hspan
  case last => exact Parser.outline?_ofChars_nil

/-- A definition that is added to a source that is not there is its only piece. -/
theorem layout_single {definition : List Token}
    (hlegible : Token.Legible definition) (hid : o.source = id)
    (hspan : o.span = ⟨0, definition.length⟩) (ho : o ∈ t.objects)
    (hobjects : ∀ o' ∈ t.objects, o'.source = id → o' = o) :
    t.Layout id definition [⟨some o.key, definition⟩] [] where
  tokens := by simp [join]
  legible p hp := by
    obtain rfl := List.mem_singleton.1 hp
    exact .of_key hlegible nofun
  nodup := List.nodup_singleton _
  known key hkey := ⟨o, ho, hid, (List.mem_singleton.1 hkey).symm⟩
  placed o' ho' hid' := by
    obtain rfl := hobjects o' ho' hid'
    exact ⟨[], _, [], rfl, rfl, by rw [hspan]; simp [join]⟩
  last := Parser.outline?_ofChars_nil

theorem Appended.laidOut {new : SchemaObject} {target : String} (hd : d.Legible)
    (ht : t.Consistent) (h : t.LaidOut) (hnew : new ∈ d.objects)
    (hkey : t.contains new.key = false) (ha : t.Appended d edition new target o t') :
    t'.LaidOut := by
  intro id tokens htokens
  have hlegible := hd new hnew
  have hempty : Quiet (chars [] ++ ['\n', '\n']) :=
    Token.quiet_of_all_isBlank (List.all_eq_true.1 (by decide))
  rw [ha.tokens?] at htokens
  by_cases hid : target = id
  · subst hid
    rw [if_pos rfl, before_eq] at htokens
    have hspan := ha.span
    rw [before_eq] at hspan
    cases hold : t.tokens? target with
    | some old =>
      rw [hold] at htokens hspan
      cases htokens
      obtain ⟨ps, tail, hlayout, hquiet⟩ := h target old hold
      exact ⟨_, _, hlayout.append hquiet hlegible (ha.key ▸ hkey) ha.place hspan ha.objects, hempty⟩
    | none =>
      rw [hold] at htokens hspan
      cases htokens
      refine ⟨_, _, layout_single hlegible ha.place ?_ (by rw [ha.objects]; simp) ?_, hempty⟩
      · simpa using hspan
      · -- No object belongs to a source that is not there.
        intro o' ho' hid'
        rw [ha.objects] at ho'
        rcases List.mem_append.1 ho' with ho' | ho'
        · obtain ⟨source, hsource, -⟩ := ht.located o' ho'
          rw [Schema.tokens?, ← hid', hsource] at hold
          cases hold
        · exact List.mem_singleton.1 ho'
  · rw [if_neg hid] at htokens
    obtain ⟨ps, tail, hlayout, hquiet⟩ := h id tokens htokens
    refine ⟨ps, tail, hlayout.congr fun o' hid' => ?_, hquiet⟩
    rw [ha.objects, List.mem_append, List.mem_singleton, or_iff_left_iff_imp]
    rintro rfl
    exact absurd (ha.place.symm.trans hid') hid

/-- A change of one definition, after which its object is there as it was, or is removed. -/
theorem Redefined.laidOut {key' : Option ObjectKey} {f : List Token → List Token} {t₁ : Schema}
    (ht : t.Consistent) (h : t.LaidOut) (ho : o ∈ t.objects)
    (hf : ∀ tokens, (f tokens).length = tokens.length) (hr : t.Redefined o f t₁)
    (hlegible : Piece.Legible ⟨key', f (t.definitionTokens o)⟩)
    (hkey' : key' = some o.key ∨ key' = none) (hsources : t'.sources = t₁.sources)
    (hobjects : ∀ o', o' ∈ t'.objects ↔ o' ∈ t.objects ∧ (key' = none → o'.key ≠ o.key)) :
    t'.LaidOut := by
  intro id tokens htokens
  rw [show t'.tokens? id = t₁.tokens? id by
    simp only [Schema.tokens?, Schema.source?, hsources]] at htokens
  by_cases hid : id = o.source
  · subst hid
    obtain ⟨source, hsource, -⟩ := ht.located o ho
    have hold : t.tokens? o.source = some source.tokens := by
      rw [Schema.tokens?, hsource]
      rfl
    rw [Schema.tokens?, hr.source source hsource] at htokens
    cases htokens
    obtain ⟨ps, tail, hlayout, hquiet⟩ := h _ _ hold
    exact ⟨_, _, hlayout.set ht hold ho rfl hf hlegible hkey' fun o' _ => hobjects o', hquiet⟩
  · rw [Schema.tokens?, hr.others id hid] at htokens
    obtain ⟨ps, tail, hlayout, hquiet⟩ := h id tokens htokens
    refine ⟨ps, tail, hlayout.congr fun o' hid' => ?_, hquiet⟩
    rw [hobjects, and_iff_left_iff_imp]
    intro ho' _ hkey
    have := List.inj_on_of_nodup_map ht.keys ho' ho hkey
    exact hid (by rw [← hid', this])

/-- Edits keep all sources laid out. -/
theorem Applied.laidOut (hd : d.Legible) (ht : t.Consistent)
    (happlied : Applied d edition placement t e t') (h : t.LaidOut) : t'.LaidOut := by
  cases happlied with
  | add hnew hkey ha => exact ha.laidOut hd ht h hnew hkey
  | @modify old new _ hold hnew hkey hr =>
    have hne := definitionTokens_ne_nil ht hold
    have hrender := render_replaceText (d.definition new) hne
    -- The tokens of the object give the text of the desired definition now.
    have hchars : chars (Token.replaceText (d.definition new) (t.definitionTokens old)) =
        chars (d.definitionTokens new) := by
      rw [← Token.toList_render, hrender, definition, Token.toList_render]
    have hlegible : Piece.Legible ⟨some old.key,
        Token.replaceText (d.definition new) (t.definitionTokens old)⟩ := by
      refine .of_key ?_ (Option.some_ne_none old.key)
      rw [Token.Legible, hchars]
      exact hd new hnew
    exact hr.laidOut ht h hold (length_replaceText _) hlegible (.inl rfl) rfl
      fun o' => by simp [hr.objects]
  | @remove old _ hold hr =>
    -- The tokens of the object stay, without any text.
    have hlegible : Piece.Legible ⟨none, Token.blankOut (t.definitionTokens old)⟩ := by
      refine .of_quiet ?_
      rw [chars_blankOut]
      exact reads_nil
    exact hr.laidOut ht h hold length_blankOut hlegible (.inr rfl) rfl
      fun o' => by simp [hr.objects]

/-- Edits keep the reader finding the objects in their definitions, if it finds those that the edits
    are about in the new ones. -/
theorem Edited.recites {edits : List Edit} (h : Edited s d placement edits t) (hs : s.Recites)
    (hnew : ∀ e ∈ edits, ∀ new, e.desired? = some new →
      Reads (chars (d.definitionTokens new)) [(new.key, d.definition new)]) : t.Recites := by
  intro o ho
  rcases h.origin ho with ⟨ho', -, heq⟩ | ⟨e, he, new, hnew', hkey, -, heq⟩
  · rw [definition, heq]
    exact hs o ho'
  · have hchars : chars (t.definitionTokens o) = chars (d.definitionTokens new) := by
      rw [← Token.toList_render, ← Token.toList_render]
      exact congrArg String.toList heq
    rw [hkey, heq, hchars]
    exact hnew e he new hnew'

end Schema

end SchemaAlign
