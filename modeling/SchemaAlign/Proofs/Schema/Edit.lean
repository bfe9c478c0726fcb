import SchemaAlign.Proofs.Schema.Step

/-!
# What edits do

* `Edit.slot`, `Edit.appended`: what an edit does to the tokens of a source;
* `Edited`: the state after some edits;
* `edited_runEach`: the state after all of them.
-/

namespace SchemaAlign

variable {s t t' d : Schema} {e : Edit} {edits : List Edit} {edition : Nat}
  {placement : SchemaObject → String} {o old new : SchemaObject} {id : String}

namespace Edit

/-- The source that the edit changes. -/
def touched (placement : SchemaObject → String) : Edit → String
  | add new => placement new
  | modify old _ => old.source
  | remove old => old.source

/-- The object whose definition the edit brings, if it brings one. -/
def desired? : Edit → Option SchemaObject
  | add new | modify _ new => some new
  | remove _ => none

theorem target_of_desired? (h : e.desired? = some new) : e.target = new.key := by
  cases e <;> cases h <;> rfl

/-- Whether the edit is about a token of an object that is there already. -/
def covers (e : Edit) (id : String) (i : Nat) : Bool :=
  match e with
  | add _ => false
  | modify old _ | remove old =>
    old.source == id && decide (old.span.start ≤ i) && decide (i < old.span.stop)

/-- The new text of a token that the edit is about. The first token of a definition gets the whole
    new text, the others get none. -/
def newText (d : Schema) (e : Edit) (i : Nat) : String :=
  match e with
  | modify old new => if i = old.span.start then d.definition new else ""
  | _ => ""

/-- What the edit makes of a token. -/
def slot (d : Schema) (id : String) (e : Edit) (i : Nat) (t : Token) : Token :=
  if e.covers id i then { t with text := e.newText d i } else t

/-- The definition that the edit puts at the end of the given source. -/
def appended (d : Schema) (placement : SchemaObject → String) (id : String) (e : Edit) :
    Option (List Token) :=
  match e with
  | add new => if placement new = id then some (d.definitionTokens new) else none
  | _ => none

end Edit

theorem mapIdx_congr {α β : Type} {xs : List α} {f g : Nat → α → β}
    (h : ∀ i (hi : i < xs.length), f i xs[i] = g i xs[i]) : xs.mapIdx f = xs.mapIdx g := by
  refine List.ext_getElem (by simp) fun i hi _ => ?_
  simp only [List.length_mapIdx] at hi
  simp only [List.getElem_mapIdx, h i hi]

theorem mapIdx_eq_self {α : Type} {xs : List α} {f : Nat → α → α}
    (h : ∀ i (hi : i < xs.length), f i xs[i] = xs[i]) : xs.mapIdx f = xs := by
  refine List.ext_getElem (by simp) fun i hi hi' => ?_
  simp only [List.getElem_mapIdx, h i hi']

/-- Overwriting a part, token by token. -/
theorem overwrite_eq_mapIdx {tokens part : List Token} {span : Span}
    (h : slice? tokens span = some part) (f : Nat → Token → Token) :
    overwrite tokens span (part.mapIdx fun j => f (j + span.start)) =
      tokens.mapIdx fun i t => if span.start ≤ i ∧ i < span.stop then f i t else t := by
  obtain ⟨as, bs, rfl, rfl⟩ := slice?_eq_some_iff_append.1 h
  rw [overwrite_append, List.mapIdx_append, List.mapIdx_append]
  congr 1
  · congr 1
    · symm
      refine mapIdx_eq_self fun i hi => if_neg ?_
      dsimp only
      omega
    · refine mapIdx_congr fun i hi => ?_
      rw [if_pos (by dsimp only; omega)]
  · symm
    refine mapIdx_eq_self fun i hi => if_neg ?_
    rw [List.length_append]
    dsimp only
    omega

theorem replaceText_eq_mapIdx (text : String) (tokens : List Token) :
    Token.replaceText text tokens =
      tokens.mapIdx fun j t => { t with text := if j = 0 then text else "" } := by
  cases tokens with
  | nil => rfl
  | cons t ts =>
    rw [List.mapIdx_cons, Token.replaceText, Token.blankOut]
    refine congrArg _ (List.ext_getElem (by simp) fun i hi hi' => ?_)
    simp

theorem blankOut_eq_mapIdx (tokens : List Token) :
    Token.blankOut tokens = tokens.mapIdx fun _ t => { t with text := "" } := by
  rw [Token.blankOut]
  exact List.ext_getElem (by simp) fun i hi hi' => by simp

namespace Schema

/-! ## The state after some edits -/

/-- What edits make of a token. -/
def slots (d : Schema) (id : String) (edits : List Edit) (i : Nat) (t : Token) : Token :=
  edits.foldl (fun t e => e.slot d id i t) t

/-- The definitions that edits put at the end of the given source. -/
def additions (d : Schema) (placement : SchemaObject → String) (id : String) (edits : List Edit) :
    List (List Token) :=
  edits.filterMap (·.appended d placement id)

/-- Definitions, each after an empty line. -/
def separated (definitions : List (List Token)) : List Token :=
  definitions.flatMap (Token.separator :: ·)

/-- The schema says of the target of the edit what the edit has to bring about, in the source that
    the edit changes. -/
def Agrees (t d : Schema) (placement : SchemaObject → String) (e : Edit) : Prop :=
  match e with
  | .add new | .modify _ new => ∃ o, t.get? new.key = some o ∧ o.source = e.touched placement ∧
    t.definition o = d.definition new
  | .remove old => t.get? old.key = none

/-- `t` is `s` after the given edits. -/
structure Edited (s d : Schema) (placement : SchemaObject → String) (edits : List Edit)
    (t : Schema) : Prop where
  consistent : t.Consistent
  changed : t.changed = (edits.map (·.touched placement)).foldl mark s.changed
  /-- Objects that no edit is about stay. -/
  objects : ∀ key, (∀ e ∈ edits, e.target ≠ key) → t.get? key = s.get? key
  /-- So do their definitions. -/
  definitions : ∀ o ∈ s.objects, (∀ e ∈ edits, e.target ≠ o.key) →
    t.definitionTokens o = s.definitionTokens o
  targets : ∀ e ∈ edits, t.Agrees d placement e
  /-- In a source that was there, tokens are changed in place, and definitions are added. -/
  old : ∀ id source, s.source? id = some source → t.tokens? id =
    some (source.tokens.mapIdx (slots d id edits) ++ separated (additions d placement id edits))
  /-- A source that was not there begins with the first definition that is added to it. -/
  new : ∀ id, s.source? id = none → t.tokens? id =
    match additions d placement id edits with
    | [] => none
    | definition :: definitions => some (definition ++ separated definitions)

theorem Edited.nil (h : s.Consistent) (d : Schema) (placement : SchemaObject → String) :
    Edited s d placement [] s where
  consistent := h
  changed := rfl
  objects _ _ := rfl
  definitions _ _ _ := rfl
  targets _ he := absurd he List.not_mem_nil
  old id source hsource := by
    rw [tokens?, hsource]
    simp only [Option.map_some, separated, additions, List.filterMap_nil, List.flatMap_nil,
      List.append_nil]
    rw [mapIdx_eq_self]
    intro i hi
    rfl
  new id hid := by rw [tokens?, hid]; rfl

theorem slots_append (d : Schema) (id : String) (edits : List Edit) (e : Edit) (i : Nat)
    (t : Token) : slots d id (edits ++ [e]) i t = e.slot d id i (slots d id edits i t) := by
  rw [slots, List.foldl_append]
  rfl

theorem additions_append (d : Schema) (placement : SchemaObject → String) (id : String)
    (edits : List Edit) (e : Edit) : additions d placement id (edits ++ [e]) =
      additions d placement id edits ++ (e.appended d placement id).toList := by
  rw [additions, List.filterMap_append]
  cases h : e.appended d placement id <;> simp [additions, h]

theorem separated_append (xs ys : List (List Token)) :
    separated (xs ++ ys) = separated xs ++ separated ys :=
  List.flatMap_append

theorem Agrees.frame {key : ObjectKey} (h : t.Agrees d placement e) (hframe : Frame key t t')
    (hne : e.target ≠ key) : t'.Agrees d placement e := by
  cases e with
  | remove old => exact (hframe.objects _ hne).trans h
  | add new | modify _ new =>
    obtain ⟨o, ho, hsource, hdefinition⟩ := h
    obtain ⟨hmem, hkey⟩ := get?_eq_some ho
    refine ⟨o, (hframe.objects _ hne).trans ho, hsource, ?_⟩
    rw [← hdefinition, definition, definition, hframe.definitions o hmem (hkey ▸ hne)]

/-- One more edit. Its effect on the sources is given as they were after the edits before it. -/
theorem Edited.append (hs : s.Consistent) (h : Edited s d placement edits t)
    (hfresh : ∀ e' ∈ edits, e'.target ≠ e.target) (hconsistent : t'.Consistent)
    (hframe : Frame e.target t t') (hagrees : t'.Agrees d placement e)
    (hchanged : t'.changed = mark t.changed (e.touched placement))
    (hold : ∀ id source tokens extra, s.source? id = some source →
      tokens.length = source.tokens.length → t.tokens? id = some (tokens ++ extra) →
      t'.tokens? id = some (tokens.mapIdx (e.slot d id) ++ extra ++
        separated (e.appended d placement id).toList))
    (hnew : ∀ id, s.source? id = none → t'.tokens? id =
      match t.tokens? id, e.appended d placement id with
      | tokens, none => tokens
      | none, some definition => some definition
      | some tokens, some definition => some (tokens ++ separated [definition])) :
    Edited s d placement (edits ++ [e]) t' where
  consistent := hconsistent
  changed := by
    rw [List.map_append, List.foldl_append, hchanged, h.changed]
    rfl
  objects key hkey := by
    rw [List.forall_mem_append] at hkey
    rw [hframe.objects key (Ne.symm (hkey.2 e List.mem_cons_self)), h.objects key hkey.1]
  definitions o ho hkey := by
    rw [List.forall_mem_append] at hkey
    have hget := (h.objects o.key hkey.1).trans (hs.get?_key ho)
    rw [hframe.definitions o (get?_eq_some hget).1 (Ne.symm (hkey.2 e List.mem_cons_self)),
      h.definitions o ho hkey.1]
  targets := by
    refine List.forall_mem_append.2 ⟨fun e' he' => ?_, List.forall_mem_singleton.2 hagrees⟩
    exact (h.targets e' he').frame hframe (hfresh e' he')
  old id source hsource := by
    -- The edits overwrite one after the other, and each one adds behind what is there.
    rw [hold id source _ _ hsource List.length_mapIdx (h.old id source hsource),
      additions_append, separated_append, List.mapIdx_mapIdx, List.append_assoc]
    congr 3
    funext i t
    exact (slots_append d id edits e i t).symm
  new id hid := by
    rw [hnew id hid, h.new id hid, additions_append]
    cases additions d placement id edits <;> cases e.appended d placement id <;>
      simp [separated]

/-! ## One more edit -/

/-- A definition that is changed token by token, as part of its source. -/
theorem Redefined.tokens? {f : List Token → List Token} (h : t.Consistent) (ho : old ∈ t.objects)
    (hr : t.Redefined old f t') (g : Nat → Token → Token)
    (hf : ∀ tokens, f tokens = tokens.mapIdx fun j => g (j + old.span.start)) (id : String) :
    t'.tokens? id = (t.tokens? id).map fun tokens => tokens.mapIdx fun i x =>
      if old.source = id ∧ old.span.start ≤ i ∧ i < old.span.stop then g i x else x := by
  by_cases hid : id = old.source
  · subst hid
    obtain ⟨source, hsource, -⟩ := h.located old ho
    obtain ⟨hslice, -⟩ := h.slice? ho hsource
    rw [Schema.tokens?, Schema.tokens?, hr.source source hsource, hsource, Option.map_some,
      Option.map_some, Option.map_some, hf, overwrite_eq_mapIdx hslice]
    simp
  · rw [Schema.tokens?, Schema.tokens?, hr.others id hid]
    cases t.source? id with
    | none => rfl
    | some source =>
      simp only [Option.map_some]
      symm
      refine congrArg some (mapIdx_eq_self fun i hi => ?_)
      exact if_neg fun h => hid h.1.symm

/-- What an edit in place makes of a source that was there before all edits. -/
theorem mapIdx_slot_append {source : Source} {tokens extra : List Token} {g : Nat → Token → Token}
    (hs : s.Consistent) (ho : old ∈ s.objects) (hsource : s.source? id = some source)
    (hlen : tokens.length = source.tokens.length)
    (hslot : ∀ i x, e.slot d id i x =
      if old.source = id ∧ old.span.start ≤ i ∧ i < old.span.stop then g i x else x) :
    (tokens ++ extra).mapIdx (fun i x =>
      if old.source = id ∧ old.span.start ≤ i ∧ i < old.span.stop then g i x else x) =
      tokens.mapIdx (e.slot d id) ++ extra := by
  rw [List.mapIdx_append]
  congr 1
  · exact mapIdx_congr fun i hi => (hslot i _).symm
  · refine mapIdx_eq_self fun i hi => if_neg ?_
    rintro ⟨hid, -, hlt⟩
    obtain ⟨source', hsource', -, -, hle⟩ := hs.located old ho
    obtain rfl : source' = source := Option.some.inj (hsource'.symm.trans (hid ▸ hsource))
    omega

/-- Where an object comes from: it was there before and no edit is about it, or an edit brought its
    definition. -/
theorem Edited.origin (h : Edited s d placement edits t) (ho : o ∈ t.objects) :
    (o ∈ s.objects ∧ (∀ e ∈ edits, e.target ≠ o.key) ∧
        t.definitionTokens o = s.definitionTokens o) ∨
      ∃ e ∈ edits, ∃ new, e.desired? = some new ∧ o.key = new.key ∧
        o.source = e.touched placement ∧ t.definition o = d.definition new := by
  have hget := h.consistent.get?_key ho
  by_cases hkey : ∀ e ∈ edits, e.target ≠ o.key
  · have ho' := (get?_eq_some ((h.objects o.key hkey).symm.trans hget)).1
    exact .inl ⟨ho', hkey, h.definitions o ho' hkey⟩
  · simp only [not_forall, not_not] at hkey
    obtain ⟨e, he, hkey⟩ := hkey
    have htarget := h.targets e he
    cases e with
    | add new | modify _ new =>
      obtain ⟨o', hget', hsource, hdefinition⟩ := htarget
      have hkey : new.key = o.key := hkey
      rw [hkey, hget] at hget'
      cases hget'
      exact .inr ⟨_, he, new, rfl, hkey.symm, hsource, hdefinition⟩
    | remove old =>
      have hnone : t.get? old.key = none := htarget
      rw [show old.key = o.key from hkey, hget] at hnone
      cases hnone

theorem Edited.mem (hs : s.Consistent) (h : Edited s d placement edits t) (ho : o ∈ s.objects)
    (hkey : ∀ e ∈ edits, e.target ≠ o.key) : o ∈ t.objects :=
  (get?_eq_some ((h.objects o.key hkey).trans (hs.get?_key ho))).1

/-- The text of a definition after it was given another one. -/
theorem Edited.in_place {t₁ : Schema} {f : List Token → List Token} {g : Nat → Token → Token}
    (hs : s.Consistent)
    (h : Edited s d placement edits t) (hold : old ∈ s.objects)
    (hfresh : ∀ e' ∈ edits, e'.target ≠ e.target) (htarget : e.target = old.key)
    (hr : t.Redefined old f t₁)
    (hf : ∀ tokens, f tokens = tokens.mapIdx fun j => g (j + old.span.start))
    (hslot : ∀ id i x, e.slot d id i x =
      if old.source = id ∧ old.span.start ≤ i ∧ i < old.span.stop then g i x else x)
    (htouched : e.touched placement = old.source)
    (happended : ∀ id, e.appended d placement id = none)
    (hsources : t'.sources = t₁.sources) (hchanged : t'.changed = t₁.changed)
    (hconsistent : t'.Consistent) (hframe : Frame e.target t t')
    (hagrees : t'.Agrees d placement e) :
    Edited s d placement (edits ++ [e]) t' := by
  have hmem := h.mem hs hold (htarget ▸ hfresh)
  have htokens (id : String) := hr.tokens? h.consistent hmem g hf id
  have hsame (id : String) : t'.tokens? id = t₁.tokens? id := by
    simp only [Schema.tokens?, Schema.source?, hsources]
  refine h.append hs hfresh hconsistent hframe hagrees ?changed ?old ?new
  case changed => rw [hchanged, hr.changed, htouched]
  case old =>
    intro id source tokens extra hsource hlen ht
    rw [hsame, htokens, ht, Option.map_some, mapIdx_slot_append hs hold hsource hlen (hslot id),
      happended]
    simp [separated]
  case new =>
    intro id hid
    rw [hsame, htokens, happended]
    obtain ⟨source, hsource, -⟩ := hs.located old hold
    cases t.tokens? id with
    | none => rfl
    | some tokens =>
      refine congrArg some (mapIdx_eq_self fun i hi => if_neg fun h => ?_)
      rw [h.1, hid] at hsource
      cases hsource

theorem Edited.modify (hs : s.Consistent) (h : Edited s d placement edits t)
    (hold : old ∈ s.objects) (hkey : old.key = new.key)
    (hfresh : ∀ e' ∈ edits, e'.target ≠ new.key)
    (hr : t.Redefined old (Token.replaceText (d.definition new)) t') :
    Edited s d placement (edits ++ [.modify old new]) t' := by
  have hmem := h.mem hs hold (hkey ▸ hfresh)
  refine h.in_place hs hold hfresh hkey.symm hr
    (g := fun i x => { x with text := if i = old.span.start then d.definition new else "" })
    ?tokens ?slot rfl (fun _ => rfl) rfl rfl hr.consistent ?frame ?agrees
  case tokens =>
    intro tokens
    simp [replaceText_eq_mapIdx]
  case slot =>
    intro id i x
    simp [Edit.slot, Edit.covers, Edit.newText, and_assoc]
  case frame =>
    have hframe := hr.frame h.consistent hmem (length_replaceText _)
    rw [hkey] at hframe
    exact hframe
  case agrees =>
    refine ⟨old, ?_, rfl, ?_⟩
    · rw [← hkey]
      exact hr.consistent.get?_key (hr.objects ▸ hmem)
    · rw [definition, hr.definition h.consistent hmem (length_replaceText _),
        render_replaceText _ (definitionTokens_ne_nil h.consistent hmem)]

theorem get?_filter (t : Schema) (key k : ObjectKey) :
    { t with objects := t.objects.filter (·.key != key) }.get? k =
      if k = key then none else t.get? k := by
  simp only [get?, List.find?_filter]
  split
  · next hk =>
    rw [List.find?_eq_none]
    intro o ho
    simp [hk]
  · next hk =>
    congr 1
    funext o
    by_cases ho : o.key = k
    · simp [ho, hk]
    · simp [ho]

theorem Edited.remove (hs : s.Consistent) (h : Edited s d placement edits t)
    (hold : old ∈ s.objects) (hfresh : ∀ e' ∈ edits, e'.target ≠ old.key)
    (hr : t.Redefined old Token.blankOut t') :
    Edited s d placement (edits ++ [.remove old])
      { t' with objects := t'.objects.filter (·.key != old.key) } := by
  have hmem := h.mem hs hold hfresh
  have hframe := hr.frame h.consistent hmem length_blankOut
  refine h.in_place hs hold hfresh rfl hr (g := fun _ x => { x with text := "" })
    ?tokens ?slot rfl (fun _ => rfl) rfl rfl (hr.consistent.filter _) ?frame ?agrees
  case tokens => exact blankOut_eq_mapIdx
  case slot =>
    intro id i x
    simp [Edit.slot, Edit.covers, Edit.newText, and_assoc]
  case frame =>
    refine ⟨fun k hk => ?_, fun o ho hne => ?_⟩
    · exact (get?_filter t' _ k).trans ((if_neg hk).trans (hframe.objects k hk))
    · exact hframe.definitions o ho hne
  case agrees => exact (get?_filter t' _ old.key).trans (if_pos rfl)

theorem Edited.add (hs : s.Consistent) (h : Edited s d placement edits t)
    (hfresh : ∀ e' ∈ edits, e'.target ≠ new.key)
    (ha : t.Appended d edition new (placement new) o t') :
    Edited s d placement (edits ++ [.add new]) t' := by
  have ho : o ∈ t'.objects := by rw [ha.objects]; simp
  have hslot (id : String) (tokens : List Token) :
      tokens.mapIdx ((Edit.add new).slot d id) = tokens :=
    mapIdx_eq_self fun i hi => rfl
  refine h.append hs hfresh ha.consistent (ha.frame h.consistent) ?agrees ha.changed
    ?old ?new
  case agrees =>
    refine ⟨o, ?_, ha.place, ?_⟩
    · rw [← ha.key]
      exact ha.consistent.get?_key ho
    · rw [definition, ha.definitionTokens, definition]
  case old =>
    intro id source tokens extra _ _ ht
    rw [ha.tokens?, before_eq, ht, hslot]
    by_cases hid : placement new = id <;> simp [hid, Edit.appended, separated]
  case new =>
    intro id _
    rw [ha.tokens?, before_eq]
    by_cases hid : placement new = id
    · cases t.tokens? id <;> simp [hid, Edit.appended, separated]
    · simp [hid, Edit.appended]

/-- An edit still fits after edits about other objects. -/
theorem Edited.fits (hs : s.Consistent) (h : Edited s d placement edits t) (he : e.Fits s d)
    (hfresh : ∀ e' ∈ edits, e'.target ≠ e.target) : e.Fits t d := by
  cases he with
  | @add new hnew hkey =>
    refine .add hnew ?_
    have hget := h.objects new.key hfresh
    rw [← get?_eq_none_iff, hget, get?_eq_none_iff, hkey]
  | @modify old new hold hnew hkey =>
    exact .modify (h.mem hs hold (hkey ▸ hfresh)) hnew hkey
  | @remove old hold => exact .remove (h.mem hs hold hfresh)

/-- One more edit, about none of the objects of the edits before it. -/
theorem Edited.step (hs : s.Consistent) (h : Edited s d placement edits t)
    (he : e.Fits s d) (hfresh : ∀ e' ∈ edits, e'.target ≠ e.target)
    (happlied : Applied d edition placement t e t') :
    Edited s d placement (edits ++ [e]) t' := by
  cases happlied with
  | add _ _ ha => exact h.add hs hfresh ha
  | modify _ _ hkey hr =>
    cases he with
    | modify hold _ _ => exact h.modify hs hold hkey hfresh hr
  | remove _ hr =>
    cases he with
    | remove hold => exact h.remove hs hold hfresh hr

theorem ne_of_nodup_targets {done rest : List Edit}
    (h : ((done ++ e :: rest).map (·.target)).Nodup) :
    (∀ e' ∈ done, e'.target ≠ e.target) ∧ (∀ e' ∈ rest, e'.target ≠ e.target) ∧
      ∀ e' ∈ done, ∀ e'' ∈ rest, e'.target ≠ e''.target := by
  obtain ⟨-, hrest, hdone⟩ := List.pairwise_append.1 (List.pairwise_map.1 h)
  refine ⟨fun e' he' => hdone e' he' e List.mem_cons_self, fun e' he' => ?_,
    fun e' he' e'' he'' => hdone e' he' e'' (List.mem_cons_of_mem _ he'')⟩
  exact ((List.pairwise_cons.1 hrest).1 e' he').symm

/-- Edits that fit, each about an object of its own, all succeed. What each of them preserves holds
    in the end. -/
theorem edited_runEach {P : Schema → Prop} (hs : s.Consistent) (hd : d.Consistent)
    (hfits : ∀ e ∈ edits, e.Fits s d) (htargets : (edits.map (·.target)).Nodup) (hP : P s)
    (hstep : ∀ t e t', t.Consistent → Applied d edition placement t e t' → P t → P t') :
    ∃ t, runEach (applyEdit edition d placement) s edits = (t, .ok ()) ∧
      Edited s d placement edits t ∧ P t := by
  suffices run : ∀ done rest t, edits = done ++ rest → Edited s d placement done t → P t →
      ∃ t', runEach (applyEdit edition d placement) t rest = (t', .ok ()) ∧
        Edited s d placement edits t' ∧ P t' from run [] edits s rfl (.nil hs d placement) hP
  intro done rest t hedits h ht
  induction rest generalizing done t with
  | nil =>
    rw [List.append_nil] at hedits
    exact ⟨t, rfl, hedits ▸ h, ht⟩
  | cons e rest ih =>
    have hfresh : ∀ e' ∈ done, e'.target ≠ e.target := (ne_of_nodup_targets (hedits ▸ htargets)).1
    have he := hfits e (by rw [hedits]; simp)
    obtain ⟨t₁, hok, happlied⟩ := applyEdit_eq_ok h.consistent hd (h.fits hs he hfresh)
    obtain ⟨t', hrun, h'⟩ := ih (done ++ [e]) t₁ (by rw [hedits]; simp)
      (h.step hs he hfresh happlied) (hstep t e t₁ h.consistent happlied ht)
    exact ⟨t', by rw [runEach, hok]; exact hrun, h'⟩

theorem exists_edited (hs : s.Consistent) (hd : d.Consistent) (hfits : ∀ e ∈ edits, e.Fits s d)
    (htargets : (edits.map (·.target)).Nodup) (edition : Nat) (placement : SchemaObject → String) :
    ∃ t, runEach (applyEdit edition d placement) s edits = (t, .ok ()) ∧
      Edited s d placement edits t := by
  obtain ⟨t, hrun, ht, -⟩ : ∃ t, runEach (applyEdit edition d placement) s edits = (t, .ok ()) ∧
      Edited s d placement edits t ∧ True :=
    edited_runEach hs hd hfits htargets trivial fun _ _ _ _ _ _ => trivial
  exact ⟨t, hrun, ht⟩

/-- The run of such edits at one of them: the run before it, the edit itself, and the run behind
    it. -/
theorem exists_run_at {done rest : List Edit} (hs : s.Consistent) (hd : d.Consistent)
    (hfits : ∀ e' ∈ done ++ e :: rest, e'.Fits s d)
    (htargets : ((done ++ e :: rest).map (·.target)).Nodup) (edition : Nat)
    (placement : SchemaObject → String) :
    ∃ t t' u, runEach (applyEdit edition d placement) s done = (t, .ok ()) ∧
      applyEdit edition d placement t e = .ok t' ∧
      runEach (applyEdit edition d placement) t' rest = (u, .ok ()) ∧
      Applied d edition placement t e t' ∧ Edited t' d placement rest u := by
  obtain ⟨hbefore, hbehind, hothers⟩ := ne_of_nodup_targets htargets
  obtain ⟨hfitsDone, hfitsRest⟩ := List.forall_mem_append.1 hfits
  obtain ⟨hfit, hfitsRest⟩ := List.forall_mem_cons.1 hfitsRest
  rw [List.map_append, List.map_cons] at htargets
  obtain ⟨t, hrun, ht⟩ := exists_edited hs hd hfitsDone htargets.of_append_left edition placement
  obtain ⟨t', hok, happlied⟩ := applyEdit_eq_ok ht.consistent hd (ht.fits hs hfit hbefore)
  have ht' := ht.step hs hfit hbefore happlied
  -- What is done by then is about other objects than what is left, so the rest still fits.
  have hfits' : ∀ e' ∈ rest, e'.Fits t' d := fun e' he' =>
    ht'.fits hs (hfitsRest e' he') (List.forall_mem_append.2 ⟨fun e'' he'' =>
      hothers e'' he'' e' he', List.forall_mem_singleton.2 (hbehind e' he').symm⟩)
  obtain ⟨u, hrun', hu⟩ :=
    exists_edited ht'.consistent hd hfits' htargets.of_append_right.of_cons edition placement
  exact ⟨t, t', u, hrun, hok, hrun', happlied, hu⟩

end Schema

end SchemaAlign
