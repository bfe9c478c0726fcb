import SchemaAlign.Proofs.Parser.Alike
import SchemaAlign.Proofs.Schema.Load
import SchemaAlign.Proofs.Token.Excerpt

/-!
# Cosmetic differences

Texts that differ in blanks, comments and the case of words, and that define the same objects.

* `relex_slice`: the tokens of a definition are those of its own text;
* `update_of_alike`: no edit is needed between the schemas of two such texts.
-/

namespace SchemaAlign

open SchemaAlign.Parser (AlikeIn)
open SchemaAlign.Token (AllAlike tokenize)

namespace Token

variable {left right ts : List Token} {text : String} {sp : Span}

/-- Some tokens of a text in a row are the tokens of what they make up. -/
theorem relex_slice (h : slice? (tokenize text) sp = some ts) : relex ts = ts := by
  obtain ⟨us, vs, htext, -⟩ := slice?_eq_some_iff_append.1 h
  rw [List.append_assoc] at htext
  exact relex_of_ofChars (ofChars_part htext)

theorem sameDefinition_of_alike (hleft : relex left = left) (hright : relex right = right)
    (h : AllAlike left right) : sameDefinition left right = true := by
  rw [sameDefinition, hleft, hright]
  exact sameMeaning_of_alike (alike_withoutTerminator h)

end Token

namespace Schema

variable {s t : Schema} {o o' : SchemaObject} {edition edition' n n' : Nat}
  {id id' text text' : String}

theorem exists_of_forall₂ {α β : Type} {ρ : α → β → Prop} {f : α → ObjectKey} {g : β → ObjectKey}
    {as : List α} {bs : List β} (h : List.Forall₂ ρ as bs) (hkeys : as.map f = bs.map g) {b : β}
    (hb : b ∈ bs) : ∃ a ∈ as, f a = g b ∧ ρ a b := by
  induction h with
  | nil => cases hb
  | @cons a b' as bs hab _ ih =>
    rw [List.map_cons, List.map_cons, List.cons.injEq] at hkeys
    obtain rfl | hb := List.mem_cons.1 hb
    · exact ⟨a, List.mem_cons_self, hkeys.1, hab⟩
    · obtain ⟨a', ha', hkey⟩ := ih hkeys.2 hb
      exact ⟨a', List.mem_cons_of_mem a ha', hkey⟩

/-- Schemas with the same keys are in sync if objects of one key have definitions that say the
    same. -/
theorem inSync_of_objects (hs : s.Consistent)
    (hkeys : s.objects.map (·.key) = t.objects.map (·.key))
    (hsame : ∀ o' ∈ t.objects, ∃ o ∈ s.objects, o.key = o'.key ∧
      Token.sameDefinition (s.definitionTokens o) (t.definitionTokens o') = true) :
    s.InSync t := by
  intro key
  have hcontains : s.contains key = t.contains key := by
    rw [Bool.eq_iff_iff, contains_iff, contains_iff, ← List.mem_map, hkeys, List.mem_map]
  cases hget' : t.get? key with
  | none =>
    rw [get?_eq_none_iff, ← hcontains, ← get?_eq_none_iff] at hget'
    rw [hget']
    trivial
  | some o' =>
    obtain ⟨ho', rfl⟩ := get?_eq_some hget'
    obtain ⟨o, ho, hkey, hdefinition⟩ := hsame o' ho'
    rw [← hkey, hs.get?_key ho]
    exact hdefinition

/-- Two texts that are both loaded, with significant tokens that are alike, and whose objects have
    the same keys in the same order: no edit leads from one schema to the other, and an update
    changes nothing. -/
theorem update_of_alike (halike : AllAlike (tokenize text) (tokenize text'))
    (hs : empty.load edition id text = (s, .ok n))
    (ht : empty.load edition' id' text' = (t, .ok n'))
    (hkeys : s.objects.map (·.key) = t.objects.map (·.key)) :
    s.diff t = .ok [] ∧ ∀ edition placement, s.update edition t placement = (s, .ok false) := by
  obtain ⟨hscons, hchanged, sts, hreading, hobjects, hslice⟩ := exists_statements_of_load hs
  obtain ⟨htcons, -, sts', hreading', hobjects', hslice'⟩ := exists_statements_of_load ht
  -- The statements that create an object stand at the same places of both lists.
  have hrel : List.Forall₂ (fun o o' => AlikeIn (tokenize text) (tokenize text') o.statement
      o'.statement) s.objects t.objects := by
    rw [hobjects, hobjects']
    refine List.rel_filterMap ?_ (@Parser.Reading.alike _ _ _ _ [] [] hreading hreading' halike)
    intro st st' hst
    have hcreates := hst.creates
    rw [SchemaObject.ofStatement?, SchemaObject.ofStatement?]
    cases hx : ObjectKey.ofStatement? st <;> cases hx' : ObjectKey.ofStatement? st' <;>
      simp only [hx, hx', Option.isSome_none, Option.isSome_some, reduceCtorEq] at hcreates
    · exact .none
    · exact .some hst
  have hsync : s.InSync t := by
    refine inSync_of_objects hscons hkeys fun o' ho' => ?_
    obtain ⟨o, ho, hkey, -, part, part', hpart, hpart', hparts⟩ :=
      exists_of_forall₂ hrel hkeys ho'
    obtain rfl := Option.some.inj ((hslice o ho).symm.trans hpart)
    obtain rfl := Option.some.inj ((hslice' o' ho').symm.trans hpart')
    exact ⟨o, ho, hkey, Token.sameDefinition_of_alike (Token.relex_slice hpart)
      (Token.relex_slice hpart') hparts⟩
  refine ⟨?_, fun edition placement => update_of_inSync hscons htcons hsync hchanged⟩
  rw [hscons.diff htcons, (edits_eq_nil_iff hscons htcons).2 hsync]

/-- A table and a trigger with a semicolon inside, written in two ways. -/
theorem update_of_alike_trigger :
    let text := "CREATE TABLE a(x);CREATE TRIGGER r BEGIN y; END"
    let text' := "create table a (x); create trigger r\nBEGIN Y; end--"
    let s := (empty.load 0 "a.sql" text).1
    let t := (empty.load 0 "b.sql" text').1
    s.objects.map (·.key.text) = ["table/a", "trigger/r"] ∧ s.diff t = .ok [] ∧
      ∀ edition placement, s.update edition t placement = (s, .ok false) := by
  intro text text' s t
  have hs : empty.load 0 "a.sql" text = (s, .ok 2) := Prod.ext rfl (by decide +kernel)
  have ht : empty.load 0 "b.sql" text' = (t, .ok 2) := Prod.ext rfl (by decide +kernel)
  have halike : AllAlike (tokenize text) (tokenize text') := by decide +kernel
  exact ⟨by decide +kernel, update_of_alike halike hs ht (by decide +kernel)⟩

end Schema

end SchemaAlign
