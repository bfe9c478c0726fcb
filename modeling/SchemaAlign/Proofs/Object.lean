import SchemaAlign.Object
import SchemaAlign.Proofs.Text.Case
import SchemaAlign.Proofs.Token.Rule

/-!
# The object that a statement creates

Whether a statement creates an object does not depend on the case of its words. (The name of the
object does.)

* `SameWords`: words that differ at most in case;
* `ofWords?_congr`: such words create an object, or none of them does;
* `Creates`, `ofStatement?_eq_some_iff`: the statements that create an object;
* `qualifiedName?_eq_some_iff`, `name?_text`: the tokens that are names.
-/

namespace SchemaAlign.ObjectKey

open Text

variable {word word' keyword name k : String} {words words' ws us keywords : List String}
  {key : ObjectKey} {b : Bool}

/-! ## The case of words -/

/-- Lists of words that differ at most in the case of letters. -/
def SameWords (words words' : List String) : Prop :=
  List.Forall₂ (fun w w' => eqIgnoreAsciiCase w w' = true) words words'

theorem isAnyOf_congr (h : eqIgnoreAsciiCase word word' = true) (keywords : List String) :
    isAnyOf keywords word = isAnyOf keywords word' := by
  unfold isAnyOf
  congr 1
  funext k
  exact eqIgnoreAsciiCase_congr h k

theorem after?_congr (h : SameWords words words') (keywords : List String) :
    Option.Rel SameWords (after? keywords words) (after? keywords words') := by
  cases h with
  | nil => exact .none
  | cons hword hwords =>
    rw [after?, after?, isAnyOf_congr hword]
    split
    · exact .some hwords
    · exact .none

theorem kind?_congr (h : eqIgnoreAsciiCase word word' = true) (unique : Bool) :
    kind? unique word = kind? unique word' := by
  simp only [kind?, isAnyOf_congr h]

theorem name?_congr (h : eqIgnoreAsciiCase word word' = true) :
    (name? word).isSome = (name? word').isSome := by
  have hunquote := unquote?_congr h
  rw [eqIgnoreAsciiCase_iff] at h
  have hall := all_congr (p := isWordChar) (by decide) h
  have hempty : word.isEmpty = word'.isEmpty := by
    rw [← Bool.coe_iff_coe, String.isEmpty_iff, String.isEmpty_iff, ← String.toList_eq_nil_iff,
      ← String.toList_eq_nil_iff, ← List.length_eq_zero_iff, ← List.length_eq_zero_iff,
      h.length_eq]
  have hhead : word.toList.head?.any isQuote = word'.toList.head?.any isQuote := by
    generalize word.toList = cs at h ⊢
    generalize word'.toList = ds at h ⊢
    cases h with
    | nil => rfl
    | cons hcd _ => exact apply_eq_of_toUpper (f := isQuote) (by decide) hcd
  unfold name?
  rw [hhead, hempty, hall]
  split
  · exact hunquote
  · split <;> rfl

theorem isSome_bind_congr {α β : Type} {ρ : α → α → Prop} {x x' : Option α}
    {f f' : α → Option β} (hx : Option.Rel ρ x x')
    (hf : ∀ a a', ρ a a' → (f a).isSome = (f' a').isSome) :
    (x >>= f).isSome = (x' >>= f').isSome := by
  cases hx with
  | none => rfl
  | some h => exact hf _ _ h

theorem qualifiedName?_congr (h : SameWords words words') :
    (qualifiedName? words).isSome = (qualifiedName? words').isSome := by
  cases h with
  | nil => rfl
  | @cons w w' words words' hw hwords =>
    have hname := name?_congr hw
    cases hwords with
    | nil => simpa [qualifiedName?] using hname
    | @cons v v' words words' hv hwords =>
      by_cases hdot : v = "."
      · obtain rfl := hdot
        obtain rfl := (eq_dot_iff hv).1 rfl
        cases hwords with
        | nil => rfl
        | @cons u u' _ _ hu _ =>
          have hname' := name?_congr hu
          cases hx : name? w <;> cases hx' : name? w' <;> cases hy : name? u <;>
            cases hy' : name? u' <;> simp_all [qualifiedName?]
      · have hdot' : v' ≠ "." := fun h => hdot ((eq_dot_iff hv).2 h)
        simpa [qualifiedName?, hdot, hdot'] using hname

theorem getD_congr {x x' : Option (List String)} (hx : Option.Rel SameWords x x')
    (h : SameWords words words') : SameWords (x.getD words) (x'.getD words') := by
  cases hx with
  | none => exact h
  | some hx => exact hx

/-- Words that differ at most in case create an object, or none of them does. -/
theorem ofWords?_congr (h : SameWords words words') :
    (ofWords? words).isSome = (ofWords? words').isSome := by
  unfold ofWords?
  refine isSome_bind_congr (after?_congr h _) fun words words' h => ?_
  dsimp only
  -- From here on, every word that may be left out is looked for in both lists.
  have hwords := getD_congr (after?_congr h ["TEMP", "TEMPORARY"]) h
  generalize (after? ["TEMP", "TEMPORARY"] words).getD words = words at hwords ⊢
  generalize (after? ["TEMP", "TEMPORARY"] words').getD words' = words' at hwords ⊢
  have hplain := after?_congr hwords ["UNIQUE"]
  have hrest := getD_congr hplain hwords
  generalize after? ["UNIQUE"] words = plain at hplain hrest ⊢
  generalize after? ["UNIQUE"] words' = plain' at hplain hrest ⊢
  have hunique : plain.isSome = plain'.isSome := by cases hplain <;> rfl
  generalize plain.getD words = rest at hrest ⊢
  generalize plain'.getD words' = rest' at hrest ⊢
  cases hrest with
  | nil => rfl
  | @cons keyword keyword' rest rest' hkeyword hrest =>
    simp only [hunique, kind?_congr hkeyword]
    cases kind? plain'.isSome keyword' with
    | none => rfl
    | some kind =>
      have name {ws ws' : List String} (h : SameWords ws ws') :
          (qualifiedName? ws >>= fun name => some (ObjectKey.mk kind name)).isSome =
            (qualifiedName? ws' >>= fun name => some (ObjectKey.mk kind name)).isSome := by
        have hname := qualifiedName?_congr h
        cases hx : qualifiedName? ws <;> cases hx' : qualifiedName? ws' <;> simp_all
      have hif := after?_congr hrest ["IF"]
      generalize after? ["IF"] rest = tail at hif ⊢
      generalize after? ["IF"] rest' = tail' at hif ⊢
      cases hif with
      | none => exact name hrest
      | some hif =>
        simp only [Option.bind_eq_bind, Option.bind_some, Option.bind_assoc]
        refine isSome_bind_congr (after?_congr hif _) fun ws ws' h => ?_
        exact isSome_bind_congr (after?_congr h _) fun ws ws' h => name h

/-! ## Statements that create an object -/

/-- One of the keywords, or no word at all. -/
inductive Optional (keywords : List String) : List String → Prop
  | none : Optional keywords []
  | one {word : String} : isAnyOf keywords word = true → Optional keywords [word]

/-- The words name an object: with or without `IF NOT EXISTS` before the name. -/
inductive Names : List String → String → Prop
  | plain {words : List String} {name : String} : (∀ w ∈ words.head?, isAnyOf ["IF"] w = false) →
      qualifiedName? words = some name → Names words name
  | ifNotExists {i n e : String} {words : List String} {name : String} :
      isAnyOf ["IF"] i = true → isAnyOf ["NOT"] n = true → isAnyOf ["EXISTS"] e = true →
      qualifiedName? words = some name → Names (i :: n :: e :: words) name

/-- The words of a statement that creates an object: `CREATE`, `TEMP` or `TEMPORARY` or neither,
    `UNIQUE` or not, the kind, and the name. Only an index can be unique. Tables have a reader of
    their own. -/
inductive Creates : List String → ObjectKey → Prop
  | mk {create keyword name : String} {temporary unique words : List String} {kind : ObjectKind} :
      isAnyOf ["CREATE"] create = true → Optional ["TEMP", "TEMPORARY"] temporary →
      Optional ["UNIQUE"] unique → (unique = [] ∨ kind = .index) → kind ≠ .table →
      isAnyOf [kind.text] keyword = true → Names words name →
      Creates (create :: (temporary ++ (unique ++ keyword :: words))) ⟨kind, name⟩

theorem after?_eq_some_iff :
    after? keywords words = some ws ↔ ∃ w, words = w :: ws ∧ isAnyOf keywords w = true := by
  cases words with
  | nil => simp [after?]
  | cons w words =>
    by_cases hw : isAnyOf keywords w = true
    · simp [after?, hw]
    · simp [after?, hw]

/-- A keyword that may be left out, and is read where it is there. -/
theorem exists_optional (keywords words : List String) : ∃ us ws, words = us ++ ws ∧
    Optional keywords us ∧ (us = [] → ∀ w ∈ ws.head?, isAnyOf keywords w = false) := by
  cases words with
  | nil => exact ⟨[], [], rfl, .none, fun _ => nofun⟩
  | cons w words =>
    by_cases hw : isAnyOf keywords w = true
    · exact ⟨[w], words, rfl, .one hw, nofun⟩
    · refine ⟨[], w :: words, rfl, .none, fun _ w' hw' => ?_⟩
      cases hw'
      exact Bool.eq_false_iff.2 hw

theorem Optional.getD_after? (h : Optional keywords us)
    (hws : us = [] → ∀ w ∈ ws.head?, isAnyOf keywords w = false) :
    (after? keywords (us ++ ws)).getD (us ++ ws) = ws ∧
      (after? keywords (us ++ ws)).isSome = !us.isEmpty := by
  cases h with
  | none =>
    cases ws with
    | nil => exact ⟨rfl, rfl⟩
    | cons w ws => simp [after?, hws rfl w rfl]
  | one hw => simp [after?, hw]

theorem isAnyOf_of_eq (h : eqIgnoreAsciiCase word k = true) (hk : isAnyOf keywords k = b) :
    isAnyOf keywords word = b :=
  (isAnyOf_congr h keywords).trans hk

theorem eq_of_isAnyOf (h : isAnyOf [k] word = true) : eqIgnoreAsciiCase word k = true := by
  simpa [isAnyOf] using h

/-- A word that is a keyword is no other one. -/
theorem isAnyOf_of_isAnyOf (h : isAnyOf [k] word = true) (hk : isAnyOf keywords k = b) :
    isAnyOf keywords word = b :=
  isAnyOf_of_eq (eq_of_isAnyOf h) hk

theorem kind?_eq_some_iff {unique : Bool} {kind : ObjectKind} :
    kind? unique keyword = some kind ↔
      (unique = false ∨ kind = .index) ∧ kind ≠ .table ∧ isAnyOf [kind.text] keyword = true := by
  constructor
  · intro h
    unfold kind? at h
    split at h
    · next hindex => cases h; exact ⟨.inr rfl, nofun, isAnyOf_of_isAnyOf hindex (by decide)⟩
    split at h
    · cases h
    next hplain =>
    have hplain : unique = false := by simpa using hplain
    split at h
    · next hview => cases h; exact ⟨.inl hplain, nofun, isAnyOf_of_isAnyOf hview (by decide)⟩
    split at h
    · next htrigger => cases h; exact ⟨.inl hplain, nofun, isAnyOf_of_isAnyOf htrigger (by decide)⟩
    · cases h
  · rintro ⟨hunique, htable, hkeyword⟩
    rw [kind?_congr (eq_of_isAnyOf hkeyword)]
    cases kind with
    | table => exact absurd rfl htable
    | index => cases unique <;> decide
    | view | trigger =>
      obtain rfl : unique = false := hunique.resolve_right nofun
      decide

theorem names_iff : ((match after? ["IF"] words with
      | some words => after? ["NOT"] words >>= after? ["EXISTS"]
      | none => some words) >>= qualifiedName?) = some name ↔ Names words name := by
  constructor
  · intro h
    obtain ⟨ws, hws, hname⟩ := Option.bind_eq_some_iff.1 h
    split at hws
    · next rest hif =>
      obtain ⟨rest', hnot, hexists⟩ := Option.bind_eq_some_iff.1 hws
      obtain ⟨i, rfl, hi⟩ := after?_eq_some_iff.1 hif
      obtain ⟨n, rfl, hn⟩ := after?_eq_some_iff.1 hnot
      obtain ⟨e, rfl, he⟩ := after?_eq_some_iff.1 hexists
      exact .ifNotExists hi hn he hname
    · next hif =>
      cases hws
      refine .plain (fun w hw => Bool.eq_false_iff.2 fun hkeyword => ?_) hname
      obtain ⟨rest, rfl⟩ := List.head?_eq_some_iff.1 hw
      cases hif.symm.trans (after?_eq_some_iff.2 ⟨w, rfl, hkeyword⟩)
  · rintro (⟨hplain, hname⟩ | ⟨hi, hn, he, hname⟩)
    · have hif : after? ["IF"] words = none := by
        cases words with
        | nil => rfl
        | cons w words => simp [after?, hplain w rfl]
      rw [hif]
      exact hname
    · rw [after?, if_pos hi]
      simp only [after?, if_pos hn, if_pos he, Option.bind_eq_bind, Option.bind_some]
      exact hname

/-- The words after `CREATE`, part by part. -/
theorem ofWords?_cons_iff {create : String} {temporary unique : List String}
    (hcreate : isAnyOf ["CREATE"] create = true)
    (htemporary : Optional ["TEMP", "TEMPORARY"] temporary) (hunique : Optional ["UNIQUE"] unique)
    (hnext : temporary = [] → ∀ w ∈ (unique ++ ws).head?, isAnyOf ["TEMP", "TEMPORARY"] w = false)
    (hnext' : unique = [] → ∀ w ∈ ws.head?, isAnyOf ["UNIQUE"] w = false) :
    ofWords? (create :: (temporary ++ (unique ++ ws))) = some key ↔ ∃ keyword words,
      ws = keyword :: words ∧ kind? (!unique.isEmpty) keyword = some key.kind ∧
        Names words key.name := by
  obtain ⟨hrest, -⟩ := htemporary.getD_after? hnext
  obtain ⟨hrest', hsome⟩ := hunique.getD_after? hnext'
  rw [ofWords?, after?, if_pos hcreate, Option.bind_eq_bind, Option.bind_some, hrest]
  dsimp only
  rw [hrest', hsome]
  cases ws with
  | nil => simp
  | cons keyword words =>
    simp only [List.cons.injEq, exists_and_left, and_assoc, exists_eq_left', ← names_iff]
    cases kind? (!unique.isEmpty) keyword with
    | none => simp
    | some kind =>
    obtain ⟨kind', name⟩ := key
    cases after? ["IF"] words with
    | none => simp [Option.bind_eq_some_iff, and_comm]
    | some rest => simp [Option.bind_eq_some_iff, ← and_assoc, and_comm (a := kind = kind')]

/-- The statements that create an object, all of them. -/
theorem ofWords?_eq_some_iff : ofWords? words = some key ↔ Creates words key := by
  obtain ⟨kind, name⟩ := key
  constructor
  · intro h
    obtain ⟨ws, hafter, -⟩ := Option.bind_eq_some_iff.1 h
    obtain ⟨create, rfl, hcreate⟩ := after?_eq_some_iff.1 hafter
    obtain ⟨temporary, ws, rfl, htemporary, hnext⟩ := exists_optional ["TEMP", "TEMPORARY"] ws
    obtain ⟨unique, ws, rfl, hunique, hnext'⟩ := exists_optional ["UNIQUE"] ws
    obtain ⟨keyword, words, rfl, hkind, hname⟩ :=
      (ofWords?_cons_iff hcreate htemporary hunique hnext hnext').1 h
    obtain ⟨hplain, htable, hkeyword⟩ := kind?_eq_some_iff.1 hkind
    exact .mk hcreate htemporary hunique (hplain.imp_left (by simpa using ·)) htable hkeyword hname
  · intro h
    cases h with
    | mk hcreate htemporary hunique hplain htable hkeyword hname =>
    refine (ofWords?_cons_iff hcreate htemporary hunique (fun _ w hw => ?_) fun _ w hw => ?_).2
      ⟨_, _, rfl, kind?_eq_some_iff.2 ⟨hplain.imp_left (by simpa using ·), htable, hkeyword⟩, hname⟩
    -- The word that follows is another keyword.
    · cases hunique with
      | none => cases hw; exact isAnyOf_of_isAnyOf hkeyword (by cases kind <;> decide)
      | one hunique => cases hw; exact isAnyOf_of_isAnyOf hunique (by decide)
    · cases hw
      exact isAnyOf_of_isAnyOf hkeyword (by cases kind <;> decide)

example : ofWords? ["create", "Temp", "VIEW", "If", "not", "exists", "main", ".", "v", "AS"] =
    some ⟨.view, "main.v"⟩ := by
  decide +kernel

/-- The object that a statement creates, by the form of the statement. -/
theorem ofStatement?_eq_some_iff {st : Statement} : ofStatement? st = some key ↔
    (∃ table, st = .createTable table ∧ key = ⟨.table, table.name⟩) ∨
      ∃ words span, st = .other words span ∧ Creates words key := by
  cases st with
  | createTable table => simp [ofStatement?, eq_comm]
  | other words span => simp [ofStatement?, ofWords?_eq_some_iff]

/-! ## Names -/

/-- A name, or two with a dot between them. -/
theorem qualifiedName?_eq_some_iff : qualifiedName? words = some name ↔
    (∃ w ws, words = w :: ws ∧ ws.head? ≠ some "." ∧ name? w = some name) ∨
      ∃ v w ws first second, words = v :: "." :: w :: ws ∧ name? v = some first ∧
        name? w = some second ∧ name = first ++ "." ++ second := by
  rcases words with _ | ⟨v, _ | ⟨w, ws⟩⟩
  · simp [qualifiedName?]
  · simp [qualifiedName?]
  · by_cases hdot : w = "."
    · subst hdot
      cases ws <;> simp [qualifiedName?, Option.bind_eq_some_iff, @eq_comm _ name]
    · simp [qualifiedName?, hdot]

/-- The quotes are in no class of which neither of them is. -/
theorem isQuote_eq_false {p : Char → Bool} {c : Char} (h : p c = true) (hsingle : p '\'' = false)
    (hdouble : p '"' = false) : isQuote c = false := by
  refine Bool.eq_false_iff.2 fun hquote => ?_
  simp only [isQuote, Bool.or_eq_true, beq_iff_eq] at hquote
  rcases hquote with rfl | rfl
  · exact Bool.false_ne_true (hsingle.symm.trans h)
  · exact Bool.false_ne_true (hdouble.symm.trans h)

theorem name?_eq_none_of_head {c : Char} {cs : List Char} (h : word.toList = c :: cs)
    (hquote : isQuote c = false) (hword : isWordChar c = false) : name? word = none := by
  simp [name?, h, hquote, hword]

/-- The name that a token stands for. Only words and quoted texts are names, so there is none for a
    bracket, a backtick or a dollar sign. -/
theorem name?_text {text : String} {t : Token} (ht : t ∈ Token.tokenize text) : name? t.text =
    match t.kind with
    | .word => some t.text
    | .string => unquote? t.text
    | .whitespace | .comment | .punctuation | .other => none := by
  obtain ⟨next, hobeys⟩ := (Token.lawful_ofChars text.toList).exists_obeys ht
  obtain ⟨kind, word⟩ := t
  dsimp only at hobeys ⊢
  generalize hcs : word.toList = cs at hobeys
  cases hobeys with
  | whitespace hrun =>
    obtain ⟨c, cs, rfl⟩ := List.exists_cons_of_ne_nil hrun.ne_nil
    have hblank := hrun.inside c List.mem_cons_self
    exact name?_eq_none_of_head hcs (isQuote_eq_false hblank (by decide) (by decide))
      (Token.isWordChar_of_isBlank hblank)
  | line | block => exact name?_eq_none_of_head hcs (by decide) (by decide)
  | string hquote => simp [name?, hcs, hquote]
  | punctuation hmark =>
    have hmarks :
        ['(', ')', '[', ']', '$', '.', ',', ';', '#', '@'].all (!isWordChar ·) = true := by
      decide
    exact name?_eq_none_of_head hcs (isQuote_eq_false hmark (by decide) (by decide))
      (by simpa using List.all_eq_true.1 hmarks _ (List.contains_iff_mem.1 hmark))
  | word hrun =>
    obtain ⟨c, cs, rfl⟩ := List.exists_cons_of_ne_nil hrun.ne_nil
    have hquote : isQuote c = false :=
      isQuote_eq_false (hrun.inside c List.mem_cons_self) (by decide) (by decide)
    have hempty : word.isEmpty = false := by
      rw [← Bool.not_eq_true, String.isEmpty_iff, ← String.toList_eq_nil_iff, hcs]
      exact List.cons_ne_nil _ _
    have hall : (c :: cs).all isWordChar = true := List.all_eq_true.2 hrun.inside
    rw [name?, hcs, List.head?_cons, Option.any_some, hquote, hempty, hall]
    rfl
  | other _ hquote _ hword => exact name?_eq_none_of_head hcs hquote hword

example : ofWords? ["CREATE", "VIEW", "[", "v", "]", "AS", "SELECT", "1"] = none := by
  decide +kernel

end SchemaAlign.ObjectKey
