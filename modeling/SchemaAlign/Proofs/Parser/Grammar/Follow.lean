import SchemaAlign.Proofs.Parser.Columns
import SchemaAlign.Proofs.Parser.Grammar
import SchemaAlign.Proofs.Parser.Reading
import SchemaAlign.Proofs.Text.Case

/-!
# What may follow

A clause of the grammar is read as it is spelled if nothing follows that could belong to it, too.
Keywords clash with those of another phrase at some place, or the stream could begin with both.

* `clash`, `Keywords.afterPhrase?_of_clash`: phrases of which at most one is there;
* `Before`, `Before.afterPhrase?`: what may follow a part of a column, and what does not follow;
* `Maybe.choose`, `Many.many`, `Separated.rounds`: how choices and repetitions are read.
-/

namespace SchemaAlign.Parser.Grammar

open Text

variable {α : Type} {s s₁ s₂ r : Stream} {t : Token} {k l m m' : String} {ks ls : List String}
  {ps qs : List (List String)}

theorem run_bind_eq {β : Type} {p : Parser α} {f : α → Parser β} {a : α}
    {x : Except Misfit (β × Stream)} (hp : p s = .ok (a, s₁)) (hf : f a s₁ = x) :
    (p >>= f) s = x := by
  rw [run_bind, hp]
  exact hf

/-! ## Keywords and marks -/

theorem kind_of_isKeyword (h : t.isKeyword k = true) : t.kind = .word := by
  simp_all [Token.isKeyword]

theorem Keywords.afterPhrase? (h : Keywords ks s r) : s.afterPhrase? ks = some r := by
  induction h with
  | nil => rfl
  | cons hk _ ih => rw [Stream.afterPhrase?, if_pos hk, ih]

theorem Keywords.phrase? (h : Keywords ks s r) : phrase? ks s = .ok (true, r) := by
  simp only [Parser.phrase?, h.afterPhrase?]

theorem Keywords.keyword? (h : Keywords [k] s r) : keyword? k s = .ok (true, r) :=
  h.phrase?

theorem Keywords.expectKeyword (h : Keywords [k] s r) (fault : Fault) :
    expectKeyword k fault s = .ok ((), r) := by
  simp only [Parser.expectKeyword, run_bind, h.keyword?, if_true]
  rfl

/-- Keywords are read one after the other. -/
theorem Keywords.uncons (h : Keywords (k :: ks) s r) :
    ∃ s₁, Keywords [k] s s₁ ∧ Keywords ks s₁ r := by
  cases h with
  | cons hk h => exact ⟨_, .cons hk .nil, h⟩

theorem Keywords.split (ks : List String) (h : Keywords (ks ++ ls) s r) :
    ∃ s₁, Keywords ks s s₁ ∧ Keywords ls s₁ r := by
  induction ks generalizing s with
  | nil => exact ⟨s, .nil, h⟩
  | cons k ks ih =>
    cases h with
    | cons hk h =>
      obtain ⟨s₁, hks, hls⟩ := ih h
      exact ⟨s₁, .cons hk hks, hls⟩

theorem Keywords.size_lt (h : Keywords (k :: ks) s r) : r.size < s.size := by
  have hsize := size_afterPhrase? h.afterPhrase?
  rw [List.length_cons] at hsize
  omega

/-- Somewhere the phrases have different keywords, so that no stream begins with both. -/
def clash : List String → List String → Bool
  | k :: ks, l :: ls => !eqIgnoreAsciiCase k l || clash ks ls
  | _, _ => false

theorem isKeyword_unique (hk : t.isKeyword k = true) (hl : t.isKeyword l = true) :
    eqIgnoreAsciiCase k l = true := by
  simp only [Token.isKeyword, Bool.and_eq_true] at hk hl
  rw [← eqIgnoreAsciiCase_congr hk.2, hl.2]

theorem Keywords.afterPhrase?_of_clash (h : Keywords ls s r) (hc : clash ks ls = true) :
    s.afterPhrase? ks = none := by
  induction h generalizing ks with
  | nil => cases ks <;> cases hc
  | @cons l ls g t s r hl _ ih =>
    cases ks with
    | nil => cases hc
    | cons k ks =>
      rw [Stream.afterPhrase?]
      split
      · next hk =>
        -- The first keywords are the same, so the phrases clash further on.
        refine ih ?_
        simpa only [clash, isKeyword_unique hk hl, Bool.not_true, Bool.false_or] using hc
      · rfl

theorem Keywords.phrase?_of_clash (h : Keywords ls s r) (hc : clash ks ls = true) :
    Parser.phrase? ks s = .ok (false, s) := by
  simp only [Parser.phrase?, h.afterPhrase?_of_clash hc]

theorem Keywords.keyword?_of_clash (h : Keywords ls s r) (hc : clash [k] ls = true) :
    Parser.keyword? k s = .ok (false, s) :=
  h.phrase?_of_clash hc

theorem isPunct_of_ne (h : t.isPunct m = true) (hne : m ≠ m') : t.isPunct m' = false := by
  simp only [Token.isPunct, Bool.and_eq_true, beq_iff_eq] at h
  simp [Token.isPunct, h, hne]

theorem Mark.punct? (h : Mark m s r) : punct? m s = .ok (true, r) := by
  cases h with
  | mk ht => simp only [Parser.punct?, ht, if_true]

theorem Mark.punct?_of_ne (h : Mark m s r) (hne : m ≠ m') :
    Parser.punct? m' s = .ok (false, s) := by
  cases h with
  | mk ht => simp only [Parser.punct?, isPunct_of_ne ht hne, Bool.false_eq_true, if_false]

theorem Mark.expectPunct (h : Mark m s r) (fault : Fault) :
    expectPunct m fault s = .ok ((), r) := by
  simp only [Parser.expectPunct, run_bind, h.punct?, if_true]
  rfl

theorem Mark.size_lt (h : Mark m s r) : r.size < s.size := by
  cases h
  exact Nat.lt_succ_self _

/-- What may follow a part of a column: one of some phrases, or the mark that ends the column. -/
inductive Before (ps : List (List String)) : Stream → Prop
  | phrase {k : String} {ks : List String} {s r : Stream} : k :: ks ∈ ps →
      Keywords (k :: ks) s r → Before ps s
  | comma {s r : Stream} : Mark "," s r → Before ps s
  | close {s r : Stream} : Mark ")" s r → Before ps s

theorem Before.mono (h : Before ps s) (hsub : ps ⊆ qs) : Before qs s := by
  cases h with
  | phrase hmem hks => exact .phrase (hsub hmem) hks
  | comma hm => exact .comma hm
  | close hm => exact .close hm

theorem Mark.afterPhrase? (h : Mark m s r) : s.afterPhrase? (k :: ks) = none := by
  cases h with
  | mk ht => simp [Stream.afterPhrase?, Token.isKeyword, kind_of_isPunct ht]

/-- A phrase that clashes with all that may follow does not follow. -/
theorem Before.afterPhrase? (h : Before ps s) (hps : ps.all (clash (k :: ks)) = true) :
    s.afterPhrase? (k :: ks) = none := by
  cases h with
  | phrase hmem hks => exact hks.afterPhrase?_of_clash (List.all_eq_true.1 hps _ hmem)
  | comma hm => exact hm.afterPhrase?
  | close hm => exact hm.afterPhrase?

theorem Before.phrase? (h : Before ps s) (hps : ps.all (clash (k :: ks)) = true) :
    Parser.phrase? (k :: ks) s = .ok (false, s) := by
  simp only [Parser.phrase?, h.afterPhrase? hps]

theorem Before.keyword? (h : Before ps s) (hps : ps.all (clash [k]) = true) :
    Parser.keyword? k s = .ok (false, s) :=
  h.phrase? hps

theorem Before.punct? (h : Before ps s) (hcomma : "," ≠ m) (hclose : ")" ≠ m) :
    Parser.punct? m s = .ok (false, s) := by
  cases h with
  | phrase _ hks =>
    cases hks with
    | cons hk =>
      simp [Parser.punct?, Token.isPunct, kind_of_isKeyword hk]
  | comma hm => exact hm.punct?_of_ne hcomma
  | close hm => exact hm.punct?_of_ne hclose

/-! ## Choices and repetitions -/

variable {choices : List (List String × α)} {a : α} {o : Option α} {as : List α} {b : Bool}
  {R : Clause α}

/-- Of choices that clash, the one that is there is read. -/
theorem OneOf.choose (h : OneOf choices s a r)
    (hd : choices.Pairwise fun x y => clash x.1 y.1 = true) :
    choose choices s = .ok (some a, r) := by
  obtain ⟨ks, hmem, hks⟩ := h
  induction choices with
  | nil => cases hmem
  | cons x choices ih =>
    obtain ⟨hx, hd⟩ := List.pairwise_cons.1 hd
    obtain rfl | hmem := List.mem_cons.1 hmem
    · simp only [Parser.choose, run_bind, hks.phrase?, if_true]
      rfl
    · have hno := hks.phrase?_of_clash (hx _ hmem)
      simp only [Parser.choose, run_bind, hno, Bool.false_eq_true, if_false]
      exact ih hd hmem

/-- None of the choices may follow. -/
def refused (ps : List (List String)) (choices : List (List String × α)) : Bool :=
  choices.all fun x => !x.1.isEmpty && ps.all (clash x.1)

theorem Before.choose (h : Before ps s) (hps : refused ps choices = true) :
    Parser.choose choices s = .ok (none, s) := by
  induction choices with
  | nil => rfl
  | cons x choices ih =>
    obtain ⟨_ | ⟨k, ks⟩, a⟩ := x
    · cases hps
    · obtain ⟨hx, hps⟩ : ps.all (clash (k :: ks)) = true ∧ refused ps choices = true := by
        simpa [refused] using hps
      simp only [Parser.choose, run_bind, h.phrase? hx, Bool.false_eq_true, if_false]
      exact ih hps

theorem Maybe.choose (h : Maybe (OneOf choices) s o r) (hr : Before ps r)
    (hd : choices.Pairwise fun x y => clash x.1 y.1 = true) (hps : refused ps choices = true) :
    Parser.choose choices s = .ok (o, r) := by
  cases h with
  | none => exact hr.choose hps
  | some h => exact h.choose hd

theorem Flag.keyword? (h : Flag [k] s b r) (hr : Before ps r) (hps : ps.all (clash [k]) = true) :
    Parser.keyword? k s = .ok (b, r) := by
  cases h with
  | absent => exact hr.keyword? hps
  | present h => exact h.keyword?

theorem Maybe.before (h : Maybe R s o r) (hR : ∀ {s a r}, R s a r → Before qs s)
    (hr : Before ps r) : Before (qs ++ ps) s := by
  cases h with
  | none => exact hr.mono (List.subset_append_right qs ps)
  | some h => exact (hR h).mono (List.subset_append_left qs ps)

theorem Many.before (h : Many R s as r) (hR : ∀ {s a r}, R s a r → Before qs s)
    (hr : Before ps r) : Before (qs ++ ps) s := by
  cases h with
  | nil => exact hr.mono (List.subset_append_right qs ps)
  | cons h => exact (hR h).mono (List.subset_append_left qs ps)

theorem Flag.before (h : Flag (k :: ks) s b r) (hr : Before ps r) :
    Before ([k :: ks] ++ ps) s := by
  cases h with
  | absent => exact hr.mono (List.subset_append_right _ ps)
  | present h => exact .phrase List.mem_cons_self h

theorem OneOf.before (h : OneOf choices s a r) (hne : ∀ x ∈ choices, x.1 ≠ []) :
    Before (choices.map (·.1)) s := by
  obtain ⟨_ | ⟨k, ks⟩, hmem, hks⟩ := h
  · exact absurd rfl (hne _ hmem)
  · exact .phrase (List.mem_map_of_mem hmem) hks

theorem many_of_none {p : Parser (Option α)} (h : p s = .ok (none, r)) :
    many p s = .ok ([], r) := by
  rw [Parser.many, rounds]
  simp only [run_bind, h, run_pure]

theorem many_of_some {p : Parser (Option α)} (h : p s = .ok (some a, s₁))
    (hlt : s₁.size < s.size) (hrest : many p s₁ = .ok (as, r)) :
    many p s = .ok (a :: as, r) := by
  rw [Parser.many] at hrest ⊢
  rw [rounds_of_next (a := a) (by simp only [run_bind, h, run_pure]) hlt, hrest]
  rfl

/-- Where a repetition may begin, `F` holds, and it is all that one asks of what follows it. -/
theorem Many.many {p : Parser (Option α)} {F : Stream → Prop} (h : Many R s as r)
    (hread : ∀ {s a r}, R s a r → F r → p s = .ok (some a, r) ∧ r.size < s.size)
    (hstart : ∀ {s a r}, R s a r → F s) (hr : F r) (hstop : p r = .ok (none, r)) :
    many p s = .ok (as, r) := by
  induction h with
  | nil => exact many_of_none hstop
  | cons ha has ih =>
    refine (hread ha ?_).elim fun hp hlt => many_of_some hp hlt (ih hr hstop)
    -- Another repetition follows, or what follows all of them.
    cases has with
    | nil => exact hr
    | cons ha' => exact hstart ha'

/-- What follows a comma is read like what stands before it. -/
theorem Separated.rounds {p : Parser (Round α)} {F : Stream → Prop} (h : Separated R s as r)
    (hnext : ∀ {s a s₁ s₂}, R s a s₁ → Mark "," s₁ s₂ →
      p s = .ok (.next a, s₂) ∧ s₂.size < s.size)
    (hlast : ∀ {s a r}, R s a r → F r → rounds p s = .ok ([a], r)) (hr : F r) :
    rounds p s = .ok (as, r) := by
  induction h with
  | last ha => exact hlast ha hr
  | next ha hcomma _ ih =>
    obtain ⟨hp, hlt⟩ := hnext ha hcomma
    rw [rounds_of_next hp hlt, ih hr]
    rfl

end SchemaAlign.Parser.Grammar
