import SchemaAlign.Proofs.Object
import SchemaAlign.Proofs.Parser.Reading
import SchemaAlign.Proofs.Span
import SchemaAlign.Proofs.Token.Alike

/-!
# Statements of tokens that are alike

Blanks, comments and the case of words may change whether a text is within the grammar, as they may
change a literal. But where two texts are both read, they are cut into statements in the same
places: `CREATE TABLE` ends at the first semicolon, and any other statement after so many `BEGIN`
and `END`.

* `Stream.Alike`: streams whose significant tokens are alike;
* `alike_statement`: one statement on two such streams;
* `Reading.alike`: all statements of two lists of tokens.
-/

namespace SchemaAlign.Parser

open Text
open SchemaAlign.Parser.Stream (Rest ofTokens)
open SchemaAlign.Token (AllAlike)
open SchemaAlign.ObjectKey (SameWords)

variable {n m n' : Nat} {s s' r r' : Stream} {t t' : Token} {us us' ts ts' : List Token}
  {st st' : Statement} {sts sts' : List Statement}

/-! ## Streams -/

/-- The significant tokens of the streams are alike. -/
inductive Stream.Alike : Stream → Stream → Prop
  | done {g g' : Gap} : Alike (.done g) (.done g')
  | item {g g' : Gap} {t t' : Token} {s s' : Stream} : t.Alike t' → Alike s s' →
      Alike (.item g t s) (.item g' t' s')

theorem filter_isSignificant_trivia {w : List Token} (hw : Trivia w) :
    w.filter Token.isSignificant = [] :=
  List.filter_eq_nil_iff.2 fun t ht => by simp [Token.isSignificant, hw t ht]

theorem filter_isSignificant_append {w : List Token} (hw : Trivia w) (ht : t.isTrivia = false)
    (ts : List Token) : (w ++ t :: ts).filter Token.isSignificant =
      t :: ts.filter Token.isSignificant := by
  rw [List.filter_append, filter_isSignificant_trivia hw, List.nil_append,
    List.filter_cons_of_pos (by simp [Token.isSignificant, ht])]

theorem allAlike_trivia_append {w w' : List Token} (hw : Trivia w) (hw' : Trivia w') :
    AllAlike (w ++ ts) (w' ++ ts') ↔ AllAlike ts ts' := by
  rw [AllAlike, List.filter_append, List.filter_append, filter_isSignificant_trivia hw,
    filter_isSignificant_trivia hw']
  rfl

theorem alike_ofTokens_iff (n n' : Nat) (ts ts' : List Token) :
    (ofTokens n ts).Alike (ofTokens n' ts') ↔ AllAlike ts ts' := by
  unfold AllAlike
  induction ts using significant_induction generalizing n n' ts' with
  | trivia w hw =>
    rw [ofTokens_trivia n hw, filter_isSignificant_trivia hw, List.forall₂_nil_left_iff]
    obtain hw' | ⟨w', t', us', rfl, hw', ht'⟩ := trivia_or ts'
    · rw [ofTokens_trivia n' hw', filter_isSignificant_trivia hw']
      exact ⟨fun _ => rfl, fun _ => .done⟩
    · rw [ofTokens_append n' hw' ht', filter_isSignificant_append hw' ht']
      exact ⟨nofun, nofun⟩
  | item w t us hw ht ih =>
    rw [ofTokens_append n hw ht, filter_isSignificant_append hw ht]
    obtain hw' | ⟨w', t', us', rfl, hw', ht'⟩ := trivia_or ts'
    · rw [ofTokens_trivia n' hw', filter_isSignificant_trivia hw']
      exact ⟨nofun, nofun⟩
    · rw [ofTokens_append n' hw' ht', filter_isSignificant_append hw' ht', List.forall₂_cons,
        ← ih (n + w.length + 1) (n' + w'.length + 1) us']
      refine ⟨fun h => ?_, fun h => .item h.1 h.2⟩
      cases h with
      | item htt' hs => exact ⟨htt', hs⟩

theorem Stream.Alike.tail (h : s.Alike s') : s.tail.Alike s'.tail := by
  cases h with
  | done => exact .done
  | item _ hs => exact hs

theorem Stream.Alike.toBarrier (h : s.Alike s') : s.toBarrier.Alike s'.toBarrier := by
  induction h with
  | done => exact .done
  | @item g g' t t' s s' ht hs ih =>
    rw [Stream.toBarrier, Stream.toBarrier, ht.isPunct_eq]
    split
    · exact .item ht hs
    · exact ih

theorem Stream.Alike.afterPhrase? (h : s.Alike s') (ks : List String) :
    Option.Rel Stream.Alike (s.afterPhrase? ks) (s'.afterPhrase? ks) := by
  induction ks generalizing s s' with
  | nil => exact .some h
  | cons k ks ih =>
    cases h with
    | done => exact .none
    | item ht hs =>
      rw [Stream.afterPhrase?, Stream.afterPhrase?, ht.isKeyword_eq]
      split
      · exact ih hs
      · exact .none

/-! ## One statement -/

theorem step_congr (h : t.Alike t') (n : Nesting) : n.step t = n.step t' := by
  simp only [Nesting.step, Nesting.depthAfter, h.isKeyword_eq, eqIgnoreAsciiCase_congr h.ignoreCase]

theorem alike_cutStatement (h : s.Alike s') (n : Nesting) :
    SameWords (s.cutStatement n).1 (s'.cutStatement n).1 ∧
      (s.cutStatement n).2.Alike (s'.cutStatement n).2 := by
  induction h generalizing n with
  | done => exact ⟨.nil, .done⟩
  | @item g g' t t' s s' ht hs ih =>
    have hend : n.isEnd t = n.isEnd t' := by rw [Nesting.isEnd, Nesting.isEnd, ht.isPunct_eq]
    by_cases hn : n.isEnd t' = true
    · simp only [Stream.cutStatement, hend, hn, if_true]
      exact ⟨.cons ht.ignoreCase .nil, hs⟩
    · simp only [Stream.cutStatement, hend, hn, Bool.false_eq_true, if_false, step_congr ht]
      obtain ⟨hwords, hrest⟩ := ih (n.step t')
      exact ⟨.cons ht.ignoreCase hwords, hrest⟩

/-- Two statements that are read from streams that are alike end in the same place, and both create
    an object or none of them does. -/
theorem alike_statement (hs : s.Alike s') (h : statement s = .ok (st, r))
    (h' : statement s' = .ok (st', r')) :
    r.Alike r' ∧ (ObjectKey.ofStatement? st).isSome = (ObjectKey.ofStatement? st').isSome := by
  have hphrase := hs.afterPhrase? ["CREATE", "TABLE"]
  rw [statement_eq] at h h'
  generalize s.afterPhrase? ["CREATE", "TABLE"] = x at h hphrase
  generalize s'.afterPhrase? ["CREATE", "TABLE"] = x' at h' hphrase
  cases hphrase with
  | none =>
    cases h
    cases h'
    obtain ⟨hwords, hrest⟩ := alike_cutStatement hs .start
    exact ⟨hrest, ObjectKey.ofWords?_congr hwords⟩
  | @some q q' hq =>
    dsimp only at h h'
    split at h
    · cases h
    · next hbody =>
      split at h'
      · cases h'
      · next hbody' =>
        cases h
        cases h'
        -- On either stream, `CREATE TABLE` ends at the first barrier.
        rw [eq_toBarrier_of_tableBody hbody, eq_toBarrier_of_tableBody hbody']
        exact ⟨hq.toBarrier.tail, rfl⟩

/-! ## All statements -/

/-- Statements of two lists of tokens that create an object or not, both of them, and whose tokens
    are alike. -/
structure AlikeIn (ts ts' : List Token) (st st' : Statement) : Prop where
  creates : (ObjectKey.ofStatement? st).isSome = (ObjectKey.ofStatement? st').isSome
  tokens : ∃ part part', slice? ts st.span = some part ∧ slice? ts' st'.span = some part' ∧
    AllAlike part part'

theorem allAlike_append {vs vs' : List Token} (h : AllAlike (us ++ vs) (us' ++ vs'))
    (hvs : AllAlike vs vs') : AllAlike us us' := by
  unfold AllAlike at h hvs ⊢
  rw [List.filter_append, List.filter_append] at h
  -- The parts behind are equally long, and so are those before them.
  have hlen := h.length_eq
  have hlen' := hvs.length_eq
  rw [List.length_append, List.length_append] at hlen
  have htake := List.forall₂_take_append _ _ _ h
  rwa [List.take_left' (by omega)] at htake

theorem slice?_statement {as vs : List Token} (ht : t.isTrivia = false)
    (h : statement (ofTokens as.length (t :: us ++ vs)) =
      .ok (st, ofTokens (as.length + us.length + 1) vs)) :
    slice? (as ++ (t :: us ++ vs)) st.span = some (t :: us) := by
  rw [span_of_statement_ofTokens ht h, ← List.append_assoc, Nat.add_assoc, ← List.length_cons]
  exact slice?_append as (t :: us) vs

/-- Lists of tokens that are alike are cut into statements in the same places. -/
theorem Reading.alike {as as' : List Token} (h : Reading as.length ts sts)
    (h' : Reading as'.length ts' sts') (halike : AllAlike ts ts') :
    List.Forall₂ (AlikeIn (as ++ ts) (as' ++ ts')) sts sts' := by
  generalize hn : as.length = n at h
  induction h generalizing as as' ts' sts' with
  | nil hw =>
    rw [AllAlike, filter_isSignificant_trivia hw, List.forall₂_nil_left_iff] at halike
    cases h' with
    | nil => exact .nil
    | cons hw' ht' =>
      -- Only one of the lists holds a significant token.
      rw [List.cons_append, filter_isSignificant_append hw' ht'] at halike
      cases halike
  | @cons n m w us vs t st sts hw ht hm hst hvs ih =>
    subst hn hm
    cases h' with
    | nil hw' =>
      rw [AllAlike, filter_isSignificant_trivia hw', List.cons_append,
        filter_isSignificant_append hw ht] at halike
      cases halike
    | @cons _ _ w' us' vs' t' st' sts' hw' ht' hm' hst' hvs' =>
      subst hm'
      have hparts := (allAlike_trivia_append hw hw').1 halike
      obtain ⟨hrest, hcreates⟩ := alike_statement ((alike_ofTokens_iff _ _ _ _).2 hparts) hst hst'
      rw [alike_ofTokens_iff] at hrest
      have hlen (as w us : List Token) (t : Token) :
          as.length + w.length + us.length + 1 = (as ++ w ++ t :: us).length := by
        simp only [List.length_append, List.length_cons]
        omega
      rw [hlen as' w' us' t'] at hvs'
      have hlater := ih hvs' hrest (hlen as w us t).symm
      rw [← List.length_append] at hst hst'
      have hslice := slice?_statement ht hst
      have hslice' := slice?_statement ht' hst'
      simp only [List.append_assoc] at hslice hslice' hlater ⊢
      exact .cons ⟨hcreates, _, _, hslice, hslice', allAlike_append hparts hrest⟩ hlater

end SchemaAlign.Parser
