import SchemaAlign.Proofs.Parser.Nesting
import SchemaAlign.Proofs.Parser.Semicolon
import SchemaAlign.Proofs.Source

/-!
# Semicolons before the end of an index or a view

Whether a statement creates a trigger is asked twice: while it is read, by a word among the first
three, and afterwards, by the place of that word. The answers differ where the name of an index or a
view is the word `TRIGGER`. Only there can such a statement hold a semicolon before its end.

* `exists_trigger_of_after`, `exists_begin_of_after`: why a block is open;
* `ObjectKey.kind_of_trigger`, `ObjectKey.kind_of_third`: what is created by a statement with the
  word `TRIGGER` at its front;
* `parse_inner_semicolon`: an index or a view with a semicolon before its end.
-/

namespace SchemaAlign

open Text

namespace ObjectKey

variable {key : ObjectKey} {create second third : String} {words : List String}

theorem not_isAnyOf_of_trigger {keywords : List String} {word : String}
    (ht : eqIgnoreAsciiCase word "TRIGGER" = true) (hk : isAnyOf keywords "TRIGGER" = false) :
    ¬ isAnyOf keywords word = true := by
  rw [isAnyOf_of_eq ht hk]
  nofun

theorem kind_of_keyword {kind : ObjectKind} {word : String}
    (ht : eqIgnoreAsciiCase word "TRIGGER" = true) (h : isAnyOf [kind.text] word = true) :
    kind = .trigger := by
  have hkind := (isAnyOf_of_eq ht rfl).symm.trans h
  revert hkind
  cases kind <;> decide

/-- After `CREATE`, the word `TRIGGER` is the kind. -/
theorem kind_of_trigger (h : ofWords? (create :: second :: words) = some key)
    (ht : eqIgnoreAsciiCase second "TRIGGER" = true) : key.kind = .trigger := by
  generalize hws : create :: second :: words = ws at h
  cases ofWords?_eq_some_iff.1 h with
  | mk _ htemporary hunique _ _ hkeyword =>
  cases htemporary with
  | one htemporary => cases hws; exact absurd htemporary (not_isAnyOf_of_trigger ht (by decide))
  | none =>
    cases hunique with
    | one hunique => cases hws; exact absurd hunique (not_isAnyOf_of_trigger ht (by decide))
    | none => cases hws; exact kind_of_keyword ht hkeyword

/-- As the third word, `TRIGGER` is the kind or the beginning of a name. -/
theorem kind_of_third (h : ofWords? (create :: second :: third :: words) = some key)
    (ht : eqIgnoreAsciiCase third "TRIGGER" = true) :
    key.kind = .trigger ∨ isAnyOf ["INDEX", "VIEW"] second = true := by
  generalize hws : create :: second :: third :: words = ws at h
  cases ofWords?_eq_some_iff.1 h with
  | @mk _ _ _ _ _ _ kind _ htemporary hunique hplain htable hkeyword =>
  cases htemporary with
  | one htemporary =>
    cases hunique with
    | one hunique => cases hws; exact absurd hunique (not_isAnyOf_of_trigger ht (by decide))
    | none => cases hws; exact .inl (kind_of_keyword ht hkeyword)
  | none =>
    cases hunique with
    | one hunique => cases hws; exact .inl (kind_of_keyword ht hkeyword)
    | none =>
      -- The kind is the second word, and the name begins behind it.
      cases hws
      have heq := eq_of_isAnyOf hkeyword
      cases kind with
      | table => exact absurd rfl htable
      | trigger => exact .inl rfl
      | index | view => exact .inr (isAnyOf_of_eq heq (by decide))

end ObjectKey

namespace Parser

open SchemaAlign.Parser.Stream (ofTokens)

variable {n : Nesting} {us vs xs ts : List Token} {t : Token} {s r : Stream} {m : Nat}
  {words : List String} {span : Span}

/-! ## Why a block is open -/

namespace Nesting

/-- Blocks are counted only where a trigger is created. -/
theorem trigger_of_depth_step (h : n.depth ≠ 0 → n.trigger = true) (hstep : (n.step t).depth ≠ 0) :
    (n.step t).trigger = true := by
  by_cases hn : n.trigger = true
  · exact (step_of_trigger hn t).1
  by_cases ht : (t.isKeyword "TRIGGER" && decide (n.count ≤ 2) && n.creates) = true
  · simp [step, ht]
  · rw [step, if_neg ht, if_neg hn] at hstep
    exact absurd (h hstep) hn

theorem trigger_of_depth (h : n.depth ≠ 0 → n.trigger = true) (hts : (n.after ts).depth ≠ 0) :
    (n.after ts).trigger = true := by
  induction ts generalizing n with
  | nil => exact h hts
  | cons t ts ih => exact ih (trigger_of_depth_step h) hts

/-- A first block is opened by `BEGIN`. -/
theorem exists_begin_of_after (hn : n.depth = 0) (hts : (n.after ts).depth ≠ 0) :
    ∃ t ∈ ts, t.isKeyword "BEGIN" = true := by
  induction ts generalizing n with
  | nil => exact absurd hn hts
  | cons t ts ih =>
    by_cases ht : t.isKeyword "BEGIN" = true
    · exact ⟨t, List.mem_cons_self, ht⟩
    have hstep : (n.step t).depth = 0 := by
      unfold step
      dsimp only
      split
      · exact hn
      split
      · simp [Nesting.depthAfter, ht, hn]
      · exact hn
    obtain ⟨u, hu, hbegin⟩ := ih hstep hts
    exact ⟨u, List.mem_cons_of_mem t hu, hbegin⟩

/-- A trigger is taken to be created for the word `TRIGGER`, among the first three. -/
theorem exists_trigger_of_after (hn : n.trigger = false) (hts : (n.after ts).trigger = true) :
    ∃ i t, ts[i]? = some t ∧ t.isKeyword "TRIGGER" = true ∧ n.count + i ≤ 2 ∧
      (i = 0 → n.creates = true) := by
  induction ts generalizing n with
  | nil => rw [after_nil, hn] at hts; cases hts
  | cons t ts ih =>
    by_cases ht : (t.isKeyword "TRIGGER" && decide (n.count ≤ 2) && n.creates) = true
    · simp only [Bool.and_eq_true, decide_eq_true_eq] at ht
      exact ⟨0, t, rfl, ht.1.1, by simpa using ht.1.2, fun _ => ht.2⟩
    have hstep : (n.step t).trigger = false := by simp [step, ht, hn]
    obtain ⟨i, u, hi, hu, hle, -⟩ := ih hstep hts
    rw [count_step] at hle
    exact ⟨i + 1, u, hi, hu, by omega, fun h => absurd h (Nat.succ_ne_zero i)⟩

end Nesting

open Nesting

/-- Where a semicolon does not end the statement, a block is open: `TRIGGER` is the second or third
    word before it, and `BEGIN` is one of these words. -/
theorem exists_trigger_of_goesOn (h : Nesting.start.goesOn (us ++ [t]) = true)
    (ht : t.isPunct ";" = true) :
    (∃ i u, us[i]? = some u ∧ u.isKeyword "TRIGGER" = true ∧ (i = 1 ∨ i = 2)) ∧
      ∃ u ∈ us, u.isKeyword "BEGIN" = true := by
  rw [goesOn_append, Bool.and_eq_true, goesOn_cons_iff] at h
  have hdepth : (Nesting.start.after us).depth ≠ 0 := by simpa [isEnd, ht] using h.2.1
  obtain ⟨i, u, hi, hu, hle, hzero⟩ :=
    exists_trigger_of_after rfl (trigger_of_depth (n := .start) (fun h => absurd rfl h) hdepth)
  refine ⟨⟨i, u, hi, hu, ?_⟩, exists_begin_of_after rfl hdepth⟩
  have hne : i ≠ 0 := fun h => Bool.false_ne_true (hzero h)
  simp only [Nesting.start] at hle
  omega

/-! ## Statements -/

/-- The words of a statement that is not read in detail are its significant tokens, none of which
    but the last one ends it. -/
theorem significant_of_other {n : Nat} (h : statement (ofTokens n (us ++ vs)) =
      .ok (.other words span, ofTokens m vs)) :
    words = (us.filter Token.isSignificant).map (·.text) ∧
      ∀ xs t ys, us.filter Token.isSignificant = xs ++ t :: ys → ys ≠ [] →
        Nesting.start.goesOn (xs ++ [t]) = true := by
  rw [statement_eq] at h
  split at h
  · obtain ⟨ts, hts, hwords, hgoes⟩ :=
      exists_significant_cutStatement .start (ofTokens n (us ++ vs))
    have hrest := congrArg Prod.snd (Except.ok.inj h)
    have hother := congrArg Prod.fst (Except.ok.inj h)
    dsimp only at hrest hother
    rw [hrest, significant_ofTokens, significant_ofTokens, List.filter_append,
      List.append_left_inj] at hts
    rw [hts]
    obtain ⟨rfl, -⟩ := Statement.other.inj hother
    exact ⟨hwords, hgoes⟩
  · split at h
    · cases h
    · cases h

/-- Before a semicolon inside a statement that is not read in detail, `TRIGGER` is its second or
    third word, and `BEGIN` one of its words. -/
theorem exists_trigger_of_other {n : Nat} {u : Token} {ws : List Token}
    (hu : u.isTrivia = false) (h : statement (ofTokens n (u :: ws ++ xs)) =
      .ok (.other words span, ofTokens (n + ws.length + 1) xs))
    (hpart : u :: ws = us ++ t :: vs) (ht : t.isPunct ";" = true) (hvs : vs ≠ []) :
    (∃ i v, (us.filter Token.isSignificant)[i]? = some v ∧ v.isKeyword "TRIGGER" = true ∧
      (i = 1 ∨ i = 2)) ∧ ∃ v ∈ us, v.isKeyword "BEGIN" = true := by
  -- The last token is significant, so the semicolon is not the last significant one.
  have hlater : vs.filter Token.isSignificant ≠ [] := by
    obtain ⟨front, v, hlast, hv⟩ := last_of_statement hu h
    obtain rfl | ⟨ys, v', rfl⟩ := vs.eq_nil_or_concat
    · exact absurd rfl hvs
    rw [List.concat_eq_append, ← List.cons_append, ← List.append_assoc] at hpart
    obtain ⟨-, hsame⟩ := List.append_inj' (hpart.symm.trans hlast) rfl
    obtain rfl : v' = v := List.singleton_inj.1 hsame
    simp [Token.isSignificant, hv]
  have hsplit : (u :: ws).filter Token.isSignificant =
      us.filter Token.isSignificant ++ t :: vs.filter Token.isSignificant := by
    rw [hpart, List.filter_append, List.filter_cons_of_pos]
    simp [Token.isSignificant, isTrivia_of_isPunct ht]
  obtain ⟨htrigger, v, hv, hbegin⟩ :=
    exists_trigger_of_goesOn ((significant_of_other h).2 _ _ _ hsplit hlater) ht
  exact ⟨htrigger, v, (List.mem_filter.1 hv).1, hbegin⟩

end Parser

namespace Statement

open SchemaAlign.Parser (exists_trigger_of_other significant_of_other slice?_statement
  eqIgnoreAsciiCase_of_isKeyword)

variable {tokens : List Token} {sts : List Statement} {words : List String} {span : Span}
  {key : ObjectKey}

/-- An index or a view holds a semicolon before its last token only if its third word, with which
    its name begins, is `TRIGGER`, and `BEGIN` is one of the words before the semicolon. -/
theorem parse_inner_semicolon (h : parse tokens = .ok sts) (hst : other words span ∈ sts)
    (hkey : ObjectKey.ofWords? words = some key) (hkind : key.kind = .index ∨ key.kind = .view) :
    ∃ part, slice? tokens span = some part ∧
      ∀ us t vs, part = us ++ t :: vs → t.isPunct ";" = true → vs ≠ [] →
        (∃ create kind name more,
          part.filter Token.isSignificant = create :: kind :: name :: more ∧
            ObjectKey.isAnyOf ["INDEX", "VIEW"] kind.text = true ∧
            name.isKeyword "TRIGGER" = true) ∧
          ∃ u ∈ us, u.isKeyword "BEGIN" = true := by
  obtain ⟨as, t₀, ws, bs, rfl, ht₀, hstatement⟩ := (parse_eq_ok h).exists_part hst
  rw [Nat.zero_add] at hstatement
  refine ⟨t₀ :: ws, slice?_statement ht₀ hstatement, fun us t vs hpart ht hvs => ?_⟩
  obtain ⟨⟨i, u, hi, hu, hindex⟩, hbegin⟩ :=
    exists_trigger_of_other ht₀ hstatement hpart ht hvs
  refine ⟨?_, hbegin⟩
  have htext := eqIgnoreAsciiCase_of_isKeyword hu
  rw [(significant_of_other hstatement).1, hpart, List.filter_append] at hkey
  rw [hpart, List.filter_append]
  -- What a block was opened for: `TRIGGER` is the second or the third word.
  generalize us.filter Token.isSignificant = front at hi hkey ⊢
  obtain rfl | rfl := hindex
  · -- The statement creates a trigger after all.
    obtain _ | ⟨create, _ | ⟨second, front⟩⟩ := front
    · cases hi
    · cases hi
    cases hi
    rw [ObjectKey.kind_of_trigger hkey htext] at hkind
    exact absurd hkind (by decide)
  · obtain _ | ⟨create, _ | ⟨second, _ | ⟨third, front⟩⟩⟩ := front
    · cases hi
    · cases hi
    · cases hi
    cases hi
    refine ⟨create, second, u, _, rfl, ?_, hu⟩
    obtain htrigger | hsecond := ObjectKey.kind_of_third hkey htext
    · rw [htrigger] at hkind
      exact absurd hkind (by decide)
    · exact hsecond

/-- An index of this name, with a semicolon before the last word. -/
theorem parse_inner_semicolon_index :
    let tokens := Token.tokenize "CREATE INDEX trigger ON t (begin); x"
    let words := ["CREATE", "INDEX", "trigger", "ON", "t", "(", "begin", ")", ";", "x"]
    ∃ us vs, parse tokens = .ok [other words ⟨0, 16⟩] ∧
      ObjectKey.ofWords? words = some ⟨.index, "trigger"⟩ ∧
      slice? tokens ⟨0, 16⟩ = some (us ++ .semicolon :: vs) ∧ vs ≠ [] ∧
      (∃ create kind name more,
        (us ++ .semicolon :: vs).filter Token.isSignificant = create :: kind :: name :: more ∧
          ObjectKey.isAnyOf ["INDEX", "VIEW"] kind.text = true ∧
          name.isKeyword "TRIGGER" = true) ∧
      ∃ u ∈ us, u.isKeyword "BEGIN" = true := by
  intro tokens words
  have h : parse tokens = .ok [other words ⟨0, 16⟩] := by decide +kernel
  have hkey : ObjectKey.ofWords? words = some ⟨.index, "trigger"⟩ := by decide +kernel
  have hslice : slice? tokens ⟨0, 16⟩ = some (tokens.take 13 ++ .semicolon :: tokens.drop 14) ∧
      tokens.drop 14 ≠ [] := by decide +kernel
  obtain ⟨part, hpart, hinner⟩ := parse_inner_semicolon h List.mem_cons_self hkey (.inl rfl)
  obtain rfl := Option.some.inj (hslice.1.symm.trans hpart)
  exact ⟨_, _, h, hkey, hslice.1, hslice.2, hinner _ _ _ rfl (by decide) hslice.2⟩

/-- A view of this name takes in the statement that follows it: behind its semicolon stands a table,
    but there is one statement, which creates the view. -/
theorem parse_view_takes_table :
    let tokens := Token.tokenize "CREATE VIEW trigger AS SELECT begin FROM t; CREATE TABLE u (x);"
    let table : CreateTable :=
      { name := "u", ifNotExists := false, options := [], span := ⟨1, 11⟩
        columns := [{ name := "x", type := none, constraints := [], span := ⟨8, 9⟩ }] }
    ∃ words us vs, parse tokens = .ok [other words ⟨0, 27⟩] ∧
      ObjectKey.ofWords? words = some ⟨.view, "trigger"⟩ ∧
      slice? tokens ⟨0, 27⟩ = some (us ++ .semicolon :: vs) ∧
      parse vs = .ok [createTable table] := by
  intro tokens table
  exact ⟨(tokens.filter Token.isSignificant).map (·.text), tokens.take 15,
    tokens.drop 16, by decide +kernel⟩

end Statement

end SchemaAlign
