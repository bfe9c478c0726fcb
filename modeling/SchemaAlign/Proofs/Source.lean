import Mathlib.Data.List.Pairwise
import SchemaAlign.Catalog
import SchemaAlign.Proofs.Parser.Reading
import SchemaAlign.Proofs.Span

/-!
# What reading a source gives

* `ParsedSource.IsReading`: the sources that were read from a text or from a row of a catalog;
* `ParsedSource.IsReading.sound`: their objects have tokens of their own.
-/

namespace SchemaAlign

open SchemaAlign.Parser (Reading ofTokens_eq_ok_iff)

variable {p : ParsedSource} {edition : Nat} {id text : String} {row : CatalogRow}
  {tokens : List Token} {statement : Statement} {statements : List Statement}

theorem Statement.parse_eq_ok (h : Statement.parse tokens = .ok statements) :
    Reading 0 tokens statements := by
  rw [← ofTokens_eq_ok_iff]
  unfold Statement.parse Except.mapError at h
  split at h <;> cases h
  assumption

theorem Statement.parse_of_reading (h : Reading 0 tokens statements) :
    Statement.parse tokens = .ok statements := by
  rw [Statement.parse, ofTokens_eq_ok_iff.2 h]
  rfl

/-- What can be decided of a text whose statements are known. -/
theorem Statement.parse_of_toOption (h : (Statement.parse tokens).toOption = some statements) :
    Statement.parse tokens = .ok statements := by
  generalize Statement.parse tokens = result at h ⊢
  cases result with
  | error => cases h
  | ok => exact congrArg _ (Option.some.inj h)

/-! ## The two kinds of readings -/

theorem ParsedSource.ofText_eq_ok (h : ParsedSource.ofText edition id text = .ok p) :
    ∃ statements, Reading 0 (Token.tokenize text) statements ∧
      p = { id, edition, tokens := Token.tokenize text,
            objects := statements.filterMap (SchemaObject.ofStatement? id edition) } := by
  unfold ParsedSource.ofText at h
  simp only [bind, Except.bind, pure, Except.pure] at h
  split at h <;> cases h
  next statements hparse => exact ⟨statements, Statement.parse_eq_ok hparse, rfl⟩

theorem ParsedSource.place_of_ofText (h : ParsedSource.ofText edition id text = .ok p) :
    p.id = id ∧ p.edition = edition := by
  obtain ⟨_, -, rfl⟩ := ofText_eq_ok h
  exact ⟨rfl, rfl⟩

theorem ParsedSource.ofRow_eq_ok (h : ParsedSource.ofRow edition row = .ok p) :
    ∃ kind statement, ObjectKind.ofText? row.type = some kind ∧
      Reading 0 (Token.tokenize row.sql) [statement] ∧
      p = { id := Source.catalogId ⟨kind, row.name⟩, edition
            tokens := (terminate (Token.tokenize row.sql) statement).1
            objects := [{ key := ⟨kind, row.name⟩
                          statement := (terminate (Token.tokenize row.sql) statement).2
                          source := Source.catalogId ⟨kind, row.name⟩
                          edition }] } := by
  unfold ParsedSource.ofRow at h
  simp only [bind, Except.bind, pure, Except.pure] at h
  split at h
  · next kind hkind =>
    split at h
    · cases h
    · next hparse =>
      split at h <;> cases h
      next statement => exact ⟨kind, statement, hkind, Statement.parse_eq_ok hparse, rfl⟩
  · cases h

/-- A row is read if its kind is known and it holds one statement. -/
theorem ParsedSource.exists_ofRow {kind : ObjectKind} (hkind : ObjectKind.ofText? row.type = some kind)
    (h : Reading 0 (Token.tokenize row.sql) [statement]) (edition : Nat) :
    ∃ p, ParsedSource.ofRow edition row = .ok p := by
  unfold ParsedSource.ofRow
  simp only [hkind, Statement.parse_of_reading h]
  exact ⟨_, rfl⟩

/-- Ending a definition with a semicolon makes at most one token more, which belongs to it. -/
theorem span_terminate (h : statement.span.start < statement.span.stop)
    (h' : statement.span.stop ≤ tokens.length) :
    (terminate tokens statement).2.span.start < (terminate tokens statement).2.span.stop ∧
      (terminate tokens statement).2.span.stop ≤ (terminate tokens statement).1.length := by
  unfold terminate
  dsimp only
  split
  · exact ⟨h, h'⟩
  · simp only [Statement.span_withSpan, List.length_append, List.length_take, List.length_cons,
      List.length_drop]
    omega

namespace ParsedSource

/-- The source was read from a text or from a row of a catalog. -/
inductive IsReading : ParsedSource → Prop
  | text {edition : Nat} {id text : String} {p : ParsedSource} :
      ofText edition id text = .ok p → IsReading p
  | row {edition : Nat} {row : CatalogRow} {p : ParsedSource} :
      ofRow edition row = .ok p → IsReading p

/-- Every object points to some tokens of the source, and no token belongs to two objects. -/
structure Sound (p : ParsedSource) : Prop where
  source : ∀ o ∈ p.objects, o.source = p.id ∧ o.edition = p.edition
  inside : ∀ o ∈ p.objects, o.span.start < o.span.stop ∧ o.span.stop ≤ p.tokens.length
  apart : ∀ o ∈ p.objects, ∀ o' ∈ p.objects, o.key ≠ o'.key → o.span.Apart o'.span

theorem sound_of_ofText (h : ofText edition id text = .ok p) : p.Sound := by
  obtain ⟨statements, hreading, rfl⟩ := ofText_eq_ok h
  obtain ⟨hinside, hordered⟩ := hreading.spans
  have object {o : SchemaObject}
      (ho : o ∈ statements.filterMap (SchemaObject.ofStatement? id edition)) :
      o.statement ∈ statements ∧ o.source = id ∧ o.edition = edition := by
    obtain ⟨st, hst, ho⟩ := List.mem_filterMap.1 ho
    obtain ⟨key, -, rfl⟩ := Option.map_eq_some_iff.1 ho
    exact ⟨hst, rfl, rfl⟩
  constructor
  case source => exact fun o ho => (object ho).2
  case inside =>
    intro o ho
    obtain ⟨-, hlt, hle⟩ := hinside o.statement (object ho).1
    exact ⟨hlt, (Nat.zero_add _).subst hle⟩
  case apart =>
    intro o ho o' ho' hne
    have : Std.Symm fun a b : Statement => a.span.Apart b.span := ⟨fun _ _ h => h.symm⟩
    have hapart := hordered.imp (S := fun a b => a.span.Apart b.span) fun h => .inl h
    refine hapart.forall (object ho).1 (object ho').1 ?_
    -- Objects with one statement have one key.
    obtain ⟨st, -, ho⟩ := List.mem_filterMap.1 ho
    obtain ⟨st', -, ho'⟩ := List.mem_filterMap.1 ho'
    obtain ⟨key, hkey, rfl⟩ := Option.map_eq_some_iff.1 ho
    obtain ⟨key', hkey', rfl⟩ := Option.map_eq_some_iff.1 ho'
    rintro rfl
    exact hne (Option.some.inj (hkey.symm.trans hkey'))

theorem sound_of_ofRow (h : ofRow edition row = .ok p) : p.Sound := by
  obtain ⟨kind, statement, -, hreading, rfl⟩ := ofRow_eq_ok h
  obtain ⟨-, hlt, hle⟩ := hreading.spans.1 statement List.mem_cons_self
  constructor
  case source =>
    intro o ho
    obtain rfl := List.mem_singleton.1 ho
    exact ⟨rfl, rfl⟩
  case inside =>
    intro o ho
    obtain rfl := List.mem_singleton.1 ho
    exact span_terminate hlt ((Nat.zero_add _).subst hle)
  case apart =>
    intro o ho o' ho' hne
    obtain rfl := List.mem_singleton.1 ho
    obtain rfl := List.mem_singleton.1 ho'
    exact absurd rfl hne

theorem IsReading.sound (h : p.IsReading) : p.Sound := by
  cases h with
  | text h => exact sound_of_ofText h
  | row h => exact sound_of_ofRow h

end ParsedSource

end SchemaAlign
