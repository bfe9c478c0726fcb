import SchemaAlign.Proofs.Parser.Reading

/-!
# Blanks and comments put between tokens

A blank or a comment more between the tokens of a text makes a gap wider and moves what is behind
it. Most rules of the grammar do not look at the gaps, so to them it makes no difference.

* `Gap.insert`, `Span.insert`, `Stream.insert`: what one more token changes;
* `insert_ofTokens`: the stream of the longer list;
* `Blind`: parsers that do not look at the gaps;
* `Blind.bind`, `blind_phrase?`, …: such parsers combine.
-/

namespace SchemaAlign

/-- The span of the same tokens when one more is put in at the position `k`. -/
def Span.insert (k : Nat) (s : Span) : Span :=
  ⟨if k ≤ s.start then s.start + 1 else s.start, if k < s.stop then s.stop + 1 else s.stop⟩

namespace Parser

open SchemaAlign.Parser.Stream (ofTokens)

variable {α β : Type} {s r : Stream} {k n : Nat} {t w : Token} {us vs : List Token}

/-! ## One more token -/

/-- The gap when the token `w` is put in at the position `k`. -/
def Gap.insert (k : Nat) (w : Token) (g : Gap) : Gap :=
  if k < g.start then ⟨g.start + 1, g.trivia⟩
  else if k ≤ g.stop then
    ⟨g.start, g.trivia.take (k - g.start) ++ w :: g.trivia.drop (k - g.start)⟩
  else g

theorem Gap.start_insert (g : Gap) :
    (g.insert k w).start = if k < g.start then g.start + 1 else g.start := by
  unfold insert
  split
  · rfl
  · split <;> rfl

theorem Gap.stop_insert (g : Gap) :
    (g.insert k w).stop = if k ≤ g.stop then g.stop + 1 else g.stop := by
  have hle := g.start_le_stop
  unfold insert
  split
  · rw [if_pos (by omega)]
    exact Nat.succ_add _ _
  split
  · simp only [stop, List.length_append, List.length_cons, List.length_take, List.length_drop] at *
    omega
  · rfl

/-- The stream with other gaps. -/
def Stream.mapGap (φ : Gap → Gap) : Stream → Stream
  | done g => done (φ g)
  | item g t rest => item (φ g) t (rest.mapGap φ)

/-- The stream when the token `w` is put in at the position `k`. -/
def Stream.insert (k : Nat) (w : Token) (s : Stream) : Stream :=
  s.mapGap (Gap.insert k w)

namespace Stream

variable {φ : Gap → Gap}

@[simp] theorem gap_mapGap (s : Stream) : (s.mapGap φ).gap = φ s.gap := by
  cases s <;> rfl

@[simp] theorem head?_mapGap (s : Stream) : (s.mapGap φ).head? = s.head? := by
  cases s <;> rfl

@[simp] theorem size_mapGap (s : Stream) : (s.mapGap φ).size = s.size := by
  induction s with
  | done => rfl
  | item g t rest ih => rw [mapGap, size, size, ih]

theorem tail_mapGap (s : Stream) : (s.mapGap φ).tail = s.tail.mapGap φ := by
  cases s <;> rfl

@[simp] theorem gap_insert (s : Stream) : (s.insert k w).gap = s.gap.insert k w :=
  gap_mapGap s

end Stream

/-- The tokens that a parser reads are those of the moved span. -/
theorem span_insert (s r : Stream) :
    (⟨(s.insert k w).gap.stop, (r.insert k w).gap.start⟩ : Span) =
      Span.insert k ⟨s.gap.stop, r.gap.start⟩ := by
  rw [Stream.gap_insert, Stream.gap_insert, Gap.stop_insert, Gap.start_insert]
  rfl

/-- Behind the place, everything is moved. -/
theorem insert_ofTokens_of_lt (h : k < n) (vs : List Token) :
    (ofTokens n vs).insert k w = ofTokens (n + 1) vs := by
  have moved {m : Nat} (hm : k < m) (x : List Token) :
      Gap.insert k w ⟨m, x⟩ = ⟨m + 1, x⟩ := if_pos hm
  induction vs using significant_induction generalizing n with
  | trivia x hx =>
    rw [ofTokens_trivia n hx, ofTokens_trivia _ hx, Stream.insert, Stream.mapGap, moved h]
  | item x t vs hx ht ih =>
    rw [ofTokens_append n hx ht, ofTokens_append _ hx ht, Stream.insert, Stream.mapGap, moved h]
    have hrest := ih (n := n + x.length + 1) (by omega)
    rw [Stream.insert] at hrest
    rw [hrest]
    congr 2
    omega

/-- The stream of a list with one more blank or comment in it. -/
theorem insert_ofTokens (n : Nat) (hw : w.isTrivia = true) (us vs : List Token) :
    (ofTokens n (us ++ vs)).insert (n + us.length) w = ofTokens n (us ++ w :: vs) := by
  induction us using significant_induction generalizing n with
  | trivia x hx =>
    have hwx {y : List Token} (hy : Trivia y) : Trivia (x ++ w :: y) :=
      hx.append (List.forall_mem_cons.2 ⟨hw, hy⟩)
    have widened (y : List Token) :
        Gap.insert (n + x.length) w ⟨n, x ++ y⟩ = ⟨n, x ++ w :: y⟩ := by
      rw [Gap.insert, if_neg (by simp), if_pos (by simp [Gap.stop])]
      simp
    -- The gap goes on behind the place, up to the end or to the next significant token.
    obtain hvs | ⟨y, t, vs, rfl, hy, ht⟩ := trivia_or vs
    · rw [ofTokens_trivia n (hx.append hvs), ofTokens_trivia n (hwx hvs), Stream.insert,
        Stream.mapGap, widened]
    · rw [← List.append_assoc, ofTokens_append n (hx.append hy) ht, Stream.insert, Stream.mapGap,
        widened, ← List.cons_append, ← List.append_assoc, ofTokens_append n (hwx hy) ht]
      have hrest := insert_ofTokens_of_lt (w := w)
        (show n + x.length < n + (x ++ y).length + 1 by simp only [List.length_append]; omega) vs
      rw [Stream.insert] at hrest
      rw [hrest]
      congr 2
      simp only [List.length_append, List.length_cons]
      omega
  | item x t us hx ht ih =>
    -- The place is behind the first item, whose gap stays as it is.
    have hrest := ih (n + x.length + 1)
    have hplace : n + (x ++ t :: us).length = n + x.length + 1 + us.length := by
      simp only [List.length_append, List.length_cons]
      omega
    have kept : Gap.insert (n + x.length + 1 + us.length) w ⟨n, x⟩ = ⟨n, x⟩ := by
      rw [Gap.insert, if_neg (by dsimp only; omega), if_neg (by simp only [Gap.stop]; omega)]
    rw [Stream.insert] at hrest
    rw [List.append_assoc, List.append_assoc, List.cons_append, List.cons_append,
      ofTokens_append n hx ht, ofTokens_append n hx ht, hplace, Stream.insert, Stream.mapGap, kept,
      hrest]

/-! ## Parsers that do not look at the gaps -/

/-- What the parser reads, it reads whatever the gaps are. -/
def Blind (p : Parser α) : Prop :=
  ∀ φ s a r, p s = .ok (a, r) → p (s.mapGap φ) = .ok (a, r.mapGap φ)

theorem Blind.insert {p : Parser α} {a : α} (hp : Blind p) (h : p s = .ok (a, r)) :
    p (s.insert k w) = .ok (a, r.insert k w) :=
  hp _ _ _ _ h

theorem Blind.pure {a : α} : Blind (pure a) := by
  rintro φ s _ _ ⟨⟩
  rfl

theorem Blind.bind {p : Parser α} {f : α → Parser β} (hp : Blind p) (hf : ∀ a, Blind (f a)) :
    Blind (p >>= f) := by
  intro φ s b r h
  obtain ⟨a, s₁, ha, hb⟩ := bind_eq_ok h
  rw [run_bind, hp _ _ _ _ ha]
  exact hf a _ _ _ _ hb

theorem Blind.bind_option {p : Parser (Option α)} {f : Option α → Parser β} (hp : Blind p)
    (hnone : Blind (f none)) (hsome : ∀ a, Blind (f (some a))) : Blind (p >>= f) :=
  hp.bind fun
    | none => hnone
    | some a => hsome a

theorem Blind.ite {p : Parser Bool} {q q' : Parser α} (hp : Blind p) (hq : Blind q)
    (hq' : Blind q') : Blind (do if ← p then q else q') :=
  hp.bind fun b => by cases b <;> assumption

theorem blind_fail (fault : Fault) : Blind (fail fault : Parser α) :=
  fun _ _ _ _ h => nomatch h

theorem Blind.rounds {p : Parser (Round α)} (hp : Blind p) : Blind (rounds p) := by
  intro φ s as r h
  fun_induction Parser.rounds p s generalizing as with
  | case1 => cases h
  | case2 s rest hs =>
    cases h
    rw [Parser.rounds, hp _ _ _ _ hs]
  | case3 s a rest hs =>
    cases h
    rw [Parser.rounds, hp _ _ _ _ hs]
  | case4 => cases h
  | case5 s a rest hs hlt as rest' hr ih =>
    cases h
    rw [Parser.rounds, hp _ _ _ _ hs]
    simp only [Stream.size_mapGap, hlt, if_true, ih _ hr]
  | case6 s a rest hs hlt =>
    cases h
    rw [Parser.rounds, hp _ _ _ _ hs]
    simp only [Stream.size_mapGap, hlt, if_false]

theorem Blind.many {p : Parser (Option α)} (hp : Blind p) : Blind (many p) :=
  Blind.rounds (hp.bind_option .pure fun _ => .pure)

theorem Blind.commaSeparated {p : Parser α} (hp : Blind p) (hcomma : Blind (punct? ",")) :
    Blind (commaSeparated p) :=
  Blind.rounds (hp.bind fun _ => hcomma.ite .pure .pure)

/-! ### Words and marks -/

theorem blind_nextIs (p : Token → Bool) : Blind (nextIs p) := by
  rintro φ s _ _ ⟨⟩
  simp only [nextIs, Stream.headIs, run_bind, run_get, run_pure, Stream.head?_mapGap]

theorem afterPhrase?_mapGap (φ : Gap → Gap) (ks : List String) (s : Stream) :
    (s.mapGap φ).afterPhrase? ks = (s.afterPhrase? ks).map (·.mapGap φ) := by
  induction ks generalizing s with
  | nil => rfl
  | cons k ks ih =>
    cases s with
    | done => rfl
    | item g t rest =>
      rw [Stream.mapGap, Stream.afterPhrase?, Stream.afterPhrase?]
      split
      · exact ih rest
      · rfl

theorem blind_phrase? (ks : List String) : Blind (phrase? ks) := by
  intro φ s b r h
  unfold phrase? at h ⊢
  rw [afterPhrase?_mapGap]
  split at h <;> cases h
  · next hs => rw [hs]; rfl
  · next hs => rw [hs]; rfl

theorem blind_keyword? (k : String) : Blind (keyword? k) :=
  blind_phrase? [k]

theorem blind_punct? (mark : String) : Blind (punct? mark) := by
  intro φ s b r h
  cases s with
  | done => cases h; rfl
  | item g t rest =>
    simp only [punct?, Stream.mapGap] at h ⊢
    split at h <;> cases h
    · next ht => rw [if_pos ht]
    · next ht => rw [if_neg ht]; rfl

theorem blind_name? : Blind name? := by
  intro φ s b r h
  cases s with
  | done => cases h; rfl
  | item g t rest =>
    simp only [name?, Stream.mapGap] at h ⊢
    split at h <;> cases h
    · rfl
    · rfl

theorem blind_choose (choices : List (List String × α)) : Blind (choose choices) := by
  induction choices with
  | nil => exact .pure
  | cons choice choices ih => exact (blind_phrase? choice.1).ite .pure ih

theorem blind_expectKeyword (k : String) (fault : Fault) : Blind (expectKeyword k fault) :=
  (blind_keyword? k).ite .pure (blind_fail fault)

theorem blind_expectPunct (mark : String) (fault : Fault) : Blind (expectPunct mark fault) :=
  (blind_punct? mark).ite .pure (blind_fail fault)

theorem blind_expectName (fault : Fault) : Blind (expectName fault) :=
  blind_name?.bind_option (blind_fail fault) fun _ => .pure

/-! ### Rules without expressions -/

theorem blind_conflict? : Blind conflict? := by
  refine (blind_phrase? _).ite ?_ .pure
  exact (blind_choose _).bind_option (blind_fail _) fun _ => .pure

theorem blind_keyEffect : Blind keyEffect := by
  refine (blind_keyword? _).ite ?_ ((blind_keyword? _).ite ?_ ?_)
  · exact (blind_choose _).bind_option (blind_fail _) fun _ => .pure
  · exact (blind_expectKeyword _ _).bind fun _ => .pure
  · exact (blind_choose _).bind_option (blind_fail _) fun _ => .pure

theorem blind_keyAction? : Blind keyAction? := by
  have check : Blind keyCheck? := by
    refine (blind_keyword? _).ite ?_ .pure
    exact (blind_choose _).bind_option (blind_fail _) fun _ => .pure
  refine (blind_choose _).bind_option ?_ fun event => ?_
  · refine (blind_keyword? _).ite ?_ ?_
    · exact (blind_expectName _).bind fun _ => .pure
    · exact (blind_choose _).bind_option .pure fun negated => check.bind fun _ => .pure
  · exact blind_keyEffect.bind fun _ => .pure

theorem blind_foreignKey : Blind foreignKey := by
  have columns : Blind keyColumns := by
    refine (blind_punct? _).ite ?_ .pure
    refine (Blind.commaSeparated (blind_expectName _) (blind_punct? _)).bind fun names => ?_
    exact (blind_expectPunct _ _).bind fun _ => .pure
  refine (blind_expectName _).bind fun table => columns.bind fun columns => ?_
  exact blind_keyAction?.many.bind fun actions => .pure

theorem blind_primaryKey : Blind primaryKey := by
  refine (blind_expectKeyword _ _).bind fun _ => (blind_choose _).bind fun order => ?_
  exact blind_conflict?.bind fun conflict => (blind_keyword? _).bind fun _ => .pure

theorem blind_constraintName? : Blind constraintName? := by
  refine (blind_keyword? _).ite ?_ .pure
  exact (blind_expectName _).bind fun _ => .pure

theorem cutWhile_mapGap (φ : Gap → Gap) (p : Token → Bool) (s : Stream) :
    (s.mapGap φ).cutWhile p = ((s.cutWhile p).1, (s.cutWhile p).2.mapGap φ) := by
  induction s with
  | done => rfl
  | item g t rest ih =>
    simp only [Stream.mapGap, Stream.cutWhile]
    split
    · rw [ih]
    · rfl

theorem blind_typeWords : Blind typeWords := by
  rintro φ s _ _ ⟨⟩
  simp only [typeWords, cutWhile_mapGap]

theorem blind_ifNotExists : Blind ifNotExists := by
  refine (blind_keyword? _).ite ?_ .pure
  exact (blind_expectKeyword _ _).bind fun _ => (blind_expectKeyword _ _).bind fun _ => .pure

theorem blind_tableName : Blind tableName := by
  refine (blind_expectName _).bind fun name => (blind_punct? _).ite ?_ .pure
  exact (blind_expectName _).bind fun _ => .pure

theorem cutStatement_mapGap (φ : Gap → Gap) (n : Nesting) (s : Stream) :
    (s.mapGap φ).cutStatement n = ((s.cutStatement n).1, (s.cutStatement n).2.mapGap φ) := by
  induction s generalizing n with
  | done => rfl
  | item g t rest ih =>
    simp only [Stream.mapGap, Stream.cutStatement]
    split
    · rfl
    · rw [ih]

end Parser

end SchemaAlign
