import SchemaAlign.Proofs.Schema.Loaded
import SchemaAlign.Proofs.Sync.Target

/-!
# Loading and writing schema files

* `Loaded`: a schema that was loaded from files;
* `loaded_of_readSchema`: loading the files of a target;
* `reload_foldlM`: loading files that say what a schema holds;
* `WrittenBack`: the files after sources were written to their places;
* `writtenBack_of_forM`: writing sources one after the other.
-/

namespace SchemaAlign

open Job (Gives gives_pure gives_bind gives_look gives_write not_gives_throw)
open Target (Site Present Fits loadFile)

variable {t t' t'' : FileTree} {s s' m r : Schema} {path id : String} {ids paths : List String}
  {target : Target}

/-! ## Loading -/

theorem gives_loadFile :
    Gives (loadFile s id) t s' t' ↔
      t' = t ∧ ∃ text n, t.read id = .ok text ∧ s.load 0 id text = (s', .ok n) := by
  rw [loadFile, gives_bind]
  constructor
  · rintro ⟨text, _, hlook, hload⟩
    obtain ⟨hread, rfl⟩ := gives_look.1 hlook
    split at hload
    · next n hok =>
      obtain ⟨rfl, rfl⟩ := gives_pure.1 hload
      exact ⟨rfl, text, n, hread, hok⟩
    · exact absurd hload not_gives_throw
  · rintro ⟨rfl, text, n, hread, hok⟩
    refine ⟨text, t', gives_look.2 ⟨hread, rfl⟩, ?_⟩
    rw [hok]
    exact gives_pure.2 ⟨rfl, rfl⟩

/-- `s` was loaded from the given files. -/
structure Loaded (t : FileTree) (ids : List String) (s : Schema) : Prop where
  consistent : s.Consistent
  changed : s.changed = []
  sources : ∀ id, (s.source? id).isSome = true ↔ id ∈ ids
  texts : ∀ id ∈ ids, ∃ text, t.read id = .ok text ∧ s.tokens? id = some (Token.tokenize text)

theorem loaded_empty (t : FileTree) : Loaded t [] .empty where
  consistent := Schema.consistent_empty
  changed := rfl
  sources id := by simp [Schema.empty, Schema.source?]
  texts := nofun

theorem Loaded.source?_eq_none (h : Loaded t ids s) (hid : id ∉ ids) : s.source? id = none := by
  rw [← Option.not_isSome_iff_eq_none, h.sources]
  exact hid

/-- One more file is loaded. -/
theorem Loaded.extended {text : String} {p : ParsedSource} (h : Loaded t ids s) (hid : id ∉ ids)
    (hread : t.read id = .ok text) (hp : ParsedSource.ofText 0 id text = .ok p)
    (hextended : s.Extended p s') : Loaded t (ids ++ [id]) s' := by
  obtain ⟨statements, -, rfl⟩ := ParsedSource.ofText_eq_ok hp
  have hsource := hextended.source? (h.source?_eq_none hid)
  refine ⟨hextended.consistent, hextended.changed.trans h.changed, fun id' => ?_,
    fun id' hid' => ?_⟩
  · rw [hsource, List.mem_append, List.mem_singleton, ← h.sources]
    by_cases heq : id' = id <;> simp [heq]
  · rw [Schema.tokens?, hsource]
    rcases List.mem_append.1 hid' with hid' | hid'
    · have hne : id' ≠ id := fun heq => hid (heq ▸ hid')
      rw [if_neg hne]
      exact h.texts id' hid'
    · obtain rfl := List.mem_singleton.1 hid'
      exact ⟨text, hread, by rw [if_pos rfl]; rfl⟩

/-- Files are loaded one after the other. What loading each of them preserves holds in the end. -/
theorem loaded_of_foldlM {P : Schema → Prop} (h : Loaded t ids s) (hnodup : (ids ++ paths).Nodup)
    (hP : P s) (hstep : ∀ id ∈ paths, ∀ text, t.read id = .ok text → ∀ s p s', s.Consistent →
      s.source? id = none → ParsedSource.ofText 0 id text = .ok p → s.Extended p s' → P s → P s')
    (hload : Gives (paths.foldlM loadFile s) t s' t') :
    t' = t ∧ Loaded t (ids ++ paths) s' ∧ P s' := by
  induction paths generalizing s ids with
  | nil =>
    obtain ⟨rfl, rfl⟩ := gives_pure.1 hload
    exact ⟨rfl, by rwa [List.append_nil], hP⟩
  | cons id paths ih =>
    obtain ⟨hfirst, hstep⟩ := List.forall_mem_cons.1 hstep
    obtain ⟨s₁, t₁, hfile, hrest⟩ := gives_bind.1 hload
    obtain ⟨rfl, text, n, hread, hok⟩ := gives_loadFile.1 hfile
    have hid : id ∉ ids := fun hmem =>
      (List.nodup_append.1 hnodup).2.2 id hmem id List.mem_cons_self rfl
    have hnone := h.source?_eq_none hid
    obtain ⟨p, hp, hextended⟩ := Schema.extended_of_load h.consistent hok hnone
    rw [List.append_cons] at hnodup ⊢
    exact ih (h.extended hid hread hp hextended) hnodup
      (hfirst text hread s p s₁ h.consistent hnone hp hextended hP) hstep hrest

/-- The sources of a target that are there are loaded. -/
theorem loaded_of_readSchema {P : Schema → Prop} (ht : t.WellFormed) (hfits : Fits t path target)
    (hP : P .empty) (hstep : ∀ ids, Gives target.sourcePaths t ids t → ∀ id ∈ ids,
      ∀ text, t.read id = .ok text → ∀ s p s', s.Consistent → s.source? id = none →
        ParsedSource.ofText 0 id text = .ok p → s.Extended p s' → P s → P s')
    (h : Gives target.readSchema t s t') :
    t' = t ∧ ∃ ids, (∀ id, id ∈ ids ↔ Present t target id) ∧ Loaded t ids s ∧ P s := by
  obtain ⟨ids, hpaths, hnodup, hids⟩ := Target.sourcePaths_of_fits ht hfits
  obtain ⟨_, _, hpaths', hload⟩ := gives_bind.1 h
  obtain ⟨heq, rfl⟩ := Prod.mk.inj (hpaths.symm.trans hpaths')
  cases heq
  obtain ⟨rfl, hloaded, hPs⟩ := loaded_of_foldlM (loaded_empty t) (by rwa [List.nil_append]) hP
    (hstep ids hpaths) hload
  exact ⟨rfl, ids, hids, hloaded, hPs⟩

/-- Files that say what `m` holds of their sources are loaded one after the other. -/
theorem reload_foldlM (hm : m.Consistent) (h : Schema.Reloaded m ids s)
    (hnodup : (ids ++ paths).Nodup)
    (hmirrors : ∀ id ∈ paths, ∃ text, t.read id = .ok text ∧ m.Mirrors id text) :
    ∃ r, Gives (paths.foldlM loadFile s) t r t ∧ Schema.Reloaded m (ids ++ paths) r := by
  induction paths generalizing s ids with
  | nil => exact ⟨s, gives_pure.2 ⟨rfl, rfl⟩, by rwa [List.append_nil]⟩
  | cons id paths ih =>
    obtain ⟨⟨text, hread, htext⟩, hmirrors⟩ := List.forall_mem_cons.1 hmirrors
    have hid : id ∉ ids := fun hmem =>
      (List.nodup_append.1 hnodup).2.2 id hmem id List.mem_cons_self rfl
    obtain ⟨s₁, n, hload, hs₁⟩ := h.load hm hid htext 0
    rw [List.append_cons] at hnodup ⊢
    obtain ⟨r, hrun, hr⟩ := ih hs₁ hnodup hmirrors
    exact ⟨r, gives_bind.2 ⟨s₁, t, gives_loadFile.2 ⟨rfl, text, n, hread, hload⟩, hrun⟩, hr⟩

/-! ## Writing -/

/-- The files after the given sources were written to their places. Other files stay as they
    were. -/
structure WrittenBack (t : FileTree) (target : Target) (s : Schema) (ids : List String)
    (t' : FileTree) : Prop where
  wellFormed : t'.WellFormed
  grows : t.Grows t'
  written : ∀ id ∈ ids, ∀ text, s.render? id = some text → ∀ parent name,
    Site t target id parent name → t'.Leads id parent name ∧
      t'.get? (parent ++ [name]) = some (.file (.text text))
  others : ∀ r, (∀ id ∈ ids, ∀ parent name, Site t target id parent name → parent ++ [name] ≠ r) →
    t'.get? r = t.get? r ∨ t.get? r = none ∧ t'.get? r = some .directory

theorem writtenBack_nil (ht : t.WellFormed) (target : Target) (s : Schema) :
    WrittenBack t target s [] t :=
  ⟨ht, .refl t, nofun, fun _ _ => .inl rfl⟩

/-- One source is written. -/
theorem writtenBack_of_writeSource {u : Unit} {parent : Route} {name : String}
    (ht : t.WellFormed) (hfits : Fits t path target) (hdevice : target.NoSqlDevice t)
    (hsite : Site t target id parent name) (h : Gives (writeSource s id) t u t') :
    WrittenBack t target s [id] t' := by
  rw [writeSource] at h
  split at h
  · next text htext =>
    obtain ⟨_, t₁, hparent, hwrite⟩ := gives_bind.1 h
    have hwidens := Job.widens_of_makeParent hparent
    have ht₁ := hwidens.wellFormed ht
    rw [gives_write] at hwrite
    have hsite₁ := hsite.grows hwidens.grows
    have hleads := hsite₁.leads_of_write hwrite
    obtain ⟨parent', name', hwritten⟩ := FileTree.written_of_write hwrite
    obtain ⟨rfl, rfl⟩ := hleads.written hwritten
    have hresult := hwritten.result
    rw [if_neg (hsite₁.ne_device (hdevice.grows hfits hwidens.grows))] at hresult
    -- Directories may have been made for it; apart from them, one file changes.
    have hget (r : Route) : t'.get? r =
        if r = parent' ++ [name'] then some (.file (.text text)) else t₁.get? r := by
      rw [hresult, FileTree.get?_put_append hwritten.isName]
    constructor
    case wellFormed => exact hwritten.wellFormed ht₁
    case grows => exact hwidens.grows.trans hwritten.grows
    case written =>
      intro id' hid' text' htext' parent₂ name₂ hsite₂
      obtain rfl := List.mem_singleton.1 hid'
      obtain ⟨rfl, hname⟩ := List.append_inj' ((hsite₂.eq_iff hsite).1 rfl) rfl
      cases hname
      cases htext.symm.trans htext'
      exact ⟨hleads.grows hwritten.grows, by rw [hget, if_pos rfl]⟩
    case others =>
      intro r hr
      rw [hget, if_neg fun heq => hr id List.mem_cons_self _ _ hsite heq.symm]
      exact hwidens.get? r
  · next hnone =>
    obtain ⟨-, rfl⟩ := gives_pure.1 h
    refine ⟨ht, .refl t', fun id' hid' text htext => ?_, fun _ _ => .inl rfl⟩
    obtain rfl := List.mem_singleton.1 hid'
    exact absurd htext (hnone text)

/-- One source is written after the other. -/
theorem WrittenBack.cons (h : WrittenBack t target s [id] t') (h' : WrittenBack t' target s ids t'')
    (hsites : ∀ id' ∈ ids, ∃ parent name, Site t target id' parent name) :
    WrittenBack t target s (id :: ids) t'' := by
  constructor
  case wellFormed => exact h'.wellFormed
  case grows => exact h.grows.trans h'.grows
  case written =>
    intro id' hid' text htext parent name hsite
    have hsite' := hsite.grows h.grows
    by_cases hmem : id' ∈ ids
    · exact h'.written id' hmem text htext parent name hsite'
    · -- What was written first is not overwritten: it has a site of its own.
      obtain rfl := (List.mem_cons.1 hid').resolve_right hmem
      obtain ⟨hleads, hget⟩ := h.written id' List.mem_cons_self text htext parent name hsite
      refine ⟨hleads.grows h'.grows, ?_⟩
      rcases h'.others (parent ++ [name]) fun id₂ hid₂ parent₂ name₂ hsite₂ heq => hmem
        ((hsite₂.eq_iff hsite').2 heq ▸ hid₂) with heq | ⟨hnone, -⟩
      · rw [heq, hget]
      · rw [hget] at hnone
        cases hnone
  case others =>
    intro r hr
    obtain ⟨hid, hids⟩ := List.forall_mem_cons.1 hr
    have hr' : ∀ id' ∈ ids, ∀ parent name, Site t' target id' parent name →
        parent ++ [name] ≠ r := by
      intro id' hid' parent name hsite
      obtain ⟨parent₀, name₀, hsite₀⟩ := hsites id' hid'
      rw [(hsite.eq_iff (hsite₀.grows h.grows)).1 rfl]
      exact hids id' hid' parent₀ name₀ hsite₀
    rcases h.others r (List.forall_mem_singleton.2 hid) with heq | ⟨hnone, hdir⟩ <;>
      rcases h'.others r hr' with heq' | ⟨hnone', hdir'⟩
    · exact .inl (heq'.trans heq)
    · exact .inr ⟨heq ▸ hnone', hdir'⟩
    · exact .inr ⟨hnone, heq'.trans hdir⟩
    · rw [hdir] at hnone'
      cases hnone'

theorem writtenBack_of_forM {u : PUnit} (ht : t.WellFormed) (hfits : Fits t path target)
    (hdevice : target.NoSqlDevice t)
    (hsites : ∀ id ∈ ids, ∃ parent name, Site t target id parent name)
    (h : Gives (ids.forM (writeSource s)) t u t') : WrittenBack t target s ids t' := by
  induction ids generalizing t with
  | nil =>
    obtain ⟨-, rfl⟩ := gives_pure.1 h
    exact writtenBack_nil ht target s
  | cons id ids ih =>
    obtain ⟨⟨parent, name, hsite⟩, hsites⟩ := List.forall_mem_cons.1 hsites
    obtain ⟨_, t₁, hfirst, hrest⟩ := gives_bind.1 h
    have hfirst' := writtenBack_of_writeSource ht hfits hdevice hsite hfirst
    have hgrows := hfirst'.grows
    refine hfirst'.cons (ih hfirst'.wellFormed (hfits.grows hgrows) (hdevice.grows hfits hgrows)
      (fun id' hid' => ?_) hrest) hsites
    obtain ⟨parent', name', hsite'⟩ := hsites id' hid'
    exact ⟨parent', name', hsite'.grows hgrows⟩

end SchemaAlign
