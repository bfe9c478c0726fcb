import SchemaAlign.FileTree.Path
import SchemaAlign.Placement

/-!
# Names in a directory

* `Path.IsName`: what a file in a directory can be called;
* `isName_of_mem_steps`: the last step of a path is such a name, unless it goes up;
* `parse_join`: the path of a file in a directory;
* `isName_stem`, `isSqlFile_stem`: the name of the file for an object.
-/

namespace SchemaAlign

namespace Text

variable {separator : Char} {cs ds part : List Char}

theorem fields_append (separator : Char) (cs ds : List Char) :
    fields separator (cs ++ separator :: ds) = fields separator cs ++ fields separator ds := by
  induction cs with
  | nil =>
    rw [List.nil_append, fields, fields]
    split
    · next hds => exact absurd hds (fields_ne_nil separator ds)
    · next first rest hds => rw [if_pos rfl, hds]; rfl
  | cons c cs ih =>
    rw [List.cons_append, fields, ih, fields]
    cases hcs : fields separator cs with
    | nil => exact absurd hcs (fields_ne_nil separator cs)
    | cons first rest => by_cases hc : c = separator <;> simp [hc]

theorem fields_of_not_mem (h : separator ∉ cs) : fields separator cs = [cs] := by
  induction cs with
  | nil => rfl
  | cons c cs ih =>
    obtain ⟨hc, hcs⟩ := not_or.1 (mt List.mem_cons.2 h)
    rw [fields, ih hcs]
    exact if_neg (Ne.symm hc)

/-- No part holds the separator. -/
theorem not_mem_of_mem_fields (h : part ∈ fields separator cs) : separator ∉ part := by
  induction cs generalizing part with
  | nil =>
    rw [fields, List.mem_singleton] at h
    rw [h]
    exact List.not_mem_nil
  | cons c cs ih =>
    rw [fields] at h
    split at h
    · next hcs => exact absurd hcs (fields_ne_nil separator cs)
    · next first rest hcs =>
      rw [hcs] at ih
      split at h
      · rcases List.mem_cons.1 h with rfl | h
        · exact List.not_mem_nil
        · exact ih h
      · next hc =>
        rcases List.mem_cons.1 h with rfl | h
        · rw [List.mem_cons, not_or]
          exact ⟨Ne.symm hc, ih List.mem_cons_self⟩
        · exact ih (List.mem_cons_of_mem _ h)

end Text

namespace Path

open Text

variable {name directory text : String}

/-- What a file in a directory can be called. -/
structure IsName (name : String) : Prop where
  ne_empty : name ≠ ""
  ne_dot : name ≠ "."
  ne_dots : name ≠ ".."
  slash : '/' ∉ name.toList

theorem isName_of_mem_steps (h : name ∈ (parse text).steps) (hdots : name ≠ "..") :
    IsName name := by
  simp only [parse, pieces, List.mem_filter, List.mem_map, decide_eq_true_eq] at h
  obtain ⟨⟨part, ⟨hpart, hnil⟩, rfl⟩, hdot⟩ := h
  refine ⟨fun hempty => hnil ?_, hdot, hdots, ?_⟩
  · simpa using congrArg String.toList hempty
  · rw [String.toList_ofList]
    exact not_mem_of_mem_fields hpart

theorem pieces_of_isName (h : IsName name) : pieces name = [name] := by
  have hne : name.toList ≠ [] := by simpa using h.ne_empty
  simp [pieces, fields_of_not_mem h.slash, hne]

theorem pieces_append (left right : List Char) :
    pieces (String.ofList (left ++ '/' :: right)) =
      pieces (String.ofList left) ++ pieces (String.ofList right) := by
  simp [pieces, fields_append]

/-- A path with a name more, with the slash between them. -/
theorem join_eq (directory name : String) (hdirectory : directory ≠ "") :
    ∃ front, pieces directory = pieces (String.ofList front) ∧
      directory.toList.head? = (front ++ ['/']).head? ∧
      join directory name = String.ofList (front ++ '/' :: name.toList) := by
  have hempty : directory.isEmpty = false := by simpa using hdirectory
  -- If the directory ends in a slash, it is this slash, and `front` is what stands before it.
  by_cases hslash : directory.toList.getLast? = some '/'
  · obtain ⟨front, hfront⟩ := List.getLast?_eq_some_iff.1 hslash
    have hdir : directory = String.ofList (front ++ ['/']) := by
      rw [← hfront, String.ofList_toList]
    refine ⟨front, ?_, by rw [hfront], ?_⟩
    · rw [hdir, pieces_append]
      simp [pieces, fields]
    · rw [join, if_pos (by simp [hslash])]
      refine String.toList_injective ?_
      simp [hfront]
  · refine ⟨directory.toList, by rw [String.ofList_toList], ?_, ?_⟩
    · cases hlist : directory.toList with
      | nil => exact absurd hlist (by simpa using hdirectory)
      | cons c cs => rfl
    · rw [join, if_neg (by simp [hempty, hslash])]
      refine String.toList_injective ?_
      simp [String.toList_append]

/-- The path of a file in a directory has one step more. -/
theorem parse_join (hdirectory : directory ≠ "") (h : IsName name) : parse (join directory name) =
    ⟨(parse directory).absolute, (parse directory).steps ++ [name], .plain⟩ := by
  obtain ⟨front, hpieces, hhead, hjoin⟩ := join_eq directory name hdirectory
  have hall : pieces (join directory name) = pieces directory ++ [name] := by
    rw [hjoin, pieces_append, ← hpieces, String.ofList_toList, pieces_of_isName h]
  have hne : name.toList ≠ [] := by simpa using h.ne_empty
  have hlast : (join directory name).toList.getLast? ≠ some '/' := by
    rw [hjoin, String.toList_ofList, List.append_cons, List.getLast?_append,
      List.getLast?_eq_some_getLast hne]
    exact fun hlast => h.slash (List.mem_of_getLast? ((List.getLast?_eq_some_getLast hne).trans hlast))
  have habsolute : isAbsolute (join directory name) = isAbsolute directory := by
    rw [isAbsolute, isAbsolute, hjoin, hhead, String.toList_ofList]
    cases front <;> rfl
  rw [parse, parse, hall, habsolute, List.filter_append]
  simp [h.ne_dot, hlast]

/-- A file in a directory is known by its name. -/
theorem join_injective {name' : String} (hdirectory : directory ≠ "") (h : IsName name)
    (h' : IsName name') (heq : join directory name = join directory name') : name = name' := by
  have hsteps := congrArg (fun path => (parse path).steps) heq
  simpa [parse_join hdirectory h, parse_join hdirectory h'] using hsteps

theorem isSqlFile_of_isName (h : IsName name) :
    isSqlFile name = (".sql".toList.isSuffixOf name.toList && name ≠ ".sql") := by
  have hsteps : (parse name).steps = [name] := by
    simp [parse, pieces_of_isName h, h.ne_dot]
  have hname : fileName? name = some name := by
    rw [fileName?, hsteps, List.getLast?_singleton]
    exact if_pos (by simpa using h.ne_dots)
  simp only [isSqlFile, hname]

/-- The name ends in `.sql`, even if nothing is before that. -/
def IsSqlName (name : String) : Prop :=
  ".sql".toList <:+ name.toList

theorem isSqlName_of_isSqlFile (h : IsName name) (hfile : isSqlFile name = true) :
    IsSqlName name := by
  rw [isSqlFile_of_isName h, Bool.and_eq_true] at hfile
  exact List.isSuffixOf_iff_suffix.1 hfile.1

theorem isSqlFile_iff_ne (h : IsName name) (hsql : IsSqlName name) :
    isSqlFile name = true ↔ name ≠ ".sql" := by
  rw [isSqlFile_of_isName h, Bool.and_eq_true, decide_eq_true_eq,
    List.isSuffixOf_iff_suffix.2 hsql]
  exact and_iff_right rfl

end Path

/-! ## The file for an object -/

namespace Placement

open SchemaAlign.Path

variable {name : String}

theorem not_mem_stem {c : Char} (hc : c = '/' ∨ c = '\x00') (name : String) :
    c ∉ (stem name).toList := by
  rw [stem, String.toList_ofList, List.mem_map]
  rintro ⟨d, -, hd⟩
  split at hd
  · rcases hc with rfl | rfl <;> cases hd
  · next hnot =>
    subst hd
    rcases hc with rfl | rfl <;> exact hnot rfl

theorem isName_stem (name : String) : IsName (stem name ++ ".sql") := by
  have hlen : 4 ≤ (stem name ++ ".sql").toList.length := by simp
  refine ⟨?_, ?_, ?_, ?_⟩
  · intro h; rw [h] at hlen; exact absurd hlen (by decide)
  · intro h; rw [h] at hlen; exact absurd hlen (by decide)
  · intro h; rw [h] at hlen; exact absurd hlen (by decide)
  · rw [String.toList_append, List.mem_append, not_or]
    exact ⟨not_mem_stem (.inl rfl) name, by decide⟩

theorem isSqlName_stem (name : String) : IsSqlName (stem name ++ ".sql") := by
  rw [IsSqlName, String.toList_append]
  exact List.suffix_append _ _

/-- Without a name, there is nothing before the end. -/
theorem stem_append_eq_iff : stem name ++ ".sql" = ".sql" ↔ name = "" := by
  constructor
  · intro heq
    have hlen := congrArg (fun s => s.toList.length) heq
    simp only [String.toList_append, List.length_append, stem, String.toList_ofList,
      List.length_map] at hlen
    simpa using List.length_eq_zero_iff.1 (show name.toList.length = 0 by simpa using hlen)
  · rintro rfl
    decide +kernel

theorem isSqlFile_stem : isSqlFile (stem name ++ ".sql") = true ↔ name ≠ "" :=
  (isSqlFile_iff_ne (isName_stem name) (isSqlName_stem name)).trans (not_congr stem_append_eq_iff)

end Placement

end SchemaAlign
