import FirmwareTasks.Proofs.Sequence
import FirmwareTasks.SearchPath
/-!
Search paths as bytes and as lists of directories. Cutting a search path at its colons gives the
directories in front and those inherited, whatever these are called, but for the one search path
that has no directory at all.
-/
namespace FirmwareTasks

lemma Bytes.join_append {sep : UInt8} {ps qs : List Bytes} (hp : ps ≠ []) (hq : qs ≠ []) :
    join sep (ps ++ qs) = join sep ps ++ sep :: join sep qs := by
  induction ps with
  | nil => exact absurd rfl hp
  | cons p ps ih =>
    cases ps with
    | nil => exact join_cons_of_ne_nil sep p hq
    | cons next ps => simp [join, ← ih]

namespace Config

/-- The directory of the first entry with a name. -/
def FirstNamed (c : Config) (name : String) (dir : Path) : Prop :=
  ∃ before rest, c.paths = before ++ ⟨name, dir⟩ :: rest ∧ ∀ t ∈ before, t.name ≠ name

variable {c : Config} {name : String}

lemma pathDir_eq_ok_iff {dir : Path} : c.pathDir name = .ok dir ↔ c.FirstNamed name dir := by
  have hfind (t : ToolDir) : c.paths.find? (·.name = name) = some t ↔
      t.name = name ∧ ∃ before rest, c.paths = before ++ t :: rest ∧
        ∀ u ∈ before, u.name ≠ name := by
    simp [List.find?_eq_some_iff_append]
  unfold pathDir
  constructor
  · intro h
    split at h
    · rename_i t ht
      obtain ⟨rfl, before, rest, hpaths, hbefore⟩ := (hfind t).1 ht
      cases h
      exact ⟨before, rest, hpaths, hbefore⟩
    · cases h
  · rintro ⟨before, rest, hpaths, hbefore⟩
    rw [(hfind ⟨name, dir⟩).2 ⟨rfl, before, rest, hpaths, hbefore⟩]

lemma pathDir_eq_error_iff {e : Error} :
    c.pathDir name = .error e ↔ (∀ t ∈ c.paths, t.name ≠ name) ∧ e = .unknownPath name := by
  unfold pathDir
  split
  · rename_i t ht
    obtain ⟨ht, hmem⟩ := List.find?_eq_some_iff_append.1 ht
    have hname : t.name = name := by simpa using ht
    have hmem : t ∈ c.paths := by
      obtain ⟨before, rest, hpaths, -⟩ := hmem
      simp [hpaths]
    constructor
    · intro h; cases h
    · rintro ⟨h, -⟩; exact absurd hname (h t hmem)
  · rename_i hnone
    have hother : ∀ t ∈ c.paths, t.name ≠ name := by simpa using hnone
    constructor
    · intro h; cases h; exact ⟨hother, rfl⟩
    · rintro ⟨-, rfl⟩; rfl

lemma exists_firstNamed_iff : (∃ dir, c.FirstNamed name dir) ↔ ∃ t ∈ c.paths, t.name = name := by
  simp only [← pathDir_eq_ok_iff]
  cases h : c.pathDir name with
  | ok dir =>
    obtain ⟨before, rest, hpaths, -⟩ := pathDir_eq_ok_iff.1 h
    exact iff_of_true ⟨dir, rfl⟩ ⟨⟨name, dir⟩, by simp [hpaths], rfl⟩
  | error e =>
    have hother := (pathDir_eq_error_iff.1 h).1
    exact iff_of_false (by simp) fun ⟨t, ht, hname⟩ => hother t ht hname

lemma mapM_pathDir_eq_ok_iff {names : List String} {dirs : List Path} :
    names.mapM c.pathDir = .ok dirs ↔ List.Forall₂ c.FirstNamed names dirs := by
  simp only [Except.mapM_eq_ok_iff, pathDir_eq_ok_iff]

lemma mapM_pathDir_eq_error_iff {names : List String} {e : Error} :
    names.mapM c.pathDir = .error e ↔
      ∃ before name rest, names = before ++ name :: rest ∧
        (∀ n ∈ before, ∃ d, c.FirstNamed n d) ∧ (∀ t ∈ c.paths, t.name ≠ name) ∧
        e = .unknownPath name := by
  simp only [Except.mapM_eq_error_iff, pathDir_eq_ok_iff, pathDir_eq_error_iff]

end Config
namespace SearchPath

/-- The directories with colons between them, and the inherited search path behind them as it is. -/
def written (dirs : List Path) : Option Bytes → Bytes
  | none => Bytes.join colon (dirs.map (·.bytes))
  | some s => if dirs = [] then s else Bytes.join colon (dirs.map (·.bytes)) ++ colon :: s

/-- The directories of a search path with others in front. -/
def parts (dirs : List Path) (inherited : Option Bytes) : List Bytes :=
  dirs.map (·.bytes) ++ (inherited.map split).getD []

variable {dirs more : List Path} {inherited : Option Bytes}

lemma join_parts (dirs : List Path) (inherited : Option Bytes) :
    Bytes.join colon (parts dirs inherited) = written dirs inherited := by
  cases inherited with
  | none => simp [parts, written]
  | some s =>
    rw [written]
    split
    · rename_i h
      simp [parts, h, split]
    · rename_i h
      have hdirs : dirs.map (·.bytes) ≠ [] := by simpa using h
      change Bytes.join colon (dirs.map (·.bytes) ++ s.splitOn colon) = _
      rw [Bytes.join_append hdirs (Bytes.splitOn_ne_nil _ _), Bytes.join_splitOn]

lemma colon_mem_parts :
    (∃ part ∈ parts dirs inherited, colon ∈ part) ↔ ∃ d ∈ dirs, colon ∈ d.bytes := by
  constructor
  · rintro ⟨part, hpart, hcolon⟩
    rcases List.mem_append.1 hpart with h | h
    · obtain ⟨d, hd, rfl⟩ := List.mem_map.1 h
      exact ⟨d, hd, hcolon⟩
    · cases inherited with
      | none => simp at h
      | some s => exact absurd hcolon (Bytes.not_mem_of_mem_splitOn h)
  · rintro ⟨d, hd, hcolon⟩
    exact ⟨d.bytes, List.mem_append_left _ (List.mem_map_of_mem hd), hcolon⟩

/-- What comes of putting directories in front of an inherited search path. -/
theorem prepend_eq (dirs : List Path) (inherited : Option Bytes) :
    prepend dirs inherited =
      if ∃ d ∈ dirs, colon ∈ d.bytes then .error .searchPath else .ok (written dirs inherited) := by
  have hany : (parts dirs inherited).any (colon ∈ ·) = true ↔ ∃ d ∈ dirs, colon ∈ d.bytes := by
    simpa using colon_mem_parts
  change ofDirs (parts dirs inherited) = _
  rw [ofDirs, join_parts]
  by_cases h : ∃ d ∈ dirs, colon ∈ d.bytes
  · rw [if_pos h, if_pos (hany.2 h)]
  · rw [if_neg h, if_neg (mt hany.1 h)]

lemma prepend_eq_ok_iff {path : Bytes} : prepend dirs inherited = .ok path ↔
    (∀ d ∈ dirs, colon ∉ d.bytes) ∧ path = written dirs inherited := by
  rw [prepend_eq]
  by_cases h : ∃ d ∈ dirs, colon ∈ d.bytes
  · obtain ⟨d, hd, hcolon⟩ := h
    rw [if_pos ⟨d, hd, hcolon⟩]
    constructor
    · intro h; cases h
    · rintro ⟨h, -⟩; exact absurd hcolon (h d hd)
  · rw [if_neg h, Except.ok.injEq]
    constructor
    · intro hp
      exact ⟨fun d hd hcolon => h ⟨d, hd, hcolon⟩, hp.symm⟩
    · exact fun hp => hp.2.symm

lemma prepend_eq_error_iff {e : Error} : prepend dirs inherited = .error e ↔
    (∃ d ∈ dirs, colon ∈ d.bytes) ∧ e = .searchPath := by
  rw [prepend_eq]
  split <;> rename_i h <;> simp [h, eq_comm]

/-- Cutting at the colons undoes putting together. Only no directory at all comes back as one
without a name. -/
theorem split_of_prepend {path : Bytes} (h : prepend dirs inherited = .ok path)
    (hsome : dirs ≠ [] ∨ inherited ≠ none) : split path = parts dirs inherited := by
  obtain ⟨hcolon, rfl⟩ := prepend_eq_ok_iff.1 h
  rw [← join_parts]
  refine Bytes.splitOn_join ?_ ?_
  · rcases hsome with hdirs | hinherited
    · simp [parts, hdirs]
    · obtain ⟨s, rfl⟩ := Option.ne_none_iff_exists'.1 hinherited
      simp [parts, split, Bytes.splitOn_ne_nil]
  · intro part hpart hmem
    obtain ⟨d, hd, hin⟩ := colon_mem_parts.1 ⟨part, hpart, hmem⟩
    exact hcolon d hd hin

theorem prepend_append {path : Bytes} (h : prepend more inherited = .ok path)
    (hsome : more ≠ [] ∨ inherited ≠ none) :
    prepend (dirs ++ more) inherited = prepend dirs (some path) := by
  have hparts : parts (dirs ++ more) inherited = parts dirs (some path) := by
    simp [parts, split_of_prepend h hsome]
  change ofDirs (parts (dirs ++ more) inherited) = ofDirs (parts dirs (some path))
  rw [hparts]

lemma gccDirs_eq_error_iff {c : Config} {e : Error} : c.gccDirs = .error e ↔
    ∃ before name rest, c.project.gccPaths = before ++ name :: rest ∧
      (∀ n ∈ before, ∃ d, c.FirstNamed n d) ∧ (∀ t ∈ c.paths, t.name ≠ name) ∧
      e = .unknownPath name := Config.mapM_pathDir_eq_error_iff

lemma gccDirs_eq_ok_iff {c : Config} {dirs : List Path} :
    c.gccDirs = .ok dirs ↔ List.Forall₂ c.FirstNamed c.project.gccPaths dirs :=
  Config.mapM_pathDir_eq_ok_iff

/-- A search path is the directories in front of the inherited search path, byte for byte, unless a
directory has a colon in it; cutting it gives both lists of directories back, and groups of
directories can be put in front one after another. A profile stands for all tool directories, or for
the first of each name that the cross build asks for, of which the first unknown one is reported. -/
theorem search_path_is_dirs_before_inherited (c : Config) (dirs more : List Path)
    (inherited : Option Bytes) :
    (∀ e, prepend dirs inherited = .error e ↔
      (∃ d ∈ dirs, colon ∈ d.bytes) ∧ e = .searchPath) ∧
    (∀ path, prepend dirs inherited = .ok path ↔
      (∀ d ∈ dirs, colon ∉ d.bytes) ∧ path = written dirs inherited) ∧
    (∀ path, prepend dirs inherited = .ok path → dirs ≠ [] ∨ inherited ≠ none →
      split path = dirs.map (·.bytes) ++ (inherited.map split).getD []) ∧
    (∀ path, prepend more inherited = .ok path → more ≠ [] ∨ inherited ≠ none →
      prepend (dirs ++ more) inherited = prepend dirs (some path)) ∧
    ofProfile c inherited .full = prepend (c.paths.map (·.dir)) inherited ∧
    (∀ ds, List.Forall₂ c.FirstNamed c.project.gccPaths ds →
      ofProfile c inherited .gcc = prepend ds inherited) ∧
    (∀ before name rest, c.project.gccPaths = before ++ name :: rest →
      (∀ n ∈ before, ∃ d, c.FirstNamed n d) → (∀ t ∈ c.paths, t.name ≠ name) →
      ofProfile c inherited .gcc = .error (.unknownPath name)) ∧
    ((∃ ds, List.Forall₂ c.FirstNamed c.project.gccPaths ds) ∨
      ∃ before name rest, c.project.gccPaths = before ++ name :: rest ∧
        (∀ n ∈ before, ∃ d, c.FirstNamed n d) ∧ ∀ t ∈ c.paths, t.name ≠ name) := by
  refine ⟨fun _ => prepend_eq_error_iff, fun _ => prepend_eq_ok_iff, fun _ => split_of_prepend,
    fun _ => prepend_append, rfl, ?_, ?_, ?_⟩
  · intro ds hds
    have hdirs : Profile.gcc.dirs c = .ok ds := gccDirs_eq_ok_iff.2 hds
    rw [ofProfile, hdirs]
    rfl
  · intro before name rest hnames hbefore hname
    have hdirs : Profile.gcc.dirs c = .error (.unknownPath name) :=
      gccDirs_eq_error_iff.2 ⟨before, name, rest, hnames, hbefore, hname, rfl⟩
    rw [ofProfile, hdirs]
    rfl
  · cases hdirs : c.gccDirs with
    | ok ds => exact .inl ⟨ds, gccDirs_eq_ok_iff.1 hdirs⟩
    | error e =>
      obtain ⟨before, name, rest, hnames, hbefore, hname, -⟩ := gccDirs_eq_error_iff.1 hdirs
      exact .inr ⟨before, name, rest, hnames, hbefore, hname⟩

example : (prepend [.ofString "/opt/a", .ofString ""] (some (Utf8.encode ":/bin"))).map split =
    .ok (["/opt/a", "", "", "/bin"].map Utf8.encode) := by rfl

end SearchPath
end FirmwareTasks
