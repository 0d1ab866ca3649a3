import FirmwareTasks.Proofs.Config.Described
import FirmwareTasks.Proofs.Toml.Writing
/-!
A configuration can be written as a document, in which every field stands in its section and every
key and text in quotes. What is read from it is the configuration again, with the built-in tools
that it did not have itself.
-/
namespace FirmwareTasks
open Toml Decode

def Project.written (p : Project) : List (String × Written) :=
  [("name", .ofText p.name),
    ("toolchain_file", .ofText p.toolchainFile),
    ("generator", .ofText p.generator),
    ("jobs", .ofNat p.jobs),
    ("build_tool", .ofText p.buildTool),
    ("gcc_paths", .ofList (p.gccPaths.map .ofText)),
    ("doxyfile", .ofText p.doxyfile),
    ("doc_version", .ofText p.docVersion),
    ("python", .ofText p.python),
    ("junit_script", .ofText p.junitScript.text),
    ("junit_report", .ofText p.junitReport)]

def Layout.written (l : Layout) : List (String × Written) :=
  [("build_dir", .ofText l.buildDir.text),
    ("coverage_dir", .ofText l.coverageDir.text),
    ("unittest_dir", .ofText l.unittestDir.text),
    ("artifacts_dir", .ofText l.artifactsDir.text),
    ("doxy_out_dir", .ofText l.doxyOutDir.text),
    ("doxy_conf_dir", .ofText l.doxyConfDir.text),
    ("doxy_xml_dir", .ofText l.doxyXmlDir.text),
    ("sphinx_source_dir", .ofText l.sphinxSourceDir.text),
    ("sphinx_out_dir", .ofText l.sphinxOutDir.text),
    ("sphinx_stale_dir", .ofText l.sphinxStaleDir.text),
    ("ci_prefix", .ofText l.ciPrefix.text)]

def CiDetection.written (c : CiDetection) : List (String × Written) :=
  [("env", .ofText c.envName), ("value", .ofText c.value)]

def ToolDir.written (t : ToolDir) : List (String × Written) :=
  [("name", .ofText t.name), ("dir", .ofText t.dir.text)]

def Table.written (t : Table) : List (String × Written) :=
  t.toList.map fun e => (e.1, .ofText e.2)

namespace Config

/-- The document of a configuration: the tool directories first, and then a table for each
section. -/
def draft (c : Config) : Draft where
  pairs := [("path", .ofList (c.paths.map fun t => .ofPairs t.written))]
  tables :=
    [("project", c.project.written),
      ("layout", c.layout.written),
      ("ci", c.ci.written),
      ("make", Table.written c.make),
      ("tools", Table.written c.tools)]

def render (c : Config) : String := c.draft.text

def heldPaths (c : Config) : List Path :=
  c.project.junitScript :: (c.layout.dirs ++ c.paths.map (·.dir))

end Config

section Parts
variable {σ : Type} {slots : List (Slot σ)} {ps : List (String × Written)} {base x : σ}

lemma follows_written (hkeys : UniqueKeys (Written.values ps))
    (h : List.Forall₂ (fun a p => a.key = p.1 ∧ a.Means p.2.value (a.get x)) slots ps) :
    ∀ a ∈ slots, a.Follows (Written.values ps) base x := by
  intro a ha
  obtain ⟨i, hi, rfl⟩ := List.mem_iff_getElem.1 ha
  have hi' : i < ps.length := h.length_eq ▸ hi
  obtain ⟨hkey, hmeans⟩ := h.get hi hi'
  have hlookup : (Written.values ps).lookup slots[i].key = some ps[i].2.value := by
    refine hkeys.lookup_eq_some_iff.2 (List.mem_map.2 ⟨ps[i], List.getElem_mem hi', ?_⟩)
    exact congrArg (·, ps[i].2.value) hkey.symm
  rw [Slot.Follows, hlookup]
  exact hmeans

section Keys
variable (p : Project) (l : Layout) (c : CiDetection) (t : ToolDir) (table : Table)

lemma uniqueKeys_project : UniqueKeys (Written.values p.written) := by
  simp [UniqueKeys, Written.values, Project.written]

lemma uniqueKeys_layout : UniqueKeys (Written.values l.written) := by
  simp [UniqueKeys, Written.values, Layout.written]

lemma uniqueKeys_ci : UniqueKeys (Written.values c.written) := by
  simp [UniqueKeys, Written.values, CiDetection.written]

lemma uniqueKeys_toolDir : UniqueKeys (Written.values t.written) := by
  simp [UniqueKeys, Written.values, ToolDir.written]

lemma uniqueKeys_toList : UniqueKeys table.toList := by
  rw [UniqueKeys, List.Nodup, List.pairwise_map]
  refine Std.ExtTreeMap.distinct_keys_toList.imp fun h heq => h ?_
  rw [heq]
  exact Std.ReflCmp.compare_self

lemma values_written :
    Written.values (Table.written table) = table.toList.map fun e => (e.1, .text e.2) := by
  simp [Written.values, Table.written, Written.ofText]

lemma uniqueKeys_table : UniqueKeys (Written.values (Table.written table)) := by
  rw [values_written]
  exact uniqueKeys_map_snd.2 (uniqueKeys_toList table)

end Keys

lemma isPath_text {p : Path} (h : ∃ s, p = .ofString s) : IsPath (.text p.text) p := by
  obtain ⟨s, rfl⟩ := h
  exact ⟨s, by rw [Path.text_ofString], rfl⟩

lemma project_follows_written {p : Project} (hjobs : p.jobs < 4294967296)
    (hscript : ∃ s, p.junitScript = .ofString s) :
    ∀ a ∈ projectSlots, a.Follows (Written.values p.written) .builtIn p := by
  refine follows_written (uniqueKeys_project p) ?_
  simp [projectSlots, Project.written, Written.ofText, Written.ofNat, Written.ofList, IsText,
    IsCount, IsList, isPath_text hscript, hjobs]

lemma layout_follows_written {l : Layout} (h : ∀ p ∈ l.dirs, ∃ s, p = .ofString s) :
    ∀ a ∈ layoutSlots, a.Follows (Written.values l.written) .builtIn l := by
  have hpath (p) (hp : p ∈ l.dirs) : IsPath (.text p.text) p := isPath_text (h p hp)
  simp only [Layout.dirs, List.forall_mem_cons] at hpath
  refine follows_written (uniqueKeys_layout l) ?_
  simp [layoutSlots, Layout.written, Written.ofText, hpath]

lemma ci_follows_written (c : CiDetection) :
    ∀ a ∈ ciSlots, a.Follows (Written.values c.written) .builtIn c := by
  refine follows_written (uniqueKeys_ci c) ?_
  simp [ciSlots, CiDetection.written, Written.ofText, IsText]

lemma isToolDir_written {t : ToolDir} (h : ∃ s, t.dir = .ofString s) :
    IsToolDir (Written.ofPairs t.written).value t :=
  ⟨_, rfl, ⟨_, rfl, rfl⟩, _, rfl, isPath_text h⟩

lemma isToolDirs_written {l : List ToolDir} (h : ∀ t ∈ l, ∃ s, t.dir = .ofString s) :
    IsList IsToolDir (Written.ofList (l.map fun t => .ofPairs t.written)).value l := by
  refine ⟨_, rfl, ?_⟩
  rw [List.map_map, List.forall₂_map_left_iff, List.forall₂_same]
  exact fun t ht => isToolDir_written (h t ht)

lemma lookup_toList (t : Table) (key : String) : t.toList.lookup key = t[key]? := by
  ext v
  rw [(uniqueKeys_toList t).lookup_eq_some_iff, Std.ExtTreeMap.mem_toList_iff_getElem?_eq_some]

lemma isMerged_written (base t : Table) :
    IsMerged base (.table (Written.values (Table.written t))) (overlay base t.toList) :=
  ⟨t.toList, .inl (by rw [values_written]), getElem?_overlay base (uniqueKeys_toList t)⟩

end Parts

namespace Config
variable {c : Config}

/-- The configuration with the built-in tools that it does not have itself. -/
def completed (c : Config) : Config :=
  { c with
    make := overlay builtIn.make c.make.toList
    tools := overlay builtIn.tools c.tools.toList }

theorem describes_draft (hjobs : c.project.jobs < 4294967296)
    (hpaths : ∀ p ∈ c.heldPaths, ∃ s, p = .ofString s) : Describes c.draft.values c.completed := by
  simp only [heldPaths, List.forall_mem_cons, List.forall_mem_append, List.forall_mem_map] at hpaths
  obtain ⟨hscript, hlayout, hdirs⟩ := hpaths
  refine ⟨project_follows_written hjobs hscript, layout_follows_written hlayout,
    ci_follows_written c.ci, ?_⟩
  simp only [wholeSlots, List.forall_mem_cons]
  exact ⟨isToolDirs_written hdirs, isMerged_written _ _, isMerged_written _ _, by simp⟩

lemma sectioned_draft (c : Config) : Sectioned c.draft.values where
  project v hv := by cases hv; exact ⟨_, rfl⟩
  layout v hv := by cases hv; exact ⟨_, rfl⟩
  ci v hv := by cases hv; exact ⟨_, rfl⟩
  path items hitems i hi := by
    cases hitems
    rw [List.map_map, List.mem_map] at hi
    obtain ⟨t, -, rfl⟩ := hi
    exact ⟨_, rfl⟩

lemma reads_project {p : Project} (hjobs : p.jobs < 4294967296) :
    ∀ e ∈ p.written, e.2.Reads depthLimit := by
  have hnumber : (Written.ofNat p.jobs).Reads depthLimit := Written.reads_ofNat _ (by omega)
  have hnames : (Written.ofList (p.gccPaths.map .ofText)).Reads depthLimit :=
    Written.reads_ofList (List.forall_mem_map.2 fun s _ => Written.reads_ofText 78 s)
  simp [Project.written, Written.reads_ofText, hnumber, hnames]

lemma reads_layout (l : Layout) : ∀ e ∈ l.written, e.2.Reads depthLimit := by
  simp [Layout.written, Written.reads_ofText]

lemma reads_ci (c : CiDetection) : ∀ e ∈ c.written, e.2.Reads depthLimit := by
  simp [CiDetection.written, Written.reads_ofText]

lemma reads_table (t : Table) : ∀ e ∈ Table.written t, e.2.Reads depthLimit := by
  exact List.forall_mem_map.2 fun e _ => Written.reads_ofText _ _

lemma reads_toolDirs (l : List ToolDir) :
    (Written.ofList (l.map fun t => .ofPairs t.written)).Reads depthLimit := by
  refine Written.reads_ofList (List.forall_mem_map.2 fun t _ => ?_)
  refine Written.reads_ofPairs (uniqueKeys_toolDir t) ?_
  simp [ToolDir.written, Written.reads_ofText]

theorem read?_render (hjobs : c.project.jobs < 4294967296) :
    Toml.read? c.render = some c.draft.values := by
  refine Draft.read?_text ?_ ?_ ?_ ?_
  · simp [UniqueKeys, Draft.values, Written.values, draft]
  · simp only [draft, List.forall_mem_cons]
    exact ⟨uniqueKeys_project _, uniqueKeys_layout _, uniqueKeys_ci _, uniqueKeys_table _,
      uniqueKeys_table _, by simp⟩
  · simpa [draft] using reads_toolDirs c.paths
  · simp only [draft, List.forall_mem_cons]
    exact ⟨reads_project hjobs, reads_layout _, reads_ci _, reads_table _, reads_table _, by simp⟩

/-- A configuration that is written and read again is the same, but that the built-in tools that it
does not have itself come back. -/
theorem ofText_render (hjobs : c.project.jobs < 4294967296)
    (hpaths : ∀ p ∈ c.heldPaths, ∃ s, p = .ofString s) :
    ∃ c', ofText c.render = .ok c' ∧ c'.project = c.project ∧ c'.layout = c.layout ∧
      c'.ci = c.ci ∧ c'.paths = c.paths ∧
      (∀ key : String, c'.make[key]? = (c.make[key]?).or builtIn.make[key]?) ∧
      ∀ key : String, c'.tools[key]? = (c.tools[key]?).or builtIn.tools[key]? := by
  have hread := read?_render hjobs
  have hknown : ∀ e ∈ c.draft.values, e.1 ∈ sectionKeys := by
    simp [draft, Draft.values, Written.values, sectionKeys]
  have hconfig : config c.draft.values = .ok c.completed :=
    (config_eq_ok_iff (keyed_of_read? hread) c.sectioned_draft).2
      ⟨hknown, describes_draft hjobs hpaths⟩
  have hoverlay (base t : Table) (key : String) :
      (overlay base t.toList)[key]? = (t[key]?).or base[key]? := by
    rw [getElem?_overlay base (uniqueKeys_toList t), lookup_toList]
  refine ⟨c.completed, ?_, rfl, rfl, rfl, rfl, hoverlay _ _, hoverlay _ _⟩
  rw [ofText, hread]
  dsimp only
  rw [hconfig]
  rfl

/-- Quotes, backslashes, points and braces in texts and keys, and a name that comes twice. -/
def punctuated : Config :=
  { builtIn with
    project := { Project.builtIn with
      name := "\"a\\b\"\x00\nü", jobs := 4294967295, gccPaths := ["", "\t"] }
    paths := [⟨"x", .ofString "c:\\x \x7by\x7d"⟩, ⟨"x", .ofString ""⟩]
    make := .ofList [("a.b = \"c\"", "[d]"), ("", "#")] }

theorem ofText_render_punctuated :
    punctuated.project.jobs < 4294967296 ∧ (∀ p ∈ punctuated.heldPaths, ∃ s, p = .ofString s) ∧
    ∃ c', ofText punctuated.render = .ok c' ∧ c'.project = punctuated.project ∧
      c'.paths = punctuated.paths ∧ c'.make["a.b = \"c\""]? = some "[d]" ∧
      c'.make["ninja_make"]? = some "\x7bninja\x7d\\ninja.exe" := by
  have hjobs : punctuated.project.jobs < 4294967296 := by decide
  have hpaths : ∀ p ∈ punctuated.heldPaths, ∃ s, p = .ofString s := by
    have hplain (s : String) : ∃ u, Path.ofString s = .ofString u := ⟨s, rfl⟩
    simp [heldPaths, punctuated, builtIn, Project.builtIn, Layout.builtIn, Layout.dirs, hplain]
  obtain ⟨c', hc, hproject, -, -, hdirs, hmake, -⟩ := ofText_render hjobs hpaths
  refine ⟨hjobs, hpaths, c', hc, hproject, hdirs, ?_, ?_⟩
  · rw [hmake]
    decide +kernel
  · rw [hmake]
    decide +kernel

end Config
end FirmwareTasks
