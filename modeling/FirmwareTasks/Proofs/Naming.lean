import FirmwareTasks.Proofs.Path
import FirmwareTasks.Proofs.SearchPath
import FirmwareTasks.Proofs.Utf8
import FirmwareTasks.Recorder
import Mathlib.Data.List.DropRight
import Mathlib.Data.List.Infix
/-!
The names of programs. A recorder finds the calls of a program by the name asked for, and lists the
names of the programs called. The one reads the last component of the path as bytes, the other the
whole path as text; both come to the same name, since no ASCII character is lost or made up where
bytes are read as text.
-/
namespace FirmwareTasks

namespace Bytes

lemma exists_splitOn_eq (sep : UInt8) (s : Bytes) :
    ∃ outer, splitOn sep s = outer ++ [afterLast sep s] := by
  obtain ⟨outer, last, hsplit⟩ :=
    (splitOn sep s).eq_nil_or_concat.resolve_left (splitOn_ne_nil sep s)
  rw [List.concat_eq_append] at hsplit
  refine ⟨outer, ?_⟩
  rw [afterLast, hsplit, List.getLastD_concat]

lemma not_mem_afterLast (sep : UInt8) (s : Bytes) : sep ∉ afterLast sep s := by
  obtain ⟨outer, hsplit⟩ := exists_splitOn_eq sep s
  exact not_mem_of_mem_splitOn (s := s) (by simp [hsplit])

lemma eq_afterLast_or (sep : UInt8) (s : Bytes) :
    s = afterLast sep s ∨ ∃ front, s = front ++ sep :: afterLast sep s := by
  obtain ⟨outer, hsplit⟩ := exists_splitOn_eq sep s
  have hjoin := join_splitOn sep s
  rw [hsplit] at hjoin
  by_cases houter : outer = []
  · subst houter
    exact .inl hjoin.symm
  · rw [join_append houter (List.cons_ne_nil _ [])] at hjoin
    exact .inr ⟨_, hjoin.symm⟩

end Bytes

namespace Path
variable {p : Path} {n front ext : Bytes} {outer : List Bytes}

lemma fileName?_of_segments (h : p.segments = outer ++ [n]) (hn : IsName n) :
    p.fileName? = some n := by
  have hlast (outer : List Bytes) (c : List Component) :
      (c ++ (outer ++ [n]).filterMap inner).getLast? = some (.name n) := by
    simp [List.filterMap_append, inner_of_isName hn]
  suffices hall : p.components.getLast? = some (.name n) by rw [fileName?, hall]
  rw [components, h]
  split
  · exact hlast outer [.root]
  · cases outer with
    | nil =>
      dsimp only [List.nil_append]
      rw [if_neg hn.2.1]
      exact hlast [] []
    | cons first outer =>
      dsimp only [List.cons_append]
      split
      · exact hlast outer [.here]
      · exact hlast (first :: outer) []

lemma divideName_append (hfront : front ≠ []) (hext : 46 ∉ ext) :
    divideName (front ++ 46 :: ext) = (front, some ext) := by
  have hparts := Bytes.splitOn_append_sep 46 front ext
  rw [Bytes.splitOn_of_not_mem hext] at hparts
  have hjoin := Bytes.join_splitOn 46 front
  unfold divideName
  rw [hparts]
  split
  · rename_i h
    cases List.append_ne_nil_of_right_ne_nil _ (List.cons_ne_nil ext []) h
  · rename_i h
    have hnil : Bytes.splitOn 46 front = [] := List.append_inj_left' h rfl
    exact absurd hnil (Bytes.splitOn_ne_nil 46 front)
  · rename_i h
    have hnil : Bytes.splitOn 46 front = [[]] := List.append_inj_left' h rfl
    rw [hnil] at hjoin
    exact absurd hjoin.symm hfront
  · rw [List.dropLast_concat, List.getLast?_concat, hjoin]

lemma eq_of_divideName (h : divideName n = (front, some ext)) : n = front ++ 46 :: ext := by
  unfold divideName at h
  split at h
  · cases h
  · cases h
  · cases h
  · rename_i hnil hone _
    obtain ⟨parts, last, hparts⟩ :=
      (Bytes.splitOn 46 n).eq_nil_or_concat.resolve_left (Bytes.splitOn_ne_nil 46 n)
    rw [List.concat_eq_append] at hparts
    have hne : parts ≠ [] := by
      rintro rfl
      exact hone last hparts
    rw [hparts, List.dropLast_concat, List.getLast?_concat] at h
    cases h
    rw [← Bytes.join_splitOn 46 n, hparts, Bytes.join_append hne (List.cons_ne_nil _ [])]
    rfl

end Path

namespace Invocation
variable {isSep : Char → Bool}

lemma afterLast_eq_rtakeWhile (isSep : Char → Bool) (cs : List Char) :
    afterLast isSep cs = cs.rtakeWhile fun c => !isSep c := rfl

lemma afterLast_suffix (isSep : Char → Bool) (cs : List Char) : afterLast isSep cs <:+ cs :=
  List.rtakeWhile_suffix _ cs

lemma afterLast_concat (isSep : Char → Bool) (cs : List Char) (c : Char) :
    afterLast isSep (cs ++ [c]) = if isSep c then [] else afterLast isSep cs ++ [c] := by
  rw [afterLast_eq_rtakeWhile, List.rtakeWhile_concat]
  cases isSep c <;> rfl

lemma afterLast_append (cs ds : List Char) (h : ∀ d ∈ ds, isSep d = false) :
    afterLast isSep (cs ++ ds) = afterLast isSep cs ++ ds := by
  induction ds using List.reverseRecOn with
  | nil => simp
  | append_singleton ds d ih =>
    have hds := ih fun c hc => h c (List.mem_append_left _ hc)
    rw [← List.append_assoc, afterLast_concat, h d (by simp), hds]
    simp

lemma afterLast_append_cons (cs : List Char) {c : Char} (h : isSep c = true) (ds : List Char) :
    afterLast isSep (cs ++ c :: ds) = afterLast isSep ds := by
  induction ds using List.reverseRecOn with
  | nil => rw [afterLast_concat, if_pos h]; rfl
  | append_singleton ds d ih =>
    rw [← List.cons_append, ← List.append_assoc, afterLast_concat, afterLast_concat, ih]

lemma afterLast_congr {isSep' : Char → Bool} {cs : List Char} (h : ∀ c ∈ cs, isSep c = isSep' c) :
    afterLast isSep cs = afterLast isSep' cs := by
  induction cs using List.reverseRecOn with
  | nil => rfl
  | append_singleton cs c ih =>
    rw [afterLast_concat, afterLast_concat, h c (by simp),
      ih fun d hd => h d (List.mem_append_left _ hd)]

def fileName (inv : Invocation) : Bytes := Bytes.afterLast Path.slash inv.program

/-- A program whose path ends in a name, with something before `.exe` and no capital in that. -/
structure Regular (inv : Invocation) : Prop where
  isName : Path.IsName inv.fileName
  ne_exe : inv.fileName ≠ Utf8.encode ".exe"
  lower : ∀ ext ∈ inv.fileName.tails, Bytes.lowerAscii ext = Utf8.encode ".exe" →
    ext = Utf8.encode ".exe"

instance (inv : Invocation) : Decidable inv.Regular :=
  decidable_of_iff
    (Path.IsName inv.fileName ∧ inv.fileName ≠ Utf8.encode ".exe" ∧
      ∀ ext ∈ inv.fileName.tails, Bytes.lowerAscii ext = Utf8.encode ".exe" →
        ext = Utf8.encode ".exe")
    ⟨fun ⟨hname, hne, hlower⟩ => ⟨hname, hne, hlower⟩,
      fun h => ⟨h.isName, h.ne_exe, h.lower⟩⟩

variable {inv : Invocation} {front : Bytes}

lemma slash_not_mem_fileName (inv : Invocation) : Path.slash ∉ inv.fileName :=
  Bytes.not_mem_afterLast Path.slash inv.program

lemma fileName?_program (h : Path.IsName inv.fileName) :
    Path.fileName? ⟨inv.program⟩ = some inv.fileName := by
  obtain ⟨outer, hsplit⟩ := Bytes.exists_splitOn_eq Path.slash inv.program
  exact Path.fileName?_of_segments hsplit h

lemma afterLast_programName (h : isSep '/' = true) (inv : Invocation) :
    afterLast isSep inv.programName.toList = afterLast isSep (Utf8.lossy inv.fileName).toList := by
  have hprogram : inv.program = inv.fileName ∨
      ∃ front, inv.program = front ++ Path.slash :: inv.fileName :=
    Bytes.eq_afterLast_or Path.slash inv.program
  rcases hprogram with hprogram | ⟨front, hprogram⟩
  · rw [programName, hprogram]
  · have hlossy : (Utf8.lossy inv.program).toList =
        (Utf8.lossy front).toList ++ '/' :: (Utf8.lossy inv.fileName).toList := by
      rw [hprogram]
      exact Utf8.toList_lossy_append (b := Path.slash) (by decide) front inv.fileName
    rw [programName, hlossy, afterLast_append_cons _ h]

lemma stem?_of_exe (hname : Path.IsName inv.fileName) (hfront : front ≠ [])
    (h : inv.fileName = front ++ Utf8.encode ".exe") : stem? inv.program = some front := by
  have hdivide : Path.divideName inv.fileName = (front, some (Utf8.encode "exe")) := by
    rw [h]
    exact Path.divideName_append hfront (by decide)
  rw [stem?, fileName?_program hname, Option.map_some, hdivide]
  rfl

lemma stem?_of_not_exe (hreg : inv.Regular) (h : ¬Utf8.encode ".exe" <:+ inv.fileName) :
    stem? inv.program = some inv.fileName := by
  rw [stem?, fileName?_program hreg.isName, Option.map_some]
  split
  · rename_i front ext hdivide
    have hfile := Path.eq_of_divideName hdivide
    rw [if_neg]
    intro hext
    have hlower : Bytes.lowerAscii (46 :: ext) = Utf8.encode ".exe" := by
      rw [Bytes.lowerAscii, List.map_cons, ← Bytes.lowerAscii, hext]
      rfl
    have hsuffix : 46 :: ext <:+ inv.fileName := ⟨front, hfile.symm⟩
    rw [hreg.lower _ ((List.mem_tails _ _).2 hsuffix) hlower] at hsuffix
    exact h hsuffix
  · rfl

lemma afterLast_slashes {s : Bytes} (h : Path.slash ∉ s) :
    afterLast (fun c => c == '/' || c == '\\') (Utf8.lossy s).toList =
      afterLast (· == '\\') (Utf8.lossy s).toList := by
  refine afterLast_congr fun c hc => ?_
  have hne : c ≠ '/' := by
    rintro rfl
    exact h (Utf8.mem_of_mem_lossy hc (by decide))
  simp [hne]

lemma shortName_eq (inv : Invocation) : inv.shortName =
    let name := afterLast (· == '\\') (Utf8.lossy inv.fileName).toList
    .ofList (if ".exe".toList <:+ name then name.take (name.length - 4) else name) := by
  rw [shortName, afterLast_programName (by rfl), afterLast_slashes inv.slash_not_mem_fileName]

lemma exists_stem (h : inv.Regular) : ∃ stem, stem? inv.program = some stem ∧
    inv.shortName = .ofList (afterLast (· == '\\') (Utf8.lossy stem).toList) := by
  rw [shortName_eq]
  by_cases hexe : Utf8.encode ".exe" <:+ inv.fileName
  · obtain ⟨front, hfront⟩ := hexe
    have hne : front ≠ [] := by
      rintro rfl
      exact h.ne_exe hfront.symm
    refine ⟨front, stem?_of_exe h.isName hne hfront.symm, ?_⟩
    have hlossy : (Utf8.lossy inv.fileName).toList =
        (Utf8.lossy front).toList ++ ".exe".toList := by
      rw [← hfront]
      exact Utf8.toList_lossy_append (b := 46) (by decide) front (Utf8.encode "exe")
    dsimp only
    rw [hlossy, afterLast_append _ _ (by simp), if_pos (List.suffix_append _ _)]
    simp
  · refine ⟨inv.fileName, stem?_of_not_exe h hexe, ?_⟩
    dsimp only
    rw [if_neg]
    intro hsuffix
    have hlossy : ".exe".toList <:+ (Utf8.lossy inv.fileName).toList :=
      hsuffix.trans (afterLast_suffix _ _)
    exact hexe (Utf8.suffix_of_suffix_lossy hlossy (by simp))

theorem isProgram_iff (h : inv.Regular) (name : String) :
    inv.isProgram name = true ↔ name = inv.shortName := by
  obtain ⟨stem, hstem, hshort⟩ := exists_stem h
  rw [isProgram, hstem, hshort, ← String.toList_inj, String.toList_ofList]
  exact beq_iff_eq.trans eq_comm

def bare (program : String) : Invocation := ⟨Utf8.encode program, [], ⟨[]⟩, none⟩

-- capitals, and a name that is all extension, are told and answered to differently
example : (bare "b/Ninja.EXE").isProgram "Ninja" = true ∧
    (bare "b/Ninja.EXE").shortName = "Ninja.EXE" := by
  decide +kernel
example : (bare "b/.exe").isProgram ".exe" = true ∧ (bare "b/.exe").shortName = "" := by
  decide +kernel

end Invocation

namespace Recorder

variable {τ : Type}

/-- The name that a call answers to is the one listed for it, so the calls of a program are those
that the list has its name for. -/
theorem names_agree (r : Recorder τ) :
    (∀ (i : Nat) (inv : Invocation), r.invocations[i]? = some inv → inv.Regular →
      ∀ name, inv.isProgram name = true ↔ r.programs[i]? = some name) ∧
    ((∀ inv ∈ r.invocations, inv.Regular) →
      ∀ name, r.invocationsOf name =
        ((r.invocations.zip r.programs).filter (·.2 = name)).map Prod.fst) := by
  refine ⟨?_, ?_⟩
  · intro i inv hinv hreg name
    rw [Invocation.isProgram_iff hreg, programs, List.getElem?_map, hinv, Option.map_some,
      Option.some.injEq, eq_comm]
  · intro hreg name
    rw [programs, ← List.map_prod_left_eq_zip, List.filter_map, List.map_map, Function.comp_def,
      Function.comp_def, List.map_id', invocationsOf]
    refine List.filter_congr fun inv hinv => ?_
    rw [Bool.eq_iff_iff, Invocation.isProgram_iff (hreg inv hinv), decide_eq_true_iff, eq_comm]

/-- Backslashes, a dot in a directory's name, and a byte that belongs to no character. -/
theorem names_agree_mixed :
    let ninja := Invocation.bare "c:\\x\\ninja.exe"
    let west :=
      { ninja with program := Utf8.encode "/opt/a.exe/" ++ 0xFF :: Utf8.encode "\\west.exe" }
    let plain := Invocation.bare "./ninja"
    let r : Recorder Unit := { memory := (), invocations := [ninja, west, plain] }
    (∀ inv ∈ r.invocations, inv.Regular) ∧
      (∀ name, west.isProgram name = true ↔ some "west" = some name) ∧
      r.invocationsOf "ninja" = [ninja, plain] := by
  intro ninja west plain r
  have hreg : ∀ inv ∈ r.invocations, inv.Regular := by decide +kernel
  obtain ⟨hnames, hcalls⟩ := names_agree r
  refine ⟨hreg, ?_, (hcalls hreg "ninja").trans (by decide +kernel)⟩
  intro name
  have hwest : r.programs[1]? = some "west" := by decide +kernel
  rw [hnames 1 west rfl (hreg west (by simp [r])), hwest]

end Recorder
end FirmwareTasks
