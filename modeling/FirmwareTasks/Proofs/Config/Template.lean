import Mathlib.Data.List.Basic
import FirmwareTasks.Proofs.SearchPath
/-!
Texts with placeholders. A text is read in one way only, as literals with names in braces between
them, and maybe one brace at the end that is never closed; filling it in puts the directories in the
places of their names, and nothing of them is read again.
-/
namespace FirmwareTasks

/-- Characters among which one does not occur. -/
abbrev Free (ch : Char) := { s : List Char // ch ∉ s }

/-- How a text with placeholders is made up. -/
inductive Template where
  | literal (l : Free '{')
  /-- A brace that is never closed, with what comes after it. -/
  | unclosed (l : Free '{') (tail : Free '}')
  | field (l : Free '{') (name : Free '}') (rest : Template)

namespace Template

/-- The template with texts in the places of its names, in order. -/
def fillIn : Template → List (List Char) → List Char
  | literal l, _ => l
  | unclosed l tail, _ => l ++ '{' :: tail
  | field l _ rest, texts => l ++ texts.headD [] ++ rest.fillIn texts.tail

def names : Template → List String
  | literal _ | unclosed .. => []
  | field _ name rest => .ofList name :: rest.names

/-- What comes after a brace that is never closed. -/
def tail? : Template → Option String
  | literal _ => none
  | unclosed _ tail => some (.ofList tail)
  | field _ _ rest => rest.tail?

def braced (name : String) : List Char := '{' :: name.toList ++ ['}']

/-- The template as it is written, with its names in braces. -/
def chars (T : Template) : List Char := T.fillIn (T.names.map braced)

def text (T : Template) : String := .ofList T.chars

/-- The template with directories in the places of its names. -/
def filled (T : Template) (dirs : List Path) : String :=
  .ofList (T.fillIn (dirs.map fun dir => dir.text.toList))

variable {T U : Template}

@[simp] lemma chars_literal (l : Free '{') : (literal l).chars = l := rfl

@[simp] lemma chars_unclosed (l : Free '{') (tail : Free '}') :
    (unclosed l tail).chars = l ++ '{' :: tail := rfl

@[simp] lemma chars_field (l : Free '{') (name : Free '}') (rest : Template) :
    (field l name rest).chars = l ++ '{' :: (name ++ '}' :: rest.chars) := by
  rw [chars, names, List.map_cons, fillIn, List.headD_cons, List.tail_cons, braced,
    String.toList_ofList]
  simp only [List.append_assoc, List.cons_append, List.nil_append]
  rfl

lemma append_cons_inj {ch : Char} {l l' s s' : List Char} (hl : ch ∉ l) (hl' : ch ∉ l')
    (h : l ++ ch :: s = l' ++ ch :: s') : l = l' ∧ s = s' := by
  induction l generalizing l' with
  | nil =>
    cases l' with
    | nil => exact ⟨rfl, (List.cons.inj h).2⟩
    | cons c l' =>
      obtain ⟨rfl, -⟩ := List.cons.inj h
      exact absurd (.head l') hl'
  | cons c l ih =>
    cases l' with
    | nil =>
      obtain ⟨rfl, -⟩ := List.cons.inj h
      exact absurd (.head l) hl
    | cons c' l' =>
      obtain ⟨rfl, hrest⟩ := List.cons.inj h
      obtain ⟨rfl, rfl⟩ := ih (fun hmem => hl (.tail _ hmem)) (fun hmem => hl' (.tail _ hmem)) hrest
      exact ⟨rfl, rfl⟩

theorem chars_injective : Function.Injective chars := by
  intro T U h
  induction T generalizing U with
  | literal l =>
    rw [chars_literal] at h
    cases U with
    | literal l' => exact congrArg literal (Subtype.ext h)
    | unclosed | field => exact absurd (by simp [h]) l.2
  | unclosed l tail =>
    rw [chars_unclosed] at h
    cases U with
    | literal l' => exact absurd (by simp [← chars_literal, ← h]) l'.2
    | unclosed l' tail' =>
      obtain ⟨hl, htail⟩ := append_cons_inj l.2 l'.2 h
      rw [Subtype.ext hl, Subtype.ext htail]
    | field l' name rest =>
      rw [chars_field] at h
      exact absurd (by simp [(append_cons_inj l.2 l'.2 h).2]) tail.2
  | field l name rest ih =>
    rw [chars_field] at h
    cases U with
    | literal l' => exact absurd (by simp [← chars_literal, ← h]) l'.2
    | unclosed l' tail => exact absurd (by simp [← (append_cons_inj l.2 l'.2 h).2]) tail.2
    | field l' name' rest' =>
      rw [chars_field] at h
      obtain ⟨hl, hafter⟩ := append_cons_inj l.2 l'.2 h
      obtain ⟨hname, hrest⟩ := append_cons_inj name.2 name'.2 hafter
      rw [Subtype.ext hl, Subtype.ext hname, ih hrest]

theorem exists_chars (s : List Char) : ∃ T : Template, T.chars = s := by
  by_cases hopen : '{' ∈ s
  · obtain ⟨l, after, rfl, hl⟩ := List.eq_append_cons_of_mem hopen
    by_cases hclose : '}' ∈ after
    · obtain ⟨name, rest, rfl, hname⟩ := List.eq_append_cons_of_mem hclose
      obtain ⟨T, rfl⟩ := exists_chars rest
      exact ⟨field ⟨l, hl⟩ ⟨name, hname⟩ T, chars_field ..⟩
    · exact ⟨unclosed ⟨l, hl⟩ ⟨after, hclose⟩, rfl⟩
  · exact ⟨literal ⟨s, hopen⟩, rfl⟩
termination_by s.length

theorem existsUnique_text (raw : String) : ∃! T : Template, T.text = raw := by
  obtain ⟨T, hT⟩ := exists_chars raw.toList
  refine ⟨T, (congrArg String.ofList hT).trans raw.ofList_toList, fun U hU => chars_injective ?_⟩
  have hraw : String.ofList U.chars = raw := hU
  rw [hT, ← hraw, String.toList_ofList]

example : (field ⟨['a', '}'], by decide⟩ ⟨['{', 'b'], by decide⟩
    (unclosed ⟨[], by decide⟩ ⟨['c'], by decide⟩)).chars =
      ['a', '}', '{', '{', 'b', '}', '{', 'c'] := by rfl

end Template

namespace Config
variable {c : Config} {T : Template}

lemma fill_literal {l : List Char} (hl : '{' ∉ l) (s : List Char) :
    c.fill .outside (l ++ s) = (c.fill .outside s).map (l ++ ·) := by
  induction l with
  | nil => exact (congrFun Except.map_id _).symm
  | cons ch l ih =>
    rw [List.mem_cons, not_or] at hl
    rw [List.cons_append, fill, if_neg (Ne.symm hl.1), ih hl.2, Except.map_map]
    rfl

lemma fill_name {name : List Char} (hname : '}' ∉ name) (before s : List Char) :
    c.fill (.inside before) (name ++ s) = c.fill (.inside (name.reverse ++ before)) s := by
  induction name generalizing before with
  | nil => rfl
  | cons ch name ih =>
    rw [List.mem_cons, not_or] at hname
    rw [List.cons_append, fill, if_neg (Ne.symm hname.1), ih hname.2, List.reverse_cons,
      List.append_assoc, List.singleton_append]

/-- The names are looked up in order, and then the last brace has to be closed. -/
theorem fill_chars (c : Config) (T : Template) :
    c.fill .outside T.chars = T.names.mapM c.pathDir >>= fun dirs =>
      match T.tail? with
      | some tail => .error (.unknownPath tail)
      | none => .ok (T.fillIn (dirs.map fun dir => dir.text.toList)) := by
  induction T with
  | literal l =>
    have hfill := fill_literal (c := c) l.2 []
    rw [List.append_nil] at hfill
    rw [Template.chars_literal, hfill, fill]
    simp [Template.names, Template.tail?, Template.fillIn, Except.map, bind, Except.bind, pure,
      Except.pure]
  | unclosed l tail =>
    have hname := fill_name (c := c) tail.2 [] []
    rw [List.append_nil, List.append_nil] at hname
    rw [Template.chars_unclosed, fill_literal l.2, fill, if_pos rfl, hname, fill,
      List.reverse_reverse]
    rfl
  | field l name rest ih =>
    rw [Template.chars_field, fill_literal l.2, fill, if_pos rfl, fill_name name.2, fill,
      if_pos rfl, List.append_nil, List.reverse_reverse, ih, Template.names, List.mapM_cons,
      Template.tail?]
    cases c.pathDir (.ofList name) with
    | error e => rfl
    | ok dir =>
      cases rest.names.mapM c.pathDir with
      | error e => rfl
      | ok dirs =>
        cases rest.tail? with
        | some tail => rfl
        | none =>
          refine congrArg Except.ok ?_
          rw [Template.fillIn, List.map_cons, List.headD_cons, List.tail_cons, List.append_assoc]

lemma expand_text (c : Config) (T : Template) :
    c.expand T.text = (c.fill .outside T.chars).map fun s => .ofString (.ofList s) := by
  rw [expand, Template.text, String.toList_ofList]
  cases c.fill .outside T.chars <;> rfl

/-- A template without an open brace comes out if all of its names are known. -/
theorem expand_eq_ok_iff {p : Path} : c.expand T.text = .ok p ↔
    T.tail? = none ∧ ∃ dirs, List.Forall₂ c.FirstNamed T.names dirs ∧
      p = .ofString (T.filled dirs) := by
  simp only [← mapM_pathDir_eq_ok_iff]
  rw [expand_text, fill_chars]
  cases T.names.mapM c.pathDir with
  | error e => simp [bind, Except.bind, Except.map]
  | ok dirs =>
    cases T.tail? with
    | some tail => simp [bind, Except.bind, Except.map]
    | none => simp [bind, Except.bind, Except.map, Template.filled, eq_comm]

/-- The first unknown name is reported; where all are known, what comes after an open brace. -/
theorem expand_eq_error_iff {e : Error} : c.expand T.text = .error e ↔
    (∃ before name rest, T.names = before ++ name :: rest ∧
      (∀ n ∈ before, ∃ d, c.FirstNamed n d) ∧ (∀ t ∈ c.paths, t.name ≠ name) ∧
      e = .unknownPath name) ∨
    (∃ dirs, List.Forall₂ c.FirstNamed T.names dirs) ∧
      ∃ tail, T.tail? = some tail ∧ e = .unknownPath tail := by
  simp only [← mapM_pathDir_eq_error_iff, ← mapM_pathDir_eq_ok_iff]
  rw [expand_text, fill_chars]
  cases T.names.mapM c.pathDir with
  | error e' => simp [bind, Except.bind, Except.map]
  | ok dirs =>
    cases T.tail? with
    | some tail => simp [bind, Except.bind, Except.map, eq_comm]
    | none => simp [bind, Except.bind, Except.map]

lemma fill_append {scan : Scan} {s r : List Char} (h : c.fill scan s = .ok r) (s' : List Char) :
    c.fill scan (s ++ s') = (c.fill .outside s').map (r ++ ·) := by
  induction s generalizing scan r with
  | nil =>
    cases scan with
    | outside =>
      cases h
      exact (congrFun Except.map_id _).symm
    | inside name => cases h
  | cons ch s ih =>
    cases scan with
    | outside =>
      rw [fill] at h
      rw [List.cons_append, fill]
      split at h
      · rename_i hopen
        rw [if_pos hopen, ih h]
      · rename_i hother
        obtain ⟨r', hr, rfl⟩ := Except.map_eq_ok_iff.1 h
        rw [if_neg hother, ih hr, Except.map_map]
        rfl
    | inside name =>
      rw [fill] at h
      rw [List.cons_append, fill]
      split at h
      · rename_i hclose
        obtain ⟨dir, hdir, h⟩ := Except.bind_eq_ok h
        obtain ⟨r', hr, h⟩ := Except.bind_eq_ok h
        cases h
        rw [if_pos hclose, hdir, ih hr]
        cases c.fill .outside s' with
        | error e => rfl
        | ok s'' => exact congrArg Except.ok (List.append_assoc ..).symm
      · rename_i hother
        rw [if_neg hother, ih h]

lemma encode_append (cs ds : List Char) :
    Utf8.encode (.ofList (cs ++ ds)) = Utf8.encode (.ofList cs) ++ Utf8.encode (.ofList ds) := by
  simp [Utf8.encode]

theorem expand_append {a : String} {p : Path} (h : c.expand a = .ok p) (b : String) :
    c.expand (a ++ b) = (c.expand b).map fun q => ⟨p.bytes ++ q.bytes⟩ := by
  obtain ⟨r, hr, hp⟩ := Except.bind_eq_ok h
  cases hp
  rw [expand, expand, String.toList_append, fill_append hr]
  cases c.fill .outside b.toList with
  | error e => rfl
  | ok s => exact congrArg (fun bytes => Except.ok (Path.mk bytes)) (encode_append r s)

lemma expand_ok_iff (c : Config) (T : Template) :
    (∃ p, c.expand T.text = .ok p) ↔
      T.tail? = none ∧ ∀ name ∈ T.names, ∃ t ∈ c.paths, t.name = name := by
  simp only [expand_eq_ok_iff, ← exists_firstNamed_iff, ← List.exists_forall₂_iff]
  constructor
  · rintro ⟨p, hclosed, dirs, hdirs, -⟩
    exact ⟨hclosed, dirs, hdirs⟩
  · rintro ⟨hclosed, dirs, hdirs⟩
    exact ⟨_, hclosed, dirs, hdirs, rfl⟩

lemma lookup_of_mem {t : Table} {name raw : String} (h : t[name]? = some raw) :
    c.lookup t name = c.expand raw := by
  rw [lookup, h]

lemma lookup_of_absent {t : Table} {name : String} (h : t[name]? = none) :
    c.lookup t name = .error (.unknownTool name) := by
  rw [lookup, h]

/-- Every text is made up of placeholders between literals in one way, with an open brace at the end
maybe. It comes out if no brace is left open and all names are known, as the literals with the
directories between them; or else the first unknown name is reported, or what comes after the open
brace. So a text that comes out does so whatever it stands before. Tools come out as their texts
do. -/
theorem expand_fills_in (c : Config) :
    (∀ raw : String, ∃! T : Template, T.text = raw) ∧
    (∀ T : Template,
      ((∃ p, c.expand T.text = .ok p) ↔
        T.tail? = none ∧ ∀ name ∈ T.names, ∃ t ∈ c.paths, t.name = name) ∧
      (∀ p, c.expand T.text = .ok p ↔ T.tail? = none ∧
        ∃ dirs, List.Forall₂ c.FirstNamed T.names dirs ∧ p = .ofString (T.filled dirs)) ∧
      ∀ e, c.expand T.text = .error e ↔
        (∃ before name rest, T.names = before ++ name :: rest ∧
          (∀ n ∈ before, ∃ d, c.FirstNamed n d) ∧ (∀ t ∈ c.paths, t.name ≠ name) ∧
          e = .unknownPath name) ∨
        (∃ dirs, List.Forall₂ c.FirstNamed T.names dirs) ∧
          ∃ tail, T.tail? = some tail ∧ e = .unknownPath tail) ∧
    (∀ a p b, c.expand a = .ok p →
      c.expand (a ++ b) = (c.expand b).map fun q => ⟨p.bytes ++ q.bytes⟩) ∧
    ∀ name,
      (c.make[name]? = none → c.makeTool name = .error (.unknownTool name)) ∧
      (c.tools[name]? = none → c.tool name = .error (.unknownTool name)) ∧
      ∀ raw, (c.make[name]? = some raw → c.makeTool name = c.expand raw) ∧
        (c.tools[name]? = some raw → c.tool name = c.expand raw) := by
  refine ⟨Template.existsUnique_text, fun T => ⟨c.expand_ok_iff T, fun _ => expand_eq_ok_iff,
    fun _ => expand_eq_error_iff⟩, fun _ _ b h => expand_append h b, fun name => ⟨?_, ?_, ?_⟩⟩
  · exact fun h => lookup_of_absent h
  · exact fun h => lookup_of_absent h
  · exact fun raw => ⟨fun h => lookup_of_mem h, fun h => lookup_of_mem h⟩

end Config
end FirmwareTasks
