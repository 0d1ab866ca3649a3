import FirmwareTasks.Config.Basic
import FirmwareTasks.Error
import FirmwareTasks.Toml.Statement
/-!
Configurations from TOML documents. A section overrides the built-in one field by field, a list of
tool directories replaces the built-in list, and the tables of tools are merged over the built-in
ones. The first misfit in the order of the document is the one reported.
-/
namespace FirmwareTasks
open Toml

/-- Reads a value of the document. -/
abbrev Decode (α : Type) := Value → Except Mismatch α

namespace Decode

def text : Decode String
  | .text s => .ok s
  | v => .error (.wrongType v.found .text)

def path : Decode Path
  | .text s => .ok (.ofString s)
  | v => .error (.wrongType v.found .path)

/-- A number of 32 bits without a sign. -/
def count : Decode Nat
  | .integer n => if 0 ≤ n ∧ n < 4294967296 then .ok n.toNat else .error (.outOfRange n)
  | v => .error (.wrongType v.found .count)

def list {α : Type} (item : Decode α) : Decode (List α)
  | .array vs => vs.mapM item
  | v => .error (.wrongType v.found .sequence)

def table : Decode (List (String × String)) := fun v =>
  match v.entries? with
  | some entries => entries.mapM fun e => (text e.2).map (e.1, ·)
  | none => .error (.wrongType v.found .map)

/-- A field of a section: its key, and how a value for it changes the section. -/
structure Field (σ : Type) where
  key : String
  put : σ → Value → Except Mismatch σ

/-- A field whose value is read by `decode` and then set. -/
def field {σ α : Type} (key : String) (decode : Decode α) (set : σ → α → σ) : Field σ where
  key := key
  put s v := (decode v).map (set s)

/-- A section written as a table by keys, other keys ignored, or as an array in the order of the
fields, what is left over ignored. Fields that are not there keep their value in `start`. -/
def fields {σ : Type} (name : String) (fs : List (Field σ)) (start : σ) : Decode σ := fun v =>
  match v, v.entries? with
  | _, some entries =>
    entries.foldlM (fun s e =>
      match fs.find? (·.key == e.1) with
      | some f => f.put s e.2
      | none => .ok s) start
  | .array items, _ => (fs.zip items).foldlM (fun s (f, item) => f.put s item) start
  | v, _ => .error (.wrongType v.found (.section name))

def project : Decode Project := fields "Project"
  [field "name" text fun p x => { p with name := x },
    field "toolchain_file" text fun p x => { p with toolchainFile := x },
    field "generator" text fun p x => { p with generator := x },
    field "jobs" count fun p x => { p with jobs := x },
    field "build_tool" text fun p x => { p with buildTool := x },
    field "gcc_paths" (list text) fun p x => { p with gccPaths := x },
    field "doxyfile" text fun p x => { p with doxyfile := x },
    field "doc_version" text fun p x => { p with docVersion := x },
    field "python" text fun p x => { p with python := x },
    field "junit_script" path fun p x => { p with junitScript := x },
    field "junit_report" text fun p x => { p with junitReport := x }]
  .builtIn

def layout : Decode Layout := fields "DirLayout"
  [field "build_dir" path fun l x => { l with buildDir := x },
    field "coverage_dir" path fun l x => { l with coverageDir := x },
    field "unittest_dir" path fun l x => { l with unittestDir := x },
    field "artifacts_dir" path fun l x => { l with artifactsDir := x },
    field "doxy_out_dir" path fun l x => { l with doxyOutDir := x },
    field "doxy_conf_dir" path fun l x => { l with doxyConfDir := x },
    field "doxy_xml_dir" path fun l x => { l with doxyXmlDir := x },
    field "sphinx_source_dir" path fun l x => { l with sphinxSourceDir := x },
    field "sphinx_out_dir" path fun l x => { l with sphinxOutDir := x },
    field "sphinx_stale_dir" path fun l x => { l with sphinxStaleDir := x },
    field "ci_prefix" path fun l x => { l with ciPrefix := x }]
  .builtIn

def ci : Decode CiDetection := fields "CiDetection"
  [field "env" text fun c x => { c with envName := x },
    field "value" text fun c x => { c with value := x }]
  .builtIn

/-- A tool directory as far as it is known. -/
structure ToolDirDraft where
  name? : Option String
  dir? : Option Path

def toolDir : Decode ToolDir := fun v => do
  let draft ← fields "ToolDir"
    [field "name" text fun d x => { d with name? := some x },
      field "dir" path fun d x => { d with dir? := some x }]
    (⟨none, none⟩ : ToolDirDraft) v
  match v with
  | .array items =>
    match draft with
    | ⟨some name, some dir⟩ => .ok ⟨name, dir⟩
    | _ => .error (.tooShort items.length "ToolDir" 2)
  | _ =>
    match draft with
    | ⟨none, _⟩ => .error (.missingField "name")
    | ⟨_, none⟩ => .error (.missingField "dir")
    | ⟨some name, some dir⟩ => .ok ⟨name, dir⟩

def overlay (t : Table) (entries : List (String × String)) : Table := t.insertMany entries

def sections : List (Field Config) :=
  [field "project" project fun c x => { c with project := x },
    field "layout" layout fun c x => { c with layout := x },
    field "ci" ci fun c x => { c with ci := x },
    field "path" (list toolDir) fun c x => { c with paths := x },
    field "make" table fun c x => { c with make := overlay c.make x },
    field "tools" table fun c x => { c with tools := overlay c.tools x }]

/-- The configuration that the entries of a document describe. -/
def config (entries : List (String × Value)) : Except Mismatch Config :=
  entries.foldlM (fun c e =>
    match sections.find? (·.key == e.1) with
    | some f => f.put c e.2
    | none => .error (.unknownField e.1 (sections.map (·.key)))) .builtIn

end Decode

def Config.ofText (s : String) : Except Error Config :=
  match Toml.read? s with
  | none => .error (.configParse .malformed)
  | some entries => (Decode.config entries).mapError fun m => .configParse (.mismatch m)

end FirmwareTasks
