import Std.Data.ExtTreeMap
import FirmwareTasks.Path
/-!
The configuration: where the tools are, how the project's directories are laid out, and the
parameters of the commands. The built-in one describes the development machine.
-/
namespace FirmwareTasks
open Std

/-- A named directory with tools. -/
structure ToolDir where
  name : String
  dir : Path
deriving DecidableEq, Repr

/-- The parameters of the commands. -/
structure Project where
  name : String
  /-- The file that tells cmake about the cross compiler. -/
  toolchainFile : String
  generator : String
  /-- Parallel jobs of the default build. -/
  jobs : Nat
  /-- The key of the build tool in the `make` table. -/
  buildTool : String
  /-- The tool directories used to configure the cross build, in order. -/
  gccPaths : List String
  doxyfile : String
  docVersion : String
  python : String
  junitScript : Path
  junitReport : String
deriving DecidableEq, Repr

/-- The project's directories, relative to its root. -/
structure Layout where
  buildDir : Path
  coverageDir : Path
  unittestDir : Path
  /-- Where reports are collected. -/
  artifactsDir : Path
  doxyOutDir : Path
  /-- Where doxygen runs. -/
  doxyConfDir : Path
  /-- Where the documentation build finds doxygen's output. -/
  doxyXmlDir : Path
  sphinxSourceDir : Path
  sphinxOutDir : Path
  /-- What is removed before every documentation build. -/
  sphinxStaleDir : Path
  /-- What is put before the documentation paths on a CI host. -/
  ciPrefix : Path
deriving DecidableEq, Repr

/-- A CI host is one where the variable has the value. -/
structure CiDetection where
  envName : String
  value : String
deriving DecidableEq, Repr

/-- Texts by name. -/
abbrev Table := ExtTreeMap String String

structure Config where
  project : Project
  layout : Layout
  ci : CiDetection
  /-- The tool directories, in the order in which they come first on the search path. -/
  paths : List ToolDir
  /-- The build tools, placeholders not expanded. -/
  make : Table
  /-- The other tools, placeholders not expanded. -/
  tools : Table

def Project.builtIn : Project where
  name := "li_can_slv"
  toolchainFile := "tools/toolchain-tdm_gcc32.cmake"
  generator := "Ninja"
  jobs := 8
  buildTool := "ninja_make"
  gccPaths := ["mingw32", "cmake", "ninja"]
  doxyfile := "li_can_slv.doxyfile"
  docVersion := "master"
  python := "python"
  junitScript := .ofString "verify/unity/auto/unity_to_junit.py"
  junitReport := "result.xml"

def Layout.builtIn : Layout where
  buildDir := .ofString "build"
  coverageDir := .ofString "build/coverage"
  unittestDir := .ofString "build/verify/source"
  artifactsDir := .ofString "build"
  doxyOutDir := .ofString "build/docs/doxy"
  doxyConfDir := .ofString "docs/doxy"
  doxyXmlDir := .ofString "docs/sphinx/_doxyxml"
  sphinxSourceDir := .ofString "docs/sphinx"
  sphinxOutDir := .ofString "build/docs/sphinx/html"
  sphinxStaleDir := .ofString "docs/sphinx/_doxy/xml"
  ciPrefix := .ofString "../.."

def CiDetection.builtIn : CiDetection where
  envName := "READTHEDOCS"
  value := "True"

def Config.builtIn : Config where
  project := .builtIn
  layout := .builtIn
  ci := .builtIn
  paths :=
    [⟨"gnu_arm", .ofString "c:\\Program Files (x86)\\GNU Tools ARM Embedded\\4.9 2015q2\\bin"⟩,
      ⟨"mingw32", .ofString "c:\\MinGW32\\bin"⟩,
      ⟨"gnu_arm_tools",
        .ofString "c:\\Program Files\\GNU ARM Eclipse\\Build Tools\\2.6-201507152002\\bin"⟩,
      ⟨"cmake", .ofString "c:\\Program Files\\CMake\\bin"⟩,
      ⟨"ninja", .ofString "c:\\PortableApps\\ninja-win"⟩]
  make := .ofList
    [("gnu_arm_make", "\x7bgnu_arm_tools\x7d\\make.exe"),
      ("mingw32_make", "\x7bmingw32\x7d\\mingw32-make.exe"),
      ("ninja_make", "\x7bninja\x7d\\ninja.exe")]
  tools := .ofList
    [("doxygen", "c:\\Program Files\\doxygen\\bin\\doxygen.exe"),
      ("ant_bat", "c:\\v_infrastructure\\ant\\bin\\ant.bat"),
      ("cmake", "\x7bcmake\x7d\\cmake.exe")]

def Layout.dirs (l : Layout) : List Path :=
  [l.buildDir, l.coverageDir, l.unittestDir, l.artifactsDir, l.doxyOutDir, l.doxyConfDir,
    l.doxyXmlDir, l.sphinxSourceDir, l.sphinxOutDir, l.sphinxStaleDir, l.ciPrefix]

/-- The same configuration but for the spelling of paths. -/
def Config.sameAs (c d : Config) : Bool :=
  let bare (p : Project) : Project := { p with junitScript := ⟨[]⟩ }
  bare c.project = bare d.project &&
  c.project.junitScript.components = d.project.junitScript.components &&
    c.layout.dirs.map Path.components = d.layout.dirs.map Path.components &&
    c.ci = d.ci &&
    c.paths.map (fun t => (t.name, t.dir.components)) =
      d.paths.map (fun t => (t.name, t.dir.components)) &&
    c.make.toList = d.make.toList && c.tools.toList = d.tools.toList

end FirmwareTasks
