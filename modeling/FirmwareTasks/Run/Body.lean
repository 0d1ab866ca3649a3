import FirmwareTasks.Run.Change
import FirmwareTasks.Run.Context
import FirmwareTasks.Task
/-!
What each task does, the tasks before it apart: it cleans a directory, runs one tool and puts a
report away, in this order and as far as it has to.
-/
namespace FirmwareTasks.Context
open Act

variable {σ : Type} (ctx : Context σ)

def word (s : String) : Bytes := Utf8.encode s

def showSearchPath (p : Profile) : Act σ Unit := do
  let path := (← ctx.searchPath (some p)).getD []
  let count := (SearchPath.split path).length
  log .debug (p.name ++ " search path has " ++ toString count ++ " entries")
  printLine (Utf8.lossy path)

/-- Runs the generated build tool in the build directory. -/
def runBuildTool (t : Task) (args : List String) : Act σ Unit := do
  let tool ← ofExcept ctx.config.buildTool
  let inv ← ctx.command tool.bytes ctx.buildDir t.profile
  ctx.launch { inv with args := args.map word }

/-- Starts with an empty build directory and has cmake fill it. -/
def configure : Act σ Unit := do
  ensureFresh ctx.site ctx.buildDir
  let project := ctx.config.project
  let inv ← ctx.command (word "cmake") ctx.buildDir Task.configure.profile
  ctx.launch { inv with
    args := [word ("-DCMAKE_TOOLCHAIN_FILE=" ++ project.toolchainFile),
      word ("-G" ++ project.generator), ctx.root.bytes] }

/-- Removes the build directory and what doxygen left for the documentation build. -/
def cleanAll : Act σ Unit := do
  ensureAbsent ctx.site ctx.buildDir
  ensureAbsent ctx.site (ctx.path ctx.config.layout.doxyXmlDir)

/-- Has the unit test output converted and collects the report. -/
def testJunit : Act σ Unit := do
  let project := ctx.config.project
  let layout := ctx.config.layout
  let inv ← ctx.command (word project.python) ctx.root Task.testJunit.profile
  ctx.launch { inv with
    args := [project.junitScript.bytes, layout.unittestDir.bytes ++ [Path.slash]] }
  let report := Path.ofString project.junitReport
  let target := (ctx.path layout.artifactsDir).join report
  relocate ctx.site (ctx.path report) target
  log .info ("JUnit report: " ++ target.text)

/-- The page of the coverage report at which to start. -/
def reportPage : Path := .ofString "coverage-details.html"

def coverageTarget : Path :=
  let layout := ctx.config.layout
  (ctx.path layout.artifactsDir).join
    ⟨layout.coverageDir.fileName?.getD (word "coverage")⟩

/-- Has the coverage report written into an empty directory and collects it, unless it is written
where it is collected. -/
def coverage : Act σ Unit := do
  let dir := ctx.path ctx.config.layout.coverageDir
  ensureFresh ctx.site dir
  let inv ← ctx.command (word "gcovr") ctx.buildDir Task.cov.profile
  ctx.launch { inv with
    args := ["-r", ".", "--html", "--html-details", "-o"].map word ++
      [(dir.join reportPage).bytes] }
  let target := ctx.coverageTarget
  if !decide (target.SameAs dir) then
    ensureAbsent ctx.site target
    relocate ctx.site dir target
  log .info ("Coverage report: " ++ (target.join reportPage).text)

/-- The directory that the documentation paths are relative to, and the doxygen to run. -/
def documentation : Act σ (Path × Bytes) :=
  if ctx.ci then do
    log .info "CI documentation build"
    return (ctx.path ctx.config.layout.ciPrefix, word "doxygen")
  else do
    log .info "Normal documentation build"
    let tool ← ofExcept (ctx.config.tool "doxygen")
    return (ctx.root, tool.bytes)

/-- Has doxygen write into an empty directory and puts its output where the documentation build
looks for it. -/
def doxygen : Act σ Unit := do
  let layout := ctx.config.layout
  let (base, tool) ← ctx.documentation
  let out := base.join layout.doxyOutDir
  let staged := base.join layout.doxyXmlDir
  ensureFresh ctx.site out
  ensureAbsent ctx.site staged
  let inv ← ctx.command tool (base.join layout.doxyConfDir) Task.doxy.profile
  ctx.launch { inv with args := [word ctx.config.project.doxyfile] }
  let xml := out.join (.ofString "xml")
  copyTree ctx.site xml staged
  ensureAbsent ctx.site xml

/-- Builds the documentation site without what an earlier build left over. -/
def breathe : Act σ Unit := do
  let layout := ctx.config.layout
  let version := ctx.config.project.docVersion
  ensureAbsent ctx.site (ctx.path layout.sphinxStaleDir)
  let inv ← ctx.command (word "sphinx-build") ctx.root Task.breathe.profile
  ctx.launch { inv with
    args := [word ("-Dversion=" ++ version), word ("-Drelease=" ++ version),
      word ("-Aversion=" ++ version), word "-b", word "html",
      (ctx.path layout.sphinxSourceDir).bytes, (ctx.path layout.sphinxOutDir).bytes] }

/-- Opens the documentation, which has to be there. -/
def showDoc : Act σ Unit := do
  let index := (ctx.path ctx.config.layout.sphinxOutDir).join (.ofString "index.html")
  if (← get).tree.isFileAt ctx.site index then
    ctx.launch ⟨word "xdg-open", [index.bytes], ctx.root, none⟩
  else
    log .warn "Documentation not built yet, run `doc` first"
    throw (.missingFile index)

def diff : Act σ Unit := do
  let inv ← ctx.command (word "git") ctx.root Task.diff.profile
  ctx.launch { inv with args := ["difftool", "--dir-diff"].map word }

/-- What a task does itself. The tasks that only stand for others do nothing. -/
def body : Task → Act σ Unit
  | .env => ctx.showSearchPath .full
  | .envGcc => ctx.showSearchPath .gcc
  | .configure => ctx.configure
  | .all => ctx.runBuildTool .all ["-j" ++ toString ctx.config.project.jobs, "all"]
  | .clean => ctx.runBuildTool .clean ["clean"]
  | .cleanAll => ctx.cleanAll
  | .testConf => ctx.runBuildTool .testConf ["unittest_prepare"]
  | .testRun => ctx.runBuildTool .testRun ["unittest_run"]
  | .testJunit => ctx.testJunit
  | .cov => ctx.coverage
  | .doxy => ctx.doxygen
  | .breathe => ctx.breathe
  | .showDoc => ctx.showDoc
  | .diff => ctx.diff
  | .make | .test | .doc => pure ()

end FirmwareTasks.Context
