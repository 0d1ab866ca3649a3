import FirmwareTasks.SearchPath
/-!
The tasks: what each is called, what it is for, and which tasks come before it.
-/
namespace FirmwareTasks

inductive Task where
  | env
  | envGcc
  | configure
  | all
  | make
  | clean
  | cleanAll
  | testConf
  | testRun
  | testJunit
  | test
  | cov
  | doxy
  | breathe
  | doc
  | showDoc
  | diff
deriving DecidableEq, Repr

namespace Task

def every : List Task :=
  [env, envGcc, configure, all, make, clean, cleanAll, testConf, testRun, testJunit, test, cov,
    doxy, breathe, doc, showDoc, diff]

def name : Task → String
  | env => "env"
  | envGcc => "env_gcc"
  | configure => "configure"
  | all => "all"
  | make => "make"
  | clean => "clean"
  | cleanAll => "clean_all"
  | testConf => "test_conf"
  | testRun => "test_run"
  | testJunit => "test_junit"
  | test => "test"
  | cov => "cov"
  | doxy => "doxy"
  | breathe => "breathe"
  | doc => "doc"
  | showDoc => "show_doc"
  | diff => "diff"

def aliases : Task → List String
  | configure => ["cmakeGenerateMakeFileMINGW"]
  | testConf => ["unittestGenerateTestRunner"]
  | testRun => ["unittestWorkstationRunMinGWGcc"]
  | cov => ["coverage"]
  | _ => []

def description : Task → String
  | env => "Show the search path with all tool directories"
  | envGcc => "Show the search path used to configure the cross build"
  | configure => "Recreate the build directory and run cmake with the toolchain file"
  | all => "Build the default targets"
  | make => "Same as all"
  | clean => "Run the build tool's clean target"
  | cleanAll => "Remove the build directory and generated doc intermediates"
  | testConf => "Generate the unit test runners"
  | testRun => "Run the compiled unit tests"
  | testJunit => "Convert unit test output to a JUnit report"
  | test => "Run the unit tests and produce the JUnit report"
  | cov => "Generate the HTML coverage report"
  | doxy => "Generate API documentation XML with doxygen"
  | breathe => "Build the HTML documentation with sphinx"
  | doc => "Same as breathe"
  | showDoc => "Open the built documentation in the default browser"
  | diff => "Run git difftool over the whole working tree"

def prerequisites : Task → List Task
  | configure => [envGcc]
  | all | clean | testConf | testRun | testJunit | cov => [env]
  | make => [all]
  | test => [testRun, testJunit]
  | doc => [breathe]
  | _ => []

/-- The search path for the tools of a task, by the task before it that shows that path. -/
def profile (t : Task) : Option Profile :=
  if envGcc ∈ t.prerequisites then some .gcc
  else if env ∈ t.prerequisites then some .full
  else none

def names (t : Task) : List String := t.name :: t.aliases

def find? (name : String) : Option Task := every.find? (name ∈ ·.names)

def find (name : String) : Except Error Task :=
  match find? name with
  | some t => .ok t
  | none => .error (.unknownTask name)

def nameList : String := ", ".intercalate (every.map name)

theorem nodup_names : (every.flatMap names).Nodup := by decide

/-- How long the chains of tasks before a task are. -/
def depth : Task → Nat
  | make | test => 2
  | configure | all | clean | testConf | testRun | testJunit | cov | doc => 1
  | _ => 0

theorem depth_lt_of_mem_prerequisites {p t : Task} (h : p ∈ t.prerequisites) :
    p.depth < t.depth := by
  cases t <;> simp [prerequisites] at h <;> simp [h, depth]
  rcases h with rfl | rfl <;> decide

end Task
end FirmwareTasks
