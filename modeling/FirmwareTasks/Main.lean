import FirmwareTasks.Program
/-!
The program's outer layer, which tries a run out. The project holds nothing but the configuration
that is read from the standard input; the tools that would be called are shown and taken to have
succeeded.
-/
namespace FirmwareTasks.Main

/-- Everything that can be read from a stream. -/
partial def readAll (input : IO.FS.Stream) (read : ByteArray) : IO ByteArray := do
  let more ← input.read 65536
  if more.isEmpty then return read else readAll input (read ++ more)

def write (output : IO.FS.Stream) (text : Bytes) : IO Unit := do
  output.write ⟨text.toArray⟩
  output.flush

def project : Place := [Utf8.encode "project"]

/-- A project with a configuration file, or an empty one if there is no text for it. -/
def projectTree (text : Bytes) : Tree :=
  let t := Tree.empty.insert project .dir
  if text = [] then t else t.insert (Utf8.encode Program.configName :: project) (.file text false)

def environment (text : Bytes) : IO Environment := do
  let config := ((Utf8.decode? text).bind fun s => (Config.ofText s).toOption).getD .builtIn
  let names := ["PATH", "RUST_LOG", config.ci.envName]
  names.filterMapM fun name => do
    return (← IO.getEnv name).map fun value => (Utf8.encode name, Utf8.encode value)

def stop (s : CommandLine.Stop) : IO UInt32 := do
  match s with
  | .version => write (← IO.getStdout) (Utf8.encode (CommandLine.versionLine ++ "\n"))
  | .help => write (← IO.getStdout) (Utf8.encode usage)
  | .notTask name =>
    write (← IO.getStderr)
      (Utf8.encode ("error: " ++ CommandLine.notTaskMessage (Utf8.lossy name) ++ "\n"))
  | _ => write (← IO.getStderr) (Utf8.encode usage)
  return s.status.toUInt32
where
  usage : String := "Usage: fwtask [OPTIONS] <TASK>...\n"

def run (c : CommandLine) : IO UInt32 := do
  let text ← if c.list then pure ByteArray.empty else readAll (← IO.getStdin) .empty
  let tree := projectTree text.toList
  let env ← environment text.toList
  let f := Program.run ⟨env, ⟨project, []⟩, tree, Program.trial, ()⟩ c
  write (← IO.getStdout) f.output
  write (← IO.getStderr) f.errors
  return f.status.toUInt32

end FirmwareTasks.Main

open FirmwareTasks in
def main (args : List String) : IO UInt32 :=
  match CommandLine.parse (args.map Utf8.encode) with
  | .error s => Main.stop s
  | .ok c => Main.run c
