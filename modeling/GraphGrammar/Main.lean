import GraphGrammar.CommandLine.Run

/-!
The program as a process: it reaches the file system, the environment, the clock and its output.
-/

namespace GraphGrammar

def machineFiles : FileAccess IO where
  read path := do
    try
      return .ok (← IO.FS.readBinFile path)
    catch
      | .noFileOrDirectory .. => return .error .notFound
      | _ => return .error .failed
  write path bytes := do
    try
      let parent := FileTree.parentPath path
      unless parent.isEmpty do IO.FS.createDirAll parent
      IO.FS.writeBinFile path bytes
      return .ok ()
    catch _ => return .error .failed

def userSettings : IO (Option String) := do
  match ← IO.getEnv "XDG_CONFIG_HOME" with
  | some path =>
    if path.startsWith "/" then return some (path ++ "/warren") else homeSettings
  | none => homeSettings
where
  homeSettings : IO (Option String) := do
    return (← IO.getEnv "HOME").map fun home => home ++ "/.config/warren"

end GraphGrammar

open GraphGrammar in
def main (arguments : List String) : IO UInt32 := do
  let clockSeed := UInt64.ofNat (← IO.monoNanosNow)
  let outcome ← CommandLine.execute machineFiles (← userSettings) clockSeed arguments
  IO.print outcome.output
  match outcome with
  | .failed failure => IO.eprintln ("Error: " ++ failure.message)
  | .misuse => IO.eprint CommandLine.helpText
  | .printed _ => pure ()
  return outcome.exitCode
