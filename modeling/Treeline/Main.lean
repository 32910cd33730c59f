import Treeline.Run

/-!
# The program

Looks up what a run can need, computes the run, and carries out what it leaves behind. The files
that a run can need are those that its command line and the environment name. No client is built in,
so every attempt to reach a cluster fails.
-/

namespace Treeline.Main

/-- The variable that names the settings file. -/
def configVariable : String := "KUBEWALK_CONFIG"

def nameOf (at_ : Location) : String :=
  match at_ with
  | [] => "."
  | first :: rest =>
    if first = Folder.top then Folder.top ++ "/".intercalate rest else "/".intercalate at_

/-- The file names that a run can need. -/
def neededNames (reading : CommandLine.Reading) (configPath : Option String) : List String :=
  ((reading.configPath configPath).toList
    ++ ((reading.word? .file).bind Argument.nonempty?).toList
    ++ ((reading.word? .output).bind Argument.nonempty?).toList).filter
      fun name => name != standardInput && !Folder.holdsNull name

/-- Looks up what stands at a location. What cannot be read counts as a folder. -/
def lookUp (at_ : Location) : IO (Option FolderItem) := do
  match ← (IO.FS.readBinFile (nameOf at_)).toBaseIO with
  | .ok content => return some (.file content.toList)
  | .error (.noFileOrDirectory ..) => return none
  | .error _ => return some .folder

def lookUpAlong (folder : Folder) (name : String) : IO Folder := do
  let mut folder := folder
  let mut at_ := Folder.origin name
  for step in Folder.steps name do
    at_ := Folder.step at_ step
    match ← lookUp at_ with
    | some item => folder := folder.put at_ item
    | none => pure ()
  return folder

/-- Carries out the changes of a folder. -/
def carryOut (before after : Folder) : IO Unit := do
  for (at_, item) in after.items.reverse do
    if before.items.lookup at_ != some item then
      match item with
      | .folder => IO.FS.createDirAll (nameOf at_)
      | .file bytes => IO.FS.writeBinFile (nameOf at_) ⟨bytes.toArray⟩

/-- The answer to every attempt to reach a cluster. -/
def noClient : FetchError := Connection.failed "no client is built in"

/-- What a run finds. -/
def world (words : List String) : IO World := do
  let configPath := (← IO.getEnv configVariable).filter (· != "")
  let mut folder := Folder.empty
  let mut input := []
  if let .ok reading := CommandLine.read words then
    for name in neededNames reading configPath do
      folder ← lookUpAlong folder name
    if (reading.word? .file).bind Argument.nonempty? = some standardInput then
      input := (← (← IO.getStdin).readBinToEnd).toList
  return {
    folder, input, configPath
    connect := fun _ => .error noClient
    isOutputClosed := false }

end Treeline.Main

open Treeline in
/-- Runs the program. A fault is printed like an error. -/
def main (words : List String) : IO UInt32 := do
  let world ← Main.world words
  let outcome := run world words
  (← IO.getStdout).putStr outcome.stdout
  (← IO.getStderr).putStr outcome.stderr
  Main.carryOut world.folder outcome.folder
  match outcome.ending with
  | .exited status => return status.toUInt32
  | .failed fault =>
    (← IO.getStderr).putStr (diagnostic fault.message)
    return 1
