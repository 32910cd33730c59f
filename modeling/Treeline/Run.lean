import Treeline.Cluster.Fetch
import Treeline.CommandLine.Command
import Treeline.Decode
import Treeline.Documents
import Treeline.Path.Parse

/-!
# Runs

A run reads its command line and its settings, gets the documents, flattens them, and delivers the
lines to one place. All lines are there before the first one is delivered, so a run that fails
delivers nothing, unless the delivery itself fails. What a run does is computed from the world that
it finds; the outcome says what it leaves behind.
-/

namespace Treeline

/-- What a run finds. -/
structure World where
  folder : Folder
  /-- What standard input holds. -/
  input : List UInt8
  /-- The settings file that the environment names. -/
  configPath : Option String
  connect : Connection → Except FetchError Cluster
  /-- Whether nobody reads standard output any more. -/
  isOutputClosed : Bool
  /-- Why a text cannot be encoded, if it cannot, for the file with a name or, without a name, for
  standard output. -/
  encodingError : (output : Option String) → (text : String) → Option String := fun _ _ => none
  /-- The call stack on which settings are read. -/
  stack : Stack := .boundless

/-- What a run reports to its user. -/
inductive RunError
  | malformed (cause : Path.Malformed)
  | unresolved (cause : Unresolved)
  | decode (cause : DecodeError)
  | fetch (cause : FetchError)
  | config (cause : ConfigError)
  | unwritable (target : String) (cause : FileError)

def RunError.message : RunError → String
  | .malformed cause => cause.message
  | .unresolved cause => cause.message
  | .decode cause => cause.message
  | .fetch cause => cause.message
  | .config cause => cause.message
  | .unwritable target cause => "error writing " ++ target ++ ": " ++ cause.message

/-- How a run ends. -/
inductive Ending
  | exited (status : Nat)
  | failed (fault : Fault)
  deriving DecidableEq

/-- A line of the program about itself. -/
def diagnostic (text : String) : String := CommandLine.program ++ ": " ++ text ++ "\n"

/-- Why a run ends without having done what a command asks for. -/
inductive Refusal
  /-- There is no command, only the wish for help. -/
  | help
  /-- There is no command, because the command line is wrong. -/
  | usage (error : CommandLine.UsageError)
  | stopped (stop : Stop RunError)

namespace Refusal

def ending : Refusal → Ending
  | .help => .exited 0
  | .usage _ => .exited 2
  | .stopped (.reported _) => .exited 1
  | .stopped (.fault f) => .failed f

/-- What a run says about why it ends. -/
def said : Refusal → String
  | .help => ""
  | .usage e => CommandLine.usage ++ diagnostic ("error: " ++ e.message)
  | .stopped (.reported e) => diagnostic e.message
  | .stopped (.fault _) => ""

end Refusal

/-- What a run leaves behind. -/
structure Outcome where
  /-- Missing if the run has done what its command asks for. -/
  refusal : Option Refusal
  stdout : String
  stderr : String
  folder : Folder
  events : List Event

def Outcome.ending (out : Outcome) : Ending :=
  match out.refusal with
  | none => .exited 0
  | some refusal => refusal.ending

/-- A computation of a run. -/
abbrev Walk (α : Type) := Traced Event (Stop RunError) α

/-- Notes that some documents are decoded. -/
def noteDecoded (trees : List Tree) : Walk Unit := .emit (.noted (.decoded trees.length))

namespace Command

/-- The path to flatten from. -/
def path (c : Command) : Except (Stop RunError) Path :=
  match c.entry with
  | .word text => (Path.parse text).mapError (Stop.map .malformed)
  | .nothing => .error (.fault .listAsPath)

/-- The keys to prune that the command names. -/
def prunedKeys (c : Command) : Except (Stop RunError) (List String) :=
  c.pruned.mapM fun
    | .word key => .ok key
    | .nothing => .error (.fault .listAsKey)

/-- The documents. Names of objects are asked for in lower case. -/
def trees (world : World) (c : Command) : Walk (List Tree) :=
  match c.source with
  | .file name => do
    let trees ← .ofExcept
      ((decodeNamed world.folder world.input name).mapError (Stop.map .decode))
    noteDecoded trees
    return trees
  | .object kind name => do
    .emit (.connected c.connection)
    let cluster ← .ofExcept
      ((world.connect c.connection).mapError fun cause => .reported (.fetch cause))
    let object ← (cluster.fetch kind c.space (Text.lowercase name) c.timeout).mapError
      fun cause => .reported (.fetch cause)
    let tree ← .ofExcept ((decodeData object).mapError (Stop.map .decode))
    noteDecoded [tree]
    return [tree]

/-- The lines for documents, flattened from the nodes that a path leads to. Each document in which
the path can be followed is noted. -/
def flattened (c : Command) (path : Path) (pruned : List String) (trees : List Tree) :
    Walk (List String) :=
  let reached := trees.takeWhile fun root => (root.resolve path).isOk
  let note : Event := .noted (.resolved path.length)
  match c.depth with
  | some depth =>
    let output := documents trees path (.of depth pruned c.pure) c.absolute
    ⟨reached.map fun _ => note, output.toExcept.mapError (Stop.map .unresolved)⟩
  | none =>
    match trees with
    | [] => return []
    | root :: _ => do
      let _ ← .ofExcept ((root.resolve path).mapError (Stop.map .unresolved))
      .emit note
      .ofExcept (.error (.fault .listAsNumber))

/-- The lines that a command asks for. -/
def lines (world : World) (c : Command) : Walk (List String) := do
  let path ← .ofExcept c.path
  let pruned ← .ofExcept c.prunedKeys
  c.flattened path pruned (← c.trees world)

end Command

/-- What is left behind after lines are delivered. -/
structure Delivery where
  stdout : String
  folder : Folder
  result : Except (Stop RunError) Unit

/-- Prints lines one by one. Those before a line that cannot be printed are out. -/
def print (world : World) : List String → String × Except (Stop RunError) Unit
  | [] => ("", .ok ())
  | line :: rest =>
    match world.encodingError none line with
    | some reason => ("", .error (.fault (.unencodable reason)))
    | none =>
      if world.isOutputClosed then ("", .error (.reported (.unwritable "stdout" .brokenPipe)))
      else
        let (text, result) := print world rest
        (line ++ "\n" ++ text, result)

/-- Writes a text to a file. The file is opened first, so a text that cannot be encoded leaves it
empty. -/
def writeText (world : World) (name text : String) : Folder × Except (Stop RunError) Unit :=
  match world.encodingError (some name) text with
  | some reason =>
    let (folder, result) := world.folder.write name []
    (folder, result.mapError (Stop.map (.unwritable name)) >>= fun _ =>
      .error (.fault (.unencodable reason)))
  | none =>
    let (folder, result) := world.folder.write name (Text.Utf8.encode text.toList)
    (folder, result.mapError (Stop.map (.unwritable name)))

/-- Delivers lines to a file or to standard output. -/
def deliver (world : World) (output : Option String) (lines : List String) : Delivery :=
  match output with
  | none =>
    let (text, result) := print world lines
    ⟨text, world.folder, result⟩
  | some name =>
    let (folder, result) := writeText world name (Text.joinLines lines)
    ⟨"", folder, result⟩

/-- Why a run with a result ends, if that result is not what was asked for. -/
def refusal? {α : Type} : Except (Stop RunError) α → Option Refusal
  | .ok _ => none
  | .error stop => some (.stopped stop)

def Command.run (world : World) (c : Command) : Outcome :=
  let walk := c.lines world
  let notes := (Event.notes walk.events).map fun note => diagnostic note.message
  let log := if c.verbose then String.join notes else ""
  let delivery : Delivery := match walk.result with
    | .error stop => ⟨"", world.folder, .error stop⟩
    | .ok lines => deliver world c.output lines
  let refusal := refusal? delivery.result
  let said := match refusal with
    | none => ""
    | some refusal => refusal.said
  ⟨refusal, delivery.stdout, log ++ said, delivery.folder, walk.events⟩

/-- The command that the words of a command line stand for, with the settings that are found. -/
def commandOf (world : World) (words : List String) : Except Refusal Command :=
  match CommandLine.read words with
  | .error .help => .error .help
  | .error (.usage e) => .error (.usage e)
  | .ok reading =>
    match Settings.load world.folder (reading.configPath world.configPath) world.stack with
    | .error stop => .error (.stopped (stop.map .config))
    | .ok settings => (reading.command settings).mapError .usage

/-- The outcome of a run without a command. -/
def refused (world : World) (refusal : Refusal) : Outcome :=
  let stdout := match refusal with
    | .help => if world.isOutputClosed then "" else CommandLine.help
    | _ => ""
  ⟨some refusal, stdout, refusal.said, world.folder, []⟩

/-- A run of the program with the words of a command line. -/
def run (world : World) (words : List String) : Outcome :=
  match commandOf world words with
  | .error refusal => refused world refusal
  | .ok command => command.run world

end Treeline
