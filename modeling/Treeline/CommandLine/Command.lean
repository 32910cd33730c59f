import Treeline.Cluster.Connect
import Treeline.CommandLine.Reading
import Treeline.Settings

/-!
# Commands

A command is what a command line asks for once the settings are known. The last word of a slot wins
over the settings, and the settings win over what holds by default. A switch is on if the command
line or the settings turn it on, and the keys to prune add up.
-/

namespace Treeline

/-- Where documents come from. -/
inductive DocumentSource
  | file (name : String)
  | object (kind name : String)
  deriving DecidableEq

/-- What a run is to do. -/
structure Command where
  source : DocumentSource
  entry : Argument
  /-- The file to write, or standard output. -/
  output : Option String
  connection : Connection
  space : Argument
  timeout : Option Timeout
  pruned : List Argument
  pure : Bool
  /-- Missing if the slot is given nothing. -/
  depth : Option Int
  absolute : Bool
  verbose : Bool

namespace CommandLine

/-- The namespace of objects if none is given. -/
def defaultSpace : String := "default"

/-- The depth if none is given: all levels. -/
def defaultDepth : Int := -1

namespace Reading

/-- What a slot is given, in order. -/
def words (reading : Reading) (slot : Slot) : List Argument :=
  reading.given.filterMap fun
    | .word s argument => if s = slot then some argument else none
    | _ => none

/-- What a slot is given last. -/
def word? (reading : Reading) (slot : Slot) : Option Argument := (reading.words slot).getLast?

/-- Whether a switch is given. -/
def isOn (reading : Reading) (switch : Switch) : Bool :=
  reading.given.any fun
    | .on s => s = switch
    | _ => false

def timeout? (reading : Reading) : Option (Option Float) :=
  (reading.given.filterMap fun
    | .timeout seconds => some seconds
    | _ => none).getLast?

def depth? (reading : Reading) : Option (Option Int) :=
  (reading.given.filterMap fun
    | .depth levels => some levels
    | _ => none).getLast?

/-- The settings file, which the environment names unless the command line does. -/
def configPath (reading : Reading) (environment : Option String) : Option String :=
  match reading.word? .config with
  | some argument => argument.nonempty?
  | none => environment

/-- Where documents come from: either a file or an object of a kind. -/
def source (reading : Reading) : Except UsageError DocumentSource :=
  match (reading.word? .file).bind Argument.nonempty?, reading.object with
  | some name, [] => .ok (.file name)
  | some _, _ :: _ => .error .fileAndObject
  | none, [kind, name] => .ok (.object kind name)
  | none, _ => .error .noSource

/-- The command that a command line stands for. -/
def command (reading : Reading) (settings : Settings) : Except UsageError Command :=
  if !reading.extras.isEmpty then .error (.unrecognized reading.extras)
  else reading.source.map fun source => {
    source
    entry := (reading.word? .entry).getD (.word "")
    output := (reading.word? .output).bind Argument.nonempty?
    connection := {
      kubeconfig := reading.word? .kubeconfig <|> settings.kubeconfig.map .word
      context := reading.word? .context <|> settings.context.map .word
      isInside := reading.isOn .inCluster }
    space := (reading.word? .space).getD (.word (settings.space.getD defaultSpace))
    timeout := match reading.timeout? with
      | some seconds => seconds.map .fractional
      | none => settings.timeout
    pruned := (settings.pruned.getD []).map .word ++ reading.words .prune
    pure := reading.isOn .pure || settings.pure.getD false
    depth := reading.depth?.getD (some (settings.depth.getD defaultDepth))
    absolute := reading.isOn .absolute || settings.absolute.getD false
    verbose := reading.isOn .verbose }

end Reading

end CommandLine

end Treeline
