import Treeline.Data.OfGraph
import Treeline.Flatten
import Treeline.Folder
import Treeline.Timeout
import Treeline.Yaml.Load

/-!
# Settings

A settings file gives values that hold where the command line does not say otherwise. It is a
mapping from known names to values of a fixed type. A truth value is not a number, although it can
be counted with.

Nodes are composed by recursion, so a file can exhaust the call stack, and nothing turns that into a
report. Where it happens depends on how much room is left on the stack, so a `Stack` is a parameter
of the loading. The bytes of a file are taken as a whole: a file that is so long that it is read in
several pieces can have a defect in a later piece that is never reached.
-/

namespace Treeline

/-- The values of a settings file. -/
structure Settings where
  space : Option String
  kubeconfig : Option String
  context : Option String
  depth : Option Int
  pruned : Option (List String)
  pure : Option Bool
  absolute : Option Bool
  timeout : Option Timeout

/-- Why a settings file is refused. -/
inductive ConfigError
  | unopened (path : String) (cause : FileError)
  | invalid (path : String) (cause : Yaml.LoadError)
  | notMapping (path : String)
  | unknown (path shown : String)
  | wrongType (path key typeName : String)
  | prunedNotTexts (path : String)

def ConfigError.message : ConfigError → String
  | .unopened path cause => "error reading config " ++ path ++ ": " ++ cause.message
  | .invalid path cause => "invalid config " ++ path ++ ": " ++ cause.message
  | .notMapping path => "invalid config " ++ path ++ ": expected a mapping"
  | .unknown path shown => "invalid config " ++ path ++ ": unknown setting " ++ shown
  | .wrongType path key typeName =>
    "invalid config " ++ path ++ ": " ++ key ++ " has wrong type " ++ typeName
  | .prunedNotTexts path => "invalid config " ++ path ++ ": prune must be a list of strings"

/-- A call stack, by the settings files that exhaust it. -/
structure Stack where
  /-- Whether reading settings from these bytes exhausts the stack before anything else ends the
  reading. -/
  isExhaustedBy : List UInt8 → Bool

/-- A stack with room for everything. -/
def Stack.boundless : Stack := ⟨fun _ => false⟩

namespace Settings

def empty : Settings := ⟨none, none, none, none, none, none, none, none⟩

/-- What a shared container is, or the data itself. -/
def resolved (definitions : Array Datum) : Datum → Datum
  | .shared id => definitions[id]?.getD .null
  | d => d

def typeName : Datum → String
  | .null => "NoneType"
  | .bool _ => "bool"
  | .int _ => "int"
  | .float _ => "float"
  | .text _ => "str"
  | .bytes _ => "bytes"
  | .date _ => "date"
  | .moment _ => "datetime"
  | .complex _ _ => "complex"
  | .list _ => "list"
  | .tuple _ => "tuple"
  | .set _ => "set"
  | .dict _ => "dict"
  | .shared _ => "object"

def shownKey : Datum → Except Fault String
  | .null => .ok "None"
  | .bool b => .ok (if b then "True" else "False")
  | .int i => if Numeral.isShort i then .ok (Numeral.intText i) else .error .longNumber
  | .float x => .ok (String.ofList (Number.Decimal.write x))
  | .text s => .ok (Text.quoted s)
  | .bytes bytes => .ok (Text.quotedBytes bytes)
  | .date date => .ok date.shown
  | .moment moment => .ok moment.shown
  | d => .ok (typeName d)

/-- What a setting must be. -/
inductive Setting
  | text (put : Settings → String → Settings)
  | int (put : Settings → Int → Settings)
  | bool (put : Settings → Bool → Settings)
  | number (put : Settings → Timeout → Settings)
  /-- A list whose items are checked after all settings. -/
  | list

/-- The settings by their names. -/
def known : List (String × Setting) :=
  [("namespace", .text fun s v => { s with space := some v }),
    ("kubeconfig", .text fun s v => { s with kubeconfig := some v }),
    ("context", .text fun s v => { s with context := some v }),
    ("depth", .int fun s v => { s with depth := some v }),
    ("prune", .list),
    ("pure", .bool fun s v => { s with pure := some v }),
    ("absolute", .bool fun s v => { s with absolute := some v }),
    ("request_timeout", .number fun s v => { s with timeout := some v })]

/-- The setting that a key names. -/
def setting? : Datum → Option (String × Setting)
  | .text key => (known.lookup key).map fun setting => (key, setting)
  | _ => none

/-- Takes over a value if it has the type of the setting. -/
def assign? (s : Settings) : Setting → Datum → Option Settings
  | .text put, .text v => some (put s v)
  | .int put, .int v => some (put s v)
  | .bool put, .bool v => some (put s v)
  | .number put, .int v => some (put s (.whole v))
  | .number put, .float v => some (put s (.fractional v))
  | .list, .list _ => some s
  | _, _ => none

/-- Takes over entries in order. The first one that is unknown or has the wrong type is reported. -/
def assignAll (path : String) (definitions : Array Datum) (s : Settings) :
    List Datum.Entry → Except (Stop ConfigError) Settings
  | [] => .ok s
  | (key, value) :: rest =>
    match setting? key with
    | none =>
      match shownKey key with
      | .ok shown => .error (.reported (.unknown path shown))
      | .error f => .error (.fault f)
    | some (name, setting) =>
      let value := resolved definitions value
      match assign? s setting value with
      | none => .error (.reported (.wrongType path name (typeName value)))
      | some s => assignAll path definitions s rest

/-- The texts of a list, if it holds nothing else. -/
def texts? (items : List Datum) : Option (List String) :=
  items.mapM fun
    | .text s => some s
    | _ => none

/-- Takes over the keys to prune. -/
def assignPruned (path : String) (definitions : Array Datum) (entries : List Datum.Entry)
    (s : Settings) : Except (Stop ConfigError) Settings :=
  match entries.findSome? fun entry =>
      if entry.1.same (.text "prune") then some entry.2 else none with
  | none => .ok s
  | some value =>
    match resolved definitions value with
    | .list items =>
      match texts? items with
      | some keys => .ok { s with pruned := some keys }
      | none => .error (.reported (.prunedNotTexts path))
    | _ => .ok s

/-- The settings that data stands for. Nothing at all stands for no settings. -/
def ofData (path : String) (data : Data) : Except (Stop ConfigError) Settings :=
  match resolved data.definitions data.root with
  | .null => .ok .empty
  | .dict entries => do
    let s ← assignAll path data.definitions .empty entries
    assignPruned path data.definitions entries s
  | _ => .error (.reported (.notMapping path))

def readData (text : List Char) : Yaml.Result Data := do
  match ← Yaml.Graph.singleOfText text with
  | none => return .ofDatum .null
  | some g => Data.ofGraph g

def ofBytes (path : String) (bytes : List UInt8) : Except (Stop ConfigError) Settings :=
  match Text.Utf8.decodeFile bytes with
  | .error failure => .error (.fault (.undecodable failure))
  | .ok text => do
    let data ← ((Yaml.Source.ofFile path text).read readData).mapError (Stop.map (.invalid path))
    ofData path data

/-- Reads a settings file, if there is one. -/
def load (folder : Folder) (path : Option String) (stack : Stack := .boundless) :
    Except (Stop ConfigError) Settings :=
  match path.filter (· != "") with
  | none => .ok .empty
  | some path => do
    let bytes ← (folder.read path).mapError (Stop.map (.unopened path))
    if stack.isExhaustedBy bytes then .error (.fault .exhaustedStack) else ofBytes path bytes

end Settings

/-- The keys of the fields that the cluster maintains. -/
def maintainedKeys : List String :=
  ["creationTimestamp", "resourceVersion", "generation", "uid", "managedFields", "selfLink",
    "status"]

/-- What is left out of the output: subtrees below some keys, and the fields that the cluster
maintains if `pure`. -/
def FlattenOptions.of (depth : Option Int) (pruned : List String) (pure : Bool) : FlattenOptions :=
  ⟨depth, pruned ++ (if pure then maintainedKeys else [])⟩

/-- The keys that are left out, each once and in order. -/
def FlattenOptions.sortedKeys (options : FlattenOptions) : List String :=
  (options.pruned.mergeSort (fun a b => decide (a ≤ b))).eraseReps

end Treeline
