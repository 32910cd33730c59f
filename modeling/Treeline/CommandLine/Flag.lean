import Treeline.CommandLine.Usage
import Treeline.Text.Quoted

/-!
# Flags

A flag is a switch, which is on if it is given, or a slot, which takes a word. Each flag has a long
name behind two dashes, and most have a letter behind one.
-/

namespace Treeline.CommandLine

/-- Flags that are on if they are given. -/
inductive Switch
  | help
  | inCluster
  | pure
  | absolute
  | verbose
  deriving DecidableEq

/-- Flags that take a word. -/
inductive Slot
  | space
  | entry
  | file
  | output
  | kubeconfig
  | context
  | timeout
  | prune
  | depth
  | config
  deriving DecidableEq

inductive Flag
  | switch (switch : Switch)
  | slot (slot : Slot)
  deriving DecidableEq

/-- The names of all flags, in the order in which messages list them. -/
def flagNames : List (Flag × List String) :=
  [(.switch .help, ["-h", "--help"]),
    (.slot .space, ["-n", "--namespace"]),
    (.slot .entry, ["-e", "--entry"]),
    (.slot .file, ["-f", "--file"]),
    (.slot .output, ["-o", "--output"]),
    (.slot .kubeconfig, ["-c", "--kubeconfig"]),
    (.slot .context, ["--context"]),
    (.switch .inCluster, ["--in-cluster"]),
    (.slot .timeout, ["--request-timeout"]),
    (.switch .pure, ["-p", "--pure"]),
    (.slot .prune, ["--prune"]),
    (.slot .depth, ["-d", "--depth"]),
    (.switch .absolute, ["--absolute"]),
    (.slot .config, ["--config"]),
    (.switch .verbose, ["-v", "--verbose"])]

namespace Flag

def names (flag : Flag) : List String := (flagNames.lookup flag).getD []

def shown (flag : Flag) : String := "/".intercalate flag.names

end Flag

/-- What is wrong with a command line. -/
inductive UsageError
  /-- A word can be short for several names. -/
  | ambiguous (word : String) (names : List String)
  /-- A slot without a word. -/
  | missingWord (slot : Slot)
  /-- A text attached to a switch. -/
  | attached (switch : Switch) (text : String)
  | notInteger (slot : Slot) (text : String)
  | notDecimal (slot : Slot) (text : String)
  | unrecognized (words : List String)
  /-- A file and an object are given. -/
  | fileAndObject
  /-- Neither a file nor an object is given. -/
  | noSource
  deriving DecidableEq

/-- The text about an error at a flag. -/
def atFlag (flag : Flag) (text : String) : String := "argument " ++ flag.shown ++ ": " ++ text

def UsageError.message : UsageError → String
  | .ambiguous word names =>
    "ambiguous option: " ++ word ++ " could match " ++ ", ".intercalate names
  | .missingWord slot => atFlag (.slot slot) "expected one argument"
  | .attached switch text =>
    atFlag (.switch switch) ("ignored explicit argument " ++ Text.quoted text)
  | .notInteger slot text => atFlag (.slot slot) ("invalid int value: " ++ Text.quoted text)
  | .notDecimal slot text => atFlag (.slot slot) ("invalid float value: " ++ Text.quoted text)
  | .unrecognized words => "unrecognized arguments: " ++ " ".intercalate words
  | .fileAndObject => "KIND NAME cannot be combined with --file"
  | .noSource => "KIND and NAME are required unless --file is given"

end Treeline.CommandLine
