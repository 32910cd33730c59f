import Treeline.Argument
import Treeline.CommandLine.Word
import Treeline.Number.Decimal
import Treeline.Number.Integer

/-!
# Reading a command line

The words are read from left to right. What is read does not depend on any settings: the flags in
order, the plain words that say which object is meant, and the words that mean nothing. Plain words
count only up to the first flag behind them. Letters of switches can be joined, and the last letter
can be one that takes a word. Asking for help ends the reading.
-/

namespace Treeline.CommandLine

/-- A flag and what it is given. -/
inductive Given
  | on (switch : Switch)
  | word (slot : Slot) (argument : Argument)
  /-- Missing if the slot is given nothing. -/
  | timeout (seconds : Option Float)
  /-- Missing if the slot is given nothing. -/
  | depth (levels : Option Int)

/-- A command line that is read. -/
structure Reading where
  given : List Given
  /-- The plain words of the first run. -/
  object : List String
  /-- The words that mean nothing. -/
  extras : List String

/-- Why reading ends early. -/
inductive Halt
  | help
  | usage (error : UsageError)

/-- Letters of switches, the flag behind them, and the text attached to that. -/
structure Joined where
  switches : List Switch
  last : Flag
  attached : Option (List Char)

/-- The slot that still lacks its word. -/
def Joined.open? (joined : Joined) : Option Slot :=
  match joined.last, joined.attached with
  | .slot slot, none => some slot
  | _, _ => none

/-- The flags that the letters behind a flag make up. -/
def joinedFrom : Flag → List Char → Except UsageError Joined
  | flag, [] => .ok ⟨[], flag, none⟩
  | .slot slot, c :: rest => .ok ⟨[], .slot slot, some (c :: rest)⟩
  | .switch switch, c :: rest =>
    match letter? c with
    | none => .error (.attached switch (String.ofList (c :: rest)))
    | some next =>
      (joinedFrom next rest).map fun joined =>
        { joined with switches := switch :: joined.switches }

/-- The flags that one word makes up. -/
def joined (word : FlagWord) : Except UsageError Joined :=
  match word.flag, word.attached with
  | flag, none => .ok ⟨[], flag, none⟩
  | .slot slot, some text => .ok ⟨[], .slot slot, some text⟩
  | .switch switch, some text =>
    if word.isLetter && !text.isEmpty then joinedFrom (.switch switch) text
    else .error (.attached switch (String.ofList text))

def ofSwitch (switch : Switch) : Except Halt Given :=
  if switch = .help then .error .help else .ok (.on switch)

/-- Reads the word of a slot as a number. Two dashes are nothing. -/
def readNumber {α : Type} (read : List Char → Except Fault α) (error : UsageError)
    (text : String) : Except Halt (Option α) :=
  if text = "--" then .ok none
  else match read text.toList with
    | .ok n => .ok (some n)
    | .error _ => .error (.usage error)

def ofSlot (slot : Slot) (text : String) : Except Halt Given :=
  match slot with
  | .timeout => (readNumber Number.Decimal.read (.notDecimal slot text) text).map .timeout
  | .depth => (readNumber (Number.Integer.read 10) (.notInteger slot text) text).map .depth
  | slot => .ok (.word slot (if text = "--" then .nothing else .word text))

/-- What joined flags mean, with the word for the last one if that is a slot. -/
def ofJoined (joined : Joined) (word : String) : Except Halt (List Given) := do
  let before ← joined.switches.mapM ofSwitch
  let last ← match joined.last with
    | .switch switch => ofSwitch switch
    | .slot slot => ofSlot slot word
  return before ++ [last]

/-- The words that stand before the next flag, and the rest. -/
def takeRun : List Word → List String × List Word
  | .plain text :: rest => (text :: (takeRun rest).1, (takeRun rest).2)
  | .separator :: rest => ("--" :: (takeRun rest).1, (takeRun rest).2)
  | rest => ([], rest)

theorem takeRun_length_le (words : List Word) : (takeRun words).2.length ≤ words.length := by
  fun_induction takeRun words with
  | case1 text rest ih => exact Nat.le_succ_of_le ih
  | case2 rest ih => exact Nat.le_succ_of_le ih
  | case3 words => exact Nat.le_refl _

/-- Adds plain words to a reading. The first run says which object is meant, without the
separator; later ones mean nothing. -/
def Reading.addRun (reading : Reading) (isFirst : Bool) (run : List String) : Reading :=
  if isFirst then { reading with object := run.erase "--" }
  else { reading with extras := reading.extras ++ run }

/-- Reads words from left to right. `isFirst` holds until a run of plain words has been read. -/
def readFrom (reading : Reading) (isFirst : Bool) : List Word → Except Halt Reading
  | [] => .ok reading
  | .unknown text :: rest =>
    readFrom { reading with extras := reading.extras ++ [text] } isFirst rest
  | .flag word :: rest =>
    match joined word with
    | .error e => .error (.usage e)
    | .ok joined =>
      match joined.open? with
      | none =>
        match ofJoined joined (String.ofList (joined.attached.getD [])) with
        | .error halt => .error halt
        | .ok given => readFrom { reading with given := reading.given ++ given } isFirst rest
      | some slot =>
        match rest with
        | .plain text :: more =>
          match ofJoined joined text with
          | .error halt => .error halt
          | .ok given => readFrom { reading with given := reading.given ++ given } isFirst more
        | _ => .error (.usage (.missingWord slot))
  | .plain text :: rest =>
    readFrom (reading.addRun isFirst (text :: (takeRun rest).1)) false (takeRun rest).2
  | .separator :: rest =>
    readFrom (reading.addRun isFirst ("--" :: (takeRun rest).1)) false (takeRun rest).2
termination_by words => words.length
decreasing_by
  · exact Nat.lt_succ_self _
  · exact Nat.lt_succ_self _
  · exact Nat.lt_add_of_pos_right Nat.two_pos
  · exact Nat.lt_succ_of_le (takeRun_length_le rest)
  · exact Nat.lt_succ_of_le (takeRun_length_le rest)

def read (texts : List String) : Except Halt Reading :=
  match classifyAll texts with
  | .error e => .error (.usage e)
  | .ok words => readFrom ⟨[], [], []⟩ true words

end Treeline.CommandLine
