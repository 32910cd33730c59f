import Treeline.Proofs.Data.Simple
import Treeline.Proofs.Decode.Faults
import Treeline.Proofs.Settings.WellTyped
import Treeline.Proofs.Text.Utf8

/-!
# Faults of reading settings

There are six reasons why reading a settings file ends with a fault: its name, its bytes, an escape
or a version in its text, a scalar that is misread, a key that is too long to be shown, and the call
stack, which it exhausts. Everything else that is wrong with a file is reported.
-/

namespace Treeline.Settings

open Yaml

variable {folder : Folder} {path : String} {text : List Char} {fault : Fault} {g : Graph}
  {definitions : Array Datum} {entries : List Datum.Entry} {s : Settings} {data : Data}
  {stack : Stack}

/-! ### Keys -/

/-- Whether entries are taken over one by one, where any list will do as the keys to prune. -/
def AreTaken (definitions : Array Datum) (entries : List Datum.Entry) : Prop :=
  ∀ entry ∈ entries, ∃ name, entry.1 = .text name ∧
    (name ≠ "prune" ∧ IsValueOf name (resolved definitions entry.2) ∨
      name = "prune" ∧ ∃ items, resolved definitions entry.2 = .list items)

/-- Whether the first entry that is not taken over has a number as its key that is too long to be
shown. -/
def RefusesLongKey (data : Data) : Prop :=
  ∃ before i value after,
    resolved data.definitions data.root = .dict (before ++ (.int i, value) :: after) ∧
      AreTaken data.definitions before ∧ Numeral.isShort i = false

theorem shownKey_eq_error_iff {key : Datum} :
    shownKey key = .error fault ↔
      fault = .longNumber ∧ ∃ i, key = .int i ∧ Numeral.isShort i = false := by
  cases key with
  | int i =>
    rw [shownKey]
    constructor
    · intro h
      split at h
      · cases h
      · rename_i hlong
        cases h
        exact ⟨rfl, i, rfl, Bool.eq_false_iff.2 hlong⟩
    · rintro ⟨rfl, _, ⟨⟩, hlong⟩
      rw [hlong]
      rfl
  | _ => simp [shownKey]

theorem exists_assigns_of_isTaken {name : String} {d : Datum}
    (h : name ≠ "prune" ∧ IsValueOf name d ∨ name = "prune" ∧ ∃ items, d = .list items)
    (s : Settings) : ∃ t, Assigns s name d t := by
  obtain ⟨-, hvalue⟩ | ⟨rfl, items, rfl⟩ := h
  · exact exists_assigns hvalue s
  · exact ⟨s, .pruned items⟩

theorem assignAll_cons_of_assigns {name : String} {value : Datum} {t : Settings}
    (h : Assigns s name (resolved definitions value) t) :
    assignAll path definitions s ((.text name, value) :: entries) =
      assignAll path definitions t entries := by
  obtain ⟨setting, hknown, ht⟩ := assigns_iff.1 h
  rw [assignAll, setting?_eq_some_iff.2 ⟨rfl, hknown⟩]
  dsimp only
  rw [ht]

/-- Entries are taken over up to the first one that is refused. -/
theorem assignAll_eq_fault_iff :
    assignAll path definitions s entries = .error (.fault fault) ↔
      fault = .longNumber ∧ ∃ before i value after,
        entries = before ++ (.int i, value) :: after ∧ AreTaken definitions before ∧
          Numeral.isShort i = false := by
  induction entries generalizing s with
  | nil => simp [assignAll]
  | cons entry entries ih =>
    obtain ⟨key, value⟩ := entry
    constructor
    · intro h
      rw [assignAll] at h
      split at h
      · split at h
        · cases h
        · rename_i fault' hshown
          cases h
          obtain ⟨rfl, i, rfl, hlong⟩ := shownKey_eq_error_iff.1 hshown
          exact ⟨rfl, [], i, value, entries, rfl, List.forall_mem_nil _, hlong⟩
      · rename_i name setting hsetting
        obtain ⟨rfl, hknown⟩ := setting?_eq_some_iff.1 hsetting
        dsimp only at h
        split at h
        · cases h
        · rename_i t ht
          obtain ⟨rfl, before, i, value', after, rfl, hbefore, hlong⟩ := ih.1 h
          refine ⟨rfl, (.text name, value) :: before, i, value', after, rfl, ?_, hlong⟩
          have htype := type_of_assigns (assigns_iff.2 ⟨setting, hknown, ht⟩)
          exact List.forall_mem_cons.2 ⟨⟨name, rfl, htype⟩, hbefore⟩
    · rintro ⟨rfl, before, i, value', after, heq, hbefore, hlong⟩
      cases before with
      | nil =>
        obtain ⟨⟨⟩, rfl⟩ := List.cons.inj heq
        simp [assignAll, setting?, shownKey, hlong]
      | cons entry before =>
        obtain ⟨rfl, rfl⟩ := List.cons.inj heq
        obtain ⟨⟨name, hname, hvalue⟩, hrest⟩ := List.forall_mem_cons.1 hbefore
        obtain ⟨t, ht⟩ := exists_assigns_of_isTaken hvalue s
        obtain rfl : key = .text name := hname
        rw [assignAll_cons_of_assigns ht]
        exact ih.2 ⟨rfl, before, i, value', after, rfl, hrest, hlong⟩

theorem ofData_eq_fault_iff :
    ofData path data = .error (.fault fault) ↔ fault = .longNumber ∧ RefusesLongKey data := by
  rw [ofData, RefusesLongKey]
  cases resolved data.definitions data.root with
  | dict entries =>
    dsimp only
    rw [bind_eq_error_iff, assignAll_eq_fault_iff]
    simp [assignPruned_ne_fault]
  | _ => simp

/-! ### Files -/

/-- Whether a file holds a text in UTF-8, with each of its lines ended by a line feed. -/
def HoldsText (folder : Folder) (path : String) (text : List Char) : Prop :=
  ∃ characters, folder.read path = .ok (Text.Utf8.encode characters) ∧
    text = Text.unifyNewlines characters

/-- Whether the text of a file has a graph. -/
def HoldsGraph (folder : Folder) (path : String) (g : Graph) : Prop :=
  ∃ text, HoldsText folder path text ∧ (∀ x ∈ text, isAllowed x = true) ∧
    Graph.singleOfText text = .ok (some g)

theorem HoldsText.unique {other : List Char} (h : HoldsText folder path text)
    (hother : HoldsText folder path other) : other = text := by
  obtain ⟨characters, hread, rfl⟩ := h
  obtain ⟨others, hothers, rfl⟩ := hother
  rw [hread, Except.ok.injEq] at hothers
  have hdecode := Text.Utf8.decodeFile_eq_ok_iff.2 hothers
  rw [Text.Utf8.decodeFile_eq_ok_iff.2 rfl, Except.ok.injEq] at hdecode
  rw [hdecode]

theorem HoldsGraph.unique {other : Graph} (h : HoldsGraph folder path g)
    (hother : HoldsGraph folder path other) : other = g := by
  obtain ⟨text, htext, -, hgraph⟩ := h
  obtain ⟨text', htext', -, hgraph'⟩ := hother
  rw [htext.unique htext', hgraph] at hgraph'
  cases hgraph'
  rfl

/-- The stages at which reading the text of a settings file ends with a fault. -/
theorem ofText_eq_fault_iff {source : Source} :
    ((source.read readData).mapError (Stop.map (ConfigError.invalid path)) >>= ofData path) =
        .error (.fault fault) ↔
      (∀ x ∈ source.text, isAllowed x = true) ∧
        (Graph.singleOfText source.text = .error (.fault fault) ∨
          ∃ g, Graph.singleOfText source.text = .ok (some g) ∧
            (Data.ofGraph g = .error (.fault fault) ∨
              ∃ data, Data.ofGraph g = .ok data ∧ fault = .longNumber ∧ RefusesLongKey data)) := by
  have hempty : ¬RefusesLongKey (.ofDatum .null) := by
    rintro ⟨before, i, value, after, ⟨⟩, -⟩
  rw [bind_eq_error_iff, mapError_eq_fault_iff, Source.read_eq_fault_iff]
  simp only [mapError_eq_ok_iff, Source.read_eq_ok_iff, ofData_eq_fault_iff, readData,
    bind_eq_error_iff, bind_eq_ok_iff]
  constructor
  · rintro (⟨hallowed, h | ⟨_ | g, hgraph, h⟩⟩ | ⟨data, ⟨hallowed, _ | g, hgraph, h⟩, rfl, hkey⟩)
    · exact ⟨hallowed, .inl h⟩
    · cases h
    · exact ⟨hallowed, .inr ⟨g, hgraph, .inl h⟩⟩
    · cases h
      exact absurd hkey hempty
    · exact ⟨hallowed, .inr ⟨g, hgraph, .inr ⟨data, h, rfl, hkey⟩⟩⟩
  · rintro ⟨hallowed, h | ⟨g, hgraph, h | ⟨data, hdata, rfl, hkey⟩⟩⟩
    · exact .inl ⟨hallowed, .inl h⟩
    · exact .inl ⟨hallowed, .inr ⟨some g, hgraph, h⟩⟩
    · exact .inr ⟨data, ⟨hallowed, some g, hgraph, hdata⟩, rfl, hkey⟩

theorem ofBytes_eq_fault_iff {bytes : List UInt8} :
    ofBytes path bytes = .error (.fault fault) ↔
      (∃ failure, Text.Utf8.decodeFile bytes = .error failure ∧ fault = .undecodable failure) ∨
      ∃ characters, Text.Utf8.decodeFile bytes = .ok characters ∧
        ((Source.ofFile path characters).read readData).mapError
          (Stop.map (ConfigError.invalid path)) >>= ofData path = .error (.fault fault) := by
  rw [ofBytes]
  cases Text.Utf8.decodeFile bytes with
  | error failure =>
    constructor
    · rintro ⟨⟩
      exact .inl ⟨failure, rfl, rfl⟩
    · rintro (⟨_, ⟨⟩, rfl⟩ | ⟨_, ⟨⟩, -⟩)
      rfl
  | ok characters =>
    constructor
    · exact fun h => .inr ⟨characters, rfl, h⟩
    · rintro (⟨_, ⟨⟩, -⟩ | ⟨_, ⟨⟩, h⟩)
      exact h

/-- A file whose reading exhausts no stack ends it with a fault because of its bytes, its text or its
graph. -/
theorem ofBytes_eq_fault_iff_of_read {bytes : List UInt8} (hread : folder.read path = .ok bytes) :
    ofBytes path bytes = .error (.fault fault) ↔
      (∃ failure, Text.Utf8.decodeFile bytes = .error failure ∧ fault = .undecodable failure) ∨
      (∃ text, HoldsText folder path text ∧ (∀ x ∈ text, isAllowed x = true) ∧
        Graph.singleOfText text = .error (.fault fault)) ∨
      ∃ g, HoldsGraph folder path g ∧ (Data.ofGraph g = .error (.fault fault) ∨
        ∃ data, Data.ofGraph g = .ok data ∧ fault = .longNumber ∧ RefusesLongKey data) := by
  rw [ofBytes_eq_fault_iff]
  apply or_congr_right
  simp only [ofText_eq_fault_iff]
  constructor
  · rintro ⟨characters, hdecode, hallowed, h⟩
    rw [Text.Utf8.decodeFile_eq_ok_iff.1 hdecode] at hread
    obtain h | ⟨g, hgraph, h⟩ := h
    · exact .inl ⟨_, ⟨characters, hread, rfl⟩, hallowed, h⟩
    · exact .inr ⟨g, ⟨_, ⟨characters, hread, rfl⟩, hallowed, hgraph⟩, h⟩
  · have hdecode : ∀ {text}, HoldsText folder path text → ∃ characters,
        Text.Utf8.decodeFile bytes = .ok characters ∧ text = Text.unifyNewlines characters := by
      intro text htext
      obtain ⟨characters, hfile, htext⟩ := htext
      rw [hread, Except.ok.injEq] at hfile
      exact ⟨characters, Text.Utf8.decodeFile_eq_ok_iff.2 hfile, htext⟩
    rintro (⟨text, htext, hallowed, h⟩ | ⟨g, ⟨text, htext, hallowed, hgraph⟩, h⟩)
    · obtain ⟨characters, hcharacters, rfl⟩ := hdecode htext
      exact ⟨characters, hcharacters, hallowed, .inl h⟩
    · obtain ⟨characters, hcharacters, rfl⟩ := hdecode htext
      exact ⟨characters, hcharacters, hallowed, .inr ⟨g, hgraph, h⟩⟩

/-- A fault comes of the name of the file, or its bytes are read and exhaust the stack or cause a
fault themselves. -/
theorem load_eq_fault_iff (hpath : path ≠ "") :
    load folder (some path) stack = .error (.fault fault) ↔
      (Folder.holdsNull path = true ∧ fault = .nullInName) ∨
      ∃ bytes, folder.read path = .ok bytes ∧
        (stack.isExhaustedBy bytes = true ∧ fault = .exhaustedStack ∨
          stack.isExhaustedBy bytes = false ∧ ofBytes path bytes = .error (.fault fault)) := by
  have hfilter : (some path).filter (· != "") = some path := by simp [hpath]
  have hbytes : ∀ bytes, (if stack.isExhaustedBy bytes then .error (.fault .exhaustedStack)
      else ofBytes path bytes) = .error (.fault fault) ↔
        stack.isExhaustedBy bytes = true ∧ fault = .exhaustedStack ∨
          stack.isExhaustedBy bytes = false ∧ ofBytes path bytes = .error (.fault fault) := by
    intro bytes
    cases stack.isExhaustedBy bytes <;> simp [eq_comm]
  rw [load, hfilter]
  dsimp only
  rw [bind_eq_error_iff, mapError_eq_fault_iff, Folder.read_eq_fault_iff]
  simp only [mapError_eq_ok_iff, hbytes]

/-! ### Room on the stack -/

/-- How many collections are open behind a token. -/
def levelBehind (level : Nat) (t : Token) : Nat :=
  match t.lexeme with
  | .blockSequenceStart | .blockMappingStart | .flowSequenceStart | .flowMappingStart => level + 1
  | .blockEnd | .flowSequenceEnd | .flowMappingEnd => level - 1
  | _ => level

/-- The most collections that are open at once. -/
def deepestLevel (level : Nat) : List Token → Nat
  | [] => level
  | t :: rest => max level (deepestLevel (levelBehind level t) rest)

/-- How many collections may be open at once on any stack. Composing one of them takes up to four
calls, and a stack holds a thousand. -/
def roomyLevels : Nat := 200

def IsShallow (text : List Char) : Prop :=
  deepestLevel 0 (TokenStream.ofText text).tokens ≤ roomyLevels

/-- What is known about the room on a stack: there is enough for a shallow text. Making values of its
graph is not recursive where the graph is simple. -/
def IsRoomy (stack : Stack) : Prop :=
  ∀ characters, IsShallow (Text.unifyNewlines characters) →
    (∀ g, Graph.singleOfText (Text.unifyNewlines characters) = .ok (some g) → g.IsSimple) →
      stack.isExhaustedBy (Text.Utf8.encode characters) = false

/-! ### Causes -/

/-- A file of fewer bytes is decoded before anything of it is read. A longer one comes in pieces, and
something in an earlier piece can end the reading. -/
def pieceLength : Nat := 4096

/-- Why reading a settings file ends with a fault. -/
inductive HasCause (stack : Stack) (folder : Folder) (path : String) : Fault → Prop
  | name (h : Folder.holdsNull path = true) : HasCause stack folder path .nullInName
  | bytes {bytes : List UInt8} {failure : Text.Utf8.Failure} (hread : folder.read path = .ok bytes)
      (hbytes : ∀ characters, bytes ≠ Text.Utf8.encode characters)
      (hfailure : bytes.length < pieceLength → Text.Utf8.decodeFile bytes = .error failure) :
      HasCause stack folder path (.undecodable failure)
  | text {bytes : List UInt8} {characters : List Char} {fault : Fault}
      (hread : folder.read path = .ok bytes) (hbytes : Text.Utf8.encode characters <+: bytes)
      (h : Causes (Text.unifyNewlines characters) fault) : HasCause stack folder path fault
  | value {g : Graph} {id : Nat} {fault : Fault} (hgraph : HoldsGraph folder path g)
      (h : g.Misreads id fault) : HasCause stack folder path fault
  | key {g : Graph} {data : Data} (hgraph : HoldsGraph folder path g)
      (hdata : Data.ofGraph g = .ok data) (h : RefusesLongKey data) :
      HasCause stack folder path .longNumber
  | stack {bytes : List UInt8} (hread : folder.read path = .ok bytes)
      (h : stack.isExhaustedBy bytes = true) : HasCause stack folder path .exhaustedStack

/-- What is enough for a fault. A misread value is enough in a simple graph, where nothing else is
wrong with a value. -/
inductive IsSpoiled (folder : Folder) (path : String) : Prop
  | name (h : Folder.holdsNull path = true)
  | bytes {bytes : List UInt8} (hread : folder.read path = .ok bytes)
      (hshort : bytes.length < pieceLength) (h : ∀ characters, bytes ≠ Text.Utf8.encode characters)
  | text {text : List Char} {fault : Fault} (htext : HoldsText folder path text)
      (hallowed : ∀ x ∈ text, isAllowed x = true) (h : StopsAt text fault)
  | value {g : Graph} {id : Nat} {fault : Fault} (hgraph : HoldsGraph folder path g)
      (hsimple : g.IsSimple) (huse : g.Uses id) (h : g.Misreads id fault)
  | key {g : Graph} {data : Data} (hgraph : HoldsGraph folder path g)
      (hdata : Data.ofGraph g = .ok data) (h : RefusesLongKey data)

theorem exists_name_of_load {path : Option String}
    (h : load folder path stack = .error (.fault fault)) :
    ∃ name, path = some name ∧ name ≠ "" := by
  cases hfilter : path.filter (· != "") with
  | none =>
    rw [load, hfilter] at h
    cases h
  | some name =>
    obtain ⟨rfl, hname⟩ := Option.filter_eq_some_iff.1 hfilter
    exact ⟨name, rfl, by simpa using hname⟩

theorem hasCause_of_load (hpath : path ≠ "")
    (h : load folder (some path) stack = .error (.fault fault)) :
    HasCause stack folder path fault := by
  obtain ⟨hnull, rfl⟩ | ⟨bytes, hread, ⟨hexhausted, rfl⟩ | ⟨-, h⟩⟩ := (load_eq_fault_iff hpath).1 h
  · exact .name hnull
  · exact .stack hread hexhausted
  obtain ⟨failure, hfailure, rfl⟩ | ⟨text, ⟨characters, hfile, rfl⟩, -, h⟩ |
    ⟨g, hgraph, h | ⟨data, hdata, rfl, hkey⟩⟩ := (ofBytes_eq_fault_iff_of_read hread).1 h
  · exact .bytes hread (Text.Utf8.exists_failure_iff.1 ⟨failure, hfailure⟩) fun _ => hfailure
  · exact .text hfile List.prefix_rfl (causes_of_single h)
  · obtain ⟨id, hid⟩ := Data.misreads_of_ofGraph h
    exact .value hgraph hid
  · exact .key hgraph hdata hkey

theorem exists_read_of_holdsGraph (h : HoldsGraph folder path g) :
    ∃ bytes, folder.read path = .ok bytes := by
  obtain ⟨text, ⟨characters, hread, -⟩, -⟩ := h
  exact ⟨_, hread⟩

/-- Bytes that are read cause a fault if they do so themselves, whether or not there is room for
them. -/
theorem load_of_ofBytes {bytes : List UInt8} (hpath : path ≠ "")
    (hread : folder.read path = .ok bytes) (h : ofBytes path bytes = .error (.fault fault)) :
    ∃ fault, load folder (some path) stack = .error (.fault fault) := by
  simp only [load_eq_fault_iff hpath]
  cases hroom : stack.isExhaustedBy bytes with
  | true => exact ⟨_, .inr ⟨bytes, hread, .inl ⟨hroom, rfl⟩⟩⟩
  | false => exact ⟨fault, .inr ⟨bytes, hread, .inr ⟨hroom, h⟩⟩⟩

theorem load_of_isSpoiled (hpath : path ≠ "") (h : IsSpoiled folder path) :
    ∃ fault, load folder (some path) stack = .error (.fault fault) := by
  cases h with
  | name hnull => exact ⟨_, (load_eq_fault_iff hpath).2 (.inl ⟨hnull, rfl⟩)⟩
  | bytes hread _ hbytes =>
    obtain ⟨failure, hfailure⟩ := Text.Utf8.exists_failure_iff.2 hbytes
    exact load_of_ofBytes hpath hread
      ((ofBytes_eq_fault_iff_of_read hread).2 (.inl ⟨failure, hfailure, rfl⟩))
  | text htext hallowed hstops =>
    obtain ⟨characters, hread, -⟩ := id htext
    exact load_of_ofBytes hpath hread
      ((ofBytes_eq_fault_iff_of_read hread).2 (.inr (.inl ⟨_, htext, hallowed, hstops.single⟩)))
  | value hgraph hsimple huse hmisreads =>
    obtain ⟨bytes, hread⟩ := exists_read_of_holdsGraph hgraph
    obtain ⟨-, hnone⟩ | ⟨id, fault, hfault, -⟩ := Data.ofGraph_cases hsimple
    · exact absurd hmisreads (hnone _ huse _)
    · exact load_of_ofBytes hpath hread
        ((ofBytes_eq_fault_iff_of_read hread).2 (.inr (.inr ⟨_, hgraph, .inl hfault⟩)))
  | key hgraph hdata hkey =>
    obtain ⟨bytes, hread⟩ := exists_read_of_holdsGraph hgraph
    exact load_of_ofBytes hpath hread ((ofBytes_eq_fault_iff_of_read hread).2
      (.inr (.inr ⟨_, hgraph, .inr ⟨_, hdata, rfl, hkey⟩⟩)))

theorem isExhaustedBy_of_shallow (hroomy : IsRoomy stack) (hgraph : HoldsGraph folder path g)
    (hsimple : g.IsSimple) (hshallow : ∀ text, HoldsText folder path text → IsShallow text)
    {bytes : List UInt8} (hread : folder.read path = .ok bytes) :
    stack.isExhaustedBy bytes = false := by
  obtain ⟨text, ⟨characters, hfile, rfl⟩, -, hsingle⟩ := hgraph
  obtain rfl := Except.ok.inj (hread.symm.trans hfile)
  apply hroomy characters (hshallow _ ⟨characters, hfile, rfl⟩)
  intro other hother
  obtain rfl := Option.some.inj (Except.ok.inj (hsingle.symm.trans hother))
  exact hsimple

/-- Where the text of a file is shallow and its graph is simple, nothing else is a cause. -/
theorem isSpoiled_of_load (hroomy : IsRoomy stack) (hpath : path ≠ "")
    (hgraph : HoldsGraph folder path g) (hsimple : g.IsSimple)
    (hshallow : ∀ text, HoldsText folder path text → IsShallow text)
    (h : load folder (some path) stack = .error (.fault fault)) : IsSpoiled folder path := by
  obtain ⟨hnull, -⟩ | ⟨bytes, hread, ⟨hexhausted, -⟩ | ⟨-, h⟩⟩ := (load_eq_fault_iff hpath).1 h
  · exact .name hnull
  · rw [isExhaustedBy_of_shallow hroomy hgraph hsimple hshallow hread] at hexhausted
    cases hexhausted
  obtain ⟨text, ⟨characters, hfile, rfl⟩, hallowed, hsingle⟩ := id hgraph
  obtain ⟨failure, hfailure, -⟩ | ⟨text, htext, -, h⟩ |
    ⟨other, hother, h | ⟨data, hdata, -, hkey⟩⟩ := (ofBytes_eq_fault_iff_of_read hread).1 h
  · obtain rfl := Except.ok.inj (hread.symm.trans hfile)
    exact absurd rfl (Text.Utf8.exists_failure_iff.1 ⟨failure, hfailure⟩ characters)
  · rw [HoldsText.unique ⟨characters, hfile, rfl⟩ htext, hsingle] at h
    cases h
  · obtain rfl := hgraph.unique hother
    obtain ⟨⟨data, hdata⟩, -⟩ | ⟨id, fault, -, huse, hmisreads⟩ := Data.ofGraph_cases hsimple
    · rw [hdata] at h
      cases h
    · exact .value hgraph hsimple huse hmisreads
  · exact .key hother hdata hkey

end Treeline.Settings
