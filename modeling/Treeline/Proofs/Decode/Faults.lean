import Treeline.Proofs.Decode.Shapes
import Treeline.Proofs.Text.Utf8
import Treeline.Proofs.Yaml.Faults.Stops

/-!
# Faults of decoding

Making trees of graphs only ever reports errors. So decoding a source ends with a fault exactly if
its characters are all allowed and reading its graphs ends with that fault, and the files that a run
is given are no different, but for their line ends.
-/

namespace Treeline

open Yaml

variable {limit : Int} {source : Source} {fault : Fault}

theorem Yaml.findForbidden_eq_none_iff {text : List Char} {position : Nat} :
    findForbidden position text = none ↔ ∀ x ∈ text, isAllowed x = true := by
  refine ⟨fun h => ?_, fun h => findForbidden_eq_none h position⟩
  induction text generalizing position with
  | nil => simp
  | cons x text ih =>
    rw [findForbidden] at h
    split at h
    · exact List.forall_mem_cons.2 ⟨‹_›, ih h⟩
    · cases h

theorem Yaml.Source.check_eq_ok_iff :
    source.check = .ok () ↔ ∀ x ∈ source.text, isAllowed x = true := by
  rw [← @findForbidden_eq_none_iff source.text 0, Source.check]
  cases findForbidden 0 source.text <;> simp

/-- Reading something from a source ends with a fault only where its characters are all allowed. -/
theorem Yaml.Source.read_eq_fault_iff {α : Type} {reading : List Char → Result α} :
    source.read reading = .error (.fault fault) ↔
      (∀ x ∈ source.text, isAllowed x = true) ∧ reading source.text = .error (.fault fault) := by
  rw [Source.read, ← Source.check_eq_ok_iff]
  cases source.check with
  | error cause =>
    constructor
    · rintro ⟨⟩
    · rintro ⟨⟨⟩, -⟩
  | ok u =>
    dsimp only
    rw [mapError_eq_fault_iff]
    exact ⟨fun h => ⟨rfl, h⟩, And.right⟩

theorem Yaml.Source.read_eq_ok_iff {α : Type} {reading : List Char → Result α} {a : α} :
    source.read reading = .ok a ↔
      (∀ x ∈ source.text, isAllowed x = true) ∧ reading source.text = .ok a := by
  rw [Source.read, ← Source.check_eq_ok_iff]
  cases source.check with
  | error cause =>
    constructor
    · rintro ⟨⟩
    · rintro ⟨⟨⟩, -⟩
  | ok u =>
    dsimp only
    rw [mapError_eq_ok_iff]
    exact ⟨fun h => ⟨rfl, h⟩, And.right⟩

theorem Yaml.Source.graphs_eq_fault_iff :
    source.graphs = .error (.fault fault) ↔
      (∀ x ∈ source.text, isAllowed x = true) ∧
        Graph.ofText source.text = .error (.fault fault) :=
  Source.read_eq_fault_iff

theorem decodeSource_eq_fault_iff :
    decodeSource limit source = .error (.fault fault) ↔
      (∀ x ∈ source.text, isAllowed x = true) ∧
        Graph.ofText source.text = .error (.fault fault) := by
  rw [← Source.graphs_eq_fault_iff, ← @mapError_eq_fault_iff _ _ _ _ DecodeError.invalid,
    decodeSource, bind_eq_error_iff]
  constructor
  · rintro (h | ⟨graphs, -, h⟩)
    · exact h
    · obtain ⟨cause, -, ⟨⟩⟩ := mapError_eq_error_iff.1 h
  · exact .inl

/-- A source is decoded, or an error is reported, or its text causes a fault. -/
theorem decodeSource_cases (limit : Int) (source : Source) :
    (∃ trees, decodeSource limit source = .ok trees) ∨
      (∃ e, decodeSource limit source = .error (.reported e)) ∨
      ∃ fault, decodeSource limit source = .error (.fault fault) ∧ Causes source.text fault := by
  cases h : decodeSource limit source with
  | ok trees => exact .inl ⟨trees, rfl⟩
  | error stop =>
    cases stop with
    | reported e => exact .inr (.inl ⟨e, rfl⟩)
    | fault fault =>
      exact .inr (.inr ⟨fault, rfl, causes_of_graphs (decodeSource_eq_fault_iff.1 h).2⟩)

theorem decodeSource_of_stopsAt (hallowed : ∀ x ∈ source.text, isAllowed x = true)
    (hstops : StopsAt source.text fault) :
    decodeSource limit source = .error (.fault fault) :=
  decodeSource_eq_fault_iff.2 ⟨hallowed, hstops.graphs⟩

/-! ### Files -/

/-- Whether a text is what a name stands for: standard input or a file with that name holds it, and
each of its lines ends with a line feed. -/
def StandsFor (folder : Folder) (input : List UInt8) (name : String) (text : List Char) : Prop :=
  ∃ bytes characters,
    (if name = standardInput then .ok input else folder.read name) = .ok bytes ∧
      Text.Utf8.decodeFile bytes = .ok characters ∧ text = Text.unifyNewlines characters

variable {folder : Folder} {input bytes : List UInt8} {name : String} {text : List Char}

theorem standsFor_standardInput_iff {characters : List Char} :
    StandsFor folder (Text.Utf8.encode characters) standardInput text ↔
      text = Text.unifyNewlines characters := by
  have hdecode := Text.Utf8.decodeFile_eq_ok_iff.2 (Eq.refl (Text.Utf8.encode characters))
  constructor
  · rintro ⟨bytes, found, hbytes, hfound, htext⟩
    rw [if_pos rfl] at hbytes
    obtain rfl := Except.ok.inj hbytes
    obtain rfl := Except.ok.inj (hdecode.symm.trans hfound)
    exact htext
  · intro htext
    exact ⟨_, characters, if_pos rfl, hdecode, htext⟩

theorem decodeFile_eq_fault_iff :
    decodeFile limit name bytes = .error (.fault fault) ↔
      ∃ characters, Text.Utf8.decodeFile bytes = .ok characters ∧
        (∀ x ∈ Text.unifyNewlines characters, isAllowed x = true) ∧
        Graph.ofText (Text.unifyNewlines characters) = .error (.fault fault) := by
  unfold decodeFile
  cases Text.Utf8.decodeFile bytes with
  | error failure =>
    constructor
    · rintro ⟨⟩
    · rintro ⟨_, ⟨⟩, -⟩
  | ok characters =>
    dsimp only
    rw [decodeSource_eq_fault_iff]
    constructor
    · exact fun h => ⟨characters, rfl, h⟩
    · rintro ⟨_, ⟨⟩, h⟩
      exact h

/-- A name that holds the null character is a fault before its file is read. -/
theorem Folder.read_eq_fault_iff :
    folder.read name = .error (.fault fault) ↔
      Folder.holdsNull name = true ∧ fault = .nullInName := by
  unfold Folder.read
  split
  · rename_i hnull
    simp [hnull, eq_comm]
  · rename_i hnull
    constructor
    · intro h
      dsimp only at h
      split at h
      · cases h
      · split at h
        · cases h
        · split at h
          · cases h
          · split at h <;> cases h
    · rintro ⟨h, -⟩
      exact absurd h hnull

/-- Where the bytes of a name are found, decoding them ends with a fault if their text does so. -/
theorem decodeFile_eq_fault_iff_of_standsFor (shown : String)
    (hbytes : (if name = standardInput then .ok input else folder.read name) = .ok bytes) :
    decodeFile limit shown bytes = .error (.fault fault) ↔
      ∃ text, StandsFor folder input name text ∧ (∀ x ∈ text, isAllowed x = true) ∧
        Graph.ofText text = .error (.fault fault) := by
  rw [decodeFile_eq_fault_iff]
  constructor
  · rintro ⟨characters, hcharacters, h⟩
    exact ⟨_, ⟨bytes, characters, hbytes, hcharacters, rfl⟩, h⟩
  · rintro ⟨_, ⟨bytes', characters, hbytes', hcharacters, rfl⟩, h⟩
    cases hbytes.symm.trans hbytes'
    exact ⟨characters, hcharacters, h⟩

/-- Decoding what a name stands for ends with a fault if the name holds the null character, or if
its text does so. -/
theorem decodeNamed_eq_fault_iff :
    decodeNamed folder input name = .error (.fault fault) ↔
      (Folder.holdsNull name = true ∧ fault = .nullInName) ∨
        ∃ text, StandsFor folder input name text ∧ (∀ x ∈ text, isAllowed x = true) ∧
          Graph.ofText text = .error (.fault fault) := by
  by_cases hname : name = standardInput
  · have hnull : Folder.holdsNull name = false := by
      rw [hname]
      decide +kernel
    have hbytes : (if name = standardInput then .ok input else folder.read name) = .ok input :=
      if_pos hname
    rw [decodeNamed, if_pos hname, decodeFile_eq_fault_iff_of_standsFor "<stdin>" hbytes]
    simp [hnull]
  rw [decodeNamed, if_neg hname, ← Folder.read_eq_fault_iff]
  cases hread : folder.read name with
  | error stop =>
    have hnone : ¬∃ text, StandsFor folder input name text ∧ (∀ x ∈ text, isAllowed x = true) ∧
        Graph.ofText text = .error (.fault fault) := by
      rintro ⟨text, ⟨bytes, characters, hbytes, -⟩, -⟩
      rw [if_neg hname, hread] at hbytes
      cases hbytes
    cases stop <;> simp [hnone, Stop.map]
  | ok bytes =>
    have hbytes : (if name = standardInput then .ok input else folder.read name) = .ok bytes := by
      rw [if_neg hname, hread]
    dsimp only
    rw [mapError_eq_fault_iff, decodeFile_eq_fault_iff_of_standsFor name hbytes]
    simp

/-- What a name stands for is decoded, or an error is reported, or the name holds the null
character, or its text causes a fault. -/
theorem decodeNamed_cases (folder : Folder) (input : List UInt8) (name : String) :
    (∃ trees, decodeNamed folder input name = .ok trees) ∨
      (∃ e, decodeNamed folder input name = .error (.reported e)) ∨
      (Folder.holdsNull name = true ∧
        decodeNamed folder input name = .error (.fault .nullInName)) ∨
      ∃ text fault, StandsFor folder input name text ∧ Causes text fault ∧
        decodeNamed folder input name = .error (.fault fault) := by
  cases h : decodeNamed folder input name with
  | ok trees => exact .inl ⟨trees, rfl⟩
  | error stop =>
    cases stop with
    | reported e => exact .inr (.inl ⟨e, rfl⟩)
    | fault fault =>
      obtain ⟨hnull, rfl⟩ | ⟨text, hstands, -, hgraphs⟩ := decodeNamed_eq_fault_iff.1 h
      · exact .inr (.inr (.inl ⟨hnull, rfl⟩))
      · exact .inr (.inr (.inr ⟨text, fault, hstands, causes_of_graphs hgraphs, rfl⟩))

theorem decodeNamed_of_stopsAt (hstands : StandsFor folder input name text)
    (hallowed : ∀ x ∈ text, isAllowed x = true) (hstops : StopsAt text fault) :
    decodeNamed folder input name = .error (.fault fault) :=
  decodeNamed_eq_fault_iff.2 (.inr ⟨text, hstands, hallowed, hstops.graphs⟩)

end Treeline
