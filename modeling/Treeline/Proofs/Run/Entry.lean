import Treeline.Proofs.CommandLine.Attached
import Treeline.Proofs.Flatten.Documents
import Treeline.Proofs.Path.LongIndex
import Treeline.Proofs.Run.Delivery

/-!
# Runs that are given a file and an entry

The entry of a run can be any text. If it is not a path, or if it leads nowhere in a document, the
run reports that. There are two texts that end a run otherwise: two dashes, which leave the option
with nothing, and a text that is a path up to an index of too many digits. A run also ends with a
fault if it comes to a line that cannot be encoded for standard output. A file called by two dashes
cannot be named this way at all.
-/

namespace Treeline

variable {world : World} {name entry : String} {trees : List Tree} {path : Path}

/-! ### From the words to the command -/

namespace CommandLine

theorem read_file_entry (name entry : String) :
    CommandLine.read ["--file=" ++ name, "--entry=" ++ entry] =
      .ok ⟨[.word .file (holding name), .word .entry (holding entry)], [], []⟩ := by
  have hentry : classifyAll ["--entry" ++ "=" ++ entry] =
      .ok [.flag ⟨"--entry", .slot .entry, some entry.toList⟩] :=
    classifyAll_attached (by decide +kernel) entry rfl
  have hwords : classifyAll ["--file" ++ "=" ++ name, "--entry" ++ "=" ++ entry] =
      .ok [.flag ⟨"--file", .slot .file, some name.toList⟩,
        .flag ⟨"--entry", .slot .entry, some entry.toList⟩] :=
    classifyAll_attached (by decide +kernel) name hentry
  change classifyAll ["--file=" ++ name, "--entry=" ++ entry] = _ at hwords
  rw [CommandLine.read, hwords]
  dsimp only
  rw [readFrom_attached (by decide) (by decide), readFrom_attached (by decide) (by decide),
    readFrom]
  rfl

end CommandLine

/-- The command of a run that is given a file and an entry. -/
def fileCommand (name entry : String) : Command where
  source := .file name
  entry := CommandLine.holding entry
  output := none
  connection := ⟨none, none, false⟩
  space := .word CommandLine.defaultSpace
  timeout := none
  pruned := []
  pure := false
  depth := some CommandLine.defaultDepth
  absolute := false
  verbose := false

theorem load_of_configPath {reading : CommandLine.Reading} (hsettings : world.configPath = none)
    (hconfig : reading.word? .config = none) :
    Settings.load world.folder (reading.configPath world.configPath) world.stack = .ok .empty := by
  rw [CommandLine.Reading.configPath, hconfig, hsettings]
  rfl

theorem commandOf_file_entry (hsettings : world.configPath = none) (hempty : name ≠ "")
    (hdashes : name ≠ "--") :
    commandOf world ["--file=" ++ name, "--entry=" ++ entry] = .ok (fileCommand name entry) := by
  refine commandOf_eq_ok_iff.2 ⟨_, .empty, CommandLine.read_file_entry name entry,
    load_of_configPath hsettings rfl, ?_⟩
  refine map_eq_ok_iff.2 ⟨.file name, ?_, rfl⟩
  exact CommandLine.Reading.source_eq_file_iff.2
    ⟨CommandLine.nonempty?_holding hempty hdashes, rfl⟩

theorem commandOf_dashes (hsettings : world.configPath = none) :
    commandOf world ["--file=--", "--entry=" ++ entry] = .error (.usage .noSource) := by
  have hread := CommandLine.read_file_entry "--" entry
  change CommandLine.read ["--file=--", "--entry=" ++ entry] = _ at hread
  rw [commandOf, hread]
  dsimp only
  rw [load_of_configPath hsettings rfl]
  rfl

/-! ### From the command to the ending -/

theorem result_trees_fileCommand
    (hdecoded : decodeNamed world.folder world.input name = .ok trees) :
    ((fileCommand name entry).trees world).result = .ok trees := by
  refine Traced.result_bind_eq_ok_iff.2 ⟨trees, mapError_eq_ok_iff.2 hdecoded, ?_⟩
  exact Traced.result_bind_eq_ok_iff.2 ⟨(), rfl, rfl⟩

theorem result_lines_fileCommand
    (hdecoded : decodeNamed world.folder world.input name = .ok trees) :
    ((fileCommand name entry).lines world).result =
      (fileCommand name entry).path >>= fun path =>
        (documents trees path (.of (some CommandLine.defaultDepth) [] false)
          false).toExcept.mapError (Stop.map .unresolved) := by
  have hstages : ((fileCommand name entry).lines world).result =
      (fileCommand name entry).path >>= fun path =>
        (((fileCommand name entry).trees world) >>= fun trees =>
          (fileCommand name entry).flattened path [] trees).result := by
    rw [Command.lines, Traced.result_bind]
    rfl
  rw [hstages]
  simp only [Traced.result_bind, result_trees_fileCommand hdecoded]
  rfl

theorem path_fileCommand (hdashes : entry ≠ "--") :
    (fileCommand name entry).path = (Path.parse entry).mapError (Stop.map .malformed) := by
  rw [Command.path, fileCommand, CommandLine.holding, if_neg hdashes]

theorem stderr_run {c : Command} (hquiet : c.verbose = false) :
    (c.run world).stderr = ((c.run world).refusal.map Refusal.said).getD "" := by
  simp only [Command.run, hquiet]
  cases refusal? _ <;> simp

theorem ending_of_lines {lines : List String} (hopen : world.isOutputClosed = false)
    (hlines : ((fileCommand name entry).lines world).result = .ok lines)
    (hencoded : lines.findSome? (world.encodingError none) = none) :
    ((fileCommand name entry).run world).ending = .exited 0 ∧
      ((fileCommand name entry).run world).stderr = "" := by
  have hdone : (print world lines).2 = .ok () := by rw [result_print hopen, hencoded]
  have hrefusal : ((fileCommand name entry).run world).refusal = none := by
    rw [(run_of_asks (Command.result_lines_eq_ok_iff.1 hlines)).1]
    exact congrArg refusal? hdone
  exact ⟨exited_zero_iff.2 (.inl hrefusal), by rw [stderr_run rfl, hrefusal]; rfl⟩

theorem ending_of_unencodable {lines : List String} {reason : String}
    (hopen : world.isOutputClosed = false)
    (hlines : ((fileCommand name entry).lines world).result = .ok lines)
    (hreason : lines.findSome? (world.encodingError none) = some reason) :
    ((fileCommand name entry).run world).ending = .failed (.unencodable reason) := by
  have hfailed : (print world lines).2 = .error (.fault (.unencodable reason)) := by
    rw [result_print hopen, hreason]
  have hrefusal : ((fileCommand name entry).run world).refusal =
      some (.stopped (.fault (.unencodable reason))) := by
    rw [(run_of_asks (Command.result_lines_eq_ok_iff.1 hlines)).1]
    exact congrArg refusal? hfailed
  rw [Outcome.ending, hrefusal]
  rfl

theorem ending_of_stop {stop : Stop RunError}
    (hlines : ((fileCommand name entry).lines world).result = .error stop) :
    ((fileCommand name entry).run world).ending = (Refusal.stopped stop).ending ∧
      ((fileCommand name entry).run world).stdout = "" ∧
      ((fileCommand name entry).run world).stderr = (Refusal.stopped stop).said := by
  obtain ⟨hrefusal, hstdout, -⟩ := run_of_stop hlines
  refine ⟨by rw [Outcome.ending, hrefusal], hstdout, ?_⟩
  rw [stderr_run rfl, hrefusal]
  rfl

/-! ### All entries -/

/-- Whether an entry asks for some lines of documents. -/
def Shows (trees : List Tree) (entry : String) (lines : List String) : Prop :=
  ∃ path, Path.parse entry = .ok path ∧
    documents trees path (.of (some CommandLine.defaultDepth) [] false) false = ⟨lines, none⟩

/-- The faults at which an entry ends a run. -/
inductive EntryFault (world : World) (trees : List Tree) (entry : String) : Fault → Prop
  | dashes (h : entry = "--") : EntryFault world trees entry .listAsPath
  | longIndex {digits : Nat} (h : Path.StopsAtLongIndex entry digits) :
      EntryFault world trees entry (.longNumeral digits)
  | unencodable {lines : List String} {reason : String} (hdashes : entry ≠ "--")
      (hshows : Shows trees entry lines)
      (hreason : lines.findSome? (world.encodingError none) = some reason) :
      EntryFault world trees entry (.unencodable reason)

/-- The errors that an entry leads to. It is no path, or it leads nowhere in one of the
documents. -/
def EntryError (trees : List Tree) (entry : String) (e : RunError) : Prop :=
  (∃ cause, Path.parse entry = .error (.reported cause) ∧ e = .malformed cause) ∨
    ∃ path cause, Path.parse entry = .ok path ∧
      (∃ tree ∈ trees, tree.resolve path = .error (.reported cause)) ∧ e = .unresolved cause

/-- Whether an entry leads somewhere in all of the documents. -/
def LeadsSomewhere (trees : List Tree) (entry : String) : Prop :=
  ∃ path, Path.parse entry = .ok path ∧ ∀ tree ∈ trees, ∃ node, tree.resolve path = .ok node

/-- Whether some documents are what a file with a name stands for. Its text may not spell half of a
surrogate pair: the program keeps such a half, and no character stands for it. -/
structure DecodesTo (world : World) (name : String) (trees : List Tree) : Prop where
  decoded : decodeNamed world.folder world.input name = .ok trees
  spellsNoHalf : ∀ text, StandsFor world.folder world.input name text → ¬Yaml.SpellsHalf text

theorem DecodesTo.ne_empty (hdecoded : DecodesTo world name trees) : name ≠ "" := by
  rintro rfl
  cases hdecoded.decoded

/-- Two dashes are a path, although they are never read as one. -/
theorem not_stopsAtLongIndex_dashes (digits : Nat) : ¬Path.StopsAtLongIndex "--" digits := by
  intro h
  have hread : (Path.parse "--").isOk = true := by decide +kernel
  rw [Path.parse_eq_fault_iff.2 ⟨digits, h, rfl⟩] at hread
  cases hread

theorem result_lines_of_shows (hdecoded : decodeNamed world.folder world.input name = .ok trees)
    (hdashes : entry ≠ "--") {lines : List String} (hshows : Shows trees entry lines) :
    ((fileCommand name entry).lines world).result = .ok lines := by
  obtain ⟨path, hpath, hdocuments⟩ := hshows
  rw [result_lines_fileCommand hdecoded, path_fileCommand hdashes, hpath]
  exact mapError_eq_ok_iff.2 (Output.toExcept_eq_ok_iff.2 hdocuments)

theorem stdout_of_shows (hopen : world.isOutputClosed = false)
    (hdecoded : decodeNamed world.folder world.input name = .ok trees) (hdashes : entry ≠ "--")
    {lines : List String} (hshows : Shows trees entry lines) :
    ((fileCommand name entry).run world).stdout =
      Text.joinLines (lines.takeWhile fun line => (world.encodingError none line).isNone) := by
  have hlines := result_lines_of_shows hdecoded hdashes hshows
  rw [(run_of_asks (Command.result_lines_eq_ok_iff.1 hlines)).2.1]
  exact text_print hopen lines

theorem ending_of_entryFault (hopen : world.isOutputClosed = false)
    (hdecoded : decodeNamed world.folder world.input name = .ok trees) {fault : Fault}
    (hfault : EntryFault world trees entry fault) :
    ((fileCommand name entry).run world).ending = .failed fault := by
  have hlines := @result_lines_fileCommand world name entry trees hdecoded
  cases hfault with
  | dashes h =>
    subst h
    exact (ending_of_stop hlines).1
  | longIndex hstops =>
    have hdashes : entry ≠ "--" := by
      rintro rfl
      exact not_stopsAtLongIndex_dashes _ hstops
    rw [path_fileCommand hdashes, Path.parse_eq_fault_iff.2 ⟨_, hstops, rfl⟩] at hlines
    exact (ending_of_stop hlines).1
  | unencodable hdashes hshows hreason =>
    exact ending_of_unencodable hopen (result_lines_of_shows hdecoded hdashes hshows) hreason

/-- A command that is given a file and an entry prints lines, reports an error, or ends with one of
the faults of entries. -/
theorem fileCommand_cases (hopen : world.isOutputClosed = false)
    (hdecoded : decodeNamed world.folder world.input name = .ok trees) :
    (LeadsSomewhere trees entry ∧
      ((fileCommand name entry).run world).ending = .exited 0 ∧
      ((fileCommand name entry).run world).stderr = "") ∨
    (∃ e, EntryError trees entry e ∧
      ((fileCommand name entry).run world).ending = .exited 1 ∧
      ((fileCommand name entry).run world).stdout = "" ∧
      ((fileCommand name entry).run world).stderr = diagnostic e.message) ∨
    ∃ fault, EntryFault world trees entry fault := by
  by_cases hdashes : entry = "--"
  · exact .inr (.inr ⟨.listAsPath, .dashes hdashes⟩)
  have hlines := @result_lines_fileCommand world name entry trees hdecoded
  rw [path_fileCommand hdashes] at hlines
  cases hpath : Path.parse entry with
  | error stop =>
    cases stop with
    | fault f =>
      obtain ⟨digits, hstops, rfl⟩ := Path.parse_eq_fault_iff.1 hpath
      exact .inr (.inr ⟨_, .longIndex hstops⟩)
    | reported cause =>
      rw [hpath] at hlines
      exact .inr (.inl ⟨.malformed cause, .inl ⟨cause, hpath, rfl⟩, ending_of_stop hlines⟩)
  | ok path =>
    obtain ⟨nodes, hnodes, hdone⟩ | ⟨tree, htree, shown, stop, hstop, hstopped⟩ :=
      documents_cases trees path (.of (some CommandLine.defaultDepth) [] false) false
    · have hshows : Shows trees entry _ := ⟨path, hpath, hdone⟩
      cases hreason : List.findSome? (world.encodingError none) _ with
      | some reason => exact .inr (.inr ⟨_, .unencodable hdashes hshows hreason⟩)
      | none =>
        refine .inl ⟨⟨path, hpath, fun tree htree => ?_⟩, ending_of_lines hopen
          (result_lines_of_shows hdecoded hdashes hshows) hreason⟩
        obtain ⟨node, -, hnode⟩ := exists_of_forall₂ hnodes htree
        exact ⟨node, hnode⟩
    · rw [hpath] at hlines
      change _ = (Output.toExcept _).mapError _ at hlines
      rw [hstopped] at hlines
      cases stop with
      | fault f => exact absurd hstop (Path.resolve_ne_fault hpath)
      | reported cause =>
        exact .inr (.inl ⟨.unresolved cause, .inr ⟨path, cause, hpath, ⟨tree, htree, hstop⟩, rfl⟩,
          ending_of_stop hlines⟩)

/-- A run that is given a decodable file and an entry prints the lines below the entry, or it exits
with a diagnostic about the entry. The only exceptions are a file that is called by two dashes, and
three kinds of entries at which the run ends with a fault: two dashes, texts that are a path up to an
index of too many digits, and paths to a line that cannot be encoded. The lines before that one are
printed. -/
theorem run_file_entry (world : World) (name entry : String) (trees : List Tree)
    (hsettings : world.configPath = none) (hopen : world.isOutputClosed = false)
    (hdecoded : DecodesTo world name trees) :
    (name = "--" →
      (run world ["--file=" ++ name, "--entry=" ++ entry]).ending = .exited 2) ∧
    (name ≠ "--" →
      (∀ fault, (run world ["--file=" ++ name, "--entry=" ++ entry]).ending = .failed fault ↔
        EntryFault world trees entry fault) ∧
      ((∀ fault, ¬EntryFault world trees entry fault) →
        (LeadsSomewhere trees entry ∧
          (run world ["--file=" ++ name, "--entry=" ++ entry]).ending = .exited 0 ∧
          (run world ["--file=" ++ name, "--entry=" ++ entry]).stderr = "") ∨
        ∃ e, EntryError trees entry e ∧
          (run world ["--file=" ++ name, "--entry=" ++ entry]).ending = .exited 1 ∧
          (run world ["--file=" ++ name, "--entry=" ++ entry]).stdout = "" ∧
          (run world ["--file=" ++ name, "--entry=" ++ entry]).stderr = diagnostic e.message) ∧
      ∀ lines, entry ≠ "--" → Shows trees entry lines →
        (run world ["--file=" ++ name, "--entry=" ++ entry]).stdout =
          Text.joinLines (lines.takeWhile fun line => (world.encodingError none line).isNone)) := by
  constructor
  · rintro rfl
    have hcommand := @commandOf_dashes world entry hsettings
    exact exited_two_iff.2 ⟨.noSource, (run_of_refusal hcommand).1⟩
  · intro hdashes
    rw [run_of_command (commandOf_file_entry hsettings hdecoded.ne_empty hdashes)]
    have hcases := @fileCommand_cases world name entry trees hopen hdecoded.decoded
    have hending := @ending_of_entryFault world name entry trees hopen hdecoded.decoded
    refine ⟨fun fault => ⟨?_, hending⟩, ?_, ?_⟩
    · intro hfailed
      obtain ⟨-, hzero, -⟩ | ⟨e, -, hone, -⟩ | ⟨other, hother⟩ := hcases
      · cases hfailed.symm.trans hzero
      · cases hfailed.symm.trans hone
      · cases hfailed.symm.trans (hending hother)
        exact hother
    · intro hno
      obtain hzero | hone | ⟨fault, hfault⟩ := hcases
      · exact .inl hzero
      · exact .inr hone
      · exact absurd hfault (hno fault)
    · exact fun lines hentry => stdout_of_shows hopen hdecoded.decoded hentry

/-- An index of one digit more than can be read. -/
def zeros : String := String.ofList (Path.bracketed (List.replicate 4301 '0'))

theorem stopsAtLongIndex_zeros : Path.StopsAtLongIndex zeros 4301 := by
  have hdigits : Path.IsDigits (List.replicate 4301 '0') := by
    refine ⟨List.cons_ne_nil _ _, fun c hc => ?_⟩
    rw [List.eq_of_mem_replicate hc]
    rfl
  have hstops := Path.stopsAtLongIndex_bracketed hdigits
  rw [List.length_replicate] at hstops
  exact hstops (by decide)

theorem decodesTo_of_input {characters : List Char}
    (hinput : world.input = Text.Utf8.encode characters)
    (hplain : '\\' ∉ Text.unifyNewlines characters)
    (hdecoded : decodeNamed world.folder world.input "-" = .ok trees) : DecodesTo world "-" trees where
  decoded := hdecoded
  spellsNoHalf text hstands := by
    rw [hinput] at hstands
    rw [standsFor_standardInput_iff.1 hstands]
    exact Yaml.not_spellsHalf_of_not_mem hplain

/-- The path to the root leads somewhere, and two dashes and a long index end the run. -/
theorem dashes_and_long_index_end_run :
    (run twoDocuments ["--file=-", "--entry="]).ending = .exited 0 ∧
    (run twoDocuments ["--file=-", "--entry=--"]).ending = .failed .listAsPath ∧
    (run twoDocuments ["--file=-", "--entry=" ++ zeros]).ending = .failed (.longNumeral 4301) := by
  cases hdecoded : decodeNamed twoDocuments.folder twoDocuments.input "-" with
  | error stop =>
    have hok : (decodeNamed twoDocuments.folder twoDocuments.input "-").isOk = true := by
      decide +kernel
    rw [hdecoded] at hok
    cases hok
  | ok trees =>
    have hdecodes := decodesTo_of_input rfl (by decide +kernel) hdecoded
    have hentry : ∀ entry, _ := fun entry =>
      (run_file_entry twoDocuments "-" entry trees rfl rfl hdecodes).2 (by decide)
    refine ⟨?_, ((hentry "--").1 _).2 (.dashes rfl),
      ((hentry zeros).1 _).2 (.longIndex stopsAtLongIndex_zeros)⟩
    have hroot : ∀ fault, ¬EntryFault twoDocuments trees "" fault := by
      rintro fault (hdashes | hstops | ⟨-, -, hreason⟩)
      · exact absurd hdashes (by decide)
      · exact Path.not_stopsAtLongIndex_empty _ hstops
      · obtain ⟨line, -, hline⟩ := List.exists_of_findSome?_eq_some hreason
        cases hline
    obtain ⟨-, hzero, -⟩ | ⟨e, ⟨cause, hparse, -⟩ | ⟨path, cause, hparse, ⟨tree, -, h⟩, -⟩, -⟩ :=
      (hentry "").2.1 hroot
    · exact hzero
    · cases hparse
    · cases hparse
      cases h

end Treeline
