import Treeline.Proofs.Decode.Faults
import Treeline.Proofs.Folder.Write
import Treeline.Proofs.Run.Command

/-!
# All lines or none

A run delivers all the lines that its command asks for, to one place, or it delivers nothing. Only
when the lines are all there can something be left behind by a run that ends with an error: if they
cannot be written, the folders that were made for them stay. If a line cannot be encoded, the run
ends with a fault. The lines before it are printed then, and a file is left empty.
-/

namespace Treeline

/-- Whether a text is all that a run has delivered: to a file if there is a name for it, and to
standard output otherwise. -/
def Outcome.Delivers (out : Outcome) (world : World) (output : Option String) (text : String) :
    Prop :=
  match output with
  | none => out.stdout = text ∧ out.folder = world.folder
  | some name =>
    out.stdout = "" ∧ world.folder.Writes out.folder name (Text.Utf8.encode text.toList)

/-- Whether a run has failed because it could not write its lines. -/
def Refusal.isUnwritable : Refusal → Bool
  | .stopped (.reported (.unwritable _ _)) => true
  | _ => false

/-- Whether a run has delivered nothing. -/
def Outcome.DeliversNothing (out : Outcome) (world : World) : Prop :=
  out.stdout = "" ∧ out.folder = world.folder

variable {world : World} {words : List String} {c : Command} {lines : List String}

/-! ### Printing -/

/-- Printing fails at the first line that cannot be encoded, if somebody reads what is printed. -/
theorem result_print (hopen : world.isOutputClosed = false) (lines : List String) :
    (print world lines).2 = match lines.findSome? (world.encodingError none) with
      | some reason => .error (.fault (.unencodable reason))
      | none => .ok () := by
  induction lines with
  | nil => rfl
  | cons line lines ih =>
    rw [print, List.findSome?_cons]
    cases world.encodingError none line with
    | some reason => rfl
    | none =>
      dsimp only
      rw [hopen]
      exact ih

/-- The lines before that one are out. -/
theorem text_print (hopen : world.isOutputClosed = false) (lines : List String) :
    (print world lines).1 =
      Text.joinLines (lines.takeWhile fun line => (world.encodingError none line).isNone) := by
  induction lines with
  | nil => rfl
  | cons line lines ih =>
    rw [print, List.takeWhile_cons]
    cases world.encodingError none line with
    | some reason => rfl
    | none =>
      dsimp only
      rw [hopen]
      change line ++ "\n" ++ (print world lines).1 = _
      rw [ih]
      exact (String.join_cons).symm

theorem print_of_ok {lines : List String} {u : Unit} (hdone : (print world lines).2 = .ok u) :
    (print world lines).1 = Text.joinLines lines := by
  induction lines with
  | nil => rfl
  | cons line lines ih =>
    rw [print] at hdone ⊢
    split at hdone
    · cases hdone
    · split at hdone
      · cases hdone
      · rename_i hencoded hopen
        rw [if_neg hopen]
        change line ++ "\n" ++ (print world lines).1 = _
        rw [ih hdone]
        exact (String.join_cons).symm

theorem unwritable_of_print {e : RunError}
    (hfailed : (print world lines).2 = .error (.reported e)) :
    ∃ target cause, e = .unwritable target cause := by
  induction lines with
  | nil => cases hfailed
  | cons line lines ih =>
    rw [print] at hfailed
    split at hfailed
    · cases hfailed
    · split at hfailed
      · cases hfailed
        exact ⟨_, _, rfl⟩
      · exact ih hfailed

/-! ### Delivering -/

/-- A text that is written without an error can be encoded. -/
theorem writes_of_writeText {name text : String} {u : Unit}
    (hdone : (writeText world name text).2 = .ok u) :
    world.folder.Writes (writeText world name text).1 name (Text.Utf8.encode text.toList) := by
  rw [writeText] at hdone ⊢
  cases hencoded : world.encodingError (some name) text with
  | some reason =>
    rw [hencoded] at hdone
    obtain ⟨_, -, ⟨⟩⟩ := bind_eq_ok_iff.1 hdone
  | none =>
    rw [hencoded] at hdone
    exact Folder.writes_of_write (Prod.ext rfl (mapError_eq_ok_iff.1 hdone))

theorem unwritable_of_writeText {name text : String} {e : RunError}
    (hfailed : (writeText world name text).2 = .error (.reported e)) :
    ∃ target cause, e = .unwritable target cause := by
  rw [writeText] at hfailed
  split at hfailed
  · obtain hfailed | ⟨_, -, ⟨⟩⟩ := bind_eq_error_iff.1 hfailed
    obtain ⟨cause, -, rfl⟩ := mapError_eq_reported_iff.1 hfailed
    exact ⟨name, cause, rfl⟩
  · obtain ⟨cause, -, rfl⟩ := mapError_eq_reported_iff.1 hfailed
    exact ⟨name, cause, rfl⟩

theorem delivers_of_deliver {out : Outcome} {output : Option String} {u : Unit}
    (hdone : (deliver world output lines).result = .ok u)
    (hstdout : out.stdout = (deliver world output lines).stdout)
    (hfolder : out.folder = (deliver world output lines).folder) :
    out.Delivers world output (Text.joinLines lines) := by
  cases output with
  | none => exact ⟨hstdout.trans (print_of_ok hdone), hfolder⟩
  | some name =>
    refine ⟨hstdout, ?_⟩
    rw [hfolder]
    exact writes_of_writeText hdone

theorem unwritable_of_deliver {output : Option String} {e : RunError}
    (hfailed : (deliver world output lines).result = .error (.reported e)) :
    ∃ target cause, e = .unwritable target cause := by
  cases output with
  | none => exact unwritable_of_print hfailed
  | some name => exact unwritable_of_writeText hfailed

theorem run_of_asks (hlines : c.Asks world lines) :
    (c.run world).refusal = refusal? (deliver world c.output lines).result ∧
      (c.run world).stdout = (deliver world c.output lines).stdout ∧
      (c.run world).folder = (deliver world c.output lines).folder := by
  have hresult := Command.result_lines_eq_ok_iff.2 hlines
  rw [Command.run, hresult]
  exact ⟨rfl, rfl, rfl⟩

theorem run_of_stop {stop : Stop RunError} (hstop : (c.lines world).result = .error stop) :
    (c.run world).refusal = some (.stopped stop) ∧ (c.run world).DeliversNothing world := by
  rw [Command.run, hstop]
  exact ⟨rfl, rfl, rfl⟩

/-- The outcome of a run without a command. Only help is shown then. -/
theorem run_of_refusal {refusal : Refusal} (hrefused : commandOf world words = .error refusal) :
    (run world words).refusal = some refusal ∧
      (refusal ≠ .help → (run world words).DeliversNothing world) := by
  rw [run, hrefused]
  refine ⟨rfl, fun hhelp => ⟨?_, rfl⟩⟩
  cases refusal with
  | help => exact absurd rfl hhelp
  | usage e => rfl
  | stopped stop => rfl

theorem run_of_command (hcommand : commandOf world words = .ok c) :
    run world words = c.run world := by
  rw [run, hcommand]

/-- The place for the lines is the last one that the command line names. Settings cannot name one. -/
theorem exists_reading_of_command (hcommand : commandOf world words = .ok c) :
    ∃ reading, CommandLine.read words = .ok reading ∧
      c.output = (reading.word? .output).bind Argument.nonempty? := by
  obtain ⟨reading, settings, hread, -, hc⟩ := commandOf_eq_ok_iff.1 hcommand
  refine ⟨reading, hread, ?_⟩
  rw [CommandLine.Reading.command] at hc
  split at hc
  · cases hc
  · obtain ⟨source, -, rfl⟩ := map_eq_ok_iff.1 hc
    rfl

/-! ### The whole run -/

/-- How a run can go: there is no command; it stops before its lines are all there; or the lines are
all there, and they are delivered or cannot be written. -/
theorem run_cases (world : World) (words : List String) :
    (∃ refusal, commandOf world words = .error refusal ∧
      (run world words).refusal = some refusal ∧
      (refusal ≠ .help → (run world words).DeliversNothing world)) ∨
    (∃ c stop, commandOf world words = .ok c ∧ (∀ lines, ¬c.Asks world lines) ∧
      (run world words).refusal = some (.stopped stop) ∧
      (run world words).DeliversNothing world) ∨
    ∃ c lines, commandOf world words = .ok c ∧ c.Asks world lines ∧
      (((run world words).refusal = none ∧
        (run world words).Delivers world c.output (Text.joinLines lines)) ∨
      (∃ target cause,
        (run world words).refusal = some (.stopped (.reported (.unwritable target cause)))) ∨
      ∃ f, (run world words).refusal = some (.stopped (.fault f))) := by
  cases hcommand : commandOf world words with
  | error refusal => exact .inl ⟨refusal, rfl, run_of_refusal hcommand⟩
  | ok c =>
    refine .inr ?_
    rw [run_of_command hcommand]
    cases hlines : (c.lines world).result with
    | error stop =>
      refine .inl ⟨c, stop, rfl, fun lines hasks => ?_, run_of_stop hlines⟩
      rw [Command.result_lines_eq_ok_iff.2 hasks] at hlines
      cases hlines
    | ok lines =>
      have hasks := Command.result_lines_eq_ok_iff.1 hlines
      obtain ⟨hrefusal, hstdout, hfolder⟩ := run_of_asks hasks
      refine .inr ⟨c, lines, rfl, hasks, ?_⟩
      cases hdone : (deliver world c.output lines).result with
      | ok u =>
        rw [hdone] at hrefusal
        exact .inl ⟨hrefusal, delivers_of_deliver hdone hstdout hfolder⟩
      | error stop =>
        rw [hdone] at hrefusal
        cases stop with
        | reported e =>
          obtain ⟨target, cause, rfl⟩ := unwritable_of_deliver hdone
          exact .inr (.inl ⟨target, cause, hrefusal⟩)
        | fault f => exact .inr (.inr ⟨f, hrefusal⟩)

theorem exited_zero_iff {out : Outcome} :
    out.ending = .exited 0 ↔ out.refusal = none ∨ out.refusal = some .help := by
  rw [Outcome.ending]
  rcases out.refusal with _ | _ | _ | _ | _ <;> simp [Refusal.ending]

theorem exited_one_iff {out : Outcome} :
    out.ending = .exited 1 ↔ ∃ e, out.refusal = some (.stopped (.reported e)) := by
  rw [Outcome.ending]
  rcases out.refusal with _ | _ | _ | _ | _ <;> simp [Refusal.ending]

theorem exited_two_iff {out : Outcome} :
    out.ending = .exited 2 ↔ ∃ e, out.refusal = some (.usage e) := by
  rw [Outcome.ending]
  rcases out.refusal with _ | _ | _ | _ | _ <;> simp [Refusal.ending]

theorem delivers_of_exited_zero (hending : (run world words).ending = .exited 0)
    (hhelp : commandOf world words ≠ .error .help) :
    ∃ reading c lines, CommandLine.read words = .ok reading ∧ commandOf world words = .ok c ∧
      c.Asks world lines ∧ (run world words).Delivers world
        ((reading.word? .output).bind Argument.nonempty?) (Text.joinLines lines) := by
  rw [exited_zero_iff] at hending
  obtain ⟨refusal, hcommand, hrefusal, -⟩ | ⟨c, stop, -, -, hrefusal, -⟩ |
    ⟨c, lines, hcommand, hasks, hdone⟩ := run_cases world words
  · obtain hnone | hsome := hending
    · cases hnone.symm.trans hrefusal
    · cases hsome.symm.trans hrefusal
      exact absurd hcommand hhelp
  · simp [hrefusal] at hending
  · obtain ⟨reading, hread, houtput⟩ := exists_reading_of_command hcommand
    rw [houtput] at hdone
    refine ⟨reading, c, lines, hread, hcommand, hasks, ?_⟩
    obtain ⟨-, hdelivers⟩ | ⟨target, cause, hrefusal⟩ | ⟨f, hrefusal⟩ := hdone
    · exact hdelivers
    · simp [hrefusal] at hending
    · simp [hrefusal] at hending

theorem deliversNothing_of_no_lines (hhelp : commandOf world words ≠ .error .help)
    (hlines : ∀ c lines, commandOf world words = .ok c → ¬c.Asks world lines) :
    (run world words).DeliversNothing world := by
  obtain ⟨refusal, hcommand, -, hnothing⟩ | ⟨c, stop, -, -, -, hnothing⟩ |
    ⟨c, lines, hcommand, hasks, -⟩ := run_cases world words
  · refine hnothing ?_
    rintro rfl
    exact hhelp hcommand
  · exact hnothing
  · exact absurd hasks (hlines c lines hcommand)

theorem deliversNothing_of_refusal {refusal : Refusal}
    (hrefusal : (run world words).refusal = some refusal) (hhelp : refusal ≠ .help)
    (hfault : ∀ f, refusal ≠ .stopped (.fault f)) (hwritable : refusal.isUnwritable = false) :
    (run world words).DeliversNothing world := by
  obtain ⟨other, -, hother, hnothing⟩ | ⟨c, stop, -, -, -, hnothing⟩ |
    ⟨c, lines, -, -, hdone⟩ := run_cases world words
  · refine hnothing ?_
    rintro rfl
    exact hhelp (Option.some.inj (hrefusal.symm.trans hother))
  · exact hnothing
  · obtain ⟨hnone, -⟩ | ⟨target, cause, hsome⟩ | ⟨f, hsome⟩ := hdone
    · cases hrefusal.symm.trans hnone
    · cases hrefusal.symm.trans hsome
      cases hwritable
    · exact absurd (Option.some.inj (hrefusal.symm.trans hsome)) (hfault f)

theorem exited_zero_of_asks (hcommand : commandOf world words = .ok c) (hasks : c.Asks world lines)
    (houtput : c.output = none) (hopen : world.isOutputClosed = false)
    (hencoded : ∀ line ∈ lines, world.encodingError none line = none) :
    (run world words).ending = .exited 0 := by
  have hdone : (deliver world none lines).result = .ok () := by
    change (print world lines).2 = _
    rw [result_print hopen, List.findSome?_eq_none_iff.2 hencoded]
  rw [exited_zero_iff, run_of_command hcommand, (run_of_asks hasks).1, houtput, hdone]
  exact .inl rfl

/-- A run that does what its command asks for delivers all the lines of the flattened documents, to
one place. A run without a command, or one that reports an error before its lines are all there,
delivers nothing. Lines that are all there are delivered if somebody reads standard output and each
of them can be encoded. Half of a surrogate pair cannot be, so the documents may not spell one. -/
theorem run_delivers_all_or_nothing (world : World) (words : List String) :
    ((run world words).ending = .exited 0 → commandOf world words ≠ .error .help →
      ∃ reading c lines, CommandLine.read words = .ok reading ∧ commandOf world words = .ok c ∧
        c.Asks world lines ∧ (run world words).Delivers world
          ((reading.word? .output).bind Argument.nonempty?) (Text.joinLines lines)) ∧
    ((run world words).ending = .exited 2 → (run world words).DeliversNothing world) ∧
    ((run world words).ending = .exited 1 →
      (run world words).refusal.any Refusal.isUnwritable = false →
        (run world words).DeliversNothing world) ∧
    (commandOf world words ≠ .error .help →
      (∀ c lines, commandOf world words = .ok c → ¬c.Asks world lines) →
        (run world words).DeliversNothing world) ∧
    ∀ c lines, commandOf world words = .ok c → c.Asks world lines → c.output = none →
      world.isOutputClosed = false → (∀ line ∈ lines, world.encodingError none line = none) →
      (∀ name text, c.source = .file name → StandsFor world.folder world.input name text →
        ¬Yaml.SpellsHalf text) →
      (run world words).ending = .exited 0 := by
  refine ⟨delivers_of_exited_zero, ?_, ?_, deliversNothing_of_no_lines, ?_⟩
  · intro hending
    obtain ⟨e, h⟩ := exited_two_iff.1 hending
    exact deliversNothing_of_refusal h nofun nofun rfl
  · intro hending hwritable
    obtain ⟨e, h⟩ := exited_one_iff.1 hending
    rw [h] at hwritable
    exact deliversNothing_of_refusal h nofun nofun hwritable
  · intro c lines hcommand hasks houtput hopen hencoded _
    exact exited_zero_of_asks hcommand hasks houtput hopen hencoded

def twoDocuments : World where
  folder := .empty
  input := Text.Utf8.encode "a: 1\n---\nb: 2\n".toList
  configPath := none
  connect := fun _ => .error (Connection.failed "nobody there")
  isOutputClosed := false

/-- Both documents are delivered, but none of their lines if a path leads nowhere in the second one,
if there is no depth to flatten to, or if a word too many stands on the command line. -/
theorem two_documents_are_delivered_together :
    (∃ reading c lines, CommandLine.read ["-f", "-"] = .ok reading ∧
      commandOf twoDocuments ["-f", "-"] = .ok c ∧ c.Asks twoDocuments lines ∧
      (run twoDocuments ["-f", "-"]).ending = .exited 0 ∧
      (run twoDocuments ["-f", "-"]).Delivers twoDocuments
        ((reading.word? .output).bind Argument.nonempty?) (Text.joinLines lines)) ∧
    (run twoDocuments ["-f", "-", "-e", "a"]).ending = .exited 1 ∧
    (run twoDocuments ["-f", "-", "-e", "a"]).DeliversNothing twoDocuments ∧
    (run twoDocuments ["-f", "-", "--depth=--"]).ending = .failed .listAsNumber ∧
    (run twoDocuments ["-f", "-", "--depth=--"]).DeliversNothing twoDocuments ∧
    (run twoDocuments ["-f", "-", "pod"]).ending = .exited 2 ∧
    (run twoDocuments ["-f", "-", "pod"]).DeliversNothing twoDocuments := by
  have hpath : (run twoDocuments ["-f", "-", "-e", "a"]).ending = .exited 1 := by decide +kernel
  have hdepth : (run twoDocuments ["-f", "-", "--depth=--"]).ending = .failed .listAsNumber := by
    decide +kernel
  have husage : (run twoDocuments ["-f", "-", "pod"]).ending = .exited 2 := by decide +kernel
  have hhelp : ∀ {words : List String}, (commandOf twoDocuments words).toOption.isSome = true →
      commandOf twoDocuments words ≠ .error .help := by
    intro words hsome h
    rw [h] at hsome
    cases hsome
  have hplaces : ∀ {words : List String} {c : Command}, commandOf twoDocuments words = .ok c →
      (commandOf twoDocuments words).toOption.map (fun c => (c.source, c.output)) =
        some (.file standardInput, none) → c.source = .file standardInput ∧ c.output = none := by
    intro words c hcommand h
    rw [hcommand] at h
    exact Prod.mk.inj (Option.some.inj h)
  have hhalves : ∀ {c : Command}, c.source = .file standardInput → ∀ name text,
      c.source = .file name → StandsFor twoDocuments.folder twoDocuments.input name text →
        ¬Yaml.SpellsHalf text := by
    intro c hsource name text hname hstands
    obtain rfl : standardInput = name := DocumentSource.file.inj (hsource.symm.trans hname)
    rw [standsFor_standardInput_iff.1 hstands]
    exact Yaml.not_spellsHalf_of_not_mem (by decide +kernel)
  obtain ⟨reading, c, lines, hread, hcommand, hasks, hdelivers⟩ :=
    (run_delivers_all_or_nothing twoDocuments ["-f", "-"]).1 (by decide +kernel)
      (hhelp (by decide +kernel))
  obtain ⟨hsource, houtput⟩ := hplaces hcommand (by decide +kernel)
  have hending := (run_delivers_all_or_nothing twoDocuments ["-f", "-"]).2.2.2.2 c lines hcommand
    hasks houtput rfl (fun _ _ => rfl) (hhalves hsource)
  have hnoLines : ∀ c lines, commandOf twoDocuments ["-f", "-", "--depth=--"] = .ok c →
      ¬c.Asks twoDocuments lines := by
    intro c lines hcommand hasks
    obtain ⟨hsource, houtput⟩ := hplaces hcommand (by decide +kernel)
    have hzero := (run_delivers_all_or_nothing _ _).2.2.2.2 c lines hcommand hasks houtput rfl
      (fun _ _ => rfl) (hhalves hsource)
    cases hdepth.symm.trans hzero
  exact ⟨⟨reading, c, lines, hread, hcommand, hasks, hending, hdelivers⟩,
    hpath, (run_delivers_all_or_nothing _ _).2.2.1 hpath (by decide +kernel),
    hdepth, (run_delivers_all_or_nothing _ _).2.2.2.1 (hhelp (by decide +kernel)) hnoLines,
    husage, (run_delivers_all_or_nothing _ _).2.1 husage⟩

end Treeline
