import Treeline.Proofs.CommandLine.Passes
import Treeline.Proofs.Run.Delivery

/-!
# A verbose run does the same

The flag for a verbose run stands in front of the words. It is a word of its own, so the words behind
it are taken as they are without it, and what is read differs in this one flag. The command then
differs in nothing but whether it is verbose, which no stage asks for: the run notes the same things,
and at the end it says them or not.
-/

namespace Treeline

namespace CommandLine

theorem classify_verbose : classify "-v" = .ok (.flag ⟨"-v", .switch .verbose, none⟩) := by
  rfl

theorem classifyAll_verbose (texts : List String) :
    classifyAll ("-v" :: texts) =
      (classifyAll texts).map (.flag ⟨"-v", .switch .verbose, none⟩ :: ·) := by
  rw [classifyAll, if_neg (by decide), classify_verbose]
  cases classifyAll texts <;> rfl

theorem read_verbose (texts : List String) :
    CommandLine.read ("-v" :: texts) =
      (CommandLine.read texts).map (Reading.behind (.on .verbose)) := by
  rw [CommandLine.read, CommandLine.read, classifyAll_verbose]
  cases classifyAll texts with
  | error e => rfl
  | ok words =>
    -- the flag is the first thing that is given, and reading goes on behind it
    rw [← readFrom_behind]
    change readFrom _ _ (_ :: words) = _
    rw [readFrom]
    rfl

end CommandLine

open CommandLine

/-- The same command, but verbose. -/
def Command.verbosely (c : Command) : Command := { c with verbose := true }

theorem command_behind (reading : Reading) (settings : Settings) :
    (reading.behind (.on .verbose)).command settings =
      (reading.command settings).map Command.verbosely := by
  have hsource : (reading.behind (.on .verbose)).source = reading.source := rfl
  rw [Reading.command, Reading.command, hsource]
  change (if !reading.extras.isEmpty then _ else _) = _
  split
  · rfl
  · cases reading.source <;> rfl

theorem commandOf_verbose (world : World) (words : List String) :
    commandOf world ("-v" :: words) = (commandOf world words).map Command.verbosely := by
  rw [commandOf, commandOf, read_verbose]
  cases CommandLine.read words with
  | error halt => cases halt <;> rfl
  | ok reading =>
    have hpath : (reading.behind (.on .verbose)).configPath world.configPath =
        reading.configPath world.configPath := rfl
    simp only [Except.map]
    rw [hpath]
    cases Settings.load world.folder (reading.configPath world.configPath) world.stack with
    | error stop => rfl
    | ok settings =>
      dsimp only
      rw [command_behind]
      cases reading.command settings <;> rfl

/-! ### Notes that are said -/

/-- The part of the program that makes a note. -/
def Note.logger : Note → String
  | .found _ _ => "kubewalk.fetch"
  | .fetched _ => "kubewalk.fetch"
  | .decoded _ => "kubewalk.decode"
  | .resolved _ => "kubewalk.navigator"

def said (notes : List Note) : String :=
  String.join (notes.map fun note => diagnostic note.message)

theorem exists_text_behind {front logger word : String}
    (hfront : front = logger ++ (": " ++ word)) (rest : String) :
    ∃ text, front ++ rest = logger ++ (": " ++ text) := by
  refine ⟨word ++ rest, ?_⟩
  rw [hfront, String.append_assoc, String.append_assoc]

theorem exists_text_of_note (note : Note) :
    ∃ text, diagnostic note.message = program ++ ": " ++ note.logger ++ ": " ++ text ++ "\n" := by
  have hmessage : ∃ text, note.message = note.logger ++ (": " ++ text) := by
    cases note with
    | found kind resource =>
      unfold Note.message
      simp only [String.append_assoc]
      exact exists_text_behind (show _ = "kubewalk.fetch" ++ (": " ++ "resolved ") by decide) _
    | fetched request =>
      unfold Note.message
      simp only [String.append_assoc]
      exact exists_text_behind (show _ = "kubewalk.fetch" ++ (": " ++ "fetched ") by decide) _
    | decoded documents =>
      unfold Note.message
      simp only [String.append_assoc]
      exact exists_text_behind (show _ = "kubewalk.decode" ++ (": " ++ "decoded ") by decide) _
    | resolved segments =>
      unfold Note.message
      simp only [String.append_assoc]
      exact exists_text_behind (show _ = "kubewalk.navigator" ++ (": " ++ "resolved ") by decide) _
  obtain ⟨text, htext⟩ := hmessage
  refine ⟨text, ?_⟩
  rw [diagnostic, htext]
  simp only [String.append_assoc]

/-- A command that is made verbose has the same outcome, except that its notes are said in front of
what is said anyway, unless they have been said before. -/
theorem run_verbosely (world : World) (c : Command) :
    c.verbosely.run world =
      { c.run world with
        stderr := said (if c.verbose then [] else Event.notes (c.run world).events) ++
          (c.run world).stderr } := by
  have hsame : c.verbosely.lines world = c.lines world := rfl
  cases hverbose : c.verbose with
  | true =>
    have hc : c.verbosely = c := by
      rw [Command.verbosely, ← hverbose]
    rw [hc, if_pos rfl]
    exact congrArg (fun text => { c.run world with stderr := text }) String.empty_append.symm
  | false =>
    rw [Command.run, Command.run, hsame, hverbose]
    simp [Command.verbosely, said]

/-- A run with the flag for a verbose run in front of its words ends in the same way, prints the
same, leaves the same files behind and makes the same connections and requests. The only difference
is that notes of what it has done may be said first, each in a line that names the program and the
part of it that has made the note. -/
theorem verbose_run_differs_in_notes (world : World) (words : List String) :
    (run world ("-v" :: words)).ending = (run world words).ending ∧
    (run world ("-v" :: words)).refusal = (run world words).refusal ∧
    (run world ("-v" :: words)).stdout = (run world words).stdout ∧
    (run world ("-v" :: words)).folder = (run world words).folder ∧
    (run world ("-v" :: words)).events = (run world words).events ∧
    ∃ notes, (notes = [] ∨ notes = Event.notes (run world words).events) ∧
      (run world ("-v" :: words)).stderr =
        String.join (notes.map fun note => diagnostic note.message) ++ (run world words).stderr ∧
      ∀ note ∈ notes, ∃ text, diagnostic note.message =
        "kubectl-walk: " ++ note.logger ++ ": " ++ text ++ "\n" := by
  have hlines : ∀ notes : List Note, ∀ note ∈ notes, ∃ text, diagnostic note.message =
      "kubectl-walk: " ++ note.logger ++ ": " ++ text ++ "\n" :=
    fun _ note _ => exists_text_of_note note
  have hverbose := commandOf_verbose world words
  cases hcommand : commandOf world words with
  | error refusal =>
    rw [hcommand] at hverbose
    rw [run, run, hverbose, hcommand]
    exact ⟨rfl, rfl, rfl, rfl, rfl, [], .inl rfl, String.empty_append.symm, hlines []⟩
  | ok c =>
    rw [hcommand] at hverbose
    rw [run_of_command hverbose, run_of_command hcommand, run_verbosely]
    refine ⟨rfl, rfl, rfl, rfl, rfl, _, ?_, rfl, hlines _⟩
    split
    · exact .inl rfl
    · exact .inr rfl

end Treeline
