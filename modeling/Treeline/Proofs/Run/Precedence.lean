import Treeline.Proofs.CommandLine.Passes
import Treeline.Proofs.Run.Command

/-!
# Flags before settings, settings before defaults

The command of a run is what two passes over its words come to. The first one finds the settings and
the second one begins with them. So a flag wins over the settings, whatever the order of its words,
and what the settings cannot name is the same in both passes.
-/

namespace Treeline

open CommandLine

variable {world : World} {words : List String} {reading : Reading} {settings : Settings}

/-- Why a run ends whose words cannot be read. -/
def CommandLine.Halt.refusal : Halt → Refusal
  | .help => .help
  | .usage e => .usage e

/-- The forms that two passes over a command line fill in, and the settings between them. -/
structure Passes where
  first : Form
  settings : Settings
  second : Form

/-- Two passes over a command line. The second one begins with the settings to which the first one
leads. -/
def passes (world : World) (words : List String) : Except Refusal Passes := do
  let blank := Form.blank world.configPath
  let first ← (blank.pass words).mapError Halt.refusal
  let settings ← (Settings.load world.folder first.settingsPath world.stack).mapError fun stop =>
    .stopped (stop.map .config)
  let second ← ((blank.withSettings settings).pass words).mapError Halt.refusal
  return ⟨first, settings, second⟩

/-! ### Both passes in one -/

theorem load_nonempty (folder : Folder) (path : Option String) (stack : Stack) :
    Settings.load folder ((path.map Argument.word).bind Argument.nonempty?) stack =
      Settings.load folder path stack := by
  have hfilter : (((path.map Argument.word).bind Argument.nonempty?).filter (· != "")) =
      path.filter (· != "") := by
    cases path with
    | none => rfl
    | some name =>
      by_cases hname : name = ""
      · subst hname
        rfl
      · simp [Argument.nonempty?, hname]
  rw [Settings.load, Settings.load, hfilter]

theorem load_settingsPath (world : World) (reading : Reading) :
    Settings.load world.folder ((Form.blank world.configPath).after reading).settingsPath
        world.stack =
      Settings.load world.folder (reading.configPath world.configPath) world.stack := by
  rw [Form.settingsPath, Form.after_eq, Reading.configPath]
  cases reading.word? .config with
  | none => exact load_nonempty _ _ _
  | some argument => rfl

theorem second_eq (environment : Option String) (settings : Settings) (reading : Reading) :
    ((Form.blank environment).withSettings settings).after reading = {
      space := (reading.word? .space).getD (.word (settings.space.getD defaultSpace))
      entry := (reading.word? .entry).getD (.word "")
      file := reading.word? .file
      output := reading.word? .output
      kubeconfig := reading.word? .kubeconfig <|> settings.kubeconfig.map .word
      context := reading.word? .context <|> settings.context.map .word
      isInside := reading.isOn .inCluster
      timeout := match reading.timeout? with
        | some seconds => seconds.map .fractional
        | none => settings.timeout
      pure := reading.isOn .pure || settings.pure.getD false
      pruned := (settings.pruned.getD []).map .word ++ reading.words .prune
      depth := reading.depth?.getD (some (settings.depth.getD defaultDepth))
      absolute := reading.isOn .absolute || settings.absolute.getD false
      config := reading.word? .config <|> environment.map .word
      verbose := reading.isOn .verbose
      object := reading.object
      extras := reading.extras } := by
  rw [Form.after_eq, Form.mk.injEq, Form.withSettings, Form.blank]
  refine ⟨?_, ?_, ?_, ?_, ?_, ?_, ?_, ?_, ?_, ?_, ?_, ?_, ?_, ?_, rfl, rfl⟩
  · cases settings.space <;> cases reading.word? .space <;> rfl
  · cases reading.word? .entry <;> rfl
  · cases reading.word? .file <;> rfl
  · cases reading.word? .output <;> rfl
  · cases settings.kubeconfig <;> cases reading.word? .kubeconfig <;> rfl
  · cases settings.context <;> cases reading.word? .context <;> rfl
  · rfl
  · cases settings.timeout <;> cases reading.timeout? <;> rfl
  · exact Bool.or_comm _ _
  · cases settings.pruned <;> rfl
  · cases settings.depth <;> cases reading.depth? <;> rfl
  · exact Bool.or_comm _ _
  · cases reading.word? .config <;> cases environment <;> rfl
  · rfl

theorem command_after (environment : Option String) (settings : Settings) (reading : Reading) :
    (((Form.blank environment).withSettings settings).after reading).command =
      reading.command settings := by
  rw [second_eq, Form.command, Reading.command, Reading.source]
  dsimp only
  split
  · rfl
  · cases (reading.word? .file).bind Argument.nonempty? with
    | some name => cases reading.object <;> rfl
    | none => rcases reading.object with _ | ⟨kind, _ | ⟨name, _ | _⟩⟩ <;> rfl

theorem pass_blank (environment : Option String) (words : List String) :
    (Form.blank environment).pass words =
      (CommandLine.read words).map (Form.blank environment).after :=
  Form.pass_eq _ rfl rfl words

theorem pass_withSettings (environment : Option String) (settings : Settings)
    (words : List String) :
    ((Form.blank environment).withSettings settings).pass words =
      (CommandLine.read words).map ((Form.blank environment).withSettings settings).after :=
  Form.pass_eq _ rfl rfl words

/-- Both passes read the same, and the settings between them are those of the run. -/
theorem passes_eq_ok_iff {p : Passes} :
    passes world words = .ok p ↔
      ∃ reading settings, CommandLine.read words = .ok reading ∧
        Settings.load world.folder (reading.configPath world.configPath) world.stack =
          .ok settings ∧
        p = ⟨(Form.blank world.configPath).after reading, settings,
          ((Form.blank world.configPath).withSettings settings).after reading⟩ := by
  rw [passes, pass_blank]
  constructor
  · intro h
    obtain ⟨first, hfirst, h⟩ := bind_eq_ok_iff.1 h
    obtain ⟨reading, hread, rfl⟩ := map_eq_ok_iff.1 (mapError_eq_ok_iff.1 hfirst)
    obtain ⟨settings, hsettings, h⟩ := bind_eq_ok_iff.1 h
    rw [load_settingsPath] at hsettings
    obtain ⟨second, hsecond, h⟩ := bind_eq_ok_iff.1 h
    rw [pass_withSettings, hread] at hsecond
    cases hsecond
    cases h
    exact ⟨reading, settings, hread, mapError_eq_ok_iff.1 hsettings, rfl⟩
  · rintro ⟨reading, settings, hread, hsettings, rfl⟩
    rw [hread]
    refine bind_eq_ok_iff.2 ⟨_, rfl, bind_eq_ok_iff.2 ⟨settings, ?_, ?_⟩⟩
    · rw [load_settingsPath, hsettings]
      rfl
    · rw [pass_withSettings, hread]
      rfl

/-- The command of a run is what two passes come to. -/
theorem commandOf_eq_passes (world : World) (words : List String) :
    commandOf world words = passes world words >>= fun p => p.second.command.mapError .usage := by
  rw [commandOf, passes, pass_blank]
  simp only [pass_withSettings]
  cases CommandLine.read words with
  | error halt => cases halt <;> rfl
  | ok reading =>
    dsimp only
    rw [← load_settingsPath]
    simp only [Except.map, Except.mapError, bind, Except.bind]
    cases Settings.load world.folder _ world.stack with
    | error stop => rfl
    | ok settings =>
      dsimp only
      rw [← command_after world.configPath settings reading]
      rfl

theorem isOn_iff {switch : Switch} : reading.isOn switch = true ↔ .on switch ∈ reading.given := by
  rw [Reading.isOn, List.any_eq_true]
  constructor
  · rintro ⟨_ | _ | _ | _, hmem, h⟩
    · rwa [of_decide_eq_true h] at hmem
    all_goals cases h
  · intro hmem
    exact ⟨_, hmem, decide_eq_true rfl⟩

/-- The command of a run is what two passes over its words come to. The last word of a slot wins over
the settings, and the settings win over what holds by default. A switch is on if it is given or if
the settings turn it on. The keys to prune are those of the settings and then those that are given.
Whatever settings cannot name is the same in both passes, the settings file included. -/
theorem flags_win_over_settings (world : World) (words : List String) :
    (commandOf world words =
      passes world words >>= fun p => p.second.command.mapError .usage) ∧
    ∀ p, passes world words = .ok p → ∃ reading, CommandLine.read words = .ok reading ∧
      p.second.space =
        (reading.word? .space).getD (.word (p.settings.space.getD defaultSpace)) ∧
      p.second.kubeconfig = (reading.word? .kubeconfig <|> p.settings.kubeconfig.map .word) ∧
      p.second.context = (reading.word? .context <|> p.settings.context.map .word) ∧
      p.second.depth = reading.depth?.getD (some (p.settings.depth.getD defaultDepth)) ∧
      p.second.timeout = (match reading.timeout? with
        | some seconds => seconds.map .fractional
        | none => p.settings.timeout) ∧
      (p.second.pure = true ↔ .on .pure ∈ reading.given ∨ p.settings.pure = some true) ∧
      (p.second.absolute = true ↔ .on .absolute ∈ reading.given ∨ p.settings.absolute = some true) ∧
      p.second.pruned = (p.settings.pruned.getD []).map .word ++ reading.words .prune ∧
      (p.second.entry = p.first.entry ∧ p.second.file = p.first.file ∧
        p.second.output = p.first.output ∧ p.second.isInside = p.first.isInside ∧
        p.second.verbose = p.first.verbose ∧ p.second.object = p.first.object) ∧
      p.second.config = p.first.config ∧
        Settings.load world.folder p.second.settingsPath world.stack = .ok p.settings := by
  refine ⟨commandOf_eq_passes world words, ?_⟩
  intro p hp
  obtain ⟨reading, settings, hread, hsettings, rfl⟩ := passes_eq_ok_iff.1 hp
  have hsame : ∀ b : Option Bool, b.getD false = true ↔ b = some true := by
    rintro (_ | _ | _) <;> simp
  have hfirst := second_eq world.configPath .empty reading
  change (Form.blank _).after reading = _ at hfirst
  have hpath := load_settingsPath world reading
  rw [Form.settingsPath, hfirst, hsettings] at hpath
  refine ⟨reading, hread, ?_⟩
  dsimp only
  rw [second_eq, hfirst]
  refine ⟨rfl, rfl, rfl, rfl, rfl, ?_, ?_, rfl, ⟨rfl, rfl, rfl, rfl, rfl, rfl⟩, rfl, hpath⟩
  · rw [Bool.or_eq_true, isOn_iff, hsame]
  · rw [Bool.or_eq_true, isOn_iff, hsame]

/-- A world with a settings file that the environment names. -/
def ruledBySettings : World where
  folder := ⟨[(["rules"], .file (Text.Utf8.encode "namespace: web\ndepth: 2\nprune: [a]\n".toList))]⟩
  input := []
  configPath := some "rules"
  connect := fun _ => .error (Connection.failed "nobody there")
  isOutputClosed := false

/-- Words that name a namespace twice, a key to prune and no depth. -/
def twoNamespaces : List String := ["-n", "one", "--prune", "b", "-f", "-", "-n", "two"]

/-- The second namespace wins over the first one and over the settings, the depth comes from the
settings, and the keys to prune come from both. -/
theorem last_namespace_wins :
    ∃ p, passes ruledBySettings twoNamespaces = .ok p ∧ p.second.space = .word "two" ∧
      p.second.depth = some 2 ∧ p.second.pruned = [.word "a", .word "b"] ∧
      p.second.config = p.first.config := by
  have hsettings : (passes ruledBySettings twoNamespaces).toOption.map
      (fun p => (p.settings.depth, p.settings.pruned)) = some (some 2, some ["a"]) := by
    decide +kernel
  have hread : (CommandLine.read twoNamespaces).toOption.map (fun reading =>
      (reading.word? .space, reading.depth?, reading.words .prune)) =
        some (some (.word "two"), none, [.word "b"]) := by decide +kernel
  cases hpasses : passes ruledBySettings twoNamespaces with
  | error refusal =>
    rw [hpasses] at hsettings
    cases hsettings
  | ok p =>
    obtain ⟨reading, hreading, hspace, -, -, hdepth, -, -, -, hpruned, -, hconfig, -⟩ :=
      (flags_win_over_settings ruledBySettings twoNamespaces).2 p hpasses
    rw [hpasses] at hsettings
    rw [hreading] at hread
    simp only [Except.toOption, Option.map_some, Option.some.injEq, Prod.mk.injEq] at hsettings hread
    rw [hread.1] at hspace
    rw [hread.2.1, hsettings.1] at hdepth
    rw [hread.2.2, hsettings.2] at hpruned
    exact ⟨p, rfl, hspace, hdepth, hpruned, hconfig⟩

end Treeline
