import Treeline.Proofs.Run.Lines

/-!
# From a command line to a command

A run has a command if its words can be read, the settings that they point to can be loaded, and
every word means something. It has lines if each stage of the command succeeds, and the first stage
that fails says why it has none. The stages fail in ways of their own, so an error tells its stage.
-/

namespace Treeline

variable {world : World} {words : List String} {c : Command}

/-! ### Words and settings -/

theorem commandOf_eq_ok_iff :
    commandOf world words = .ok c ↔
      ∃ reading settings, CommandLine.read words = .ok reading ∧
        Settings.load world.folder (reading.configPath world.configPath) world.stack =
          .ok settings ∧
        reading.command settings = .ok c := by
  unfold commandOf
  constructor
  · intro h
    split at h
    · cases h
    · cases h
    · rename_i reading hread
      split at h
      · cases h
      · rename_i settings hsettings
        exact ⟨reading, settings, hread, hsettings, mapError_eq_ok_iff.1 h⟩
  · rintro ⟨reading, settings, hread, hsettings, hcommand⟩
    rw [hread]
    dsimp only
    rw [hsettings]
    exact mapError_eq_ok_iff.2 hcommand

namespace CommandLine.Reading

variable {reading : Reading} {settings : Settings} {name kind : String}

theorem source_of_command (h : reading.command settings = .ok c) :
    reading.source = .ok c.source := by
  rw [command] at h
  split at h
  · cases h
  · obtain ⟨source, hsource, rfl⟩ := map_eq_ok_iff.1 h
    exact hsource

theorem source_eq_file_iff :
    reading.source = .ok (.file name) ↔
      (reading.word? .file).bind Argument.nonempty? = some name ∧ reading.object = [] := by
  rw [source]
  cases (reading.word? .file).bind Argument.nonempty? with
  | none => split <;> simp_all
  | some text => cases reading.object <;> simp

theorem source_eq_object_iff :
    reading.source = .ok (.object kind name) ↔
      (reading.word? .file).bind Argument.nonempty? = none ∧ reading.object = [kind, name] := by
  rw [source]
  cases (reading.word? .file).bind Argument.nonempty? with
  | none => split <;> simp_all
  | some text => cases reading.object <;> simp

end CommandLine.Reading

/-! ### Stages -/

namespace Command

variable {path : Path} {keys : List String} {trees : List Tree} {stop : Stop RunError}
  {e : RunError} {cause : FetchError}

/-- A command can ask for its documents: its path and its keys can be read. -/
def IsReady (c : Command) : Prop :=
  (∃ path, c.path = .ok path) ∧ ∃ keys, c.prunedKeys = .ok keys

theorem unresolved_of_flattened
    (h : (c.flattened path keys trees).result = .error (.reported e)) :
    ∃ cause, e = .unresolved cause := by
  unfold flattened at h
  cases hdepth : c.depth with
  | some depth =>
    rw [hdepth] at h
    obtain ⟨cause, -, rfl⟩ := mapError_eq_reported_iff.1 h
    exact ⟨cause, rfl⟩
  | none =>
    rw [hdepth] at h
    cases trees with
    | nil => cases h
    | cons root rest =>
      obtain h | ⟨node, -, h⟩ := Traced.result_bind_eq_error_iff.1 h
      · obtain ⟨cause, -, rfl⟩ := mapError_eq_reported_iff.1 h
        exact ⟨cause, rfl⟩
      · obtain h | ⟨_, -, h⟩ := Traced.result_bind_eq_error_iff.1 h <;> cases h

/-- Documents are missing because they cannot be decoded or because an object cannot be fetched. -/
theorem decode_or_fetch_of_trees (h : (c.trees world).result = .error (.reported e)) :
    (∃ cause, e = .decode cause) ∨ ∃ cause, e = .fetch cause := by
  unfold Command.trees at h
  split at h
  · obtain h | ⟨trees, -, h⟩ := Traced.result_bind_eq_error_iff.1 h
    · obtain ⟨cause, -, rfl⟩ := mapError_eq_reported_iff.1 h
      exact .inl ⟨cause, rfl⟩
    · obtain h | ⟨_, -, h⟩ := Traced.result_bind_eq_error_iff.1 h <;> cases h
  · obtain h | ⟨_, -, h⟩ := Traced.result_bind_eq_error_iff.1 h
    · cases h
    obtain h | ⟨cluster, -, h⟩ := Traced.result_bind_eq_error_iff.1 h
    · obtain ⟨cause, -, ⟨⟩⟩ := mapError_eq_error_iff.1 h
      exact .inr ⟨cause, rfl⟩
    obtain h | ⟨object, -, h⟩ := Traced.result_bind_eq_error_iff.1 h
    · obtain ⟨cause, -, ⟨⟩⟩ := mapError_eq_error_iff.1 h
      exact .inr ⟨cause, rfl⟩
    obtain h | ⟨tree, -, h⟩ := Traced.result_bind_eq_error_iff.1 h
    · obtain ⟨cause, -, rfl⟩ := mapError_eq_reported_iff.1 h
      exact .inl ⟨cause, rfl⟩
    obtain h | ⟨_, -, h⟩ := Traced.result_bind_eq_error_iff.1 h <;> cases h

/-- The stage at which a command without lines has failed. -/
theorem result_lines_eq_error_iff :
    (c.lines world).result = .error stop ↔
      c.path = .error stop ∨ ∃ path, c.path = .ok path ∧
        (c.prunedKeys = .error stop ∨ ∃ keys, c.prunedKeys = .ok keys ∧
          ((c.trees world).result = .error stop ∨ ∃ trees, (c.trees world).result = .ok trees ∧
            (c.flattened path keys trees).result = .error stop)) := by
  rw [Command.lines, Traced.result_bind_eq_error_iff]
  simp only [Traced.result_bind_eq_error_iff]
  rfl

end Command

end Treeline
