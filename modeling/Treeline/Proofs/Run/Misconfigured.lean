import Treeline.Proofs.Run.Unreadable
import Treeline.Proofs.Settings.Faults

/-!
# Runs with settings that cannot be read

A run whose settings are refused reports why, and delivers nothing. A settings file that causes a
fault is the exception, as a text that does so is among the documents.
-/

namespace Treeline

open Yaml

variable {world : World} {words : List String} {reading : CommandLine.Reading}

theorem run_of_unloaded (hread : CommandLine.read words = .ok reading) {stop : Stop ConfigError}
    (hload : Settings.load world.folder (reading.configPath world.configPath) world.stack =
      .error stop) :
    run world words = refused world (.stopped (stop.map .config)) := by
  have hcommand : commandOf world words = .error (.stopped (stop.map .config)) := by
    rw [commandOf, hread]
    dsimp only
    rw [hload]
  rw [run, hcommand]

/-- Settings are loaded or reported, or their file causes a fault. A file that is spoiled does end
with a fault, and among the files with shallow texts and simple graphs only those that are spoiled
do. A run answers accordingly: what is reported ends it with status one, and a fault breaks it
off. -/
theorem settings_are_loaded_or_reported_or_cause_fault (world : World) (path : Option String)
    (hroomy : Settings.IsRoomy world.stack) :
    ((∃ s, Settings.load world.folder path world.stack = .ok s) ∨
      (∃ e, Settings.load world.folder path world.stack = .error (.reported e)) ∨
      ∃ name fault, path = some name ∧ Settings.HasCause world.stack world.folder name fault ∧
        Settings.load world.folder path world.stack = .error (.fault fault)) ∧
    (∀ name, path = some name → name ≠ "" →
      (Settings.IsSpoiled world.folder name →
        ∃ fault, Settings.load world.folder path world.stack = .error (.fault fault)) ∧
      ∀ g, Settings.HoldsGraph world.folder name g → g.IsSimple →
        (∀ text, Settings.HoldsText world.folder name text → Settings.IsShallow text) →
        ((∃ fault, Settings.load world.folder path world.stack = .error (.fault fault)) ↔
          Settings.IsSpoiled world.folder name)) ∧
    ∀ words reading, CommandLine.read words = .ok reading →
      reading.configPath world.configPath = path →
      (∀ e, Settings.load world.folder path world.stack = .error (.reported e) →
        (run world words).Reports world e.message) ∧
      ∀ fault, Settings.load world.folder path world.stack = .error (.fault fault) →
        (run world words).BreaksOff world fault := by
  refine ⟨?_, ?_, ?_⟩
  · cases hload : Settings.load world.folder path world.stack with
    | ok s => exact .inl ⟨s, rfl⟩
    | error stop =>
      cases stop with
      | reported e => exact .inr (.inl ⟨e, rfl⟩)
      | fault fault =>
        obtain ⟨name, rfl, hname⟩ := Settings.exists_name_of_load hload
        exact .inr (.inr ⟨name, fault, rfl, Settings.hasCause_of_load hname hload, rfl⟩)
  · rintro name rfl hname
    refine ⟨Settings.load_of_isSpoiled hname, fun g hgraph hsimple hshallow => ?_⟩
    exact ⟨fun ⟨fault, h⟩ => Settings.isSpoiled_of_load hroomy hname hgraph hsimple hshallow h,
      Settings.load_of_isSpoiled hname⟩
  · rintro words reading hread rfl
    constructor
    · intro e hload
      rw [run_of_unloaded hread hload]
      exact ⟨rfl, ⟨rfl, rfl⟩, rfl⟩
    · intro fault hload
      rw [run_of_unloaded hread hload]
      exact ⟨rfl, ⟨rfl, rfl⟩, rfl⟩

/-- A world with a settings file and two documents. -/
def configured (bytes : List UInt8) : World :=
  { twoDocuments with folder := ⟨[(["rules"], .file bytes)]⟩ }

/-- The words that name the settings file and the documents. -/
def configuredWords : List String := ["--config=rules", "--file=-"]

theorem exists_reading_configuredWords :
    ∃ reading, CommandLine.read configuredWords = .ok reading ∧
      reading.configPath none = some "rules" := by
  have hread : ((CommandLine.read configuredWords).toOption.map fun reading =>
      reading.configPath none) = some (some "rules") := by decide +kernel
  obtain ⟨reading, hreading, hpath⟩ := Option.map_eq_some_iff.1 hread
  exact ⟨reading, toOption_eq_some_iff.1 hreading, hpath⟩

/-- A settings file with a byte that begins no character. -/
def strayByte : World := configured [0xFF]

theorem isSpoiled_strayByte : Settings.IsSpoiled strayByte.folder "rules" :=
  .bytes rfl (by decide)
    (Text.Utf8.exists_failure_iff.1 ⟨⟨0, 1, 0xFF, .invalidStart⟩, by decide +kernel⟩)

/-- A name that looks like a day, but there is no such month. -/
def monthText : List Char := "namespace: 2024-13-45\n".toList

def strayMonth : World := configured (Text.Utf8.encode monthText)

theorem isSpoiled_strayMonth : Settings.IsSpoiled strayMonth.folder "rules" := by
  have hgraph : ((Graph.singleOfText monthText).toOption.join.map fun g =>
      decide (g.IsSimple ∧ 2 ∈ (g.node g.root).content.children ∧
        (g.node 2).tag = Datum.ValueKind.time.tag ∧
        (g.node 2).content = .scalar "2024-13-45")) = some true := by decide +kernel
  obtain ⟨g, hsingle, hg⟩ := Option.map_eq_some_iff.1 hgraph
  obtain ⟨hsimple, hchild, htag, htext⟩ := of_decide_eq_true hg
  have hholds : Settings.HoldsGraph strayMonth.folder "rules" g :=
    ⟨monthText, ⟨monthText, rfl, by decide +kernel⟩, List.all_eq_true.1 (by decide +kernel),
      toOption_eq_some_iff.1 (Option.join_eq_some_iff.1 hsingle)⟩
  have hmisreads : g.Misreads 2 (.calendar .month) := by
    refine .text htag (.scalar htext) (fun _ => ?_) (Datum.misread_of_read rfl)
    rw [htext]
    rintro ⟨⟩
  exact .value hholds hsimple (.child .root hchild) hmisreads

def strayName : World := configured (Text.Utf8.encode "colour: blue\n".toList)

/-- A byte and a month break off their runs, but a name is reported. -/
theorem byte_and_month_break_off :
    (run strayByte configuredWords).BreaksOff strayByte
      (.undecodable ⟨0, 1, 0xFF, .invalidStart⟩) ∧
    (run strayMonth configuredWords).BreaksOff strayMonth (.calendar .month) ∧
    ∃ e : ConfigError, (run strayName configuredWords).Reports strayName e.message := by
  obtain ⟨reading, hread, hpath⟩ := exists_reading_configuredWords
  obtain ⟨-, hbyte, hbyteRun⟩ :=
    settings_are_loaded_or_reported_or_cause_fault strayByte (some "rules") fun _ _ _ => rfl
  obtain ⟨-, hmonth, hmonthRun⟩ :=
    settings_are_loaded_or_reported_or_cause_fault strayMonth (some "rules") fun _ _ _ => rfl
  obtain ⟨hname, -, hnameRun⟩ :=
    settings_are_loaded_or_reported_or_cause_fault strayName (some "rules") fun _ _ _ => rfl
  have hbyteEnd : (run strayByte configuredWords).ending =
      .failed (.undecodable ⟨0, 1, 0xFF, .invalidStart⟩) := by decide +kernel
  have hmonthEnd : (run strayMonth configuredWords).ending = .failed (.calendar .month) := by
    decide +kernel
  have hnameEnd : (run strayName configuredWords).ending = .exited 1 := by decide +kernel
  refine ⟨?_, ?_, ?_⟩
  · obtain ⟨fault, hload⟩ := (hbyte "rules" rfl (by decide)).1 isSpoiled_strayByte
    have hbreaks := (hbyteRun _ reading hread hpath).2 fault hload
    cases hbyteEnd.symm.trans hbreaks.1
    exact hbreaks
  · obtain ⟨fault, hload⟩ := (hmonth "rules" rfl (by decide)).1 isSpoiled_strayMonth
    have hbreaks := (hmonthRun _ reading hread hpath).2 fault hload
    cases hmonthEnd.symm.trans hbreaks.1
    exact hbreaks
  · obtain ⟨s, hload⟩ | ⟨e, hload⟩ | ⟨name, fault, -, -, hload⟩ := hname
    · have hnone : (Settings.load strayName.folder (some "rules") strayName.stack).isOk = false := by
        decide +kernel
      rw [hload] at hnone
      cases hnone
    · exact ⟨e, (hnameRun _ reading hread hpath).1 e hload⟩
    · cases hnameEnd.symm.trans ((hnameRun _ reading hread hpath).2 fault hload).1

end Treeline
