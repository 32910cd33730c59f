import Treeline.Proofs.Decode.Faults
import Treeline.Proofs.Run.Entry

/-!
# Runs with documents that cannot be decoded

A run that cannot decode its documents reports why, and delivers nothing. The exceptions are texts
that cause a fault: the run ends with the fault then, and says nothing.
-/

namespace Treeline

open Yaml

variable {world : World} {words : List String} {c : Command} {name : String}
  {stop : Stop DecodeError} {e : DecodeError} {fault : Fault}

/-- Whether a run has delivered nothing but a diagnostic. -/
def Outcome.Reports (out : Outcome) (world : World) (message : String) : Prop :=
  out.ending = .exited 1 ∧ out.DeliversNothing world ∧ out.stderr = diagnostic message

/-- Whether a run has ended with a fault, without a word. -/
def Outcome.BreaksOff (out : Outcome) (world : World) (fault : Fault) : Prop :=
  out.ending = .failed fault ∧ out.DeliversNothing world ∧ out.stderr = ""

theorem lines_of_undecoded (hsource : c.source = .file name) (hready : c.IsReady)
    (hdecode : decodeNamed world.folder world.input name = .error stop) :
    c.lines world = ⟨[], .error (stop.map .decode)⟩ := by
  obtain ⟨⟨path, hpath⟩, keys, hkeys⟩ := hready
  have htrees : c.trees world = ⟨[], .error (stop.map .decode)⟩ := by
    rw [Command.trees, hsource]
    dsimp only
    rw [hdecode]
    rfl
  rw [Command.lines, hpath, hkeys, htrees]
  rfl

theorem run_of_undecoded (hcommand : commandOf world words = .ok c)
    (hsource : c.source = .file name) (hready : c.IsReady)
    (hdecode : decodeNamed world.folder world.input name = .error stop) :
    run world words = refused world (.stopped (stop.map .decode)) := by
  rw [run_of_command hcommand, Command.run, lines_of_undecoded hsource hready hdecode]
  have hlog : (if c.verbose then String.join [] else "") = "" := by split <;> rfl
  change (⟨_, _, (if c.verbose then String.join [] else "") ++ _, _, _⟩ : Outcome) = _
  rw [hlog, String.empty_append]
  rfl

theorem reports_of_undecoded (hcommand : commandOf world words = .ok c)
    (hsource : c.source = .file name) (hready : c.IsReady)
    (hdecode : decodeNamed world.folder world.input name = .error (.reported e)) :
    (run world words).Reports world e.message := by
  rw [run_of_undecoded hcommand hsource hready hdecode]
  exact ⟨rfl, ⟨rfl, rfl⟩, rfl⟩

theorem breaksOff_of_undecoded (hcommand : commandOf world words = .ok c)
    (hsource : c.source = .file name) (hready : c.IsReady)
    (hdecode : decodeNamed world.folder world.input name = .error (.fault fault)) :
    (run world words).BreaksOff world fault := by
  rw [run_of_undecoded hcommand hsource hready hdecode]
  exact ⟨rfl, ⟨rfl, rfl⟩, rfl⟩

/-- Every text is decoded or reported, unless it causes a fault, and there are texts at which
decoding does end with a fault. A run answers accordingly: what cannot be decoded is reported with
status one, but at a fault, and at a file name with a null character, the run breaks off. -/
theorem text_is_decoded_or_reported_or_causes_fault (limit : Int) (text : List Char) :
    ((∃ trees, decodeText limit text = .ok trees) ∨
      (∃ e, decodeText limit text = .error (.reported e)) ∨
      ∃ fault, decodeText limit text = .error (.fault fault) ∧ Causes text fault) ∧
    (∀ fault, (∀ x ∈ text, isAllowed x = true) → StopsAt text fault →
      decodeText limit text = .error (.fault fault)) ∧
    ∀ world words c name, commandOf world words = .ok c → c.source = .file name → c.IsReady →
      ((∃ trees, decodeNamed world.folder world.input name = .ok trees) ∨
        (∃ e, decodeNamed world.folder world.input name = .error (.reported e) ∧
          (run world words).Reports world e.message) ∨
        (Folder.holdsNull name = true ∧ (run world words).BreaksOff world .nullInName) ∨
        ∃ shown fault, StandsFor world.folder world.input name shown ∧ Causes shown fault ∧
          (run world words).BreaksOff world fault) ∧
      (StandsFor world.folder world.input name text → ∀ fault,
        (∀ x ∈ text, isAllowed x = true) → StopsAt text fault →
        (run world words).BreaksOff world fault) := by
  refine ⟨decodeSource_cases limit (.ofText text),
    fun fault hallowed hstops => decodeSource_of_stopsAt hallowed hstops, ?_⟩
  intro world words c name hcommand hsource hready
  refine ⟨?_, fun hstands fault hallowed hstops =>
    breaksOff_of_undecoded hcommand hsource hready
      (decodeNamed_of_stopsAt hstands hallowed hstops)⟩
  obtain hok | ⟨e, he⟩ | ⟨hnull, hfault⟩ | ⟨shown, fault, hstands, hcauses, hfault⟩ :=
    decodeNamed_cases world.folder world.input name
  · exact .inl hok
  · exact .inr (.inl ⟨e, he, reports_of_undecoded hcommand hsource hready he⟩)
  · exact .inr (.inr (.inl ⟨hnull, breaksOff_of_undecoded hcommand hsource hready hfault⟩))
  · exact .inr (.inr (.inr ⟨shown, fault, hstands, hcauses,
      breaksOff_of_undecoded hcommand hsource hready hfault⟩))

/-- A world with a text on standard input and nothing else. -/
def showing (text : String) : World := { twoDocuments with input := Text.Utf8.encode text.toList }

theorem commandOf_showing (text : String) :
    commandOf (showing text) ["--file=-", "--entry="] = .ok (fileCommand "-" "") :=
  @commandOf_file_entry (showing text) "-" "" rfl (by decide) (by decide)

theorem isReady_fileCommand : (fileCommand "-" "").IsReady := ⟨⟨[], rfl⟩, [], rfl⟩

/-- The code behind the last character, in quotes. -/
def wideCode : String := "\"\\U00110000\""

theorem stopsAt_wideCode : StopsAt wideCode.toList .characterCode :=
  @StopsAt.code [] "00110000".toList ['\x22'] (by simp)
    ⟨by decide, List.all_eq_true.1 (by decide), by decide⟩

theorem standsFor_wideCode :
    StandsFor (showing wideCode).folder (showing wideCode).input "-" wideCode.toList :=
  ⟨_, wideCode.toList, if_pos rfl, by rfl, by rfl⟩

/-- A version with a second number of many digits. -/
def longVersion (count : Nat) : List Char :=
  "%YAML ".toList ++
    (List.replicate 0 ' ' ++ (['1'] ++ '.' :: (List.replicate count '0' ++ ['\n'])))

theorem stopsAt_longVersion {count : Nat} (hlong : Numeral.maxDigits < count) :
    StopsAt (longVersion count) (.longNumeral count) := by
  have hdigits : ∀ d ∈ List.replicate count '0', isDigit d = true := by
    intro d hd
    rw [List.eq_of_mem_replicate hd]
    rfl
  have hstops := @StopsAt.minor ['1'] (List.replicate count '0') ['\n'] 0 (by simp [isDigit])
    (by simp) (by decide) hdigits
  rw [List.length_replicate] at hstops
  exact hstops hlong (by simp [isDigit])

theorem isAllowed_longVersion (count : Nat) : ∀ x ∈ longVersion count, isAllowed x = true := by
  have hdigits : ∀ x ∈ List.replicate count '0', isAllowed x = true := by
    intro x hx
    rw [List.eq_of_mem_replicate hx]
    rfl
  have hname : ∀ x ∈ "%YAML ".toList, isAllowed x = true := List.all_eq_true.1 (by decide)
  refine List.forall_mem_append.2 ⟨hname, List.forall_mem_append.2 ⟨by simp, ?_⟩⟩
  refine List.forall_mem_append.2 ⟨by simp [isAllowed], List.forall_mem_cons.2 ⟨rfl, ?_⟩⟩
  exact List.forall_mem_append.2 ⟨hdigits, by simp [isAllowed]⟩

/-- The code behind the last character breaks off a run, and a long version is not decoded either.
A bracket that is left open is reported. -/
theorem wide_code_breaks_off :
    decodeText maxNodes (longVersion 4301) = .error (.fault (.longNumeral 4301)) ∧
    (run (showing wideCode) ["--file=-", "--entry="]).BreaksOff (showing wideCode)
      .characterCode ∧
    ∃ e, (run (showing "[") ["--file=-", "--entry="]).Reports (showing "[") e := by
  have hlong := text_is_decoded_or_reported_or_causes_fault maxNodes (longVersion 4301)
  have hwide := (text_is_decoded_or_reported_or_causes_fault maxNodes wideCode.toList).2.2
    _ _ _ _ (commandOf_showing wideCode) rfl isReady_fileCommand
  have hopen := (text_is_decoded_or_reported_or_causes_fault maxNodes ['[']).2.2
    _ _ _ _ (commandOf_showing "[") rfl isReady_fileCommand
  have hbracket : (run (showing "[") ["--file=-", "--entry="]).ending = .exited 1 := by
    decide +kernel
  refine ⟨hlong.2.1 _ (isAllowed_longVersion 4301) (stopsAt_longVersion (by decide)),
    hwide.2 standsFor_wideCode _ (List.all_eq_true.1 (by decide)) stopsAt_wideCode, ?_⟩
  obtain ⟨trees, hok⟩ | ⟨e, -, hreports⟩ | ⟨hnull, -⟩ | ⟨shown, fault, -, -, hbroken⟩ := hopen.1
  · have hnone : (decodeNamed (showing "[").folder (showing "[").input "-").isOk = false := by
      decide +kernel
    rw [hok] at hnone
    cases hnone
  · exact ⟨_, hreports⟩
  · exact absurd hnull (by decide +kernel)
  · cases hbracket.symm.trans hbroken.1

end Treeline
