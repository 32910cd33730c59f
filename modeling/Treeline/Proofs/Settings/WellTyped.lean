import Treeline.Proofs.Settings.Entries

/-!
# Well-typed settings

A settings file is accepted exactly if it holds nothing at all, or a mapping from names of settings
to values of their types. The settings are what the mapping holds then. Everything else is reported,
as long as the message can show the key that it is about.
-/

namespace Treeline.Settings

variable {definitions : Array Datum} {entries : List Datum.Entry} {path : String}
  {t u : Settings}

/-! ### Dictionaries -/

theorem mirrors_of_assigned (hkeys : Datum.HasDistinctKeys (.dict entries))
    (ht : assignAll path definitions .empty entries = .ok t)
    (hu : assignPruned path definitions entries t = .ok u) :
    IsWellTyped definitions entries ∧ u.Mirrors definitions entries := by
  have htypes := type_of_assignAll ht
  have hlist : ∀ value, Datum.under "prune" entries = some value →
      ∃ items, resolved definitions value = .list items := by
    intro value hfound
    have hentry := (Datum.under_eq_some_iff hkeys).1 hfound
    obtain ⟨name, hname, ⟨hne, -⟩ | ⟨-, hitems⟩⟩ := htypes _ hentry
    · exact absurd (Datum.text.inj hname).symm hne
    · exact hitems
  obtain ⟨hpruned, hvalues⟩ := of_assignPruned hlist hu
  constructor
  · rintro ⟨key, value⟩ hentry
    -- the second check is what the type of the keys to prune comes from
    obtain ⟨name, rfl, ⟨-, hvalue⟩ | ⟨rfl, -⟩⟩ := htypes _ hentry
    · exact ⟨name, rfl, hvalue⟩
    · exact ⟨_, rfl, hpruned value ((Datum.under_eq_some_iff hkeys).2 hentry)⟩
  · intro name
    rw [hvalues, value?_of_assignAll hkeys ht, value?_empty, Option.or_none]
    split
    · rw [Option.or_none]
    · rfl

theorem exists_assigned (path : String) (hkeys : Datum.HasDistinctKeys (.dict entries))
    (h : IsWellTyped definitions entries) :
    ∃ t u, assignAll path definitions .empty entries = .ok t ∧
      assignPruned path definitions entries t = .ok u := by
  obtain ⟨t, ht⟩ := exists_assignAll path h .empty
  cases hfound : Datum.under "prune" entries with
  | none => exact ⟨t, t, ht, assignPruned_of_none path t hfound⟩
  | some value =>
    obtain ⟨name, hname, hvalue⟩ := h _ ((Datum.under_eq_some_iff hkeys).1 hfound)
    obtain ⟨keys, hitems⟩ := exists_keys_of_isValueOf hvalue (Datum.text.inj hname).symm
    exact ⟨t, _, ht, (assignPruned_eq_ok_iff hfound hitems).2 ⟨keys, rfl, rfl⟩⟩

/-! ### Files -/

theorem hasDistinctKeys_of_read {source : Yaml.Source} {data : Data}
    (h : source.read readData = .ok data) :
    (resolved data.definitions data.root).HasDistinctKeys := by
  rw [Yaml.Source.read] at h
  split at h
  · cases h
  obtain ⟨graph?, -, h⟩ := bind_eq_ok_iff.1 (mapError_eq_ok_iff.1 h)
  cases graph? with
  | none =>
    cases h
    trivial
  | some graph =>
    obtain ⟨hroot, hdefinitions⟩ := hasDistinctKeys_of_ofGraph h
    cases hdata : data.root with
    | shared id =>
      rw [resolved]
      cases hid : data.definitions[id]? with
      | none => trivial
      | some d => exact hdefinitions d (Array.mem_of_getElem? hid)
    | _ =>
      rw [hdata] at hroot
      exact hroot

theorem ofData_eq_ok_iff {data : Data} :
    ofData path data = .ok u ↔
      resolved data.definitions data.root = .null ∧ u = .empty ∨
      ∃ entries t, resolved data.definitions data.root = .dict entries ∧
        assignAll path data.definitions .empty entries = .ok t ∧
        assignPruned path data.definitions entries t = .ok u := by
  rw [ofData]
  cases resolved data.definitions data.root with
  | null => simp [eq_comm]
  | dict entries => simp [bind_eq_ok_iff]
  | _ => simp

theorem longKey_of_ofData {data : Data} {fault : Fault}
    (h : ofData path data = .error (.fault fault)) :
    ∃ entries, resolved data.definitions data.root = .dict entries ∧
      ∃ entry ∈ entries, ∃ i, entry.1 = .int i ∧ Numeral.isShort i = false := by
  rw [ofData] at h
  split at h
  · cases h
  · rename_i entries hroot
    refine ⟨entries, hroot, ?_⟩
    obtain h | ⟨t, -, h⟩ := bind_eq_error_iff.1 h
    · exact longKey_of_assignAll h
    · exact absurd h (assignPruned_ne_fault path _ entries t fault)
  · cases h

theorem load_eq_ofData {folder : Folder} {bytes : List UInt8} {text : List Char} {data : Data}
    (hpath : path ≠ "") (hread : folder.read path = .ok bytes)
    (htext : Text.Utf8.decodeFile bytes = .ok text)
    (hdata : (Yaml.Source.ofFile path text).read readData = .ok data) :
    load folder (some path) = ofData path data := by
  have hfilter : (some path).filter (· != "") = some path := by simp [hpath]
  rw [load, hfilter]
  dsimp only
  rw [hread]
  change ofBytes path bytes = _
  rw [ofBytes, htext]
  dsimp only
  rw [hdata]
  rfl

/-- What a settings file that can be read holds decides whether it is accepted. Nothing at all stands
for no settings. A well-typed mapping stands for what it holds, and nothing else does. All other data
is reported, unless it has a number as a key that is too long to be shown. -/
theorem only_well_typed_mappings_are_accepted {folder : Folder} {path : String} {bytes : List UInt8}
    {text : List Char} {data : Data} (hpath : path ≠ "") (hread : folder.read path = .ok bytes)
    (htext : Text.Utf8.decodeFile bytes = .ok text)
    (hdata : (Yaml.Source.ofFile path text).read readData = .ok data)
    (hshort : ∀ entries, resolved data.definitions data.root = .dict entries →
      ∀ entry ∈ entries, ∀ i, entry.1 = .int i → Numeral.isShort i = true) :
    (resolved data.definitions data.root = .null → load folder (some path) = .ok .empty) ∧
    (∀ entries, resolved data.definitions data.root = .dict entries →
      IsWellTyped data.definitions entries → ∃ s, load folder (some path) = .ok s ∧
        ∀ t : Settings, t.Mirrors data.definitions entries ↔ t = s) ∧
    (resolved data.definitions data.root ≠ .null →
      (∀ entries, resolved data.definitions data.root = .dict entries →
        ¬IsWellTyped data.definitions entries) →
      ∃ e, load folder (some path) = .error (.reported e)) := by
  have hkeys := hasDistinctKeys_of_read hdata
  rw [load_eq_ofData hpath hread htext hdata]
  refine ⟨?_, ?_, ?_⟩
  · intro hroot
    exact ofData_eq_ok_iff.2 (.inl ⟨hroot, rfl⟩)
  · intro entries hroot htyped
    rw [hroot] at hkeys
    obtain ⟨s, u, hs, hu⟩ := exists_assigned path hkeys htyped
    refine ⟨u, ofData_eq_ok_iff.2 (.inr ⟨entries, s, hroot, hs, hu⟩), fun t => ?_⟩
    have hmirrors := (mirrors_of_assigned hkeys hs hu).2
    constructor
    · intro ht
      exact ext_value? fun name => (ht name).trans (hmirrors name).symm
    · rintro rfl
      exact hmirrors
  · intro hnull hother
    cases hload : ofData path data with
    | ok u =>
      obtain ⟨hroot, -⟩ | ⟨entries, t, hroot, ht, hu⟩ := ofData_eq_ok_iff.1 hload
      · exact absurd hroot hnull
      · rw [hroot] at hkeys
        exact absurd (mirrors_of_assigned hkeys ht hu).1 (hother entries hroot)
    | error stop =>
      cases stop with
      | reported e => exact ⟨e, rfl⟩
      | fault fault =>
        obtain ⟨entries, hroot, entry, hentry, i, hi, hlong⟩ := longKey_of_ofData hload
        rw [hshort entries hroot entry hentry i hi] at hlong
        cases hlong

/-- A folder with a settings file. -/
def settingsFolder (text : String) : Folder :=
  ⟨[(["rules"], .file (Text.Utf8.encode text.toList))]⟩

/-- A depth and a key to prune, if a mapping holds just them. -/
def depthAndKey? (data : Data) : Option (Int × String) :=
  match resolved data.definitions data.root with
  | .dict [(.text "depth", .int n), (.text "prune", keys)] =>
    match resolved data.definitions keys with
    | .list [.text key] => some (n, key)
    | _ => none
  | _ => none

theorem of_depthAndKey? {data : Data} {n : Int} {key : String}
    (h : depthAndKey? data = some (n, key)) :
    ∃ keys, resolved data.definitions data.root =
        .dict [(.text "depth", .int n), (.text "prune", keys)] ∧
      resolved data.definitions keys = .list [.text key] := by
  rw [depthAndKey?] at h
  split at h
  · rename_i n' keys hroot
    split at h
    · rename_i key' hkeys
      cases h
      exact ⟨keys, hroot, hkeys⟩
    · cases h
  · cases h

/-- A depth and a key to prune are taken over. -/
theorem depth_and_key_are_taken_over :
    ∃ s, load (settingsFolder "depth: 2\nprune: [a]\n") (some "rules") = .ok s ∧
      s.value? "depth" = some (.int 2) ∧ s.value? "prune" = some (.list [.text "a"]) := by
  have hfile : (do
      let bytes ← ((settingsFolder "depth: 2\nprune: [a]\n").read "rules").toOption
      let text ← (Text.Utf8.decodeFile bytes).toOption
      let data ← ((Yaml.Source.ofFile "rules" text).read readData).toOption
      depthAndKey? data) = some (2, "a") := by decide +kernel
  obtain ⟨bytes, hread, hfile⟩ := Option.bind_eq_some_iff.1 hfile
  obtain ⟨text, htext, hfile⟩ := Option.bind_eq_some_iff.1 hfile
  obtain ⟨data, hdata, hfile⟩ := Option.bind_eq_some_iff.1 hfile
  obtain ⟨keys, hroot, hkeys⟩ := of_depthAndKey? hfile
  obtain ⟨-, haccepted, -⟩ := only_well_typed_mappings_are_accepted (by decide)
    (toOption_eq_some_iff.1 hread) (toOption_eq_some_iff.1 htext) (toOption_eq_some_iff.1 hdata) (by
      rw [hroot]
      rintro _ ⟨⟩ entry hentry i hi
      obtain rfl | rfl := List.mem_pair.1 hentry
      · cases hi
      · cases hi)
  obtain ⟨s, hs, hmirrors⟩ := haccepted _ hroot (by
    intro entry hentry
    obtain rfl | rfl := List.mem_pair.1 hentry
    · exact ⟨_, rfl, .depth 2⟩
    · refine ⟨_, rfl, ?_⟩
      rw [hkeys]
      exact .pruned ["a"])
  refine ⟨s, hs, (hmirrors s).2 rfl "depth", ?_⟩
  rw [(hmirrors s).2 rfl "prune", ← hkeys]
  rfl

end Treeline.Settings
