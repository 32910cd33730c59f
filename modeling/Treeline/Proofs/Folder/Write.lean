import Treeline.Folder
import Treeline.Proofs.Results

/-!
# Writing a file

A file that is written stands where its name leads, with the bytes that were given. Folders that are
made on the way change no file, so nothing else is changed. A folder on the way to the file is still
there afterwards, because a file never takes the place of a folder.
-/

namespace Treeline.Folder

/-- The bytes of the file at a location, if a file stands there. -/
def fileAt (f : Folder) (at_ : Location) : Option (List UInt8) :=
  match f.find at_ with
  | some (.file bytes) => some bytes
  | _ => none

/-- The steps of a file name that go somewhere: neither empty ones nor single dots. -/
def properSteps (name : String) : List String :=
  (steps name).filter fun step => step != "" && step != "."

/-- The location that the name of a file leads to. -/
def locate (f : Folder) (name : String) : Except FileError Location :=
  match (properSteps name).getLast? with
  | none => .error .isFolder
  | some last => ((properSteps name).dropLast.foldlM f.enter (origin name)).map (· ++ [last])

/-- The change from one folder to another that writes a file and does nothing else to files. -/
def Writes (before after : Folder) (name : String) (bytes : List UInt8) : Prop :=
  ∃ at_, after.locate name = .ok at_ ∧ after.fileAt at_ = some bytes ∧
    ∀ other, other ≠ at_ → after.fileAt other = before.fileAt other

variable {f g : Folder} {at_ other start : Location} {item : FolderItem}

/-! ### Putting an item -/

theorem lookup_filter_of_ne {items : List (Location × FolderItem)} (h : other ≠ at_) :
    (items.filter (·.1 != at_)).lookup other = items.lookup other := by
  induction items with
  | nil => rfl
  | cons entry rest ih =>
    obtain ⟨first, item⟩ := entry
    by_cases hfirst : first = at_
    · have hne : (other == first) = false := by simpa [hfirst] using h
      rw [List.filter_cons_of_neg (by simpa using hfirst), List.lookup_cons, hne, ih]
    · rw [List.filter_cons_of_pos (by simpa using hfirst), List.lookup_cons, List.lookup_cons, ih]

theorem find_put_of_ne (h : other ≠ at_) : (f.put at_ item).find other = f.find other := by
  have hlookup : (f.put at_ item).items.lookup other = f.items.lookup other := by
    have hne : (other == at_) = false := by simpa using h
    rw [put, List.lookup_cons, hne, lookup_filter_of_ne h]
  rw [find, find, hlookup]

/-- A location that does not always stand for a folder holds what was put there. -/
theorem find_put_self (h : f.find at_ ≠ some .folder) : (f.put at_ item).find at_ = some item := by
  rw [find] at h ⊢
  split at h
  · exact absurd rfl h
  · rename_i hfixed
    rw [if_neg hfixed, put, List.lookup_cons_self]

/-! ### Changes that keep files -/

theorem fileAt_put_of_ne (h : other ≠ at_) : (f.put at_ item).fileAt other = f.fileAt other := by
  rw [fileAt, fileAt, find_put_of_ne h]

theorem makeFolder_eq_ok {above : List String} {name : String}
    (h : f.makeFolder start above name = .ok g) :
    ∃ at_, f.find at_ = none ∧ g = f.put at_ .folder := by
  obtain ⟨at_, -, h⟩ := bind_eq_ok_iff.1 h
  by_cases hname : name = stepUp
  · rw [if_pos hname] at h
    cases h
  · rw [if_neg hname] at h
    dsimp only at h
    split at h
    · cases h
    · rename_i hfind
      cases h
      exact ⟨at_ ++ [name], hfind, rfl⟩

theorem putFile_eq_ok {above : List String} {name : String} {bytes : List UInt8}
    (h : f.putFile start above name bytes = .ok g) :
    ∃ at_, above.foldlM f.enter start = .ok at_ ∧ f.find (at_ ++ [name]) ≠ some .folder ∧
      g = f.put (at_ ++ [name]) (.file bytes) := by
  obtain ⟨at_, hat, h⟩ := bind_eq_ok_iff.1 h
  by_cases hname : name = stepUp
  · rw [if_pos hname] at h
    cases h
  · rw [if_neg hname] at h
    dsimp only at h
    split at h
    · cases h
    · rename_i hfind
      cases h
      exact ⟨at_, hat, hfind, rfl⟩

theorem fileAt_of_makeFolder {above : List String} {name : String}
    (h : f.makeFolder start above name = .ok g) : g.fileAt other = f.fileAt other := by
  obtain ⟨at_, hfind, rfl⟩ := makeFolder_eq_ok h
  by_cases hother : other = at_
  · rw [hother, fileAt, fileAt, find_put_self (by simp [hfind]), hfind]
  · exact fileAt_put_of_ne hother

theorem fileAt_makeFolders (names : List String) :
    ∀ f : Folder, (f.makeFolders start names).1.fileAt other = f.fileAt other := by
  induction names with
  | nil => exact fun _ => rfl
  | cons name above ih =>
    intro f
    rw [makeFolders]
    dsimp only
    split
    · rename_i after hmade
      exact fileAt_of_makeFolder hmade
    · -- the folders above are made first, and then a second attempt is made
      have habove := ih f
      split
      · rename_i after e hmade
        rw [hmade] at habove
        exact habove
      · rename_i between hmade
        rw [hmade] at habove
        split
        · rename_i after hmade'
          rw [fileAt_of_makeFolder hmade']
          exact habove
        · exact habove
    · rfl

/-! ### Names on the way to a file -/

theorem enter_eq_ok_iff {name : String} :
    f.enter at_ name = .ok other ↔ other = step at_ name ∧ f.find other = some .folder := by
  rw [enter]
  constructor
  · intro h
    split at h
    · rename_i hfind
      cases h
      exact ⟨rfl, hfind⟩
    · cases h
    · cases h
  · rintro ⟨rfl, hfind⟩
    rw [hfind]

/-- Names lead to the same place as long as the folders on the way are kept. -/
theorem foldlM_enter_of_folders (hkept : ∀ l, f.find l = some .folder → g.find l = some .folder)
    (names : List String) : ∀ {start at_ : Location}, names.foldlM f.enter start = .ok at_ →
      names.foldlM g.enter start = .ok at_ := by
  induction names with
  | nil => exact fun h => h
  | cons name rest ih =>
    intro start at_ h
    rw [List.foldlM_cons] at h ⊢
    obtain ⟨next, hnext, hrest⟩ := bind_eq_ok_iff.1 h
    obtain ⟨hstep, hfind⟩ := enter_eq_ok_iff.1 hnext
    exact bind_eq_ok_iff.2 ⟨next, enter_eq_ok_iff.2 ⟨hstep, hkept next hfind⟩, ih hrest⟩

/-! ### Writing -/

/-- A file is written by making the folders that are missing and putting it into the last one. -/
theorem write_eq_ok {name : String} {bytes : List UInt8} (h : f.write name bytes = (g, .ok ())) :
    ∃ last, (properSteps name).getLast? = some last ∧
      (f.makeFolders (origin name) (properSteps name).dropLast.reverse).1.putFile (origin name)
        (properSteps name).dropLast last bytes = .ok g := by
  rw [write] at h
  split at h
  · cases h
  · split at h
    · cases h
    · rename_i between hmade
      split at h
      · cases h
      · rename_i last hlast
        split at h
        · cases h
        · split at h
          · cases h
          · rename_i after hput
            cases h
            refine ⟨last, hlast, ?_⟩
            rw [properSteps, hmade]
            exact hput

/-- A file that is written without an error stands where its name leads. No other file changes. -/
theorem writes_of_write {name : String} {bytes : List UInt8}
    (h : f.write name bytes = (g, .ok ())) : f.Writes g name bytes := by
  obtain ⟨last, hlast, hput⟩ := write_eq_ok h
  obtain ⟨at_, hat, hfind, hafter⟩ := putFile_eq_ok hput
  have hkept : ∀ l, (f.makeFolders (origin name) (properSteps name).dropLast.reverse).1.find l =
      some .folder → g.find l = some .folder := by
    rw [hafter]
    intro l hl
    have hne : l ≠ at_ ++ [last] := fun heq => hfind (heq ▸ hl)
    rw [find_put_of_ne hne, hl]
  refine ⟨at_ ++ [last], ?_, ?_, ?_⟩
  · rw [locate, hlast]
    exact map_eq_ok_iff.2 ⟨at_, foldlM_enter_of_folders hkept _ hat, rfl⟩
  · rw [hafter, fileAt, find_put_self hfind]
  · intro other hother
    rw [hafter, fileAt_put_of_ne hother, fileAt_makeFolders]

end Treeline.Folder
