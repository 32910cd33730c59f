import Mathlib.Data.List.Sort
import Mathlib.Data.String.Basic
import Treeline.Data.Key

/-!
# Dictionaries with texts as keys

A dictionary whose keys are different texts is written in the order of its keys.
-/

namespace Treeline.Datum

variable {α : Type} {f : α → Datum}

def textEntry (f : α → Datum) (entry : String × α) : Entry := (.text entry.1, f entry.2)

def sortEntries (entries : List (String × α)) : List (String × α) :=
  entries.insertionSort fun a b => a.1 ≤ b.1

theorem sortEntries_perm (entries : List (String × α)) : (sortEntries entries).Perm entries :=
  List.perm_insertionSort _ entries

theorem pairwise_sortEntries (entries : List (String × α)) :
    (sortEntries entries).Pairwise fun a b => a.1 ≤ b.1 := by
  have htotal : Std.Total fun a b : String × α => a.1 ≤ b.1 := ⟨fun a b => le_total a.1 b.1⟩
  have htrans : IsTrans (String × α) fun a b => a.1 ≤ b.1 := ⟨fun _ _ _ => le_trans⟩
  exact List.pairwise_insertionSort _ entries

/-- Entries under different texts have only one order. -/
theorem eq_sortEntries {entries sorted : List (String × α)} (h : (entries.map Prod.fst).Nodup)
    (hperm : sorted.Perm entries) (hsorted : sorted.Pairwise fun a b => a.1 ≤ b.1) :
    sorted = sortEntries entries := by
  have hkeys : (sorted.map Prod.fst).Nodup := (hperm.map Prod.fst).nodup_iff.2 h
  refine List.Perm.eq_of_pairwise ?_ hsorted (pairwise_sortEntries entries)
    (hperm.trans (sortEntries_perm entries).symm)
  intro a b ha hb hab hba
  have hb' : b ∈ sorted := hperm.mem_iff.2 ((sortEntries_perm entries).mem_iff.1 hb)
  exact List.inj_on_of_nodup_map hkeys ha hb' (le_antisymm hab hba)

/-- In which order entries are put in does not show in the order of their keys. -/
theorem sortEntries_eq_of_perm {entries others : List (String × α)}
    (h : (entries.map Prod.fst).Nodup) (hperm : entries.Perm others) :
    sortEntries entries = sortEntries others :=
  eq_sortEntries ((hperm.map Prod.fst).nodup_iff.1 h) ((sortEntries_perm entries).trans hperm)
    (pairwise_sortEntries entries)

theorem put_textEntry {entries : List (String × α)} {key : String} (value : α)
    (h : key ∉ entries.map Prod.fst) :
    put (entries.map (textEntry f)) (.text key) (f value) =
      (entries ++ [(key, value)]).map (textEntry f) := by
  induction entries with
  | nil => rfl
  | cons entry entries ih =>
    rw [List.map_cons, List.mem_cons, not_or] at h
    have hsame : same (.text entry.1) (.text key) = false := by
      simpa [same] using fun heq => h.1 heq.symm
    rw [List.map_cons, put, textEntry, hsame]
    simp [ih h.2, textEntry]

theorem settle_textEntry {entries : List (String × α)} (h : (entries.map Prod.fst).Nodup) :
    settle (entries.map (textEntry f)) = entries.map (textEntry f) := by
  have hall : ∀ done rest : List (String × α), ((done ++ rest).map Prod.fst).Nodup →
      (rest.map (textEntry f)).foldl (fun done entry => put done entry.1 entry.2)
        (done.map (textEntry f)) = (done ++ rest).map (textEntry f) := by
    intro done rest
    induction rest generalizing done with
    | nil => simp
    | cons entry rest ih =>
      intro hkeys
      have hnew : entry.1 ∉ done.map Prod.fst := by
        rw [List.map_append, List.map_cons, List.nodup_append] at hkeys
        intro hmem
        exact hkeys.2.2 _ hmem _ List.mem_cons_self rfl
      rw [List.map_cons, List.foldl_cons, textEntry, put_textEntry entry.2 hnew,
        ih (done ++ [entry]) (by simpa using hkeys)]
      simp
  exact hall [] entries h

theorem exists_insertSorted? (f : α → Datum) (entry : String × α) (entries : List (String × α))
    (h : entries.Pairwise fun a b => a.1 ≤ b.1) :
    ∃ sorted : List (String × α), insertSorted? (textEntry f entry) (entries.map (textEntry f)) =
        some (sorted.map (textEntry f)) ∧ sorted.Perm (entry :: entries) ∧
      sorted.Pairwise fun a b => a.1 ≤ b.1 := by
  induction entries with
  | nil => exact ⟨[entry], rfl, .refl _, List.pairwise_singleton _ _⟩
  | cons other entries ih =>
    obtain ⟨hother, hentries⟩ := List.pairwise_cons.1 h
    by_cases hlt : entry.1 < other.1
    · refine ⟨entry :: other :: entries, ?_, .refl _, List.pairwise_cons.2 ⟨?_, h⟩⟩
      · simp [insertSorted?, textEntry, less?, hlt]
      · intro b hb
        rcases List.mem_cons.1 hb with rfl | hb
        · exact le_of_lt hlt
        · exact le_trans (le_of_lt hlt) (hother b hb)
    · obtain ⟨sorted, hinsert, hperm, hsorted⟩ := ih hentries
      refine ⟨other :: sorted, ?_, ?_, List.pairwise_cons.2 ⟨?_, hsorted⟩⟩
      · rw [textEntry] at hinsert
        simp [insertSorted?, textEntry, less?, hlt, hinsert]
      · exact (hperm.cons other).trans (.swap entry other entries)
      · intro b hb
        rcases List.mem_cons.1 (hperm.mem_iff.1 hb) with rfl | hb
        · exact not_lt.1 hlt
        · exact hother b hb

theorem exists_sort? (f : α → Datum) (entries : List (String × α)) :
    ∃ sorted : List (String × α), sort? (entries.map (textEntry f)) =
        some (sorted.map (textEntry f)) ∧ sorted.Perm entries ∧
      sorted.Pairwise fun a b => a.1 ≤ b.1 := by
  have hall : ∀ done rest : List (String × α), (done.Pairwise fun a b => a.1 ≤ b.1) →
      ∃ sorted : List (String × α), (rest.map (textEntry f)).foldlM
          (fun sorted entry => insertSorted? entry sorted) (done.map (textEntry f)) =
        some (sorted.map (textEntry f)) ∧ sorted.Perm (done ++ rest) ∧
      sorted.Pairwise fun a b => a.1 ≤ b.1 := by
    intro done rest
    induction rest generalizing done with
    | nil =>
      intro hdone
      exact ⟨done, rfl, by rw [List.append_nil], hdone⟩
    | cons entry rest ih =>
      intro hdone
      obtain ⟨next, hinsert, hnext, hsorted⟩ := exists_insertSorted? f entry done hdone
      obtain ⟨sorted, hrest, hperm, hlast⟩ := ih next hsorted
      refine ⟨sorted, ?_, ?_, hlast⟩
      · rw [List.map_cons, List.foldlM_cons, hinsert]
        exact hrest
      · exact (hperm.trans (hnext.append_right rest)).trans List.perm_middle.symm
  exact hall [] entries .nil

theorem written_textEntry {entries : List (String × α)} (h : (entries.map Prod.fst).Nodup) :
    written (entries.map (textEntry f)) = (sortEntries entries).map (textEntry f) := by
  obtain ⟨sorted, hsort, hperm, hsorted⟩ := exists_sort? f entries
  have hsame := eq_sortEntries h hperm hsorted
  rw [written, settle_textEntry h]
  simp [hsort, hsame]

end Treeline.Datum
