import Mathlib.Data.List.Basic
import Treeline.Text.Newline
import Treeline.Text.Split

/-!
# Parts of a text

The parts are all of a text but its separators, and a text without separators is its own only part.
The parts before a separator and those behind it are the parts of the whole text. So a text that
was joined from lines falls into the parts of each of them, and these are the lines again if no line
feed stands in any.
-/

namespace Treeline.Text

variable {separator : Char}

theorem split_ne_nil (cs : List Char) : split separator cs ≠ [] := by
  induction cs with
  | nil => exact List.cons_ne_nil _ _
  | cons c rest ih =>
    rw [split]
    split
    · exact List.cons_ne_nil _ _
    · cases split separator rest <;> exact List.cons_ne_nil _ _

theorem split_cons_of_ne {c : Char} (hc : c ≠ separator) {rest part : List Char}
    {more : List (List Char)} (hrest : split separator rest = part :: more) :
    split separator (c :: rest) = (c :: part) :: more := by
  rw [split, if_neg hc, hrest]

theorem split_of_not_mem {part : List Char} (hpart : separator ∉ part) :
    split separator part = [part] := by
  induction part with
  | nil => rfl
  | cons c rest ih =>
    rw [List.mem_cons, not_or] at hpart
    exact split_cons_of_ne (Ne.symm hpart.1) (ih hpart.2)

theorem split_append (before rest : List Char) :
    split separator (before ++ separator :: rest) =
      split separator before ++ split separator rest := by
  induction before with
  | nil => simp [split]
  | cons c before ih =>
    by_cases hc : c = separator
    · rw [List.cons_append, split, if_pos hc, ih, split, if_pos hc, List.cons_append]
    · obtain ⟨first, more, hbefore⟩ := List.exists_cons_of_ne_nil (@split_ne_nil separator before)
      rw [hbefore, List.cons_append] at ih
      rw [split_cons_of_ne hc hbefore, List.cons_append, split_cons_of_ne hc ih, List.cons_append]

theorem split_append_cons {part : List Char} (hpart : separator ∉ part) (rest : List Char) :
    split separator (part ++ separator :: rest) = part :: split separator rest := by
  rw [split_append, split_of_not_mem hpart, List.singleton_append]

/-- Where two texts meet, the last part of the one and the first part of the other are one part. -/
theorem split_append_parts {cs more last first : List Char} {front rest : List (List Char)}
    (hcs : split separator cs = front ++ [last]) (hmore : split separator more = first :: rest) :
    split separator (cs ++ more) = front ++ (last ++ first) :: rest := by
  induction cs generalizing front last with
  | nil =>
    have hempty : [] ++ [[]] = front ++ [last] := hcs
    obtain ⟨rfl, hlast⟩ := List.append_inj' hempty rfl
    cases hlast
    exact hmore
  | cons c cs ih =>
    obtain ⟨part, parts, hparts⟩ := List.exists_cons_of_ne_nil (@split_ne_nil separator cs)
    by_cases hc : c = separator
    · rw [split, if_pos hc] at hcs
      obtain _ | ⟨_, front⟩ := front
      · exact absurd (List.cons.inj hcs).2 (split_ne_nil cs)
      · obtain ⟨rfl, hrest⟩ := List.cons.inj hcs
        rw [List.cons_append, split, if_pos hc, ih hrest, List.cons_append]
    · rw [split_cons_of_ne hc hparts] at hcs
      obtain _ | ⟨_, front⟩ := front
      · obtain ⟨rfl, rfl⟩ := List.cons.inj hcs
        have hcs : split separator cs = [] ++ [part] := hparts
        exact split_cons_of_ne hc (ih hcs)
      · obtain ⟨rfl, rfl⟩ := List.cons.inj hcs
        have hcs : split separator cs = (part :: front) ++ [last] := hparts
        exact split_cons_of_ne hc (ih hcs)

/-- What follows a text belongs to its last part if no separator stands in it. -/
theorem exists_last_part (cs : List Char) :
    ∃ front last, split separator cs = front ++ [last] ∧
      ∀ more, separator ∉ more → split separator (cs ++ more) = front ++ [last ++ more] := by
  obtain ⟨front, last, hcs⟩ :=
    (List.eq_nil_or_concat' (split separator cs)).resolve_left (split_ne_nil cs)
  exact ⟨front, last, hcs, fun more hfree => split_append_parts hcs (split_of_not_mem hfree)⟩

theorem eq_of_split {cs first : List Char} {rest : List (List Char)}
    (h : split separator cs = first :: rest) : cs = first ++ rest.flatMap (separator :: ·) := by
  induction cs generalizing first rest with
  | nil =>
    cases h
    rfl
  | cons c cs ih =>
    obtain ⟨part, more, hparts⟩ := List.exists_cons_of_ne_nil (@split_ne_nil separator cs)
    by_cases hc : c = separator
    · rw [split, if_pos hc, hparts] at h
      cases h
      rw [ih hparts, hc]
      rfl
    · rw [split_cons_of_ne hc hparts] at h
      cases h
      rw [ih hparts]
      rfl

theorem flatten_split (cs : List Char) :
    (split separator cs).flatten = cs.filter (· != separator) := by
  induction cs with
  | nil => rfl
  | cons c rest ih =>
    by_cases hc : c = separator
    · rw [split, if_pos hc, List.flatten_cons, List.nil_append, ih,
        List.filter_cons_of_neg (by simp [hc])]
    · obtain ⟨first, more, hrest⟩ := List.exists_cons_of_ne_nil (@split_ne_nil separator rest)
      rw [hrest, List.flatten_cons] at ih
      rw [split_cons_of_ne hc hrest, List.flatten_cons, List.cons_append, ih,
        List.filter_cons_of_pos (by simp [hc])]

theorem not_mem_of_mem_split {cs part : List Char} (hpart : part ∈ split separator cs) :
    separator ∉ part := by
  intro hmem
  have hfilter : separator ∈ (split separator cs).flatten := List.mem_flatten_of_mem hpart hmem
  rw [flatten_split] at hfilter
  simp at hfilter

theorem length_le_of_mem_split {cs part : List Char} (hpart : part ∈ split separator cs) :
    part.length ≤ cs.length := by
  have hparts : part.Sublist (cs.filter (· != separator)) := by
    rw [← flatten_split]
    exact List.sublist_flatten_of_mem hpart
  exact (hparts.trans List.filter_sublist).length_le

/-! ### Lines -/

/-- What stands between the line feeds of a text. -/
def pieces (text : String) : List String := (split '\n' text.toList).map String.ofList

/-- The lines of a text: what stands before each of its line feeds. -/
def splitLines (text : String) : List String := (pieces text).dropLast

theorem pieces_ne_nil (text : String) : pieces text ≠ [] := by
  rw [pieces, Ne, List.map_eq_nil_iff]
  exact split_ne_nil _

theorem pieces_joinLines_cons (line : String) (lines : List String) :
    pieces (joinLines (line :: lines)) = pieces line ++ pieces (joinLines lines) := by
  have hchars : (joinLines (line :: lines)).toList =
      line.toList ++ '\n' :: (joinLines lines).toList := by
    simp [joinLines, String.join_cons]
  rw [pieces, hchars, split_append, List.map_append]
  rfl

theorem splitLines_joinLines (lines : List String) :
    splitLines (joinLines lines) = lines.flatMap pieces := by
  induction lines with
  | nil => rfl
  | cons line lines ih =>
    rw [splitLines, pieces_joinLines_cons, List.dropLast_append_of_ne_nil (pieces_ne_nil _),
      List.flatMap_cons, ← ih]
    rfl

theorem pieces_of_not_mem {line : String} (hline : '\n' ∉ line.toList) : pieces line = [line] := by
  rw [pieces, split_of_not_mem hline, List.map_singleton, String.ofList_toList]

theorem not_mem_of_mem_pieces {text piece : String} (hpiece : piece ∈ pieces text) :
    '\n' ∉ piece.toList := by
  obtain ⟨part, hpart, rfl⟩ := List.mem_map.1 hpiece
  rw [String.toList_ofList]
  exact not_mem_of_mem_split hpart

theorem splitLines_joinLines_eq_iff {lines : List String} :
    splitLines (joinLines lines) = lines ↔ ∀ line ∈ lines, '\n' ∉ line.toList := by
  rw [splitLines_joinLines]
  constructor
  · intro h line hline
    rw [← h] at hline
    obtain ⟨whole, -, hpiece⟩ := List.mem_flatMap.1 hline
    exact not_mem_of_mem_pieces hpiece
  · intro h
    calc lines.flatMap pieces
      _ = lines.flatMap ([·]) := List.flatMap_congr fun line hline => pieces_of_not_mem (h line hline)
      _ = lines := List.flatMap_singleton' lines

end Treeline.Text
