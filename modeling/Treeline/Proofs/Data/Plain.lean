import Treeline.Data.Outline
import Treeline.Proofs.Data.Order
import Treeline.Tree

/-!
# Data of texts, numbers, lists and dictionaries

Data whose dictionaries have texts as keys and in which no container occurs twice. A document shows
it as a tree of the same form, with the entries of each dictionary in the order of their keys.
-/

namespace Treeline

open Yaml

/-- A piece of data that is built from nothing but these kinds of values. -/
inductive Plain
  | null
  | bool (b : Bool)
  | int (i : Int)
  | text (s : String)
  | list (items : List Plain)
  | dict (entries : List (String × Plain))

namespace Plain

mutual

def datum : Plain → Datum
  | .null => .null
  | .bool b => .bool b
  | .int i => .int i
  | .text s => .text s
  | .list items => .list (data items)
  | .dict entries => .dict (entryData entries)

def data : List Plain → List Datum
  | [] => []
  | item :: rest => item.datum :: data rest

def entryData : List (String × Plain) → List (Datum × Datum)
  | [] => []
  | (key, value) :: rest => (.text key, value.datum) :: entryData rest

end

mutual

def tree : Plain → Tree
  | .null => .scalar "null"
  | .bool b => .scalar (if b then "true" else "false")
  | .int i => .scalar (Numeral.intText i)
  | .text s => .scalar s
  | .list items => .sequence (trees items)
  | .dict entries => .mapping (entryTrees entries)

def trees : List Plain → List Tree
  | [] => []
  | item :: rest => item.tree :: trees rest

def entryTrees : List (String × Plain) → List (String × Tree)
  | [] => []
  | (key, value) :: rest => (key, value.tree) :: entryTrees rest

end

mutual

/-- The same data with all dictionaries in the order of their keys. -/
def sorted : Plain → Plain
  | .list items => .list (sortedItems items)
  | .dict entries => .dict (Datum.sortEntries (sortedValues entries))
  | v => v

def sortedItems : List Plain → List Plain
  | [] => []
  | item :: rest => item.sorted :: sortedItems rest

def sortedValues : List (String × Plain) → List (String × Plain)
  | [] => []
  | (key, value) :: rest => (key, value.sorted) :: sortedValues rest

end

mutual

/-- How the data is laid out. -/
def outline : Plain → Outline
  | .null => .scalar Tag.null "null".toList
  | .bool b => .scalar Tag.bool (if b then "true".toList else "false".toList)
  | .int i => .scalar Tag.int (Numeral.ofInt i)
  | .text s => .scalar Tag.text s.toList
  | .list items => .sequence none (outlines items)
  | .dict entries => .mapping none Tag.dict (entryOutlines entries)

def outlines : List Plain → List Outline
  | [] => []
  | item :: rest => item.outline :: outlines rest

def entryOutlines : List (String × Plain) → List (Outline × Outline)
  | [] => []
  | (key, value) :: rest => (.scalar Tag.text key.toList, value.outline) :: entryOutlines rest

end

/-- The tree that shows the data. -/
def mirror (v : Plain) : Tree := v.sorted.tree

/-! ### Lists and entries -/

theorem data_eq (items : List Plain) : data items = items.map datum := by
  induction items with
  | nil => rfl
  | cons item rest ih => rw [data, ih, List.map_cons]

theorem entryData_eq (entries : List (String × Plain)) :
    entryData entries = entries.map (Datum.textEntry datum) := by
  induction entries with
  | nil => rfl
  | cons entry rest ih => rw [entryData, ih, List.map_cons, Datum.textEntry]

theorem sortedItems_eq (items : List Plain) : sortedItems items = items.map sorted := by
  induction items with
  | nil => rfl
  | cons item rest ih => rw [sortedItems, ih, List.map_cons]

theorem sortedValues_eq (entries : List (String × Plain)) :
    sortedValues entries = entries.map fun entry => (entry.1, entry.2.sorted) := by
  induction entries with
  | nil => rfl
  | cons entry rest ih => rw [sortedValues, ih, List.map_cons]

/-- No key stands twice in a dictionary. -/
inductive HasDistinctKeys : Plain → Prop
  | null : HasDistinctKeys .null
  | bool (b : Bool) : HasDistinctKeys (.bool b)
  | int (i : Int) : HasDistinctKeys (.int i)
  | text (s : String) : HasDistinctKeys (.text s)
  | list {items : List Plain} (h : ∀ item ∈ items, HasDistinctKeys item) :
    HasDistinctKeys (.list items)
  | dict {entries : List (String × Plain)} (hkeys : (entries.map Prod.fst).Nodup)
      (h : ∀ entry ∈ entries, HasDistinctKeys entry.2) : HasDistinctKeys (.dict entries)

/-- The dictionaries have distinct keys and the numbers are short enough to be written. -/
inductive IsProper : Plain → Prop
  | null : IsProper .null
  | bool (b : Bool) : IsProper (.bool b)
  | int {i : Int} (h : Numeral.isShort i = true) : IsProper (.int i)
  | text (s : String) : IsProper (.text s)
  | list {items : List Plain} (h : ∀ item ∈ items, IsProper item) : IsProper (.list items)
  | dict {entries : List (String × Plain)} (hkeys : (entries.map Prod.fst).Nodup)
      (h : ∀ entry ∈ entries, IsProper entry.2) : IsProper (.dict entries)

theorem IsProper.hasDistinctKeys {v : Plain} (h : v.IsProper) : v.HasDistinctKeys := by
  induction h with
  | null => exact .null
  | bool b => exact .bool b
  | @int i h => exact .int i
  | text s => exact .text s
  | list h ih => exact .list ih
  | dict hkeys h ih => exact .dict hkeys ih

/-! ### Laying out -/

theorem orderedItems_map {items : List Plain}
    (h : ∀ item ∈ items, Data.ordered item.datum = item.sorted.datum) :
    Data.orderedItems (items.map datum) = (items.map sorted).map datum := by
  induction items with
  | nil => rfl
  | cons item rest ih =>
    obtain ⟨hitem, hrest⟩ := List.forall_mem_cons.1 h
    rw [List.map_cons, List.map_cons, List.map_cons, Data.orderedItems, hitem, ih hrest]

theorem orderedEntries_map {entries : List (String × Plain)}
    (h : ∀ entry ∈ entries, Data.ordered entry.2.datum = entry.2.sorted.datum) :
    Data.orderedEntries (entries.map (Datum.textEntry datum)) =
      (entries.map fun entry => (entry.1, entry.2.sorted)).map (Datum.textEntry datum) := by
  induction entries with
  | nil => rfl
  | cons entry rest ih =>
    obtain ⟨hentry, hrest⟩ := List.forall_mem_cons.1 h
    have hkey : Data.ordered (.text entry.1) = .text entry.1 := rfl
    rw [List.map_cons, List.map_cons, List.map_cons, Datum.textEntry, Data.orderedEntries, hentry,
      ih hrest, hkey]
    rfl

theorem ordered_datum {v : Plain} (h : v.HasDistinctKeys) :
    Data.ordered v.datum = v.sorted.datum := by
  induction h with
  | null => rfl
  | bool b => rfl
  | int i => rfl
  | text s => rfl
  | list h ih =>
    rw [datum, sorted, datum, Data.ordered, data_eq, data_eq, sortedItems_eq, orderedItems_map ih]
  | @dict entries hkeys h ih =>
    have hnodup : ((entries.map fun entry => (entry.1, entry.2.sorted)).map Prod.fst).Nodup := by
      simpa [Function.comp_def] using hkeys
    rw [datum, sorted, datum, Data.ordered, entryData_eq, entryData_eq, sortedValues_eq,
      orderedEntries_map ih, Datum.written_textEntry hnodup]

theorem IsProper.sorted {v : Plain} (h : v.IsProper) : v.sorted.IsProper := by
  induction h with
  | null => exact .null
  | bool b => exact .bool b
  | int h => exact .int h
  | text s => exact .text s
  | list h ih =>
    rw [Plain.sorted, sortedItems_eq]
    exact .list (List.forall_mem_map.2 ih)
  | @dict entries hkeys h ih =>
    rw [Plain.sorted, sortedValues_eq]
    have hperm := Datum.sortEntries_perm (entries.map fun entry => (entry.1, entry.2.sorted))
    refine .dict ?_ ?_
    · rw [(hperm.map Prod.fst).nodup_iff]
      simpa [Function.comp_def] using hkeys
    · intro entry hentry
      obtain ⟨old, hold, rfl⟩ := List.mem_map.1 (hperm.mem_iff.1 hentry)
      exact ih old hold

theorem layoutItems_map {expand : Nat → Data.Layout Outline} {items : List Plain}
    (h : ∀ item ∈ items, Data.layout expand none item.datum = pure item.outline) :
    Data.layoutItems expand (items.map datum) = pure (outlines items) := by
  induction items with
  | nil => rfl
  | cons item rest ih =>
    obtain ⟨hitem, hrest⟩ := List.forall_mem_cons.1 h
    rw [List.map_cons, Data.layoutItems, hitem, ih hrest, pure_bind, pure_bind, outlines]

theorem layoutEntries_map {expand : Nat → Data.Layout Outline} {entries : List (String × Plain)}
    (h : ∀ entry ∈ entries, Data.layout expand none entry.2.datum = pure entry.2.outline) :
    Data.layoutEntries expand (entries.map (Datum.textEntry datum)) =
      pure (entryOutlines entries) := by
  induction entries with
  | nil => rfl
  | cons entry rest ih =>
    obtain ⟨hentry, hrest⟩ := List.forall_mem_cons.1 h
    have hkey : Data.layout expand none (.text entry.1) = pure (.scalar Tag.text entry.1.toList) := by
      rw [Data.layout]
    rw [List.map_cons, Datum.textEntry, Data.layoutEntries, hkey, hentry, ih hrest, pure_bind,
      pure_bind, pure_bind, entryOutlines]

theorem layout_datum (expand : Nat → Data.Layout Outline) {v : Plain} (h : v.IsProper) :
    Data.layout expand none v.datum = pure v.outline := by
  induction h with
  | null => rw [datum, Data.layout, outline]
  | bool b => rw [datum, Data.layout, outline]
  | int h => rw [datum, Data.layout, Data.intText, if_pos h, pure_bind, outline]
  | text s => rw [datum, Data.layout, outline]
  | list h ih => rw [datum, data_eq, Data.layout, layoutItems_map ih, pure_bind, outline]
  | dict hkeys h ih => rw [datum, entryData_eq, Data.layout, layoutEntries_map ih, pure_bind, outline]

theorem outline_ofDatum {v : Plain} (h : v.IsProper) :
    (Treeline.Data.ofDatum v.datum).outline = .ok v.sorted.outline := by
  have hordered : Data.ordered (Treeline.Data.ofDatum v.datum).root = v.sorted.datum :=
    ordered_datum h.hasDistinctKeys
  rw [Data.outline, hordered, layout_datum _ h.sorted]
  rfl

end Plain

end Treeline
