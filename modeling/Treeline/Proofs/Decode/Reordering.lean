import Treeline.Decode
import Treeline.Proofs.Data.Plain

/-!
# The order in which entries are put in

A dictionary keeps its entries in the order in which they were put in, and this order says nothing
about the data. Data is put in the order of its keys before it is written, and keys that differ have
only one order. So data that differs only in the order of its entries, in dictionaries at any depth,
is written as the same text, and whatever comes of that text comes of both.
-/

namespace Treeline

namespace Plain

/-- The same data with the entries of its dictionaries put in in another order. -/
inductive Reordered : Plain → Plain → Prop
  | refl (v : Plain) : Reordered v v
  | trans {v w x : Plain} (first : Reordered v w) (rest : Reordered w x) : Reordered v x
  /-- An item of a list is reordered. -/
  | item {before after : List Plain} {v w : Plain} (h : Reordered v w) :
    Reordered (.list (before ++ v :: after)) (.list (before ++ w :: after))
  /-- A value in a dictionary is reordered. -/
  | value {before after : List (String × Plain)} {key : String} {v w : Plain} (h : Reordered v w) :
    Reordered (.dict (before ++ (key, v) :: after)) (.dict (before ++ (key, w) :: after))
  /-- The entries of a dictionary change places. -/
  | entries {entries others : List (String × Plain)} (h : entries.Perm others) :
    Reordered (.dict entries) (.dict others)

variable {v w : Plain}

theorem HasDistinctKeys.of_list {items : List Plain} (h : (Plain.list items).HasDistinctKeys) :
    ∀ item ∈ items, item.HasDistinctKeys := by
  cases h with
  | list h => exact h

theorem HasDistinctKeys.of_dict {entries : List (String × Plain)}
    (h : (Plain.dict entries).HasDistinctKeys) :
    (entries.map Prod.fst).Nodup ∧ ∀ entry ∈ entries, entry.2.HasDistinctKeys := by
  cases h with
  | dict hkeys h => exact ⟨hkeys, h⟩

theorem Reordered.hasDistinctKeys (h : v.Reordered w) (hv : v.HasDistinctKeys) :
    w.HasDistinctKeys := by
  induction h with
  | refl v => exact hv
  | trans _ _ ihfirst ihrest => exact ihrest (ihfirst hv)
  | item _ ih =>
    refine .list ?_
    have hitems := hv.of_list
    rw [List.forall_mem_append, List.forall_mem_cons] at hitems ⊢
    exact ⟨hitems.1, ih hitems.2.1, hitems.2.2⟩
  | value _ ih =>
    obtain ⟨hkeys, hvalues⟩ := hv.of_dict
    rw [List.map_append, List.map_cons] at hkeys
    rw [List.forall_mem_append, List.forall_mem_cons] at hvalues
    refine .dict ?_ ?_
    · rwa [List.map_append, List.map_cons]
    · rw [List.forall_mem_append, List.forall_mem_cons]
      exact ⟨hvalues.1, ih hvalues.2.1, hvalues.2.2⟩
  | entries hperm =>
    obtain ⟨hkeys, hvalues⟩ := hv.of_dict
    exact .dict ((hperm.map Prod.fst).nodup_iff.1 hkeys)
      fun entry hentry => hvalues entry (hperm.mem_iff.2 hentry)

theorem Reordered.sorted_eq (h : v.Reordered w) (hv : v.HasDistinctKeys) : v.sorted = w.sorted := by
  induction h with
  | refl v => rfl
  | trans hfirst _ ihfirst ihrest => exact (ihfirst hv).trans (ihrest (hfirst.hasDistinctKeys hv))
  | @item before after v w _ ih =>
    have hitem := ih (hv.of_list v (by simp))
    simp only [sorted, sortedItems_eq, List.map_append, List.map_cons, hitem]
  | @value before after key v w _ ih =>
    have hvalue := ih (hv.of_dict.2 (key, v) (by simp))
    simp only [sorted, sortedValues_eq, List.map_append, List.map_cons, hvalue]
  | @entries entries others hperm =>
    have hkeys : ((entries.map fun entry => (entry.1, entry.2.sorted)).map Prod.fst).Nodup := by
      simpa [Function.comp_def] using hv.of_dict.1
    rw [sorted, sorted, sortedValues_eq, sortedValues_eq,
      Datum.sortEntries_eq_of_perm hkeys (hperm.map _)]

end Plain

/-- What data is written as depends on the order of its keys only. -/
theorem decodeData_eq_of_ordered {a b : Datum} (h : Data.ordered a = Data.ordered b) :
    decodeData (.ofDatum a) = decodeData (.ofDatum b) := by
  have houtline : (Data.ofDatum a).outline = (Data.ofDatum b).outline := by
    change ((Data.layout (Data.expand #[] 1) none (Data.ordered a)).run []).map (·.1) =
      ((Data.layout (Data.expand #[] 1) none (Data.ordered b)).run []).map (·.1)
    rw [h]
  rw [decodeData, decodeData, houtline]

/-- Data that differs only in the order in which entries were put in becomes the same document, or
fails with the same error. -/
theorem reordered_data_is_decoded_alike (v w : Plain) (hdistinct : v.HasDistinctKeys)
    (h : v.Reordered w) : decodeData (.ofDatum v.datum) = decodeData (.ofDatum w.datum) := by
  refine decodeData_eq_of_ordered ?_
  rw [Plain.ordered_datum hdistinct, Plain.ordered_datum (h.hasDistinctKeys hdistinct),
    h.sorted_eq hdistinct]

/-- A dictionary in a list in a dictionary, given the entries of both dictionaries. -/
def nested (first rest : List (String × Plain) → List (String × Plain)) : Plain :=
  .dict (first [("b", .list [.dict (rest [("y", .bool true), ("x", .null)])]), ("a", .text "")])

/-- Turning the entries of both dictionaries around is not seen. -/
theorem turned_entries_are_decoded_alike :
    (nested id id).HasDistinctKeys ∧ (nested id id).Reordered (nested .reverse .reverse) ∧
    nested id id ≠ nested .reverse .reverse ∧
    decodeData (.ofDatum (nested id id).datum) =
      decodeData (.ofDatum (nested .reverse .reverse).datum) := by
  have hinner : (Plain.dict [("y", .bool true), ("x", .null)]).HasDistinctKeys :=
    .dict (by decide) (List.forall_mem_cons.2 ⟨.bool true, List.forall_mem_singleton.2 .null⟩)
  have hdistinct : (nested id id).HasDistinctKeys :=
    .dict (by decide) (List.forall_mem_cons.2
      ⟨.list (List.forall_mem_singleton.2 hinner), List.forall_mem_singleton.2 (.text "")⟩)
  have hreordered : (nested id id).Reordered (nested .reverse .reverse) := by
    have hitem : (nested id id).Reordered (nested id .reverse) :=
      @Plain.Reordered.value [] _ "b" _ _ (@Plain.Reordered.item [] [] _ _
        (.entries (List.reverse_perm _).symm))
    exact hitem.trans (.entries (List.reverse_perm _).symm)
  refine ⟨hdistinct, hreordered, ?_, reordered_data_is_decoded_alike _ _ hdistinct hreordered⟩
  simp [nested]

end Treeline
