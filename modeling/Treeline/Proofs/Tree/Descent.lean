import Treeline.Proofs.Tree.Children

/-!
# Descending a tree

Following a path is a chain of single steps. Where the labels of a node differ, a step leads to a
child exactly if the child stands behind that segment. The places of the children along a path say
where the path leads in the order of the document: one node comes before another if its places come
first in the lexicographic order.
-/

namespace Treeline.Tree

/-- The node that a path leads to, if each of its segments can be applied. -/
def descend? : Tree → Path → Option Tree
  | t, [] => some t
  | t, segment :: rest => (t.child? segment).bind (·.descend? rest)

theorem descend?_cons_eq_some_iff {t n : Tree} {segment : Segment} {rest : Path} :
    t.descend? (segment :: rest) = some n ↔
      ∃ c, t.child? segment = some c ∧ c.descend? rest = some n := by
  rw [descend?, Option.bind_eq_some_iff]

theorem descend?_append (t : Tree) (p q : Path) :
    t.descend? (p ++ q) = (t.descend? p).bind (·.descend? q) := by
  induction p generalizing t with
  | nil => rfl
  | cons segment rest ih =>
    rw [List.cons_append, descend?, descend?, Option.bind_assoc]
    exact Option.bind_congr fun c _ => ih c

theorem resolveFrom_eq_ok_iff {resolved : Path} {t n : Tree} {p : Path} :
    resolveFrom resolved t p = .ok n ↔ t.descend? p = some n := by
  induction p generalizing resolved t with
  | nil => simp [resolveFrom, descend?]
  | cons segment rest ih =>
    rw [resolveFrom, descend?]
    cases t.child? segment with
    | none => simp
    | some c => exact ih

theorem resolve_eq_ok_iff {t n : Tree} {p : Path} :
    t.resolve p = .ok n ↔ t.descend? p = some n :=
  resolveFrom_eq_ok_iff

/-- Resolving stops at the first segment that cannot be applied. -/
theorem resolveFrom_eq_error_iff {resolved : Path} {t : Tree} {p : Path} {stop : Stop Unresolved} :
    resolveFrom resolved t p = .error stop ↔
      ∃ front segment rest n, p = front ++ segment :: rest ∧ t.descend? front = some n ∧
        n.child? segment = none ∧ stop = n.unresolved (resolved ++ front) segment := by
  induction p generalizing resolved t with
  | nil => simp [resolveFrom]
  | cons first more ih =>
    rw [resolveFrom]
    constructor
    · intro h
      split at h
      · rename_i c hc
        obtain ⟨front, segment, rest, n, rfl, hn, hnone, rfl⟩ := ih.1 h
        refine ⟨first :: front, segment, rest, n, rfl, ?_, hnone, ?_⟩
        · exact descend?_cons_eq_some_iff.2 ⟨c, hc, hn⟩
        · rw [List.append_assoc, List.singleton_append]
      · rename_i hnone
        cases h
        exact ⟨[], first, more, t, rfl, rfl, hnone, by rw [List.append_nil]⟩
    · rintro ⟨_ | ⟨_, front⟩, segment, rest, n, ⟨⟩, hn, hnone, rfl⟩
      · cases hn
        rw [hnone, List.append_nil]
      · obtain ⟨c, hc, hn⟩ := descend?_cons_eq_some_iff.1 hn
        rw [hc]
        refine ih.2 ⟨front, segment, rest, n, rfl, hn, hnone, ?_⟩
        rw [List.append_assoc, List.singleton_append]

theorem resolve_eq_error_iff {t : Tree} {p : Path} {stop : Stop Unresolved} :
    t.resolve p = .error stop ↔
      ∃ front segment rest n, p = front ++ segment :: rest ∧ t.resolve front = .ok n ∧
        n.child? segment = none ∧ stop = n.unresolved front segment := by
  simp only [resolve_eq_ok_iff]
  exact resolveFrom_eq_error_iff

/-! ### Single steps -/

theorem itemAt_eq_some_iff {items : List Tree} {position : Int} {c : Tree} :
    itemAt items position = some c ↔ ∃ i : Nat, position = i ∧ items[i]? = some c := by
  rw [itemAt]
  split
  · simp only [reduceCtorEq, false_iff, not_exists, not_and]
    omega
  · constructor
    · intro h
      exact ⟨position.toNat, by omega, h⟩
    · rintro ⟨i, rfl, h⟩
      exact h

theorem lookup_cons (key first : String) (value : Tree) (rest : List (String × Tree)) :
    lookup key ((first, value) :: rest) = if first = key then some value else lookup key rest := by
  by_cases hkey : first = key <;> simp [lookup, hkey]

theorem lookup_eq_some_iff {key : String} {entries : List (String × Tree)} {c : Tree}
    (hdistinct : (entries.map Prod.fst).Nodup) :
    lookup key entries = some c ↔ (key, c) ∈ entries := by
  induction entries with
  | nil => simp [lookup]
  | cons entry rest ih =>
    obtain ⟨first, value⟩ := entry
    rw [List.map_cons, List.nodup_cons] at hdistinct
    rw [lookup_cons]
    by_cases hkey : first = key
    · subst hkey
      have hrest : (first, c) ∉ rest := fun hc =>
        hdistinct.1 (List.mem_map.2 ⟨_, hc, rfl⟩)
      simp [hrest, eq_comm]
    · rw [if_neg hkey, ih hdistinct.2, List.mem_cons, Prod.mk.injEq]
      simp [Ne.symm hkey]

theorem child?_eq_some_iff {t c : Tree} {segment : Segment} (hlabels : t.labels.Nodup) :
    t.child? segment = some c ↔ (segment, c) ∈ t.children := by
  cases t with
  | scalar text => simp [child?, children]
  | sequence items =>
    cases segment with
    | field name => simp [child?, children]
    | index position =>
      rw [child?, itemAt_eq_some_iff]
      simp only [children, List.mem_map, Prod.mk.injEq, Segment.index.injEq, Prod.exists,
        List.mem_zipIdx_iff_getElem?]
      constructor
      · rintro ⟨i, rfl, h⟩
        exact ⟨c, i, h, rfl, rfl⟩
      · rintro ⟨_, i, h, rfl, rfl⟩
        exact ⟨i, rfl, h⟩
  | mapping entries =>
    cases segment with
    | index position => simp [child?, children]
    | field name =>
      rw [child?, lookup_eq_some_iff (nodup_labels_mapping.1 hlabels)]
      simp [children]

theorem HasDistinctKeys.of_descend {t n : Tree} {p : Path} (h : t.HasDistinctKeys)
    (hn : t.descend? p = some n) : n.HasDistinctKeys := by
  induction p generalizing t with
  | nil =>
    cases hn
    exact h
  | cons segment rest ih =>
    obtain ⟨c, hc, hrest⟩ := descend?_cons_eq_some_iff.1 hn
    obtain ⟨hlabels, hvalues⟩ := (hasDistinctKeys_iff t).1 h
    have hvalue := mem_values_of_mem_children ((child?_eq_some_iff hlabels).1 hc)
    exact ih (hvalues c hvalue) hrest

/-! ### Places in the document -/

/-- The places of the nodes along a path among the children of the node above them. -/
def places : Tree → Path → List Nat
  | _, [] => []
  | t, segment :: rest =>
    match t.child? segment with
    | some c => t.labels.idxOf segment :: c.places rest
    | none => []

theorem places_cons {t c : Tree} {segment : Segment} (hc : t.child? segment = some c)
    (rest : Path) : t.places (segment :: rest) = t.labels.idxOf segment :: c.places rest := by
  rw [places, hc]

theorem pairwise_idxOf_labels {t : Tree} (hlabels : t.labels.Nodup) :
    t.children.Pairwise fun a b => t.labels.idxOf a.1 < t.labels.idxOf b.1 := by
  have hplaces : t.labels.Pairwise fun a b => t.labels.idxOf a < t.labels.idxOf b := by
    rw [List.pairwise_iff_getElem]
    intro i j hi hj hij
    rwa [hlabels.idxOf_getElem i hi, hlabels.idxOf_getElem j hj]
  rw [labels, List.pairwise_map] at hplaces
  exact hplaces

end Treeline.Tree
