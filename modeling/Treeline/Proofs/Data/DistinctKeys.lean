import Treeline.Proofs.Data.Making

/-!
# Dictionaries of documents

No key stands twice in a dictionary that a document holds. Its entries are put in one after the
other, and an entry whose key is there replaces a value. Values of scalars hold no entries, and
merging changes nodes only.
-/

namespace Treeline

open Yaml

/-! ### Keys -/

namespace Datum

variable {entries : List Entry} {name : String} {key value : Datum}

/-- If the data is a dictionary, no key stands in it twice. -/
def HasDistinctKeys : Datum → Prop
  | .dict entries => (entries.map Prod.fst).Pairwise fun a b => same a b = false
  | _ => True

/-- An entry that is put in either replaces a value, or comes last with a new key. -/
theorem put_cases (entries : List Entry) (key value : Datum) :
    (put entries key value).map Prod.fst = entries.map Prod.fst ∨
      (∀ k ∈ entries.map Prod.fst, same k key = false) ∧
        put entries key value = entries ++ [(key, value)] := by
  induction entries with
  | nil =>
    right
    simp [put]
  | cons entry entries ih =>
    rw [put]
    cases hsame : same entry.1 key with
    | true =>
      left
      simp
    | false =>
      rw [if_neg Bool.false_ne_true]
      rcases ih with hkeys | ⟨hnew, hput⟩
      · left
        rw [List.map_cons, hkeys, List.map_cons]
      · right
        rw [hput, List.map_cons, List.forall_mem_cons]
        exact ⟨⟨hsame, hnew⟩, rfl⟩

theorem hasDistinctKeys_put (h : HasDistinctKeys (.dict entries)) (key value : Datum) :
    HasDistinctKeys (.dict (put entries key value)) := by
  rw [HasDistinctKeys] at h ⊢
  rcases put_cases entries key value with hkeys | ⟨hnew, hput⟩
  · rwa [hkeys]
  · rw [hput, List.map_append, List.pairwise_append]
    refine ⟨h, List.pairwise_singleton _ _, ?_⟩
    intro k hk k' hk'
    rw [List.map_singleton, List.mem_singleton] at hk'
    rw [hk']
    exact hnew k hk

/-! ### Texts as keys -/

def under (name : String) (entries : List Entry) : Option Datum :=
  entries.findSome? fun entry => if entry.1.same (.text name) then some entry.2 else none

theorem same_text_iff : key.same (.text name) = true ↔ key = .text name := by
  cases key with
  | text s => simp [same]
  | _ => simp [same, parts?, number?]

theorem under_cons_self (name : String) (value : Datum) (entries : List Entry) :
    under name ((.text name, value) :: entries) = some value := by
  rw [under, List.findSome?_cons, if_pos (same_text_iff.2 rfl)]

theorem under_cons_of_ne (h : key ≠ .text name) (value : Datum) (entries : List Entry) :
    under name ((key, value) :: entries) = under name entries := by
  rw [under, List.findSome?_cons, if_neg (same_text_iff.not.2 h), under]

theorem not_mem_of_cons (h : HasDistinctKeys (.dict ((.text name, value) :: entries)))
    (other : Datum) : (.text name, other) ∉ entries := by
  intro hmem
  obtain ⟨hkey, -⟩ := List.pairwise_cons.1 (h : List.Pairwise _ (_ :: _))
  have hsame : same (.text name) (.text name) = false := hkey _ (List.mem_map_of_mem hmem)
  rw [same_text_iff.2 rfl] at hsame
  cases hsame

theorem under_eq_some_iff (h : HasDistinctKeys (.dict entries)) :
    under name entries = some value ↔ (.text name, value) ∈ entries := by
  induction entries with
  | nil => simp [under]
  | cons entry entries ih =>
    obtain ⟨k, v⟩ := entry
    have hrest : HasDistinctKeys (.dict entries) := List.Pairwise.of_cons h
    rw [List.mem_cons, Prod.mk.injEq]
    by_cases hk : k = .text name
    · subst hk
      rw [under_cons_self, Option.some.injEq]
      constructor
      · rintro rfl
        exact .inl ⟨rfl, rfl⟩
      · rintro (⟨-, rfl⟩ | hmem)
        · rfl
        · exact absurd hmem (not_mem_of_cons h value)
    · rw [under_cons_of_ne hk, ih hrest]
      simp [Ne.symm hk]

theorem under_eq_none_of_cons (h : HasDistinctKeys (.dict ((.text name, value) :: entries))) :
    under name entries = none := by
  rw [Option.eq_none_iff_forall_ne_some]
  intro v hv
  exact not_mem_of_cons h v ((under_eq_some_iff (List.Pairwise.of_cons h)).1 hv)

end Datum

namespace Data

/-- No key stands twice in a dictionary that is made so far. -/
structure Maker.HasDistinctKeys (m : Maker) : Prop where
  value : ∀ d, some d ∈ m.values → d.HasDistinctKeys
  definition : ∀ d ∈ m.definitions, d.HasDistinctKeys

namespace Making

variable {α : Type} {P : α → Prop}

/-- Whatever is made has a property, and no key comes to stand twice in a dictionary. -/
def Yields (x : Making α) (P : α → Prop) : Prop :=
  Preserves Maker.HasDistinctKeys x P fun _ => True

/-! ### Nodes and scalars -/

theorem yields_fail {context : Context} {start m : Mark} {problem : Problem} :
    Yields (fail context start problem m : Making α) P := .throw trivial

theorem yields_failAt {problem : Problem} {m : Mark} :
    Yields (failAt problem m : Making α) P := .throw trivial

theorem yields_ofExcept {e : Except Fault α} (h : ∀ a, e = .ok a → P a) :
    Yields (ofExcept e) P := by
  cases e with
  | error f => exact .throw trivial
  | ok a => exact .pure (h a rfl)

theorem yields_node (id : Nat) : Yields (node id) fun _ => True :=
  preserves_node id fun _ _ => trivial

theorem yields_entries (id : Nat) : Yields (entries id) fun _ => True := by
  refine (yields_node id).bind fun n _ => ?_
  split
  · exact .pure trivial
  · exact .pure trivial

theorem yields_setEntries (id : Nat) (entries : List (Nat × Nat)) :
    Yields (setEntries id entries) fun _ => True :=
  .modify fun _ hm => ⟨hm.value, hm.definition⟩

theorem yields_text (fuel id : Nat) : Yields (text fuel id) fun _ => True := by
  induction fuel generalizing id with
  | zero => exact (yields_node id).bind fun _ _ => yields_failAt
  | succ fuel ih =>
    rw [text]
    refine (yields_node id).bind fun n _ => ?_
    split
    · exact .pure trivial
    · exact yields_failAt
    · refine .bind (Preserves.findM? fun entry => (yields_node entry.1).bind fun _ _ =>
        .pure fun _ => trivial) fun found _ => ?_
      split
      · exact ih _
      · exact yields_failAt

theorem yields_scalarText (id : Nat) : Yields (scalarText id) fun _ => True :=
  Preserves.get.bind fun _ _ => yields_text _ id

end Making

end Data

namespace Datum

variable {text : String} {d : Datum}

theorem hasDistinctKeys_of_ofBoolText (h : ofBoolText text = .ok d) : d.HasDistinctKeys := by
  rw [ofBoolText] at h
  split at h
  · cases h
    trivial
  · split at h
    · cases h
      trivial
    · cases h

theorem hasDistinctKeys_of_ofIntText (h : ofIntText text = .ok d) : d.HasDistinctKeys := by
  obtain ⟨⟨isNegative, body⟩, -, h⟩ := bind_eq_ok_iff.1 h
  obtain ⟨n, -, ⟨⟩⟩ := bind_eq_ok_iff.1 h
  trivial

theorem hasDistinctKeys_of_ofFloatText (h : ofFloatText text = .ok d) : d.HasDistinctKeys := by
  obtain ⟨⟨isNegative, body⟩, -, h⟩ := bind_eq_ok_iff.1 h
  obtain ⟨x, -, ⟨⟩⟩ := bind_eq_ok_iff.1 h
  trivial

theorem hasDistinctKeys_of_ofTimestampText (h : ofTimestampText text = .ok d) :
    d.HasDistinctKeys := by
  rw [ofTimestampText] at h
  split at h
  · cases h
  · split at h
    all_goals
      cases h
    all_goals
      trivial

end Datum

namespace Data.Making

open Yaml

theorem yields_binary (id : Nat) (text : String) :
    Yields (binary id text) Datum.HasDistinctKeys := by
  rw [binary]
  split
  · exact .pure trivial
  · exact (yields_node id).bind fun _ _ => yields_failAt

theorem yields_timestamp (id : Nat) (text : String) :
    Yields (timestamp id text) Datum.HasDistinctKeys := by
  refine (yields_node id).bind fun n _ => ?_
  split
  · exact .throw trivial
  · exact yields_ofExcept fun _ => Datum.hasDistinctKeys_of_ofTimestampText

/-- The entries of a dictionary do not stand in the value of its node. -/
theorem yields_newValue (id : Nat) : Yields (newValue id) Datum.HasDistinctKeys := by
  refine (yields_node id).bind fun n _ => ?_
  have htext := yields_scalarText id
  refine .ite (fun _ => ?_) fun _ => .ite (fun _ => ?_) fun _ => .ite (fun _ => ?_) fun _ =>
    .ite (fun _ => ?_) fun _ => .ite (fun _ => ?_) fun _ => .ite (fun _ => ?_) fun _ =>
    .ite (fun _ => ?_) fun _ => .ite (fun _ => ?_) fun _ => yields_failAt
  · exact .bind (.modify fun _ hm => ⟨hm.value, hm.definition⟩) fun _ _ => .pure trivial
  · exact htext.bind fun _ _ => .pure trivial
  · exact htext.bind fun _ _ => yields_ofExcept fun _ => Datum.hasDistinctKeys_of_ofBoolText
  · exact htext.bind fun _ _ => yields_ofExcept fun _ => Datum.hasDistinctKeys_of_ofIntText
  · exact htext.bind fun _ _ => yields_ofExcept fun _ => Datum.hasDistinctKeys_of_ofFloatText
  · exact htext.bind fun _ _ => yields_binary id _
  · exact htext.bind fun _ _ => yields_timestamp id _
  · exact htext.bind fun _ _ => .pure trivial

theorem yields_value (id : Nat) : Yields (value id) Datum.HasDistinctKeys := by
  refine Preserves.get.bind fun m hm => ?_
  split
  · rename_i d hd
    exact .pure (hm.value d (Array.mem_of_getElem? (Option.join_eq_some_iff.1 hd)))
  · refine (yields_newValue id).bind fun d hd => .bind (.modify ?_) fun _ _ => .pure hd
    intro m hm
    refine ⟨?_, hm.definition⟩
    intro d' hd'
    rcases Array.mem_or_eq_of_mem_setIfInBounds hd' with hmem | heq
    · exact hm.value d' hmem
    · cases heq
      exact hd

/-! ### Merging -/

/-- Merging touches nothing but nodes, with some fuel. -/
structure MergingYields (fuel : Nat) : Prop where
  merge : ∀ id, Yields (merge fuel id) fun _ => True
  mergeFrom : ∀ id position merged, Yields (mergeFrom fuel id position merged) fun _ => True
  mergeValue : ∀ id value, Yields (mergeValue fuel id value) fun _ => True

section Step

variable {fuel : Nat} (h : MergingYields fuel)

include h

theorem yields_merge_succ (id : Nat) : Yields (merge (fuel + 1) id) fun _ => True := by
  rw [merge]
  refine (h.mergeFrom id 0 []).bind fun merged _ => .ite ?_ fun _ => .pure trivial
  exact fun _ => (yields_entries id).bind fun own _ => yields_setEntries id _

theorem yields_mergeFrom_succ (id position : Nat) (merged : List (Nat × Nat)) :
    Yields (mergeFrom (fuel + 1) id position merged) fun _ => True := by
  have hrest := h.mergeFrom id (position + 1) merged
  rw [mergeFrom]
  refine (yields_entries id).bind fun own _ => ?_
  split
  · exact .pure trivial
  · refine (yields_node _).bind fun key _ => .ite ?_ fun _ => .ite ?_ fun _ => hrest
    · exact fun _ => (yields_setEntries id _).bind fun _ _ => (h.mergeValue id _).bind fun more _ =>
        h.mergeFrom id position _
    · exact fun _ => .bind (.modify fun _ hm => ⟨hm.value, hm.definition⟩) fun _ _ => hrest

theorem yields_mergeValue_succ (id value : Nat) :
    Yields (mergeValue (fuel + 1) id value) fun _ => True := by
  rw [mergeValue]
  refine (yields_node id).bind fun start _ => (yields_node value).bind fun n _ => ?_
  split
  · exact (h.merge value).bind fun _ _ => yields_entries value
  · refine (Preserves.mapM _ fun item => ?_).bind fun parts _ => .pure trivial
    refine (yields_node item).bind fun part _ => ?_
    split
    · exact (h.merge item).bind fun _ _ => yields_entries item
    · exact yields_fail
  · exact yields_fail

end Step

theorem mergingYields (fuel : Nat) : MergingYields fuel := by
  induction fuel with
  | zero =>
    constructor
    · intro id
      rw [merge]
      exact .pure trivial
    · intro id position merged
      rw [mergeFrom]
      exact .pure trivial
    · intro id value
      rw [mergeValue]
      exact .pure trivial
  | succ fuel h =>
    constructor
    · exact yields_merge_succ h
    · exact yields_mergeFrom_succ h
    · exact yields_mergeValue_succ h

/-! ### Collections -/

theorem yields_fillEntries (id : Nat) {done : List Datum.Entry}
    (hdone : Datum.HasDistinctKeys (.dict done)) (rest : List (Nat × Nat)) :
    Yields (fillEntries id done rest) fun entries => Datum.HasDistinctKeys (.dict entries) := by
  induction rest generalizing done with
  | nil => exact .pure hdone
  | cons entry rest ih =>
    rw [fillEntries]
    refine (yields_value _).bind fun k _ => .ite (fun _ => ?_) fun _ => ?_
    · exact (yields_node _).bind fun _ _ => (yields_node _).bind fun _ _ => yields_fail
    · exact (yields_value _).bind fun v _ => ih (Datum.hasDistinctKeys_put hdone k v)

theorem yields_mappingEntries (id : Nat) :
    Yields (mappingEntries id) fun entries => Datum.HasDistinctKeys (.dict entries) := by
  have hempty : Datum.HasDistinctKeys (.dict []) := List.Pairwise.nil
  refine (yields_node id).bind fun n _ => ?_
  split
  · exact Preserves.get.bind fun _ _ => ((mergingYields _).merge id).bind fun _ _ =>
      (yields_entries id).bind fun own _ => yields_fillEntries id hempty own
  · exact yields_failAt

theorem yields_sequenceItems (id : Nat) : Yields (sequenceItems id) fun _ => True := by
  refine (yields_node id).bind fun n _ => ?_
  split
  · exact .mapM _ fun item => (yields_value item).imp fun _ _ => trivial
  · exact yields_failAt

theorem yields_pairItems (context : Context) (id : Nat) :
    Yields (pairItems context id) fun _ => True := by
  refine (yields_node id).bind fun n _ => ?_
  split
  · refine .mapM _ fun item => (yields_node item).bind fun part _ => ?_
    split
    · exact (yields_value _).bind fun k _ => (yields_value _).bind fun v _ => .pure trivial
    · exact yields_fail
    · exact yields_fail
  · exact yields_fail

theorem yields_fill (id : Nat) : Yields (fill id) Datum.HasDistinctKeys := by
  refine (yields_node id).bind fun n _ => .ite (fun _ => ?_) fun _ => .ite (fun _ => ?_) fun _ =>
    .ite (fun _ => ?_) fun _ => .ite (fun _ => ?_) fun _ => ?_
  · exact (yields_sequenceItems id).bind fun _ _ => .pure trivial
  · exact (yields_mappingEntries id).bind fun _ _ => .pure trivial
  · exact (yields_pairItems _ id).bind fun _ _ => .pure trivial
  · exact (yields_pairItems _ id).bind fun _ _ => .pure trivial
  · exact (yields_mappingEntries id).bind fun _ h => .pure h

theorem yields_fillAll (fuel : Nat) : Yields (fillAll fuel) fun _ => True := by
  induction fuel with
  | zero => exact .pure trivial
  | succ fuel ih =>
    rw [fillAll]
    refine Preserves.get.bind fun m _ => ?_
    split
    · exact .pure trivial
    · refine .bind (.modify fun _ hm => ⟨hm.value, hm.definition⟩) fun _ _ =>
        (yields_fill _).bind fun d hd => .bind (.modify fun m hm => ⟨hm.value, ?_⟩) fun _ _ => ih
      intro d' hd'
      rcases Array.mem_or_eq_of_mem_setIfInBounds hd' with hmem | rfl
      · exact hm.definition d' hmem
      · exact hd

theorem yields_document (root : Nat) : Yields (document root) Datum.HasDistinctKeys :=
  (yields_value root).bind fun _ hd => Preserves.get.bind fun _ _ =>
    (yields_fillAll _).bind fun _ _ => .pure hd

end Data.Making

/-- No key stands twice in a dictionary of the data that a graph stands for. -/
theorem hasDistinctKeys_of_ofGraph {g : Graph} {data : Data} (h : Data.ofGraph g = .ok data) :
    data.root.HasDistinctKeys ∧ ∀ d ∈ data.definitions, d.HasDistinctKeys := by
  obtain ⟨⟨root, m⟩, hrun, ⟨⟩⟩ := bind_eq_ok_iff.1 h
  have hstart : Data.Maker.HasDistinctKeys ⟨g.nodes, Array.replicate g.nodes.size none,
      Array.replicate g.nodes.size .null, []⟩ := by
    constructor
    · intro d hd
      cases (Array.mem_replicate.1 hd).2
    · intro d hd
      rw [(Array.mem_replicate.1 hd).2]
      trivial
  have hmeets := Data.Making.yields_document g.root _ hstart
  rw [hrun] at hmeets
  exact ⟨hmeets.2, hmeets.1.definition⟩

end Treeline
