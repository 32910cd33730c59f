import Treeline.Proofs.Data.Making
import Treeline.Proofs.Data.Misread

/-!
# Faults of making values

Merging changes nodes, but what the scalars say stays what it was. So if making the value of a
graph ends with a fault, a node of that graph has a tag for values of a kind, and a text that is
misread as one.
-/

namespace Treeline

namespace Yaml

/-- What merging may leave of a node: other entries, or the tag of a text. -/
structure Node.Became (old new : Node) : Prop where
  tag : new.tag = old.tag ∨ new.tag = Tag.text
  kind : new.content.kind = old.content.kind
  scalar : ∀ text, new.content = .scalar text → old.content = .scalar text

theorem Node.Became.refl (n : Node) : n.Became n := ⟨.inl rfl, rfl, fun _ => id⟩

/-- A tag of another kind than texts is still the one that was read. -/
theorem Node.Became.tag_eq {old new : Node} (h : old.Became new) {tag : String}
    (hnew : new.tag = tag) (htag : tag ≠ Tag.text) : old.tag = tag := by
  obtain hold | htext := h.tag
  · rw [← hold, hnew]
  · exact absurd (hnew.symm.trans htext) htag

namespace Graph

/-- What a node can be read as: its own text, or that of some other node for a mapping, if the sign
for values is a key. -/
inductive TextOf (g : Graph) : Nat → String → Prop
  | scalar {id : Nat} {text : String} (h : (g.node id).content = .scalar text) : TextOf g id text
  | mapping {id key value : Nat} {text : String} (h : (g.node id).content.kind = .mapping)
      (hkey : (g.node key).tag = Tag.value) (hvalue : TextOf g value text) : TextOf g id text

/-- Why a node has no value. -/
inductive Misreads (g : Graph) (id : Nat) : Fault → Prop
  | text {kind : Datum.ValueKind} {text : String} {fault : Fault}
      (htag : (g.node id).tag = kind.tag) (htext : g.TextOf id text)
      (hform : kind = .time → (g.node id).content.kind ≠ .mapping)
      (h : Datum.Misread kind text fault) : Misreads g id fault
  /-- A point of time has to have a text of its own. -/
  | time (htag : (g.node id).tag = Tag.timestamp) (h : (g.node id).content.kind = .mapping) :
      Misreads g id .mappingAsText

/-- Why making values stops: only with a fault if a node is misread. -/
def Explains (g : Graph) (stop : Stop Failure) : Prop :=
  ∀ fault, stop = .fault fault → ∃ id, g.Misreads id fault

end Graph

end Yaml

namespace Data

open Yaml

variable {g : Graph} {m : Maker} {id : Nat}

/-- Whether the nodes are what became of those of a graph. -/
def Maker.From (g : Graph) (m : Maker) : Prop := ∀ id, (g.node id).Became (m.node id)

theorem Maker.From.modify (hm : m.From g) {f : Node → Node}
    (hf : (g.node id).Became (m.node id) → (g.node id).Became (f (m.node id))) :
    Maker.From g { m with nodes := m.nodes.modify id f } := by
  intro other
  have hother := hm other
  rw [Maker.node] at hother ⊢
  rw [Array.getElem?_modify]
  split
  · rename_i heq
    subst heq
    cases hnode : m.nodes[id]? with
    | none => rwa [hnode] at hother
    | some n =>
      rw [Maker.node, hnode] at hf
      rw [hnode] at hother
      exact hf hother
  · exact hother

namespace Making

variable {α : Type} {P : α → Prop}

/-- Nodes stay what became of those of a graph, whatever is made has a property, and every fault is
explained. -/
def Keeps (g : Graph) (x : Making α) (P : α → Prop) : Prop :=
  Preserves (Maker.From g) x P g.Explains

theorem keeps_reported (failure : Failure) : Keeps g (throw (.reported failure) : Making α) P := by
  refine Preserves.throw ?_
  rintro fault ⟨⟩

theorem keeps_fault {fault : Fault} (h : g.Misreads id fault) :
    Keeps g (throw (.fault fault) : Making α) P := by
  refine Preserves.throw ?_
  rintro _ ⟨⟩
  exact ⟨id, h⟩

/-! ### Nodes and scalars -/

theorem keeps_fail {context : Context} {start mark : Mark} {problem : Problem} :
    Keeps g (fail context start problem mark : Making α) P := keeps_reported _

theorem keeps_failAt {problem : Problem} {mark : Mark} :
    Keeps g (failAt problem mark : Making α) P := keeps_reported _

theorem keeps_node (id : Nat) : Keeps g (node id) (g.node id).Became :=
  preserves_node id fun _ hm => hm id

theorem keeps_entries (id : Nat) : Keeps g (entries id) fun _ => True := by
  refine (keeps_node id).bind fun n _ => ?_
  split
  · exact .pure trivial
  · exact .pure trivial

theorem keeps_setEntries (hid : (g.node id).content.kind = .mapping) (entries : List (Nat × Nat)) :
    Keeps g (setEntries id entries) fun _ => True :=
  .modify fun _ hm => hm.modify fun hnode => ⟨hnode.tag, hid.symm, by rintro text ⟨⟩⟩

theorem keeps_text (fuel id : Nat) : Keeps g (text fuel id) (g.TextOf id) := by
  induction fuel generalizing id with
  | zero => exact (keeps_node id).bind fun _ _ => keeps_failAt
  | succ fuel ih =>
    rw [text]
    refine (keeps_node id).bind fun n hn => ?_
    split
    · exact .pure (.scalar (hn.scalar _ ‹_›))
    · exact keeps_failAt
    · rename_i entries hentries
      have hkind : (g.node id).content.kind = .mapping := by rw [← hn.kind, hentries]; rfl
      have hsearch : Keeps g (entries.findM? fun entry => do
          return (← node entry.1).tag = Tag.value) fun found =>
            ∀ entry, found = some entry → (g.node entry.1).tag = Tag.value := by
        refine Preserves.findM? fun entry => (keeps_node entry.1).bind fun key hkey => .pure ?_
        intro hfound
        exact hkey.tag_eq (of_decide_eq_true hfound) (by decide)
      refine hsearch.bind fun found hfound => ?_
      split
      · rename_i key value
        exact (ih value).imp fun _ => .mapping hkind (hfound _ rfl)
      · exact keeps_failAt

theorem keeps_scalarText (id : Nat) : Keeps g (scalarText id) (g.TextOf id) :=
  Preserves.get.bind fun _ _ => keeps_text _ id

theorem keeps_read (kind : Datum.ValueKind) {text : String}
    (h : ∀ fault, Datum.Misread kind text fault → g.Misreads id fault) :
    Keeps g (ofExcept (kind.read text)) fun _ => True := by
  cases hread : kind.read text with
  | error fault => exact keeps_fault (h fault (Datum.misread_of_read hread))
  | ok d => exact .pure trivial

theorem keeps_readText (kind : Datum.ValueKind) (hkind : kind ≠ .time)
    (htag : (g.node id).tag = kind.tag) :
    Keeps g (scalarText id >>= fun text => ofExcept (kind.read text)) fun _ => True :=
  (keeps_scalarText id).bind fun _ htext =>
    keeps_read kind fun _ => .text htag htext fun htime => absurd htime hkind

theorem keeps_binary (id : Nat) (text : String) : Keeps g (binary id text) fun _ => True := by
  rw [binary]
  split
  · exact .pure trivial
  · exact (keeps_node id).bind fun _ _ => keeps_failAt

theorem keeps_timestamp (htag : (g.node id).tag = Tag.timestamp) {text : String}
    (htext : g.TextOf id text) : Keeps g (timestamp id text) fun _ => True := by
  refine (keeps_node id).bind fun n hn => ?_
  split
  · rename_i entries hentries
    refine keeps_fault (.time htag ?_)
    rw [← hn.kind, hentries]
    rfl
  · rename_i hform
    refine keeps_read .time fun fault => .text htag htext fun _ hkind => ?_
    rw [← hn.kind] at hkind
    cases hcontent : n.content with
    | mapping entries => exact hform entries hcontent
    | _ =>
      rw [hcontent] at hkind
      cases hkind

/-- A value is made of a text by the kind that the tag of its node says. -/
theorem keeps_newValue (id : Nat) : Keeps g (newValue id) fun _ => True := by
  refine (keeps_node id).bind fun n hn => ?_
  have htag : ∀ {tag : String}, n.tag = tag → tag ≠ Tag.text → (g.node id).tag = tag :=
    fun hnew => hn.tag_eq hnew
  refine .ite ?_ fun _ => .ite ?_ fun _ => .ite ?_ fun _ => .ite ?_ fun _ => .ite ?_ fun _ =>
    .ite ?_ fun _ => .ite ?_ fun _ => .ite ?_ fun _ => keeps_failAt
  · exact fun _ => .bind (.modify fun _ hm => hm) fun _ _ => .pure trivial
  · exact fun _ => (keeps_scalarText id).bind fun _ _ => .pure trivial
  · exact fun h => keeps_readText .truth (by decide) (htag h (by decide))
  · exact fun h => keeps_readText .whole (by decide) (htag h (by decide))
  · exact fun h => keeps_readText .fractional (by decide) (htag h (by decide))
  · exact fun _ => (keeps_scalarText id).bind fun text _ => keeps_binary id text
  · exact fun h => (keeps_scalarText id).bind fun _ htext =>
      keeps_timestamp (htag h (by decide)) htext
  · exact fun _ => (keeps_scalarText id).bind fun _ _ => .pure trivial

theorem keeps_value (id : Nat) : Keeps g (value id) fun _ => True := by
  refine Preserves.get.bind fun m _ => ?_
  split
  · exact .pure trivial
  · exact (keeps_newValue id).bind fun d _ => .bind (.modify fun _ hm => hm) fun _ _ =>
      .pure trivial

/-! ### Merging -/

/-- Merging into mappings keeps what the scalars say, with some fuel. -/
structure MergingKeeps (g : Graph) (fuel : Nat) : Prop where
  merge : ∀ id, (g.node id).content.kind = .mapping → Keeps g (merge fuel id) fun _ => True
  mergeFrom : ∀ id position merged, (g.node id).content.kind = .mapping →
    Keeps g (mergeFrom fuel id position merged) fun _ => True
  mergeValue : ∀ id value, Keeps g (mergeValue fuel id value) fun _ => True

section Step

variable {fuel : Nat} (h : MergingKeeps g fuel)

include h

theorem keeps_merge_succ (hid : (g.node id).content.kind = .mapping) :
    Keeps g (merge (fuel + 1) id) fun _ => True := by
  rw [merge]
  refine (h.mergeFrom id 0 [] hid).bind fun merged _ => .ite ?_ fun _ => .pure trivial
  exact fun _ => (keeps_entries id).bind fun own _ => keeps_setEntries hid _

theorem keeps_mergeFrom_succ (position : Nat) (merged : List (Nat × Nat))
    (hid : (g.node id).content.kind = .mapping) :
    Keeps g (mergeFrom (fuel + 1) id position merged) fun _ => True := by
  have hrest := h.mergeFrom id (position + 1) merged hid
  rw [mergeFrom]
  refine (keeps_entries id).bind fun own _ => ?_
  split
  · exact .pure trivial
  · refine (keeps_node _).bind fun key _ => .ite ?_ fun _ => .ite ?_ fun _ => hrest
    · exact fun _ => (keeps_setEntries hid _).bind fun _ _ => (h.mergeValue id _).bind
        fun more _ => h.mergeFrom id position _ hid
    · exact fun _ => .bind (.modify fun _ hm => hm.modify fun hnode =>
        ⟨.inr rfl, hnode.kind, hnode.scalar⟩) fun _ _ => hrest

theorem keeps_mergeValue_succ (id value : Nat) :
    Keeps g (mergeValue (fuel + 1) id value) fun _ => True := by
  rw [mergeValue]
  refine (keeps_node id).bind fun start _ => (keeps_node value).bind fun n hn => ?_
  split
  · rename_i entries hentries
    have hvalue : (g.node value).content.kind = .mapping := by rw [← hn.kind, hentries]; rfl
    exact (h.merge value hvalue).bind fun _ _ => keeps_entries value
  · refine (Preserves.mapM _ fun item => ?_).bind fun parts _ => .pure trivial
    refine (keeps_node item).bind fun part hpart => ?_
    split
    · rename_i entries hentries
      have hitem : (g.node item).content.kind = .mapping := by rw [← hpart.kind, hentries]; rfl
      exact (h.merge item hitem).bind fun _ _ => keeps_entries item
    · exact keeps_fail
  · exact keeps_fail

end Step

theorem mergingKeeps (g : Graph) (fuel : Nat) : MergingKeeps g fuel := by
  induction fuel with
  | zero =>
    constructor
    · intro id _
      rw [merge]
      exact .pure trivial
    · intro id position merged _
      rw [mergeFrom]
      exact .pure trivial
    · intro id value
      rw [mergeValue]
      exact .pure trivial
  | succ fuel h =>
    constructor
    · exact fun _ => keeps_merge_succ h
    · exact fun _ => keeps_mergeFrom_succ h
    · exact keeps_mergeValue_succ h

/-! ### Collections -/

theorem keeps_fillEntries (id : Nat) (done : List Datum.Entry) (rest : List (Nat × Nat)) :
    Keeps g (fillEntries id done rest) fun _ => True := by
  induction rest generalizing done with
  | nil => exact .pure trivial
  | cons entry rest ih =>
    rw [fillEntries]
    refine (keeps_value _).bind fun k _ => .ite (fun _ => ?_) fun _ => ?_
    · exact (keeps_node _).bind fun _ _ => (keeps_node _).bind fun _ _ => keeps_fail
    · exact (keeps_value _).bind fun v _ => ih _

theorem keeps_mappingEntries (id : Nat) : Keeps g (mappingEntries id) fun _ => True := by
  refine (keeps_node id).bind fun n hn => ?_
  split
  · rename_i entries hentries
    have hid : (g.node id).content.kind = .mapping := by rw [← hn.kind, hentries]; rfl
    exact Preserves.get.bind fun _ _ => ((mergingKeeps g _).merge id hid).bind fun _ _ =>
      (keeps_entries id).bind fun own _ => keeps_fillEntries id [] own
  · exact keeps_failAt

theorem keeps_sequenceItems (id : Nat) : Keeps g (sequenceItems id) fun _ => True := by
  refine (keeps_node id).bind fun n _ => ?_
  split
  · exact .mapM _ fun item => keeps_value item
  · exact keeps_failAt

theorem keeps_pairItems (context : Context) (id : Nat) :
    Keeps g (pairItems context id) fun _ => True := by
  refine (keeps_node id).bind fun n _ => ?_
  split
  · refine .mapM _ fun item => (keeps_node item).bind fun part _ => ?_
    split
    · exact (keeps_value _).bind fun k _ => (keeps_value _).bind fun v _ => .pure trivial
    · exact keeps_fail
    · exact keeps_fail
  · exact keeps_fail

theorem keeps_fill (id : Nat) : Keeps g (fill id) fun _ => True := by
  refine (keeps_node id).bind fun n _ => .ite (fun _ => ?_) fun _ => .ite (fun _ => ?_) fun _ =>
    .ite (fun _ => ?_) fun _ => .ite (fun _ => ?_) fun _ => ?_
  · exact (keeps_sequenceItems id).bind fun _ _ => .pure trivial
  · exact (keeps_mappingEntries id).bind fun _ _ => .pure trivial
  · exact (keeps_pairItems _ id).bind fun _ _ => .pure trivial
  · exact (keeps_pairItems _ id).bind fun _ _ => .pure trivial
  · exact (keeps_mappingEntries id).bind fun _ _ => .pure trivial

theorem keeps_fillAll (fuel : Nat) : Keeps g (fillAll fuel) fun _ => True := by
  induction fuel with
  | zero => exact .pure trivial
  | succ fuel ih =>
    rw [fillAll]
    refine Preserves.get.bind fun m _ => ?_
    split
    · exact .pure trivial
    · exact .bind (.modify fun _ hm => hm) fun _ _ => (keeps_fill _).bind fun d _ =>
        .bind (.modify fun _ hm => hm) fun _ _ => ih

theorem keeps_document (root : Nat) : Keeps g (document root) fun _ => True :=
  (keeps_value root).bind fun _ _ => Preserves.get.bind fun _ _ => (keeps_fillAll _).bind fun _ _ =>
    .pure trivial

end Making

/-- Making the value of a graph ends with a fault only if one of its nodes is misread. -/
theorem misreads_of_ofGraph {fault : Fault} (h : ofGraph g = .error (.fault fault)) :
    ∃ id, g.Misreads id fault := by
  obtain h | ⟨_, -, ⟨⟩⟩ := bind_eq_error_iff.1 h
  have hmeets := Making.keeps_document g.root
    ⟨g.nodes, Array.replicate g.nodes.size none, Array.replicate g.nodes.size .null, []⟩
    fun id => .refl (g.node id)
  rw [h] at hmeets
  exact hmeets fault rfl

end Data

end Treeline
