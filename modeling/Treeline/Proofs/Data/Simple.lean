import Treeline.Proofs.Data.Faults

/-!
# Values of simple graphs

In a simple graph nothing is merged, keys are scalars, and the values of scalars are made of their
texts alone. Making its value meets nodes from the root on, and fills in every collection that it
meets. Nothing is reported, so there is a value unless a node that is reached is misread.
-/

namespace Treeline

namespace Yaml

def Content.children : Content → List Nat
  | .scalar _ => []
  | .sequence items => items
  | .mapping entries => entries.flatMap fun entry => [entry.1, entry.2]

theorem Content.children_of_scalar {content : Content} (h : content.kind = .scalar) :
    content.children = [] := by
  cases content with
  | scalar text => rfl
  | _ => cases h

namespace Graph

/-- The nodes that are found from the root on. -/
inductive Uses (g : Graph) : Nat → Prop
  | root : Uses g g.root
  | child {id child : Nat} (h : Uses g id) (hchild : child ∈ (g.node id).content.children) :
      Uses g child

/-- The tags of scalars in simple graphs. -/
def scalarTags : List String :=
  [Tag.null, Tag.bool, Tag.int, Tag.float, Tag.timestamp, Tag.text]

/-- Whether a node may have a tag and hold something in a simple graph. -/
def Fits (g : Graph) (tag : String) : Content → Prop
  | .scalar _ => tag ∈ scalarTags
  | .sequence items => tag = Tag.list ∧ ∀ item ∈ items, item < g.nodes.size
  | .mapping entries => tag = Tag.dict ∧ ∀ entry ∈ entries,
      entry.1 < g.nodes.size ∧ entry.2 < g.nodes.size ∧ (g.node entry.1).content.kind = .scalar

/-- A graph of lists, dictionaries with scalars as keys, and scalars. -/
structure IsSimple (g : Graph) : Prop where
  root : g.root < g.nodes.size
  fits : ∀ id < g.nodes.size, g.Fits (g.node id).tag (g.node id).content

instance (g : Graph) (tag : String) : (content : Content) → Decidable (g.Fits tag content)
  | .scalar _ => inferInstanceAs (Decidable (tag ∈ scalarTags))
  | .sequence items =>
    inferInstanceAs (Decidable (tag = Tag.list ∧ ∀ item ∈ items, item < g.nodes.size))
  | .mapping entries =>
    inferInstanceAs (Decidable (tag = Tag.dict ∧ ∀ entry ∈ entries, entry.1 < g.nodes.size ∧
      entry.2 < g.nodes.size ∧ (g.node entry.1).content.kind = .scalar))

instance (g : Graph) : Decidable g.IsSimple :=
  decidable_of_iff
    (g.root < g.nodes.size ∧ ∀ id < g.nodes.size, g.Fits (g.node id).tag (g.node id).content)
    ⟨fun h => ⟨h.1, h.2⟩, fun h => ⟨h.root, h.fits⟩⟩

variable {g : Graph} {id : Nat} {fault : Fault} {text : String}

/-- Why making values of a simple graph stops. -/
def Spoils (g : Graph) (stop : Stop Failure) : Prop :=
  ∃ id fault, stop = .fault fault ∧ g.Uses id ∧ g.Misreads id fault

theorem IsSimple.lt_size_of_child (h : g.IsSimple) (hid : id < g.nodes.size) {child : Nat}
    (hchild : child ∈ (g.node id).content.children) : child < g.nodes.size := by
  have hfits := h.fits id hid
  cases hcontent : (g.node id).content with
  | scalar text =>
    rw [hcontent] at hchild
    cases hchild
  | sequence items =>
    rw [hcontent] at hfits hchild
    exact hfits.2 child hchild
  | mapping entries =>
    rw [hcontent] at hfits hchild
    obtain ⟨entry, hentry, hmem⟩ := List.mem_flatMap.1 hchild
    obtain ⟨hkey, hvalue, -⟩ := hfits.2 entry hentry
    obtain rfl | rfl := List.mem_pair.1 hmem
    · exact hkey
    · exact hvalue

theorem IsSimple.tag_of_scalar (h : g.IsSimple) (hid : id < g.nodes.size)
    (hkind : (g.node id).content.kind = .scalar) : (g.node id).tag ∈ scalarTags := by
  have hfits := h.fits id hid
  cases hcontent : (g.node id).content with
  | scalar text =>
    rw [hcontent] at hfits
    exact hfits
  | _ =>
    rw [hcontent] at hkind
    cases hkind

theorem Uses.lt_size (h : g.Uses id) (hsimple : g.IsSimple) : id < g.nodes.size := by
  induction h with
  | root => exact hsimple.root
  | child h hchild ih => exact hsimple.lt_size_of_child ih hchild

theorem TextOf.eq_of_scalar {other : String} (h : g.TextOf id other)
    (htext : (g.node id).content = .scalar text) : other = text := by
  cases h with
  | scalar h =>
    rw [h] at htext
    cases htext
    rfl
  | mapping h =>
    rw [htext] at h
    cases h

/-- The collections that have to wait when a node is met: the node itself, but for scalars. -/
def waits (g : Graph) (id : Nat) : List Nat :=
  if (g.node id).content.kind = .scalar then [] else [id]

theorem mem_waits_iff {other : Nat} :
    other ∈ g.waits id ↔ other = id ∧ (g.node id).content.kind ≠ .scalar := by
  rw [waits]
  split
  · simp [*]
  · simp [*]

theorem length_waits_le (g : Graph) (id : Nat) : (g.waits id).length ≤ 1 := by
  rw [waits]
  split
  · exact Nat.zero_le 1
  · exact Nat.le_refl 1

/-- What holds of the value of a node. -/
structure Gives (g : Graph) (id : Nat) (d : Datum) : Prop where
  key : (g.node id).content.kind = .scalar → Data.Making.isKey d = true
  right : ∀ fault, ¬g.Misreads id fault

theorem not_misreads_of_tag (h : ∀ kind : Datum.ValueKind, (g.node id).tag ≠ kind.tag) :
    ¬g.Misreads id fault := by
  rintro (⟨htag, -⟩ | ⟨htag⟩)
  · exact h _ htag
  · exact h .time htag

theorem not_misreads_of_read {kind : Datum.ValueKind} {d : Datum}
    (htag : (g.node id).tag = kind.tag) (htext : (g.node id).content = .scalar text)
    (hread : kind.read text = .ok d) : ¬g.Misreads id fault := by
  rintro (⟨hother, hof, -, h⟩ | ⟨-, hkind⟩)
  · obtain rfl := Datum.ValueKind.tag_injective (htag.symm.trans hother)
    obtain rfl := hof.eq_of_scalar htext
    obtain ⟨first, hfirst⟩ := Datum.exists_fault_of_misread h
    rw [hread] at hfirst
    cases hfirst
  · rw [htext] at hkind
    cases hkind

end Graph

end Yaml

namespace Data

open Yaml

variable {g : Graph} {m : Maker} {id : Nat}

/-- Whether a node has a value by now. -/
def Maker.Met (m : Maker) (id : Nat) : Prop := ∃ d, m.value? id = some d

/-- What holds while a simple graph is walked through: the nodes that were met are right, and so are
those that they refer to, but for those of the collections that are filled in now or later. -/
structure Maker.Walks (g : Graph) (budget : Nat) (current met : List Nat) (m : Maker) : Prop where
  nodes : m.nodes = g.nodes
  size : m.values.size = g.nodes.size
  /-- A node that has no value may come to wait. -/
  least : m.waiting.length + m.values.countP Option.isNone ≤ budget
  right : ∀ id, m.Met id → g.Uses id ∧ ∀ fault, ¬g.Misreads id fault
  key : ∀ id d, m.value? id = some d → (g.node id).content.kind = .scalar →
    Making.isKey d = true
  waiting : ∀ id ∈ m.waiting, m.Met id ∧ (g.node id).content.kind ≠ .scalar
  met : ∀ id ∈ met, m.Met id
  filled : ∀ id, m.Met id →
    id ∈ current ∨ id ∈ m.waiting ∨ ∀ child ∈ (g.node id).content.children, m.Met child

variable {budget : Nat} {current met : List Nat}

namespace Maker.Walks

theorem node (h : m.Walks g budget current met) (id : Nat) : m.node id = g.node id := by
  rw [Maker.node, h.nodes, Graph.node]

theorem mono (h : m.Walks g budget current met) {fewer : List Nat} (hmet : fewer ⊆ met) :
    m.Walks g budget current fewer :=
  { h with met := fun id hid => h.met id (hmet hid) }

/-- The first collection that waits is filled in next. -/
theorem take {fuel : Nat} {rest : List Nat} (h : m.Walks g (fuel + 1) [] met)
    (hwaiting : m.waiting = id :: rest) :
    ({ m with waiting := rest } : Maker).Walks g fuel [id] met := by
  refine ⟨h.nodes, h.size, ?_, h.right, h.key, ?_, h.met, ?_⟩
  · have hleast := h.least
    rw [hwaiting, List.length_cons] at hleast
    dsimp only
    omega
  · intro other hother
    refine h.waiting other ?_
    rw [hwaiting]
    exact List.mem_cons_of_mem _ hother
  · intro other hother
    obtain hnone | hother | hchildren := h.filled other hother
    · cases hnone
    · rw [hwaiting] at hother
      obtain rfl | hother := List.mem_cons.1 hother
      · exact .inl List.mem_cons_self
      · exact .inr (.inl hother)
    · exact .inr (.inr hchildren)

/-- It is done when everything that it refers to has been met. -/
theorem leave (h : m.Walks g budget [id] ((g.node id).content.children ++ met))
    (definitions : Array Datum) :
    ({ m with definitions := definitions } : Maker).Walks g budget [] met := by
  refine ⟨h.nodes, h.size, h.least, h.right, h.key, h.waiting, ?_, ?_⟩
  · exact fun other hother => h.met other (List.mem_append_right _ hother)
  · intro other hother
    obtain hcurrent | hrest := h.filled other hother
    · rw [List.mem_singleton.1 hcurrent]
      exact .inr (.inr fun child hchild => h.met child (List.mem_append_left _ hchild))
    · exact .inr hrest

end Maker.Walks

def Maker.meet (g : Graph) (m : Maker) (id : Nat) (d : Datum) : Maker :=
  { m with values := m.values.setIfInBounds id (some d), waiting := m.waiting ++ g.waits id }

section Meet

variable (hid : id < m.values.size) {d : Datum} {other : Nat}

include hid

theorem Maker.value?_meet :
    (m.meet g id d).value? other = if id = other then some d else m.value? other := by
  rw [Maker.value?, Maker.meet, Array.getElem?_setIfInBounds, if_pos hid]
  split
  · rfl
  · rfl

theorem Maker.met_meet_iff : (m.meet g id d).Met other ↔ other = id ∨ m.Met other := by
  rw [Maker.Met, Maker.value?_meet hid]
  split
  · simp [*]
  · rename_i hne
    simp [Ne.symm hne, Maker.Met]

theorem Maker.countP_meet (hnone : m.value? id = none) :
    (m.meet g id d).values.countP Option.isNone + 1 = m.values.countP Option.isNone := by
  have hget : m.values[id] = none := by
    rw [Maker.value?, Array.getElem?_eq_getElem hid] at hnone
    exact hnone
  have hpos : 0 < m.values.countP Option.isNone := by
    refine Array.countP_pos_iff.2 ⟨_, Array.getElem_mem hid, ?_⟩
    rw [hget]
    rfl
  rw [Maker.meet, Array.setIfInBounds, dif_pos hid, Array.countP_set hid, hget,
    Option.isNone_none, Option.isNone_some, if_pos rfl, if_neg Bool.false_ne_true]
  omega

end Meet

/-- A node is met when its value has been made. -/
theorem Maker.Walks.meet (h : m.Walks g budget current met) (hid : id < g.nodes.size)
    (hnone : m.value? id = none) (huse : g.Uses id) {d : Datum} (hgives : g.Gives id d) :
    (m.meet g id d).Walks g budget current (id :: met) := by
  have hsize : id < m.values.size := by rwa [h.size]
  have hmet : ∀ other, (m.meet g id d).Met other ↔ other = id ∨ m.Met other :=
    fun other => Maker.met_meet_iff hsize
  constructor
  case nodes => exact h.nodes
  case size => rw [Maker.meet, Array.size_setIfInBounds, h.size]
  case least =>
    have hleast := h.least
    have hcount := Maker.countP_meet hsize (g := g) (d := d) hnone
    have hwaits := g.length_waits_le id
    change (m.waiting ++ g.waits id).length + _ ≤ _
    rw [List.length_append]
    omega
  case right =>
    intro other hother
    obtain rfl | hother := (hmet other).1 hother
    · exact ⟨huse, hgives.right⟩
    · exact h.right other hother
  case key =>
    intro other e hother hkind
    rw [Maker.value?_meet hsize] at hother
    split at hother
    · rename_i heq
      subst heq
      cases hother
      exact hgives.key hkind
    · exact h.key other e hother hkind
  case waiting =>
    intro other hother
    obtain hother | hother := List.mem_append.1 hother
    · obtain ⟨hbefore, hkind⟩ := h.waiting other hother
      exact ⟨(hmet other).2 (.inr hbefore), hkind⟩
    · obtain ⟨rfl, hkind⟩ := Graph.mem_waits_iff.1 hother
      exact ⟨(hmet other).2 (.inl rfl), hkind⟩
  case met =>
    intro other hother
    obtain rfl | hother := List.mem_cons.1 hother
    · exact (hmet other).2 (.inl rfl)
    · exact (hmet other).2 (.inr (h.met other hother))
  case filled =>
    intro other hother
    obtain rfl | hother := (hmet other).1 hother
    · by_cases hkind : (g.node other).content.kind = .scalar
      · rw [Content.children_of_scalar hkind]
        exact .inr (.inr (List.forall_mem_nil _))
      · exact .inr (.inl (List.mem_append_right _ (Graph.mem_waits_iff.2 ⟨rfl, hkind⟩)))
    · obtain hcurrent | hwaiting | hchildren := h.filled other hother
      · exact .inl hcurrent
      · exact .inr (.inl (List.mem_append_left _ hwaiting))
      · exact .inr (.inr fun child hchild => (hmet child).2 (.inr (hchildren child hchild)))

namespace Making

/-! ### Scalars -/

theorem isKey_of_read {kind : Datum.ValueKind} {text : String} {d : Datum}
    (h : kind.read text = .ok d) : isKey d = true := by
  cases kind with
  | truth =>
    rw [Datum.ValueKind.read, Datum.ofBoolText] at h
    split at h
    · cases h
      rfl
    · split at h
      · cases h
        rfl
      · cases h
  | whole =>
    obtain ⟨⟨isNegative, body⟩, -, h⟩ := bind_eq_ok_iff.1 h
    obtain ⟨n, -, ⟨⟩⟩ := bind_eq_ok_iff.1 h
    rfl
  | fractional =>
    obtain ⟨⟨isNegative, body⟩, -, h⟩ := bind_eq_ok_iff.1 h
    obtain ⟨x, -, ⟨⟩⟩ := bind_eq_ok_iff.1 h
    rfl
  | time =>
    rw [Datum.ValueKind.read, Datum.ofTimestampText] at h
    split at h
    · cases h
    · split at h
      all_goals
        cases h
      all_goals
        rfl

theorem run_scalarText {text : String} (h : (m.node id).content = .scalar text) :
    (scalarText id).run m = .ok (text, m) := by
  rw [scalarText, run_bind_of_run (run_get m), Making.text, run_bind_of_run (run_node m id), h]
  rfl

theorem meets_read (kind : Datum.ValueKind) {text : String} (huse : g.Uses id)
    (htag : (g.node id).tag = kind.tag) (htext : (g.node id).content = .scalar text) :
    Meets (· = m) (ofExcept (kind.read text)) (fun d left => left = m ∧ g.Gives id d) g.Spoils := by
  cases hread : kind.read text with
  | error fault =>
    refine Meets.throw ⟨id, fault, rfl, huse, .text htag (.scalar htext) (fun _ => ?_) ?_⟩
    · rw [htext]
      rintro ⟨⟩
    · exact Datum.misread_of_read hread
  | ok d =>
    refine Meets.pure ?_
    rintro _ rfl
    exact ⟨rfl, fun _ => isKey_of_read hread, fun _ => Graph.not_misreads_of_read htag htext hread⟩

theorem meets_newValue_of_scalar (hnode : m.node id = g.node id) (huse : g.Uses id)
    {text : String} (htext : (g.node id).content = .scalar text)
    (htag : (g.node id).tag ∈ Graph.scalarTags) :
    Meets (· = m) (newValue id) (fun d left => left = m ∧ g.Gives id d) g.Spoils := by
  have hrun : (scalarText id).run m = .ok (text, m) := run_scalarText (by rw [hnode, htext])
  have hplain : ∀ {tag : String} {d : Datum}, (g.node id).tag = tag →
      (∀ kind : Datum.ValueKind, tag ≠ kind.tag) → isKey d = true →
      Meets (· = m) (pure d) (fun d left => left = m ∧ g.Gives id d) g.Spoils := by
    rintro _ d rfl hkind hkey _ rfl
    exact ⟨rfl, fun _ => hkey, fun _ => Graph.not_misreads_of_tag hkind⟩
  refine .reads (run_node m id) ?_
  rw [hnode]
  refine .ite ?_ fun _ => .ite ?_ fun hnull => .ite ?_ fun hbool => .ite ?_ fun hint =>
    .ite ?_ fun hfloat => .ite ?_ fun _ => .ite ?_ fun htime => .ite ?_ fun hstr => ?_
  · intro hcollection
    have hdisjoint : ∀ tag ∈ Graph.scalarTags, collectionTags.contains tag = false := by decide
    rw [hdisjoint _ htag] at hcollection
    cases hcollection
  · exact fun htag => .reads hrun (hplain htag (by rintro (_ | _) <;> decide) rfl)
  · exact fun htag => .reads hrun (meets_read .truth huse htag htext)
  · exact fun htag => .reads hrun (meets_read .whole huse htag htext)
  · exact fun htag => .reads hrun (meets_read .fractional huse htag htext)
  · intro hbinary
    rw [hbinary] at htag
    exact absurd htag (by decide)
  · intro htag
    refine .reads hrun (.reads (run_node m id) ?_)
    rw [hnode, htext]
    exact meets_read .time huse htag htext
  · exact fun htag => .reads hrun (hplain htag (by rintro (_ | _) <;> decide) rfl)
  · -- there is no other tag for scalars
    simp only [Graph.scalarTags, List.mem_cons, List.not_mem_nil, or_false] at htag
    rcases htag with h | h | h | h | h | h
    all_goals contradiction

theorem meets_newValue_of_collection (hnode : m.node id = g.node id)
    (hkind : (g.node id).content.kind ≠ .scalar)
    (htag : (g.node id).tag = Tag.list ∨ (g.node id).tag = Tag.dict) :
    Meets (· = m) (newValue id)
      (fun d left => left = { m with waiting := m.waiting ++ [id] } ∧ g.Gives id d) g.Spoils := by
  have hcontains : collectionTags.contains (g.node id).tag = true := by
    obtain htag | htag := htag
    all_goals
      rw [htag]
      decide
  have hright : ∀ fault, ¬g.Misreads id fault := by
    refine fun fault => Graph.not_misreads_of_tag fun kind => ?_
    obtain htag | htag := htag
    all_goals
      rw [htag]
      cases kind <;> decide
  refine .reads (run_node m id) ?_
  rw [hnode, if_pos hcontains]
  rintro _ rfl
  exact ⟨rfl, fun hscalar => absurd hscalar hkind, hright⟩

theorem meets_newValue (hnode : m.node id = g.node id) (huse : g.Uses id)
    (hfits : g.Fits (g.node id).tag (g.node id).content) :
    Meets (· = m) (newValue id)
      (fun d left => left = { m with waiting := m.waiting ++ g.waits id } ∧ g.Gives id d)
      g.Spoils := by
  cases hcontent : (g.node id).content with
  | scalar text =>
    rw [hcontent] at hfits
    have hwaits : m.waiting ++ g.waits id = m.waiting := by
      rw [Graph.waits, hcontent, Content.kind, if_pos rfl, List.append_nil]
    rw [hwaits]
    exact meets_newValue_of_scalar hnode huse hcontent hfits
  | sequence items =>
    rw [hcontent] at hfits
    rw [Graph.waits, hcontent, if_neg (by rintro ⟨⟩)]
    exact meets_newValue_of_collection hnode (by rw [hcontent]; rintro ⟨⟩) (.inl hfits.1)
  | mapping entries =>
    rw [hcontent] at hfits
    rw [Graph.waits, hcontent, if_neg (by rintro ⟨⟩)]
    exact meets_newValue_of_collection hnode (by rw [hcontent]; rintro ⟨⟩) (.inr hfits.1)

/-! ### Merging -/

theorem run_entries {own : List (Nat × Nat)} (h : (m.node id).content = .mapping own) :
    (entries id).run m = .ok (own, m) := by
  rw [entries, run_bind_of_run (run_node m id), h]
  rfl

section Merge

variable {own : List (Nat × Nat)} (hown : (m.node id).content = .mapping own)
  (hkeys : ∀ entry ∈ own, (m.node entry.1).tag ∈ Graph.scalarTags)

include hown hkeys

theorem run_mergeFrom (fuel position : Nat) (merged : List (Nat × Nat)) :
    (mergeFrom fuel id position merged).run m = .ok (merged, m) := by
  induction fuel generalizing position with
  | zero =>
    rw [mergeFrom]
    rfl
  | succ fuel ih =>
    rw [mergeFrom, run_bind_of_run (run_entries hown)]
    cases hentry : own[position]? with
    | none => rfl
    | some entry =>
      obtain ⟨key, value⟩ := entry
      have htag := hkeys _ (List.mem_of_getElem? hentry)
      have hmerge : (m.node key).tag ≠ Tag.merge := by
        intro h
        rw [h] at htag
        exact absurd htag (by decide)
      have hvalue : (m.node key).tag ≠ Tag.value := by
        intro h
        rw [h] at htag
        exact absurd htag (by decide)
      dsimp only
      rw [run_bind_of_run (run_node m key), if_neg hmerge, if_neg hvalue]
      exact ih (position + 1)

/-- Merging leaves a mapping of ordinary keys as it is. -/
theorem run_merge (fuel : Nat) : (merge fuel id).run m = .ok ((), m) := by
  cases fuel with
  | zero =>
    rw [merge]
    rfl
  | succ fuel =>
    rw [merge, run_bind_of_run (run_mergeFrom hown hkeys fuel 0 [])]
    rfl

end Merge

/-! ### Nodes that are met -/

section Simple

variable (hs : g.IsSimple)

include hs

theorem meets_value (huse : g.Uses id) :
    Meets (Maker.Walks g budget current met) (value id)
      (fun d m => m.Walks g budget current (id :: met) ∧
        ((g.node id).content.kind = .scalar → isKey d = true)) g.Spoils := by
  have hid := huse.lt_size hs
  refine .each fun m hm => .reads (run_get m) ?_
  split
  · rename_i d hvalue
    refine Meets.pure ?_
    rintro _ rfl
    refine ⟨{ hm with met := ?_ }, hm.key id d hvalue⟩
    exact List.forall_mem_cons.2 ⟨⟨d, hvalue⟩, hm.met⟩
  · rename_i hvalue
    refine (meets_newValue (hm.node id) huse (hs.fits id hid)).bind fun d => .given fun hgives => ?_
    rintro _ rfl
    exact ⟨hm.meet hid hvalue huse hgives, hgives.key⟩

theorem meets_fillEntries (id : Nat) (done : List Datum.Entry) {rest : List (Nat × Nat)}
    (hrest : ∀ entry ∈ rest, g.Uses entry.1 ∧ g.Uses entry.2 ∧
      (g.node entry.1).content.kind = .scalar) :
    Meets (Maker.Walks g budget current met) (fillEntries id done rest)
      (fun _ => Maker.Walks g budget current (Content.children (.mapping rest) ++ met))
      g.Spoils := by
  induction rest generalizing done met with
  | nil => exact .pure fun _ hm => hm
  | cons entry rest ih =>
    obtain ⟨key, entry⟩ := entry
    obtain ⟨⟨hkey, hentry, hscalar⟩, hrest⟩ := List.forall_mem_cons.1 hrest
    rw [fillEntries]
    refine (meets_value hs hkey).bind fun k => .given fun hk => ?_
    rw [if_neg (by rw [hk hscalar]; rintro ⟨⟩)]
    refine (meets_value hs hentry).bind fun v => .given fun _ => ?_
    refine (ih _ hrest).weaken (fun _ hm => hm) fun _ m hm => hm.mono ?_
    intro id hid
    simp only [Content.children, List.flatMap_cons, List.mem_append, List.mem_cons,
      List.not_mem_nil, or_false] at hid ⊢
    tauto

theorem meets_mappingEntries (huse : g.Uses id) {own : List (Nat × Nat)}
    (hown : (g.node id).content = .mapping own) :
    Meets (Maker.Walks g budget current met) (mappingEntries id)
      (fun _ => Maker.Walks g budget current (Content.children (.mapping own) ++ met))
      g.Spoils := by
  have hfits := hs.fits id (huse.lt_size hs)
  rw [hown] at hfits
  have hchild : ∀ entry ∈ own, ∀ child ∈ [entry.1, entry.2], g.Uses child := by
    intro entry hentry child hmem
    refine huse.child ?_
    rw [hown]
    exact List.mem_flatMap.2 ⟨entry, hentry, hmem⟩
  refine .each fun m hm => .reads (run_node m id) ?_
  have hcontent : (m.node id).content = .mapping own := by rw [hm.node, hown]
  rw [hcontent]
  refine .reads (run_get m) (.reads (run_merge hcontent ?_ _) (.reads (run_entries hcontent) ?_))
  · intro entry hentry
    obtain ⟨hkey, -, hscalar⟩ := hfits.2 entry hentry
    rw [hm.node]
    exact hs.tag_of_scalar hkey hscalar
  · refine (meets_fillEntries hs id [] fun entry hentry => ?_).here hm
    exact ⟨hchild entry hentry _ List.mem_cons_self,
      hchild entry hentry _ (List.mem_cons_of_mem _ List.mem_cons_self),
      (hfits.2 entry hentry).2.2⟩

theorem meets_sequenceItems (huse : g.Uses id) {items : List Nat}
    (hitems : (g.node id).content = .sequence items) :
    Meets (Maker.Walks g budget current met) (sequenceItems id)
      (fun _ => Maker.Walks g budget current (items ++ met)) g.Spoils := by
  have hchild : ∀ item ∈ items, g.Uses item := by
    intro item hitem
    refine huse.child ?_
    rw [hitems]
    exact hitem
  have hvalues : Meets (Maker.Walks g budget current met) (items.mapM value)
      (fun _ => Maker.Walks g budget current (items.reverse ++ [] ++ met)) g.Spoils :=
    @Meets.mapM _ _ _ _ (fun done => Maker.Walks g budget current (done ++ met)) _
      (fun item hitem _ => (meets_value hs (hchild item hitem)).weaken (fun _ hm => hm)
        fun _ _ hleft => hleft.1) []
  refine .each fun m hm => .reads (run_node m id) ?_
  rw [hm.node, hitems]
  refine (hvalues.here hm).weaken (fun _ heq => heq) fun _ m hleft => hleft.mono ?_
  rw [List.append_nil]
  intro item hitem
  simpa using hitem

theorem meets_fill (huse : g.Uses id) (hkind : (g.node id).content.kind ≠ .scalar) :
    Meets (Maker.Walks g budget current met) (fill id)
      (fun _ => Maker.Walks g budget current ((g.node id).content.children ++ met))
      g.Spoils := by
  have hfits := hs.fits id (huse.lt_size hs)
  refine .each fun m hm => .reads (run_node m id) ?_
  rw [hm.node]
  cases hcontent : (g.node id).content with
  | scalar text =>
    rw [hcontent] at hkind
    exact absurd rfl hkind
  | sequence items =>
    rw [hcontent] at hfits
    rw [hfits.1, if_pos rfl]
    exact ((meets_sequenceItems hs huse hcontent).here hm).bind fun _ => .pure fun _ hleft => hleft
  | mapping own =>
    rw [hcontent] at hfits
    rw [hfits.1, if_neg (by decide), if_neg (by decide), if_neg (by decide), if_neg (by decide)]
    exact ((meets_mappingEntries hs huse hcontent).here hm).bind fun _ => .pure fun _ hleft => hleft

/-- There is fuel for every collection that waits or may come to wait. -/
theorem meets_fillAll (fuel : Nat) :
    Meets (Maker.Walks g fuel [] met) (fillAll fuel)
      (fun _ m => (∃ left, m.Walks g left [] met) ∧ m.waiting = []) g.Spoils := by
  induction fuel with
  | zero =>
    refine .pure fun m hm => ⟨⟨0, hm⟩, List.length_eq_zero_iff.1 ?_⟩
    exact Nat.eq_zero_of_add_eq_zero_right (Nat.le_zero.1 hm.least)
  | succ fuel ih =>
    rw [fillAll]
    refine .each fun m hm => .reads (run_get m) ?_
    cases hwaiting : m.waiting with
    | nil =>
      refine Meets.pure ?_
      rintro _ rfl
      exact ⟨⟨fuel + 1, hm⟩, hwaiting⟩
    | cons id rest =>
      obtain ⟨hmet, hkind⟩ := hm.waiting id (by rw [hwaiting]; exact List.mem_cons_self)
      have htake : Meets (· = m) (modify fun s => { s with waiting := rest } : Making Unit)
          (fun _ => Maker.Walks g fuel [id] met) g.Spoils := by
        rintro _ rfl
        exact hm.take hwaiting
      exact htake.bind fun _ => (meets_fill hs (hm.right id hmet).1 hkind).bind fun d =>
        .bind (.modify fun _ hleft => hleft.leave _) fun _ => ih

theorem meets_document :
    Meets (Maker.Walks g (g.nodes.size + 1) [] []) (document g.root)
      (fun _ _ => ∀ id, g.Uses id → ∀ fault, ¬g.Misreads id fault) g.Spoils := by
  refine (meets_value hs .root).bind fun d => .given fun _ => .each fun m hm => ?_
  refine .reads (run_get m) ?_
  rw [hm.nodes]
  refine ((meets_fillAll hs _).here hm).bind fun _ => .pure ?_
  rintro left ⟨⟨budget, hleft⟩, hwaiting⟩ id huse
  refine (hleft.right id ?_).2
  induction huse with
  | root => exact hleft.met _ List.mem_cons_self
  | @child id child h hchild ih =>
    obtain hnone | hnone | hchildren := hleft.filled id ih
    · cases hnone
    · rw [hwaiting] at hnone
      cases hnone
    · exact hchildren child hchild

end Simple

end Making

/-- A simple graph has a value unless a node that is reached is misread. -/
theorem ofGraph_cases (hs : g.IsSimple) :
    ((∃ data, ofGraph g = .ok data) ∧ ∀ id, g.Uses id → ∀ fault, ¬g.Misreads id fault) ∨
      ∃ id fault, ofGraph g = .error (.fault fault) ∧ g.Uses id ∧ g.Misreads id fault := by
  let start : Maker :=
    ⟨g.nodes, Array.replicate g.nodes.size none, Array.replicate g.nodes.size .null, []⟩
  have hnone : ∀ id, ¬start.Met id := by
    rintro id ⟨d, hd⟩
    rw [Maker.value?, Array.getElem?_replicate] at hd
    split at hd
    · cases hd
    · cases hd
  have hstart : start.Walks g (g.nodes.size + 1) [] [] := by
    refine ⟨rfl, Array.size_replicate, ?_, ?_, ?_, ?_, ?_, ?_⟩
    · have hcount := @Array.countP_le_size _ Option.isNone start.values
      rw [show start.values.size = g.nodes.size from Array.size_replicate] at hcount
      change 0 + _ ≤ _
      omega
    · exact fun id hid => absurd hid (hnone id)
    · exact fun id d hid _ => absurd ⟨d, hid⟩ (hnone id)
    · exact List.forall_mem_nil _
    · exact List.forall_mem_nil _
    · exact fun id hid => absurd hid (hnone id)
  have hmeets := Making.meets_document hs start hstart
  cases hrun : (Making.document g.root).run start with
  | ok pair =>
    rw [hrun] at hmeets
    exact .inl ⟨⟨_, bind_eq_ok_iff.2 ⟨pair, hrun, rfl⟩⟩, hmeets⟩
  | error stop =>
    rw [hrun] at hmeets
    obtain ⟨id, fault, rfl, huse, hmisreads⟩ := hmeets
    exact .inr ⟨id, fault, bind_eq_error_iff.2 (.inl hrun), huse, hmisreads⟩

end Data

end Treeline
