import Treeline.Proofs.Tree.Descent

/-!
# Where a path cannot be followed

A node refuses a field if it is no mapping or has no entry under that key, and an index if it is no
sequence or has no item at that position. Following a path stops at the first segment that is
refused, with the segments in front of it, and at nothing else. The exception is an index that is
too long to be written, which cannot be reported; a path without such an index is followed to its
end or its first refusal is reported.
-/

namespace Treeline

def Unresolved.resolved : Unresolved → Path
  | .key _ resolved => resolved
  | .index _ _ resolved => resolved

namespace Tree

/-- A node to which a segment cannot be applied, and what is reported about that. -/
inductive Refuses (node : Tree) (resolved : Path) : Segment → Unresolved → Prop
  | key {name : String} (missing : ∀ entries, node = .mapping entries → name ∉ entries.map Prod.fst) :
    Refuses node resolved (.field name) (.key name resolved)
  | notSequence {position : Int} (other : ∀ items, node ≠ .sequence items) :
    Refuses node resolved (.index position) (.index position none resolved)
  | outside {position : Int} {items : List Tree} (sequence : node = .sequence items)
    (range : position < 0 ∨ (items.length : Int) ≤ position) :
    Refuses node resolved (.index position) (.index position (some items.length) resolved)

variable {root node : Tree} {path resolved : Path} {segment : Segment} {e : Unresolved}

/-! ### Single segments -/

theorem child?_field_eq_none_iff {name : String} :
    node.child? (.field name) = none ↔
      ∀ entries, node = .mapping entries → name ∉ entries.map Prod.fst := by
  cases node with
  | scalar text => simp [child?]
  | sequence items => simp [child?]
  | mapping entries =>
    rw [child?, lookup, Option.map_eq_none_iff, List.find?_eq_none]
    constructor
    · rintro hnone _ ⟨⟩ hmem
      obtain ⟨entry, hentry, rfl⟩ := List.mem_map.1 hmem
      exact hnone entry hentry (beq_self_eq_true _)
    · intro hmissing entry hentry hkey
      exact hmissing entries rfl (List.mem_map.2 ⟨entry, hentry, beq_iff_eq.1 hkey⟩)

theorem child?_sequence_eq_none_iff {items : List Tree} {position : Int} :
    (sequence items).child? (.index position) = none ↔
      position < 0 ∨ (items.length : Int) ≤ position := by
  rw [child?, itemAt]
  split
  · rename_i hnegative
    simp [hnegative]
  · rw [List.getElem?_eq_none_iff]
    omega

theorem Refuses.resolved_eq (h : Refuses node resolved segment e) : e.resolved = resolved := by
  cases h <;> rfl

theorem Refuses.child?_eq_none (h : Refuses node resolved segment e) :
    node.child? segment = none := by
  cases h with
  | key hmissing => exact child?_field_eq_none_iff.2 hmissing
  | notSequence hother =>
    cases node with
    | scalar text => rfl
    | sequence items => exact absurd rfl (hother items)
    | mapping entries => rfl
  | outside hsequence hrange =>
    rw [hsequence]
    exact child?_sequence_eq_none_iff.2 hrange

theorem exists_refuses (resolved : Path) (hnone : node.child? segment = none) :
    ∃ e, Refuses node resolved segment e := by
  cases segment with
  | field name => exact ⟨_, .key (child?_field_eq_none_iff.1 hnone)⟩
  | index position =>
    cases node with
    | scalar text => exact ⟨_, .notSequence (by simp)⟩
    | sequence items => exact ⟨_, .outside rfl (child?_sequence_eq_none_iff.1 hnone)⟩
    | mapping entries => exact ⟨_, .notSequence (by simp)⟩

theorem Refuses.unresolved_eq (h : Refuses node resolved segment e)
    (hshort : ∀ position, segment = .index position → Numeral.isShort position = true) :
    node.unresolved resolved segment = .reported e := by
  cases h with
  | key hmissing => rfl
  | @notSequence position hother =>
    cases node with
    | scalar text =>
      unfold unresolved
      exact if_pos (hshort position rfl)
    | sequence items => exact absurd rfl (hother items)
    | mapping entries =>
      unfold unresolved
      exact if_pos (hshort position rfl)
  | @outside position items hsequence hrange =>
    rw [hsequence]
    unfold unresolved
    exact if_pos (hshort position rfl)

theorem exists_child?_of_mem_keys {entries : List (String × Tree)} {name : String}
    (hname : name ∈ entries.map Prod.fst) :
    ∃ before child after, entries = before ++ (name, child) :: after ∧
      name ∉ before.map Prod.fst ∧ (mapping entries).child? (.field name) = some child := by
  cases hfind : entries.find? (·.1 == name) with
  | none =>
    obtain ⟨entry, hentry, rfl⟩ := List.mem_map.1 hname
    exact absurd (List.find?_eq_none.1 hfind entry hentry) (by simp)
  | some entry =>
    obtain ⟨hkey, before, after, rfl, hbefore⟩ := List.find?_eq_some_iff_append.1 hfind
    obtain ⟨key, child⟩ := entry
    obtain rfl := beq_iff_eq.1 hkey
    refine ⟨before, child, after, rfl, ?_, ?_⟩
    · intro hmem
      obtain ⟨other, hother, hkey⟩ := List.mem_map.1 hmem
      simpa [hkey] using hbefore other hother
    · rw [child?, lookup, hfind]
      rfl

/-! ### Paths -/

theorem exists_resolve_of_prefix {front : Path} (hfront : front <+: path)
    (h : root.resolve path = .ok node) : ∃ n, root.resolve front = .ok n := by
  obtain ⟨rest, rfl⟩ := hfront
  rw [resolve_eq_ok_iff, descend?_append, Option.bind_eq_some_iff] at h
  obtain ⟨n, hn, -⟩ := h
  exact ⟨n, resolve_eq_ok_iff.2 hn⟩

/-- Behind a segment that cannot be applied, no path leads anywhere. -/
theorem resolve_ne_ok_of_child? {front rest : Path} {n : Tree}
    (hfront : root.resolve front = .ok node) (hnone : node.child? segment = none) :
    root.resolve (front ++ segment :: rest) ≠ .ok n := by
  rw [resolve_eq_ok_iff] at hfront
  rw [Ne, resolve_eq_ok_iff, descend?_append, hfront, Option.bind_some, descend?, hnone,
    Option.bind_none]
  intro h
  cases h

theorem isShort_of_isWritable (hwritable : path.isWritable = true) {position : Int}
    (hposition : .index position ∈ path) : Numeral.isShort position = true := by
  have hall := List.all_eq_true.1 hwritable _ hposition
  exact hall

/-- Following a path stops at a refusal if the indices of the path can be written. -/
theorem resolve_eq_error_iff_refuses (hwritable : path.isWritable = true)
    {stop : Stop Unresolved} :
    root.resolve path = .error stop ↔
      ∃ e node segment rest, stop = .reported e ∧ path = e.resolved ++ segment :: rest ∧
        root.resolve e.resolved = .ok node ∧ Refuses node e.resolved segment e := by
  have hshort : ∀ front segment rest, path = front ++ segment :: rest →
      ∀ position, segment = .index position → Numeral.isShort position = true := by
    rintro front segment rest rfl position rfl
    exact isShort_of_isWritable hwritable (by simp)
  rw [resolve_eq_error_iff]
  constructor
  · rintro ⟨front, segment, rest, node, hpath, hnode, hnone, rfl⟩
    obtain ⟨e, hrefuses⟩ := exists_refuses front hnone
    have hreported := hrefuses.unresolved_eq (hshort _ _ _ hpath)
    obtain rfl := hrefuses.resolved_eq
    exact ⟨e, node, segment, rest, hreported, hpath, hnode, hrefuses⟩
  · rintro ⟨e, node, segment, rest, rfl, hpath, hnode, hrefuses⟩
    have hreported := hrefuses.unresolved_eq (hshort _ _ _ hpath)
    exact ⟨_, segment, rest, node, hpath, hnode, hrefuses.child?_eq_none, hreported.symm⟩

theorem resolve_eq_reported_iff (hwritable : path.isWritable = true) :
    root.resolve path = .error (.reported e) ↔
      ∃ node segment rest, path = e.resolved ++ segment :: rest ∧
        root.resolve e.resolved = .ok node ∧ Refuses node e.resolved segment e := by
  rw [resolve_eq_error_iff_refuses hwritable]
  constructor
  · rintro ⟨_, node, segment, rest, ⟨⟩, h⟩
    exact ⟨node, segment, rest, h⟩
  · rintro ⟨node, segment, rest, h⟩
    exact ⟨e, node, segment, rest, rfl, h⟩

theorem resolve_cases (root : Tree) (hwritable : path.isWritable = true) :
    (∃ n, root.resolve path = .ok n) ∨ ∃ e, root.resolve path = .error (.reported e) := by
  cases hresolve : root.resolve path with
  | ok n => exact .inl ⟨n, rfl⟩
  | error stop =>
    obtain ⟨e, -, -, -, rfl, -⟩ := (resolve_eq_error_iff_refuses hwritable).1 hresolve
    exact .inr ⟨e, rfl⟩

end Tree

/-- Following a path fails exactly at a segment that the node in front of it refuses, and the error
tells which one and why. The segments that it records lead to that node, and no longer part of the
path leads anywhere. So a key that is present is found, in the first entry under it, and so is an
item at a position within the bounds, whatever stands there. -/
theorem failure_is_first_refusal (root : Tree) (path : Path) (hwritable : path.isWritable = true) :
    (∀ e, root.resolve path = .error (.reported e) ↔
      ∃ node segment rest, path = e.resolved ++ segment :: rest ∧
        root.resolve e.resolved = .ok node ∧ node.Refuses e.resolved segment e) ∧
    (∀ e, root.resolve path = .error (.reported e) →
      ∀ front, front <+: path →
        ((∃ node, root.resolve front = .ok node) ↔ front <+: e.resolved)) ∧
    ((∃ node, root.resolve path = .ok node) ∨ ∃ e, root.resolve path = .error (.reported e)) ∧
    (∀ front entries name, root.resolve front = .ok (.mapping entries) →
      name ∈ entries.map Prod.fst →
      ∃ before child after, entries = before ++ (name, child) :: after ∧
        name ∉ before.map Prod.fst ∧ root.resolve (front ++ [.field name]) = .ok child) ∧
    ∀ front items (i : Nat) (hi : i < items.length),
      root.resolve front = .ok (.sequence items) →
      root.resolve (front ++ [.index i]) = .ok items[i] := by
  have hstep : ∀ {front : Path} {node child : Tree} {segment : Segment},
      root.resolve front = .ok node → node.child? segment = some child →
      root.resolve (front ++ [segment]) = .ok child := by
    intro front node child segment hfront hchild
    rw [Tree.resolve_eq_ok_iff] at hfront ⊢
    rw [Tree.descend?_append, hfront, Option.bind_some, Tree.descend?, hchild]
    rfl
  refine ⟨fun e => Tree.resolve_eq_reported_iff hwritable, ?_, Tree.resolve_cases root hwritable,
    ?_, ?_⟩
  · intro e he front hfront
    obtain ⟨node, segment, rest, hpath, hnode, hrefuses⟩ :=
      (Tree.resolve_eq_reported_iff hwritable).1 he
    constructor
    · rintro ⟨n, hn⟩
      have hresolved : e.resolved <+: path := ⟨segment :: rest, hpath.symm⟩
      rcases List.prefix_or_prefix_of_prefix hfront hresolved with hprefix | ⟨more, hmore⟩
      · exact hprefix
      · cases more with
        | nil => exact ⟨[], by rw [List.append_nil, ← hmore, List.append_nil]⟩
        | cons first more =>
          -- the path goes on with the segment that is refused
          rw [hpath, ← hmore, List.prefix_append_right_inj, List.cons_prefix_cons] at hfront
          rw [← hmore, hfront.1] at hn
          exact absurd hn (Tree.resolve_ne_ok_of_child? hnode hrefuses.child?_eq_none)
    · intro hprefix
      exact Tree.exists_resolve_of_prefix hprefix hnode
  · intro front entries name hfront hname
    obtain ⟨before, child, after, hentries, hbefore, hchild⟩ := Tree.exists_child?_of_mem_keys hname
    exact ⟨before, child, after, hentries, hbefore, hstep hfront hchild⟩
  · intro front items i hi hfront
    refine hstep hfront ?_
    rw [Tree.child?, Tree.itemAt_eq_some_iff]
    exact ⟨i, rfl, List.getElem?_eq_getElem hi⟩

/-- An empty mapping and an empty scalar, under a key that stands there twice. -/
def emptyItems : Tree :=
  .mapping [("a", .sequence [.mapping [], .scalar ""]), ("a", .scalar "b")]

/-- The first entry counts, its last position is found, and the next one is refused. -/
theorem position_behind_last_item_is_refused :
    Path.isWritable [.field "a", .index 2, .field "b"] = true ∧
    emptyItems.resolve [.field "a", .index 2, .field "b"] =
      .error (.reported (.index 2 (some 2) [.field "a"])) ∧
    emptyItems.resolve [.field "a", .index 1] = .ok (.scalar "") := by
  have hwritable : Path.isWritable [.field "a", .index 2, .field "b"] = true := by decide +kernel
  have hitems : emptyItems.resolve [.field "a"] = .ok (.sequence [.mapping [], .scalar ""]) := rfl
  obtain ⟨hreported, -, -, -, hitem⟩ := failure_is_first_refusal emptyItems _ hwritable
  refine ⟨hwritable, (hreported _).2 ⟨_, .index 2, _, rfl, hitems, .outside rfl (by decide)⟩, ?_⟩
  exact hitem [.field "a"] _ 1 (by decide) hitems

end Treeline
