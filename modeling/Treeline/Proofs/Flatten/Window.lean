import Treeline.Documents
import Treeline.Proofs.Flatten.Walk
import Treeline.Proofs.Tree.Descent

/-!
# An entry is a window on a document

A document can be flattened from an entry inside it, or from its root. What is shown for the entry
is then a part of what is shown for the root: the emissions whose paths go through the entry stand
side by side, and with as many more levels as the entry lies below the root they are the same. The
window of a node lies inside that of the child on the way to it, so the argument follows the path
from the root one segment at a time. The children beside the path show nothing that goes through
the entry, because the first segment behind the path already differs.
-/

namespace Treeline

namespace FlattenOptions

/-- The same options with a limit, if there is one, that lies some levels deeper. -/
def deeper (options : FlattenOptions) (count : Nat) : FlattenOptions :=
  { options with maxDepth := options.maxDepth.map fun d => if d < 0 then d else d + count }

theorem levels_deeper (options : FlattenOptions) (count : Nat) :
    (options.deeper count).levels = options.levels.map (· + count) := by
  cases hdepth : options.maxDepth with
  | none => simp [levels, deeper, hdepth]
  | some d =>
    by_cases hd : d < 0
    · simp [levels, deeper, hdepth, hd]
    · have hnat : (d + (count : Int)).toNat = d.toNat + count := by omega
      have hpos : ¬ d + (count : Int) < 0 := by omega
      simp [levels, deeper, hdepth, hd, hpos, hnat]

end FlattenOptions

namespace Tree

variable {pruned : List String}

theorem prefix_of_mem_flattenAt {t : Tree} {path : Path} {levels : Option Nat} {e : Emission}
    (he : e ∈ t.flattenAt pruned path levels) : path <+: e.path := by
  rw [flattenAt_eq_map_under] at he
  obtain ⟨inner, -, rfl⟩ := List.mem_map.1 he
  exact List.prefix_append path inner.path

theorem filter_flattenAt_of_ne {t : Tree} {before rest : Path} {segment other : Segment}
    {levels : Option Nat} (hne : other ≠ segment) :
    (t.flattenAt pruned (before ++ [other]) levels).filter
      (fun e => decide (before ++ segment :: rest <+: e.path)) = [] := by
  rw [List.filter_eq_nil_iff]
  intro e he hmem
  have hother := prefix_of_mem_flattenAt he
  have hsegment : before ++ [segment] <+: e.path := by
    refine List.IsPrefix.trans ?_ (of_decide_eq_true hmem)
    exact ⟨rest, by simp⟩
  have hsame := List.prefix_of_prefix_length_le hother hsegment (by simp)
  have hlast : before ++ [other] = before ++ [segment] := hsame.eq_of_length (by simp)
  exact hne (by simpa using hlast)

/-- A child that is not pruned stands among the kept ones once: those beside it stand behind other
segments. -/
theorem keptChildren_eq_append {t c : Tree} {segment : Segment} (hlabels : t.labels.Nodup)
    (hc : t.child? segment = some c) (hsegment : segment.isPruned pruned = false) :
    ∃ before after, t.keptChildren pruned = before ++ (segment, c) :: after ∧
      ∀ child ∈ before ++ after, child.1 ≠ segment := by
  have hmem : (segment, c) ∈ t.keptChildren pruned := by
    refine List.mem_filter.2 ⟨(child?_eq_some_iff hlabels).1 hc, ?_⟩
    simp [hsegment]
  obtain ⟨before, after, hsplit⟩ := List.append_of_mem hmem
  refine ⟨before, after, hsplit, ?_⟩
  have hkept : ((t.keptChildren pruned).map Prod.fst).Nodup :=
    List.Nodup.sublist (List.filter_sublist.map Prod.fst) hlabels
  rw [hsplit, List.map_append, List.map_cons, List.nodup_middle, List.nodup_cons,
    ← List.map_append] at hkept
  intro child hchild heq
  have hfst : child.1 ∈ (before ++ after).map Prod.fst := List.mem_map_of_mem hchild
  rw [heq] at hfst
  exact hkept.1 hfst

/-- What a child shows is a block of what its parent shows with one level more. Nothing beside the
block lies below the child. -/
theorem exists_flattenAt_eq_append {t c : Tree} {segment : Segment} (hlabels : t.labels.Nodup)
    (hc : t.child? segment = some c) (hsegment : segment.isPruned pruned = false) (before : Path)
    (levels : Option Nat) :
    ∃ front back, t.flattenAt pruned before (levels.map (· + 1)) =
        front ++ c.flattenAt pruned (before ++ [segment]) levels ++ back ∧
      ∀ rest, (front.filter fun e => decide (before ++ segment :: rest <+: e.path)) = [] ∧
        (back.filter fun e => decide (before ++ segment :: rest <+: e.path)) = [] := by
  have hcontainer : t.kind ≠ .scalar := by
    have hchild := (child?_eq_some_iff hlabels).1 hc
    cases t with
    | scalar text => simp [children] at hchild
    | sequence items => simp [kind]
    | mapping entries => simp [kind]
  have hzero : ¬ levels.map (· + 1) = some 0 := by cases levels <;> simp
  have hless : (levels.map (· + 1)).map (· - 1) = levels := by cases levels <;> simp
  obtain ⟨front, back, hkept, hbeside⟩ := keptChildren_eq_append hlabels hc hsegment
  have hnothing : ∀ side : List (Segment × Tree), (∀ child ∈ side, child.1 ≠ segment) →
      ∀ rest, ((side.flatMap fun child => child.2.flattenAt pruned (before ++ [child.1]) levels).filter
        fun e => decide (before ++ segment :: rest <+: e.path)) = [] := by
    intro side hside rest
    rw [List.filter_flatMap, List.flatMap_eq_nil_iff]
    intro child hchild
    exact filter_flattenAt_of_ne (hside child hchild)
  refine ⟨_, _, ?_, fun rest => ⟨hnothing front ?_ rest, hnothing back ?_ rest⟩⟩
  · rw [flattenAt_container pruned before _ hcontainer, if_neg hzero, hless, hkept,
      List.flatMap_append, List.flatMap_cons, List.append_assoc]
  · exact fun child h => hbeside child (List.mem_append_left _ h)
  · exact fun child h => hbeside child (List.mem_append_right _ h)

/-- What a node shows is a block of what any node above it shows, and nothing outside that block
goes through the node. -/
theorem window_of_descend {t s : Tree} {p : Path} (hkeys : t.HasDistinctKeys)
    (hs : t.descend? p = some s) (hp : ∀ segment ∈ p, segment.isPruned pruned = false)
    (before : Path) (levels : Option Nat) :
    s.flattenAt pruned (before ++ p) levels <:+:
        t.flattenAt pruned before (levels.map (· + p.length)) ∧
      s.flattenAt pruned (before ++ p) levels =
        (t.flattenAt pruned before (levels.map (· + p.length))).filter
          fun e => decide (before ++ p <+: e.path) := by
  induction p generalizing t before with
  | nil =>
    have hst : t = s := Option.some.inj hs
    have hlevels : levels.map (· + ([] : Path).length) = levels := by cases levels <;> rfl
    rw [hst, hlevels, List.append_nil]
    refine ⟨List.infix_rfl, (List.filter_eq_self.2 ?_).symm⟩
    intro e he
    exact decide_eq_true (prefix_of_mem_flattenAt he)
  | cons segment rest ih =>
    obtain ⟨c, hc, hrest⟩ := descend?_cons_eq_some_iff.1 hs
    obtain ⟨hsegment, hp⟩ := List.forall_mem_cons.1 hp
    obtain ⟨hlabels, hvalues⟩ := (hasDistinctKeys_iff t).1 hkeys
    have hchild := (child?_eq_some_iff hlabels).1 hc
    have hwindow := ih (hvalues c (mem_values_of_mem_children hchild)) hrest hp (before ++ [segment])
    rw [List.append_assoc, List.singleton_append] at hwindow
    obtain ⟨hblock, hfilter⟩ := hwindow
    -- the root has one level more than the child on the way
    have hlevels : levels.map (· + (segment :: rest).length) =
        (levels.map (· + rest.length)).map (· + 1) := by cases levels <;> rfl
    obtain ⟨front, back, hsplit, hbeside⟩ := exists_flattenAt_eq_append hlabels hc
      hsegment before (levels.map (· + rest.length))
    rw [hlevels, hsplit]
    constructor
    · exact hblock.trans ⟨front, back, rfl⟩
    · rw [List.filter_append, List.filter_append, (hbeside rest).1, (hbeside rest).2,
        List.nil_append, List.append_nil, ← hfilter]

end Tree

/-- The output for an entry, with its path in front, is a contiguous part of the output for the
whole document with as many more levels as the path has segments. It is the part of all emissions
whose paths go through the entry, in the same order. -/
theorem entry_is_window (t s : Tree) (p : Path) (options : FlattenOptions)
    (hkeys : t.HasDistinctKeys) (hs : t.resolve p = .ok s)
    (hpruned : ∀ name, .field name ∈ p → name ∉ options.pruned) :
    lines s p options <:+: lines t [] (options.deeper p.length) ∧
    emissions s p options <:+: emissions t [] (options.deeper p.length) ∧
    emissions s p options = (emissions t [] (options.deeper p.length)).filter
      (fun e => decide (p <+: e.path)) ∧
    documents [t] p options true = ⟨lines s p options, none⟩ := by
  have hnames : ∀ segment ∈ p, segment.isPruned options.pruned = false := by
    intro segment hsegment
    cases segment with
    | field name => simpa [Segment.isPruned] using hpruned name hsegment
    | index i => rfl
  have hwindow := Tree.window_of_descend hkeys (Tree.resolve_eq_ok_iff.1 hs) hnames [] options.levels
  have hroot : emissions t [] (options.deeper p.length) =
      t.flattenAt options.pruned [] (options.levels.map (· + p.length)) := by
    rw [emissions_eq_flatten, Tree.flatten, FlattenOptions.levels_deeper]
    rfl
  have hentry : emissions s p options = s.flattenAt options.pruned ([] ++ p) options.levels :=
    emissions_eq_flatten s p options
  rw [← hroot, ← hentry, List.nil_append] at hwindow
  obtain ⟨hblock, hfilter⟩ := hwindow
  refine ⟨hblock.map Emission.line, hblock, hfilter, ?_⟩
  have hone : documents [t] p options true =
      .after (lines s p options) (documentsFrom (·.resolve p) false p options 1 []) := by
    simp [documents, documentsFrom, hs]
  rw [hone]
  simp [documentsFrom, Output.after, Output.empty]

/-- A mapping inside a sequence, shown down to its own entries, with a key left out beside them. -/
theorem entry_below_index_is_window :
    lines (.mapping [("b", .sequence []), ("c", .scalar "1")]) [.field "a", .index 1]
        ⟨some 1, ["uid"]⟩ <:+:
      lines (.mapping [("uid", .scalar "0"),
          ("a", .sequence [.scalar "x", .mapping [("b", .sequence []), ("c", .scalar "1")]])]) []
        ⟨some 3, ["uid"]⟩ := by
  have hkeys : Tree.HasDistinctKeys (.mapping [("uid", .scalar "0"),
      ("a", .sequence [.scalar "x", .mapping [("b", .sequence []), ("c", .scalar "1")]])]) := by
    refine .mapping (by decide) ?_
    simp only [List.forall_mem_cons]
    refine ⟨.scalar "0", .sequence ?_, by simp⟩
    simp only [List.forall_mem_cons]
    refine ⟨.scalar "x", .mapping (by decide) ?_, by simp⟩
    simp only [List.forall_mem_cons]
    exact ⟨.sequence (by simp), .scalar "1", by simp⟩
  have hpruned : ∀ name, Segment.field name ∈ [Segment.field "a", Segment.index 1] →
      name ∉ ["uid"] := by
    intro name hname
    have ha : name = "a" := by simpa using hname
    rw [ha]
    decide
  exact (entry_is_window _ _ [.field "a", .index 1] ⟨some 1, ["uid"]⟩ hkeys rfl hpruned).1

end Treeline
