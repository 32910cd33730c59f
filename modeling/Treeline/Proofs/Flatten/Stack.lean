import Mathlib.Data.List.Basic
import Mathlib.Logic.Function.Iterate
import Treeline.Path.Trail
import Treeline.Proofs.Flatten.Walk

/-!
# Flattening with a stack

A document is flattened in rounds. Each round takes the last visit off a stack and either shows it or
puts the visits to its children on the stack, the last child first, so that the first one is taken
next. The stack is what `walk` has in its list, from the other end: together with the output so far,
what the walk would still show is the same after each round. A round replaces a node by its children,
so there are at most as many rounds as nodes, and at the end the output is that of the recursion.
-/

namespace Treeline

namespace Visit

/-- What a visit shows itself: a scalar, or a container below the limit. -/
def shown (visit : Visit) : List Emission :=
  match visit.node with
  | .scalar text => [⟨visit.path, text⟩]
  | .sequence _ => if visit.levels = some 0 then [⟨visit.path, arrayPlaceholder⟩] else []
  | .mapping _ => if visit.levels = some 0 then [⟨visit.path, objectPlaceholder⟩] else []

/-- The visits to the children that a visit leads to, in order. -/
def opened (options : FlattenOptions) (visit : Visit) : List Visit :=
  if visit.levels = some 0 then []
  else
    match visit.node with
    | .scalar _ => []
    | .sequence items => ofItems visit.path (visit.levels.map (· - 1)) 0 items
    | .mapping entries =>
      ofEntries visit.path (visit.levels.map (· - 1)) (options.kept entries)

theorem work_reverse (visits : List Visit) : work visits.reverse = work visits := by
  induction visits with
  | nil => rfl
  | cons visit rest ih =>
    rw [List.reverse_cons, work_append, ih, work, work, work, Nat.add_zero, Nat.add_comm]

theorem work_opened_lt (options : FlattenOptions) (visit : Visit) :
    work (visit.opened options) < visit.node.size := by
  obtain ⟨node, path, levels⟩ := visit
  rw [opened]
  split
  · exact node.size_pos
  · cases node with
    | scalar text => exact Nat.one_pos
    | sequence items =>
      dsimp only
      rw [work_ofItems]
      exact Nat.lt_succ_self _
    | mapping entries => exact Nat.lt_succ_of_le (work_ofEntries_kept_le options path _ entries)

end Visit

/-- The walk shows the first visit and goes on with what it leads to. -/
theorem walk_cons (options : FlattenOptions) (visit : Visit) (rest : List Visit) :
    walk options (visit :: rest) =
      visit.shown ++ walk options (visit.opened options ++ rest) := by
  obtain ⟨node, path, levels⟩ := visit
  rw [Visit.shown, Visit.opened]
  by_cases hlevels : levels = some 0
  · cases node <;> simp [walk, hlevels]
  · cases node <;> simp [walk, hlevels]

/-- The output so far, and the visits that are still to be made. The last one is made next. -/
structure Loop where
  output : List Emission
  stack : List Visit

namespace Loop

/-- One round. Nothing is left to do when the stack is empty. -/
def next (options : FlattenOptions) (loop : Loop) : Loop :=
  match loop.stack.getLast? with
  | none => loop
  | some visit =>
    ⟨loop.output ++ visit.shown, loop.stack.dropLast ++ (visit.opened options).reverse⟩

variable (options : FlattenOptions) (output : List Emission) (stack : List Visit) (visit : Visit)

theorem next_concat :
    next options ⟨output, stack ++ [visit]⟩ =
      ⟨output ++ visit.shown, stack ++ (visit.opened options).reverse⟩ := by
  rw [next, List.getLast?_concat]
  dsimp only
  rw [List.dropLast_concat]

/-- Everything that will have been shown at the end. -/
def total (loop : Loop) : List Emission := loop.output ++ walk options loop.stack.reverse

/-- A round changes nothing about what is shown in the end. -/
theorem total_next (loop : Loop) : (loop.next options).total options = loop.total options := by
  obtain ⟨output, stack⟩ := loop
  rcases List.eq_nil_or_concat' stack with rfl | ⟨stack, visit, rfl⟩
  · rfl
  · rw [next_concat, total, total, List.reverse_append, List.reverse_reverse, List.reverse_concat,
      walk_cons, List.append_assoc]

theorem work_next_lt :
    Visit.work (next options ⟨output, stack ++ [visit]⟩).stack < Visit.work (stack ++ [visit]) := by
  rw [next_concat, Visit.work_append, Visit.work_append, Visit.work_reverse]
  exact Nat.add_lt_add_left (Visit.work_opened_lt options visit) _

/-- The loop ends, and it has shown what was to be shown when it began. -/
theorem exists_rounds (loop : Loop) :
    ∃ rounds ≤ Visit.work loop.stack,
      (next options)^[rounds] loop = ⟨loop.total options, []⟩ := by
  induction hwork : Visit.work loop.stack using Nat.strongRecOn generalizing loop with
  | ind work ih =>
    obtain ⟨output, stack⟩ := loop
    rcases List.eq_nil_or_concat' stack with rfl | ⟨stack, visit, rfl⟩
    · exact ⟨0, Nat.zero_le _, by simp [total, walk]⟩
    · have hlt := work_next_lt options output stack visit
      rw [hwork] at hlt
      obtain ⟨rounds, hle, hend⟩ := ih _ hlt (next options ⟨output, stack ++ [visit]⟩) rfl
      refine ⟨rounds + 1, Nat.lt_of_le_of_lt hle hlt, ?_⟩
      rw [Function.iterate_succ_apply, hend, total_next]

end Loop

variable (node : Tree) (path : Path) (options : FlattenOptions)

theorem FlattenOptions.levels_eq_none_iff :
    options.levels = none ↔ ∀ depth, options.maxDepth = some depth → depth < 0 := by
  cases hdepth : options.maxDepth with
  | none => simp [levels, hdepth]
  | some depth => simp [levels, hdepth]

theorem FlattenOptions.levels_eq_some_iff (n : Nat) :
    options.levels = some n ↔ options.maxDepth = some (n : Int) := by
  cases hdepth : options.maxDepth with
  | none => simp [levels, hdepth]
  | some depth =>
    by_cases hnegative : depth < 0
    · simp [levels, hdepth, hnegative]
      omega
    · simp [levels, hdepth, hnegative]
      omega

theorem Trail.lines_ofPath {ε : Type} (hwritable : path.isWritable = true) :
    Trail.lines node (.ofPath path) options =
      (⟨Treeline.lines node path options, none⟩ : Output (Stop ε)) := by
  rw [Trail.lines, Trail.render, Trail.ofPath, Path.render, if_pos hwritable]
  rfl

theorem Trail.lines_congr {ε : Type} {s t : Tree} {trail : Trail} {options others : FlattenOptions}
    (h : emissions s trail.path options = emissions t trail.path others) :
    Trail.lines s trail options = (Trail.lines t trail others : Output (Stop ε)) := by
  rw [Trail.lines, Trail.lines, Treeline.lines, Treeline.lines, h]

/-- The loop ends after at most one round for each node, and the lines that it has shown are given
by recursion on the tree. A scalar is one line, a container with no levels left is its placeholder,
and any other container is the lines of its children in order, without those under pruned keys and
with one level less. The levels are those of the options; without a limit, or with a negative one,
they never run out. -/
theorem loop_shows_recursion :
    let shown := fun (t : Tree) (p : Path) (levels : Option Nat) =>
      (t.flattenAt options.pruned p levels).map Emission.line
    (∃ rounds ≤ node.size,
      (Loop.next options)^[rounds] ⟨[], [⟨node, path, options.levels⟩]⟩ =
        ⟨emissions node path options, []⟩) ∧
    lines node path options = shown node path options.levels ∧
    (path.isWritable = true →
      Trail.lines node (.ofPath path) options =
        (⟨shown node path options.levels, none⟩ : Output (Stop Unresolved))) ∧
    (∀ text p levels, shown (.scalar text) p levels = [p.line text]) ∧
    (∀ items p, shown (.sequence items) p (some 0) = [p.line "<array>"]) ∧
    (∀ entries p, shown (.mapping entries) p (some 0) = [p.line "<object>"]) ∧
    (∀ items p levels, levels ≠ some 0 →
      shown (.sequence items) p levels =
        items.zipIdx.flatMap fun item =>
          shown item.1 (p ++ [.index item.2]) (levels.map (· - 1))) ∧
    (∀ entries p levels, levels ≠ some 0 →
      shown (.mapping entries) p levels =
        (entries.filter fun entry => entry.1 ∉ options.pruned).flatMap fun entry =>
          shown entry.2 (p ++ [.field entry.1]) (levels.map (· - 1))) ∧
    (options.levels = none ↔ ∀ depth, options.maxDepth = some depth → depth < 0) ∧
    ∀ n : Nat, options.levels = some n ↔ options.maxDepth = some (n : Int) := by
  intro shown
  have hlines : lines node path options = shown node path options.levels := by
    rw [lines, emissions_eq_flatten]
    rfl
  refine ⟨?_, hlines, ?_, fun text p levels => rfl, fun items p => ?_, fun entries p => ?_, ?_, ?_,
    options.levels_eq_none_iff, options.levels_eq_some_iff⟩
  · obtain ⟨rounds, hle, hend⟩ :=
      Loop.exists_rounds options ⟨[], [⟨node, path, options.levels⟩]⟩
    exact ⟨rounds, hle, hend⟩
  · intro hwritable
    rw [Trail.lines_ofPath node path options hwritable, hlines]
  · simp only [shown, Tree.flattenAt, if_pos]
    rfl
  · simp only [shown, Tree.flattenAt, if_pos]
    rfl
  · intro items p levels hlevels
    simp only [shown]
    rw [Tree.flattenAt, if_neg hlevels, Tree.flattenItems_eq_flatMap, List.map_flatMap]
  · intro entries p levels hlevels
    simp only [shown]
    rw [Tree.flattenAt, if_neg hlevels, Tree.flattenEntries_eq_flatMap, List.map_flatMap]
    simp only [List.contains_eq_mem, decide_not]

/-- A sequence with a mapping inside, beside an entry that can be pruned. -/
def nestedItems : Tree :=
  .mapping [("a", .sequence [.scalar "1", .mapping [("b", .scalar "2")]]), ("uid", .scalar "3")]

/-- Two levels without the pruned entry, and all of them with it. -/
theorem nested_items_are_shown :
    Path.isWritable [.index 7] = true ∧
    Trail.lines nestedItems (.ofPath [.index 7]) ⟨some 2, ["uid"]⟩ =
      (⟨["[7].a[0]: 1", "[7].a[1]: <object>"], none⟩ : Output (Stop Unresolved)) ∧
    Trail.lines nestedItems (.ofPath [.index 7]) ⟨some (-1), []⟩ =
      (⟨["[7].a[0]: 1", "[7].a[1].b: 2", "[7].uid: 3"], none⟩ : Output (Stop Unresolved)) := by
  have hwritable : Path.isWritable [.index 7] = true := by decide +kernel
  refine ⟨hwritable, ?_, ?_⟩
  · refine ((loop_shows_recursion nestedItems [.index 7] ⟨some 2, ["uid"]⟩).2.2.1 hwritable).trans ?_
    exact congrArg (Output.mk · none) (by decide +kernel)
  · refine ((loop_shows_recursion nestedItems [.index 7] ⟨some (-1), []⟩).2.2.1 hwritable).trans ?_
    exact congrArg (Output.mk · none) (by decide +kernel)

end Treeline
