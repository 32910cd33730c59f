import Treeline.Proofs.Resolve.Refusal
import Treeline.Proofs.Results

/-!
# Following a path in parts

A path can be followed at once, or in parts of which each begins where the one before it has led. The
node at the end is the same. An error in a later part is the error of the whole path, but for the
segments that it records: these begin where the part begins, so the segments of the earlier parts are
missing at their front.
-/

namespace Treeline

/-- An error below a node, as it is told from where a path leads to that node. -/
def Unresolved.below (before : Path) : Unresolved → Unresolved
  | .key name resolved => .key name (before ++ resolved)
  | .index position length resolved => .index position length (before ++ resolved)

namespace Tree

/-- Follows several paths, each from where the one before it has led. An error is told from where the
first path begins, and `before` is what was followed up to here. -/
def resolveSteps (before : Path) : Tree → List Path → Except (Stop Unresolved) Tree
  | node, [] => .ok node
  | node, step :: rest =>
    match node.resolve step with
    | .ok next => resolveSteps (before ++ step) next rest
    | .error stop => .error (stop.map (.below before))

theorem unresolved_append (node : Tree) (before resolved : Path) (segment : Segment) :
    node.unresolved (before ++ resolved) segment =
      (node.unresolved resolved segment).map (.below before) := by
  cases segment with
  | field name => rfl
  | index position =>
    unfold unresolved
    dsimp only
    split <;> rfl

theorem resolveFrom_append_left (before resolved : Path) (t : Tree) (p : Path) :
    resolveFrom (before ++ resolved) t p =
      (resolveFrom resolved t p).mapError (Stop.map (.below before)) := by
  induction p generalizing resolved t with
  | nil => rfl
  | cons segment rest ih =>
    rw [resolveFrom, resolveFrom]
    cases t.child? segment with
    | none => exact congrArg Except.error (unresolved_append t before resolved segment)
    | some c =>
      dsimp only
      rw [List.append_assoc, ih]

theorem resolveFrom_eq_mapError (before : Path) (t : Tree) (p : Path) :
    resolveFrom before t p = (t.resolve p).mapError (Stop.map (.below before)) := by
  have happend := resolveFrom_append_left before [] t p
  rwa [List.append_nil] at happend

theorem resolveFrom_append (before : Path) (t : Tree) (p q : Path) :
    resolveFrom before t (p ++ q) =
      resolveFrom before t p >>= fun n => resolveFrom (before ++ p) n q := by
  induction p generalizing before t with
  | nil =>
    rw [List.append_nil]
    rfl
  | cons segment rest ih =>
    rw [List.cons_append, resolveFrom, resolveFrom]
    cases t.child? segment with
    | none => rfl
    | some c =>
      dsimp only
      rw [ih, List.append_assoc, List.singleton_append]

theorem resolve_append (t : Tree) (p q : Path) :
    t.resolve (p ++ q) =
      t.resolve p >>= fun n => (n.resolve q).mapError (Stop.map (.below p)) := by
  rw [resolve, resolveFrom_append]
  simp only [List.nil_append, resolveFrom_eq_mapError p]
  rfl

theorem resolveSteps_eq (before : Path) (t : Tree) (steps : List Path) :
    resolveSteps before t steps = resolveFrom before t steps.flatten := by
  induction steps generalizing before t with
  | nil => rfl
  | cons step rest ih =>
    rw [resolveSteps, List.flatten_cons, resolveFrom_append, resolveFrom_eq_mapError before t step]
    cases t.resolve step with
    | ok next => exact ih (before ++ step) next
    | error stop => rfl

end Tree

/-- A path of two parts leads where the second part leads from the end of the first. If the first
part fails, the whole path fails in the same way; if the second fails, so does the whole path, with
the segments of the first part in front of those that the error records. Any number of parts leads
to the same node or the same error as the whole path. -/
theorem parts_of_path_resolve_together (root : Tree) (p q : Path) :
    (∀ stop, root.resolve p = .error stop → root.resolve (p ++ q) = .error stop) ∧
    (∀ m n, root.resolve p = .ok m → m.resolve q = .ok n → root.resolve (p ++ q) = .ok n) ∧
    (∀ m name resolved, root.resolve p = .ok m →
      m.resolve q = .error (.reported (.key name resolved)) →
      root.resolve (p ++ q) = .error (.reported (.key name (p ++ resolved)))) ∧
    (∀ m position length resolved, root.resolve p = .ok m →
      m.resolve q = .error (.reported (.index position length resolved)) →
      root.resolve (p ++ q) = .error (.reported (.index position length (p ++ resolved)))) ∧
    ((p ++ q).isWritable = true →
      (∃ n, root.resolve (p ++ q) = .ok n) ∨ ∃ e, root.resolve (p ++ q) = .error (.reported e)) ∧
    ∀ steps, root.resolveSteps [] steps = root.resolve steps.flatten := by
  have hok : ∀ m, root.resolve p = .ok m →
      root.resolve (p ++ q) = (m.resolve q).mapError (Stop.map (.below p)) := by
    intro m hm
    rw [Tree.resolve_append, hm]
    rfl
  refine ⟨?_, ?_, ?_, ?_, Tree.resolve_cases root, Tree.resolveSteps_eq [] root⟩
  · intro stop hstop
    rw [Tree.resolve_append, hstop]
    rfl
  · intro m n hm hn
    rw [hok m hm, hn]
    rfl
  · intro m name resolved hm he
    rw [hok m hm, he]
    rfl
  · intro m position length resolved hm he
    rw [hok m hm, he]
    rfl

/-- A second part that leads on, one that is refused at its second segment, one that is refused at
its first, and a first part that is refused. -/
theorem parts_below_items_resolve_together :
    emptyItems.resolve ([.field "a"] ++ [.index 1]) = .ok (.scalar "") ∧
    emptyItems.resolve ([.field "a"] ++ [.index 1, .field "b"]) =
      .error (.reported (.key "b" [.field "a", .index 1])) ∧
    emptyItems.resolve ([.field "a"] ++ [.index 2]) =
      .error (.reported (.index 2 (some 2) [.field "a"])) ∧
    emptyItems.resolve ([.field "b"] ++ [.index 2]) = .error (.reported (.key "b" [])) ∧
    ((∃ n, emptyItems.resolve ([.field "a"] ++ [.index 2]) = .ok n) ∨
      ∃ e, emptyItems.resolve ([.field "a"] ++ [.index 2]) = .error (.reported e)) := by
  have hitems : emptyItems.resolve [.field "a"] = .ok (.sequence [.mapping [], .scalar ""]) := rfl
  have hoverrun : (Tree.sequence [.mapping [], .scalar ""]).resolve [.index 2] =
      .error (.reported (.index 2 (some 2) [])) :=
    (Tree.resolve_eq_reported_iff (by decide +kernel)).2
      ⟨_, .index 2, [], rfl, rfl, .outside rfl (by decide)⟩
  refine ⟨?_, ?_, ?_, ?_, ?_⟩
  · exact (parts_of_path_resolve_together emptyItems [.field "a"] [.index 1]).2.1 _ _ hitems rfl
  · exact (parts_of_path_resolve_together emptyItems [.field "a"] [.index 1, .field "b"]).2.2.1
      _ "b" [.index 1] hitems rfl
  · exact (parts_of_path_resolve_together emptyItems [.field "a"] [.index 2]).2.2.2.1
      _ 2 (some 2) [] hitems hoverrun
  · exact (parts_of_path_resolve_together emptyItems [.field "b"] [.index 2]).1 _ rfl
  · exact (parts_of_path_resolve_together emptyItems [.field "a"] [.index 2]).2.2.2.2.1
      (by decide +kernel)

end Treeline
