import Treeline.Proofs.Results
import Treeline.Run

/-!
# The lines that a command asks for

A command asks for lines by its path, its keys to prune and its documents. All of them have to be
there, and the path has to lead somewhere in every document; only then are there lines, and they are
those of the flattened documents.
-/

namespace Treeline

namespace Traced

variable {ω ε α β : Type}

theorem result_bind (x : Traced ω ε α) (f : α → Traced ω ε β) :
    (x >>= f).result = x.result >>= fun a => (f a).result := by
  change (bind x f).result = _
  rw [bind]
  cases x.result <;> rfl

theorem result_bind_eq_ok_iff {x : Traced ω ε α} {f : α → Traced ω ε β} {b : β} :
    (x >>= f).result = .ok b ↔ ∃ a, x.result = .ok a ∧ (f a).result = .ok b := by
  rw [result_bind, bind_eq_ok_iff]

theorem result_bind_eq_error_iff {x : Traced ω ε α} {f : α → Traced ω ε β} {e : ε} :
    (x >>= f).result = .error e ↔
      x.result = .error e ∨ ∃ a, x.result = .ok a ∧ (f a).result = .error e := by
  rw [result_bind, bind_eq_error_iff]

theorem events_bind_of_ok {x : Traced ω ε α} {a : α} (h : x.result = .ok a)
    (f : α → Traced ω ε β) : (x >>= f).events = x.events ++ (f a).events := by
  change (bind x f).events = _
  rw [bind, h]

theorem events_bind_of_error {x : Traced ω ε α} {e : ε} (h : x.result = .error e)
    (f : α → Traced ω ε β) : (x >>= f).events = x.events := by
  change (bind x f).events = _
  rw [bind, h]

end Traced

theorem Output.toExcept_eq_ok_iff {ε : Type} {output : Output ε} {lines : List String} :
    output.toExcept = .ok lines ↔ output = ⟨lines, none⟩ := by
  obtain ⟨found, stopped⟩ := output
  cases stopped <;> simp [toExcept]

namespace Command

/-- Whether a command asks for some lines: those of its documents, flattened along its path. Without
a depth it has lines only if there is nothing to flatten. -/
def Asks (c : Command) (world : World) (lines : List String) : Prop :=
  ∃ path pruned trees, c.path = .ok path ∧ c.prunedKeys = .ok pruned ∧
    (c.trees world).result = .ok trees ∧ (c.depth = none → trees = []) ∧
    documents trees path (.of c.depth pruned c.pure) c.absolute = ⟨lines, none⟩

variable {c : Command} {world : World} {path : Path} {pruned : List String} {trees : List Tree}
  {lines : List String}

theorem result_flattened_eq_ok_iff :
    (c.flattened path pruned trees).result = .ok lines ↔
      (c.depth = none → trees = []) ∧
        documents trees path (.of c.depth pruned c.pure) c.absolute = ⟨lines, none⟩ := by
  unfold flattened
  cases hdepth : c.depth with
  | some depth =>
    dsimp only
    rw [mapError_eq_ok_iff, Output.toExcept_eq_ok_iff]
    exact ⟨fun h => ⟨nofun, h⟩, fun h => h.2⟩
  | none =>
    cases trees with
    | nil =>
      constructor
      · rintro ⟨⟩
        exact ⟨fun _ => rfl, rfl⟩
      · rintro ⟨-, ⟨⟩⟩
        rfl
    | cons root rest =>
      constructor
      · intro h
        obtain ⟨node, -, h⟩ := Traced.result_bind_eq_ok_iff.1 h
        obtain ⟨_, -, h⟩ := Traced.result_bind_eq_ok_iff.1 h
        cases h
      · rintro ⟨h, -⟩
        exact absurd (h rfl) (List.cons_ne_nil _ _)

/-- A command has the lines that it asks for as its result, and no others. -/
theorem result_lines_eq_ok_iff : (c.lines world).result = .ok lines ↔ c.Asks world lines := by
  rw [Command.lines, Traced.result_bind_eq_ok_iff]
  constructor
  · rintro ⟨path, hpath, h⟩
    obtain ⟨pruned, hpruned, h⟩ := Traced.result_bind_eq_ok_iff.1 h
    obtain ⟨trees, htrees, h⟩ := Traced.result_bind_eq_ok_iff.1 h
    obtain ⟨hdepth, hdocuments⟩ := result_flattened_eq_ok_iff.1 h
    exact ⟨path, pruned, trees, hpath, hpruned, htrees, hdepth, hdocuments⟩
  · rintro ⟨path, pruned, trees, hpath, hpruned, htrees, hdepth, hdocuments⟩
    refine ⟨path, hpath, Traced.result_bind_eq_ok_iff.2 ⟨pruned, hpruned, ?_⟩⟩
    refine Traced.result_bind_eq_ok_iff.2 ⟨trees, htrees, ?_⟩
    exact result_flattened_eq_ok_iff.2 ⟨hdepth, hdocuments⟩

end Command

end Treeline
