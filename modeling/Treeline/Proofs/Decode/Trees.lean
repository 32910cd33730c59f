import Treeline.Decode
import Treeline.Proofs.Unfold.Acceptance

/-!
# The trees of a source

Each tree that decoding returns is the unfolding of one of the graphs of the source. So it keeps the
limits of unfolding, whatever the source was: its keys are distinct and it is not too large.
-/

namespace Treeline

open Yaml (Graph)

theorem accepted_of_unfold {limit : Int} {g : Graph} {t : Tree} (h : unfold limit g = .ok t) :
    Unfold.Accepted g limit (maxDepth + 1) g.root 0 t t.size := by
  rw [unfold] at h
  obtain ⟨⟨u, n⟩, hrun, rfl⟩ := map_eq_ok_iff.1 h
  have haccepted := Unfold.accepted_of_run_node hrun
  have hcounted : n = u.size := by
    have := haccepted.counted
    omega
  rw [hcounted] at haccepted
  exact haccepted

/-- A graph with an unfolding inside the limits becomes that unfolding. -/
theorem unfold_of_unfolds {limit : Int} {g : Graph} {t : Tree} (hunfolds : g.Unfolds g.root t)
    (hheight : t.height ≤ maxDepth) (hsize : (t.size : Int) ≤ limit) (hkeys : t.HasDistinctKeys) :
    unfold limit g = .ok t := by
  have hrun : (Unfold.node g limit (maxDepth + 1) [] g.root).run 0 = .ok (t, 0 + t.size) := by
    refine Unfold.run_node_of_unfolds hunfolds (Nat.lt_succ_of_le hheight) hkeys ?_ ?_
    · rwa [Nat.zero_add]
    · simp [Unfold.Larger]
  rw [unfold, hrun]
  rfl

theorem exists_unfold_of_mem {limit : Int} {source : Yaml.Source} {trees : List Tree} {t : Tree}
    (h : decodeSource limit source = .ok trees) (ht : t ∈ trees) :
    ∃ g, unfold limit g = .ok t := by
  rw [decodeSource] at h
  obtain ⟨graphs, -, htrees⟩ := bind_eq_ok_iff.1 h
  have hforall := mapM_eq_ok_iff.1 (mapError_eq_ok_iff.1 htrees)
  obtain ⟨g, -, hg⟩ := exists_of_forall₂ hforall.flip ht
  exact ⟨g, hg⟩

theorem hasDistinctKeys_of_decodeSource {limit : Int} {source : Yaml.Source} {trees : List Tree}
    {t : Tree} (h : decodeSource limit source = .ok trees) (ht : t ∈ trees) :
    t.HasDistinctKeys := by
  obtain ⟨g, hg⟩ := exists_unfold_of_mem h ht
  exact (accepted_of_unfold hg).distinct

theorem hasDistinctKeys_of_decodeFile {limit : Int} {name : String} {bytes : List UInt8}
    {trees : List Tree} {t : Tree} (h : decodeFile limit name bytes = .ok trees) (ht : t ∈ trees) :
    t.HasDistinctKeys := by
  rw [decodeFile] at h
  split at h
  · cases h
  · exact hasDistinctKeys_of_decodeSource h ht

theorem hasDistinctKeys_of_decodeNamed {folder : Folder} {input : List UInt8} {name : String}
    {trees : List Tree} {t : Tree} (h : decodeNamed folder input name = .ok trees)
    (ht : t ∈ trees) : t.HasDistinctKeys := by
  rw [decodeNamed] at h
  split at h
  · exact hasDistinctKeys_of_decodeFile h ht
  · split at h
    · cases h
    · exact hasDistinctKeys_of_decodeFile (mapError_eq_ok_iff.1 h) ht

theorem hasDistinctKeys_of_decodeData {data : Data} {t : Tree} (h : decodeData data = .ok t) :
    t.HasDistinctKeys := by
  rw [decodeData] at h
  obtain ⟨outline, -, h⟩ := bind_eq_ok_iff.1 h
  obtain ⟨trees, htrees, h⟩ := bind_eq_ok_iff.1 h
  cases h
  cases trees with
  | nil => exact .mapping List.nodup_nil (by simp)
  | cons first rest => exact hasDistinctKeys_of_decodeSource htrees List.mem_cons_self

theorem size_le_of_decodeSource {limit : Int} {source : Yaml.Source} {trees : List Tree}
    {t : Tree} (h : decodeSource limit source = .ok trees) (ht : t ∈ trees) :
    (t.size : Int) ≤ limit := by
  obtain ⟨g, hg⟩ := exists_unfold_of_mem h ht
  exact (accepted_of_unfold hg).within

end Treeline
