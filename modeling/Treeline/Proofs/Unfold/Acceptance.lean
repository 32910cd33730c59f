import Treeline.Proofs.Unfold.Unfolding
import Treeline.Unfold

/-!
# Which graphs become trees

Unfolding counts nodes, watches the depth and remembers the nodes that it is below. What one call
can do is said once: it checks the node, counts it, and goes on with the nodes right below. From
there both directions follow by induction on the levels that are left. That the remembered nodes
never stand in the way of a finite unfolding is an argument about size: the unfolding of a node is
larger than that of any node below it, and a node has only one.
-/

namespace Treeline

open Yaml (Content Graph Node)

namespace Unfold

variable {α β : Type} {g : Graph} {limit : Int}

/-! ### Running steps -/

theorem run_bind_eq_ok_iff {x : Step α} {f : α → Step β} {n : Nat} {r : β × Nat} :
    (x >>= f).run n = .ok r ↔ ∃ a m, x.run n = .ok (a, m) ∧ (f a).run m = .ok r := by
  rw [StateT.run_bind, bind_eq_ok_iff, Prod.exists]

theorem run_map_eq_ok_iff {x : Step α} {f : α → β} {n n' : Nat} {b : β} :
    (do return f (← x) : Step β).run n = .ok (b, n') ↔ ∃ a, x.run n = .ok (a, n') ∧ b = f a := by
  rw [run_bind_eq_ok_iff]
  constructor
  · rintro ⟨a, m, hx, hpure⟩
    cases hpure
    exact ⟨a, hx, rfl⟩
  · rintro ⟨a, hx, rfl⟩
    exact ⟨a, n', hx, rfl⟩

theorem run_mapM_nil_eq_ok_iff {f : α → Step β} {n n' : Nat} {bs : List β} :
    (([] : List α).mapM f).run n = .ok (bs, n') ↔ bs = [] ∧ n' = n := by
  have hrun : (([] : List α).mapM f).run n = .ok ([], n) := rfl
  rw [hrun, Except.ok.injEq, Prod.mk.injEq, eq_comm, eq_comm (a := n)]

theorem run_mapM_cons_eq_ok_iff {f : α → Step β} {a : α} {as : List α} {n n' : Nat}
    {bs : List β} :
    ((a :: as).mapM f).run n = .ok (bs, n') ↔
      ∃ b rest m, bs = b :: rest ∧ (f a).run n = .ok (b, m) ∧
        (as.mapM f).run m = .ok (rest, n') := by
  rw [List.mapM_cons, run_bind_eq_ok_iff]
  constructor
  · rintro ⟨b, m, hb, hmap⟩
    obtain ⟨rest, hrest, rfl⟩ := run_map_eq_ok_iff.1 hmap
    exact ⟨b, rest, m, rfl, hb, hrest⟩
  · rintro ⟨b, rest, m, rfl, hb, hrest⟩
    exact ⟨b, m, hb, run_map_eq_ok_iff.2 ⟨rest, hrest, rfl⟩⟩

/-! ### What one call does -/

theorem run_count (limit : Int) (n : Nat) :
    (count limit).run n =
      if limit < (n : Int) + 1 then .error (.tooLarge limit) else .ok ((), n + 1) := by
  rw [count, StateT.run_bind]
  change StateT.run (ite _ _ _) n = _
  split <;> rfl

theorem run_newKey_eq_ok_iff {key : Node} {seen : List String} {n m : Nat} {text : String} :
    (newKey key seen).run n = .ok (text, m) ↔
      key.content = .scalar text ∧ text ∉ seen ∧ m = n := by
  rw [newKey]
  cases key.content with
  | sequence ids => exact ⟨nofun, nofun⟩
  | mapping pairs => exact ⟨nofun, nofun⟩
  | scalar shown =>
    by_cases hseen : shown ∈ seen
    · simp only [List.contains_iff_mem, hseen, if_true]
      refine ⟨nofun, ?_⟩
      rintro ⟨hshown, hnew, -⟩
      cases hshown
      exact absurd hseen hnew
    · simp only [List.contains_iff_mem, hseen, if_false]
      constructor
      · intro h
        cases h
        exact ⟨rfl, hseen, rfl⟩
      · rintro ⟨hshown, -, rfl⟩
        cases hshown
        rfl

theorem run_entries_eq_ok_iff {unfold : Nat → Step Tree} {seen : List String}
    {pairs : List (Nat × Nat)} {n n' : Nat} {es : List (String × Tree)} :
    (entries unfold g seen pairs).run n = .ok (es, n') ↔
      pairs.map (fun pair => (g.node pair.1).content) = es.map (fun e => .scalar e.1) ∧
      (es.map Prod.fst).Nodup ∧ (∀ key ∈ es.map Prod.fst, key ∉ seen) ∧
      ((pairs.map Prod.snd).mapM unfold).run n = .ok (es.map Prod.snd, n') := by
  induction pairs generalizing seen n es with
  | nil =>
    have hrun : (entries unfold g seen []).run n = .ok ([], n) := rfl
    rw [hrun, List.map_nil, List.map_nil, run_mapM_nil_eq_ok_iff]
    cases es with
    | nil => simp [eq_comm]
    | cons e es => exact ⟨nofun, nofun⟩
  | cons pair rest ih =>
    obtain ⟨key, value⟩ := pair
    rw [entries, run_bind_eq_ok_iff, List.map_cons, List.map_cons]
    constructor
    · rintro ⟨text, m, hkey, hmore⟩
      obtain ⟨hcontent, hnew, rfl⟩ := run_newKey_eq_ok_iff.1 hkey
      obtain ⟨tree, m, htree, hmore⟩ := run_bind_eq_ok_iff.1 hmore
      obtain ⟨more, hentries, rfl⟩ := run_map_eq_ok_iff.1 hmore
      obtain ⟨hkeys, hdistinct, hfresh, hvalues⟩ := ih.1 hentries
      have htext : text ∉ more.map Prod.fst := fun hmem =>
        hfresh text hmem List.mem_cons_self
      refine ⟨?_, List.nodup_cons.2 ⟨htext, hdistinct⟩, ?_, ?_⟩
      · rw [hcontent, hkeys, List.map_cons]
      · rw [List.map_cons, List.forall_mem_cons]
        exact ⟨hnew, fun other hother hseen => hfresh other hother (List.mem_cons_of_mem _ hseen)⟩
      · exact run_mapM_cons_eq_ok_iff.2 ⟨tree, _, m, rfl, htree, hvalues⟩
    · rintro ⟨hkeys, hdistinct, hfresh, hvalues⟩
      obtain ⟨tree, values, m, hes, htree, hvalues⟩ := run_mapM_cons_eq_ok_iff.1 hvalues
      obtain ⟨⟨text, _⟩, more, rfl, rfl, rfl⟩ := List.map_eq_cons_iff.1 hes
      rw [List.map_cons, List.cons.injEq] at hkeys
      rw [List.map_cons, List.nodup_cons] at hdistinct
      rw [List.map_cons, List.forall_mem_cons] at hfresh
      have hmore : (entries unfold g (text :: seen) rest).run m = .ok (more, n') := by
        refine ih.2 ⟨hkeys.2, hdistinct.2, fun other hother => ?_, hvalues⟩
        rw [List.mem_cons, not_or]
        exact ⟨fun heq => hdistinct.1 (heq ▸ hother), hfresh.2 other hother⟩
      refine ⟨text, n, run_newKey_eq_ok_iff.2 ⟨hkeys.1, hfresh.1, rfl⟩, ?_⟩
      exact run_bind_eq_ok_iff.2 ⟨_, m, htree, run_map_eq_ok_iff.2 ⟨more, hmore, rfl⟩⟩

theorem run_node_succ (levels : Nat) (active : List Nat) (id n : Nat) :
    (node g limit (levels + 1) active id).run n =
      if id ∈ active then .error (.recursive (g.node id).mark.line)
      else if limit < (n : Int) + 1 then .error (.tooLarge limit)
      else match (g.node id).content with
        | .scalar text => .ok (.scalar text, n + 1)
        | .sequence items =>
          (do return .sequence (← items.mapM (node g limit levels (id :: active))) : Step Tree).run
            (n + 1)
        | .mapping pairs =>
          (do return .mapping (← entries (node g limit levels (id :: active)) g [] pairs) :
            Step Tree).run (n + 1) := by
  rw [node]
  by_cases hactive : id ∈ active
  · simp only [List.contains_iff_mem, hactive, if_true]
    rfl
  · simp only [List.contains_iff_mem, hactive, if_false]
    rw [StateT.run_bind, run_count]
    split
    · rfl
    · cases (g.node id).content <;> rfl

/-- A node is unfolded if it is not below itself, may still be counted, has distinct scalar keys,
and the nodes right below it are unfolded with one level less. -/
theorem run_node_eq_ok_iff {levels : Nat} {active : List Nat} {id n n' : Nat} {t : Tree} :
    (node g limit (levels + 1) active id).run n = .ok (t, n') ↔
      id ∉ active ∧ ((n + 1 : Nat) : Int) ≤ limit ∧
      g.Heads (g.node id).content t ∧ t.labels.Nodup ∧
      ((g.node id).content.values.mapM (node g limit levels (id :: active))).run (n + 1) =
        .ok (t.values, n') := by
  rw [run_node_succ]
  by_cases hactive : id ∈ active
  · rw [if_pos hactive]
    exact ⟨nofun, fun h => absurd hactive h.1⟩
  rw [if_neg hactive]
  by_cases hlimit : limit < (n : Int) + 1
  · rw [if_pos hlimit]
    exact ⟨nofun, fun h => by omega⟩
  rw [if_neg hlimit]
  have hcount : ((n + 1 : Nat) : Int) ≤ limit := by omega
  simp only [hactive, not_false_eq_true, hcount, true_and]
  cases (g.node id).content with
  | scalar text =>
    rw [Content.values, run_mapM_nil_eq_ok_iff, Except.ok.injEq, Prod.mk.injEq,
      Graph.heads_scalar_iff]
    constructor
    · rintro ⟨rfl, rfl⟩
      exact ⟨rfl, List.nodup_nil, rfl, rfl⟩
    · rintro ⟨rfl, -, -, rfl⟩
      exact ⟨rfl, rfl⟩
  | sequence ids =>
    rw [run_map_eq_ok_iff, Graph.heads_sequence_iff]
    constructor
    · rintro ⟨items, hitems, rfl⟩
      rw [Tree.values_sequence]
      exact ⟨⟨items, rfl⟩, Tree.nodup_labels_sequence items, hitems⟩
    · rintro ⟨⟨items, rfl⟩, -, hitems⟩
      rw [Tree.values_sequence] at hitems
      exact ⟨items, hitems, rfl⟩
  | mapping pairs =>
    rw [run_map_eq_ok_iff, Graph.heads_mapping_iff]
    constructor
    · rintro ⟨es, hes, rfl⟩
      obtain ⟨hkeys, hdistinct, -, hvalues⟩ := run_entries_eq_ok_iff.1 hes
      rw [Tree.values_mapping]
      exact ⟨⟨es, rfl, hkeys⟩, Tree.nodup_labels_mapping.2 hdistinct, hvalues⟩
    · rintro ⟨⟨es, rfl, hkeys⟩, hdistinct, hvalues⟩
      rw [Tree.values_mapping] at hvalues
      exact ⟨es, run_entries_eq_ok_iff.2
        ⟨hkeys, Tree.nodup_labels_mapping.1 hdistinct, fun _ _ => List.not_mem_nil, hvalues⟩, rfl⟩

/-! ### Every result is an unfolding within the limits -/

/-- What a call that succeeds has found and counted. -/
structure Accepted (g : Graph) (limit : Int) (levels id n : Nat) (t : Tree) (n' : Nat) : Prop where
  unfolds : g.Unfolds id t
  shallow : t.height < levels
  distinct : t.HasDistinctKeys
  counted : n' = n + t.size
  within : (n' : Int) ≤ limit

theorem accepted_of_run_mapM {levels : Nat} {unfold : Nat → Step Tree}
    (hunfold : ∀ {id n n' t}, (unfold id).run n = .ok (t, n') → Accepted g limit levels id n t n')
    {ids : List Nat} {n n' : Nat} {ts : List Tree} (hn : (n : Int) ≤ limit)
    (h : (ids.mapM unfold).run n = .ok (ts, n')) :
    List.Forall₂ g.Unfolds ids ts ∧ (∀ t ∈ ts, t.height < levels ∧ t.HasDistinctKeys) ∧
      n' = n + (ts.map Tree.size).sum ∧ (n' : Int) ≤ limit := by
  induction ids generalizing n ts with
  | nil =>
    obtain ⟨rfl, rfl⟩ := run_mapM_nil_eq_ok_iff.1 h
    exact ⟨.nil, by simp, by simp, hn⟩
  | cons id ids ih =>
    obtain ⟨t, rest, m, rfl, ht, hrest⟩ := run_mapM_cons_eq_ok_iff.1 h
    have first := hunfold ht
    obtain ⟨hbelow, hgood, hcounted, hwithin⟩ := ih first.within hrest
    refine ⟨.cons first.unfolds hbelow, ?_, ?_, hwithin⟩
    · exact List.forall_mem_cons.2 ⟨⟨first.shallow, first.distinct⟩, hgood⟩
    · rw [hcounted, first.counted, List.map_cons, List.sum_cons, Nat.add_assoc]

theorem accepted_of_run_node {levels : Nat} {active : List Nat} {id n n' : Nat} {t : Tree}
    (h : (node g limit levels active id).run n = .ok (t, n')) :
    Accepted g limit levels id n t n' := by
  induction levels generalizing active id n n' t with
  | zero => exact nomatch h
  | succ levels ih =>
    obtain ⟨-, hlimit, hhead, hlabels, hvalues⟩ := run_node_eq_ok_iff.1 h
    obtain ⟨hbelow, hgood, hcounted, hwithin⟩ := accepted_of_run_mapM ih hlimit hvalues
    refine ⟨.intro hhead hbelow, ?_, ?_, ?_, hwithin⟩
    · exact Nat.lt_succ_of_le ((Tree.height_le_iff t levels).2 fun v hv => (hgood v hv).1)
    · exact (Tree.hasDistinctKeys_iff t).2 ⟨hlabels, fun v hv => (hgood v hv).2⟩
    · rw [hcounted, Tree.size_eq t]
      omega

/-! ### Every unfolding within the limits is a result -/

/-- The remembered nodes have larger unfoldings than the one that is looked for. -/
def Larger (g : Graph) (active : List Nat) (t : Tree) : Prop :=
  ∀ a ∈ active, ∃ u, g.Unfolds a u ∧ t.size < u.size

theorem run_mapM_of_unfolds {unfold : Nat → Step Tree} {ids : List Nat} {ts : List Tree}
    (hbelow : List.Forall₂ g.Unfolds ids ts)
    (hunfold : ∀ t ∈ ts, ∀ id n, g.Unfolds id t → ((n + t.size : Nat) : Int) ≤ limit →
      (unfold id).run n = .ok (t, n + t.size))
    {n : Nat} (hlimit : ((n + (ts.map Tree.size).sum : Nat) : Int) ≤ limit) :
    (ids.mapM unfold).run n = .ok (ts, n + (ts.map Tree.size).sum) := by
  induction hbelow generalizing n with
  | nil => exact run_mapM_nil_eq_ok_iff.2 ⟨rfl, rfl⟩
  | @cons id t ids ts ht _ ih =>
    obtain ⟨hfirst, hrest⟩ := List.forall_mem_cons.1 hunfold
    rw [List.map_cons, List.sum_cons] at hlimit ⊢
    rw [← Nat.add_assoc] at hlimit ⊢
    refine run_mapM_cons_eq_ok_iff.2 ⟨t, ts, n + t.size, rfl, ?_, ih hrest hlimit⟩
    exact hfirst id n ht (by omega)

theorem run_node_of_unfolds {levels : Nat} {active : List Nat} {id n : Nat} {t : Tree}
    (hunfolds : g.Unfolds id t) (hheight : t.height < levels) (hkeys : t.HasDistinctKeys)
    (hlimit : ((n + t.size : Nat) : Int) ≤ limit) (hlarger : Larger g active t) :
    (node g limit levels active id).run n = .ok (t, n + t.size) := by
  induction t using Tree.induction_on_values generalizing levels active id n with
  | step t ih =>
    obtain ⟨levels, rfl⟩ := Nat.exists_eq_succ_of_ne_zero (Nat.ne_zero_of_lt hheight)
    have hvalues := (Tree.height_le_iff t levels).1 (Nat.le_of_lt_succ hheight)
    obtain ⟨hlabels, hdistinct⟩ := (Tree.hasDistinctKeys_iff t).1 hkeys
    have hsize := Tree.size_eq t
    -- a remembered node with this number would have the same unfolding, which is too small
    have hactive : id ∉ active := fun hmem => by
      obtain ⟨u, hu, hlt⟩ := hlarger id hmem
      rw [hunfolds.unique hu] at hlt
      exact Nat.lt_irrefl _ hlt
    have hlarger' : ∀ v ∈ t.values, Larger g (id :: active) v := fun v hv => by
      have hlt := Tree.size_lt_of_mem_values hv
      refine List.forall_mem_cons.2 ⟨⟨t, hunfolds, hlt⟩, fun a ha => ?_⟩
      obtain ⟨u, hu, hu'⟩ := hlarger a ha
      exact ⟨u, hu, Nat.lt_trans hlt hu'⟩
    obtain ⟨hhead, hbelow⟩ := hunfolds
    refine run_node_eq_ok_iff.2 ⟨hactive, by omega, hhead, hlabels, ?_⟩
    have hrun : ((g.node id).content.values.mapM (node g limit levels (id :: active))).run (n + 1) =
        .ok (t.values, n + 1 + (t.values.map Tree.size).sum) := by
      have hvaluesLimit : ((n + 1 + (t.values.map Tree.size).sum : Nat) : Int) ≤ limit := by omega
      exact run_mapM_of_unfolds hbelow (fun v hv child m hchild hm =>
        ih v hv hchild (hvalues v hv) (hdistinct v hv) hm (hlarger' v hv)) hvaluesLimit
    rw [hrun, hsize, Nat.add_assoc, Nat.add_comm 1]

end Unfold

/-- A graph becomes a tree exactly if its root has that tree as unfolding, no node of it lies
deeper than `maxDepth`, it has at most `limit` nodes, and its keys are distinct. There is an
unfolding exactly if every chain of nodes from the root comes to an end and the mappings on the way
have scalars as keys. All other graphs are refused. -/
theorem unfold_eq_ok_iff (limit : Int) (g : Graph) :
    (∀ t, unfold limit g = .ok t ↔
      g.Unfolds g.root t ∧ t.height ≤ maxDepth ∧ (t.size : Int) ≤ limit ∧ t.HasDistinctKeys) ∧
    ((∃ t, g.Unfolds g.root t) ↔
      Acc g.Below g.root ∧ ∀ id, g.Reaches g.root id → g.HasScalarKeys id) ∧
    ((∃ t, g.Unfolds g.root t ∧ t.height ≤ maxDepth ∧ (t.size : Int) ≤ limit ∧
      t.HasDistinctKeys) ∨ ∃ cause, unfold limit g = .error cause) := by
  have hok : ∀ t, unfold limit g = .ok t ↔
      g.Unfolds g.root t ∧ t.height ≤ maxDepth ∧ (t.size : Int) ≤ limit ∧ t.HasDistinctKeys := by
    intro t
    rw [unfold]
    constructor
    · intro h
      cases hrun : (Unfold.node g limit (maxDepth + 1) [] g.root).run 0 with
      | error cause => rw [hrun] at h; exact nomatch h
      | ok result =>
        obtain ⟨u, n⟩ := result
        rw [hrun] at h
        cases h
        obtain ⟨hunfolds, hheight, hkeys, hcounted, hlimit⟩ := Unfold.accepted_of_run_node hrun
        rw [Nat.zero_add] at hcounted
        exact ⟨hunfolds, Nat.le_of_lt_succ hheight, hcounted ▸ hlimit, hkeys⟩
    · rintro ⟨hunfolds, hheight, hsize, hkeys⟩
      have hrun : (Unfold.node g limit (maxDepth + 1) [] g.root).run 0 = .ok (t, 0 + t.size) :=
        Unfold.run_node_of_unfolds hunfolds (Nat.lt_succ_of_le hheight) hkeys
          (by rwa [Nat.zero_add]) (by simp [Unfold.Larger])
      rw [hrun]
      rfl
  refine ⟨hok, Graph.exists_unfolds_iff, ?_⟩
  cases hunfold : unfold limit g with
  | error cause => exact .inr ⟨cause, rfl⟩
  | ok t => exact .inl ⟨t, (hok t).1 hunfold⟩

end Treeline
