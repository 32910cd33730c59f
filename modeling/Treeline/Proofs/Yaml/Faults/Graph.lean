import Treeline.Proofs.Yaml.Faults.Scan
import Treeline.Yaml.Graph.Read

/-!
# Faults of reading node graphs

What reads nodes from tokens has no faults of its own. It passes on why the tokens break off, when
it comes to where they do, and reports everything else.
-/

namespace Treeline.Yaml

namespace Reading

variable {α β : Type}

/-- A reading that ends with a fault only if the tokens break off with that fault. -/
def PassesOn (x : Reading α) : Prop :=
  ∀ r, match x.run r with
    | .ok (_, after) => after.broken = r.broken
    | .error (.reported _) => True
    | .error (.fault fault) => r.broken = some (.fault fault)

namespace PassesOn

variable {x : Reading α}

theorem pure (a : α) : PassesOn (pure a) := fun _ => rfl

theorem bind {f : α → Reading β} (hx : PassesOn x) (hf : ∀ a, PassesOn (f a)) :
    PassesOn (x >>= f) := by
  intro r
  have hfirst := hx r
  rw [StateT.run_bind]
  cases hrun : x.run r with
  | error stop =>
    rw [hrun] at hfirst
    cases stop with
    | reported failure => trivial
    | fault fault => exact hfirst
  | ok pair =>
    obtain ⟨a, after⟩ := pair
    rw [hrun] at hfirst
    have hrest := hf a after
    rw [hfirst] at hrest
    exact hrest

theorem map (f : α → β) (hx : PassesOn x) : PassesOn (f <$> x) := by
  rw [map_eq_pure_bind]
  exact hx.bind fun a => .pure (f a)

theorem reported (failure : Failure) : PassesOn (throw (.reported failure) : Reading α) :=
  fun _ => trivial

theorem get : PassesOn (get : Reading Reader) := fun _ => rfl

theorem modify {f : Reader → Reader} (hf : ∀ r, (f r).broken = r.broken) :
    PassesOn (modify f : Reading Unit) := hf

theorem ite {y : Reading α} {p : Prop} [Decidable p] (hx : PassesOn x) (hy : PassesOn y) :
    PassesOn (if p then x else y) := by
  split
  · exact hx
  · exact hy

end PassesOn

/-! ### Tokens and single nodes -/

theorem passesOn_fail {context : Context} {start m : Mark} {problem : Problem} :
    PassesOn (fail context start problem m : Reading α) := .reported _

theorem passesOn_failAt {m : Mark} {problem : Problem} :
    PassesOn (failAt problem m : Reading α) := .reported _

/-- Only here does a reading come to where the tokens break off. -/
theorem passesOn_peek : PassesOn peek := by
  intro r
  obtain ⟨tokens, broken, nodes, anchors, handles⟩ := r
  cases tokens with
  | cons t rest => rfl
  | nil =>
    cases broken with
    | none => rfl
    | some stop =>
      cases stop with
      | reported failure => exact trivial
      | fault fault => rfl

theorem passesOn_drop : PassesOn drop := .modify fun _ => rfl

theorem passesOn_take : PassesOn take :=
  passesOn_peek.bind fun t => passesOn_drop.bind fun _ => .pure t

theorem passesOn_add (node : Node) : PassesOn (add node) := fun _ => rfl

theorem passesOn_addEmpty (m : Mark) : PassesOn (addEmpty m) := passesOn_add _

theorem passesOn_fill (id : Nat) (content : Content) : PassesOn (fill id content) :=
  (PassesOn.modify fun _ => rfl).bind fun _ => .pure id

theorem passesOn_anchored? (name : String) : PassesOn (anchored? name) :=
  PassesOn.get.bind fun _ => .pure _

theorem passesOn_expandTag (start : Mark) (t : Token) (handle : Option String) (suffix : String) :
    PassesOn (expandTag start t handle suffix) := by
  cases handle with
  | none => exact .pure suffix
  | some handle =>
    refine PassesOn.get.bind fun r => ?_
    split
    · exact .pure _
    · exact passesOn_fail

theorem passesOn_anchor? : PassesOn anchor? := by
  refine passesOn_peek.bind fun t => ?_
  split
  · exact passesOn_drop.bind fun _ => .pure _
  · exact .pure none

theorem passesOn_tagToken? : PassesOn tagToken? := by
  refine passesOn_peek.bind fun t => ?_
  split
  · exact passesOn_drop.bind fun _ => .pure _
  · exact .pure none

theorem passesOn_properties : PassesOn properties := by
  refine passesOn_anchor?.bind fun first => passesOn_tagToken?.bind fun tag => ?_
  -- the tag is expanded last, whether an anchor stands in front of it, behind it or nowhere
  have hend : ∀ (second : Option (String × Mark)) (start : Option Mark)
      {expanded : Reading (Option String)}, PassesOn expanded → PassesOn (expanded >>= fun tag =>
        Pure.pure (⟨(first.or second).map (·.1), tag, start⟩ : Properties)) :=
    fun second start expanded hexpanded => hexpanded.bind fun tag => .pure _
  obtain _ | ⟨t, handle, suffix⟩ := tag
  · exact .ite (passesOn_anchor?.bind fun second => hend second _ (.pure none))
      (hend none _ (.pure none))
  · exact .ite
      (passesOn_anchor?.bind fun second => hend second _ ((passesOn_expandTag _ _ _ _).map some))
      (hend none _ ((passesOn_expandTag _ _ _ _).map some))

theorem passesOn_begin (p : Properties) (node : Node) : PassesOn (begin p node) := by
  rw [begin]
  split
  · exact passesOn_add node
  · refine (passesOn_anchored? _).bind fun first => ?_
    split
    · exact PassesOn.get.bind fun _ => passesOn_fail
    · exact (passesOn_add node).bind fun id => (PassesOn.modify fun _ => rfl).bind fun _ => .pure id

theorem passesOn_collection {x : Reading α} (hx : PassesOn x) (p : Properties) (node : Node)
    (content : α → Content) : PassesOn (do
      let id ← begin p node
      drop
      fill id (content (← x))) :=
  (passesOn_begin p node).bind fun id => passesOn_drop.bind fun _ => hx.bind fun _ =>
    passesOn_fill id _

/-- A comma stands before each item inside brackets but the first one. -/
theorem passesOn_behindComma {rest : Reading α} (hrest : PassesOn rest) (isFirst : Bool)
    (isComma : Prop) [Decidable isComma] {context : Context} {start m : Mark} {problem : Problem} :
    PassesOn (if (!isFirst) = true then
      if isComma then drop >>= fun _ => rest
      else (fail context start problem m : Reading Unit) >>= fun _ => rest
    else rest) :=
  .ite (.ite (passesOn_drop.bind fun _ => hrest) (passesOn_fail.bind fun _ => hrest)) hrest

/-! ### Nodes -/

/-- All readings of nodes and of what they hold pass on, with some fuel. -/
structure AllPassOn (fuel : Nat) : Prop where
  node : ∀ place, PassesOn (node place fuel)
  nodeUnless : ∀ isEnd place m, PassesOn (nodeUnless isEnd place m fuel)
  blockItems : ∀ start, PassesOn (blockItems start fuel)
  indentlessItems : PassesOn (indentlessItems fuel)
  blockEntries : ∀ start, PassesOn (blockEntries start fuel)
  blockValue : PassesOn (blockValue fuel)
  flowItems : ∀ start isFirst, PassesOn (flowItems start isFirst fuel)
  flowEntries : ∀ start isFirst, PassesOn (flowEntries start isFirst fuel)
  flowValue : ∀ isEnd, PassesOn (flowValue isEnd fuel)

section Step

variable {fuel : Nat} (h : AllPassOn fuel)

include h

theorem passesOn_node_succ (place : Place) : PassesOn (node place (fuel + 1)) := by
  rw [node]
  refine passesOn_peek.bind fun t => ?_
  split
  · refine passesOn_drop.bind fun _ => (passesOn_anchored? _).bind fun id => ?_
    split
    · exact .pure _
    · exact passesOn_failAt
  · refine passesOn_properties.bind fun p => passesOn_peek.bind fun t => ?_
    dsimp only
    split
    · exact (passesOn_begin p _).bind fun id => h.indentlessItems.bind fun _ => passesOn_fill id _
    · exact passesOn_drop.bind fun _ => passesOn_begin p _
    · exact passesOn_collection (h.flowItems _ _) p _ _
    · exact passesOn_collection (h.flowEntries _ _) p _ _
    · exact passesOn_collection (h.blockItems _) p _ _
    · exact passesOn_collection (h.blockItems _) p _ _
    · exact passesOn_collection (h.blockEntries _) p _ _
    · exact passesOn_collection (h.blockEntries _) p _ _
    · exact .ite (passesOn_begin p _) passesOn_fail

theorem passesOn_nodeUnless_succ (isEnd : Lexeme → Bool) (place : Place) (m : Mark) :
    PassesOn (nodeUnless isEnd place m (fuel + 1)) := by
  rw [nodeUnless]
  exact passesOn_peek.bind fun t => .ite (passesOn_addEmpty m) (h.node place)

theorem passesOn_blockItems_succ (start : Mark) : PassesOn (blockItems start (fuel + 1)) := by
  rw [blockItems]
  refine passesOn_take.bind fun t => ?_
  split
  · exact (h.nodeUnless _ _ _).bind fun item => (h.blockItems start).bind fun _ => .pure _
  · exact .pure []
  · exact passesOn_fail

theorem passesOn_indentlessItems_succ : PassesOn (indentlessItems (fuel + 1)) := by
  rw [indentlessItems]
  refine passesOn_peek.bind fun t => ?_
  split
  · exact passesOn_drop.bind fun _ => (h.nodeUnless _ _ _).bind fun item =>
      h.indentlessItems.bind fun _ => .pure _
  · exact .pure []

theorem passesOn_blockEntries_succ (start : Mark) : PassesOn (blockEntries start (fuel + 1)) := by
  rw [blockEntries]
  refine passesOn_take.bind fun t => ?_
  split
  · exact (h.nodeUnless _ _ _).bind fun key => h.blockValue.bind fun value =>
      (h.blockEntries start).bind fun _ => .pure _
  · exact .pure []
  · exact passesOn_fail

theorem passesOn_blockValue_succ : PassesOn (blockValue (fuel + 1)) := by
  rw [blockValue]
  refine passesOn_peek.bind fun t => ?_
  split
  · exact passesOn_drop.bind fun _ => h.nodeUnless _ _ _
  · exact passesOn_addEmpty _

theorem passesOn_flowItems_succ (start : Mark) (isFirst : Bool) :
    PassesOn (flowItems start isFirst (fuel + 1)) := by
  rw [flowItems]
  refine passesOn_peek.bind fun t => .ite (passesOn_drop.bind fun _ => .pure []) ?_
  refine passesOn_behindComma ?_ isFirst _
  refine passesOn_peek.bind fun t => ?_
  split
  · exact (passesOn_add _).bind fun id => passesOn_drop.bind fun _ =>
      (h.nodeUnless _ _ _).bind fun key => (h.flowValue _).bind fun value =>
        (passesOn_fill id _).bind fun item => (h.flowItems start false).bind fun _ => .pure _
  · exact passesOn_drop.bind fun _ => .pure []
  · exact (h.node _).bind fun item => (h.flowItems start false).bind fun _ => .pure _

theorem passesOn_flowEntries_succ (start : Mark) (isFirst : Bool) :
    PassesOn (flowEntries start isFirst (fuel + 1)) := by
  rw [flowEntries]
  refine passesOn_peek.bind fun t => .ite (passesOn_drop.bind fun _ => .pure []) ?_
  refine passesOn_behindComma ?_ isFirst _
  refine passesOn_peek.bind fun t => ?_
  split
  · exact passesOn_drop.bind fun _ => (h.nodeUnless _ _ _).bind fun key =>
      (h.flowValue _).bind fun value => (h.flowEntries start false).bind fun _ => .pure _
  · exact passesOn_drop.bind fun _ => .pure []
  · exact (h.node _).bind fun key => passesOn_peek.bind fun t => (passesOn_addEmpty _).bind
      fun value => (h.flowEntries start false).bind fun _ => .pure _

theorem passesOn_flowValue_succ (isEnd : Lexeme → Bool) :
    PassesOn (flowValue isEnd (fuel + 1)) := by
  rw [flowValue]
  refine passesOn_peek.bind fun t => ?_
  split
  · exact passesOn_drop.bind fun _ => h.nodeUnless _ _ _
  · exact passesOn_addEmpty _

end Step

theorem allPassOn (fuel : Nat) : AllPassOn fuel := by
  induction fuel with
  | zero =>
    constructor
    · exact fun _ => passesOn_addEmpty _
    · exact fun _ _ m => passesOn_addEmpty m
    · exact fun _ => .pure []
    · exact .pure []
    · exact fun _ => .pure []
    · exact passesOn_addEmpty _
    · exact fun _ _ => .pure []
    · exact fun _ _ => .pure []
    · exact fun _ => passesOn_addEmpty _
  | succ fuel h =>
    constructor
    · exact passesOn_node_succ h
    · exact passesOn_nodeUnless_succ h
    · exact passesOn_blockItems_succ h
    · exact passesOn_indentlessItems_succ h
    · exact passesOn_blockEntries_succ h
    · exact passesOn_blockValue_succ h
    · exact passesOn_flowItems_succ h
    · exact passesOn_flowEntries_succ h
    · exact passesOn_flowValue_succ h

/-! ### Documents -/

theorem passesOn_directives (fuel : Nat) (hasVersion : Bool) (handles : List (String × String)) :
    PassesOn (directives fuel hasVersion handles) := by
  induction fuel generalizing hasVersion handles with
  | zero => exact .pure handles
  | succ fuel ih =>
    rw [directives]
    refine passesOn_peek.bind fun t => ?_
    split
    · refine passesOn_drop.bind fun _ => ?_
      split
      · exact .ite passesOn_failAt (.ite passesOn_failAt (ih true handles))
      · exact .ite passesOn_failAt (ih _ _)
      · exact ih _ _
    · exact .pure handles

theorem passesOn_skipDocumentEnds (fuel : Nat) : PassesOn (skipDocumentEnds fuel) := by
  induction fuel with
  | zero => exact .pure ()
  | succ fuel ih =>
    rw [skipDocumentEnds]
    exact passesOn_peek.bind fun t => .ite (passesOn_drop.bind fun _ => ih) (.pure ())

theorem passesOn_documentStart : PassesOn documentStart := by
  rw [documentStart]
  refine PassesOn.get.bind fun r => (passesOn_skipDocumentEnds _).bind fun _ =>
    passesOn_peek.bind fun t => .ite (.pure none) ?_
  refine PassesOn.get.bind fun r => (passesOn_directives _ _ _).bind fun handles =>
    .bind (.modify ?_) fun _ => passesOn_take.bind fun sign => .ite (.pure _) passesOn_failAt
  exact fun _ => rfl

theorem passesOn_documentNode (isExplicit : Bool) : PassesOn (documentNode isExplicit) := by
  have hend : ∀ root, PassesOn (do
      if (← peek).lexeme = .documentEnd then drop
      return (⟨(← get).nodes, root⟩ : Graph)) := by
    intro root
    have hnodes : PassesOn (do return (⟨(← get).nodes, root⟩ : Graph)) :=
      PassesOn.get.bind fun _ => .pure _
    exact passesOn_peek.bind fun t => .ite (passesOn_drop.bind fun _ => hnodes) hnodes
  rw [documentNode]
  refine .bind (.modify ?_) fun _ => passesOn_peek.bind fun t =>
    .ite ((passesOn_addEmpty _).bind hend)
      (PassesOn.get.bind fun r => ((allPassOn _).node .block).bind hend)
  exact fun _ => rfl

theorem passesOn_explicitDocuments (fuel : Nat) : PassesOn (explicitDocuments fuel) := by
  induction fuel with
  | zero => exact .pure []
  | succ fuel ih =>
    rw [explicitDocuments]
    refine passesOn_documentStart.bind fun start => ?_
    split
    · exact .pure []
    · exact (passesOn_documentNode true).bind fun graph => ih.bind fun _ => .pure _

theorem passesOn_documents : PassesOn documents := by
  rw [documents]
  refine PassesOn.get.bind fun r => passesOn_peek.bind fun t => ?_
  exact .ite ((passesOn_documentNode false).bind fun graph =>
    (passesOn_explicitDocuments _).bind fun _ => .pure _) (passesOn_explicitDocuments _)

theorem passesOn_singleDocument : PassesOn singleDocument := by
  rw [singleDocument]
  refine passesOn_peek.bind fun t => .ite (.bind ((passesOn_documentNode false).map some) ?_)
    (passesOn_documentStart.bind fun start => ?_)
  on_goal 2 => split
  on_goal 2 => refine PassesOn.bind (.pure none) ?_
  on_goal 3 => refine PassesOn.bind ((passesOn_documentNode true).map some) ?_
  -- whichever way the document has been read, no other one may follow
  all_goals
    rintro (_ | graph)
    · exact .pure none
    · refine passesOn_documentStart.bind fun start => ?_
      split
      · exact .pure _
      · exact passesOn_fail

end Reading

/-- Reading the documents of a text ends with a fault only if the text causes it. -/
theorem causes_of_graphs {text : List Char} {fault : Fault}
    (h : Graph.ofText text = .error (.fault fault)) : Causes text fault := by
  have hpasses := Reading.passesOn_documents (.ofTokens (.ofText text))
  rw [Graph.ofText, map_eq_error_iff] at h
  rw [h] at hpasses
  exact causes_of_broken hpasses

theorem causes_of_single {text : List Char} {fault : Fault}
    (h : Graph.singleOfText text = .error (.fault fault)) : Causes text fault := by
  have hpasses := Reading.passesOn_singleDocument (.ofTokens (.ofText text))
  rw [Graph.singleOfText, map_eq_error_iff] at h
  rw [h] at hpasses
  exact causes_of_broken hpasses

end Treeline.Yaml
