import Treeline.Proofs.Results
import Treeline.Proofs.Yaml.Graph.Shape

/-!
# Reading shapes

Reading takes tokens from the front and adds nodes at the end. From tokens that a shape gives, it
adds the nodes of the shape and leaves the tokens behind; the number of the first node is that of
the shape itself.
-/

namespace Treeline.Yaml

/-- What the nodes hold that were read so far. -/
def Reader.contents (r : Reader) : List Content := r.nodes.toList.map Node.content

theorem Reader.length_contents (r : Reader) : r.contents.length = r.nodes.size := by
  simp [contents]

namespace Reading

variable {α β : Type} {r : Reader} {t : Token} {ts rest : List Token}

/-- A step of reading leaves some tokens and adds nodes with some contents. -/
def Reads (x : Reading α) (r : Reader) (a : α) (rest : List Token) (cs : List Content) : Prop :=
  ∃ nodes, x.run r = .ok (a, { r with tokens := rest, nodes := nodes }) ∧
    nodes.toList.map Node.content = r.contents ++ cs

theorem Reads.bind {x : Reading α} {f : α → Reading β} {a : α} {b : β} {rest' : List Token}
    {cs cs' : List Content} (hx : Reads x r a rest cs)
    (hf : ∀ nodes : Array Node, nodes.size = r.nodes.size + cs.length →
      Reads (f a) { r with tokens := rest, nodes := nodes } b rest' cs') :
    Reads (x >>= f) r b rest' (cs ++ cs') := by
  obtain ⟨nodes, hrun, hnodes⟩ := hx
  have hsize := congrArg List.length hnodes
  rw [List.length_map, Array.length_toList, List.length_append, r.length_contents] at hsize
  obtain ⟨nodes', hrun', hnodes'⟩ := hf nodes hsize
  refine ⟨nodes', ?_, ?_⟩
  · rw [run_bind_of_run hrun]
    exact hrun'
  · rw [hnodes', Reader.contents, hnodes, List.append_assoc]

theorem reads_pure (a : α) (h : r.tokens = rest) : Reads (pure a) r a rest [] := by
  subst h
  exact ⟨r.nodes, rfl, (List.append_nil _).symm⟩

theorem run_peek (h : r.tokens = t :: ts) : peek.run r = .ok (t, r) := by
  simp only [peek, StateT.run_bind, StateT.run_get, pure_bind, h, StateT.run_pure]
  rfl

theorem reads_peek_bind {f : Token → Reading β} {b : β} {cs : List Content}
    (h : r.tokens = t :: ts) (hf : Reads (f t) r b rest cs) : Reads (peek >>= f) r b rest cs := by
  obtain ⟨nodes, hrun, hnodes⟩ := hf
  refine ⟨nodes, ?_, hnodes⟩
  rw [run_bind_of_run (run_peek h)]
  exact hrun

theorem run_drop (h : r.tokens = t :: ts) : drop.run r = .ok ((), { r with tokens := ts }) := by
  change Except.ok ((), { r with tokens := r.tokens.tail }) = _
  rw [h]
  rfl

theorem reads_drop_bind {f : Unit → Reading β} {b : β} {cs : List Content} (h : r.tokens = t :: ts)
    (hf : Reads (f ()) { r with tokens := ts } b rest cs) : Reads (drop >>= f) r b rest cs := by
  obtain ⟨nodes, hrun, hnodes⟩ := hf
  refine ⟨nodes, ?_, hnodes⟩
  rw [run_bind_of_run (run_drop h)]
  exact hrun

theorem reads_take_bind {f : Token → Reading β} {b : β} {cs : List Content} (h : r.tokens = t :: ts)
    (hf : Reads (f t) { r with tokens := ts } b rest cs) : Reads (take >>= f) r b rest cs := by
  have htake : (take >>= f) = (peek >>= fun t => drop >>= fun _ => f t) := by
    rw [take]
    simp
  rw [htake]
  exact reads_peek_bind h (reads_drop_bind h hf)

theorem reads_add (n : Node) (h : r.tokens = rest) :
    Reads (add n) r r.nodes.size rest [n.content] := by
  subst h
  refine ⟨r.nodes.push n, rfl, ?_⟩
  simp [Reader.contents]

/-- What a node holds can be filled in when the nodes below it have been read. -/
theorem reads_filled {x : Reading α} (content : α → Content) {a : α} {n : Node}
    {cs : List Content} {id : Nat} (hid : id = r.nodes.size)
    (hx : Reads x { r with tokens := ts, nodes := r.nodes.push n } a rest cs) :
    ∃ nodes, (x >>= fun a => fill id (content a)).run
        { r with tokens := ts, nodes := r.nodes.push n } =
          .ok (id, { r with tokens := rest, nodes := nodes }) ∧
      nodes.toList.map Node.content = r.contents ++ content a :: cs := by
  obtain ⟨nodes, hrun, hnodes⟩ := hx
  refine ⟨nodes.modify id ({ · with content := content a }), ?_, ?_⟩
  · rw [run_bind_of_run hrun]
    rfl
  · have hpush : nodes.toList.map Node.content = r.contents ++ n.content :: cs := by
      rw [hnodes]
      simp [Reader.contents]
    have hlength : r.nodes.size < nodes.toList.length := by
      have hlength := congrArg List.length hpush
      rw [List.length_map, List.length_append, r.length_contents, List.length_cons] at hlength
      omega
    have htake : (nodes.toList.take r.nodes.size).map Node.content = r.contents := by
      rw [List.map_take, hpush, List.take_left' r.length_contents]
    have hdrop : (nodes.toList.drop (r.nodes.size + 1)).map Node.content = cs := by
      rw [List.map_drop, hpush, ← List.drop_drop, List.drop_left' r.length_contents]
      rfl
    rw [hid, Array.toList_modify, List.modify_eq_take_cons_drop hlength, List.map_append,
      List.map_cons, htake, hdrop]

/-! ### Nodes -/

/-- A token that a node without anchor and tag begins with. -/
def opensNode : Lexeme → Bool
  | .scalar _ _ | .flowSequenceStart | .flowMappingStart | .blockSequenceStart
  | .blockMappingStart | .blockEntry => true
  | _ => false

theorem ne_of_opensNode {lexeme other : Lexeme} (h : opensNode lexeme = true)
    (hother : opensNode other = false) : lexeme ≠ other := by
  rintro rfl
  rw [h] at hother
  cases hother

/-- Before a node there are no properties. -/
def bare : Properties := ⟨none, none, none⟩

theorem reads_properties_bind {f : Properties → Reading β} {b : β} {cs : List Content}
    (h : r.tokens = t :: ts) (ht : opensNode t.lexeme = true) (hf : Reads (f bare) r b rest cs) :
    Reads (properties >>= f) r b rest cs := by
  obtain ⟨nodes, hrun, hnodes⟩ := hf
  refine ⟨nodes, ?_, hnodes⟩
  have hanchor : anchor?.run r = .ok (none, r) := by
    rw [anchor?, run_bind_of_run (run_peek h)]
    cases t with
    | mk lexeme start stop => cases lexeme <;> first | rfl | cases ht
  have htag : tagToken?.run r = .ok (none, r) := by
    rw [tagToken?, run_bind_of_run (run_peek h)]
    cases t with
    | mk lexeme start stop => cases lexeme <;> first | rfl | cases ht
  have hproperties : properties.run r = .ok (bare, r) := by
    rw [properties, run_bind_of_run hanchor, run_bind_of_run htag]
    rfl
  rw [run_bind_of_run hproperties]
  exact hrun

theorem reads_node {place : Place} {fuel : Nat} {id : Nat} {cs : List Content}
    (h : r.tokens = t :: ts) (ht : opensNode t.lexeme = true)
    (hf : Reads (match t.lexeme, place with
      | .blockEntry, .blockOrIndentless => do
        let id ← add ⟨Tag.list, t.start, .sequence []⟩
        fill id (.sequence (← indentlessItems fuel))
      | .scalar text isPlain, _ => do
        drop
        add ⟨if isPlain then Tag.ofPlain text.toList else Tag.text, t.start, .scalar text⟩
      | .flowSequenceStart, _ => do
        let id ← add ⟨Tag.list, t.start, .sequence []⟩
        drop
        fill id (.sequence (← flowItems t.start true fuel))
      | .flowMappingStart, _ => do
        let id ← add ⟨Tag.dict, t.start, .mapping []⟩
        drop
        fill id (.mapping (← flowEntries t.start true fuel))
      | .blockSequenceStart, .block | .blockSequenceStart, .blockOrIndentless => do
        let id ← add ⟨Tag.list, t.start, .sequence []⟩
        drop
        fill id (.sequence (← blockItems t.start fuel))
      | .blockMappingStart, .block | .blockMappingStart, .blockOrIndentless => do
        let id ← add ⟨Tag.dict, t.start, .mapping []⟩
        drop
        fill id (.mapping (← blockEntries t.start fuel))
      | _, _ =>
        fail (if place = .flow then .flowNode else .blockNode) t.start (.noContent t.lexeme)
          t.start) r id rest cs) :
    Reads (node place (fuel + 1)) r id rest cs := by
  rw [node]
  refine reads_peek_bind h ?_
  split
  next hname => exact absurd hname (ne_of_opensNode ht rfl)
  next => exact reads_properties_bind h ht (reads_peek_bind h hf)

/-- A collection is added before the nodes below it, and filled in behind them. -/
theorem reads_collection {x : Reading α} {content : α → Content} {a : α} {cs : List Content}
    (n : Node) (hx : Reads x { r with tokens := ts, nodes := r.nodes.push n } a rest cs)
    (h : r.tokens = t :: ts) :
    Reads (do let id ← add n; drop; fill id (content (← x))) r r.nodes.size rest
      (content a :: cs) := by
  obtain ⟨nodes, hrun, hnodes⟩ := reads_filled content rfl hx
  refine ⟨nodes, ?_, hnodes⟩
  have hadd : (add n).run r = .ok (r.nodes.size, { r with nodes := r.nodes.push n }) := rfl
  have hdrop : drop.run { r with nodes := r.nodes.push n } =
      .ok ((), { r with tokens := ts, nodes := r.nodes.push n }) := run_drop h
  rw [run_bind_of_run hadd, run_bind_of_run hdrop]
  exact hrun

/-- A sequence whose dashes are not indented has no token of its own. -/
theorem reads_indentless {x : Reading α} {content : α → Content} {a : α} {cs : List Content}
    (n : Node) (hx : Reads x { r with nodes := r.nodes.push n } a rest cs) :
    Reads (do let id ← add n; fill id (content (← x))) r r.nodes.size rest (content a :: cs) := by
  obtain ⟨nodes, hrun, hnodes⟩ := reads_filled content rfl hx
  refine ⟨nodes, ?_, hnodes⟩
  have hadd : (add n).run r = .ok (r.nodes.size, { r with nodes := r.nodes.push n }) := rfl
  rw [run_bind_of_run hadd]
  exact hrun

theorem reads_nodeUnless {isEnd : Lexeme → Bool} {place : Place} {m : Mark} {fuel id : Nat}
    {cs : List Content} (h : r.tokens = t :: ts) (ht : isEnd t.lexeme = false)
    (hf : Reads (node place fuel) r id rest cs) :
    Reads (nodeUnless isEnd place m (fuel + 1)) r id rest cs := by
  rw [nodeUnless]
  refine reads_peek_bind h ?_
  rw [if_neg (by simp [ht])]
  exact hf

/-- A list is read member by member. -/
theorem Reads.cons {x : Reading α} {more : Reading (List α)} {a : α} {as : List α}
    {rest' : List Token} {cs cs' : List Content} (hx : Reads x r a rest cs)
    (hmore : ∀ nodes : Array Node, nodes.size = r.nodes.size + cs.length →
      Reads more { r with tokens := rest, nodes := nodes } as rest' cs') :
    Reads (do let a ← x; return a :: (← more)) r (a :: as) rest' (cs ++ cs') := by
  refine hx.bind fun nodes hnodes => ?_
  have hbind := (hmore nodes hnodes).bind (f := fun as => pure (a :: as))
    (fun nodes _ => reads_pure (a :: as) rfl)
  rwa [List.append_nil] at hbind

/-- Entries are read key by key, each with its value. -/
theorem Reads.consEntry {x y : Reading Nat} {more : Reading (List (Nat × Nat))} {k v : Nat}
    {pairs : List (Nat × Nat)} {rest' : List Token} {cs cs' cs'' : List Content}
    (hx : Reads x r k ts cs) (ts' : List Token)
    (hy : ∀ nodes : Array Node, nodes.size = r.nodes.size + cs.length →
      Reads y { r with tokens := ts, nodes := nodes } v ts' cs')
    (hmore : ∀ nodes : Array Node, nodes.size = r.nodes.size + cs.length + cs'.length →
      Reads more { r with tokens := ts', nodes := nodes } pairs rest' cs'') :
    Reads (do let k ← x; let v ← y; return (k, v) :: (← more)) r ((k, v) :: pairs) rest'
      (cs ++ (cs' ++ cs'')) := by
  refine hx.bind fun nodes hnodes => (hy nodes hnodes).bind fun nodes' hnodes' => ?_
  have hsize : nodes'.size = r.nodes.size + cs.length + cs'.length := by
    rw [hnodes', hnodes]
  have hbind := (hmore nodes' hsize).bind (f := fun pairs => pure ((k, v) :: pairs))
    (fun nodes _ => reads_pure ((k, v) :: pairs) rfl)
  rwa [List.append_nil] at hbind

/-! ### Items and entries in brackets -/

section

variable {start : Mark} {fuel : Nat} {cs cs' : List Content} {isFirst : Bool} {lead : List Token}

/-- What stands in front of an item or an entry in brackets: a comma, but for the first one. -/
def IsLead (isFirst : Bool) (lead : List Token) : Prop :=
  if isFirst then lead = [] else ∃ c, lead = [c] ∧ c.lexeme = .flowEntry

theorem reads_flowItems_end (h : r.tokens = t :: rest) (ht : t.lexeme = .flowSequenceEnd) :
    Reads (flowItems start isFirst (fuel + 1)) r [] rest [] := by
  rw [flowItems]
  refine reads_peek_bind h ?_
  rw [if_pos ht]
  exact reads_drop_bind h (reads_pure [] rfl)

theorem reads_flowItems_next {items : List Nat} (hlead : IsLead isFirst lead)
    (h : r.tokens = lead ++ t :: ts) (ht : opensNode t.lexeme = true)
    (hf : Reads (do let item ← node .flow fuel; return item :: (← flowItems start false fuel))
      { r with tokens := t :: ts } items rest cs) :
    Reads (flowItems start isFirst (fuel + 1)) r items rest cs := by
  rw [flowItems]
  cases isFirst with
  | true =>
    cases (show lead = [] from hlead)
    have h' : r.tokens = t :: ts := h
    rw [← h'] at hf
    refine reads_peek_bind h' ?_
    rw [if_neg (ne_of_opensNode ht rfl)]
    refine reads_peek_bind h' ?_
    split
    next hkey => exact absurd hkey (ne_of_opensNode ht rfl)
    next hend => exact absurd hend (ne_of_opensNode ht rfl)
    next => exact hf
  | false =>
    obtain ⟨c, rfl, hc⟩ := hlead
    refine reads_peek_bind h ?_
    rw [hc, if_neg (by simp)]
    refine reads_drop_bind h (reads_peek_bind rfl ?_)
    split
    next hkey => exact absurd hkey (ne_of_opensNode ht rfl)
    next hend => exact absurd hend (ne_of_opensNode ht rfl)
    next => exact hf

theorem reads_flowEntries_end (h : r.tokens = t :: rest) (ht : t.lexeme = .flowMappingEnd) :
    Reads (flowEntries start isFirst (fuel + 1)) r [] rest [] := by
  rw [flowEntries]
  refine reads_peek_bind h ?_
  rw [if_pos ht]
  exact reads_drop_bind h (reads_pure [] rfl)

theorem reads_flowEntries_next {entries : List (Nat × Nat)} (hlead : IsLead isFirst lead)
    (h : r.tokens = lead ++ t :: ts) (ht : t.lexeme = .key)
    (hf : Reads (do
      let key ← nodeUnless endsMappingKey .flow t.stop fuel
      let value ← flowValue endsMappingValue fuel
      return (key, value) :: (← flowEntries start false fuel)) { r with tokens := ts }
      entries rest cs) :
    Reads (flowEntries start isFirst (fuel + 1)) r entries rest cs := by
  rw [flowEntries]
  cases isFirst with
  | true =>
    cases (show lead = [] from hlead)
    refine reads_peek_bind h ?_
    rw [ht, if_neg (by simp)]
    refine reads_peek_bind h ?_
    rw [ht]
    exact reads_drop_bind h hf
  | false =>
    obtain ⟨c, rfl, hc⟩ := hlead
    refine reads_peek_bind h ?_
    rw [hc, if_neg (by simp)]
    refine reads_drop_bind h (reads_peek_bind rfl ?_)
    rw [ht]
    exact reads_drop_bind rfl hf

theorem reads_flowValue {isEnd : Lexeme → Bool} {id : Nat} (h : r.tokens = t :: ts)
    (ht : t.lexeme = .value)
    (hf : Reads (nodeUnless isEnd .flow t.stop fuel) { r with tokens := ts } id rest cs) :
    Reads (flowValue isEnd (fuel + 1)) r id rest cs := by
  rw [flowValue]
  refine reads_peek_bind h ?_
  rw [ht]
  exact reads_drop_bind h hf

end

/-! ### Items and entries in block style -/

section

variable {start : Mark} {fuel : Nat} {cs : List Content}

theorem reads_blockItems_end (h : r.tokens = t :: rest) (ht : t.lexeme = .blockEnd) :
    Reads (blockItems start (fuel + 1)) r [] rest [] := by
  rw [blockItems]
  refine reads_take_bind h ?_
  rw [ht]
  exact reads_pure [] rfl

theorem reads_blockItems_next {items : List Nat} (h : r.tokens = t :: ts)
    (ht : t.lexeme = .blockEntry)
    (hf : Reads (do
      let item ← nodeUnless endsBlockItem .block t.stop fuel
      return item :: (← blockItems start fuel)) { r with tokens := ts } items rest cs) :
    Reads (blockItems start (fuel + 1)) r items rest cs := by
  rw [blockItems]
  refine reads_take_bind h ?_
  rw [ht]
  exact hf

theorem reads_indentlessItems_end (h : r.tokens = t :: ts) (ht : t.lexeme ≠ .blockEntry) :
    Reads (indentlessItems (fuel + 1)) r [] (t :: ts) [] := by
  rw [indentlessItems]
  refine reads_peek_bind h ?_
  split
  · rename_i hlexeme
    exact absurd hlexeme ht
  · exact reads_pure [] h

theorem reads_indentlessItems_next {items : List Nat} (h : r.tokens = t :: ts)
    (ht : t.lexeme = .blockEntry)
    (hf : Reads (do
      let item ← nodeUnless endsIndentlessItem .block t.stop fuel
      return item :: (← indentlessItems fuel)) { r with tokens := ts } items rest cs) :
    Reads (indentlessItems (fuel + 1)) r items rest cs := by
  rw [indentlessItems]
  refine reads_peek_bind h ?_
  rw [ht]
  exact reads_drop_bind h hf

theorem reads_blockEntries_end (h : r.tokens = t :: rest) (ht : t.lexeme = .blockEnd) :
    Reads (blockEntries start (fuel + 1)) r [] rest [] := by
  rw [blockEntries]
  refine reads_take_bind h ?_
  rw [ht]
  exact reads_pure [] rfl

theorem reads_blockEntries_next {entries : List (Nat × Nat)} (h : r.tokens = t :: ts)
    (ht : t.lexeme = .key)
    (hf : Reads (do
      let key ← nodeUnless endsBlockPart .blockOrIndentless t.stop fuel
      let value ← blockValue fuel
      return (key, value) :: (← blockEntries start fuel)) { r with tokens := ts } entries rest cs) :
    Reads (blockEntries start (fuel + 1)) r entries rest cs := by
  rw [blockEntries]
  refine reads_take_bind h ?_
  rw [ht]
  exact hf

theorem reads_blockValue {id : Nat} (h : r.tokens = t :: ts) (ht : t.lexeme = .value)
    (hf : Reads (nodeUnless endsBlockPart .blockOrIndentless t.stop fuel) { r with tokens := ts }
      id rest cs) :
    Reads (blockValue (fuel + 1)) r id rest cs := by
  rw [blockValue]
  refine reads_peek_bind h ?_
  rw [ht]
  exact reads_drop_bind h hf

end

end Reading

end Treeline.Yaml
