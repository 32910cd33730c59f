import Treeline.Proofs.Yaml.Graph.Reading

/-!
# Every shape is read

The tokens that a shape gives are read as its nodes, wherever the shape fits. The proof goes by
recursion on the shape, and the tokens that are left are enough fuel at each step.
-/

namespace Treeline.Yaml

open Reading

mutual

/-- Whether a node of this shape can stand at a place. -/
def Shape.Fits : Place → Shape → Prop
  | _, .scalar _ _ => True
  | _, .flowSequence items => items.Fit .flow
  | _, .flowMapping entries => entries.Fit .flow
  | place, .blockSequence items => place ≠ .flow ∧ items.Fit .block
  | place, .indentless items =>
    place = .blockOrIndentless ∧ items.isNil = false ∧ items.Fit .block
  | place, .blockMapping entries => place ≠ .flow ∧ entries.Fit .blockOrIndentless

def Shapes.Fit : Place → Shapes → Prop
  | _, .nil => True
  | place, .cons item rest => item.Fits place ∧ rest.Fit place

def Entries.Fit : Place → Entries → Prop
  | _, .nil => True
  | place, .cons _ _ value rest => value.Fits place ∧ rest.Fit place

end

theorem Shape.exists_head {v : Shape} {place : Place} (h : v.Fits place) :
    ∃ x more, v.lexemes = x :: more ∧ opensNode x = true ∧
      (x = .blockEntry → place = .blockOrIndentless) := by
  cases v with
  | scalar text isPlain => exact ⟨_, _, rfl, rfl, nofun⟩
  | flowSequence items => exact ⟨_, _, rfl, rfl, nofun⟩
  | flowMapping entries => exact ⟨_, _, rfl, rfl, nofun⟩
  | blockSequence items => exact ⟨_, _, rfl, rfl, nofun⟩
  | blockMapping entries => exact ⟨_, _, rfl, rfl, nofun⟩
  | indentless items =>
    cases items with
    | nil => exact absurd h.2.1 (by decide)
    | cons item rest => exact ⟨.blockEntry, item.lexemes ++ rest.blockLexemes, rfl, rfl, fun _ => h.1⟩

theorem Shape.exists_head_tokens {v : Shape} {place : Place} (h : v.Fits place) {ts : List Token}
    (hts : ts.map Token.lexeme = v.lexemes) :
    ∃ t more, ts = t :: more ∧ opensNode t.lexeme = true ∧
      (t.lexeme = .blockEntry → place = .blockOrIndentless) := by
  obtain ⟨x, more, hv, hopens, hentry⟩ := Shape.exists_head h
  rw [hv] at hts
  obtain ⟨t, us, rfl, rfl, -⟩ := List.map_eq_cons_iff.1 hts
  exact ⟨t, us, rfl, hopens, hentry⟩

/-- No item or entry begins with a token before which it would be left out. -/
theorem isEnd_eq_false {x : Lexeme} (hopens : opensNode x = true) :
    endsMappingKey x = false ∧ endsMappingValue x = false ∧ endsBlockPart x = false ∧
      (x ≠ .blockEntry → endsBlockItem x = false ∧ endsIndentlessItem x = false) := by
  cases x <;> simp_all [opensNode, endsMappingKey, endsMappingValue, endsBlockPart, endsBlockItem,
    endsIndentlessItem]

/-- The tokens of something between two signs stand in front of what is left. -/
theorem exists_bracketed {r : Reader} {ts rest : List Token} {first last : Lexeme}
    {inner : List Lexeme} (h : r.tokens = ts ++ rest)
    (hts : ts.map Token.lexeme = first :: (inner ++ [last])) :
    ∃ t us u, r.tokens = t :: (us ++ u :: rest) ∧ t.lexeme = first ∧
      us.map Token.lexeme = inner ∧ u.lexeme = last ∧ ts.length = us.length + 2 := by
  obtain ⟨t, more, rfl, ht, hmore⟩ := List.map_eq_cons_iff.1 hts
  obtain ⟨us, more, rfl, hus, hmore⟩ := List.map_eq_append_iff.1 hmore
  obtain ⟨u, _, rfl, hu, hnil⟩ := List.map_eq_cons_iff.1 hmore
  cases List.map_eq_nil_iff.1 hnil
  exact ⟨t, us, u, by simpa using h, ht, hus, hu, by simp⟩

/-- The tokens of an entry: the three in front of its value, and those behind them. -/
theorem exists_entry {ts : List Token} {first second third : Lexeme} {value more : List Lexeme}
    (h : ts.map Token.lexeme = first :: second :: third :: (value ++ more)) :
    ∃ t u w as bs, ts = t :: u :: w :: (as ++ bs) ∧ t.lexeme = first ∧ u.lexeme = second ∧
      w.lexeme = third ∧ as.map Token.lexeme = value ∧ bs.map Token.lexeme = more := by
  obtain ⟨t, rest, rfl, ht, h⟩ := List.map_eq_cons_iff.1 h
  obtain ⟨u, rest, rfl, hu, h⟩ := List.map_eq_cons_iff.1 h
  obtain ⟨w, rest, rfl, hw, h⟩ := List.map_eq_cons_iff.1 h
  obtain ⟨as, bs, rfl, has, hbs⟩ := List.map_eq_append_iff.1 h
  exact ⟨t, u, w, as, bs, rfl, ht, hu, hw, has, hbs⟩

namespace Reading

variable {r : Reader} {t : Token} {ts rest : List Token} {place : Place} {fuel : Nat}
  {cs : List Content}

theorem reads_scalar {text : String} {isPlain : Bool} (h : r.tokens = t :: rest)
    (ht : t.lexeme = .scalar text isPlain) :
    Reads (node place (fuel + 1)) r r.nodes.size rest [.scalar text] := by
  refine reads_node h (by rw [ht]; rfl) ?_
  rw [ht]
  exact reads_drop_bind h (reads_add _ rfl)

theorem reads_flowSequence {ids : List Nat} (h : r.tokens = t :: ts)
    (ht : t.lexeme = .flowSequenceStart)
    (hx : Reads (flowItems t.start true fuel) { r with
      tokens := ts, nodes := r.nodes.push ⟨Tag.list, t.start, .sequence []⟩ } ids rest cs) :
    Reads (node place (fuel + 1)) r r.nodes.size rest (.sequence ids :: cs) := by
  refine reads_node h (by rw [ht]; rfl) ?_
  rw [ht]
  exact reads_collection _ hx h

theorem reads_flowMapping {pairs : List (Nat × Nat)} (h : r.tokens = t :: ts)
    (ht : t.lexeme = .flowMappingStart)
    (hx : Reads (flowEntries t.start true fuel) { r with
      tokens := ts, nodes := r.nodes.push ⟨Tag.dict, t.start, .mapping []⟩ } pairs rest cs) :
    Reads (node place (fuel + 1)) r r.nodes.size rest (.mapping pairs :: cs) := by
  refine reads_node h (by rw [ht]; rfl) ?_
  rw [ht]
  exact reads_collection _ hx h

theorem reads_blockSequence {ids : List Nat} (hplace : place ≠ .flow) (h : r.tokens = t :: ts)
    (ht : t.lexeme = .blockSequenceStart)
    (hx : Reads (blockItems t.start fuel) { r with
      tokens := ts, nodes := r.nodes.push ⟨Tag.list, t.start, .sequence []⟩ } ids rest cs) :
    Reads (node place (fuel + 1)) r r.nodes.size rest (.sequence ids :: cs) := by
  refine reads_node h (by rw [ht]; rfl) ?_
  rw [ht]
  cases place with
  | flow => exact absurd rfl hplace
  | block => exact reads_collection _ hx h
  | blockOrIndentless => exact reads_collection _ hx h

theorem reads_blockMapping {pairs : List (Nat × Nat)} (hplace : place ≠ .flow)
    (h : r.tokens = t :: ts) (ht : t.lexeme = .blockMappingStart)
    (hx : Reads (blockEntries t.start fuel) { r with
      tokens := ts, nodes := r.nodes.push ⟨Tag.dict, t.start, .mapping []⟩ } pairs rest cs) :
    Reads (node place (fuel + 1)) r r.nodes.size rest (.mapping pairs :: cs) := by
  refine reads_node h (by rw [ht]; rfl) ?_
  rw [ht]
  cases place with
  | flow => exact absurd rfl hplace
  | block => exact reads_collection _ hx h
  | blockOrIndentless => exact reads_collection _ hx h

theorem reads_indentlessSequence {ids : List Nat} (h : r.tokens = t :: ts)
    (ht : t.lexeme = .blockEntry)
    (hx : Reads (indentlessItems fuel) { r with
      nodes := r.nodes.push ⟨Tag.list, t.start, .sequence []⟩ } ids rest cs) :
    Reads (node .blockOrIndentless (fuel + 1)) r r.nodes.size rest (.sequence ids :: cs) := by
  refine reads_node h (by rw [ht]; rfl) ?_
  rw [ht]
  exact reads_indentless _ hx

end Reading

theorem isLead_first (isNil : Bool) :
    if isNil then ([] : List Token) = [] else IsLead true [] := by
  cases isNil <;> rfl

theorem isLead_comma {items : Shapes} {ts : List Token} (h : ts.map Token.lexeme = items.comma) :
    if items.isNil then ts = [] else IsLead false ts := by
  cases items with
  | nil => exact List.map_eq_nil_iff.1 h
  | cons item rest =>
    obtain ⟨t, _, rfl, ht, hnil⟩ := List.map_eq_cons_iff.1 h
    cases List.map_eq_nil_iff.1 hnil
    exact ⟨t, rfl, ht⟩

theorem isLead_comma_entries {entries : Entries} {ts : List Token}
    (h : ts.map Token.lexeme = entries.comma) :
    if entries.isNil then ts = [] else IsLead false ts := by
  cases entries with
  | nil => exact List.map_eq_nil_iff.1 h
  | cons key isPlain value rest =>
    obtain ⟨t, _, rfl, ht, hnil⟩ := List.map_eq_cons_iff.1 h
    cases List.map_eq_nil_iff.1 hnil
    exact ⟨t, rfl, ht⟩

mutual

/-- The tokens of a shape are read as its nodes. -/
theorem Shape.reads (v : Shape) {place : Place} (hfits : v.Fits place) {r : Reader}
    {ts rest : List Token} (h : r.tokens = ts ++ rest) (hts : ts.map Token.lexeme = v.lexemes)
    (hrest : place = .blockOrIndentless → ∃ t more, rest = t :: more ∧ t.lexeme ≠ .blockEntry)
    {fuel : Nat} (hfuel : 4 * ts.length ≤ fuel) :
    Reads (node place fuel) r r.nodes.size rest (v.contents r.nodes.size) := by
  obtain ⟨t, us, heq, -⟩ := Shape.exists_head_tokens hfits hts
  have hpos : 0 < ts.length := by
    rw [heq]
    exact Nat.succ_pos _
  obtain ⟨fuel, rfl⟩ := Nat.exists_eq_succ_of_ne_zero (show fuel ≠ 0 by omega)
  have hpush : ∀ n : Node, (r.nodes.push n).size = r.nodes.size + 1 := fun n => Array.size_push n
  cases v with
  | scalar text isPlain =>
    subst heq
    obtain ⟨ht, hus⟩ := List.cons.inj hts
    cases List.map_eq_nil_iff.1 hus
    exact reads_scalar h ht
  | flowSequence items =>
    obtain ⟨t, us, u, h, ht, hus, hu, hlength⟩ := exists_bracketed h hts
    refine reads_flowSequence h ht ?_
    rw [← hpush]
    exact items.reads_flow hfits (isLead_first items.isNil) rfl hus hu (by omega)
  | flowMapping entries =>
    obtain ⟨t, us, u, h, ht, hus, hu, hlength⟩ := exists_bracketed h hts
    refine reads_flowMapping h ht ?_
    rw [← hpush]
    exact entries.reads_flow hfits (isLead_first entries.isNil) rfl hus hu (by omega)
  | blockSequence items =>
    obtain ⟨t, us, u, h, ht, hus, hu, hlength⟩ := exists_bracketed h hts
    refine reads_blockSequence hfits.1 h ht ?_
    rw [← hpush]
    exact items.reads_block hfits.2 rfl hus hu (by omega)
  | indentless items =>
    subst heq
    obtain ⟨rfl, -, hitems⟩ := hfits
    obtain ⟨u, more, rfl, hu⟩ := hrest rfl
    have ht : t.lexeme = .blockEntry := by
      cases items with
      | nil => cases hts
      | cons item more => exact (List.cons.inj hts).1
    -- the sequence has no token of its own, so the first dash is read once more as that of an item
    refine reads_indentlessSequence h ht ?_
    rw [← hpush]
    exact items.reads_indentless (r := { r with nodes := r.nodes.push _ }) hitems h hts hu
      (by omega)
  | blockMapping entries =>
    obtain ⟨t, us, u, h, ht, hus, hu, hlength⟩ := exists_bracketed h hts
    refine reads_blockMapping hfits.1 h ht ?_
    rw [← hpush]
    exact entries.reads_block hfits.2 rfl hus hu (by omega)

/-- The items in square brackets are read up to the closing one. -/
theorem Shapes.reads_flow (items : Shapes) (hfits : items.Fit .flow) {isFirst : Bool}
    {lead ts rest : List Token} {u : Token} {r : Reader}
    (hlead : if items.isNil then lead = [] else IsLead isFirst lead)
    (h : r.tokens = lead ++ (ts ++ u :: rest)) (hts : ts.map Token.lexeme = items.flowLexemes)
    (hu : u.lexeme = .flowSequenceEnd) {start : Mark} {fuel : Nat}
    (hfuel : 4 * ts.length + 1 ≤ fuel) :
    Reads (flowItems start isFirst fuel) r (items.numbers r.nodes.size) rest
      (items.contents r.nodes.size) := by
  obtain ⟨fuel, rfl⟩ := Nat.exists_eq_succ_of_ne_zero (show fuel ≠ 0 by omega)
  cases items with
  | nil =>
    cases (show lead = [] from hlead)
    cases List.map_eq_nil_iff.1 hts
    exact reads_flowItems_end h hu
  | cons item more =>
    obtain ⟨as, others, rfl, has, hothers⟩ := List.map_eq_append_iff.1 hts
    obtain ⟨bs, cs, rfl, hbs, hcs⟩ := List.map_eq_append_iff.1 hothers
    obtain ⟨t, as, rfl, hopens, -⟩ := Shape.exists_head_tokens hfits.1 has
    simp only [List.length_append, List.length_cons] at hfuel
    simp only [List.append_assoc, List.cons_append] at h
    refine reads_flowItems_next hlead h hopens ?_
    refine (item.reads hfits.1 rfl has nofun (by rw [List.length_cons]; omega)).cons ?_
    intro nodes hnodes
    rw [item.length_contents] at hnodes
    rw [← hnodes]
    exact more.reads_flow hfits.2 (isLead_comma hbs) rfl hcs hu (by omega)

theorem Entries.reads_flow (entries : Entries) (hfits : entries.Fit .flow) {isFirst : Bool}
    {lead ts rest : List Token} {u : Token} {r : Reader}
    (hlead : if entries.isNil then lead = [] else IsLead isFirst lead)
    (h : r.tokens = lead ++ (ts ++ u :: rest)) (hts : ts.map Token.lexeme = entries.flowLexemes)
    (hu : u.lexeme = .flowMappingEnd) {start : Mark} {fuel : Nat}
    (hfuel : 4 * ts.length + 1 ≤ fuel) :
    Reads (flowEntries start isFirst fuel) r (entries.numbers r.nodes.size) rest
      (entries.contents r.nodes.size) := by
  obtain ⟨fuel, rfl⟩ := Nat.exists_eq_succ_of_ne_zero (show fuel ≠ 0 by omega)
  cases entries with
  | nil =>
    cases (show lead = [] from hlead)
    cases List.map_eq_nil_iff.1 hts
    exact reads_flowEntries_end h hu
  | cons key isPlain value more =>
    obtain ⟨k, x, v, as, others, rfl, hk, hx, hv, has, hothers⟩ := exists_entry hts
    obtain ⟨bs, cs, rfl, hbs, hcs⟩ := List.map_eq_append_iff.1 hothers
    simp only [List.length_append, List.length_cons] at hfuel
    simp only [List.append_assoc, List.cons_append] at h
    obtain ⟨fuel, rfl⟩ := Nat.exists_eq_add_of_le' (show 2 ≤ fuel by omega)
    obtain ⟨a, as', rfl, hopens, -⟩ := Shape.exists_head_tokens hfits.1 has
    refine reads_flowEntries_next hlead h hk ?_
    refine (reads_nodeUnless rfl (by rw [hx]; rfl) (reads_scalar rfl hx)).consEntry
      (bs ++ (cs ++ u :: rest)) ?_ ?_
    · intro nodes hnodes
      refine reads_flowValue rfl hv (reads_nodeUnless rfl (isEnd_eq_false hopens).2.1 ?_)
      have hsize : nodes.size = r.nodes.size + 1 := hnodes
      rw [← hsize]
      exact value.reads hfits.1 rfl has nofun (by omega)
    · intro nodes hnodes
      have hsize : nodes.size = r.nodes.size + 1 + value.count := by
        rw [value.length_contents] at hnodes
        exact hnodes
      rw [← hsize]
      exact more.reads_flow hfits.2 (isLead_comma_entries hbs) rfl hcs hu (by omega)

theorem Shapes.reads_block (items : Shapes) (hfits : items.Fit .block) {ts rest : List Token}
    {u : Token} {r : Reader} (h : r.tokens = ts ++ u :: rest)
    (hts : ts.map Token.lexeme = items.blockLexemes) (hu : u.lexeme = .blockEnd) {start : Mark}
    {fuel : Nat} (hfuel : 4 * ts.length + 1 ≤ fuel) :
    Reads (blockItems start fuel) r (items.numbers r.nodes.size) rest
      (items.contents r.nodes.size) := by
  obtain ⟨fuel, rfl⟩ := Nat.exists_eq_succ_of_ne_zero (show fuel ≠ 0 by omega)
  cases items with
  | nil =>
    cases List.map_eq_nil_iff.1 hts
    exact reads_blockItems_end h hu
  | cons item more =>
    obtain ⟨e, others, rfl, he, hothers⟩ := List.map_eq_cons_iff.1 hts
    obtain ⟨as, cs, rfl, has, hcs⟩ := List.map_eq_append_iff.1 hothers
    obtain ⟨t, as, rfl, hopens, hentry⟩ := Shape.exists_head_tokens hfits.1 has
    simp only [List.length_append, List.length_cons] at hfuel
    simp only [List.append_assoc, List.cons_append] at h
    obtain ⟨fuel, rfl⟩ := Nat.exists_eq_succ_of_ne_zero (show fuel ≠ 0 by omega)
    have hend := (isEnd_eq_false hopens).2.2.2 fun heq => absurd (hentry heq) (by decide)
    refine reads_blockItems_next h he ?_
    refine (reads_nodeUnless rfl hend.1
      (item.reads hfits.1 rfl has nofun (by rw [List.length_cons]; omega))).cons ?_
    intro nodes hnodes
    rw [item.length_contents] at hnodes
    rw [← hnodes]
    exact more.reads_block hfits.2 rfl hcs hu (by omega)

theorem Shapes.reads_indentless (items : Shapes) (hfits : items.Fit .block) {ts rest : List Token}
    {u : Token} {r : Reader} (h : r.tokens = ts ++ u :: rest)
    (hts : ts.map Token.lexeme = items.blockLexemes) (hu : u.lexeme ≠ .blockEntry) {fuel : Nat}
    (hfuel : 4 * ts.length ≤ fuel + 2) :
    Reads (indentlessItems fuel) r (items.numbers r.nodes.size) (u :: rest)
      (items.contents r.nodes.size) := by
  cases items with
  | nil =>
    cases List.map_eq_nil_iff.1 hts
    cases fuel with
    | zero => exact reads_pure [] h
    | succ fuel => exact reads_indentlessItems_end h hu
  | cons item more =>
    obtain ⟨e, others, rfl, he, hothers⟩ := List.map_eq_cons_iff.1 hts
    obtain ⟨as, cs, rfl, has, hcs⟩ := List.map_eq_append_iff.1 hothers
    obtain ⟨t, as, rfl, hopens, hentry⟩ := Shape.exists_head_tokens hfits.1 has
    simp only [List.length_append, List.length_cons] at hfuel
    simp only [List.append_assoc, List.cons_append] at h
    obtain ⟨fuel, rfl⟩ := Nat.exists_eq_add_of_le' (show 2 ≤ fuel by omega)
    have hend := (isEnd_eq_false hopens).2.2.2 fun heq => absurd (hentry heq) (by decide)
    refine reads_indentlessItems_next h he ?_
    refine (reads_nodeUnless rfl hend.2
      (item.reads hfits.1 rfl has nofun (by rw [List.length_cons]; omega))).cons ?_
    intro nodes hnodes
    rw [item.length_contents] at hnodes
    rw [← hnodes]
    exact more.reads_indentless hfits.2 rfl hcs hu (by omega)

theorem Entries.reads_block (entries : Entries) (hfits : entries.Fit .blockOrIndentless)
    {ts rest : List Token} {u : Token} {r : Reader} (h : r.tokens = ts ++ u :: rest)
    (hts : ts.map Token.lexeme = entries.blockLexemes) (hu : u.lexeme = .blockEnd) {start : Mark}
    {fuel : Nat} (hfuel : 4 * ts.length + 1 ≤ fuel) :
    Reads (blockEntries start fuel) r (entries.numbers r.nodes.size) rest
      (entries.contents r.nodes.size) := by
  obtain ⟨fuel, rfl⟩ := Nat.exists_eq_succ_of_ne_zero (show fuel ≠ 0 by omega)
  cases entries with
  | nil =>
    cases List.map_eq_nil_iff.1 hts
    exact reads_blockEntries_end h hu
  | cons key isPlain value more =>
    obtain ⟨k, x, v, as, cs, rfl, hk, hx, hv, has, hcs⟩ := exists_entry hts
    simp only [List.length_append, List.length_cons] at hfuel
    simp only [List.append_assoc, List.cons_append] at h
    obtain ⟨fuel, rfl⟩ := Nat.exists_eq_add_of_le' (show 2 ≤ fuel by omega)
    obtain ⟨a, as', rfl, hopens, -⟩ := Shape.exists_head_tokens hfits.1 has
    have hnext : ∃ t tokens, cs ++ u :: rest = t :: tokens ∧ t.lexeme ≠ .blockEntry := by
      cases more with
      | nil =>
        cases List.map_eq_nil_iff.1 hcs
        exact ⟨u, rest, rfl, by rw [hu]; nofun⟩
      | cons key isPlain value more =>
        obtain ⟨t, tokens, rfl, ht, -⟩ := List.map_eq_cons_iff.1 hcs
        exact ⟨t, tokens ++ u :: rest, rfl, by rw [ht]; nofun⟩
    refine reads_blockEntries_next h hk ?_
    refine (reads_nodeUnless rfl (by rw [hx]; rfl) (reads_scalar rfl hx)).consEntry
      (cs ++ u :: rest) ?_ ?_
    · intro nodes hnodes
      refine reads_blockValue rfl hv (reads_nodeUnless rfl (isEnd_eq_false hopens).2.2.1 ?_)
      have hsize : nodes.size = r.nodes.size + 1 := hnodes
      rw [← hsize]
      exact value.reads hfits.1 rfl has (fun _ => hnext) (by omega)
    · intro nodes hnodes
      have hsize : nodes.size = r.nodes.size + 1 + value.count := by
        rw [value.length_contents] at hnodes
        exact hnodes
      rw [← hsize]
      exact more.reads_block hfits.2 rfl hcs hu (by omega)

end

/-! ### Documents -/

theorem startsBare_of_opensNode {x : Lexeme} (h : opensNode x = true) : startsBare x = true := by
  cases x <;> simp_all [opensNode, startsBare]

/-- What may stand behind a bare document that is the only one: its end, and the end of the text. -/
def IsTail (ls : List Lexeme) : Prop := ls = [.streamEnd] ∨ ls = [.documentEnd, .streamEnd]

namespace Reading

variable {r : Reader} {t : Token} {rest : List Token}

/-- At the end of the text there are no more documents. -/
theorem run_explicitDocuments {fuel : Nat} (h : r.tokens = [t]) (ht : t.lexeme = .streamEnd) :
    (explicitDocuments (fuel + 1)).run r = .ok ([], r) := by
  have hskip : (skipDocumentEnds r.fuel).run r = .ok ((), r) := by
    obtain ⟨n, hn⟩ : ∃ n, r.fuel = n + 1 := ⟨4 * r.tokens.length + 7, rfl⟩
    rw [hn, skipDocumentEnds, run_bind_of_run (run_peek h), ht]
    rfl
  have hget : (get : Reading Reader).run r = .ok (r, r) := rfl
  have hstart : documentStart.run r = .ok (none, r) := by
    rw [documentStart, run_bind_of_run hget, run_bind_of_run hskip, run_bind_of_run (run_peek h),
      if_pos ht]
    rfl
  rw [explicitDocuments, run_bind_of_run hstart]
  rfl

/-- A document is a node, and the sign that may end it is passed over. -/
theorem run_documentNode {id : Nat} {cs : List Content} (h : r.tokens = t :: rest) {ts : List Token}
    (hts : IsTail (ts.map Token.lexeme))
    (hnode : Reads (node .block r.fuel) { r with nodes := #[], anchors := [] } id ts cs) :
    ∃ nodes u, (documentNode false).run r =
        .ok (⟨nodes, id⟩, { r with tokens := [u], nodes := nodes, anchors := [] }) ∧
      nodes.toList.map Node.content = cs ∧ u.lexeme = .streamEnd := by
  obtain ⟨nodes, hrun, hnodes⟩ := hnode
  have hcontents : nodes.toList.map Node.content = cs := hnodes
  have hnext : ∃ u, (do
      if (← peek).lexeme = .documentEnd then drop
      return ⟨(← get).nodes, id⟩ : Reading Graph).run
        { r with tokens := ts, nodes := nodes, anchors := [] } =
          .ok (⟨nodes, id⟩, { r with tokens := [u], nodes := nodes, anchors := [] }) ∧
      u.lexeme = .streamEnd := by
    rcases hts with hts | hts
    · obtain ⟨u, _, rfl, hu, hnil⟩ := List.map_eq_cons_iff.1 hts
      cases List.map_eq_nil_iff.1 hnil
      refine ⟨u, ?_, hu⟩
      rw [run_bind_of_run (run_peek rfl), hu]
      rfl
    · obtain ⟨d, _, rfl, hd, hts⟩ := List.map_eq_cons_iff.1 hts
      obtain ⟨u, _, rfl, hu, hnil⟩ := List.map_eq_cons_iff.1 hts
      cases List.map_eq_nil_iff.1 hnil
      refine ⟨u, ?_, hu⟩
      rw [run_bind_of_run (run_peek rfl), hd]
      rfl
  obtain ⟨u, hlast, hu⟩ := hnext
  refine ⟨nodes, u, ?_, hcontents, hu⟩
  have hget : (get : Reading Reader).run { r with nodes := #[], anchors := [] } =
      .ok ({ r with nodes := #[], anchors := [] }, { r with nodes := #[], anchors := [] }) := rfl
  have hclear : (modify fun r => { r with nodes := #[], anchors := [] } : Reading Unit).run r =
      .ok ((), { r with nodes := #[], anchors := [] }) := rfl
  have hpeek : peek.run { r with nodes := #[], anchors := [] } =
      .ok (t, { r with nodes := #[], anchors := [] }) := run_peek h
  rw [documentNode, run_bind_of_run hclear, run_bind_of_run hpeek, Bool.false_and,
    if_neg (by decide), run_bind_of_run hget]
  change (node .block (Reader.fuel { r with nodes := #[], anchors := [] })).run _ = _ at hrun
  rw [run_bind_of_run hrun]
  exact hlast

end Reading

/-- A text with the tokens of one shape is one document, which holds the contents of the shape. -/
theorem ofText_eq_of_shape {text : List Char} {v : Shape} {tokens : List Token}
    {tail : List Lexeme} (hv : v.Fits .block) (hstream : TokenStream.ofText text = ⟨tokens, none⟩)
    (htokens : tokens.map Token.lexeme = v.lexemes ++ tail) (htail : IsTail tail) :
    ∃ nodes, Graph.ofText text = .ok [⟨nodes, 0⟩] ∧
      nodes.toList.map Node.content = v.contents 0 := by
  obtain ⟨ts, rest, rfl, hts, hrest⟩ := List.map_eq_append_iff.1 htokens
  obtain ⟨t, us, rfl, hopens, -⟩ := Shape.exists_head_tokens hv hts
  generalize hr : Reader.ofTokens ⟨t :: us ++ rest, none⟩ = r
  have htokens : r.tokens = t :: (us ++ rest) := by
    rw [← hr]
    rfl
  have hreads : Reads (node .block r.fuel) { r with nodes := #[], anchors := [] } 0 rest
      (v.contents 0) := by
    refine v.reads (r := { r with nodes := #[], anchors := [] }) hv htokens hts nofun ?_
    rw [Reader.fuel, htokens]
    simp only [List.length_cons, List.length_append]
    omega
  obtain ⟨nodes, u, hdocument, hnodes, hu⟩ := run_documentNode htokens (hrest ▸ htail) hreads
  refine ⟨nodes, ?_, hnodes⟩
  have hget : (get : Reading Reader).run r = .ok (r, r) := rfl
  have hlast : (explicitDocuments r.fuel).run
      { r with tokens := [u], nodes := nodes, anchors := [] } =
        .ok ([], { r with tokens := [u], nodes := nodes, anchors := [] }) :=
    run_explicitDocuments rfl hu
  have hrun : Reading.documents.run r =
      .ok ([⟨nodes, 0⟩], { r with tokens := [u], nodes := nodes, anchors := [] }) := by
    rw [Reading.documents, run_bind_of_run hget, run_bind_of_run (run_peek htokens),
      startsBare_of_opensNode hopens, if_pos rfl, run_bind_of_run hdocument,
      run_bind_of_run hlast]
    rfl
  rw [Graph.ofText, hstream, hr, hrun]
  rfl

end Treeline.Yaml
