import Treeline.Proofs.Yaml.Scan.Between

/-!
# In front of a token

A state faces a token if the gap in front of the token and the ends of the block collections that
are over are all that lies between. Reading the token leads to a state behind it, and from there the
next token is faced, at a column that follows from the gap.
-/

namespace Treeline.Yaml.Scan

variable {s : Scan} {column depth : Nat} {indents : List Nat} {ls : List Lexeme}
  {ahead : List Char}

/-- A state in front of a token: its column, and what is known there once the block collections
that are over have ended. -/
structure Facing (s : Scan) (column : Nat) (indents : List Nat) (depth : Nat) (ls : List Lexeme)
    (ahead : List Char) : Prop where
  within : s.ready.Within indents depth ls ahead
  loose : s.settle.Loose
  going : s.isDone = false
  length : ahead.length ≤ s.cursor.rest.length
  rest : s.ready.cursor.rest = ahead
  column : s.ready.cursor.column = column

/-- The ends of the block collections that are deeper than a column. -/
def blockEnds (column : Nat) (indents : List Nat) : List Lexeme :=
  List.replicate (indents.takeWhile (column < ·)).length .blockEnd

theorem Within.length_ahead (h : s.Within indents depth ls ahead) :
    ahead.length ≤ s.cursor.rest.length := by
  obtain ⟨-, gap, -, hrest⟩ := h.ahead
  rw [hrest, List.length_append]
  omega

theorem Within.facing_flat (h : s.Within indents depth ls ahead)
    (hflat : 0 < depth ∨ indents = []) :
    s.Facing s.ready.cursor.column indents depth ls ahead :=
  ⟨(h.ready hflat).1, h.settle.1.loose, h.going, h.length_ahead, (h.ready hflat).2.1, rfl⟩

theorem Within.facing {gap : List Char} (h : s.Within indents 0 ls ahead)
    (hcursor : s.cursor.rest = gap ++ ahead) (hgap : ∀ x ∈ gap, isGap x = true)
    (hcolumn : (s.cursor.mark.past gap ahead).column = column) :
    s.Facing column (indents.dropWhile (column < ·)) 0 (ls ++ blockEnds column indents) ahead ∧
      s.ready.keyAllowed = (s.keyAllowed || gap.any isBreak) := by
  obtain ⟨hcursor', hallowed⟩ := ready_cursor s
  have hsettle := settle_eq hcursor hgap h.ahead.1
  have hflow : s.inFlow = false := by
    rw [h.inFlow]
    simp
  have hplace : s.ready.cursor.column = column := by
    rw [hcursor', hsettle]
    exact hcolumn
  obtain ⟨hready, hrest⟩ := h.ready_unwound
  rw [hplace] at hready
  refine ⟨⟨hready, h.settle.1.loose, h.going, h.length_ahead, hrest, hplace⟩, ?_⟩
  rw [hallowed, hsettle, hflow]
  simp

theorem Within.facing_spaces {count : Nat} (h : s.Within indents 0 ls ahead)
    (hcursor : s.cursor.rest = List.replicate count ' ' ++ ahead)
    (hcolumn : ∀ i ∈ indents.head?, i ≤ s.cursor.column + count) :
    s.Facing (s.cursor.column + count) indents 0 ls ahead ∧
      s.ready.keyAllowed = s.keyAllowed := by
  have hspaces : ∀ x ∈ List.replicate count ' ', x = ' ' := fun x hx => List.eq_of_mem_replicate hx
  have hpast : (s.cursor.mark.past (List.replicate count ' ') ahead).column =
      s.cursor.column + count := by
    rw [Mark.column_past, List.length_replicate]
    · rfl
    · intro x hx
      rw [hspaces x hx]
      exact ⟨by decide, by decide⟩
  obtain ⟨hfacing, hallowed⟩ := h.facing hcursor (fun x hx => by rw [hspaces x hx]; decide) hpast
  have hnone : (List.replicate count ' ').any isBreak = false := by
    rw [List.any_eq_false]
    intro x hx
    rw [hspaces x hx]
    decide
  rw [hnone, Bool.or_false] at hallowed
  refine ⟨?_, hallowed⟩
  cases indents with
  | nil => simpa [blockEnds] using hfacing
  | cons i indents =>
    have hi : ¬ s.cursor.column + count < i := Nat.not_lt.2 (hcolumn i rfl)
    simpa [blockEnds, hi] using hfacing

theorem Within.facing_line (h : s.Within indents 0 ls ahead)
    (hcursor : s.cursor.rest = '\n' :: (List.replicate column ' ' ++ ahead)) :
    s.Facing column (indents.dropWhile (column < ·)) 0 (ls ++ blockEnds column indents) ahead ∧
      s.ready.keyAllowed = true := by
  have hpast : (s.cursor.mark.past ('\n' :: List.replicate column ' ') ahead).column = column := by
    rw [Mark.past_cons, Mark.next_lineFeed, Mark.column_past, List.length_replicate, Nat.zero_add]
    intro x hx
    rw [List.eq_of_mem_replicate hx]
    exact ⟨by decide, by decide⟩
  have hgap : ∀ x ∈ '\n' :: List.replicate column ' ', isGap x = true := by
    refine List.forall_mem_cons.2 ⟨by decide, ?_⟩
    intro x hx
    rw [List.eq_of_mem_replicate hx]
    decide
  obtain ⟨hfacing, hallowed⟩ := h.facing hcursor hgap hpast
  have hbreak : isBreak '\n' = true := by decide
  exact ⟨hfacing, by rw [hallowed, List.any_cons, hbreak, Bool.true_or, Bool.or_true]⟩

theorem Facing.isRequired_eq_false (h : s.Facing column indents depth ls ahead)
    (hfree : 0 < depth ∨ indents.head? ≠ some column) : s.ready.nextKey.isRequired = false := by
  rw [nextKey, h.within.inFlow, h.within.indents, h.column]
  rcases hfree with hpos | hne
  · simp [hpos]
  · simp [hne]

theorem keys_ready (s : Scan) : s.ready.keys = s.keys.filter fun k => !s.settle.isStale k := by
  have hkeys : s.ready.keys = s.settle.refresh.keys := by
    rw [Scan.ready, unwind]
    split
    · rfl
    · rw [unwindTo_eq]
      rfl
  rw [hkeys, keys_refresh]
  rfl

/-- In front of a token, all possible keys stand on its line. -/
theorem line_of_ready {k : PossibleKey} (hk : k ∈ s.ready.keys) :
    k.mark.line = s.ready.cursor.mark.line := by
  rw [keys_ready, List.mem_filter] at hk
  have hline : k.mark.line = s.settle.cursor.mark.line := by
    have hstale := hk.2
    simp only [isStale, Bool.not_eq_true', Bool.or_eq_false_iff, decide_eq_false_iff_not, ne_eq,
      not_not] at hstale
    exact hstale.1
  rw [hline, (ready_cursor s).1]

theorem line_of_keysOf {key : Option PossibleKey}
    (hkey : ∀ k, key = some k → k = s.ready.nextKey ∨ k ∈ s.ready.keys) :
    ∀ k ∈ keysOf s.ready.outer key, k.mark.line = s.ready.cursor.mark.line := by
  intro k hk
  rcases mem_keysOf.1 hk with hk | hk
  · exact line_of_ready (mem_keysOf.2 (.inl hk))
  · rcases hkey k hk.symm with rfl | hk
    · rfl
    · exact line_of_ready hk

/-- A token that is read in front leads to the state behind it. -/
theorem Facing.leads {read : Scan} {indents' : List Nat} {depth' : Nat} {ls' : List Lexeme}
    {ahead' : List Char} (h : s.Facing column indents depth ls ahead)
    (hread : s.ready.readToken = .ok read) (hafter : read.Within indents' depth' ls' ahead')
    (hshort : read.cursor.rest.length < ahead.length) :
    ∃ t, Leads s t ∧ t.Within indents' depth' ls' ahead' ∧ t.cursor = read.cursor ∧
      t.keyAllowed = read.keyAllowed ∧ t.keys ⊆ read.keys := by
  refine ⟨read.refresh.release, ?_, hafter.refresh.release, rfl, rfl, ?_⟩
  · refine .single h.going (step_eq_ok h.loose hread hafter.loose) ?_
    change read.cursor.rest.length < _
    exact Nat.lt_of_lt_of_le hshort h.length
  · change read.refresh.keys ⊆ _
    rw [keys_refresh]
    exact List.filter_subset_self _

/-- At the end of the text the block collections end, and then the tokens. -/
theorem Facing.run_end (h : s.Facing column indents 0 ls []) {fuel : Nat} (hfuel : 2 ≤ fuel) :
    ∃ tokens, run fuel s = ⟨tokens, none⟩ ∧
      tokens.map Token.lexeme =
        ls ++ List.replicate indents.length .blockEnd ++ [.streamEnd] := by
  obtain ⟨fuel, rfl⟩ := Nat.exists_eq_add_of_le' hfuel
  obtain ⟨last, hread, hdone, hkeys, hlexemes⟩ := h.within.readEnd h.rest
  have hloose : last.Loose := by
    intro k hk
    rw [hkeys] at hk
    cases hk
  have hreleased : last.refresh.release.held = [] := by
    have hnone : (last.refresh.outer.reverse ++ [last.refresh.key]).findSome? id = none := by
      rw [findSome?_id]
      change last.refresh.keys.head? = none
      rw [keys_refresh, hkeys]
      rfl
    simp [Scan.release, hnone]
  have htokens := tokens_release last.refresh
  rw [tokens, hreleased, List.append_nil] at htokens
  refine ⟨last.refresh.tokens, ?_, hlexemes⟩
  have hstop : last.refresh.release.isDone = true := hdone
  rw [run, h.going, step_eq_ok h.loose hread hloose]
  simp only [Bool.false_eq_true, if_false]
  rw [run, if_pos hstop, htokens]

/-- Where steps lead from the start of a text to its end, they have read all tokens but the last. -/
theorem Facing.exists_tokens {text : List Char} (h : s.Facing column indents 0 ls [])
    (hleads : Leads (ofText text) s) :
    ∃ tokens, TokenStream.ofText text = ⟨tokens, none⟩ ∧
      tokens.map Token.lexeme =
        ls ++ List.replicate indents.length .blockEnd ++ [.streamEnd] := by
  obtain ⟨fuel, hfuel, hrun⟩ := run_of_leads hleads
    (show (ofText text).cursor.rest.length + 2 ≤ text.length + 2 from Nat.le_refl _)
  obtain ⟨tokens, hlast, hlexemes⟩ := h.run_end (show 2 ≤ fuel by omega)
  exact ⟨tokens, by rw [TokenStream.ofText, hrun, hlast], hlexemes⟩

/-! ### Signs -/

section

variable {x : Char} {gap rest : List Char} {lexeme : Lexeme}

theorem Facing.leads_sign {t : Scan} {indents' : List Nat} {depth' : Nat} {ls' : List Lexeme}
    (h : s.Facing column indents depth ls (x :: (gap ++ rest)))
    (ht : t.Within indents' depth' ls' (x :: (gap ++ rest)))
    (hread : s.ready.readToken = .ok (t.pushSign lexeme 1)) (hcursor : t.cursor = s.ready.cursor)
    (hgap : ∀ x ∈ gap, isGap x = true) (hrest : startsToken rest) :
    ∃ u, Leads s u ∧ u.Within indents' depth' (ls' ++ [lexeme]) rest ∧
      u.cursor = s.ready.cursor.next ∧ u.keyAllowed = t.keyAllowed ∧ u.keys ⊆ t.keys := by
  obtain ⟨-, hnext⟩ := Cursor.passes_next h.rest
  have hpush : (t.pushSign lexeme 1).Within indents' depth' (ls' ++ [lexeme]) rest := by
    refine ht.push ⟨lexeme, t.cursor.mark, (t.cursor.skip 1).mark⟩ (ahead_of_rest hrest hgap ?_)
    rw [hcursor]
    exact hnext
  have hplace : (t.pushSign lexeme 1).cursor = s.ready.cursor.next := by
    rw [← hcursor]
    rfl
  obtain ⟨u, hleads, hu, hucursor, hrest⟩ := h.leads hread hpush (by
    rw [hplace, hnext]
    simp)
  exact ⟨u, hleads, hu, hucursor.trans hplace, hrest⟩

theorem Facing.opening (h : s.Facing column indents depth ls (x :: (gap ++ rest)))
    (hx : x = '[' ∧ lexeme = .flowSequenceStart ∨ x = '\x7b' ∧ lexeme = .flowMappingStart)
    (hfree : 0 < depth ∨ indents.head? ≠ some column) (hgap : ∀ x ∈ gap, isGap x = true)
    (hrest : startsToken rest) :
    ∃ t, Leads s t ∧ t.Within indents (depth + 1) (ls ++ [lexeme]) rest ∧
      t.cursor = s.ready.cursor.next ∧ t.keyAllowed = true ∧
      ∀ k ∈ t.keys, k.mark.line = s.ready.cursor.mark.line := by
  obtain ⟨key, hsave, hsaved, hkey⟩ := h.within.saveKey (h.isRequired_eq_false hfree)
  have hkeys : (keysOf (key :: s.ready.outer) none).Sublist (keysOf s.ready.outer key) := by
    rw [keysOf_cons_none]
  have hopened : { s.ready with
      outer := key :: s.ready.outer, key := none, keyAllowed := true : Scan }.Within
        indents (depth + 1) ls (x :: (gap ++ rest)) :=
    hsaved.rekey rfl rfl rfl rfl rfl rfl hkeys (congrArg Nat.succ h.within.depth)
  have hread : s.ready.readToken = .ok ({ s.ready with
      outer := key :: s.ready.outer, key := none, keyAllowed := true : Scan }.pushSign
        lexeme 1) := by
    rw [readToken_opening h.rest hx, readOpening, hsave]
    rfl
  obtain ⟨t, hleads, hwithin, hcursor, hallowed, hsubset⟩ :=
    h.leads_sign hopened hread rfl hgap hrest
  refine ⟨t, hleads, hwithin, hcursor, hallowed, ?_⟩
  intro k hk
  exact line_of_keysOf hkey k (hkeys.subset (hsubset hk))

theorem Within.closing (h : s.Within indents (depth + 1) ls (x :: (gap ++ rest)))
    (hx : x = ']' ∧ lexeme = .flowSequenceEnd ∨ x = '\x7d' ∧ lexeme = .flowMappingEnd)
    (hgap : ∀ x ∈ gap, isGap x = true) (hrest : startsToken rest) :
    ∃ t, Leads s t ∧ t.Within indents depth (ls ++ [lexeme]) rest ∧
      t.cursor = s.ready.cursor.next ∧
      ∀ k ∈ t.keys, k.mark.line = s.ready.cursor.mark.line := by
  have hfacing := h.facing_flat (.inl depth.succ_pos)
  have hready := hfacing.within
  have hdepth : s.ready.outer.tail.length = depth := by
    rw [List.length_tail, hready.depth]
    rfl
  have hkeys : (keysOf s.ready.outer.tail (s.ready.outer.head?.getD none)).Sublist
      (keysOf s.ready.outer none) := by
    rw [keysOf_tail]
  have hclosed : { s.ready with
      key := s.ready.outer.head?.getD none, outer := s.ready.outer.tail
      keyAllowed := false : Scan }.Within indents depth ls (x :: (gap ++ rest)) :=
    hready.dropKey.rekey rfl rfl rfl rfl rfl rfl hkeys hdepth
  have hread : s.ready.readToken = .ok ({ s.ready with
      key := s.ready.outer.head?.getD none, outer := s.ready.outer.tail
      keyAllowed := false : Scan }.pushSign lexeme 1) := by
    rw [readToken_closing hfacing.rest hx, readClosing, hready.dropKey_eq]
    rfl
  obtain ⟨t, hleads, hwithin, hcursor, -, hsubset⟩ :=
    hfacing.leads_sign hclosed hread rfl hgap hrest
  refine ⟨t, hleads, hwithin, hcursor, ?_⟩
  intro k hk
  exact line_of_ready ((keysOf_none_sublist _ _).subset (hkeys.subset (hsubset hk)))

theorem Within.comma (h : s.Within indents depth ls (',' :: (gap ++ rest))) (hdepth : 0 < depth)
    (hgap : ∀ x ∈ gap, isGap x = true) (hrest : startsToken rest) :
    ∃ t, Leads s t ∧ t.Within indents depth (ls ++ [.flowEntry]) rest ∧ t.keyAllowed = true := by
  have hfacing := h.facing_flat (.inl hdepth)
  have hready := hfacing.within
  have hdropped : { s.ready with key := none, keyAllowed := true : Scan }.Within
      indents depth ls (',' :: (gap ++ rest)) :=
    hready.dropKey.rekey rfl rfl rfl rfl rfl rfl (List.Sublist.refl _) hready.depth
  have hread : s.ready.readToken =
      .ok ({ s.ready with key := none, keyAllowed := true }.pushSign .flowEntry 1) := by
    rw [readToken_comma hfacing.rest rfl, readFlowEntry, hready.dropKey_eq]
    rfl
  obtain ⟨t, hleads, hwithin, -, hallowed, -⟩ := hfacing.leads_sign hdropped hread rfl hgap hrest
  exact ⟨t, hleads, hwithin, hallowed⟩

end

end Treeline.Yaml.Scan
