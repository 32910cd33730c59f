import Treeline.Proofs.Yaml.Scan.Token

/-!
# Between two tokens

Between two tokens no key has to come, and what was read so far is known by its lexemes, by the
block collections and the number of brackets that are open, and by the text that is ahead. Reading
one more token leads from one such state to another.
-/

namespace Treeline.Yaml.Scan

variable {s : Scan} {indents : List Nat} {depth : Nat} {ls : List Lexeme} {ahead : List Char}

/-- Some text is ahead behind a gap. -/
def Ahead (s : Scan) (ahead : List Char) : Prop :=
  startsToken ahead ∧ ∃ gap, (∀ x ∈ gap, isGap x = true) ∧ s.cursor.rest = gap ++ ahead

/-- A state between two tokens: the columns of the block collections and the number of brackets that
are open, the tokens so far, and the text that is ahead. -/
structure Within (s : Scan) (indents : List Nat) (depth : Nat) (ls : List Lexeme)
    (ahead : List Char) : Prop where
  sound : s.Sound
  free : ∀ k ∈ s.keys, k.isRequired = false
  going : s.isDone = false
  indents : s.indents = indents
  depth : s.outer.length = depth
  lexemes : s.lexemes = ls
  ahead : s.Ahead ahead

theorem Within.inFlow (h : s.Within indents depth ls ahead) : s.inFlow = decide (0 < depth) := by
  have hdepth := h.depth
  rw [Scan.inFlow]
  cases houter : s.outer with
  | nil =>
    rw [houter] at hdepth
    simp [← hdepth]
  | cons key outer =>
    rw [houter] at hdepth
    simp [← hdepth]

theorem Within.loose (h : s.Within indents depth ls ahead) : s.Loose :=
  fun k hk _ => h.free k hk

theorem startsToken_nil : startsToken [] := by
  rintro x ⟨⟩

/-! ### Changing the state -/

/-- A state between two tokens stays one if keys are dropped. -/
theorem Within.rekey {t : Scan} {depth' : Nat} (h : s.Within indents depth ls ahead)
    (hreleased : t.released = s.released) (hcount : t.releasedCount = s.releasedCount)
    (hheld : t.held = s.held) (hdone : t.isDone = s.isDone) (hindents : t.indents = s.indents)
    (hcursor : t.cursor = s.cursor) (hkeys : t.keys.Sublist s.keys)
    (hdepth : t.outer.length = depth') : t.Within indents depth' ls ahead where
  sound := h.sound.of_sublist hreleased hcount (by rw [hheld]) hkeys
  free k hk := h.free k (hkeys.subset hk)
  going := hdone.trans h.going
  indents := hindents.trans h.indents
  depth := hdepth
  lexemes := by
    rw [← h.lexemes]
    simp [Scan.lexemes, Scan.tokens, hreleased, hheld]
  ahead := by
    rw [Ahead, hcursor]
    exact h.ahead

theorem Within.push {ahead' : List Char} (h : s.Within indents depth ls ahead) (token : Token)
    {c : Cursor} (hahead : Ahead { s with cursor := c } ahead') :
    { s.push token with cursor := c : Scan }.Within indents depth (ls ++ [token.lexeme]) ahead' where
  sound := h.sound.of_sublist rfl rfl (by simp [Scan.push]) (List.Sublist.refl _)
  free := h.free
  going := h.going
  indents := h.indents
  depth := h.depth
  lexemes := by
    rw [← h.lexemes]
    exact lexemes_push s token
  ahead := hahead

/-! ### Noting and dropping keys -/

theorem Within.dropKey_eq (h : s.Within indents depth ls ahead) :
    s.dropKey = .ok { s with key := none } := by
  rw [dropKey]
  cases hkey : s.key with
  | none => rfl
  | some k =>
    have hfree := h.free k (mem_keysOf.2 (.inr hkey.symm))
    simp [giveUp, hfree, pure, Except.pure, bind, Except.bind]

theorem Within.dropKey (h : s.Within indents depth ls ahead) :
    { s with key := none : Scan }.Within indents depth ls ahead :=
  h.rekey rfl rfl rfl rfl rfl rfl (keysOf_none_sublist s.outer s.key) h.depth

/-- The key that is noted where the next token begins. -/
def nextKey (s : Scan) : PossibleKey :=
  ⟨s.releasedCount + s.held.length, !s.inFlow && s.indents.head? = some s.cursor.column,
    s.cursor.mark⟩

theorem Within.saveKey_eq (h : s.Within indents depth ls ahead) :
    s.saveKey = .ok (if s.keyAllowed then { s with key := some s.nextKey } else s) := by
  rw [saveKey]
  split
  · rw [h.dropKey_eq]
    rfl
  · rfl

theorem Within.sound_nextKey (h : s.Within indents depth ls ahead) :
    Sound { s with key := some s.nextKey } := by
  refine h.sound.of_sublist_key rfl rfl (Nat.le_refl _) (k := s.nextKey) rfl ?_
  rw [keys, keysOf_some]
  exact (keysOf_none_sublist s.outer s.key).append_right _

theorem Within.saveKey (h : s.Within indents depth ls ahead)
    (hfree : s.nextKey.isRequired = false) :
    ∃ key, s.saveKey = .ok { s with key := key } ∧
      { s with key := key : Scan }.Within indents depth ls ahead ∧
      ∀ k, key = some k → k = s.nextKey ∨ k ∈ s.keys := by
  rw [h.saveKey_eq]
  split
  · refine ⟨some s.nextKey, rfl, ⟨h.sound_nextKey, ?_, h.going, h.indents, h.depth, h.lexemes,
      h.ahead⟩, fun k hk => .inl (Option.some.inj hk).symm⟩
    intro k hk
    rw [keys, keysOf_some, List.mem_append, List.mem_singleton] at hk
    rcases hk with hk | rfl
    · exact h.free k ((keysOf_none_sublist s.outer s.key).subset hk)
    · exact hfree
  · exact ⟨s.key, rfl, h, fun k hk => .inr (mem_keysOf.2 (.inr hk.symm))⟩

theorem Within.refresh (h : s.Within indents depth ls ahead) :
    s.refresh.Within indents depth ls ahead := by
  refine h.rekey rfl rfl rfl rfl rfl rfl ?_ ((List.length_map _).trans h.depth)
  rw [keys_refresh]
  exact List.filter_sublist

theorem Within.release (h : s.Within indents depth ls ahead) :
    s.release.Within indents depth ls ahead where
  sound := h.sound.release
  free := h.free
  going := h.going
  indents := h.indents
  depth := h.depth
  lexemes := (congrArg (List.map Token.lexeme) (tokens_release s)).trans h.lexemes
  ahead := h.ahead

/-! ### In front of the next token -/

/-- The state in front of the next token, behind the gap. -/
def ready (s : Scan) : Scan := s.settle.refresh.unwind

/-- Inside brackets, or where the innermost block collection goes on, no block collection ends. -/
theorem unwind_eq (h : 0 < s.outer.length ∨ ∀ i ∈ s.indents.head?, i ≤ s.cursor.column) :
    s.unwind = s := by
  rw [unwind]
  split
  · rfl
  · rename_i hout
    have houter : s.outer = [] := by simpa [inFlow] using hout
    have hcolumn := h.resolve_left (by simp [houter])
    cases s with
    | mk cursor indents =>
      cases indents with
      | nil => rfl
      | cons i indents =>
        have hi : ¬ Cursor.column cursor < i := Nat.not_lt.2 (hcolumn i rfl)
        rw [unwindTo, if_neg hi]

theorem Within.settle (h : s.Within indents depth ls ahead) :
    s.settle.Within indents depth ls ahead ∧ s.settle.cursor.rest = ahead := by
  obtain ⟨hstart, gap, hgap, hrest⟩ := h.ahead
  rw [settle_eq hrest hgap hstart]
  exact ⟨⟨h.sound.of_sublist rfl rfl (Nat.le_refl _) (List.Sublist.refl _), h.free, h.going,
    h.indents, h.depth, h.lexemes, hstart, [], by simp, rfl⟩, rfl⟩

theorem Within.keyAllowed_settle (h : s.Within indents depth ls ahead)
    (hallowed : s.keyAllowed = true) : s.settle.keyAllowed = true := by
  obtain ⟨hstart, gap, hgap, hrest⟩ := h.ahead
  rw [settle_eq hrest hgap hstart]
  simp [hallowed]

theorem Within.ready (h : s.Within indents depth ls ahead) (hflat : 0 < depth ∨ indents = []) :
    s.ready.Within indents depth ls ahead ∧ s.ready.cursor.rest = ahead ∧
      (s.keyAllowed = true → s.ready.keyAllowed = true) := by
  obtain ⟨hsettled, hrest⟩ := h.settle
  have hunwind : s.ready = s.settle.refresh := by
    refine unwind_eq ?_
    rw [hsettled.refresh.depth, hsettled.refresh.indents]
    refine hflat.imp_right ?_
    rintro rfl i ⟨⟩
  rw [hunwind]
  exact ⟨hsettled.refresh, hrest, h.keyAllowed_settle⟩

/-- The block collections that are deeper than the next token end in front of it. -/
theorem unwindTo_eq (column : Nat) (indents : List Nat) (s : Scan) :
    unwindTo column indents s = { s with
      held := s.held ++ List.replicate (indents.takeWhile (column < ·)).length
        ⟨.blockEnd, s.cursor.mark, s.cursor.mark⟩
      indents := indents.dropWhile (column < ·) } := by
  induction indents generalizing s with
  | nil => simp [unwindTo]
  | cons i indents ih =>
    rw [unwindTo]
    by_cases hi : column < i
    · rw [if_pos hi, ih, List.takeWhile_cons_of_pos (by simpa using hi),
        List.dropWhile_cons_of_pos (by simpa using hi)]
      simp [pushEmpty, Scan.push, List.replicate_succ]
    · rw [if_neg hi, List.takeWhile_cons_of_neg (by simpa using hi),
        List.dropWhile_cons_of_neg (by simpa using hi)]
      simp

theorem Within.ready_unwound (h : s.Within indents 0 ls ahead) :
    s.ready.Within (indents.dropWhile (s.ready.cursor.column < ·)) 0
        (ls ++ List.replicate (indents.takeWhile (s.ready.cursor.column < ·)).length .blockEnd)
        ahead ∧ s.ready.cursor.rest = ahead := by
  obtain ⟨hsettled, hrest⟩ := h.settle
  have hunwind : s.ready = unwindTo s.settle.refresh.cursor.column indents s.settle.refresh := by
    have hout : s.settle.refresh.inFlow = false := by
      rw [hsettled.refresh.inFlow]
      simp
    rw [Scan.ready, unwind, hout, hsettled.refresh.indents]
    rfl
  rw [unwindTo_eq] at hunwind
  have hcolumn : s.ready.cursor.column = s.settle.refresh.cursor.column := by rw [hunwind]
  rw [hcolumn, hunwind]
  refine ⟨⟨?_, hsettled.refresh.free, hsettled.going, rfl, hsettled.refresh.depth, ?_,
    hsettled.ahead⟩, hrest⟩
  · exact hsettled.refresh.sound.of_sublist rfl rfl (by simp) (List.Sublist.refl _)
  · rw [← hsettled.refresh.lexemes]
    simp [Scan.lexemes, tokens]

/-- The place and what is allowed there do not depend on what ends in front of the token. -/
theorem ready_cursor (s : Scan) :
    s.ready.cursor = s.settle.cursor ∧ s.ready.keyAllowed = s.settle.keyAllowed := by
  rw [Scan.ready, unwind]
  split
  · exact ⟨rfl, rfl⟩
  · rw [unwindTo_eq]
    exact ⟨rfl, rfl⟩

theorem ahead_of_rest {gap rest : List Char} (hrest : startsToken rest)
    (hgap : ∀ x ∈ gap, isGap x = true) (hs : s.cursor.rest = gap ++ rest) : s.Ahead rest :=
  ⟨hrest, gap, hgap, hs⟩

theorem startsToken_cons {x : Char} (hx : isGap x = false ∧ x ≠ '#' ∧ x ≠ '\uFEFF')
    (rest : List Char) : startsToken (x :: rest) := by
  rintro y ⟨⟩
  exact hx

/-! ### The first and the last token -/

theorem within_ofText {text gap : List Char} (htext : text = gap ++ ahead)
    (hgap : ∀ x ∈ gap, isGap x = true) (hahead : startsToken ahead) :
    (ofText text).Within [] 0 [] ahead where
  sound := ⟨rfl, by simp [ofText, keys, keysOf], by simp [ofText, keys, keysOf]⟩
  free := by simp [ofText, keys, keysOf]
  going := rfl
  indents := rfl
  depth := rfl
  lexemes := rfl
  ahead := ⟨hahead, gap, hgap, htext⟩

theorem Within.readEnd (h : s.Within indents 0 ls ahead) (hcursor : s.cursor.rest = []) :
    ∃ t, s.readToken = .ok t ∧ t.isDone = true ∧ t.keys = [] ∧
      t.lexemes = ls ++ List.replicate indents.length .blockEnd ++ [.streamEnd] := by
  have houter : s.outer = [] := List.length_eq_zero_iff.1 h.depth
  have hunwound : s.unwindAll.Within [] 0 (ls ++ List.replicate indents.length .blockEnd) ahead := by
    have hunwind : s.unwindAll = { s with
        held := s.held ++ List.replicate s.indents.length ⟨.blockEnd, s.cursor.mark, s.cursor.mark⟩
        indents := [] } := by
      rw [unwindAll, h.inFlow]
      rfl
    rw [hunwind, h.indents]
    refine ⟨h.sound.of_sublist rfl rfl (by simp) (List.Sublist.refl _), h.free, h.going, rfl,
      h.depth, ?_, h.ahead⟩
    rw [← h.lexemes]
    simp [Scan.lexemes, tokens]
  rw [readToken_end hcursor, Scan.readEnd, hunwound.dropKey_eq]
  refine ⟨_, rfl, rfl, ?_, ?_⟩
  · change keysOf (s.unwindAll.outer.map fun _ => none) none = []
    have houter' : s.unwindAll.outer = [] := List.length_eq_zero_iff.1 hunwound.depth
    rw [houter']
    rfl
  · rw [← hunwound.lexemes]
    exact lexemes_push s.unwindAll ⟨.streamEnd, _, _⟩

end Treeline.Yaml.Scan
