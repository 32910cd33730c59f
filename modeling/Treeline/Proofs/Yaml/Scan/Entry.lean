import Treeline.Proofs.Yaml.PlainText
import Treeline.Proofs.Yaml.QuotedText
import Treeline.Proofs.Yaml.Scan.Facing

/-!
# Scalars and keys

A scalar is noted as a possible key when it is read. If a colon follows on the same line before the
key is too long, a key sign is put in front of the scalar, and a sign that a mapping starts as well
where the key begins one.
-/

namespace Treeline.Yaml.Scan

variable {s : Scan} {column depth : Nat} {indents : List Nat} {ls : List Lexeme}
  {ahead : List Char}

/-! ### Scalars -/

/-- A token that could begin a key is read and does not have to be one. -/
theorem Facing.scalar (isAllowed : Bool) {token : Token} {after : Cursor} {cs gap rest : List Char}
    (h : s.Facing column indents depth ls ahead)
    (hfree : 0 < depth ∨ indents.head? ≠ some column)
    (hread : ∀ key, s.ready.saveKey = .ok { s.ready with key := key } →
      s.ready.readToken =
        .ok ({ s.ready with key := key, keyAllowed := isAllowed }.pushRead (token, after)))
    (hpass : s.ready.cursor.Passes cs after) (hcs : cs ≠ []) (hafter : after.rest = gap ++ rest)
    (hgap : ∀ x ∈ gap, isGap x = true) (hrest : startsToken rest) :
    ∃ t, Leads s t ∧ t.Within indents depth (ls ++ [token.lexeme]) rest ∧ t.cursor = after ∧
      t.keyAllowed = isAllowed ∧ ∀ k ∈ t.keys, k.mark.line = s.ready.cursor.mark.line := by
  obtain ⟨key, hsave, hsaved, hkey⟩ := h.within.saveKey (h.isRequired_eq_false hfree)
  have hkept : { s.ready with key := key, keyAllowed := isAllowed : Scan }.Within indents depth ls
      ahead := hsaved.rekey rfl rfl rfl rfl rfl rfl (List.Sublist.refl _) h.within.depth
  have hpushed := hkept.push token (c := after) (ahead_of_rest hrest hgap hafter)
  have hshort : after.rest.length < ahead.length := by
    have hlength := hpass.length
    have hpos := List.length_pos_iff.2 hcs
    rw [h.rest] at hlength
    omega
  obtain ⟨t, hleads, ht, hcursor, hallowed, hsubset⟩ := h.leads (hread key hsave) hpushed hshort
  exact ⟨t, hleads, ht, hcursor, hallowed, fun k hk => line_of_keysOf hkey k (hsubset hk)⟩

theorem readToken_quoted {token : Token} {after : Cursor} {t : Scan} {isDouble : Bool}
    (hcursor : s.cursor.rest = Token.quote isDouble :: ahead) (hsave : s.saveKey = .ok t)
    (hread : Token.readQuotedText isDouble t.cursor = .ok (token, after)) :
    s.readToken = .ok ({ t with keyAllowed := false }.pushRead (token, after)) := by
  rw [readToken_quote hcursor isDouble rfl]
  simp [readKeyLike, hsave, hread, bind, Except.bind, pure, Except.pure]

theorem Facing.quoted {token : Token} {after : Cursor} {cs gap rest : List Char} (isDouble : Bool)
    (h : s.Facing column indents depth ls (Token.quote isDouble :: ahead))
    (hfree : 0 < depth ∨ indents.head? ≠ some column)
    (hread : Token.readQuotedText isDouble s.ready.cursor = .ok (token, after))
    (hpass : s.ready.cursor.Passes cs after) (hcs : cs ≠ []) (hafter : after.rest = gap ++ rest)
    (hgap : ∀ x ∈ gap, isGap x = true) (hrest : startsToken rest) :
    ∃ t, Leads s t ∧ t.Within indents depth (ls ++ [token.lexeme]) rest ∧ t.cursor = after ∧
      t.keyAllowed = false ∧ ∀ k ∈ t.keys, k.mark.line = s.ready.cursor.mark.line := by
  refine h.scalar false hfree ?_ hpass hcs hafter hgap hrest
  intro key hsave
  exact readToken_quoted h.rest hsave hread

theorem readToken_plainText {t : Scan} {token : Token} {after : Cursor} {hasBreak : Bool}
    (hstart : Token.startsPlain s.inFlow s.cursor = true)
    (hseparator : s.cursor.isDocumentSeparator = false) (hsave : s.saveKey = .ok t)
    (hread : Token.readPlainText t.inFlow t.textIndent t.cursor = (token, after, hasBreak)) :
    s.readToken = .ok ({ t with keyAllowed := hasBreak }.pushRead (token, after)) := by
  rw [readToken_plain hstart hseparator]
  simp [readPlain, hsave, hread, bind, Except.bind, pure, Except.pure]

theorem Facing.plain {inFlow hasBreak : Bool} {token : Token} {after : Cursor}
    {cs rest : List Char} (h : s.Facing column indents depth ls ahead)
    (hfree : 0 < depth ∨ indents.head? ≠ some column) (hflow : inFlow = decide (0 < depth))
    (hstart : Token.startsPlain inFlow s.ready.cursor = true)
    (hseparator : s.ready.cursor.isDocumentSeparator = false)
    (hread : Token.readPlainText inFlow s.ready.textIndent s.ready.cursor =
      (token, after, hasBreak))
    (hpass : s.ready.cursor.Passes cs after) (hcs : cs ≠ []) (hafter : after.rest = rest)
    (hrest : startsToken rest) :
    ∃ t, Leads s t ∧ t.Within indents depth (ls ++ [token.lexeme]) rest ∧ t.cursor = after ∧
      t.keyAllowed = hasBreak ∧ ∀ k ∈ t.keys, k.mark.line = s.ready.cursor.mark.line := by
  have hnoGap : ∀ x ∈ ([] : List Char), isGap x = true := by simp
  have hafter' : after.rest = [] ++ rest := hafter
  refine h.scalar hasBreak hfree ?_ hpass hcs hafter' hnoGap hrest
  intro key hsave
  rw [← h.within.inFlow] at hflow
  rw [hflow] at hstart hread
  exact readToken_plainText hstart hseparator hsave hread

/-! ### Keys -/

/-- A state behind a key: the possible key in front of it, how many characters there may be before
the colon, and what is known between two tokens. -/
structure Keyed (s : Scan) (k : PossibleKey) (room : Nat) (indents : List Nat) (depth : Nat)
    (ls : List Lexeme) (scalar : Lexeme) : Prop where
  sound : s.Sound
  key : s.key = some k
  free : ∀ other ∈ keysOf s.outer none, other.isRequired = false
  going : s.isDone = false
  indents : s.indents = indents
  depth : s.outer.length = depth
  number : k.number = ls.length
  lexemes : s.lexemes = ls ++ [scalar]
  line : k.mark.line = s.cursor.mark.line
  room : s.cursor.mark.index + room ≤ k.mark.index + maxKeyLength

variable {k : PossibleKey} {room : Nat} {scalar : Lexeme}

theorem Keyed.not_isStale (h : s.Keyed k room indents depth ls scalar) : s.isStale k = false := by
  have hroom := h.room
  simp only [isStale, h.line, ne_eq, not_true_eq_false, decide_false, Bool.false_or,
    decide_eq_false_iff_not, not_lt]
  omega

theorem Keyed.loose (h : s.Keyed k room indents depth ls scalar) : s.Loose := by
  intro other hother hstale
  rw [keys, h.key, keysOf_some, List.mem_append, List.mem_singleton] at hother
  rcases hother with hother | rfl
  · exact h.free other hother
  · rw [h.not_isStale] at hstale
    cases hstale

theorem Keyed.refresh (h : s.Keyed k room indents depth ls scalar) :
    s.refresh.Keyed k room indents depth ls scalar where
  sound := h.sound.refresh
  key := by
    have hstale := h.not_isStale
    rw [Scan.refresh, h.key]
    simp [Option.filter, hstale]
  free other hother := by
    refine h.free other ?_
    have hfilter := keysOf_filter (fun k => !s.isStale k) s.outer none
    rw [Option.filter_none] at hfilter
    have hmem : other ∈ keysOf (s.outer.map (·.filter fun k => !s.isStale k)) none := hother
    rw [hfilter] at hmem
    exact List.mem_of_mem_filter hmem
  going := h.going
  indents := h.indents
  depth := (List.length_map _).trans h.depth
  number := h.number
  lexemes := h.lexemes
  line := h.line
  room := h.room

theorem Keyed.release (h : s.Keyed k room indents depth ls scalar) :
    s.release.Keyed k room indents depth ls scalar where
  sound := h.sound.release
  key := h.key
  free := h.free
  going := h.going
  indents := h.indents
  depth := h.depth
  number := h.number
  lexemes := (congrArg (List.map Token.lexeme) (tokens_release s)).trans h.lexemes
  line := h.line
  room := h.room

theorem Within.keyed {token : Token} {after : Cursor} {isAllowed : Bool} {cs : List Char}
    (h : s.Within indents depth ls ahead) (hpass : s.cursor.Passes cs after)
    (hcs : ∀ x ∈ cs, isBreak x = false) (hroom : cs.length + room ≤ maxKeyLength) :
    ({ s with key := some s.nextKey, keyAllowed := isAllowed }.pushRead (token, after)).Keyed
      s.nextKey room indents depth ls token.lexeme := by
  refine ⟨?_, rfl, ?_, h.going, h.indents, h.depth, ?_, ?_, ?_, ?_⟩
  · exact h.sound_nextKey.of_sublist rfl rfl (by simp [pushRead, Scan.push]) (List.Sublist.refl _)
  · intro other hother
    exact h.free other ((keysOf_none_sublist s.outer s.key).subset hother)
  · rw [← h.lexemes, length_lexemes, h.sound.length_tokens]
    rfl
  · rw [← h.lexemes]
    exact lexemes_push { s with key := some s.nextKey, keyAllowed := isAllowed } token
  · change s.cursor.mark.line = after.mark.line
    rw [hpass.mark, Mark.line_past hcs]
  · change after.mark.index + room ≤ s.cursor.mark.index + maxKeyLength
    rw [hpass.index]
    omega

section

variable {link more : List Char}

theorem isWide_space {x : Char} (hx : x = ' ') : Mark.IsWide x := by
  subst hx
  exact ⟨by decide, by decide⟩

theorem Keyed.settle (h : s.Keyed k room indents depth ls scalar)
    (hcursor : s.cursor.rest = link ++ ':' :: more) (hlink : ∀ x ∈ link, x = ' ')
    (hroom : link.length ≤ room) :
    s.settle.Keyed k 0 indents depth ls scalar ∧
      s.settle.cursor = ⟨':' :: more, s.cursor.mark.past link (':' :: more)⟩ := by
  have hgap : ∀ x ∈ link, isGap x = true := by
    intro x hx
    rw [hlink x hx]
    decide
  rw [settle_eq hcursor hgap (startsToken_cons (by decide) more)]
  refine ⟨⟨h.sound.of_sublist rfl rfl (Nat.le_refl _) (List.Sublist.refl _), h.key, h.free, h.going,
    h.indents, h.depth, h.number, h.lexemes, ?_, ?_⟩, rfl⟩
  · dsimp only
    rw [Mark.line_past fun x hx => (isWide_space (hlink x hx)).1, h.line]
  · have hroom' := h.room
    dsimp only
    rw [Mark.index_past]
    omega

theorem Keyed.ready (h : s.Keyed k room indents depth ls scalar)
    (hcursor : s.cursor.rest = link ++ ':' :: more) (hlink : ∀ x ∈ link, x = ' ')
    (hroom : link.length ≤ room)
    (hcolumn : 0 < depth ∨ ∀ i ∈ indents.head?, i ≤ s.cursor.column) :
    s.ready.Keyed k 0 indents depth ls scalar ∧ s.ready.cursor.rest = ':' :: more := by
  obtain ⟨hsettled, hrest⟩ := h.settle hcursor hlink hroom
  have hunwind : s.ready = s.settle.refresh := by
    refine unwind_eq ?_
    rw [hsettled.refresh.depth, hsettled.refresh.indents]
    refine hcolumn.imp_right fun hcolumn i hi => ?_
    have hle := hcolumn i hi
    change i ≤ s.settle.cursor.mark.column
    rw [hrest, Mark.column_past fun x hx => isWide_space (hlink x hx)]
    exact Nat.le_trans hle (Nat.le_add_right _ _)
  rw [hunwind]
  refine ⟨hsettled.refresh, ?_⟩
  change s.settle.cursor.rest = _
  rw [hrest]

end

/-- Whether a key at a column begins a block mapping. -/
def opensMapping (indents : List Nat) (depth column : Nat) : Bool :=
  decide (depth = 0) && indents.head?.all (· < column)

theorem Keyed.inFlow (h : s.Keyed k room indents depth ls scalar) :
    s.inFlow = decide (0 < depth) := by
  rw [Scan.inFlow, ← h.depth]
  cases s.outer <;> simp

theorem Keyed.opens (h : s.Keyed k room indents depth ls scalar) (column : Nat) :
    (!s.inFlow && s.isDeeper column) = opensMapping indents depth column := by
  rw [opensMapping, h.inFlow, isDeeper, h.indents]
  cases indents <;> cases depth <;> simp

theorem Keyed.mem_keys (h : s.Keyed k room indents depth ls scalar) : k ∈ s.keys := by
  rw [keys, h.key, keysOf_some]
  exact List.mem_append_right _ (List.mem_singleton.2 rfl)

theorem Keyed.readToken {more : List Char} (h : s.Keyed k room indents depth ls scalar)
    (hcolon : s.cursor.rest = ':' :: more)
    (hblank : 0 < depth ∨ isBlankOrEnd (more.head?.getD endOfText) = true) :
    s.readToken = .ok ((s.confirmKey k).pushSign .value 1) := by
  rw [readToken_colon hcolon rfl ?_, readValueSign, h.key]
  rw [h.inFlow, Cursor.charAt_one_of_rest hcolon]
  simpa using hblank

/-- The sign of a value stands behind a key, with a key sign in front of the scalar. -/
theorem Keyed.confirm {gap rest : List Char} (h : s.Keyed k room indents depth ls scalar)
    (hnext : s.cursor.next.rest = gap ++ rest) (hgap : ∀ x ∈ gap, isGap x = true)
    (hrest : startsToken rest) :
    ((s.confirmKey k).pushSign .value 1).Within
      (if opensMapping indents depth k.mark.column then k.mark.column :: indents else indents)
      depth
      (ls ++ (if opensMapping indents depth k.mark.column then [.blockMappingStart] else []) ++
        [.key, scalar, .value]) rest := by
  have hconfirmed := h.sound.confirmKey h.mem_keys
  refine ⟨hconfirmed.of_sublist rfl rfl (by simp [pushSign, push]) (List.Sublist.refl _), h.free,
    h.going, ?_, h.depth, ?_, ahead_of_rest hrest hgap hnext⟩
  · change (s.confirmKey k).indents = _
    rw [indents_confirmKey, h.opens, h.indents]
  · have hfront : (ls ++ [scalar]).take k.number = ls := by
      rw [h.number]
      exact List.take_left' rfl
    have hbehind : (ls ++ [scalar]).drop k.number = [scalar] := by
      rw [h.number]
      exact List.drop_left' rfl
    rw [lexemes_pushSign, lexemes_confirmKey h.sound h.mem_keys, h.opens, h.lexemes, hfront, hbehind]
    split <;> simp

theorem Keyed.keys_confirm (h : s.Keyed k room indents depth ls scalar) (hdepth : depth = 0) :
    ((s.confirmKey k).pushSign .value 1).refresh.release.keys = [] := by
  have houter : s.outer = [] := List.length_eq_zero_iff.1 (h.depth.trans hdepth)
  change ((s.confirmKey k).pushSign .value 1).refresh.keys = []
  rw [keys_refresh]
  change (keysOf s.outer none).filter _ = []
  rw [houter]
  rfl

/-- A colon makes a key of the scalar in front of it. -/
theorem Keyed.colon {link gap rest : List Char} (h : s.Keyed k room indents depth ls scalar)
    (hcursor : s.cursor.rest = link ++ ':' :: (gap ++ rest)) (hlink : ∀ x ∈ link, x = ' ')
    (hroom : link.length ≤ room)
    (hcolumn : 0 < depth ∨ ∀ i ∈ indents.head?, i ≤ s.cursor.column)
    (hblank : 0 < depth ∨ isBlankOrEnd ((gap ++ rest).head?.getD endOfText) = true)
    (hgap : ∀ x ∈ gap, isGap x = true) (hrest : startsToken rest) :
    ∃ t, Leads s t ∧
      t.Within
        (if opensMapping indents depth k.mark.column then k.mark.column :: indents else indents)
        depth
        (ls ++ (if opensMapping indents depth k.mark.column then [.blockMappingStart] else []) ++
          [.key, scalar, .value]) rest ∧
      t.cursor.rest = gap ++ rest ∧ t.cursor.column = s.cursor.column + link.length + 1 ∧
      (depth = 0 → t.keys = []) := by
  obtain ⟨hsettled, hplace⟩ := h.settle hcursor hlink hroom
  obtain ⟨hready, hcolon⟩ := h.ready hcursor hlink hroom hcolumn
  obtain ⟨hpass, hnext⟩ := Cursor.passes_next hcolon
  have hread := hready.readToken hcolon hblank
  have hwithin := hready.confirm hnext hgap hrest
  have hplaced : s.ready.cursor.next.column = s.cursor.column + link.length + 1 := by
    rw [Cursor.column, hpass.mark, Mark.column_past (by simp [Mark.IsWide, isBreak]),
      (ready_cursor s).1, hplace, Mark.column_past fun x hx => isWide_space (hlink x hx)]
    rfl
  refine ⟨_, .single h.going (step_eq_ok hsettled.loose hread hwithin.loose) ?_,
    hwithin.refresh.release, hnext, hplaced, hready.keys_confirm⟩
  have hlength := congrArg List.length hcursor
  have hleft : (((s.ready.confirmKey k).pushSign .value 1).refresh.release).cursor.rest =
      gap ++ rest := hnext
  rw [hleft]
  rw [List.length_append, List.length_cons] at hlength
  omega

theorem Facing.entry {token : Token} {after : Cursor} {cs link gap rest : List Char}
    (h : s.Facing column indents depth ls ahead) (hallowed : s.ready.keyAllowed = true)
    (hread : ∀ key, s.ready.saveKey = .ok { s.ready with key := key } →
      s.ready.readToken =
        .ok ({ s.ready with key := key, keyAllowed := false }.pushRead (token, after)))
    (hpass : s.ready.cursor.Passes cs after) (hcs : ∀ x ∈ cs, isBreak x = false)
    (hafter : after.rest = link ++ ':' :: (gap ++ rest)) (hlink : ∀ x ∈ link, x = ' ')
    (hroom : cs.length + link.length ≤ maxKeyLength) (hne : cs ≠ [])
    (hcolumn : 0 < depth ∨ ∀ i ∈ indents.head?, i ≤ after.column)
    (hblank : 0 < depth ∨ isBlankOrEnd ((gap ++ rest).head?.getD endOfText) = true)
    (hgap : ∀ x ∈ gap, isGap x = true) (hrest : startsToken rest) :
    ∃ t, Leads s t ∧
      t.Within (if opensMapping indents depth column then column :: indents else indents) depth
        (ls ++ (if opensMapping indents depth column then [.blockMappingStart] else []) ++
          [.key, token.lexeme, .value]) rest ∧
      t.cursor.rest = gap ++ rest ∧ t.cursor.column = after.column + link.length + 1 ∧
      (depth = 0 → t.keys = []) := by
  have hsave := h.within.saveKey_eq
  rw [if_pos hallowed] at hsave
  have hread' := hread _ hsave
  have hkeyed : ({ s.ready with key := some s.ready.nextKey, keyAllowed := false }.pushRead
      (token, after)).Keyed s.ready.nextKey link.length indents depth ls token.lexeme :=
    h.within.keyed hpass hcs hroom
  have hlength := hpass.length
  have hpos := List.length_pos_iff.2 hne
  have hahead := h.length
  rw [h.rest] at hlength
  have hleads : Leads s ({ s.ready with key := some s.ready.nextKey, keyAllowed := false }.pushRead
      (token, after)).refresh.release := by
    refine .single h.going (step_eq_ok h.loose hread' hkeyed.loose) ?_
    change after.rest.length < _
    omega
  obtain ⟨t, hcolon, hwithin, hplace⟩ := hkeyed.refresh.release.colon hafter hlink (Nat.le_refl _)
    hcolumn hblank hgap hrest
  have hmark : s.ready.nextKey.mark.column = column := h.column
  rw [hmark] at hwithin
  exact ⟨t, hleads.trans hcolon, hwithin, hplace⟩

end Treeline.Yaml.Scan
