import Treeline.Proofs.Yaml.Scan.Entry

/-!
# Block collections

Outside of brackets, a line that begins where no possible key is left is poised for a token of the
block collections: a dash, a question mark, a colon, or what stands behind one of them. Each of the
signs begins a collection if it stands deeper than those that are open, and behind it and a space
the next token is poised two columns further.
-/

namespace Treeline.Yaml.Scan

variable {s : Scan} {column : Nat} {indents : List Nat} {ls : List Lexeme} {ahead : List Char}

/-- The columns of the collections that are open once something stands at a column. -/
def levels (column : Nat) (indents : List Nat) : List Nat :=
  if indents.head?.all (· < column) then column :: indents else indents

/-- The start of the collection that begins at a column, if one does. -/
def openers (start : Lexeme) (column : Nat) (indents : List Nat) : List Lexeme :=
  if indents.head?.all (· < column) then [start] else []

theorem levels_of_lt (h : ∀ i ∈ indents.head?, i < column) :
    levels column indents = column :: indents := by
  cases indents with
  | nil => rfl
  | cons i indents => simp [levels, h i rfl]

theorem openers_of_lt (start : Lexeme) (h : ∀ i ∈ indents.head?, i < column) :
    openers start column indents = [start] := by
  cases indents with
  | nil => rfl
  | cons i indents => simp [openers, h i rfl]

@[simp] theorem levels_self (column : Nat) (indents : List Nat) :
    levels column (column :: indents) = column :: indents := by
  simp [levels]

@[simp] theorem openers_self (start : Lexeme) (column : Nat) (indents : List Nat) :
    openers start column (column :: indents) = [] := by
  simp [openers]

theorem le_of_mem_head_levels (h : ∀ i ∈ indents.head?, i ≤ column) :
    ∀ i ∈ (levels column indents).head?, i ≤ column := by
  cases indents with
  | nil => simp [levels]
  | cons i indents =>
    have hi := h i rfl
    by_cases hlt : i < column
    · simp [levels, hlt]
    · simpa [levels, hlt] using hi

/-- A state in front of a token outside of brackets, with no possible key. -/
structure Poised (s : Scan) (column : Nat) (indents : List Nat) (ls : List Lexeme)
    (ahead : List Char) : Prop where
  facing : s.Facing column indents 0 ls ahead
  noKey : s.ready.key = none
  le : ∀ i ∈ indents.head?, i ≤ column

theorem Poised.outer (h : s.Poised column indents ls ahead) : s.ready.outer = [] :=
  List.length_eq_zero_iff.1 h.facing.within.depth

theorem noKey_of_keys_eq_nil (h : s.keys = []) : s.ready.key = none := by
  cases hkey : s.ready.key with
  | none => rfl
  | some k =>
    have hk : k ∈ s.ready.keys := mem_keysOf.2 (.inr hkey.symm)
    rw [keys_ready, h] at hk
    exact absurd hk List.not_mem_nil

theorem le_of_mem_head_dropWhile (column : Nat) (indents : List Nat) :
    ∀ i ∈ (indents.dropWhile (column < ·)).head?, i ≤ column := by
  intro i hi
  have hhead := List.head?_dropWhile_not (fun i => decide (column < i)) indents
  rw [Option.mem_def.1 hi] at hhead
  simpa using hhead

/-- Behind a gap that leads to a line without possible keys, the next token is poised. -/
theorem Within.poised {gap : List Char} (h : s.Within indents 0 ls ahead)
    (hfacing : s.Facing column (indents.dropWhile (column < ·)) 0 (ls ++ blockEnds column indents)
      ahead) (hcursor : s.cursor.rest = gap ++ ahead) (hgap : ∀ x ∈ gap, isGap x = true)
    (hlines : ∀ k ∈ s.keys, k.mark.line < (s.cursor.mark.past gap ahead).line) :
    s.Poised column (indents.dropWhile (column < ·)) (ls ++ blockEnds column indents) ahead := by
  refine ⟨hfacing, ?_, le_of_mem_head_dropWhile column indents⟩
  cases hkey : s.ready.key with
  | none => rfl
  | some k =>
    have hk : k ∈ s.ready.keys := mem_keysOf.2 (.inr hkey.symm)
    have hline := line_of_ready hk
    rw [keys_ready, List.mem_filter] at hk
    have hlt := hlines k hk.1
    rw [hline, (ready_cursor s).1, settle_eq hcursor hgap h.ahead.1] at hlt
    exact absurd hlt (Nat.lt_irrefl _)

theorem Within.poised_line (h : s.Within indents 0 ls ahead)
    (hcursor : s.cursor.rest = '\n' :: (List.replicate column ' ' ++ ahead))
    (hlines : ∀ k ∈ s.keys, k.mark.line ≤ s.cursor.mark.line) :
    s.Poised column (indents.dropWhile (column < ·)) (ls ++ blockEnds column indents) ahead ∧
      s.ready.keyAllowed = true := by
  obtain ⟨hfacing, hallowed⟩ := h.facing_line hcursor
  have hspaces : ∀ x ∈ List.replicate column ' ', x = ' ' := fun x hx => List.eq_of_mem_replicate hx
  have hgap : ∀ x ∈ '\n' :: List.replicate column ' ', isGap x = true := by
    refine List.forall_mem_cons.2 ⟨by decide, ?_⟩
    intro x hx
    rw [hspaces x hx]
    decide
  refine ⟨h.poised hfacing hcursor hgap ?_, hallowed⟩
  intro k hk
  have hle := hlines k hk
  rw [Mark.past_cons, Mark.next_lineFeed, Mark.line_past]
  · change k.mark.line < s.cursor.mark.line + 1
    omega
  · intro x hx
    rw [hspaces x hx]
    decide

theorem Within.poised_here (h : s.Within indents 0 ls ahead) (hcursor : s.cursor.rest = ahead)
    (hcolumn : s.cursor.column = column) (hallowed : s.keyAllowed = true)
    (hlines : ∀ k ∈ s.keys, k.mark.line < s.cursor.mark.line) :
    s.Poised column (indents.dropWhile (column < ·)) (ls ++ blockEnds column indents) ahead ∧
      s.ready.keyAllowed = true := by
  have hgap : ∀ x ∈ ([] : List Char), isGap x = true := by simp
  have hcursor' : s.cursor.rest = [] ++ ahead := hcursor
  obtain ⟨hfacing, hstill⟩ := h.facing hcursor' hgap hcolumn
  exact ⟨h.poised hfacing hcursor' hgap hlines, by rw [hstill, hallowed, Bool.true_or]⟩

/-! ### Signs -/

theorem Within.openBlock (h : s.Within indents 0 ls ahead) (start : Lexeme)
    (hcolumn : s.cursor.column = column) :
    (s.openBlock start).Within (levels column indents) 0 (ls ++ openers start column indents)
        ahead ∧ (s.openBlock start).cursor = s.cursor ∧ (s.openBlock start).key = s.key ∧
      (s.openBlock start).outer = s.outer := by
  have hdeeper : s.isDeeper s.cursor.column = indents.head?.all (· < column) := by
    rw [isDeeper, h.indents, hcolumn]
    cases indents <;> rfl
  rw [Scan.openBlock, hdeeper, levels, openers]
  split
  · have hpushed := h.push ⟨start, s.cursor.mark, s.cursor.mark⟩ (c := s.cursor) h.ahead
    refine ⟨⟨hpushed.sound.of_sublist rfl rfl (Nat.le_refl _) (List.Sublist.refl _), hpushed.free,
      hpushed.going, ?_, hpushed.depth, hpushed.lexemes, hpushed.ahead⟩, rfl, rfl, rfl⟩
    change s.cursor.column :: s.indents = _
    rw [hcolumn, h.indents]
  · exact ⟨by rwa [List.append_nil], rfl, rfl, rfl⟩

/-- The signs of block collections, the collections that they begin, and their tokens. -/
inductive IsBlockSign : Char → Lexeme → Lexeme → Prop
  | dash : IsBlockSign '-' .blockSequenceStart .blockEntry
  | question : IsBlockSign '?' .blockMappingStart .key
  | colon : IsBlockSign ':' .blockMappingStart .value

/-- A sign begins a collection if none is open at its column. -/
theorem Poised.readToken_sign {x : Char} {start lexeme : Lexeme} {rest : List Char}
    (h : s.Poised column indents ls (x :: ' ' :: rest)) (hx : IsBlockSign x start lexeme)
    (hallowed : s.ready.keyAllowed = true) :
    s.ready.readToken =
      .ok ({ s.ready.openBlock start with key := none, keyAllowed := true }.pushSign lexeme 1) := by
  have hflow : s.ready.inFlow = false := by rw [inFlow, h.outer]; rfl
  obtain ⟨hopened, -, hkey, houter⟩ := h.facing.within.openBlock start h.facing.column
  have hflow' : (s.ready.openBlock start).inFlow = false := by rw [inFlow, houter, h.outer]; rfl
  have hdrop : (s.ready.openBlock start).dropKey = .ok (s.ready.openBlock start) := by
    rw [hopened.dropKey_eq, ← h.noKey, ← hkey]
  obtain ⟨hdash, hquestion⟩ := Scan.readToken_sign h.facing.rest (by decide)
  cases hx with
  | dash =>
    rw [hdash rfl, readBlockEntry]
    simp [hflow, hallowed, hopened.dropKey_eq, bind, Except.bind, pure, Except.pure]
  | question =>
    rw [hquestion rfl, readKeySign]
    simp [hflow, hflow', hallowed, hopened.dropKey_eq, bind, Except.bind, pure, Except.pure]
  | colon =>
    have hnext : (s.ready.inFlow || isBlankOrEnd (s.ready.cursor.charAt 1)) = true := by
      simp [Cursor.charAt_one_of_rest h.facing.rest, isBlankOrEnd, isBlank]
    rw [readToken_colon h.facing.rest rfl hnext, readValueSign, h.noKey]
    have hnone : (s.ready.openBlock .blockMappingStart).key = none := by rw [hkey, h.noKey]
    simp [hflow, hflow', hallowed, ← hnone]

theorem Poised.sign {x : Char} {start lexeme : Lexeme} {rest : List Char}
    (h : s.Poised column indents ls (x :: ' ' :: rest)) (hx : IsBlockSign x start lexeme)
    (hallowed : s.ready.keyAllowed = true) (hrest : startsToken rest) :
    ∃ t, Leads s t ∧
      t.Poised (column + 2) (levels column indents)
        (ls ++ openers start column indents ++ [lexeme]) rest ∧
      t.ready.keyAllowed = true := by
  obtain ⟨hopened, hcursor, -, houter⟩ := h.facing.within.openBlock start h.facing.column
  have hopen : { s.ready.openBlock start with key := none, keyAllowed := true : Scan }.Within
      (levels column indents) 0 (ls ++ openers start column indents) (x :: ([' '] ++ rest)) :=
    hopened.dropKey.rekey rfl rfl rfl rfl rfl rfl (List.Sublist.refl _) hopened.depth
  have hgap : ∀ y ∈ [' '], isGap y = true := by simp [isGap]
  have hfacing : s.Facing column indents 0 ls (x :: ([' '] ++ rest)) := h.facing
  obtain ⟨u, hleads, hu, hucursor, huallowed, hukeys⟩ :=
    hfacing.leads_sign hopen (h.readToken_sign hx hallowed) hcursor hgap hrest
  obtain ⟨hpass, hnext⟩ := Cursor.passes_next h.facing.rest
  have hwide : Mark.IsWide x := by
    cases hx <;> exact ⟨by decide, by decide⟩
  have hcolumn : u.cursor.column = column + 1 := by
    rw [hucursor, Cursor.column, hpass.mark, Mark.column_past (by simpa using hwide)]
    exact congrArg (· + 1) h.facing.column
  have hspaces : u.cursor.rest = List.replicate 1 ' ' ++ rest := by
    rw [hucursor, hnext]
    rfl
  have hle := le_of_mem_head_levels h.le
  obtain ⟨hfacing, hstill⟩ := hu.facing_spaces hspaces (by
    intro i hi
    have hi' := hle i hi
    omega)
  rw [hcolumn] at hfacing
  refine ⟨u, hleads, ⟨hfacing, ?_, ?_⟩, hstill.trans huallowed⟩
  · refine noKey_of_keys_eq_nil (List.subset_nil.1 ?_)
    have hkeys : u.keys ⊆ keysOf (s.ready.openBlock start).outer none := hukeys
    rwa [houter, h.outer] at hkeys
  · intro i hi
    have hi' := hle i hi
    omega

end Treeline.Yaml.Scan
