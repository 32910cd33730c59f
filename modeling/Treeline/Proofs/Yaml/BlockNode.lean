import Treeline.Proofs.Yaml.Scan.Block

/-!
# Text in block style

What characters are read as does not depend on what stands around them, as long as the next line
does not belong to them. Nodes and collections are put together from parts with this property: an
item is a node behind a dash, an entry is a key and a node, and a collection is a column of items or
of entries.
-/

namespace Treeline.Yaml

open Scan

variable {column least next : Nat} {cs key value : List Char} {lexemes : List Lexeme}
  {lexeme start : Lexeme} {indents : List Nat} {ls : List Lexeme} {rest : List Char} {s : Scan}

/-- What stands at a column of the next line. -/
def newLine (column : Nat) (cs : List Char) : List Char := '\n' :: (List.replicate column ' ' ++ cs)

/-- Steps lead to a token at a column of a line, where the collections that are deeper have ended
and a key may begin. -/
def Scan.Lands (s : Scan) (column : Nat) (indents : List Nat) (ls : List Lexeme)
    (rest : List Char) : Prop :=
  ∃ t, Leads s t ∧ t.Poised column (indents.dropWhile (column < ·)) (ls ++ blockEnds column indents)
    rest ∧ t.ready.keyAllowed = true

/-- What can stand behind a document: its end, or the end of the text. -/
def IsLast (rest : List Char) : Prop := rest = [] ∨ rest = "...\n".toList

/-- What is on the next line does not belong to a node inside the open collections. -/
def Ends (indents : List Nat) (next : Nat) (rest : List Char) : Prop :=
  startsToken rest ∧ (∀ i ∈ indents.head?, next ≤ i) ∧ (indents = [] → next = 0 ∧ IsLast rest)

/-- Characters that are read as tokens wherever a node stands whose further lines begin at the column
`least` or behind it. -/
structure IsLeaf (least : Nat) (cs : List Char) (lexemes : List Lexeme) : Prop where
  starts : ∀ rest, startsToken (cs ++ rest)
  allowed : ∀ x ∈ cs, isAllowed x = true
  lands : ∀ {s : Scan} {column : Nat} {indents : List Nat} {ls : List Lexeme} {next : Nat}
    {rest : List Char}, s.Poised column indents ls (cs ++ newLine next rest) →
    (∀ i ∈ indents.head?, i < column ∧ i < least) → Ends indents next rest →
    s.Lands next indents (ls ++ lexemes) rest

/-- Characters at a column that are read as tokens inside a collection. -/
structure IsNode (column : Nat) (cs : List Char) (lexemes : List Lexeme) : Prop where
  starts : ∀ rest, startsToken (cs ++ rest)
  allowed : ∀ x ∈ cs, isAllowed x = true
  lands : ∀ {s : Scan} {i : Nat} {indents : List Nat} {ls : List Lexeme} {next : Nat}
    {rest : List Char}, s.Poised column (i :: indents) ls (cs ++ newLine next rest) →
    s.ready.keyAllowed = true → i < column → next ≤ i → startsToken rest →
    s.Lands next (i :: indents) (ls ++ lexemes) rest

/-- Characters at a column that are read as the items or the entries of a collection, which begins
here if no collection at this column is open. -/
structure IsBlock (start : Lexeme) (column : Nat) (cs : List Char) (lexemes : List Lexeme) :
    Prop where
  starts : ∀ rest, startsToken (cs ++ rest)
  allowed : ∀ x ∈ cs, isAllowed x = true
  lands : ∀ {s : Scan} {indents : List Nat} {ls : List Lexeme} {next : Nat} {rest : List Char},
    s.Poised column indents ls (cs ++ newLine next rest) →
    s.ready.keyAllowed = true → next ≤ column → startsToken rest →
    s.Lands next (levels column indents) (ls ++ openers start column indents ++ lexemes) rest

/-- Characters that are read as a key if a colon stands behind them. -/
structure IsKey (cs : List Char) (lexeme : Lexeme) : Prop where
  starts : ∀ rest, startsToken (cs ++ rest)
  allowed : ∀ x ∈ cs, isAllowed x = true
  leads : ∀ {s : Scan} {column : Nat} {indents : List Nat} {ls : List Lexeme} {gap rest : List Char},
    s.Poised column indents ls (cs ++ ':' :: (gap ++ rest)) → s.ready.keyAllowed = true →
    isBlankOrEnd ((gap ++ rest).head?.getD endOfText) = true → (∀ x ∈ gap, isGap x = true) →
    startsToken rest →
    ∃ t, Leads s t ∧
      t.Within (levels column indents) 0
        (ls ++ openers .blockMappingStart column indents ++ [.key, lexeme, .value]) rest ∧
      t.cursor.rest = gap ++ rest ∧ column < t.cursor.column ∧ t.keys = []

/-! ### Landing on a line -/

theorem head_levels (h : ∀ i ∈ indents.head?, i ≤ column) :
    ∃ more, levels column indents = column :: more := by
  cases indents with
  | nil => exact ⟨[], rfl⟩
  | cons i indents =>
    have hi := h i rfl
    by_cases hlt : i < column
    · exact ⟨i :: indents, by simp [levels, hlt]⟩
    · refine ⟨indents, ?_⟩
      rw [Nat.le_antisymm hi (Nat.not_lt.1 hlt), levels_self]

theorem Scan.Lands.trans {t : Scan} (h : Leads s t) (h' : t.Lands column indents ls rest) :
    s.Lands column indents ls rest := by
  obtain ⟨u, hleads, hu⟩ := h'
  exact ⟨u, h.trans hleads, hu⟩

theorem Scan.Lands.exists_poised (h : s.Lands column (column :: indents) ls rest) :
    ∃ t, Leads s t ∧ t.Poised column (column :: indents) ls rest ∧ t.ready.keyAllowed = true := by
  obtain ⟨t, hleads, ht, hallowed⟩ := h
  refine ⟨t, hleads, ?_, hallowed⟩
  simpa [blockEnds] using ht

/-! ### Nodes -/

theorem IsLeaf.node (h : IsLeaf least cs lexemes) (hleast : column ≤ least) :
    IsNode column cs lexemes where
  starts := h.starts
  allowed := h.allowed
  lands := by
    intro s i indents ls next rest hs _ hi hnext hrest
    refine h.lands hs ?_ ⟨hrest, ?_, nofun⟩
    · rintro j ⟨⟩
      exact ⟨hi, by omega⟩
    · rintro j ⟨⟩
      exact hnext

/-- A collection that begins deeper than those around it is a node, and ends before the next line. -/
theorem IsBlock.node (h : IsBlock start column cs lexemes) :
    IsNode column cs (start :: (lexemes ++ [.blockEnd])) where
  starts := h.starts
  allowed := h.allowed
  lands := by
    intro s i indents ls next rest hs hallowed hi hnext hrest
    have hlt : ∀ j ∈ (i :: indents).head?, j < column := by
      rintro j ⟨⟩
      exact hi
    obtain ⟨t, hleads, ht, hfresh⟩ := h.lands hs hallowed (by omega) hrest
    rw [levels_of_lt hlt, openers_of_lt start hlt] at ht
    have hdeeper : next < column := by omega
    refine ⟨t, hleads, ?_, hfresh⟩
    simpa [blockEnds, hdeeper, List.replicate_succ] using ht

/-! ### Items and entries -/

theorem startsToken_sign {x : Char} (hx : IsBlockSign x start lexeme) (rest : List Char) :
    startsToken (x :: rest) := by
  cases hx <;> exact startsToken_cons (by decide) rest

theorem isAllowed_sign {x : Char} (hx : IsBlockSign x start lexeme) (h : ∀ y ∈ cs, isAllowed y = true) :
    ∀ y ∈ x :: ' ' :: cs, isAllowed y = true := by
  refine List.forall_mem_cons.2 ⟨?_, List.forall_mem_cons.2 ⟨by decide, h⟩⟩
  cases hx <;> decide

theorem isAllowed_newLine (h : ∀ x ∈ cs, isAllowed x = true) (column : Nat) :
    ∀ x ∈ newLine column cs, isAllowed x = true := by
  refine List.forall_mem_cons.2 ⟨by decide, List.forall_mem_append.2 ⟨?_, h⟩⟩
  intro x hx
  rw [List.eq_of_mem_replicate hx]
  decide

theorem IsNode.signed {x : Char} (h : IsNode (column + 2) cs lexemes)
    (hx : IsBlockSign x start lexeme) :
    IsBlock start column (x :: ' ' :: cs) (lexeme :: lexemes) where
  starts rest := startsToken_sign hx _
  allowed := isAllowed_sign hx h.allowed
  lands := by
    intro s indents ls next rest hs hallowed hnext hrest
    obtain ⟨t, hleads, ht, hfresh⟩ := hs.sign hx hallowed (h.starts _)
    obtain ⟨more, hlevels⟩ := head_levels hs.le
    rw [hlevels] at ht ⊢
    have hlands := h.lands ht hfresh (by omega) hnext hrest
    rw [List.append_assoc] at hlands
    exact .trans hleads hlands

theorem IsBlock.append {others : List Char} {more : List Lexeme}
    (h : IsBlock start column cs lexemes) (h' : IsBlock start column others more) :
    IsBlock start column (cs ++ newLine column others) (lexemes ++ more) where
  starts rest := by
    rw [List.append_assoc]
    exact h.starts _
  allowed := List.forall_mem_append.2 ⟨h.allowed, isAllowed_newLine h'.allowed column⟩
  lands := by
    intro s indents ls next rest hs hallowed hnext hrest
    have hsplit : cs ++ newLine column others ++ newLine next rest =
        cs ++ newLine column (others ++ newLine next rest) := by simp [newLine]
    rw [hsplit] at hs
    obtain ⟨outer, hlevels⟩ := head_levels hs.le
    have hlands := h.lands hs hallowed (Nat.le_refl _) (h'.starts _)
    rw [hlevels] at hlands ⊢
    obtain ⟨t, hleads, ht, hfresh⟩ := hlands.exists_poised
    have hlast := h'.lands ht hfresh hnext hrest
    rw [levels_self, openers_self, List.append_nil, List.append_assoc] at hlast
    exact .trans hleads hlast

/-- A key behind a question mark and a node behind a colon below it. -/
theorem IsLeaf.entry {more : List Lexeme} (hkey : IsLeaf (column + 2) key [lexeme])
    (hvalue : IsNode (column + 2) value more) :
    IsBlock .blockMappingStart column ('?' :: ' ' :: (key ++ newLine column (':' :: ' ' :: value)))
      (.key :: lexeme :: .value :: more) := by
  have hsigned := (hkey.node (Nat.le_refl _)).signed .question
  simpa using hsigned.append (hvalue.signed .colon)

/-- A key before a colon and a node on the same line. -/
theorem IsKey.entry_leaf {more : List Lexeme} (hkey : IsKey key lexeme)
    (hvalue : IsLeaf (column + 2) value more) :
    IsBlock .blockMappingStart column (key ++ ':' :: ' ' :: value)
      (.key :: lexeme :: .value :: more) where
  starts rest := by
    rw [List.append_assoc]
    exact hkey.starts _
  allowed := by
    refine List.forall_mem_append.2 ⟨hkey.allowed, ?_⟩
    exact List.forall_mem_cons.2 ⟨by decide, List.forall_mem_cons.2 ⟨by decide, hvalue.allowed⟩⟩
  lands := by
    intro s indents ls next rest hs hallowed hnext hrest
    have hsplit : key ++ ':' :: ' ' :: value ++ newLine next rest =
        key ++ ':' :: ([' '] ++ (value ++ newLine next rest)) := by simp
    rw [hsplit] at hs
    obtain ⟨t, hleads, ht, hcursor, hcolumn, hkeys⟩ := hkey.leads hs hallowed
      (by simp [isBlankOrEnd, isBlank]) (by simp [isGap]) (hvalue.starts _)
    obtain ⟨outer, hlevels⟩ := head_levels hs.le
    rw [hlevels] at ht ⊢
    have hcursor' : t.cursor.rest = List.replicate 1 ' ' ++ (value ++ newLine next rest) := hcursor
    obtain ⟨hfacing, -⟩ := ht.facing_spaces hcursor' (by
      rintro i ⟨⟩
      omega)
    have hpoised : t.Poised (t.cursor.column + 1) (column :: outer)
        (ls ++ openers .blockMappingStart column indents ++ [.key, lexeme, .value])
        (value ++ newLine next rest) := by
      refine ⟨hfacing, ?_, ?_⟩
      · exact noKey_of_keys_eq_nil hkeys
      · rintro i ⟨⟩
        omega
    have hlands := hvalue.lands hpoised (by
      rintro i ⟨⟩
      omega) ⟨hrest, by
      rintro i ⟨⟩
      exact hnext, by
      rintro ⟨⟩⟩
    refine .trans hleads ?_
    simpa using hlands

/-- A key before a colon and something below it. -/
theorem IsKey.exists_below {below : Nat} (hkey : IsKey key lexeme)
    (hs : s.Poised column indents ls (key ++ ':' :: newLine below rest))
    (hallowed : s.ready.keyAllowed = true) (hbelow : column ≤ below) (hrest : startsToken rest) :
    ∃ t, Leads s t ∧
      t.Poised below (levels column indents)
        (ls ++ openers .blockMappingStart column indents ++ [.key, lexeme, .value]) rest ∧
      t.ready.keyAllowed = true := by
  have hgap : ∀ x ∈ '\n' :: List.replicate below ' ', isGap x = true := by
    refine List.forall_mem_cons.2 ⟨by decide, ?_⟩
    intro x hx
    rw [List.eq_of_mem_replicate hx]
    decide
  have hs' : s.Poised column indents ls
      (key ++ ':' :: (('\n' :: List.replicate below ' ') ++ rest)) := hs
  obtain ⟨t, hleads, ht, hcursor, -, hkeys⟩ := hkey.leads hs' hallowed
    (by simp [isBlankOrEnd, isLineEnd, isBreak]) hgap hrest
  obtain ⟨outer, hlevels⟩ := head_levels hs.le
  rw [hlevels] at ht ⊢
  obtain ⟨hpoised, hfresh⟩ := ht.poised_line hcursor (by simp [hkeys])
  have hnot : ¬ below < column := Nat.not_lt.2 hbelow
  refine ⟨t, hleads, ?_, hfresh⟩
  simpa [blockEnds, hnot] using hpoised

theorem IsKey.starts_below {below : Nat} (hkey : IsKey key lexeme) (rest : List Char) :
    startsToken (key ++ ':' :: newLine below cs ++ rest) := by
  rw [List.append_assoc]
  exact hkey.starts _

theorem IsKey.allowed_below {below : Nat} (hkey : IsKey key lexeme)
    (h : ∀ x ∈ cs, isAllowed x = true) : ∀ x ∈ key ++ ':' :: newLine below cs, isAllowed x = true :=
  List.forall_mem_append.2
    ⟨hkey.allowed, List.forall_mem_cons.2 ⟨by decide, isAllowed_newLine h below⟩⟩

/-- A key before a colon and a node that begins deeper on the next line. -/
theorem IsKey.entry_node {more : List Lexeme} (hkey : IsKey key lexeme)
    (hvalue : IsNode (column + 2) value more) :
    IsBlock .blockMappingStart column (key ++ ':' :: newLine (column + 2) value)
      (.key :: lexeme :: .value :: more) where
  starts := hkey.starts_below
  allowed := hkey.allowed_below hvalue.allowed
  lands := by
    intro s indents ls next rest hs hallowed hnext hrest
    have hsplit : key ++ ':' :: newLine (column + 2) value ++ newLine next rest =
        key ++ ':' :: newLine (column + 2) (value ++ newLine next rest) := by simp [newLine]
    rw [hsplit] at hs
    obtain ⟨t, hleads, ht, hfresh⟩ := hkey.exists_below hs hallowed (by omega) (hvalue.starts _)
    obtain ⟨outer, hlevels⟩ := head_levels hs.le
    rw [hlevels] at ht ⊢
    have hlands := hvalue.lands ht hfresh (by omega) hnext hrest
    refine .trans hleads ?_
    simpa using hlands

/-- A key before a colon and a sequence at the same column on the next line. -/
theorem IsKey.entry_sequence {more : List Lexeme} (hkey : IsKey key lexeme)
    (hvalue : IsBlock .blockSequenceStart column value more) :
    IsBlock .blockMappingStart column (key ++ ':' :: newLine column value)
      (.key :: lexeme :: .value :: more) where
  starts := hkey.starts_below
  allowed := hkey.allowed_below hvalue.allowed
  lands := by
    intro s indents ls next rest hs hallowed hnext hrest
    have hsplit : key ++ ':' :: newLine column value ++ newLine next rest =
        key ++ ':' :: newLine column (value ++ newLine next rest) := by simp [newLine]
    rw [hsplit] at hs
    obtain ⟨t, hleads, ht, hfresh⟩ := hkey.exists_below hs hallowed (Nat.le_refl _)
      (hvalue.starts _)
    obtain ⟨outer, hlevels⟩ := head_levels hs.le
    rw [hlevels] at ht ⊢
    have hlands := hvalue.lands ht hfresh hnext hrest
    rw [levels_self, openers_self] at hlands
    refine .trans hleads ?_
    simpa using hlands

/-! ### Documents -/

theorem poised_ofText {text : List Char} (h : startsToken text) :
    (Scan.ofText text).Poised 0 [] [] text ∧ (Scan.ofText text).ready.keyAllowed = true := by
  have htext : text = [] ++ text := rfl
  have hwithin : (Scan.ofText text).Within [] 0 [] text := within_ofText htext (by simp) h
  have hkeys : (Scan.ofText text).keys = [] := rfl
  exact hwithin.poised_here rfl rfl rfl (by simp [hkeys])

theorem Scan.Poised.documentEnd (h : s.Poised 0 [] ls "...\n".toList) :
    ∃ t, Leads s t ∧ t.Facing 0 [] 0 (ls ++ [.documentEnd]) [] := by
  have hrest : s.ready.cursor.rest = '.' :: '.' :: '.' :: '\n' :: [] := h.facing.rest
  have hdots : s.ready.cursor.rest = ['.', '.', '.'] ++ ['\n'] := h.facing.rest
  obtain ⟨hpass, hafter⟩ := Cursor.passes_skip hdots
  have hready := h.facing.within
  have hunwound : s.ready.unwindAll = { s.ready with held := s.ready.held, indents := [] } := by
    rw [unwindAll, hready.inFlow, hready.indents]
    simp
  have hsame : s.ready.unwindAll = s.ready := by
    rw [hunwound, ← hready.indents]
  have hleave : s.ready.leaveDocument = .ok { s.ready with key := none, keyAllowed := false } := by
    rw [leaveDocument, hsame, hready.dropKey_eq]
    rfl
  have hread : s.ready.readToken =
      .ok ({ s.ready with key := none, keyAllowed := false }.pushSign .documentEnd 3) := by
    rw [readToken_documentEnd hrest h.facing.column, hleave]
    rfl
  have hleft : { s.ready with key := none, keyAllowed := false : Scan }.Within [] 0 ls
      "...\n".toList :=
    hready.dropKey.rekey rfl rfl rfl rfl rfl rfl (List.Sublist.refl _) hready.depth
  have hline : (s.ready.cursor.skip 3).rest = ['\n'] ++ [] := hafter
  have hgap : ∀ x ∈ ['\n'], isGap x = true := by simp [isGap, isBreak]
  have hpushed : ({ s.ready with key := none, keyAllowed := false : Scan }.pushSign .documentEnd
      3).Within [] 0 (ls ++ [.documentEnd]) [] :=
    hleft.push ⟨.documentEnd, s.ready.cursor.mark, (s.ready.cursor.skip 3).mark⟩
      (ahead_of_rest startsToken_nil hgap hline)
  have hshort : (s.ready.cursor.skip 3).rest.length < "...\n".toList.length := by
    rw [hline]
    decide
  obtain ⟨t, hleads, ht, hcursor, -⟩ := h.facing.leads hread hpushed hshort
  have hend : t.cursor.rest = '\n' :: (List.replicate 0 ' ' ++ []) := by
    rw [hcursor]
    exact hline
  obtain ⟨hfacing, -⟩ := ht.facing_line hend
  exact ⟨t, hleads, by simpa [blockEnds] using hfacing⟩

/-- The tokens of a document that is a leaf, with the line that may end it. -/
theorem IsLeaf.exists_tokens (h : IsLeaf least cs lexemes) (hrest : IsLast rest) :
    ∃ tokens tail, TokenStream.ofText (cs ++ newLine 0 rest) = ⟨tokens, none⟩ ∧
      tokens.map Token.lexeme = lexemes ++ tail ∧
      (tail = [.streamEnd] ∨ tail = [.documentEnd, .streamEnd]) := by
  obtain ⟨hpoised, -⟩ := poised_ofText (h.starts (newLine 0 rest))
  have hstart : startsToken rest := by
    rcases hrest with rfl | rfl
    · exact startsToken_nil
    · exact startsToken_cons (by decide) _
  obtain ⟨t, hleads, ht, -⟩ := h.lands hpoised nofun ⟨hstart, nofun, fun _ => ⟨rfl, hrest⟩⟩
  rcases hrest with rfl | rfl
  · obtain ⟨tokens, hstream, htokens⟩ := ht.facing.exists_tokens hleads
    exact ⟨tokens, [.streamEnd], hstream, by simpa [blockEnds] using htokens, .inl rfl⟩
  · have ht' : t.Poised 0 [] lexemes "...\n".toList := by simpa [blockEnds] using ht
    obtain ⟨u, hlast, hu⟩ := ht'.documentEnd
    obtain ⟨tokens, hstream, htokens⟩ := hu.exists_tokens (hleads.trans hlast)
    exact ⟨tokens, [.documentEnd, .streamEnd], hstream, by simpa using htokens, .inr rfl⟩

/-- The tokens of a document that is a collection. -/
theorem IsBlock.exists_tokens (h : IsBlock start 0 cs lexemes) :
    ∃ tokens, TokenStream.ofText (cs ++ newLine 0 []) = ⟨tokens, none⟩ ∧
      tokens.map Token.lexeme = start :: (lexemes ++ [.blockEnd]) ++ [.streamEnd] := by
  obtain ⟨hpoised, hallowed⟩ := poised_ofText (h.starts (newLine 0 []))
  obtain ⟨t, hleads, ht, -⟩ := h.lands hpoised hallowed (Nat.le_refl 0) startsToken_nil
  obtain ⟨tokens, hstream, htokens⟩ := ht.facing.exists_tokens hleads
  exact ⟨tokens, hstream, by simpa [levels, openers, blockEnds] using htokens⟩

end Treeline.Yaml
