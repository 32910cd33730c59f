import Treeline.Proofs.Yaml.BlockNode
import Treeline.Proofs.Yaml.PlainRuns
import Treeline.Proofs.Yaml.QuotedLines

/-!
# Scalars in block style

Quoted text, plain text and empty brackets are leaves: they are read wherever a node stands. On one
line, text is also read as a key.
-/

namespace Treeline.Yaml

open Scan Token

variable {least : Nat} {cs text : List Char} {isDouble : Bool} {lexeme : Lexeme}

theorem isGap_newLine (next : Nat) : ∀ x ∈ '\n' :: List.replicate next ' ', isGap x = true := by
  refine List.forall_mem_cons.2 ⟨by decide, ?_⟩
  intro x hx
  rw [List.eq_of_mem_replicate hx]
  decide

theorem head?_ne_of_lt {column : Nat} {indents : List Nat}
    (h : ∀ i ∈ indents.head?, i < column ∧ i < least) : indents.head? ≠ some column := by
  intro hhead
  exact Nat.lt_irrefl column (h column hhead).1

/-! ### Keys -/

/-- Characters on one line that are read as one token are a key if they are not too long. -/
theorem isKey_of_reads (hstarts : ∀ rest, startsToken (cs ++ rest))
    (hallowed : ∀ x ∈ cs, isAllowed x = true) (hne : cs ≠ []) (hwide : ∀ x ∈ cs, Mark.IsWide x)
    (hlength : cs.length ≤ maxKeyLength)
    (hread : ∀ (s : Scan) (more : List Char), s.inFlow = false → s.cursor.rest = cs ++ ':' :: more →
      isBlankOrEnd (more.head?.getD endOfText) = true → s.textIndent ≤ s.cursor.column + 1 →
      ∃ token after, token.lexeme = lexeme ∧ s.cursor.Passes cs after ∧ after.rest = ':' :: more ∧
        ∀ key, s.saveKey = .ok { s with key := key } →
          s.readToken = .ok ({ s with key := key, keyAllowed := false }.pushRead (token, after))) :
    IsKey cs lexeme where
  starts := hstarts
  allowed := hallowed
  leads := by
    intro s column indents ls gap rest hs hkey hblank hgap hrest
    have hflow : s.ready.inFlow = false := by rw [inFlow, hs.outer]; rfl
    have hindent : s.ready.textIndent ≤ s.ready.cursor.column + 1 := by
      rw [textIndent, hs.facing.within.indents, hs.facing.column]
      cases indents with
      | nil => exact Nat.zero_le _
      | cons i indents => exact Nat.succ_le_succ (hs.le i rfl)
    obtain ⟨token, after, rfl, hpass, hafter, htoken⟩ :=
      hread s.ready (gap ++ rest) hflow hs.facing.rest hblank hindent
    have hcolumn : after.column = column + cs.length := by
      rw [Cursor.column, hpass.mark, Mark.column_past hwide]
      exact congrArg (· + cs.length) hs.facing.column
    have hafter' : after.rest = [] ++ ':' :: (gap ++ rest) := hafter
    obtain ⟨t, hleads, ht, hcursor, hplace, hkeys⟩ := hs.facing.entry hkey htoken hpass
      (fun x hx => (hwide x hx).1) hafter' (by simp) (by simpa using hlength) hne
      (.inr fun i hi => by
        have hi' := hs.le i hi
        omega) (.inr hblank) hgap hrest
    have hopens : opensMapping indents 0 column = indents.head?.all (· < column) := by
      simp [opensMapping]
    rw [hopens] at ht
    refine ⟨t, hleads, ht, hcursor, ?_, hkeys rfl⟩
    rw [hplace, hcolumn]
    simp only [List.length_nil]
    omega

/-! ### Quoted text -/

def inQuotes (isDouble : Bool) (cs : List Char) : List Char :=
  quote isDouble :: (cs ++ [quote isDouble])

theorem startsToken_inQuotes (isDouble : Bool) (cs rest : List Char) :
    startsToken (inQuotes isDouble cs ++ rest) := by
  cases isDouble <;> exact startsToken_cons (by decide) _

theorem isAllowed_inQuotes (h : ∀ x ∈ cs, isAllowed x = true) :
    ∀ x ∈ inQuotes isDouble cs, isAllowed x = true := by
  have hquote : isAllowed (quote isDouble) = true := by cases isDouble <;> decide
  exact List.forall_mem_cons.2 ⟨hquote, List.forall_mem_append.2 ⟨h, by simpa using hquote⟩⟩

theorem Token.Encodes.exists_readQuotedText (h : Encodes isDouble cs text) {c : Cursor}
    {rest : List Char} (hc : c.rest = inQuotes isDouble cs ++ rest)
    (hrest : rest.head? ≠ some '\x27') :
    ∃ stop after, readQuotedText isDouble c =
        .ok (⟨.scalar (String.ofList text) false, c.mark, stop⟩, after) ∧
      c.Passes (inQuotes isDouble cs) after ∧ after.rest = rest := by
  have hc' : c.rest = quote isDouble :: (cs ++ quote isDouble :: rest) := by
    simpa [inQuotes] using hc
  obtain ⟨hpass, hnext⟩ := Cursor.passes_next hc'
  obtain ⟨last, hread, hover⟩ := h c.mark c.next rest hnext fun _ => hrest
  have hlast : last.rest = quote isDouble :: rest :=
    (List.append_cancel_left (hnext.symm.trans hover.rest)).symm
  obtain ⟨hquote, hafter⟩ := Cursor.passes_next hlast
  refine ⟨_, last.next, readQuotedText_eq hc' hread, ?_, hafter⟩
  have hall := (hpass.trans hover).trans hquote
  simpa [inQuotes] using hall

theorem Token.Encodes.leaf (h : Encodes isDouble cs text) (hallowed : ∀ x ∈ cs, isAllowed x = true)
    (least : Nat) : IsLeaf least (inQuotes isDouble cs) [.scalar (String.ofList text) false] where
  starts := startsToken_inQuotes isDouble cs
  allowed := isAllowed_inQuotes hallowed
  lands := by
    intro s column indents ls next rest hs hindents hends
    obtain ⟨stop, after, hread, hpass, hafter⟩ :=
      h.exists_readQuotedText hs.facing.rest (by simp [newLine])
    have hafter' : after.rest = ('\n' :: List.replicate next ' ') ++ rest := hafter
    have hfacing := hs.facing
    rw [inQuotes] at hfacing
    obtain ⟨t, hleads, ht, rfl, -, hlines⟩ := hfacing.quoted isDouble (.inr (head?_ne_of_lt hindents))
      hread hpass (List.cons_ne_nil _ _) hafter' (isGap_newLine next) hends.1
    obtain ⟨hpoised, hfresh⟩ := ht.poised_line hafter (by
      intro k hk
      rw [hlines k hk, hpass.mark]
      exact Mark.line_le_past _ _ _)
    exact ⟨t, hleads, hpoised, hfresh⟩

theorem Token.Encodes.key (h : Encodes isDouble cs text) (hallowed : ∀ x ∈ cs, isAllowed x = true)
    (hwide : ∀ x ∈ cs, Mark.IsWide x) (hlength : (inQuotes isDouble cs).length ≤ maxKeyLength) :
    IsKey (inQuotes isDouble cs) (.scalar (String.ofList text) false) := by
  have hquote : Mark.IsWide (quote isDouble) := by
    cases isDouble <;> exact ⟨by decide, by decide⟩
  refine isKey_of_reads (startsToken_inQuotes isDouble cs) (isAllowed_inQuotes hallowed)
    (List.cons_ne_nil _ _) ?_ hlength ?_
  · exact List.forall_mem_cons.2 ⟨hquote, List.forall_mem_append.2 ⟨hwide, by simpa using hquote⟩⟩
  · intro s more _ hcursor _ _
    obtain ⟨stop, after, hread, hpass, hafter⟩ := h.exists_readQuotedText hcursor (by simp)
    refine ⟨⟨.scalar (String.ofList text) false, s.cursor.mark, stop⟩, after, rfl, hpass, hafter, ?_⟩
    intro key hsave
    exact readToken_quoted hcursor hsave hread

/-! ### Plain text -/

/-- Characters of plain text that can stand anywhere outside of brackets. -/
structure IsPlainText (least : Nat) (cs text : List Char) : Prop where
  runs : IsRuns least cs text
  starts : ∀ rest, startsToken (cs ++ rest)
  allowed : ∀ x ∈ cs, isAllowed x = true
  opens : ∀ (c : Cursor) (rest : List Char), c.rest = cs ++ rest → plainRun false rest = [] →
    startsPlain false c = true ∧ c.isDocumentSeparator = false

/-- Behind plain text inside the open collections, the next line ends it. -/
theorem stopsBehind_of_ends {s : Scan} {indents : List Nat} {next : Nat} {rest : List Char}
    (hs : s.indents = indents) (h : Ends indents next rest) :
    StopsBehind false s.textIndent ('\n' :: List.replicate next ' ') rest := by
  rw [textIndent, hs]
  cases indents with
  | nil =>
    obtain ⟨rfl, rfl | rfl⟩ := h.2.2 rfl
    · exact stopsBehind_of_run 0 (isGap_newLine 0) startsToken_nil rfl
    · exact stopsBehind_separator 0
  | cons i indents => exact stopsBehind_of_indent (Nat.lt_succ_of_le (h.2.1 i rfl)) h.1

theorem IsPlainText.leaf (h : IsPlainText least cs text) :
    IsLeaf least cs [.scalar (String.ofList text) true] where
  starts := h.starts
  allowed := h.allowed
  lands := by
    intro s column indents ls next rest hs hindents hends
    have hcursor : s.ready.cursor.rest = cs ++ (('\n' :: List.replicate next ' ') ++ rest) :=
      hs.facing.rest
    have hblank : plainRun false (('\n' :: List.replicate next ' ') ++ rest) = [] :=
      plainRun_of_blank (by decide) _
    have hstop := stopsBehind_of_ends hs.facing.within.indents hends
    have hindent : s.ready.textIndent ≤ least ∧ s.ready.textIndent ≤ s.ready.cursor.column + 1 := by
      rw [textIndent, hs.facing.within.indents, hs.facing.column]
      cases indents with
      | nil => exact ⟨Nat.zero_le _, Nat.zero_le _⟩
      | cons i indents =>
        obtain ⟨hcolumn, hleast⟩ := hindents i rfl
        exact ⟨hleast, Nat.succ_le_succ (Nat.le_of_lt hcolumn)⟩
    obtain ⟨hopens, hseparator⟩ := h.opens _ _ hcursor hblank
    have hfuel : cs.length ≤ s.ready.cursor.rest.length := by
      rw [hcursor, List.length_append]
      omega
    obtain ⟨stop, after, hread, hpass, hafter⟩ :=
      h.runs.reads hindent.1 hindent.2 hcursor hstop hblank hfuel
    have htext : readPlainText false s.ready.textIndent s.ready.cursor =
        (⟨.scalar (String.ofList text) true, s.ready.cursor.mark, stop⟩, after, true) := by
      rw [readPlainText, hread]
      simp [isBreak]
    obtain ⟨t, hleads, ht, rfl, hallowed, hlines⟩ := hs.facing.plain (.inr (head?_ne_of_lt hindents))
      rfl hopens hseparator htext hpass (List.append_ne_nil_of_left_ne_nil h.runs.ne _) hafter
      hends.1
    have hcolumn : t.cursor.column = next := by
      rw [Cursor.column, hpass.mark, Mark.past_append, Mark.past_cons, Mark.next_lineFeed,
        Mark.column_past, List.length_replicate, Nat.zero_add]
      intro x hx
      rw [List.eq_of_mem_replicate hx]
      exact ⟨by decide, by decide⟩
    obtain ⟨hpoised, hfresh⟩ := ht.poised_here hafter hcolumn hallowed (by
      intro k hk
      rw [hlines k hk, hpass.mark]
      exact Mark.line_lt_past (by simp) _ _)
    exact ⟨t, hleads, hpoised, hfresh⟩

theorem plainRun_colon {more : List Char} (h : isBlankOrEnd (more.head?.getD endOfText) = true) :
    plainRun false (':' :: more) = [] := by
  rw [plainRun, if_pos (by simp [endsPlain, h])]

theorem IsPlainText.key (h : ∀ least, IsPlainText least cs text) (hwide : ∀ x ∈ cs, Mark.IsWide x)
    (hlength : cs.length ≤ maxKeyLength) :
    IsKey cs (.scalar (String.ofList text) true) := by
  refine isKey_of_reads (h 0).starts (h 0).allowed (h 0).runs.ne hwide hlength ?_
  intro s more hflow hcursor hblank hindent
  have hend := plainRun_colon hblank
  obtain ⟨hopens, hseparator⟩ := (h 0).opens _ _ hcursor hend
  have hstop : StopsBehind false s.textIndent [] (':' :: more) :=
    stopsBehind_of_run _ (by simp) (startsToken_cons (by decide) more) hend
  have hfuel : cs.length ≤ s.cursor.rest.length := by
    rw [hcursor, List.length_append]
    omega
  obtain ⟨stop, after, hread, hpass, hafter⟩ :=
    (h s.textIndent).runs.reads (Nat.le_refl _) hindent hcursor hstop hend hfuel
  refine ⟨⟨.scalar (String.ofList text) true, s.cursor.mark, stop⟩, after, rfl, by simpa using hpass,
    hafter, ?_⟩
  intro key hsave
  have htext : readPlainText s.inFlow s.textIndent s.cursor =
      (⟨.scalar (String.ofList text) true, s.cursor.mark, stop⟩, after, false) := by
    rw [hflow, readPlainText, hread]
    rfl
  rw [← hflow] at hopens
  exact readToken_plainText hopens hseparator hsave htext

/-! ### Empty brackets -/

theorem isLeaf_brackets {x y : Char} {first last : Lexeme}
    (hx : x = '[' ∧ first = .flowSequenceStart ∨ x = '\x7b' ∧ first = .flowMappingStart)
    (hy : y = ']' ∧ last = .flowSequenceEnd ∨ y = '\x7d' ∧ last = .flowMappingEnd) (least : Nat) :
    IsLeaf least [x, y] [first, last] where
  starts rest := by
    rcases hx with ⟨rfl, -⟩ | ⟨rfl, -⟩ <;> exact startsToken_cons (by decide) _
  allowed := by
    have hxy : isAllowed x = true ∧ isAllowed y = true := by
      constructor
      · rcases hx with ⟨rfl, -⟩ | ⟨rfl, -⟩ <;> decide
      · rcases hy with ⟨rfl, -⟩ | ⟨rfl, -⟩ <;> decide
    simpa using hxy
  lands := by
    intro s column indents ls next rest hs hindents hends
    have hwide : isBreak y = false := by
      rcases hy with ⟨rfl, -⟩ | ⟨rfl, -⟩ <;> decide
    have hstart : startsToken (y :: newLine next rest) := by
      rcases hy with ⟨rfl, -⟩ | ⟨rfl, -⟩ <;> exact startsToken_cons (by decide) _
    have hfacing : s.Facing column indents 0 ls (x :: ([] ++ y :: newLine next rest)) := hs.facing
    obtain ⟨t, hleads, ht, hcursor, -, hlines⟩ :=
      hfacing.opening hx (.inr (head?_ne_of_lt hindents)) (by simp) hstart
    have ht' : t.Within indents (0 + 1) (ls ++ [first])
        (y :: (('\n' :: List.replicate next ' ') ++ rest)) := ht
    obtain ⟨u, hclose, hu, hucursor, hulines⟩ := ht'.closing hy (isGap_newLine next) hends.1
    obtain ⟨hpass, hnext⟩ := Cursor.passes_next (ht.facing_flat (.inl (Nat.succ_pos 0))).rest
    obtain ⟨hpoised, hfresh⟩ := hu.poised_line (by rw [hucursor, hnext]; rfl) (by
      intro k hk
      rw [hulines k hk, hucursor, hpass.mark]
      exact Mark.line_le_past _ _ _)
    refine ⟨u, hleads.trans hclose, ?_, hfresh⟩
    simpa using hpoised

end Treeline.Yaml
