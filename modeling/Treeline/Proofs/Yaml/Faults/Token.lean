import Treeline.Proofs.Text.Hex
import Treeline.Proofs.Yaml.Cursor
import Treeline.Proofs.Yaml.Faults.Cause
import Treeline.Yaml.Token.BlockText
import Treeline.Yaml.Token.Name
import Treeline.Yaml.Token.PlainText

/-!
# Faults of single tokens

Each reader of a token, and each reader of a part of one, goes on behind what it reads. Only two of
them convert digits to a number that can be too large: the reader of an escape and the reader of a
version. All others pass on what those come to.
-/

namespace Treeline.Yaml.Token

variable {α : Type}

def restOf (read : α × Cursor) : List Char := read.2.rest

/-! ### Names and tags -/

theorem accounted_readName (context : Context) (make : String → Lexeme) (c : Cursor) :
    Accounted c.rest restOf (readName context make c) := by
  unfold readName
  dsimp only
  split
  · exact .refuseIn
  · exact .ok ((c.next.skipWhile_suffix isWord).trans c.next_suffix)

theorem accounted_readBytes (context : Context) (start : Mark) (fuel : Nat) (c : Cursor) :
    Accounted c.rest restOf (readBytes context start fuel c) := by
  induction fuel generalizing c with
  | zero => exact .ok List.suffix_rfl
  | succ fuel ih =>
    rw [readBytes]
    split
    · exact .ok List.suffix_rfl
    · have hbehind : (c.next.skip 2).rest <:+ c.rest := (c.next.skip_suffix 2).trans c.next_suffix
      dsimp only
      split
      · exact ((ih _).mono hbehind).bind fun read h => .ok List.suffix_rfl
      · exact .refuseIn
      · exact .refuseIn

theorem accounted_readNameParts (context : Context) (start : Mark) (fuel : Nat) (c : Cursor) :
    Accounted c.rest restOf (readNameParts context start fuel c) := by
  induction fuel generalizing c with
  | zero => exact .ok List.suffix_rfl
  | succ fuel ih =>
    rw [readNameParts]
    split
    · refine (accounted_readBytes context start _ c).bind fun read _ => ?_
      dsimp only
      split
      · exact .refuseIn
      · exact (ih read.2).bind fun read' _ => .ok List.suffix_rfl
    · split
      · exact ((ih c.next).mono c.next_suffix).bind fun read _ => .ok List.suffix_rfl
      · exact .ok List.suffix_rfl

theorem accounted_readTagName (context inside : Context) (start : Mark) (c : Cursor) :
    Accounted c.rest restOf (readTagName context inside start c) := by
  rw [readTagName]
  refine (accounted_readNameParts context start _ c).bind fun read _ => ?_
  dsimp only
  split
  · exact .refuseIn
  · exact .ok List.suffix_rfl

theorem accounted_readHandle (context : Context) (start : Mark) (c : Cursor) :
    Accounted c.rest restOf (readHandle context start c) := by
  unfold readHandle
  split
  · exact .refuseIn
  · split
    · exact .ok c.next_suffix
    · dsimp only
      split
      · exact .refuseIn
      · exact .ok ((Cursor.next_suffix _).trans
          ((c.next.skipWhile_suffix isWord).trans c.next_suffix))

theorem accounted_readTagParts (c : Cursor) :
    Accounted c.rest (fun read => read.2.2.rest) (readTagParts c) := by
  unfold readTagParts
  dsimp only
  split
  · refine ((accounted_readTagName .tag .tagName c.mark (c.skip 2)).mono (c.skip_suffix 2)).bind
      fun read _ => ?_
    split
    · exact .refuseIn
    · exact .ok read.2.next_suffix
  · split
    · exact .ok c.next_suffix
    · have hsuffix : ∀ handle : Option String × Cursor, Accounted handle.2.rest
          (fun read : Option String × String × Cursor => read.2.2.rest)
          (readTagName .tag .tagName c.mark handle.2 >>= fun read =>
            .ok (handle.1, read.1, read.2)) :=
        fun handle => (accounted_readTagName _ _ _ handle.2).bind fun read _ => .ok List.suffix_rfl
      split
      · exact (accounted_readHandle .tag c.mark c).bind fun read _ => hsuffix (some read.1, read.2)
      · exact (hsuffix (some "!", c.next)).mono c.next_suffix

theorem accounted_readTag (c : Cursor) : Accounted c.rest restOf (readTag c) := by
  rw [readTag]
  refine (accounted_readTagParts c).bind fun read _ => ?_
  dsimp only
  split
  · exact .ok List.suffix_rfl
  · exact .refuseIn

/-! ### Quoted text -/

theorem accounted_readFoldedBreaks (start : Mark) (fuel : Nat) (c : Cursor) :
    Accounted c.rest restOf (readFoldedBreaks start fuel c) := by
  induction fuel generalizing c with
  | zero => exact .ok List.suffix_rfl
  | succ fuel ih =>
    rw [readFoldedBreaks]
    split
    · exact .refuseIn
    · dsimp only
      split
      · exact .ok (c.skipWhile_suffix isBlank)
      · rename_i x after hbreak
        have hafter := (Cursor.break?_suffix hbreak).trans (c.skipWhile_suffix isBlank)
        exact ((ih after).mono hafter).bind fun read _ => .ok List.suffix_rfl

theorem accounted_readBlanks (start : Mark) (c : Cursor) :
    Accounted c.rest restOf (readBlanks start c) := by
  unfold readBlanks
  dsimp only
  split
  · exact .refuseIn
  · split
    · exact .ok (c.skipWhile_suffix isBlank)
    · rename_i x after hbreak
      have hafter := (Cursor.break?_suffix hbreak).trans (c.skipWhile_suffix isBlank)
      exact ((accounted_readFoldedBreaks start _ after).mono hafter).bind fun read _ =>
        .ok List.suffix_rfl

theorem length_le_of_escapeWidth? {letter : Char} {width : Nat}
    (h : escapeWidth? letter = some width) : width ≤ 4 ∨ letter = 'U' ∧ width = 8 := by
  unfold escapeWidth? at h
  split at h <;> cases h
  · exact .inl (by decide)
  · exact .inl (Nat.le_refl 4)
  · exact .inr ⟨rfl, rfl⟩

/-- Only eight digits can make a code that is too large. -/
theorem accounted_readCode {letter : Char} {width : Nat} (hwidth : escapeWidth? letter = some width)
    (start : Mark) (c : Cursor) :
    Accounted ('\\' :: letter :: c.rest) restOf (readCode start width c) := by
  have hbehind : c.rest <:+ '\\' :: letter :: c.rest :=
    (List.suffix_cons letter c.rest).trans (List.suffix_cons _ _)
  rw [readCode]
  split
  · exact .refuseIn
  · rename_i hdigits
    split
    · exact .refuseIn
    · rename_i hlength
      rw [characterOf]
      split
      · rename_i hlarge
        have htake : (c.rest.take width).length = width :=
          Nat.le_antisymm (List.length_take_le _ _) (Nat.le_of_not_lt hlength)
        have hpow := Text.hexNumber_lt (c.rest.take width)
        rw [htake] at hpow
        obtain hshort | ⟨rfl, rfl⟩ := length_le_of_escapeWidth? hwidth
        -- at most four digits stay below 16 ^ 4, where there are no codes that are too large
        · have hle : 16 ^ width ≤ 16 ^ 4 := Nat.pow_le_pow_right (by decide) hshort
          omega
        · have hhex : ∀ d ∈ c.rest.take 8, (Text.hexValue? d).isSome = true := by
            intro d hd
            have hdigit := List.find?_eq_none.1 hdigits d hd
            rwa [Bool.not_eq_true, Option.isNone_eq_false_iff] at hdigit
          have hcode : IsWideCode (c.rest.take 8) := ⟨htake, hhex, hlarge⟩
          exact Causes.code hcode ⟨[], c.rest.drop 8, by simp⟩
      · split
        · exact .ok ((c.skip_suffix width).trans hbehind)
        · exact .ok ((c.skip_suffix width).trans hbehind)

theorem accounted_readEscape (start : Mark) (c : Cursor) :
    Accounted ('\\' :: c.rest) restOf (readEscape start c) := by
  have hbehind : c.rest <:+ '\\' :: c.rest := List.suffix_cons _ _
  unfold readEscape
  split
  · exact .ok (c.next_suffix.trans hbehind)
  · rename_i width hshort hwidth
    have hletter : c.char ≠ endOfText := by
      intro h
      rw [h] at hwidth
      cases hwidth
    rw [Cursor.rest_of_char rfl hletter]
    exact accounted_readCode hwidth start c.next
  · split
    · rename_i x after hbreak
      exact (accounted_readFoldedBreaks start _ after).mono
        ((Cursor.break?_suffix hbreak).trans hbehind)
    · exact .refuseIn

/-- Where half of a surrogate pair is not spelled, an escape by a code stands for the character with
that code. -/
theorem isValidChar_of_readEscape {text piece : List Char} {width : Nat} {start : Mark} {c after : Cursor}
    (hnone : ¬SpellsHalf text) (hmem : '\\' :: c.rest <:+: text)
    (hshort : shortEscape? c.char = none) (hwidth : escapeWidth? c.char = some width)
    (h : readEscape start c = .ok (piece, after)) :
    (Text.hexNumber (c.next.rest.take width)).isValidChar ∧
      piece = [Char.ofNat (Text.hexNumber (c.next.rest.take width))] := by
  have hletter : c.char ≠ endOfText := by
    intro hend
    rw [hend] at hwidth
    cases hwidth
  rw [readEscape, hshort, hwidth] at h
  dsimp only at h
  rw [readCode] at h
  split at h
  · cases h
  · split at h
    · cases h
    · rename_i hlength
      have htake : (c.next.rest.take width).length = width :=
        Nat.le_antisymm (List.length_take_le _ _) (Nat.le_of_not_lt hlength)
      obtain ⟨read, hread, hpiece⟩ := bind_eq_ok_iff.1 h
      obtain ⟨rfl, rfl⟩ := Prod.mk.inj (Except.ok.inj hpiece)
      rw [characterOf] at hread
      split at hread
      · cases hread
      · split at hread
        · rename_i hvalid
          cases hread
          exact ⟨hvalid, rfl⟩
        · rename_i hsmall hinvalid
          refine absurd ⟨c.char, c.next.rest.take width, by rw [htake, hwidth], ?_, ?_, ?_⟩ hnone
          · rw [Nat.isValidChar] at hinvalid
            omega
          · rw [Nat.isValidChar] at hinvalid
            omega
          · rw [Cursor.rest_of_char rfl hletter] at hmem
            exact List.IsInfix.trans ⟨[], c.next.rest.drop width, by simp⟩ hmem

theorem accounted_readPiece (isDouble : Bool) (start : Mark) (c : Cursor) :
    Accounted c.rest restOf (readPiece isDouble start c) := by
  unfold readPiece
  split
  · exact accounted_readBlanks start c
  · split
    · rename_i hbackslash
      rw [Bool.and_eq_true, decide_eq_true_eq] at hbackslash
      rw [Cursor.rest_of_char hbackslash.2 (by decide)]
      exact accounted_readEscape start c.next
    · split
      · exact .ok (c.skip_suffix 2)
      · exact .ok c.next_suffix

theorem accounted_readPieces (isDouble : Bool) (start : Mark) (fuel : Nat) (c : Cursor) :
    Accounted c.rest restOf (readPieces isDouble start fuel c) := by
  induction fuel generalizing c with
  | zero => exact .ok List.suffix_rfl
  | succ fuel ih =>
    rw [readPieces]
    split
    · exact .ok List.suffix_rfl
    · refine (accounted_readPiece isDouble start c).bind fun read _ => ?_
      exact (ih read.2).bind fun read' _ => .ok List.suffix_rfl

theorem accounted_readQuotedText (isDouble : Bool) (c : Cursor) :
    Accounted c.rest restOf (readQuotedText isDouble c) := by
  rw [readQuotedText]
  refine ((accounted_readPieces isDouble c.mark _ c.next).mono c.next_suffix).bind fun read _ => ?_
  exact .ok read.2.next_suffix

/-! ### Directives -/

theorem accounted_readDirectiveName (start : Mark) (c : Cursor) :
    Accounted c.rest restOf (readDirectiveName start c) := by
  unfold readDirectiveName
  dsimp only
  split
  · exact .refuseIn
  · exact .ok (c.skipWhile_suffix isWord)

theorem rest_eq_takeWhile_append (c : Cursor) (p : Char → Bool) :
    c.rest = c.takeWhile p ++ (c.skipWhile p).rest := by
  have hhead : ∀ x, (c.rest.dropWhile p).head? = some x → p x = false := by
    intro x hx
    have hdrop := List.head?_dropWhile_not p c.rest
    rw [hx] at hdrop
    exact hdrop
  exact (Cursor.passes_skipWhile List.takeWhile_append_dropWhile.symm
    (fun x hx => List.mem_takeWhile_imp hx) hhead).1.rest

theorem of_mem_takeWhile {c : Cursor} {p : Char → Bool} :
    ∀ x ∈ c.takeWhile p, p x = true := fun _ hx => List.mem_takeWhile_imp hx

/-- A number is too long if more digits stand there than can be read. -/
theorem accounted_readVersionNumber {opening : List Char} (hopening : OpensNumber opening)
    (start : Mark) (c : Cursor) :
    Accounted ("%YAML".toList ++ (opening ++ c.rest)) restOf (readVersionNumber start c) := by
  have hbehind : c.rest <:+ "%YAML".toList ++ (opening ++ c.rest) := by
    rw [← List.append_assoc]
    exact List.suffix_append _ _
  unfold readVersionNumber
  dsimp only
  split
  · exact .refuseIn
  · split
    · rename_i hlong
      refine Causes.version hopening (fun d hd => List.mem_takeWhile_imp hd) hlong ?_
      refine ⟨[], c.rest.dropWhile isDigit, ?_⟩
      simp [Cursor.takeWhile]
    · exact .ok ((c.skipWhile_suffix isDigit).trans hbehind)

theorem after_of_readVersionNumber {start : Mark} {c after : Cursor} {n : Nat}
    (h : readVersionNumber start c = .ok (n, after)) : after = c.skipWhile isDigit := by
  unfold readVersionNumber at h
  dsimp only at h
  split_ifs at h <;> cases h
  rfl

theorem accounted_readVersion (start : Mark) (c : Cursor) :
    Accounted ("%YAML".toList ++ c.rest) restOf (readVersion start c) := by
  have hspaces : ∀ x ∈ c.takeWhile (· = ' '), x = ' ' := fun x hx =>
    of_decide_eq_true (of_mem_takeWhile x hx)
  have hrest : c.rest = c.takeWhile (· = ' ') ++ c.skipSpaces.rest :=
    rest_eq_takeWhile_append c (· = ' ')
  generalize c.takeWhile (· = ' ') = spaces at hspaces hrest
  have hmajor := accounted_readVersionNumber ⟨spaces, hspaces, .inl rfl⟩ start c.skipSpaces
  rw [readVersion, hrest]
  refine hmajor.bind_of_ok fun read hread _ => ?_
  obtain ⟨major, after⟩ := read
  obtain rfl := after_of_readVersionNumber hread
  have hdigits := @of_mem_takeWhile c.skipSpaces isDigit
  have hafter := rest_eq_takeWhile_append c.skipSpaces isDigit
  dsimp only
  generalize c.skipSpaces.skipWhile isDigit = after at hafter
  split
  · exact .refuseIn
  · rename_i hdot
    rw [not_not] at hdot
    have hminor := accounted_readVersionNumber
      ⟨spaces, hspaces, .inr ⟨_, hdigits, rfl⟩⟩ start after.next
    have hchars : spaces ++ c.skipSpaces.rest =
        spaces ++ (c.skipSpaces.takeWhile isDigit ++ ['.']) ++ after.next.rest := by
      rw [Cursor.rest_of_char hdot (by decide)] at hafter
      simp only [List.append_assoc, List.singleton_append, ← hafter]
    rw [hchars]
    refine hminor.bind fun read _ => ?_
    split
    · exact .ok List.suffix_rfl
    · exact .refuseIn

theorem accounted_readTagDirective (start : Mark) (c : Cursor) :
    Accounted c.rest restOf (readTagDirective start c) := by
  rw [readTagDirective]
  refine ((accounted_readHandle .directive start _).mono c.skipSpaces_suffix).bind fun read _ => ?_
  dsimp only
  split
  · exact .refuseIn
  · refine ((accounted_readTagName .directive .directiveName start _).mono
      read.2.skipSpaces_suffix).bind fun read' _ => ?_
    split
    · exact .ok List.suffix_rfl
    · exact .refuseIn

theorem skipped_of_readDirectiveName {start : Mark} {c after : Cursor} {name : List Char}
    (h : readDirectiveName start c = .ok (name, after)) : c.rest = name ++ after.rest := by
  unfold readDirectiveName at h
  dsimp only at h
  split at h <;> cases h
  exact rest_eq_takeWhile_append c isWord

theorem accounted_readDirective {c : Cursor} (hsign : c.char = '%') :
    Accounted c.rest restOf (readDirective c) := by
  have hend : ∀ (directive : Directive) (after : Cursor), Accounted after.rest restOf (do
      let stop := after.mark
      let after := if directive = .other then after.skipLine else after
      return ((⟨.directive directive, c.mark, stop⟩ : Token),
        ← endLine .directive c.mark after)) := by
    intro directive after
    have hline : (if directive = .other then after.skipLine else after).rest <:+ after.rest := by
      split
      · exact after.skipLine_suffix
      · exact List.suffix_rfl
    exact ((accounted_endLine .directive c.mark _).mono hline).bind fun behind _ =>
      .ok List.suffix_rfl
  rw [readDirective]
  refine ((accounted_readDirectiveName c.mark c.next).mono c.next_suffix).bind_of_ok
    fun read hread hafter => ?_
  obtain ⟨name, after⟩ := read
  have hrest := skipped_of_readDirectiveName hread
  dsimp only
  split
  · rename_i hname
    have hversion : "%YAML".toList ++ after.rest = c.rest := by
      rw [Cursor.rest_of_char hsign (by decide), hrest, hname]
      rfl
    rw [← hversion]
    exact (accounted_readVersion c.mark after).bind fun read _ => hend read.1 read.2
  · refine Accounted.mono ?_ hafter
    split
    · exact (accounted_readTagDirective c.mark after).bind fun read _ => hend read.1 read.2
    · exact hend .other after

/-! ### Plain text -/

theorem readPlainBreaks_suffix (fuel : Nat) (c : Cursor) :
    (readPlainBreaks fuel c).2.rest <:+ c.rest := by
  induction fuel generalizing c with
  | zero => exact List.suffix_rfl
  | succ fuel ih =>
    rw [readPlainBreaks]
    split
    · exact (ih c.next).trans c.next_suffix
    · split
      · exact List.suffix_rfl
      · rename_i x after hbreak
        have hafter := Cursor.break?_suffix hbreak
        split
        · exact hafter
        · exact (ih after).trans hafter

theorem readPlainGap_suffix (c : Cursor) : (readPlainGap c).after.rest <:+ c.rest := by
  unfold readPlainGap
  dsimp only
  split
  · exact c.skipSpaces_suffix
  · rename_i x after hbreak
    have hafter := (Cursor.break?_suffix hbreak).trans c.skipSpaces_suffix
    split
    · exact hafter
    · have hbreaks := (readPlainBreaks_suffix after.rest.length after).trans hafter
      split
      · rename_i after' hgap
        rwa [hgap] at hbreaks
      · rename_i breaks after' hgap
        rwa [hgap] at hbreaks

theorem readRuns_suffix (inFlow : Bool) (indent fuel : Nat) (c : Cursor) :
    (readRuns inFlow indent fuel c).after.rest <:+ c.rest := by
  induction fuel generalizing c with
  | zero => exact List.suffix_rfl
  | succ fuel ih =>
    have hgap := (readPlainGap_suffix (c.skip (plainRun inFlow c.rest).length)).trans
      (c.skip_suffix (plainRun inFlow c.rest).length)
    rw [readRuns]
    dsimp only
    split
    · exact hgap
    · exact (ih _).trans hgap

theorem readPlainText_suffix (inFlow : Bool) (indent : Nat) (c : Cursor) :
    (readPlainText inFlow indent c).2.1.rest <:+ c.rest :=
  readRuns_suffix inFlow indent c.rest.length c

/-! ### Block text -/

theorem accounted_readIndentation (start : Mark) (c : Cursor) :
    Accounted c.rest restOf (readIndentation start c) := by
  unfold readIndentation
  split
  · exact .ok List.suffix_rfl
  · split
    · exact .refuseIn
    · exact .ok c.next_suffix

theorem accounted_readBlockHeader (start : Mark) (c : Cursor) :
    Accounted c.rest restOf (readBlockHeader start c) := by
  have hend : ∀ (header : BlockHeader) (after : Cursor), Accounted after.rest restOf
      (if isSpaceOrEnd after.char then .ok (header, after)
        else refuseIn .blockScalar start (.expected .blockIndicators after.char) after.mark) := by
    intro header after
    split
    · exact .ok List.suffix_rfl
    · exact .refuseIn
  rw [readBlockHeader]
  split
  · refine ((accounted_readIndentation start c.next).mono c.next_suffix).bind fun read _ => ?_
    exact hend _ read.2
  · refine (accounted_readIndentation start c).bind fun read _ => ?_
    dsimp only
    split
    · exact (hend _ read.2.next).mono read.2.next_suffix
    · exact hend _ read.2

theorem readLeadingBreaks_suffix (fuel reach : Nat) (c : Cursor) :
    (readLeadingBreaks fuel reach c).2.2.rest <:+ c.rest := by
  induction fuel generalizing reach c with
  | zero => exact List.suffix_rfl
  | succ fuel ih =>
    rw [readLeadingBreaks]
    split
    · exact (ih _ c.next).trans c.next_suffix
    · split
      · exact List.suffix_rfl
      · rename_i x after hbreak
        exact (ih reach after).trans (Cursor.break?_suffix hbreak)

theorem skipIndentation_suffix (indent fuel : Nat) (c : Cursor) :
    (skipIndentation indent fuel c).rest <:+ c.rest := by
  induction fuel generalizing c with
  | zero => exact List.suffix_rfl
  | succ fuel ih =>
    rw [skipIndentation]
    split
    · exact (ih c.next).trans c.next_suffix
    · exact List.suffix_rfl

theorem readBreaks_suffix (indent fuel : Nat) (c : Cursor) :
    (readBreaks indent fuel c).2.rest <:+ c.rest := by
  induction fuel generalizing c with
  | zero => exact List.suffix_rfl
  | succ fuel ih =>
    rw [readBreaks]
    dsimp only
    split
    · exact skipIndentation_suffix indent indent c
    · rename_i x after hbreak
      exact (ih after).trans
        ((Cursor.break?_suffix hbreak).trans (skipIndentation_suffix indent indent c))

theorem readLines_suffix (isFolded : Bool) (indent fuel : Nat) (breaks : List Char) (c : Cursor) :
    (readLines isFolded indent fuel breaks c).after.rest <:+ c.rest := by
  induction fuel generalizing breaks c with
  | zero => exact List.suffix_rfl
  | succ fuel ih =>
    have hbreaks := (readBreaks_suffix indent c.skipLine.rest.length c.skipLine.skipBreak).trans
      (c.skipLine.skipBreak_suffix.trans c.skipLine_suffix)
    rw [readLines]
    split
    · exact List.suffix_rfl
    · dsimp only
      split
      · exact (ih _ _).trans hbreaks
      · exact hbreaks

theorem accounted_readBlockText (isFolded : Bool) (parent : Nat) (c : Cursor) :
    Accounted c.rest restOf (readBlockText isFolded parent c) := by
  rw [readBlockText]
  refine ((accounted_readBlockHeader c.mark c.next).mono c.next_suffix).bind fun read _ => ?_
  obtain ⟨⟨chomping, indentation⟩, after⟩ := read
  refine (accounted_endLine .blockScalar c.mark after).bind fun body _ => ?_
  cases indentation with
  | none =>
    exact .ok ((readLines_suffix _ _ _ _ _).trans (readLeadingBreaks_suffix _ _ body))
  | some n => exact .ok ((readLines_suffix _ _ _ _ _).trans (readBreaks_suffix _ _ body))

end Treeline.Yaml.Token
