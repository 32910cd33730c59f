import Treeline.Proofs.Results
import Treeline.Proofs.Yaml.Cursor
import Treeline.Yaml.Token.QuotedText

/-!
# Reading text in quotes

Text in quotes is read piece by piece: a character, an escape, or a run of blanks. A run that is not
followed by a line break stands for itself, so it may as well be read blank by blank. What is read
from a place is therefore one character of the text, and what is read from the place behind it.
-/

namespace Treeline.Yaml.Token

variable {isDouble : Bool} {start : Mark} {c next after : Cursor} {text : List Char}

/-- From a place on, a text is read, up to a place where the closing quote stands. -/
def ReadsTo (isDouble : Bool) (start : Mark) (c : Cursor) (text : List Char) (after : Cursor) :
    Prop :=
  ∀ fuel, c.rest.length < fuel → readPieces isDouble start fuel c = .ok (text, after)

theorem readsTo_closed (h : isClosed isDouble c = true) : ReadsTo isDouble start c [] c := by
  intro fuel hfuel
  obtain ⟨fuel, rfl⟩ := Nat.exists_eq_succ_of_ne_zero (Nat.ne_zero_of_lt hfuel)
  rw [readPieces, if_pos h]

theorem readsTo_piece {piece : List Char} (hopen : isClosed isDouble c = false)
    (hpiece : readPiece isDouble start c = .ok (piece, next))
    (hshort : next.rest.length < c.rest.length) (h : ReadsTo isDouble start next text after) :
    ReadsTo isDouble start c (piece ++ text) after := by
  intro fuel hfuel
  obtain ⟨fuel, rfl⟩ := Nat.exists_eq_succ_of_ne_zero (Nat.ne_zero_of_lt hfuel)
  have hrest := h fuel (by omega)
  rw [readPieces, hopen, hpiece]
  change (readPieces isDouble start fuel next >>= fun r => .ok (piece ++ r.1, r.2)) = _
  rw [hrest]
  rfl

/-- A run may as well be read from its second character on, with the first one put in front. -/
theorem readsTo_run {x : Char} (hopen : isClosed isDouble c = false)
    (hnext : isClosed isDouble next = false) (hshort : next.rest.length ≤ c.rest.length)
    (hrun : ∀ piece last, readPiece isDouble start next = .ok (piece, last) →
      readPiece isDouble start c = .ok (x :: piece, last))
    (h : ReadsTo isDouble start next text after) : ReadsTo isDouble start c (x :: text) after := by
  intro fuel hfuel
  have hread := h fuel (by omega)
  obtain ⟨fuel, rfl⟩ := Nat.exists_eq_succ_of_ne_zero (Nat.ne_zero_of_lt hfuel)
  rw [readPieces, hnext] at hread
  obtain ⟨⟨piece, last⟩, hpiece, hread⟩ := bind_eq_ok_iff.1 hread
  obtain ⟨⟨others, last'⟩, hothers, hresult⟩ := bind_eq_ok_iff.1 hread
  cases hresult
  rw [readPieces, hopen, hrun piece last hpiece]
  change (readPieces isDouble start fuel last >>= fun r => .ok (x :: piece ++ r.1, r.2)) = _
  rw [hothers]
  rfl

/-! ### Single characters -/

/-- A character that stands for itself and does not end the text. -/
def IsOrdinary (isDouble : Bool) (x : Char) : Prop :=
  isBlankOrEnd x = false ∧ (if isDouble then x ≠ '\\' ∧ x ≠ '\x22' else x ≠ '\x27')

theorem readsTo_ordinary {x : Char} {rest : List Char} (hc : c.rest = x :: rest)
    (hx : IsOrdinary isDouble x) (h : ReadsTo isDouble start c.next text after) :
    ReadsTo isDouble start c (x :: text) after := by
  obtain ⟨hblank, hsign⟩ := hx
  have hchar := Cursor.char_of_rest hc
  have hshort : c.next.rest.length < c.rest.length := by
    rw [(Cursor.passes_next hc).2, hc, List.length_cons]
    omega
  have hopen : isClosed isDouble c = false := by
    cases isDouble with
    | false => simp_all [isClosed]
    | true => simp_all [isClosed]
  have hpiece : readPiece isDouble start c = .ok ([x], c.next) := by
    cases isDouble with
    | false => simp_all [readPiece]
    | true => simp_all [readPiece]
  exact readsTo_piece hopen hpiece hshort h

theorem readsTo_doubled_quote {rest : List Char} (hc : c.rest = '\x27' :: '\x27' :: rest)
    (h : ReadsTo false start c.next.next text after) :
    ReadsTo false start c ('\x27' :: text) after := by
  have hchar := Cursor.char_of_rest hc
  have hsecond : c.charAt 1 = '\x27' := by
    rw [Cursor.charAt_one_of_rest hc]
    rfl
  have hnext := (Cursor.passes_next hc).2
  have hshort : c.next.next.rest.length < c.rest.length := by
    rw [(Cursor.passes_next hnext).2, hc]
    simp only [List.length_cons]
    omega
  have hopen : isClosed false c = false := by simp [isClosed, hchar, hsecond]
  have hpiece : readPiece false start c = .ok (['\x27'], c.next.next) := by
    have hblank : isBlankOrEnd '\x27' = false := by decide
    simp [readPiece, hchar, hblank, Cursor.skip]
  exact readsTo_piece hopen hpiece hshort h

/-! ### Blanks -/

theorem isBlankOrEnd_of_isBlank {x : Char} (hx : isBlank x = true) : isBlankOrEnd x = true := by
  simp [isBlankOrEnd, hx]

theorem isClosed_of_isBlank (isDouble : Bool) {x : Char} {rest : List Char} (hc : c.rest = x :: rest)
    (hx : isBlank x = true) : isClosed isDouble c = false := by
  have hchar := Cursor.char_of_rest hc
  have hne : x ≠ '\x22' ∧ x ≠ '\x27' := by
    constructor <;> rintro rfl <;> exact absurd hx (by decide)
  cases isDouble with
  | false => simp [isClosed, hchar, hne.2]
  | true => simp [isClosed, hchar, hne.1]

/-- A run of blanks that does not end a line stands for itself. -/
theorem readPiece_blanks (isDouble : Bool) (start : Mark) {blanks rest : List Char} {x y : Char}
    (hc : c.rest = x :: (blanks ++ y :: rest)) (hx : isBlank x = true)
    (hblanks : ∀ z ∈ blanks, isBlank z = true) (hy : isBlankOrEnd y = false) :
    ∃ next, c.Passes (x :: blanks) next ∧ readPiece isDouble start c = .ok (x :: blanks, next) := by
  have hrun : ∀ z ∈ x :: blanks, isBlank z = true := List.forall_mem_cons.2 ⟨hx, hblanks⟩
  have hyBlank : isBlank y = false ∧ y ≠ endOfText ∧ isBreak y = false := by
    simpa [isBlankOrEnd, isLineEnd] using hy
  have hstop : ∀ z, (y :: rest).head? = some z → isBlank z = false := by
    rintro z ⟨⟩
    exact hyBlank.1
  have hc' : c.rest = (x :: blanks) ++ y :: rest := hc
  obtain ⟨hpass, hleft⟩ := Cursor.passes_skipWhile hc' hrun hstop
  have htake := Cursor.takeWhile_eq hc' hrun hstop
  refine ⟨c.skipWhile isBlank, hpass, ?_⟩
  have hend : (c.skipWhile isBlank).char ≠ endOfText := by
    rw [Cursor.char_of_rest hleft]
    exact hyBlank.2.1
  have hbreak : (c.skipWhile isBlank).break? = none := by
    refine Cursor.break?_eq_none ?_
    rw [hleft]
    rintro z ⟨⟩
    exact hyBlank.2.2
  rw [readPiece, Cursor.char_of_rest hc, if_pos (isBlankOrEnd_of_isBlank hx), readBlanks,
    if_neg hend, hbreak, htake]

theorem readsTo_blank {x y : Char} {blanks rest : List Char}
    (hc : c.rest = x :: (blanks ++ y :: rest)) (hx : isBlank x = true)
    (hblanks : ∀ z ∈ blanks, isBlank z = true) (hy : isBlankOrEnd y = false)
    (h : ReadsTo isDouble start c.next text after) :
    ReadsTo isDouble start c (x :: text) after := by
  obtain ⟨hover, hnext⟩ := Cursor.passes_next hc
  have hopen := isClosed_of_isBlank isDouble hc hx
  obtain ⟨end₁, hpass, hpiece⟩ := readPiece_blanks isDouble start hc hx hblanks hy
  cases blanks with
  | nil =>
    have heq : end₁ = c.next := hpass.eq hover
    rw [heq] at hpiece
    refine readsTo_piece hopen hpiece ?_ h
    rw [hnext, hc]
    simp
  | cons z blanks =>
    -- the next place begins a run of its own, which ends where this one ends
    obtain ⟨hz, hblanks⟩ := List.forall_mem_cons.1 hblanks
    obtain ⟨end₂, hpass₂, hpiece₂⟩ := readPiece_blanks isDouble start hnext hz hblanks hy
    have heq : end₁ = end₂ := hpass.eq (hover.trans hpass₂)
    refine readsTo_run hopen (isClosed_of_isBlank isDouble hnext hz) ?_ ?_ h
    · rw [hnext, hc]
      simp
    · intro piece last hread
      cases hpiece₂.symm.trans hread
      rw [hpiece, heq]

/-! ### Escapes -/

theorem readsTo_escape {rest piece : List Char} (hc : c.rest = '\\' :: rest)
    (hpiece : readEscape start c.next = .ok (piece, next))
    (hshort : next.rest.length < c.rest.length) (h : ReadsTo true start next text after) :
    ReadsTo true start c (piece ++ text) after := by
  have hchar := Cursor.char_of_rest hc
  have hblank : isBlankOrEnd '\\' = false := by decide
  refine readsTo_piece ?_ ?_ hshort h
  · simp [isClosed, hchar]
  · simpa [readPiece, hchar, hblank] using hpiece

theorem readsTo_shortEscape {e x : Char} {rest : List Char} (hc : c.rest = '\\' :: e :: rest)
    (he : shortEscape? e = some x) (h : ReadsTo true start c.next.next text after) :
    ReadsTo true start c (x :: text) after := by
  have hnext := (Cursor.passes_next hc).2
  have hpiece : readEscape start c.next = .ok ([x], c.next.next) := by
    rw [readEscape, Cursor.char_of_rest hnext, he]
  refine readsTo_escape hc hpiece ?_ h
  rw [(Cursor.passes_next hnext).2, hc]
  simp only [List.length_cons]
  omega

theorem characterOf_eq {code : Nat} (h : code.isValidChar) :
    characterOf code = .ok [Char.ofNat code] := by
  have hle : ¬ 0x10FFFF < code := by
    rcases h with h | h <;> omega
  rw [characterOf, if_neg hle, if_pos h]

theorem readCode_eq {digits rest : List Char} {code : Nat} (hc : c.rest = digits ++ rest)
    (hdigits : ∀ x ∈ digits, (Text.hexValue? x).isSome = true)
    (hcode : Text.hexNumber digits = code) (hvalid : code.isValidChar) :
    readCode start digits.length c = .ok ([Char.ofNat code], c.skip digits.length) := by
  have htake : c.rest.take digits.length = digits := by
    rw [hc, List.take_left']
    rfl
  have hfind : digits.find? (fun x => (Text.hexValue? x).isNone) = none := by
    rw [List.find?_eq_none]
    intro x hx
    simp [Option.isSome_iff_ne_none.1 (hdigits x hx)]
  rw [readCode, htake, hfind]
  simp only [Nat.lt_irrefl, if_false]
  rw [hcode, characterOf_eq hvalid]
  rfl

theorem readsTo_codeEscape {e : Char} {digits rest : List Char} {code : Nat}
    (hc : c.rest = '\\' :: e :: (digits ++ rest)) (hshort : shortEscape? e = none)
    (hwidth : escapeWidth? e = some digits.length)
    (hdigits : ∀ x ∈ digits, (Text.hexValue? x).isSome = true)
    (hcode : Text.hexNumber digits = code) (hvalid : code.isValidChar)
    (h : ReadsTo true start (c.next.next.skip digits.length) text after) :
    ReadsTo true start c (Char.ofNat code :: text) after := by
  have hnext := (Cursor.passes_next hc).2
  have hdigit := (Cursor.passes_next hnext).2
  have hskip := (Cursor.passes_skip hdigit).2
  have hpiece : readEscape start c.next =
      .ok ([Char.ofNat code], c.next.next.skip digits.length) := by
    rw [readEscape, Cursor.char_of_rest hnext, hshort, hwidth]
    exact readCode_eq hdigit hdigits hcode hvalid
  refine readsTo_escape hc hpiece ?_ h
  rw [hskip, hc]
  simp only [List.length_cons, List.length_append]
  omega

/-! ### The whole text -/

def quote (isDouble : Bool) : Char := if isDouble then '\x22' else '\x27'

theorem isClosed_of_rest {rest : List Char} (hc : c.rest = quote isDouble :: rest)
    (hrest : isDouble = false → rest.head? ≠ some '\x27') : isClosed isDouble c = true := by
  have hchar := Cursor.char_of_rest hc
  cases isDouble with
  | true => simpa [isClosed, quote] using hchar
  | false =>
    have hsecond := Cursor.charAt_one_of_rest hc
    have hne : rest.head?.getD endOfText ≠ '\x27' := by
      cases rest with
      | nil => decide
      | cons x rest =>
        intro hx
        exact hrest rfl (congrArg some hx)
    simp only [quote, Bool.false_eq_true, if_false] at hchar
    simp [isClosed, hchar, hsecond, hne]

theorem readQuotedText_eq {rest : List Char} (hc : c.rest = quote isDouble :: rest)
    (h : ReadsTo isDouble c.mark c.next text after) :
    readQuotedText isDouble c =
      .ok (⟨.scalar (String.ofList text) false, c.mark, after.next.mark⟩, after.next) := by
  have hfuel : c.next.rest.length < c.rest.length + 1 := by
    rw [(Cursor.passes_next hc).2, hc, List.length_cons]
    omega
  have hread := h (c.rest.length + 1) hfuel
  simp [readQuotedText, hread, bind, Except.bind, pure, Except.pure]

end Treeline.Yaml.Token
