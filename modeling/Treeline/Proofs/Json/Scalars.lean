import Mathlib.Data.Bool.AllAny
import Treeline.Proofs.Json.Syntax
import Treeline.Proofs.Yaml.PlainText
import Treeline.Proofs.Yaml.QuotedLines

/-!
# Reading the scalars of a JSON text

Strings are read as text between double quotes, character by character. Numbers and the other words
are read as plain text, which goes on up to the gap or the sign behind them.
-/

namespace Treeline.Json

open Yaml Yaml.Token

/-! ### Characters that are kept -/

theorem isKept_iff {x : Char} :
    isKept x = true ↔ isAllowed x = true ∧ x ≠ '\t' ∧ x ≠ '\u0085' := by
  simp [isKept, and_assoc]

theorem isGap_of_isSpace {x : Char} (hx : isSpace x = true) (hkept : isKept x = true) :
    isGap x = true := by
  have htab := (isKept_iff.1 hkept).2.1
  have hcases : x = ' ' ∨ x = '\n' ∨ x = '\r' := by
    simp [isSpace, htab, or_assoc] at hx
    exact hx
  rcases hcases with rfl | rfl | rfl <;> decide

/-- A kept character that is no control character. -/
def IsText (x : Char) : Prop := 0x20 ≤ x.toNat ∧ isKept x = true

/-- A line break in a string stands for itself, and is no line feed. -/
theorem IsText.isLasting {x : Char} (hx : IsText x) (hbreak : isBreak x = true) :
    IsLasting x ∧ x ≠ '\n' := by
  have hne : x ≠ '\r' ∧ x ≠ '\n' := by
    constructor <;> rintro rfl <;> exact absurd hx.1 (by decide)
  exact ⟨⟨hbreak, hne.1, (isKept_iff.1 hx.2).2.2⟩, hne.2⟩

theorem IsText.isBlankOrEnd {x : Char} (hx : IsText x) (hspace : x ≠ ' ')
    (hline : isBreak x = false) : Yaml.isBlankOrEnd x = false := by
  have hend : x ≠ endOfText := by
    rintro rfl
    exact absurd hx.1 (by decide)
  simp [Yaml.isBlankOrEnd, isBlank, isLineEnd, hspace, hline, hend, (isKept_iff.1 hx.2).2.1]

/-! ### Line breaks -/

section

variable {x : Char} {cs : List Char}

theorem keepsLines_cons : keepsLines (x :: cs) = true ↔
    (x = ' ' → ∀ y, cs.head? = some y → isBreak y = false) ∧
      (isBreak x = true → cs.head? ≠ some ' ' ∧ beginsSeparator cs = false) ∧
      keepsLines cs = true := by
  cases cs with
  | nil => simp [keepsLines, beginsSeparator]
  | cons y cs =>
    rw [keepsLines]
    cases hbreak : isBreak x <;> simp [and_assoc, ← imp_iff_not_or]

theorem keepsLines_of_isBreak_eq_false (h : ∀ x ∈ cs, isBreak x = false) : keepsLines cs = true := by
  induction cs with
  | nil => rfl
  | cons x cs ih =>
    obtain ⟨hx, hcs⟩ := List.forall_mem_cons.1 h
    refine keepsLines_cons.2 ⟨fun _ y hy => hcs y (List.mem_of_mem_head? hy), ?_, ih hcs⟩
    rw [hx]
    nofun

theorem keepsLines_of_append {as bs : List Char} (h : keepsLines (as ++ bs) = true) :
    keepsLines bs = true := by
  induction as with
  | nil => exact h
  | cons x as ih => exact ih (keepsLines_cons.1 h).2.2

/-- Behind a space of a string, the line goes on. -/
theorem staysInLine_of_keepsLines (htext : ∀ x ∈ cs, IsText x)
    (h : keepsLines (' ' :: cs) = true) : StaysInLine true cs := by
  induction cs with
  | nil => exact (startsSolid_nil true).staysInLine
  | cons x cs ih =>
    obtain ⟨hx, hcs⟩ := List.forall_mem_cons.1 htext
    obtain ⟨hline, -, hlines⟩ := keepsLines_cons.1 h
    by_cases hspace : x = ' '
    · subst hspace
      exact (ih hcs hlines).space
    · exact (startsSolid_cons (hx.isBlankOrEnd hspace (hline rfl x rfl)) cs).staysInLine

theorem isDocumentSeparator_of_beginsSeparator {c : Cursor} {rest : List Char}
    (h : beginsSeparator cs = false) (hc : c.rest = cs ++ '\x22' :: rest) :
    c.isDocumentSeparator = false := by
  have hquote : isBlankOrEnd '\x22' = false := by decide
  rcases cs with _ | ⟨a, _ | ⟨b, _ | ⟨d, _ | ⟨e, cs⟩⟩⟩⟩
  · exact isDocumentSeparator_of_head hc (by decide)
  · rw [Cursor.isDocumentSeparator, Cursor.isSeparator_of_second hc (by decide),
      Cursor.isSeparator_of_second hc (by decide)]
    rfl
  · simp [Cursor.isDocumentSeparator, Cursor.isSeparator, hc]
  · simp [Cursor.isDocumentSeparator, Cursor.isSeparator, hc, hquote]
  · simp_all [Cursor.isDocumentSeparator, Cursor.isSeparator, beginsSeparator]

theorem startsLine_of_keepsLines (htext : ∀ y ∈ cs, IsText y) (hx : isBreak x = true)
    (h : keepsLines (x :: cs) = true) : StartsLine true cs where
  head y hy := by
    cases cs with
    | nil =>
      cases hy
      exact .inl (by decide)
    | cons _ cs =>
      cases hy
      have hy := htext y List.mem_cons_self
      have hspace : y ≠ ' ' := by
        rintro rfl
        exact ((keepsLines_cons.1 h).2.1 hx).1 rfl
      cases hbreak : isBreak y with
      | false => exact .inl (hy.isBlankOrEnd hspace hbreak)
      | true => exact .inr (hy.isLasting hbreak)
  separatesNone _ _ hc :=
    isDocumentSeparator_of_beginsSeparator ((keepsLines_cons.1 h).2.1 hx).2 hc

end

/-! ### Strings -/

theorem mem_letters {letter x : Char} (h : letters.lookup letter = some x) :
    (letter, x) ∈ letters := by
  obtain ⟨before, after, hletters, -⟩ := List.lookup_eq_some_iff.1 h
  rw [hletters]
  simp

/-- A piece of a string is written without control characters. -/
theorem Piece.isPrintable_chars {p : Piece} (hp : p.IsProper) : ∀ x ∈ p.chars, 0x20 ≤ x.toNat := by
  intro x hx
  cases p with
  | plain y =>
    rw [chars, List.mem_singleton] at hx
    exact hx ▸ hp.1
  | short letter =>
    have hletter : ∀ pair ∈ letters, 0x20 ≤ pair.1.toNat := by decide
    obtain ⟨y, hy⟩ := Option.isSome_iff_exists.1 hp
    rw [chars, List.mem_cons, List.mem_singleton] at hx
    rcases hx with rfl | rfl
    · decide
    · exact hletter (x, y) (mem_letters hy)
  | code digits =>
    rw [chars, List.mem_cons, List.mem_cons] at hx
    rcases hx with rfl | rfl | hx
    · decide
    · decide
    · have hdigit := hp.2.1 x hx
      by_contra hlow
      rw [Text.hexValue?, if_neg (by omega), if_neg (by omega), if_neg (by omega)] at hdigit
      cases hdigit

theorem shortEscape?_of_lookup {letter x : Char} (h : letters.lookup letter = some x) :
    shortEscape? letter = some x := by
  have hescapes : ∀ pair ∈ letters, shortEscape? pair.1 = some pair.2 := by decide
  exact hescapes (letter, x) (mem_letters h)

/-- A piece in front of other text is read as the character that it stands for. -/
theorem Piece.encodes {p : Piece} {cs text : List Char} (hp : p.IsProper)
    (htext : ∀ x ∈ p.chars ++ cs, IsText x) (hlines : keepsLines (p.chars ++ cs) = true)
    (h : Encodes true cs text) : Encodes true (p.chars ++ cs) (p.char :: text) := by
  cases p with
  | plain x =>
    obtain ⟨hx, hcs⟩ := List.forall_mem_cons.1 htext
    by_cases hspace : x = ' '
    · subst hspace
      exact h.space (staysInLine_of_keepsLines hcs hlines)
    · cases hbreak : isBreak x with
      | false => exact h.ordinary ⟨hx.isBlankOrEnd hspace hbreak, hp.2.2, hp.2.1⟩
      | true =>
        obtain ⟨hlasting, hfeed⟩ := hx.isLasting hbreak
        exact h.lasting hlasting hfeed (startsLine_of_keepsLines hcs hbreak hlines)
  | short letter =>
    obtain ⟨x, hx⟩ := Option.isSome_iff_exists.1 hp
    rw [char, hx]
    exact h.shortEscape (shortEscape?_of_lookup hx)
  | code digits =>
    obtain ⟨hlength, hdigits, hvalid⟩ := hp
    have hwidth : escapeWidth? 'u' = some digits.length := by
      rw [hlength]
      rfl
    exact h.codeEscape rfl hwidth hdigits rfl hvalid

variable {pieces : List Piece} {c : Cursor} {rest : List Char}

theorem isText_of_isKept (hproper : ∀ p ∈ pieces, p.IsProper)
    (hkept : ∀ x ∈ quoted pieces, isKept x = true) :
    ∀ x ∈ pieces.flatMap Piece.chars, IsText x := by
  intro x hx
  obtain ⟨p, hp, hxp⟩ := List.mem_flatMap.1 hx
  refine ⟨Piece.isPrintable_chars (hproper p hp) x hxp, hkept x ?_⟩
  simp [quoted, hx]

theorem encodes_flatMap_chars (hproper : ∀ p ∈ pieces, p.IsProper)
    (htext : ∀ x ∈ pieces.flatMap Piece.chars, IsText x)
    (hlines : keepsLines (pieces.flatMap Piece.chars) = true) :
    Encodes true (pieces.flatMap Piece.chars) (pieces.map Piece.char) := by
  induction pieces with
  | nil => exact encodes_nil true
  | cons p pieces ih =>
    obtain ⟨hp, hpieces⟩ := List.forall_mem_cons.1 hproper
    rw [List.flatMap_cons] at htext hlines ⊢
    have hrest := ih hpieces (List.forall_mem_append.1 htext).2 (keepsLines_of_append hlines)
    exact Piece.encodes hp htext hlines hrest

theorem exists_readQuotedText (hproper : ∀ p ∈ pieces, p.IsProper)
    (hkept : ∀ x ∈ quoted pieces, isKept x = true)
    (hlines : keepsLines (pieces.flatMap Piece.chars) = true) (hc : c.rest = quoted pieces ++ rest) :
    ∃ after, readQuotedText true c =
        .ok (⟨.scalar (decoded pieces) false, c.mark, after.mark⟩, after) ∧
      c.Passes (quoted pieces) after ∧ after.rest = rest := by
  have hc' : c.rest = '\x22' :: (pieces.flatMap Piece.chars ++ '\x22' :: rest) := by
    rw [hc, quoted, List.cons_append, List.append_assoc]
    rfl
  obtain ⟨hover, hnext⟩ := Cursor.passes_next hc'
  have hencodes := encodes_flatMap_chars hproper (isText_of_isKept hproper hkept) hlines
  obtain ⟨last, hread, hpass⟩ := hencodes c.mark c.next rest hnext nofun
  have hlast : last.rest = '\x22' :: rest := List.append_cancel_left (hpass.rest.symm.trans hnext)
  obtain ⟨hover', hafter⟩ := Cursor.passes_next hlast
  exact ⟨last.next, readQuotedText_eq hc' hread, (hover.trans hpass).trans hover',
    hafter⟩

/-! ### Words -/

/-- The characters of numbers and of the other words. -/
def wordCharacters : List Char := "0123456789+-.Eaeflnrstu".toList

theorem isSolid_of_mem {x : Char} (hx : x ∈ wordCharacters) : IsSolid x := by
  have hall : ∀ y ∈ wordCharacters, isBlankOrEnd y = false ∧ y ≠ ':' ∧ y ≠ '?' ∧
      isFlowIndicator y = false := List.all_iff_forall_prop.1 (by decide)
  exact hall x hx

theorem mem_digits {x : Char} (hx : Text.isDigit x = true) : x ∈ "0123456789".toList := by
  simp only [Text.isDigit, Bool.and_eq_true, decide_eq_true_eq] at hx
  have hall : ∀ n < 0x3A, 0x30 ≤ n → Char.ofNat n ∈ "0123456789".toList := by decide
  have hmem := hall x.toNat (by omega) hx.1
  rwa [Char.ofNat_toNat] at hmem

theorem mem_wordCharacters {cs : List Char} (h : IsWord cs) : ∀ x ∈ cs, x ∈ wordCharacters := by
  have hdigits : ∀ {cs}, IsDigits cs → ∀ x ∈ cs, x ∈ wordCharacters := by
    intro cs hcs x hx
    have hall : ∀ y ∈ "0123456789".toList, y ∈ wordCharacters :=
      List.all_iff_forall_prop.1 (by decide)
    exact hall x (mem_digits (hcs.2 x hx))
  rcases h with h | ⟨sign, whole, fraction, exponent, rfl, hsign, hwhole, hfraction, hexponent⟩
  · have hwords : ∀ w ∈ ["true".toList, "false".toList, "null".toList],
        w.all (· ∈ wordCharacters) = true := List.all_iff_forall_prop.1 (by decide)
    exact List.all_iff_forall_prop.1 (hwords cs h)
  · simp only [List.forall_mem_append]
    refine ⟨⟨⟨?_, hdigits hwhole.1⟩, ?_⟩, ?_⟩
    · rcases hsign with rfl | rfl
      · simp
      · exact List.forall_mem_singleton.2 (by decide)
    · rcases hfraction with rfl | ⟨digits, rfl, h⟩
      · simp
      · exact List.forall_mem_cons.2 ⟨by decide, hdigits h⟩
    · rcases hexponent with rfl | ⟨e, sign, digits, rfl, he, hsign, h⟩
      · simp
      · refine List.forall_mem_cons.2 ⟨?_, List.forall_mem_append.2 ⟨?_, hdigits h⟩⟩
        · rcases he with rfl | rfl <;> decide
        · rcases hsign with rfl | rfl | rfl
          · simp
          · exact List.forall_mem_singleton.2 (by decide)
          · exact List.forall_mem_singleton.2 (by decide)

theorem exists_head {cs : List Char} (h : IsWord cs) :
    (∃ x more, cs = x :: more ∧ x ∈ "0123456789tfn".toList) ∨
      ∃ x more, cs = '-' :: x :: more ∧ x ∈ "0123456789tfn".toList := by
  have hdigit : ∀ {cs}, IsDigits cs → ∃ x more, cs = x :: more ∧ x ∈ "0123456789tfn".toList := by
    intro cs hcs
    obtain ⟨x, more, rfl⟩ := List.exists_cons_of_ne_nil hcs.1
    have hall : ∀ y ∈ "0123456789".toList, y ∈ "0123456789tfn".toList :=
      List.all_iff_forall_prop.1 (by decide)
    exact ⟨x, more, rfl, hall x (mem_digits (hcs.2 x List.mem_cons_self))⟩
  rcases h with h | ⟨sign, whole, fraction, exponent, rfl, hsign, hwhole, -, -⟩
  · simp only [List.mem_cons, List.not_mem_nil, or_false] at h
    rcases h with rfl | rfl | rfl
    · exact .inl ⟨'t', "rue".toList, rfl, by decide⟩
    · exact .inl ⟨'f', "alse".toList, rfl, by decide⟩
    · exact .inl ⟨'n', "ull".toList, rfl, by decide⟩
  · obtain ⟨x, more, rfl, hx⟩ := hdigit hwhole.1
    rcases hsign with rfl | rfl
    · exact .inl ⟨x, more ++ fraction ++ exponent, by simp, hx⟩
    · exact .inr ⟨x, more ++ fraction ++ exponent, by simp, hx⟩

theorem startsPlain_of_isWord (inFlow : Bool) {cs : List Char} (h : IsWord cs)
    (hc : c.rest = cs ++ rest) :
    startsPlain inFlow c = true ∧ c.isDocumentSeparator = false := by
  have hall : ∀ y ∈ "0123456789tfn".toList, isBlankOrEnd y = false ∧ y ≠ '-' ∧ y ≠ '.' ∧ y ≠ '?' ∧
      y ≠ ':' ∧ isFlowIndicator y = false ∧
      "#&*!|>\x27\x22%@\x60".toList.contains y = false := List.all_iff_forall_prop.1 (by decide)
  rcases exists_head h with ⟨x, more, rfl, hx⟩ | ⟨x, more, rfl, hx⟩
  · obtain ⟨hblank, hdash, hdot, hquestion, hcolon, hflow, hsign⟩ := hall x hx
    have hchar : c.char = x := Cursor.char_of_rest hc
    constructor
    · simp only [startsPlain, hchar, hblank, hdash, hquestion, hcolon, hflow, hsign]
      rfl
    · rw [Cursor.isDocumentSeparator, Cursor.isSeparator_of_head hc hdash,
        Cursor.isSeparator_of_head hc hdot]
      rfl
  · obtain ⟨hblank, hdash, hdot, -⟩ := hall x hx
    have hchar : c.char = '-' := Cursor.char_of_rest hc
    have hsecond : c.charAt 1 = x := Cursor.charAt_one_of_rest hc
    have hsign : isBlankOrEnd '-' = false := by decide
    constructor
    · simp [startsPlain, hchar, hsecond, hblank, hsign]
    · rw [Cursor.isDocumentSeparator, Cursor.isSeparator_of_second hc hdash,
        Cursor.isSeparator_of_second hc hdot]
      rfl

end Treeline.Json
