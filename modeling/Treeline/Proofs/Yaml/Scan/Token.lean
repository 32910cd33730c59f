import Treeline.Proofs.Yaml.Scan.Step

/-!
# Which token is read

The next character tells which token stands at a place, for most tokens alone. Plain text can begin
with any character that begins nothing else.
-/

namespace Treeline.Yaml.Scan

variable {s : Scan} {x : Char} {rest : List Char}

theorem isEmpty_of_rest (hc : s.cursor.rest = x :: rest) : s.cursor.rest.isEmpty = false := by
  rw [hc]
  rfl

theorem readToken_end (hc : s.cursor.rest = []) : s.readToken = s.readEnd := by
  simp [readToken, hc]

section

variable (hc : s.cursor.rest = x :: rest)

include hc

theorem readToken_opening {lexeme : Lexeme}
    (hx : x = '[' ∧ lexeme = .flowSequenceStart ∨ x = '\x7b' ∧ lexeme = .flowMappingStart) :
    s.readToken = s.readOpening lexeme := by
  rcases hx with ⟨rfl, rfl⟩ | ⟨rfl, rfl⟩ <;>
    simp [readToken, isEmpty_of_rest hc, Cursor.char_of_rest hc, Cursor.isSeparator_of_head hc]

theorem readToken_closing {lexeme : Lexeme}
    (hx : x = ']' ∧ lexeme = .flowSequenceEnd ∨ x = '\x7d' ∧ lexeme = .flowMappingEnd) :
    s.readToken = s.readClosing lexeme := by
  rcases hx with ⟨rfl, rfl⟩ | ⟨rfl, rfl⟩ <;>
    simp [readToken, isEmpty_of_rest hc, Cursor.char_of_rest hc, Cursor.isSeparator_of_head hc]

theorem readToken_comma (hx : x = ',') : s.readToken = s.readFlowEntry := by
  subst hx
  simp [readToken, isEmpty_of_rest hc, Cursor.char_of_rest hc, Cursor.isSeparator_of_head hc]

theorem readToken_colon (hx : x = ':') (hnext : s.inFlow || isBlankOrEnd (s.cursor.charAt 1)) :
    s.readToken = s.readValueSign := by
  subst hx
  simp [readToken, isEmpty_of_rest hc, Cursor.char_of_rest hc, Cursor.isSeparator_of_head hc, hnext]

theorem readToken_quote (isDouble : Bool) (hx : x = if isDouble then '\x22' else '\x27') :
    s.readToken = s.readKeyLike (Token.readQuotedText isDouble) := by
  cases isDouble <;> subst hx <;>
    simp [readToken, isEmpty_of_rest hc, Cursor.char_of_rest hc, Cursor.isSeparator_of_head hc]

end

theorem readToken_sign {y : Char} (hc : s.cursor.rest = x :: y :: rest)
    (hy : isBlankOrEnd y = true) :
    (x = '-' → s.readToken = s.readBlockEntry) ∧ (x = '?' → s.readToken = s.readKeySign) := by
  have hsecond : s.cursor.charAt 1 = y := Cursor.charAt_one_of_rest hc
  have hdash : y ≠ '-' := by
    rintro rfl
    exact absurd hy (by decide)
  constructor <;> rintro rfl
  · simp [readToken, isEmpty_of_rest hc, Cursor.char_of_rest hc, Cursor.isSeparator_of_second hc hdash,
      Cursor.isSeparator_of_head hc, hsecond, hy]
  · simp [readToken, isEmpty_of_rest hc, Cursor.char_of_rest hc, Cursor.isSeparator_of_head hc,
      hsecond, hy]

theorem readToken_documentEnd (hc : s.cursor.rest = '.' :: '.' :: '.' :: '\n' :: rest)
    (hcolumn : s.cursor.column = 0) :
    s.readToken = s.leaveDocument >>= fun t => .ok (t.pushSign .documentEnd 3) := by
  have hseparator : s.cursor.isSeparator '.' = true := by
    rw [Cursor.isSeparator, hc]
    simp [isBlankOrEnd, isLineEnd, isBreak]
  simp [readToken, isEmpty_of_rest hc, Cursor.char_of_rest hc, Cursor.isSeparator_of_head hc,
    hcolumn, hseparator]
  rfl

theorem readToken_plain (hstart : Token.startsPlain s.inFlow s.cursor = true)
    (hseparator : s.cursor.isDocumentSeparator = false) : s.readToken = s.readPlain := by
  rw [Cursor.isDocumentSeparator, Bool.or_eq_false_iff] at hseparator
  have hstart' := hstart
  have hblank : isBlankOrEnd s.cursor.char = false := by
    by_contra h
    rw [Bool.not_eq_false] at h
    simp [Token.startsPlain, h] at hstart
  have hrest : s.cursor.rest.isEmpty = false := by
    by_contra h
    rw [Bool.not_eq_false, List.isEmpty_iff] at h
    simp [Cursor.char, h, isBlankOrEnd, isLineEnd] at hblank
  simp only [Token.startsPlain, hblank, Bool.false_eq_true, if_false] at hstart
  by_cases hdash : s.cursor.char = '-'
  · rw [if_pos hdash, Bool.not_eq_true'] at hstart
    simp [readToken, hrest, hdash, hseparator, hstart, hstart']
  rw [if_neg hdash] at hstart
  by_cases hsign : s.cursor.char = '?' ∨ s.cursor.char = ':'
  · have hsecond : isBlankOrEnd (s.cursor.charAt 1) = false ∧ s.inFlow = false := by
      simpa [hsign] using hstart
    rw [hsecond.2] at hstart'
    rcases hsign with hsign | hsign <;>
      simp [readToken, hrest, hsign, hseparator, hsecond, hstart']
  · have hother : isFlowIndicator s.cursor.char = false ∧
        s.cursor.char ∉ "#&*!|>\x27\"%@\x60".toList := by
      simpa [hsign] using hstart
    rw [not_or] at hsign
    simp [isFlowIndicator] at hother
    simp [readToken, hrest, hdash, hsign, hother, hseparator, hstart']

end Treeline.Yaml.Scan
