import Mathlib.Data.List.Chain
import Treeline.Proofs.Yaml.Cursor
import Treeline.Proofs.Yaml.Scan.Step
import Treeline.Yaml.ScalarStyle

/-!
# Characters of scalars that are written

What the conditions on a style say about the characters of a text, and where a run of like characters
ends.
-/

namespace Treeline.Yaml

variable {cs : List Char} {x : Char}

/-! ### Characters -/

/-- A character that can be written as it is, and is no blank. -/
structure IsInk (x : Char) : Prop where
  ordinary : ScalarStyle.isSpecial x = false
  inLine : ScalarStyle.breaksLine x = false
  ne : x ≠ ' '

theorem isAllowed_of_isSpecial (hx : ScalarStyle.isSpecial x = false) :
    isAllowed x = true ∧ x ≠ '\t' ∧ x ≠ '\r' ∧ x ≠ endOfText ∧ x ≠ '\uFEFF' := by
  refine ⟨?_, ?_⟩
  · simp only [ScalarStyle.isSpecial, Bool.or_eq_false_iff, Bool.not_eq_false', Bool.or_eq_true,
      Bool.and_eq_true, decide_eq_true_eq, decide_eq_false_iff_not] at hx
    simp only [isAllowed, Bool.or_eq_true, Bool.and_eq_true, decide_eq_true_eq]
    obtain ⟨(((((rfl | h) | h) | h) | h) | h), -⟩ := hx
    · decide
    all_goals omega
  · refine ⟨?_, ?_, ?_, ?_⟩ <;> rintro rfl <;> exact absurd hx (by decide)

theorem isBreak_eq_false_of_isSpecial (hx : ScalarStyle.isSpecial x = false)
    (hline : ScalarStyle.breaksLine x = false) : isBreak x = false := by
  simpa [ScalarStyle.breaksLine, (isAllowed_of_isSpecial hx).2.2.1] using hline

theorem IsInk.isBreak (h : IsInk x) : isBreak x = false :=
  isBreak_eq_false_of_isSpecial h.ordinary h.inLine

theorem IsInk.isBlankOrEnd (h : IsInk x) : isBlankOrEnd x = false := by
  obtain ⟨-, htab, -, hend, -⟩ := isAllowed_of_isSpecial h.ordinary
  simp [Yaml.isBlankOrEnd, isBlank, isLineEnd, h.ne, htab, hend, h.isBreak]

theorem IsInk.isWide (h : IsInk x) : Mark.IsWide x :=
  ⟨h.isBreak, (isAllowed_of_isSpecial h.ordinary).2.2.2.2⟩

theorem IsInk.isGap (h : IsInk x) : isGap x = false :=
  isGap_eq_false_iff.2 ⟨h.ne, h.isBreak⟩

/-! ### Neighbours and runs -/

namespace ScalarStyle

theorem hasPair_eq_false_iff {p q : Char → Bool} :
    hasPair p q cs = false ↔ cs.IsChain fun a b => (p a && q b) = false := by
  induction cs with
  | nil => simp [hasPair]
  | cons a cs ih =>
    cases cs with
    | nil => simp [hasPair]
    | cons b cs => rw [hasPair, Bool.or_eq_false_iff, ih, List.isChain_cons_cons]

end ScalarStyle

/-- The front of a text that satisfies a condition, and the rest, which begins otherwise. -/
theorem exists_front (p : Char → Bool) (cs : List Char) :
    ∃ front rest, cs = front ++ rest ∧ (∀ x ∈ front, p x = true) ∧
      ∀ x, rest.head? = some x → p x = false := by
  refine ⟨cs.takeWhile p, cs.dropWhile p, (List.takeWhile_append_dropWhile ..).symm, ?_, ?_⟩
  · exact fun x hx => List.mem_takeWhile_imp hx
  · intro x hx
    have hnot := List.head?_dropWhile_not p cs
    rw [hx] at hnot
    simpa using hnot

theorem takeWhile_front {q : Char → Bool} {front rest : List Char} (hfront : ∀ x ∈ front, q x = true)
    (hrest : ∀ x, rest.head? = some x → q x = false) : (front ++ rest).takeWhile q = front := by
  rw [List.takeWhile_append_of_pos hfront]
  cases rest with
  | nil => simp
  | cons x rest => simp [hrest x rfl]

theorem isAllowed_newLine_blanks (column : Nat) :
    ∀ x ∈ '\n' :: List.replicate column ' ', isAllowed x = true := by
  refine List.forall_mem_cons.2 ⟨by decide, ?_⟩
  intro x hx
  rw [List.eq_of_mem_replicate hx]
  decide

end Treeline.Yaml
