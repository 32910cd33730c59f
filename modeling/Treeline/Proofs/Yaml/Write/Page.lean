import Mathlib.Data.List.Basic
import Treeline.Yaml.Page

/-!
# What is added to a page

Writing adds characters at the end of a page and changes nothing before them. Which characters these
are depends on the page only through its column and its two marks for the end of the last line.
-/

namespace Treeline.Yaml.Page

variable {p q r : Page} {as bs cs : List Char} {n : Nat}

/-- The second page is the first one with characters behind it. -/
def Adds (p : Page) (cs : List Char) (q : Page) : Prop := q.written = cs.reverse ++ p.written

theorem Adds.refl (p : Page) : p.Adds [] p := rfl

theorem Adds.trans (h : p.Adds as q) (h' : q.Adds bs r) : p.Adds (as ++ bs) r := by
  rw [Adds] at *
  rw [h', h, List.reverse_append, List.append_assoc]

theorem Adds.text (h : empty.Adds cs p) : p.text = cs := by
  rw [Adds] at h
  simp [Page.text, h, empty]

theorem adds_put (p : Page) (cs : List Char) : p.Adds cs (p.put cs) := rfl

/-- The blank that is written in front of what may not touch what stands before it. -/
def blank (p : Page) : List Char := if p.endsBlank then [] else [' ']

/-- The last line holds more than indentation and signs, and no blank ends it. -/
structure IsText (p : Page) : Prop where
  endsBlank : p.endsBlank = false
  isIndentation : p.isIndentation = false

/-- The last line holds nothing but indentation and signs up to a column. -/
structure IsFresh (p : Page) (n : Nat) : Prop where
  column : p.column = n
  endsBlank : p.endsBlank = true
  isIndentation : p.isIndentation = true

theorem IsText.blank (h : p.IsText) : p.blank = [' '] := by
  simp [Page.blank, h.endsBlank]

theorem IsFresh.blank (h : p.IsFresh n) : p.blank = [] := by
  simp [Page.blank, h.endsBlank]

theorem isFresh_empty : empty.IsFresh 0 := ⟨rfl, rfl, rfl⟩

theorem isText_sign (p : Page) (cs : List Char) (needsBlank : Bool) :
    (p.sign cs needsBlank).IsText := ⟨rfl, rfl⟩

theorem adds_sign (p : Page) (cs : List Char) : p.Adds (p.blank ++ cs) (p.sign cs true) := by
  cases h : p.endsBlank <;> simp [Adds, sign, put, Page.blank, h]

theorem adds_touching (p : Page) (cs : List Char) : p.Adds cs (p.sign cs false) := by
  simp [Adds, sign, put]

/-! ### New lines -/

theorem IsFresh.adds_indentTo {m : Nat} (h : p.IsFresh m) (hm : m ≤ n) :
    p.Adds (List.replicate (n - m) ' ') (p.indentTo n) ∧ (p.indentTo n).IsFresh n := by
  have hline : (!p.isIndentation || n < p.column || (p.column = n && !p.endsBlank)) = false := by
    simp [h.isIndentation, h.endsBlank, h.column, hm]
  rw [Page.indentTo, hline]
  by_cases hlt : m < n
  · simp only [Bool.false_eq_true, if_false, h.column, if_pos hlt]
    refine ⟨by simp [Adds, put], ?_, rfl, h.isIndentation⟩
    simp only [put, h.column, List.length_replicate]
    omega
  · obtain rfl : m = n := by omega
    simp only [Bool.false_eq_true, if_false, h.column, if_neg hlt]
    exact ⟨by simp [Adds], h⟩

/-- A new line begins behind text, or where the column is behind the one to go to. -/
theorem adds_indentTo (h : p.isIndentation = false ∨ n < p.column) :
    p.Adds ('\n' :: List.replicate n ' ') (p.indentTo n) ∧ (p.indentTo n).IsFresh n := by
  have hline : (!p.isIndentation || n < p.column || (p.column = n && !p.endsBlank)) = true := by
    rcases h with h | h
    · simp [h]
    · simp [h]
  have hfresh : p.endLine.IsFresh 0 := ⟨rfl, rfl, rfl⟩
  obtain ⟨hadds, hend⟩ := hfresh.adds_indentTo (Nat.zero_le n)
  have hsame : p.indentTo n = p.endLine.indentTo n := by
    have hnew : (!p.endLine.isIndentation || n < p.endLine.column ||
        (p.endLine.column = n && !p.endLine.endsBlank)) = false := by simp [endLine, putBreak]
    rw [Page.indentTo, Page.indentTo, hline, hnew]
    rfl
  rw [hsame]
  exact ⟨Adds.trans (show p.Adds ['\n'] p.endLine from rfl) hadds, hend⟩

theorem IsText.adds_indentTo (h : p.IsText) (n : Nat) :
    p.Adds ('\n' :: List.replicate n ' ') (p.indentTo n) ∧ (p.indentTo n).IsFresh n :=
  Page.adds_indentTo (.inl h.isIndentation)

end Treeline.Yaml.Page
