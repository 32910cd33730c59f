import Mathlib.Algebra.Group.Nat.Defs
import Mathlib.Data.List.Induction
import Treeline.Text.Hex

/-!
# Numbers in hexadecimal digits

A number is read back from its capital digits if there are enough of them.
-/

namespace Treeline.Text

theorem hexValue?_hexDigitUpper {n : Nat} (h : n < 16) : hexValue? (hexDigitUpper n) = some n := by
  have hall : ∀ m : Fin 16, hexValue? (hexDigitUpper m) = some m.val := by decide
  exact hall ⟨n, h⟩

theorem length_hexUpper (width n : Nat) : (hexUpper width n).length = width := by
  rw [hexUpper]
  induction width generalizing n with
  | zero => rfl
  | succ width ih => rw [hexWith, List.length_append, ih, List.length_singleton]

theorem exists_of_mem_hexUpper {width n : Nat} {x : Char} (h : x ∈ hexUpper width n) :
    ∃ m < 16, x = hexDigitUpper m := by
  rw [hexUpper] at h
  induction width generalizing n with
  | zero => cases h
  | succ width ih =>
    rw [hexWith, List.mem_append, List.mem_singleton] at h
    rcases h with h | h
    · exact ih h
    · exact ⟨n % 16, Nat.mod_lt n (by decide), h⟩

theorem hexNumber_hexUpper {width n : Nat} (h : n < 16 ^ width) :
    hexNumber (hexUpper width n) = n := by
  rw [hexUpper]
  induction width generalizing n with
  | zero =>
    obtain rfl : n = 0 := by simpa using h
    rfl
  | succ width ih =>
    have hquotient : n / 16 < 16 ^ width := by
      rw [Nat.pow_succ] at h
      exact Nat.div_lt_of_lt_mul (by omega)
    have hdigits := ih hquotient
    rw [hexNumber] at hdigits ⊢
    rw [hexWith, List.foldl_append, hdigits, List.foldl_cons, List.foldl_nil,
      hexValue?_hexDigitUpper (Nat.mod_lt n (by decide)), Option.getD_some]
    omega

theorem hexValue?_lt {c : Char} {n : Nat} (h : hexValue? c = some n) : n < 16 := by
  unfold hexValue? at h
  dsimp only at h
  split_ifs at h <;> cases h <;> omega

theorem hexNumber_lt (cs : List Char) : hexNumber cs < 16 ^ cs.length := by
  induction cs using List.reverseRecOn with
  | nil => decide
  | append_singleton cs c ih =>
    have hdigit : (hexValue? c).getD 0 < 16 := by
      cases h : hexValue? c with
      | none => decide
      | some n => exact hexValue?_lt h
    rw [hexNumber] at ih ⊢
    rw [List.foldl_append, List.foldl_cons, List.foldl_nil, List.length_append,
      List.length_singleton, Nat.pow_succ]
    omega

end Treeline.Text
