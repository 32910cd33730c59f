import Mathlib.Algebra.Group.Nat.Defs
import Mathlib.Data.List.Basic
import Mathlib.Data.List.Induction
import Treeline.Numeral

/-!
# Numerals are read back

The numeral of a number consists of digits and has that number as its value, and digits that do not
begin with a zero are the numeral of their value. The value of at most `maxDigits` digits has a
numeral that is short enough to be written, because leading zeros only make a numeral longer.
-/

namespace Treeline.Numeral

theorem value_ofNat (n : Nat) : value (ofNat n) = n := Nat.ofDigitChars_ten_toDigits

theorem ofNat_ne_nil (n : Nat) : ofNat n ≠ [] := Nat.toDigits_ne_nil

theorem isDigit_of_mem_ofNat {n : Nat} {c : Char} (hc : c ∈ ofNat n) : c.isDigit = true :=
  Nat.isDigit_of_mem_toDigits (by decide) (by decide) hc

theorem exists_head_ofNat {n : Nat} (hn : n ≠ 0) :
    ∃ m rest, ofNat n = Nat.digitChar m :: rest ∧ 0 < m ∧ m < 10 := by
  induction n using Nat.strongRecOn with
  | ind n ih =>
  by_cases hlt : n < 10
  · exact ⟨n, [], Nat.toDigits_of_lt_base hlt, Nat.pos_of_ne_zero hn, hlt⟩
  · obtain ⟨m, rest, hhead, hm⟩ := ih (n / 10) (by omega) (by omega)
    refine ⟨m, rest ++ [Nat.digitChar (n % 10)], ?_, hm⟩
    rw [ofNat, Nat.toDigits_of_base_le (by decide) (Nat.not_lt.1 hlt)]
    exact congrArg (· ++ [Nat.digitChar (n % 10)]) hhead

theorem isDigit_iff {c : Char} : c.isDigit = true ↔ 0x30 ≤ c.toNat ∧ c.toNat ≤ 0x39 := by
  simp [Char.isDigit, UInt32.le_iff_toNat_le]

theorem digitChar_of_isDigit {c : Char} (hc : c.isDigit = true) :
    c.toNat - 0x30 < 10 ∧ Nat.digitChar (c.toNat - 0x30) = c := by
  have hbounds := isDigit_iff.1 hc
  have hlt : c.toNat - 0x30 < 10 := by omega
  refine ⟨hlt, Char.toNat_inj.1 ?_⟩
  rw [Nat.toNat_digitChar_of_lt_ten hlt]
  omega

theorem value_append_singleton (digits : List Char) (c : Char) :
    value (digits ++ [c]) = 10 * value digits + (c.toNat - 0x30) := by
  rw [value, value, List.foldl_append]
  rfl

theorem value_eq_zero_iff {digits : List Char} (hdigits : ∀ c ∈ digits, c.isDigit = true) :
    value digits = 0 ↔ ∀ c ∈ digits, c = '0' := by
  induction digits using List.reverseRecOn with
  | nil => exact ⟨fun _ => by simp, fun _ => rfl⟩
  | append_singleton front c ih =>
    rw [List.forall_mem_append, List.forall_mem_singleton] at hdigits
    have hc : c.toNat - 0x30 = 0 ↔ c = '0' := by
      have hbounds := isDigit_iff.1 hdigits.2
      rw [← Char.toNat_inj]
      constructor
      · intro h
        exact Nat.le_antisymm (Nat.sub_eq_zero_iff_le.1 h) hbounds.1
      · rintro h
        rw [h]
        rfl
    have hfront : 10 * value front = 0 ↔ value front = 0 := by omega
    rw [value_append_singleton, Nat.add_eq_zero_iff, hfront, ih hdigits.1, hc,
      List.forall_mem_append, List.forall_mem_singleton]

/-- Digits that do not begin with a zero are the numeral of their value. -/
theorem ofNat_value {digits : List Char} (hdigits : ∀ c ∈ digits, c.isDigit = true)
    (hne : digits ≠ []) (hhead : digits.head? ≠ some '0') : ofNat (value digits) = digits := by
  induction digits using List.reverseRecOn with
  | nil => exact absurd rfl hne
  | append_singleton front c ih =>
    rw [List.forall_mem_append, List.forall_mem_singleton] at hdigits
    obtain ⟨hfront, hc⟩ := hdigits
    obtain ⟨hlt, hchar⟩ := digitChar_of_isDigit hc
    rw [value_append_singleton]
    by_cases hempty : front = []
    · subst hempty
      have hvalue : 10 * value [] + (c.toNat - 0x30) = c.toNat - 0x30 := Nat.zero_add _
      rw [hvalue, ofNat, Nat.toDigits_of_lt_base hlt, hchar]
      rfl
    · rw [List.head?_append_of_ne_nil _ hempty] at hhead
      have hnumeral := ih hfront hempty hhead
      have hpos : 0 < value front := by
        apply Nat.pos_of_ne_zero
        intro hzero
        rw [hzero] at hnumeral
        exact hhead (congrArg List.head? hnumeral.symm)
      rw [ofNat, ← Nat.toDigits_append_toDigits (by decide) hpos hlt, Nat.toDigits_of_lt_base hlt,
        hchar]
      exact congrArg (· ++ [c]) hnumeral

theorem value_lt_pow {digits : List Char} (hdigits : ∀ c ∈ digits, c.isDigit = true) :
    value digits < 10 ^ digits.length := by
  induction digits with
  | nil => exact Nat.one_pos
  | cons c rest ih =>
    obtain ⟨hc, hrest⟩ := List.forall_mem_cons.1 hdigits
    have hvalue : value (c :: rest) = 10 ^ rest.length * (10 * 0 + (c.toNat - 0x30)) + value rest :=
      @Nat.ofDigitChars_eq_ofDigitChars_zero rest (10 * 0 + (c.toNat - 0x30))
    have hle : 10 ^ rest.length * (10 * 0 + (c.toNat - 0x30)) ≤ 10 ^ rest.length * 9 :=
      Nat.mul_le_mul_left _ (by have := isDigit_iff.1 hc; omega)
    have hlt := ih hrest
    rw [hvalue, List.length_cons, Nat.pow_succ]
    omega

theorem isShort_iff {i : Int} : isShort i = true ↔ (ofNat i.natAbs).length ≤ maxDigits := by
  have hlength : (ofNat i.natAbs).length ≤ maxDigits ↔ i.natAbs < 10 ^ maxDigits :=
    Nat.length_toDigits_le_iff (by decide) (by decide)
  rw [isShort, decide_eq_true_iff, hlength, Nat.pow_eq]

theorem isShort_of_length_le {digits : List Char} (hdigits : ∀ c ∈ digits, c.isDigit = true)
    (hne : digits ≠ []) (hlength : digits.length ≤ maxDigits) {i : Int}
    (hi : i.natAbs = value digits) : isShort i = true := by
  have hnumeral : (ofNat i.natAbs).length ≤ digits.length := by
    refine (Nat.length_toDigits_le_iff (by decide) (List.length_pos_iff.2 hne)).2 ?_
    rw [hi]
    exact value_lt_pow hdigits
  exact isShort_iff.2 (Nat.le_trans hnumeral hlength)

theorem ofInt_neg {n : Nat} (hn : n ≠ 0) : ofInt (-(n : Int)) = '-' :: ofNat n := by
  obtain ⟨m, rfl⟩ := Nat.exists_eq_succ_of_ne_zero hn
  rfl

theorem eq_minus_or_isDigit_of_mem_ofInt {i : Int} {c : Char} (hc : c ∈ ofInt i) :
    c = '-' ∨ c.isDigit = true := by
  cases i with
  | ofNat n => exact .inr (isDigit_of_mem_ofNat hc)
  | negSucc n =>
    rcases List.mem_cons.1 hc with rfl | hc
    · exact .inl rfl
    · exact .inr (isDigit_of_mem_ofNat hc)

end Treeline.Numeral
