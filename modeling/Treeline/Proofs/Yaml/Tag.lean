import Treeline.Proofs.Numeral
import Treeline.Proofs.Yaml.ScalarStyle

/-!
# Numerals as plain text

The numeral of a whole number can stand without quotes, and its form says that it is one.
-/

namespace Treeline.Yaml

open ScalarStyle

variable {i : Int} {c : Char} {cs : List Char}

theorem exists_of_isDigit (hc : c.isDigit = true) : ∃ m : Fin 10, c = Nat.digitChar m := by
  obtain ⟨hlow, hhigh⟩ := Numeral.isDigit_iff.1 hc
  refine ⟨⟨c.toNat - 0x30, by omega⟩, ?_⟩
  refine Char.toNat_inj.1 ?_
  rw [Nat.toNat_digitChar_of_lt_ten (by omega)]
  change c.toNat = 0x30 + (c.toNat - 0x30)
  omega

namespace ScalarStyle

theorem hasPair_of_left {p q : Char → Bool} (h : ∀ x ∈ cs, p x = false) : hasPair p q cs = false := by
  induction cs with
  | nil => rfl
  | cons a cs ih =>
    obtain ⟨ha, hcs⟩ := List.forall_mem_cons.1 h
    cases cs with
    | nil => rfl
    | cons b cs => rw [hasPair, ha, ih hcs]; rfl

theorem hasPair_of_right {p q : Char → Bool} (h : ∀ x ∈ cs, q x = false) :
    hasPair p q cs = false := by
  induction cs with
  | nil => rfl
  | cons a cs ih =>
    obtain ⟨-, hcs⟩ := List.forall_mem_cons.1 h
    cases cs with
    | nil => rfl
    | cons b cs => rw [hasPair, (List.forall_mem_cons.1 hcs).1, Bool.and_false, ih hcs]; rfl

end ScalarStyle

/-- What numerals are written with. -/
def IsNumeric (c : Char) : Prop := c = '-' ∨ ∃ m : Fin 10, c = Nat.digitChar m

theorem isNumeric_of_mem (hc : c ∈ Numeral.ofInt i) : IsNumeric c :=
  (Numeral.eq_minus_or_isDigit_of_mem_ofInt hc).imp_right exists_of_isDigit

theorem IsNumeric.holds {p : Char → Bool} (hc : IsNumeric c) (hminus : p '-' = true)
    (hdigit : ∀ m : Fin 10, p (Nat.digitChar m) = true) : p c = true := by
  rcases hc with rfl | ⟨m, rfl⟩
  · exact hminus
  · exact hdigit m

theorem IsNumeric.isInk (hc : IsNumeric c) : IsInk c ∧ c ≠ ':' ∧ c ≠ '#' ∧ isBlankOrEnd c = false := by
  have hall : (!isSpecial c && !breaksLine c && c != ' ' && c != ':' && c != '#' &&
      !isBlankOrEnd c) = true :=
    hc.holds (p := fun c => !isSpecial c && !breaksLine c && c != ' ' && c != ':' && c != '#' &&
      !isBlankOrEnd c) (by decide) (by decide)
  simp only [Bool.and_eq_true, Bool.not_eq_true', bne_iff_ne] at hall
  exact ⟨⟨hall.1.1.1.1.1, hall.1.1.1.1.2, hall.1.1.1.2⟩, hall.1.1.2, hall.1.2, hall.2⟩

/-- A numeral is zero, or begins with another digit behind its sign. -/
theorem ofInt_cases (i : Int) : Numeral.ofInt i = ['0'] ∨
    ∃ m rest, 0 < m ∧ m < 10 ∧ (∀ c ∈ rest, c.isDigit = true) ∧
      (Numeral.ofInt i = Nat.digitChar m :: rest ∨ Numeral.ofInt i = '-' :: Nat.digitChar m :: rest) := by
  have hdigits : ∀ {n : Nat} {x : Char} {rest : List Char}, Numeral.ofNat n = x :: rest →
      ∀ c ∈ rest, c.isDigit = true := by
    intro n x rest hn c hc
    exact Numeral.isDigit_of_mem_ofNat (hn ▸ List.mem_cons_of_mem x hc)
  cases i with
  | ofNat n =>
    by_cases hn : n = 0
    · subst hn
      exact .inl rfl
    · obtain ⟨m, rest, hhead, hpos, hlt⟩ := Numeral.exists_head_ofNat hn
      exact .inr ⟨m, rest, hpos, hlt, hdigits hhead, .inl hhead⟩
  | negSucc n =>
    obtain ⟨m, rest, hhead, hpos, hlt⟩ := Numeral.exists_head_ofNat (Nat.succ_ne_zero n)
    exact .inr ⟨m, rest, hpos, hlt, hdigits hhead, .inr (congrArg ('-' :: ·) hhead)⟩

theorem ofInt_ne_nil (i : Int) : Numeral.ofInt i ≠ [] := by
  rcases ofInt_cases i with h | ⟨m, rest, -, -, -, h | h⟩ <;> simp [h]

theorem startsWithIndicator_ofInt (i : Int) : startsWithIndicator (Numeral.ofInt i) = false ∧
    startsLikeSeparator (Numeral.ofInt i) = false := by
  have hdigit : ∀ m : Fin 10, "#,[]\x7b\x7d&*!|>\x27\"%@\x60".toList.contains (Nat.digitChar m) = false ∧
      Nat.digitChar m ≠ '?' ∧ Nat.digitChar m ≠ ':' ∧ Nat.digitChar m ≠ '-' ∧ Nat.digitChar m ≠ '.' ∧
      isBlankOrEnd (Nat.digitChar m) = false := by decide
  rcases ofInt_cases i with h | ⟨m, rest, -, hm, -, h | h⟩
  · rw [h]
    exact ⟨by decide, by decide⟩
  · obtain ⟨hlisted, hquestion, hcolon, hdash, hdot, -⟩ := hdigit ⟨m, hm⟩
    rw [h]
    constructor
    · rw [startsWithIndicator, hlisted]
      simp [hquestion, hcolon, hdash]
    · simp [startsLikeSeparator, hdash, hdot]
  · obtain ⟨-, -, -, hdash, -, hblank⟩ := hdigit ⟨m, hm⟩
    rw [h]
    constructor
    · have hlisted : "#,[]\x7b\x7d&*!|>\x27\"%@\x60".toList.contains '-' = false := by decide
      rw [startsWithIndicator, hlisted, List.head?_cons, Option.getD_some, hblank, Bool.and_false]
      rfl
    · simp [startsLikeSeparator, hdash]

theorem allowsPlain_ofInt (i : Int) : allowsPlain (Numeral.ofInt i) = true := by
  have hink : ∀ c ∈ Numeral.ofInt i, IsInk c ∧ c ≠ ':' ∧ c ≠ '#' ∧ isBlankOrEnd c = false :=
    fun c hc => (isNumeric_of_mem hc).isInk
  have hspecial : (Numeral.ofInt i).any isSpecial = false :=
    List.any_eq_false.2 fun c hc => by simp [(hink c hc).1.ordinary]
  have hline : (Numeral.ofInt i).any breaksLine = false :=
    List.any_eq_false.2 fun c hc => by simp [(hink c hc).1.inLine]
  have hbehind : hasPair breaksLine (· = ' ') (Numeral.ofInt i) = false :=
    hasPair_of_left fun c hc => (hink c hc).1.inLine
  have hbefore : hasPair (· = ' ') breaksLine (Numeral.ofInt i) = false :=
    hasPair_of_right fun c hc => (hink c hc).1.inLine
  have hcolon : hasPair (fun c => c = ':') isBlankOrEnd ((Numeral.ofInt i).drop 1 ++ [' ']) = false := by
    refine hasPair_of_left ?_
    intro c hc
    rcases List.mem_append.1 hc with hc | hc
    · simpa using (hink c (List.mem_of_mem_drop hc)).2.1
    · rw [List.mem_singleton.1 hc]
      decide
  have hsign : hasPair isBlankOrEnd (fun c => c = '#') (Numeral.ofInt i) = false :=
    hasPair_of_left fun c hc => (hink c hc).2.2.2
  have hends : hasEnd (· = ' ') (Numeral.ofInt i) = false := by
    rw [hasEnd, Bool.or_eq_false_iff]
    constructor
    · cases hhead : (Numeral.ofInt i).head? with
      | none => rfl
      | some c => simpa using (hink c (List.mem_of_head? hhead)).1.ne
    · cases hlast : (Numeral.ofInt i).getLast? with
      | none => rfl
      | some c => simpa using (hink c (List.mem_of_getLast? hlast)).1.ne
  obtain ⟨hindicator, hseparator⟩ := startsWithIndicator_ofInt i
  simp only [allowsPlain, allowsSingleQuotes, isSingleLine, holdsIndicator, hspecial, hline, hbehind,
    hbefore, hcolon, hsign, hends, hindicator, hseparator]
  rfl

theorem unsigned_digit (m : Fin 10) (rest : List Char) :
    Tag.unsigned (Nat.digitChar m :: rest) = Nat.digitChar m :: rest := by
  have hne : ∀ m : Fin 10, Nat.digitChar m ≠ '+' ∧ Nat.digitChar m ≠ '-' := by decide
  obtain ⟨hplus, hminus⟩ := hne m
  unfold Tag.unsigned
  split
  next heq => exact absurd (List.cons.inj heq).1 hplus
  next heq => exact absurd (List.cons.inj heq).1 hminus
  next => rfl

theorem unsigned_ofInt (i : Int) :
    ∃ m : Fin 10, ∃ rest, Tag.unsigned (Numeral.ofInt i) = Nat.digitChar m :: rest ∧
      (m.val = 0 → rest = []) ∧ ∀ c ∈ rest, c.isDigit = true := by
  rcases ofInt_cases i with h | ⟨m, rest, hpos, hm, hrest, h | h⟩
  · exact ⟨0, [], by rw [h]; rfl, fun _ => rfl, by simp⟩
  · exact ⟨⟨m, hm⟩, rest, by rw [h]; exact unsigned_digit ⟨m, hm⟩ rest,
      fun hzero => absurd hzero hpos.ne', hrest⟩
  · exact ⟨⟨m, hm⟩, rest, by rw [h]; rfl, fun hzero => absurd hzero hpos.ne', hrest⟩

theorem isInt_ofInt (i : Int) : Tag.isInt (Numeral.ofInt i) = true := by
  obtain ⟨m, rest, hbody, hzero, hrest⟩ := unsigned_ofInt i
  have hdigit : ∀ m : Fin 10, m.val ≠ 0 →
      Nat.digitChar m ≠ '0' ∧ '1' ≤ Nat.digitChar m ∧ Nat.digitChar m ≤ '9' := by decide
  rw [Tag.isInt, hbody]
  by_cases hm : m.val = 0
  · rw [hzero hm, hm]
    rfl
  · obtain ⟨hne, hlow, hhigh⟩ := hdigit m hm
    have hall : rest.all Tag.isDigitOrGap = true := by
      rw [List.all_eq_true]
      intro c hc
      obtain ⟨n, rfl⟩ := exists_of_isDigit (hrest c hc)
      have hdigits : ∀ n : Fin 10, Tag.isDigitOrGap (Nat.digitChar n) = true := by decide
      exact hdigits n
    split
    next heq => exact absurd (List.cons.inj heq).1 hne
    next heq => exact absurd (List.cons.inj heq).1 hne
    next heq => exact absurd (List.cons.inj heq).1 hne
    next heq => exact absurd (List.cons.inj heq).1 hne
    next heq =>
      obtain ⟨rfl, rfl⟩ := List.cons.inj heq
      simp [hlow, hhigh, hall]
    next heq => cases heq

theorem isFloat_ofInt (i : Int) : Tag.isFloat (Numeral.ofInt i) = false := by
  obtain ⟨m, rest, hbody, -, hrest⟩ := unsigned_ofInt i
  have hdot : ∀ c ∈ Numeral.ofInt i, c ≠ '.' := by
    rintro c hc rfl
    have hnumeric : ('.' != '.') = true := (isNumeric_of_mem hc).holds (by decide) (by decide)
    exact absurd hnumeric (by decide)
  have hword : ∀ word : List Char, '.' ∈ word → word ≠ Numeral.ofInt i := by
    rintro word hword rfl
    exact hdot '.' hword rfl
  have hdigit : ∀ m : Fin 10, Nat.digitChar m ≠ '.' := by decide
  have hpoint : '.' ∉ Nat.digitChar m :: rest := by
    rw [List.mem_cons, not_or]
    refine ⟨(hdigit m).symm, fun hmem => ?_⟩
    exact absurd (hrest '.' hmem) (by decide)
  have hbodyWord : ∀ word : List Char, '.' ∈ word → word ≠ Nat.digitChar m :: rest := by
    rintro word hword rfl
    exact hpoint hword
  have hpointed : Tag.isPointed (Numeral.ofInt i) = false := by
    unfold Tag.isPointed
    split
    next heq => exact absurd rfl (hdot '.' (heq ▸ List.mem_cons_self))
    next => rfl
  have hcontains : (Nat.digitChar m :: rest).contains '.' = false := by
    simpa using hpoint
  simp only [Tag.isFloat, hbody, hpointed, hcontains, hword _ (show '.' ∈ ".nan".toList by decide),
    hword _ (show '.' ∈ ".NaN".toList by decide), hword _ (show '.' ∈ ".NAN".toList by decide),
    hbodyWord _ (show '.' ∈ ".inf".toList by decide),
    hbodyWord _ (show '.' ∈ ".Inf".toList by decide),
    hbodyWord _ (show '.' ∈ ".INF".toList by decide)]
  rfl

theorem not_mem_words_ofInt (i : Int) (words : List String)
    (hwords : words.all (fun word => word.toList.any Char.isAlpha) = true) :
    words.contains (String.ofList (Numeral.ofInt i)) = false := by
  rw [List.contains_eq_mem, decide_eq_false_iff_not]
  intro hmem
  have hany := List.all_eq_true.1 hwords _ hmem
  rw [String.toList_ofList, List.any_eq_true] at hany
  obtain ⟨c, hc, halpha⟩ := hany
  have hnot : (!c.isAlpha) = true :=
    (isNumeric_of_mem hc).holds (p := fun c => !c.isAlpha) (by decide) (by decide)
  rw [halpha] at hnot
  cases hnot

/-- The form of a numeral says that it is a whole number. -/
theorem ofPlain_ofInt (i : Int) : Tag.ofPlain (Numeral.ofInt i) = Tag.int := by
  have hline : Tag.withoutLineFeed (Numeral.ofInt i) = Numeral.ofInt i := by
    refine if_neg ?_
    simp only [Bool.and_eq_true, decide_eq_true_eq, not_and]
    rintro - hlast
    have hnumeric : ('\n' != '\n') = true :=
      (isNumeric_of_mem (List.mem_of_getLast? hlast)).holds (by decide) (by decide)
    exact absurd hnumeric (by decide)
  rw [Tag.ofPlain, hline, Tag.ofForm?]
  simp only [not_mem_words_ofInt i Tag.trueWords (by decide),
    not_mem_words_ofInt i Tag.falseWords (by decide), isFloat_ofInt, isInt_ofInt]
  rfl

end Treeline.Yaml
