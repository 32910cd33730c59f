import Mathlib.Data.List.TakeWhile
import Treeline.Path.Parse
import Treeline.Proofs.Results
import Treeline.Proofs.Numeral

/-!
# Tokens of a path text

Reading a token takes it apart: a name without brackets, and groups in brackets behind it. It
succeeds exactly on the texts that such a name and such groups make up, so a token has no second
reading. A group is an index if it consists of digits, with or without a minus sign before them.
-/

namespace Treeline.Path

def bracketed (group : List Char) : List Char := '[' :: (group ++ [']'])

theorem isPlain_iff {c : Char} : isPlain c = true ↔ c ≠ '[' ∧ c ≠ ']' := by
  simp [isPlain]

/-! ### Taking a token apart -/

theorem takeWhile_isPlain_append {plain rest : List Char} (hplain : ∀ c ∈ plain, isPlain c = true)
    (hrest : ∀ c, rest.head? = some c → isPlain c = false) :
    (plain ++ rest).takeWhile isPlain = plain ∧ (plain ++ rest).dropWhile isPlain = rest := by
  rw [List.takeWhile_append_of_pos hplain, List.dropWhile_append_of_pos hplain]
  cases rest with
  | nil => simp
  | cons c rest => simp [hrest c rfl]

/-- Two texts without brackets are told apart from what follows them if that begins with a bracket. -/
theorem append_inj_of_isPlain {plain other rest more : List Char}
    (hplain : ∀ c ∈ plain, isPlain c = true) (hother : ∀ c ∈ other, isPlain c = true)
    (hrest : ∀ c, rest.head? = some c → isPlain c = false)
    (hmore : ∀ c, more.head? = some c → isPlain c = false) :
    plain ++ rest = other ++ more ↔ plain = other ∧ rest = more := by
  constructor
  · intro h
    obtain ⟨htake, hdrop⟩ := takeWhile_isPlain_append hplain hrest
    rw [h] at htake hdrop
    obtain ⟨htake', hdrop'⟩ := takeWhile_isPlain_append hother hmore
    exact ⟨htake.symm.trans htake', hdrop.symm.trans hdrop'⟩
  · rintro ⟨rfl, rfl⟩
    rfl

theorem takeWhile_isPlain_closing {group : List Char} (hgroup : ∀ c ∈ group, isPlain c = true)
    (rest : List Char) :
    (group ++ ']' :: rest).takeWhile isPlain = group ∧
      (group ++ ']' :: rest).dropWhile isPlain = ']' :: rest := by
  refine takeWhile_isPlain_append hgroup ?_
  rintro c ⟨⟩
  rfl

theorem bracketed_append (group rest : List Char) :
    bracketed group ++ rest = '[' :: (group ++ ']' :: rest) := by
  rw [bracketed, List.cons_append, List.append_assoc, List.singleton_append]

theorem groups?_cons {rest more : List Char} (h : rest.dropWhile isPlain = ']' :: more) :
    groups? ('[' :: rest) = (groups? more).map (rest.takeWhile isPlain :: ·) := by
  rw [groups?]
  split
  · rename_i m hm
    rw [h] at hm
    cases hm
    rfl
  · rename_i hno
    exact absurd h (hno _)

theorem groups?_flatMap_bracketed {groups : List (List Char)}
    (hplain : ∀ group ∈ groups, ∀ c ∈ group, isPlain c = true) :
    groups? (groups.flatMap bracketed) = some groups := by
  induction groups with
  | nil => rw [List.flatMap_nil, groups?]
  | cons group rest ih =>
    obtain ⟨hgroup, hrest⟩ := List.forall_mem_cons.1 hplain
    obtain ⟨htake, hdrop⟩ := takeWhile_isPlain_closing hgroup (rest.flatMap bracketed)
    rw [List.flatMap_cons, bracketed_append, groups?_cons hdrop, htake, ih hrest]
    rfl

theorem bracketed_of_groups? {cs : List Char} {groups : List (List Char)}
    (h : groups? cs = some groups) :
    cs = groups.flatMap bracketed ∧ ∀ group ∈ groups, ∀ c ∈ group, isPlain c = true := by
  fun_induction groups? cs generalizing groups with
  | case1 =>
    cases h
    exact ⟨rfl, by simp⟩
  | case2 rest more hmore ih =>
    obtain ⟨others, hothers, rfl⟩ := Option.map_eq_some_iff.1 h
    obtain ⟨hchars, hplain⟩ := ih hothers
    refine ⟨?_, List.forall_mem_cons.2 ⟨fun c hc => List.mem_takeWhile_imp hc, hplain⟩⟩
    rw [List.flatMap_cons, ← hchars, bracketed, List.cons_append, List.append_assoc,
      List.singleton_append, ← hmore, List.takeWhile_append_dropWhile]
  | case3 => cases h
  | case4 => cases h

theorem groups?_eq_some_iff {cs : List Char} {groups : List (List Char)} :
    groups? cs = some groups ↔
      cs = groups.flatMap bracketed ∧ ∀ group ∈ groups, ∀ c ∈ group, isPlain c = true := by
  constructor
  · exact bracketed_of_groups?
  · rintro ⟨rfl, hplain⟩
    exact groups?_flatMap_bracketed hplain

theorem token?_eq_some_iff {cs name : List Char} {groups : List (List Char)} :
    token? cs = some ⟨name, groups⟩ ↔
      cs = name ++ groups.flatMap bracketed ∧ (∀ c ∈ name, isPlain c = true) ∧
        ∀ group ∈ groups, ∀ c ∈ group, isPlain c = true := by
  rw [token?, Option.map_eq_some_iff]
  constructor
  · rintro ⟨found, hgroups, htoken⟩
    cases htoken
    obtain ⟨hchars, hplain⟩ := groups?_eq_some_iff.1 hgroups
    rw [← hchars, List.takeWhile_append_dropWhile]
    exact ⟨rfl, fun c hc => List.mem_takeWhile_imp hc, hplain⟩
  · rintro ⟨rfl, hname, hplain⟩
    have hhead : ∀ c, (groups.flatMap bracketed).head? = some c → isPlain c = false := by
      intro c hc
      cases groups with
      | nil => cases hc
      | cons group rest =>
        cases hc
        rfl
    obtain ⟨htake, hdrop⟩ := takeWhile_isPlain_append hname hhead
    rw [htake, hdrop]
    exact ⟨groups, groups?_flatMap_bracketed hplain, rfl⟩

/-! ### Indices -/

/-- At least one ASCII digit and nothing else. -/
def IsDigits (cs : List Char) : Prop := cs ≠ [] ∧ ∀ c ∈ cs, c.isDigit = true

/-- Digits behind a sign. -/
def signedDigits (negative : Bool) (digits : List Char) : List Char :=
  if negative then '-' :: digits else digits

/-- The integer that digits behind a sign stand for. -/
def signedValue (negative : Bool) (digits : List Char) : Int :=
  if negative then -(Numeral.value digits : Int) else Numeral.value digits

theorem isDigits_iff {cs : List Char} :
    (!cs.isEmpty && cs.all fun c => '0' ≤ c && c ≤ '9') = true ↔ IsDigits cs := by
  have hdigit : ∀ c : Char, (decide ('0' ≤ c) && decide (c ≤ '9')) = c.isDigit := fun c => rfl
  simp only [hdigit, Bool.and_eq_true, Bool.not_eq_true', List.isEmpty_eq_false_iff,
    List.all_eq_true, IsDigits]

theorem ne_minus_of_isDigits {digits cs : List Char} (hdigits : IsDigits digits) :
    digits ≠ '-' :: cs := by
  rintro rfl
  exact absurd (hdigits.2 '-' List.mem_cons_self) (by decide)

theorem number?_eq_some_iff {cs digits : List Char} {negative : Bool} :
    number? cs = some (negative, digits) ↔
      cs = signedDigits negative digits ∧ IsDigits digits := by
  by_cases hminus : ∃ found, cs = '-' :: found
  · obtain ⟨found, rfl⟩ := hminus
    rw [number?]
    simp only [Option.ite_none_right_eq_some, isDigits_iff, Option.some.injEq, Prod.mk.injEq]
    constructor
    · rintro ⟨hfound, rfl, rfl⟩
      exact ⟨rfl, hfound⟩
    · rintro ⟨hcs, hdigits⟩
      cases negative with
      | false => exact absurd hcs.symm (ne_minus_of_isDigits hdigits)
      | true =>
        cases hcs
        exact ⟨hdigits, rfl, rfl⟩
  · rw [number?]
    · simp only [Option.ite_none_right_eq_some, isDigits_iff, Option.some.injEq, Prod.mk.injEq]
      constructor
      · rintro ⟨hcs, rfl, rfl⟩
        exact ⟨rfl, hcs⟩
      · rintro ⟨hcs, hdigits⟩
        cases negative with
        | false =>
          cases hcs
          exact ⟨hdigits, rfl, rfl⟩
        | true => exact absurd ⟨digits, hcs⟩ hminus
    · intro found hfound
      exact hminus ⟨found, hfound⟩

/-- A group is an index if it consists of at most `maxDigits` digits behind a sign. -/
theorem readIndex_eq_ok_iff {group : List Char} {segment : Segment} :
    readIndex group = .ok segment ↔
      ∃ negative digits, group = signedDigits negative digits ∧ IsDigits digits ∧
        digits.length ≤ Numeral.maxDigits ∧ segment = .index (signedValue negative digits) := by
  rw [readIndex]
  constructor
  · intro h
    split at h
    · cases h
    · rename_i negative digits hnumber
      obtain ⟨hgroup, hdigits⟩ := number?_eq_some_iff.1 hnumber
      split at h
      · cases h
      · rename_i hlength
        cases h
        exact ⟨negative, digits, hgroup, hdigits, Nat.le_of_not_lt hlength, rfl⟩
  · rintro ⟨negative, digits, hgroup, hdigits, hlength, rfl⟩
    rw [number?_eq_some_iff.2 ⟨hgroup, hdigits⟩]
    exact if_neg (Nat.not_lt.2 hlength)

theorem isDigits_ofNat (n : Nat) : IsDigits (Numeral.ofNat n) :=
  ⟨Numeral.ofNat_ne_nil n, fun _ hc => Numeral.isDigit_of_mem_ofNat hc⟩

theorem readIndex_ofInt {i : Int} (hi : Numeral.isShort i = true) :
    readIndex (Numeral.ofInt i) = .ok (.index i) := by
  have hlength := Numeral.isShort_iff.1 hi
  rw [readIndex_eq_ok_iff]
  cases i with
  | ofNat n =>
    refine ⟨false, Numeral.ofNat n, rfl, isDigits_ofNat n, hlength, ?_⟩
    simp [signedValue, Numeral.value_ofNat]
  | negSucc n =>
    refine ⟨true, Numeral.ofNat (n + 1), rfl, isDigits_ofNat (n + 1), hlength, ?_⟩
    simp [signedValue, Numeral.value_ofNat, Int.negSucc_eq]

theorem exists_index_of_readIndex {group : List Char} {segment : Segment}
    (h : readIndex group = .ok segment) :
    ∃ i, segment = .index i ∧ Numeral.isShort i = true := by
  obtain ⟨negative, digits, -, hdigits, hlength, rfl⟩ := readIndex_eq_ok_iff.1 h
  refine ⟨signedValue negative digits, rfl, ?_⟩
  refine Numeral.isShort_of_length_le hdigits.2 hdigits.1 hlength ?_
  cases negative with
  | false => rfl
  | true => exact Int.natAbs_neg _

/-! ### Reading a token -/

/-- The segment for a name, if there is one. -/
def fieldOf (name : List Char) : Path :=
  if name.isEmpty then [] else [.field (String.ofList name)]

theorem fieldOf_of_ne_nil {name : List Char} (hname : name ≠ []) :
    fieldOf name = [.field (String.ofList name)] := by
  rw [fieldOf, if_neg (by simpa using hname)]

theorem readToken_eq_ok_iff {isFirst : Bool} {cs : List Char} {segments : Path} :
    readToken isFirst cs = .ok segments ↔
      ∃ name groups indices, token? cs = some ⟨name, groups⟩ ∧
        (name = [] → isFirst = true ∧ groups ≠ []) ∧
        List.Forall₂ (fun group segment => readIndex group = .ok segment) groups indices ∧
        segments = fieldOf name ++ indices := by
  have hfield : ∀ (name : List Char) (indices : Path),
      (if name.isEmpty then indices else .field (String.ofList name) :: indices) =
        fieldOf name ++ indices := by
    intro name indices
    rw [fieldOf]
    split <;> rfl
  have hempty : ∀ (name : List Char) (groups : List (List Char)),
      (name.isEmpty && (!isFirst || groups.isEmpty)) = true ↔
        ¬(name = [] → isFirst = true ∧ groups ≠ []) := by
    intro name groups
    cases isFirst <;> cases name <;> simp
  rw [readToken]
  constructor
  · intro h
    split at h
    · cases h
    · rename_i name groups htoken
      split at h
      · cases h
      · rename_i hname
        obtain ⟨indices, hindices, hsegments⟩ := bind_eq_ok_iff.1 h
        rw [hfield] at hsegments
        cases hsegments
        rw [hempty, not_not] at hname
        exact ⟨name, groups, indices, htoken, hname, mapM_eq_ok_iff.1 hindices, rfl⟩
  · rintro ⟨name, groups, indices, htoken, hname, hindices, rfl⟩
    rw [htoken]
    dsimp only
    rw [if_neg fun h => (hempty name groups).1 h hname]
    exact bind_eq_ok_iff.2 ⟨indices, mapM_eq_ok_iff.2 hindices, congrArg _ (hfield name indices)⟩

/-! ### Tokens one after another -/

variable {text : String} {isFirst : Bool} {path : Path}

theorem readTokens_cons_eq_ok_iff {token : List Char} {rest : List (List Char)} :
    readTokens text isFirst (token :: rest) = .ok path ↔
      ∃ segments more, readToken isFirst token = .ok segments ∧
        readTokens text false rest = .ok more ∧ path = segments ++ more := by
  rw [readTokens]
  cases readToken isFirst token with
  | error stop => simp
  | ok segments =>
    dsimp only
    rw [map_eq_ok_iff]
    simp [@eq_comm _ _ path]

theorem readTokens_singleton_eq_ok_iff {token : List Char} :
    readTokens text isFirst [token] = .ok path ↔ readToken isFirst token = .ok path := by
  have hnil : readTokens text false [] = .ok [] := rfl
  simp [readTokens_cons_eq_ok_iff, hnil]

theorem readTokens_append_eq_ok_iff {before after : List (List Char)} :
    readTokens text isFirst (before ++ after) = .ok path ↔
      ∃ front back, readTokens text isFirst before = .ok front ∧
        readTokens text (isFirst && before.isEmpty) after = .ok back ∧ path = front ++ back := by
  induction before generalizing isFirst path with
  | nil => simp [readTokens]
  | cons token before ih =>
    simp only [List.cons_append, readTokens_cons_eq_ok_iff, ih, List.isEmpty_cons, Bool.and_false,
      Bool.false_and]
    constructor
    · rintro ⟨segments, _, hsegments, ⟨front, back, hfront, hback, rfl⟩, rfl⟩
      exact ⟨_, back, ⟨segments, front, hsegments, hfront, rfl⟩, hback,
        (List.append_assoc _ _ _).symm⟩
    · rintro ⟨_, back, ⟨segments, front, hsegments, hfront, rfl⟩, hback, rfl⟩
      exact ⟨segments, _, hsegments, ⟨front, back, hfront, hback, rfl⟩, List.append_assoc _ _ _⟩

/-- The text that tokens come from is only needed to report an error. -/
theorem readTokens_eq_ok_iff_of_text (other : String) {tokens : List (List Char)} :
    readTokens text isFirst tokens = .ok path ↔ readTokens other isFirst tokens = .ok path := by
  induction tokens generalizing isFirst path with
  | nil => rfl
  | cons token rest ih => simp only [readTokens_cons_eq_ok_iff, ih]

end Treeline.Path
