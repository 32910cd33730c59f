import Treeline.Proofs.Path.RoundTrip
import Treeline.Proofs.Resolve.Refusal

/-!
# Indices that are too long

Reading a path ends with a fault exactly if it comes to an index of more than `maxDigits` digits.
What is wrong in front of such an index is reported instead. A path that is read holds no such
index, so following it never ends with a fault.
-/

namespace Treeline.Path

variable {fault : Fault}

/-- More than `maxDigits` digits, with or without a minus sign before them. Leading zeros count. -/
def IsLongIndex (group : List Char) (digits : Nat) : Prop :=
  ∃ negative numeral, group = signedDigits negative numeral ∧ IsDigits numeral ∧
    numeral.length = digits ∧ Numeral.maxDigits < digits

theorem readIndex_eq_fault_iff {group : List Char} :
    readIndex group = .error (.fault fault) ↔
      ∃ digits, IsLongIndex group digits ∧ fault = .longNumeral digits := by
  rw [readIndex]
  constructor
  · intro h
    split at h
    · cases h
    · rename_i negative numeral hnumber
      obtain ⟨hgroup, hnumeral⟩ := number?_eq_some_iff.1 hnumber
      split at h
      · rename_i hlong
        cases h
        exact ⟨numeral.length, ⟨negative, numeral, hgroup, hnumeral, rfl, hlong⟩, rfl⟩
      · cases h
  · rintro ⟨_, ⟨negative, numeral, hgroup, hnumeral, rfl, hlong⟩, rfl⟩
    rw [number?_eq_some_iff.2 ⟨hgroup, hnumeral⟩]
    exact if_pos hlong

/-- A token that is good up to a long index among its groups. -/
def StopsToken (isFirst : Bool) (token : List Char) (digits : Nat) : Prop :=
  ∃ name before group after indices, token? token = some ⟨name, before ++ group :: after⟩ ∧
    (name = [] → isFirst = true) ∧ before.mapM readIndex = .ok indices ∧ IsLongIndex group digits

theorem readToken_eq_fault_iff {isFirst : Bool} {token : List Char} :
    readToken isFirst token = .error (.fault fault) ↔
      ∃ digits, StopsToken isFirst token digits ∧ fault = .longNumeral digits := by
  have hempty : ∀ (name group : List Char) (before after : List (List Char)),
      (name.isEmpty && (!isFirst || (before ++ group :: after).isEmpty)) = true ↔
        ¬(name = [] → isFirst = true) := by
    intro name group before after
    cases isFirst <;> cases name <;> cases before <;> simp
  rw [readToken]
  constructor
  · intro h
    split at h
    · cases h
    · rename_i name groups htoken
      split at h
      · cases h
      · rename_i hname
        obtain h | ⟨indices, -, ⟨⟩⟩ := bind_eq_error_iff.1 h
        obtain ⟨before, group, after, indices, rfl, hindices, hgroup⟩ := mapM_eq_error_iff.1 h
        obtain ⟨digits, hlong, rfl⟩ := readIndex_eq_fault_iff.1 hgroup
        rw [hempty, not_not] at hname
        exact ⟨digits, ⟨name, before, group, after, indices, htoken, hname, hindices, hlong⟩, rfl⟩
  · rintro ⟨digits, ⟨name, before, group, after, indices, htoken, hname, hindices, hlong⟩, rfl⟩
    rw [htoken]
    dsimp only
    rw [if_neg fun h => (hempty name group before after).1 h hname]
    have hgroup := readIndex_eq_fault_iff.2 ⟨digits, hlong, rfl⟩
    exact bind_eq_error_iff.2 (.inl (mapM_eq_error_iff.2
      ⟨before, group, after, indices, rfl, hindices, hgroup⟩))

/-- Tokens that are good up to a long index. -/
def StopsTokens (text : String) (isFirst : Bool) (tokens : List (List Char)) (digits : Nat) :
    Prop :=
  ∃ before token after path, tokens = before ++ token :: after ∧
    readTokens text isFirst before = .ok path ∧
    StopsToken (isFirst && before.isEmpty) token digits

theorem stopsTokens_cons_iff {text : String} {isFirst : Bool} {token : List Char}
    {rest : List (List Char)} {digits : Nat} :
    StopsTokens text isFirst (token :: rest) digits ↔
      StopsToken isFirst token digits ∨
        (∃ segments, readToken isFirst token = .ok segments) ∧
          StopsTokens text false rest digits := by
  constructor
  · rintro ⟨_ | ⟨first, before⟩, _, after, path, ⟨⟩, hpath, hstops⟩
    · rw [List.isEmpty_nil, Bool.and_true] at hstops
      exact .inl hstops
    · obtain ⟨segments, more, hsegments, hmore, -⟩ := readTokens_cons_eq_ok_iff.1 hpath
      rw [List.isEmpty_cons, Bool.and_false] at hstops
      exact .inr ⟨⟨segments, hsegments⟩, before, _, after, more, rfl, hmore, hstops⟩
  · rintro (hstops | ⟨⟨segments, hsegments⟩, before, token', after, path, rfl, hpath, hstops⟩)
    · refine ⟨[], token, rest, [], rfl, rfl, ?_⟩
      rw [List.isEmpty_nil, Bool.and_true]
      exact hstops
    · refine ⟨token :: before, token', after, segments ++ path, rfl, ?_, ?_⟩
      · exact readTokens_cons_eq_ok_iff.2 ⟨segments, path, hsegments, hpath, rfl⟩
      · rw [List.isEmpty_cons, Bool.and_false]
        exact hstops

theorem readTokens_eq_fault_iff {text : String} {isFirst : Bool} {tokens : List (List Char)} :
    readTokens text isFirst tokens = .error (.fault fault) ↔
      ∃ digits, StopsTokens text isFirst tokens digits ∧ fault = .longNumeral digits := by
  induction tokens generalizing isFirst with
  | nil =>
    constructor
    · rintro ⟨⟩
    · rintro ⟨digits, ⟨before, token, after, -, h, -⟩, -⟩
      cases before <;> cases h
  | cons token rest ih =>
    simp only [stopsTokens_cons_iff]
    rw [readTokens]
    cases htoken : readToken isFirst token with
    | error stop =>
      have hstop : readToken isFirst token = .error (.fault fault) ↔ stop = .fault fault := by
        rw [htoken, Except.error.injEq]
      rw [readToken_eq_fault_iff] at hstop
      cases stop <;> simp_all [Stop.map]
    | ok segments =>
      have hgood : ∀ digits, ¬StopsToken isFirst token digits := by
        intro digits hstops
        cases htoken.symm.trans (readToken_eq_fault_iff.2 ⟨digits, hstops, rfl⟩)
      dsimp only
      rw [map_eq_error_iff, ih]
      simp [hgood]

/-- A path text that is good up to a long index. -/
def StopsAtLongIndex (text : String) (digits : Nat) : Prop :=
  StopsTokens text true (Text.split '.' text.toList) digits

theorem not_stopsAtLongIndex_empty (digits : Nat) : ¬StopsAtLongIndex "" digits := by
  rintro ⟨_ | ⟨_, _ | _⟩, _, _, _, ⟨⟩, -, name, before, group, after, indices, htoken, -⟩
  have hchars := (token?_eq_some_iff.1 htoken).1
  simp [bracketed] at hchars

theorem stopsAtLongIndex_bracketed {numeral : List Char} (hnumeral : IsDigits numeral)
    (hlong : Numeral.maxDigits < numeral.length) :
    StopsAtLongIndex (String.ofList (bracketed numeral)) numeral.length := by
  have hplain : ∀ c ∈ numeral, isPlain c = true := by
    intro c hc
    rw [isPlain_iff]
    constructor <;> rintro rfl <;> exact absurd (hnumeral.2 _ hc) (by decide)
  have hdot : '.' ∉ bracketed numeral := by
    have hdigits : '.' ∉ numeral := fun hmem => absurd (hnumeral.2 _ hmem) (by decide)
    simp [bracketed, hdigits]
  refine ⟨[], bracketed numeral, [], [], ?_, rfl, [], [], numeral, [], [], ?_, fun _ => rfl, rfl,
    false, numeral, rfl, hnumeral, rfl, hlong⟩
  · rw [String.toList_ofList, Text.split_of_not_mem hdot, List.nil_append]
  · rw [token?_eq_some_iff]
    exact ⟨by simp, by simp, by simpa using hplain⟩

/-- Reading a path ends with a fault exactly at a long index. -/
theorem parse_eq_fault_iff {text : String} :
    parse text = .error (.fault fault) ↔
      ∃ digits, StopsAtLongIndex text digits ∧ fault = .longNumeral digits := by
  rw [parse]
  split
  · rename_i hempty
    obtain rfl := String.isEmpty_iff.1 hempty
    simp [not_stopsAtLongIndex_empty]
  · exact readTokens_eq_fault_iff

theorem resolve_ne_fault {text : String} {path : Path} {root : Tree}
    (hpath : parse text = .ok path) : root.resolve path ≠ .error (.fault fault) := by
  obtain ⟨hwritable, -⟩ := forall_isReadable_iff.1 (isReadable_of_parse hpath)
  intro hfault
  obtain ⟨n, hn⟩ | ⟨e, he⟩ := Tree.resolve_cases root hwritable
  · cases hfault.symm.trans hn
  · cases hfault.symm.trans he

end Treeline.Path
