import Treeline.Data.OfScalar
import Treeline.Proofs.Results
import Treeline.Proofs.Text.Split

/-!
# Texts that are misread

A tag can stand before a text that does not have the form of a value of its kind, and a text of the
right form may still name no day, or too large a number. Such a text is misread: making its value
ends with a fault, and what is wrong with the text says with which one.
-/

namespace Treeline.Number.Integer

variable {base : Nat} {text : String} {cs : List Char} {fault : Fault}

theorem readDigits_cases (h : readDigits base text cs = .error fault) :
    fault = .notInteger base text ∨
      ∃ count, fault = .longNumeral count ∧ Numeral.maxDigits < count := by
  rw [readDigits] at h
  split at h
  · cases h
    exact .inl rfl
  · split at h
    · rename_i hlong
      cases h
      rw [Bool.and_eq_true, decide_eq_true_iff] at hlong
      exact .inr ⟨_, rfl, hlong.2⟩
    · split at h
      · cases h
      · cases h
        exact .inl rfl

theorem read_cases (h : read base cs = .error fault) :
    fault = .notInteger base (String.ofList cs) ∨
      ∃ count, fault = .longNumeral count ∧ Numeral.maxDigits < count := by
  have hdigits : ∃ digits, readDigits base (String.ofList cs) digits = .error fault := by
    unfold read at h
    obtain h | ⟨n, -, ⟨⟩⟩ := bind_eq_error_iff.1 h
    obtain h | ⟨n, -, ⟨⟩⟩ := bind_eq_error_iff.1 h
    exact ⟨_, h⟩
  obtain ⟨digits, hdigits⟩ := hdigits
  exact readDigits_cases hdigits

end Treeline.Number.Integer

namespace Treeline.Datum

open Yaml

/-- The kinds of values that texts can fail to be. -/
inductive ValueKind
  | truth
  | whole
  | fractional
  | time
  deriving DecidableEq

namespace ValueKind

def tag : ValueKind → String
  | truth => Tag.bool
  | whole => Tag.int
  | fractional => Tag.float
  | time => Tag.timestamp

def read : ValueKind → String → Except Fault Datum
  | truth => ofBoolText
  | whole => ofIntText
  | fractional => ofFloatText
  | time => ofTimestampText

theorem tag_injective {kind other : ValueKind} (h : kind.tag = other.tag) : kind = other := by
  cases kind <;> cases other <;> first | rfl | exact absurd h (by decide)

end ValueKind

/-- What a number is written with, but for underscores and the sign in front. -/
def numberBody (cs : List Char) : List Char := Tag.unsigned (cs.filter (· != '_'))

/-- A part of a whole number, and the base that it is read in. -/
inductive IsPlaceOf : List Char → Nat → List Char → Prop
  | two (digits : List Char) : IsPlaceOf ('0' :: 'b' :: digits) 2 digits
  | sixteen (digits : List Char) : IsPlaceOf ('0' :: 'x' :: digits) 16 digits
  | eight {x : Char} (digits : List Char) (hb : x ≠ 'b') (hx : x ≠ 'x') :
      IsPlaceOf ('0' :: x :: digits) 8 ('0' :: x :: digits)
  | ten {x : Char} {digits part : List Char} (hx : x ≠ '0')
      (hpart : part ∈ Text.split ':' (x :: digits)) : IsPlaceOf (x :: digits) 10 part

/-- What is wrong with a text that is misread, and the fault that comes of it. -/
inductive Misread : ValueKind → String → Fault → Prop
  | word {text : String} (htrue : Text.lowercase text ∉ Tag.trueWords)
      (hfalse : Text.lowercase text ∉ Tag.falseWords) :
      Misread .truth text (.unknownWord (Text.lowercase text))
  /-- Nothing but underscores and a sign. -/
  | noDigits {text : String} (h : numberBody text.toList = []) : Misread .whole text .endOfText
  | notWhole {text : String} {base : Nat} {part : List Char}
      (hplace : IsPlaceOf (numberBody text.toList) base part)
      (hread : Number.Integer.read base part = .error (.notInteger base (String.ofList part))) :
      Misread .whole text (.notInteger base (String.ofList part))
  | longPlace {text : String} {base count : Nat} {part : List Char}
      (hplace : IsPlaceOf (numberBody text.toList) base part) (hlong : Numeral.maxDigits < count)
      (hread : Number.Integer.read base part = .error (.longNumeral count)) :
      Misread .whole text (.longNumeral count)
  /-- Nothing but underscores. -/
  | noFraction {text : String} (h : ∀ c ∈ (Text.lowercase text).toList, c = '_') :
      Misread .fractional text .endOfText
  | notDecimal {text : String} {part : List Char}
      (hinf : numberBody (Text.lowercase text).toList ≠ ['.', 'i', 'n', 'f'])
      (hnan : numberBody (Text.lowercase text).toList ≠ ['.', 'n', 'a', 'n'])
      (hpart : part ∈ Text.split ':' (numberBody (Text.lowercase text).toList))
      (hread : Number.Decimal.read? part = none) :
      Misread .fractional text (.notDecimal (String.ofList part))
  /-- So many places of base sixty that the first ones count for too much. -/
  | manyPlaces {text : String} {place : Nat}
      (hcolon : ':' ∈ numberBody (Text.lowercase text).toList)
      (hplace : place < (Text.split ':' (numberBody (Text.lowercase text).toList)).length)
      (hhuge : sixtyTo place = .error .hugeNumber) : Misread .fractional text .hugeNumber
  | notTime {text : String} (h : Timestamp.parse? (Tag.withoutLineFeed text.toList) = none) :
      Misread .time text .notTimestamp
  /-- A day, a time of day or an offset that does not exist. -/
  | noDay {text : String} {t : Timestamp} {problem : CalendarProblem}
      (hform : Timestamp.parse? (Tag.withoutLineFeed text.toList) = some t)
      (hresolve : t.resolve = .error problem) : Misread .time text (.calendar problem)

variable {text : String} {fault : Fault} {body cs : List Char}

/-! ### Numbers without a sign -/

theorem filter_eq_nil_iff_gaps : cs.filter (· != '_') = [] ↔ ∀ c ∈ cs, c = '_' := by
  simp

/-- Nothing but the sign is lost. -/
theorem unsigned_cases (cs : List Char) :
    (∀ c ∈ cs, c = '_') ∧ Datum.unsigned cs = .error .endOfText ∨
      (¬∀ c ∈ cs, c = '_') ∧ ∃ isNegative, Datum.unsigned cs = .ok (isNegative, numberBody cs) := by
  rw [← filter_eq_nil_iff_gaps, Datum.unsigned, numberBody]
  split
  · rename_i heq
    exact .inl ⟨heq, rfl⟩
  · rename_i heq
    rw [heq]
    exact .inr ⟨List.cons_ne_nil _ _, true, rfl⟩
  · rename_i heq
    rw [heq]
    exact .inr ⟨List.cons_ne_nil _ _, false, rfl⟩
  · rename_i hnil hminus hplus
    refine .inr ⟨hnil, false, ?_⟩
    rw [Tag.unsigned]
    · exact hplus
    · exact hminus

theorem numberBody_of_gaps (h : ∀ c ∈ cs, c = '_') : numberBody cs = [] := by
  rw [numberBody, filter_eq_nil_iff_gaps.2 h]
  rfl

theorem exists_error_of_mem {α : Type} {read : List Char → Except Fault α} {part : List Char}
    {parts : List (List Char)} (hpart : part ∈ parts) (hread : read part = .error fault) :
    ∃ first, parts.mapM read = .error first := by
  cases h : parts.mapM read with
  | error first => exact ⟨first, rfl⟩
  | ok values =>
    obtain ⟨value, -, hvalue⟩ := exists_of_forall₂ (mapM_eq_ok_iff.1 h) hpart
    rw [hread] at hvalue
    cases hvalue

/-! ### Whole numbers -/

theorem isPlaceOf_eight {rest : List Char} (hzero : rest ≠ []) (hb : ∀ more, rest ≠ 'b' :: more)
    (hx : ∀ more, rest ≠ 'x' :: more) : IsPlaceOf ('0' :: rest) 8 ('0' :: rest) := by
  obtain ⟨x, more, rfl⟩ := List.exists_cons_of_ne_nil hzero
  refine .eight more ?_ ?_
  · rintro rfl
    exact hb more rfl
  · rintro rfl
    exact hx more rfl

/-- A whole number cannot be read because it has no digits, or because of one of its places. -/
theorem magnitude_eq_error (h : magnitude body = .error fault) :
    body = [] ∧ fault = .endOfText ∨
      ∃ base part, IsPlaceOf body base part ∧ Number.Integer.read base part = .error fault := by
  unfold magnitude at h
  split at h
  · cases h
    exact .inl ⟨rfl, rfl⟩
  · cases h
  · exact .inr ⟨_, _, .two _, h⟩
  · exact .inr ⟨_, _, .sixteen _, h⟩
  · rename_i rest hzero hb hx
    exact .inr ⟨_, _, isPlaceOf_eight hzero hb hx, h⟩
  · rename_i hnil _ _ _ hzero
    obtain ⟨x, digits, rfl⟩ := List.exists_cons_of_ne_nil hnil
    have hx : x ≠ '0' := by
      rintro rfl
      exact hzero digits rfl
    split at h
    · obtain h | ⟨places, -, ⟨⟩⟩ := bind_eq_error_iff.1 h
      obtain ⟨before, part, after, -, hparts, -, hread⟩ := mapM_eq_error_iff.1 h
      refine .inr ⟨_, _, .ten hx ?_, hread⟩
      rw [hparts]
      exact List.mem_append_right _ List.mem_cons_self
    · rename_i hcolon
      refine .inr ⟨_, _, .ten hx ?_, h⟩
      rw [List.contains_eq_mem, decide_eq_true_iff] at hcolon
      rw [Text.split_of_not_mem hcolon, List.mem_singleton]

theorem magnitude_of_place {base : Nat} {part : List Char} (hplace : IsPlaceOf body base part)
    (hread : Number.Integer.read base part = .error fault) :
    ∃ first, magnitude body = .error first := by
  cases hplace with
  | two digits => exact ⟨fault, hread⟩
  | sixteen digits => exact ⟨fault, hread⟩
  | eight digits hb hx =>
    refine ⟨fault, ?_⟩
    unfold magnitude
    split <;> simp_all
  | @ten x digits part hx hpart =>
    unfold magnitude
    split
    · exact ⟨_, rfl⟩
    · simp_all
    · simp_all
    · simp_all
    · simp_all
    · split
      · obtain ⟨first, hfirst⟩ := exists_error_of_mem hpart hread
        exact ⟨first, bind_eq_error_iff.2 (.inl hfirst)⟩
      · rename_i hcolon
        rw [List.contains_eq_mem, decide_eq_true_iff] at hcolon
        rw [Text.split_of_not_mem hcolon, List.mem_singleton] at hpart
        rw [← hpart]
        exact ⟨fault, hread⟩

theorem ofIntText_eq {isNegative : Bool}
    (h : Datum.unsigned text.toList = .ok (isNegative, body)) :
    ofIntText text = (magnitude body).map fun n => .int (if isNegative then -n else n) := by
  rw [ofIntText, h]
  change (magnitude body >>= _) = _
  cases magnitude body <;> rfl

theorem misread_of_ofIntText (h : ofIntText text = .error fault) : Misread .whole text fault := by
  obtain ⟨hgaps, hunsigned⟩ | ⟨-, isNegative, hunsigned⟩ := unsigned_cases text.toList
  · rw [ofIntText, hunsigned] at h
    cases h
    exact .noDigits (numberBody_of_gaps hgaps)
  · rw [ofIntText_eq hunsigned, map_eq_error_iff] at h
    obtain ⟨hnil, rfl⟩ | ⟨base, part, hplace, hread⟩ := magnitude_eq_error h
    · exact .noDigits hnil
    · obtain rfl | ⟨count, rfl, hlong⟩ := Number.Integer.read_cases hread
      · exact .notWhole hplace hread
      · exact .longPlace hplace hlong hread

theorem exists_fault_of_magnitude (h : ∃ first, magnitude (numberBody text.toList) = .error first) :
    ∃ first, ofIntText text = .error first := by
  obtain ⟨-, hunsigned⟩ | ⟨-, isNegative, hunsigned⟩ := unsigned_cases text.toList
  · rw [ofIntText, hunsigned]
    exact ⟨_, rfl⟩
  · rw [ofIntText_eq hunsigned]
    simpa only [map_eq_error_iff] using h

/-! ### Numbers with a fraction -/

theorem sixtyTo_eq_error {n : Nat} (h : sixtyTo n = .error fault) : fault = .hugeNumber := by
  rw [sixtyTo] at h
  split at h <;> cases h
  rfl

/-- Places are summed up unless one of them counts for too much. -/
theorem sumPlaces_eq_error_iff {sum : Float} {power : Nat} {places : List Float} :
    (∃ first, sumPlaces sum power places = .error first) ↔
      ∃ place, power ≤ place ∧ place < power + places.length ∧
        ∃ first, sixtyTo place = .error first := by
  induction places generalizing sum power with
  | nil =>
    constructor
    · rintro ⟨first, ⟨⟩⟩
    · rintro ⟨place, hleast, hmost, -⟩
      exact absurd hmost (Nat.not_lt.2 hleast)
  | cons x places ih =>
    rw [sumPlaces]
    cases hpower : sixtyTo power with
    | error first =>
      refine iff_of_true ⟨first, rfl⟩ ⟨power, Nat.le_refl power, ?_, first, hpower⟩
      exact Nat.lt_add_of_pos_right (Nat.succ_pos _)
    | ok y =>
      change (∃ first, sumPlaces _ (power + 1) places = .error first) ↔ _
      rw [ih]
      constructor
      · rintro ⟨place, hleast, hmost, hplace⟩
        refine ⟨place, by omega, ?_, hplace⟩
        rw [List.length_cons]
        omega
      · rintro ⟨place, hleast, hmost, first, hplace⟩
        have hne : place ≠ power := by
          rintro rfl
          rw [hpower] at hplace
          cases hplace
        rw [List.length_cons] at hmost
        exact ⟨place, by omega, by omega, first, hplace⟩

theorem sumPlaces_eq_error {sum : Float} {power : Nat} {places : List Float}
    (h : sumPlaces sum power places = .error fault) : fault = .hugeNumber := by
  induction places generalizing sum power with
  | nil => cases h
  | cons x places ih =>
    rw [sumPlaces] at h
    obtain h | ⟨y, -, h⟩ := bind_eq_error_iff.1 h
    · exact sixtyTo_eq_error h
    · exact ih h

theorem read_eq_error_iff {part : List Char} :
    Number.Decimal.read part = .error fault ↔
      Number.Decimal.read? part = none ∧ fault = .notDecimal (String.ofList part) := by
  rw [Number.Decimal.read]
  cases Number.Decimal.read? part <;> simp [eq_comm]

theorem floatMagnitude_eq (hinf : body ≠ ['.', 'i', 'n', 'f'])
    (hnan : body ≠ ['.', 'n', 'a', 'n']) :
    floatMagnitude body =
      if ':' ∈ body then
        (Text.split ':' body).mapM Number.Decimal.read >>= fun places =>
          sumPlaces 0 0 places.reverse
      else Number.Decimal.read body := by
  rw [floatMagnitude, if_neg hinf, if_neg hnan, List.contains_eq_mem]
  by_cases hcolon : ':' ∈ body <;> simp [hcolon]

theorem length_reverse_of_mapM {parts : List (List Char)} {places : List Float}
    (h : parts.mapM Number.Decimal.read = .ok places) : places.reverse.length = parts.length := by
  rw [List.length_reverse]
  exact (mapM_eq_ok_iff.1 h).length_eq.symm

/-- A number with a fraction cannot be read because of one of its places, or because there are too
many of them. -/
theorem floatMagnitude_eq_error (h : floatMagnitude body = .error fault) :
    body ≠ ['.', 'i', 'n', 'f'] ∧ body ≠ ['.', 'n', 'a', 'n'] ∧
      ((∃ part ∈ Text.split ':' body, Number.Decimal.read? part = none ∧
          fault = .notDecimal (String.ofList part)) ∨
        ':' ∈ body ∧ fault = .hugeNumber ∧
          ∃ place < (Text.split ':' body).length, sixtyTo place = .error .hugeNumber) := by
  have hinf : body ≠ ['.', 'i', 'n', 'f'] := by
    rintro rfl
    cases h
  have hnan : body ≠ ['.', 'n', 'a', 'n'] := by
    rintro rfl
    cases h
  rw [floatMagnitude_eq hinf hnan] at h
  refine ⟨hinf, hnan, ?_⟩
  split at h
  · rename_i hcolon
    obtain h | ⟨places, hplaces, h⟩ := bind_eq_error_iff.1 h
    · obtain ⟨before, part, after, -, hparts, -, hread⟩ := mapM_eq_error_iff.1 h
      refine .inl ⟨part, ?_, read_eq_error_iff.1 hread⟩
      rw [hparts]
      exact List.mem_append_right _ List.mem_cons_self
    · obtain ⟨place, -, hmost, first, hhuge⟩ := sumPlaces_eq_error_iff.1 ⟨fault, h⟩
      obtain rfl := sixtyTo_eq_error hhuge
      rw [Nat.zero_add, length_reverse_of_mapM hplaces] at hmost
      exact .inr ⟨hcolon, sumPlaces_eq_error h, place, hmost, hhuge⟩
  · rename_i hcolon
    refine .inl ⟨body, ?_, read_eq_error_iff.1 h⟩
    rw [Text.split_of_not_mem hcolon, List.mem_singleton]

theorem floatMagnitude_of_part {part : List Char} (hinf : body ≠ ['.', 'i', 'n', 'f'])
    (hnan : body ≠ ['.', 'n', 'a', 'n']) (hpart : part ∈ Text.split ':' body)
    (hread : Number.Decimal.read? part = none) : ∃ first, floatMagnitude body = .error first := by
  have hfault := read_eq_error_iff.2 ⟨hread, rfl⟩
  rw [floatMagnitude_eq hinf hnan]
  split
  · obtain ⟨first, hfirst⟩ := exists_error_of_mem hpart hfault
    exact ⟨first, bind_eq_error_iff.2 (.inl hfirst)⟩
  · rename_i hcolon
    rw [Text.split_of_not_mem hcolon, List.mem_singleton] at hpart
    rw [← hpart]
    exact ⟨_, hfault⟩

theorem floatMagnitude_of_place {place : Nat} (hcolon : ':' ∈ body)
    (hplace : place < (Text.split ':' body).length) (hhuge : sixtyTo place = .error .hugeNumber) :
    ∃ first, floatMagnitude body = .error first := by
  have hinf : body ≠ ['.', 'i', 'n', 'f'] := by
    rintro rfl
    simp at hcolon
  have hnan : body ≠ ['.', 'n', 'a', 'n'] := by
    rintro rfl
    simp at hcolon
  rw [floatMagnitude_eq hinf hnan, if_pos hcolon]
  cases hplaces : (Text.split ':' body).mapM Number.Decimal.read with
  | error first => exact ⟨first, rfl⟩
  | ok places =>
    refine sumPlaces_eq_error_iff.2 ⟨place, Nat.zero_le place, ?_, _, hhuge⟩
    rw [Nat.zero_add, length_reverse_of_mapM hplaces]
    exact hplace

theorem ofFloatText_eq {isNegative : Bool}
    (h : Datum.unsigned (Text.lowercase text).toList = .ok (isNegative, body)) :
    ofFloatText text =
      (floatMagnitude body).map fun x => .float ((if isNegative then -1 else 1) * x) := by
  rw [ofFloatText, h]
  change (floatMagnitude body >>= _) = _
  cases floatMagnitude body <;> rfl

theorem misread_of_ofFloatText (h : ofFloatText text = .error fault) :
    Misread .fractional text fault := by
  obtain ⟨hgaps, hunsigned⟩ | ⟨-, isNegative, hunsigned⟩ :=
    unsigned_cases (Text.lowercase text).toList
  · rw [ofFloatText, hunsigned] at h
    cases h
    exact .noFraction hgaps
  · rw [ofFloatText_eq hunsigned, map_eq_error_iff] at h
    obtain ⟨hinf, hnan, ⟨part, hpart, hread, rfl⟩ | ⟨hcolon, rfl, place, hplace, hhuge⟩⟩ :=
      floatMagnitude_eq_error h
    · exact .notDecimal hinf hnan hpart hread
    · exact .manyPlaces hcolon hplace hhuge

theorem exists_fault_of_floatMagnitude
    (h : ∃ first, floatMagnitude (numberBody (Text.lowercase text).toList) = .error first) :
    ∃ first, ofFloatText text = .error first := by
  obtain ⟨-, hunsigned⟩ | ⟨-, isNegative, hunsigned⟩ := unsigned_cases (Text.lowercase text).toList
  · rw [ofFloatText, hunsigned]
    exact ⟨_, rfl⟩
  · rw [ofFloatText_eq hunsigned]
    simpa only [map_eq_error_iff] using h

/-! ### All kinds -/

theorem ofBoolText_eq_error_iff :
    ofBoolText text = .error fault ↔ Text.lowercase text ∉ Tag.trueWords ∧
      Text.lowercase text ∉ Tag.falseWords ∧ fault = .unknownWord (Text.lowercase text) := by
  rw [ofBoolText, List.contains_eq_mem, List.contains_eq_mem]
  by_cases htrue : Text.lowercase text ∈ Tag.trueWords
  · simp [htrue]
  · by_cases hfalse : Text.lowercase text ∈ Tag.falseWords
    · simp [htrue, hfalse]
    · simp [htrue, hfalse, eq_comm]

theorem misread_of_read {kind : ValueKind} (h : kind.read text = .error fault) :
    Misread kind text fault := by
  cases kind with
  | truth =>
    obtain ⟨htrue, hfalse, rfl⟩ := ofBoolText_eq_error_iff.1 h
    exact .word htrue hfalse
  | whole => exact misread_of_ofIntText h
  | fractional => exact misread_of_ofFloatText h
  | time =>
    rw [ValueKind.read, ofTimestampText] at h
    split at h
    · rename_i hform
      cases h
      exact .notTime hform
    · rename_i t hform
      split at h
      · rename_i problem hresolve
        cases h
        exact .noDay hform hresolve
      · cases h
      · cases h

theorem exists_fault_of_misread {kind : ValueKind} (h : Misread kind text fault) :
    ∃ first, kind.read text = .error first := by
  cases h with
  | word htrue hfalse => exact ⟨_, ofBoolText_eq_error_iff.2 ⟨htrue, hfalse, rfl⟩⟩
  | noDigits hdigits =>
    refine exists_fault_of_magnitude ?_
    rw [hdigits]
    exact ⟨_, rfl⟩
  | notWhole hplace hread => exact exists_fault_of_magnitude (magnitude_of_place hplace hread)
  | longPlace hplace hlong hread =>
    exact exists_fault_of_magnitude (magnitude_of_place hplace hread)
  | noFraction hgaps =>
    obtain ⟨-, hunsigned⟩ | ⟨hsome, -⟩ := unsigned_cases (Text.lowercase text).toList
    · rw [ValueKind.read, ofFloatText, hunsigned]
      exact ⟨_, rfl⟩
    · exact absurd hgaps hsome
  | notDecimal hinf hnan hpart hread =>
    exact exists_fault_of_floatMagnitude (floatMagnitude_of_part hinf hnan hpart hread)
  | manyPlaces hcolon hplace hhuge =>
    exact exists_fault_of_floatMagnitude (floatMagnitude_of_place hcolon hplace hhuge)
  | notTime hform =>
    rw [ValueKind.read, ofTimestampText, hform]
    exact ⟨_, rfl⟩
  | noDay hform hresolve =>
    rw [ValueKind.read, ofTimestampText, hform]
    dsimp only
    rw [hresolve]
    exact ⟨_, rfl⟩

end Treeline.Datum
