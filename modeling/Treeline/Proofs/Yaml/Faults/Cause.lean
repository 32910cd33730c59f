import Treeline.Proofs.Results
import Treeline.Yaml.Token.Directive
import Treeline.Yaml.Token.QuotedText

/-!
# What a fault of reading is caused by

Reading a text ends with a fault for one of two reasons. Either an escape gives the code of a
character in eight digits, and there is no such character, or a version is given by a number of more
than `maxDigits` digits. What causes a fault stands in the text, and what is left of a text is a
suffix of it; so whoever reads a text in steps passes on, at each step, a text that causes the same
faults at most.
-/

namespace Treeline.Yaml

variable {α β : Type}

/-! ### Causes -/

/-- Eight digits behind a backslash and the letter that announces them, for a code above the last
one. -/
def IsWideCode (digits : List Char) : Prop :=
  digits.length = 8 ∧ (∀ d ∈ digits, (Text.hexValue? d).isSome = true) ∧
    0x10FFFF < Text.hexNumber digits

/-- What stands between the name of the version directive and one of the numbers of a version. -/
def OpensNumber (opening : List Char) : Prop :=
  ∃ spaces, (∀ c ∈ spaces, c = ' ') ∧ (opening = spaces ∨
    ∃ major, (∀ d ∈ major, isDigit d = true) ∧ opening = spaces ++ (major ++ ['.']))

/-- A text that can end with a fault when it is read. -/
inductive Causes (cs : List Char) : Fault → Prop
  | code {digits : List Char} (hcode : IsWideCode digits)
      (hmem : '\\' :: 'U' :: digits <:+: cs) :
      Causes cs (Token.codeFault (Text.hexNumber digits))
  | version {opening digits : List Char} (hopening : OpensNumber opening)
      (hdigits : ∀ d ∈ digits, isDigit d = true) (hlong : Numeral.maxDigits < digits.length)
      (hmem : "%YAML".toList ++ (opening ++ digits) <:+: cs) :
      Causes cs (.longNumeral digits.length)

theorem Causes.mono {cs ds : List Char} {fault : Fault} (h : Causes cs fault)
    (hsuffix : cs <:+ ds) : Causes ds fault := by
  cases h with
  | code hcode hmem => exact .code hcode (hmem.trans hsuffix.isInfix)
  | version hopening hdigits hlong hmem =>
    exact .version hopening hdigits hlong (hmem.trans hsuffix.isInfix)

/-- Whether an escape is written in a text whose code is reserved for half of a surrogate pair. It
causes no fault, but no character stands for such a half either, and it cannot be encoded. -/
def SpellsHalf (text : List Char) : Prop :=
  ∃ letter digits, Token.escapeWidth? letter = some digits.length ∧
    0xD800 ≤ Text.hexNumber digits ∧ Text.hexNumber digits < 0xE000 ∧
    '\\' :: letter :: digits <:+: text

theorem not_spellsHalf_of_not_mem {text : List Char} (h : '\\' ∉ text) : ¬SpellsHalf text := by
  rintro ⟨letter, digits, -, -, -, hmem⟩
  exact h (hmem.subset List.mem_cons_self)

/-! ### Reading in steps -/

/-- What comes of reading a text: it leaves a suffix of the text, or it reports an error, or it ends
with a fault that the text causes. `left` says what is left. -/
def Accounted (cs : List Char) (left : α → List Char) : Result α → Prop
  | .ok a => left a <:+ cs
  | .error (.reported _) => True
  | .error (.fault fault) => Causes cs fault

namespace Accounted

variable {cs ds : List Char} {left : α → List Char} {left' : β → List Char} {x : Result α}

theorem ok {a : α} (h : left a <:+ cs) : Accounted cs left (.ok a) := h

theorem reported {failure : Failure} : Accounted cs left (.error (.reported failure)) := trivial

theorem refuse {problem : Problem} {m : Mark} : Accounted cs left (refuse problem m) := trivial

theorem refuseIn {context : Context} {start m : Mark} {problem : Problem} :
    Accounted cs left (refuseIn context start problem m) := trivial

theorem mono (h : Accounted cs left x) (hsuffix : cs <:+ ds) : Accounted ds left x := by
  cases x with
  | ok a => exact List.IsSuffix.trans h hsuffix
  | error stop =>
    cases stop with
    | reported failure => trivial
    | fault fault => exact Causes.mono h hsuffix

theorem bind_of_ok {f : α → Result β} (hx : Accounted cs left x)
    (hf : ∀ a, x = .ok a → left a <:+ cs → Accounted cs left' (f a)) :
    Accounted cs left' (x >>= f) := by
  cases x with
  | ok a => exact hf a rfl hx
  | error stop =>
    cases stop with
    | reported failure => trivial
    | fault fault => exact hx

/-- What is read after something else is read from what that has left. -/
theorem bind {f : α → Result β} (hx : Accounted cs left x)
    (hf : ∀ a, left a <:+ cs → Accounted (left a) left' (f a)) : Accounted cs left' (x >>= f) :=
  hx.bind_of_ok fun a _ hleft => (hf a hleft).mono hleft

end Accounted

/-! ### Cursors -/

namespace Cursor

theorem next_suffix (c : Cursor) : c.next.rest <:+ c.rest := by
  rw [next]
  split
  · exact List.suffix_rfl
  · rename_i x rest h
    rw [h]
    exact List.suffix_cons x rest

theorem rest_of_char {c : Cursor} {x : Char} (h : c.char = x) (hx : x ≠ endOfText) :
    c.rest = x :: c.next.rest := by
  rw [next]
  cases hrest : c.rest with
  | nil =>
    rw [char, hrest] at h
    exact absurd h.symm hx
  | cons y rest =>
    rw [char, hrest] at h
    exact congrArg (· :: rest) h

theorem skip_suffix (c : Cursor) (count : Nat) : (c.skip count).rest <:+ c.rest := by
  induction count generalizing c with
  | zero => exact List.suffix_rfl
  | succ count ih => exact (ih c.next).trans c.next_suffix

theorem skipFrom_suffix (p : Char → Bool) (cs : List Char) (m : Mark) :
    (skipFrom p cs m).rest <:+ cs := by
  induction cs generalizing m with
  | nil => exact List.suffix_rfl
  | cons x rest ih =>
    rw [skipFrom]
    split
    · exact (ih _).trans (List.suffix_cons x rest)
    · exact List.suffix_rfl

theorem skipWhile_suffix (c : Cursor) (p : Char → Bool) : (c.skipWhile p).rest <:+ c.rest :=
  skipFrom_suffix p c.rest c.mark

theorem skipSpaces_suffix (c : Cursor) : c.skipSpaces.rest <:+ c.rest := c.skipWhile_suffix _

theorem skipLine_suffix (c : Cursor) : c.skipLine.rest <:+ c.rest := c.skipWhile_suffix _

theorem skipComment_suffix (c : Cursor) : c.skipComment.rest <:+ c.rest := by
  rw [skipComment]
  split
  · exact c.skipLine_suffix
  · exact List.suffix_rfl

theorem break?_suffix {c after : Cursor} {x : Char} (h : c.break? = some (x, after)) :
    after.rest <:+ c.rest := by
  rw [break?] at h
  split at h
  · cases h
    exact c.skip_suffix 2
  · split_ifs at h <;> cases h <;> exact c.next_suffix
  · cases h

theorem skipBreak_suffix (c : Cursor) : c.skipBreak.rest <:+ c.rest := by
  rw [skipBreak]
  split
  · rename_i h
    exact break?_suffix h
  · exact List.suffix_rfl

end Cursor

theorem accounted_endLine (context : Context) (start : Mark) (c : Cursor) :
    Accounted c.rest Cursor.rest (endLine context start c) := by
  have hcomment : c.skipSpaces.skipComment.rest <:+ c.rest :=
    c.skipSpaces.skipComment_suffix.trans c.skipSpaces_suffix
  unfold endLine
  dsimp only
  split
  · exact .ok ((Cursor.skipBreak_suffix _).trans hcomment)
  · exact .refuseIn

end Treeline.Yaml
