import Treeline.Proofs.Yaml.Write.DoubleQuoted
import Treeline.Proofs.Yaml.Write.Plain
import Treeline.Proofs.Yaml.Write.SingleQuoted
import Treeline.Yaml.Write

/-!
# Writing scalars

A text is written in a style that is read back as the same text. What is no text is written plain, in
a form that implies its tag.
-/

namespace Treeline.Yaml

open Outline

variable {cs : List Char} {tag : String} {isKey : Bool}

/-- A scalar that is written without its tag. -/
structure IsUntagged (tag : String) (cs : List Char) : Prop where
  ne : tag ≠ Tag.binary
  implied : tag = Tag.text ∨
    Tag.ofPlain cs = tag ∧ cs ≠ [] ∧ ScalarStyle.allowsPlain cs = true

/-- A text that is read back if it is written at a column: between single quotes a certain line break
is lost, and between double quotes some line breaks are. -/
structure IsKept (indent : Nat) (cs : List Char) : Prop where
  single : ScalarStyle.allowsSingleQuotes cs = true → '\u0085' ∉ cs
  double : ScalarStyle.allowsSingleQuotes cs = false → CanFold indent cs

namespace ScalarStyle

/-- How a style comes to be chosen. -/
theorem choose_cases (h : IsUntagged tag cs) (isKey : Bool) :
    (choose tag cs isKey = .plain ∧ Tag.ofPlain cs = tag ∧ cs ≠ [] ∧ allowsPlain cs = true) ∨
      tag = Tag.text ∧ (choose tag cs isKey = .singleQuoted ∧ allowsSingleQuotes cs = true ∨
        choose tag cs isKey = .doubleQuoted ∧
          (allowsSingleQuotes cs = false ∨ isKey = true ∧ isSingleLine cs = false)) := by
  rw [choose, if_neg h.ne]
  split
  next hplain =>
    simp only [Bool.and_eq_true, decide_eq_true_eq] at hplain
    obtain ⟨⟨htag, -⟩, hallowed⟩ := hplain
    refine .inl ⟨rfl, htag, ?_, hallowed⟩
    rintro rfl
    rcases h.implied with rfl | hword
    · exact absurd htag (by decide)
    · exact hword.2.1 rfl
  next hplain =>
    have htext : tag = Tag.text := by
      refine h.implied.resolve_right ?_
      rintro ⟨htag, hne, hallowed⟩
      simp [htag, hne, hallowed] at hplain
    refine .inr ⟨htext, ?_⟩
    split
    next hsingle =>
      rw [Bool.and_eq_true] at hsingle
      exact .inl ⟨rfl, hsingle.1⟩
    next hsingle =>
      refine .inr ⟨rfl, ?_⟩
      cases hallowed : allowsSingleQuotes cs with
      | false => exact .inl rfl
      | true => exact .inr (by simpa [hallowed] using hsingle)

end ScalarStyle

theorem isQuotable_of_allowsSingleQuotes (h : ScalarStyle.allowsSingleQuotes cs = true)
    (hnext : '\u0085' ∉ cs) : IsQuotable cs := by
  simp only [ScalarStyle.allowsSingleQuotes, Bool.and_eq_true, Bool.not_eq_true'] at h
  obtain ⟨⟨hspecial, hbehind⟩, hbefore⟩ := h
  rw [ScalarStyle.hasPair_eq_false_iff] at hbehind hbefore
  refine ⟨?_, hbehind, hbefore⟩
  intro x hx
  rw [List.any_eq_false] at hspecial
  refine ⟨by simpa using hspecial x hx, ?_⟩
  rintro rfl
  exact hnext hx

/-! ### The mark of an open end -/

namespace Page

variable {p : Page}

theorem isOpen_indentTo (p : Page) (indent : Nat) : (p.indentTo indent).isOpen = p.isOpen := by
  rw [indentTo]
  split <;> split <;> rfl

theorem isOpen_plain (p : Page) (breaks : Bool) (indent : Nat) (cs : List Char) :
    (p.plain breaks indent cs).isOpen = p.isOpen := by
  have hput : ∀ (fuel : Nat) (cs : List Char) (p : Page),
      (putPlain breaks indent fuel cs p).isOpen = p.isOpen := by
    intro fuel
    induction fuel with
    | zero => exact fun _ _ => rfl
    | succ fuel ih =>
      intro cs p
      rw [putPlain]
      split
      · rfl
      · split
        · rw [ih]
          split
          · exact isOpen_indentTo p indent
          · rfl
        · rw [ih]
          rfl
  rw [plain, hput]
  split <;> rfl

end Page

/-! ### Values and keys -/

variable {indent : Option Nat} {spot : Spot}

theorem inner_pos (indent : Option Nat) : 0 < Outline.inner indent Page.levelWidth := by
  cases indent <;> simp [Outline.inner, Page.levelWidth]

theorem putScalar_plain (p : Page) (hstyle : ScalarStyle.choose tag cs (spot = .simpleKey) = .plain)
    (htag : Tag.ofPlain cs = tag) :
    putScalar indent spot tag cs p =
      { p.plain (spot != .simpleKey) (Outline.inner indent Page.levelWidth) cs with
        isOpen := p.isOpen || spot = .root } := by
  have hno : ScalarStyle.needsTag .plain tag cs = false := by simp [ScalarStyle.needsTag, htag]
  have hopen := Page.isOpen_plain p (spot != .simpleKey) (Outline.inner indent Page.levelWidth) cs
  simp only [putScalar, hstyle, hno, Page.scalar]
  by_cases hspot : spot = .root
  · simp [hspot]
  · simp [hspot, ← hopen]

theorem putScalar_quoted (p : Page) {style : ScalarStyle}
    (hstyle : ScalarStyle.choose Tag.text cs (spot = .simpleKey) = style) (hquoted : style ≠ .plain) :
    putScalar indent spot Tag.text cs p =
      p.scalar style (spot != .simpleKey) (Outline.inner indent Page.levelWidth) cs := by
  have hno : style.needsTag Tag.text cs = false := by simp [ScalarStyle.needsTag, hquoted]
  simp [putScalar, hstyle, hno, hquoted]

theorem exists_putScalar (indent : Option Nat) (spot : Spot) (p : Page) (h : IsUntagged tag cs)
    (hkept : IsKept (Outline.inner indent Page.levelWidth) cs) (hspot : spot ≠ .simpleKey) :
    ∃ ws isPlain, p.Adds (p.blank ++ ws) (putScalar indent spot tag cs p) ∧
      (putScalar indent spot tag cs p).IsText ∧
      IsLeaf (Outline.inner indent Page.levelWidth) ws [.scalar (String.ofList cs) isPlain] ∧
      (p.isOpen = false → spot ≠ .root → (putScalar indent spot tag cs p).isOpen = false) := by
  have hindent := inner_pos indent
  rcases ScalarStyle.choose_cases h (spot = .simpleKey) with
    ⟨hstyle, htag, hne, hallowed⟩ | ⟨rfl, ⟨hstyle, hallowed⟩ | ⟨hstyle, hallowed⟩⟩
  · obtain ⟨ws, hadds, htext, hplain, -⟩ := p.exists_plain hne hallowed (fun _ => hindent)
    rw [putScalar_plain p hstyle htag]
    exact ⟨ws, true, hadds, ⟨htext.endsBlank, htext.isIndentation⟩, hplain.leaf, by simp +contextual⟩
  · obtain ⟨ws, hadds, hwrites⟩ := p.exists_singleQuoted (spot != .simpleKey)
      (isQuotable_of_allowsSingleQuotes hallowed (hkept.single hallowed)) hindent
    rw [putScalar_quoted p hstyle (by decide)]
    exact ⟨inQuotes false ws, false, hadds, ⟨rfl, rfl⟩,
      hwrites.encodes.leaf hwrites.allowed _, fun _ _ => rfl⟩
  · obtain ⟨ws, hadds, hwrites⟩ := p.exists_doubleQuoted (spot != .simpleKey) hindent
      (hkept.double (hallowed.resolve_right (by simp [hspot])))
    rw [putScalar_quoted p hstyle (by decide)]
    exact ⟨inQuotes true ws, false, hadds, ⟨rfl, rfl⟩,
      hwrites.encodes.leaf hwrites.allowed _, fun _ _ => rfl⟩

/-- A text can be written as a key before a colon: its escapes do not make it too long. -/
def IsNearKey (cs : List Char) : Prop :=
  ScalarStyle.allowsSingleQuotes cs = false → (inQuotes true (escapedText cs)).length ≤ maxKeyLength

theorem isKey_of_allowsPlain (hne : cs ≠ []) (h : ScalarStyle.allowsPlain cs = true)
    (hlength : cs.length < longKey) : IsKey cs (.scalar (String.ofList cs) true) := by
  have hplain : ∀ least, IsPlainText least cs cs := by
    intro least
    have hnever : false = true → 0 < least := nofun
    obtain ⟨ws, -, -, hwritten, hsame⟩ := Page.empty.exists_plain hne h hnever
    rwa [hsame rfl] at hwritten
  refine IsPlainText.key hplain ?_ ?_
  · simp only [ScalarStyle.allowsPlain, ScalarStyle.allowsSingleQuotes, ScalarStyle.isSingleLine,
      Bool.and_eq_true, Bool.not_eq_true', List.any_eq_false] at h
    obtain ⟨⟨⟨⟨⟨⟨⟨hspecial, -⟩, -⟩, hline⟩, -⟩, -⟩, -⟩, -⟩ := h
    intro x hx
    have hordinary : ScalarStyle.isSpecial x = false := by simpa using hspecial x hx
    have hinLine : ScalarStyle.breaksLine x = false := by simpa using hline x hx
    exact ⟨isBreak_eq_false_of_isSpecial hordinary hinLine,
      (isAllowed_of_isSpecial hordinary).2.2.2.2⟩
  · simp only [longKey, maxKeyLength] at *
    omega

theorem exists_putKey (indent : Option Nat) (p : Page) (hne : cs ≠ []) (hline : ScalarStyle.isSingleLine cs = true)
    (hlength : cs.length < longKey) (hnear : IsNearKey cs) :
    ∃ ws isPlain, p.Adds (p.blank ++ ws) (putScalar indent .simpleKey Tag.text cs p) ∧
      (putScalar indent .simpleKey Tag.text cs p).IsText ∧
      IsKey ws (.scalar (String.ofList cs) isPlain) := by
  have hindent := inner_pos indent
  have huntagged : IsUntagged Tag.text cs := ⟨by decide, .inl rfl⟩
  have hinLine : ∀ x ∈ cs, ScalarStyle.breaksLine x = false := by
    simpa [ScalarStyle.isSingleLine] using hline
  have hnext : '\u0085' ∉ cs := by
    intro hmem
    exact absurd (hinLine _ hmem) (by decide)
  rcases ScalarStyle.choose_cases huntagged (Spot.simpleKey = .simpleKey) with
    ⟨hstyle, htag, hne, hallowed⟩ | ⟨-, ⟨hstyle, hallowed⟩ | ⟨hstyle, hallowed⟩⟩
  · have hnever : false = true → 0 < Outline.inner indent Page.levelWidth :=
      fun h => absurd h Bool.false_ne_true
    obtain ⟨ws, hadds, htext, -, hsame⟩ := p.exists_plain hne hallowed hnever
    obtain rfl := hsame rfl
    rw [putScalar_plain p hstyle htag]
    exact ⟨ws, true, hadds, ⟨htext.endsBlank, htext.isIndentation⟩,
      isKey_of_allowsPlain hne hallowed hlength⟩
  · obtain ⟨ws, hadds, hwrites⟩ := p.exists_singleQuoted false
      (isQuotable_of_allowsSingleQuotes hallowed hnext) hindent
    obtain ⟨hwide, hgrowth⟩ := hwrites.line rfl hinLine
    have hshort : (inQuotes false ws).length ≤ maxKeyLength := by
      simp only [inQuotes, List.length_cons, List.length_append, List.length_nil, longKey,
        maxKeyLength] at *
      omega
    rw [putScalar_quoted p hstyle (by decide)]
    exact ⟨inQuotes false ws, false, hadds, ⟨rfl, rfl⟩,
      hwrites.encodes.key hwrites.allowed hwide hshort⟩
  · have hwrites := writesEscaped_escapedText cs
    have hspecial := hallowed.resolve_right (by simp [hline])
    rw [putScalar_quoted p hstyle (by decide)]
    exact ⟨inQuotes true (escapedText cs), false, p.adds_doubleQuoted _ cs, ⟨rfl, rfl⟩,
      hwrites.encodes.key hwrites.allowed (isWide_escapedText cs) (hnear hspecial)⟩

end Treeline.Yaml
