import Treeline.Proofs.Text.Hex
import Treeline.Proofs.Yaml.Leaf
import Treeline.Proofs.Yaml.ScalarStyle
import Treeline.Proofs.Yaml.Write.Page

/-!
# Writing text between double quotes

Every character is written as it is or as an escape, and both are read back. Lines are broken by a
backslash, with another one in front of a space on the next line.
-/

namespace Treeline.Yaml

open Token Page

variable {cs escaped : List Char} {c x : Char}

/-! ### Escapes -/

theorem eq_of_toNat {n : Nat} (h : c.toNat = n) : c = Char.ofNat n := by
  rw [← h, Char.ofNat_toNat]

/-- An escape is a letter that stands for the character, or a letter and the digits of its code. -/
theorem escape_cases (h : escape? c = some escaped) :
    (∃ e, escaped = ['\\', e] ∧ shortEscape? e = some c) ∨
      ∃ e width, escaped = '\\' :: e :: Text.hexUpper width c.toNat ∧ shortEscape? e = none ∧
        escapeWidth? e = some width ∧ c.toNat < 16 ^ width := by
  unfold escape? at h
  simp only at h
  split at h
  case h_15 =>
    split at h
    next => cases h
    next =>
      split at h
      next => 
        refine .inr ⟨'x', 2, (Option.some.inj h).symm, by decide, by decide, by omega⟩
      next =>
        split at h
        next =>
          refine .inr ⟨'u', 4, (Option.some.inj h).symm, by decide, by decide, by omega⟩
        next =>
          refine .inr ⟨'U', 8, (Option.some.inj h).symm, by decide, by decide, ?_⟩
          have hvalid : c.toNat.isValidChar := c.valid
          rcases hvalid with hvalid | hvalid <;> omega
  all_goals
    next hc =>
      obtain rfl := eq_of_toNat hc
      exact .inl ⟨_, (Option.some.inj h).symm, by decide⟩

theorem isWide_escape (h : escape? c = some escaped) :
    ∀ x ∈ escaped, isAllowed x = true ∧ Mark.IsWide x := by
  have hsign : isAllowed '\\' = true ∧ Mark.IsWide '\\' := ⟨by decide, by decide, by decide⟩
  rcases escape_cases h with ⟨e, rfl, he⟩ | ⟨e, width, rfl, -, he, -⟩
  · have hletter : isAllowed e = true ∧ Mark.IsWide e := by
      unfold shortEscape? at he
      split at he
      all_goals first
        | exact ⟨by decide, by decide, by decide⟩
        | cases he
    simp [hsign, hletter]
  · have hletter : isAllowed e = true ∧ Mark.IsWide e := by
      unfold escapeWidth? at he
      split at he
      all_goals first
        | exact ⟨by decide, by decide, by decide⟩
        | cases he
    have hdigit : ∀ m : Fin 16, isAllowed (Text.hexDigitUpper m) = true ∧
        isBreak (Text.hexDigitUpper m) = false ∧ Text.hexDigitUpper m ≠ '\uFEFF' := by decide
    refine List.forall_mem_cons.2 ⟨hsign, List.forall_mem_cons.2 ⟨hletter, ?_⟩⟩
    intro x hx
    obtain ⟨m, hm, rfl⟩ := Text.exists_of_mem_hexUpper hx
    exact hdigit ⟨m, hm⟩

theorem ne_of_escape (h : escape? c = none) :
    c ∉ ['\x00', '\t', '\n', '\r', '\u0085', '\u2028', '\u2029', '\x22', '\\', '\uFEFF'] := by
  intro hc
  have hall : ['\x00', '\t', '\n', '\r', '\u0085', '\u2028', '\u2029', '\x22', '\\',
      '\uFEFF'].all (fun y => (escape? y).isSome) = true := by decide
  have hsome := List.all_eq_true.1 hall c hc
  rw [h] at hsome
  cases hsome

theorem isAllowed_of_escape (h : escape? c = none) : isAllowed c = true := by
  unfold escape? at h
  simp only at h
  split at h
  case h_15 =>
    split at h
    next hrange =>
      have hvalid : c.toNat.isValidChar := c.valid
      simp only [isAllowed, Bool.or_eq_true, Bool.and_eq_true, decide_eq_true_eq]
      rcases hvalid with hvalid | hvalid <;> omega
    next =>
      split at h
      · cases h
      · split at h <;> cases h
  all_goals cases h

theorem ordinary_of_escape (h : escape? c = none) :
    Mark.IsWide c ∧ (c ≠ ' ' → IsOrdinary true c) := by
  have hne := ne_of_escape h
  simp only [List.mem_cons, List.not_mem_nil, or_false, not_or] at hne
  obtain ⟨hnull, htab, hline, hreturn, hnext, hls, hps, hquote, hback, hmark⟩ := hne
  have hbreak : isBreak c = false := by simp [isBreak, hline, hreturn, hnext, hls, hps]
  refine ⟨⟨hbreak, hmark⟩, ?_⟩
  intro hspace
  refine ⟨?_, hback, hquote⟩
  simp [isBlankOrEnd, isBlank, isLineEnd, endOfText, hspace, htab, hnull, hbreak]

/-! ### Writing -/

/-- The characters that a text is written as if no line is broken. -/
def escapedText (cs : List Char) : List Char := cs.flatMap fun c => (escape? c).getD [c]

/-- Characters that are read as a text between double quotes, with no line that ends at a blank. -/
structure WritesEscaped (cs ws : List Char) : Prop where
  encodes : Encodes true ws cs
  allowed : ∀ x ∈ ws, isAllowed x = true
  line : StaysInLine true ws
  solid : cs.head? ≠ some ' ' → StartsSolid true ws

/-- A backslash in front of what a text is written as, if its first space has to be escaped. -/
def escapes (isEscaped : Bool) (ws : List Char) : List Char := if isEscaped then '\\' :: ws else ws

def meetsSpace (next : Option Char) : Bool := next = some ' '

@[simp] theorem meetsSpace_iff {next : Option Char} : meetsSpace next = true ↔ next = some ' ' := by
  simp [meetsSpace]

theorem writesEscaped_nil : WritesEscaped [] [] where
  encodes := encodes_nil true
  allowed := by simp
  line := (startsSolid_nil true).staysInLine
  solid _ := startsSolid_nil true

section

variable {ws run : List Char}

theorem WritesEscaped.bare (h : WritesEscaped cs ws) (hrun : ∀ x ∈ run, escape? x = none) :
    WritesEscaped (run ++ cs) (run ++ ws) := by
  induction run with
  | nil => exact h
  | cons x run ih =>
    obtain ⟨hx, hmore⟩ := List.forall_mem_cons.1 hrun
    have hothers := ih hmore
    have hallowed : ∀ y ∈ x :: (run ++ ws), isAllowed y = true :=
      List.forall_mem_cons.2 ⟨isAllowed_of_escape hx, hothers.allowed⟩
    by_cases hspace : x = ' '
    · subst hspace
      exact ⟨hothers.encodes.space hothers.line, hallowed, hothers.line.space,
        fun hhead => absurd rfl hhead⟩
    · have hordinary := (ordinary_of_escape hx).2 hspace
      have hsolid : StartsSolid true (x :: (run ++ ws)) := startsSolid_cons hordinary.1 _
      exact ⟨hothers.encodes.ordinary hordinary, hallowed, hsolid.staysInLine, fun _ => hsolid⟩

theorem WritesEscaped.front {isEscaped : Bool} (h : WritesEscaped cs ws)
    (hrun : ∀ x ∈ run, escape? x = none) (hescaped : isEscaped = true → run.head? = some ' ') :
    WritesEscaped (run ++ cs) (escapes isEscaped (run ++ ws)) := by
  cases isEscaped with
  | false => exact h.bare hrun
  | true =>
    obtain ⟨x, run, rfl⟩ := List.exists_cons_of_ne_nil
      (show run ≠ [] by rintro rfl; cases hescaped rfl)
    obtain rfl : x = ' ' := by simpa using hescaped rfl
    have hothers := h.bare (List.forall_mem_cons.1 hrun).2
    have hsolid : StartsSolid true ('\\' :: ' ' :: (run ++ ws)) := startsSolid_cons (by decide) _
    exact ⟨hothers.encodes.shortEscape (by decide),
      List.forall_mem_cons.2 ⟨by decide, List.forall_mem_cons.2 ⟨by decide, hothers.allowed⟩⟩,
      hsolid.staysInLine, fun _ => hsolid⟩

theorem WritesEscaped.escape (h : WritesEscaped cs ws) (hc : escape? c = some escaped) :
    WritesEscaped (c :: cs) (escaped ++ ws) := by
  have hallowed := List.forall_mem_append.2 ⟨fun x hx => (isWide_escape hc x hx).1, h.allowed⟩
  rcases escape_cases hc with ⟨e, rfl, he⟩ | ⟨e, width, rfl, hshort, he, hcode⟩
  · have hsolid : StartsSolid true (['\\', e] ++ ws) := startsSolid_cons (by decide) _
    exact ⟨h.encodes.shortEscape he, hallowed, hsolid.staysInLine, fun _ => hsolid⟩
  · have hsolid : StartsSolid true ('\\' :: e :: Text.hexUpper width c.toNat ++ ws) :=
      startsSolid_cons (by decide) _
    refine ⟨?_, hallowed, hsolid.staysInLine, fun _ => hsolid⟩
    have hdigits : ∀ x ∈ Text.hexUpper width c.toNat, (Text.hexValue? x).isSome = true := by
      intro x hx
      obtain ⟨m, hm, rfl⟩ := Text.exists_of_mem_hexUpper hx
      rw [Text.hexValue?_hexDigitUpper hm]
      rfl
    have hencodes : Encodes true ('\\' :: e :: (Text.hexUpper width c.toNat ++ ws))
        (Char.ofNat c.toNat :: cs) :=
      h.encodes.codeEscape hshort (by rwa [Text.length_hexUpper]) hdigits
        (Text.hexNumber_hexUpper hcode) c.valid
    rwa [Char.ofNat_toNat] at hencodes

/-- A line break in front, with a backslash behind it if a space follows. -/
theorem WritesEscaped.fold {indent : Nat}
    (h : WritesEscaped cs (escapes (meetsSpace cs.head?) ws)) (hindent : 0 < indent) :
    WritesEscaped cs
      ('\\' :: '\n' :: (List.replicate indent ' ' ++ escapes (meetsSpace cs.head?) ws)) where
  encodes := by
    refine h.encodes.escapedBreak hindent ?_
    by_cases hspace : cs.head? = some ' '
    · rw [escapes, if_pos (meetsSpace_iff.2 hspace)]
      exact startsSolid_cons (by decide) _
    · exact h.solid hspace
  allowed := by
    have hblanks := (List.forall_mem_append.2
      ⟨isAllowed_newLine_blanks indent, h.allowed⟩)
    exact List.forall_mem_cons.2 ⟨by decide, hblanks⟩
  line := (startsSolid_cons (by decide) _).staysInLine
  solid _ := startsSolid_cons (by decide) _

/-- A text can be written at a column: a line break is never written behind a backslash that stands
for a space. -/
def CanFold (indent : Nat) (cs : List Char) : Prop :=
  indent < lineWidth ∨ ScalarStyle.hasPair (fun c => (escape? c).isSome) (fun c => c = ' ') cs = false

theorem CanFold.tail {indent : Nat} (h : CanFold indent (x :: cs)) : CanFold indent cs := by
  rcases h with h | h
  · exact .inl h
  · refine .inr ?_
    rw [ScalarStyle.hasPair_eq_false_iff] at h ⊢
    exact h.tail

theorem CanFold.lt {indent : Nat} (h : CanFold indent (x :: cs)) (hx : (escape? x).isSome = true)
    (hspace : cs.head? = some ' ') : indent < lineWidth := by
  rcases h with h | h
  · exact h
  · rw [ScalarStyle.hasPair_eq_false_iff] at h
    exact absurd (h.rel_head? hspace) (by simp [hx])

theorem escapes_nil_append (isEscaped : Bool) (ws : List Char) :
    escapes isEscaped [] ++ ws = escapes isEscaped ws := by
  cases isEscaped <;> rfl

theorem adds_foldLine {p : Page} (hp : p.isIndentation = false) (indent : Nat)
    (next : Option Char) :
    p.Adds ('\\' :: '\n' :: (List.replicate indent ' ' ++ escapes (meetsSpace next) []))
        (p.foldLine indent next) ∧
      (p.foldLine indent next).isIndentation = false ∧
      (p.foldLine indent next).column ≤ indent + 1 := by
  have hput : (p.put ['\\']).isIndentation = false := hp
  obtain ⟨hadds, hfresh⟩ := adds_indentTo (n := indent) (.inl hput)
  have hline : p.Adds ('\\' :: '\n' :: List.replicate indent ' ')
      ((p.put ['\\']).indentTo indent).inText := (adds_put p ['\\']).trans hadds
  have hcolumn : ((p.put ['\\']).indentTo indent).inText.column = indent := hfresh.column
  by_cases hspace : next = some ' '
  · rw [foldLine, if_pos hspace]
    refine ⟨?_, rfl, ?_⟩
    · have hall := hline.trans (adds_put _ ['\\'])
      simpa [hspace, meetsSpace, escapes] using hall
    · exact Nat.succ_le_succ (Nat.le_of_eq hcolumn)
  · rw [foldLine, if_neg hspace]
    refine ⟨?_, rfl, ?_⟩
    · simpa [hspace, meetsSpace, escapes] using hline
    · omega

/-- Between two pages, characters are written from which a text is read back. The flag tells that a
backslash stands in front of them, which escapes the first space of the text. -/
def PutsEscaped (isEscaped : Bool) (cs : List Char) (p q : Page) : Prop :=
  ∃ ws, p.Adds ws q ∧ WritesEscaped cs (escapes isEscaped ws)

namespace PutsEscaped

variable {p q : Page}

theorem nil (p : Page) : PutsEscaped false [] p p := ⟨[], .refl p, writesEscaped_nil⟩

theorem front {isEscaped : Bool} (h : PutsEscaped false cs (p.put run.reverse) q)
    (hrun : ∀ x ∈ run, escape? x = none)
    (hescaped : isEscaped = true → run.reverse.head? = some ' ') :
    PutsEscaped isEscaped (run.reverse ++ cs) p q := by
  obtain ⟨ws, hadds, hwrites⟩ := h
  have hreverse : ∀ x ∈ run.reverse, escape? x = none := by simpa using hrun
  exact ⟨run.reverse ++ ws, (adds_put p _).trans hadds, hwrites.front hreverse hescaped⟩

theorem escape (h : PutsEscaped false cs (p.put escaped) q) (hc : escape? c = some escaped) :
    PutsEscaped false (c :: cs) p q := by
  obtain ⟨ws, hadds, hwrites⟩ := h
  exact ⟨escaped ++ ws, (adds_put p _).trans hadds, WritesEscaped.escape hwrites hc⟩

theorem fold {indent : Nat} (hindent : 0 < indent) (hp : p.isIndentation = false)
    (h : PutsEscaped (meetsSpace cs.head?) cs (p.foldLine indent cs.head?) q) :
    PutsEscaped false cs p q := by
  obtain ⟨ws, hadds, hwrites⟩ := h
  have hfold : WritesEscaped cs (escapes false _) := hwrites.fold hindent
  refine ⟨_, (adds_foldLine hp indent cs.head?).1.trans hadds, ?_⟩
  simpa [escapes_nil_append] using hfold

end PutsEscaped

/-- What is left of a text is written so that the text is read back. -/
theorem putsEscaped_putDoubleQuoted {breaks : Bool} {indent : Nat} {p : Page}
    (isStart isEscaped : Bool) (hindent : 0 < indent) (hcs : CanFold indent cs)
    (hrun : ∀ x ∈ run, escape? x = none) (hp : p.isIndentation = false)
    (hescaped : isEscaped = true → (run.reverse ++ cs).head? = some ' ')
    (hcolumn : isEscaped = true → run = [] → p.column ≤ lineWidth) :
    PutsEscaped isEscaped (run.reverse ++ cs) p
      (putDoubleQuoted breaks indent isStart run cs p) := by
  induction cs generalizing run p isStart isEscaped with
  | nil => exact .front (.nil _) hrun (by simpa using hescaped)
  | cons c rest ih =>
    have hnone : ∀ x ∈ ([] : List Char), escape? x = none := by simp
    -- an escaped space is taken already, unless it comes next and nothing is taken
    have hfront : run ≠ [] → isEscaped = true → run.reverse.head? = some ' ' := by
      intro hne htrue
      have hfirst := hescaped htrue
      rwa [List.head?_append_of_ne_nil _ (by simpa using hne)] at hfirst
    rw [putDoubleQuoted]
    cases hc : escape? c with
    | some escaped =>
      refine .front (.escape ?_ hc) hrun fun htrue => hfront ?_ htrue
      · have hwritten : ((p.put run.reverse).put escaped).isIndentation = false := hp
        simp only
        split
        next hfold =>
          obtain ⟨-, hline, hplace⟩ := adds_foldLine hwritten indent rest.head?
          refine .fold hindent hwritten (ih false _ hcs.tail hnone hline meetsSpace_iff.1 ?_)
          intro hspace _
          exact Nat.le_trans hplace (hcs.lt (by rw [hc]; rfl) (meetsSpace_iff.1 hspace))
        next => exact ih false false hcs.tail hnone hwritten nofun nofun
      · rintro rfl
        obtain rfl : c = ' ' := by simpa using hescaped htrue
        have hspace : escape? ' ' = none := by decide
        rw [hspace] at hc
        cases hc
    | none =>
      simp only
      split
      next hfold =>
        simp only [Bool.and_eq_true, decide_eq_true_eq, Bool.or_eq_true, List.isEmpty_iff] at hfold
        have hwritten : (p.put run.reverse).isIndentation = false := hp
        have hline := (adds_foldLine hwritten indent (some c)).2.1
        have hone : ∀ x ∈ [c], escape? x = none := by simpa using hc
        refine .front (.fold hindent hwritten ?_) hrun fun htrue => hfront ?_ htrue
        · exact ih false _ hcs.tail hone hline meetsSpace_iff.1 fun _ => nofun
        · rintro rfl
          exact absurd hfold.2 (Nat.not_lt.2 (hcolumn htrue rfl))
      next =>
        have hmore : ∀ x ∈ c :: run, escape? x = none := List.forall_mem_cons.2 ⟨hc, hrun⟩
        have hsame : (c :: run).reverse ++ rest = run.reverse ++ c :: rest := by simp
        have hothers := ih false isEscaped hcs.tail hmore hp (by rwa [hsame]) fun _ => nofun
        rwa [hsame] at hothers

end

/-- Text is written between double quotes so that it is read back. -/
theorem Page.exists_doubleQuoted (p : Page) (breaks : Bool) {indent : Nat} (hindent : 0 < indent)
    (hcs : CanFold indent cs) :
    ∃ ws, p.Adds (p.blank ++ inQuotes true ws) (p.doubleQuoted breaks indent cs) ∧
      WritesEscaped cs ws := by
  have hnone : ∀ x ∈ ([] : List Char), escape? x = none := by simp
  obtain ⟨ws, hadds, hwrites⟩ := putsEscaped_putDoubleQuoted true false hindent hcs hnone
    (show (p.sign ['\x22'] true).isIndentation = false from rfl) nofun nofun
  refine ⟨ws, ?_, hwrites⟩
  have hall := ((adds_sign p ['\x22']).trans hadds).trans (adds_touching _ ['\x22'])
  rw [doubleQuoted]
  simpa [inQuotes, quote] using hall

/-! ### Keys -/

theorem writesEscaped_escapedText (cs : List Char) : WritesEscaped cs (escapedText cs) := by
  induction cs with
  | nil => exact writesEscaped_nil
  | cons c cs ih =>
    rw [escapedText, List.flatMap_cons]
    cases hc : escape? c with
    | some escaped => exact ih.escape hc
    | none =>
      have hone : ∀ x ∈ [c], escape? x = none := by simpa using hc
      exact ih.bare hone

theorem isWide_escapedText (cs : List Char) : ∀ x ∈ escapedText cs, Mark.IsWide x := by
  intro x hx
  obtain ⟨c, -, hc⟩ := List.mem_flatMap.1 hx
  cases hescape : escape? c with
  | some escaped =>
    rw [hescape] at hc
    exact (isWide_escape hescape x hc).2
  | none =>
    rw [hescape] at hc
    obtain rfl : x = c := by simpa using hc
    exact (ordinary_of_escape hescape).1

theorem adds_putDoubleQuoted (isStart : Bool) (indent : Nat) (run cs : List Char) (p : Page) :
    p.Adds (run.reverse ++ escapedText cs) (putDoubleQuoted false indent isStart run cs p) := by
  induction cs generalizing run p isStart with
  | nil =>
    have hnil : escapedText [] = [] := rfl
    rw [hnil, List.append_nil]
    exact adds_put p _
  | cons c cs ih =>
    rw [putDoubleQuoted, escapedText, List.flatMap_cons]
    cases escape? c with
    | some escaped =>
      have hrest := ih false [] ((p.put run.reverse).put escaped)
      have hall := ((adds_put p run.reverse).trans (adds_put _ escaped)).trans hrest
      simpa [escapedText] using hall
    | none =>
      have hrest := ih false (c :: run) p
      simpa [escapedText] using hrest

/-- Where no line is broken, every character is written as it is or as its escape. -/
theorem Page.adds_doubleQuoted (p : Page) (indent : Nat) (cs : List Char) :
    p.Adds (p.blank ++ inQuotes true (escapedText cs)) (p.doubleQuoted false indent cs) := by
  have hinner := adds_putDoubleQuoted true indent [] cs (p.sign ['\x22'] true)
  have hall := ((adds_sign p ['\x22']).trans hinner).trans (adds_touching _ ['\x22'])
  rw [doubleQuoted]
  simpa [inQuotes, quote] using hall

end Treeline.Yaml
