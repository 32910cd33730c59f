import Treeline.Proofs.Yaml.Leaf
import Treeline.Proofs.Yaml.ScalarStyle
import Treeline.Proofs.Yaml.Write.Page

/-!
# Writing plain text

A text that can stand without quotes is a row of words with spaces between them. Each word is written
as it is, and a single space between two words either as it is or as a new line, so that the text is
read back.
-/

namespace Treeline.Yaml

open Token

variable {cs : List Char} {x : Char}

/-! ### Words -/

/-- Characters without blanks that are not followed by a colon. -/
structure IsWord (cs : List Char) : Prop where
  ne : cs ≠ []
  ink : ∀ x ∈ cs, IsInk x
  last : cs.getLast? ≠ some ':'

/-- Words with spaces between them. -/
inductive AreWords : List Char → Prop
  | word {cs : List Char} (h : IsWord cs) : AreWords cs
  | append {cs rest : List Char} (h : IsWord cs) (count : Nat) (hrest : AreWords rest)
      (hsign : rest.head? ≠ some '#') : AreWords (cs ++ (List.replicate (count + 1) ' ' ++ rest))

theorem IsWord.plainRun {tail : List Char} (h : IsWord cs) (htail : plainRun false tail = []) :
    plainRun false (cs ++ tail) = cs := by
  obtain ⟨-, hink, hlast⟩ := h
  induction cs with
  | nil => exact htail
  | cons x cs ih =>
    obtain ⟨hx, hink⟩ := List.forall_mem_cons.1 hink
    have hgoes : endsPlain false x ((cs ++ tail).head?.getD endOfText) = false := by
      cases cs with
      | nil =>
        have hcolon : x ≠ ':' := by simpa using hlast
        simp [endsPlain, hx.isBlankOrEnd, hcolon]
      | cons y cs => simp [endsPlain, hx.isBlankOrEnd, (hink y List.mem_cons_self).isBlankOrEnd]
    have hmore : cs.getLast? ≠ some ':' := by
      cases cs with
      | nil => simp
      | cons y cs => rwa [List.getLast?_cons_cons] at hlast
    rw [List.cons_append, Token.plainRun, hgoes, ih hink hmore]
    rfl

theorem IsWord.isRun (h : IsWord cs) : IsRun cs where
  ne := h.ne
  wide x hx := (h.ink x hx).isWide
  eq _ htail := h.plainRun htail

theorem IsWord.exists_head (h : IsWord cs) : ∃ x more, cs = x :: more ∧ IsInk x := by
  cases cs with
  | nil => exact absurd rfl h.ne
  | cons x more => exact ⟨x, more, rfl, h.ink x List.mem_cons_self⟩

theorem AreWords.exists_head (h : AreWords cs) : ∃ x more, cs = x :: more ∧ IsInk x := by
  cases h with
  | word h => exact h.exists_head
  | append h count hrest hsign =>
    obtain ⟨x, more, rfl, hx⟩ := h.exists_head
    exact ⟨x, _, rfl, hx⟩

/-- A text with no blanks at its ends, and with neither a colon in front of a blank nor a number sign
behind one. -/
structure IsRow (cs : List Char) : Prop where
  ne : cs ≠ []
  head : cs.head? ≠ some ' '
  last : cs.getLast? ≠ some ' '
  ink : ∀ x ∈ cs, x ≠ ' ' → IsInk x
  colon : (cs ++ [' ']).IsChain fun a b => (decide (a = ':') && isBlankOrEnd b) = false
  sign : cs.IsChain fun a b => (isBlankOrEnd a && decide (b = '#')) = false

theorem IsRow.exists_word (h : IsRow cs) :
    ∃ word more, cs = word ++ more ∧ IsWord word ∧ ∀ x, more.head? = some x → x = ' ' := by
  obtain ⟨word, more, rfl, hword, hmore⟩ := exists_front (fun x => x != ' ') cs
  have hspace : ∀ x, more.head? = some x → x = ' ' := fun x hx => by simpa using hmore x hx
  refine ⟨word, more, rfl, ⟨?_, ?_, ?_⟩, hspace⟩
  · rintro rfl
    cases more with
    | nil => exact h.ne rfl
    | cons x more => exact h.head (congrArg some (hspace x rfl))
  · intro x hx
    exact h.ink x (List.mem_append_left _ hx) (by simpa using hword x hx)
  · intro hend
    have hbehind : (more ++ [' ']).head? = some ' ' := by
      cases more with
      | nil => rfl
      | cons x more => exact congrArg some (hspace x rfl)
    have hcolon := h.colon
    rw [List.append_assoc, List.isChain_append] at hcolon
    exact absurd (hcolon.2.2 ':' hend ' ' hbehind) (by decide)

/-- Behind the first word of a row stand spaces and another row. -/
theorem IsRow.exists_rest {word more : List Char} (h : IsRow (word ++ more)) (hmore : more ≠ [])
    (hspace : ∀ x, more.head? = some x → x = ' ') :
    ∃ count rest, more = List.replicate (count + 1) ' ' ++ rest ∧ IsRow rest ∧
      rest.head? ≠ some '#' := by
  obtain ⟨spaces, rest, rfl, hspaces, hrest⟩ := exists_front (fun x => decide (x = ' ')) more
  have hne : spaces ≠ [] := by
    rintro rfl
    obtain ⟨x, rest, rfl⟩ := List.exists_cons_of_ne_nil hmore
    exact absurd (hspace x rfl) (by simpa using hrest x rfl)
  obtain ⟨count, hcount⟩ := Nat.exists_eq_succ_of_ne_zero (mt List.length_eq_zero_iff.1 hne)
  obtain rfl : spaces = List.replicate (count + 1) ' ' :=
    List.eq_replicate_iff.2 ⟨hcount, fun x hx => by simpa using hspaces x hx⟩
  have hlastSpace : (List.replicate (count + 1) ' ').getLast? = some ' ' := by
    rw [List.getLast?_replicate]
    rfl
  have hend : rest ≠ [] := by
    rintro rfl
    refine h.last ?_
    rw [List.append_nil, List.getLast?_append_of_ne_nil _ hne, hlastSpace]
  have hsign := h.sign.right_of_append
  refine ⟨count, rest, rfl, ⟨hend, ?_, ?_, ?_, ?_, hsign.right_of_append⟩, ?_⟩
  · intro hhead
    simpa using hrest ' ' hhead
  · have hlast := h.last
    rwa [← List.append_assoc, List.getLast?_append_of_ne_nil _ hend] at hlast
  · exact fun x hx => h.ink x (by simp [hx])
  · have hcolon := h.colon
    rw [List.append_assoc, List.append_assoc] at hcolon
    exact hcolon.right_of_append.right_of_append
  · intro hnumber
    exact absurd ((List.isChain_append.1 hsign).2.2 ' ' hlastSpace '#' hnumber) (by decide)

theorem IsRow.areWords (h : IsRow cs) : AreWords cs := by
  induction hlength : cs.length using Nat.strong_induction_on generalizing cs with
  | _ length ih =>
  obtain ⟨word, more, rfl, hword, hspace⟩ := h.exists_word
  by_cases hmore : more = []
  · rw [hmore, List.append_nil]
    exact .word hword
  · obtain ⟨count, rest, rfl, hrow, hsign⟩ := h.exists_rest hmore hspace
    have hshorter : rest.length < length := by
      simp only [List.length_append, List.length_replicate] at hlength
      omega
    exact .append hword count (ih rest.length hshorter hrow rfl) hsign

/-! ### Writing -/

namespace Page

variable {breaks : Bool} {indent fuel : Nat} {p : Page} {rest : List Char}

theorem putPlain_nil (breaks : Bool) (indent fuel : Nat) (p : Page) :
    putPlain breaks indent fuel [] p = p := by
  cases fuel <;> rfl

theorem putPlain_word (h : IsWord cs) (hrest : ∀ x, rest.head? = some x → x = ' ') :
    putPlain breaks indent (fuel + 1) (cs ++ rest) p = putPlain breaks indent fuel rest (p.put cs) := by
  obtain ⟨x, more, rfl, hx⟩ := h.exists_head
  have hfront : ∀ y ∈ x :: more, (y != ' ') = true := fun y hy => by simpa using (h.ink y hy).ne
  have hrun : ((x :: more) ++ rest).takeWhile (· != ' ') = x :: more :=
    takeWhile_front hfront fun y hy => by simpa using hrest y hy
  have hhead : ((x :: more) ++ rest).head? ≠ some ' ' := by simpa using hx.ne
  rw [putPlain, if_neg (by simp), if_neg hhead, hrun]
  simp only [List.drop_left]

theorem putPlain_spaces (count : Nat) (hrest : ∀ x, rest.head? = some x → x ≠ ' ') :
    putPlain breaks indent (fuel + 1) (List.replicate (count + 1) ' ' ++ rest) p =
      putPlain breaks indent fuel rest
        (if count + 1 = 1 && lineWidth < p.column && breaks then (p.indentTo indent).inText
          else p.put (List.replicate (count + 1) ' ')) := by
  have hfront : ∀ y ∈ List.replicate (count + 1) ' ', decide (y = ' ') = true := fun y hy => by
    simpa using List.eq_of_mem_replicate hy
  have hrun : (List.replicate (count + 1) ' ' ++ rest).takeWhile (· = ' ') =
      List.replicate (count + 1) ' ' :=
    takeWhile_front hfront fun y hy => by simpa using hrest y hy
  have hhead : (List.replicate (count + 1) ' ' ++ rest).head? = some ' ' := rfl
  rw [putPlain, if_neg (by simp [List.replicate_succ]), if_pos hhead, hrun]
  simp only [List.drop_left]
  rw [List.length_replicate]

theorem IsText.put (h : p.IsText) (cs : List Char) : (p.put cs).IsText :=
  ⟨h.endsBlank, h.isIndentation⟩

end Page

/-- Characters that words are written as. The first word is kept. -/
structure WritesWords (indent : Nat) (cs ws : List Char) : Prop where
  runs : IsRuns indent ws cs
  allowed : ∀ x ∈ ws, isAllowed x = true
  front : ∃ word more others, IsWord word ∧ cs = word ++ more ∧ ws = word ++ others ∧
    (∀ x, more.head? = some x → x = ' ') ∧ ∀ x, others.head? = some x → isBlankOrEnd x = true

theorem WritesWords.startsToken {indent : Nat} {ws : List Char} (h : WritesWords indent cs ws)
    (hsign : cs.head? ≠ some '#') (rest : List Char) : startsToken (ws ++ rest) := by
  obtain ⟨word, more, others, hword, rfl, rfl, -⟩ := h.front
  obtain ⟨x, word, rfl, hx⟩ := hword.exists_head
  rintro y ⟨⟩
  exact ⟨hx.isGap, by simpa using hsign, hx.isWide.2⟩

theorem IsWord.isAllowed (h : IsWord cs) : ∀ x ∈ cs, isAllowed x = true :=
  fun x hx => (isAllowed_of_isSpecial (h.ink x hx).ordinary).1

theorem IsWord.writesWords (h : IsWord cs) (indent : Nat) : WritesWords indent cs cs where
  runs := h.isRun.runs indent
  allowed := h.isAllowed
  front := ⟨cs, [], [], h, by simp, by simp, by simp, by simp⟩

section

variable {indent : Nat} {rest ws : List Char}

theorem WritesWords.fold (h : WritesWords indent rest ws) (hword : IsWord cs) (hindent : 0 < indent)
    (hsign : rest.head? ≠ some '#') :
    WritesWords indent (cs ++ (' ' :: rest)) (cs ++ ('\n' :: List.replicate indent ' ' ++ ws)) where
  runs := by
    have hruns := h.runs.fold hword.isRun hindent (h.startsToken hsign)
    rwa [List.append_assoc cs] at hruns
  allowed := List.forall_mem_append.2 ⟨hword.isAllowed,
    List.forall_mem_append.2 ⟨isAllowed_newLine_blanks indent, h.allowed⟩⟩
  front := by
    refine ⟨cs, _, _, hword, rfl, rfl, by simp, ?_⟩
    rintro y ⟨⟩
    decide

theorem WritesWords.spaces (h : WritesWords indent rest ws) (hword : IsWord cs) (count : Nat)
    (hsign : rest.head? ≠ some '#') :
    WritesWords indent (cs ++ (List.replicate (count + 1) ' ' ++ rest))
      (cs ++ (List.replicate (count + 1) ' ' ++ ws)) where
  runs := by
    have hruns := h.runs.spaces hword.isRun (Nat.succ_pos count) (h.startsToken hsign)
    rwa [List.append_assoc cs] at hruns
  allowed := by
    have hblanks := (List.forall_mem_cons.1 (isAllowed_newLine_blanks (count + 1))).2
    exact List.forall_mem_append.2 ⟨hword.isAllowed, List.forall_mem_append.2 ⟨hblanks, h.allowed⟩⟩
  front := by
    refine ⟨cs, _, _, hword, rfl, rfl, ?_, ?_⟩
    · rintro y ⟨⟩
      rfl
    · rintro y ⟨⟩
      decide

end

/-- Words are written so that they are read back, and as they are where lines are not broken. -/
theorem AreWords.exists_adds {breaks : Bool} {indent fuel : Nat} {p : Page} (h : AreWords cs)
    (hindent : breaks = true → 0 < indent) (hfuel : cs.length ≤ fuel) (hp : p.IsText) :
    ∃ ws, p.Adds ws (Page.putPlain breaks indent fuel cs p) ∧
      (Page.putPlain breaks indent fuel cs p).IsText ∧ WritesWords indent cs ws ∧
      (breaks = false → ws = cs) := by
  induction h generalizing fuel p with
  | @word cs h =>
    have hpos := List.length_pos_iff.2 h.ne
    obtain ⟨fuel, rfl⟩ := Nat.exists_eq_succ_of_ne_zero (show fuel ≠ 0 by omega)
    have hput : Page.putPlain breaks indent (fuel + 1) cs p = p.put cs := by
      have hword : Page.putPlain breaks indent (fuel + 1) (cs ++ []) p =
          Page.putPlain breaks indent fuel [] (p.put cs) := Page.putPlain_word h (by simp)
      rwa [List.append_nil, Page.putPlain_nil] at hword
    rw [hput]
    exact ⟨cs, Page.adds_put p cs, hp.put cs, h.writesWords indent, fun _ => rfl⟩
  | @append cs rest h count hrest hsign ih =>
    have hpos := List.length_pos_iff.2 h.ne
    obtain ⟨x, more, hrestEq, hx⟩ := hrest.exists_head
    simp only [List.length_append, List.length_replicate] at hfuel
    obtain ⟨fuel, rfl⟩ : ∃ n, fuel = n + 1 + 1 := ⟨fuel - 2, by omega⟩
    have hrestFuel : rest.length ≤ fuel := by omega
    have hsolid : ∀ y, rest.head? = some y → y ≠ ' ' := by
      intro y hy
      obtain rfl : x = y := by simpa [hrestEq] using hy
      exact hx.ne
    rw [Page.putPlain_word h (by simp [List.replicate_succ]), Page.putPlain_spaces count hsolid]
    have hputs : p.Adds cs (p.put cs) := Page.adds_put p cs
    have htext : (p.put cs).IsText := hp.put cs
    split
    next hfold =>
      obtain ⟨⟨hcount, -⟩, hbreaks⟩ := by simpa only [Bool.and_eq_true, decide_eq_true_eq] using hfold
      obtain rfl : count = 0 := Nat.succ.inj hcount
      obtain ⟨hadds, -⟩ := htext.adds_indentTo indent
      have hbroken : ((p.put cs).indentTo indent).inText.IsText := ⟨rfl, rfl⟩
      obtain ⟨ws, hws, hend, hwrites, -⟩ := ih hrestFuel hbroken
      refine ⟨_, ?_, hend, hwrites.fold h (hindent hbreaks) hsign, ?_⟩
      · exact hputs.trans (Page.Adds.trans hadds hws)
      · intro hno
        rw [hno] at hbreaks
        cases hbreaks
    next =>
      have hspaces : ((p.put cs).put (List.replicate (count + 1) ' ')).IsText := htext.put _
      obtain ⟨ws, hws, hend, hwrites, hsame⟩ := ih hrestFuel hspaces
      refine ⟨_, ?_, hend, hwrites.spaces h count hsign, ?_⟩
      · exact hputs.trans ((Page.adds_put _ _).trans hws)
      · intro hno
        rw [hsame hno]

/-! ### Plain text -/

theorem isBlankOrEnd_of_plainRun {tail : List Char} (h : plainRun false tail = [])
    (hx : tail.head? = some x) : isBlankOrEnd x = true ∨ x = ':' := by
  cases tail with
  | nil => cases hx
  | cons y tail =>
    cases hx
    rw [plainRun] at h
    split at h
    next hends =>
      rcases (by simpa [endsPlain] using hends : isBlankOrEnd x = true ∨ x = ':' ∧ _) with hx | hx
      · exact .inl hx
      · exact .inr hx.1
    next => cases h

/-- Characters that stand at the front of two parts stand in the first part, if the second one
begins otherwise. -/
theorem length_le_of_take {n : Nat} {front tail : List Char}
    (h : (front ++ tail).take n = List.replicate n x) (htail : tail.head? ≠ some x) :
    n ≤ front.length := by
  by_contra hlt
  rw [Nat.not_le] at hlt
  refine htail ?_
  calc tail.head? = (front ++ tail)[front.length]? := by
        rw [List.getElem?_append_right (Nat.le_refl _), Nat.sub_self, List.head?_eq_getElem?]
    _ = ((front ++ tail).take n)[front.length]? := (List.getElem?_take_of_lt hlt).symm
    _ = some x := by rw [h, List.getElem?_replicate_of_lt hlt]

theorem take_of_isSeparator {c : Cursor} (h : c.isSeparator x = true) :
    c.rest.take 3 = List.replicate 3 x := by
  unfold Cursor.isSeparator at h
  split at h
  next a b d rest hrest =>
    rw [hrest]
    simp only [Bool.and_eq_true, decide_eq_true_eq] at h
    obtain ⟨⟨⟨rfl, rfl⟩, rfl⟩, -⟩ := h
    rfl
  next => cases h

theorem startsPlain_of_word {c : Cursor} {word more tail : List Char} (hword : IsWord word)
    (hc : c.rest = word ++ tail) (hmore : ∀ x, more.head? = some x → x = ' ')
    (hindicator : ScalarStyle.startsWithIndicator (word ++ more) = false) :
    startsPlain false c = true := by
  obtain ⟨x, word, rfl, hx⟩ := hword.exists_head
  have hchar : c.char = x := Cursor.char_of_rest hc
  simp only [List.cons_append, ScalarStyle.startsWithIndicator, Bool.or_eq_false_iff] at hindicator
  obtain ⟨hlisted, hsecond⟩ := hindicator
  have hnext : x = '-' ∨ x = '?' ∨ x = ':' → isBlankOrEnd (c.charAt 1) = false := by
    intro hsign
    cases word with
    | nil =>
      have hblank : isBlankOrEnd ((([] : List Char) ++ more).head?.getD endOfText) = true := by
        cases more with
        | nil => decide
        | cons y more =>
          rw [hmore y rfl]
          rfl
      rw [hblank] at hsecond
      rcases hsign with rfl | rfl | rfl <;> exact absurd hsecond (by decide)
    | cons y word =>
      rw [Cursor.charAt_one_of_rest hc]
      exact (hword.ink y (by simp)).isBlankOrEnd
  have hothers : (isFlowIndicator x || "#&*!|>\x27\"%@\x60".toList.contains x) = false := by
    simp only [isFlowIndicator]
    simp at hlisted ⊢
    tauto
  simp only [startsPlain, hchar, hx.isBlankOrEnd, hothers]
  by_cases hdash : x = '-'
  · simp [hdash, hnext (.inl hdash)]
  · by_cases hsign : x = '?' ∨ x = ':'
    · have hthis := hnext (.inr hsign)
      rcases hsign with rfl | rfl <;> simp [hthis]
    · rw [not_or] at hsign
      simp [hdash, hsign]

theorem WritesWords.isPlainText {indent : Nat} {ws : List Char} (h : WritesWords indent cs ws)
    (hindicator : ScalarStyle.startsWithIndicator cs = false)
    (hseparator : ScalarStyle.startsLikeSeparator cs = false) : IsPlainText indent ws cs where
  runs := h.runs
  allowed := h.allowed
  starts := by
    refine h.startsToken ?_
    intro hhead
    cases cs with
    | nil => cases hhead
    | cons x cs =>
      cases hhead
      exact absurd hindicator (by simp [ScalarStyle.startsWithIndicator])
  opens := by
    intro c rest hc hrest
    obtain ⟨word, more, others, hword, rfl, rfl, hmore, hothers⟩ := h.front
    rw [List.append_assoc] at hc
    have htail : plainRun false (others ++ rest) = [] := by
      cases others with
      | nil => exact hrest
      | cons y others => exact plainRun_of_blank (hothers y rfl) _
    have hnone : ∀ y, y = '-' ∨ y = '.' → c.isSeparator y = false := by
      intro y hy
      by_contra hsep
      rw [Bool.not_eq_false] at hsep
      have htake := take_of_isSeparator hsep
      rw [hc] at htake
      have hlength : 3 ≤ word.length := by
        refine length_le_of_take htake ?_
        intro hhead
        rcases isBlankOrEnd_of_plainRun htail hhead with hblank | rfl
        · rcases hy with rfl | rfl <;> exact absurd hblank (by decide)
        · rcases hy with hy | hy <;> exact absurd hy (by decide)
      rw [List.take_append_of_le_length hlength] at htake
      rw [ScalarStyle.startsLikeSeparator, List.take_append_of_le_length hlength, htake] at hseparator
      rcases hy with rfl | rfl <;> exact absurd hseparator (by decide)
    refine ⟨?_, ?_⟩
    · exact startsPlain_of_word hword hc hmore hindicator
    · rw [Cursor.isDocumentSeparator, hnone '-' (.inl rfl), hnone '.' (.inr rfl)]
      rfl

/-- A text that can stand without quotes is a row of words. -/
theorem isRow_of_allowsPlain (hne : cs ≠ []) (h : ScalarStyle.allowsPlain cs = true) : IsRow cs := by
  simp only [ScalarStyle.allowsPlain, ScalarStyle.allowsSingleQuotes, Bool.and_eq_true,
    Bool.not_eq_true'] at h
  obtain ⟨⟨⟨⟨⟨⟨⟨hspecial, -⟩, -⟩, hline⟩, hends⟩, -⟩, hindicator⟩, hholds⟩ := h
  rw [ScalarStyle.hasEnd, Bool.or_eq_false_iff] at hends
  rw [ScalarStyle.holdsIndicator, Bool.or_eq_false_iff, ScalarStyle.hasPair_eq_false_iff,
    ScalarStyle.hasPair_eq_false_iff] at hholds
  refine ⟨hne, ?_, ?_, ?_, ?_, hholds.2⟩
  · intro hhead
    exact absurd hends.1 (by simp [hhead])
  · intro hlast
    exact absurd hends.2 (by simp [hlast])
  · intro x hx hspace
    rw [List.any_eq_false] at hspecial
    simp only [ScalarStyle.isSingleLine, Bool.not_eq_true', List.any_eq_false] at hline
    exact ⟨by simpa using hspecial x hx, by simpa using hline x hx, hspace⟩
  · cases cs with
    | nil => exact absurd rfl hne
    | cons x cs =>
      refine List.IsChain.cons hholds.1 ?_
      intro y hy
      simp only [ScalarStyle.startsWithIndicator, Bool.or_eq_false_iff] at hindicator
      by_cases hcolon : x = ':'
      · have hsecond := hindicator.2
        cases cs with
        | nil => simp [hcolon, isBlankOrEnd, isLineEnd] at hsecond
        | cons z cs =>
          obtain rfl : z = y := by simpa using hy
          simpa [hcolon] using hsecond
      · simp [hcolon]

/-- Plain text is written so that it is read back, and as it is where lines are not broken. -/
theorem Page.exists_plain (p : Page) {breaks : Bool} {indent : Nat} (hne : cs ≠ [])
    (h : ScalarStyle.allowsPlain cs = true) (hindent : breaks = true → 0 < indent) :
    ∃ ws, p.Adds (p.blank ++ ws) (p.plain breaks indent cs) ∧ (p.plain breaks indent cs).IsText ∧
      IsPlainText indent ws cs ∧ (breaks = false → ws = cs) := by
  have hstart : p.Adds p.blank (if p.endsBlank then p else p.put [' ']).inText := by
    rw [Page.blank]
    split
    next => exact .refl p
    next => exact adds_put p [' ']
  obtain ⟨ws, hadds, htext, hwrites, hsame⟩ :=
    (isRow_of_allowsPlain hne h).areWords.exists_adds hindent (Nat.le_refl _)
      (show (if p.endsBlank then p else p.put [' ']).inText.IsText from ⟨rfl, rfl⟩)
  simp only [ScalarStyle.allowsPlain, Bool.and_eq_true, Bool.not_eq_true'] at h
  exact ⟨ws, hstart.trans hadds, htext, hwrites.isPlainText h.1.2 h.1.1.2, hsame⟩

end Treeline.Yaml
