import Treeline.Proofs.Yaml.Scan.Step

/-!
# Reading plain text

Plain text goes on as far as no character ends it, and behind it lies a gap. Where the text cannot go
on behind the gap, reading stops there and has passed over the gap as well.
-/

namespace Treeline.Yaml.Token

variable {inFlow : Bool} {c : Cursor}

/-! ### The gap behind plain text -/

theorem isDocumentSeparator_of_gap {x : Char} {rest : List Char} (hc : c.rest = x :: rest)
    (hx : isGap x = true) : c.isDocumentSeparator = false := by
  have hne : x ≠ '-' ∧ x ≠ '.' := by
    constructor <;> rintro rfl <;> exact absurd hx (by decide)
  unfold Cursor.isDocumentSeparator Cursor.isSeparator
  rw [hc]
  cases rest with
  | nil => rfl
  | cons y rest =>
    cases rest with
    | nil => rfl
    | cons z rest => simp [hne.1, hne.2]

/-- A line that separates documents comes only behind the whole gap. -/
theorem eq_nil_of_isDocumentSeparator {gap rest : List Char} (hc : c.rest = gap ++ rest)
    (hgap : ∀ x ∈ gap, isGap x = true) (h : c.isDocumentSeparator = true) : gap = [] := by
  cases gap with
  | nil => rfl
  | cons x gap =>
    rw [isDocumentSeparator_of_gap hc (hgap x List.mem_cons_self)] at h
    cases h

theorem break?_of_startsToken (h : startsToken c.rest) : c.break? = none :=
  Cursor.break?_eq_none fun x hx => (isGap_eq_false_iff.1 (h x hx).1).2

theorem char_ne_space_of_startsToken (h : startsToken c.rest) : c.char ≠ ' ' :=
  Scan.char_ne_of_head? (by decide) fun x hx => (isGap_eq_false_iff.1 (h x hx).1).1

/-- Behind a line break, the rest of a gap is passed over. -/
theorem readPlainBreaks_eq {fuel : Nat} {gap rest : List Char} (hc : c.rest = gap ++ rest)
    (hgap : ∀ x ∈ gap, isGap x = true) (hrest : startsToken rest) (hfuel : gap.length ≤ fuel) :
    ∃ found after, readPlainBreaks fuel c = (found, after) ∧ c.Passes gap after ∧
      after.rest = rest := by
  induction fuel generalizing c gap with
  | zero =>
    have hnil : gap = [] := List.eq_nil_of_length_eq_zero (by omega)
    subst hnil
    exact ⟨some [], c, rfl, .refl c, hc⟩
  | succ fuel ih =>
    rw [readPlainBreaks]
    cases gap with
    | nil =>
      rw [List.nil_append] at hc
      have hstop : startsToken c.rest := by rwa [hc]
      rw [if_neg (char_ne_space_of_startsToken hstop), break?_of_startsToken hstop]
      exact ⟨some [], c, rfl, .refl c, hc⟩
    | cons x gap =>
      have hx := hgap x List.mem_cons_self
      have hmore : ∀ y ∈ gap, isGap y = true := fun y hy => hgap y (List.mem_cons_of_mem _ hy)
      rw [List.length_cons] at hfuel
      have hc' : c.rest = x :: (gap ++ rest) := hc
      obtain ⟨hover, hnext⟩ := Cursor.passes_next hc'
      by_cases hspace : x = ' '
      · subst hspace
        obtain ⟨found, after, hread, hpass, hafter⟩ := ih hnext hmore (by omega)
        rw [if_pos (Cursor.char_of_rest hc')]
        exact ⟨found, after, hread, hover.trans hpass, hafter⟩
      · have hbreaks : isBreak x = true := by simpa [isGap, hspace] using hx
        obtain ⟨y, taken, others, after, hbreak, htaken, hothers, hafter, -, hpos⟩ :=
          Scan.exists_break_of_gap hc hbreaks hrest
        have hlength := congrArg List.length hothers
        rw [List.length_cons, List.length_append] at hlength
        have hne : c.char ≠ ' ' := by rwa [Cursor.char_of_rest hc']
        rw [if_neg hne, hbreak]
        have hothersGap : ∀ z ∈ others, isGap z = true :=
          fun z hz => hgap z (by rw [hothers]; exact List.mem_append_right _ hz)
        cases hseparator : after.isDocumentSeparator with
        | true =>
          obtain rfl := eq_nil_of_isDocumentSeparator hafter hothersGap hseparator
          rw [List.append_nil] at hothers
          refine ⟨none, after, ?_, ?_, hafter⟩
          · simp [hseparator]
          · rw [hothers]
            exact htaken
        | false =>
          obtain ⟨found, last, hread, hpass, hlast⟩ := ih hafter hothersGap (by omega)
          refine ⟨found.map (y :: ·), last, ?_, ?_, hlast⟩
          · simp [hseparator, hread]
          · rw [hothers]
            exact htaken.trans hpass

theorem exists_spaces_of_gap {gap : List Char} (hgap : ∀ x ∈ gap, isGap x = true) :
    ∃ spaces more, gap = spaces ++ more ∧ (∀ x ∈ spaces, x = ' ') ∧
      ∀ x, more.head? = some x → isBreak x = true := by
  refine ⟨gap.takeWhile (· = ' '), gap.dropWhile (· = ' '),
    (List.takeWhile_append_dropWhile ..).symm, ?_, ?_⟩
  · intro x hx
    simpa using List.mem_takeWhile_imp hx
  · intro x hx
    have hhead := List.head?_dropWhile_not (fun x => decide (x = ' ')) gap
    rw [hx] at hhead
    have hxgap := hgap x ((List.dropWhile_sublist _).mem (List.mem_of_head? hx))
    have hspace : x ≠ ' ' := by simpa using hhead
    simpa [isGap, hspace] using hxgap

theorem readPlainGap_eq {gap rest : List Char} (hc : c.rest = gap ++ rest)
    (hgap : ∀ x ∈ gap, isGap x = true) (hrest : startsToken rest) :
    ∃ found after, readPlainGap c = ⟨found, after, gap.any isBreak⟩ ∧ c.Passes gap after ∧
      after.rest = rest := by
  obtain ⟨spaces, more, rfl, hspaces, hmore⟩ := exists_spaces_of_gap hgap
  rw [List.append_assoc] at hc
  have hstop : ∀ x, (more ++ rest).head? = some x → decide (x = ' ') = false := by
    intro x hx
    cases more with
    | nil => simpa using (isGap_eq_false_iff.1 (hrest x hx).1).1
    | cons y more =>
      obtain rfl : y = x := by simpa using hx
      refine decide_eq_false ?_
      rintro rfl
      exact absurd (hmore ' ' rfl) (by decide)
  obtain ⟨hpass, hleft⟩ := Cursor.passes_skipWhile hc (by simpa using hspaces) hstop
  have hnoBreak : spaces.any isBreak = false := by
    rw [List.any_eq_false]
    intro x hx
    rw [hspaces x hx]
    decide
  rw [readPlainGap, Cursor.skipSpaces]
  cases more with
  | nil =>
    rw [List.nil_append] at hleft
    rw [break?_of_startsToken (by rwa [hleft]), List.append_nil, hnoBreak]
    exact ⟨_, _, rfl, hpass, hleft⟩
  | cons x more =>
    obtain ⟨y, taken, others, after, hbreak, htaken, hothers, hafter, hany, -⟩ :=
      Scan.exists_break_of_gap hleft (hmore x rfl) hrest
    have hothersGap : ∀ z ∈ others, isGap z = true :=
      fun z hz => hgap z (by rw [hothers]; simp [hz])
    have hbreaks : (spaces ++ x :: more).any isBreak = true := by
      rw [hothers, List.any_append, List.any_append, hany]
      simp
    rw [hbreak, hbreaks]
    cases hseparator : after.isDocumentSeparator with
    | true =>
      obtain rfl := eq_nil_of_isDocumentSeparator hafter hothersGap hseparator
      rw [List.append_nil] at hothers
      refine ⟨[], after, by simp [hseparator], ?_, hafter⟩
      rw [hothers]
      exact hpass.trans htaken
    | false =>
      obtain ⟨found, last, hread, hover, hlast⟩ := readPlainBreaks_eq hafter hothersGap hrest
        (show others.length ≤ after.rest.length by rw [hafter, List.length_append]; omega)
      have hall : c.Passes (spaces ++ x :: more) last := by
        rw [hothers]
        exact hpass.trans (htaken.trans hover)
      simp only [hseparator, Bool.false_eq_true, if_false, hread]
      cases found with
      | none => exact ⟨[], last, rfl, hall, hlast⟩
      | some breaks => exact ⟨_, last, rfl, hall, hlast⟩

/-! ### A run of plain text -/

/-- A character that plain text goes on with, whatever stands behind it. -/
def IsSolid (x : Char) : Prop :=
  isBlankOrEnd x = false ∧ x ≠ ':' ∧ x ≠ '?' ∧ isFlowIndicator x = false

theorem plainRun_of_isSolid {cs rest : List Char} (hcs : ∀ x ∈ cs, IsSolid x)
    (hrest : plainRun inFlow rest = []) : plainRun inFlow (cs ++ rest) = cs := by
  induction cs with
  | nil => exact hrest
  | cons x cs ih =>
    obtain ⟨⟨hblank, hcolon, hquestion, hindicator⟩, hcs⟩ := List.forall_mem_cons.1 hcs
    rw [List.cons_append, plainRun, if_neg (by simp [endsPlain, *]), ih hcs]

theorem plainRun_gap {gap rest : List Char} (hgap : ∀ x ∈ gap, isGap x = true)
    (hrest : plainRun inFlow rest = []) : plainRun inFlow (gap ++ rest) = [] := by
  cases gap with
  | nil => exact hrest
  | cons x gap =>
    have hx := hgap x List.mem_cons_self
    have hblank : isBlankOrEnd x = true := by
      rw [isGap, Bool.or_eq_true] at hx
      rcases hx with hx | hx <;> simp_all [isBlankOrEnd, isBlank, isLineEnd]
    rw [List.cons_append, plainRun, if_pos (by simp [endsPlain, hblank])]

/-- Plain text does not go on behind a gap. -/
def StopsBehind (inFlow : Bool) (indent : Nat) (gap rest : List Char) : Prop :=
  ∀ c : Cursor, c.rest = gap ++ rest →
    ∃ found after, readPlainGap c = ⟨found, after, gap.any isBreak⟩ ∧ c.Passes gap after ∧
      after.rest = rest ∧
      (found.isEmpty || after.char = '#' || (!inFlow && after.column < indent)
        || (plainRun inFlow after.rest).isEmpty) = true

theorem stopsBehind_of_run (indent : Nat) {gap rest : List Char} (hgap : ∀ x ∈ gap, isGap x = true)
    (hrest : startsToken rest) (hend : plainRun inFlow rest = []) :
    StopsBehind inFlow indent gap rest := by
  intro c hc
  obtain ⟨found, after, hread, hpass, hafter⟩ := readPlainGap_eq hc hgap hrest
  exact ⟨found, after, hread, hpass, hafter, by simp [hafter, hend]⟩

/-- Where plain text does not go on behind a gap, it ends with the run in front. -/
theorem readRuns_last (fuel : Nat) {indent : Nat} {cs gap rest : List Char}
    (hc : c.rest = cs ++ (gap ++ rest)) (hrun : plainRun inFlow c.rest = cs)
    (hstop : StopsBehind inFlow indent gap rest) :
    ∃ stop after, readRuns inFlow indent (fuel + 1) c = ⟨cs, stop, after, gap.any isBreak⟩ ∧
      c.Passes (cs ++ gap) after ∧ after.rest = rest := by
  obtain ⟨hpass, hleft⟩ := Cursor.passes_skip hc
  obtain ⟨found, after, hread, hover, hafter, hends⟩ := hstop _ hleft
  refine ⟨(c.skip cs.length).mark, after, ?_, hpass.trans hover, hafter⟩
  rw [readRuns, hrun]
  simp only [hread]
  rw [if_pos hends]

theorem readPlainText_eq (indent : Nat) {cs gap rest : List Char} (hc : c.rest = cs ++ gap ++ rest)
    (hrun : plainRun inFlow c.rest = cs) (hcs : cs ≠ []) (hgap : ∀ x ∈ gap, isGap x = true)
    (hrest : startsToken rest) (hend : plainRun inFlow rest = []) :
    ∃ stop after, readPlainText inFlow indent c =
        (⟨.scalar (String.ofList cs) true, c.mark, stop⟩, after, gap.any isBreak) ∧
      c.Passes (cs ++ gap) after ∧ after.rest = rest := by
  obtain ⟨fuel, hfuel⟩ : ∃ fuel, c.rest.length = fuel + 1 := by
    refine Nat.exists_eq_succ_of_ne_zero ?_
    have hlength := List.length_pos_iff.2 hcs
    simp only [hc, List.length_append]
    omega
  rw [List.append_assoc] at hc
  obtain ⟨stop, after, hread, hpass, hafter⟩ :=
    readRuns_last fuel hc hrun (stopsBehind_of_run indent hgap hrest hend)
  exact ⟨stop, after, by rw [readPlainText, hfuel, hread], hpass, hafter⟩

end Treeline.Yaml.Token
