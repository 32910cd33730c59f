import Treeline.Proofs.Yaml.Scan.State

/-!
# Steps of reading tokens

Each step passes over the gap in front of a token, drops the keys that have become stale, ends the
block collections that are over, and reads the token. Steps that each leave less of the text lead
from one state to another, and the run from the first state goes on as the run from the second one.
-/

namespace Treeline.Yaml

/-- What can stand between two tokens, comments apart. -/
def isGap (x : Char) : Bool := x = ' ' || isBreak x

/-- Whether what is left of a text begins with neither a gap, nor a comment, nor a byte order mark. -/
def startsToken (rest : List Char) : Prop :=
  ∀ x, rest.head? = some x → isGap x = false ∧ x ≠ '#' ∧ x ≠ '\uFEFF'

theorem isGap_eq_false_iff {x : Char} : isGap x = false ↔ x ≠ ' ' ∧ isBreak x = false := by
  simp [isGap]

theorem ne_of_isGap {x : Char} (hx : isGap x = true) : x ≠ '#' ∧ x ≠ '\uFEFF' := by
  constructor <;> rintro rfl <;> simp [isGap, isBreak] at hx

namespace Scan

/-! ### Gaps -/

theorem head?_ne_of_startsToken {rest : List Char} (h : startsToken rest) {y : Char}
    (hy : isGap y = true) (more : List Char) : rest ≠ y :: more := by
  rintro rfl
  have hgap := (h y rfl).1
  rw [hy] at hgap
  cases hgap

theorem char_ne_of_head? {c : Cursor} {y : Char} (hy : y ≠ endOfText)
    (h : ∀ x, c.rest.head? = some x → x ≠ y) : c.char ≠ y := by
  rw [Cursor.char]
  cases hrest : c.rest with
  | nil => exact hy.symm
  | cons x rest => exact h x (by rw [hrest]; rfl)

section

variable (inFlow keyAllowed : Bool) (fuel : Nat) {c : Cursor}

theorem skipGap_token (h : startsToken c.rest) :
    skipGap inFlow (fuel + 1) keyAllowed c = (keyAllowed, c) := by
  have hspaces : c.skipSpaces = c := by
    have hrest : c.rest = [] ++ c.rest := rfl
    refine Cursor.skipWhile_eq hrest (by simp) ?_
    intro x hx
    simpa using (isGap_eq_false_iff.1 (h x hx).1).1
  have hcomment : c.skipComment = c := by
    rw [Cursor.skipComment, if_neg]
    exact char_ne_of_head? (by decide) fun x hx => (h x hx).2.1
  have hbreak : c.break? = none :=
    Cursor.break?_eq_none fun x hx => (isGap_eq_false_iff.1 (h x hx).1).2
  rw [skipGap, hspaces, hcomment, hbreak]

theorem skipGap_space {rest : List Char} (h : c.rest = ' ' :: rest) :
    skipGap inFlow (fuel + 1) keyAllowed c = skipGap inFlow (fuel + 1) keyAllowed c.next := by
  have hspaces : c.skipSpaces = c.next.skipSpaces := by
    have hnext : c.next = ⟨rest, c.mark.next ' ' rest⟩ := by
      rw [Cursor.next, h]
    rw [hnext, Cursor.skipSpaces, Cursor.skipSpaces, Cursor.skipWhile, h, Cursor.skipFrom,
      if_pos (by decide)]
    rfl
  rw [skipGap, hspaces, skipGap]

theorem skipGap_break {x y : Char} {rest : List Char} {after : Cursor} (h : c.rest = x :: rest)
    (hx : isBreak x = true) (hbreak : c.break? = some (y, after)) :
    skipGap inFlow (fuel + 1) keyAllowed c = skipGap inFlow fuel (keyAllowed || !inFlow) after := by
  have hspace : x ≠ ' ' := by
    rintro rfl
    exact absurd hx (by decide)
  have hspaces : c.skipSpaces = c := Cursor.skipWhile_of_head h (by simpa using hspace)
  have hcomment : c.skipComment = c := by
    rw [Cursor.skipComment, if_neg]
    rw [Cursor.char_of_rest h]
    rintro rfl
    exact absurd hx (by decide)
  rw [skipGap, hspaces, hcomment, hbreak]

end

theorem exists_break_of_gap {c : Cursor} {x : Char} {gap rest : List Char}
    (hc : c.rest = x :: gap ++ rest) (hx : isBreak x = true) (hrest : startsToken rest) :
    ∃ y taken others after, c.break? = some (y, after) ∧ c.Passes taken after ∧
      x :: gap = taken ++ others ∧ after.rest = others ++ rest ∧ taken.any isBreak = true ∧
      0 < taken.length := by
  obtain ⟨y, taken, after, hbreak, hover, htaken⟩ := Cursor.exists_break? hc hx
  obtain ⟨others, hothers⟩ : ∃ others, x :: gap = taken ++ others := by
    rcases htaken with rfl | rfl
    · exact ⟨gap, rfl⟩
    · have heq := hc.symm.trans hover.rest
      simp only [List.cons_append, List.nil_append, List.cons.injEq] at heq
      cases gap with
      | nil => exact absurd heq.2 (head?_ne_of_startsToken hrest (by decide) _)
      | cons w others =>
        simp only [List.cons_append, List.cons.injEq] at heq
        exact ⟨others, by rw [heq.1, heq.2.1]; rfl⟩
  refine ⟨y, taken, others, after, hbreak, hover, hothers, ?_, ?_, ?_⟩
  · have heq := hc.symm.trans hover.rest
    rw [hothers, List.append_assoc] at heq
    exact (List.append_cancel_left heq).symm
  · rcases htaken with rfl | rfl
    · simpa using hx
    · decide
  · rcases htaken with rfl | rfl <;> simp

/-- The gap in front of a token is passed over. Outside brackets, a line break in it allows a key. -/
theorem skipGap_eq (inFlow keyAllowed : Bool) {fuel : Nat} {c : Cursor} {gap rest : List Char}
    (hc : c.rest = gap ++ rest) (hgap : ∀ x ∈ gap, isGap x = true) (hrest : startsToken rest)
    (hfuel : gap.length < fuel) :
    skipGap inFlow fuel keyAllowed c =
      (keyAllowed || (!inFlow && gap.any isBreak), ⟨rest, c.mark.past gap rest⟩) := by
  obtain ⟨fuel, rfl⟩ := Nat.exists_eq_succ_of_ne_zero (Nat.ne_zero_of_lt hfuel)
  induction hn : gap.length using Nat.strong_induction_on generalizing fuel keyAllowed c gap with
  | _ n ih =>
    cases gap with
    | nil =>
      have hstop : c = ⟨rest, c.mark⟩ := by
        cases c
        simpa using hc
      rw [Nat.succ_eq_add_one, skipGap_token inFlow keyAllowed fuel (by rwa [hc]), Mark.past_nil,
        ← hstop]
      simp
    | cons x gap =>
      have hx := hgap x List.mem_cons_self
      have hgap' : ∀ x ∈ gap, isGap x = true := fun z hz => hgap z (List.mem_cons_of_mem _ hz)
      rw [List.length_cons] at hn hfuel
      by_cases hspace : x = ' '
      · subst hspace
        have hc' : c.rest = ' ' :: (gap ++ rest) := hc
        obtain ⟨hover, hnext⟩ := Cursor.passes_next hc'
        rw [Nat.succ_eq_add_one, skipGap_space inFlow keyAllowed fuel hc,
          ih gap.length (by omega) keyAllowed hnext hgap' fuel (by omega) rfl]
        have hmark : c.next.mark.past gap rest = c.mark.past (' ' :: gap) rest := by
          rw [hover.mark, hnext, ← Mark.past_append]
          rfl
        rw [hmark]
        simp [isBreak]
      · have hxbreak : isBreak x = true := by simpa [isGap, hspace] using hx
        obtain ⟨y, taken, others, after, hbreak, hover, hothers, hafter, hany, hpos⟩ :=
          exists_break_of_gap hc hxbreak hrest
        have hlength := congrArg List.length hothers
        rw [List.length_cons, List.length_append] at hlength
        obtain ⟨fuel, rfl⟩ := Nat.exists_eq_succ_of_ne_zero (show fuel ≠ 0 by omega)
        have hmem : ∀ z ∈ others, isGap z = true := fun z hz => hgap z (by rw [hothers]; simp [hz])
        rw [Nat.succ_eq_add_one, skipGap_break inFlow keyAllowed _ hc hxbreak hbreak,
          ih others.length (by omega) (keyAllowed || !inFlow) hafter hmem fuel (by omega) rfl]
        have hmark : after.mark.past others rest = c.mark.past (x :: gap) rest := by
          rw [hover.mark, hafter, hothers, Mark.past_append]
        rw [hmark, hothers, List.any_append, hany]
        cases inFlow <;> simp

/-- The state behind the gap in front of the next token. -/
def settle (s : Scan) : Scan :=
  let c := skipByteOrderMark s.cursor
  let gap := skipGap s.inFlow (c.rest.length + 1) s.keyAllowed c
  { s with cursor := gap.2, keyAllowed := gap.1 }

theorem settle_eq {s : Scan} {gap rest : List Char} (hs : s.cursor.rest = gap ++ rest)
    (hgap : ∀ x ∈ gap, isGap x = true) (hrest : startsToken rest) :
    s.settle = { s with
      cursor := ⟨rest, s.cursor.mark.past gap rest⟩
      keyAllowed := s.keyAllowed || (!s.inFlow && gap.any isBreak) } := by
  have hhead : ∀ x, s.cursor.rest.head? = some x → x ≠ '\uFEFF' := by
    rw [hs]
    intro x hx
    cases gap with
    | nil => exact (hrest x hx).2.2
    | cons y gap =>
      have hxy : y = x := by simpa using hx
      exact hxy ▸ (ne_of_isGap (hgap y List.mem_cons_self)).2
  have hmark : skipByteOrderMark s.cursor = s.cursor := by
    have hchar := char_ne_of_head? (by decide) hhead
    rw [skipByteOrderMark]
    simp [hchar]
  have hlength : gap.length < s.cursor.rest.length + 1 := by
    rw [hs, List.length_append]
    omega
  rw [settle, hmark, skipGap_eq s.inFlow s.keyAllowed hs hgap hrest hlength]

/-! ### One step -/

theorem step_eq (s : Scan) :
    s.step = do
      let s ← s.settle.dropStale
      let s ← s.unwind.readToken
      return (← s.dropStale).release := rfl

/-- No possible key that is stale is required. -/
def Loose (s : Scan) : Prop := ∀ k ∈ s.keys, s.isStale k = true → k.isRequired = false

theorem step_eq_ok {s read : Scan} (hbefore : s.settle.Loose)
    (hread : s.settle.refresh.unwind.readToken = .ok read) (hafter : read.Loose) :
    s.step = .ok read.refresh.release := by
  rw [step_eq, dropStale_eq hbefore]
  change (s.settle.refresh.unwind.readToken >>= fun s => s.dropStale >>= fun s => .ok s.release) = _
  rw [hread]
  change (read.dropStale >>= fun s => .ok s.release) = _
  rw [dropStale_eq hafter]
  rfl

/-! ### Many steps -/

/-- Steps lead from one state to another, each of which leaves less of the text. -/
inductive Leads : Scan → Scan → Prop
  | refl (s : Scan) : Leads s s
  | head {s next last : Scan} (going : s.isDone = false) (step : s.step = .ok next)
    (shorter : next.cursor.rest.length < s.cursor.rest.length) (rest : Leads next last) :
    Leads s last

theorem Leads.trans {s t u : Scan} (h : Leads s t) (h' : Leads t u) : Leads s u := by
  induction h with
  | refl s => exact h'
  | head going step shorter _ ih => exact .head going step shorter (ih h')

theorem Leads.single {s next : Scan} (going : s.isDone = false) (step : s.step = .ok next)
    (shorter : next.cursor.rest.length < s.cursor.rest.length) : Leads s next :=
  .head going step shorter (.refl next)

/-- A run goes on from where steps lead, with as much fuel to spare. -/
theorem run_of_leads {s t : Scan} (h : Leads s t) {fuel spare : Nat}
    (hfuel : s.cursor.rest.length + spare ≤ fuel) :
    ∃ fuel', t.cursor.rest.length + spare ≤ fuel' ∧ run fuel s = run fuel' t := by
  induction h generalizing fuel with
  | refl s => exact ⟨fuel, hfuel, rfl⟩
  | head going step shorter _ ih =>
    obtain ⟨fuel, rfl⟩ := Nat.exists_eq_succ_of_ne_zero (show fuel ≠ 0 by omega)
    obtain ⟨fuel', hfuel', hrun⟩ := ih (show _ + spare ≤ fuel by omega)
    refine ⟨fuel', hfuel', ?_⟩
    rw [← hrun, run, going, step]
    rfl

end Scan

end Treeline.Yaml
