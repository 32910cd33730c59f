import Treeline.Proofs.Yaml.PlainText

/-!
# Plain text on several lines

Outside of brackets, plain text is a row of runs with gaps between them. A gap of spaces stands for
itself, and a line break with the indentation behind it for one space.
-/

namespace Treeline.Yaml.Token

variable {least : Nat} {cs text run : List Char} {c : Cursor}

/-- Characters that make one run of plain text. -/
structure IsRun (run : List Char) : Prop where
  ne : run ≠ []
  wide : ∀ x ∈ run, Mark.IsWide x
  eq : ∀ tail, plainRun false tail = [] → plainRun false (run ++ tail) = run

/-- Characters that are read as a plain text whose further lines begin at the column `least`. -/
structure IsRuns (least : Nat) (cs text : List Char) : Prop where
  ne : cs ≠ []
  head : ∀ tail, plainRun false tail = [] → plainRun false (cs ++ tail) ≠ []
  reads : ∀ {c : Cursor} {indent fuel : Nat} {gap rest : List Char}, indent ≤ least →
    indent ≤ c.column + 1 → c.rest = cs ++ (gap ++ rest) → StopsBehind false indent gap rest →
    plainRun false (gap ++ rest) = [] → cs.length ≤ fuel →
    ∃ stop after, readRuns false indent fuel c = ⟨text, stop, after, gap.any isBreak⟩ ∧
      c.Passes (cs ++ gap) after ∧ after.rest = rest

theorem plainRun_of_blank {x : Char} (hx : isBlankOrEnd x = true) (rest : List Char) :
    plainRun false (x :: rest) = [] := by
  rw [plainRun, if_pos (by simp [endsPlain, hx])]

theorem IsRun.runs (h : IsRun run) (least : Nat) : IsRuns least run run where
  ne := h.ne
  head tail htail := by
    rw [h.eq tail htail]
    exact h.ne
  reads := by
    intro c indent fuel gap rest _ _ hc hstop htail hfuel
    obtain ⟨fuel, rfl⟩ : ∃ n, fuel = n + 1 := by
      have hpos := List.length_pos_iff.2 h.ne
      exact ⟨fuel - 1, by omega⟩
    have hrun : plainRun false c.rest = run := by
      rw [hc]
      exact h.eq _ htail
    exact readRuns_last fuel hc hrun hstop

/-! ### Gaps inside plain text -/

theorem readPlainGap_spaces {spaces rest : List Char} (hc : c.rest = spaces ++ rest)
    (hspaces : ∀ x ∈ spaces, x = ' ') (hrest : startsToken rest) :
    ∃ after, readPlainGap c = ⟨spaces, after, false⟩ ∧ c.Passes spaces after ∧
      after.rest = rest := by
  have hall : ∀ x ∈ spaces, decide (x = ' ') = true := fun x hx => decide_eq_true (hspaces x hx)
  have hstop : ∀ x, rest.head? = some x → decide (x = ' ') = false := by
    intro x hx
    exact decide_eq_false (isGap_eq_false_iff.1 (hrest x hx).1).1
  obtain ⟨hpass, hafter⟩ := Cursor.passes_skipWhile hc hall hstop
  have htake := Cursor.takeWhile_eq hc hall hstop
  have hbreak : (c.skipWhile fun x => decide (x = ' ')).break? = none :=
    break?_of_startsToken (by rwa [hafter])
  exact ⟨c.skipSpaces, by rw [readPlainGap, Cursor.skipSpaces, hbreak, htake], hpass, hafter⟩

theorem readPlainBreaks_spaces {count fuel : Nat} {rest : List Char}
    (hc : c.rest = List.replicate count ' ' ++ rest) (hrest : startsToken rest)
    (hfuel : count ≤ fuel) :
    ∃ after, readPlainBreaks fuel c = (some [], after) ∧
      c.Passes (List.replicate count ' ') after ∧ after.rest = rest := by
  induction count generalizing c fuel with
  | zero =>
    refine ⟨c, ?_, .refl c, hc⟩
    cases fuel with
    | zero => rfl
    | succ fuel =>
      have hstop : startsToken c.rest := by rwa [hc]
      rw [readPlainBreaks, if_neg (char_ne_space_of_startsToken hstop), break?_of_startsToken hstop]
  | succ count ih =>
    have hc' : c.rest = ' ' :: (List.replicate count ' ' ++ rest) := hc
    obtain ⟨hpass, hnext⟩ := Cursor.passes_next hc'
    obtain ⟨fuel, rfl⟩ : ∃ n, fuel = n + 1 := ⟨fuel - 1, by omega⟩
    obtain ⟨after, hread, hover, hafter⟩ := ih hnext (Nat.le_of_succ_le_succ hfuel)
    refine ⟨after, ?_, hpass.trans hover, hafter⟩
    rw [readPlainBreaks, if_pos (Cursor.char_of_rest hc')]
    exact hread

/-- A line break and the indentation behind it stand for a space. -/
theorem readPlainGap_fold {count : Nat} {rest : List Char} (hcount : 0 < count)
    (hc : c.rest = '\n' :: (List.replicate count ' ' ++ rest)) (hrest : startsToken rest) :
    ∃ after, readPlainGap c = ⟨[' '], after, true⟩ ∧
      c.Passes ('\n' :: List.replicate count ' ') after ∧ after.rest = rest := by
  obtain ⟨hpass, hnext⟩ := Cursor.passes_next hc
  have hspaces : c.skipSpaces = c := Cursor.skipWhile_of_head hc (by decide)
  have hseparator : c.next.isDocumentSeparator = false := by
    obtain ⟨count, rfl⟩ := Nat.exists_eq_succ_of_ne_zero (Nat.ne_of_gt hcount)
    exact isDocumentSeparator_of_gap hnext (by decide)
  have hfuel : count ≤ c.next.rest.length := by
    rw [hnext, List.length_append, List.length_replicate]
    omega
  obtain ⟨after, hread, hover, hafter⟩ := readPlainBreaks_spaces hnext hrest hfuel
  refine ⟨after, ?_, hpass.trans hover, hafter⟩
  rw [readPlainGap, hspaces, Cursor.break?_lineFeed hc]
  simp [hseparator, hread]

/-- Plain text goes on behind a gap that stands for some text. -/
theorem IsRuns.behind {gap found : List Char} {hasBreak : Bool} (h : IsRuns least cs text)
    (hrun : IsRun run) (hfound : found ≠ []) (hstart : ∀ rest, startsToken (cs ++ rest))
    (hends : ∀ rest, plainRun false (gap ++ rest) = [])
    (hgap : ∀ {c : Cursor} {rest : List Char}, c.rest = gap ++ rest → startsToken rest →
      ∃ after, readPlainGap c = ⟨found, after, hasBreak⟩ ∧ c.Passes gap after ∧ after.rest = rest)
    (hcolumn : ∀ (m : Mark) (indent : Nat) (rest : List Char), indent ≤ least →
      indent ≤ m.column → indent ≤ (m.past gap rest).column) :
    IsRuns least (run ++ (gap ++ cs)) (run ++ found ++ text) where
  ne := List.append_ne_nil_of_left_ne_nil hrun.ne _
  head tail _ := by
    rw [List.append_assoc, List.append_assoc, hrun.eq _ (hends _)]
    exact hrun.ne
  reads := by
    intro c indent fuel more rest hleast hle hc hstop htail hfuel
    have hc' : c.rest = run ++ (gap ++ (cs ++ (more ++ rest))) := by simpa using hc
    have hrun' : plainRun false c.rest = run := by
      rw [hc']
      exact hrun.eq _ (hends _)
    obtain ⟨hpass, hleft⟩ := Cursor.passes_skip hc'
    obtain ⟨next, hread, hover, hnext⟩ := hgap hleft (hstart _)
    have hlength : 0 < run.length := List.length_pos_iff.2 hrun.ne
    rw [List.length_append, List.length_append] at hfuel
    obtain ⟨fuel, rfl⟩ : ∃ n, fuel = n + 1 := ⟨fuel - 1, by omega⟩
    have hle' : indent ≤ next.column := by
      rw [Cursor.column, hover.mark]
      refine hcolumn _ indent _ hleast ?_
      rw [hpass.mark, Mark.column_past hrun.wide]
      exact Nat.le_trans hle (Nat.add_le_add_left hlength _)
    obtain ⟨stop, after, hothers, hlast, hafter⟩ :=
      h.reads hleast (Nat.le_succ_of_le hle') hnext hstop htail (show cs.length ≤ fuel by omega)
    refine ⟨stop, after, ?_, ?_, hafter⟩
    · have hchar : next.char ≠ '#' := by
        refine Scan.char_ne_of_head? (by decide) ?_
        rw [hnext]
        exact fun x hx => (hstart _ x hx).2.1
      have hgoes : plainRun false next.rest ≠ [] := by
        rw [hnext]
        exact h.head _ htail
      have hnotLess : ¬ next.column < indent := Nat.not_lt.2 hle'
      rw [readRuns, hrun']
      simp [hread, hfound, hchar, hgoes, hnotLess, hothers]
    · have hall := (hpass.trans hover).trans hlast
      simpa using hall

theorem IsRuns.spaces {count : Nat} (h : IsRuns least cs text) (hrun : IsRun run)
    (hcount : 0 < count) (hstart : ∀ rest, startsToken (cs ++ rest)) :
    IsRuns least (run ++ (List.replicate count ' ' ++ cs))
      (run ++ List.replicate count ' ' ++ text) := by
  have hspaces : ∀ x ∈ List.replicate count ' ', x = ' ' := fun x hx => List.eq_of_mem_replicate hx
  refine h.behind hrun ?_ hstart ?_ (fun hc hrest => readPlainGap_spaces hc hspaces hrest) ?_
  · simp
    omega
  · obtain ⟨count, rfl⟩ := Nat.exists_eq_succ_of_ne_zero (Nat.ne_of_gt hcount)
    exact fun rest => plainRun_of_blank (by decide) _
  · intro m indent rest _ hle
    rw [Mark.column_past]
    · omega
    · intro x hx
      rw [hspaces x hx]
      exact ⟨by decide, by decide⟩

theorem IsRuns.fold (h : IsRuns least cs text) (hrun : IsRun run) (hleast : 0 < least)
    (hstart : ∀ rest, startsToken (cs ++ rest)) :
    IsRuns least (run ++ ('\n' :: List.replicate least ' ' ++ cs)) (run ++ [' '] ++ text) := by
  refine h.behind hrun (by simp) hstart (fun rest => plainRun_of_blank (by decide) _)
    (fun hc hrest => readPlainGap_fold hleast hc hrest) ?_
  intro m indent rest hle _
  rw [Mark.past_cons, Mark.next_lineFeed, Mark.column_past, List.length_replicate]
  · exact Nat.le_trans hle (Nat.le_add_left _ _)
  · intro x hx
    rw [List.eq_of_mem_replicate hx]
    exact ⟨by decide, by decide⟩

/-! ### The end of plain text -/

theorem stopsBehind_of_indent {next indent : Nat} {rest : List Char} (hnext : next < indent)
    (hrest : startsToken rest) :
    StopsBehind false indent ('\n' :: List.replicate next ' ') rest := by
  intro c hc
  have hspaces : ∀ x ∈ List.replicate next ' ', x = ' ' := fun x hx => List.eq_of_mem_replicate hx
  have hgap : ∀ x ∈ '\n' :: List.replicate next ' ', isGap x = true := by
    refine List.forall_mem_cons.2 ⟨by decide, ?_⟩
    intro x hx
    rw [hspaces x hx]
    decide
  obtain ⟨found, after, hread, hpass, hafter⟩ := readPlainGap_eq hc hgap hrest
  have hcolumn : after.column = next := by
    rw [Cursor.column, hpass.mark, Mark.past_cons, Mark.next_lineFeed, Mark.column_past,
      List.length_replicate, Nat.zero_add]
    intro x hx
    rw [hspaces x hx]
    exact ⟨by decide, by decide⟩
  exact ⟨found, after, hread, hpass, hafter, by simp [hcolumn, hnext]⟩

theorem stopsBehind_separator (indent : Nat) :
    StopsBehind false indent ['\n'] "...\n".toList := by
  intro c hc
  have hc' : c.rest = '\n' :: "...\n".toList := hc
  obtain ⟨hpass, hnext⟩ := Cursor.passes_next hc'
  have hspaces : c.skipSpaces = c := Cursor.skipWhile_of_head hc' (by decide)
  have hseparator : c.next.isDocumentSeparator = true := by
    rw [Cursor.isDocumentSeparator, Cursor.isSeparator, Cursor.isSeparator, hnext]
    decide
  refine ⟨[], c.next, ?_, hpass, hnext, by simp⟩
  rw [readPlainGap, hspaces, Cursor.break?_lineFeed hc']
  simp [hseparator, isBreak]

end Treeline.Yaml.Token
