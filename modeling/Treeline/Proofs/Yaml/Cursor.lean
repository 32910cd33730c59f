import Mathlib.Data.List.TakeWhile
import Treeline.Yaml.Cursor

/-!
# Passing over characters

A cursor passes over some characters if they stand in front of it and its mark moves on by them, one
after another. Whatever reads a part of a text does that and nothing else, so what is known of a
mark behind a part follows from the characters of the part: the index counts all of them, and without
a line break the line stays the same.
-/

namespace Treeline.Yaml

namespace Mark

/-- The mark behind some characters, given the text that follows them. -/
def past (m : Mark) : List Char → List Char → Mark
  | [], _ => m
  | x :: cs, rest => (m.next x (cs ++ rest)).past cs rest

@[simp] theorem past_nil (m : Mark) (rest : List Char) : m.past [] rest = m := rfl

theorem past_cons (m : Mark) (x : Char) (cs rest : List Char) :
    m.past (x :: cs) rest = (m.next x (cs ++ rest)).past cs rest := rfl

theorem past_append (m : Mark) (as bs rest : List Char) :
    m.past (as ++ bs) rest = (m.past as (bs ++ rest)).past bs rest := by
  induction as generalizing m with
  | nil => rfl
  | cons a as ih => rw [List.cons_append, past_cons, ih, past_cons, List.append_assoc]

theorem index_next (m : Mark) (x : Char) (rest : List Char) :
    (m.next x rest).index = m.index + 1 := by
  unfold next
  split_ifs <;> rfl

theorem index_past (m : Mark) (cs rest : List Char) :
    (m.past cs rest).index = m.index + cs.length := by
  induction cs generalizing m with
  | nil => rfl
  | cons x cs ih =>
    rw [past_cons, ih, index_next, List.length_cons]
    omega

theorem line_next {x : Char} (hx : isBreak x = false) (m : Mark) (rest : List Char) :
    (m.next x rest).line = m.line := by
  unfold next
  rw [hx]
  simp only [Bool.false_and, Bool.false_eq_true, if_false]
  split_ifs <;> rfl

theorem line_past {cs : List Char} (hcs : ∀ x ∈ cs, isBreak x = false) (m : Mark)
    (rest : List Char) : (m.past cs rest).line = m.line := by
  induction cs generalizing m with
  | nil => rfl
  | cons x cs ih =>
    obtain ⟨hx, hcs⟩ := List.forall_mem_cons.1 hcs
    rw [past_cons, ih hcs, line_next hx]

theorem line_le_past (m : Mark) (cs rest : List Char) : m.line ≤ (m.past cs rest).line := by
  induction cs generalizing m with
  | nil => exact Nat.le_refl _
  | cons x cs ih =>
    have hnext : m.line ≤ (m.next x (cs ++ rest)).line := by
      unfold next
      split_ifs
      · exact Nat.le_succ _
      · exact Nat.le_refl _
      · exact Nat.le_refl _
    exact Nat.le_trans hnext (ih _)

/-- A character that takes up one column. -/
def IsWide (x : Char) : Prop := isBreak x = false ∧ x ≠ '\uFEFF'

theorem column_next {x : Char} (hx : IsWide x) (m : Mark) (rest : List Char) :
    (m.next x rest).column = m.column + 1 := by
  unfold next
  rw [hx.1]
  simp only [Bool.false_and, Bool.false_eq_true, if_false, hx.2]

theorem column_past {cs : List Char} (hcs : ∀ x ∈ cs, IsWide x) (m : Mark) (rest : List Char) :
    (m.past cs rest).column = m.column + cs.length := by
  induction cs generalizing m with
  | nil => rfl
  | cons x cs ih =>
    obtain ⟨hx, hcs⟩ := List.forall_mem_cons.1 hcs
    rw [past_cons, ih hcs, column_next hx, List.length_cons]
    omega

theorem next_lineFeed (m : Mark) (rest : List Char) :
    m.next '\n' rest = ⟨m.index + 1, m.line + 1, 0⟩ := by
  simp [next, isBreak]

theorem line_lt_past {cs : List Char} (h : '\n' ∈ cs) (m : Mark) (rest : List Char) :
    m.line < (m.past cs rest).line := by
  obtain ⟨as, bs, rfl⟩ := List.append_of_mem h
  have has := line_le_past m as ('\n' :: bs ++ rest)
  rw [past_append, past_cons, next_lineFeed]
  have hbs := line_le_past ⟨(m.past as ('\n' :: bs ++ rest)).index + 1,
    (m.past as ('\n' :: bs ++ rest)).line + 1, 0⟩ bs rest
  exact Nat.lt_of_lt_of_le (Nat.lt_succ_of_le has) hbs

end Mark

namespace Cursor

/-- The first cursor passes over some characters and is then the second one. -/
structure Passes (c : Cursor) (cs : List Char) (after : Cursor) : Prop where
  rest : c.rest = cs ++ after.rest
  mark : after.mark = c.mark.past cs after.rest

variable {c : Cursor}

theorem Passes.refl (c : Cursor) : c.Passes [] c := ⟨rfl, rfl⟩

theorem Passes.trans {as bs : List Char} {c₁ c₂ c₃ : Cursor} (h : c₁.Passes as c₂)
    (h' : c₂.Passes bs c₃) : c₁.Passes (as ++ bs) c₃ := by
  constructor
  · rw [h.rest, h'.rest, List.append_assoc]
  · rw [h'.mark, h.mark, h'.rest, Mark.past_append]

theorem Passes.length {cs : List Char} {after : Cursor} (h : c.Passes cs after) :
    c.rest.length = cs.length + after.rest.length := by
  rw [h.rest, List.length_append]

theorem Passes.index {cs : List Char} {after : Cursor} (h : c.Passes cs after) :
    after.mark.index = c.mark.index + cs.length := by
  rw [h.mark, Mark.index_past]

theorem Passes.eq {cs : List Char} {after after' : Cursor} (h : c.Passes cs after)
    (h' : c.Passes cs after') : after = after' := by
  have hrest : after.rest = after'.rest := List.append_cancel_left (h.rest.symm.trans h'.rest)
  have hmark : after.mark = after'.mark := by rw [h.mark, h'.mark, hrest]
  cases after
  cases after'
  simp_all

/-! ### Single characters -/

theorem char_of_rest {x : Char} {rest : List Char} (h : c.rest = x :: rest) : c.char = x := by
  simp [char, h]

theorem charAt_one_of_rest {x : Char} {rest : List Char} (h : c.rest = x :: rest) :
    c.charAt 1 = rest.head?.getD endOfText := by
  cases rest <;> simp [charAt, h]

theorem passes_next {x : Char} {rest : List Char} (h : c.rest = x :: rest) :
    c.Passes [x] c.next ∧ c.next.rest = rest := by
  have hnext : c.next = ⟨rest, c.mark.next x rest⟩ := by
    unfold next
    rw [h]
  rw [hnext]
  exact ⟨⟨h, rfl⟩, rfl⟩

theorem passes_skip {cs rest : List Char} (h : c.rest = cs ++ rest) :
    c.Passes cs (c.skip cs.length) ∧ (c.skip cs.length).rest = rest := by
  induction cs generalizing c with
  | nil => exact ⟨.refl c, h⟩
  | cons x cs ih =>
    have h' : c.rest = x :: (cs ++ rest) := h
    obtain ⟨hx, hnext⟩ := passes_next h'
    obtain ⟨hcs, hrest⟩ := ih hnext
    exact ⟨hx.trans hcs, hrest⟩

/-! ### Runs of characters -/

variable {p : Char → Bool}

theorem skipFrom_append {cs rest : List Char} (hcs : ∀ x ∈ cs, p x = true)
    (hrest : ∀ x, rest.head? = some x → p x = false) (m : Mark) :
    skipFrom p (cs ++ rest) m = ⟨rest, m.past cs rest⟩ := by
  induction cs generalizing m with
  | nil =>
    cases rest with
    | nil => rfl
    | cons x rest => simp [skipFrom, hrest x rfl]
  | cons x cs ih =>
    obtain ⟨hx, hcs⟩ := List.forall_mem_cons.1 hcs
    rw [List.cons_append, skipFrom, if_pos hx, ih hcs, Mark.past_cons]

theorem skipWhile_eq {cs rest : List Char} (h : c.rest = cs ++ rest)
    (hcs : ∀ x ∈ cs, p x = true) (hrest : ∀ x, rest.head? = some x → p x = false) :
    c.skipWhile p = ⟨rest, c.mark.past cs rest⟩ := by
  rw [skipWhile, h]
  exact skipFrom_append hcs hrest c.mark

theorem passes_skipWhile {cs rest : List Char} (h : c.rest = cs ++ rest)
    (hcs : ∀ x ∈ cs, p x = true) (hrest : ∀ x, rest.head? = some x → p x = false) :
    c.Passes cs (c.skipWhile p) ∧ (c.skipWhile p).rest = rest := by
  rw [skipWhile_eq h hcs hrest]
  exact ⟨⟨h, rfl⟩, rfl⟩

theorem takeWhile_eq {cs rest : List Char} (h : c.rest = cs ++ rest)
    (hcs : ∀ x ∈ cs, p x = true) (hrest : ∀ x, rest.head? = some x → p x = false) :
    c.takeWhile p = cs := by
  rw [takeWhile, h, List.takeWhile_append_of_pos hcs]
  cases rest with
  | nil => simp
  | cons x rest => simp [hrest x rfl]

theorem skipWhile_of_head {x : Char} {rest : List Char} (h : c.rest = x :: rest)
    (hx : p x = false) : c.skipWhile p = c := by
  have h' : c.rest = [] ++ x :: rest := h
  rw [skipWhile_eq h' (by simp) (by simpa using hx), Mark.past_nil, ← h]

/-! ### Line breaks -/

theorem break?_eq_none (h : ∀ x, c.rest.head? = some x → isBreak x = false) : c.break? = none := by
  unfold break?
  split
  · rename_i rest hrest
    have hx := h '\r' (by rw [hrest]; rfl)
    simp [isBreak] at hx
  · rename_i x rest hno hrest
    have hx := h x (by rw [hrest]; rfl)
    have hnone : ¬ (x = '\r' ∨ x = '\n' ∨ x = '\u0085') := by
      rintro (rfl | rfl | rfl) <;> simp [isBreak] at hx
    rw [if_neg hnone, if_neg (by simp [hx])]
  · rfl

/-- A line break at the front is passed over, alone or with the line feed that belongs to it. -/
theorem exists_break? {x : Char} {rest : List Char} (h : c.rest = x :: rest)
    (hx : isBreak x = true) :
    ∃ y taken after, c.break? = some (y, after) ∧ c.Passes taken after ∧
      (taken = [x] ∨ taken = ['\r', '\n']) := by
  unfold break?
  split
  · rename_i more hrest
    have hrest' : c.rest = ['\r', '\n'] ++ more := hrest
    obtain ⟨hpasses, -⟩ := passes_skip hrest'
    exact ⟨'\n', ['\r', '\n'], c.skip 2, rfl, hpasses, .inr rfl⟩
  · rename_i z more hno hrest
    have hz : x = z := by
      rw [h] at hrest
      exact (List.cons.inj hrest).1
    subst hz
    obtain ⟨hpasses, -⟩ := passes_next hrest
    by_cases hplain : x = '\r' ∨ x = '\n' ∨ x = '\u0085'
    · rw [if_pos hplain]
      exact ⟨'\n', [x], c.next, rfl, hpasses, .inl rfl⟩
    · rw [if_neg hplain, if_pos hx]
      exact ⟨x, [x], c.next, rfl, hpasses, .inl rfl⟩
  · rename_i hno hnone
    exact absurd h (by simp [hnone])

theorem break?_lineFeed {rest : List Char} (h : c.rest = '\n' :: rest) :
    c.break? = some ('\n', c.next) := by
  unfold break?
  rw [h]
  simp

/-! ### Separators -/

theorem isSeparator_of_head {x y : Char} {rest : List Char} (h : c.rest = x :: rest)
    (hx : x ≠ y) : c.isSeparator y = false := by
  unfold isSeparator
  rw [h]
  match rest with
  | [] => rfl
  | [_] => rfl
  | _ :: _ :: _ => simp [hx]

theorem isSeparator_of_second {x y z : Char} {rest : List Char} (h : c.rest = z :: x :: rest)
    (hx : x ≠ y) : c.isSeparator y = false := by
  unfold isSeparator
  rw [h]
  match rest with
  | [] => rfl
  | _ :: _ => simp [hx]

end Cursor

end Treeline.Yaml
