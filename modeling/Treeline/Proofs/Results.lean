import Mathlib.Data.List.Forall2
import Treeline.Fault

/-!
# Results and errors

A computation made of others succeeds exactly if all of them do, and an error that is handed on
stays an error. With a state, each step runs from what the step before it has left. A list is read
member by member, with the results in the order of the members.
-/

namespace Treeline

variable {ε α β : Type}

/-! ### Computations that fail -/

theorem bind_eq_ok_iff {x : Except ε α} {f : α → Except ε β} {b : β} :
    (x >>= f) = .ok b ↔ ∃ a, x = .ok a ∧ f a = .ok b := by
  cases x with
  | error e =>
    constructor
    · rintro ⟨⟩
    · rintro ⟨a, ⟨⟩, -⟩
  | ok a =>
    constructor
    · intro h
      exact ⟨a, rfl, h⟩
    · rintro ⟨_, ⟨⟩, h⟩
      exact h

theorem bind_eq_error_iff {x : Except ε α} {f : α → Except ε β} {e : ε} :
    (x >>= f) = .error e ↔ x = .error e ∨ ∃ a, x = .ok a ∧ f a = .error e := by
  cases x with
  | error d =>
    have hbind : (Except.error d >>= f) = .error d := rfl
    rw [hbind]
    simp
  | ok a =>
    have hbind : (Except.ok a >>= f) = f a := rfl
    rw [hbind]
    simp

theorem map_eq_ok_iff {x : Except ε α} {f : α → β} {b : β} :
    x.map f = .ok b ↔ ∃ a, x = .ok a ∧ f a = b := by
  cases x <;> simp [Except.map]

theorem map_eq_error_iff {x : Except ε α} {f : α → β} {e : ε} :
    x.map f = .error e ↔ x = .error e := by
  cases x <;> simp [Except.map]

theorem toOption_eq_some_iff {x : Except ε α} {a : α} : x.toOption = some a ↔ x = .ok a := by
  cases x <;> simp [Except.toOption]

theorem mapError_eq_ok_iff {δ : Type} {x : Except ε α} {f : ε → δ} {a : α} :
    x.mapError f = .ok a ↔ x = .ok a := by
  cases x <;> simp [Except.mapError]

theorem mapError_eq_error_iff {δ : Type} {x : Except ε α} {f : ε → δ} {d : δ} :
    x.mapError f = .error d ↔ ∃ e, x = .error e ∧ f e = d := by
  cases x <;> simp [Except.mapError]

theorem Stop.map_eq_reported_iff {δ : Type} {stop : Stop ε} {f : ε → δ} {d : δ} :
    stop.map f = .reported d ↔ ∃ e, stop = .reported e ∧ f e = d := by
  cases stop <;> simp [Stop.map]

theorem mapError_eq_reported_iff {δ : Type} {x : Except (Stop ε) α} {f : ε → δ} {d : δ} :
    x.mapError (Stop.map f) = .error (.reported d) ↔ ∃ e, x = .error (.reported e) ∧ f e = d := by
  rw [mapError_eq_error_iff]
  constructor
  · rintro ⟨stop, hx, hstop⟩
    obtain ⟨e, rfl, he⟩ := Stop.map_eq_reported_iff.1 hstop
    exact ⟨e, hx, he⟩
  · rintro ⟨e, hx, he⟩
    exact ⟨.reported e, hx, congrArg Stop.reported he⟩

theorem mapError_eq_fault_iff {δ : Type} {x : Except (Stop ε) α} {f : ε → δ} {fault : Fault} :
    x.mapError (Stop.map f) = .error (.fault fault) ↔ x = .error (.fault fault) := by
  rw [mapError_eq_error_iff]
  constructor
  · rintro ⟨_ | _, hx, ⟨⟩⟩
    exact hx
  · intro hx
    exact ⟨.fault fault, hx, rfl⟩

theorem run_bind_of_run {σ : Type} {x : StateT σ (Except ε) α} {f : α → StateT σ (Except ε) β}
    {s left : σ} {a : α} (hrun : x.run s = .ok (a, left)) : (x >>= f).run s = (f a).run left := by
  rw [StateT.run_bind, hrun]
  rfl

/-! ### Member by member -/

theorem exists_of_forall₂ {R : α → β → Prop} {as : List α} {bs : List β}
    (h : List.Forall₂ R as bs) {a : α} (ha : a ∈ as) : ∃ b ∈ bs, R a b := by
  obtain ⟨i, hi, rfl⟩ := List.mem_iff_getElem.1 ha
  have hi' : i < bs.length := by rwa [← h.length_eq]
  exact ⟨bs[i], List.getElem_mem hi', h.get hi hi'⟩

theorem exists_forall₂ {R : α → β → Prop} {as : List α}
    (h : ∀ a ∈ as, ∃ b, R a b) : ∃ bs, List.Forall₂ R as bs := by
  induction as with
  | nil => exact ⟨[], .nil⟩
  | cons a as ih =>
    obtain ⟨⟨b, hb⟩, has⟩ := List.forall_mem_cons.1 h
    obtain ⟨bs, hbs⟩ := ih has
    exact ⟨b :: bs, .cons hb hbs⟩

theorem mapM_eq_ok_iff {f : α → Except ε β} {as : List α} {bs : List β} :
    as.mapM f = .ok bs ↔ List.Forall₂ (fun a b => f a = .ok b) as bs := by
  induction as generalizing bs with
  | nil =>
    rw [List.mapM_nil, List.forall₂_nil_left_iff]
    constructor
    · rintro ⟨⟩
      rfl
    · rintro rfl
      rfl
  | cons a as ih =>
    rw [List.mapM_cons, List.forall₂_cons_left_iff]
    simp only [bind_eq_ok_iff, ih]
    constructor
    · rintro ⟨b, hb, bs, hbs, ⟨⟩⟩
      exact ⟨b, bs, hb, hbs, rfl⟩
    · rintro ⟨b, bs, hb, hbs, rfl⟩
      exact ⟨b, hb, bs, hbs, rfl⟩

theorem mapM_append_eq_ok_iff {f : α → Except ε β} {before after : List α} {bs : List β} :
    (before ++ after).mapM f = .ok bs ↔
      ∃ front back, before.mapM f = .ok front ∧ after.mapM f = .ok back ∧ bs = front ++ back := by
  rw [List.mapM_append]
  simp only [bind_eq_ok_iff]
  constructor
  · rintro ⟨front, hfront, back, hback, ⟨⟩⟩
    exact ⟨front, back, hfront, hback, rfl⟩
  · rintro ⟨front, back, hfront, hback, rfl⟩
    exact ⟨front, hfront, back, hback, rfl⟩

theorem mapM_cons_eq_ok_iff {f : α → Except ε β} {a : α} {as : List α} {bs : List β} :
    (a :: as).mapM f = .ok bs ↔
      ∃ b back, f a = .ok b ∧ as.mapM f = .ok back ∧ bs = b :: back := by
  simp only [mapM_eq_ok_iff, List.forall₂_cons_left_iff]

theorem mapM_concat_eq_ok_iff {f : α → Except ε β} {as : List α} {a : α} {bs : List β} :
    (as ++ [a]).mapM f = .ok bs ↔
      ∃ front b, as.mapM f = .ok front ∧ f a = .ok b ∧ bs = front ++ [b] := by
  rw [mapM_append_eq_ok_iff]
  simp only [mapM_cons_eq_ok_iff]
  constructor
  · rintro ⟨front, _, hfront, ⟨b, _, hb, ⟨⟩, rfl⟩, rfl⟩
    exact ⟨front, b, hfront, hb, rfl⟩
  · rintro ⟨front, b, hfront, hb, rfl⟩
    exact ⟨front, [b], hfront, ⟨b, [], hb, rfl, rfl⟩, rfl⟩

theorem mapM_eq_error_iff {f : α → Except ε β} {as : List α} {e : ε} :
    as.mapM f = .error e ↔
      ∃ before a after bs, as = before ++ a :: after ∧ before.mapM f = .ok bs ∧
        f a = .error e := by
  induction as with
  | nil =>
    rw [List.mapM_nil]
    constructor
    · rintro ⟨⟩
    · rintro ⟨before, a, after, -, has, -⟩
      cases before <;> cases has
  | cons a as ih =>
    rw [List.mapM_cons, bind_eq_error_iff]
    constructor
    · rintro (h | ⟨b, hb, h⟩)
      · exact ⟨[], a, as, [], rfl, rfl, h⟩
      · obtain h | ⟨bs, -, ⟨⟩⟩ := bind_eq_error_iff.1 h
        obtain ⟨before, a', after, bs, rfl, hbs, h⟩ := ih.1 h
        refine ⟨a :: before, a', after, b :: bs, rfl, ?_, h⟩
        rw [List.mapM_cons]
        exact bind_eq_ok_iff.2 ⟨b, hb, bind_eq_ok_iff.2 ⟨bs, hbs, rfl⟩⟩
    · rintro ⟨_ | ⟨a', before⟩, _, after, bs, ⟨⟩, hbs, h⟩
      · exact .inl h
      · rw [List.mapM_cons] at hbs
        obtain ⟨b, hb, hbs⟩ := bind_eq_ok_iff.1 hbs
        obtain ⟨bs, hbs, -⟩ := bind_eq_ok_iff.1 hbs
        refine .inr ⟨b, hb, bind_eq_error_iff.2 (.inl (ih.2 ?_))⟩
        exact ⟨before, _, after, bs, rfl, hbs, h⟩

end Treeline
