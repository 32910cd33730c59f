import Treeline.Data.OfGraph
import Treeline.Proofs.Results

/-!
# Steps of making values

What a step of making values meets: from what it starts, what it leaves, and for what reasons it
stops. A step that is made of others meets what follows from theirs, so what holds of the making of
a document is shown function by function. Where the same has to hold from the first step to the last
one, a step preserves it.
-/

namespace Treeline.Data

open Yaml

def Maker.node (m : Maker) (id : Nat) : Node := m.nodes[id]?.getD .empty

/-- Where no value has been made yet, there is none. -/
def Maker.value? (m : Maker) (id : Nat) : Option Datum := m.values[id]?.join

namespace Making

variable {α β : Type} {x : Making α} {before : Maker → Prop} {after : α → Maker → Prop}
  {stops : Stop Failure → Prop}

/-- From where something holds, a step leaves a value for which something holds, or it stops for a
reason for which something holds. -/
def Meets (before : Maker → Prop) (x : Making α) (after : α → Maker → Prop)
    (stops : Stop Failure → Prop) : Prop :=
  ∀ m, before m → match x.run m with
    | .ok (a, left) => after a left
    | .error stop => stops stop

namespace Meets

theorem pure {a : α} (h : ∀ m, before m → after a m) : Meets before (pure a) after stops := h

theorem bind {f : α → Making β} {middle : α → Maker → Prop} {last : β → Maker → Prop}
    (hx : Meets before x middle stops) (hf : ∀ a, Meets (middle a) (f a) last stops) :
    Meets before (x >>= f) last stops := by
  intro m hm
  have hfirst := hx m hm
  rw [StateT.run_bind]
  cases hrun : x.run m with
  | error stop =>
    rw [hrun] at hfirst
    exact hfirst
  | ok pair =>
    obtain ⟨a, left⟩ := pair
    rw [hrun] at hfirst
    exact hf a left hfirst

theorem throw {stop : Stop Failure} (h : stops stop) :
    Meets before (throw stop : Making α) after stops :=
  fun _ _ => h

theorem get : Meets before (get : Making Maker) (fun a m => before m ∧ a = m) stops :=
  fun _ hm => ⟨hm, rfl⟩

theorem modify {f : Maker → Maker} {left : Maker → Prop} (h : ∀ m, before m → left (f m)) :
    Meets before (modify f : Making Unit) (fun _ => left) stops :=
  h

theorem ite {y : Making α} {p : Prop} [Decidable p] (hx : p → Meets before x after stops)
    (hy : ¬p → Meets before y after stops) : Meets before (if p then x else y) after stops := by
  split
  · exact hx ‹_›
  · exact hy ‹_›

theorem given {p : Prop} (h : p → Meets before x after stops) :
    Meets (fun m => before m ∧ p) x after stops :=
  fun m hm => h hm.2 m hm.1

theorem weaken {start : Maker → Prop} {last : α → Maker → Prop} (hx : Meets before x after stops)
    (hstart : ∀ m, start m → before m) (hlast : ∀ a m, after a m → last a m) :
    Meets start x last stops := by
  intro m hm
  have hmeets := hx m (hstart m hm)
  split at hmeets
  · exact hlast _ _ hmeets
  · exact hmeets

theorem each (h : ∀ m, before m → Meets (· = m) x after stops) : Meets before x after stops :=
  fun m hm => h m hm m rfl

theorem here {m : Maker} (hx : Meets before x after stops) (hm : before m) :
    Meets (· = m) x after stops := by
  rintro _ rfl
  exact hx _ hm

theorem reads {m : Maker} {a : α} {f : α → Making β} {last : β → Maker → Prop}
    (hrun : x.run m = .ok (a, m)) (hf : Meets (· = m) (f a) last stops) :
    Meets (· = m) (x >>= f) last stops := by
  rintro _ rfl
  rw [run_bind_of_run hrun]
  exact hf _ rfl

/-- What holds for the members that are done comes to hold for all of them. -/
theorem mapM {f : α → Making β} {held : List α → Maker → Prop} {as : List α}
    (hf : ∀ a ∈ as, ∀ done, Meets (held done) (f a) (fun _ => held (a :: done)) stops)
    (done : List α) :
    Meets (held done) (as.mapM f) (fun _ => held (as.reverse ++ done)) stops := by
  induction as generalizing done with
  | nil =>
    rw [List.mapM_nil]
    exact .pure fun _ hm => hm
  | cons a as ih =>
    obtain ⟨ha, has⟩ := List.forall_mem_cons.1 hf
    rw [List.mapM_cons, List.reverse_cons, List.append_assoc]
    exact (ha done).bind fun b => (ih has (a :: done)).bind fun bs => .pure fun _ hm => hm

/-- What is found has been found to be right. -/
theorem findM? {f : α → Making Bool} {right : α → Prop} {as : List α}
    (hf : ∀ a, Meets before (f a) (fun found m => before m ∧ (found = true → right a)) stops) :
    Meets before (as.findM? f) (fun found m => before m ∧ ∀ a, found = some a → right a) stops := by
  induction as with
  | nil =>
    refine .pure fun m hm => ⟨hm, ?_⟩
    rintro a ⟨⟩
  | cons a as ih =>
    rw [List.findM?]
    refine (hf a).bind fun found => .given fun hfound => ?_
    cases found with
    | true =>
      refine .pure fun m hm => ⟨hm, ?_⟩
      rintro a ⟨⟩
      exact hfound rfl
    | false => exact ih

end Meets

/-- A step that starts where an invariant holds leaves it as it is. What it yields has a property, and
something holds for the reason for which it stops, if it does. -/
def Preserves (inv : Maker → Prop) (x : Making α) (P : α → Prop) (stops : Stop Failure → Prop) :
    Prop :=
  Meets inv x (fun a m => inv m ∧ P a) stops

namespace Preserves

variable {inv : Maker → Prop} {P : α → Prop} {Q : β → Prop}

theorem pure {a : α} (h : P a) : Preserves inv (pure a) P stops := Meets.pure fun _ hm => ⟨hm, h⟩

theorem bind {f : α → Making β} (hx : Preserves inv x P stops)
    (hf : ∀ a, P a → Preserves inv (f a) Q stops) : Preserves inv (x >>= f) Q stops :=
  Meets.bind hx fun a => .given (hf a)

theorem throw {stop : Stop Failure} (h : stops stop) :
    Preserves inv (throw stop : Making α) P stops :=
  Meets.throw h

theorem get : Preserves inv (get : Making Maker) inv stops := by
  refine Meets.get.weaken (fun _ hm => hm) ?_
  rintro _ m ⟨hm, rfl⟩
  exact ⟨hm, hm⟩

theorem modify {f : Maker → Maker} (hf : ∀ m, inv m → inv (f m)) :
    Preserves inv (modify f : Making Unit) (fun _ => True) stops :=
  Meets.modify fun m hm => ⟨hf m hm, trivial⟩

theorem ite {y : Making α} {p : Prop} [Decidable p] (hx : p → Preserves inv x P stops)
    (hy : ¬p → Preserves inv y P stops) : Preserves inv (if p then x else y) P stops :=
  Meets.ite hx hy

theorem imp {P' : α → Prop} (hx : Preserves inv x P stops) (h : ∀ a, P a → P' a) :
    Preserves inv x P' stops :=
  Meets.weaken hx (fun _ hm => hm) fun a _ hleft => ⟨hleft.1, h a hleft.2⟩

theorem mapM {f : α → Making β} (as : List α)
    (hf : ∀ a, Preserves inv (f a) (fun _ => True) stops) :
    Preserves inv (as.mapM f) (fun _ => True) stops := by
  have hmeets : Meets inv (as.mapM f) (fun _ => inv) stops :=
    @Meets.mapM _ _ stops f (fun _ => inv) as
      (fun a _ _ => (hf a).weaken (fun _ hm => hm) fun _ _ hleft => hleft.1) []
  exact hmeets.weaken (fun _ hm => hm) fun _ _ hm => ⟨hm, trivial⟩

/-- What is found has been found to be right. -/
theorem findM? {f : α → Making Bool} {right : α → Prop} {as : List α}
    (hf : ∀ a, Preserves inv (f a) (fun found => found = true → right a) stops) :
    Preserves inv (as.findM? f) (fun found => ∀ a, found = some a → right a) stops :=
  Meets.findM? hf

end Preserves

theorem run_get (m : Maker) : (get : Making Maker).run m = .ok (m, m) := rfl

theorem run_node (m : Maker) (id : Nat) : (node id).run m = .ok (m.node id, m) := rfl

theorem meets_node (id : Nat) :
    Meets before (node id) (fun n m => before m ∧ n = m.node id) stops := by
  refine Meets.get.bind fun a => .pure ?_
  rintro m ⟨hm, rfl⟩
  exact ⟨hm, rfl⟩

theorem preserves_node {inv : Maker → Prop} {P : Node → Prop} (id : Nat)
    (h : ∀ m, inv m → P (m.node id)) : Preserves inv (node id) P stops := by
  refine (meets_node id).weaken (fun _ hm => hm) ?_
  rintro n m ⟨hm, rfl⟩
  exact ⟨hm, h m hm⟩

end Making

end Treeline.Data
