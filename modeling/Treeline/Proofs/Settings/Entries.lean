import Treeline.Proofs.Data.DistinctKeys
import Treeline.Settings

/-!
# Taking over settings

The entries of a settings file are taken over one after the other. Each changes the setting that it
names and no other, if its value has the right type. A list of keys to prune is taken over last, when
all of its items are known to be texts.
-/

namespace Treeline

/-- The data that a time to wait is written as. -/
def Timeout.datum : Timeout → Datum
  | .whole seconds => .int seconds
  | .fractional seconds => .float seconds

namespace Settings

variable {definitions : Array Datum} {entries : List Datum.Entry} {path name other : String}
  {s t u : Settings} {setting : Setting} {d key value : Datum}

/-! ### What settings hold -/

/-- The settings by their names, as data. -/
def values (s : Settings) : List (String × Option Datum) :=
  [("namespace", s.space.map .text),
    ("kubeconfig", s.kubeconfig.map .text),
    ("context", s.context.map .text),
    ("depth", s.depth.map .int),
    ("prune", s.pruned.map fun keys => .list (keys.map .text)),
    ("pure", s.pure.map .bool),
    ("absolute", s.absolute.map .bool),
    ("request_timeout", s.timeout.map Timeout.datum)]

/-- The setting with a name, as data. -/
def value? (s : Settings) (name : String) : Option Datum := (s.values.lookup name).join

/-- Settings hold what a dictionary holds under each name. -/
def Mirrors (s : Settings) (definitions : Array Datum) (entries : List Datum.Entry) : Prop :=
  ∀ name, s.value? name = (Datum.under name entries).map (resolved definitions)

/-- A value has the type of the setting with a name. -/
inductive IsValueOf : String → Datum → Prop
  | space (v : String) : IsValueOf "namespace" (.text v)
  | kubeconfig (v : String) : IsValueOf "kubeconfig" (.text v)
  | context (v : String) : IsValueOf "context" (.text v)
  | depth (v : Int) : IsValueOf "depth" (.int v)
  | pruned (keys : List String) : IsValueOf "prune" (.list (keys.map .text))
  | pure (v : Bool) : IsValueOf "pure" (.bool v)
  | absolute (v : Bool) : IsValueOf "absolute" (.bool v)
  | timeout (v : Timeout) : IsValueOf "request_timeout" v.datum

/-- Every key of a dictionary names a setting, and every value has the type of its setting. -/
def IsWellTyped (definitions : Array Datum) (entries : List Datum.Entry) : Prop :=
  ∀ entry ∈ entries, ∃ name, entry.1 = .text name ∧ IsValueOf name (resolved definitions entry.2)

theorem exists_keys_of_isValueOf (h : IsValueOf name d) (hname : name = "prune") :
    ∃ keys : List String, d = .list (keys.map .text) := by
  cases h with
  | pruned keys => exact ⟨keys, rfl⟩
  | _ => exact absurd hname (by decide)

theorem ext_value? (h : ∀ name, s.value? name = t.value? name) : s = t := by
  have htext : Function.Injective Datum.text := fun _ _ => Datum.text.inj
  have hint : Function.Injective Datum.int := fun _ _ => Datum.int.inj
  have hbool : Function.Injective Datum.bool := fun _ _ => Datum.bool.inj
  have hlist : Function.Injective fun keys : List String => Datum.list (keys.map .text) :=
    fun _ _ heq => List.map_injective_iff.2 htext (Datum.list.inj heq)
  have htimeout : Function.Injective Timeout.datum := by
    rintro (_ | _) (_ | _) ⟨⟩
    · rfl
    · rfl
  obtain ⟨space, kubeconfig, context, depth, pruned, pure, absolute, timeout⟩ := s
  obtain ⟨space', kubeconfig', context', depth', pruned', pure', absolute', timeout'⟩ := t
  rw [mk.injEq]
  exact ⟨Option.map_injective htext (h "namespace"), Option.map_injective htext (h "kubeconfig"),
    Option.map_injective htext (h "context"), Option.map_injective hint (h "depth"),
    Option.map_injective hlist (h "prune"), Option.map_injective hbool (h "pure"),
    Option.map_injective hbool (h "absolute"), Option.map_injective htimeout (h "request_timeout")⟩

theorem value?_empty (name : String) : empty.value? name = none := by
  simp only [value?, values, empty, List.lookup_cons, Option.map_none]
  repeat' split
  all_goals rfl

/-! ### One entry -/

/-- What taking over an entry can do. The keys to prune are left for later. -/
inductive Assigns (s : Settings) : String → Datum → Settings → Prop
  | space (v : String) : Assigns s "namespace" (.text v) { s with space := some v }
  | kubeconfig (v : String) : Assigns s "kubeconfig" (.text v) { s with kubeconfig := some v }
  | context (v : String) : Assigns s "context" (.text v) { s with context := some v }
  | depth (v : Int) : Assigns s "depth" (.int v) { s with depth := some v }
  | pruned (items : List Datum) : Assigns s "prune" (.list items) s
  | pure (v : Bool) : Assigns s "pure" (.bool v) { s with pure := some v }
  | absolute (v : Bool) : Assigns s "absolute" (.bool v) { s with absolute := some v }
  | timeout (v : Timeout) : Assigns s "request_timeout" v.datum { s with timeout := some v }

theorem assign?_text_iff {put : Settings → String → Settings} :
    assign? s (.text put) d = some t ↔ ∃ v, d = .text v ∧ put s v = t := by
  cases d <;> simp [assign?]

theorem assign?_int_iff {put : Settings → Int → Settings} :
    assign? s (.int put) d = some t ↔ ∃ v, d = .int v ∧ put s v = t := by
  cases d <;> simp [assign?]

theorem assign?_bool_iff {put : Settings → Bool → Settings} :
    assign? s (.bool put) d = some t ↔ ∃ v, d = .bool v ∧ put s v = t := by
  cases d <;> simp [assign?]

theorem assign?_number_iff {put : Settings → Timeout → Settings} :
    assign? s (.number put) d = some t ↔ ∃ v : Timeout, d = v.datum ∧ put s v = t := by
  constructor
  · intro h
    cases d with
    | int v => exact ⟨.whole v, rfl, Option.some.inj h⟩
    | float v => exact ⟨.fractional v, rfl, Option.some.inj h⟩
    | _ => cases h
  · rintro ⟨_ | _, rfl, rfl⟩
    · rfl
    · rfl

theorem assign?_list_iff : assign? s .list d = some t ↔ ∃ items, d = .list items ∧ s = t := by
  cases d <;> simp [assign?]

theorem assigns_iff : Assigns s name d t ↔
    ∃ setting, known.lookup name = some setting ∧ assign? s setting d = some t := by
  constructor
  · rintro (v | v | v | v | items | v | v | v)
    · exact ⟨_, rfl, rfl⟩
    · exact ⟨_, rfl, rfl⟩
    · exact ⟨_, rfl, rfl⟩
    · exact ⟨_, rfl, rfl⟩
    · exact ⟨_, rfl, rfl⟩
    · exact ⟨_, rfl, rfl⟩
    · exact ⟨_, rfl, rfl⟩
    · exact ⟨_, rfl, assign?_number_iff.2 ⟨v, rfl, rfl⟩⟩
  · rintro ⟨setting, hknown, h⟩
    obtain ⟨before, after, heq, -⟩ := List.lookup_eq_some_iff.1 hknown
    have hmem : (name, setting) ∈ known := by
      rw [heq]
      exact List.mem_append_right _ List.mem_cons_self
    simp only [known, List.mem_cons, Prod.mk.injEq, List.not_mem_nil, or_false] at hmem
    rcases hmem with ⟨rfl, rfl⟩ | ⟨rfl, rfl⟩ | ⟨rfl, rfl⟩ | ⟨rfl, rfl⟩ | ⟨rfl, rfl⟩ | ⟨rfl, rfl⟩ |
      ⟨rfl, rfl⟩ | ⟨rfl, rfl⟩
    · obtain ⟨v, rfl, rfl⟩ := assign?_text_iff.1 h
      exact .space v
    · obtain ⟨v, rfl, rfl⟩ := assign?_text_iff.1 h
      exact .kubeconfig v
    · obtain ⟨v, rfl, rfl⟩ := assign?_text_iff.1 h
      exact .context v
    · obtain ⟨v, rfl, rfl⟩ := assign?_int_iff.1 h
      exact .depth v
    · obtain ⟨items, rfl, rfl⟩ := assign?_list_iff.1 h
      exact .pruned items
    · obtain ⟨v, rfl, rfl⟩ := assign?_bool_iff.1 h
      exact .pure v
    · obtain ⟨v, rfl, rfl⟩ := assign?_bool_iff.1 h
      exact .absolute v
    · obtain ⟨v, rfl, rfl⟩ := assign?_number_iff.1 h
      exact .timeout v

theorem value?_of_assigns (h : Assigns s name d t) (other : String) :
    t.value? other = if other = name ∧ name ≠ "prune" then some d else s.value? other := by
  by_cases hname : other = name
  · subst hname
    cases h
    all_goals rfl
  · rw [if_neg fun hboth => hname hboth.1]
    cases h with
    | pruned items => rfl
    | _ => simp [value?, values, List.lookup_cons, beq_false_of_ne hname]

theorem value?_withPruned (s : Settings) (keys : List String) (other : String) :
    ({ s with pruned := some keys } : Settings).value? other =
      if other = "prune" then some (.list (keys.map .text)) else s.value? other := by
  by_cases hname : other = "prune"
  · subst hname
    rfl
  · rw [if_neg hname]
    simp [value?, values, List.lookup_cons, beq_false_of_ne hname]

theorem exists_assigns (h : IsValueOf name d) (s : Settings) : ∃ t, Assigns s name d t := by
  cases h with
  | space v => exact ⟨_, .space v⟩
  | kubeconfig v => exact ⟨_, .kubeconfig v⟩
  | context v => exact ⟨_, .context v⟩
  | depth v => exact ⟨_, .depth v⟩
  | pruned keys => exact ⟨_, .pruned _⟩
  | pure v => exact ⟨_, .pure v⟩
  | absolute v => exact ⟨_, .absolute v⟩
  | timeout v => exact ⟨_, .timeout v⟩

/-- Of the keys to prune, only the list is checked at first. -/
theorem type_of_assigns (h : Assigns s name d t) :
    name ≠ "prune" ∧ IsValueOf name d ∨ name = "prune" ∧ ∃ items, d = .list items := by
  cases h with
  | space v => exact .inl ⟨by decide, .space v⟩
  | kubeconfig v => exact .inl ⟨by decide, .kubeconfig v⟩
  | context v => exact .inl ⟨by decide, .context v⟩
  | depth v => exact .inl ⟨by decide, .depth v⟩
  | pruned items => exact .inr ⟨rfl, items, rfl⟩
  | pure v => exact .inl ⟨by decide, .pure v⟩
  | absolute v => exact .inl ⟨by decide, .absolute v⟩
  | timeout v => exact .inl ⟨by decide, .timeout v⟩

/-! ### All entries -/

theorem setting?_eq_some_iff :
    setting? key = some (name, setting) ↔ key = .text name ∧ known.lookup name = some setting := by
  cases key with
  | text s =>
    rw [setting?, Option.map_eq_some_iff, Datum.text.injEq]
    constructor
    · rintro ⟨_, hknown, ⟨⟩⟩
      exact ⟨rfl, hknown⟩
    · rintro ⟨rfl, hknown⟩
      exact ⟨setting, hknown, rfl⟩
  | _ => simp [setting?]

theorem assignAll_cons_eq_ok_iff :
    assignAll path definitions s ((key, value) :: entries) = .ok u ↔
      ∃ name t, key = .text name ∧ Assigns s name (resolved definitions value) t ∧
        assignAll path definitions t entries = .ok u := by
  simp only [assigns_iff]
  rw [assignAll]
  constructor
  · intro h
    split at h
    · split at h
      · cases h
      · cases h
    · rename_i name setting hsetting
      obtain ⟨hkey, hknown⟩ := setting?_eq_some_iff.1 hsetting
      dsimp only at h
      split at h
      · cases h
      · rename_i t ht
        exact ⟨name, t, hkey, ⟨setting, hknown, ht⟩, h⟩
  · rintro ⟨name, t, hkey, ⟨setting, hknown, ht⟩, h⟩
    rw [setting?_eq_some_iff.2 ⟨hkey, hknown⟩]
    dsimp only
    rw [ht]
    exact h

theorem value?_of_assignAll (hkeys : Datum.HasDistinctKeys (.dict entries))
    (h : assignAll path definitions s entries = .ok u) (other : String) :
    u.value? other = if other = "prune" then s.value? other
      else ((Datum.under other entries).map (resolved definitions)).or (s.value? other) := by
  induction entries generalizing s with
  | nil =>
    cases h
    split
    · rfl
    · rfl
  | cons entry entries ih =>
    obtain ⟨key, value⟩ := entry
    obtain ⟨name, t, rfl, ht, h⟩ := assignAll_cons_eq_ok_iff.1 h
    rw [ih (List.Pairwise.of_cons hkeys) h, value?_of_assigns ht]
    by_cases hname : other = name
    · -- no later entry with the same key replaces the value
      subst hname
      rw [Datum.under_eq_none_of_cons hkeys, Datum.under_cons_self]
      by_cases hprune : other = "prune"
      · simp [hprune]
      · simp [hprune]
    · have hkey : Datum.text name ≠ .text other := fun heq => hname (Datum.text.inj heq).symm
      have hself : ¬(other = name ∧ name ≠ "prune") := fun hboth => hname hboth.1
      rw [Datum.under_cons_of_ne hkey, if_neg hself]

theorem type_of_assignAll (h : assignAll path definitions s entries = .ok u) :
    ∀ entry ∈ entries, ∃ name, entry.1 = .text name ∧
      (name ≠ "prune" ∧ IsValueOf name (resolved definitions entry.2) ∨
        name = "prune" ∧ ∃ items, resolved definitions entry.2 = .list items) := by
  induction entries generalizing s with
  | nil => exact List.forall_mem_nil _
  | cons entry entries ih =>
    obtain ⟨key, value⟩ := entry
    obtain ⟨name, t, rfl, ht, h⟩ := assignAll_cons_eq_ok_iff.1 h
    exact List.forall_mem_cons.2 ⟨⟨name, rfl, type_of_assigns ht⟩, ih h⟩

theorem exists_assignAll (path : String) (h : IsWellTyped definitions entries) (s : Settings) :
    ∃ t, assignAll path definitions s entries = .ok t := by
  induction entries generalizing s with
  | nil => exact ⟨s, rfl⟩
  | cons entry entries ih =>
    obtain ⟨key, value⟩ := entry
    obtain ⟨⟨name, rfl, hvalue⟩, hrest⟩ := List.forall_mem_cons.1 h
    obtain ⟨t, ht⟩ := exists_assigns hvalue s
    obtain ⟨u, hu⟩ := ih hrest t
    exact ⟨u, assignAll_cons_eq_ok_iff.2 ⟨name, t, rfl, ht, hu⟩⟩

/-- Only a number that is too long to be shown keeps an entry from being reported. -/
theorem longKey_of_assignAll {fault : Fault}
    (h : assignAll path definitions s entries = .error (.fault fault)) :
    ∃ entry ∈ entries, ∃ i, entry.1 = .int i ∧ Numeral.isShort i = false := by
  induction entries generalizing s with
  | nil => cases h
  | cons entry entries ih =>
    obtain ⟨key, value⟩ := entry
    rw [assignAll] at h
    split at h
    · split at h
      · cases h
      · rename_i fault' hshown
        refine ⟨_, List.mem_cons_self, ?_⟩
        cases key with
        | int i =>
          rw [shownKey] at hshown
          split at hshown
          · cases hshown
          · rename_i hlong
            exact ⟨i, rfl, Bool.eq_false_iff.2 hlong⟩
        | _ => cases hshown
    · dsimp only at h
      split at h
      · cases h
      · obtain ⟨entry, hentry, hlong⟩ := ih h
        exact ⟨entry, List.mem_cons_of_mem _ hentry, hlong⟩

/-! ### The keys to prune -/

theorem texts?_eq_some_iff {items : List Datum} {keys : List String} :
    texts? items = some keys ↔ items = keys.map .text := by
  rw [texts?]
  induction items generalizing keys with
  | nil => cases keys <;> simp
  | cons item items ih =>
    rw [List.mapM_cons]
    cases item with
    | text s =>
      constructor
      · intro h
        obtain ⟨_, ⟨⟩, h⟩ := Option.bind_eq_some_iff.1 h
        obtain ⟨rest, hrest, ⟨⟩⟩ := Option.bind_eq_some_iff.1 h
        rw [ih.1 hrest, List.map_cons]
      · intro h
        obtain ⟨_, rest, rfl, ⟨⟩, hrest⟩ := List.map_eq_cons_iff.1 h.symm
        rw [ih.2 hrest.symm]
        rfl
    | _ => cases keys <;> simp

theorem assignPruned_of_none (path : String) (s : Settings)
    (h : Datum.under "prune" entries = none) : assignPruned path definitions entries s = .ok s := by
  rw [Datum.under] at h
  rw [assignPruned, h]

theorem assignPruned_eq_ok_iff {items : List Datum} (h : Datum.under "prune" entries = some value)
    (hlist : resolved definitions value = .list items) :
    assignPruned path definitions entries s = .ok u ↔
      ∃ keys : List String, items = keys.map .text ∧ u = { s with pruned := some keys } := by
  rw [Datum.under] at h
  simp only [assignPruned, h, hlist, ← texts?_eq_some_iff]
  cases texts? items with
  | none => simp
  | some keys => simp [eq_comm]

theorem assignPruned_ne_fault (path : String) (definitions : Array Datum)
    (entries : List Datum.Entry) (s : Settings) (fault : Fault) :
    assignPruned path definitions entries s ≠ .error (.fault fault) := by
  rw [assignPruned]
  split
  · rintro ⟨⟩
  · split
    · split
      all_goals rintro ⟨⟩
    · rintro ⟨⟩

theorem of_assignPruned
    (hlist : ∀ value, Datum.under "prune" entries = some value →
      ∃ items, resolved definitions value = .list items)
    (h : assignPruned path definitions entries s = .ok u) :
    (∀ value, Datum.under "prune" entries = some value →
      IsValueOf "prune" (resolved definitions value)) ∧
    ∀ other, u.value? other = if other = "prune"
      then ((Datum.under other entries).map (resolved definitions)).or (s.value? other)
      else s.value? other := by
  cases hfound : Datum.under "prune" entries with
  | none =>
    rw [assignPruned_of_none path s hfound] at h
    cases h
    refine ⟨?_, fun other => ?_⟩
    · rintro value ⟨⟩
    · split
      · rename_i hother
        rw [hother, hfound, Option.map_none, Option.none_or]
      · rfl
  | some value =>
    obtain ⟨items, hitems⟩ := hlist value hfound
    obtain ⟨keys, rfl, rfl⟩ := (assignPruned_eq_ok_iff hfound hitems).1 h
    refine ⟨?_, fun other => ?_⟩
    · rintro _ ⟨⟩
      rw [hitems]
      exact .pruned keys
    · rw [value?_withPruned]
      split
      · rename_i hother
        rw [hother, hfound, Option.map_some, hitems, Option.some_or]
      · rfl

end Settings

end Treeline
