import Mathlib.Data.List.Basic
import Treeline.Cluster.Find

/-!
# The resource that is found

Finding a resource is a choice among candidates: the resources that are no parts of others and have
the wanted name among their names. The choice is the first candidate in a strict order of places in
the list of discovery, by group, then by preference, then by place. The wanted name alone decides, so
all texts with the same wanted name find the same resource.
-/

namespace Treeline.Cluster

variable {discovered : List Discovered} {r s : Resource} {rs : List Resource} {name kind : String}
  {i j : Nat}

/-! ### Candidates -/

/-- The name that resources are searched for. -/
def wanted (kind : String) : String := Text.lowercase (kindOf kind)

/-- Whether a text is one of the names of a resource in lower case: its kind, its plural, its singular
or a short name. The empty text is no name. -/
def HasName (r : Resource) (name : String) : Prop :=
  name ≠ "" ∧ (name = Text.lowercase r.kind ∨ (∃ plural, r.name = some plural ∧
    name = Text.lowercase plural) ∨ (∃ singular, r.singular = some singular ∧
    name = Text.lowercase singular) ∨ ∃ short ∈ r.shortNames, name = Text.lowercase short)

/-- A resource in a place of a list of discovery that can be chosen for a kind. -/
def IsCandidate (discovered : List Discovered) (kind : String) (i : Nat) (r : Resource) : Prop :=
  discovered[i]? = some (.resource r) ∧ '/' ∉ (r.name.getD "").toList ∧ HasName r (wanted kind)

/-- Whether the resource in place `i` is chosen rather than the one in place `j`: the group without a
name counts first, then the preferred version, then the place. -/
def ComesBefore (r : Resource) (i : Nat) (s : Resource) (j : Nat) : Prop :=
  r.group = some "" ∧ s.group ≠ some "" ∨
    (r.group = some "" ↔ s.group = some "") ∧
      (r.isPreferred = true ∧ s.isPreferred = false ∨
        r.isPreferred = s.isPreferred ∧ i < j)

/-- What a listed thing contributes to the resources with a name. -/
def named? (name : String) : Discovered → Option Resource
  | .resource r => if !Resource.isPart r.name && r.names.contains name then some r else none
  | _ => none

theorem mem_names_iff : name ∈ r.names ↔ HasName r name := by
  simp only [Resource.names, HasName, List.mem_filter, List.mem_map, List.mem_append,
    List.mem_cons, Option.mem_toList, bne_iff_ne]
  constructor
  · rintro ⟨⟨original, ((rfl | hplural) | hsingular) | hshort, rfl⟩, hne⟩
    · exact ⟨hne, .inl rfl⟩
    · exact ⟨hne, .inr (.inl ⟨original, hplural, rfl⟩)⟩
    · exact ⟨hne, .inr (.inr (.inl ⟨original, hsingular, rfl⟩))⟩
    · exact ⟨hne, .inr (.inr (.inr ⟨original, hshort, rfl⟩))⟩
  · rintro ⟨hne, rfl | ⟨plural, hplural, rfl⟩ | ⟨singular, hsingular, rfl⟩ | ⟨short, hshort, rfl⟩⟩
    · exact ⟨⟨_, .inl (.inl (.inl rfl)), rfl⟩, hne⟩
    · exact ⟨⟨_, .inl (.inl (.inr hplural)), rfl⟩, hne⟩
    · exact ⟨⟨_, .inl (.inr hsingular), rfl⟩, hne⟩
    · exact ⟨⟨_, .inr hshort, rfl⟩, hne⟩

theorem named?_eq_some_iff {d : Discovered} :
    named? name d = some r ↔
      d = .resource r ∧ '/' ∉ (r.name.getD "").toList ∧ HasName r name := by
  cases d with
  | resource s =>
    have hnamed : (!Resource.isPart s.name && s.names.contains name) = true ↔
        '/' ∉ (s.name.getD "").toList ∧ HasName s name := by
      rw [← mem_names_iff]
      simp [Resource.isPart]
    rw [named?, Option.ite_none_right_eq_some, hnamed, Discovered.resource.injEq,
      Option.some.injEq]
    constructor
    · rintro ⟨h, rfl⟩
      exact ⟨rfl, h⟩
    · rintro ⟨rfl, h⟩
      exact ⟨h, rfl⟩
  | collection => simp [named?]
  | kindless plural => simp [named?]

theorem withName?_eq
    (hkind : ∀ plural, .kindless plural ∈ discovered → Resource.isPart plural = true) :
    withName? name discovered = some (discovered.filterMap (named? name)) := by
  induction discovered with
  | nil => rfl
  | cons d rest ih =>
    have hrest := ih fun plural h => hkind plural (List.mem_cons_of_mem _ h)
    cases d with
    | resource s =>
      rw [withName?, hrest, List.filterMap_cons, named?, Option.map_some]
      split <;> rfl
    | collection => exact hrest
    | kindless plural =>
      rw [withName?, if_pos (hkind plural List.mem_cons_self)]
      exact hrest

/-! ### The order -/

theorem comesBefore_iff :
    ComesBefore r i s j ↔ rank r < rank s ∨ rank r = rank s ∧ i < j := by
  have hgroup : ∀ t : Resource, t.isCore = true ↔ t.group = some "" := by
    intro t
    simp [Resource.isCore]
  rw [ComesBefore, Ne, ← hgroup r, ← hgroup s, rank, rank]
  cases r.isCore <;> cases s.isCore <;> cases r.isPreferred <;> cases s.isPreferred <;> simp

theorem ComesBefore.asymm (h : ComesBefore r i s j) : ¬ComesBefore s j r i := by
  rw [comesBefore_iff] at h ⊢
  omega

/-- Whether a resource is the first one of those with the lowest rank. -/
def IsFirstLowest (rs : List Resource) (r : Resource) : Prop :=
  ∃ front back, rs = front ++ r :: back ∧ (∀ s ∈ front, rank r < rank s) ∧
    ∀ s ∈ back, rank r ≤ rank s

theorem IsFirstLowest.of_le {b : Resource} {rest : List Resource}
    (h : IsFirstLowest (b :: rest) r) (hle : rank b ≤ rank s) :
    IsFirstLowest (b :: s :: rest) r := by
  obtain ⟨_ | ⟨_, front⟩, back, hrest, hfront, hback⟩ := h
  · cases hrest
    exact ⟨[], s :: rest, rfl, by simp, List.forall_mem_cons.2 ⟨hle, hback⟩⟩
  · cases hrest
    obtain ⟨hb, hfront⟩ := List.forall_mem_cons.1 hfront
    refine ⟨b :: s :: front, back, rfl, ?_, hback⟩
    exact List.forall_mem_cons.2
      ⟨hb, List.forall_mem_cons.2 ⟨Nat.lt_of_lt_of_le hb hle, hfront⟩⟩

theorem IsFirstLowest.of_lt {b : Resource} {rest : List Resource}
    (h : IsFirstLowest (s :: rest) r) (hlt : rank s < rank b) :
    IsFirstLowest (b :: s :: rest) r := by
  obtain ⟨front, back, hrest, hfront, hback⟩ := h
  have hle : rank r ≤ rank s := by
    cases front with
    | nil =>
      cases hrest
      exact Nat.le_refl _
    | cons first front =>
      cases hrest
      exact Nat.le_of_lt (hfront s List.mem_cons_self)
  refine ⟨b :: front, back, by rw [hrest, List.cons_append], ?_, hback⟩
  exact List.forall_mem_cons.2 ⟨Nat.lt_of_le_of_lt hle hlt, hfront⟩

/-- Of the resources with the lowest rank, the first one is the best. -/
theorem isFirstLowest_of_best? (h : best? rs = some r) : IsFirstLowest rs r := by
  cases rs with
  | nil => cases h
  | cons b rest =>
    induction rest generalizing b with
    | nil =>
      cases h
      exact ⟨[], [], rfl, by simp, by simp⟩
    | cons s rest ih =>
      change best? ((if rank s < rank b then s else b) :: rest) = some r at h
      split at h
      · rename_i hlt
        exact (ih s h).of_lt hlt
      · rename_i hle
        exact (ih b h).of_le (Nat.not_lt.1 hle)

theorem best?_eq_none_iff : best? rs = none ↔ rs = [] := by
  cases rs <;> simp [best?]

/-! ### Finding -/

/-- The first candidate with the lowest rank comes before all other candidates. -/
theorem exists_candidate_of_isFirstLowest
    (h : IsFirstLowest (discovered.filterMap (named? (wanted kind))) r) :
    ∃ i, IsCandidate discovered kind i r ∧
      ∀ j s, IsCandidate discovered kind j s → j ≠ i → ComesBefore r i s j := by
  obtain ⟨front, back, hall, hfront, hback⟩ := h
  obtain ⟨before, rest, rfl, rfl, hrest⟩ := List.filterMap_eq_append_iff.1 hall
  obtain ⟨skipped, d, after, rfl, hskipped, hd, rfl⟩ := List.filterMap_eq_cons_iff.1 hrest
  obtain ⟨rfl, hcandidate⟩ := named?_eq_some_iff.1 hd
  refine ⟨(before ++ skipped).length, ⟨by simp, hcandidate⟩, ?_⟩
  rintro j s ⟨hs, hnamed⟩ hne
  have hsome : named? (wanted kind) (.resource s) = some s := named?_eq_some_iff.2 ⟨rfl, hnamed⟩
  rw [← List.append_assoc] at hs
  rw [comesBefore_iff]
  rcases Nat.lt_or_gt_of_ne hne with hlt | hlt
  · rw [List.getElem?_append_left hlt] at hs
    rcases List.mem_append.1 (List.mem_of_getElem? hs) with hmem | hmem
    · exact .inl (hfront s (List.mem_filterMap.2 ⟨_, hmem, hsome⟩))
    · cases (hskipped _ hmem).symm.trans hsome
  · obtain ⟨k, rfl⟩ := Nat.exists_eq_add_of_lt hlt
    rw [List.getElem?_append_right (by omega), Nat.add_assoc, Nat.add_sub_cancel_left,
      List.getElem?_cons_succ] at hs
    have hle := hback s (List.mem_filterMap.2 ⟨_, List.mem_of_getElem? hs, hsome⟩)
    omega

theorem find_cases {c : Cluster} (hdiscover : c.discover = .ok discovered)
    (hkind : ∀ plural, .kindless plural ∈ discovered → Resource.isPart plural = true)
    (kind : String) :
    (c.find kind = .error (.unknownKind kind) ∧ ∀ i r, ¬IsCandidate discovered kind i r) ∨
      ∃ i r, c.find kind = .ok r ∧ IsCandidate discovered kind i r ∧
        ∀ j s, IsCandidate discovered kind j s → j ≠ i → ComesBefore r i s j := by
  have hfound : withName? (wanted kind) discovered = some _ := withName?_eq hkind
  rw [find, hdiscover]
  dsimp only
  rw [← wanted, hfound]
  dsimp only
  split
  · rename_i hnone
    refine .inl ⟨rfl, ?_⟩
    rintro i r ⟨hr, hnamed⟩
    have hsome : named? (wanted kind) (.resource r) = some r :=
      named?_eq_some_iff.2 ⟨rfl, hnamed⟩
    have hmem := List.mem_filterMap.2 ⟨_, List.mem_of_getElem? hr, hsome⟩
    rw [best?_eq_none_iff.1 hnone] at hmem
    exact List.not_mem_nil hmem
  · rename_i r hbest
    obtain ⟨i, hi⟩ := exists_candidate_of_isFirstLowest (isFirstLowest_of_best? hbest)
    exact .inr ⟨i, r, rfl, hi⟩

/-! ### Texts that ask for the same -/

theorem wanted_congr {other : String} (h : Text.lowercase kind = Text.lowercase other) :
    wanted kind = wanted other := by
  rw [wanted, wanted, kindOf, kindOf, h]
  split
  · rfl
  · exact h

/-- Whether a text is a listed name of a kind, in any case. -/
def IsAlias (kind text : String) : Prop :=
  ∃ entry ∈ kindNames, entry.1 = kind ∧ ∃ name ∈ entry.2, Text.lowercase text = Text.lowercase name

theorem kindOf_of_mem : ∀ entry ∈ kindNames, ∀ name ∈ entry.2, kindOf name = entry.1 := by
  decide +kernel

theorem IsAlias.wanted_eq {text : String} (h : IsAlias kind text) :
    wanted text = Text.lowercase kind := by
  obtain ⟨entry, hentry, rfl, name, hname, hlower⟩ := h
  rw [wanted_congr hlower, wanted, kindOf_of_mem entry hentry name hname]

/-- A cluster finds the same resource for texts that ask for the same. -/
theorem find_eq_ok_iff_of_wanted {other : String} (h : wanted kind = wanted other) (c : Cluster) :
    c.find kind = .ok r ↔ c.find other = .ok r := by
  rw [find, find]
  cases c.discover with
  | error cause => simp
  | ok discovered =>
    dsimp only
    rw [← wanted, ← wanted, h]
    cases withName? (wanted other) discovered with
    | none => simp
    | some found =>
      dsimp only
      cases best? found <;> simp

end Cluster

open Cluster

/-- What is found is the candidate that comes before all others, and finding fails exactly if there is
no candidate. Texts with the same lower case form find the same resource in every cluster, and so do
names of the same kind. -/
theorem found_resource_comes_before_others (c : Cluster) (discovered : List Discovered)
    (hdiscover : c.discover = .ok discovered)
    (hkind : ∀ plural, .kindless plural ∈ discovered → Resource.isPart plural = true)
    (kind : String) :
    ((∃ cause, c.find kind = .error cause) ↔ ¬∃ i r, IsCandidate discovered kind i r) ∧
    (∀ r, c.find kind = .ok r ↔ ∃ i, IsCandidate discovered kind i r ∧
      ∀ j s, IsCandidate discovered kind j s → j ≠ i → ComesBefore r i s j) ∧
    ∀ other, (Text.lowercase kind = Text.lowercase other ∨ ∃ k, IsAlias k kind ∧ IsAlias k other) →
      ∀ (d : Cluster) r, d.find kind = .ok r ↔ d.find other = .ok r := by
  have hcases := find_cases hdiscover hkind kind
  refine ⟨?_, fun r => ⟨?_, ?_⟩, ?_⟩
  · obtain ⟨herror, hnone⟩ | ⟨i, r, hok, hcandidate, -⟩ := hcases
    · exact ⟨fun _ ⟨i, r, hr⟩ => hnone i r hr, fun _ => ⟨_, herror⟩⟩
    · refine ⟨?_, fun h => absurd ⟨i, r, hcandidate⟩ h⟩
      rintro ⟨cause, hcause⟩
      cases hcause.symm.trans hok
  · intro hr
    obtain ⟨herror, -⟩ | ⟨i, s, hok, hs⟩ := hcases
    · cases hr.symm.trans herror
    · cases hr.symm.trans hok
      exact ⟨i, hs⟩
  · rintro ⟨i, hr, hbefore⟩
    obtain ⟨-, hnone⟩ | ⟨j, s, hok, hs, hfirst⟩ := hcases
    · exact absurd hr (hnone i r)
    · -- of two candidates in different places, only one comes before the other
      have hplace : i = j := by
        by_contra hne
        exact (hfirst i r hr hne).asymm (hbefore j s hs (Ne.symm hne))
      subst hplace
      cases hr.1.symm.trans hs.1
      exact hok
  · rintro other (hsame | ⟨k, hkind, hother⟩) d r
    · exact find_eq_ok_iff_of_wanted (wanted_congr hsame) d
    · exact find_eq_ok_iff_of_wanted (hkind.wanted_eq.trans hother.wanted_eq.symm) d

/-- Events in the group without a name, in a version that is not preferred. -/
def coreEvents : Resource :=
  ⟨"b", "Event", some "events", some "event", [], some "", "v1", true, false⟩

/-- Another group of events, and a part without a kind, in front of these. -/
def listedEvents : List Discovered :=
  [.kindless (some "pods/status"),
    .resource ⟨"a", "Event", some "events", none, ["ev"], some "events.k8s.io", "v1", true, true⟩,
    .collection, .resource coreEvents]

/-- The group without a name is found for a short name, and for the plural as well. -/
theorem core_events_are_found :
    (∀ plural, .kindless plural ∈ listedEvents → Resource.isPart plural = true) ∧
    (∃ i, IsCandidate listedEvents "EV" i coreEvents ∧
      ∀ j s, IsCandidate listedEvents "EV" j s → j ≠ i → ComesBefore coreEvents i s j) ∧
    ∀ get, Cluster.find ⟨.ok listedEvents, get⟩ "EV" = .ok coreEvents ∧
      Cluster.find ⟨.ok listedEvents, get⟩ "Events" = .ok coreEvents := by
  have hparts : ∀ plural, .kindless plural ∈ listedEvents → Resource.isPart plural = true := by
    intro plural hplural
    simp only [listedEvents, List.mem_cons, Discovered.kindless.injEq, reduceCtorEq,
      List.not_mem_nil, or_false] at hplural
    rw [hplural]
    rfl
  have hfind : ∀ get, Cluster.find ⟨.ok listedEvents, get⟩ "EV" = .ok coreEvents := fun _ => rfl
  have hentry : ("Event", ["ev", "event", "events"]) ∈ kindNames := by decide
  have hsame : ∃ k, IsAlias k "EV" ∧ IsAlias k "Events" :=
    ⟨_, ⟨_, hentry, rfl, "ev", by decide, by decide +kernel⟩,
      ⟨_, hentry, rfl, "events", by decide, by decide +kernel⟩⟩
  have hall := fun get =>
    found_resource_comes_before_others ⟨.ok listedEvents, get⟩ _ rfl hparts "EV"
  refine ⟨hparts, ((hall fun _ => .error (.unanswered "")).2.1 _).1 (hfind _), fun get => ?_⟩
  exact ⟨hfind get, ((hall get).2.2 "Events" (.inr hsame) _ _).1 (hfind get)⟩

end Treeline
