import Treeline.Proofs.Path.Joining
import Treeline.Proofs.Resolve.Refusal

/-!
# Indices with a minus sign

An index can be written with a minus sign. Reading keeps the integer that its literal stands for, and
no item stands at a negative position, so a path with such an index leads nowhere: following it stops
at that index if not before. Zero is the exception. It can be written with a sign as well, but the
integer does not show it, and so the first item is found.
-/

namespace Treeline

namespace Path

variable {cs name group after : List Char} {groups : List (List Char)} {isFirst : Bool}
  {segments path : Path} {l : Literal}

/-! ### What stands before an index -/

/-- The last group of a text begins behind every bracket that closes before its end. -/
theorem exists_of_append_eq_bracketed {front before last : List Char} (hlast : IsBracketFree last)
    (hafter : after ≠ []) (h : front ++ ']' :: after = before ++ bracketed last) :
    ∃ middle, before = front ++ ']' :: middle ∧ after = middle ++ bracketed last := by
  obtain ⟨m, hbefore, hm⟩ | ⟨m, hfront, hm⟩ := List.append_eq_append_iff.1 h
  · cases m with
    | nil => cases hm
    | cons c m =>
      obtain ⟨rfl, htail⟩ := List.cons.inj hm
      exact ⟨m, hbefore, htail⟩
  · cases m with
    | nil => cases hm
    | cons c m =>
      -- the bracket would stand inside the last group
      obtain ⟨tail, c', rfl⟩ := (List.eq_nil_or_concat' after).resolve_left hafter
      have hinside : last ++ [']'] = (m ++ ']' :: tail) ++ [c'] := by
        simpa using (List.cons.inj hm).2
      obtain ⟨rfl, -⟩ := List.append_inj' hinside rfl
      exact absurd (by simp) hlast.2

/-- A group inside a token is one of its groups, and what stands before it has the form of a token
with the groups up to there. -/
theorem exists_groups_of_isFormed (hgroup : IsBracketFree group)
    (h : IsFormed (cs ++ bracketed group ++ after) name groups) :
    ∃ front back, groups = front ++ group :: back ∧ IsFormed cs name front := by
  induction groups using List.reverseRecOn generalizing after with
  | nil =>
    -- a name has no brackets
    obtain ⟨hchars, hname, -⟩ := h
    rw [List.flatMap_nil, List.append_nil] at hchars
    exact absurd (by simp [← hchars, bracketed]) hname.1
  | append_singleton groups last ih =>
    by_cases hafter : after = []
    · rw [hafter, List.append_nil, isFormed_append_bracketed_iff hgroup] at h
      obtain ⟨front, hgroups, hform⟩ := h
      exact ⟨front, [], hgroups, hform⟩
    · obtain ⟨hchars, hname, hgroups⟩ := h
      rw [List.forall_mem_append, List.forall_mem_singleton] at hgroups
      rw [List.flatMap_append, List.flatMap_singleton, ← List.append_assoc] at hchars
      have hclosing : (cs ++ '[' :: group) ++ ']' :: after = cs ++ bracketed group ++ after := by
        simp [bracketed]
      obtain ⟨middle, hbefore, rfl⟩ :=
        exists_of_append_eq_bracketed hgroups.2 hafter (hclosing.trans hchars)
      have hform : IsFormed (cs ++ bracketed group ++ middle) name groups := by
        refine ⟨?_, hname, hgroups.1⟩
        rw [hbefore]
        simp [bracketed]
      obtain ⟨front, back, rfl, hfront⟩ := ih hform
      exact ⟨front, back ++ [last], by simp, hfront⟩

theorem readIndex_literal_eq_ok_iff {segment : Segment} :
    readIndex l.chars = .ok segment ↔ l.IsShort ∧ segment = .index l.value := by
  have hnumber : number? l.chars = some (l.isNegative, l.digits) :=
    number?_eq_some_iff.2 ⟨rfl, l.isDigits⟩
  rw [readIndex, hnumber, Literal.IsShort, ← Nat.not_lt]
  dsimp only
  split
  · rename_i hlong
    simp [hlong]
  · rename_i hshort
    rw [and_iff_right hshort, Except.ok.injEq, eq_comm]
    rfl

theorem exists_front_of_readToken
    (h : readToken isFirst (cs ++ bracketed l.chars ++ after) = .ok segments) :
    ∃ front rest, segments = front ++ .index l.value :: rest ∧
      (readToken isFirst cs = .ok front ∨ isFirst = true ∧ cs = [] ∧ front = []) := by
  obtain ⟨name, groups, indices, htoken, hstart, hindices, rfl⟩ := readToken_eq_ok_iff.1 h
  obtain ⟨before, back, rfl, hform⟩ :=
    exists_groups_of_isFormed l.isBracketFree_chars (isFormed_iff.2 htoken)
  obtain ⟨front, _, hfront, hrest, rfl⟩ := mapM_append_eq_ok_iff.1 (mapM_eq_ok_iff.2 hindices)
  obtain ⟨_, rest, hindex, -, rfl⟩ := mapM_cons_eq_ok_iff.1 hrest
  obtain ⟨-, rfl⟩ := readIndex_literal_eq_ok_iff.1 hindex
  refine ⟨fieldOf name ++ front, rest, (List.append_assoc _ _ _).symm, ?_⟩
  by_cases hempty : name = [] ∧ before = []
  · obtain ⟨rfl, rfl⟩ := hempty
    cases hfront
    exact .inr ⟨(hstart rfl).1, hform.1, rfl⟩
  · refine .inl (readToken_eq_ok_iff.2 ⟨name, before, front, isFormed_iff.1 hform, ?_,
      mapM_eq_ok_iff.1 hfront, rfl⟩)
    exact fun hname => ⟨(hstart hname).1, fun hbefore => hempty ⟨hname, hbefore⟩⟩

theorem exists_front_of_parse {before after : String}
    (h : parse (before ++ "[" ++ String.ofList l.chars ++ "]" ++ after) = .ok path) :
    ∃ front rest, parse before = .ok front ∧ path = front ++ .index l.value :: rest := by
  have hchars : (before ++ "[" ++ String.ofList l.chars ++ "]" ++ after).toList =
      before.toList ++ (bracketed l.chars ++ after.toList) := by
    simp [bracketed]
  obtain ⟨tokens, last, hbefore⟩ :=
    (List.eq_nil_or_concat' (Text.split '.' before.toList)).resolve_left (Text.split_ne_nil _)
  obtain ⟨first, more, hafter⟩ :=
    List.exists_cons_of_ne_nil (@Text.split_ne_nil '.' after.toList)
  have hindex : Text.split '.' (bracketed l.chars) = [] ++ [bracketed l.chars] :=
    Text.split_of_not_mem (dot_not_mem_bracketed l)
  have hsplit := Text.split_append_parts hbefore (Text.split_append_parts hindex hafter)
  rw [parse_eq_ok_iff (by simp), hchars, hsplit, readTokens_append_eq_ok_iff] at h
  obtain ⟨start, _, hstart, hrest, rfl⟩ := h
  obtain ⟨segments, behind, hsegments, -, rfl⟩ := readTokens_cons_eq_ok_iff.1 hrest
  rw [Bool.true_and, ← List.append_assoc] at hsegments
  obtain ⟨front, rest, rfl, hfront⟩ := exists_front_of_readToken hsegments
  refine ⟨start ++ front, rest ++ behind, ?_, by simp⟩
  exact (parse_eq_ok_iff_of_split hbefore).2 ⟨start, front, hstart, hfront, rfl⟩

/-- A literal with a minus sign stands for a negative integer unless all of its digits are zeros. -/
theorem Literal.value_neg (hsign : l.isNegative = true) (hdigit : ∃ c ∈ l.digits, c ≠ '0') :
    l.value < 0 := by
  obtain ⟨c, hc, hne⟩ := hdigit
  have hvalue : Numeral.value l.digits ≠ 0 :=
    fun hzero => hne ((Numeral.value_eq_zero_iff l.isDigits.2).1 hzero c hc)
  rw [Literal.value, signedValue, if_pos hsign]
  omega

theorem Literal.value_eq_zero (hdigits : ∀ c ∈ l.digits, c = '0') : l.value = 0 := by
  have hvalue := (Numeral.value_eq_zero_iff l.isDigits.2).2 hdigits
  rw [Literal.value, signedValue, hvalue]
  split <;> rfl

end Path

namespace Tree

variable {root : Tree} {front rest : Path}

/-! ### Negative positions -/

theorem child?_index_of_neg {position : Int} (hneg : position < 0) (node : Tree) :
    node.child? (.index position) = none := by
  cases node with
  | scalar text => rfl
  | sequence items => exact child?_sequence_eq_none_iff.2 (.inl hneg)
  | mapping entries => rfl

/-- A segment that no node accepts is refused, or one before it is. -/
theorem exists_resolved_prefix_of_child? {segment : Segment}
    (hnone : ∀ node : Tree, node.child? segment = none)
    (hwritable : Path.isWritable (front ++ segment :: rest) = true) :
    ∃ e, root.resolve (front ++ segment :: rest) = .error (.reported e) ∧ e.resolved <+: front := by
  have hnever : ∀ more n, root.resolve (front ++ segment :: more) ≠ .ok n := by
    intro more n hn
    obtain ⟨node, hnode⟩ := exists_resolve_of_prefix (List.prefix_append front _) hn
    exact resolve_ne_ok_of_child? hnode (hnone node) hn
  obtain ⟨n, hn⟩ | ⟨e, he⟩ := resolve_cases root hwritable
  · exact absurd hn (hnever rest n)
  · refine ⟨e, he, ?_⟩
    obtain ⟨node, refused, behind, hpath, hnode, -⟩ := (resolve_eq_reported_iff hwritable).1 he
    obtain ⟨more, hresolved, hmore⟩ | ⟨more, hfront, -⟩ := List.append_eq_append_iff.1 hpath
    · cases more with
      | nil => exact ⟨[], by rw [hresolved, List.append_nil, List.append_nil]⟩
      | cons first more =>
        -- what was resolved would go on with the segment
        obtain ⟨rfl, -⟩ := List.cons.inj hmore
        rw [hresolved] at hnode
        exact absurd hnode (hnever more node)
    · exact ⟨more, hfront.symm⟩

end Tree

/-- A text with an index behind a minus sign, one of whose digits is not zero, leads nowhere in any
tree: following its path is reported at that index, if not before, and where a sequence stands in
front of the index, the index is what is refused. A zero is found like one without a sign. -/
theorem signed_index_is_refused_unless_zero (root : Tree) (before after : String)
    (l : Path.Literal) (path : Path) (hsign : l.isNegative = true)
    (hparse : Path.parse (before ++ "[" ++ String.ofList l.chars ++ "]" ++ after) = .ok path) :
    ∃ front rest, Path.parse before = .ok front ∧ path = front ++ .index l.value :: rest ∧
      ((∃ c ∈ l.digits, c ≠ '0') →
        (∃ e, root.resolve path = .error (.reported e) ∧ e.resolved <+: front) ∧
        ∀ items, root.resolve front = .ok (.sequence items) →
          root.resolve path = .error (.reported (.index l.value (some items.length) front))) ∧
      ((∀ c ∈ l.digits, c = '0') →
        ∀ first items, root.resolve front = .ok (.sequence (first :: items)) →
          root.resolve (front ++ [.index l.value]) = .ok first) := by
  obtain ⟨front, rest, hfront, rfl⟩ := Path.exists_front_of_parse hparse
  have hwritable := (Path.forall_isReadable_iff.1 (Path.isReadable_of_parse hparse)).1
  refine ⟨front, rest, hfront, rfl, ?_, ?_⟩
  · intro hdigit
    have hneg := Path.Literal.value_neg hsign hdigit
    refine ⟨Tree.exists_resolved_prefix_of_child? (Tree.child?_index_of_neg hneg) hwritable, ?_⟩
    intro items hitems
    exact (Tree.resolve_eq_reported_iff hwritable).2
      ⟨.sequence items, _, rest, rfl, hitems, .outside rfl (.inl hneg)⟩
  · intro hdigits first items hitems
    rw [Path.Literal.value_eq_zero hdigits, Tree.resolve_eq_ok_iff, Tree.descend?_append,
      Tree.resolve_eq_ok_iff.1 hitems]
    rfl

/-- A sequence of a scalar and a sequence. -/
def listInList : Tree :=
  .mapping [("a", .sequence [.scalar "x", .sequence [.scalar "y", .scalar "z"]])]

/-- The digits decide: with a sign, one is refused and zero is the first item. -/
theorem one_is_refused_and_zero_is_found :
    Path.parse ("a[1]" ++ "[" ++ "-01" ++ "]" ++ ".b") =
      .ok [.field "a", .index 1, .index (-1), .field "b"] ∧
    listInList.resolve [.field "a", .index 1, .index (-1), .field "b"] =
      .error (.reported (.index (-1) (some 2) [.field "a", .index 1])) ∧
    Path.parse ("a" ++ "[" ++ "-00" ++ "]" ++ "") = .ok [.field "a", .index 0] ∧
    listInList.resolve [.field "a", .index 0] = .ok (.scalar "x") := by
  have hone : Path.parse ("a[1]" ++ "[" ++ "-01" ++ "]" ++ ".b") =
      .ok [.field "a", .index 1, .index (-1), .field "b"] := by decide +kernel
  have hzero : Path.parse ("a" ++ "[" ++ "-00" ++ "]" ++ "") = .ok [.field "a", .index 0] := by
    decide +kernel
  refine ⟨hone, ?_, hzero, ?_⟩
  · obtain ⟨front, rest, hfront, -, hrefused, -⟩ := signed_index_is_refused_unless_zero listInList
      "a[1]" ".b" ⟨true, ['0', '1'], Path.isDigits_iff.1 rfl⟩ _ rfl hone
    have hparse : Path.parse "a[1]" = .ok [.field "a", .index 1] := by decide +kernel
    cases hfront.symm.trans hparse
    exact (hrefused ⟨'1', by decide, by decide⟩).2 [.scalar "y", .scalar "z"] rfl
  · obtain ⟨front, rest, hfront, -, -, hfound⟩ := signed_index_is_refused_unless_zero listInList
      "a" "" ⟨true, ['0', '0'], Path.isDigits_iff.1 rfl⟩ _ rfl hzero
    have hparse : Path.parse "a" = .ok [.field "a"] := by decide +kernel
    cases hfront.symm.trans hparse
    exact hfound (by simp) (.scalar "x") _ rfl

end Treeline
