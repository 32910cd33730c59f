import Treeline.Proofs.Path.Grammar

/-!
# Joined paths and joined texts

The text of two paths one behind the other is the text of the one and that of the other. A dot stands
between them if the second path begins with a field and there is something before it. Reading goes
the other way: a text in front of a dot and the text behind it are read on their own, and so is a
text in front of an index. A token is read differently at the beginning of a text, where brackets may
stand without a name, so a text that begins with a bracket cannot stand behind a dot. The empty text
has no segments, and an index can be attached to it as to any other text.
-/

namespace Treeline.Path

/-! ### The text of joined paths -/

def beginsWithField : Path → Bool
  | .field _ :: _ => true
  | _ => false

/-- What stands between the text of a path and that of a path behind it. -/
def glue (front back : Path) : String :=
  if !front.isEmpty && back.beginsWithField then "." else ""

theorem continued_eq_glue (segment : Segment) (front back : Path) :
    continued back = (glue (segment :: front) back).toList ++ back.chars := by
  rcases back with _ | ⟨name | i, rest⟩
  · rfl
  · simp [continued_cons, segmentText, glue, beginsWithField, chars]
  · rfl

theorem chars_cons_append (segment : Segment) (front back : Path) :
    chars (segment :: front ++ back) = chars (segment :: front) ++ continued back := by
  cases segment with
  | field name => rw [List.cons_append, chars, chars, continued_append, List.append_assoc]
  | index i => exact continued_append (.index i :: front) back

theorem text_append (front back : Path) :
    (front ++ back).text = front.text ++ glue front back ++ back.text := by
  rw [← String.toList_inj]
  simp only [text, String.toList_append, String.toList_ofList]
  cases front with
  | nil => rfl
  | cons segment front =>
    rw [chars_cons_append, continued_eq_glue segment front, List.append_assoc]

theorem isWritable_append (front back : Path) :
    (front ++ back).isWritable = (front.isWritable && back.isWritable) := List.all_append

theorem render_append (front back : Path) (hfront : front.isWritable = true)
    (hback : back.isWritable = true) :
    ∃ before behind, front.render = .ok before ∧ back.render = .ok behind ∧
      (front ++ back).render = .ok (before ++ glue front back ++ behind) := by
  refine ⟨_, _, render_eq_ok hfront, render_eq_ok hback, ?_⟩
  rw [render_eq_ok (by rw [isWritable_append, hfront, hback]; rfl), text_append]

/-! ### Tokens behind a dot -/

variable {cs name group : List Char} {groups : List (List Char)} {isFirst : Bool}
  {segments path : Path}

/-- Behind a dot, a token is read as at the beginning unless it begins with a bracket. -/
theorem readToken_false_eq_ok_iff :
    readToken false cs = .ok segments ↔
      readToken true cs = .ok segments ∧ cs.head? ≠ some '[' := by
  simp only [readToken_eq_ok_iff]
  constructor
  · rintro ⟨name, groups, indices, htoken, hstart, hindices, rfl⟩
    have hname : name ≠ [] := fun hempty => Bool.noConfusion (hstart hempty).1
    refine ⟨⟨name, groups, indices, htoken, fun hempty => absurd hempty hname, hindices, rfl⟩, ?_⟩
    obtain ⟨rfl, hplain, -⟩ := token?_eq_some_iff.1 htoken
    rw [List.head?_append_of_ne_nil _ hname]
    intro hhead
    exact (isPlain_iff.1 (hplain _ (List.mem_of_mem_head? hhead))).1 rfl
  · rintro ⟨⟨name, groups, indices, htoken, hstart, hindices, rfl⟩, hhead⟩
    refine ⟨name, groups, indices, htoken, fun hempty => absurd ?_ hhead, hindices, rfl⟩
    obtain ⟨rfl, -, -⟩ := token?_eq_some_iff.1 htoken
    obtain ⟨group, more, rfl⟩ := List.exists_cons_of_ne_nil (hstart hempty).2
    rw [hempty]
    rfl

/-! ### A group behind a token -/

/-- What stands in the last group of a text is what stands behind its last opening bracket. -/
theorem append_bracketed_inj {before other inside : List Char} (hgroup : IsBracketFree group)
    (hinside : IsBracketFree inside) (h : before ++ bracketed group = other ++ bracketed inside) :
    before = other ∧ group = inside := by
  have hreversed : group.reverse ++ '[' :: before.reverse =
      inside.reverse ++ '[' :: other.reverse := by
    simpa [bracketed] using congrArg List.reverse h
  have hplain : ∀ {last : List Char}, IsBracketFree last →
      ∀ c ∈ last.reverse, isPlain c = true := by
    intro last hlast c hc
    exact isBracketFree_iff.1 hlast c (List.mem_reverse.1 hc)
  have hbracket : ∀ (front : List Char) c, ('[' :: front).head? = some c → isPlain c = false := by
    rintro front c ⟨⟩
    rfl
  obtain ⟨hgroups, hfronts⟩ := (append_inj_of_isPlain (hplain hgroup) (hplain hinside)
    (hbracket _) (hbracket _)).1 hreversed
  exact ⟨List.reverse_injective (List.cons.inj hfronts).2, List.reverse_injective hgroups⟩

theorem isFormed_append_bracketed_iff (hgroup : IsBracketFree group) :
    IsFormed (cs ++ bracketed group) name groups ↔
      ∃ front, groups = front ++ [group] ∧ IsFormed cs name front := by
  constructor
  · rintro ⟨hchars, hname, hgroups⟩
    rcases List.eq_nil_or_concat' groups with rfl | ⟨front, last, rfl⟩
    · -- a name has no brackets
      rw [List.flatMap_nil, List.append_nil] at hchars
      exact absurd (by simp [← hchars, bracketed]) hname.1
    · rw [List.forall_mem_append, List.forall_mem_singleton] at hgroups
      rw [List.flatMap_append, List.flatMap_singleton, ← List.append_assoc] at hchars
      obtain ⟨rfl, rfl⟩ := append_bracketed_inj hgroup hgroups.2 hchars
      exact ⟨front, rfl, rfl, hname, hgroups.1⟩
  · rintro ⟨front, rfl, rfl, hname, hfront⟩
    refine ⟨?_, hname, ?_⟩
    · rw [List.flatMap_append, List.flatMap_singleton, List.append_assoc]
    · rw [List.forall_mem_append, List.forall_mem_singleton]
      exact ⟨hfront, hgroup⟩

/-- An index behind a token is read as one more segment. A token can begin with it only at the
beginning of a text. -/
theorem readToken_append_bracketed_eq_ok_iff {l : Literal} (hshort : l.IsShort) :
    readToken isFirst (cs ++ bracketed l.chars) = .ok segments ↔
      ∃ front, segments = front ++ [.index l.value] ∧
        (readToken isFirst cs = .ok front ∨ isFirst = true ∧ cs = [] ∧ front = []) := by
  have hindex : ∀ segment, readIndex l.chars = .ok segment ↔ segment = .index l.value := by
    intro segment
    have hl := readIndex_eq_ok_iff_literal.2 ⟨l, rfl, hshort, rfl⟩
    rw [hl, Except.ok.injEq, eq_comm]
  simp only [readToken_eq_ok_iff, ← isFormed_iff, ← mapM_eq_ok_iff,
    isFormed_append_bracketed_iff l.isBracketFree_chars]
  constructor
  · rintro ⟨name, _, _, ⟨groups, rfl, hform⟩, hstart, hall, rfl⟩
    obtain ⟨indices, _, hindices, hlast, rfl⟩ := mapM_concat_eq_ok_iff.1 hall
    obtain rfl := (hindex _).1 hlast
    refine ⟨fieldOf name ++ indices, (List.append_assoc _ _ _).symm, ?_⟩
    by_cases hempty : name = [] ∧ groups = []
    · obtain ⟨rfl, rfl⟩ := hempty
      cases hindices
      exact .inr ⟨(hstart rfl).1, hform.1, rfl⟩
    · refine .inl ⟨name, groups, indices, hform, fun hname => ?_, hindices, rfl⟩
      exact ⟨(hstart hname).1, fun hgroups => hempty ⟨hname, hgroups⟩⟩
  · rintro ⟨front, rfl, ⟨name, groups, indices, hform, hstart, hindices, rfl⟩ | ⟨rfl, rfl, rfl⟩⟩
    · refine ⟨name, _, indices ++ [.index l.value], ⟨groups, rfl, hform⟩, fun hname => ?_,
        mapM_concat_eq_ok_iff.2 ⟨indices, _, hindices, (hindex _).2 rfl, rfl⟩,
        List.append_assoc _ _ _⟩
      exact ⟨(hstart hname).1, by simp⟩
    · refine ⟨[], _, [.index l.value], ⟨[], rfl, rfl, by simp [IsBracketFree], by simp⟩,
        fun _ => ⟨rfl, by simp⟩,
        mapM_concat_eq_ok_iff.2 ⟨[], _, rfl, (hindex _).2 rfl, rfl⟩, rfl⟩

/-! ### Texts -/

theorem parse_eq_ok_iff {text : String} (hne : text ≠ "") :
    parse text = .ok path ↔ readTokens "" true (Text.split '.' text.toList) = .ok path := by
  rw [parse, if_neg (by simpa using hne), readTokens_eq_ok_iff_of_text]

theorem head?_eq_bracket_iff {first : List Char} {rest : List (List Char)}
    (h : Text.split '.' cs = first :: rest) : first.head? = some '[' ↔ cs.head? = some '[' := by
  rw [Text.eq_of_split h]
  cases first with
  | cons c more => rfl
  | nil => cases rest <;> simp

theorem readTokens_split_false_eq_ok_iff {text : String} :
    readTokens text false (Text.split '.' cs) = .ok path ↔
      readTokens text true (Text.split '.' cs) = .ok path ∧ cs.head? ≠ some '[' := by
  obtain ⟨first, rest, hsplit⟩ := List.exists_cons_of_ne_nil (@Text.split_ne_nil '.' cs)
  rw [hsplit, Ne, ← head?_eq_bracket_iff hsplit]
  simp only [readTokens_cons_eq_ok_iff, readToken_false_eq_ok_iff]
  constructor
  · rintro ⟨segments, more, ⟨hsegments, hhead⟩, hmore, rfl⟩
    exact ⟨⟨segments, more, hsegments, hmore, rfl⟩, hhead⟩
  · rintro ⟨⟨segments, more, hsegments, hmore, rfl⟩, hhead⟩
    exact ⟨segments, more, ⟨hsegments, hhead⟩, hmore, rfl⟩

theorem parse_append_dot_eq_ok_iff {t u : String} (ht : t ≠ "") (hu : u ≠ "") :
    parse (t ++ "." ++ u) = .ok path ↔
      ∃ front back, parse t = .ok front ∧ parse u = .ok back ∧ u.toList.head? ≠ some '[' ∧
        path = front ++ back := by
  have hchars : (t ++ "." ++ u).toList = t.toList ++ '.' :: u.toList := by simp
  have htokens : (Text.split '.' t.toList).isEmpty = false := by
    rw [List.isEmpty_eq_false_iff]
    exact Text.split_ne_nil _
  rw [parse_eq_ok_iff (by simp), hchars, Text.split_append, readTokens_append_eq_ok_iff, htokens,
    Bool.and_false]
  simp only [readTokens_split_false_eq_ok_iff, parse_eq_ok_iff ht, parse_eq_ok_iff hu, and_assoc]

theorem dot_not_mem_bracketed (l : Literal) : '.' ∉ bracketed l.chars := by
  have hdigits : '.' ∉ l.digits := fun hmem => absurd (l.isDigits.2 _ hmem) (by decide)
  rw [bracketed, Literal.chars, signedDigits]
  split <;> simp [hdigits]

/-- The empty text is read as if its only token were allowed to be empty. -/
theorem parse_eq_ok_iff_of_split {text : String} {before : List (List Char)} {last : List Char}
    (hsplit : Text.split '.' text.toList = before ++ [last]) :
    parse text = .ok path ↔
      ∃ front segments, readTokens "" true before = .ok front ∧
        (readToken before.isEmpty last = .ok segments ∨
          before.isEmpty = true ∧ last = [] ∧ segments = []) ∧ path = front ++ segments := by
  by_cases hne : text = ""
  · subst hne
    have hparts : [] ++ [[]] = before ++ [last] := hsplit
    obtain ⟨rfl, hlast⟩ := List.append_inj' hparts rfl
    cases hlast
    have hempty : ∀ segments, readToken true [] ≠ .ok segments := by
      intro segments h
      have htokens : readTokens "" true [[]] = .ok segments := readTokens_singleton_eq_ok_iff.2 h
      obtain ⟨spellings, hspells, -⟩ := exists_spells_of_readTokens htokens
      exact not_spells_empty spellings hspells
    have hparse : parse "" = .ok [] := rfl
    simp [hparse, hempty, readTokens, eq_comm]
  · have hlast : ¬(before.isEmpty = true ∧ last = []) := by
      rintro ⟨hbefore, rfl⟩
      rw [List.isEmpty_iff.1 hbefore] at hsplit
      exact hne (String.toList_eq_nil_iff.1 (Text.eq_of_split hsplit))
    rw [parse_eq_ok_iff hne, hsplit, readTokens_append_eq_ok_iff, Bool.true_and]
    have hdisjunct : ∀ segments : Path, ¬(before.isEmpty = true ∧ last = [] ∧ segments = []) :=
      fun segments h => hlast ⟨h.1, h.2.1⟩
    simp only [readTokens_singleton_eq_ok_iff, hdisjunct, or_false]

theorem parse_append_index_eq_ok_iff {t : String} {l : Literal} (hshort : l.IsShort) :
    parse (t ++ "[" ++ String.ofList l.chars ++ "]") = .ok path ↔
      ∃ front, parse t = .ok front ∧ path = front ++ [.index l.value] := by
  have hchars : (t ++ "[" ++ String.ofList l.chars ++ "]").toList =
      t.toList ++ bracketed l.chars := by
    simp [bracketed]
  obtain ⟨before, last, hsplit, hmore⟩ := @Text.exists_last_part '.' t.toList
  have hindexed := hmore _ (dot_not_mem_bracketed l)
  rw [← hchars] at hindexed
  rw [parse_eq_ok_iff_of_split hindexed]
  simp only [parse_eq_ok_iff_of_split hsplit, readToken_append_bracketed_eq_ok_iff hshort]
  constructor
  · rintro ⟨front, _, hfront, ⟨segments, rfl, hsegments⟩ | ⟨-, hlast, -⟩, rfl⟩
    · exact ⟨_, ⟨front, segments, hfront, hsegments, rfl⟩, (List.append_assoc _ _ _).symm⟩
    · simp [bracketed] at hlast
  · rintro ⟨_, ⟨front, segments, hfront, hsegments, rfl⟩, rfl⟩
    exact ⟨front, _, hfront, .inl ⟨segments, rfl, hsegments⟩, List.append_assoc _ _ _⟩

/-- Two texts with a dot between them are read exactly if both are read and the second one does not
begin with a bracket, and an index can be attached to whatever is read, the empty text included. What
is returned is what the parts return, one behind the other. -/
theorem joined_texts_parse_together (t u : String) (l : Literal) :
    (t ≠ "" → u ≠ "" → ∀ path, parse (t ++ "." ++ u) = .ok path ↔
      ∃ front back, parse t = .ok front ∧ parse u = .ok back ∧ u.toList.head? ≠ some '[' ∧
        path = front ++ back) ∧
    (l.IsShort → ∀ path, parse (t ++ "[" ++ String.ofList l.chars ++ "]") = .ok path ↔
      ∃ front, parse t = .ok front ∧ path = front ++ [.index l.value]) :=
  ⟨fun ht hu _ => parse_append_dot_eq_ok_iff ht hu,
    fun hshort _ => parse_append_index_eq_ok_iff hshort⟩

/-- A text that begins with an index stands in front of a dot and not behind it, and an index is a
text of its own. -/
theorem leading_index_stands_in_front :
    ("[0].a" ≠ "" ∧ "b" ≠ "" ∧
      parse ("[0].a" ++ "." ++ "b") = .ok [.index 0, .field "a", .field "b"] ∧
      ∀ path, parse ("b" ++ "." ++ "[0].a") ≠ .ok path) ∧
    ∃ l : Literal, l.chars = ['-', '0', '1'] ∧ l.IsShort ∧
      parse ("" ++ "[" ++ String.ofList l.chars ++ "]") = .ok [.index (-1)] ∧
      parse ("b" ++ "[" ++ String.ofList l.chars ++ "]") = .ok [.field "b", .index (-1)] := by
  have hindex : parse "[0].a" = .ok [.index 0, .field "a"] := by decide +kernel
  have hfield : parse "b" = .ok [.field "b"] := by decide +kernel
  obtain ⟨l, hchars, hshort, hvalue⟩ :
      ∃ l : Literal, l.chars = ['-', '0', '1'] ∧ l.IsShort ∧ l.value = -1 :=
    ⟨⟨true, ['0', '1'], isDigits_iff.1 rfl⟩, rfl, show 2 ≤ Numeral.maxDigits by decide, rfl⟩
  refine ⟨⟨by decide, by decide, ?_, ?_⟩, l, hchars, hshort, ?_, ?_⟩
  · exact ((joined_texts_parse_together "[0].a" "b" l).1 (by decide) (by decide) _).2
      ⟨_, _, hindex, hfield, by decide, rfl⟩
  · intro path hpath
    obtain ⟨front, back, -, -, hhead, -⟩ :=
      ((joined_texts_parse_together "b" "[0].a" l).1 (by decide) (by decide) path).1 hpath
    exact hhead (by decide)
  · exact ((joined_texts_parse_together "" "" l).2 hshort _).2 ⟨[], rfl, by rw [hvalue]; rfl⟩
  · exact ((joined_texts_parse_together "b" "" l).2 hshort _).2
      ⟨_, hfield, by rw [hvalue]; rfl⟩

end Treeline.Path
