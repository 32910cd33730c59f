import Treeline.Proofs.Path.LongIndex

/-!
# The grammar of path texts

A path text is spelled by tokens between dots, and a token by a name without brackets and index
literals in brackets behind it. Only the first token may go without a name, and then it needs an
index. Reading accepts what can be spelled and nothing else. The token that is blamed is the leftmost
one that cannot be spelled, and a token is blamed for its form before its name, and for its name
before what stands in its groups.
-/

namespace Treeline.Path

/-! ### Spelling -/

def IsBracketFree (cs : List Char) : Prop := '[' ∉ cs ∧ ']' ∉ cs

/-- A token is a name and groups in brackets behind it, whatever stands in them. -/
def IsFormed (token name : List Char) (groups : List (List Char)) : Prop :=
  token = name ++ groups.flatMap bracketed ∧ IsBracketFree name ∧
    ∀ group ∈ groups, IsBracketFree group

/-- An index as it is written: ASCII digits, with or without a minus sign before them. -/
structure Literal where
  isNegative : Bool
  digits : List Char
  isDigits : IsDigits digits

namespace Literal

def chars (l : Literal) : List Char := signedDigits l.isNegative l.digits

def value (l : Literal) : Int := signedValue l.isNegative l.digits

/-- Whether a literal is short enough to be read. Leading zeros count. -/
def IsShort (l : Literal) : Prop := l.digits.length ≤ Numeral.maxDigits

end Literal

/-- How a token is spelled. -/
structure Spelling where
  name : List Char
  literals : List Literal
  isBracketFree : IsBracketFree name

namespace Spelling

def chars (s : Spelling) : List Char := s.name ++ (s.literals.map Literal.chars).flatMap bracketed

/-- What a token stands for: a field if it has a name, and an index for each literal. -/
def segments (s : Spelling) : Path := fieldOf s.name ++ s.literals.map fun l => .index l.value

/-- Only the first token may be without a name, if it has an index. -/
def MayStand (s : Spelling) (isFirst : Bool) : Prop :=
  s.name = [] → isFirst = true ∧ s.literals ≠ []

end Spelling

/-- Tokens are spelled one by one. `isFirst` tells whether they stand at the beginning of a text. -/
inductive Spells : (isFirst : Bool) → List (List Char) → List Spelling → Prop
  | nil {isFirst : Bool} : Spells isFirst [] []
  | cons {isFirst : Bool} {s : Spelling} {tokens : List (List Char)} {spellings : List Spelling}
    (start : s.MayStand isFirst) (rest : Spells false tokens spellings) :
    Spells isFirst (s.chars :: tokens) (s :: spellings)

/-- The rule that a token breaks, where the rules count in this order. -/
inductive Blames (isFirst : Bool) (token : List Char) : Reason → Prop
  | unmatched (form : ∀ name groups, ¬IsFormed token name groups)
    (counts : token.count '[' ≠ token.count ']') : Blames isFirst token .unmatchedBracket
  | misplaced (form : ∀ name groups, ¬IsFormed token name groups)
    (counts : token.count '[' = token.count ']') : Blames isFirst token .misplacedBracket
  | emptyName {groups : List (List Char)} (form : IsFormed token [] groups)
    (start : isFirst = false ∨ groups = []) : Blames isFirst token .emptyName
  /-- The groups in front of the bad one hold literals. -/
  | notNumber {name group : List Char} {literals : List Literal} {after : List (List Char)}
    (form : IsFormed token name (literals.map Literal.chars ++ group :: after))
    (start : name = [] → isFirst = true) (bad : ∀ l : Literal, l.chars ≠ group) :
    Blames isFirst token (.notNumber (String.ofList group))

/-- The literals among the groups of a token are short. -/
def HasShortLiterals (token : List Char) : Prop :=
  ∀ name groups, IsFormed token name groups → ∀ l : Literal, l.chars ∈ groups → l.IsShort

/-- The literals of a text are short. -/
def HasShortIndices (text : String) : Prop :=
  ∀ token ∈ Text.split '.' text.toList, HasShortLiterals token

variable {isFirst : Bool} {token name group : List Char} {groups : List (List Char)}
  {segments : Path} {reason : Reason}

/-! ### Forms -/

theorem isBracketFree_iff {cs : List Char} : IsBracketFree cs ↔ ∀ c ∈ cs, isPlain c = true := by
  simp only [IsBracketFree, isPlain_iff]
  constructor
  · rintro ⟨hopening, hclosing⟩ c hc
    exact ⟨fun h => hopening (h ▸ hc), fun h => hclosing (h ▸ hc)⟩
  · intro h
    exact ⟨fun hmem => (h _ hmem).1 rfl, fun hmem => (h _ hmem).2 rfl⟩

theorem isFormed_iff : IsFormed token name groups ↔ token? token = some ⟨name, groups⟩ := by
  rw [token?_eq_some_iff, IsFormed]
  simp only [isBracketFree_iff]

theorem token?_eq_none_iff :
    token? token = none ↔ ∀ name groups, ¬IsFormed token name groups := by
  simp only [isFormed_iff]
  constructor
  · intro hnone name groups hsome
    cases hnone.symm.trans hsome
  · intro h
    cases htoken : token? token with
    | none => rfl
    | some found => exact absurd htoken (h found.name found.groups)

theorem Literal.isBracketFree_chars (l : Literal) : IsBracketFree l.chars := by
  have hdigits : ∀ c ∈ l.digits, isPlain c = true := by
    intro c hc
    rw [isPlain_iff]
    constructor <;> rintro rfl <;> exact absurd (l.isDigits.2 _ hc) (by decide)
  rw [isBracketFree_iff, chars, signedDigits]
  split
  · exact List.forall_mem_cons.2 ⟨rfl, hdigits⟩
  · exact hdigits

theorem Spelling.isFormed (s : Spelling) :
    IsFormed s.chars s.name (s.literals.map Literal.chars) := by
  refine ⟨rfl, s.isBracketFree, ?_⟩
  intro group hgroup
  obtain ⟨l, -, rfl⟩ := List.mem_map.1 hgroup
  exact l.isBracketFree_chars

/-! ### Groups -/

theorem readIndex_eq_ok_iff_literal {segment : Segment} :
    readIndex group = .ok segment ↔
      ∃ l : Literal, l.chars = group ∧ l.IsShort ∧ segment = .index l.value := by
  rw [readIndex_eq_ok_iff]
  constructor
  · rintro ⟨negative, digits, rfl, hdigits, hshort, rfl⟩
    exact ⟨⟨negative, digits, hdigits⟩, rfl, hshort, rfl⟩
  · rintro ⟨l, rfl, hshort, rfl⟩
    exact ⟨l.isNegative, l.digits, rfl, l.isDigits, hshort, rfl⟩

theorem readIndex_eq_reported_iff :
    readIndex group = .error (.reported reason) ↔
      (∀ l : Literal, l.chars ≠ group) ∧ reason = .notNumber (String.ofList group) := by
  rw [readIndex]
  cases hnumber : number? group with
  | none =>
    have hbad : ∀ l : Literal, l.chars ≠ group := by
      intro l hl
      cases hnumber.symm.trans (number?_eq_some_iff.2 ⟨hl.symm, l.isDigits⟩)
    simp [hbad, eq_comm]
  | some found =>
    -- the literal can be too long to be read, but that is not reported
    obtain ⟨hgroup, hdigits⟩ := number?_eq_some_iff.1 hnumber
    have hgood : ¬∀ l : Literal, l.chars ≠ group :=
      fun h => h ⟨found.1, found.2, hdigits⟩ hgroup.symm
    dsimp only
    split <;> simp [hgood]

theorem mapM_readIndex_eq_ok_iff :
    groups.mapM readIndex = .ok segments ↔
      ∃ literals : List Literal, literals.map Literal.chars = groups ∧
        (∀ l ∈ literals, l.IsShort) ∧ segments = literals.map fun l => .index l.value := by
  rw [mapM_eq_ok_iff]
  constructor
  · intro h
    induction h with
    | nil => exact ⟨[], rfl, by simp, rfl⟩
    | cons hgroup _ ih =>
      obtain ⟨l, rfl, hl, rfl⟩ := readIndex_eq_ok_iff_literal.1 hgroup
      obtain ⟨literals, rfl, hliterals, rfl⟩ := ih
      exact ⟨l :: literals, rfl, List.forall_mem_cons.2 ⟨hl, hliterals⟩, rfl⟩
  · rintro ⟨literals, rfl, hliterals, rfl⟩
    rw [List.forall₂_map_left_iff, List.forall₂_map_right_iff, List.forall₂_same]
    exact fun l hl => readIndex_eq_ok_iff_literal.2 ⟨l, rfl, hliterals l hl, rfl⟩

/-! ### Tokens -/

/-- A token that is accepted is spelled by what is read of it. -/
theorem exists_spelling_of_readToken (h : readToken isFirst token = .ok segments) :
    ∃ s : Spelling, s.chars = token ∧ s.MayStand isFirst ∧ segments = s.segments := by
  obtain ⟨name, groups, indices, htoken, hstart, hindices, rfl⟩ := readToken_eq_ok_iff.1 h
  obtain ⟨literals, rfl, -, rfl⟩ := mapM_readIndex_eq_ok_iff.1 (mapM_eq_ok_iff.2 hindices)
  obtain ⟨rfl, hname, -⟩ := isFormed_iff.2 htoken
  refine ⟨⟨name, literals, hname⟩, rfl, ?_, rfl⟩
  intro hempty
  exact ⟨(hstart hempty).1, fun h => (hstart hempty).2 (List.map_eq_nil_iff.2 h)⟩

/-- A token with short literals is accepted exactly if it can be spelled. -/
theorem readToken_eq_ok_iff_spelling (hshort : HasShortLiterals token) :
    readToken isFirst token = .ok segments ↔
      ∃ s : Spelling, s.chars = token ∧ s.MayStand isFirst ∧ segments = s.segments := by
  refine ⟨exists_spelling_of_readToken, ?_⟩
  rintro ⟨s, rfl, hstart, rfl⟩
  rw [readToken_eq_ok_iff]
  refine ⟨s.name, s.literals.map Literal.chars, _, isFormed_iff.1 s.isFormed, ?_, ?_, rfl⟩
  · intro hempty
    exact ⟨(hstart hempty).1, fun h => (hstart hempty).2 (List.map_eq_nil_iff.1 h)⟩
  · refine mapM_eq_ok_iff.1 (mapM_readIndex_eq_ok_iff.2 ⟨s.literals, rfl, ?_, rfl⟩)
    exact fun l hl => hshort _ _ s.isFormed l (List.mem_map_of_mem hl)

theorem blames_of_readToken (h : readToken isFirst token = .error (.reported reason)) :
    Blames isFirst token reason := by
  rw [readToken] at h
  split at h
  · rename_i hnone
    have hform := token?_eq_none_iff.1 hnone
    cases h
    split
    · exact .misplaced hform ‹_›
    · exact .unmatched hform ‹_›
  · rename_i name groups htoken
    have hform := isFormed_iff.2 htoken
    split at h
    · rename_i hname
      cases h
      rw [Bool.and_eq_true, Bool.or_eq_true, Bool.not_eq_true', List.isEmpty_iff,
        List.isEmpty_iff] at hname
      obtain ⟨rfl, hstart⟩ := hname
      exact .emptyName hform hstart
    · rename_i hname
      obtain h | ⟨_, -, ⟨⟩⟩ := bind_eq_error_iff.1 h
      -- the groups in front of the reported one have been read, so they hold literals
      obtain ⟨before, group, after, _, rfl, hbefore, hgroup⟩ := mapM_eq_error_iff.1 h
      obtain ⟨literals, rfl, -, -⟩ := mapM_readIndex_eq_ok_iff.1 hbefore
      obtain ⟨hbad, rfl⟩ := readIndex_eq_reported_iff.1 hgroup
      refine .notNumber hform ?_ hbad
      rintro rfl
      simpa using hname

theorem readToken_of_blames (hshort : HasShortLiterals token) (h : Blames isFirst token reason) :
    readToken isFirst token = .error (.reported reason) := by
  rw [readToken]
  cases h with
  | unmatched hform hcounts =>
    rw [token?_eq_none_iff.2 hform]
    dsimp only
    rw [if_neg hcounts]
  | misplaced hform hcounts =>
    rw [token?_eq_none_iff.2 hform]
    dsimp only
    rw [if_pos hcounts]
  | emptyName hform hstart =>
    rw [isFormed_iff.1 hform]
    dsimp only
    rw [if_pos (by simpa using hstart)]
  | @notNumber name group literals after hform hstart hbad =>
    have hliterals : ∀ l ∈ literals, l.IsShort := fun l hl =>
      hshort _ _ hform l (List.mem_append_left _ (List.mem_map_of_mem hl))
    have hfront := mapM_readIndex_eq_ok_iff.2 ⟨literals, rfl, hliterals, rfl⟩
    have hgroup := readIndex_eq_reported_iff.2 ⟨hbad, rfl⟩
    rw [isFormed_iff.1 hform]
    dsimp only
    rw [if_neg (by simpa using hstart)]
    exact bind_eq_error_iff.2 (.inl (mapM_eq_error_iff.2
      ⟨_, group, after, _, rfl, hfront, hgroup⟩))

/-- A token with short literals is reported exactly for the rule that it breaks. -/
theorem readToken_eq_reported_iff (hshort : HasShortLiterals token) :
    readToken isFirst token = .error (.reported reason) ↔ Blames isFirst token reason :=
  ⟨blames_of_readToken, readToken_of_blames hshort⟩

theorem Blames.not_spelled (hshort : HasShortLiterals token) (h : Blames isFirst token reason) :
    ¬∃ s : Spelling, s.chars = token ∧ s.MayStand isFirst := by
  rintro ⟨s, hs, hstart⟩
  have hok := (readToken_eq_ok_iff_spelling hshort).2 ⟨s, hs, hstart, rfl⟩
  cases hok.symm.trans ((readToken_eq_reported_iff hshort).2 h)

theorem readToken_ne_fault (hshort : HasShortLiterals token) {fault : Fault} :
    readToken isFirst token ≠ .error (.fault fault) := by
  intro h
  obtain ⟨digits, ⟨name, before, group, after, _, htoken, -, -, negative, numeral, rfl, hnumeral,
    rfl, hlong⟩, -⟩ := readToken_eq_fault_iff.1 h
  have hmem : signedDigits negative numeral ∈ before ++ signedDigits negative numeral :: after := by
    simp
  have hle := hshort name _ (isFormed_iff.2 htoken) ⟨negative, numeral, hnumeral⟩ hmem
  exact Nat.not_lt.2 hle hlong

/-! ### Texts -/

variable {text : String} {tokens : List (List Char)} {path : Path} {m : Malformed}

theorem exists_spells_of_readTokens (h : readTokens text isFirst tokens = .ok path) :
    ∃ spellings, Spells isFirst tokens spellings ∧ path = spellings.flatMap Spelling.segments := by
  induction tokens generalizing isFirst path with
  | nil =>
    cases h
    exact ⟨[], .nil, rfl⟩
  | cons token rest ih =>
    obtain ⟨segments, more, hsegments, hmore, rfl⟩ := readTokens_cons_eq_ok_iff.1 h
    obtain ⟨s, rfl, hstart, rfl⟩ := exists_spelling_of_readToken hsegments
    obtain ⟨spellings, hspells, rfl⟩ := ih hmore
    exact ⟨s :: spellings, .cons hstart hspells, rfl⟩

theorem readTokens_eq_ok_iff_spells (hshort : ∀ token ∈ tokens, HasShortLiterals token) :
    readTokens text isFirst tokens = .ok path ↔
      ∃ spellings, Spells isFirst tokens spellings ∧ path = spellings.flatMap Spelling.segments := by
  refine ⟨exists_spells_of_readTokens, ?_⟩
  rintro ⟨spellings, hspells, rfl⟩
  induction hspells with
  | nil => rfl
  | @cons isFirst s rest spellings hstart _ ih =>
    obtain ⟨htoken, hrest⟩ := List.forall_mem_cons.1 hshort
    exact readTokens_cons_eq_ok_iff.2 ⟨s.segments, _,
      (readToken_eq_ok_iff_spelling htoken).2 ⟨s, rfl, hstart, rfl⟩, ih hrest, rfl⟩

/-- What is reported about some tokens is about the first of them that breaks a rule. -/
theorem readTokens_eq_reported_iff (hshort : ∀ token ∈ tokens, HasShortLiterals token) :
    readTokens text isFirst tokens = .error (.reported m) ↔
      ∃ before token after spellings reason, tokens = before ++ token :: after ∧
        Spells isFirst before spellings ∧ Blames (isFirst && before.isEmpty) token reason ∧
        m = ⟨text, String.ofList token, reason⟩ := by
  induction tokens generalizing isFirst with
  | nil =>
    constructor
    · rintro ⟨⟩
    · rintro ⟨before, token, after, -, -, h, -⟩
      cases before <;> cases h
  | cons token rest ih =>
    obtain ⟨htoken, hrest⟩ := List.forall_mem_cons.1 hshort
    rw [readTokens]
    constructor
    · intro h
      split at h
      · rename_i stop hstop
        obtain ⟨reason, rfl, rfl⟩ := Stop.map_eq_reported_iff.1 (Except.error.inj h)
        refine ⟨[], token, rest, [], reason, rfl, .nil, ?_, rfl⟩
        rw [List.isEmpty_nil, Bool.and_true]
        exact (readToken_eq_reported_iff htoken).1 hstop
      · rename_i segments hsegments
        obtain ⟨s, rfl, hstart, -⟩ := exists_spelling_of_readToken hsegments
        obtain ⟨before, bad, after, spellings, reason, rfl, hspells, hblames, rfl⟩ :=
          (ih hrest).1 (map_eq_error_iff.1 h)
        refine ⟨s.chars :: before, bad, after, s :: spellings, reason, rfl, .cons hstart hspells,
          ?_, rfl⟩
        rw [List.isEmpty_cons, Bool.and_false]
        exact hblames
    · rintro ⟨_ | ⟨first, before⟩, bad, after, spellings, reason, ⟨⟩, hspells, hblames, rfl⟩
      · rw [List.isEmpty_nil, Bool.and_true] at hblames
        rw [(readToken_eq_reported_iff htoken).2 hblames]
        rfl
      · rw [List.isEmpty_cons, Bool.and_false] at hblames
        -- the first token is spelled, so the blame is on one behind it
        cases hspells with
        | @cons _ s _ spellings hstart hspells =>
          rw [(readToken_eq_ok_iff_spelling htoken).2 ⟨s, rfl, hstart, rfl⟩]
          exact map_eq_error_iff.2 ((ih hrest).2
            ⟨before, bad, after, spellings, reason, rfl, hspells, hblames, rfl⟩)

theorem parse_ne_fault (hshort : HasShortIndices text) {fault : Fault} :
    parse text ≠ .error (.fault fault) := by
  intro h
  obtain ⟨digits, ⟨before, token, after, _, htokens, -, hstops⟩, -⟩ := parse_eq_fault_iff.1 h
  have htoken : HasShortLiterals token := hshort token (by rw [htokens]; simp)
  exact readToken_ne_fault htoken (readToken_eq_fault_iff.2 ⟨digits, hstops, rfl⟩)

theorem hasShortIndices_of_length_le (hlength : text.toList.length ≤ Numeral.maxDigits) :
    HasShortIndices text := by
  rintro token htoken name groups ⟨rfl, -, -⟩ l hl
  have hdigits : l.digits.length ≤ l.chars.length := by
    rw [Literal.chars, signedDigits]
    split
    · exact Nat.le_succ _
    · exact Nat.le_refl _
  have hchars : (bracketed l.chars).length ≤ (groups.flatMap bracketed).length :=
    (List.sublist_flatten_of_mem (List.mem_map_of_mem hl)).length_le
  have hpart := Text.length_le_of_mem_split htoken
  simp only [bracketed, List.length_cons, List.length_append] at hchars hpart
  rw [Literal.IsShort]
  omega

theorem not_spells_empty (spellings : List Spelling) : ¬Spells true [[]] spellings := by
  generalize htokens : [([] : List Char)] = tokens
  rintro (_ | @⟨_, s, rest, spellings, hstart, -⟩)
  · cases htokens
  · obtain ⟨hchars, -⟩ := List.cons.inj htokens
    obtain ⟨hname, hliterals⟩ := List.append_eq_nil_iff.1 hchars.symm
    refine (hstart hname).2 ?_
    cases hs : s.literals with
    | nil => rfl
    | cons l more =>
      rw [hs] at hliterals
      cases hliterals

/-- Reading accepts exactly the texts that can be spelled, and returns what their tokens stand for.
Of any other text it reports the leftmost token that cannot be spelled and the first rule that this
token breaks. -/
theorem parse_accepts_spelled_texts (text : String) (hshort : HasShortIndices text) :
    (∀ path, parse text = .ok path ↔
      text = "" ∧ path = [] ∨
        ∃ spellings, Spells true (Text.split '.' text.toList) spellings ∧
          path = spellings.flatMap Spelling.segments) ∧
    (∀ m, parse text = .error (.reported m) ↔
      text ≠ "" ∧ ∃ before token after spellings reason,
        Text.split '.' text.toList = before ++ token :: after ∧ Spells true before spellings ∧
          (¬∃ s : Spelling, s.chars = token ∧ s.MayStand before.isEmpty) ∧
          Blames before.isEmpty token reason ∧ m = ⟨text, String.ofList token, reason⟩) ∧
    ((∃ path, parse text = .ok path) ∨ ∃ m, parse text = .error (.reported m)) ∧
    Reason.unmatchedBracket.message = "unmatched bracket" ∧
    Reason.misplacedBracket.message = "misplaced bracket" ∧
    Reason.emptyName.message = "empty field name" ∧
    ∀ group, (Reason.notNumber group).message = "non-numeric index [" ++ group ++ "]" := by
  refine ⟨fun path => ?_, fun m => ?_, ?_, rfl, rfl, rfl, fun group => rfl⟩
  · by_cases hempty : text = ""
    · subst hempty
      have hno : ¬∃ spellings, Spells true (Text.split '.' "".toList) spellings ∧
          path = spellings.flatMap Spelling.segments :=
        fun ⟨spellings, hspells, _⟩ => not_spells_empty spellings hspells
      have hparse : parse "" = .ok [] := rfl
      rw [or_iff_left hno, hparse, Except.ok.injEq]
      exact ⟨fun h => ⟨rfl, h.symm⟩, fun h => h.2.symm⟩
    · rw [parse, if_neg (by simpa using hempty), readTokens_eq_ok_iff_spells hshort]
      simp [hempty]
  · by_cases hempty : text = ""
    · subst hempty
      simp [parse]
    · rw [parse, if_neg (by simpa using hempty), readTokens_eq_reported_iff hshort]
      constructor
      · rintro ⟨before, token, after, spellings, reason, htokens, hspells, hblames, rfl⟩
        have htoken : HasShortLiterals token := hshort token (by rw [htokens]; simp)
        exact ⟨hempty, before, token, after, spellings, reason, htokens, hspells,
          hblames.not_spelled htoken, hblames, rfl⟩
      · rintro ⟨-, before, token, after, spellings, reason, htokens, hspells, -, hblames, rfl⟩
        exact ⟨before, token, after, spellings, reason, htokens, hspells, hblames, rfl⟩
  · cases hparse : parse text with
    | ok path => exact .inl ⟨path, rfl⟩
    | error stop =>
      cases stop with
      | reported m => exact .inr ⟨m, rfl⟩
      | fault f => exact absurd hparse (parse_ne_fault hshort)

/-- Leading zeros and a sign are read, and of two tokens with brackets in the wrong places the left
one is blamed. -/
theorem left_bracket_is_blamed :
    HasShortIndices "[00].a b[-07]" ∧ HasShortIndices "a[1].]b[.c[" ∧
    parse "[00].a b[-07]" = .ok [.index 0, .field "a b", .index (-7)] ∧
    parse "a[1].]b[.c[" = .error (.reported ⟨"a[1].]b[.c[", "]b[", .misplacedBracket⟩) := by
  have hgood : HasShortIndices "[00].a b[-07]" := hasShortIndices_of_length_le (by decide)
  have hbad : HasShortIndices "a[1].]b[.c[" := hasShortIndices_of_length_le (by decide)
  have hdigits : ∀ digits : List Char, (!digits.isEmpty && digits.all fun c => '0' ≤ c && c ≤ '9')
      = true → IsDigits digits := fun _ h => isDigits_iff.1 h
  have hfirst : Spelling.MayStand
      ⟨[], [⟨false, ['0', '0'], hdigits _ rfl⟩], by simp [IsBracketFree]⟩ true :=
    fun _ => ⟨rfl, List.cons_ne_nil _ _⟩
  have hsecond : Spelling.MayStand
      ⟨['a', ' ', 'b'], [⟨true, ['0', '7'], hdigits _ rfl⟩], by simp [IsBracketFree]⟩ false :=
    fun h => absurd h (List.cons_ne_nil _ _)
  have hfront : Spelling.MayStand
      ⟨['a'], [⟨false, ['1'], hdigits _ rfl⟩], by simp [IsBracketFree]⟩ true :=
    fun h => absurd h (List.cons_ne_nil _ _)
  refine ⟨hgood, hbad, ?_, ?_⟩
  · have htokens : Text.split '.' "[00].a b[-07]".toList =
        [['[', '0', '0', ']'], ['a', ' ', 'b', '[', '-', '0', '7', ']']] := by decide +kernel
    have hspells := Spells.cons hfirst (.cons hsecond .nil)
    exact ((parse_accepts_spelled_texts _ hgood).1 _).2 (.inr ⟨_, htokens ▸ hspells, rfl⟩)
  · have htoken : ∀ name groups, ¬IsFormed [']', 'b', '['] name groups :=
      token?_eq_none_iff.1 (by decide +kernel)
    refine ((parse_accepts_spelled_texts _ hbad).2.1 _).2 ⟨by decide, [['a', '[', '1', ']']],
      [']', 'b', '['], [['c', '[']], _, .misplacedBracket, by decide +kernel, .cons hfront .nil,
      ?_, .misplaced htoken (by decide), rfl⟩
    rintro ⟨s, hs, -⟩
    exact htoken _ _ (hs ▸ s.isFormed)

end Treeline.Path
