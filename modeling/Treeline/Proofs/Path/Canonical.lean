import Treeline.Proofs.Path.Grammar

/-!
# The canonical form of a path text

A path text leaves one choice to its author: an index can be written with zeros in front of it, and
zero with a sign. Reading forgets this and nothing else, so a path that was read is written as its
text with the canonical literal in place of each literal. Two texts stand for the same path exactly
if their canonical forms are equal. The canonical form is defined on the characters of a text, by
what stands in its brackets, and not through the path.
-/

namespace Treeline.Path

/-- Digits without the zeros that stand in front of other digits. -/
def dropLeadingZeros : List Char → List Char
  | '0' :: digit :: rest => dropLeadingZeros (digit :: rest)
  | digits => digits

/-- An index literal without leading zeros, and without a sign in front of zero. -/
def canonicalLiteral : List Char → List Char
  | '-' :: digits =>
    if dropLeadingZeros digits = ['0'] then ['0'] else '-' :: dropLeadingZeros digits
  | digits => dropLeadingZeros digits

/-- A literal whose digits begin with a zero is the literal of zero itself. -/
def Literal.IsCanonical (l : Literal) : Prop :=
  l.digits.head? = some '0' → l.isNegative = false ∧ l.digits = ['0']

/-- What stands behind each opening bracket of a text, up to the next bracket. -/
def groupTexts : List Char → List (List Char)
  | [] => []
  | c :: rest => if c = '[' then rest.takeWhile isPlain :: groupTexts rest else groupTexts rest

/-- A text whose index literals are replaced by their canonical forms. All else stays as it is. -/
def canonicalChars : List Char → List Char
  | [] => []
  | c :: rest =>
    if c = '[' then
      '[' :: (canonicalLiteral (rest.takeWhile isPlain) ++ canonicalChars (rest.dropWhile isPlain))
    else c :: canonicalChars rest
termination_by cs => cs.length
decreasing_by
  · exact Nat.lt_succ_of_le (List.dropWhile_sublist isPlain).length_le
  · exact Nat.lt_succ_self _

/-- The canonical form of a path text. -/
def canonicalForm (text : String) : String := String.ofList (canonicalChars text.toList)

/-! ### Literals -/

theorem dropLeadingZeros_suffix (digits : List Char) : dropLeadingZeros digits <:+ digits := by
  fun_induction dropLeadingZeros digits with
  | case1 digit rest ih => exact ih.trans (List.suffix_cons _ _)
  | case2 digits h => exact List.suffix_rfl

theorem dropLeadingZeros_eq_self_iff {digits : List Char} :
    dropLeadingZeros digits = digits ↔ (digits.head? = some '0' → digits = ['0']) := by
  constructor
  · intro h hhead
    obtain ⟨rest, rfl⟩ := List.head?_eq_some_iff.1 hhead
    cases rest with
    | nil => rfl
    | cons digit rest =>
      -- a zero in front of a digit is dropped, so what is left is shorter
      have hle := (dropLeadingZeros_suffix (digit :: rest)).length_le
      rw [← dropLeadingZeros, h] at hle
      exact absurd hle (Nat.not_succ_le_self _)
  · intro h
    rw [dropLeadingZeros.eq_2]
    rintro digit rest rfl
    cases h rfl

theorem dropLeadingZeros_eq {digits : List Char} (hdigits : IsDigits digits) :
    dropLeadingZeros digits = Numeral.ofNat (Numeral.value digits) := by
  fun_induction dropLeadingZeros digits with
  | case1 digit rest ih =>
    exact ih ⟨List.cons_ne_nil _ _, fun c hc => hdigits.2 c (List.mem_cons_of_mem _ hc)⟩
  | case2 digits h =>
    by_cases hhead : digits.head? = some '0'
    · obtain ⟨rest, rfl⟩ := List.head?_eq_some_iff.1 hhead
      cases rest with
      | nil => rfl
      | cons digit rest => exact absurd rfl (h digit rest)
    · exact (Numeral.ofNat_value hdigits.2 hdigits.1 hhead).symm

theorem canonicalLiteral_of_ne {digits : List Char} (hminus : ∀ rest, digits ≠ '-' :: rest) :
    canonicalLiteral digits = dropLeadingZeros digits := by
  rw [canonicalLiteral.eq_2 _ hminus]

theorem canonicalLiteral_chars (l : Literal) : canonicalLiteral l.chars = Numeral.ofInt l.value := by
  have hdrop := dropLeadingZeros_eq l.isDigits
  rw [Literal.chars, Literal.value, signedDigits, signedValue]
  cases l.isNegative with
  | false =>
    rw [if_neg Bool.false_ne_true, if_neg Bool.false_ne_true,
      canonicalLiteral_of_ne fun _ => ne_minus_of_isDigits l.isDigits, hdrop]
    rfl
  | true =>
    rw [if_pos rfl, if_pos rfl, canonicalLiteral, hdrop]
    by_cases hzero : Numeral.value l.digits = 0
    · rw [hzero]
      rfl
    · have hne : Numeral.ofNat (Numeral.value l.digits) ≠ ['0'] := by
        intro h
        have hvalue := Numeral.value_ofNat (Numeral.value l.digits)
        rw [h] at hvalue
        exact hzero hvalue.symm
      rw [if_neg hne, Numeral.ofInt_neg hzero]

theorem canonicalLiteral_eq_self_iff (l : Literal) :
    canonicalLiteral l.chars = l.chars ↔ l.IsCanonical := by
  rw [Literal.chars, signedDigits, Literal.IsCanonical]
  cases l.isNegative with
  | false =>
    rw [if_neg Bool.false_ne_true, canonicalLiteral_of_ne fun _ => ne_minus_of_isDigits l.isDigits,
      dropLeadingZeros_eq_self_iff]
    simp
  | true =>
    rw [if_pos rfl, canonicalLiteral]
    by_cases hhead : l.digits.head? = some '0'
    · have hne : (if dropLeadingZeros l.digits = ['0'] then ['0']
          else '-' :: dropLeadingZeros l.digits) ≠ '-' :: l.digits := by
        split
        · simp
        · rename_i hzero
          intro h
          have hdrop := List.tail_eq_of_cons_eq h
          exact hzero (hdrop.trans (dropLeadingZeros_eq_self_iff.1 hdrop hhead))
      simp [hne, hhead]
    · have hdrop := dropLeadingZeros_eq_self_iff.2 fun h => absurd h hhead
      have hzero : l.digits ≠ ['0'] := fun h => hhead (congrArg List.head? h)
      simp [hdrop, hzero, hhead]

/-! ### Texts -/

theorem canonicalLiteral_isPlain {group : List Char} (hgroup : ∀ c ∈ group, isPlain c = true) :
    ∀ c ∈ canonicalLiteral group, isPlain c = true := by
  fun_cases canonicalLiteral group with
  | case1 digits hzero =>
    intro c hc
    rw [List.mem_singleton.1 hc]
    rfl
  | case2 digits hzero =>
    obtain ⟨hminus, hdigits⟩ := List.forall_mem_cons.1 hgroup
    exact List.forall_mem_cons.2
      ⟨hminus, fun c hc => hdigits c ((dropLeadingZeros_suffix digits).subset hc)⟩
  | case3 hminus => exact fun c hc => hgroup c ((dropLeadingZeros_suffix group).subset hc)

theorem canonicalChars_append {plain rest : List Char} (hplain : ∀ c ∈ plain, isPlain c = true) :
    canonicalChars (plain ++ rest) = plain ++ canonicalChars rest := by
  induction plain with
  | nil => rfl
  | cons c plain ih =>
    obtain ⟨hc, hplain⟩ := List.forall_mem_cons.1 hplain
    rw [List.cons_append, canonicalChars, if_neg (isPlain_iff.1 hc).1, ih hplain, List.cons_append]

theorem groupTexts_append {plain rest : List Char} (hplain : ∀ c ∈ plain, isPlain c = true) :
    groupTexts (plain ++ rest) = groupTexts rest := by
  induction plain with
  | nil => rfl
  | cons c plain ih =>
    obtain ⟨hc, hplain⟩ := List.forall_mem_cons.1 hplain
    rw [List.cons_append, groupTexts, if_neg (isPlain_iff.1 hc).1, ih hplain]

theorem head?_canonicalChars (cs : List Char) : (canonicalChars cs).head? = cs.head? := by
  fun_cases canonicalChars cs <;> rfl

theorem canonicalChars_eq_self_iff (cs : List Char) :
    canonicalChars cs = cs ↔ ∀ group ∈ groupTexts cs, canonicalLiteral group = group := by
  fun_induction canonicalChars cs with
  | case1 => simp [groupTexts]
  | case2 rest ih =>
    have hplain : ∀ c ∈ rest.takeWhile isPlain, isPlain c = true := fun _ => List.mem_takeWhile_imp
    have hstop : ∀ c, (rest.dropWhile isPlain).head? = some c → isPlain c = false := by
      intro c hc
      have hnot := List.head?_dropWhile_not isPlain rest
      rwa [hc] at hnot
    have hgroups : groupTexts (rest.takeWhile isPlain ++ rest.dropWhile isPlain) =
        groupTexts (rest.dropWhile isPlain) := groupTexts_append hplain
    have hsplit := append_inj_of_isPlain (canonicalLiteral_isPlain hplain) hplain
      (fun c hc => hstop c (head?_canonicalChars _ ▸ hc)) hstop
    rw [List.takeWhile_append_dropWhile] at hsplit hgroups
    rw [List.cons_inj_right, hsplit, ih, groupTexts, if_pos rfl, hgroups, List.forall_mem_cons]
  | case3 c rest hc ih => rw [groupTexts, if_neg hc, List.cons_inj_right, ih]

variable {token name group : List Char} {groups : List (List Char)}

theorem canonicalChars_bracketed (hgroup : ∀ c ∈ group, isPlain c = true) (rest : List Char) :
    canonicalChars (bracketed group ++ rest) =
      bracketed (canonicalLiteral group) ++ canonicalChars rest := by
  obtain ⟨htake, hdrop⟩ := takeWhile_isPlain_closing hgroup rest
  rw [bracketed_append, bracketed_append, canonicalChars, if_pos rfl, htake, hdrop, canonicalChars,
    if_neg (by decide)]

theorem groupTexts_bracketed (hgroup : ∀ c ∈ group, isPlain c = true) (rest : List Char) :
    groupTexts (bracketed group ++ rest) = group :: groupTexts rest := by
  obtain ⟨htake, -⟩ := takeWhile_isPlain_closing hgroup rest
  rw [bracketed_append, groupTexts, if_pos rfl, htake, groupTexts_append hgroup, groupTexts,
    if_neg (by decide)]

/-- A token is rewritten on its own: its groups become canonical, and reading goes on behind it. -/
theorem canonicalChars_of_isFormed (h : IsFormed token name groups) (rest : List Char) :
    canonicalChars (token ++ rest) =
      name ++ (groups.map canonicalLiteral).flatMap bracketed ++ canonicalChars rest := by
  obtain ⟨rfl, hname, hgroups⟩ := h
  rw [List.append_assoc, canonicalChars_append (isBracketFree_iff.1 hname), List.append_assoc]
  congr 1
  induction groups with
  | nil => rfl
  | cons group groups ih =>
    obtain ⟨hgroup, hgroups⟩ := List.forall_mem_cons.1 hgroups
    rw [List.flatMap_cons, List.append_assoc,
      canonicalChars_bracketed (isBracketFree_iff.1 hgroup), ih hgroups, List.map_cons,
      List.flatMap_cons, List.append_assoc]

theorem groupTexts_of_isFormed (h : IsFormed token name groups) (rest : List Char) :
    groupTexts (token ++ rest) = groups ++ groupTexts rest := by
  obtain ⟨rfl, hname, hgroups⟩ := h
  rw [List.append_assoc, groupTexts_append (isBracketFree_iff.1 hname)]
  induction groups with
  | nil => rfl
  | cons group groups ih =>
    obtain ⟨hgroup, hgroups⟩ := List.forall_mem_cons.1 hgroups
    rw [List.flatMap_cons, List.append_assoc, groupTexts_bracketed (isBracketFree_iff.1 hgroup),
      ih hgroups, List.cons_append]

/-! ### Parsed texts -/

variable {text : String} {path : Path}

theorem canonicalChars_spelling (s : Spelling) (rest : List Char) :
    canonicalChars (s.chars ++ rest) =
      s.name ++ continued (s.literals.map fun l => .index l.value) ++ canonicalChars rest := by
  have hliterals : (s.literals.map Literal.chars).map canonicalLiteral =
      (s.literals.map Literal.value).map Numeral.ofInt := by
    rw [List.map_map, List.map_map]
    exact List.map_congr_left fun l _ => canonicalLiteral_chars l
  have hindices := continued_indices (s.literals.map Literal.value)
  rw [List.map_map] at hindices
  rw [canonicalChars_of_isFormed s.isFormed, hliterals, ← hindices]
  rfl

/-- Tokens behind another one stand for segments that are written as the canonical text of the
tokens. -/
theorem Spells.continued_eq {tokens : List (List Char)} {spellings : List Spelling}
    (h : Spells false tokens spellings) :
    continued (spellings.flatMap Spelling.segments) = canonicalChars (tokens.flatMap ('.' :: ·)) := by
  generalize hfirst : false = isFirst at h
  induction h with
  | nil => rw [List.flatMap_nil, List.flatMap_nil, canonicalChars, continued_nil]
  | @cons _ s tokens spellings hstart _ ih =>
    subst hfirst
    have hname : s.name ≠ [] := fun hempty => Bool.noConfusion (hstart hempty).1
    rw [List.flatMap_cons, List.flatMap_cons, continued_append, ih rfl, Spelling.segments,
      fieldOf_of_ne_nil hname, List.singleton_append, continued_cons, segmentText,
      String.toList_ofList, List.cons_append, List.cons_append, List.cons_append, canonicalChars,
      if_neg (by decide), canonicalChars_spelling]

theorem Spells.chars_eq {first : List Char} {tokens : List (List Char)} {spellings : List Spelling}
    (h : Spells true (first :: tokens) spellings) :
    chars (spellings.flatMap Spelling.segments) =
      canonicalChars (first ++ tokens.flatMap ('.' :: ·)) := by
  obtain _ | @⟨_, s, _, spellings, hstart, hrest⟩ := h
  rw [canonicalChars_spelling, ← hrest.continued_eq, List.flatMap_cons, Spelling.segments]
  by_cases hname : s.name = []
  · -- without a name, the first index has no dot in front of it
    obtain ⟨l, literals, hliterals⟩ := List.exists_cons_of_ne_nil (hstart hname).2
    rw [hname, hliterals, List.nil_append, ← continued_append]
    rfl
  · rw [fieldOf_of_ne_nil hname, List.append_assoc, List.singleton_append, chars,
      String.toList_ofList, continued_append, List.append_assoc]

theorem Spells.groupTexts_eq {isFirst : Bool} {tokens : List (List Char)}
    {spellings : List Spelling} (h : Spells isFirst tokens spellings) :
    groupTexts (tokens.flatMap ('.' :: ·)) =
      (spellings.flatMap Spelling.literals).map Literal.chars := by
  induction h with
  | nil => rfl
  | @cons _ s tokens spellings _ _ ih =>
    rw [List.flatMap_cons, List.cons_append, groupTexts, if_neg (by decide),
      groupTexts_of_isFormed s.isFormed, ih, List.flatMap_cons, List.map_append]

/-- A text that is read is empty or spelled by tokens between dots. -/
theorem exists_spells_of_parse (h : parse text = .ok path) :
    (text = "" ∧ path = []) ∨
      ∃ first tokens spellings, text.toList = first ++ tokens.flatMap ('.' :: ·) ∧
        Spells true (first :: tokens) spellings ∧ path = spellings.flatMap Spelling.segments := by
  rw [parse] at h
  split at h
  · rename_i hempty
    cases h
    exact .inl ⟨String.isEmpty_iff.1 hempty, rfl⟩
  · obtain ⟨spellings, hspells, rfl⟩ := exists_spells_of_readTokens h
    obtain ⟨first, tokens, hsplit⟩ := List.exists_cons_of_ne_nil (@Text.split_ne_nil '.' text.toList)
    rw [hsplit] at hspells
    exact .inr ⟨first, tokens, spellings, Text.eq_of_split hsplit, hspells, rfl⟩

theorem text_eq_canonicalForm (h : parse text = .ok path) : path.text = canonicalForm text := by
  obtain ⟨rfl, rfl⟩ | ⟨first, tokens, spellings, htext, hspells, rfl⟩ := exists_spells_of_parse h
  · rw [canonicalForm, String.toList_empty, canonicalChars]
    rfl
  · rw [Path.text, canonicalForm, htext, hspells.chars_eq]

theorem exists_literal_of_parse (h : parse text = .ok path) :
    ∀ group ∈ groupTexts text.toList, ∃ l : Literal, l.chars = group := by
  obtain ⟨rfl, rfl⟩ | ⟨first, tokens, spellings, htext, hspells, rfl⟩ := exists_spells_of_parse h
  · simp [groupTexts]
  · have hgroups := hspells.groupTexts_eq
    rw [List.flatMap_cons, List.cons_append, groupTexts, if_neg (by decide), ← htext] at hgroups
    intro group hgroup
    rw [hgroups] at hgroup
    obtain ⟨l, -, hl⟩ := List.mem_map.1 hgroup
    exact ⟨l, hl⟩

theorem canonicalForm_eq_self_iff (h : parse text = .ok path) :
    canonicalForm text = text ↔ ∀ l : Literal, l.chars ∈ groupTexts text.toList → l.IsCanonical := by
  have hchars : canonicalForm text = text ↔ canonicalChars text.toList = text.toList := by
    rw [canonicalForm, ← String.toList_inj, String.toList_ofList]
  rw [hchars, canonicalChars_eq_self_iff]
  constructor
  · exact fun hself l hl => (canonicalLiteral_eq_self_iff l).1 (hself l.chars hl)
  · intro hcanonical group hgroup
    obtain ⟨l, rfl⟩ := exists_literal_of_parse h group hgroup
    exact (canonicalLiteral_eq_self_iff l).2 (hcanonical l hgroup)

/-- What was read is written with each index literal in its canonical form and all else unchanged.
So it is written as it was read exactly if each literal is canonical, writing again changes nothing
more, and two texts are read as the same path exactly if their canonical forms are equal. -/
theorem parsed_path_renders_canonical_form (text : String) (path : Path)
    (h : parse text = .ok path) :
    path.render = .ok (canonicalForm text) ∧
    (∀ group ∈ groupTexts text.toList, ∃ l : Literal, l.chars = group) ∧
    (∀ l : Literal, canonicalLiteral l.chars = Numeral.ofInt l.value) ∧
    (path.render = .ok text ↔
      ∀ l : Literal, l.chars ∈ groupTexts text.toList → l.IsCanonical) ∧
    parse (canonicalForm text) = .ok path ∧
    canonicalForm (canonicalForm text) = canonicalForm text ∧
    ∀ other otherPath, parse other = .ok otherPath →
      (path = otherPath ↔ canonicalForm text = canonicalForm other) := by
  have hcanonical : ∀ {text : String} {path : Path}, parse text = .ok path →
      path.render = .ok (canonicalForm text) ∧ parse (canonicalForm text) = .ok path := by
    intro text path h
    have hreadable := isReadable_of_parse h
    rw [← text_eq_canonicalForm h]
    exact ⟨render_eq_ok (forall_isReadable_iff.1 hreadable).1, parse_text hreadable⟩
  obtain ⟨hrender, hparse⟩ := hcanonical h
  refine ⟨hrender, exists_literal_of_parse h, canonicalLiteral_chars, ?_, hparse, ?_, ?_⟩
  · rw [hrender, Except.ok.injEq, canonicalForm_eq_self_iff h]
  · exact (text_eq_canonicalForm hparse).symm.trans (text_eq_canonicalForm h)
  · intro other otherPath hother
    constructor
    · rintro rfl
      rw [← text_eq_canonicalForm h, text_eq_canonicalForm hother]
    · intro hforms
      rw [hforms, (hcanonical hother).2] at hparse
      exact (Except.ok.inj hparse).symm

/-- Zeros with a sign, zeros in front of other digits, and a name that begins with one. -/
theorem padded_indices_become_canonical :
    parse "[-000][007].0 a[-010]" = .ok [.index 0, .index 7, .field "0 a", .index (-10)] ∧
    Path.render [.index 0, .index 7, .field "0 a", .index (-10)] = .ok "[0][7].0 a[-10]" ∧
    ¬(∀ l : Literal, l.chars ∈ groupTexts "[-000][007].0 a[-010]".toList → l.IsCanonical) ∧
    canonicalForm "[-000][007].0 a[-010]" = canonicalForm "[00][7].0 a[-10]" := by
  have hparse : parse "[-000][007].0 a[-010]" =
      .ok [.index 0, .index 7, .field "0 a", .index (-10)] := by decide +kernel
  have hother : parse "[00][7].0 a[-10]" =
      .ok [.index 0, .index 7, .field "0 a", .index (-10)] := by decide +kernel
  have hform : canonicalForm "[-000][007].0 a[-010]" = "[0][7].0 a[-10]" := by decide +kernel
  obtain ⟨hrender, -, -, hself, -, -, hsame⟩ := parsed_path_renders_canonical_form _ _ hparse
  rw [hform] at hrender
  refine ⟨hparse, hrender, ?_, (hsame _ _ hother).1 rfl⟩
  rw [← hself, hrender]
  decide

end Treeline.Path
