import Treeline.Path.Render
import Treeline.Proofs.Path.Token
import Treeline.Proofs.Text.Split

/-!
# Paths are read back

The text of a path holds no mark of where one segment ends. A dot ends a token and a bracket ends a
name, so the segments are found again exactly if no name holds one of these characters and no name
is empty. Such paths are called addressable, and they are all that reading can return.
-/

namespace Treeline.Path

/-- A name that can be told apart from what stands around it. -/
def IsName (name : String) : Prop :=
  name ≠ "" ∧ '.' ∉ name.toList ∧ '[' ∉ name.toList ∧ ']' ∉ name.toList

/-- Whether every field of a path can be told apart in the text of the path. -/
def IsAddressable (path : Path) : Prop := ∀ name, .field name ∈ path → IsName name

/-- A segment that is written and found again: a field with such a name or a short index. -/
def IsReadable : Segment → Prop
  | .field name => IsName name
  | .index i => Numeral.isShort i = true

theorem forall_isReadable_iff {path : Path} :
    (∀ segment ∈ path, IsReadable segment) ↔ path.isWritable = true ∧ path.IsAddressable := by
  rw [isWritable, List.all_eq_true]
  constructor
  · intro h
    refine ⟨?_, fun name hname => h (.field name) hname⟩
    rintro (name | i) hsegment
    · rfl
    · exact h (.index i) hsegment
  · rintro ⟨hwritable, haddressable⟩ (name | i) hsegment
    · exact haddressable name hsegment
    · have hshort := hwritable (.index i) hsegment
      dsimp only at hshort
      exact hshort

theorem IsName.isPlain {name : String} (hname : IsName name) :
    ∀ c ∈ name.toList, isPlain c = true :=
  fun _ hc => isPlain_iff.2 ⟨fun h => hname.2.2.1 (h ▸ hc), fun h => hname.2.2.2 (h ▸ hc)⟩

theorem fieldOf_toList {name : String} (hname : name ≠ "") :
    fieldOf name.toList = [.field name] := by
  rw [fieldOf_of_ne_nil (by simpa using hname), String.ofList_toList]

/-! ### The text of segments -/

theorem continued_nil : continued [] = [] := rfl

theorem continued_cons (segment : Segment) (rest : Path) :
    continued (segment :: rest) = segmentText segment ++ continued rest := List.flatMap_cons

theorem continued_append (first rest : Path) :
    continued (first ++ rest) = continued first ++ continued rest := List.flatMap_append

theorem continued_indices (indices : List Int) :
    continued (indices.map .index) = (indices.map Numeral.ofInt).flatMap bracketed := by
  rw [continued, List.flatMap_map, List.flatMap_map]
  rfl

theorem isPlain_of_mem_ofInt {i : Int} {c : Char} (hc : c ∈ Numeral.ofInt i) :
    isPlain c = true := by
  rw [isPlain_iff]
  rcases Numeral.eq_minus_or_isDigit_of_mem_ofInt hc with rfl | hdigit
  · decide
  · constructor <;> rintro rfl <;> exact absurd hdigit (by decide)

theorem dot_not_mem_name_indices {name : List Char} (hdot : '.' ∉ name) (indices : List Int) :
    '.' ∉ name ++ continued (indices.map .index) := by
  have hnumeral : ∀ i, '.' ∉ Numeral.ofInt i := by
    intro i hmem
    rcases Numeral.eq_minus_or_isDigit_of_mem_ofInt hmem with h | h
    · exact absurd h (by decide)
    · exact absurd h (by decide)
  rw [List.mem_append, not_or]
  refine ⟨hdot, ?_⟩
  rw [continued, List.flatMap_map, List.mem_flatMap]
  rintro ⟨i, -, hmem⟩
  simp [segmentText, hnumeral i] at hmem

/-! ### Reading what was written -/

theorem readToken_name_indices {isFirst : Bool} {name : List Char} {indices : List Int}
    (hname : ∀ c ∈ name, isPlain c = true) (hindices : ∀ i ∈ indices, Numeral.isShort i = true)
    (hstart : name = [] → isFirst = true ∧ indices ≠ []) :
    readToken isFirst (name ++ continued (indices.map .index)) =
      .ok (fieldOf name ++ indices.map .index) := by
  rw [readToken_eq_ok_iff]
  refine ⟨name, indices.map Numeral.ofInt, indices.map .index, ?_, ?_, ?_, rfl⟩
  · rw [token?_eq_some_iff, continued_indices]
    refine ⟨rfl, hname, ?_⟩
    intro group hgroup c hc
    obtain ⟨i, -, rfl⟩ := List.mem_map.1 hgroup
    exact isPlain_of_mem_ofInt hc
  · intro hempty
    refine ⟨(hstart hempty).1, ?_⟩
    rw [ne_eq, List.map_eq_nil_iff]
    exact (hstart hempty).2
  · rw [List.forall₂_map_left_iff, List.forall₂_map_right_iff, List.forall₂_same]
    exact fun i hi => readIndex_ofInt (hindices i hi)

/-- Reading goes on behind a token that is not yet complete. The token grows by the indices that
follow, up to the next field, with which a new token starts. -/
theorem readTokens_split (text : String) (rest : Path) :
    ∀ (isFirst : Bool) (name : List Char) (indices : List Int),
      (∀ c ∈ name, isPlain c = true) → '.' ∉ name →
      (∀ i ∈ indices, Numeral.isShort i = true) →
      (name = [] → isFirst = true ∧ indices ≠ []) →
      (∀ segment ∈ rest, IsReadable segment) →
      readTokens text isFirst
        (Text.split '.' (name ++ continued (indices.map .index) ++ continued rest)) =
        .ok (fieldOf name ++ indices.map .index ++ rest) := by
  induction rest with
  | nil =>
    intro isFirst name indices hname hdot hindices hstart _
    rw [continued_nil, List.append_nil,
      Text.split_of_not_mem (dot_not_mem_name_indices hdot indices), readTokens,
      readToken_name_indices hname hindices hstart]
    rfl
  | cons segment rest ih =>
    intro isFirst name indices hname hdot hindices hstart hreadable
    rw [List.forall_mem_cons] at hreadable
    obtain ⟨hsegment, hrest⟩ := hreadable
    cases segment with
    | index i =>
      -- the index joins the token that is not complete
      have hmore : ∀ j ∈ indices ++ [i], Numeral.isShort j = true := by
        rw [List.forall_mem_append, List.forall_mem_singleton]
        exact ⟨hindices, hsegment⟩
      have hchars : continued ((indices ++ [i]).map .index) ++ continued rest =
          continued (indices.map .index) ++ continued (.index i :: rest) := by
        rw [← continued_append, ← continued_append, List.map_append, List.append_assoc]
        rfl
      have hread := ih isFirst name (indices ++ [i]) hname hdot hmore
        (fun hempty => ⟨(hstart hempty).1, by simp⟩) hrest
      rw [List.append_assoc, hchars, ← List.append_assoc] at hread
      rw [hread, List.map_append, List.append_assoc, List.append_assoc]
      simp
    | field next =>
      -- the dot ends the token, and the name of the field begins the next one
      have hread := ih false next.toList [] (IsName.isPlain hsegment) hsegment.2.1 (by simp)
        (by simp [hsegment.1]) hrest
      rw [List.map_nil, continued_nil, List.append_nil, List.append_nil,
        fieldOf_toList hsegment.1] at hread
      rw [continued_cons, segmentText, List.cons_append,
        Text.split_append_cons (dot_not_mem_name_indices hdot indices), readTokens,
        readToken_name_indices hname hindices hstart]
      dsimp only
      rw [hread]
      rfl

theorem parse_ofList {cs : List Char} (hne : cs ≠ []) :
    parse (String.ofList cs) = readTokens (String.ofList cs) true (Text.split '.' cs) := by
  rw [parse, if_neg (by simpa using hne), String.toList_ofList]

theorem parse_text {path : Path} (hreadable : ∀ segment ∈ path, IsReadable segment) :
    parse path.text = .ok path := by
  cases path with
  | nil => rfl
  | cons segment rest =>
    rw [List.forall_mem_cons] at hreadable
    obtain ⟨hsegment, hrest⟩ := hreadable
    cases segment with
    | index i =>
      have hread := readTokens_split (Path.text (.index i :: rest)) rest true [] [i] (by simp)
        List.not_mem_nil (List.forall_mem_singleton.2 hsegment) (by simp) hrest
      have hchars : [] ++ continued ([i].map .index) ++ continued rest =
          chars (.index i :: rest) := by
        rw [chars, List.nil_append, List.map_singleton, continued_cons, continued_cons,
          continued_nil, List.append_nil]
        simp
      rw [hchars] at hread
      rw [text, parse_ofList (by simp [chars, continued_cons, segmentText])]
      exact hread
    | field name =>
      have hread := readTokens_split (Path.text (.field name :: rest)) rest true name.toList []
        (IsName.isPlain hsegment) hsegment.2.1 (by simp) (by simp [hsegment.1]) hrest
      rw [fieldOf_toList hsegment.1, List.map_nil, continued_nil, List.append_nil] at hread
      rw [text, parse_ofList (by simp [chars, hsegment.1])]
      exact hread

/-! ### What reading returns -/

theorem isReadable_of_readToken {isFirst : Bool} {cs : List Char} {segments : Path}
    (hdot : '.' ∉ cs) (h : readToken isFirst cs = .ok segments) :
    ∀ segment ∈ segments, IsReadable segment := by
  obtain ⟨name, groups, indices, htoken, -, hindices, rfl⟩ := readToken_eq_ok_iff.1 h
  obtain ⟨rfl, hplain, -⟩ := token?_eq_some_iff.1 htoken
  rw [List.mem_append, not_or] at hdot
  rw [List.forall_mem_append]
  constructor
  · intro segment hsegment
    rw [fieldOf] at hsegment
    split at hsegment
    · exact absurd hsegment List.not_mem_nil
    · rename_i hempty
      rw [List.mem_singleton.1 hsegment, IsReadable, IsName, String.toList_ofList]
      refine ⟨?_, hdot.1, ?_, ?_⟩
      · simpa using hempty
      · exact fun hmem => (isPlain_iff.1 (hplain _ hmem)).1 rfl
      · exact fun hmem => (isPlain_iff.1 (hplain _ hmem)).2 rfl
  · intro segment hsegment
    obtain ⟨group, -, hgroup⟩ := exists_of_forall₂ hindices.flip hsegment
    obtain ⟨i, rfl, hi⟩ := exists_index_of_readIndex hgroup
    exact hi

theorem isReadable_of_readTokens {text : String} {tokens : List (List Char)} :
    ∀ {isFirst : Bool} {path : Path}, (∀ token ∈ tokens, '.' ∉ token) →
      readTokens text isFirst tokens = .ok path → ∀ segment ∈ path, IsReadable segment := by
  induction tokens with
  | nil =>
    rintro isFirst path - ⟨⟩
    simp
  | cons token rest ih =>
    intro isFirst path hdot h
    rw [List.forall_mem_cons] at hdot
    obtain ⟨segments, more, hsegments, hmore, rfl⟩ := readTokens_cons_eq_ok_iff.1 h
    rw [List.forall_mem_append]
    exact ⟨isReadable_of_readToken hdot.1 hsegments, ih hdot.2 hmore⟩

theorem isReadable_of_parse {text : String} {path : Path} (h : parse text = .ok path) :
    ∀ segment ∈ path, IsReadable segment := by
  rw [parse] at h
  split at h
  · cases h
    simp
  · exact isReadable_of_readTokens (fun _ htoken => Text.not_mem_of_mem_split htoken) h

/-! ### Reading and writing -/

theorem render_eq_ok {path : Path} (hwritable : path.isWritable = true) :
    path.render = .ok path.text := by
  rw [render, if_pos hwritable]

/-- A path is read back from its text exactly if it is addressable. So no two addressable paths have
the same text, and the addressable paths are all that reading can return. -/
theorem parse_render_iff_isAddressable :
    (∀ path : Path, path.isWritable = true →
      ∃ text, path.render = .ok text ∧ (parse text = .ok path ↔ path.IsAddressable)) ∧
    (∀ path other : Path, path.isWritable = true → other.isWritable = true →
      path.IsAddressable → other.IsAddressable → path.render = other.render → path = other) ∧
    ∀ path : Path,
      (∃ text, parse text = .ok path) ↔ path.isWritable = true ∧ path.IsAddressable := by
  have hparse : ∀ path : Path, path.isWritable = true → path.IsAddressable →
      parse path.text = .ok path :=
    fun path hwritable haddressable =>
      parse_text (forall_isReadable_iff.2 ⟨hwritable, haddressable⟩)
  refine ⟨?_, ?_, ?_⟩
  · intro path hwritable
    refine ⟨path.text, render_eq_ok hwritable, ?_, hparse path hwritable⟩
    exact fun h => (forall_isReadable_iff.1 (isReadable_of_parse h)).2
  · intro path other hpath hother hpathAddressable hotherAddressable hrender
    rw [render_eq_ok hpath, render_eq_ok hother, Except.ok.injEq] at hrender
    have hread := hparse path hpath hpathAddressable
    rw [hrender, hparse other hother hotherAddressable] at hread
    exact (Except.ok.inj hread).symm
  · intro path
    constructor
    · rintro ⟨text, h⟩
      exact forall_isReadable_iff.1 (isReadable_of_parse h)
    · rintro ⟨hwritable, haddressable⟩
      exact ⟨path.text, hparse path hwritable haddressable⟩

/-- Indices in a row, a negative one in front of a field, and a name with a space and a colon. -/
theorem leading_indices_are_read_back :
    Path.isWritable [.index (-1), .index 10, .field "a: b", .index 0] = true ∧
      Path.IsAddressable [.index (-1), .index 10, .field "a: b", .index 0] ∧
      parse "[-1][10].a: b[0]" = .ok [.index (-1), .index 10, .field "a: b", .index 0] := by
  have hwritable : Path.isWritable [.index (-1), .index 10, .field "a: b", .index 0] = true := by
    decide +kernel
  have haddressable : Path.IsAddressable [.index (-1), .index 10, .field "a: b", .index 0] := by
    intro name hname
    have heq : name = "a: b" := by simpa using hname
    rw [heq, IsName]
    decide
  have hshown : Path.render [.index (-1), .index 10, .field "a: b", .index 0] =
      .ok "[-1][10].a: b[0]" := by decide +kernel
  obtain ⟨text, hrender, hread⟩ := parse_render_iff_isAddressable.1 _ hwritable
  rw [hshown, Except.ok.injEq] at hrender
  rw [hrender]
  exact ⟨hwritable, haddressable, hread.2 haddressable⟩

end Treeline.Path
