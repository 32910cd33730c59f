import Treeline.Proofs.Data.Plain
import Treeline.Proofs.Yaml.Graph.Complete
import Treeline.Proofs.Yaml.Tag
import Treeline.Proofs.Yaml.Write.Scalar

/-!
# Writing data

Data is written node by node: scalars and empty collections on a line, items behind dashes, and
entries as a key and a value. Each part is read as the tokens of a shape with the tree of the data,
if all its texts are kept.
-/

namespace Treeline.Yaml

open Outline

/-! ### Data that is kept -/

/-- A key that is kept: one that stands before a colon is not too long. -/
structure IsKeptKey (indent : Nat) (cs : List Char) : Prop where
  kept : IsKept indent cs
  near : isSimpleKey [] (.scalar Tag.text cs) = true → IsNearKey cs

/-- Data that is kept if it is written at a column: all of its texts are. -/
inductive Survives : (column : Nat) → Plain → Prop
  | null (column : Nat) : Survives column .null
  | bool (column : Nat) (b : Bool) : Survives column (.bool b)
  | int (column : Nat) (i : Int) : Survives column (.int i)
  | text {column : Nat} {s : String} (h : IsKept (max column Page.levelWidth) s.toList) :
      Survives column (.text s)
  | list {column : Nat} {items : List Plain}
      (h : ∀ item ∈ items, Survives (column + Page.levelWidth) item) : Survives column (.list items)
  | dict {column : Nat} {entries : List (String × Plain)}
      (hkeys : ∀ entry ∈ entries, IsKeptKey (column + Page.levelWidth) entry.1.toList)
      (h : ∀ entry ∈ entries, Survives (column + Page.levelWidth) entry.2) :
      Survives column (.dict entries)

theorem CanFold.mono {m n : Nat} {cs : List Char} (h : CanFold n cs) (hm : m ≤ n) : CanFold m cs :=
  h.imp (Nat.lt_of_le_of_lt hm) id

theorem IsKept.mono {m n : Nat} {cs : List Char} (h : IsKept n cs) (hm : m ≤ n) : IsKept m cs :=
  ⟨h.single, fun hquotes => (h.double hquotes).mono hm⟩

theorem IsKeptKey.mono {m n : Nat} {cs : List Char} (h : IsKeptKey n cs) (hm : m ≤ n) :
    IsKeptKey m cs := ⟨h.kept.mono hm, h.near⟩

theorem Survives.sorted {column : Nat} {v : Plain} (h : Survives column v) :
    Survives column v.sorted := by
  induction h with
  | null column => exact .null column
  | bool column b => exact .bool column b
  | int column i => exact .int column i
  | text h => exact .text h
  | list h ih =>
    rw [Plain.sorted, Plain.sortedItems_eq]
    exact .list (List.forall_mem_map.2 ih)
  | @dict column entries hkeys h ih =>
    have hperm := Datum.sortEntries_perm (entries.map fun entry => (entry.1, entry.2.sorted))
    rw [Plain.sorted, Plain.sortedValues_eq]
    refine .dict ?_ ?_
    · intro entry hentry
      obtain ⟨old, hold, rfl⟩ := List.mem_map.1 (hperm.mem_iff.1 hentry)
      exact hkeys old hold
    · intro entry hentry
      obtain ⟨old, hold, rfl⟩ := List.mem_map.1 (hperm.mem_iff.1 hentry)
      exact ih old hold

/-! ### What is read -/

variable {column : Nat} {cs key : List Char} {v : Plain} {name : String}

/-- Characters at a column that are read as some data. -/
def IsNodeOf (column : Nat) (cs : List Char) (v : Plain) : Prop :=
  ∃ shape : Shape, shape.Fits .block ∧ shape.tree = v.tree ∧ IsNode column cs shape.lexemes

def AreItemsOf (column : Nat) (cs : List Char) (items : List Plain) : Prop :=
  ∃ shapes : Shapes, shapes.isNil = false ∧ shapes.Fit .block ∧ shapes.trees = Plain.trees items ∧
    IsBlock .blockSequenceStart column cs shapes.blockLexemes

def AreEntriesOf (column : Nat) (cs : List Char) (entries : List (String × Plain)) : Prop :=
  ∃ shapes : Entries, shapes.Fit .blockOrIndentless ∧ shapes.trees = Plain.entryTrees entries ∧
    IsBlock .blockMappingStart column cs shapes.blockLexemes

theorem AreItemsOf.node {items : List Plain} (h : AreItemsOf column cs items) :
    IsNodeOf column cs (.list items) := by
  obtain ⟨shapes, -, hfits, htrees, hblock⟩ := h
  exact ⟨.blockSequence shapes, ⟨by decide, hfits⟩, congrArg Tree.sequence htrees, hblock.node⟩

theorem AreEntriesOf.node {entries : List (String × Plain)} (h : AreEntriesOf column cs entries) :
    IsNodeOf column cs (.dict entries) := by
  obtain ⟨shapes, hfits, htrees, hblock⟩ := h
  exact ⟨.blockMapping shapes, ⟨by decide, hfits⟩, congrArg Tree.mapping htrees, hblock.node⟩

theorem IsNodeOf.item (h : IsNodeOf (column + 2) cs v) :
    AreItemsOf column ('-' :: ' ' :: cs) [v] := by
  obtain ⟨shape, hfits, htree, hnode⟩ := h
  refine ⟨.cons shape .nil, rfl, ⟨hfits, trivial⟩, ?_, ?_⟩
  · rw [Shapes.trees, htree]
    rfl
  · simpa [Shapes.blockLexemes] using hnode.signed .dash

theorem IsNodeOf.item_append {others : List Char} {items : List Plain}
    (h : IsNodeOf (column + 2) cs v) (h' : AreItemsOf column others items) :
    AreItemsOf column ('-' :: ' ' :: cs ++ newLine column others) (v :: items) := by
  obtain ⟨shape, hfits, htree, hnode⟩ := h
  obtain ⟨shapes, -, hfit, htrees, hblock⟩ := h'
  refine ⟨.cons shape shapes, rfl, ⟨hfits, hfit⟩, ?_, ?_⟩
  · rw [Shapes.trees, htree, htrees]
    rfl
  · exact (hnode.signed .dash).append hblock

/-- Characters at a column that are read as an entry of a dictionary. -/
def IsEntryOf (column : Nat) (cs : List Char) (name : String) (v : Plain) : Prop :=
  ∃ isPlain, ∃ shape : Shape, shape.Fits .blockOrIndentless ∧ shape.tree = v.tree ∧
    IsBlock .blockMappingStart column cs (.key :: .scalar name isPlain :: .value :: shape.lexemes)

theorem IsEntryOf.entries (h : IsEntryOf column cs name v) : AreEntriesOf column cs [(name, v)] := by
  obtain ⟨isPlain, shape, hfits, htree, hblock⟩ := h
  refine ⟨.cons name isPlain shape .nil, ⟨hfits, trivial⟩, ?_, ?_⟩
  · rw [Entries.trees, htree]
    rfl
  · simpa [Entries.blockLexemes] using hblock

theorem IsEntryOf.append {others : List Char} {entries : List (String × Plain)}
    (h : IsEntryOf column cs name v) (h' : AreEntriesOf column others entries) :
    AreEntriesOf column (cs ++ newLine column others) ((name, v) :: entries) := by
  obtain ⟨isPlain, shape, hfits, htree, hblock⟩ := h
  obtain ⟨shapes, hfit, htrees, hblocks⟩ := h'
  refine ⟨.cons name isPlain shape shapes, ⟨hfits, hfit⟩, ?_, ?_⟩
  · rw [Entries.trees, htree, htrees]
    rfl
  · simpa [Entries.blockLexemes] using hblock.append hblocks

theorem fits_blockOrIndentless {shape : Shape} (h : shape.Fits .block) :
    shape.Fits .blockOrIndentless := by
  cases shape with
  | scalar text isPlain => trivial
  | flowSequence items => exact h
  | flowMapping entries => exact h
  | blockSequence items => exact ⟨by decide, h.2⟩
  | indentless items => exact absurd h.1 (by decide)
  | blockMapping entries => exact ⟨by decide, h.2⟩

/-- A key before a colon. -/
def IsKeyOf (cs : List Char) (name : String) : Prop :=
  ∃ isPlain, IsKey cs (.scalar name isPlain)

theorem IsKeyOf.entry_node (hkey : IsKeyOf key name) (h : IsNodeOf (column + 2) cs v) :
    IsEntryOf column (key ++ ':' :: newLine (column + 2) cs) name v := by
  obtain ⟨isPlain, hkey⟩ := hkey
  obtain ⟨shape, hfits, htree, hnode⟩ := h
  exact ⟨isPlain, shape, fits_blockOrIndentless hfits, htree, hkey.entry_node hnode⟩

theorem IsKeyOf.entry_items {items : List Plain} (hkey : IsKeyOf key name)
    (h : AreItemsOf column cs items) :
    IsEntryOf column (key ++ ':' :: newLine column cs) name (.list items) := by
  obtain ⟨isPlain, hkey⟩ := hkey
  obtain ⟨shapes, hnil, hfits, htrees, hblock⟩ := h
  exact ⟨isPlain, .indentless shapes, ⟨rfl, hnil, hfits⟩, congrArg Tree.sequence htrees,
    hkey.entry_sequence hblock⟩

/-- Characters that are read as some data wherever a node stands. -/
def IsLeafOf (least : Nat) (cs : List Char) (v : Plain) : Prop :=
  ∃ shape : Shape, shape.Fits .block ∧ shape.tree = v.tree ∧ IsLeaf least cs shape.lexemes

theorem IsLeafOf.node (h : IsLeafOf column cs v) : IsNodeOf column cs v := by
  obtain ⟨shape, hfits, htree, hleaf⟩ := h
  exact ⟨shape, hfits, htree, hleaf.node (Nat.le_refl column)⟩

theorem IsKeyOf.entry_leaf (hkey : IsKeyOf key name) (h : IsLeafOf (column + 2) cs v) :
    IsEntryOf column (key ++ ':' :: ' ' :: cs) name v := by
  obtain ⟨isPlain, hkey⟩ := hkey
  obtain ⟨shape, hfits, htree, hleaf⟩ := h
  exact ⟨isPlain, shape, fits_blockOrIndentless hfits, htree, hkey.entry_leaf hleaf⟩

theorem IsNodeOf.entry {isPlain : Bool} (h : IsNodeOf (column + 2) cs v)
    (hkey : IsLeaf (column + 2) key [.scalar name isPlain]) :
    IsEntryOf column ('?' :: ' ' :: (key ++ newLine column (':' :: ' ' :: cs))) name v := by
  obtain ⟨shape, hfits, htree, hnode⟩ := h
  exact ⟨isPlain, shape, fits_blockOrIndentless hfits, htree, hkey.entry hnode⟩

theorem isLeafOf_emptyList (least : Nat) : IsLeafOf least ['[', ']'] (.list []) :=
  ⟨.flowSequence .nil, trivial, rfl,
    isLeaf_brackets (.inl ⟨rfl, rfl⟩) (.inl ⟨rfl, rfl⟩) least⟩

theorem isLeafOf_emptyDict (least : Nat) : IsLeafOf least ['\x7b', '\x7d'] (.dict []) :=
  ⟨.flowMapping .nil, trivial, rfl,
    isLeaf_brackets (.inr ⟨rfl, rfl⟩) (.inr ⟨rfl, rfl⟩) least⟩

/-! ### Pages -/

namespace Page

variable {p : Page}

/-- The line ends in text, and the document needs no mark at its end. -/
structure IsDone (p : Page) : Prop where
  text : p.IsText
  isOpen : p.isOpen = false

/-- A sign stands at a column with nothing but indentation and signs in front. -/
structure IsSigned (p : Page) (column : Nat) : Prop where
  column : p.column = column + 1
  endsBlank : p.endsBlank = false
  isIndentation : p.isIndentation = true
  isOpen : p.isOpen = false

theorem IsFresh.leadingSign (h : p.IsFresh column) (x : Char) :
    p.Adds [x] (p.leadingSign x) ∧ (p.leadingSign x).IsSigned column := by
  have hsign : p.leadingSign x =
      { p.put [x] with endsBlank := false, isOpen := false } := by
    simp [Page.leadingSign, sign, h.endsBlank]
    rfl
  rw [hsign]
  exact ⟨rfl, by simp [put, h.column], rfl, h.isIndentation, rfl⟩

theorem IsSigned.blank (h : p.IsSigned column) : p.blank = [' '] := by
  simp [Page.blank, h.endsBlank]

theorem IsSigned.adds_indentTo (h : p.IsSigned column) :
    p.Adds [' '] (p.indentTo (column + 2)) ∧ (p.indentTo (column + 2)).IsFresh (column + 2) := by
  have hline : (!p.isIndentation || column + 2 < p.column ||
      (p.column = column + 2 && !p.endsBlank)) = false := by
    simp [h.isIndentation, h.column]
  rw [Page.indentTo, hline]
  have hlt : p.column < column + 2 := by simp [h.column]
  have hgap : column + 2 - p.column = 1 := by
    rw [h.column]
    omega
  simp only [Bool.false_eq_true, if_false, if_pos hlt, hgap]
  exact ⟨rfl, by simp [put, h.column], rfl, h.isIndentation⟩

end Page

/-! ### Writing -/

open Page (IsDone IsFresh IsSigned)

/-- Behind a sign or behind a key, data at a column is written so that it is read back. -/
structure Writes (column : Nat) (v : Plain) : Prop where
  node : ∀ {spot : Spot} {p : Page}, spot = .item ∨ spot = .part → p.IsSigned column →
    ∃ cs, p.Adds (' ' :: cs) (put [] (some column) spot v.outline p) ∧
      (put [] (some column) spot v.outline p).IsDone ∧ IsNodeOf (column + 2) cs v
  value : ∀ {p : Page}, p.IsDone →
    ∃ cs, p.Adds cs (put [] (some column) .part v.outline p) ∧
      (put [] (some column) .part v.outline p).IsDone ∧
      ∀ key name, IsKeyOf key name → IsEntryOf column (key ++ ':' :: cs) name v

/-- What is written on a line can stand behind a sign and behind a key. -/
theorem writes_of_leaf (h : ∀ {spot : Spot} {p : Page}, spot = .item ∨ spot = .part →
      p.isOpen = false → ∃ cs, p.Adds (p.blank ++ cs) (put [] (some column) spot v.outline p) ∧
        (put [] (some column) spot v.outline p).IsDone ∧ IsLeafOf (column + 2) cs v) :
    Writes column v where
  node := by
    intro spot p hspot hp
    obtain ⟨cs, hadds, hdone, hleaf⟩ := h hspot hp.isOpen
    rw [hp.blank] at hadds
    exact ⟨cs, hadds, hdone, hleaf.node⟩
  value := by
    intro p hp
    obtain ⟨cs, hadds, hdone, hleaf⟩ := h (.inr rfl) hp.isOpen
    rw [hp.text.blank] at hadds
    exact ⟨' ' :: cs, hadds, hdone, fun key name hkey => hkey.entry_leaf hleaf⟩

theorem exists_putItems {items : List Plain} (hne : items ≠ [])
    (h : ∀ item ∈ items, Writes column item) {p : Page} {lead : List Char}
    (hlead : p.Adds lead (p.indentTo column)) (hfresh : (p.indentTo column).IsFresh column) :
    ∃ cs, p.Adds (lead ++ cs) (putItems [] column (Plain.outlines items) p) ∧
      (putItems [] column (Plain.outlines items) p).IsDone ∧ AreItemsOf column cs items := by
  induction items generalizing p lead with
  | nil => exact absurd rfl hne
  | cons item rest ih =>
    obtain ⟨hitem, hrest⟩ := List.forall_mem_cons.1 h
    obtain ⟨hsign, hsigned⟩ := hfresh.leadingSign '-'
    obtain ⟨cs, hadds, hdone, hnode⟩ := hitem.node (.inl rfl) hsigned
    have hfirst := (hlead.trans hsign).trans hadds
    rw [Plain.outlines, putItems]
    by_cases hnil : rest = []
    · subst hnil
      rw [Plain.outlines, putItems]
      exact ⟨'-' :: ' ' :: cs, by simpa using hfirst, hdone, hnode.item⟩
    · obtain ⟨hline, hnext⟩ := hdone.text.adds_indentTo column
      obtain ⟨others, hothers, hend, hitems⟩ := ih hnil hrest hline hnext
      refine ⟨'-' :: ' ' :: cs ++ newLine column others, ?_, hend, hnode.item_append hitems⟩
      have hall := hfirst.trans hothers
      simpa [newLine] using hall

theorem isSimpleKey_iff {cs : List Char} :
    isSimpleKey [] (.scalar Tag.text cs) = true ↔
      (tagText Tag.text).length + cs.length < longKey ∧ cs ≠ [] ∧
        ScalarStyle.isSingleLine cs = true := by
  rw [isSimpleKey, Bool.and_eq_true, decide_eq_true_iff, keyLength]
  simp

def putEntry (column : Nat) (key value : Outline) (p : Page) : Page :=
  put [] (some column) .part value
    (if key.isSimpleKey [] then (put [] (some column) .simpleKey key p).sign [':'] false
    else ((put [] (some column) .part key (p.leadingSign '?')).indentTo column).leadingSign ':')

theorem putEntries_cons (column : Nat) (key value : Outline) (rest : List (Outline × Outline))
    (p : Page) : putEntries [] column ((key, value) :: rest) p =
      putEntries [] column rest (putEntry column key value (p.indentTo column)) := by
  rw [putEntries, putEntry]

/-- A key and a value are written behind a colon, or each behind a sign. -/
theorem exists_putEntry {name : String} {p : Page} (hkey : IsKeptKey (column + 2) name.toList)
    (h : Writes column v) (hp : p.IsFresh column) :
    ∃ cs, p.Adds cs (putEntry column (.scalar Tag.text name.toList) v.outline p) ∧
      (putEntry column (.scalar Tag.text name.toList) v.outline p).IsDone ∧
      IsEntryOf column cs name v := by
  rw [putEntry]
  split
  next hsimple =>
    obtain ⟨hlength, hne, hline⟩ := isSimpleKey_iff.1 hsimple
    obtain ⟨ws, isPlain, hadds, htext, hread⟩ :=
      exists_putKey (some column) p hne hline (by omega) (hkey.near hsimple)
    rw [String.ofList_toList] at hread
    rw [hp.blank] at hadds
    have hdone : ((putScalar (some column) .simpleKey Tag.text name.toList p).sign [':'] false).IsDone :=
      ⟨⟨rfl, rfl⟩, rfl⟩
    obtain ⟨cs, hvalue, hend, hentry⟩ := h.value hdone
    rw [put]
    refine ⟨ws ++ ':' :: cs, ?_, hend, hentry ws name ⟨isPlain, hread⟩⟩
    have hall := (hadds.trans (Page.adds_touching _ [':'])).trans hvalue
    simpa using hall
  next =>
    obtain ⟨hquestion, hsigned⟩ := hp.leadingSign '?'
    obtain ⟨ws, isPlain, hadds, htext, hleaf, -⟩ :=
      exists_putScalar (some column) .part (p.leadingSign '?') ⟨by decide, .inl rfl⟩ hkey.kept
        (by decide)
    rw [hsigned.blank] at hadds
    rw [String.ofList_toList] at hleaf
    obtain ⟨hline, hfresh⟩ := htext.adds_indentTo column
    obtain ⟨hcolon, hnext⟩ := hfresh.leadingSign ':'
    obtain ⟨cs, hvalue, hend, hnode⟩ := h.node (.inr rfl) hnext
    rw [put]
    refine ⟨_, ?_, hend, hnode.entry hleaf⟩
    have hall := (((hquestion.trans hadds).trans hline).trans hcolon).trans hvalue
    simpa [newLine] using hall

theorem exists_putEntries {entries : List (String × Plain)} (hne : entries ≠ [])
    (hkeys : ∀ entry ∈ entries, IsKeptKey (column + 2) entry.1.toList)
    (h : ∀ entry ∈ entries, Writes column entry.2) {p : Page} {lead : List Char}
    (hlead : p.Adds lead (p.indentTo column)) (hfresh : (p.indentTo column).IsFresh column) :
    ∃ cs, p.Adds (lead ++ cs) (putEntries [] column (Plain.entryOutlines entries) p) ∧
      (putEntries [] column (Plain.entryOutlines entries) p).IsDone ∧
      AreEntriesOf column cs entries := by
  induction entries generalizing p lead with
  | nil => exact absurd rfl hne
  | cons entry rest ih =>
    obtain ⟨hkey, hmoreKeys⟩ := List.forall_mem_cons.1 hkeys
    obtain ⟨hvalue, hrest⟩ := List.forall_mem_cons.1 h
    obtain ⟨cs, hadds, hdone, hentry⟩ := exists_putEntry hkey hvalue hfresh
    have hfirst := hlead.trans hadds
    rw [Plain.entryOutlines, putEntries_cons]
    by_cases hnil : rest = []
    · subst hnil
      rw [Plain.entryOutlines, putEntries]
      exact ⟨cs, hfirst, hdone, hentry.entries⟩
    · obtain ⟨hline, hnext⟩ := hdone.text.adds_indentTo column
      obtain ⟨others, hothers, hend, hentries⟩ := ih hnil hmoreKeys hrest hline hnext
      refine ⟨cs ++ newLine column others, ?_, hend, hentry.append hentries⟩
      have hall := hfirst.trans hothers
      simpa [newLine] using hall

/-! ### Values -/

theorem writes_scalar {tag : String} (hv : v.outline = .scalar tag cs)
    (htree : v.tree = .scalar (String.ofList cs)) (huntagged : IsUntagged tag cs)
    (hkept : IsKept (column + 2) cs) : Writes column v := by
  refine writes_of_leaf ?_
  intro spot p hspot hopen
  have hspots : spot ≠ .simpleKey ∧ spot ≠ .root := by
    rcases hspot with rfl | rfl <;> exact ⟨by decide, by decide⟩
  obtain ⟨ws, isPlain, hadds, htext, hleaf, hclosed⟩ :=
    exists_putScalar (some column) spot p huntagged hkept hspots.1
  rw [hv, put]
  exact ⟨ws, hadds, ⟨htext, hclosed hopen hspots.2⟩,
    .scalar (String.ofList cs) isPlain, trivial, htree.symm, hleaf⟩

/-- What can stand without quotes is kept wherever it stands. -/
theorem isKept_of_allowsPlain (h : ScalarStyle.allowsPlain cs = true) (indent : Nat) :
    IsKept indent cs := by
  simp only [ScalarStyle.allowsPlain, Bool.and_eq_true] at h
  obtain ⟨⟨⟨⟨⟨hquotes, hline⟩, -⟩, -⟩, -⟩, -⟩ := h
  refine ⟨fun _ hmem => ?_, fun hno => ?_⟩
  · simp only [ScalarStyle.isSingleLine, Bool.not_eq_true', List.any_eq_false] at hline
    exact hline _ hmem (by decide)
  · rw [hquotes] at hno
    cases hno

theorem writes_word {tag : String} (hv : v.outline = .scalar tag cs)
    (htree : v.tree = .scalar (String.ofList cs)) (hbinary : tag ≠ Tag.binary)
    (htag : Tag.ofPlain cs = tag) (hne : cs ≠ []) (hallowed : ScalarStyle.allowsPlain cs = true) :
    Writes column v :=
  writes_scalar hv htree ⟨hbinary, .inr ⟨htag, hne, hallowed⟩⟩ (isKept_of_allowsPlain hallowed _)

theorem put_emptyList (indent : Option Nat) (spot : Spot) (p : Page) :
    put [] indent spot (Plain.list []).outline p = (p.sign ['['] true).sign [']'] false := by
  rw [Plain.outline, put]
  rfl

theorem put_emptyDict (indent : Option Nat) (spot : Spot) (p : Page) :
    put [] indent spot (Plain.dict []).outline p = (p.sign ['\x7b'] true).sign ['\x7d'] false := by
  rw [Plain.outline, put]
  rfl

theorem put_list {items : List Plain} (hne : items ≠ []) (indent : Option Nat) (spot : Spot)
    (p : Page) :
    put [] indent spot (Plain.list items).outline p =
      putItems [] (match indent with
        | some n =>
          if (spot = .part || spot = .simpleKey) && !p.isIndentation then n else n + Page.levelWidth
        | none => 0) (Plain.outlines items) p := by
  obtain ⟨item, rest, rfl⟩ := List.exists_cons_of_ne_nil hne
  rw [Plain.outline, put, Plain.outlines]
  rfl

theorem put_dict {entries : List (String × Plain)} (hne : entries ≠ []) (indent : Option Nat)
    (spot : Spot) (p : Page) :
    put [] indent spot (Plain.dict entries).outline p =
      putEntries [] (Outline.inner indent 0) (Plain.entryOutlines entries) p := by
  obtain ⟨entry, rest, rfl⟩ := List.exists_cons_of_ne_nil hne
  rw [Plain.outline, put, Plain.entryOutlines]
  rfl

theorem adds_brackets (p : Page) (x y : Char) :
    p.Adds (p.blank ++ [x, y]) ((p.sign [x] true).sign [y] false) := by
  have hall := (Page.adds_sign p [x]).trans (Page.adds_touching _ [y])
  simpa using hall

theorem writes_list {items : List Plain} (h : ∀ item ∈ items, Writes column item)
    (hdeeper : ∀ item ∈ items, Writes (column + 2) item) : Writes column (.list items) := by
  by_cases hnil : items = []
  · subst hnil
    refine writes_of_leaf ?_
    intro spot p hspot hopen
    rw [put_emptyList]
    exact ⟨['[', ']'], adds_brackets p '[' ']', ⟨⟨rfl, rfl⟩, rfl⟩, isLeafOf_emptyList _⟩
  · constructor
    · intro spot p hspot hp
      rw [put_list hnil]
      simp only [hp.isIndentation, Bool.not_true, Bool.and_false, Bool.false_eq_true, if_false]
      obtain ⟨hlead, hfresh⟩ := hp.adds_indentTo
      obtain ⟨cs, hadds, hdone, hitems⟩ := exists_putItems hnil hdeeper hlead hfresh
      exact ⟨cs, hadds, hdone, hitems.node⟩
    · intro p hp
      rw [put_list hnil]
      simp only [hp.text.isIndentation, Bool.not_false, Bool.and_true, decide_true, Bool.true_or,
        if_true]
      obtain ⟨hlead, hfresh⟩ := hp.text.adds_indentTo column
      obtain ⟨cs, hadds, hdone, hitems⟩ := exists_putItems hnil h hlead hfresh
      exact ⟨newLine column cs, hadds, hdone, fun key name hkey => hkey.entry_items hitems⟩

theorem writes_dict {entries : List (String × Plain)}
    (hkeys : ∀ entry ∈ entries, IsKeptKey (column + 2 + 2) entry.1.toList)
    (hdeeper : ∀ entry ∈ entries, Writes (column + 2) entry.2) : Writes column (.dict entries) := by
  by_cases hnil : entries = []
  · subst hnil
    refine writes_of_leaf ?_
    intro spot p hspot hopen
    rw [put_emptyDict]
    exact ⟨['\x7b', '\x7d'], adds_brackets p '\x7b' '\x7d', ⟨⟨rfl, rfl⟩, rfl⟩, isLeafOf_emptyDict _⟩
  · constructor
    · intro spot p hspot hp
      rw [put_dict hnil]
      obtain ⟨hlead, hfresh⟩ := hp.adds_indentTo
      obtain ⟨cs, hadds, hdone, hentries⟩ := exists_putEntries hnil hkeys hdeeper hlead hfresh
      exact ⟨cs, hadds, hdone, hentries.node⟩
    · intro p hp
      rw [put_dict hnil]
      obtain ⟨hlead, hfresh⟩ := hp.text.adds_indentTo (column + 2)
      obtain ⟨cs, hadds, hdone, hentries⟩ := exists_putEntries hnil hkeys hdeeper hlead hfresh
      exact ⟨newLine (column + 2) cs, hadds, hdone, fun key name hkey => hkey.entry_node hentries.node⟩

/-- Data that is kept at a column is written so that it is read back, there and further left. -/
theorem Survives.writes {place : Nat} (h : Survives place v) (hplace : column + 2 ≤ place) :
    Writes column v := by
  induction h generalizing column with
  | null place => exact writes_word rfl rfl (by decide) (by decide) (by decide) (by decide)
  | bool place b =>
    cases b with
    | false => exact writes_word rfl rfl (by decide) (by decide) (by decide) (by decide)
    | true => exact writes_word rfl rfl (by decide) (by decide) (by decide) (by decide)
  | int place i =>
    exact writes_word rfl rfl (by decide) (ofPlain_ofInt i) (ofInt_ne_nil i) (allowsPlain_ofInt i)
  | @text place s h =>
    refine writes_scalar rfl ?_ ⟨by decide, .inl rfl⟩ (h.mono (Nat.le_trans hplace (Nat.le_max_left _ _)))
    rw [String.ofList_toList, Plain.tree]
  | @list place items h ih =>
    refine writes_list (fun item hitem => ih item hitem ?_) (fun item hitem => ih item hitem ?_)
    · exact Nat.le_trans hplace (Nat.le_add_right _ _)
    · exact Nat.add_le_add_right hplace _
  | @dict place entries hkeys h ih =>
    refine writes_dict (fun entry hentry => (hkeys entry hentry).mono ?_)
      (fun entry hentry => ih entry hentry ?_)
    · exact Nat.add_le_add_right hplace _
    · exact Nat.add_le_add_right hplace _

end Treeline.Yaml
