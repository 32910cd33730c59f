import Treeline.Proofs.Yaml.Write.Block

/-!
# Writing documents

A document is what is written at its root: a scalar or empty brackets on a line, or the items or
entries of a collection. A plain scalar is marked as the end of its document. Whatever stands there
is read as the tokens of one shape.
-/

namespace Treeline.Yaml

open Outline

variable {cs : List Char} {v : Plain} {shape : Shape}

/-! ### The end of a document -/

/-- What is written at the root ends with its line, and with a mark behind it if it is open. -/
theorem exists_text {p : Page} (h : Page.empty.Adds cs p) (hp : p.IsText) :
    ∃ rest, IsLast rest ∧ (p.isOpen = false → rest = []) ∧
      (if (p.indentTo 0).isOpen then ((p.indentTo 0).sign ['.', '.', '.'] true).indentTo 0
        else p.indentTo 0).text = cs ++ newLine 0 rest := by
  obtain ⟨hline, hfresh⟩ := hp.adds_indentTo 0
  have hdone := h.trans hline
  rw [Page.isOpen_indentTo]
  cases hopen : p.isOpen with
  | false => exact ⟨[], .inl rfl, fun _ => rfl, hdone.text⟩
  | true =>
    have hmark := Page.adds_sign (p.indentTo 0) ['.', '.', '.']
    rw [hfresh.blank] at hmark
    obtain ⟨hlast, -⟩ := (Page.isText_sign (p.indentTo 0) ['.', '.', '.'] true).adds_indentTo 0
    -- the mark stands on a line of its own, behind the line break that was added before it
    refine ⟨"...\n".toList, .inr rfl, nofun, ?_⟩
    have hall := ((hdone.trans hmark).trans hlast).text
    rw [if_pos rfl, hall]
    simp [newLine]

/-! ### What is written at the root -/

theorem usesItems_outlines {items : List Plain} (h : ∀ item ∈ items, item.outline.uses = []) :
    usesItems (Plain.outlines items) = [] := by
  induction items with
  | nil => rfl
  | cons item rest ih =>
    obtain ⟨hitem, hrest⟩ := List.forall_mem_cons.1 h
    rw [Plain.outlines, usesItems, hitem, ih hrest, List.append_nil]

theorem usesEntries_entryOutlines {entries : List (String × Plain)}
    (h : ∀ entry ∈ entries, entry.2.outline.uses = []) :
    usesEntries (Plain.entryOutlines entries) = [] := by
  induction entries with
  | nil => rfl
  | cons entry rest ih =>
    obtain ⟨hentry, hrest⟩ := List.forall_mem_cons.1 h
    rw [Plain.entryOutlines, usesEntries, hentry, ih hrest, uses]
    rfl

theorem uses_outline {place : Nat} (h : Survives place v) : v.outline.uses = [] := by
  induction h with
  | null place => rfl
  | bool place b => rfl
  | int place i => rfl
  | text h => rfl
  | list h ih => rw [Plain.outline, uses, usesItems_outlines ih]
  | dict hkeys h ih => rw [Plain.outline, uses, usesEntries_entryOutlines ih]

theorem write_outline {place : Nat} (h : Survives place v) :
    v.outline.write =
      (if ((put [] none .root v.outline .empty).indentTo 0).isOpen then
        (((put [] none .root v.outline .empty).indentTo 0).sign ['.', '.', '.'] true).indentTo 0
        else (put [] none .root v.outline .empty).indentTo 0).text := by
  rw [write, anchored, uses_outline h]
  rfl

/-- Characters that are read as a document of some data. -/
def IsDocumentOf (cs : List Char) (v : Plain) : Prop :=
  ∃ shape : Shape, shape.Fits .block ∧ shape.tree = v.tree ∧ (∀ x ∈ cs, isAllowed x = true) ∧
    ∃ tokens tail, TokenStream.ofText cs = ⟨tokens, none⟩ ∧
      tokens.map Token.lexeme = shape.lexemes ++ tail ∧ IsTail tail

theorem isAllowed_last {rest : List Char} (h : IsLast rest) : ∀ x ∈ rest, isAllowed x = true := by
  rcases h with rfl | rfl
  · simp
  · exact List.all_eq_true.1 (by decide)

theorem IsLeafOf.document {least : Nat} {rest : List Char} (h : IsLeafOf least cs v)
    (hrest : IsLast rest) : IsDocumentOf (cs ++ newLine 0 rest) v := by
  obtain ⟨shape, hfits, htree, hleaf⟩ := h
  refine ⟨shape, hfits, htree, ?_, hleaf.exists_tokens hrest⟩
  exact List.forall_mem_append.2 ⟨hleaf.allowed, isAllowed_newLine (isAllowed_last hrest) 0⟩

theorem AreItemsOf.document {items : List Plain} (h : AreItemsOf 0 cs items) :
    IsDocumentOf (cs ++ newLine 0 []) (.list items) := by
  obtain ⟨shapes, -, hfits, htrees, hblock⟩ := h
  obtain ⟨tokens, hstream, htokens⟩ := hblock.exists_tokens
  refine ⟨.blockSequence shapes, ⟨by decide, hfits⟩, congrArg Tree.sequence htrees, ?_,
    tokens, [.streamEnd], hstream, htokens, .inl rfl⟩
  exact List.forall_mem_append.2 ⟨hblock.allowed, isAllowed_newLine (by simp) 0⟩

theorem AreEntriesOf.document {entries : List (String × Plain)} (h : AreEntriesOf 0 cs entries) :
    IsDocumentOf (cs ++ newLine 0 []) (.dict entries) := by
  obtain ⟨shapes, hfits, htrees, hblock⟩ := h
  obtain ⟨tokens, hstream, htokens⟩ := hblock.exists_tokens
  refine ⟨.blockMapping shapes, ⟨by decide, hfits⟩, congrArg Tree.mapping htrees, ?_,
    tokens, [.streamEnd], hstream, htokens, .inl rfl⟩
  exact List.forall_mem_append.2 ⟨hblock.allowed, isAllowed_newLine (by simp) 0⟩

/-! ### All documents -/

theorem isDocumentOf_leaf {place least : Nat} (hv : Survives place v)
    (hadds : Page.empty.Adds cs (put [] none .root v.outline .empty))
    (htext : (put [] none .root v.outline .empty).IsText) (h : IsLeafOf least cs v) :
    IsDocumentOf v.outline.write v := by
  obtain ⟨rest, hlast, -, hwritten⟩ := exists_text hadds htext
  rw [write_outline hv, hwritten]
  exact h.document hlast

theorem isDocumentOf_scalar {place : Nat} {tag : String} (hv : Survives place v)
    (houtline : v.outline = .scalar tag cs) (htree : v.tree = .scalar (String.ofList cs))
    (huntagged : IsUntagged tag cs) (hkept : IsKept Page.levelWidth cs) :
    IsDocumentOf v.outline.write v := by
  obtain ⟨ws, isPlain, hadds, htext, hleaf, -⟩ :=
    exists_putScalar none .root .empty huntagged hkept (by decide)
  have hput : put [] none .root v.outline .empty = putScalar none .root tag cs .empty := by
    rw [houtline, put]
  rw [← hput] at hadds htext
  exact isDocumentOf_leaf hv hadds htext
    ⟨.scalar (String.ofList cs) isPlain, trivial, htree.symm, hleaf⟩

theorem adds_indentTo_empty : Page.empty.Adds [] (Page.empty.indentTo 0) ∧
    (Page.empty.indentTo 0).IsFresh 0 := Page.isFresh_empty.adds_indentTo (Nat.le_refl 0)

theorem isDocumentOf_list {place : Nat} {items : List Plain} (hv : Survives place (.list items))
    (h : ∀ item ∈ items, Writes 0 item) :
    IsDocumentOf (Plain.list items).outline.write (.list items) := by
  by_cases hnil : items = []
  · subst hnil
    have hput := put_emptyList none .root .empty
    have hadds := adds_brackets .empty '[' ']'
    rw [← hput] at hadds
    exact isDocumentOf_leaf hv hadds (by rw [hput]; exact ⟨rfl, rfl⟩) (isLeafOf_emptyList 0)
  · obtain ⟨hlead, hfresh⟩ := adds_indentTo_empty
    obtain ⟨cs, hadds, hdone, hitems⟩ := exists_putItems hnil h hlead hfresh
    have hput := put_list hnil none .root .empty
    dsimp only at hput
    rw [← hput] at hadds hdone
    obtain ⟨rest, -, hclosed, hwritten⟩ := exists_text hadds hdone.text
    rw [write_outline hv, hwritten, hclosed hdone.isOpen]
    exact hitems.document

theorem isDocumentOf_dict {place : Nat} {entries : List (String × Plain)}
    (hv : Survives place (.dict entries))
    (hkeys : ∀ entry ∈ entries, IsKeptKey 2 entry.1.toList)
    (h : ∀ entry ∈ entries, Writes 0 entry.2) :
    IsDocumentOf (Plain.dict entries).outline.write (.dict entries) := by
  by_cases hnil : entries = []
  · subst hnil
    have hput := put_emptyDict none .root .empty
    have hadds := adds_brackets .empty '\x7b' '\x7d'
    rw [← hput] at hadds
    exact isDocumentOf_leaf hv hadds (by rw [hput]; exact ⟨rfl, rfl⟩) (isLeafOf_emptyDict 0)
  · obtain ⟨hlead, hfresh⟩ := adds_indentTo_empty
    obtain ⟨cs, hadds, hdone, hentries⟩ := exists_putEntries hnil hkeys h hlead hfresh
    have hput : put [] none .root (Plain.dict entries).outline .empty =
        putEntries [] 0 (Plain.entryOutlines entries) .empty := put_dict hnil none .root .empty
    rw [← hput] at hadds hdone
    obtain ⟨rest, -, hclosed, hwritten⟩ := exists_text hadds hdone.text
    rw [write_outline hv, hwritten, hclosed hdone.isOpen]
    exact hentries.document

theorem isDocumentOf_word {place : Nat} {tag : String} (hv : Survives place v)
    (houtline : v.outline = .scalar tag cs) (htree : v.tree = .scalar (String.ofList cs))
    (hbinary : tag ≠ Tag.binary) (htag : Tag.ofPlain cs = tag) (hne : cs ≠ [])
    (hallowed : ScalarStyle.allowsPlain cs = true) : IsDocumentOf v.outline.write v :=
  isDocumentOf_scalar hv houtline htree ⟨hbinary, .inr ⟨htag, hne, hallowed⟩⟩
    (isKept_of_allowsPlain hallowed _)

/-- Data that is kept at the root is written as a document that is read as the data. -/
theorem Survives.document (h : Survives 0 v) : IsDocumentOf v.outline.write v := by
  cases h with
  | null =>
    exact isDocumentOf_word (.null 0) rfl rfl (by decide) (by decide) (by decide) (by decide)
  | bool _ b =>
    cases b with
    | false =>
      exact isDocumentOf_word (.bool 0 false) rfl rfl (by decide) (by decide) (by decide)
        (by decide)
    | true =>
      exact isDocumentOf_word (.bool 0 true) rfl rfl (by decide) (by decide) (by decide) (by decide)
  | int _ i =>
    exact isDocumentOf_word (.int 0 i) rfl rfl (by decide) (ofPlain_ofInt i) (ofInt_ne_nil i)
      (allowsPlain_ofInt i)
  | text htext =>
    refine isDocumentOf_scalar (.text htext) rfl ?_ ⟨by decide, .inl rfl⟩ htext
    rw [String.ofList_toList, Plain.tree]
  | list hitems =>
    exact isDocumentOf_list (.list hitems) fun item hitem => (hitems item hitem).writes (by decide)
  | dict hkeys hvalues =>
    exact isDocumentOf_dict (.dict hkeys hvalues) hkeys fun entry hentry =>
      (hvalues entry hentry).writes (by decide)

end Treeline.Yaml
