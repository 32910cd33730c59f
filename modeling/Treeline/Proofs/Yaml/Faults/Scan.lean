import Treeline.Proofs.Yaml.Faults.Token
import Treeline.Yaml.Token.Stream

/-!
# Faults between tokens

A step reads one token and leaves a suffix of what was left before it. Noting and dropping possible
keys, opening and ending block collections and passing over gaps ends with no fault. So the tokens
of a text break off with a fault only if the text causes it.
-/

namespace Treeline.Yaml

theorem Accounted.ite {α : Type} {cs : List Char} {left : α → List Char} {x y : Result α}
    {p : Prop} [Decidable p] (hx : p → Accounted cs left x) (hy : ¬p → Accounted cs left y) :
    Accounted cs left (if p then x else y) := by
  split
  · exact hx ‹_›
  · exact hy ‹_›

namespace Scan

variable {s : Scan}

def left (s : Scan) : List Char := s.cursor.rest

/-! ### Keys and indentation -/

theorem accounted_giveUp (s : Scan) (key : Option PossibleKey) (cs : List Char) :
    Accounted cs (fun _ => cs) (s.giveUp key) := by
  unfold giveUp
  split
  · exact .ok List.suffix_rfl
  · exact .ite (fun _ => .refuseIn) fun _ => .ok List.suffix_rfl

theorem accounted_checkKey (s : Scan) (key : Option PossibleKey) (cs : List Char) :
    Accounted cs (fun _ => cs) (s.checkKey key) := by
  unfold checkKey
  split
  · exact .ok List.suffix_rfl
  · exact .ite (fun _ => s.accounted_giveUp _ cs) fun _ => .ok List.suffix_rfl

theorem accounted_checkKeys (s : Scan) (keys : List (Option PossibleKey)) (cs : List Char) :
    Accounted cs (fun _ => cs) (keys.mapM s.checkKey) := by
  induction keys with
  | nil => exact .ok List.suffix_rfl
  | cons key keys ih =>
    rw [List.mapM_cons]
    exact (s.accounted_checkKey key cs).bind fun _ _ => ih.bind fun _ _ => .ok List.suffix_rfl

theorem accounted_dropStale (s : Scan) : Accounted s.left left s.dropStale :=
  (s.accounted_checkKey s.key s.left).bind fun _ _ =>
    (s.accounted_checkKeys s.outer s.left).bind fun _ _ => .ok List.suffix_rfl

theorem accounted_dropKey (s : Scan) : Accounted s.left left s.dropKey :=
  (s.accounted_giveUp s.key s.left).bind fun _ _ => .ok List.suffix_rfl

theorem accounted_saveKey (s : Scan) : Accounted s.left left s.saveKey := by
  unfold saveKey
  exact .ite (fun _ => s.accounted_dropKey.bind fun _ _ => .ok List.suffix_rfl)
    fun _ => .ok List.suffix_rfl

theorem left_pushSign (s : Scan) (lexeme : Lexeme) (length : Nat) :
    (s.pushSign lexeme length).left <:+ s.left := s.cursor.skip_suffix length

theorem left_unwindTo (column : Nat) (indents : List Nat) (s : Scan) :
    (unwindTo column indents s).left = s.left := by
  induction indents generalizing s with
  | nil => rfl
  | cons indent rest ih =>
    rw [unwindTo]
    split
    · exact ih _
    · rfl

theorem left_unwind (s : Scan) : s.unwind.left = s.left := by
  rw [unwind]
  split
  · rfl
  · exact left_unwindTo _ _ s

theorem left_unwindAll (s : Scan) : s.unwindAll.left = s.left := by
  rw [unwindAll]
  split <;> rfl

theorem left_openBlock (s : Scan) (lexeme : Lexeme) : (s.openBlock lexeme).left = s.left := by
  rw [openBlock]
  split <;> rfl

theorem left_openBlock_of_block (s : Scan) (lexeme : Lexeme) :
    (if s.inFlow then s else s.openBlock lexeme).left = s.left := by
  split
  · rfl
  · exact s.left_openBlock lexeme

/-! ### One token -/

theorem accounted_leaveDocument (s : Scan) : Accounted s.left left s.leaveDocument := by
  rw [leaveDocument]
  have hdrop := s.unwindAll.accounted_dropKey
  rw [left_unwindAll] at hdrop
  exact hdrop.bind fun _ _ => .ok List.suffix_rfl

theorem accounted_readEnd (s : Scan) : Accounted s.left left s.readEnd := by
  rw [readEnd]
  have hdrop := s.unwindAll.accounted_dropKey
  rw [left_unwindAll] at hdrop
  exact hdrop.bind fun _ _ => .ok List.suffix_rfl

theorem accounted_sign {x : Result Scan} (hx : Accounted s.left left x) (f : Scan → Scan)
    (hf : ∀ t, (f t).left = t.left) (lexeme : Lexeme) (length : Nat) :
    Accounted s.left left (do return (f (← x)).pushSign lexeme length) :=
  hx.bind fun t _ => .ok (hf t ▸ (f t).left_pushSign lexeme length)

theorem accounted_readBlockEntry (s : Scan) : Accounted s.left left s.readBlockEntry := by
  rw [readBlockEntry]
  refine .ite (fun _ => .refuse) fun _ => ?_
  have hleft := s.left_openBlock_of_block .blockSequenceStart
  generalize (if s.inFlow then s else s.openBlock .blockSequenceStart) = t at hleft
  rw [← hleft]
  exact accounted_sign t.accounted_dropKey (fun u => { u with keyAllowed := true })
    (fun _ => rfl) _ _

theorem accounted_readKeySign (s : Scan) : Accounted s.left left s.readKeySign := by
  rw [readKeySign]
  refine .ite (fun _ => .refuse) fun _ => ?_
  have hleft := s.left_openBlock_of_block .blockMappingStart
  generalize (if s.inFlow then s else s.openBlock .blockMappingStart) = t at hleft
  rw [← hleft]
  exact accounted_sign t.accounted_dropKey (fun u => { u with keyAllowed := !t.inFlow })
    (fun _ => rfl) _ _

theorem accounted_readValueSign (s : Scan) : Accounted s.left left s.readValueSign := by
  unfold readValueSign
  split
  · exact .ok (left_pushSign _ _ _)
  · refine .ite (fun _ => .refuse) fun _ => ?_
    have hleft := s.left_openBlock_of_block .blockMappingStart
    generalize (if s.inFlow then s else s.openBlock .blockMappingStart) = t at hleft
    rw [← hleft]
    exact .ok (left_pushSign { t with keyAllowed := !t.inFlow } _ _)

theorem accounted_readOpening (s : Scan) (lexeme : Lexeme) :
    Accounted s.left left (s.readOpening lexeme) :=
  accounted_sign s.accounted_saveKey
    (fun t => { t with outer := t.key :: t.outer, key := none, keyAllowed := true })
    (fun _ => rfl) _ _

theorem accounted_readClosing (s : Scan) (lexeme : Lexeme) :
    Accounted s.left left (s.readClosing lexeme) :=
  accounted_sign s.accounted_dropKey
    (fun t => { t with key := t.outer.head?.getD none, outer := t.outer.tail, keyAllowed := false })
    (fun _ => rfl) _ _

theorem accounted_readFlowEntry (s : Scan) : Accounted s.left left s.readFlowEntry :=
  accounted_sign s.accounted_dropKey (fun t => { t with keyAllowed := true }) (fun _ => rfl) _ _

theorem accounted_readKeyLike {read : Cursor → Result (Token × Cursor)}
    (hread : ∀ c, Accounted c.rest Token.restOf (read c)) (s : Scan) :
    Accounted s.left left (s.readKeyLike read) :=
  s.accounted_saveKey.bind fun t _ => (hread t.cursor).bind fun _ _ => .ok List.suffix_rfl

theorem accounted_readBlock (s : Scan) (isFolded : Bool) :
    Accounted s.left left (s.readBlock isFolded) :=
  (accounted_dropKey { s with keyAllowed := true }).bind fun t _ =>
    (Token.accounted_readBlockText isFolded t.textIndent t.cursor).bind fun _ _ =>
      .ok List.suffix_rfl

theorem accounted_readPlain (s : Scan) : Accounted s.left left s.readPlain :=
  s.accounted_saveKey.bind fun t _ =>
    .ok (Token.readPlainText_suffix t.inFlow t.textIndent t.cursor)

theorem accounted_readToken (s : Scan) : Accounted s.left left s.readToken := by
  have hdirective : s.cursor.char = '%' → Accounted s.left left (do
      return (← s.leaveDocument).pushRead (← Token.readDirective s.cursor)) := fun hsign =>
    s.accounted_leaveDocument.bind_of_ok fun t _ _ =>
      (Token.accounted_readDirective hsign).bind fun _ _ => .ok List.suffix_rfl
  have hdocument : ∀ lexeme, Accounted s.left left (do
      return (← s.leaveDocument).pushSign lexeme 3) := fun lexeme =>
    accounted_sign s.accounted_leaveDocument id (fun _ => rfl) lexeme 3
  unfold readToken
  dsimp only
  refine .ite (fun _ => s.accounted_readEnd) fun _ => ?_
  refine .ite (fun h => hdirective (by simp_all)) fun _ => ?_
  refine .ite (fun _ => hdocument _) fun _ => .ite (fun _ => hdocument _) fun _ => ?_
  refine .ite (fun _ => s.accounted_readOpening _) fun _ => ?_
  refine .ite (fun _ => s.accounted_readOpening _) fun _ => ?_
  refine .ite (fun _ => s.accounted_readClosing _) fun _ => ?_
  refine .ite (fun _ => s.accounted_readClosing _) fun _ => ?_
  refine .ite (fun _ => s.accounted_readFlowEntry) fun _ => ?_
  refine .ite (fun _ => s.accounted_readBlockEntry) fun _ => ?_
  refine .ite (fun _ => s.accounted_readKeySign) fun _ => ?_
  refine .ite (fun _ => s.accounted_readValueSign) fun _ => ?_
  refine .ite (fun _ => accounted_readKeyLike (Token.accounted_readName _ _) s) fun _ => ?_
  refine .ite (fun _ => accounted_readKeyLike (Token.accounted_readName _ _) s) fun _ => ?_
  refine .ite (fun _ => accounted_readKeyLike Token.accounted_readTag s) fun _ => ?_
  refine .ite (fun _ => s.accounted_readBlock false) fun _ => ?_
  refine .ite (fun _ => s.accounted_readBlock true) fun _ => ?_
  refine .ite (fun _ => accounted_readKeyLike (Token.accounted_readQuotedText _) s) fun _ => ?_
  refine .ite (fun _ => accounted_readKeyLike (Token.accounted_readQuotedText _) s) fun _ => ?_
  exact .ite (fun _ => s.accounted_readPlain) fun _ => .reported

/-! ### All tokens -/

theorem skipGap_suffix (inFlow : Bool) (fuel : Nat) (keyAllowed : Bool) (c : Cursor) :
    (skipGap inFlow fuel keyAllowed c).2.rest <:+ c.rest := by
  induction fuel generalizing keyAllowed c with
  | zero => exact List.suffix_rfl
  | succ fuel ih =>
    have hcomment : c.skipSpaces.skipComment.rest <:+ c.rest :=
      c.skipSpaces.skipComment_suffix.trans c.skipSpaces_suffix
    rw [skipGap]
    split
    · exact hcomment
    · rename_i x after hbreak
      exact (ih _ after).trans ((Cursor.break?_suffix hbreak).trans hcomment)

theorem skipByteOrderMark_suffix (c : Cursor) : (skipByteOrderMark c).rest <:+ c.rest := by
  rw [skipByteOrderMark]
  split
  · exact c.next_suffix
  · exact List.suffix_rfl

/-- A step leaves a suffix of what was left before it. -/
theorem accounted_step (s : Scan) : Accounted s.left left s.step := by
  have hgap := (skipGap_suffix s.inFlow ((skipByteOrderMark s.cursor).rest.length + 1) s.keyAllowed
    (skipByteOrderMark s.cursor)).trans (skipByteOrderMark_suffix s.cursor)
  rw [step]
  generalize skipGap s.inFlow ((skipByteOrderMark s.cursor).rest.length + 1) s.keyAllowed
    (skipByteOrderMark s.cursor) = gap at hgap
  have hdrop := accounted_dropStale { s with cursor := gap.2, keyAllowed := gap.1 }
  refine (hdrop.mono hgap).bind fun t _ => ?_
  have hread := t.unwind.accounted_readToken
  rw [left_unwind] at hread
  exact hread.bind fun u _ => u.accounted_dropStale.bind fun _ _ => .ok List.suffix_rfl

/-- If the tokens break off with a fault, what was left to read causes it. -/
theorem causes_of_run {fault : Fault} (fuel : Nat) (s : Scan)
    (h : (run fuel s).broken = some (.fault fault)) : Causes s.left fault := by
  induction fuel generalizing s with
  | zero => cases h
  | succ fuel ih =>
    have hstep := s.accounted_step
    rw [run] at h
    split at h
    · cases h
    · split at h
      · rename_i stop hstop
        rw [hstop, Option.some.inj h] at hstep
        exact hstep
      · rename_i t ht
        rw [ht] at hstep
        exact (ih t h).mono hstep

end Scan

theorem causes_of_broken {text : List Char} {fault : Fault}
    (h : (TokenStream.ofText text).broken = some (.fault fault)) : Causes text fault :=
  Scan.causes_of_run _ (.ofText text) h

end Treeline.Yaml
