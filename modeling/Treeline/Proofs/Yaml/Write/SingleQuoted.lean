import Treeline.Proofs.Yaml.Leaf
import Treeline.Proofs.Yaml.ScalarStyle
import Treeline.Proofs.Yaml.Write.Page

/-!
# Writing text between single quotes

A text is taken apart into spaces, line breaks, quotes and runs of other characters. The parts are
written so that they are read back, as no line break stands beside a space and none is the character
that is read as a line feed.
-/

namespace Treeline.Yaml

open Token

/-- A text that is read back if it is written between single quotes. -/
structure IsQuotable (cs : List Char) : Prop where
  ordinary : ∀ x ∈ cs, ScalarStyle.isSpecial x = false ∧ x ≠ '\u0085'
  behindBreak : cs.IsChain fun a b => (ScalarStyle.breaksLine a && decide (b = ' ')) = false
  beforeBreak : cs.IsChain fun a b => (decide (a = ' ') && ScalarStyle.breaksLine b) = false

/-- Whether a text begins with neither a space nor a line break. -/
def startsInk (cs : List Char) : Prop :=
  ∀ x, cs.head? = some x → x ≠ ' ' ∧ ScalarStyle.breaksLine x = false

variable {cs as bs : List Char} {x : Char}

theorem IsQuotable.right (h : IsQuotable (as ++ bs)) : IsQuotable bs where
  ordinary x hx := h.ordinary x (List.mem_append_right _ hx)
  behindBreak := h.behindBreak.right_of_append
  beforeBreak := h.beforeBreak.right_of_append

/-- Neither a line break comes behind a space, nor a space behind a line break. -/
theorem IsQuotable.behind (h : IsQuotable (as ++ bs)) (hlast : as.getLast? = some x)
    (hx : x = ' ' ∨ ScalarStyle.breaksLine x = true)
    (hrun : ∀ y, bs.head? = some y → (x = ' ' → y ≠ ' ') ∧
      (ScalarStyle.breaksLine x = true → ScalarStyle.breaksLine y = false)) :
    startsInk bs := by
  intro y hy
  have hbehind := (List.isChain_append.1 h.behindBreak).2.2 x hlast y hy
  have hbefore := (List.isChain_append.1 h.beforeBreak).2.2 x hlast y hy
  obtain ⟨hspace, hbreak⟩ := hrun y hy
  rcases hx with rfl | hx
  · exact ⟨hspace rfl, by simpa using hbefore⟩
  · exact ⟨by simpa [hx] using hbehind, hbreak hx⟩

/-! ### Parts -/

/-- A character that stands for itself between single quotes. -/
def isBare (x : Char) : Bool := x != ' ' && x != '\x27' && !ScalarStyle.breaksLine x

/-- A text in parts: spaces, line breaks, quotes, and runs of other characters. -/
inductive Parts : List Char → Prop
  | nil : Parts []
  | spaces (count : Nat) {rest : List Char} (hstart : startsInk rest) (hrest : Parts rest) :
      Parts (List.replicate (count + 1) ' ' ++ rest)
  | breaks {x : Char} {run rest : List Char} (hx : IsLasting x) (hrun : ∀ y ∈ run, IsLasting y)
      (hstart : startsInk rest) (hrest : Parts rest) : Parts (x :: run ++ rest)
  | quote {rest : List Char} (hrest : Parts rest) : Parts ('\x27' :: rest)
  | run {run rest : List Char} (hne : run ≠ []) (hrun : ∀ y ∈ run, IsInk y ∧ y ≠ '\x27')
      (hend : ∀ y, rest.head? = some y → isBare y = false) (hrest : Parts rest) :
      Parts (run ++ rest)

theorem Token.IsLasting.breaksLine (h : IsLasting x) : ScalarStyle.breaksLine x = true := by
  simp [ScalarStyle.breaksLine, h.1, h.2.1]

theorem IsQuotable.isLasting (h : IsQuotable cs) (hx : x ∈ cs)
    (hbreak : ScalarStyle.breaksLine x = true) : IsLasting x := by
  rw [ScalarStyle.breaksLine, Bool.and_eq_true] at hbreak
  exact ⟨hbreak.1, by simpa using hbreak.2, (h.ordinary x hx).2⟩

theorem IsQuotable.exists_spaces (h : IsQuotable (' ' :: cs)) :
    ∃ count rest, ' ' :: cs = List.replicate (count + 1) ' ' ++ rest ∧ startsInk rest := by
  obtain ⟨spaces, rest, rfl, hspaces, hrest⟩ := exists_front (fun y => decide (y = ' ')) cs
  have hcount : spaces = List.replicate spaces.length ' ' :=
    List.eq_replicate_of_mem fun y hy => by simpa using hspaces y hy
  have hcs : ' ' :: (spaces ++ rest) = List.replicate (spaces.length + 1) ' ' ++ rest := by
    rw [List.replicate_succ, ← hcount, List.cons_append]
  refine ⟨spaces.length, rest, hcs, ?_⟩
  rw [hcs] at h
  refine h.behind (by rw [List.getLast?_replicate]; rfl) (.inl rfl) fun y hy => ⟨?_, ?_⟩
  · exact fun _ => by simpa using hrest y hy
  · exact fun hbreak => absurd hbreak (by decide)

theorem IsQuotable.exists_breaks (h : IsQuotable (x :: cs))
    (hx : ScalarStyle.breaksLine x = true) :
    ∃ run rest, cs = run ++ rest ∧ (∀ y ∈ x :: run, IsLasting y) ∧ startsInk rest := by
  obtain ⟨run, rest, rfl, hrun, hrest⟩ := exists_front ScalarStyle.breaksLine cs
  rw [← List.cons_append] at h
  have hbreak : ∀ y ∈ x :: run, ScalarStyle.breaksLine y = true :=
    List.forall_mem_cons.2 ⟨hx, hrun⟩
  refine ⟨run, rest, rfl, fun y hy => h.isLasting (List.mem_append_left _ hy) (hbreak y hy), ?_⟩
  obtain ⟨y, hy⟩ : ∃ y, (x :: run).getLast? = some y := ⟨_, List.getLast?_cons⟩
  have hyBreak := hbreak y (List.mem_of_getLast? hy)
  refine h.behind hy (.inr hyBreak) fun z hz => ⟨?_, fun _ => hrest z hz⟩
  rintro rfl
  exact absurd hyBreak (by decide)

theorem IsQuotable.exists_run (h : IsQuotable (x :: cs)) (hx : isBare x = true) :
    ∃ run rest, cs = run ++ rest ∧ (∀ y ∈ x :: run, IsInk y ∧ y ≠ '\x27') ∧
      ∀ y, rest.head? = some y → isBare y = false := by
  obtain ⟨run, rest, rfl, hrun, hrest⟩ := exists_front isBare cs
  refine ⟨run, rest, rfl, fun y hy => ?_, hrest⟩
  have hall : ∀ y ∈ x :: run, isBare y = true := List.forall_mem_cons.2 ⟨hx, hrun⟩
  have hbare := hall y hy
  simp only [isBare, Bool.and_eq_true, bne_iff_ne, Bool.not_eq_true'] at hbare
  have hordinary := h.ordinary y (List.mem_append_left rest hy)
  exact ⟨⟨hordinary.1, hbare.2, hbare.1.1⟩, hbare.1.2⟩

theorem IsQuotable.parts (h : IsQuotable cs) : Parts cs := by
  induction hlength : cs.length using Nat.strong_induction_on generalizing cs with
  | _ length ih =>
  -- what is left behind a part that is not empty
  have hleft : ∀ {front rest : List Char}, cs = front ++ rest → front ≠ [] → Parts rest := by
    rintro front rest rfl hne
    have hpos := List.length_pos_iff.2 hne
    rw [List.length_append] at hlength
    exact ih rest.length (by omega) h.right rfl
  cases cs with
  | nil => exact .nil
  | cons x cs =>
    by_cases hspace : x = ' '
    · subst hspace
      obtain ⟨count, rest, hcs, hstart⟩ := h.exists_spaces
      have hparts := hleft hcs (by simp)
      rw [hcs]
      exact .spaces _ hstart hparts
    by_cases hbreak : ScalarStyle.breaksLine x = true
    · obtain ⟨run, rest, rfl, hlasting, hstart⟩ := h.exists_breaks hbreak
      obtain ⟨hx, hrun⟩ := List.forall_mem_cons.1 hlasting
      exact .breaks hx hrun hstart (hleft List.cons_append.symm (List.cons_ne_nil x run))
    by_cases hquote : x = '\x27'
    · subst hquote
      have hcs : '\x27' :: cs = ['\x27'] ++ cs := rfl
      exact .quote (hleft hcs (by simp))
    · have hbare : isBare x = true := by simp [isBare, hspace, hquote, hbreak]
      obtain ⟨run, rest, rfl, hrun, hend⟩ := h.exists_run hbare
      have hne := List.cons_ne_nil x run
      exact .run hne hrun hend (hleft List.cons_append.symm hne)

namespace Page

variable {breaks isStart : Bool} {indent fuel : Nat} {p : Page} {rest : List Char}

/-- A text can go on here, and if it goes on with a space, a new line can begin. -/
def IsBehind (p : Page) (indent : Nat) (cs : List Char) : Prop :=
  p.isIndentation = false ∨ indent < p.column ∨ p.column = indent ∧ cs.head? ≠ some ' '

theorem IsBehind.put (h : p.IsBehind indent cs) (hne : as ≠ []) (bs : List Char) :
    (p.put as).IsBehind indent bs := by
  have hlength := List.length_pos_iff.2 hne
  have hcolumn : (p.put as).column = p.column + as.length := rfl
  rcases h with h | h | h
  · exact .inl h
  · exact .inr (.inl (by omega))
  · exact .inr (.inl (by omega))

theorem IsFresh.isBehind (h : p.IsFresh indent) (hcs : cs.head? ≠ some ' ') :
    p.IsBehind indent cs := .inr (.inr ⟨h.column, hcs⟩)

theorem putSingleQuoted_nil (breaks isStart : Bool) (indent fuel : Nat) (p : Page) :
    putSingleQuoted breaks indent fuel isStart [] p = p := by
  cases fuel <;> rfl

theorem putSingleQuoted_spaces (count : Nat) (hrest : ∀ x, rest.head? = some x → x ≠ ' ') :
    putSingleQuoted breaks indent (fuel + 1) isStart (List.replicate (count + 1) ' ' ++ rest) p =
      putSingleQuoted breaks indent fuel false rest
        (if count + 1 = 1 && lineWidth < p.column && breaks && !isStart && !rest.isEmpty then
          p.indentTo indent
        else p.put (List.replicate (count + 1) ' ')) := by
  have hrun : (List.replicate (count + 1) ' ' ++ rest).takeWhile (· = ' ') =
      List.replicate (count + 1) ' ' := by
    refine takeWhile_front ?_ fun y hy => by simpa using hrest y hy
    exact fun y hy => by simpa using List.eq_of_mem_replicate hy
  rw [List.replicate_succ, List.cons_append] at hrun ⊢
  rw [putSingleQuoted, if_pos rfl, hrun]
  simp only [List.length_cons, List.length_replicate, List.drop_succ_cons]
  have hdrop : (List.replicate count ' ' ++ rest).drop count = rest := by
    rw [List.drop_append_of_le_length (by simp), List.drop_of_length_le (by simp), List.nil_append]
  rw [hdrop]

theorem putSingleQuoted_breaks {run : List Char} (hne : run ≠ [])
    (hrun : ∀ x ∈ run, ScalarStyle.breaksLine x = true)
    (hrest : ∀ x, rest.head? = some x → ScalarStyle.breaksLine x = false) :
    putSingleQuoted breaks indent (fuel + 1) isStart (run ++ rest) p =
      putSingleQuoted breaks indent fuel false rest ((p.putBreaks run).indentTo indent) := by
  obtain ⟨x, run, rfl⟩ := List.exists_cons_of_ne_nil hne
  have hx := hrun x List.mem_cons_self
  have hspace : x ≠ ' ' := by
    rintro rfl
    exact absurd hx (by decide)
  have htake := takeWhile_front hrun hrest
  rw [List.cons_append] at htake ⊢
  rw [putSingleQuoted, if_neg hspace, if_pos hx, htake]
  simp only [List.length_cons, List.drop_succ_cons, List.drop_left]

theorem putSingleQuoted_quote (rest : List Char) :
    putSingleQuoted breaks indent (fuel + 1) isStart ('\x27' :: rest) p =
      putSingleQuoted breaks indent fuel false rest (p.put ['\x27', '\x27']) := by
  rw [putSingleQuoted, if_neg (by decide), if_neg (by decide), if_pos rfl]

theorem putSingleQuoted_run {run : List Char} (hne : run ≠ []) (hrun : ∀ x ∈ run, isBare x = true)
    (hrest : ∀ x, rest.head? = some x → isBare x = false) :
    putSingleQuoted breaks indent (fuel + 1) isStart (run ++ rest) p =
      putSingleQuoted breaks indent fuel false rest (p.put run) := by
  obtain ⟨x, run, rfl⟩ := List.exists_cons_of_ne_nil hne
  obtain ⟨⟨hspace, hquote⟩, hbreak⟩ : (x ≠ ' ' ∧ x ≠ '\x27') ∧ ScalarStyle.breaksLine x = false := by
    simpa [isBare] using hrun x List.mem_cons_self
  have htake := takeWhile_front hrun hrest
  rw [List.cons_append] at htake ⊢
  rw [putSingleQuoted, if_neg hspace, if_neg (by simp [hbreak]), if_neg hquote]
  change putSingleQuoted breaks indent fuel false
    ((x :: (run ++ rest)).drop ((x :: (run ++ rest)).takeWhile isBare).length)
    (p.put ((x :: (run ++ rest)).takeWhile isBare)) = _
  rw [htake]
  simp only [List.length_cons, List.drop_succ_cons, List.drop_left]

theorem adds_breaks (run : List Char) (p : Page) : p.Adds run (run.foldl putBreak p) := by
  induction run generalizing p with
  | nil => exact .refl p
  | cons x run ih => exact Adds.trans (show p.Adds [x] (p.putBreak x) from rfl) (ih _)

/-- Line breaks are written with the first one doubled if it is a line feed. -/
theorem adds_putBreaks {x : Char} (run : List Char) (p : Page) :
    p.Adds ((if x = '\n' then ['\n'] else []) ++ (x :: run)) (p.putBreaks (x :: run)) ∧
      (p.putBreaks (x :: run)).IsFresh 0 := by
  constructor
  · simp only [putBreaks, List.head?_cons, Option.some_inj]
    split
    next => exact Adds.trans (show p.Adds ['\n'] p.endLine from rfl) (adds_breaks _ _)
    next => exact adds_breaks _ _
  · obtain ⟨front, y, hlast⟩ := (List.eq_nil_or_concat' (x :: run)).resolve_left (List.cons_ne_nil x run)
    rw [putBreaks, hlast, List.foldl_append]
    exact ⟨rfl, rfl, rfl⟩

end Page

/-! ### The whole text -/

/-- Characters between single quotes that a text is written as. Where lines are not broken, a text on
one line stays on one line and grows by its quotes only. -/
structure WritesQuoted (folds : Bool) (cs ws : List Char) : Prop where
  encodes : Encodes false ws cs
  allowed : ∀ x ∈ ws, isAllowed x = true
  solid : startsInk cs → StartsSolid false ws
  line : folds = false → (∀ x ∈ cs, ScalarStyle.breaksLine x = false) →
    (∀ x ∈ ws, Mark.IsWide x) ∧ ws.length ≤ 2 * cs.length

section

variable {folds : Bool} {ws : List Char}

theorem isAllowed_of_isBreak (hx : isBreak x = true) : isAllowed x = true := by
  simp only [isBreak, Bool.or_eq_true, decide_eq_true_eq] at hx
  obtain ((((rfl | rfl) | rfl) | rfl) | rfl) := hx <;> decide

theorem writesQuoted_nil (folds : Bool) : WritesQuoted folds [] [] where
  encodes := encodes_nil false
  allowed := by simp
  solid _ := startsSolid_nil false
  line _ _ := by simp

theorem WritesQuoted.spaces (h : WritesQuoted folds cs ws) {spaces : List Char}
    (hne : spaces ≠ []) (hspaces : ∀ x ∈ spaces, x = ' ') (hstart : startsInk cs) :
    WritesQuoted folds (spaces ++ cs) (spaces ++ ws) where
  encodes := h.encodes.spaces hspaces (h.solid hstart)
  allowed := by
    refine List.forall_mem_append.2 ⟨?_, h.allowed⟩
    intro x hx
    rw [hspaces x hx]
    decide
  solid hsolid := by
    obtain ⟨x, spaces, rfl⟩ := List.exists_cons_of_ne_nil hne
    exact absurd (hspaces x List.mem_cons_self) (hsolid x rfl).1
  line hfolds hline := by
    obtain ⟨hwide, hlength⟩ := h.line hfolds (List.forall_mem_append.1 hline).2
    refine ⟨List.forall_mem_append.2 ⟨?_, hwide⟩, ?_⟩
    · intro x hx
      rw [hspaces x hx]
      exact ⟨by decide, by decide⟩
    · simp only [List.length_append]
      omega

theorem WritesQuoted.fold (h : WritesQuoted true cs ws) {indent : Nat} (hindent : 0 < indent)
    (hstart : startsInk cs) :
    WritesQuoted true (' ' :: cs) ('\n' :: (List.replicate indent ' ' ++ ws)) where
  encodes := h.encodes.fold hindent (h.solid hstart)
  allowed := by
    rw [← List.cons_append]
    exact List.forall_mem_append.2 ⟨isAllowed_newLine_blanks indent, h.allowed⟩
  solid hsolid := absurd rfl (hsolid ' ' rfl).1
  line := nofun

theorem WritesQuoted.breaks {run : List Char} (h : WritesQuoted folds cs ws) {indent : Nat}
    (hindent : 0 < indent) (hx : IsLasting x) (hrun : ∀ y ∈ run, IsLasting y)
    (hstart : startsInk cs) :
    WritesQuoted folds (x :: run ++ cs)
      ((if x = '\n' then ['\n'] else []) ++ (x :: run ++ (List.replicate indent ' ' ++ ws))) where
  encodes := h.encodes.breaks hx hrun hindent (h.solid hstart)
  allowed := by
    have hblanks := (List.forall_mem_cons.1 (isAllowed_newLine_blanks indent)).2
    have hlines : ∀ y ∈ x :: run, isAllowed y = true := fun y hy =>
      isAllowed_of_isBreak (List.forall_mem_cons.2 ⟨hx, hrun⟩ y hy).1
    refine List.forall_mem_append.2 ⟨?_, List.forall_mem_append.2
      ⟨hlines, List.forall_mem_append.2 ⟨hblanks, h.allowed⟩⟩⟩
    split <;> simp
    decide
  solid hsolid := by
    have hinLine := (hsolid x rfl).2
    rw [hx.breaksLine] at hinLine
    cases hinLine
  line _ hline := by
    have hinLine := hline x List.mem_cons_self
    rw [hx.breaksLine] at hinLine
    cases hinLine

theorem WritesQuoted.quote (h : WritesQuoted folds cs ws) :
    WritesQuoted folds ('\x27' :: cs) ('\x27' :: '\x27' :: ws) where
  encodes := h.encodes.doubled
  allowed := List.forall_mem_cons.2 ⟨by decide, List.forall_mem_cons.2 ⟨by decide, h.allowed⟩⟩
  solid _ := startsSolid_cons (by decide) _
  line hfolds hline := by
    obtain ⟨hwide, hlength⟩ := h.line hfolds (List.forall_mem_cons.1 hline).2
    have hquote : Mark.IsWide '\x27' := ⟨by decide, by decide⟩
    refine ⟨List.forall_mem_cons.2 ⟨hquote, List.forall_mem_cons.2 ⟨hquote, hwide⟩⟩, ?_⟩
    simp only [List.length_cons]
    omega

theorem WritesQuoted.run {run : List Char} (h : WritesQuoted folds cs ws) (hne : run ≠ [])
    (hrun : ∀ x ∈ run, IsInk x ∧ x ≠ '\x27') : WritesQuoted folds (run ++ cs) (run ++ ws) where
  encodes := by
    clear hne
    induction run with
    | nil => exact h.encodes
    | cons x run ih =>
      obtain ⟨⟨hink, hquote⟩, hrun⟩ := List.forall_mem_cons.1 hrun
      exact (ih hrun).ordinary ⟨hink.isBlankOrEnd, hquote⟩
  allowed := List.forall_mem_append.2
    ⟨fun x hx => (isAllowed_of_isSpecial (hrun x hx).1.ordinary).1, h.allowed⟩
  solid _ := by
    obtain ⟨x, run, rfl⟩ := List.exists_cons_of_ne_nil hne
    exact startsSolid_cons (hrun x List.mem_cons_self).1.isBlankOrEnd _
  line hfolds hline := by
    obtain ⟨hwide, hlength⟩ := h.line hfolds (List.forall_mem_append.1 hline).2
    refine ⟨List.forall_mem_append.2 ⟨fun x hx => (hrun x hx).1.isWide, hwide⟩, ?_⟩
    simp only [List.length_append]
    omega

/-- Between two pages, characters are written from which a text is read back. -/
def PutsQuoted (folds : Bool) (cs : List Char) (p q : Page) : Prop :=
  ∃ ws, p.Adds ws q ∧ WritesQuoted folds cs ws

namespace PutsQuoted

variable {p q : Page} {indent : Nat} {part : List Char}

theorem nil (folds : Bool) (p : Page) : PutsQuoted folds [] p p :=
  ⟨[], .refl p, writesQuoted_nil folds⟩

theorem spaces {spaces : List Char} (h : PutsQuoted folds cs (p.put spaces) q) (hne : spaces ≠ [])
    (hspaces : ∀ x ∈ spaces, x = ' ') (hstart : startsInk cs) :
    PutsQuoted folds (spaces ++ cs) p q := by
  obtain ⟨ws, hadds, hwrites⟩ := h
  exact ⟨_, (Page.adds_put p spaces).trans hadds, hwrites.spaces hne hspaces hstart⟩

theorem fold (h : PutsQuoted true cs (p.indentTo indent) q) (hindent : 0 < indent)
    (hp : p.isIndentation = false ∨ indent < p.column) (hstart : startsInk cs) :
    PutsQuoted true (' ' :: cs) p q := by
  obtain ⟨ws, hadds, hwrites⟩ := h
  exact ⟨_, (Page.adds_indentTo hp).1.trans hadds, hwrites.fold hindent hstart⟩

theorem breaks (h : PutsQuoted folds cs ((p.putBreaks (x :: part)).indentTo indent) q)
    (hindent : 0 < indent) (hx : IsLasting x) (hpart : ∀ y ∈ part, IsLasting y)
    (hstart : startsInk cs) : PutsQuoted folds (x :: part ++ cs) p q := by
  obtain ⟨ws, hadds, hwrites⟩ := h
  obtain ⟨hlines, hline⟩ := Page.adds_putBreaks (x := x) part p
  have hspaces := (hline.adds_indentTo (Nat.zero_le indent)).1
  refine ⟨_, ?_, hwrites.breaks hindent hx hpart hstart⟩
  have hall := (hlines.trans hspaces).trans hadds
  simpa using hall

theorem quote (h : PutsQuoted folds cs (p.put ['\x27', '\x27']) q) :
    PutsQuoted folds ('\x27' :: cs) p q := by
  obtain ⟨ws, hadds, hwrites⟩ := h
  exact ⟨_, (Page.adds_put p ['\x27', '\x27']).trans hadds, hwrites.quote⟩

theorem run (h : PutsQuoted folds cs (p.put part) q) (hne : part ≠ [])
    (hpart : ∀ x ∈ part, IsInk x ∧ x ≠ '\x27') : PutsQuoted folds (part ++ cs) p q := by
  obtain ⟨ws, hadds, hwrites⟩ := h
  exact ⟨_, (Page.adds_put p part).trans hadds, hwrites.run hne hpart⟩

end PutsQuoted

theorem startsInk.isBehind {indent : Nat} {p : Page} (h : startsInk cs) (hp : p.IsFresh indent) :
    p.IsBehind indent cs :=
  hp.isBehind fun hhead => (h ' ' hhead).1 rfl

/-- A text is written part by part so that it is read back. -/
theorem Parts.putsQuoted {indent fuel : Nat} {p : Page} (isStart : Bool) (h : Parts cs)
    (hindent : 0 < indent) (hfuel : cs.length ≤ fuel) (hp : p.IsBehind indent cs) :
    PutsQuoted folds cs p (Page.putSingleQuoted folds indent fuel isStart cs p) := by
  induction h generalizing fuel p isStart with
  | nil =>
    rw [Page.putSingleQuoted_nil]
    exact .nil folds p
  | @spaces count rest hstart hrest ih =>
    obtain ⟨fuel, rfl⟩ := Nat.exists_eq_succ_of_ne_zero (show fuel ≠ 0 by rintro rfl; simp at hfuel)
    simp only [List.length_append, List.length_replicate] at hfuel
    have hrestFuel : rest.length ≤ fuel := by omega
    rw [Page.putSingleQuoted_spaces count fun x hx => (hstart x hx).1]
    split
    next hfold =>
      simp only [Bool.and_eq_true, decide_eq_true_eq, Nat.add_eq_right] at hfold
      obtain ⟨⟨⟨⟨rfl, -⟩, rfl⟩, -⟩, -⟩ := hfold
      -- a line is not broken where it begins, so a new one comes here
      have hnew : p.isIndentation = false ∨ indent < p.column := by
        rcases hp with hp | hp | hp
        · exact .inl hp
        · exact .inr hp
        · exact absurd rfl hp.2
      have hfresh := (Page.adds_indentTo hnew).2
      exact .fold (ih false hrestFuel (hstart.isBehind hfresh)) hindent hnew hstart
    next =>
      have hne : List.replicate (count + 1) ' ' ≠ [] := by simp
      refine .spaces (ih false hrestFuel (hp.put hne rest)) hne ?_ hstart
      exact fun x hx => List.eq_of_mem_replicate hx
  | @breaks x run rest hx hrun hstart hrest ih =>
    obtain ⟨fuel, rfl⟩ := Nat.exists_eq_succ_of_ne_zero (show fuel ≠ 0 by rintro rfl; simp at hfuel)
    rw [List.length_append, List.length_cons] at hfuel
    have hbreaks : ∀ y ∈ x :: run, ScalarStyle.breaksLine y = true :=
      fun y hy => (List.forall_mem_cons.2 ⟨hx, hrun⟩ y hy).breaksLine
    rw [Page.putSingleQuoted_breaks (List.cons_ne_nil x run) hbreaks fun y hy => (hstart y hy).2]
    have hfresh := ((Page.adds_putBreaks (x := x) run p).2.adds_indentTo (Nat.zero_le indent)).2
    exact .breaks (ih false (by omega) (hstart.isBehind hfresh)) hindent hx hrun hstart
  | @quote rest hrest ih =>
    obtain ⟨fuel, rfl⟩ := Nat.exists_eq_succ_of_ne_zero (show fuel ≠ 0 by rintro rfl; simp at hfuel)
    rw [Page.putSingleQuoted_quote]
    have hbehind := hp.put (List.cons_ne_nil '\x27' ['\x27']) rest
    exact .quote (ih false (Nat.le_of_succ_le_succ hfuel) hbehind)
  | @run run rest hne hrun hend hrest ih =>
    have hpos := List.length_pos_iff.2 hne
    rw [List.length_append] at hfuel
    obtain ⟨fuel, rfl⟩ := Nat.exists_eq_succ_of_ne_zero (show fuel ≠ 0 by omega)
    have hbare : ∀ y ∈ run, isBare y = true := by
      intro y hy
      obtain ⟨hink, hquote⟩ := hrun y hy
      simp [isBare, hink.ne, hquote, hink.inLine]
    rw [Page.putSingleQuoted_run hne hbare hend]
    exact .run (ih false (by omega) (hp.put hne rest)) hne hrun

end

/-- Text is written between single quotes so that it is read back. -/
theorem Page.exists_singleQuoted (p : Page) (folds : Bool) {indent : Nat} (h : IsQuotable cs)
    (hindent : 0 < indent) :
    ∃ ws, p.Adds (p.blank ++ inQuotes false ws) (p.singleQuoted folds indent cs) ∧
      WritesQuoted folds cs ws := by
  obtain ⟨ws, hadds, hwrites⟩ := h.parts.putsQuoted true hindent
    (Nat.le_refl _) (show (p.sign ['\x27'] true).IsBehind indent cs from .inl rfl)
  refine ⟨ws, ?_, hwrites⟩
  have hall := ((adds_sign p ['\x27']).trans hadds).trans (adds_touching _ ['\x27'])
  rw [singleQuoted]
  simpa [inQuotes, quote] using hall

end Treeline.Yaml
