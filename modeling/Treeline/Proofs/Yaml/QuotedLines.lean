import Treeline.Proofs.Yaml.QuotedText

/-!
# Quoted text on several lines

What characters between quotes are read as depends on nothing but the quote behind them. A line
break with indentation behind it stands for a space, several of them for all but the first, and a
backslash in front of a line break takes it away. The line breaks that are no line feeds stand for
themselves, with or without indentation.
-/

namespace Treeline.Yaml.Token

variable {isDouble : Bool} {cs text : List Char} {start : Mark} {c : Cursor}

/-- Characters between quotes that are read as a text. -/
def Encodes (isDouble : Bool) (cs text : List Char) : Prop :=
  ∀ (start : Mark) (c : Cursor) (rest : List Char), c.rest = cs ++ quote isDouble :: rest →
    (isDouble = false → rest.head? ≠ some '\x27') →
    ∃ after, ReadsTo isDouble start c text after ∧ c.Passes cs after

/-- Whether characters between quotes, or the quote behind them, begin with neither a blank nor a
line break. -/
def StartsSolid (isDouble : Bool) (cs : List Char) : Prop :=
  ∀ x, (cs ++ [quote isDouble]).head? = some x → isBlankOrEnd x = false

theorem isBlankOrEnd_quote (isDouble : Bool) : isBlankOrEnd (quote isDouble) = false := by
  cases isDouble <;> decide

theorem startsSolid_cons {x : Char} (hx : isBlankOrEnd x = false) (cs : List Char) :
    StartsSolid isDouble (x :: cs) := by
  rintro y ⟨⟩
  exact hx

theorem startsSolid_nil (isDouble : Bool) : StartsSolid isDouble [] := by
  rintro y ⟨⟩
  exact isBlankOrEnd_quote isDouble

theorem StartsSolid.exists_cons (h : StartsSolid isDouble cs) (rest : List Char) :
    ∃ y more, cs ++ quote isDouble :: rest = y :: more ∧ isBlankOrEnd y = false := by
  cases cs with
  | nil => exact ⟨_, _, rfl, isBlankOrEnd_quote isDouble⟩
  | cons x cs => exact ⟨_, _, rfl, h x rfl⟩

/-! ### Characters and escapes -/

theorem encodes_nil (isDouble : Bool) : Encodes isDouble [] [] := by
  intro start c rest hc hrest
  exact ⟨c, readsTo_closed (isClosed_of_rest hc hrest), .refl c⟩

theorem Encodes.ordinary {x : Char} (h : Encodes isDouble cs text) (hx : IsOrdinary isDouble x) :
    Encodes isDouble (x :: cs) (x :: text) := by
  intro start c rest hc hrest
  have hc' : c.rest = x :: (cs ++ quote isDouble :: rest) := hc
  obtain ⟨hpass, hnext⟩ := Cursor.passes_next hc'
  obtain ⟨after, hread, hover⟩ := h start c.next rest hnext hrest
  exact ⟨after, readsTo_ordinary hc' hx hread, hpass.trans hover⟩

theorem Encodes.doubled (h : Encodes false cs text) :
    Encodes false ('\x27' :: '\x27' :: cs) ('\x27' :: text) := by
  intro start c rest hc hrest
  have hc' : c.rest = '\x27' :: '\x27' :: (cs ++ quote false :: rest) := hc
  obtain ⟨hpass, hnext⟩ := Cursor.passes_next hc'
  obtain ⟨hpass', hnext'⟩ := Cursor.passes_next hnext
  obtain ⟨after, hread, hover⟩ := h start c.next.next rest hnext' hrest
  exact ⟨after, readsTo_doubled_quote hc' hread, (hpass.trans hpass').trans hover⟩

theorem Encodes.shortEscape {e x : Char} (h : Encodes true cs text) (he : shortEscape? e = some x) :
    Encodes true ('\\' :: e :: cs) (x :: text) := by
  intro start c rest hc hrest
  have hc' : c.rest = '\\' :: e :: (cs ++ quote true :: rest) := hc
  obtain ⟨hpass, hnext⟩ := Cursor.passes_next hc'
  obtain ⟨hpass', hnext'⟩ := Cursor.passes_next hnext
  obtain ⟨after, hread, hover⟩ := h start c.next.next rest hnext' hrest
  exact ⟨after, readsTo_shortEscape hc' he hread, (hpass.trans hpass').trans hover⟩

theorem Encodes.codeEscape {e : Char} {digits : List Char} {code : Nat} (h : Encodes true cs text)
    (hshort : shortEscape? e = none) (hwidth : escapeWidth? e = some digits.length)
    (hdigits : ∀ x ∈ digits, (Text.hexValue? x).isSome = true)
    (hcode : Text.hexNumber digits = code) (hvalid : code.isValidChar) :
    Encodes true ('\\' :: e :: (digits ++ cs)) (Char.ofNat code :: text) := by
  intro start c rest hc hrest
  have hc' : c.rest = '\\' :: e :: (digits ++ (cs ++ quote true :: rest)) := by simpa using hc
  obtain ⟨hpass, hnext⟩ := Cursor.passes_next hc'
  obtain ⟨hpass', hnext'⟩ := Cursor.passes_next hnext
  obtain ⟨hskip, hlast⟩ := Cursor.passes_skip hnext'
  obtain ⟨after, hread, hover⟩ := h start _ rest hlast hrest
  refine ⟨after, readsTo_codeEscape hc' hshort hwidth hdigits hcode hvalid hread, ?_⟩
  have hall := ((hpass.trans hpass').trans hskip).trans hover
  simpa using hall

/-! ### Spaces and line breaks -/

/-- Whether the first character that is no space is on the same line. -/
def StaysInLine (isDouble : Bool) (cs : List Char) : Prop :=
  ∃ spaces rest, cs = spaces ++ rest ∧ (∀ x ∈ spaces, x = ' ') ∧ StartsSolid isDouble rest

theorem StartsSolid.staysInLine (h : StartsSolid isDouble cs) : StaysInLine isDouble cs :=
  ⟨[], cs, rfl, by simp, h⟩

theorem StaysInLine.space (h : StaysInLine isDouble cs) : StaysInLine isDouble (' ' :: cs) := by
  obtain ⟨spaces, rest, rfl, hspaces, hrest⟩ := h
  exact ⟨' ' :: spaces, rest, rfl, List.forall_mem_cons.2 ⟨rfl, hspaces⟩, hrest⟩

theorem Encodes.space (h : Encodes isDouble cs text) (hline : StaysInLine isDouble cs) :
    Encodes isDouble (' ' :: cs) (' ' :: text) := by
  intro start c rest hc hrest
  have hc' : c.rest = ' ' :: (cs ++ quote isDouble :: rest) := hc
  obtain ⟨hpass, hnext⟩ := Cursor.passes_next hc'
  obtain ⟨after, hread, hover⟩ := h start c.next rest hnext hrest
  obtain ⟨spaces, solid, rfl, hspaces, hsolid⟩ := hline
  obtain ⟨y, more, hmore, hy⟩ := hsolid.exists_cons rest
  have hblanks : ∀ z ∈ spaces, isBlank z = true := by
    intro z hz
    rw [hspaces z hz]
    decide
  rw [List.append_assoc, hmore] at hc'
  exact ⟨after, readsTo_blank hc' (by decide) hblanks hy hread, hpass.trans hover⟩

theorem Encodes.spaces {spaces : List Char} (h : Encodes isDouble cs text)
    (hspaces : ∀ x ∈ spaces, x = ' ') (hsolid : StartsSolid isDouble cs) :
    Encodes isDouble (spaces ++ cs) (spaces ++ text) := by
  induction spaces with
  | nil => exact h
  | cons x spaces ih =>
    obtain ⟨rfl, hmore⟩ := List.forall_mem_cons.1 hspaces
    exact (ih hmore).space ⟨spaces, cs, rfl, hmore, hsolid⟩

/-- A line break that is read as it stands. -/
def IsLasting (x : Char) : Prop := isBreak x = true ∧ x ≠ '\r' ∧ x ≠ '\u0085'

theorem break?_of_isLasting {x : Char} {rest : List Char} (hc : c.rest = x :: rest)
    (hx : IsLasting x) : c.break? = some (x, c.next) := by
  by_cases hline : x = '\n'
  · subst hline
    exact Cursor.break?_lineFeed hc
  · obtain ⟨hbreak, hreturn, hnext⟩ := hx
    simp [Cursor.break?, hc, hbreak, hreturn, hnext, hline]

theorem skipWhile_isBlank_of_isBreak {x : Char} {rest : List Char} (hc : c.rest = x :: rest)
    (hx : isBreak x = true) : c.skipWhile isBlank = c := by
  refine Cursor.skipWhile_of_head hc ?_
  simp only [isBlank, Bool.or_eq_false_iff, decide_eq_false_iff_not]
  constructor <;> rintro rfl <;> exact absurd hx (by decide)

theorem isDocumentSeparator_of_head {x : Char} {rest : List Char} (hc : c.rest = x :: rest)
    (hx : x ≠ '-' ∧ x ≠ '.') : c.isDocumentSeparator = false := by
  rw [Cursor.isDocumentSeparator, Cursor.isSeparator_of_head hc hx.1,
    Cursor.isSeparator_of_head hc hx.2]
  rfl

theorem isClosed_of_isLasting (isDouble : Bool) {x : Char} {rest : List Char} (hc : c.rest = x :: rest)
    (hx : IsLasting x) : isClosed isDouble c = false := by
  have hchar := Cursor.char_of_rest hc
  have hne : x ≠ '\x22' ∧ x ≠ '\x27' := by
    constructor <;> rintro rfl <;> exact absurd hx.1 (by decide)
  cases isDouble <;> simp [isClosed, hchar, hne]

/-- A line break is read with those behind it. A line feed stands for a space if there are none. -/
theorem readPiece_of_isLasting (isDouble : Bool) (start : Mark) {x : Char} {rest : List Char}
    (hc : c.rest = x :: rest) (hx : IsLasting x) :
    readPiece isDouble start c =
      readFoldedBreaks start (c.next.rest.length + 1) c.next >>= fun r =>
        .ok ((if x ≠ '\n' then [x] else if r.1.isEmpty then [' '] else []) ++ r.1, r.2) := by
  have hchar := Cursor.char_of_rest hc
  have hblank : isBlankOrEnd x = true := by simp [isBlankOrEnd, isLineEnd, hx.1]
  have hend : x ≠ endOfText := by
    rintro rfl
    exact absurd hx.1 (by decide)
  rw [readPiece, hchar, if_pos hblank, readBlanks, skipWhile_isBlank_of_isBreak hc hx.1, hchar,
    if_neg hend, break?_of_isLasting hc hx]
  rfl

/-- Nothing is passed over at the start of a line that is not blank and separates no documents. -/
theorem readFoldedBreaks_of_head (start : Mark) (fuel : Nat) {y : Char} {rest : List Char}
    (hc : c.rest = y :: rest) (hy : isBlankOrEnd y = false) (hline : c.isDocumentSeparator = false) :
    readFoldedBreaks start (fuel + 1) c = .ok ([], c) := by
  simp only [isBlankOrEnd, isLineEnd, Bool.or_eq_false_iff] at hy
  have hbreak : c.break? = none := by
    refine Cursor.break?_eq_none ?_
    rw [hc]
    rintro z ⟨⟩
    exact hy.2.2
  simp [readFoldedBreaks, hline, Cursor.skipWhile_of_head hc hy.1, hbreak]

theorem readFoldedBreaks_of_isLasting (start : Mark) (fuel : Nat) {y : Char} {rest : List Char}
    (hc : c.rest = y :: rest) (hy : IsLasting y) :
    readFoldedBreaks start (fuel + 1) c =
      readFoldedBreaks start fuel c.next >>= fun r => .ok (y :: r.1, r.2) := by
  have hne : y ≠ '-' ∧ y ≠ '.' := by
    constructor <;> rintro rfl <;> exact absurd hy.1 (by decide)
  simp [readFoldedBreaks, isDocumentSeparator_of_head hc hne, skipWhile_isBlank_of_isBreak hc hy.1,
    break?_of_isLasting hc hy, pure, Except.pure]

/-- A line break that is no line feed stands for itself if neither a blank nor a line feed comes
behind it. -/
theorem readsTo_lasting {x y : Char} {rest : List Char} {after : Cursor}
    (hc : c.rest = x :: y :: rest) (hx : IsLasting x) (hfeed : x ≠ '\n')
    (hline : c.next.isDocumentSeparator = false)
    (hy : isBlankOrEnd y = false ∨ IsLasting y ∧ y ≠ '\n')
    (h : ReadsTo isDouble start c.next text after) : ReadsTo isDouble start c (x :: text) after := by
  obtain ⟨-, hnext⟩ := Cursor.passes_next hc
  have hopen := isClosed_of_isLasting isDouble hc hx
  have hpiece := readPiece_of_isLasting isDouble start hc hx
  simp only [if_pos hfeed] at hpiece
  rcases hy with hy | ⟨hy, hyFeed⟩
  · rw [readFoldedBreaks_of_head start _ hnext hy hline] at hpiece
    refine readsTo_piece hopen hpiece ?_ h
    rw [hnext, hc]
    simp
  · -- the next place begins a run of its own, which ends where this one ends
    have hlength : c.next.rest.length = c.next.next.rest.length + 1 := by
      rw [(Cursor.passes_next hnext).2, hnext, List.length_cons]
    rw [hlength, readFoldedBreaks_of_isLasting start _ hnext hy] at hpiece
    refine readsTo_run hopen (isClosed_of_isLasting isDouble hnext hy) ?_ ?_ h
    · rw [hnext, hc]
      simp
    · intro piece last hread
      rw [readPiece_of_isLasting isDouble start hnext hy] at hread
      simp only [if_pos hyFeed] at hread
      obtain ⟨⟨breaks, end₂⟩, hbreaks, hpieces⟩ := bind_eq_ok_iff.1 hread
      cases hpieces
      rw [hpiece, hbreaks]
      rfl

theorem readFoldedBreaks_eq (start : Mark) {breaks rest : List Char} {count fuel : Nat}
    (hc : c.rest = breaks ++ (List.replicate count ' ' ++ rest)) (hcount : 0 < count)
    (hbreaks : ∀ x ∈ breaks, IsLasting x) (hrest : ∀ x, rest.head? = some x → isBlankOrEnd x = false)
    (hfuel : breaks.length < fuel) :
    ∃ after, readFoldedBreaks start fuel c = .ok (breaks, after) ∧
      c.Passes (breaks ++ List.replicate count ' ') after ∧ after.rest = rest := by
  obtain ⟨fuel, rfl⟩ := Nat.exists_eq_succ_of_ne_zero (Nat.ne_zero_of_lt hfuel)
  induction breaks generalizing c fuel with
  | nil =>
    obtain ⟨count, rfl⟩ := Nat.exists_eq_succ_of_ne_zero (Nat.ne_of_gt hcount)
    have hspaces' : c.rest = List.replicate (count + 1) ' ' ++ rest := hc
    have hc' : c.rest = ' ' :: (List.replicate count ' ' ++ rest) := hc
    have hspaces : ∀ x ∈ List.replicate (count + 1) ' ', isBlank x = true := by
      intro x hx
      rw [List.eq_of_mem_replicate hx]
      decide
    have hstop : ∀ x, rest.head? = some x → isBlank x = false ∧ isBreak x = false := by
      intro x hx
      have hsolid := hrest x hx
      simp only [isBlankOrEnd, isLineEnd, Bool.or_eq_false_iff] at hsolid
      exact ⟨hsolid.1, hsolid.2.2⟩
    obtain ⟨hpass, hafter⟩ := Cursor.passes_skipWhile hspaces' hspaces
      fun x hx => (hstop x hx).1
    have hbreak : (c.skipWhile isBlank).break? = none := by
      refine Cursor.break?_eq_none ?_
      rw [hafter]
      exact fun x hx => (hstop x hx).2
    refine ⟨c.skipWhile isBlank, ?_, hpass, hafter⟩
    simp [readFoldedBreaks, isDocumentSeparator_of_head hc' ⟨by decide, by decide⟩, hbreak]
  | cons x breaks ih =>
    obtain ⟨hx, hbreaks⟩ := List.forall_mem_cons.1 hbreaks
    have hc' : c.rest = x :: (breaks ++ (List.replicate count ' ' ++ rest)) := hc
    obtain ⟨hpass, hnext⟩ := Cursor.passes_next hc'
    rw [List.length_cons] at hfuel
    obtain ⟨fuel, rfl⟩ := Nat.exists_eq_succ_of_ne_zero (show fuel ≠ 0 by omega)
    obtain ⟨after, hread, hover, hafter⟩ := ih hnext hbreaks fuel (by omega)
    refine ⟨after, ?_, hpass.trans hover, hafter⟩
    rw [readFoldedBreaks_of_isLasting start _ hc' hx, hread]
    rfl

/-- Whether characters between quotes may come behind a line break that stands for itself. -/
structure StartsLine (isDouble : Bool) (cs : List Char) : Prop where
  head : ∀ y, (cs ++ [quote isDouble]).head? = some y →
    isBlankOrEnd y = false ∨ IsLasting y ∧ y ≠ '\n'
  separatesNone : ∀ (c : Cursor) (rest : List Char), c.rest = cs ++ quote isDouble :: rest →
    c.isDocumentSeparator = false

theorem Encodes.lasting {x : Char} (h : Encodes isDouble cs text) (hx : IsLasting x)
    (hfeed : x ≠ '\n') (hline : StartsLine isDouble cs) :
    Encodes isDouble (x :: cs) (x :: text) := by
  intro start c rest hc hrest
  have hc' : c.rest = x :: (cs ++ quote isDouble :: rest) := hc
  obtain ⟨hpass, hnext⟩ := Cursor.passes_next hc'
  obtain ⟨after, hread, hover⟩ := h start c.next rest hnext hrest
  obtain ⟨y, more, hmore⟩ := List.exists_cons_of_ne_nil (List.append_ne_nil_of_right_ne_nil cs
    (List.cons_ne_nil (quote isDouble) []))
  have hsplit : cs ++ quote isDouble :: rest = y :: (more ++ rest) := by
    rw [← List.cons_append, ← hmore, List.append_assoc]
    rfl
  rw [hsplit] at hc'
  have hy := hline.head y (by rw [hmore]; rfl)
  exact ⟨after, readsTo_lasting hc' hx hfeed (hline.separatesNone c.next rest hnext) hy hread,
    hpass.trans hover⟩

/-- A line break, further ones, and the indentation behind them. -/
theorem Encodes.behindBreak (x : Char) (breaks : List Char) {count : Nat}
    (h : Encodes isDouble cs text) (hx : IsLasting x) (hbreaks : ∀ y ∈ breaks, IsLasting y)
    (hcount : 0 < count) (hsolid : StartsSolid isDouble cs) :
    Encodes isDouble (x :: (breaks ++ (List.replicate count ' ' ++ cs)))
      ((if x ≠ '\n' then [x] else if breaks.isEmpty then [' '] else []) ++ breaks ++ text) := by
  intro start c rest hc hrest
  obtain ⟨y, more, hmore, hy⟩ := hsolid.exists_cons rest
  have hc' : c.rest = x :: (breaks ++ (List.replicate count ' ' ++ (cs ++ quote isDouble :: rest))) := by
    simpa using hc
  obtain ⟨hpass, hnext⟩ := Cursor.passes_next hc'
  have hstop : ∀ z, (cs ++ quote isDouble :: rest).head? = some z → isBlankOrEnd z = false := by
    rw [hmore]
    rintro z ⟨⟩
    exact hy
  have hfuel : breaks.length < c.next.rest.length + 1 := by
    rw [hnext, List.length_append]
    omega
  obtain ⟨next, hread, hover, hafter⟩ :=
    readFoldedBreaks_eq start hnext hcount hbreaks hstop hfuel
  obtain ⟨last, hlast, hpassLast⟩ := h start next rest hafter hrest
  refine ⟨last, readsTo_piece (isClosed_of_isLasting isDouble hc' hx) ?_ ?_ hlast, ?_⟩
  · rw [readPiece_of_isLasting isDouble start hc' hx, hread]
    rfl
  · have hlength := (hpass.trans hover).length
    rw [hlength]
    simp
  · have hall := (hpass.trans hover).trans hpassLast
    simpa using hall

/-- A line break and the indentation behind it stand for a space. -/
theorem Encodes.fold {count : Nat} (h : Encodes isDouble cs text) (hcount : 0 < count)
    (hsolid : StartsSolid isDouble cs) :
    Encodes isDouble ('\n' :: (List.replicate count ' ' ++ cs)) (' ' :: text) :=
  Encodes.behindBreak '\n' [] h ⟨by decide, by decide, by decide⟩ (by simp) hcount hsolid

/-- Line breaks stand for themselves if a line feed in front is written twice. -/
theorem Encodes.breaks {x : Char} {breaks : List Char} {count : Nat} (h : Encodes isDouble cs text)
    (hx : IsLasting x) (hbreaks : ∀ y ∈ breaks, IsLasting y) (hcount : 0 < count)
    (hsolid : StartsSolid isDouble cs) :
    Encodes isDouble
      ((if x = '\n' then ['\n'] else []) ++ (x :: breaks ++ (List.replicate count ' ' ++ cs)))
      (x :: breaks ++ text) := by
  by_cases hline : x = '\n'
  · have hall := Encodes.behindBreak '\n' (x :: breaks) h ⟨by decide, by decide, by decide⟩
      (List.forall_mem_cons.2 ⟨hx, hbreaks⟩) hcount hsolid
    simpa [hline] using hall
  · have hall := Encodes.behindBreak x breaks h hx hbreaks hcount hsolid
    simpa [hline] using hall

/-- A backslash takes away the line break and the indentation behind it. -/
theorem Encodes.escapedBreak {count : Nat} (h : Encodes true cs text) (hcount : 0 < count)
    (hsolid : StartsSolid true cs) :
    Encodes true ('\\' :: '\n' :: (List.replicate count ' ' ++ cs)) text := by
  intro start c rest hc hrest
  obtain ⟨y, more, hmore, hy⟩ := hsolid.exists_cons rest
  have hc' : c.rest = '\\' :: '\n' :: (List.replicate count ' ' ++ (cs ++ quote true :: rest)) := by
    simpa using hc
  obtain ⟨hpass, hnext⟩ := Cursor.passes_next hc'
  obtain ⟨hpass', hnext'⟩ := Cursor.passes_next hnext
  have hstop : ∀ z, (cs ++ quote true :: rest).head? = some z → isBlankOrEnd z = false := by
    rw [hmore]
    rintro z ⟨⟩
    exact hy
  have hspaces : c.next.next.rest =
      [] ++ (List.replicate count ' ' ++ (cs ++ quote true :: rest)) := hnext'
  obtain ⟨next, hread, hover, hafter⟩ := readFoldedBreaks_eq start hspaces hcount
    (by simp) hstop (Nat.succ_pos c.next.next.rest.length)
  obtain ⟨last, hlast, hpassLast⟩ := h start next rest hafter hrest
  have hescape : readEscape start c.next = .ok ([], next) := by
    have hnone : shortEscape? '\n' = none ∧ escapeWidth? '\n' = none := by decide
    rw [readEscape, Cursor.char_of_rest hnext, hnone.1, hnone.2, Cursor.break?_lineFeed hnext]
    exact hread
  refine ⟨last, readsTo_escape hc' hescape ?_ hlast, ?_⟩
  · have hlength := ((hpass.trans hpass').trans hover).length
    rw [hlength]
    simp
  · have hall := ((hpass.trans hpass').trans hover).trans hpassLast
    simpa using hall

end Treeline.Yaml.Token
