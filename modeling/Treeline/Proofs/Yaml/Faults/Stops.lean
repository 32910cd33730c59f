import Treeline.Proofs.Yaml.Faults.Graph
import Treeline.Proofs.Yaml.QuotedText
import Treeline.Proofs.Yaml.Scan.Token

/-!
# Texts that end with a fault

A text that causes a fault need not end with it: what causes it may stand in a comment, or an error
may be found before. The two kinds of texts here do end with it. The first token of one is a text in
double quotes with an escape that gives no character, and the first token of the other is a version
directive with a number that is too long.
-/

namespace Treeline.Yaml

/-- A text that ends with a fault when it is read, and says so at its first token. -/
inductive StopsAt : List Char → Fault → Prop
  /-- Ordinary characters between double quotes, and an escape that gives no character. -/
  | code {before digits : List Char} (rest : List Char)
      (hbefore : ∀ x ∈ before, Token.IsOrdinary true x) (hcode : IsWideCode digits) :
      StopsAt ('\x22' :: (before ++ '\\' :: 'U' :: (digits ++ rest)))
        (Token.codeFault (Text.hexNumber digits))
  /-- A version whose first number is too long. -/
  | major {digits rest : List Char} (spaces : Nat) (hdigits : ∀ d ∈ digits, isDigit d = true)
      (hlong : Numeral.maxDigits < digits.length)
      (hrest : ∀ x, rest.head? = some x → isDigit x = false) :
      StopsAt ("%YAML ".toList ++ (List.replicate spaces ' ' ++ (digits ++ rest)))
        (.longNumeral digits.length)
  /-- A version whose first number can be read and whose second one is too long. -/
  | minor {first digits rest : List Char} (spaces : Nat) (hfirst : ∀ d ∈ first, isDigit d = true)
      (hsome : first ≠ []) (hshort : first.length ≤ Numeral.maxDigits)
      (hdigits : ∀ d ∈ digits, isDigit d = true) (hlong : Numeral.maxDigits < digits.length)
      (hrest : ∀ x, rest.head? = some x → isDigit x = false) :
      StopsAt ("%YAML ".toList ++
          (List.replicate spaces ' ' ++ (first ++ '.' :: (digits ++ rest))))
        (.longNumeral digits.length)

/-! ### Tokens -/

namespace Token

variable {c : Cursor} {start : Mark}

theorem readCode_of_isWideCode {digits rest : List Char} (hcode : IsWideCode digits)
    (hc : c.rest = digits ++ rest) :
    readCode start 8 c = .error (.fault (codeFault (Text.hexNumber digits))) := by
  obtain ⟨hlength, hhex, hlarge⟩ := hcode
  have htake : c.rest.take 8 = digits := by rw [hc, ← hlength, List.take_left]
  have hnone : digits.find? (fun x => (Text.hexValue? x).isNone) = none := by
    refine List.find?_eq_none.2 fun x hx => ?_
    rw [Bool.not_eq_true, Option.isNone_eq_false_iff]
    exact hhex x hx
  rw [readCode, htake, hnone]
  dsimp only
  rw [if_neg (by omega), characterOf, if_pos hlarge]
  rfl

/-- An escape stops the reading of a text in quotes, whatever has been read before. -/
theorem readPieces_of_isWideCode {before digits rest : List Char}
    (hbefore : ∀ x ∈ before, IsOrdinary true x) (hcode : IsWideCode digits)
    (hc : c.rest = before ++ '\\' :: 'U' :: (digits ++ rest)) {fuel : Nat}
    (hfuel : before.length < fuel) :
    readPieces true start fuel c = .error (.fault (codeFault (Text.hexNumber digits))) := by
  induction before generalizing c fuel with
  | nil =>
    obtain ⟨fuel, rfl⟩ := Nat.exists_eq_succ_of_ne_zero (Nat.ne_zero_of_lt hfuel)
    have hchar := Cursor.char_of_rest hc
    have hnext := (Cursor.passes_next hc).2
    have hpiece : readPiece true start c = .error (.fault (codeFault (Text.hexNumber digits))) := by
      have hblank : isBlankOrEnd '\\' = false := by decide
      have hescape : readEscape start c.next = readCode start 8 c.next.next := by
        rw [readEscape, Cursor.char_of_rest hnext]
        rfl
      rw [readPiece, hchar, if_neg (by rw [hblank]; decide), if_pos (by decide), hescape]
      exact readCode_of_isWideCode hcode (Cursor.passes_next hnext).2
    have hopen : isClosed true c = false := by simp [isClosed, hchar]
    rw [readPieces, hopen, hpiece]
    rfl
  | cons x before ih =>
    obtain ⟨hx, hbefore⟩ := List.forall_mem_cons.1 hbefore
    obtain ⟨fuel, rfl⟩ := Nat.exists_eq_succ_of_ne_zero (Nat.ne_zero_of_lt hfuel)
    have hrest := ih hbefore (Cursor.passes_next hc).2 (Nat.lt_of_succ_lt_succ hfuel)
    have hchar := Cursor.char_of_rest hc
    obtain ⟨hblank, hbackslash, hquote⟩ := hx
    have hopen : isClosed true c = false := by simp [isClosed, hchar, hquote]
    have hpiece : readPiece true start c = .ok ([x], c.next) := by
      simp [readPiece, hchar, hblank, hbackslash]
    rw [readPieces, hopen, hpiece]
    change (readPieces true start fuel c.next >>= _) = _
    rw [hrest]
    rfl

theorem readQuotedText_of_isWideCode {before digits rest : List Char}
    (hbefore : ∀ x ∈ before, IsOrdinary true x) (hcode : IsWideCode digits)
    (hc : c.rest = '\x22' :: (before ++ '\\' :: 'U' :: (digits ++ rest))) :
    readQuotedText true c = .error (.fault (codeFault (Text.hexNumber digits))) := by
  have hfuel : before.length < c.rest.length + 1 := by
    rw [hc, List.length_cons, List.length_append]
    omega
  rw [readQuotedText,
    readPieces_of_isWideCode hbefore hcode (Cursor.passes_next hc).2 hfuel]
  rfl

variable {digits rest : List Char}

theorem readVersionNumber_eq (hdigits : ∀ d ∈ digits, isDigit d = true) (hsome : digits ≠ [])
    (hrest : ∀ x, rest.head? = some x → isDigit x = false) (hc : c.rest = digits ++ rest) :
    readVersionNumber start c =
      if Numeral.maxDigits < digits.length then .error (.fault (.longNumeral digits.length))
      else .ok (Numeral.value digits, c.skipWhile isDigit) := by
  rw [readVersionNumber, Cursor.takeWhile_eq hc hdigits hrest, List.isEmpty_eq_false_iff.2 hsome]
  rfl

theorem readVersionNumber_long (hdigits : ∀ d ∈ digits, isDigit d = true)
    (hlong : Numeral.maxDigits < digits.length)
    (hrest : ∀ x, rest.head? = some x → isDigit x = false) (hc : c.rest = digits ++ rest) :
    readVersionNumber start c = .error (.fault (.longNumeral digits.length)) := by
  have hsome : digits ≠ [] := List.ne_nil_of_length_pos (Nat.zero_lt_of_lt hlong)
  rw [readVersionNumber_eq hdigits hsome hrest hc, if_pos hlong]

theorem readVersion_of_major (hdigits : ∀ d ∈ digits, isDigit d = true)
    (hlong : Numeral.maxDigits < digits.length)
    (hrest : ∀ x, rest.head? = some x → isDigit x = false)
    (hc : c.skipSpaces.rest = digits ++ rest) :
    readVersion start c = .error (.fault (.longNumeral digits.length)) := by
  rw [readVersion, readVersionNumber_long hdigits hlong hrest hc]
  rfl

theorem readVersion_of_minor {first : List Char} (hfirst : ∀ d ∈ first, isDigit d = true)
    (hsome : first ≠ []) (hshort : first.length ≤ Numeral.maxDigits)
    (hdigits : ∀ d ∈ digits, isDigit d = true) (hlong : Numeral.maxDigits < digits.length)
    (hrest : ∀ x, rest.head? = some x → isDigit x = false)
    (hc : c.skipSpaces.rest = first ++ '.' :: (digits ++ rest)) :
    readVersion start c = .error (.fault (.longNumeral digits.length)) := by
  have hdot : ∀ x, ('.' :: (digits ++ rest)).head? = some x → isDigit x = false := by
    rintro x ⟨⟩
    rfl
  have hafter := (Cursor.passes_skipWhile hc hfirst hdot).2
  rw [readVersion, readVersionNumber_eq hfirst hsome hdot hc, if_neg (Nat.not_lt.2 hshort)]
  change (if (c.skipSpaces.skipWhile isDigit).char ≠ '.' then _ else _) = _
  rw [if_neg (by rw [Cursor.char_of_rest hafter]; exact fun h => h rfl),
    readVersionNumber_long hdigits hlong hrest (Cursor.passes_next hafter).2]
  rfl

theorem readDirective_version {fault : Fault} {value : List Char}
    (hvalue : ∀ {start : Mark} {after : Cursor}, after.rest = ' ' :: value →
      readVersion start after = .error (.fault fault))
    (hc : c.rest = "%YAML ".toList ++ value) : readDirective c = .error (.fault fault) := by
  have hnext : c.next.rest = "YAML".toList ++ ' ' :: value := (Cursor.passes_next hc).2
  have hword : ∀ x ∈ "YAML".toList, isWord x = true := List.all_eq_true.1 (by decide)
  have hspace : ∀ x, (' ' :: value).head? = some x → isWord x = false := by
    rintro x ⟨⟩
    rfl
  have hafter := (Cursor.passes_skipWhile hnext hword hspace).2
  have hname : readDirectiveName c.mark c.next = .ok ("YAML".toList, c.next.skipWhile isWord) := by
    rw [readDirectiveName, Cursor.takeWhile_eq hnext hword hspace, Cursor.char_of_rest hafter]
    rfl
  rw [readDirective, hname]
  change ((readVersion c.mark (c.next.skipWhile isWord)) >>= _) = _
  rw [hvalue hafter]
  rfl

end Token

/-! ### The first token -/

namespace Scan

variable {x : Char} {rest : List Char} {fault : Fault}

theorem step_ofText (hstart : startsToken (x :: rest))
    (hread : (ofText (x :: rest)).readToken = .error (.fault fault)) :
    (ofText (x :: rest)).step = .error (.fault fault) := by
  have hsettle : (ofText (x :: rest)).settle = ofText (x :: rest) :=
    @settle_eq _ [] _ rfl (by simp) hstart
  rw [step_eq, hsettle]
  change ((ofText (x :: rest)).readToken >>= _) = _
  rw [hread]
  rfl

theorem readToken_percent {s : Scan} (hc : s.cursor.rest = '%' :: rest)
    (hcolumn : s.cursor.column = 0) :
    s.readToken = s.leaveDocument >>= fun t =>
      Token.readDirective s.cursor >>= fun read => .ok (t.pushRead read) := by
  simp [readToken, isEmpty_of_rest hc, Cursor.char_of_rest hc, hcolumn]
  rfl

theorem readKeyLike_ofText {read : Cursor → Result (Token × Cursor)} {text : List Char}
    (hread : read (.ofText text) = .error (.fault fault)) :
    (ofText text).readKeyLike read = .error (.fault fault) := by
  change (read (.ofText text) >>= _) = _
  rw [hread]
  rfl

end Scan

theorem stream_eq_fault {x : Char} {rest : List Char} {fault : Fault}
    (hstep : (Scan.ofText (x :: rest)).step = .error (.fault fault)) :
    TokenStream.ofText (x :: rest) = ⟨[], some (.fault fault)⟩ := by
  rw [TokenStream.ofText, Scan.run, hstep]
  rfl

theorem stream_of_directive {rest : List Char} {fault : Fault}
    (hread : Token.readDirective (.ofText ('%' :: rest)) = .error (.fault fault)) :
    TokenStream.ofText ('%' :: rest) = ⟨[], some (.fault fault)⟩ := by
  have hstart : startsToken ('%' :: rest) := by
    rintro x ⟨⟩
    decide
  refine stream_eq_fault (Scan.step_ofText hstart ?_)
  rw [Scan.readToken_percent rfl rfl]
  change (Token.readDirective (.ofText ('%' :: rest)) >>= _) = _
  rw [hread]
  rfl

theorem skipSpaces_of_version {c : Cursor} {spaces : Nat} {x : Char} {value : List Char}
    (hx : isDigit x = true)
    (hc : c.rest = ' ' :: (List.replicate spaces ' ' ++ x :: value)) :
    c.skipSpaces.rest = x :: value := by
  have hspaces : ∀ y ∈ ' ' :: List.replicate spaces ' ', decide (y = ' ') = true := by
    intro y hy
    rw [← List.replicate_succ] at hy
    exact decide_eq_true (List.eq_of_mem_replicate hy)
  have hstop : ∀ y, (x :: value).head? = some y → decide (y = ' ') = false := by
    rintro y ⟨⟩
    refine decide_eq_false ?_
    rintro rfl
    exact absurd hx (by decide)
  exact (Cursor.passes_skipWhile hc hspaces hstop).2

namespace StopsAt

variable {text : List Char} {fault : Fault}

theorem stream (h : StopsAt text fault) : TokenStream.ofText text = ⟨[], some (.fault fault)⟩ := by
  cases h with
  | @code before digits rest hbefore hcode =>
    have hstart : startsToken ('\x22' :: (before ++ '\\' :: 'U' :: (digits ++ rest))) := by
      rintro x ⟨⟩
      decide
    refine stream_eq_fault (Scan.step_ofText hstart ?_)
    rw [Scan.readToken_quote rfl true rfl]
    refine Scan.readKeyLike_ofText ?_
    refine Token.readQuotedText_of_isWideCode hbefore hcode rfl
  | @major digits rest spaces hdigits hlong hrest =>
    refine stream_of_directive (Token.readDirective_version (fun hc => ?_) rfl)
    refine Token.readVersion_of_major hdigits hlong hrest ?_
    cases digits with
    | nil => cases hlong
    | cons x digits => exact skipSpaces_of_version (hdigits x List.mem_cons_self) hc
  | @minor first digits rest spaces hfirst hsome hshort hdigits hlong hrest =>
    refine stream_of_directive (Token.readDirective_version (fun hc => ?_) rfl)
    refine Token.readVersion_of_minor hfirst hsome hshort hdigits hlong hrest ?_
    cases first with
    | nil => exact absurd rfl hsome
    | cons x first => exact skipSpaces_of_version (hfirst x List.mem_cons_self) hc

theorem graphs (h : StopsAt text fault) : Graph.ofText text = .error (.fault fault) := by
  rw [Graph.ofText, h.stream]
  rfl

theorem single (h : StopsAt text fault) : Graph.singleOfText text = .error (.fault fault) := by
  rw [Graph.singleOfText, h.stream]
  rfl

end StopsAt

end Treeline.Yaml
