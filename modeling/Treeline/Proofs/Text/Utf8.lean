import Mathlib.Data.List.Basic
import Mathlib.Tactic.SplitIfs
import Treeline.Proofs.Results
import Treeline.Text.Utf8

/-!
# Bytes that are text

The bytes of a character are one to four, by its number. Decoding takes them off the front as long
as it can, so a file is decoded exactly if its bytes are those of some text, wherever its pieces
end, and that text is the only one.
-/

namespace Treeline.Text.Utf8

/-! ### The bytes of a character -/

/-- The bytes of the character with a number. -/
inductive Spells : List UInt8 → Nat → Prop
  | one {lead : UInt8} (hlead : lead.toNat < 0x80) : Spells [lead] lead.toNat
  | two {lead b : UInt8} (hleast : 0xC2 ≤ lead.toNat) (hmost : lead.toNat < 0xE0)
      (hb : fitsSecond lead b = true) : Spells [lead, b] (lead.toNat % 32 * 64 + b.toNat % 64)
  | three {lead b x : UInt8} (hleast : 0xE0 ≤ lead.toNat) (hmost : lead.toNat < 0xF0)
      (hb : fitsSecond lead b = true) (hx : isContinuation x = true) :
      Spells [lead, b, x] ((lead.toNat % 16 * 64 + b.toNat % 64) * 64 + x.toNat % 64)
  | four {lead b x y : UInt8} (hleast : 0xF0 ≤ lead.toNat) (hmost : lead.toNat < 0xF5)
      (hb : fitsSecond lead b = true) (hx : isContinuation x = true)
      (hy : isContinuation y = true) :
      Spells [lead, b, x, y]
        (((lead.toNat % 8 * 64 + b.toNat % 64) * 64 + x.toNat % 64) * 64 + y.toNat % 64)

variable {lead b x y : UInt8} {bytes carried rest tail : List UInt8} {c : Char} {cs : List Char}
  {n : Nat}

theorem isContinuation_iff : isContinuation b = true ↔ 0x80 ≤ b.toNat ∧ b.toNat < 0xC0 := by
  simp [isContinuation, UInt8.le_iff_toNat_le, UInt8.lt_iff_toNat_lt]

theorem fitsSecond_iff : fitsSecond lead b = true ↔ 0x80 ≤ b.toNat ∧ b.toNat < 0xC0 ∧
    (lead.toNat = 0xE0 → 0xA0 ≤ b.toNat) ∧ (lead.toNat = 0xED → b.toNat < 0xA0) ∧
    (lead.toNat = 0xF0 → 0x90 ≤ b.toNat) ∧ (lead.toNat = 0xF4 → b.toNat < 0x90) := by
  simp only [fitsSecond, Bool.and_eq_true, Bool.or_eq_true, bne_iff_ne, isContinuation_iff,
    decide_eq_true_iff, UInt8.le_iff_toNat_le, UInt8.lt_iff_toNat_lt, Ne, ← UInt8.toNat_inj,
    ← Decidable.imp_iff_not_or, and_assoc]
  rfl

theorem width?_eq (lead : UInt8) : width? lead =
    if lead.toNat < 0x80 then some 1 else if lead.toNat < 0xC2 then none
    else if lead.toNat < 0xE0 then some 2 else if lead.toNat < 0xF0 then some 3
    else if lead.toNat < 0xF5 then some 4 else none := by
  simp only [width?, UInt8.lt_iff_toNat_lt]
  rfl

theorem width?_cases (lead : UInt8) :
    width? lead = none ∨ width? lead = some 1 ∧ lead.toNat < 0x80 ∨
      width? lead = some 2 ∧ 0xC2 ≤ lead.toNat ∧ lead.toNat < 0xE0 ∨
      width? lead = some 3 ∧ 0xE0 ≤ lead.toNat ∧ lead.toNat < 0xF0 ∨
      width? lead = some 4 ∧ 0xF0 ≤ lead.toNat ∧ lead.toNat < 0xF5 := by
  rw [width?_eq]
  split_ifs <;> simp <;> omega

theorem width?_two (hleast : 0xC2 ≤ lead.toNat) (hmost : lead.toNat < 0xE0) :
    width? lead = some 2 := by
  rw [width?_eq, if_neg (by omega), if_neg (by omega), if_pos hmost]

theorem width?_three (hleast : 0xE0 ≤ lead.toNat) (hmost : lead.toNat < 0xF0) :
    width? lead = some 3 := by
  rw [width?_eq, if_neg (by omega), if_neg (by omega), if_neg (by omega), if_pos hmost]

theorem width?_four (hleast : 0xF0 ≤ lead.toNat) (hmost : lead.toNat < 0xF5) :
    width? lead = some 4 := by
  rw [width?_eq, if_neg (by omega), if_neg (by omega), if_neg (by omega), if_neg (by omega),
    if_pos hmost]

theorem toNat_ofNat_of_lt (h : n < 256) : (UInt8.ofNat n).toNat = n := by
  rw [UInt8.toNat_ofNat']
  exact Nat.mod_eq_of_lt h

theorem Spells.of_eq {m : Nat} (h : Spells bytes m) (hm : m = n) : Spells bytes n := hm ▸ h

theorem spells_encodeChar (c : Char) : Spells (encodeChar c) c.toNat := by
  have hvalid : c.toNat < 0xD800 ∨ 0xDFFF < c.toNat ∧ c.toNat < 0x110000 := c.valid
  unfold encodeChar
  dsimp only
  split_ifs with hone htwo hthree
  · have hlead := toNat_ofNat_of_lt (by omega : c.toNat < 256)
    exact (Spells.one (by omega)).of_eq hlead
  · have hlead := toNat_ofNat_of_lt (by omega : 0xC0 + c.toNat / 64 < 256)
    have hb := toNat_ofNat_of_lt (by omega : 0x80 + c.toNat % 64 < 256)
    exact (Spells.two (by omega) (by omega) (fitsSecond_iff.2 (by omega))).of_eq (by omega)
  · have hlead := toNat_ofNat_of_lt (by omega : 0xE0 + c.toNat / 4096 < 256)
    have hb := toNat_ofNat_of_lt (by omega : 0x80 + c.toNat / 64 % 64 < 256)
    have hx := toNat_ofNat_of_lt (by omega : 0x80 + c.toNat % 64 < 256)
    exact (Spells.three (by omega) (by omega) (fitsSecond_iff.2 (by omega))
      (isContinuation_iff.2 (by omega))).of_eq (by omega)
  · have hlead := toNat_ofNat_of_lt (by omega : 0xF0 + c.toNat / 262144 < 256)
    have hb := toNat_ofNat_of_lt (by omega : 0x80 + c.toNat / 4096 % 64 < 256)
    have hx := toNat_ofNat_of_lt (by omega : 0x80 + c.toNat / 64 % 64 < 256)
    have hy := toNat_ofNat_of_lt (by omega : 0x80 + c.toNat % 64 < 256)
    exact (Spells.four (by omega) (by omega) (fitsSecond_iff.2 (by omega))
      (isContinuation_iff.2 (by omega)) (isContinuation_iff.2 (by omega))).of_eq (by omega)

theorem Spells.encodeChar_ofNat (h : Spells bytes n) : encodeChar (Char.ofNat n) = bytes := by
  have hbyte : ∀ {m : Nat} (z : UInt8), m = z.toNat → UInt8.ofNat m = z := by
    rintro _ z rfl
    exact UInt8.ofNat_toNat
  have hchar : n < 0xD800 ∨ 0xDFFF < n ∧ n < 0x110000 → (Char.ofNat n).toNat = n := by
    intro hn
    rw [Char.ofNat, dif_pos hn]
    rfl
  cases h with
  | @one lead hlead =>
    rw [encodeChar, hchar (by omega), if_pos hlead, hbyte lead rfl]
  | @two lead b hleast hmost hb =>
    have hb := fitsSecond_iff.1 hb
    rw [encodeChar, hchar (by omega), if_neg (by omega), if_pos (by omega), hbyte lead (by omega),
      hbyte b (by omega)]
  | @three lead b x hleast hmost hb hx =>
    have hb := fitsSecond_iff.1 hb
    have hx := isContinuation_iff.1 hx
    rw [encodeChar, hchar (by omega), if_neg (by omega), if_neg (by omega), if_pos (by omega),
      hbyte lead (by omega), hbyte b (by omega), hbyte x (by omega)]
  | @four lead b x y hleast hmost hb hx hy =>
    have hb := fitsSecond_iff.1 hb
    have hx := isContinuation_iff.1 hx
    have hy := isContinuation_iff.1 hy
    rw [encodeChar, hchar (by omega), if_neg (by omega), if_neg (by omega), if_neg (by omega),
      hbyte lead (by omega), hbyte b (by omega), hbyte x (by omega), hbyte y (by omega)]

/-! ### The head of some bytes -/

theorem head_of_spells (h : Spells (lead :: tail) n) (rest : List UInt8) :
    head lead (tail ++ rest) = .char (Char.ofNat n) tail.length := by
  unfold head
  cases h with
  | one hlead =>
    have hwidth : width? lead = some 1 := by rw [width?_eq, if_pos hlead]
    simp only [hwidth]
    rfl
  | @two lead b hleast hmost hb =>
    have hwidth := width?_two hleast hmost
    simp only [hwidth, List.cons_append, hb]
    rfl
  | @three lead b x hleast hmost hb hx =>
    have hwidth := width?_three hleast hmost
    simp only [hwidth, List.cons_append, hb, hx]
    rfl
  | @four lead b x y hleast hmost hb hx hy =>
    have hwidth := width?_four hleast hmost
    simp only [hwidth, List.cons_append, hb, hx, hy]
    rfl

/-- Where some of the bytes of a character are missing, it is cut off. -/
theorem head_of_cut (h : Spells (lead :: (tail ++ b :: rest)) n) : head lead tail = .cut := by
  generalize hbytes : tail ++ b :: rest = bytes at h
  unfold head
  cases h with
  | one hlead => simp at hbytes
  | two hleast hmost hb =>
    have hwidth := width?_two hleast hmost
    obtain _ | ⟨b, tail⟩ := tail
    · simp only [hwidth]
    · simp at hbytes
  | three hleast hmost hb hx =>
    have hwidth := width?_three hleast hmost
    obtain _ | ⟨b, _ | ⟨x, tail⟩⟩ := tail
    · simp only [hwidth]
    · obtain ⟨rfl, -⟩ := List.cons.inj hbytes
      simp [hwidth, hb]
    · simp at hbytes
  | four hleast hmost hb hx hy =>
    have hwidth := width?_four hleast hmost
    obtain _ | ⟨b, _ | ⟨x, _ | ⟨y, tail⟩⟩⟩ := tail
    · simp only [hwidth]
    · obtain ⟨rfl, -⟩ := List.cons.inj hbytes
      simp [hwidth, hb]
    · obtain ⟨rfl, rfl, -⟩ : b = _ ∧ x = _ ∧ _ := by simpa using hbytes
      simp [hwidth, hb, hx]
    · simp at hbytes

/-- What stands at the head of bytes is a character only if they begin with its bytes. -/
theorem spells_of_head {more : Nat} (h : head lead bytes = .char c more) :
    ∃ n tail rest, bytes = tail ++ rest ∧ tail.length = more ∧ Spells (lead :: tail) n ∧
      c = Char.ofNat n := by
  unfold head at h
  rcases width?_cases lead with hw | ⟨hw, hlead⟩ | ⟨hw, hleast, hmost⟩ | ⟨hw, hleast, hmost⟩ |
    ⟨hw, hleast, hmost⟩
  · simp only [hw] at h
    cases h
  · simp only [hw] at h
    cases h
    exact ⟨_, [], bytes, rfl, rfl, .one hlead, rfl⟩
  · cases bytes with
    | nil =>
      simp only [hw] at h
      cases h
    | cons b rest =>
      simp only [hw] at h
      split_ifs at h with hb
      cases h
      exact ⟨_, [b], rest, rfl, rfl, .two hleast hmost hb, rfl⟩
  · rcases bytes with _ | ⟨b, _ | ⟨x, rest⟩⟩
    · simp only [hw] at h
      cases h
    · simp only [hw] at h
      split_ifs at h
    · simp only [hw, Bool.not_eq_true'] at h
      split_ifs at h with hb hx
      cases h
      exact ⟨_, [b, x], rest, rfl, rfl, .three hleast hmost (Bool.not_eq_false _ ▸ hb) hx, rfl⟩
  · rcases bytes with _ | ⟨b, _ | ⟨x, _ | ⟨y, rest⟩⟩⟩
    · simp only [hw] at h
      cases h
    · simp only [hw] at h
      split_ifs at h
    · simp only [hw] at h
      split_ifs at h
    · simp only [hw, Bool.not_eq_true'] at h
      split_ifs at h with hb hx hy
      cases h
      exact ⟨_, [b, x, y], rest, rfl, rfl, .four hleast hmost (Bool.not_eq_false _ ▸ hb)
        (Bool.not_eq_false _ ▸ hx) hy, rfl⟩

theorem head_of_encodeChar (h : encodeChar c = lead :: tail) (rest : List UInt8) :
    head lead (tail ++ rest) = .char c tail.length := by
  have hspells := spells_encodeChar c
  rw [h] at hspells
  rw [head_of_spells hspells, Char.ofNat_toNat]

theorem exists_encodeChar (c : Char) : ∃ lead tail, encodeChar c = lead :: tail := by
  have hspells := spells_encodeChar c
  generalize encodeChar c = bytes, c.toNat = n at hspells
  cases hspells <;> exact ⟨_, _, rfl⟩

/-! ### Pieces of a text -/

/-- Bytes that hold no whole character, but may begin one. -/
def IsCut (bytes : List UInt8) : Prop :=
  ∀ lead tail, bytes = lead :: tail → head lead tail = .cut

theorem isCut_nil : IsCut [] := by
  rintro _ _ ⟨⟩

theorem pieceFrom_skip (position : Nat) (done : List Char) (tail rest : List UInt8) :
    pieceFrom position done tail.length (tail ++ rest) =
      pieceFrom (position + tail.length) done 0 rest := by
  induction tail generalizing position with
  | nil => rfl
  | cons b tail ih =>
    rw [List.length_cons, List.cons_append, pieceFrom, ih, Nat.add_right_comm, Nat.add_assoc]

theorem pieceFrom_char (position : Nat) (done : List Char) (c : Char) (rest : List UInt8) :
    pieceFrom position done 0 (encodeChar c ++ rest) =
      pieceFrom (position + (encodeChar c).length) (c :: done) 0 rest := by
  obtain ⟨lead, tail, hc⟩ := exists_encodeChar c
  rw [hc, List.cons_append, pieceFrom, head_of_encodeChar hc]
  dsimp only
  rw [pieceFrom_skip, List.length_cons, Nat.add_right_comm, Nat.add_assoc]

theorem pieceFrom_encode (position : Nat) (done cs : List Char) (hrest : IsCut rest) :
    pieceFrom position done 0 (encode cs ++ rest) = .ok ⟨done.reverse ++ cs, rest⟩ := by
  induction cs generalizing position done with
  | nil =>
    rw [List.append_nil]
    cases rest with
    | nil => rfl
    | cons lead tail =>
      change pieceFrom position done 0 (lead :: tail) = _
      rw [pieceFrom, hrest lead tail rfl]
  | cons c cs ih =>
    have hencode : encode (c :: cs) ++ rest = encodeChar c ++ (encode cs ++ rest) := by
      rw [encode, List.flatMap_cons, List.append_assoc, ← encode]
    rw [hencode, pieceFrom_char, ih, List.reverse_cons, List.append_assoc, List.singleton_append]

theorem encode_of_pieceFrom {position : Nat} {done : List Char} {p : Piece}
    (h : pieceFrom position done 0 bytes = .ok p) :
    ∃ cs, p.chars = done.reverse ++ cs ∧ bytes = encode cs ++ p.rest ∧ IsCut p.rest := by
  induction hlength : bytes.length using Nat.strongRecOn generalizing bytes position done with
  | ind length ih =>
    cases bytes with
    | nil =>
      cases h
      exact ⟨[], (List.append_nil _).symm, rfl, isCut_nil⟩
    | cons lead more =>
      rw [pieceFrom] at h
      cases hhead : head lead more with
      | wrong count reason =>
        rw [hhead] at h
        cases h
      | cut =>
        rw [hhead] at h
        cases h
        refine ⟨[], (List.append_nil _).symm, rfl, ?_⟩
        rintro _ _ ⟨⟩
        exact hhead
      | char c count =>
        obtain ⟨n, tail, rest, rfl, rfl, hspells, rfl⟩ := spells_of_head hhead
        rw [hhead] at h
        dsimp only at h
        rw [pieceFrom_skip] at h
        have hless : rest.length < length := by
          rw [← hlength, List.length_cons, List.length_append]
          omega
        obtain ⟨cs, hchars, hrest, hcut⟩ := ih _ hless h rfl
        refine ⟨Char.ofNat n :: cs, ?_, ?_, hcut⟩
        · rw [hchars, List.reverse_cons, List.append_assoc, List.singleton_append]
        · rw [encode, List.flatMap_cons, hspells.encodeChar_ofNat, ← encode, hrest]
          simp

/-- Where the bytes of a text are cut, whole characters come before the cut. -/
theorem exists_cut {front back : List UInt8} (h : encode cs = front ++ back) :
    ∃ before after rest, cs = before ++ after ∧ front = encode before ++ rest ∧
      rest ++ back = encode after ∧ IsCut rest := by
  induction cs generalizing front with
  | nil =>
    obtain ⟨rfl, rfl⟩ := List.append_eq_nil_iff.1 h.symm
    exact ⟨[], [], [], rfl, rfl, rfl, isCut_nil⟩
  | cons c cs ih =>
    have hencode : encodeChar c ++ encode cs = front ++ back := h
    obtain ⟨more, rfl, hmore⟩ | ⟨more, hc, hback⟩ := List.append_eq_append_iff.1 hencode
    · obtain ⟨before, after, rest, rfl, rfl, hafter, hcut⟩ := ih hmore
      refine ⟨c :: before, after, rest, rfl, ?_, hafter, hcut⟩
      rw [encode, encode, List.flatMap_cons, List.append_assoc]
    · obtain _ | ⟨b, more⟩ := more
      · rw [List.append_nil] at hc
        rw [List.nil_append] at hback
        refine ⟨[c], cs, [], rfl, ?_, hback, isCut_nil⟩
        rw [encode, List.flatMap_singleton, hc, List.append_nil]
      · refine ⟨[], c :: cs, front, rfl, rfl, h.symm, ?_⟩
        rintro lead tail rfl
        have hspells := spells_encodeChar c
        rw [hc] at hspells
        exact head_of_cut hspells

theorem not_isCut_encode (c : Char) (cs : List Char) : ¬IsCut (encode (c :: cs)) := by
  intro hcut
  obtain ⟨lead, tail, hc⟩ := exists_encodeChar c
  have hencode : encode (c :: cs) = lead :: (tail ++ encode cs) := by
    rw [encode, List.flatMap_cons, hc, List.cons_append, ← encode]
  have hhead := hcut lead _ hencode
  rw [head_of_encodeChar hc] at hhead
  cases hhead

/-- Bytes that come in pieces are decoded exactly if they are those of a text. -/
theorem decodePieces_eq_ok_iff {pieces : List (List UInt8)} (hcut : IsCut carried) :
    decodePieces carried pieces = .ok cs ↔ carried ++ pieces.flatten = encode cs := by
  induction pieces generalizing carried cs with
  | nil =>
    rw [List.flatten_nil, List.append_nil]
    cases cs with
    | nil =>
      cases carried with
      | nil => exact iff_of_true rfl rfl
      | cons lead tail => exact iff_of_false (by rintro ⟨⟩) (by rintro ⟨⟩)
    | cons c cs =>
      refine iff_of_false ?_ ?_
      · cases carried with
        | nil => rintro ⟨⟩
        | cons lead tail => rintro ⟨⟩
      · rintro rfl
        exact not_isCut_encode c cs hcut
  | cons bytes pieces ih =>
    rw [decodePieces, bind_eq_ok_iff, List.flatten_cons, ← List.append_assoc]
    constructor
    · rintro ⟨p, hp, h⟩
      obtain ⟨after, hafter, ⟨⟩⟩ := bind_eq_ok_iff.1 h
      obtain ⟨before, hchars, hbytes, hrest⟩ := encode_of_pieceFrom hp
      obtain rfl : p.chars = before := hchars
      rw [hbytes, List.append_assoc, (ih hrest).1 hafter, encode, encode, encode,
        List.flatMap_append]
    · intro h
      obtain ⟨before, after, rest, rfl, hfront, hback, hrest⟩ := exists_cut h.symm
      have hpiece : piece (carried ++ bytes) = .ok ⟨before, rest⟩ := by
        rw [piece, hfront, pieceFrom_encode 0 [] before hrest]
        rfl
      exact ⟨_, hpiece, bind_eq_ok_iff.2 ⟨after, (ih hrest).2 hback, rfl⟩⟩

theorem flatten_pieces {length count : Nat}
    (h : bytes.length ≤ count * length) : (pieces length count bytes).flatten = bytes := by
  induction count generalizing bytes with
  | zero =>
    obtain rfl : bytes = [] := List.length_eq_zero_iff.1 (by omega)
    rfl
  | succ count ih =>
    cases bytes with
    | nil => rfl
    | cons b bytes =>
      have hrest : ((b :: bytes).drop length).length ≤ count * length := by
        rw [List.length_drop]
        rw [Nat.add_one_mul] at h
        omega
      rw [pieces, List.flatten_cons, ih hrest, List.take_append_drop]
      exact List.cons_ne_nil b bytes

theorem decodeFile_eq_ok_iff : decodeFile bytes = .ok cs ↔ bytes = encode cs := by
  have hpieces : (pieces pieceLength (bytes.length / pieceLength + 1) bytes).flatten = bytes := by
    refine flatten_pieces ?_
    rw [pieceLength]
    omega
  rw [decodeFile, decodePieces_eq_ok_iff isCut_nil, hpieces, List.nil_append]

theorem exists_failure_iff :
    (∃ failure, decodeFile bytes = .error failure) ↔ ∀ cs, bytes ≠ encode cs := by
  simp only [Ne, ← decodeFile_eq_ok_iff]
  cases decodeFile bytes <;> simp

end Treeline.Text.Utf8
