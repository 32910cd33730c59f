import Mathlib.Data.List.ReduceOption
import Treeline.Proofs.Results
import Treeline.Proofs.Yaml.Cursor
import Treeline.Yaml.Token.Stream

/-!
# The state of reading tokens

Tokens are held back while a key could still begin at one of them, and released later. For what the
tokens finally are, that makes no difference: released and held tokens together are one list that
grows at its end, and to which a key sign is added in front of a token when that token turns out to
be a key. A possible key remembers its place in this list, and the state is sound as long as the
places that are remembered are among the tokens that are still held back, the outermost one first.
-/

namespace Treeline.Yaml.Scan

/-- All tokens so far, released or not. -/
def tokens (s : Scan) : List Token := s.released.reverse ++ s.held

/-- What the tokens so far are, wherever they stand. -/
def lexemes (s : Scan) : List Lexeme := s.tokens.map Token.lexeme

/-- The possible keys, outermost first. -/
def keysOf (outer : List (Option PossibleKey)) (key : Option PossibleKey) : List PossibleKey :=
  (outer.reverse ++ [key]).reduceOption

def keys (s : Scan) : List PossibleKey := keysOf s.outer s.key

/-- Released tokens are counted, and the possible keys are among the other ones, in order. -/
structure Sound (s : Scan) : Prop where
  counted : s.releasedCount = s.released.length
  ordered : s.keys.Pairwise fun a b => a.number ≤ b.number
  bounded : ∀ k ∈ s.keys, s.releasedCount ≤ k.number ∧ k.number ≤ s.releasedCount + s.held.length

variable {s : Scan}

theorem Sound.length_tokens (hs : s.Sound) : s.tokens.length = s.releasedCount + s.held.length := by
  simp [tokens, hs.counted]

theorem length_lexemes (s : Scan) : s.lexemes.length = s.tokens.length := by
  simp [lexemes]

/-! ### The possible keys -/

theorem keysOf_cons_none (key : Option PossibleKey) (outer : List (Option PossibleKey)) :
    keysOf (key :: outer) none = keysOf outer key := by
  rw [keysOf, keysOf, List.reverse_cons, List.reduceOption_append _ [none],
    List.reduceOption_cons_of_none, List.reduceOption_nil, List.append_nil]

theorem keysOf_some (outer : List (Option PossibleKey)) (k : PossibleKey) :
    keysOf outer (some k) = keysOf outer none ++ [k] := by
  simp [keysOf, List.reduceOption_append, List.reduceOption_nil, List.reduceOption_cons_of_none,
    List.reduceOption_cons_of_some]

theorem keysOf_none_sublist (outer : List (Option PossibleKey)) (key : Option PossibleKey) :
    (keysOf outer none).Sublist (keysOf outer key) := by
  cases key with
  | none => exact List.Sublist.refl _
  | some k =>
    rw [keysOf_some]
    exact List.sublist_append_left _ _

/-- Behind a closing bracket, the possible key is the one from before the opening bracket. -/
theorem keysOf_tail (outer : List (Option PossibleKey)) :
    keysOf outer.tail (outer.head?.getD none) = keysOf outer none := by
  cases outer with
  | nil => rfl
  | cons key outer => exact (keysOf_cons_none key outer).symm

theorem mem_keysOf {outer : List (Option PossibleKey)} {key : Option PossibleKey}
    {k : PossibleKey} : k ∈ keysOf outer key ↔ some k ∈ outer ∨ some k = key := by
  simp [keysOf, List.reduceOption_mem_iff]

theorem keysOf_filter (p : PossibleKey → Bool) (outer : List (Option PossibleKey))
    (key : Option PossibleKey) :
    keysOf (outer.map (·.filter p)) (key.filter p) = (keysOf outer key).filter p := by
  have hfilter : ∀ keys : List (Option PossibleKey),
      (keys.map (·.filter p)).reduceOption = keys.reduceOption.filter p := by
    intro keys
    induction keys with
    | nil => rfl
    | cons k keys ih =>
      cases k with
      | none =>
        rw [List.map_cons, Option.filter_none, List.reduceOption_cons_of_none,
          List.reduceOption_cons_of_none, ih]
      | some k =>
        by_cases hk : p k = true
        · rw [List.map_cons, Option.filter_some_pos hk, List.reduceOption_cons_of_some,
            List.reduceOption_cons_of_some, ih, List.filter_cons_of_pos hk]
        · rw [List.map_cons, Option.filter_some_neg (by simpa using hk),
            List.reduceOption_cons_of_none, List.reduceOption_cons_of_some, ih,
            List.filter_cons_of_neg hk]
  have hkeys := hfilter (outer.reverse ++ [key])
  rw [List.map_append, List.map_reverse] at hkeys
  exact hkeys

/-! ### Adding tokens -/

theorem lexemes_push (s : Scan) (t : Token) : (s.push t).lexemes = s.lexemes ++ [t.lexeme] := by
  simp [lexemes, tokens, push]

theorem lexemes_pushSign (s : Scan) (lexeme : Lexeme) (length : Nat) :
    (s.pushSign lexeme length).lexemes = s.lexemes ++ [lexeme] :=
  lexemes_push s ⟨lexeme, s.cursor.mark, (s.cursor.skip length).mark⟩

theorem Sound.of_sublist {s' : Scan} (hs : s.Sound) (hreleased : s'.released = s.released)
    (hcount : s'.releasedCount = s.releasedCount) (hheld : s.held.length ≤ s'.held.length)
    (hkeys : s'.keys.Sublist s.keys) : s'.Sound := by
  refine ⟨by rw [hcount, hreleased, hs.counted], hs.ordered.sublist hkeys, ?_⟩
  intro k hk
  have hbound := hs.bounded k (hkeys.subset hk)
  omega

theorem Sound.of_sublist_key {s' : Scan} {k : PossibleKey} (hs : s.Sound)
    (hreleased : s'.released = s.released) (hcount : s'.releasedCount = s.releasedCount)
    (hheld : s.held.length ≤ s'.held.length) (hk : k.number = s.releasedCount + s.held.length)
    (hkeys : s'.keys.Sublist (s.keys ++ [k])) : s'.Sound := by
  have hordered : (s.keys ++ [k]).Pairwise fun a b => a.number ≤ b.number := by
    rw [List.pairwise_append]
    refine ⟨hs.ordered, List.pairwise_singleton _ _, ?_⟩
    intro a ha b hb
    rw [List.mem_singleton.1 hb, hk]
    exact (hs.bounded a ha).2
  refine ⟨by rw [hcount, hreleased, hs.counted], hordered.sublist hkeys, ?_⟩
  intro a ha
  rcases List.mem_append.1 (hkeys.subset ha) with ha | ha
  · have hbound := hs.bounded a ha
    omega
  · rw [List.mem_singleton.1 ha]
    omega

/-! ### Dropping stale keys -/

/-- The state without the possible keys that are stale. -/
def refresh (s : Scan) : Scan :=
  { s with
    key := s.key.filter fun k => !s.isStale k
    outer := s.outer.map (·.filter fun k => !s.isStale k) }

theorem keys_refresh (s : Scan) : s.refresh.keys = s.keys.filter fun k => !s.isStale k :=
  keysOf_filter _ _ _

theorem dropStale_eq (h : ∀ k ∈ s.keys, s.isStale k = true → k.isRequired = false) :
    s.dropStale = .ok s.refresh := by
  have hcheck : ∀ key : Option PossibleKey, (∀ k, some k = key → k ∈ s.keys) →
      s.checkKey key = .ok (key.filter fun k => !s.isStale k) := by
    intro key hkey
    cases key with
    | none => rfl
    | some k =>
      cases hstale : s.isStale k with
      | false => simp [checkKey, hstale, Option.filter]
      | true =>
        have hfree := h k (hkey k rfl) hstale
        simp [checkKey, giveUp, hstale, hfree, Option.filter]
  have hkey : s.checkKey s.key = .ok (s.key.filter fun k => !s.isStale k) :=
    hcheck s.key fun k hk => mem_keysOf.2 (.inr hk)
  have houter : s.outer.mapM s.checkKey = .ok (s.outer.map (·.filter fun k => !s.isStale k)) := by
    rw [mapM_eq_ok_iff, List.forall₂_map_right_iff, List.forall₂_same]
    intro key hmem
    refine hcheck key fun k hk => mem_keysOf.2 (.inl ?_)
    rwa [hk]
  rw [dropStale, hkey, houter]
  rfl

theorem Sound.refresh (hs : s.Sound) : s.refresh.Sound := by
  refine hs.of_sublist rfl rfl (Nat.le_refl _) ?_
  rw [keys_refresh]
  exact List.filter_sublist

/-! ### Releasing tokens -/

theorem tokens_release (s : Scan) : s.release.tokens = s.tokens := by
  simp [tokens, release, List.append_assoc, List.take_append_drop]

theorem findSome?_id (keys : List (Option PossibleKey)) :
    keys.findSome? id = keys.reduceOption.head? := by
  induction keys with
  | nil => rfl
  | cons k keys ih =>
    cases k with
    | none => simpa [List.reduceOption_cons_of_none] using ih
    | some k => simp [List.reduceOption_cons_of_some]

/-- Only tokens before every possible key are released. -/
theorem Sound.release (hs : s.Sound) : s.release.Sound := by
  have hfirst : (s.outer.reverse ++ [s.key]).findSome? id = s.keys.head? := findSome?_id _
  have hlast : ∀ count, count ≤ s.held.length →
      (∀ k ∈ s.keys, s.releasedCount + count ≤ k.number) →
      Sound { s with
        released := (s.held.take count).reverse ++ s.released
        releasedCount := s.releasedCount + (s.held.take count).length
        held := s.held.drop count } := by
    intro count hcount hkeys
    have htake : (s.held.take count).length = count := List.length_take_of_le hcount
    refine ⟨?_, hs.ordered, ?_⟩
    · simp [hs.counted, Nat.add_comm]
    · intro k hk
      have hbound := hs.bounded k hk
      have hk' := hkeys k hk
      dsimp only
      rw [htake, List.length_drop]
      omega
  rw [Scan.release, hfirst]
  cases hkeys : s.keys with
  | nil =>
    refine hlast s.held.length (Nat.le_refl _) ?_
    rw [hkeys]
    simp
  | cons first rest =>
    have hbound := hs.bounded first (by rw [hkeys]; exact List.mem_cons_self)
    have hordered := hs.ordered
    rw [hkeys, List.pairwise_cons] at hordered
    refine hlast (first.number - s.releasedCount) (by omega) ?_
    rw [hkeys, List.forall_mem_cons]
    refine ⟨by omega, ?_⟩
    intro k hk
    have hle := hordered.1 k hk
    omega

/-! ### Turning a token into a key -/

/-- A key sign is put in front of the token that began the key, with the start of a mapping if one
begins with it. -/
theorem tokens_confirmKey {k : PossibleKey} (hs : s.Sound) (hk : k ∈ s.keys) :
    (s.confirmKey k).tokens = s.tokens.take k.number ++
      (if !s.inFlow && s.isDeeper k.mark.column then
        [⟨.blockMappingStart, k.mark, k.mark⟩, ⟨.key, k.mark, k.mark⟩]
      else [⟨.key, k.mark, k.mark⟩]) ++ s.tokens.drop k.number := by
  have hbound := hs.bounded k hk
  have hcounted := hs.counted
  have htake : s.tokens.take k.number =
      s.released.reverse ++ s.held.take (k.number - s.releasedCount) := by
    rw [tokens, List.take_append, List.take_of_length_le (by simp; omega), List.length_reverse,
      hcounted]
  have hdrop : s.tokens.drop k.number = s.held.drop (k.number - s.releasedCount) := by
    rw [tokens, List.drop_append, List.drop_of_length_le (by simp; omega), List.length_reverse,
      hcounted, List.nil_append]
  rw [htake, hdrop]
  simp [confirmKey, insertHeld, tokens]

theorem lexemes_confirmKey {k : PossibleKey} (hs : s.Sound) (hk : k ∈ s.keys) :
    (s.confirmKey k).lexemes = s.lexemes.take k.number ++
      (if !s.inFlow && s.isDeeper k.mark.column then [.blockMappingStart, .key] else [.key]) ++
      s.lexemes.drop k.number := by
  rw [lexemes, tokens_confirmKey hs hk, List.map_append, List.map_append, List.map_take,
    List.map_drop]
  split <;> rfl

theorem indents_confirmKey (s : Scan) (k : PossibleKey) :
    (s.confirmKey k).indents =
      if !s.inFlow && s.isDeeper k.mark.column then k.mark.column :: s.indents else s.indents :=
  rfl

theorem keys_confirmKey_sublist (s : Scan) (k : PossibleKey) :
    (s.confirmKey k).keys.Sublist s.keys :=
  keysOf_none_sublist s.outer s.key

theorem Sound.confirmKey {k : PossibleKey} (hs : s.Sound) (hk : k ∈ s.keys) :
    (s.confirmKey k).Sound := by
  have hlength := congrArg List.length (tokens_confirmKey hs hk)
  refine hs.of_sublist rfl rfl ?_ (keys_confirmKey_sublist s k)
  simp [Scan.confirmKey, insertHeld]
  omega

end Treeline.Yaml.Scan
