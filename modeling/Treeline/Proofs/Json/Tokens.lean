import Treeline.Proofs.Json.Scalars
import Treeline.Proofs.Yaml.Graph.Complete
import Treeline.Proofs.Yaml.Scan.Entry

/-!
# The tokens of a JSON text

A JSON value is read as collections in brackets, token by token, and leaves the state in which it
was found but for its tokens. The recursion is that of the syntax; behind each value comes a gap and
a sign that ends plain text.
-/

namespace Treeline.Json

open Yaml

mutual

/-- The shape that a value is read as. -/
def Value.shape : Value → Shape
  | .word text => .scalar (String.ofList text) true
  | .string pieces => .scalar (decoded pieces) false
  | .array _ items => .flowSequence items.shapes
  | .object _ members => .flowMapping members.shapes

def Items.shapes : Items → Shapes
  | .nil => .nil
  | .cons _ item _ rest => .cons item.shape rest.shapes

def Members.shapes : Members → Entries
  | .nil => .nil
  | .cons _ key _ _ value _ rest => .cons (decoded key) false value.shape rest.shapes

end

mutual

theorem Value.tree_shape (v : Value) : v.shape.tree = v.tree := by
  cases v with
  | word text => rfl
  | string pieces => rfl
  | array gap items => exact congrArg Tree.sequence items.trees_shapes
  | object gap members => exact congrArg Tree.mapping members.trees_shapes

theorem Items.trees_shapes (items : Items) : items.shapes.trees = items.trees := by
  cases items with
  | nil => rfl
  | cons before item after rest =>
    rw [Items.shapes, Shapes.trees, Items.trees, item.tree_shape, rest.trees_shapes]

theorem Members.trees_shapes (members : Members) : members.shapes.trees = members.entries := by
  cases members with
  | nil => rfl
  | cons before key link gap value after rest =>
    rw [Members.shapes, Entries.trees, Members.entries, value.tree_shape, rest.trees_shapes]

end

mutual

theorem Value.fits (v : Value) (place : Reading.Place) : v.shape.Fits place := by
  cases v with
  | word text => trivial
  | string pieces => trivial
  | array gap items => exact items.fit
  | object gap members => exact members.fit

theorem Items.fit (items : Items) : items.shapes.Fit .flow := by
  cases items with
  | nil => trivial
  | cons before item after rest => exact ⟨item.fits .flow, rest.fit⟩

theorem Members.fit (members : Members) : members.shapes.Fit .flow := by
  cases members with
  | nil => trivial
  | cons before key link gap value after rest => exact ⟨value.fits .flow, rest.fit⟩

end

/-! ### Gaps and signs -/

/-- A sign that can stand behind a value. -/
def IsSign (x : Char) : Prop := x = ',' ∨ x = ']' ∨ x = '\x7d'

theorem IsSign.ends {x : Char} (hx : IsSign x) (rest : List Char) :
    startsToken (x :: rest) ∧ Token.plainRun true (x :: rest) = [] := by
  rcases hx with rfl | rfl | rfl
  all_goals exact ⟨Scan.startsToken_cons (by decide) rest, if_pos rfl⟩

theorem isGap_of_isGap {gap : List Char} (hgap : IsGap gap) (hkept : ∀ x ∈ gap, isKept x = true) :
    ∀ x ∈ gap, isGap x = true :=
  fun x hx => isGap_of_isSpace (hgap x hx) (hkept x hx)

theorem Value.startsToken {v : Value} (hproper : v.IsProper) (rest : List Char) :
    startsToken (v.chars ++ rest) := by
  cases v with
  | word text =>
    have hall : ∀ y ∈ "-0123456789tfn".toList, isGap y = false ∧ y ≠ '#' ∧ y ≠ '\uFEFF' :=
      List.all_iff_forall_prop.1 (by decide)
    rcases exists_head hproper with ⟨x, more, rfl, hx⟩ | ⟨x, more, rfl, hx⟩
    · exact Scan.startsToken_cons (hall x (List.mem_cons_of_mem _ hx)) _
    · exact Scan.startsToken_cons (by decide) _
  | string pieces => exact Scan.startsToken_cons (by decide) _
  | array gap items => exact Scan.startsToken_cons (by decide) _
  | object gap members => exact Scan.startsToken_cons (by decide) _

/-! ### Scalars -/

section

variable {s : Scan} {depth : Nat} {ls : List Lexeme} {gap rest : List Char}

theorem leads_word {text : List Char} (h : s.Within [] depth ls (text ++ (gap ++ rest)))
    (hdepth : 0 < depth) (htext : IsWord text) (hgap : ∀ x ∈ gap, isGap x = true)
    (hrest : Yaml.startsToken rest) (hend : Token.plainRun true rest = []) :
    ∃ t, Scan.Leads s t ∧ t.Within [] depth (ls ++ [.scalar (String.ofList text) true]) rest := by
  obtain ⟨-, hcursor, -⟩ := h.ready (.inr rfl)
  obtain ⟨hstart, hseparator⟩ := startsPlain_of_isWord true htext hcursor
  have hsolid : ∀ x ∈ text, Token.IsSolid x :=
    fun x hx => isSolid_of_mem (mem_wordCharacters htext x hx)
  have hne : text ≠ [] := by
    rintro rfl
    rcases exists_head htext with ⟨x, more, hnil, -⟩ | ⟨x, more, hnil, -⟩ <;> cases hnil
  have hrun := Token.plainRun_of_isSolid hsolid (Token.plainRun_gap hgap hend)
  rw [← hcursor] at hrun
  rw [← List.append_assoc] at hcursor
  obtain ⟨stop, after, hread, hpass, hafter⟩ :=
    Token.readPlainText_eq s.ready.textIndent hcursor hrun hne hgap hrest hend
  have hcs : text ++ gap ≠ [] := List.append_ne_nil_of_left_ne_nil hne gap
  obtain ⟨t, hleads, ht, -⟩ := (h.facing_flat (.inr rfl)).plain (.inl hdepth)
    (decide_eq_true hdepth).symm hstart hseparator hread hpass hcs hafter hrest
  exact ⟨t, hleads, ht⟩

theorem leads_string {pieces : List Piece}
    (h : s.Within [] depth ls (quoted pieces ++ (gap ++ rest)))
    (hproper : ∀ p ∈ pieces, p.IsProper) (hkept : ∀ x ∈ quoted pieces, isKept x = true)
    (hlines : keepsLines (pieces.flatMap Piece.chars) = true)
    (hgap : ∀ x ∈ gap, isGap x = true) (hrest : Yaml.startsToken rest) :
    ∃ t, Scan.Leads s t ∧ t.Within [] depth (ls ++ [.scalar (decoded pieces) false]) rest := by
  obtain ⟨-, hcursor, -⟩ := h.ready (.inr rfl)
  obtain ⟨after, hread, hpass, hafter⟩ := exists_readQuotedText hproper hkept hlines hcursor
  obtain ⟨t, hleads, ht, -⟩ := Scan.Facing.quoted true (h.facing_flat (.inr rfl)) (.inr nofun) hread
    hpass (List.cons_ne_nil _ _) hafter hgap hrest
  exact ⟨t, hleads, ht⟩

theorem leads_key {pieces : List Piece} {link : List Char}
    (h : s.Within [] depth ls (quoted pieces ++ (link ++ ':' :: (gap ++ rest))))
    (hdepth : 0 < depth) (hallowed : s.keyAllowed = true) (hproper : ∀ p ∈ pieces, p.IsProper)
    (hkept : ∀ x ∈ quoted pieces, isKept x = true)
    (hline : ∀ x ∈ quoted pieces, isBreak x = false) (hlink : ∀ x ∈ link, x = ' ')
    (hroom : (quoted pieces).length + link.length ≤ maxKeyLength)
    (hgap : ∀ x ∈ gap, isGap x = true) (hrest : Yaml.startsToken rest) :
    ∃ t, Scan.Leads s t ∧
      t.Within [] depth (ls ++ [.key, .scalar (decoded pieces) false, .value]) rest := by
  obtain ⟨-, hcursor, hstill⟩ := h.ready (.inr rfl)
  have hlines : keepsLines (pieces.flatMap Piece.chars) = true := by
    refine keepsLines_of_isBreak_eq_false fun x hx => hline x ?_
    simp [quoted, hx]
  obtain ⟨after, hread, hpass, hafter⟩ := exists_readQuotedText hproper hkept hlines hcursor
  obtain ⟨t, hleads, ht, -⟩ := (h.facing_flat (.inr rfl)).entry (hstill hallowed)
    (fun key hsave => Scan.readToken_quoted hcursor hsave hread) hpass
    hline hafter hlink hroom (List.cons_ne_nil _ _) (.inl hdepth)
    (.inl hdepth) hgap hrest
  have hopens : Scan.opensMapping [] depth s.ready.cursor.column = false := by
    rw [Scan.opensMapping, decide_eq_false (Nat.ne_zero_of_lt hdepth)]
    rfl
  rw [hopens] at ht
  exact ⟨t, hleads, by simpa using ht⟩

end

/-! ### Collections -/

namespace Items

/-- The gap in front of the first item. -/
def front : Items → List Char
  | .nil => []
  | .cons before _ _ _ => before

def body : Items → List Char
  | .nil => []
  | .cons _ item after rest => item.chars ++ (after ++ (rest.comma ++ rest.chars))

theorem front_append_body (items : Items) : items.front ++ items.body = items.chars := by
  cases items <;> rfl

end Items

namespace Members

def front : Members → List Char
  | .nil => []
  | .cons before _ _ _ _ _ _ => before

def body : Members → List Char
  | .nil => []
  | .cons _ key link gap value after rest =>
    quoted key ++ (link ++ ':' :: (gap ++ (value.chars ++ (after ++ (rest.comma ++ rest.chars)))))

theorem front_append_body (members : Members) : members.front ++ members.body = members.chars := by
  cases members <;> rfl

end Members

section

variable {s : Scan} {depth : Nat} {ls : List Lexeme} {x : Char}

theorem Items.isGap_front {items : Items} (hproper : items.IsProper)
    (hkept : ∀ y ∈ items.chars, isKept y = true) : ∀ y ∈ items.front, isGap y = true := by
  cases items with
  | nil => simp [front]
  | cons before item after rest =>
    rw [Items.chars, List.forall_mem_append] at hkept
    exact isGap_of_isGap hproper.1 hkept.1

theorem Members.isGap_front {members : Members} (hproper : members.IsProper)
    (hkept : ∀ y ∈ members.chars, isKept y = true) : ∀ y ∈ members.front, isGap y = true := by
  cases members with
  | nil => simp [front]
  | cons before key link gap value after rest =>
    rw [Members.chars, List.forall_mem_append] at hkept
    exact isGap_of_isGap hproper.1 hkept.1

theorem Items.startsToken_body {items : Items} (hproper : items.IsProper) (hx : IsSign x)
    (more : List Char) : Yaml.startsToken (items.body ++ x :: more) := by
  cases items with
  | nil => exact (hx.ends more).1
  | cons before item after rest =>
    rw [body, List.append_assoc]
    exact Value.startsToken hproper.2.1 _

theorem Members.startsToken_body (members : Members) (hx : IsSign x) (more : List Char) :
    Yaml.startsToken (members.body ++ x :: more) := by
  cases members with
  | nil => exact (hx.ends more).1
  | cons before key link gap value after rest => exact Scan.startsToken_cons (by decide) _

/-- Behind an item come a comma and further items, or a sign that ends them. -/
theorem Items.ends_comma (items : Items) (hx : IsSign x) (more : List Char) :
    Yaml.startsToken (items.comma ++ (items.chars ++ x :: more)) ∧
      Token.plainRun true (items.comma ++ (items.chars ++ x :: more)) = [] := by
  cases items with
  | nil => exact hx.ends more
  | cons before item after rest => exact IsSign.ends (.inl rfl) _

theorem Members.ends_comma (members : Members) (hx : IsSign x) (more : List Char) :
    Yaml.startsToken (members.comma ++ (members.chars ++ x :: more)) ∧
      Token.plainRun true (members.comma ++ (members.chars ++ x :: more)) = [] := by
  cases members with
  | nil => exact hx.ends more
  | cons before key link gap value after rest => exact IsSign.ends (.inl rfl) _

theorem Items.leads_comma {items : Items} {more : List Char}
    (h : s.Within [] (depth + 1) ls (items.comma ++ (items.chars ++ x :: more)))
    (hproper : items.IsProper) (hkept : ∀ y ∈ items.chars, isKept y = true) (hx : IsSign x) :
    ∃ t, Scan.Leads s t ∧
      t.Within [] (depth + 1) (ls ++ items.shapes.comma) (items.body ++ x :: more) := by
  have hstart := Items.startsToken_body hproper hx more
  have hfront := Items.isGap_front hproper hkept
  rw [← items.front_append_body, List.append_assoc] at h
  cases items with
  | nil =>
    rw [Items.shapes, Shapes.comma, List.append_nil]
    exact ⟨s, .refl s, h⟩
  | cons before item after rest =>
    have h' : s.Within [] (depth + 1) ls
        (',' :: (before ++ ((cons before item after rest).body ++ x :: more))) := h
    obtain ⟨t, hleads, hwithin, -⟩ := h'.comma depth.succ_pos hfront hstart
    exact ⟨t, hleads, hwithin⟩

theorem Members.leads_comma {members : Members} {more : List Char}
    (h : s.Within [] (depth + 1) ls (members.comma ++ (members.chars ++ x :: more)))
    (hproper : members.IsProper) (hkept : ∀ y ∈ members.chars, isKept y = true) (hx : IsSign x) :
    ∃ t, Scan.Leads s t ∧
      t.Within [] (depth + 1) (ls ++ members.shapes.comma) (members.body ++ x :: more) ∧
      (members ≠ .nil → t.keyAllowed = true) := by
  have hstart := members.startsToken_body hx more
  have hfront := Members.isGap_front hproper hkept
  rw [← members.front_append_body, List.append_assoc] at h
  cases members with
  | nil =>
    rw [Members.shapes, Entries.comma, List.append_nil]
    exact ⟨s, .refl s, h, fun hne => absurd rfl hne⟩
  | cons before key link gap value after rest =>
    have h' : s.Within [] (depth + 1) ls (',' :: (before ++
        ((cons before key link gap value after rest).body ++ x :: more))) := h
    obtain ⟨t, hleads, hwithin, hallowed⟩ := h'.comma depth.succ_pos hfront hstart
    exact ⟨t, hleads, hwithin, fun _ => hallowed⟩

end

mutual

/-- A value is read as the tokens of its shape. -/
theorem Value.leads (v : Value) (hproper : v.IsProper) (hkept : ∀ y ∈ v.chars, isKept y = true)
    (hlines : v.KeepsLines) (hnear : v.HasNearColons) {s : Scan} {depth : Nat} {ls : List Lexeme} {gap rest : List Char}
    (h : s.Within [] depth ls (v.chars ++ (gap ++ rest))) (hdepth : 0 < depth ∨ v.IsCollection)
    (hgap : ∀ y ∈ gap, isGap y = true) (hrest : Yaml.startsToken rest)
    (hend : Token.plainRun true rest = []) :
    ∃ t, Scan.Leads s t ∧ t.Within [] depth (ls ++ v.shape.lexemes) rest := by
  cases v with
  | word text => exact leads_word h (hdepth.resolve_right id) hproper hgap hrest hend
  | string pieces => exact leads_string h hproper hkept hlines hgap hrest
  | array before items =>
    simp only [Value.chars, List.forall_mem_cons, List.forall_mem_append] at hkept
    obtain ⟨-, hbefore, hitems, -⟩ := hkept
    have hlead : ∀ y ∈ before ++ items.front, isGap y = true :=
      List.forall_mem_append.2
        ⟨isGap_of_isGap hproper.1 hbefore, Items.isGap_front hproper.2 hitems⟩
    have hchars : (Value.array before items).chars ++ (gap ++ rest) =
        '[' :: ((before ++ items.front) ++ (items.body ++ ']' :: (gap ++ rest))) := by
      rw [Value.chars, ← items.front_append_body]
      simp
    rw [hchars] at h
    have hsign : IsSign ']' := .inr (.inl rfl)
    obtain ⟨t, hopen, ht, -, -⟩ := (h.facing_flat (.inr rfl)).opening (.inl ⟨rfl, rfl⟩)
      (.inr nofun) hlead
      (Items.startsToken_body hproper.2 hsign _)
    obtain ⟨u, hread, hu⟩ := items.leads hproper.2 hitems hlines hnear hsign ht
    obtain ⟨w, hclose, hw, -⟩ := hu.closing (.inl ⟨rfl, rfl⟩) hgap hrest
    refine ⟨w, (hopen.trans hread).trans hclose, ?_⟩
    rw [Value.shape, Shape.lexemes]
    simpa using hw
  | object before members =>
    simp only [Value.chars, List.forall_mem_cons, List.forall_mem_append] at hkept
    obtain ⟨-, hbefore, hmembers, -⟩ := hkept
    have hlead : ∀ y ∈ before ++ members.front, isGap y = true :=
      List.forall_mem_append.2
        ⟨isGap_of_isGap hproper.1 hbefore, Members.isGap_front hproper.2 hmembers⟩
    have hchars : (Value.object before members).chars ++ (gap ++ rest) =
        '\x7b' :: ((before ++ members.front) ++ (members.body ++ '\x7d' :: (gap ++ rest))) := by
      rw [Value.chars, ← members.front_append_body]
      simp
    rw [hchars] at h
    have hsign : IsSign '\x7d' := .inr (.inr rfl)
    obtain ⟨t, hopen, ht, -, hallowed, -⟩ := (h.facing_flat (.inr rfl)).opening (.inr ⟨rfl, rfl⟩)
      (.inr nofun) hlead
      (members.startsToken_body hsign _)
    obtain ⟨u, hread, hu⟩ := members.leads hproper.2 hmembers hlines hnear hsign ht fun _ => hallowed
    obtain ⟨w, hclose, hw, -⟩ := hu.closing (.inr ⟨rfl, rfl⟩) hgap hrest
    refine ⟨w, (hopen.trans hread).trans hclose, ?_⟩
    rw [Value.shape, Shape.lexemes]
    simpa using hw

theorem Items.leads (items : Items) (hproper : items.IsProper)
    (hkept : ∀ y ∈ items.chars, isKept y = true) (hlines : items.KeepsLines)
    (hnear : items.HasNearColons) {s : Scan} {depth : Nat} {ls : List Lexeme} {x : Char} {more : List Char} (hx : IsSign x)
    (h : s.Within [] (depth + 1) ls (items.body ++ x :: more)) :
    ∃ t, Scan.Leads s t ∧
      t.Within [] (depth + 1) (ls ++ items.shapes.flowLexemes) (x :: more) := by
  cases items with
  | nil =>
    rw [Items.shapes, Shapes.flowLexemes, List.append_nil]
    exact ⟨s, .refl s, h⟩
  | cons before item after rest =>
    simp only [Items.chars, List.forall_mem_append] at hkept
    obtain ⟨-, hitem, hafter, -, hrest⟩ := hkept
    obtain ⟨-, hproperItem, hproperAfter, hproperRest⟩ := hproper
    simp only [Items.body, List.append_assoc] at h
    obtain ⟨hstart, hend⟩ := rest.ends_comma hx more
    obtain ⟨t, hread, ht⟩ := item.leads hproperItem hitem hlines.1 hnear.1 h (.inl depth.succ_pos)
      (isGap_of_isGap hproperAfter hafter) hstart hend
    obtain ⟨u, hcomma, hu⟩ := Items.leads_comma ht hproperRest hrest hx
    obtain ⟨w, hothers, hw⟩ := rest.leads hproperRest hrest hlines.2 hnear.2 hx hu
    refine ⟨w, (hread.trans hcomma).trans hothers, ?_⟩
    rw [Items.shapes, Shapes.flowLexemes]
    simpa using hw

theorem Members.leads (members : Members) (hproper : members.IsProper)
    (hkept : ∀ y ∈ members.chars, isKept y = true) (hlines : members.KeepsLines)
    (hnear : members.HasNearColons) {s : Scan} {depth : Nat} {ls : List Lexeme} {x : Char} {more : List Char} (hx : IsSign x)
    (h : s.Within [] (depth + 1) ls (members.body ++ x :: more))
    (hallowed : members ≠ .nil → s.keyAllowed = true) :
    ∃ t, Scan.Leads s t ∧
      t.Within [] (depth + 1) (ls ++ members.shapes.flowLexemes) (x :: more) := by
  cases members with
  | nil =>
    rw [Members.shapes, Entries.flowLexemes, List.append_nil]
    exact ⟨s, .refl s, h⟩
  | cons before key link gap value after rest =>
    simp only [Members.chars, List.forall_mem_append, List.forall_mem_cons] at hkept
    obtain ⟨-, hkey, -, -, hgap, hvalue, hafter, -, hrest⟩ := hkept
    obtain ⟨-, hproperKey, -, hproperGap, hproperValue, hproperAfter, hproperRest⟩ := hproper
    simp only [Members.body, List.append_assoc, List.cons_append] at h
    obtain ⟨hstart, hend⟩ := rest.ends_comma hx more
    obtain ⟨q, hcolon, hq⟩ := leads_key h depth.succ_pos (hallowed (by simp)) hproperKey hkey
      hlines.1 hnear.1.1 hnear.1.2 (isGap_of_isGap hproperGap hgap) (Value.startsToken hproperValue _)
    obtain ⟨t, hread, ht⟩ := value.leads hproperValue hvalue hlines.2.1 hnear.2.1 hq (.inl depth.succ_pos)
      (isGap_of_isGap hproperAfter hafter) hstart hend
    obtain ⟨u, hcomma, hu, hfresh⟩ := Members.leads_comma ht hproperRest hrest hx
    obtain ⟨w, hothers, hw⟩ := rest.leads hproperRest hrest hlines.2.2 hnear.2.2 hx hu hfresh
    refine ⟨w, ((hcolon.trans hread).trans hcomma).trans hothers, ?_⟩
    rw [Members.shapes, Entries.flowLexemes]
    simpa using hw

end

end Treeline.Json
