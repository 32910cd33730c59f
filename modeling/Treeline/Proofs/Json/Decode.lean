import Treeline.Proofs.Decode.Shapes
import Treeline.Proofs.Json.Tokens

/-!
# Decoding JSON texts

A JSON text decodes to the tree that it stands for, if its characters and the line breaks in its
strings are kept and its colons are near their keys. Of the gaps that JSON has, those with tabs are
left out by the first condition, and those with line breaks in front of a colon by the last one.
-/

namespace Treeline.Json

open Yaml

theorem isAllowed_of_isKept {x : Char} (hx : isKept x = true) : isAllowed x = true :=
  (isKept_iff.1 hx).1

theorem Document.exists_tokens {d : Document} (hproper : d.IsProper)
    (hkept : ∀ x ∈ d.chars, isKept x = true) (hlines : d.value.KeepsLines)
    (hnear : d.value.HasNearColons) :
    ∃ tokens, TokenStream.ofText d.chars = ⟨tokens, none⟩ ∧
      tokens.map Token.lexeme = d.value.shape.lexemes ++ [.streamEnd] := by
  simp only [Document.chars, List.forall_mem_append] at hkept
  obtain ⟨hbefore, hvalue, hafter⟩ := hkept
  have hstart := Value.startsToken hproper.value d.after
  have hfirst : (Scan.ofText d.chars).Within [] 0 [] (d.value.chars ++ d.after) :=
    Scan.within_ofText rfl (isGap_of_isGap hproper.before hbefore) hstart
  have hend : d.value.chars ++ d.after = d.value.chars ++ (d.after ++ []) := by simp
  rw [hend] at hfirst
  obtain ⟨t, hleads, ht⟩ := d.value.leads hproper.value hvalue hlines hnear hfirst
    (.inr hproper.isCollection) (isGap_of_isGap hproper.after hafter) Scan.startsToken_nil rfl
  obtain ⟨tokens, hstream, hlexemes⟩ := (ht.facing_flat (.inr rfl)).exists_tokens hleads
  exact ⟨tokens, hstream, by simpa using hlexemes⟩

/-- A JSON text decodes to the one tree that it stands for. -/
theorem decodeText_document {limit : Int} {d : Document} (hproper : d.IsProper)
    (hkept : ∀ x ∈ d.chars, isKept x = true) (hlines : d.value.KeepsLines)
    (hnear : d.value.HasNearColons) (hheight : d.value.tree.height ≤ maxDepth)
    (hsize : (d.value.tree.size : Int) ≤ limit) (hkeys : d.value.tree.HasDistinctKeys) :
    decodeText limit d.chars = .ok [d.value.tree] := by
  obtain ⟨tokens, hstream, htokens⟩ := d.exists_tokens hproper hkept hlines hnear
  have hblank : ∀ isPlain, d.value.shape ≠ .scalar "" isPlain := by
    have hcollection := hproper.isCollection
    intro isPlain
    cases hvalue : d.value with
    | word text => rw [hvalue] at hcollection; exact hcollection.elim
    | string pieces => rw [hvalue] at hcollection; exact hcollection.elim
    | array gap items => nofun
    | object gap members => nofun
  rw [← Value.tree_shape] at hheight hsize hkeys ⊢
  exact decodeText_eq_of_shape (fun x hx => isAllowed_of_isKept (hkept x hx)) (d.value.fits _)
    hstream htokens (.inl rfl) hblank hheight hsize hkeys

/-- An object with an escape in a key, an array, a line break between its members and another one in
a string. -/
def sample : Document where
  before := ['\n']
  value := .object []
    (.cons [] [.short 'n'] [' '] [' ']
      (.array [] (.cons [] (.word ['-', '1']) [' '] (.cons [] (.word "true".toList) [] .nil))) []
      (.cons ['\n'] [.plain 'a'] [] []
        (.string [.plain ' ', .code "00e9".toList, .plain '\u2028']) [] .nil))
  after := ['\n']

theorem isProper_sample : sample.IsProper := by
  have hgap : ∀ gap, gap.all isSpace = true → IsGap gap := fun gap h => by simpa [IsGap] using h
  have hnumber : IsNumber ['-', '1'] :=
    ⟨['-'], ['1'], [], [], rfl, .inr rfl, ⟨⟨by simp, by simp [Text.isDigit]⟩, by simp⟩, .inl rfl, .inl rfl⟩
  have hkey : ∀ p ∈ [Piece.short 'n'], p.IsProper := by simp [Piece.IsProper, letters]
  have hitems : (Items.cons [] (.word ['-', '1']) [' ']
      (.cons [] (.word "true".toList) [] .nil)).IsProper :=
    ⟨hgap _ rfl, .inr hnumber, hgap _ rfl, hgap _ rfl, .inl (by decide), hgap _ rfl, trivial⟩
  have hplain : ∀ p ∈ [Piece.plain 'a'], p.IsProper := by simp [Piece.IsProper]
  have hstring : ∀ p ∈ [Piece.plain ' ', .code "00e9".toList, .plain '\u2028'], p.IsProper := by
    refine List.forall_mem_cons.2 ⟨⟨by decide, by decide, by decide⟩, ?_⟩
    refine List.forall_mem_cons.2 ⟨⟨by decide, List.all_eq_true.1 (by decide), by decide⟩, ?_⟩
    exact List.forall_mem_singleton.2 ⟨by decide, by decide, by decide⟩
  have hlast : (Members.cons ['\n'] [.plain 'a'] [] []
      (.string [.plain ' ', .code "00e9".toList, .plain '\u2028']) [] .nil).IsProper :=
    ⟨hgap _ rfl, hplain, hgap _ rfl, hgap _ rfl, hstring, hgap _ rfl, trivial⟩
  exact ⟨hgap _ rfl, ⟨hgap _ rfl, hgap _ rfl, hkey, hgap _ rfl, hgap _ rfl, ⟨hgap _ rfl, hitems⟩,
    hgap _ rfl, hlast⟩, trivial, hgap _ rfl⟩

/-- The text of the sample decodes to its tree. -/
theorem text_of_sample_is_read :
    decodeText maxNodes "\n\x7b\"\\n\" : [-1 ,true],\n\"a\":\" \\u00e9\u2028\"\x7d\n".toList =
      .ok [.mapping
        [("\n", .sequence [.scalar "-1", .scalar "true"]), ("a", .scalar " é\u2028")]] := by
  have htext : sample.chars =
      "\n\x7b\"\\n\" : [-1 ,true],\n\"a\":\" \\u00e9\u2028\"\x7d\n".toList := by decide
  have hkey : ∀ key, (quoted key).any isBreak = false → ∀ x ∈ quoted key, isBreak x = false :=
    fun key h => by simpa using h
  have hstring : keepsLines " \\u00e9\u2028".toList = true := by decide
  have hlines : sample.value.KeepsLines :=
    ⟨hkey _ (by decide), ⟨trivial, trivial, trivial⟩, hkey _ (by decide), hstring, trivial⟩
  have hnear : sample.value.HasNearColons :=
    ⟨⟨by simp, by decide⟩, ⟨trivial, trivial, trivial⟩, ⟨by simp, by decide⟩, trivial, trivial⟩
  have hkeys : sample.value.tree.HasDistinctKeys := by
    refine .mapping (by decide) (List.forall_mem_cons.2 ⟨.sequence ?_, ?_⟩)
    · exact List.forall_mem_cons.2 ⟨.scalar _, List.forall_mem_singleton.2 (.scalar _)⟩
    · exact List.forall_mem_singleton.2 (.scalar _)
  rw [← htext]
  exact decodeText_document isProper_sample (List.all_eq_true.1 (by decide)) hlines hnear
    (by decide) (by decide) hkeys

end Treeline.Json
