import Treeline.CommandLine.Command
import Treeline.Proofs.Results

/-!
# Words with a text attached

A text that stands behind the whole name of a slot and an equals sign is taken as it is, whatever
it holds. Only two dashes are not a text there: they leave the slot with nothing.
-/

namespace Treeline.CommandLine

/-- What a slot holds that is given some text. -/
def holding (text : String) : Argument := if text = "--" then .nothing else .word text

theorem nonempty?_holding {text : String} (hempty : text ≠ "") (hdashes : text ≠ "--") :
    (holding text).nonempty? = some text := by
  rw [holding, if_neg hdashes]
  simp [Argument.nonempty?, hempty]

/-- Names begin with a dash and hold no equals sign, and no two flags have the same name. -/
theorem spelling_of_mem : ∀ spelling ∈ spellings,
    named? spelling.1.toList = some spelling ∧ '=' ∉ spelling.1.toList ∧
      spelling.1.toList.head? = some '-' ∧ spelling.1.toList.tail ≠ [] := by
  decide +kernel

theorem named?_eq_none {cs : List Char} (h : '=' ∈ cs) : named? cs = none := by
  rw [named?, List.find?_eq_none]
  rintro spelling hspelling hname
  rw [beq_iff_eq] at hname
  apply (spelling_of_mem spelling hspelling).2.1
  rw [hname, String.toList_ofList]
  exact h

theorem cutAtEquals_append {stem : List Char} (hstem : '=' ∉ stem) (text : List Char) :
    cutAtEquals (stem ++ '=' :: text) = (stem, some text) := by
  have hplain : ∀ c ∈ stem, (c != '=') = true := by
    intro c hc
    rw [bne_iff_ne]
    rintro rfl
    exact hstem hc
  rw [cutAtEquals, List.takeWhile_append_of_pos hplain, List.dropWhile_append_of_pos hplain]
  simp

variable {name : String} {flag : Flag}

theorem whole?_attached (h : (name, flag) ∈ spellings) (text : List Char) :
    whole? (name.toList ++ '=' :: text) = some ⟨name, flag, some text⟩ := by
  obtain ⟨hnamed, hequals, -⟩ := spelling_of_mem _ h
  rw [whole?, named?_eq_none (by simp)]
  dsimp only
  rw [cutAtEquals_append hequals]
  dsimp only
  rw [hnamed]
  rfl

theorem exists_chars_of_mem (h : (name, flag) ∈ spellings) :
    ∃ c rest, name.toList = '-' :: c :: rest := by
  obtain ⟨-, -, hhead, htail⟩ := spelling_of_mem _ h
  obtain ⟨c, rest, hrest⟩ := List.exists_cons_of_ne_nil htail
  refine ⟨c, rest, ?_⟩
  rw [← hrest]
  exact (List.cons_head?_tail hhead).symm

theorem classify_attached (h : (name, flag) ∈ spellings) (text : String) :
    classify (name ++ "=" ++ text) = .ok (.flag ⟨name, flag, some text.toList⟩) := by
  have hchars : (name ++ "=" ++ text).toList = name.toList ++ '=' :: text.toList := by simp
  have hwhole := whole?_attached h text.toList
  obtain ⟨c, rest, hname⟩ := exists_chars_of_mem h
  rw [hname] at hchars hwhole
  rw [classify, hchars]
  simp only [List.cons_append] at hwhole ⊢
  rw [hwhole]

theorem attached_ne_separator (name text : String) :
    name ++ "=" ++ text ≠ "--" := by
  intro hword
  have hmem : '=' ∈ (name ++ "=" ++ text).toList := by simp
  rw [hword] at hmem
  exact absurd hmem (by decide)

theorem classifyAll_attached (h : (name, flag) ∈ spellings) (text : String) {rest : List String}
    {words : List Word} (hrest : classifyAll rest = .ok words) :
    classifyAll ((name ++ "=" ++ text) :: rest) =
      .ok (.flag ⟨name, flag, some text.toList⟩ :: words) := by
  rw [classifyAll, if_neg (attached_ne_separator name text), classify_attached h, hrest]
  rfl

theorem readFrom_attached {slot : Slot} (htimeout : slot ≠ .timeout) (hdepth : slot ≠ .depth)
    (reading : Reading) (isFirst : Bool) (name text : String) (words : List Word) :
    readFrom reading isFirst (.flag ⟨name, .slot slot, some text.toList⟩ :: words) =
      readFrom { reading with given := reading.given ++ [.word slot (holding text)] } isFirst
        words := by
  have hslot : ofSlot slot text = .ok (.word slot (holding text)) := by
    cases slot <;> first | rfl | contradiction
  have hgiven : ofJoined ⟨[], .slot slot, some text.toList⟩ (String.ofList text.toList) =
      .ok [.word slot (holding text)] := by
    rw [String.ofList_toList]
    exact bind_eq_ok_iff.2 ⟨[], rfl, bind_eq_ok_iff.2 ⟨_, hslot, rfl⟩⟩
  rw [readFrom]
  dsimp only [joined, Joined.open?, Option.getD_some]
  rw [hgiven]

end Treeline.CommandLine
