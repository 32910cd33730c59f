import Treeline.Proofs.Results
import Treeline.CommandLine.Command

/-!
# Two passes over a command line

Settings change what a command line means, but the command line says which settings there are. So the
words are read twice. Each pass fills in a form that begins with the values that hold by default: the
first pass finds out where the settings are, and the second one begins with the settings. A command
line that is read once, with the settings put in at the end, comes to the same. What has been given
before the words that are read changes nothing about them either.
-/

namespace Treeline.CommandLine

/-! ### One flag in front -/

/-- What is read if something is given before everything else. -/
def Reading.behind (first : Given) (reading : Reading) : Reading :=
  { reading with given := first :: reading.given }

theorem addRun_behind (first : Given) (reading : Reading) (isFirst : Bool) (run : List String) :
    (reading.behind first).addRun isFirst run = (reading.addRun isFirst run).behind first := by
  cases isFirst <;> rfl

theorem readFrom_behind (first : Given) (reading : Reading) (isFirst : Bool) (words : List Word) :
    readFrom (reading.behind first) isFirst words =
      (readFrom reading isFirst words).map (Reading.behind first) := by
  fun_induction readFrom reading isFirst words with
  | case1 =>
    rw [readFrom]
    rfl
  | case2 reading isFirst text rest ih =>
    rw [readFrom]
    exact ih
  | case3 reading isFirst word rest e hjoined =>
    simp only [readFrom, hjoined]
    rfl
  | case4 reading isFirst word rest joined hjoined hopen halt hgiven =>
    simp only [readFrom, hjoined, hopen, hgiven]
    rfl
  | case5 reading isFirst word rest joined hjoined hopen given hgiven ih =>
    simp only [readFrom, hjoined, hopen, hgiven]
    exact ih
  | case6 reading isFirst word joined hjoined slot hopen text more halt hgiven =>
    simp only [readFrom, hjoined, hopen, hgiven]
    rfl
  | case7 reading isFirst word joined hjoined slot hopen text more given hgiven ih =>
    simp only [readFrom, hjoined, hopen, hgiven]
    exact ih
  | case8 reading isFirst word rest joined hjoined slot hopen hrest =>
    simp only [readFrom, hjoined, hopen]
    rfl
  | case9 reading isFirst text rest ih =>
    rw [readFrom, addRun_behind, ih]
  | case10 reading isFirst rest ih =>
    rw [readFrom, addRun_behind, ih]

/-! ### Forms -/

/-- What a pass fills in. -/
structure Form where
  space : Argument
  entry : Argument
  file : Option Argument
  output : Option Argument
  kubeconfig : Option Argument
  context : Option Argument
  isInside : Bool
  timeout : Option Timeout
  pure : Bool
  pruned : List Argument
  depth : Option Int
  absolute : Bool
  config : Option Argument
  verbose : Bool
  object : List String
  extras : List String

namespace Form

variable {form : Form} {given : List Given} {words : List Word} {reading : Reading}

/-! ### Filling in -/

/-- The form that every first pass begins with. -/
def blank (environment : Option String) : Form where
  space := .word defaultSpace
  entry := .word ""
  file := none
  output := none
  kubeconfig := none
  context := none
  isInside := false
  timeout := none
  pure := false
  pruned := []
  depth := some defaultDepth
  absolute := false
  config := environment.map .word
  verbose := false
  object := []
  extras := []

/-- A form with settings in place of what holds by default. -/
def withSettings (form : Form) (settings : Settings) : Form :=
  { form with
    space := (settings.space.map Argument.word).getD form.space
    kubeconfig := settings.kubeconfig.map .word <|> form.kubeconfig
    context := settings.context.map .word <|> form.context
    timeout := settings.timeout <|> form.timeout
    pure := settings.pure.getD form.pure
    pruned := (settings.pruned.map fun keys => keys.map .word).getD form.pruned
    depth := settings.depth <|> form.depth
    absolute := settings.absolute.getD form.absolute }

/-- Fills in what a flag is given. A word takes the place of the one before, except that the keys to
prune are collected. -/
def fill (form : Form) : Given → Form
  | .on .help => form
  | .on .inCluster => { form with isInside := true }
  | .on .pure => { form with pure := true }
  | .on .absolute => { form with absolute := true }
  | .on .verbose => { form with verbose := true }
  | .word .space argument => { form with space := argument }
  | .word .entry argument => { form with entry := argument }
  | .word .file argument => { form with file := some argument }
  | .word .output argument => { form with output := some argument }
  | .word .kubeconfig argument => { form with kubeconfig := some argument }
  | .word .context argument => { form with context := some argument }
  | .word .prune argument => { form with pruned := form.pruned ++ [argument] }
  | .word .config argument => { form with config := some argument }
  | .word .timeout _ => form
  | .word .depth _ => form
  | .timeout seconds => { form with timeout := seconds.map .fractional }
  | .depth levels => { form with depth := levels }

def addRun (form : Form) (isFirst : Bool) (run : List String) : Form :=
  if isFirst then { form with object := run.erase "--" }
  else { form with extras := form.extras ++ run }

def fillFrom (form : Form) (isFirst : Bool) : List Word → Except Halt Form
  | [] => .ok form
  | .unknown text :: rest => fillFrom { form with extras := form.extras ++ [text] } isFirst rest
  | .flag word :: rest =>
    match joined word with
    | .error e => .error (.usage e)
    | .ok joined =>
      match joined.open? with
      | none =>
        match ofJoined joined (String.ofList (joined.attached.getD [])) with
        | .error halt => .error halt
        | .ok given => fillFrom (given.foldl fill form) isFirst rest
      | some slot =>
        match rest with
        | .plain text :: more =>
          match ofJoined joined text with
          | .error halt => .error halt
          | .ok given => fillFrom (given.foldl fill form) isFirst more
        | _ => .error (.usage (.missingWord slot))
  | .plain text :: rest =>
    fillFrom (form.addRun isFirst (text :: (takeRun rest).1)) false (takeRun rest).2
  | .separator :: rest =>
    fillFrom (form.addRun isFirst ("--" :: (takeRun rest).1)) false (takeRun rest).2
termination_by words => words.length
decreasing_by
  · exact Nat.lt_succ_self _
  · exact Nat.lt_succ_self _
  · exact Nat.lt_add_of_pos_right Nat.two_pos
  · exact Nat.lt_succ_of_le (takeRun_length_le rest)
  · exact Nat.lt_succ_of_le (takeRun_length_le rest)

def pass (form : Form) (texts : List String) : Except Halt Form :=
  match classifyAll texts with
  | .error e => .error (.usage e)
  | .ok words => form.fillFrom true words

/-! ### One reading for all passes -/

def after (form : Form) (reading : Reading) : Form :=
  { reading.given.foldl fill form with object := reading.object, extras := reading.extras }

theorem fill_with (form : Form) (object extras : List String) (g : Given) :
    fill { form with object, extras } g = { fill form g with object, extras } := by
  rcases g with (_ | _ | _ | _ | _) | ⟨_ | _ | _ | _ | _ | _ | _ | _ | _ | _, _⟩ | _ | _ <;> rfl

theorem foldl_fill_after (form : Form) (reading : Reading) (given : List Given) :
    given.foldl fill (form.after reading) =
      form.after { reading with given := reading.given ++ given } := by
  rw [after, after, List.foldl_append]
  -- flags leave the plain words alone, so it does not matter when those are filled in
  generalize reading.given.foldl fill form = filled
  induction given generalizing filled with
  | nil => rfl
  | cons g given ih => rw [List.foldl_cons, List.foldl_cons, fill_with, ih]

theorem addRun_after (form : Form) (reading : Reading) (isFirst : Bool) (run : List String) :
    (form.after reading).addRun isFirst run = form.after (reading.addRun isFirst run) := by
  cases isFirst <;> rfl

/-- A pass fills in what is read, whatever the form is that it begins with. -/
theorem fillFrom_after (form : Form) (reading : Reading) (isFirst : Bool) (words : List Word) :
    fillFrom (form.after reading) isFirst words =
      (readFrom reading isFirst words).map form.after := by
  fun_induction readFrom reading isFirst words with
  | case1 =>
    rw [fillFrom]
    rfl
  | case2 reading isFirst text rest ih =>
    rw [fillFrom]
    exact ih
  | case3 reading isFirst word rest e hjoined =>
    simp only [fillFrom, hjoined]
    rfl
  | case4 reading isFirst word rest joined hjoined hopen halt hgiven =>
    simp only [fillFrom, hjoined, hopen, hgiven]
    rfl
  | case5 reading isFirst word rest joined hjoined hopen given hgiven ih =>
    simp only [fillFrom, hjoined, hopen, hgiven, foldl_fill_after]
    exact ih
  | case6 reading isFirst word joined hjoined slot hopen text more halt hgiven =>
    simp only [fillFrom, hjoined, hopen, hgiven]
    rfl
  | case7 reading isFirst word joined hjoined slot hopen text more given hgiven ih =>
    simp only [fillFrom, hjoined, hopen, hgiven, foldl_fill_after]
    exact ih
  | case8 reading isFirst word rest joined hjoined slot hopen hrest =>
    simp only [fillFrom, hjoined, hopen]
    rfl
  | case9 reading isFirst text rest ih =>
    rw [fillFrom, addRun_after, ih]
  | case10 reading isFirst rest ih =>
    rw [fillFrom, addRun_after, ih]

theorem pass_eq (form : Form) (hobject : form.object = []) (hextras : form.extras = [])
    (texts : List String) : form.pass texts = (CommandLine.read texts).map form.after := by
  have hstart : form.after ⟨[], [], []⟩ = form := by
    obtain ⟨⟩ := form
    cases hobject
    cases hextras
    rfl
  rw [pass, CommandLine.read]
  cases classifyAll texts with
  | error e => rfl
  | ok words =>
    have hpass := fillFrom_after form ⟨[], [], []⟩ true words
    rwa [hstart] at hpass

/-! ### What the fields hold -/

def wordFor? (slot : Slot) : Given → Option Argument
  | .word s argument => if s = slot then some argument else none
  | _ => none

def timeoutOf? : Given → Option (Option Float)
  | .timeout seconds => some seconds
  | _ => none

def depthOf? : Given → Option (Option Int)
  | .depth levels => some levels
  | _ => none

def isOf (switch : Switch) : Given → Bool
  | .on s => s = switch
  | _ => false

theorem get_foldl_of_replaces {α β : Type} (get : Form → α) (part : Given → Option β) (put : β → α)
    (hfill : ∀ form g, get (fill form g) = (part g).elim (get form) put) (form : Form)
    (given : List Given) :
    get (given.foldl fill form) = ((given.filterMap part).getLast?).elim (get form) put := by
  induction given generalizing form with
  | nil => rfl
  | cons g given ih =>
    rw [List.foldl_cons, ih, hfill]
    cases hpart : part g with
    | none => rw [List.filterMap_cons_none hpart]; rfl
    | some a =>
      rw [List.filterMap_cons_some hpart, List.getLast?_cons]
      cases (given.filterMap part).getLast? <;> rfl

theorem get_foldl_of_collects {α : Type} (get : Form → List α) (part : Given → Option α)
    (hfill : ∀ form g, get (fill form g) = get form ++ (part g).toList) (form : Form)
    (given : List Given) : get (given.foldl fill form) = get form ++ given.filterMap part := by
  induction given generalizing form with
  | nil => exact (List.append_nil _).symm
  | cons g given ih =>
    rw [List.foldl_cons, ih, hfill, List.append_assoc]
    cases hpart : part g with
    | none => rw [List.filterMap_cons_none hpart]; rfl
    | some a => rw [List.filterMap_cons_some hpart]; rfl

theorem get_foldl_of_turnsOn (get : Form → Bool) (part : Given → Bool)
    (hfill : ∀ form g, get (fill form g) = (get form || part g)) (form : Form)
    (given : List Given) : get (given.foldl fill form) = (get form || given.any part) := by
  induction given generalizing form with
  | nil => exact (Bool.or_false _).symm
  | cons g given ih => rw [List.foldl_cons, ih, hfill, List.any_cons, Bool.or_assoc]

/-- What the fields hold after a pass, by what they held before it and what is read. -/
theorem after_eq (form : Form) (reading : Reading) :
    form.after reading = {
      space := (reading.word? .space).elim form.space id
      entry := (reading.word? .entry).elim form.entry id
      file := (reading.word? .file).elim form.file some
      output := (reading.word? .output).elim form.output some
      kubeconfig := (reading.word? .kubeconfig).elim form.kubeconfig some
      context := (reading.word? .context).elim form.context some
      isInside := form.isInside || reading.isOn .inCluster
      timeout := reading.timeout?.elim form.timeout fun seconds => seconds.map .fractional
      pure := form.pure || reading.isOn .pure
      pruned := form.pruned ++ reading.words .prune
      depth := reading.depth?.elim form.depth id
      absolute := form.absolute || reading.isOn .absolute
      config := (reading.word? .config).elim form.config some
      verbose := form.verbose || reading.isOn .verbose
      object := reading.object
      extras := reading.extras } := by
  rw [after, mk.injEq]
  refine ⟨get_foldl_of_replaces space (wordFor? .space) id ?_ _ _,
    get_foldl_of_replaces entry (wordFor? .entry) id ?_ _ _,
    get_foldl_of_replaces file (wordFor? .file) some ?_ _ _,
    get_foldl_of_replaces output (wordFor? .output) some ?_ _ _,
    get_foldl_of_replaces kubeconfig (wordFor? .kubeconfig) some ?_ _ _,
    get_foldl_of_replaces context (wordFor? .context) some ?_ _ _,
    get_foldl_of_turnsOn isInside (isOf .inCluster) ?_ _ _,
    get_foldl_of_replaces timeout timeoutOf? (fun seconds => seconds.map .fractional) ?_ _ _,
    get_foldl_of_turnsOn pure (isOf .pure) ?_ _ _,
    get_foldl_of_collects pruned (wordFor? .prune) ?_ _ _,
    get_foldl_of_replaces depth depthOf? id ?_ _ _,
    get_foldl_of_turnsOn absolute (isOf .absolute) ?_ _ _,
    get_foldl_of_replaces config (wordFor? .config) some ?_ _ _,
    get_foldl_of_turnsOn verbose (isOf .verbose) ?_ _ _, rfl, rfl⟩
  all_goals
    rintro form ((_ | _ | _ | _ | _) | ⟨_ | _ | _ | _ | _ | _ | _ | _ | _ | _, _⟩ | _ | _) <;>
      simp [fill, wordFor?, isOf, timeoutOf?, depthOf?]

/-! ### The command -/

/-- What a form asks for, with the documents from some source. -/
def asked (form : Form) (source : DocumentSource) : Command where
  source
  entry := form.entry
  output := form.output.bind Argument.nonempty?
  connection := ⟨form.kubeconfig, form.context, form.isInside⟩
  space := form.space
  timeout := form.timeout
  pruned := form.pruned
  pure := form.pure
  depth := form.depth
  absolute := form.absolute
  verbose := form.verbose

def command (form : Form) : Except UsageError Command :=
  if !form.extras.isEmpty then .error (.unrecognized form.extras)
  else match form.file.bind Argument.nonempty?, form.object with
    | some _, _ :: _ => .error .fileAndObject
    | some name, [] => .ok (form.asked (.file name))
    | none, [kind, name] => .ok (form.asked (.object kind name))
    | none, _ => .error .noSource

def settingsPath (form : Form) : Option String := form.config.bind Argument.nonempty?

end Form

end Treeline.CommandLine
