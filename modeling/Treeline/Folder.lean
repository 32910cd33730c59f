import Treeline.Fault
import Treeline.Text.Split

/-!
# Folders

The files that a run can see: those below its working folder. A file name is followed step by step;
empty steps and single dots stay where they are, and two dots lead one step up. Nothing is known of
what lies outside the working folder, so nothing is found there.
-/

namespace Treeline

/-- Why a file cannot be read or written. -/
inductive FileError
  | notFound
  | isFolder
  | notFolder
  | alreadyExists
  | brokenPipe
  deriving DecidableEq

def FileError.message : FileError → String
  | .notFound => "No such file or directory"
  | .isFolder => "Is a directory"
  | .notFolder => "Not a directory"
  | .alreadyExists => "File exists"
  | .brokenPipe => "Broken pipe"

/-- The names that lead to a file from the working folder. -/
abbrev Location := List String

/-- What stands at a location. -/
inductive FolderItem
  | file (bytes : List UInt8)
  | folder
  deriving DecidableEq

/-- The items below a working folder. -/
structure Folder where
  items : List (Location × FolderItem)

namespace Folder

def empty : Folder := ⟨[]⟩

/-- The name of the step up. -/
def stepUp : String := ".."

/-- Where absolute names start. -/
def top : String := "/"

/-- What stands at a location. Folders on the way up are there, whatever they hold. -/
def find (f : Folder) (at_ : Location) : Option FolderItem :=
  if at_.isEmpty || at_.getLast? = some stepUp || at_ = [top] then some .folder
  else f.items.lookup at_

/-- Where a step leads if folders stand where they should. -/
def step (at_ : Location) (name : String) : Location :=
  if name = "" ∨ name = "." then at_
  else if name = stepUp then
    if at_ = [top] then at_
    else if at_.isEmpty || at_.getLast? = some stepUp then at_ ++ [stepUp]
    else at_.dropLast
  else at_ ++ [name]

/-- Goes one step from a folder. -/
def enter (f : Folder) (at_ : Location) (name : String) : Except FileError Location :=
  match f.find (step at_ name) with
  | some .folder => .ok (step at_ name)
  | some (.file _) => .error .notFolder
  | none => .error .notFound

def steps (name : String) : List String := (Text.split '/' name.toList).map String.ofList

/-- Where the steps of a file name start. -/
def origin (name : String) : Location := if name.toList.head? = some '/' then [top] else []

/-- Whether a file name holds a character that none may hold. -/
def holdsNull (name : String) : Bool := name.toList.contains '\x00'

def read (f : Folder) (name : String) : Except (Stop FileError) (List UInt8) :=
  if holdsNull name then .error (.fault .nullInName)
  else if name = "" then .error (.reported .notFound)
  else
    let names := steps name
    let last := names.getLast?.getD ""
    match names.dropLast.foldlM f.enter (origin name) with
    | .error e => .error (.reported e)
    | .ok at_ =>
      if last = "" ∨ last = "." ∨ last = stepUp then .error (.reported .isFolder)
      else match f.find (at_ ++ [last]) with
        | some (.file bytes) => .ok bytes
        | some .folder => .error (.reported .isFolder)
        | none => .error (.reported .notFound)

def put (f : Folder) (at_ : Location) (item : FolderItem) : Folder :=
  ⟨(at_, item) :: f.items.filter (·.1 != at_)⟩

def makeFolder (f : Folder) (start : Location) (above : List String) (name : String) :
    Except FileError Folder := do
  let at_ ← above.foldlM f.enter start
  if name = stepUp then throw .alreadyExists
  match f.find (at_ ++ [name]) with
  | some _ => throw .alreadyExists
  | none => return f.put (at_ ++ [name]) .folder

def isFolder (f : Folder) (start : Location) (names : List String) : Bool :=
  (names.foldlM f.enter start).isOk

/-- Makes a folder, and the folders above it that are missing. The names are given in reverse. A
folder that is there already stays. Folders that are made before an error stay, too. -/
def makeFolders (f : Folder) (start : Location) :
    List String → Folder × Except FileError Unit
  | [] => (f, .ok ())
  | name :: above =>
    let settle (f : Folder) (e : FileError) : Folder × Except FileError Unit :=
      (f, if f.isFolder start (name :: above).reverse then .ok () else .error e)
    match f.makeFolder start above.reverse name with
    | .ok f => (f, .ok ())
    | .error .notFound =>
      match makeFolders f start above with
      | (f, .error e) => (f, .error e)
      | (f, .ok ()) =>
        match f.makeFolder start above.reverse name with
        | .ok f => (f, .ok ())
        | .error e => settle f e
    | .error e => settle f e

def putFile (f : Folder) (start : Location) (above : List String) (name : String)
    (bytes : List UInt8) : Except FileError Folder := do
  let at_ ← above.foldlM f.enter start
  if name = stepUp then throw .isFolder
  match f.find (at_ ++ [name]) with
  | some .folder => throw .isFolder
  | _ => return f.put (at_ ++ [name]) (.file bytes)

/-- Writes a file. The folders above it are made if they are missing. -/
def write (f : Folder) (name : String) (bytes : List UInt8) :
    Folder × Except (Stop FileError) Unit :=
  let start := origin name
  let names := (steps name).filter fun step => step != "" && step != "."
  let above := names.dropLast
  if above.any holdsNull then (f, .error (.fault .nullInName))
  else match f.makeFolders start above.reverse with
    | (f, .error e) => (f, .error (.reported e))
    | (f, .ok ()) =>
      match names.getLast? with
      | none => (f, .error (.reported .isFolder))
      | some last =>
        if holdsNull last then (f, .error (.fault .nullInName))
        else match f.putFile start above last bytes with
          | .error e => (f, .error (.reported e))
          | .ok f => (f, .ok ())

/-- The files, with the names that lead to them. -/
def files (f : Folder) : List (Location × List UInt8) :=
  f.items.filterMap fun (at_, item) =>
    match item with
    | .file bytes => some (at_, bytes)
    | .folder => none

end Folder

end Treeline
