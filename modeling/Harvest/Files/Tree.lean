/-
  Harvest.Files.Tree

  A tree of files and directories, and the few operations on it that the library needs.
  Paths lead from the root or from the working directory, name by name; every name but the
  last has to be that of a directory.
-/
import Harvest.Files.Path
import Harvest.Lookup

namespace Harvest

/-- Why a file could not be used. -/
inductive FileFault where
  | notFound
  | alreadyExists
  | notDirectory
  | isDirectory
  | nameTooLong
  | nulInName
  | notUtf8
  deriving DecidableEq, Repr

/-- The words for a fault. -/
def FileFault.message : FileFault → String
  | .notFound => "No such file or directory (os error 2)"
  | .alreadyExists => "File exists (os error 17)"
  | .notDirectory => "Not a directory (os error 20)"
  | .isDirectory => "Is a directory (os error 21)"
  | .nameTooLong => "File name too long (os error 36)"
  | .nulInName => "file name contained an unexpected NUL byte"
  | .notUtf8 => "stream did not contain valid UTF-8"

/-- What is at a place of a tree. -/
inductive Node where
  | file (content : Bytes)
  | directory
  deriving DecidableEq

/-- A place in a tree: the names on the way from the root. -/
abbrev Location := List String

/-- A tree of files, with the place of the working directory. -/
structure FileTree where
  nodes : List (Location × Node)
  home : Location

namespace FileTree

/-- What is at a place. The root is a directory. -/
def node? (t : FileTree) (place : Location) : Option Node :=
  if place = [] then some .directory else t.nodes.lookup place

/-- Puts a file or directory at a place among others. -/
def putNode (place : Location) (n : Node) : List (Location × Node) → List (Location × Node)
  | [] => [(place, n)]
  | (l, m) :: rest => if place = l then (l, n) :: rest else (l, m) :: putNode place n rest

/-- Puts a file or directory at a place. -/
def put (t : FileTree) (place : Location) (n : Node) : FileTree :=
  { t with nodes := putNode place n t.nodes }

/-! ## Finding -/

/-- The most octets that a name may have. -/
def longestName : Nat := 255

/-- The number of octets from which on a path is too long. -/
def pathLimit : Nat := 4096

/-- Whether a path may be used at all. -/
def checkPath (p : Path) : Except FileFault Unit :=
  if p.text.toList.contains '\x00' then .error .nulInName
  else if pathLimit ≤ Utf8.size p.text.toList then .error .nameTooLong
  else if p.text = "" then .error .notFound
  else .ok ()

/-- The place that a name leads to. -/
def step (t : FileTree) (place : Location) (name : String) : Except FileFault Location :=
  match t.node? place with
  | some .directory =>
    if name = "." then .ok place
    else if name = ".." then .ok place.dropLast
    else if longestName < Utf8.size name.toList then .error .nameTooLong
    else if (t.node? (place ++ [name])).isNone then .error .notFound
    else .ok (place ++ [name])
  | _ => .error .notDirectory

/-- The place that several names lead to, one after the other. -/
def walk (t : FileTree) (place : Location) (names : List String) : Except FileFault Location :=
  names.foldlM t.step place

/-- The place at which a path begins. -/
def start (t : FileTree) (p : Path) : Location := if p.isAbsolute then [] else t.home

/-- The place that a path leads to, where a file or directory is. -/
def locate (t : FileTree) (p : Path) : Except FileFault Location := do
  checkPath p
  let place ← t.walk (t.start p) p.names
  -- A slash at the end asks for a directory.
  if p.endsWithSlash && t.node? place != some .directory then throw .notDirectory
  return place

/-- Whether a path leads to a file or directory. -/
def has (t : FileTree) (p : Path) : Bool := (t.locate p).toOption.isSome

/-- Whether a path leads to a directory. -/
def isDirectory (t : FileTree) (p : Path) : Bool :=
  match t.locate p with
  | .ok place => t.node? place == some .directory
  | .error _ => false

/-! ## Reading -/

/-- The content of the file at a place. -/
def content (t : FileTree) (place : Location) : Except FileFault Bytes :=
  match t.node? place with
  | some (.file content) => .ok content
  | some .directory => .error .isDirectory
  | none => .error .notFound

/-- The text of the file that a path leads to. -/
def readText (t : FileTree) (p : Path) : Except FileFault (List Char) := do
  let place ← t.locate p
  let bs ← t.content place
  (Utf8.decode bs).mapError fun _ => .notUtf8

/-! ## Writing -/

/-- The directory in which the last name of a path is, and that name. -/
def locateLast (t : FileTree) (p : Path) : Except FileFault (Location × Option String) := do
  checkPath p
  let place ← t.walk (t.start p) p.names.dropLast
  if t.node? place != some .directory then throw .notDirectory
  return (place, p.names.getLast?)

/-- Makes a directory. -/
def makeDirectory (t : FileTree) (p : Path) : Except FileFault FileTree := do
  let (place, last?) ← t.locateLast p
  match last? with
  | none => throw .alreadyExists
  | some name =>
    if name = "." ∨ name = ".." then throw .alreadyExists
    if longestName < Utf8.size name.toList then throw .nameTooLong
    match t.node? (place ++ [name]) with
    | some _ => throw .alreadyExists
    | none => return t.put (place ++ [name]) .directory

/-- Makes a directory and those above it that are missing, of which there are at most
    `fuel`. What was made before a fault stays. -/
def makeDirectoriesFrom : Nat → FileTree → Path → Except FileFault Unit × FileTree
  | 0, t, _ => (.ok (), t)
  | fuel + 1, t, p =>
    if p.text = "" then (.ok (), t)
    else
      match t.makeDirectory p with
      | .ok t => (.ok (), t)
      | .error .notFound =>
        -- The directory above is missing and is made first.
        match p.parent? with
        | none => (.error .notFound, t)
        | some above =>
          match makeDirectoriesFrom fuel t above with
          | (.error f, t) => (.error f, t)
          | (.ok (), t) =>
            -- Making those above may have made this one, as for `a/../a`.
            match t.makeDirectory p with
            | .ok t => (.ok (), t)
            | .error f => (if t.isDirectory p then .ok () else .error f, t)
      -- That the directory is there already is no fault.
      | .error f => (if t.isDirectory p then .ok () else .error f, t)

/-- Makes a directory and those above it that are missing. -/
def makeDirectories (t : FileTree) (p : Path) : Except FileFault Unit × FileTree :=
  makeDirectoriesFrom (p.components.length + 1) t p

/-- Appends to a file, which is made if it is missing. -/
def append (t : FileTree) (p : Path) (data : Bytes) : Except FileFault FileTree := do
  let (place, last?) ← t.locateLast p
  match last? with
  | none => throw .isDirectory
  | some name =>
    if name = "." ∨ name = ".." ∨ p.endsWithSlash then throw .isDirectory
    if longestName < Utf8.size name.toList then throw .nameTooLong
    match t.node? (place ++ [name]) with
    | some .directory => throw .isDirectory
    | some (.file content) => return t.put (place ++ [name]) (.file (content ++ data))
    | none => return t.put (place ++ [name]) (.file data)

/-! ## What is where after a change -/

theorem lookup_putNode (place l : Location) (n : Node) (nodes : List (Location × Node)) :
    (putNode place n nodes).lookup l = if l = place then some n else nodes.lookup l := by
  induction nodes with
  | nil => simp [putNode, lookup_cons_ite]
  | cons e rest ih =>
    obtain ⟨k, m⟩ := e
    by_cases hk : place = k
    · subst hk
      by_cases h : l = place <;> simp [putNode, lookup_cons_ite, h]
    · by_cases h : l = k
      · subst h
        have : l ≠ place := fun e => hk e.symm
        simp [putNode, hk, this]
      · simp [putNode, lookup_cons_ite, hk, ih, h]

/-- What was put at a place is there, and elsewhere nothing changes. -/
theorem node?_put (t : FileTree) {place : Location} (h : place ≠ []) (n : Node) (l : Location) :
    (t.put place n).node? l = if l = place then some n else t.node? l := by
  by_cases hl : l = []
  · subst hl
    have : ([] : Location) ≠ place := fun e => h e.symm
    simp [node?, this]
  · simp [node?, put, hl, lookup_putNode]

@[simp] theorem home_put (t : FileTree) (place : Location) (n : Node) :
    (t.put place n).home = t.home := rfl

end FileTree
end Harvest
