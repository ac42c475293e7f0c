/-
  Harvest.Files.Path

  Paths of files. A path keeps the text it was given as, for messages; where it leads is
  told by the names between its slashes. Two paths are the same when their components are:
  slashes that repeat or end a path, and names that stand for the directory they are in,
  make no difference, but for such a name in front.
-/
import Harvest.Text.Utf8

namespace Harvest

/-- A path, as its text. -/
structure Path where
  text : String
  deriving DecidableEq, Repr

/-- What a path is made of. -/
inductive Component where
  | root
  | current
  | parent
  | name (s : String)
  deriving DecidableEq, Repr

namespace Path

/-- The pieces of a text between slashes. -/
def pieces : List Char → List (List Char)
  | [] => [[]]
  | c :: cs =>
    if c = '/' then [] :: pieces cs
    else
      match pieces cs with
      | [] => [[c]]
      | p :: ps => (c :: p) :: ps

/-- The names of a path in order. -/
def names (p : Path) : List String :=
  ((pieces p.text.toList).filter fun s => !s.isEmpty).map String.ofList

/-- Whether a path begins at the root. -/
def isAbsolute (p : Path) : Bool := p.text.toList.head? == some '/'

/-- Whether a path ends with a slash, and so has to lead to a directory. -/
def endsWithSlash (p : Path) : Bool := p.text.toList.getLast? == some '/'

/-- The component that a name stands for. -/
def Component.ofName (s : String) : Component :=
  if s = "." then .current else if s = ".." then .parent else .name s

/-- The components of a path. -/
def components (p : Path) : List Component :=
  let cs := p.names.map Component.ofName
  if p.isAbsolute then .root :: cs.filter (· != .current)
  else
    -- A dot counts only in front of a path that does not begin at the root.
    match cs with
    | [] => []
    | c :: cs => c :: cs.filter (· != .current)

/-- Whether two paths have the same components. -/
def same (p q : Path) : Bool := p.components == q.components

/-- The text of a component. -/
def Component.text : Component → String
  | .root => ""
  | .current => "."
  | .parent => ".."
  | .name s => s

/-- A path of given components. -/
def ofComponents : List Component → Path
  | [.root] => ⟨"/"⟩
  | cs => ⟨String.intercalate "/" (cs.map Component.text)⟩

/-- The path without its last component, if it has one that is not the root. -/
def parent? (p : Path) : Option Path :=
  match p.components.reverse with
  | [] => none
  | .root :: _ => none
  | _ :: rest => some (ofComponents rest.reverse)

/-- The path of a name in the directory of a path. A name that begins at the root stays as
    it is. -/
def join (p : Path) (name : String) : Path :=
  if isAbsolute ⟨name⟩ then ⟨name⟩
  else if p.text = "" ∨ p.endsWithSlash then ⟨p.text ++ name⟩
  else ⟨p.text ++ "/" ++ name⟩

theorem same_refl (p : Path) : p.same p = true := by simp [same]

theorem same_comm (p q : Path) : p.same q = q.same p := by
  simp only [same]
  exact Bool.eq_iff_iff.mpr ⟨fun h => by simpa using (beq_iff_eq.mp h).symm,
    fun h => by simpa using (beq_iff_eq.mp h).symm⟩

example : same ⟨"arch/"⟩ ⟨"arch//."⟩ = true := by decide +kernel
example : same ⟨"./arch"⟩ ⟨"arch"⟩ = false := by decide +kernel
example : (join ⟨"queues"⟩ "items.jsonl").text = "queues/items.jsonl" := by decide +kernel
example : (parent? ⟨"a/b/../c"⟩).map Path.text = some "a/b/.." := by decide +kernel

end Path
end Harvest
