/-
  Harvest.Main

  The program: it loads the files that a command may look at into a tree, carries out the
  command in the tree, writes back what has changed, prints what the command prints, and
  tells the notices on the error output. Samples are counted, and are not served at any
  address.
-/
import Harvest.Command.Execution
import Harvest.Job.Identifier
import Std.Time.DateTime.Timestamp

namespace Harvest.Program

/-! ## Files -/

/-- The text of the path of a place. -/
def placeText (place : Location) : String := "/" ++ String.intercalate "/" place

/-- The place that several names lead to, one after the other. -/
def follow (place : Location) (names : List String) : Location :=
  names.foldl (fun place name =>
    if name = "." then place else if name = ".." then place.dropLast else place ++ [name]) place

/-- What is at a place on the disk. -/
def nodeAt (place : Location) : IO (Option Node) := do
  let path := (← IO.currentDir) / placeText place
  if ← path.isDir then return some .directory
  if ← path.pathExists then
    let content ← IO.FS.readBinFile path
    return some (.file content.toList)
  return none

/-- Loads what is on the way of a path. -/
def loadPath (t : FileTree) (p : Path) : IO FileTree := do
  let mut t := t
  for n in List.range (p.names.length + 1) do
    let place := follow (t.start p) (p.names.take n)
    if (t.node? place).isNone then
      match ← nodeAt place with
      | some node => t := t.put place node
      | none => pure ()
  return t

/-- Loads what is on the way of several paths. -/
def load (t : FileTree) (paths : List Path) : IO FileTree := paths.foldlM loadPath t

/-- A tree in which only the working directory is loaded. -/
def workingTree : IO FileTree := do
  let here : Path := ⟨toString (← IO.currentDir)⟩
  load ⟨[], here.names⟩ [here]

/-- Writes a file or directory that was not there or has changed. -/
def writeNode (before : FileTree) (place : Location) (node : Node) : IO Unit := do
  let path := (← IO.currentDir) / placeText place
  match node, before.node? place with
  | .directory, none => IO.FS.createDir path
  | .directory, some _ => pure ()
  | .file content, some (.file earlier) =>
    if earlier.length < content.length then
      let handle ← IO.FS.Handle.mk path .append
      handle.write ⟨(content.drop earlier.length).toArray⟩
  | .file content, _ => IO.FS.writeBinFile path ⟨content.toArray⟩

/-- Writes what has changed in a tree. -/
def save (before after : FileTree) : IO Unit :=
  after.nodes.forM fun (place, node) => writeNode before place node

/-! ## Commands -/

/-- The instant that the clock of the machine shows. -/
def currentInstant : IO Calendar.Instant := do
  let now ← Std.Time.Timestamp.now
  return ⟨now.val.second.val, now.val.nano.val.toNat⟩

/-- A new identifier of a job. -/
def newIdentifier : IO String := do
  let octets ← IO.getRandomBytes 16
  return Identifier.ofOctets fun i => octets.data.getD i 0

/-- The files that a command may look at. -/
def loadFor : Command → IO FileTree
  | .backends _ => workingTree
  | .run r => do
    let files ← match r.base with
      | .file path => load (← workingTree) [path]
      | .named .. => workingTree
    match r.request files with
    | .ok request => load files (r.paths request)
    | .error _ => return files

/-- The form of the notices, which is that of the listings. -/
def noticeFormat : IO Command.Format := do
  match ← IO.getEnv "LOG_FORMAT" with
  | some s => return if s.toLower = "json" then .json else .human
  | none => return .human

/-- Tells the notices of a command and the error it failed with. -/
def tell (notices : List Notice) (error : Option CommandError) : IO Unit := do
  let format ← noticeFormat
  for n in notices do
    IO.eprintln (match format with
      | .human => n.line
      | .json => n.toJson.text)
  match error with
  | some e => IO.eprintln ("ERROR Command failed: " ++ e.message)
  | none => pure ()

/-- Carries out a command and gives its exit code. -/
def carryOut (c : Command) : IO Nat := do
  let files ← loadFor c
  let now ← currentInstant
  let env : Env Unit := ⟨files, ⟨fun _ => now, 0⟩, ()⟩
  let outcome := c.execute (← newIdentifier) env
  save files outcome.env.files
  tell outcome.notices outcome.error
  IO.print outcome.output
  return outcome.code

/-- What is printed if help is asked for. -/
def synopsis : String := String.join [
  "Run resumable data collection jobs\n\n",
  "Usage: collector-jobs <COMMAND>\n\n",
  "Commands:\n",
  "  run       Run a collection job\n",
  "  backends  List registered backends\n",
  "  help      Print this message\n"]

end Harvest.Program

/-- Carries out the command of a command line. -/
def main (args : List String) : IO UInt32 := do
  match Harvest.Command.ofArguments args with
  | .error u =>
    if u.isAnswer then IO.print (u.output Harvest.Program.synopsis)
    else IO.eprintln ("error: " ++ u.message)
    return u.code.toUInt32
  | .ok c => return (← Harvest.Program.carryOut c).toUInt32
