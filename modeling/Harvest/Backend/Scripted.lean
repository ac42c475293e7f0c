/-
  Harvest.Backend.Scripted

  A backend that plays a script: each fetch takes the next entry of it, and all fetches
  past its end play one more entry again and again. It keeps account of what it was asked.
-/
import Harvest.Backend.Basic

namespace Harvest.Scripted

/-- What a fetch gives: it fails, or it gives a stream. -/
inductive Entry where
  | fails (e : BackendError)
  | gives (results : List (Except BackendError Item))

/-- What a backend was asked. -/
structure Call where
  replays : Bool
  category : String
  args : Fields
  archive : Option Path
  after : Option Calendar.Instant

/-- The entries that are left, the entry behind them, and the calls so far. -/
structure Play where
  script : List Entry
  encore : Entry
  calls : List Call

/-- An empty script. -/
def Play.empty : Play := ⟨[], .gives [], []⟩

/-- Notes a call and takes the next entry. -/
def Play.take (p : Play) (call : Call) : Entry × Play :=
  match p.script with
  | [] => (p.encore, { p with calls := p.calls ++ [call] })
  | e :: script => (e, { p with script, calls := p.calls ++ [call] })

/-- The name, the categories and the abilities of a backend. -/
structure Cast where
  name : String
  categories : List String
  archiving : Bool
  resuming : Bool

/-- Plays the next entry for a call of a known category. -/
def answer (cast : Cast) (call : Call) (env : Env Play) : Opening Play :=
  match checkCategory cast.name cast.categories call.category with
  | .error e => (.error e, env)
  | .ok () =>
    let (entry, own) := env.own.take call
    match entry with
    | .fails e => (.error e, { env with own })
    | .gives results => (.ok (Feed.ofList results), { env with own })

/-- The backend. -/
def backend (cast : Cast) : Backend Play where
  name := cast.name
  categories := cast.categories
  archiving := cast.archiving
  resuming := cast.resuming
  fetch category args archive env :=
    answer cast ⟨false, category, args, archive.map Archive.path, none⟩ env
  replay category args archive after env :=
    answer cast ⟨true, category, args, some archive.path, after⟩ env

end Harvest.Scripted
