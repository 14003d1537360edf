import Electorate.Toml

namespace Electorate.Toml

abbrev Table := List (String × Toml)

/-- Changes the value under a key, or gives the key a value, unless `f` refuses. -/
def alter (key : String) (f : Option Toml → Option Toml) : Table → Option Table
  | [] => (f none).map fun v => [(key, v)]
  | (k, v) :: rest =>
    if k = key then (f (some v)).map fun w => (k, w) :: rest
    else (alter key f rest).map ((k, v) :: ·)

def alterLast (f : Toml → Option Toml) : List Toml → Option (List Toml)
  | [] => none
  | [v] => (f v).map ([·])
  | v :: rest => (alterLast f rest).map (v :: ·)

/-- Changes the table at the end of a path and makes the tables that are missing on the way. -/
def alterAt (dotted : Bool) (f : TableForm → Table → Option Table) :
    List String → TableForm → Table → Option Table
  | [], form, t => f form t
  | key :: path, _, t =>
    let enter := alterAt dotted f path
    alter key (fun
      | none =>
        let form := if dotted then TableForm.dotted else .implied
        (enter form []).map (.table form)
      | some (.table form sub) =>
        -- nothing reaches into braces, nor a dotted key into a table that has a header
        if form = .braces ∨ (dotted ∧ form = .header) then none
        else (enter form sub).map (.table form)
      | some (.array .headers items) =>
        -- an array of tables stands for its last one
        (alterLast (fun
          | .table form sub => (enter form sub).map (.table form)
          | _ => none) items).map (.array .headers)
      | some _ => none) t

/-- Sets a new key below a dotted path. -/
def setNew (path : List String) (key : String) (v : Toml) : TableForm → Table → Option Table :=
  alterAt true (fun form t =>
    -- the table belongs to dotted keys if and only if the path is not empty
    if (form = .dotted) ↔ path = [] then none
    else alter key (fun old => if old.isSome then none else some v) t) path

def openTable (key : String) : Table → Option Table :=
  alter key fun
    | none => some (.table .header [])
    -- it may exist so far, but only as part of other headers
    | some (.table .implied sub) => some (.table .header sub)
    | some _ => none

def openItem (key : String) : Table → Option Table :=
  alter key fun
    | none => some (.array .headers [.table .header []])
    | some (.array .headers items) => some (.array .headers (items ++ [.table .header []]))
    | some _ => none

/-- What one line of a document says. Paths stand for all but the last key. -/
inductive Statement where
  | entry (path : List String) (key : String) (v : Toml)
  | header (path : List String) (key : String)
  | itemHeader (path : List String) (key : String)

/-- The document so far, and the path of the table that entries go into. -/
structure Outline where
  root : Table
  here : List String

def Outline.add (o : Outline) : Statement → Option Outline
  | .entry path key v =>
    (alterAt false (setNew path key v) o.here .header o.root).map fun root =>
      { o with root := root }
  | .header path key =>
    (alterAt false (fun _ => openTable key) path .header o.root).map
      fun root => Outline.mk root (path ++ [key])
  | .itemHeader path key =>
    (alterAt false (fun _ => openItem key) path .header o.root).map
      fun root => Outline.mk root (path ++ [key])

def build (statements : List Statement) : Option Table :=
  (statements.foldlM Outline.add (Outline.mk [] [])).map Outline.root

def buildBraces (entries : List (List String × String × Toml)) : Option Table :=
  entries.foldlM (fun t e => setNew e.1 e.2.1 e.2.2 .braces t) []

end Electorate.Toml
