import HubBindings.Toml.Value

/-!
Tables under construction. A table remembers how it came into being, because that decides what may
still be added: a table opened by a header is not opened again, a dotted key does not reach into
it, and values are closed once written.
-/

namespace HubBindings.Toml

/-- How a table came into being. -/
inductive TableOrigin where
  /-- Opened by a header. -/
  | header
  /-- Passed through by the path of a header. -/
  | path
  /-- Made by a dotted key. -/
  | dotted
  deriving DecidableEq

/-- A node of a document under construction. -/
inductive Node where
  | value (v : Toml)
  | table (origin : TableOrigin) (entries : List (String × Node))
  /-- The tables opened by headers of one array, last first. -/
  | tables (items : List (List (String × Node)))

/-- The content of a table. -/
abbrev Entries := List (String × Node)

/-- Replaces the node under a key that is present. -/
def Entries.replace (key : String) (node : Node) (entries : Entries) : Entries :=
  entries.map fun e => if e.1 == key then (key, node) else e

/-- Adds a key with its node; the key must be new. -/
def Entries.add? (key : String) (node : Node) (entries : Entries) : Option Entries :=
  match entries.lookup key with
  | some _ => none
  | none => some (entries ++ [(key, node)])

/-- Writes a value under a dotted key, given by its path and its last part, into a table.
`dotted` tells whether this table was made by a dotted key. A dotted key may only write into such
tables, and a plain key only into others. -/
def Entries.assign? (path : List String) (key : String) (v : Toml) (plain dotted : Bool)
    (entries : Entries) : Option Entries :=
  match path with
  | [] => if plain = dotted then none else entries.add? key (.value v)
  | k :: rest =>
    match entries.lookup k with
    | none => (Entries.assign? rest key v false true []).map fun inner =>
        entries ++ [(k, .table .dotted inner)]
    | some (.table .header _) => none
    | some (.table origin inner) =>
      (Entries.assign? rest key v false (origin = .dotted) inner).map fun inner' =>
        entries.replace k (.table origin inner')
    | some (.tables (last :: before)) =>
      (Entries.assign? rest key v false false last).map fun last' =>
        entries.replace k (.tables (last' :: before))
    | some _ => none

/-- Writes a value into a table under a key that may be dotted. -/
def Entries.put? (path : List String) (key : String) (v : Toml) (entries : Entries) :
    Option Entries :=
  entries.assign? path key v path.isEmpty false

/-- Changes the table that the path of a header leads to, making the tables on the way. -/
def Entries.modifyAt? (change : Entries → Option Entries) (path : List String)
    (entries : Entries) : Option Entries :=
  match path with
  | [] => change entries
  | k :: rest =>
    match entries.lookup k with
    | none => (Entries.modifyAt? change rest []).map fun inner =>
        entries ++ [(k, .table .path inner)]
    | some (.table origin inner) =>
      (Entries.modifyAt? change rest inner).map fun inner' =>
        entries.replace k (.table origin inner')
    | some (.tables (last :: before)) =>
      (Entries.modifyAt? change rest last).map fun last' =>
        entries.replace k (.tables (last' :: before))
    | some _ => none

/-- Opens a table by a header. -/
def Entries.openTable? (key : String) (entries : Entries) : Option Entries :=
  match entries.lookup key with
  | none => some (entries ++ [(key, .table .header [])])
  | some (.table .path inner) => some (entries.replace key (.table .header inner))
  | some _ => none

/-- Opens one more table of an array by a header. -/
def Entries.openItem? (key : String) (entries : Entries) : Option Entries :=
  match entries.lookup key with
  | none => some (entries ++ [(key, .tables [[]])])
  | some (.tables items) => some (entries.replace key (.tables ([] :: items)))
  | some _ => none

mutual

/-- The finished value of a node. -/
def Node.close : Node → Toml
  | .value v => v
  | .table _ entries => .table (closeEntries entries)
  | .tables items => .array (closeItems items).reverse

/-- The finished content of a table. -/
def closeEntries : List (String × Node) → List (String × Toml)
  | [] => []
  | (key, node) :: rest => (key, node.close) :: closeEntries rest

/-- The finished tables of an array. -/
def closeItems : List (List (String × Node)) → List Toml
  | [] => []
  | entries :: rest => .table (closeEntries entries) :: closeItems rest

end

end HubBindings.Toml
