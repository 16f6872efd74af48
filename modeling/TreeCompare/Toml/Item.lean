/-!
# Items of a settings file

A TOML file stands for a table. This file holds what a table may contain,
and how a table grows statement by statement: an assignment
(`Table.assign`), the header of a table (`Table.start`) and the header of
one more element of a list of tables (`Table.push`). Nothing is ever
stated twice: each of the three refuses what is there already.
-/

namespace TreeCompare

namespace Toml

/-- How a table came to be, which decides who may add to it. -/
inductive Origin where
  /-- It is the file itself, or has a header of its own. -/
  | stated
  /-- It leads to a table that has a header. -/
  | implied
  /-- It is spelled in a key with dots. -/
  | dotted
deriving DecidableEq, Repr

/-- What a key stands for. -/
inductive Item where
  | text (content : String)
  | boolean (value : Bool)
  /-- A number or a date-time, by its spelling. -/
  | scalar (spelling : String)
  | list (items : List Item)
  /-- A table between braces, to which nothing is added. -/
  | inline (entries : List (String × Item))
  | table (origin : Origin) (entries : List (String × Item))
  /-- A list of tables, each of which has a header. -/
  | tables (elements : List (List (String × Item)))
deriving Repr

/-- The entries of a table, in the order in which they came. -/
abbrev Table := List (String × Item)

namespace Table

/-- What a key stands for. -/
def get? (t : Table) (key : String) : Option Item := (t.find? (·.1 == key)).map (·.2)

/-- The table in which a key stands for another item. -/
def set (t : Table) (key : String) (item : Item) : Table :=
  t.map fun entry => if entry.1 == key then (key, item) else entry

/-- Changes the table that `path` leads to. Tables that are missing on the
way are made. A key with dots does not go through a table that has a
header; through a list of tables, the way goes on in its last element. -/
def update (dots : Bool) (change : Origin → Table → Option Table) :
    (path : List String) → Origin → Table → Option Table
  | [], origin, t => change origin t
  | key :: path, _, t =>
    let fresh : Origin := if dots then .dotted else .implied
    match t.get? key with
    | none => (update dots change path fresh []).map fun inner => t ++ [(key, .table fresh inner)]
    | some (.table origin inner) =>
      if dots && origin == .stated then none
      else (update dots change path origin inner).map fun inner => t.set key (.table origin inner)
    | some (.tables elements) =>
      (update dots change path .stated (elements.getLast?.getD [])).map fun last =>
        t.set key (.tables (elements.dropLast ++ [last]))
    | some _ => none

/-- The table in which a key with dots stands for an item. Only tables
that such keys made are added to. -/
def assign (t : Table) (path : List String) (key : String) (item : Item) : Option Table :=
  update true (fun origin inner =>
    if path ≠ [] ∧ origin ≠ .dotted then none
    else match inner.get? key with
      | none => some (inner ++ [(key, item)])
      | some _ => none) path .stated t

/-- The table in which the table at `path` and `key` has a header. It may
have been implied before. -/
def start (t : Table) (path : List String) (key : String) : Option Table :=
  update false (fun _ inner =>
    match inner.get? key with
    | none => some (inner ++ [(key, .table .stated [])])
    | some (.table .implied entries) => some (inner.set key (.table .stated entries))
    | some _ => none) path .stated t

/-- The table in which the list of tables at `path` and `key` has one more
element. -/
def push (t : Table) (path : List String) (key : String) : Option Table :=
  update false (fun _ inner =>
    match inner.get? key with
    | none => some (inner ++ [(key, .tables [[]])])
    | some (.tables elements) => some (inner.set key (.tables (elements ++ [[]])))
    | some _ => none) path .stated t

end Table

/-- A statement of a file. A path is the keys before the last one. -/
inductive Statement where
  | assignment (path : List String) (key : String) (item : Item)
  | tableHeader (path : List String) (key : String)
  | elementHeader (path : List String) (key : String)
deriving Repr

/-- The table of a file, and the path of the header that the statements to
come stand under. -/
structure Progress where
  table : Table := []
  header : List String := []

namespace Progress

/-- What a statement adds. -/
def step (p : Progress) : Statement → Option Progress
  | .assignment path key item =>
    (Table.update false (fun _ inner => inner.assign path key item) p.header .stated p.table).map
      fun t => { p with table := t }
  | .tableHeader path key => (p.table.start path key).map fun t => ⟨t, path ++ [key]⟩
  | .elementHeader path key => (p.table.push path key).map fun t => ⟨t, path ++ [key]⟩

end Progress

/-- The table that statements build, if none of them is refused. -/
def Table.ofStatements? (statements : List Statement) : Option Table :=
  (statements.foldlM Progress.step {}).map Progress.table

end Toml

end TreeCompare
