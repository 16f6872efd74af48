import TreeCompare.Comparison
/-!
# The names in a directory

`Comparison.namesIn` reads and sorts the names of the entries of one
operand. With a start name, the names ordered before it are skipped, and
with `startOnly` so are those ordered after it; excluded names are left
out. The start name is compared while the directory is being enumerated, so
a name that cannot be collated changes how the names after it are compared,
and not those before.
-/

namespace TreeCompare

/-- Why a directory could not be read. -/
inductive DirectoryError where
  /-- It could not be opened. -/
  | open (path : Path) (error : IoError)
  /-- It was opened, and its enumeration failed. -/
  | read (path : Path) (error : IoError)
deriving DecidableEq, Repr

namespace DirectoryError

/-- The path that was being read. -/
def path : DirectoryError → Path
  | .open path _ | .read path _ => path

/-- The error that was met. -/
def error : DirectoryError → IoError
  | .open _ error | .read _ error => error

/-- The text of an error in reports. -/
def message (e : DirectoryError) : String := s!"{e.path.text}: {e.error.message}"

end DirectoryError

namespace Comparison

variable {σ : Type}

/-- The directory of an operand as it is opened: a symbolic link is refused
unless links are followed, and so is anything but a directory. The operand
comes back opened and with its stat. -/
def openDirectory (c : Comparison σ) (fs : FileSystem) (operand : Operand) :
    Except DirectoryError (Enumeration × Operand) :=
  match fs.stat operand.path c.options.followLinks with
  | .error e => .error (.open operand.path e)
  | .ok stat =>
    if stat.kind = .symlink then .error (.open operand.path .linkRefused)
    else if stat.kind = .directory then
      match fs.enumerate operand.path with
      | .error e => .error (.open operand.path e)
      | .ok entries =>
        .ok (entries, { operand with opening := .opened, stat := some (operand.stat.getD stat) })
    else .error (.open operand.path .directoryExpected)

/-- Whether the start filter lets a name pass. -/
def isFromStart (c : Comparison σ) (start : Option Name) (startOnly : Bool) (name : Name)
    (s : RunState σ) : Bool × RunState σ :=
  match start with
  | none => (true, s)
  | some start =>
    match c.order.matchingOrder name start s with
    | (.lt, s) => (false, s)
    | (.eq, s) => (true, s)
    | (.gt, s) => (!startOnly, s)

/-- The names of an enumeration that are kept, in its order. -/
def kept (c : Comparison σ) (start : Option Name) (startOnly : Bool) :
    List Name → RunState σ → List Name × RunState σ
  | [], s => ([], s)
  | name :: names, s =>
    let (passes, s) := c.isFromStart start startOnly name s
    let (rest, s) := c.kept start startOnly names s
    (if passes && !c.excluded name then name :: rest else rest, s)

/-- The sorted names in an operand's directory, the operand afterwards, and
the state of the run. An operand that does not exist is an empty directory. -/
def namesIn (c : Comparison σ) (fs : FileSystem) (operand : Operand) (start : Option Name)
    (startOnly : Bool) (s : RunState σ) : Except DirectoryError NameTable × Operand × RunState σ :=
  if operand.isNonexistent then
    (.ok { NameTable.empty with sortedBy := some s.basis }, operand, s)
  else match c.openDirectory fs operand with
    | .error e => (.error e, operand, s)
    | .ok (entries, operand) =>
      let (names, s) := c.kept start startOnly entries.names s
      match entries.failure with
      | some e => (.error (.read operand.path e), operand, s)
      | none =>
        let (table, s) := (NameTable.ofList names).sortTail 0 c.order s
        (.ok table, operand, s.note (.listed operand.path table.size table.byteCount))

end Comparison

end TreeCompare
