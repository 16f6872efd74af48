import TreeCompare.FileTree
import TreeCompare.Toml.Document
/-!
# Recorded file trees

A file tree can be recorded as a TOML text, a table under `entry` for each
entry: its `path`, its `kind`, and the `content` of a file or the `target`
of a link. `FileTree.ofRecording?` makes the entries in order.
-/

namespace TreeCompare

namespace FileTree

/-- The text that a key of a recorded entry stands for. -/
def recordedText? (t : Toml.Table) (key : String) : Option String :=
  match t.get? key with
  | some (.text content) => some content
  | _ => none

/-- A recorded entry. The content of a file is empty unless it is given. -/
def recordedEntry? (t : Toml.Table) : Option (Path × Entry) := do
  let path ← recordedText? t "path"
  let kind ← recordedText? t "kind"
  let entry ← match kind with
    | "directory" => some (.directory none)
    | "file" => some (.file (Utf8.encode ((recordedText? t "content").getD "").toList))
    | "link" => (recordedText? t "target").map fun target => .link (Path.ofString target)
    | "hard_link" => (recordedText? t "target").map fun target => .hardLink (Path.ofString target)
    | "fifo" => some .fifo
    | "socket" => some .socket
    | _ => none
  return (Path.ofString path, entry)

/-- The tree that a text records, in which relative paths start from the
root. -/
def ofRecording? (text : List Char) : Option FileTree := do
  let table ← Toml.Table.ofText? text
  let records ← match table.get? "entry" with
    | none => some []
    | some (.tables elements) => elements.mapM recordedEntry?
    | some _ => none
  let start ← system.toOption
  (records.foldlM (fun (t : FileTree) (path, entry) => t.add path entry) start).toOption

end FileTree

end TreeCompare
