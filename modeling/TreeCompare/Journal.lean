import TreeCompare.Collator
import TreeCompare.FileSystem
import TreeCompare.Text.Quoted
/-!
# The journal of a run

What a run notices besides its findings. A `Diagnostic` is a condition
that is not fatal but belongs in the report; a `Note` is an entry of the
journal, either a diagnostic or a remark on the progress of the run.
`Note.level` says how much a reader has to care.
-/

namespace TreeCompare

/-- A condition noticed while comparing directories. -/
inductive Diagnostic where
  /-- Collation failed; the run now orders names by their bytes. -/
  | collationFallback (name : Name) (other : Option Name) (reason : String)
  /-- A directory could not be opened or enumerated. -/
  | readFailed (path : Path) (reason : String)
  /-- Both sides lead back into a directory already being compared. -/
  | recursiveLoop (path : Path)
deriving DecidableEq, Repr

namespace Diagnostic

/-- The text of a diagnostic. -/
def message : Diagnostic → String
  | collationFallback name (some other) reason =>
    s!"cannot compare file names '{name.text}' and '{other.text}': {reason}"
  | collationFallback name none reason => s!"cannot compare file name '{name.text}': {reason}"
  | readFailed path reason => s!"{path.text}: {reason}"
  | recursiveLoop path => s!"{path.text}: recursive directory loop"

/-- The identifier of a diagnostic's kind in structured reports. -/
def word : Diagnostic → String
  | collationFallback .. => "collation_fallback"
  | readFailed .. => "read_failed"
  | recursiveLoop .. => "recursive_loop"

end Diagnostic

/-- How much a reader of the journal has to care. -/
inductive Level where
  | warn
  | info
  | debug
deriving DecidableEq, Repr

namespace Level

/-- The name of a level in front of its entries. -/
def word : Level → String
  | warn => "WARN"
  | info => "INFO"
  | debug => "DEBUG"

/-- The place of a level: a reader who asks for one also gets those with a
smaller place. -/
def verbosity : Level → Nat
  | warn => 2
  | info => 3
  | debug => 4

end Level

/-- An entry of the journal. -/
inductive Note where
  /-- A condition for the report. -/
  | diagnostic (d : Diagnostic)
  /-- A run over two operands begins. -/
  | comparing (left right : Path)
  /-- Two directories are compared, so many levels below the operands. -/
  | directories (left right : Path) (depth : Nat)
  /-- So many names, of so many bytes, were kept of a directory. -/
  | listed (dir : Path) (count size : Nat)
  /-- A directory could not be searched for a name. -/
  | notSearched (dir : Path) (name : Name) (reason : String)
  /-- The run drops to the order of bytes. -/
  | orderDropped
  /-- What is left of two tables of names is sorted again. -/
  | resorted
  /-- An exclusion line was taken. -/
  | patternAdded (line : String)
  /-- An exclusion line was skipped. -/
  | patternRefused (line reason : String)
  /-- The exclusion lines, so many of them, work together. -/
  | exclusionsBuilt (lines : Nat)
  /-- The exclusion lines as a whole cannot be used. -/
  | exclusionsRefused (reason : String)
  /-- The locale of the environment cannot be used. -/
  | localeRefused (reason : String)
  /-- No locale can be used. -/
  | localesRefused (reason : String)
deriving DecidableEq, Repr

namespace Note

/-- The level of an entry. -/
def level : Note → Level
  | diagnostic _ => .warn
  | comparing .. => .info
  | _ => .debug

/-- The text of an entry. -/
def message : Note → String
  | diagnostic d => d.message
  | comparing left right => s!"Comparing {left.text} and {right.text}"
  | directories left right depth =>
    s!"Comparing directories {quoted left.bytes} and {quoted right.bytes} at depth {depth}"
  | listed dir count size =>
    s!"Read {count} entries ({size} bytes of names) from {quoted dir.bytes}"
  | notSearched dir name reason =>
    s!"Cannot search {quoted dir.bytes} for {quoted name.bytes}: {reason}"
  | orderDropped => "Switching to byte ordering of file names"
  | resorted => "Name ordering changed mid-merge; re-sorting remaining entries"
  | patternAdded line => s!"Added exclusion pattern: {line}"
  | patternRefused line reason => s!"Failed to add exclusion pattern '{line}': {reason}"
  | exclusionsBuilt lines => s!"Built exclusion matcher with {lines} patterns"
  | exclusionsRefused reason => s!"Failed to build exclusion matcher: {reason}"
  | localeRefused reason => s!"Falling back to the C locale: {reason}"
  | localesRefused reason => s!"Using Unicode collation: {reason}"

/-- The diagnostic that an entry carries. -/
def diagnostic? : Note → Option Diagnostic
  | diagnostic d => some d
  | _ => none

/-- The entry as a line, with its level in front. -/
def line (note : Note) : String := s!"{note.level.word} {note.message}"

end Note

/-- What the search for the default collator notes. -/
def CollatorChoice.notes : CollatorChoice → List Note
  | environment => []
  | cLocale e => [.localeRefused e.message]
  | scalarValues e e' => [.localeRefused e.message, .localesRefused e'.message]

end TreeCompare
