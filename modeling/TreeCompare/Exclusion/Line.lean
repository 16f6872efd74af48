import TreeCompare.Exclusion.Depth
import TreeCompare.Text.Blank
/-!
# Exclusion lines

A line is a glob with its decorations: a comment sign, a `!` that makes it
keep names instead of leaving them out, a `/` in front that anchors it, a
`/` at the end that makes it mean directories only. `readLine` takes a
line apart; blank lines and comments hold no rule.
-/

namespace TreeCompare

namespace Exclusion

/-- What a line says about the names its glob matches. -/
structure Rule where
  glob : Glob
  /-- The names are kept. -/
  keeps : Bool
  /-- Only directories are meant. -/
  directoriesOnly : Bool
deriving Repr

/-- `text` without `c` at its end, and whether it ended in it. -/
def dropLastIf (c : Char) (text : List Char) : Bool × List Char :=
  if text.getLast? = some c then (true, text.dropLast) else (false, text)

/-- `text` without `c` in front, and whether it began with it. -/
def dropFirstIf (c : Char) (text : List Char) : Bool × List Char :=
  if text.head? = some c then (true, text.tail) else (false, text)

/-- A pattern that matches at any depth: unless it is anchored or says
where it stands, directories may lead up to it. -/
def anywhere (anchored : Bool) (pattern : List Char) : List Char :=
  if anchored || pattern.contains '/' || pattern == ['*', '*'] then pattern
  else ['*', '*', '/'] ++ pattern

/-- A pattern for everything below a directory does not mean the directory
itself. -/
def strictlyBelow (pattern : List Char) : List Char :=
  if ['/', '*', '*'].isSuffixOf pattern then pattern ++ ['/', '*'] else pattern

/-- A line without the white space at its end, unless an escaped space ends
it. -/
def trimLine (line : List Char) : List Char :=
  if ['\\', ' '].isSuffixOf line then line else trimEnd line

/-- The rule of a line, if it holds one. -/
def readLine (line : List Char) : Except GlobError (Option Rule) :=
  let text := trimLine line
  if line.head? = some '#' ∨ text = [] then .ok none
  else
    -- an escaped sign is the first character of the glob
    let escaped := ['\\', '!'].isPrefixOf text || ['\\', '#'].isPrefixOf text
    let (keeps, text) := if escaped then (false, text.tail) else dropFirstIf '!' text
    let (anchored, text) := if escaped then (false, text) else dropFirstIf '/' text
    -- a backslash before the closing separator escapes nothing
    let (directoriesOnly, text) := dropLastIf '/' text
    let text := if directoriesOnly then (dropLastIf '\\' text).2 else text
    match Glob.parse (strictlyBelow (anywhere anchored text)) with
    | .ok glob => .ok (some ⟨glob, keeps, directoriesOnly⟩)
    | .error e => .error e

end Exclusion

end TreeCompare
