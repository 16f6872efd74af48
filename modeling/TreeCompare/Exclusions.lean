import TreeCompare.Exclusion.Line
import TreeCompare.Journal
/-!
# Exclusions

The names that a comparison leaves out, given by a list of exclusion lines.
A line that holds no rule or does not parse is skipped; of the rules that
match a name, the last one decides (`Exclusions.excludes`). Rules whose
globs cannot be matched together leave the whole list without effect.
-/

namespace TreeCompare

open Exclusion

/-- Rules in their order, the first one first. -/
structure Exclusions where
  rules : List Rule
deriving Repr

namespace Exclusions

/-- Nothing is left out. -/
def none : Exclusions := ⟨[]⟩

/-- What a line adds to the rules. -/
def ruleOf (line : String) : Option Rule :=
  match readLine line.toList with
  | .ok rule => rule
  | .error _ => Option.none

/-- The globs of some lines, in their order. -/
def globsOf (lines : List String) : List Glob := (lines.filterMap ruleOf).map Rule.glob

/-- The exclusions that some lines stand for. -/
def ofLines (service : GlobService) (lines : List String) : Exclusions :=
  match service.refusal? (globsOf lines) with
  | Option.none => ⟨lines.filterMap ruleOf⟩
  | some _ => none

/-- There are no rules. -/
def isEmpty (x : Exclusions) : Bool := x.rules.isEmpty

/-- The name as it is matched: a leading `./` and, in front of a longer
path, a leading separator do not count. -/
def candidate (name : Name) : List UInt8 :=
  let bytes := if [0x2E, 0x2F].isPrefixOf name.bytes then name.bytes.drop 2 else name.bytes
  if bytes.head? = some Path.separator then bytes.tail else bytes

/-- A rule speaks of the file called `name`. -/
def appliesTo (rule : Rule) (name : Name) : Bool :=
  !rule.directoriesOnly && rule.glob.accepts (candidate name)

/-- Whether a name is left out: the last rule that applies to it says so. -/
def excludes (x : Exclusions) (name : Name) : Bool :=
  match x.rules.reverse.find? (appliesTo · name) with
  | some rule => !rule.keeps
  | Option.none => false

/-- What reading a line notes. -/
def noteOf (line : String) : Note :=
  match readLine line.toList with
  | .ok _ => .patternAdded line
  | .error e =>
    let pattern := String.ofList (trimLine line.toList)
    .patternRefused line s!"error parsing glob '{pattern}': {e.message}"

/-- What reading some lines notes. -/
def notesOf (service : GlobService) (lines : List String) : List Note :=
  if lines.isEmpty then []
  else
    lines.map noteOf ++
      [match service.refusal? (globsOf lines) with
       | Option.none => .exclusionsBuilt lines.length
       | some reason => .exclusionsRefused reason]

end Exclusions

end TreeCompare
