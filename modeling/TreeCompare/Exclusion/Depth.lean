import TreeCompare.Exclusion.Match
/-!
# Globs that are matched together

Globs are matched together by a service, which may refuse them
(`GlobService`): the expressions that they become are too large for it, or
nest too deep. The depth of a glob is that of its expression: every
sequence, choice, repetition, class and group is one level. A service that
minds nothing but the depth is `GlobService.shallow`.
-/

namespace TreeCompare

namespace Exclusion

/-- The shape of the expression that a part of a glob becomes: how many
items it adds to the sequence it stands in, and how deep these nest. -/
structure Shape where
  items : Nat
  depth : Nat
deriving DecidableEq, Repr

/-- Two parts one after the other. -/
def Shape.andThen (a b : Shape) : Shape := ⟨a.items + b.items, max a.depth b.depth⟩

/-- The depth of a sequence; a single item is no level of its own. -/
def Shape.sequenceDepth (a : Shape) : Nat := if a.items ≤ 1 then a.depth else a.depth + 1

/-- The number of members and ranges of a class, byte by byte. -/
def classItems (ranges : List (Char × Char)) : Nat := (classBytes ranges).length

mutual

/-- The shape of a token. -/
def Token.shape : Token → Shape
  | .literal c => ⟨(String.utf8EncodeChar c).length, 0⟩
  | .any => ⟨1, 1⟩
  | .many => ⟨1, 2⟩
  | .leadingDirs => ⟨1, 4⟩
  | .allBelow => ⟨2, 1⟩
  | .innerDirs => ⟨1, 4⟩
  | .class _ ranges => ⟨1, if classItems ranges = 1 then 1 else 2⟩
  | .group alternatives =>
    match groupShape alternatives with
    | ⟨0, _⟩ => ⟨0, 0⟩
    | ⟨1, depth⟩ => ⟨1, depth + 1⟩
    | ⟨_, depth⟩ => ⟨1, depth + 2⟩

/-- The shape of a glob. -/
def globShape : List Token → Shape
  | [] => ⟨0, 0⟩
  | t :: glob => t.shape.andThen (globShape glob)

/-- How many alternatives stand for something, and how deep they nest. -/
def groupShape : List (List Token) → Shape
  | [] => ⟨0, 0⟩
  | glob :: alternatives =>
    if isVoid glob then groupShape alternatives
    else Shape.andThen ⟨1, (globShape glob).sequenceDepth⟩ (groupShape alternatives)

end

/-- How deep the expression of a whole glob nests. -/
def Glob.depth (glob : Glob) : Nat := (globShape glob).depth + 1

/-- How deep an expression may nest. -/
def depthLimit : Nat := 250

/-- Whether a glob takes an expression. A plain path, a base name or an
extension is looked up without one. -/
def Glob.needsExpression (glob : Glob) : Bool :=
  match glob with
  | [] => true
  | .leadingDirs :: .many :: .literal '.' :: rest =>
    !rest.all fun | .literal c => c != '.' && c != '/' | _ => false
  | .leadingDirs :: rest => rest.isEmpty || !rest.all Token.isLiteral
  | glob =>
    !(glob.all Token.isLiteral || (glob.dropLast.all Token.isLiteral &&
      glob.getLast?.any fun | .allBelow => true | _ => false))

/-- A glob that ends in an extension, its last token first. -/
def endsInExtension : List Token → Bool
  | .literal c :: before => c == '.' || (c != '/' && endsInExtension before)
  | _ => false

/-- The expression of a glob nests too deep. -/
def Glob.isTooDeep (glob : Glob) : Bool := depthLimit < glob.depth

end Exclusion

open Exclusion

/-- What matches the globs of exclusion lines together. -/
structure GlobService where
  /-- Why some globs cannot be matched together, if they cannot. -/
  refusal? : List Glob → Option String

namespace GlobService

/-- A service that refuses globs that nest too deep, and nothing else. Globs
that end in an extension become expressions one by one, the others together;
what is refused is told by its place among those of its expression. -/
def shallow : GlobService where
  refusal? globs :=
    let (single, together) := (globs.filter Glob.needsExpression).partition
      fun glob => endsInExtension glob.reverse
    if single.any Glob.isTooDeep then some "error parsing pattern 0"
    else (together.findIdx? Glob.isTooDeep).map fun place => s!"error parsing pattern {place}"

/-- It refuses globs exactly if one of them takes an expression that nests too
deep. -/
theorem shallow_refusal?_eq_none {globs : List Glob} :
    shallow.refusal? globs = none ↔
      ∀ glob ∈ globs, glob.needsExpression = true → glob.isTooDeep = false := by
  simp only [shallow, List.partition_eq_filter_filter]
  constructor
  · intro h glob hmem hneeds
    split at h
    · cases h
    · next hsingle =>
      rw [Option.map_eq_none_iff, List.findIdx?_eq_none_iff] at h
      cases hext : endsInExtension glob.reverse with
      | true =>
        rw [Bool.not_eq_true, List.any_eq_false] at hsingle
        exact Bool.eq_false_iff.2 (hsingle glob (by simp [hmem, hneeds, hext]))
      | false => exact h glob (by simp [hmem, hneeds, hext])
  · intro h
    have hshallow : ∀ {p : Glob → Bool}, ∀ glob ∈ (globs.filter Glob.needsExpression).filter p,
        glob.isTooDeep = false := by
      intro p glob hmem
      obtain ⟨hmem, hneeds⟩ := List.mem_filter.1 (List.mem_filter.1 hmem).1
      exact h glob hmem hneeds
    rw [if_neg (by simpa using hshallow), Option.map_eq_none_iff, List.findIdx?_eq_none_iff]
    exact hshallow

end GlobService

end TreeCompare
