import TreeCompare.Text.Utf8
/-!
# Names and paths

Names of directory entries and paths are bytes, whatever they spell. The
order of names is the order of their bytes (`Name.bytewise`). A path is
cut into components at its slashes; joining a name to a path follows the
rule that an absolute name stands alone (`Path.join`).
-/

namespace TreeCompare

/-- The name of a directory entry, or a text that is looked up as one. -/
structure Name where
  bytes : List UInt8
deriving DecidableEq, Repr, Inhabited

/-- A path, absolute or relative. -/
structure Path where
  bytes : List UInt8
deriving DecidableEq, Repr, Inhabited

/-- The name that `text` spells in UTF-8. -/
def Name.ofString (text : String) : Name := ⟨Utf8.encode text.toList⟩

/-- The path that `text` spells in UTF-8. -/
def Path.ofString (text : String) : Path := ⟨Utf8.encode text.toList⟩

namespace Name

/-- A name in a message, with U+FFFD for what is no UTF-8. -/
def text (name : Name) : String := String.ofList (Utf8.lossy name.bytes)

/-- The order of names by their bytes. -/
def bytewise (a b : Name) : Ordering := compare a.bytes b.bytes

theorem bytewise_eq_eq {a b : Name} : a.bytewise b = .eq ↔ a = b := by
  simp only [bytewise, Std.compare_eq_iff_eq]
  cases a; cases b; simp

@[simp] theorem bytewise_self (a : Name) : a.bytewise a = .eq := bytewise_eq_eq.2 rfl

theorem bytewise_swap (a b : Name) : (a.bytewise b).swap = b.bytewise a :=
  (Std.OrientedOrd.eq_swap (a := b.bytes) (b := a.bytes)).symm

end Name

namespace Path

/-- The byte that separates components. -/
def separator : UInt8 := '/'.toUInt8

/-- A path in a message, with U+FFFD for what is no UTF-8. -/
def text (path : Path) : String := String.ofList (Utf8.lossy path.bytes)

/-- A path that starts at the root. -/
def isAbsolute (path : Path) : Bool := path.bytes.head? == some separator

/-- The path of the entry `name` in `dir`. An absolute name replaces the
directory; otherwise exactly one separator stands between the two, unless
the directory is the empty path. -/
def join (dir : Path) (name : Name) : Path :=
  if name.bytes.head? == some separator then ⟨name.bytes⟩
  else if dir.bytes.getLast?.any (· != separator) then ⟨dir.bytes ++ separator :: name.bytes⟩
  else ⟨dir.bytes ++ name.bytes⟩

/-- The parts of `bytes` between separators; there is always one more part
than there are separators. -/
def parts : List UInt8 → List (List UInt8)
  | [] => [[]]
  | b :: bytes =>
    if b = separator then [] :: parts bytes
    else match parts bytes with
      | part :: rest => (b :: part) :: rest
      | [] => [[b]]

/-- One step of a path. -/
inductive Component where
  /-- The root directory, which an absolute path starts from. -/
  | root
  /-- The directory itself; it matters at the start of a relative path only. -/
  | current
  /-- The parent directory. -/
  | parent
  /-- The entry of this name. -/
  | entry (name : Name)
deriving DecidableEq, Repr

/-- The component that a part spells, if it names anything. -/
def Component.ofPart? (part : List UInt8) : Option Component :=
  if part = [] ∨ part = [0x2E] then none
  else if part = [0x2E, 0x2E] then some .parent
  else some (.entry ⟨part⟩)

/-- The components of a path. Repeated and trailing separators and a `.`
that does not lead the path count for nothing. -/
def components (path : Path) : List Component :=
  let named := (parts path.bytes).filterMap Component.ofPart?
  if path.isAbsolute then .root :: named
  else if (parts path.bytes).head? = some [0x2E] then .current :: named
  else named

/-- The name that the last component gives, if it is an entry. -/
def fileName? (path : Path) : Option Name :=
  match path.components.getLast? with
  | some (.entry name) => some name
  | _ => none

/-- The part that spells a component. -/
def Component.part : Component → List UInt8
  | root => []
  | current => [0x2E]
  | parent => [0x2E, 0x2E]
  | entry name => name.bytes

/-- A path with the given components. -/
def ofComponents : List Component → Path
  | [.root] => ⟨[separator]⟩
  | components => ⟨List.intercalate [separator] (components.map Component.part)⟩

/-- The path without its last component. The root and the empty path have
no parent. -/
def parent? (path : Path) : Option Path :=
  match path.components.getLast? with
  | none | some .root => none
  | some _ => some (ofComponents path.components.dropLast)

/-- Paths with the same components. -/
def sameAs (a b : Path) : Bool := a.components = b.components

end Path

end TreeCompare
