import TreeCompare.Contents
/-!
# File trees

A tree of files as a value. Objects are numbered; a directory lists its
entries in the order in which they came to be, and knows the directory it
lies in. Paths are resolved component by component: `.` and `..`, repeated
and trailing separators, and symbolic links, of which one resolution goes
through at most forty (`FileTree.walk`).

Objects may have faults. A tree answers the questions of a comparison
(`FileTree.fileSystem`) and can be added to: directories, files, links.
-/

namespace TreeCompare

/-- What goes wrong with an object: reading fails from an offset on, reads
go at a certain pace, or the target of a link cannot be read. -/
structure Faults where
  failAt : Option Nat := none
  pace : Nat → Pace := fun _ => .steady
  noTarget : Bool := false

/-- What an object is. -/
inductive Content where
  /-- A directory: where it lies, its entries, and after how many of them
  its enumeration fails. -/
  | directory (parent : Nat) (entries : List (Name × Nat)) (failAfter : Option Nat)
  | regular (bytes : List UInt8)
  | symlink (target : Path)
  /-- A special file for the device of this number. -/
  | device (kind : ObjectKind) (number : Nat)
  | fifo
  | socket
  | other

/-- An object of a file tree. -/
structure Object where
  content : Content
  faults : Faults := {}

/-- The kind of an object. -/
def Object.kind (o : Object) : ObjectKind :=
  match o.content with
  | .directory .. => .directory
  | .regular _ => .regular
  | .symlink _ => .symlink
  | .device kind _ => kind
  | .fifo => .fifo
  | .socket => .socket
  | .other => .other

/-- Numbered objects, the directory that absolute paths start from, and
the one that relative paths start from. -/
structure FileTree where
  objects : List Object
  root : Nat
  current : Nat

/-- Where a path leads. -/
inductive Place where
  /-- To an object. -/
  | found (object : Nat)
  /-- To no entry of a directory, where one of this name could be. -/
  | vacant (dir : Nat) (name : Name)
deriving DecidableEq, Repr

namespace FileTree

/-- What the object of a number is. -/
def content? (t : FileTree) (i : Nat) : Option Content := (t.objects[i]?).map Object.content

/-- The parts of a path that name something. -/
def partsOf (path : Path) : List (List UInt8) := (Path.parts path.bytes).filter (· ≠ [])

/-- A path that ends in a separator means a directory. -/
def meansDirectory (path : Path) : Bool := path.bytes.getLast? == some Path.separator

/-- The most bytes that the name of an entry has. -/
def nameLimit : Nat := 255

/-- The least number of bytes that are too many for a path. -/
def pathLimit : Nat := 4096

/-- The most symbolic links that one resolution goes through. -/
def linkLimit : Nat := 40

/-- The number of the entry of a name. -/
def lookup (name : Name) (entries : List (Name × Nat)) : Option Nat :=
  (entries.find? (·.1 == name)).map (·.2)

/-- How far one gets along a path without going through a link. -/
inductive Stretch where
  /-- To its end. -/
  | arrived (place : Place)
  /-- To a symbolic link of the directory `dir`, with `rest` still to go. -/
  | link (dir : Nat) (target : Path) (rest : List (List UInt8))
  /-- Nowhere. -/
  | failed (error : IoError)
deriving DecidableEq, Repr

/-- Goes from the object `here` along `parts`, up to the first symbolic
link. A link that comes last is an end of its own, unless it is to be
followed or the path means a directory. -/
def stretch (t : FileTree) (follow directory : Bool) (here : Nat) :
    List (List UInt8) → Stretch
  | [] =>
    match t.objects[here]? with
    | some o =>
      if directory && o.kind != .directory then .failed .notDirectory else .arrived (.found here)
    | none => .failed .notFound
  | part :: rest =>
    match t.content? here with
    | some (.directory parent entries _) =>
      if part = [0x2E] then t.stretch follow directory here rest
      else if part = [0x2E, 0x2E] then t.stretch follow directory parent rest
      else if part.length > nameLimit then .failed .nameTooLong
      else match lookup ⟨part⟩ entries with
        | none => if rest = [] then .arrived (.vacant here ⟨part⟩) else .failed .notFound
        | some i =>
          match t.content? i with
          | some (.symlink target) =>
            -- the link itself is meant, if anything is
            if rest = [] ∧ !follow ∧ !directory then .arrived (.found i)
            else .link here target rest
          | _ => t.stretch follow directory i rest
    | _ => .failed .notDirectory

/-- Goes from the object `here` along `parts` and through at most `links`
symbolic links. -/
def walk (t : FileTree) (follow : Bool) :
    (links : Nat) → (here : Nat) → List (List UInt8) → (directory : Bool) → Except IoError Place
  | links, here, parts, directory =>
    match t.stretch follow directory here parts with
    | .arrived place => .ok place
    | .failed e => .error e
    | .link dir target rest =>
      match links with
      | 0 => .error .tooManyLinks
      | links + 1 =>
        t.walk follow links (if target.isAbsolute then t.root else dir) (partsOf target ++ rest)
          (directory || (rest.isEmpty && meansDirectory target))

/-- What is wrong with a path before it is looked at. -/
def checkPath (path : Path) : Except IoError Unit :=
  if path.bytes.contains 0 then .error .nulInPath
  else if path.bytes = [] then .error .notFound
  else if path.bytes.length ≥ pathLimit then .error .nameTooLong
  else .ok ()

/-- Where a path leads; `directory` says whether it must be one. -/
def locate (t : FileTree) (path : Path) (follow directory : Bool) : Except IoError Place :=
  match checkPath path with
  | .error e => .error e
  | .ok () =>
    t.walk follow linkLimit (if path.isAbsolute then t.root else t.current) (partsOf path)
      directory

/-- The object a path leads to. -/
def find (t : FileTree) (path : Path) (follow : Bool) : Except IoError Nat :=
  match t.locate path follow (meansDirectory path) with
  | .ok (.found i) => .ok i
  | .ok (.vacant ..) => .error .notFound
  | .error e => .error e

/-- What a look at an object tells. -/
def statOf (i : Nat) (o : Object) : ObjectStat where
  identity := .inode 1 i (match o.content with
    | .device kind number => if kind = .directory then none else some (kind, number)
    | _ => none)
  kind := o.kind
  length := match o.content with
    | .regular bytes => bytes.length
    | .symlink target => target.bytes.length
    | _ => 0

/-- A look at a path. -/
def stat (t : FileTree) (path : Path) (follow : Bool) : Except IoError ObjectStat :=
  match t.find path follow with
  | .error e => .error e
  | .ok i =>
    match t.objects[i]? with
    | some o => .ok (statOf i o)
    | none => .error .notFound

/-- The entries of a directory. Its fault shows when the entry after those
it yields is asked for. -/
def enumerate (t : FileTree) (path : Path) : Except IoError Enumeration :=
  match t.find path true with
  | .error e => .error e
  | .ok i =>
    match t.content? i with
    | some (.directory _ entries failAfter) =>
      let names := entries.map (·.1)
      match failAfter with
      | some n =>
        if n ≤ names.length then .ok ⟨names.take n, some .inputOutput⟩ else .ok ⟨names, none⟩
      | none => .ok ⟨names, none⟩
    | _ => .error .notDirectory

/-- A file opened for reading. A directory can be opened and not read. -/
def openFile (t : FileTree) (path : Path) : Except IoError OpenFile :=
  match t.find path true with
  | .error e => .error e
  | .ok i =>
    match t.objects[i]? with
    | some o =>
      let fault := o.faults.failAt.map fun n => (n, IoError.inputOutput)
      match o.content with
      | .regular bytes => .ok (.start bytes fault o.faults.pace)
      | .directory .. => .ok (.start [] (some (0, .isDirectory)) o.faults.pace)
      | _ => .ok (.start [] fault o.faults.pace)
    | none => .error .notFound

/-- The error of a question that the object is not made for. -/
def invalidArgument : IoError := .system 22

/-- The target of a symbolic link. -/
def readLink (t : FileTree) (path : Path) : Except IoError Path :=
  match t.find path false with
  | .error e => .error e
  | .ok i =>
    match t.objects[i]? with
    | some ⟨.symlink target, faults⟩ => if faults.noTarget then .error .inputOutput else .ok target
    | _ => .error invalidArgument

/-- The identities of the directories of a tree. -/
def directories (t : FileTree) : List ObjectIdentity :=
  (List.range t.objects.length).map fun i => .inode 1 i none

theorem identity_mem_directories {t : FileTree} {path : Path} {follow : Bool} {s : ObjectStat}
    (h : t.stat path follow = .ok s) (hk : s.kind = .directory) :
    s.identity ∈ t.directories := by
  simp only [stat] at h
  split at h
  · simp at h
  · next i _ =>
    split at h
    · next o ho =>
      simp only [Except.ok.injEq] at h
      subst h
      have hi := (List.getElem?_eq_some_iff.1 ho).1
      have : (statOf i o).identity = .inode 1 i none := by
        simp only [statOf, Object.kind] at hk ⊢
        cases hc : o.content <;> simp_all
      rw [this]
      simp only [directories, List.mem_map, List.mem_range]
      exact ⟨i, hi, rfl⟩
    · simp at h

/-- A tree as a file system to compare on. -/
def fileSystem (t : FileTree) : FileSystem where
  stat := t.stat
  enumerate := t.enumerate
  openFile := t.openFile
  readLink := t.readLink
  directories := t.directories
  mem_directories := identity_mem_directories

/-! ## Adding to a tree -/

/-- The tree with one more object, entered into a directory. -/
def enter (t : FileTree) (dir : Nat) (name : Name) (o : Object) : FileTree :=
  let objects := t.objects.modify dir fun d =>
    match d.content with
    | .directory parent entries failAfter =>
      { d with content := .directory parent (entries ++ [(name, t.objects.length)]) failAfter }
    | _ => d
  { t with objects := objects ++ [o] }

/-- The tree with one more entry for an object that it has. -/
def enterLink (t : FileTree) (dir : Nat) (name : Name) (object : Nat) : FileTree :=
  { t with
    objects := t.objects.modify dir fun d =>
      match d.content with
      | .directory parent entries failAfter =>
        { d with content := .directory parent (entries ++ [(name, object)]) failAfter }
      | _ => d }

/-- The tree with an object of a given content at a path where nothing is
yet. -/
def create (t : FileTree) (path : Path) (content : (dir : Nat) → Content) :
    Except IoError FileTree :=
  match t.locate path false false with
  | .error e => .error e
  | .ok (.found _) => .error .alreadyExists
  | .ok (.vacant dir name) => .ok (t.enter dir name { content := content dir })

/-- The tree with a new directory. -/
def makeDirectory (t : FileTree) (path : Path) : Except IoError FileTree :=
  t.create path fun dir => .directory dir [] none

/-- The tree with the directory of these components and all directories
that lead to it. -/
def makeDirectoriesOf (t : FileTree) (components : List Path.Component) :
    Except IoError FileTree :=
  if _h : components = [] then .ok t
  else
    let path := Path.ofComponents components
    match t.makeDirectory path with
    | .ok t => .ok t
    | .error e =>
      if e = .notFound then
        match t.makeDirectoriesOf components.dropLast with
        | .error e => .error e
        | .ok t =>
          match t.makeDirectory path with
          | .ok t => .ok t
          | .error e => if t.fileSystem.isDirectory path then .ok t else .error e
      else if t.fileSystem.isDirectory path then .ok t
      else .error e
termination_by components.length
decreasing_by
  have := List.length_pos_iff.2 _h
  simp only [List.length_dropLast]
  omega

/-- The tree with the directory at `path` and all that lead to it. -/
def makeDirectories (t : FileTree) (path : Path) : Except IoError FileTree :=
  t.makeDirectoriesOf path.components

/-- The error of writing to what takes no bytes. -/
def noSuchDevice : IoError := .system 6

/-- Goes from the object `here` along `parts` to where bytes are written.
What means a directory takes none, whether it is there or not. -/
def walkToWrite (t : FileTree) :
    (links : Nat) → (here : Nat) → List (List UInt8) → (directory : Bool) → Except IoError Place
  | links, here, parts, directory =>
    if directory then
      -- its last part is not looked for
      match t.walk true links here parts.dropLast true with
      | .ok (.found _) => .error .isDirectory
      | .ok (.vacant ..) => .error .notFound
      | .error e => .error e
    else match t.stretch true false here parts with
      | .arrived place => .ok place
      | .failed e => .error e
      | .link dir target rest =>
        match links with
        | 0 => .error .tooManyLinks
        | links + 1 =>
          t.walkToWrite links (if target.isAbsolute then t.root else dir) (partsOf target ++ rest)
            (rest.isEmpty && meansDirectory target)

/-- Where bytes for a path are written. -/
def locateToWrite (t : FileTree) (path : Path) : Except IoError Place :=
  match checkPath path with
  | .error e => .error e
  | .ok () =>
    t.walkToWrite linkLimit (if path.isAbsolute then t.root else t.current) (partsOf path)
      (meansDirectory path)

/-- The tree with these bytes in the file at `path`, which is made if
nothing is there. -/
def setBytes (t : FileTree) (path : Path) (bytes : List UInt8) : Except IoError FileTree :=
  match t.locateToWrite path with
  | .error e => .error e
  | .ok (.vacant dir name) => .ok (t.enter dir name { content := .regular bytes })
  | .ok (.found i) =>
    match t.objects[i]? with
    | some ⟨.regular _, faults⟩ =>
      .ok { t with objects := t.objects.set i ⟨.regular bytes, faults⟩ }
    | some ⟨.directory .., _⟩ => .error .isDirectory
    -- a device takes the bytes and keeps nothing
    | some ⟨.device .., _⟩ => .ok t
    | _ => .error noSuchDevice

/-- The tree with faults at the object that `path` leads to. -/
def addFaults (t : FileTree) (path : Path) (change : Faults → Faults) : Except IoError FileTree :=
  match t.find path false with
  | .error e => .error e
  | .ok i =>
    .ok { t with objects := t.objects.modify i fun o => { o with faults := change o.faults } }

/-- A description of an entry to be made. -/
inductive Entry where
  /-- A directory, which may be there already, and when its enumeration
  fails. -/
  | directory (failAfter : Option Nat)
  | file (bytes : List UInt8)
  | link (target : Path)
  /-- One more name for the object at a path. -/
  | hardLink (target : Path)
  | fifo
  | socket
  /-- A node for a device. -/
  | device
  /-- Permissions for a user other than the owner. -/
  | permissions
  /-- Faults of the object that is there. -/
  | faults (change : Faults → Faults)

/-- The tree with a directory at `path`, whose enumeration may fail. -/
def addDirectory (t : FileTree) (path : Path) (failAfter : Option Nat) :
    Except IoError FileTree := do
  let t ← t.makeDirectories path
  match failAfter with
  | none => return t
  | some n =>
    let i ← t.find path true
    return { t with
      objects := t.objects.modify i fun o =>
        match o.content with
        | .directory parent entries _ => { o with content := .directory parent entries (some n) }
        | _ => o }

/-- The tree with one more entry and the directories that lead to it. The
user is an ordinary one, who makes no device nodes and does not act for
others. -/
def add (t : FileTree) (path : Path) (entry : Entry) : Except IoError FileTree := do
  let parent := (path.parent?).getD ⟨[]⟩
  match entry with
  | .device | .permissions => .error .notPermitted
  | .directory failAfter => t.addDirectory path failAfter
  | .faults change => t.addFaults path change
  | .file bytes => (← t.makeDirectories parent).setBytes path bytes
  | .link target => (← t.makeDirectories parent).create path fun _ => .symlink target
  | .fifo => (← t.makeDirectories parent).create path fun _ => .fifo
  | .socket => (← t.makeDirectories parent).create path fun _ => .socket
  | .hardLink target =>
    let t ← t.makeDirectories parent
    let i ← t.find target false
    match t.locate path false false with
    | .error e => .error e
    | .ok (.found _) => .error .alreadyExists
    | .ok (.vacant dir name) => .ok (t.enterLink dir name i)

/-- A tree with nothing but its root. -/
def empty : FileTree := ⟨[{ content := .directory 0 [] none }], 0, 0⟩

/-- The tree in which relative paths start at `path`. -/
def workIn (t : FileTree) (path : Path) : Except IoError FileTree :=
  match t.find path true with
  | .ok i => .ok { t with current := i }
  | .error e => .error e

/-- The tree with a special file. -/
def addSpecial (t : FileTree) (path : Path) (content : Content) : Except IoError FileTree :=
  match t.makeDirectories ((path.parent?).getD ⟨[]⟩) with
  | .ok t => t.create path fun _ => content
  | .error e => .error e

/-- Where a process finds what it has opened as number 200. -/
def openedPath : Path := Path.ofString "/proc/self/fd/200"

/-- The tree that every system starts with: the null device, the device of
zeros, and an opened object that has no file type. -/
def system : Except IoError FileTree := do
  let t ← empty.addSpecial (Path.ofString "/dev/null") (.device .charDevice 0x103)
  let t ← t.addSpecial (Path.ofString "/dev/zero") (.device .charDevice 0x105)
  t.addSpecial openedPath .other

end FileTree

end TreeCompare
