import TreeCompare.IoError
import TreeCompare.Name
/-!
# File systems

What a comparison asks of the file system it runs on: the kind, identity
and length of what a path leads to, the entries of a directory, the bytes
of a file and the target of a symbolic link. A `FileSystem` answers these
questions the same way every time, and names the directories it holds
(`FileSystem.mem_directories`), so that a comparison of trees in it can be
shown to end.

Reading is piecewise. A file delivers its bytes at its own pace, may be
interrupted, and may fail from some offset on (`OpenFile.read`).
-/

namespace TreeCompare

/-- Kind of object a path leads to. -/
inductive ObjectKind where
  | regular
  | directory
  | symlink
  | blockDevice
  | charDevice
  | fifo
  | socket
  | other
deriving DecidableEq, Repr, Inhabited

namespace ObjectKind

/-- Whether entries can be looked for in it. -/
def isDirectory (k : ObjectKind) : Bool := k == directory

/-- The identifier of a kind in structured reports. -/
def word : ObjectKind → String
  | regular => "regular"
  | directory => "directory"
  | symlink => "symlink"
  | blockDevice => "block_device"
  | charDevice => "char_device"
  | fifo => "fifo"
  | socket => "socket"
  | other => "other"

/-- What a message calls a file of this kind. -/
def description : ObjectKind → String
  | regular => "regular file"
  | directory => "directory"
  | symlink => "symbolic link"
  | blockDevice => "block special file"
  | charDevice => "character special file"
  | fifo => "fifo"
  | socket => "socket"
  | other => "weird file"

/-- Every kind. -/
def all : List ObjectKind :=
  [regular, directory, symlink, blockDevice, charDevice, fifo, socket, other]

end ObjectKind

/-- What makes two paths lead to the same object. -/
inductive ObjectIdentity where
  /-- The device that holds the object and its number there. For a block
  or character special file, also the device it stands for. -/
  | inode (device number : Nat) (special : Option (ObjectKind × Nat))
  /-- The resolved path, where objects have no numbers. -/
  | path (path : Path)
deriving DecidableEq, Repr

namespace ObjectIdentity

/-- The same object, or special files that stand for the same device. -/
def agrees : ObjectIdentity → ObjectIdentity → Bool
  | inode device number special, inode device' number' special' =>
    (device == device' && number == number') || (special.isSome && special == special')
  | path p, path q => p.sameAs q
  | _, _ => false

/-- The same in every respect. Paths count as equal when their components
are. -/
def equal : ObjectIdentity → ObjectIdentity → Bool
  | path p, path q => p.sameAs q
  | i, j => i == j

@[simp] theorem agrees_self (i : ObjectIdentity) : i.agrees i := by
  cases i <;> simp [agrees, Path.sameAs]

theorem agrees_comm (i j : ObjectIdentity) : i.agrees j = j.agrees i := by
  cases i <;> cases j <;> simp only [agrees, Path.sameAs]
  · next special _ _ special' =>
    congr 1
    · congr 1 <;> exact Bool.beq_comm ..
    · cases special <;> cases special' <;> simp [Bool.beq_comm]
  · exact decide_eq_decide.2 eq_comm

end ObjectIdentity

/-- What a look at a path tells. -/
structure ObjectStat where
  identity : ObjectIdentity
  kind : ObjectKind
  length : Nat
deriving DecidableEq, Repr

namespace ObjectStat

/-- The same object. -/
def sameObject (s t : ObjectStat) : Bool := s.identity.agrees t.identity

/-- The same in every respect. -/
def equal (s t : ObjectStat) : Bool :=
  s.identity.equal t.identity && s.kind == t.kind && s.length == t.length

@[simp] theorem sameObject_self (s : ObjectStat) : s.sameObject s := ObjectIdentity.agrees_self _

theorem sameObject_comm (s t : ObjectStat) : s.sameObject t = t.sameObject s :=
  ObjectIdentity.agrees_comm ..

end ObjectStat

/-- How one read goes: how often it is interrupted before it completes,
and the most bytes it then delivers. -/
structure Pace where
  interruptions : Nat
  limit : Nat
  limit_pos : 0 < limit

/-- A read that is not interrupted and delivers what is asked for, up to
the most that one call transfers. -/
def Pace.steady : Pace := ⟨0, 0x7FFFF000, by decide⟩

/-- A file that has been opened: the bytes not read yet, after how many of
them reading fails and how, the pace of the reads that come, and how often
the next one is still interrupted. -/
structure OpenFile where
  rest : List UInt8
  fault : Option (Nat × IoError)
  pace : Nat → Pace
  interruptions : Nat

/-- What one call of a read gives, and the file after it. No bytes at all
mean the end of the file. -/
inductive ReadResult where
  | interrupted (next : OpenFile)
  | bytes (bytes : List UInt8) (next : OpenFile)
  | failed (error : IoError)

namespace OpenFile

/-- A freshly opened file. -/
def start (contents : List UInt8) (fault : Option (Nat × IoError)) (pace : Nat → Pace) :
    OpenFile where
  rest := contents
  fault := fault
  pace := pace
  interruptions := (pace 0).interruptions

/-- How many bytes the next read that completes delivers when `want` are
asked for. -/
def available (file : OpenFile) (want : Nat) : Nat :=
  let limited := min (min want (file.pace 0).limit) file.rest.length
  match file.fault with
  | some (distance, _) => min limited distance
  | none => limited

/-- A read for up to `want` bytes that completes. A fault that lies at the
offset reached fails the read even at the end of the file. -/
def transfer (file : OpenFile) (want : Nat) : Except IoError (List UInt8 × OpenFile) :=
  match file.fault with
  | some (0, error) => .error error
  | _ =>
    let n := file.available want
    .ok (file.rest.take n,
      { rest := file.rest.drop n
        fault := file.fault.map fun (distance, error) => (distance - n, error)
        pace := fun i => file.pace (i + 1)
        interruptions := (file.pace 1).interruptions })

/-- One call of a read for up to `want` bytes. -/
def read (file : OpenFile) (want : Nat) : ReadResult :=
  match file.interruptions with
  | n + 1 => .interrupted { file with interruptions := n }
  | 0 =>
    match file.transfer want with
    | .ok (bytes, next) => .bytes bytes next
    | .error error => .failed error

end OpenFile

/-- The entries of a directory in the order it yields them, and the error
that ends the enumeration early, if one does. -/
structure Enumeration where
  names : List Name
  failure : Option IoError
deriving DecidableEq, Repr

/-- An unchanging file system. -/
structure FileSystem where
  /-- A look at a path, through a final symbolic link if asked to follow. -/
  stat : Path → (follow : Bool) → Except IoError ObjectStat
  /-- The entries of the directory at a path. -/
  enumerate : Path → Except IoError Enumeration
  /-- The regular file at a path, opened for reading. -/
  openFile : Path → Except IoError OpenFile
  /-- The target of the symbolic link at a path. -/
  readLink : Path → Except IoError Path
  /-- The identities of the directories there are. -/
  directories : List ObjectIdentity
  /-- Every directory that a path leads to is among them. -/
  mem_directories : ∀ {path : Path} {follow : Bool} {stat' : ObjectStat},
    stat path follow = .ok stat' → stat'.kind = .directory → stat'.identity ∈ directories

namespace FileSystem

/-- A look at `path` finds something. -/
def pathExists (fs : FileSystem) (path : Path) : Bool :=
  match fs.stat path true with
  | .ok _ => true
  | .error _ => false

/-- A look at `path` finds a directory. -/
def isDirectory (fs : FileSystem) (path : Path) : Bool :=
  match fs.stat path true with
  | .ok stat => stat.kind.isDirectory
  | .error _ => false

end FileSystem

end TreeCompare
