import Mathlib.Data.List.Induction
import TreeCompare.Proofs.Operations.Offers
import TreeCompare.Proofs.Trees.Equality
/-!
# Plain trees

A tree is plain if all that occurs in it can be looked at and read without a
fault, no link occurs in it, and no directory lies in itself
(`FileSystem.PlainTree`). Then a pair of directories that a comparison comes to
stands at a relative path: on each side it is the directory there, or nothing
if that path does not occur in the tree (`DirectoryPair.Stands`). It does not
lead back (`DirectoryPair.Stands.not_leadsBack`), and what it offers to be read
are the names one step down (`DirectoryPair.Stands.offers`).
-/

namespace TreeCompare

variable {σ : Type}

theorem Path.below_concat (dir : Path) (names : List Name) (name : Name) :
    dir.below (names ++ [name]) = (dir.below names).join name := by
  rw [below, List.foldl_append]
  rfl

namespace FileSystem

variable {fs : FileSystem} {follow : Bool} {root : Path} {names more : List Name} {name : Name}

/-- What leads somewhere occurs on the way. -/
theorem Occurs.of_append (h : fs.Occurs follow root (names ++ more)) :
    fs.Occurs follow root names := by
  induction names generalizing root with
  | nil => trivial
  | cons name names ih => exact ⟨h.1, ih h.2⟩

theorem Occurs.take (h : fs.Occurs follow root names) (n : Nat) :
    fs.Occurs follow root (names.take n) := by
  rw [← List.take_append_drop n names] at h
  exact h.of_append

/-- A relative path that is one name longer occurs if the directory there has
an entry of that name. -/
theorem occurs_concat : fs.Occurs follow root (names ++ [name]) ↔
    fs.Occurs follow root names ∧ fs.HasEntry follow (root.below names) name := by
  induction names generalizing root with
  | nil => exact ⟨fun h => ⟨trivial, h.1⟩, fun h => ⟨h.2, trivial⟩⟩
  | cons first names ih =>
    simp only [List.cons_append, Occurs, ih, and_assoc]
    rfl

/-- All that occurs in a tree is among some relative paths, if whatever is one
step further down from one of them is. -/
theorem mem_of_occurs {paths : List (List Name)} (hnil : [] ∈ paths)
    (h : ∀ names ∈ paths, ∀ entries ∈ (fs.enumerate (root.below names)).toOption,
      ∀ name ∈ entries.names, names ++ [name] ∈ paths)
    (ho : fs.Occurs follow root names) : names ∈ paths := by
  induction names using List.reverseRecOn with
  | nil => exact hnil
  | append_singleton names name ih =>
    obtain ⟨hbefore, -, entries, henum, hname⟩ := occurs_concat.1 ho
    exact h names (ih hbefore) entries (by rw [henum]; rfl) name hname

/-- The file at the path can be read to its end, and is as long as that. -/
def ReadsWhole (fs : FileSystem) (path : Path) (length : Nat) : Prop :=
  ∃ file, fs.openFile path = .ok file ∧ file.fault = none ∧ file.rest.length = length

instance (fs : FileSystem) (path : Path) (length : Nat) : Decidable (fs.ReadsWhole path length) :=
  decidableExistsAnswer (fs.openFile path) fun file =>
    file.fault = none ∧ file.rest.length = length

/-- An object of the kind can be read at the path without a fault, and is no
link. A directory yields none of its names twice. -/
def CanRead (fs : FileSystem) (path : Path) (length : Nat) : ObjectKind → Prop
  | .directory => ∃ entries, fs.enumerate path = .ok entries ∧ entries.failure = none ∧
      entries.names.Nodup
  | .regular => fs.ReadsWhole path length
  | .symlink => False
  | _ => True

instance (fs : FileSystem) (path : Path) (length : Nat) :
    (kind : ObjectKind) → Decidable (fs.CanRead path length kind)
  | .directory => decidableExistsAnswer (fs.enumerate path) fun entries =>
      entries.failure = none ∧ entries.names.Nodup
  | .regular => inferInstanceAs (Decidable (fs.ReadsWhole path length))
  | .symlink => isFalse id
  | .blockDevice | .charDevice | .fifo | .socket | .other => isTrue trivial

/-- What is at the path can be looked at and read. -/
def Sound (fs : FileSystem) (follow : Bool) (path : Path) : Prop :=
  ∃ stat, fs.stat path follow = .ok stat ∧ fs.CanRead path stat.length stat.kind

instance (fs : FileSystem) (follow : Bool) (path : Path) : Decidable (fs.Sound follow path) :=
  decidableExistsAnswer (fs.stat path follow) fun stat => fs.CanRead path stat.length stat.kind

/-- What some names lead to is none of the directories that it lies in. -/
def Apart (fs : FileSystem) (follow : Bool) (root : Path) (names : List Name) : Prop :=
  ∀ n < names.length, ∀ stat, fs.stat (root.below (names.take n)) follow = .ok stat →
    ∀ stat', fs.stat (root.below names) follow = .ok stat' → stat.sameObject stat' = false

instance (fs : FileSystem) (follow : Bool) (root : Path) (names : List Name) :
    Decidable (fs.Apart follow root names) :=
  inferInstanceAs (Decidable (∀ n < names.length, _))

/-- A directory tree without links and without faults. -/
structure PlainTree (fs : FileSystem) (follow : Bool) (root : Path) : Prop where
  directory : fs.DirectoryAt follow root
  sound (names : List Name) : fs.Occurs follow root names → fs.Sound follow (root.below names)
  apart (names : List Name) : fs.Occurs follow root names → fs.Apart follow root names

namespace Sound

variable {path : Path} {stat : ObjectStat}

/-- What is found there is no link. -/
theorem kind_ne_symlink (h : fs.Sound follow path) (hs : fs.stat path follow = .ok stat) :
    stat.kind ≠ .symlink := by
  intro hk
  obtain ⟨stat', hs', hsound⟩ := h
  rw [hs] at hs'
  cases hs'
  rw [hk] at hsound
  exact hsound

theorem readsWhole (h : fs.Sound follow path) (hs : fs.stat path follow = .ok stat)
    (hk : stat.kind = .regular) : fs.ReadsWhole path stat.length := by
  obtain ⟨stat', hs', hsound⟩ := h
  rw [hs] at hs'
  cases hs'
  rwa [hk] at hsound

/-- A directory that can be read without a fault has the entries that it
yields. -/
theorem hasEntry_iff (h : fs.Sound follow path) (hd : fs.DirectoryAt follow path) :
    ∃ names, fs.enumerate path = .ok ⟨names, none⟩ ∧ names.Nodup ∧
      ∀ name, name ∈ names ↔ fs.HasEntry follow path name := by
  obtain ⟨stat, hs, hk⟩ := hd
  obtain ⟨stat', hs', hsound⟩ := h
  rw [hs] at hs'
  cases hs'
  rw [hk] at hsound
  obtain ⟨⟨names, _⟩, henum, rfl, hnodup⟩ := hsound
  refine ⟨names, henum, hnodup, fun name => ?_⟩
  constructor
  · exact fun hname => ⟨⟨stat, hs, hk⟩, _, henum, hname⟩
  · rintro ⟨-, entries, henum', hname⟩
    rw [henum] at henum'
    cases henum'
    exact hname

end Sound

end FileSystem

/-! ## Where a comparison stands -/

section Standing

variable {fs : FileSystem} {follow : Bool}

/-- The operand is the directory that some names lead to, or nothing if they
lead nowhere. -/
structure Operand.Stands (fs : FileSystem) (follow : Bool) (root : Path) (names : List Name)
    (operand : Operand) : Prop where
  path : operand.path = root.below names
  nonexistent : ¬ fs.Occurs follow root names → operand.isNonexistent = true
  known : fs.Occurs follow root names → operand.isNonexistent = false ∧
    ∃ stat, fs.stat (root.below names) follow = .ok stat ∧ stat.kind = .directory ∧
      operand.stat = some stat

namespace Operand.Stands

variable {root : Path} {names : List Name} {operand opened : Operand}

theorem becomes (h : operand.Stands fs follow root names) (ho : operand.Becomes opened) :
    opened.Stands fs follow root names := by
  refine ⟨ho.path.trans h.path, fun hn => ho.isNonexistent.trans (h.nonexistent hn), fun hn => ?_⟩
  obtain ⟨hexists, stat, hs, hk, hstat⟩ := h.known hn
  exact ⟨ho.isNonexistent.trans hexists, stat, hs, hk, ho.stat hstat⟩

/-- A directory that was looked at stands where it is. -/
theorem of_known {stat : ObjectStat} (ho : fs.Occurs follow root names)
    (hs : fs.stat (root.below names) follow = .ok stat) (hk : stat.kind = .directory) :
    (Operand.known (root.below names) stat).Stands fs follow root names :=
  ⟨rfl, fun hn => absurd ho hn, fun _ => ⟨rfl, stat, hs, hk, rfl⟩⟩

theorem of_nonexistent (ho : ¬ fs.Occurs follow root names) :
    (Operand.nonexistent (root.below names)).Stands fs follow root names :=
  ⟨rfl, fun _ => rfl, fun hn => absurd hn ho⟩

end Operand.Stands

/-- The pair of directories that some names lead to from two roots, reached
through those that the names before them lead to. -/
structure DirectoryPair.Stands (fs : FileSystem) (follow : Bool) (roots : Side → Path)
    (names : List Name) (pair : DirectoryPair) : Prop where
  operand (side : Side) : (pair.side side).Stands fs follow (roots side) names
  ancestors (side : Side) : ∀ ancestor ∈ pair.ancestorsOn side,
    ∃ n < names.length, ancestor.Stands fs follow (roots side) (names.take n)
  isRoot : pair.isRoot = names.isEmpty

namespace DirectoryPair.Stands

variable {roots : Side → Path} {names : List Name} {pair opened : DirectoryPair} {side : Side}

theorem becomes (h : pair.Stands fs follow roots names) (ho : pair.Becomes opened) :
    opened.Stands fs follow roots names := by
  refine ⟨fun side => (h.operand side).becomes (ho.side side), fun side => ?_, ?_⟩
  · have hancestors : opened.ancestorsOn side = pair.ancestorsOn side := by
      cases side <;> simp only [ancestorsOn, ho.ancestors]
    rw [hancestors]
    exact h.ancestors side
  · rw [← h.isRoot]
    exact congrArg List.isEmpty ho.ancestors

/-- Two directories stand at the roots that a comparison begins with. -/
theorem of_root {left right : Operand} (hl : left.Stands fs follow (roots .left) [])
    (hr : right.Stands fs follow (roots .right) []) :
    (DirectoryPair.root left right).Stands fs follow roots [] := by
  refine ⟨fun side => by cases side <;> assumption, fun side ancestor h => ?_, rfl⟩
  cases side <;> cases h

/-- **One step down** a pair stands one name further. -/
theorem below (h : pair.Stands fs follow roots names) {name : Name} {left right : Operand}
    (hl : left.Stands fs follow (roots .left) (names ++ [name]))
    (hr : right.Stands fs follow (roots .right) (names ++ [name])) :
    (pair.below left right).Stands fs follow roots (names ++ [name]) := by
  have hcons : ∀ side, (pair.below left right).ancestorsOn side =
      pair.side side :: pair.ancestorsOn side := fun side => by cases side <;> rfl
  refine ⟨fun side => by cases side <;> assumption, fun side ancestor hmem => ?_, ?_⟩
  · rw [hcons] at hmem
    rcases List.mem_cons.1 hmem with rfl | hmem
    · refine ⟨names.length, by simp, ?_⟩
      rw [List.take_left]
      exact h.operand side
    · obtain ⟨n, hn, hancestor⟩ := h.ancestors side ancestor hmem
      refine ⟨n, by simp only [List.length_append]; omega, ?_⟩
      rwa [List.take_append_of_le_length (by omega)]
  · have hne : (names ++ [name]).isEmpty = false := by simp
    rw [hne]
    rfl

/-- **A side that is there does not lead back** where nothing lies in
itself. -/
theorem not_leadsBack (h : pair.Stands fs follow roots names)
    (ho : fs.Occurs follow (roots side) names) (ha : fs.Apart follow (roots side) names) :
    pair.leadsBack side = false := by
  obtain ⟨hexists, stat', hs', -, hstat'⟩ := (h.operand side).known ho
  rw [leadsBack, hexists, Bool.false_or, isRepeated, List.any_eq_false]
  intro ancestor hmem
  obtain ⟨n, hn, hancestor⟩ := h.ancestors side ancestor hmem
  obtain ⟨-, stat, hs, -, hstat⟩ := hancestor.known (ho.take n)
  simp only [Operand.sameObject, hstat, hstat', ha n hn stat hs stat' hs',
    Bool.false_eq_true, not_false_eq_true]

/-- **What is offered to be read** are the names that lead one step further
down. -/
theorem offers {c : Comparison σ} (h : pair.Stands fs c.options.followLinks roots names)
    (hsound : fs.Occurs c.options.followLinks (roots side) names →
      fs.Sound c.options.followLinks ((roots side).below names)) :
    c.Offers fs (pair.side side) fun name =>
      fs.Occurs c.options.followLinks (roots side) (names ++ [name]) := by
  by_cases ho : fs.Occurs c.options.followLinks (roots side) names
  · obtain ⟨hexists, stat, hs, hk, -⟩ := (h.operand side).known ho
    obtain ⟨entries, henum, hd, hmem⟩ := (hsound ho).hasEntry_iff ⟨stat, hs, hk⟩
    rw [← (h.operand side).path] at hs henum
    refine .directory hexists hs hk henum hd fun name => ?_
    rw [hmem, FileSystem.occurs_concat, and_iff_right ho]
  · exact .nothing ((h.operand side).nonexistent ho) fun name hname => ho hname.of_append

end DirectoryPair.Stands

end Standing

end TreeCompare
