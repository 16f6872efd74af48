import TreeCompare.Proofs.Operations.Reading
/-!
# Equal trees

Two trees are equal if the same relative paths occur in both, and lead to
objects of the same kind and with the same in them at each of them
(`FileSystem.EqualTrees`). What is an object, and whether a link is one of
its own, depends on whether links are followed. The trees may go round in
circles: a relative path is as long as one likes. One step down, equal trees
are two objects that agree, with the same entries and equal trees in them
(`equalTrees_iff`).
-/

namespace TreeCompare

/-- The path that some names lead to from `dir`, one after the other. -/
def Path.below (dir : Path) (names : List Name) : Path := names.foldl Path.join dir

namespace FileSystem

/-- There is a directory at the path. -/
def DirectoryAt (fs : FileSystem) (follow : Bool) (path : Path) : Prop :=
  ∃ stat, fs.stat path follow = .ok stat ∧ stat.kind = .directory

/-- There is a directory at the path, and it has an entry of this name. -/
def HasEntry (fs : FileSystem) (follow : Bool) (dir : Path) (name : Name) : Prop :=
  fs.DirectoryAt follow dir ∧ ∃ entries, fs.enumerate dir = .ok entries ∧ name ∈ entries.names

/-- A relative path occurs in the tree at `dir`: the directory there has an
entry of its first name, in which the rest occurs. -/
def Occurs (fs : FileSystem) (follow : Bool) : Path → List Name → Prop
  | _, [] => True
  | dir, name :: names => fs.HasEntry follow dir name ∧ Occurs fs follow (dir.join name) names

/-- What holds of an answer that there is can be decided. -/
instance decidableExistsAnswer {ε α : Type} (x : Except ε α) (P : α → Prop) [DecidablePred P] :
    Decidable (∃ a, x = .ok a ∧ P a) :=
  match x with
  | .ok a => decidable_of_iff (P a) (by simp)
  | .error _ => isFalse (by simp)

instance decidableForallAnswer {ε α : Type} (x : Except ε α) (P : α → Prop) [DecidablePred P] :
    Decidable (∀ a, x = .ok a → P a) :=
  match x with
  | .ok a => decidable_of_iff (P a) (by simp)
  | .error _ => isTrue (by simp)

instance (fs : FileSystem) (follow : Bool) (path : Path) : Decidable (fs.DirectoryAt follow path) :=
  decidableExistsAnswer (fs.stat path follow) fun stat => stat.kind = .directory

instance (fs : FileSystem) (follow : Bool) (dir : Path) (name : Name) :
    Decidable (fs.HasEntry follow dir name) :=
  have := decidableExistsAnswer (fs.enumerate dir) fun entries => name ∈ entries.names
  inferInstanceAs (Decidable (_ ∧ _))

instance decidableOccurs (fs : FileSystem) (follow : Bool) :
    (dir : Path) → (names : List Name) → Decidable (fs.Occurs follow dir names)
  | _, [] => isTrue trivial
  | dir, name :: names =>
    have := decidableOccurs fs follow (dir.join name) names
    inferInstanceAs (Decidable (_ ∧ _))

/-- Both files can be opened, and hold the same bytes. -/
def SameBytes (fs : FileSystem) (p q : Path) : Prop :=
  ∃ file file', fs.openFile p = .ok file ∧ fs.openFile q = .ok file' ∧ file.rest = file'.rest

/-- Both links can be read, and their targets are equal as paths. -/
def SameTarget (fs : FileSystem) (p q : Path) : Prop :=
  ∃ target target', fs.readLink p = .ok target ∧ fs.readLink q = .ok target' ∧
    target.sameAs target' = true

/-- There is the same in two objects of one kind: files have the same bytes,
links the same target, and special files are the same. Of two directories
nothing is asked here. -/
def SameWithin (fs : FileSystem) (p q : Path) (stat stat' : ObjectStat) : Prop :=
  match stat.kind with
  | .directory => True
  | .regular => fs.SameBytes p q
  | .symlink => fs.SameTarget p q
  | _ => stat.sameObject stat' = true

/-- There are two objects of the same kind, with the same in them. -/
def Agree (fs : FileSystem) (follow : Bool) (p q : Path) : Prop :=
  ∃ stat stat', fs.stat p follow = .ok stat ∧ fs.stat q follow = .ok stat' ∧
    stat.kind = stat'.kind ∧ fs.SameWithin p q stat stat'

/-- The trees at two paths are equal: at every relative path both have
something or neither has, and then the two objects agree. -/
structure EqualTrees (fs : FileSystem) (follow : Bool) (left right : Path) : Prop where
  occurs (names : List Name) : fs.Occurs follow left names ↔ fs.Occurs follow right names
  agree (names : List Name) : fs.Occurs follow left names →
    fs.Agree follow (left.below names) (right.below names)

variable {fs : FileSystem} {follow : Bool} {p q : Path}

/-- What is asked of two answers is asked of the ones that there are. -/
theorem exists_answers_iff {α : Type} {x y : Except IoError α} {a b : α} {R : α → α → Prop}
    (hx : x = .ok a) (hy : y = .ok b) : (∃ a b, x = .ok a ∧ y = .ok b ∧ R a b) ↔ R a b := by
  subst hx hy
  simp

theorem sameBytes_iff {file file' : OpenFile} (hp : fs.openFile p = .ok file)
    (hq : fs.openFile q = .ok file') : fs.SameBytes p q ↔ file.rest = file'.rest :=
  exists_answers_iff hp hq

theorem sameTarget_iff {target target' : Path} (hp : fs.readLink p = .ok target)
    (hq : fs.readLink q = .ok target') : fs.SameTarget p q ↔ target.sameAs target' = true :=
  exists_answers_iff hp hq

theorem agree_iff {stat stat' : ObjectStat} (hp : fs.stat p follow = .ok stat)
    (hq : fs.stat q follow = .ok stat') :
    fs.Agree follow p q ↔ stat.kind = stat'.kind ∧ fs.SameWithin p q stat stat' :=
  exists_answers_iff hp hq

theorem agree_of_directories (hp : fs.DirectoryAt follow p) (hq : fs.DirectoryAt follow q) :
    fs.Agree follow p q := by
  obtain ⟨stat, hs, hk⟩ := hp
  obtain ⟨stat', hs', hk'⟩ := hq
  refine ⟨stat, stat', hs, hs', hk.trans hk'.symm, ?_⟩
  rw [SameWithin, hk]
  trivial

/-- **Equal trees one step down.** -/
theorem equalTrees_iff :
    fs.EqualTrees follow p q ↔ fs.Agree follow p q ∧
      (∀ name, fs.HasEntry follow p name ↔ fs.HasEntry follow q name) ∧
      ∀ name, fs.HasEntry follow p name → fs.EqualTrees follow (p.join name) (q.join name) := by
  constructor
  · rintro ⟨hoccurs, hagree⟩
    have hentry : ∀ name, fs.HasEntry follow p name ↔ fs.HasEntry follow q name := fun name => by
      simpa only [Occurs, and_true] using hoccurs [name]
    refine ⟨hagree [] trivial, hentry, fun name hp => ⟨fun names => ?_, fun names h => ?_⟩⟩
    · have h := hoccurs (name :: names)
      simpa only [Occurs, hp, (hentry name).1 hp, true_and] using h
    · exact hagree (name :: names) ⟨hp, h⟩
  · rintro ⟨hagree, hentry, hbelow⟩
    constructor
    · rintro (- | ⟨name, names⟩)
      · exact Iff.rfl
      · refine ⟨fun h => ⟨(hentry name).1 h.1, ((hbelow name h.1).occurs names).1 h.2⟩,
          fun h => ?_⟩
        have hp := (hentry name).2 h.1
        exact ⟨hp, ((hbelow name hp).occurs names).2 h.2⟩
    · rintro (- | ⟨name, names⟩) h
      · exact hagree
      · exact (hbelow name h.1).agree names h.2

/-- What is no directory has no entries. -/
theorem not_hasEntry {stat : ObjectStat} (hs : fs.stat p follow = .ok stat)
    (hk : stat.kind ≠ .directory) (name : Name) : ¬ fs.HasEntry follow p name := by
  rintro ⟨⟨stat', hs', hk'⟩, -⟩
  rw [hs] at hs'
  cases hs'
  exact hk hk'

/-- Of objects that are no directories it only matters what is in them. -/
theorem equalTrees_iff_sameWithin {stat stat' : ObjectStat} (hp : fs.stat p follow = .ok stat)
    (hq : fs.stat q follow = .ok stat') (hk : stat.kind = stat'.kind)
    (hd : stat.kind ≠ .directory) :
    fs.EqualTrees follow p q ↔ fs.SameWithin p q stat stat' := by
  rw [equalTrees_iff, and_iff_left, agree_iff hp hq, and_iff_right hk]
  have hnp := not_hasEntry hp hd
  have hnq := not_hasEntry hq (hk ▸ hd)
  exact ⟨fun name => iff_of_false (hnp name) (hnq name), fun name h => absurd h (hnp name)⟩

/-- A file system that says of its objects what they are: no directory
yields a name twice, every regular file can be opened and is as long as it
is said to be, and one file has one content. -/
structure Faithful (fs : FileSystem) : Prop where
  listsOnce : fs.ListsOnce
  opens {path : Path} {follow : Bool} {stat : ObjectStat} : fs.stat path follow = .ok stat →
    stat.kind = .regular → ∃ file, fs.openFile path = .ok file ∧ file.rest.length = stat.length
  sameBytes {p q : Path} {follow : Bool} {stat stat' : ObjectStat} :
    fs.stat p follow = .ok stat → fs.stat q follow = .ok stat' → stat.kind = .regular →
      stat'.kind = .regular → stat.sameObject stat' = true → fs.SameBytes p q

end FileSystem

end TreeCompare
