import TreeCompare.Proofs.Operations.Blocks
import TreeCompare.Proofs.Trees.Listing
import TreeCompare.Proofs.Trees.Entering
/-!
# What is written to a file is read from it

Bytes go to where a path leads. If there is a file, they take the place of what
was in it, and all paths lead where they led (`walk_congr`); if there is none,
the new file is where the path led to nothing (`LeadsToWrite.enter`). Either way the path
leads to the file afterwards, and reading it gives the bytes unless the file has
a fault in them (`bytesAt_of_setBytes`).
-/

namespace TreeCompare

/-- A file whose fault, if it has one, is behind its end is read to the end. -/
theorem FileSystem.bytesAt_of_start {fs : FileSystem} {path : Path} {bytes : List UInt8}
    {fault : Option (Nat × IoError)} {pace : Nat → Pace}
    (ho : fs.openFile path = .ok (.start bytes fault pace))
    (hf : ∀ d e, fault = some (d, e) → bytes.length < d) : fs.bytesAt path = .ok bytes := by
  simp only [bytesAt, ho]
  cases hr : (OpenFile.start bytes fault pace).readBlock
      ((OpenFile.start bytes fault pace).rest.length + 1) with
  | error e =>
    obtain ⟨d, hd, -, hle⟩ := OpenFile.readBlock_eq_error.1 hr
    exact absurd (hf d e hd) (Nat.not_lt.2 hle)
  | ok result =>
    obtain ⟨block, next⟩ := result
    have hblock : block = bytes.take (bytes.length + 1) := OpenFile.readBlock_eq_take hr
    rw [hblock, List.take_of_length_le (Nat.le_succ _)]

namespace FileTree

variable {t t' : FileTree} {path : Path} {bytes : List UInt8} {dir here : Nat} {name : Name}
  {part : List UInt8}

/-- What the path leads to, if there is anything, is a regular file that does not
fail to be read before the end of `length` bytes. -/
def CanHold (t : FileTree) (path : Path) (length : Nat) : Prop :=
  ∀ i, t.find path true = .ok i → ∃ bytes faults, t.objects[i]? = some ⟨.regular bytes, faults⟩ ∧
    ∀ n, faults.failAt = some n → length < n

theorem CanHold.not_isDirectory {length i : Nat} (h : t.CanHold path length)
    (hi : t.find path true = .ok i) : ¬t.IsDirectory i := by
  obtain ⟨bytes, faults, ho, -⟩ := h i hi
  rintro ⟨parent, entries, failAfter, hc⟩
  rw [content?, ho] at hc
  cases hc

/-! ## Writing to a file that is there -/

/-- Paths do not go by what is in a regular file. -/
inductive Content.SameWay : Option Content → Option Content → Prop where
  | refl (c : Option Content) : SameWay c c
  | regular (bytes bytes' : List UInt8) : SameWay (some (.regular bytes)) (some (.regular bytes'))

theorem wayTo_congr (h : ∀ i, Content.SameWay (t.content? i) (t'.content? i)) (i : Nat) :
    t'.wayTo i = t.wayTo i := by
  have hi := h i
  unfold wayTo
  generalize t.content? i = c at hi ⊢
  generalize t'.content? i = c' at hi ⊢
  cases hi <;> rfl

theorem way_congr (h : ∀ i, Content.SameWay (t.content? i) (t'.content? i)) (here : Nat)
    (part : List UInt8) : t'.way here part = t.way here part := by
  have hhere := h here
  unfold way
  generalize t.content? here = c at hhere ⊢
  generalize t'.content? here = c' at hhere ⊢
  cases hhere with
  | regular => rfl
  | refl => simp only [wayTo_congr h]

theorem stretch_congr (h : ∀ i, Content.SameWay (t.content? i) (t'.content? i))
    (follow directory : Bool) (here : Nat) (parts : List (List UInt8)) :
    t'.stretch follow directory here parts = t.stretch follow directory here parts := by
  induction parts generalizing here with
  | nil =>
    have hhere := h here
    unfold content? at hhere
    unfold stretch
    generalize t.objects[here]? = o at hhere ⊢
    generalize t'.objects[here]? = o' at hhere ⊢
    rcases o with - | ⟨c, _⟩ <;> rcases o' with - | ⟨c', _⟩ <;> cases hhere <;> rfl
  | cons part rest ih =>
    rw [stretch_cons, stretch_cons, way_congr h]
    cases t.way here part with
    | entry i => exact ih i
    | _ => rfl

theorem walk_congr (h : ∀ i, Content.SameWay (t.content? i) (t'.content? i))
    (hroot : t'.root = t.root) {follow directory : Bool} {links here : Nat}
    {parts : List (List UInt8)} :
    t'.walk follow links here parts directory = t.walk follow links here parts directory := by
  induction links generalizing here parts directory with
  | zero =>
    unfold walk
    rw [stretch_congr h]
  | succ links ih =>
    unfold walk
    rw [stretch_congr h]
    simp only [ih, hroot]

/-- **All paths lead where they led** when a regular file has other bytes. -/
theorem locate_set {i : Nat} {old : List UInt8} {faults : Faults}
    (hi : t.objects[i]? = some ⟨.regular old, faults⟩) (bytes : List UInt8) (path : Path)
    (follow directory : Bool) :
    ({ t with objects := t.objects.set i ⟨.regular bytes, faults⟩ } : FileTree).locate path follow
      directory = t.locate path follow directory := by
  have hway : ∀ j, Content.SameWay (t.content? j)
      (({ t with objects := t.objects.set i ⟨.regular bytes, faults⟩ } : FileTree).content? j) := by
    intro j
    unfold content?
    rw [List.getElem?_set]
    split
    · next hij =>
      subst hij
      rw [if_pos (List.getElem?_eq_some_iff.1 hi).1, hi]
      exact .regular old bytes
    · exact .refl _
  unfold locate
  split
  · rfl
  · exact walk_congr hway rfl

/-! ## Writing to a file that is not there yet -/

/-- **A path that led to nothing leads to the new file**, if nothing on the way
means a directory. -/
theorem LeadsToWrite.enter (bytes : List UInt8) {links : Nat} {parts : List (List UInt8)}
    (h : t.LeadsToWrite (.vacant dir name) links here parts) :
    (t.enter dir name { content := .regular bytes }).Leads true (.found t.objects.length) links here
      parts false := by
  have hkind : (⟨.regular bytes, {}⟩ : Object).kind ≠ .symlink := ObjectKind.noConfusion
  induction h with
  | arrived h => exact .arrived (stretch_enter_vacant hkind nofun h)
  | link h hmeans _ ih => exact .link (stretch_enter_link hkind false h) (by rw [hmeans]; exact ih)

theorem locate_enter (bytes : List UInt8) (h : t.locateToWrite path = .ok (.vacant dir name)) :
    (t.enter dir name { content := .regular bytes }).locate path true (meansDirectory path) =
      .ok (.found t.objects.length) := by
  unfold locateToWrite at h
  unfold locate
  split at h
  · cases h
  · obtain ⟨hd, hleads⟩ := leadsToWrite_of_walkToWrite h
    rw [hd]
    exact walk_eq_ok.2 (hleads.enter bytes)

/-- A path that leads to a regular file leads to something, and the file is
opened there. -/
theorem openFile_of_find {i : Nat} {faults : Faults} (h : t.find path true = .ok i)
    (hi : t.objects[i]? = some ⟨.regular bytes, faults⟩) :
    t.fileSystem.pathExists path = true ∧ t.fileSystem.openFile path =
      .ok (.start bytes (faults.failAt.map fun n => (n, .inputOutput)) faults.pace) := by
  constructor
  · simp only [FileSystem.pathExists, fileSystem, stat, h, hi]
  · simp only [fileSystem, openFile, h, hi]

/-- **What is written to a path is read from it**, if what it leads to can hold
that much. -/
theorem bytesAt_of_setBytes (h : t.setBytes path bytes = .ok t')
    (hold : t.CanHold path bytes.length) :
    t'.fileSystem.pathExists path = true ∧ t'.fileSystem.bytesAt path = .ok bytes := by
  unfold setBytes at h
  split at h
  · cases h
  · next dir name hplace =>
    -- nothing was there
    cases h
    have hfind : (t.enter dir name { content := .regular bytes }).find path true =
        .ok t.objects.length := by
      rw [find, locate_enter bytes hplace]
    obtain ⟨hexists, hopen⟩ := openFile_of_find hfind (object_enter ..)
    exact ⟨hexists, FileSystem.bytesAt_of_start hopen nofun⟩
  · next i hplace =>
    obtain ⟨hdirectory, hlocate⟩ := locate_of_locateToWrite hplace
    have hfind : t.find path true = .ok i := by
      rw [find, hdirectory, hlocate]
    obtain ⟨old, faults, hi, hbehind⟩ := hold i hfind
    rw [hi] at h
    cases h
    have hfind' : ({ t with objects := t.objects.set i ⟨.regular bytes, faults⟩ } :
        FileTree).find path true = .ok i := by
      rw [find, locate_set hi, ← find, hfind]
    have hi' : (t.objects.set i ⟨.regular bytes, faults⟩)[i]? = some ⟨.regular bytes, faults⟩ :=
      List.getElem?_set_self (List.getElem?_eq_some_iff.1 hi).1
    obtain ⟨hexists, hopen⟩ := openFile_of_find hfind' hi'
    refine ⟨hexists, FileSystem.bytesAt_of_start hopen fun d e hd => ?_⟩
    obtain ⟨n, hn, heq⟩ := Option.map_eq_some_iff.1 hd
    cases heq
    exact hbehind d hn

end FileTree

end TreeCompare
