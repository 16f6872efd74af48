import TreeCompare.Proofs.Operations.SameContents
import TreeCompare.Status
/-!
# Operations that fail

A comparison asks a file system for four things, each of a path, and any of
them may fail (`Failure`, `FileSystem.Fails`). Comparing the contents of two
files ends with the first failure of an open or of a read, and whose failure it
was is lost on the way: only the error comes back. `FileSystem.ContentsFail`
says which failure it was, and `sameContents_eq_error` that there is one to
every error, and that file is what failed (`ContentsFail.fails`). With the two
files exchanged it is the same failure, unless both fail
(`ContentsFail.turned`).
-/

namespace TreeCompare

/-- What a comparison asks for. -/
inductive Operation where
  /-- What a path leads to. -/
  | look
  /-- The file at a path. -/
  | open
  /-- The next bytes of the file at a path. -/
  | read
  /-- The target of the symbolic link at a path. -/
  | readLink
deriving DecidableEq, Repr

/-- An operation on a path, and the error that it failed with. -/
structure Failure where
  operation : Operation
  path : Path
  error : IoError
deriving DecidableEq, Repr

namespace OpenFile

variable {file next left right : OpenFile} {want : Nat} {block : List UInt8} {e : IoError}

/-- Reading the file from here on comes to a fault, at the end of the file at
the latest. -/
def Faulty (file : OpenFile) (e : IoError) : Prop :=
  ∃ distance, file.fault = some (distance, e) ∧ distance ≤ file.rest.length

/-- What is faulty behind some bytes was so before them. -/
theorem Faulty.of_transfer {bytes : List UInt8} (h : file.transfer want = .ok (bytes, next))
    (hf : next.Faulty e) : file.Faulty e := by
  obtain ⟨distance, hfault, hle⟩ := hf
  simp only [transfer] at h
  split at h
  · cases h
  · simp only [Except.ok.injEq, Prod.mk.injEq] at h
    rw [← h.2] at hfault hle
    simp only [Option.map_eq_some_iff, Prod.mk.injEq] at hfault
    obtain ⟨⟨before, e'⟩, hbefore, hd, rfl⟩ := hfault
    have havailable : file.available want ≤ file.rest.length := by
      unfold available
      split
      · simp only
        omega
      · simp only
        omega
    rw [List.length_drop] at hle
    exact ⟨before, hbefore, by omega⟩

theorem faulty_of_transfer (h : file.transfer want = .error e) : file.Faulty e := by
  simp only [transfer] at h
  split at h
  · next hfault =>
    cases h
    exact ⟨0, hfault, Nat.zero_le _⟩
  · cases h

/-- A block that cannot be read is in a file that is faulty. -/
theorem faulty_of_readBlock (h : file.readBlock want = .error e) : file.Faulty e := by
  induction file, want using readBlock.induct with
  | case1 file => rw [readBlock] at h; cases h
  | case2 file want hw error hr =>
    rw [readBlock, dif_neg hw, hr] at h
    cases h
    exact faulty_of_transfer (readThrough_eq_transfer .. ▸ hr)
  | case3 file want hw next' hr => rw [readBlock, dif_neg hw, hr] at h; cases h
  | case4 file want hw b bytes next' hr error hf ih =>
    rw [readBlock, dif_neg hw, hr] at h
    simp only [hf] at h
    cases h
    exact (ih hf).of_transfer (readThrough_eq_transfer .. ▸ hr)
  | case5 file want hw b bytes next' hr more last hf ih =>
    rw [readBlock, dif_neg hw, hr] at h
    simp only [hf] at h
    cases h

/-- What is faulty behind a block was so before it. -/
theorem Faulty.of_readBlock (h : file.readBlock want = .ok (block, next)) (hf : next.Faulty e) :
    file.Faulty e := by
  induction file, want using readBlock.induct generalizing block next with
  | case1 file =>
    rw [readBlock] at h
    cases h
    exact hf
  | case2 file want hw error hr => rw [readBlock, dif_neg hw, hr] at h; cases h
  | case3 file want hw next' hr =>
    rw [readBlock, dif_neg hw, hr] at h
    cases h
    exact hf.of_transfer (readThrough_eq_transfer .. ▸ hr)
  | case4 file want hw b bytes next' hr error hfault ih =>
    rw [readBlock, dif_neg hw, hr] at h
    simp only [hfault] at h
    cases h
  | case5 file want hw b bytes next' hr more last hblock ih =>
    rw [readBlock, dif_neg hw, hr] at h
    simp only [hblock] at h
    cases h
    exact (ih hblock hf).of_transfer (readThrough_eq_transfer .. ▸ hr)

/-- The first block that cannot be read, going through two files side by side,
is one of the file on this side. -/
inductive Stumbles : OpenFile → OpenFile → Side → IoError → Prop where
  | left {left right : OpenFile} {e : IoError} (h : left.readBlock blockSize = .error e) :
      Stumbles left right .left e
  | right {left right left' : OpenFile} {block : List UInt8} {e : IoError}
      (hl : left.readBlock blockSize = .ok (block, left'))
      (h : right.readBlock blockSize = .error e) : Stumbles left right .right e
  | later {left right left' right' : OpenFile} {block : List UInt8} {side : Side} {e : IoError}
      (hl : left.readBlock blockSize = .ok (block, left'))
      (hr : right.readBlock blockSize = .ok (block, right')) (hne : block ≠ [])
      (h : Stumbles left' right' side e) : Stumbles left right side e

/-- **Comparing what is left of two files fails** where the first block cannot
be read. -/
theorem sameRest_eq_error :
    left.sameRest right = .error e ↔ ∃ side, Stumbles left right side e := by
  constructor
  · intro h
    induction left, right using sameRest.induct with
    | case1 left right e' hl =>
      rw [sameRest_of_error hl] at h
      cases h
      exact ⟨.left, .left hl⟩
    | case2 left right a left' hl e' hr =>
      rw [sameRest_of_ok hl, hr] at h
      cases h
      exact ⟨.right, .right hl hr⟩
    | case3 left right a left' hl b right' hr hne =>
      rw [sameRest_of_ok hl, hr] at h
      simp only [if_pos hne] at h
      cases h
    | case4 left right left' b right' hr hl heq =>
      rw [sameRest_of_ok hl, hr] at h
      simp only [if_neg heq, if_true] at h
      cases h
    | case5 left right a left' hl b right' hr heq hne ih =>
      rw [sameRest_of_ok hl, hr] at h
      simp only [if_neg heq, if_neg hne] at h
      obtain rfl := Decidable.not_not.1 heq
      obtain ⟨side, hs⟩ := ih h
      exact ⟨side, .later hl hr hne hs⟩
  · rintro ⟨side, h⟩
    induction h with
    | left h => exact sameRest_of_error h
    | right hl h => rw [sameRest_of_ok hl, h]
    | later hl hr hne _ ih =>
      rw [sameRest_of_ok hl, hr]
      simp only [ne_eq, not_true_eq_false, if_false, if_neg hne]
      exact ih

/-- The file of that side is the one that is faulty. -/
theorem Stumbles.faulty {side : Side} (h : Stumbles left right side e) :
    (side.place left right).1.Faulty e := by
  induction h with
  | left h => exact faulty_of_readBlock h
  | right hl h => exact faulty_of_readBlock h
  | @later _ _ _ _ _ side _ hl hr _ _ ih =>
    cases side with
    | left => exact ih.of_readBlock hl
    | right => exact ih.of_readBlock hr

/-- From the other side it is the same block, or one of the other file, which
is then read first. -/
theorem Stumbles.turned {side : Side} (h : Stumbles left right side e) :
    Stumbles right left side.other e ∨ side = .left ∧ ∃ e', Stumbles right left .left e' := by
  induction h with
  | @left left right _ h =>
    cases hr : right.readBlock blockSize with
    | error e' => exact Or.inr ⟨rfl, e', .left hr⟩
    | ok read => exact Or.inl (.right hr h)
  | right hl h => exact Or.inl (.left h)
  | later hl hr hne _ ih =>
    rcases ih with h | ⟨rfl, e', h⟩
    · exact Or.inl (.later hr hl hne h)
    · exact Or.inr ⟨rfl, e', .later hr hl hne h⟩

/-- A file that is compared with itself is read on the left first. -/
theorem not_stumbles_self : ¬ Stumbles file file .right e := by
  suffices h : ∀ left right side, Stumbles left right side e → left = right → side ≠ .right from
    fun hs => h file file .right hs rfl rfl
  intro left right side hs
  induction hs with
  | left h => exact fun _ => by decide
  | right hl h =>
    rintro rfl
    exact nomatch hl.symm.trans h
  | later hl hr _ _ ih =>
    rintro rfl
    cases hl.symm.trans hr
    exact ih rfl

end OpenFile

namespace FileSystem

variable {fs : FileSystem} {left right : Path} {leftLength rightLength : Nat} {e : IoError}

/-- The operation does fail, and like that. A look follows a symbolic link or
not, as links are followed or not. -/
def Fails (fs : FileSystem) (follow : Bool) (failure : Failure) : Prop :=
  match failure.operation with
  | .look => fs.stat failure.path follow = .error failure.error
  | .open => fs.openFile failure.path = .error failure.error
  | .read => ∃ file, fs.openFile failure.path = .ok file ∧ file.Faulty failure.error
  | .readLink => fs.readLink failure.path = .error failure.error

/-- What comparing the contents of two files fails with first, and on which
side: they are opened, the left one first, and then read side by side. -/
inductive ContentsFail (fs : FileSystem) (left right : Path) : Side → Failure → Prop where
  | openLeft {e : IoError} (h : fs.openFile left = .error e) :
      ContentsFail fs left right .left ⟨.open, left, e⟩
  | openRight {l : OpenFile} {e : IoError} (hl : fs.openFile left = .ok l)
      (h : fs.openFile right = .error e) : ContentsFail fs left right .right ⟨.open, right, e⟩
  | read {l r : OpenFile} {side : Side} {e : IoError} (hl : fs.openFile left = .ok l)
      (hr : fs.openFile right = .ok r) (h : OpenFile.Stumbles l r side e) :
      ContentsFail fs left right side ⟨.read, (side.place left right).1, e⟩

/-- **An error of a comparison of contents** is that of the first operation to
fail. -/
theorem sameContents_eq_error :
    fs.sameContents left leftLength right rightLength = .error e ↔
      leftLength = rightLength ∧
        ∃ side failure, fs.ContentsFail left right side failure ∧ failure.error = e := by
  unfold sameContents
  by_cases hlength : leftLength = rightLength
  · simp only [hlength, ne_eq, not_true_eq_false, if_false, true_and]
    constructor
    · intro h
      cases hl : fs.openFile left with
      | error e' =>
        simp only [hl] at h
        cases h
        exact ⟨_, _, .openLeft hl, rfl⟩
      | ok l =>
        cases hr : fs.openFile right with
        | error e' =>
          simp only [hl, hr] at h
          cases h
          exact ⟨_, _, .openRight hl hr, rfl⟩
        | ok r =>
          simp only [hl, hr] at h
          obtain ⟨side, hs⟩ := OpenFile.sameRest_eq_error.1 h
          exact ⟨_, _, .read hl hr hs, rfl⟩
    · rintro ⟨side, failure, h, rfl⟩
      cases h with
      | openLeft h => simp only [h]
      | openRight hl h => simp only [hl, h]
      | read hl hr h =>
        simp only [hl, hr]
        exact OpenFile.sameRest_eq_error.2 ⟨_, h⟩
  · simp [hlength]

/-- It is an operation on the file of that side, and it does fail. -/
theorem ContentsFail.fails {side : Side} {failure : Failure}
    (h : fs.ContentsFail left right side failure) (follow : Bool) :
    fs.Fails follow failure ∧ failure.path = (side.place left right).1 := by
  cases h with
  | openLeft h => exact ⟨h, rfl⟩
  | openRight _ h => exact ⟨h, rfl⟩
  | @read l r side e hl hr h =>
    refine ⟨?_, rfl⟩
    have hfaulty := h.faulty
    cases side with
    | left => exact ⟨l, hl, hfaulty⟩
    | right => exact ⟨r, hr, hfaulty⟩

/-- **From the other side** the contents fail with the same failure, or both
files fail at the same operation, and the one on the left is met. -/
theorem ContentsFail.turned {side : Side} {failure : Failure}
    (h : fs.ContentsFail left right side failure) :
    fs.ContentsFail right left side.other failure ∨
      side = .left ∧ ∃ failure', fs.ContentsFail right left .left failure' ∧
        failure'.operation = failure.operation := by
  cases h with
  | openLeft h =>
    cases hr : fs.openFile right with
    | error e' => exact Or.inr ⟨rfl, _, .openLeft hr, rfl⟩
    | ok r => exact Or.inl (.openRight hr h)
  | openRight hl h => exact Or.inl (.openLeft h)
  | @read l r side e hl hr h =>
    rcases h.turned with h | ⟨rfl, e', h⟩
    · have hpath : (side.place left right).1 = (side.other.place right left).1 := by
        cases side <;> rfl
      rw [hpath]
      exact Or.inl (.read hr hl h)
    · exact Or.inr ⟨rfl, _, .read hr hl h, rfl⟩

/-- No failure with a file is one of the right side of a comparison with the
same path. -/
theorem not_contentsFail_self {path : Path} {failure : Failure} :
    ¬ fs.ContentsFail path path .right failure := by
  intro h
  cases h with
  | openRight hl h => exact nomatch hl.symm.trans h
  | read hl hr h =>
    cases hl.symm.trans hr
    exact OpenFile.not_stumbles_self h

end FileSystem

end TreeCompare
