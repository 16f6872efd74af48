import TreeCompare.FileSystem
/-!
# Comparing file contents

Two files are compared block by block (`OpenFile.sameRest`). A block is
filled by as many reads as it takes (`OpenFile.readBlock`), so that the pace at
which a file delivers its bytes does not matter. A file that fails before a
difference has been found fails the comparison.
-/

namespace TreeCompare

namespace OpenFile

/-- How many bytes of each file are compared at a time. -/
def blockSize : Nat := 65536

theorem interruptions_of_read {file next : OpenFile} {want : Nat}
    (h : file.read want = .interrupted next) : next.interruptions < file.interruptions := by
  simp only [read] at h
  split at h
  · next n heq =>
    simp only [ReadResult.interrupted.injEq] at h
    rw [← h, heq]
    exact Nat.lt_succ_self n
  · split at h <;> simp at h

/-- A read that is repeated until it is not interrupted. -/
def readThrough (file : OpenFile) (want : Nat) : Except IoError (List UInt8 × OpenFile) :=
  match _h : file.read want with
  | .interrupted next => next.readThrough want
  | .bytes bytes next => .ok (bytes, next)
  | .failed error => .error error
termination_by file.interruptions
decreasing_by exact interruptions_of_read _h

/-- Interruptions leave no trace. -/
theorem readThrough_eq_transfer (file : OpenFile) (want : Nat) :
    file.readThrough want = file.transfer want := by
  obtain ⟨rest, fault, pace, interruptions⟩ := file
  induction interruptions with
  | zero =>
    rw [readThrough]
    split <;> rename_i h <;> simp only [read] at h <;> split at h <;> simp_all
  | succ n ih =>
    rw [readThrough]
    split <;> rename_i h <;> simp only [read, ReadResult.interrupted.injEq, reduceCtorEq] at h
    rw [← h, ih]
    rfl

/-- Bytes that are read are the next ones of the file. -/
theorem append_rest_of_transfer {file next : OpenFile} {want : Nat} {bytes : List UInt8}
    (h : file.transfer want = .ok (bytes, next)) : bytes ++ next.rest = file.rest := by
  simp only [transfer] at h
  split at h
  · simp at h
  · simp only [Except.ok.injEq, Prod.mk.injEq] at h
    rw [← h.1, ← h.2]
    exact List.take_append_drop ..

/-- The next `want` bytes of a file, or all that are left if those are
fewer, and the file after them. -/
def readBlock (file : OpenFile) (want : Nat) : Except IoError (List UInt8 × OpenFile) :=
  if _h : want = 0 then .ok ([], file)
  else match file.readThrough want with
    | .error error => .error error
    | .ok ([], next) => .ok ([], next)
    | .ok (b :: bytes, next) =>
      match next.readBlock (want - (bytes.length + 1)) with
      | .error error => .error error
      | .ok (more, last) => .ok (b :: bytes ++ more, last)
termination_by want
decreasing_by omega

/-- A block that is filled holds the next bytes of the file. -/
theorem append_rest_of_readBlock {file last : OpenFile} {want : Nat} {block : List UInt8}
    (h : file.readBlock want = .ok (block, last)) : block ++ last.rest = file.rest := by
  induction file, want using readBlock.induct generalizing block last with
  | case1 file =>
    rw [readBlock] at h
    simp only [dite_true, Except.ok.injEq, Prod.mk.injEq] at h
    rw [← h.1, ← h.2]
    rfl
  | case2 file want hw error hr => rw [readBlock, dif_neg hw, hr] at h; simp at h
  | case3 file want hw next hr =>
    rw [readBlock, dif_neg hw, hr] at h
    simp only [Except.ok.injEq, Prod.mk.injEq] at h
    rw [readThrough_eq_transfer] at hr
    rw [← append_rest_of_transfer hr, ← h.1, ← h.2]
  | case4 file want hw b bytes next hr error hf ih =>
    rw [readBlock, dif_neg hw, hr] at h
    simp only [hf, reduceCtorEq] at h
  | case5 file want hw b bytes next hr more last' hf ih =>
    rw [readBlock, dif_neg hw, hr] at h
    simp only [hf, Except.ok.injEq, Prod.mk.injEq] at h
    rw [readThrough_eq_transfer] at hr
    rw [← append_rest_of_transfer hr, ← ih hf, ← h.1, ← h.2, List.append_assoc]

/-- Whether the contents that are left of two files are the same, going
through them block by block, the left file first. -/
def sameRest (left right : OpenFile) : Except IoError Bool :=
  match _hl : left.readBlock blockSize with
  | .error e => .error e
  | .ok (a, left') =>
    match right.readBlock blockSize with
    | .error e => .error e
    | .ok (b, right') =>
      if a ≠ b then .ok false
      -- two empty blocks: both files are at their end
      else if _ha : a = [] then .ok true
      else left'.sameRest right'
termination_by left.rest.length
decreasing_by
  rw [← append_rest_of_readBlock _hl, List.length_append]
  have := List.length_pos_iff.2 _ha
  omega

end OpenFile

namespace FileSystem

/-- Whether two regular files have the same contents, given their lengths.
Files of different lengths are not opened. -/
def sameContents (fs : FileSystem) (left : Path) (leftLength : Nat) (right : Path)
    (rightLength : Nat) : Except IoError Bool :=
  if leftLength ≠ rightLength then .ok false
  else match fs.openFile left with
    | .error e => .error e
    | .ok l =>
      match fs.openFile right with
      | .error e => .error e
      | .ok r => l.sameRest r

/-- All bytes of the file at `path`. One more is asked for than there are,
so that reading goes on up to the end. -/
def bytesAt (fs : FileSystem) (path : Path) : Except IoError (List UInt8) :=
  match fs.openFile path with
  | .error e => .error e
  | .ok file =>
    match file.readBlock (file.rest.length + 1) with
    | .error e => .error e
    | .ok (bytes, _) => .ok bytes

end FileSystem

end TreeCompare
