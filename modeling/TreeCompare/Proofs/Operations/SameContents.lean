import TreeCompare.Contents
/-!
# What comparing contents answers

A block that is read is the next stretch of the file and ends before it is
full only where the file does (`readBlock_eq_take`), however the bytes come
in. So two files that are compared to the end are the same exactly if they
hold the same bytes (`sameRest_eq_ok`), and files without faults are compared
to the end (`sameRest_of_faultless`). Which of the two is read first decides at
most whose failure is met (`toOption_sameRest_comm`).
-/

namespace TreeCompare

namespace OpenFile

variable {file next left right : OpenFile} {want : Nat} {block : List UInt8} {same : Bool}

/-- A read that asks for bytes and gets none is at the end of the file. -/
theorem rest_of_transfer_nil (hw : want ≠ 0) (h : file.transfer want = .ok ([], next)) :
    file.rest = [] := by
  have hpos := (file.pace 0).limit_pos
  have htake : file.rest.take (file.available want) = [] ∧ file.available want ≠ 0 ∨
      file.rest = [] := by
    simp only [transfer] at h
    split at h
    · cases h
    · next hfault =>
      simp only [Except.ok.injEq, Prod.mk.injEq] at h
      by_cases hrest : file.rest = []
      · exact Or.inr hrest
      refine Or.inl ⟨h.1, ?_⟩
      have hlength := List.length_pos_iff.2 hrest
      unfold available
      cases hf : file.fault with
      | none => simp only; omega
      | some fault =>
        obtain ⟨distance, error⟩ := fault
        have hdistance : distance ≠ 0 := fun hz => hfault error (by rw [hf, hz])
        simp only
        omega
  rcases htake with ⟨htake, hne⟩ | hrest
  · exact (List.take_eq_nil_iff.1 htake).resolve_left hne
  · exact hrest

/-- A read gets no more than it asks for. -/
theorem length_le_of_transfer {bytes : List UInt8} (h : file.transfer want = .ok (bytes, next)) :
    bytes.length ≤ want := by
  simp only [transfer] at h
  split at h
  · cases h
  · simp only [Except.ok.injEq, Prod.mk.injEq] at h
    have havailable : file.available want ≤ want := by
      unfold available
      split
      · simp only
        omega
      · simp only
        omega
    rw [← h.1, List.length_take]
    omega

/-- **A block is as much of the file as was asked for**, or all that is
left. -/
theorem readBlock_eq_take (h : file.readBlock want = .ok (block, next)) :
    block = file.rest.take want := by
  induction file, want using readBlock.induct generalizing block next with
  | case1 file =>
    rw [readBlock] at h
    simp only [dite_true, Except.ok.injEq, Prod.mk.injEq] at h
    rw [← h.1, List.take_zero]
  | case2 file want hw error hr => rw [readBlock, dif_neg hw, hr] at h; simp at h
  | case3 file want hw next' hr =>
    rw [readBlock, dif_neg hw, hr] at h
    simp only [Except.ok.injEq, Prod.mk.injEq] at h
    rw [readThrough_eq_transfer] at hr
    rw [← h.1, rest_of_transfer_nil hw hr, List.take_nil]
  | case4 file want hw b bytes next' hr error hf ih =>
    rw [readBlock, dif_neg hw, hr] at h
    simp only [hf, reduceCtorEq] at h
  | case5 file want hw b bytes next' hr more last hf ih =>
    rw [readBlock, dif_neg hw, hr] at h
    simp only [hf, Except.ok.injEq, Prod.mk.injEq] at h
    rw [readThrough_eq_transfer] at hr
    rw [← h.1, ← append_rest_of_transfer hr, List.take_append, ih hf,
      List.take_of_length_le (length_le_of_transfer hr), List.length_cons]

theorem sameRest_of_error {e : IoError} (h : left.readBlock blockSize = .error e) :
    left.sameRest right = .error e := by
  rw [sameRest]
  split
  · next he => rw [h] at he; cases he; rfl
  · next he => rw [h] at he; cases he

/-- The comparison once a block of the left file is there. -/
theorem sameRest_of_ok {a : List UInt8} (h : left.readBlock blockSize = .ok (a, next)) :
    left.sameRest right = match right.readBlock blockSize with
      | .error e => .error e
      | .ok (b, right') =>
        if a ≠ b then .ok false else if a = [] then .ok true else next.sameRest right' := by
  rw [sameRest]
  split
  · next he => rw [h] at he; cases he
  · next he =>
    rw [h] at he
    cases he
    rfl

/-- **Two files that are compared to the end are the same exactly if they
hold the same bytes.** -/
theorem sameRest_eq_ok (h : left.sameRest right = .ok same) :
    same = true ↔ left.rest = right.rest := by
  induction left, right using sameRest.induct with
  | case1 left right e hl => exact nomatch (sameRest_of_error hl).symm.trans h
  | case2 left right a left' hl e hr =>
    rw [sameRest_of_ok hl, hr] at h
    cases h
  | case3 left right a left' hl b right' hr hne =>
    rw [sameRest_of_ok hl, hr] at h
    simp only [if_pos hne, Except.ok.injEq] at h
    refine iff_of_false (by rw [← h]; exact Bool.false_ne_true) fun hrest => hne ?_
    rw [readBlock_eq_take hl, readBlock_eq_take hr, hrest]
  | case4 left right left' b right' hr hl heq =>
    rw [sameRest_of_ok hl, hr] at h
    simp only [if_neg heq, if_true, Except.ok.injEq] at h
    have hempty : ∀ {rest : List UInt8}, [] = rest.take blockSize → rest = [] := fun he =>
      (List.take_eq_nil_iff.1 he.symm).resolve_left (by decide)
    rw [← Decidable.not_not.1 heq] at hr
    rw [hempty (readBlock_eq_take hl), hempty (readBlock_eq_take hr)]
    exact iff_of_true h.symm rfl
  | case5 left right a left' hl b right' hr heq hne ih =>
    rw [sameRest_of_ok hl, hr] at h
    simp only [if_neg heq, if_neg hne] at h
    rw [← append_rest_of_readBlock hl, ← append_rest_of_readBlock hr, ← Decidable.not_not.1 heq,
      List.append_cancel_left_eq]
    exact ih h

/-! ## Files without faults -/

theorem exists_transfer (h : file.fault = none) (want : Nat) :
    ∃ bytes next, file.transfer want = .ok (bytes, next) ∧ next.fault = none := by
  simp only [transfer, h, Except.ok.injEq, Prod.mk.injEq]
  exact ⟨_, _, ⟨rfl, rfl⟩, rfl⟩

/-- A file without a fault can be read. -/
theorem exists_readBlock (h : file.fault = none) (want : Nat) :
    ∃ block next, file.readBlock want = .ok (block, next) ∧ next.fault = none := by
  induction file, want using readBlock.induct with
  | case1 file =>
    rw [readBlock]
    exact ⟨[], file, rfl, h⟩
  | case2 file want hw error hr =>
    obtain ⟨bytes, next, htransfer, -⟩ := exists_transfer h want
    rw [readThrough_eq_transfer, htransfer] at hr
    cases hr
  | case3 file want hw next hr =>
    obtain ⟨bytes, next', htransfer, hnext⟩ := exists_transfer h want
    rw [readBlock, dif_neg hw, hr]
    rw [readThrough_eq_transfer, htransfer] at hr
    cases hr
    exact ⟨_, _, rfl, hnext⟩
  | case4 file want hw b bytes next hr error hf ih =>
    obtain ⟨bytes', next', htransfer, hnext⟩ := exists_transfer h want
    rw [readThrough_eq_transfer, htransfer] at hr
    cases hr
    obtain ⟨block, last, hblock, -⟩ := ih hnext
    rw [hf] at hblock
    cases hblock
  | case5 file want hw b bytes next hr more last hf ih =>
    obtain ⟨bytes', next', htransfer, hnext⟩ := exists_transfer h want
    rw [readBlock, dif_neg hw, hr]
    rw [readThrough_eq_transfer, htransfer] at hr
    cases hr
    obtain ⟨block, last', hblock, hlast⟩ := ih hnext
    rw [hf] at hblock
    cases hblock
    simp only [hf]
    exact ⟨_, _, rfl, hlast⟩

/-- **Two files without faults are compared to the end.** -/
theorem sameRest_of_faultless (hl : left.fault = none) (hr : right.fault = none) :
    left.sameRest right = .ok (decide (left.rest = right.rest)) := by
  have hends : ∃ same, left.sameRest right = .ok same := by
    induction left, right using sameRest.induct with
    | case1 left right e hread =>
      obtain ⟨block, next, hblock, -⟩ := exists_readBlock hl blockSize
      rw [hread] at hblock
      cases hblock
    | case2 left right a left' hread e hread' =>
      obtain ⟨block, next, hblock, -⟩ := exists_readBlock hr blockSize
      rw [hread'] at hblock
      cases hblock
    | case3 left right a left' hread b right' hread' hne =>
      rw [sameRest_of_ok hread, hread']
      exact ⟨false, if_pos hne⟩
    | case4 left right left' b right' hread' hread heq =>
      rw [sameRest_of_ok hread, hread']
      simp only [if_neg heq, if_true]
      exact ⟨true, rfl⟩
    | case5 left right a left' hread b right' hread' heq hne ih =>
      obtain ⟨block, next, hblock, hnext⟩ := exists_readBlock hl blockSize
      obtain ⟨block', next', hblock', hnext'⟩ := exists_readBlock hr blockSize
      rw [hread] at hblock
      rw [hread'] at hblock'
      cases hblock
      cases hblock'
      rw [sameRest_of_ok hread, hread']
      simp only [if_neg heq, if_neg hne]
      exact ih hnext hnext'
  obtain ⟨same, hsame⟩ := hends
  rw [hsame, Except.ok.injEq, Bool.eq_iff_iff, decide_eq_true_iff]
  exact sameRest_eq_ok hsame

/-- **From either side** two files are found to be the same, or not, or one
of them fails. -/
theorem toOption_sameRest_comm (left right : OpenFile) :
    (left.sameRest right).toOption = (right.sameRest left).toOption := by
  induction left, right using sameRest.induct with
  | case1 left right e hl =>
    rw [sameRest_of_error hl]
    cases hr : right.readBlock blockSize with
    | error e' => rw [sameRest_of_error hr]; rfl
    | ok block => rw [sameRest_of_ok hr, hl]
  | case2 left right a left' hl e hr =>
    rw [sameRest_of_ok hl, hr, sameRest_of_error hr]
  | case3 left right a left' hl b right' hr hne =>
    rw [sameRest_of_ok hl, sameRest_of_ok hr, hl, hr]
    simp only [if_pos hne, if_pos (Ne.symm hne)]
  | case4 left right left' b right' hr hl heq =>
    obtain rfl := Decidable.not_not.1 heq
    rw [sameRest_of_ok hl, sameRest_of_ok hr, hl, hr]
    rfl
  | case5 left right a left' hl b right' hr heq hne ih =>
    obtain rfl := Decidable.not_not.1 heq
    rw [sameRest_of_ok hl, sameRest_of_ok hr, hl, hr]
    simp only [if_neg heq, if_neg hne]
    exact ih

end OpenFile

/-- So it is with two files at their paths. -/
theorem FileSystem.toOption_sameContents_comm (fs : FileSystem) (left : Path) (leftLength : Nat)
    (right : Path) (rightLength : Nat) :
    (fs.sameContents left leftLength right rightLength).toOption =
      (fs.sameContents right rightLength left leftLength).toOption := by
  unfold sameContents
  by_cases hlength : leftLength = rightLength
  · simp only [hlength, ne_eq, not_true_eq_false, if_false]
    cases fs.openFile left with
    | error e => cases fs.openFile right <;> rfl
    | ok l =>
      cases fs.openFile right with
      | error e => rfl
      | ok r => exact OpenFile.toOption_sameRest_comm l r
  · simp only [if_pos hlength, if_pos (Ne.symm hlength)]

end TreeCompare
