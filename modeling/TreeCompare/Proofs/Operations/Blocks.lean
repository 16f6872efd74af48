import TreeCompare.FileTree
import TreeCompare.Proofs.Operations.Failures
/-!
# Blocks and faults

Comparing contents goes block by block, and a fault of a file is met in the
block that its offset lies in (`OpenFile.FaultIn`), whatever the pace of the
reads before it. Two contents are told apart, or found to be the same, in one
block too (`decidingBlock`). A fault is met exactly if its block is no later
than that one and the other file has none before it (`stumbles_iff`), so the
answer of a comparison can be read off the contents and the faults
(`sameContents_blockwise`).
-/

namespace TreeCompare

/-! ## Where two contents part -/

/-- How many bytes two contents have in common before they part or end. -/
def sharedLength : List UInt8 → List UInt8 → Nat
  | a :: left, b :: right => if a = b then sharedLength left right + 1 else 0
  | _, _ => 0

@[simp] theorem sharedLength_cons_self (b : UInt8) (left right : List UInt8) :
    sharedLength (b :: left) (b :: right) = sharedLength left right + 1 := if_pos rfl

theorem sharedLength_append (bytes left right : List UInt8) :
    sharedLength (bytes ++ left) (bytes ++ right) = bytes.length + sharedLength left right := by
  induction bytes with
  | nil => simp
  | cons b bytes ih =>
    simp only [List.cons_append, sharedLength_cons_self, ih, List.length_cons]
    omega

theorem sharedLength_self (bytes : List UInt8) : sharedLength bytes bytes = bytes.length := by
  simpa [sharedLength] using sharedLength_append bytes [] []

theorem take_eq_of_le_sharedLength {left right : List UInt8} {n : Nat}
    (h : n ≤ sharedLength left right) : left.take n = right.take n := by
  induction n generalizing left right with
  | zero => rw [List.take_zero, List.take_zero]
  | succ n ih =>
    -- two contents that have a byte in common start with it
    obtain ⟨b, left', right', rfl, rfl⟩ : ∃ b left' right', left = b :: left' ∧
        right = b :: right' := by
      unfold sharedLength at h
      split at h
      · next b left' b' right' =>
        by_cases hb : b = b'
        · exact ⟨b, left', right', rfl, by rw [hb]⟩
        · rw [if_neg hb] at h
          exact absurd h (Nat.not_succ_le_zero n)
      · exact absurd h (Nat.not_succ_le_zero n)
    rw [sharedLength_cons_self] at h
    rw [List.take_succ_cons, List.take_succ_cons, ih (Nat.le_of_succ_le_succ h)]

/-- The block in which two contents first differ, or in which their end is
found if they are the same. -/
def decidingBlock (left right : List UInt8) : Nat :=
  sharedLength left right / OpenFile.blockSize

namespace OpenFile

variable {file next left right : OpenFile} {want i : Nat} {block : List UInt8} {e : IoError}

/-! ## Faults and reads -/

/-- The fault of the file behind its first `n` bytes. -/
def faultAfter (file : OpenFile) (n : Nat) : Option (Nat × IoError) :=
  file.fault.map fun (distance, error) => (distance - n, error)

theorem faultAfter_eq_some {n d : Nat} :
    file.faultAfter n = some (d, e) ↔ ∃ d', file.fault = some (d', e) ∧ d' - n = d := by
  simp only [faultAfter, Option.map_eq_some_iff, Prod.exists, Prod.mk.injEq]
  constructor
  · rintro ⟨d', e', h, hd, rfl⟩
    exact ⟨d', h, hd⟩
  · rintro ⟨d', h, hd⟩
    exact ⟨d', e, h, hd, rfl⟩

/-- What a read that completes says of the fault: it is not at the offset
reached, and the bytes that come lie before it. -/
theorem fault_of_transfer {bytes : List UInt8} (h : file.transfer want = .ok (bytes, next)) :
    next.fault = file.faultAfter bytes.length ∧
      ∀ d e, file.fault = some (d, e) → 0 < d ∧ bytes.length ≤ d := by
  simp only [transfer] at h
  split at h
  · cases h
  · next hfault =>
    simp only [Except.ok.injEq, Prod.mk.injEq] at h
    have havailable : file.available want ≤ file.rest.length ∧
        ∀ d e, file.fault = some (d, e) → file.available want ≤ d := by
      unfold available
      cases hf : file.fault with
      | none =>
        refine ⟨by simp only; omega, fun d e hd => ?_⟩
        cases hd
      | some fault =>
        refine ⟨by simp only; omega, fun d e hd => ?_⟩
        cases hd
        simp only
        omega
    have hlength : bytes.length = file.available want := by
      rw [← h.1, List.length_take]
      omega
    constructor
    · rw [← h.2, hlength]
      rfl
    · intro d e hd
      have hbefore := havailable.2 d e hd
      rcases Nat.eq_zero_or_pos d with rfl | hpos
      · exact absurd hd (hfault e)
      · omega

/-- What a block that is read says of the fault: it is not in the part that was
asked for, or lies behind the end of the file. -/
theorem fault_of_readBlock (h : file.readBlock want = .ok (block, next)) :
    next.fault = file.faultAfter block.length ∧
      ∀ d e, file.fault = some (d, e) → block.length ≤ d ∧ (want ≤ d ∨ file.rest.length < d) := by
  induction file, want using readBlock.induct generalizing block next with
  | case1 file =>
    rw [readBlock] at h
    cases h
    refine ⟨?_, fun d e hd => ⟨Nat.zero_le _, Or.inl (Nat.zero_le _)⟩⟩
    rw [faultAfter]
    cases hf : file.fault with
    | none => rfl
    | some fault => rfl
  | case2 file want hw error hr => rw [readBlock, dif_neg hw, hr] at h; cases h
  | case3 file want hw next' hr =>
    rw [readBlock, dif_neg hw, hr] at h
    cases h
    rw [readThrough_eq_transfer] at hr
    obtain ⟨hnext, hbefore⟩ := fault_of_transfer hr
    have hend := rest_of_transfer_nil hw hr
    refine ⟨hnext, fun d e hd => ⟨Nat.zero_le _, Or.inr ?_⟩⟩
    have hpos := (hbefore d e hd).1
    rw [hend, List.length_nil]
    omega
  | case4 file want hw b bytes next' hr error hf ih =>
    rw [readBlock, dif_neg hw, hr] at h
    simp only [hf] at h
    cases h
  | case5 file want hw b bytes next' hr more last hf ih =>
    rw [readBlock, dif_neg hw, hr] at h
    simp only [hf] at h
    cases h
    rw [readThrough_eq_transfer] at hr
    obtain ⟨hnext, hbefore⟩ := fault_of_transfer hr
    obtain ⟨hlast, hbehind⟩ := ih hf
    have hrest := congrArg List.length (append_rest_of_transfer hr)
    simp only [List.length_append, List.length_cons] at hrest hbefore hnext ⊢
    constructor
    · rw [hlast, faultAfter, faultAfter, hnext, faultAfter, Option.map_map]
      congr 1
      funext fault
      simp only [Function.comp_apply, Prod.mk.injEq, and_true]
      omega
    · intro d e hd
      have hle := (hbefore d e hd).2
      have hfault' : next'.fault = some (d - (bytes.length + 1), e) := by
        rw [hnext, faultAfter, hd]
        rfl
      have hmore := hbehind _ e hfault'
      omega

/-- **A block cannot be read** exactly if the file has a fault in the part that
is asked for, its end included. -/
theorem readBlock_eq_error : file.readBlock want = .error e ↔
    ∃ d, file.fault = some (d, e) ∧ d < want ∧ d ≤ file.rest.length := by
  have hfault : ∀ {e}, file.readBlock want = .error e →
      ∃ d, file.fault = some (d, e) ∧ d < want ∧ d ≤ file.rest.length := by
    intro e h
    induction file, want using readBlock.induct with
    | case1 file => rw [readBlock] at h; cases h
    | case2 file want hw error hr =>
      rw [readBlock, dif_neg hw, hr] at h
      cases h
      rw [readThrough_eq_transfer, transfer] at hr
      split at hr
      · next hf =>
        cases hr
        exact ⟨0, hf, by omega, Nat.zero_le _⟩
      · cases hr
    | case3 file want hw next' hr => rw [readBlock, dif_neg hw, hr] at h; cases h
    | case4 file want hw b bytes next' hr error hf ih =>
      rw [readBlock, dif_neg hw, hr] at h
      simp only [hf] at h
      cases h
      rw [readThrough_eq_transfer] at hr
      obtain ⟨d', hd', hlt, hle⟩ := ih hf
      obtain ⟨hnext, hbefore⟩ := fault_of_transfer hr
      rw [hnext] at hd'
      obtain ⟨d, hd, hsub⟩ := faultAfter_eq_some.1 hd'
      have hrest := congrArg List.length (append_rest_of_transfer hr)
      have hbytes := (hbefore d _ hd).2
      simp only [List.length_append, List.length_cons] at hrest hbytes hsub
      exact ⟨d, hd, by omega, by omega⟩
    | case5 file want hw b bytes next' hr more last hf ih =>
      rw [readBlock, dif_neg hw, hr] at h
      simp only [hf] at h
      cases h
  constructor
  · exact hfault
  · rintro ⟨d, hd, hlt, hle⟩
    cases hr : file.readBlock want with
    | ok result =>
      obtain ⟨block, next⟩ := result
      have hbehind := (fault_of_readBlock hr).2 d e hd
      omega
    | error e' =>
      obtain ⟨d', hd', -, -⟩ := hfault hr
      cases hd.symm.trans hd'
      rfl

/-! ## The block of a fault -/

/-- Reading the file from here on to its end comes to a fault in the block of
this number. -/
def FaultIn (file : OpenFile) (number : Nat) (e : IoError) : Prop :=
  ∃ d, file.fault = some (d, e) ∧ d ≤ file.rest.length ∧ d / blockSize = number

theorem FaultIn.unique {j : Nat} {e' : IoError} (h : file.FaultIn i e)
    (h' : file.FaultIn j e') : i = j ∧ e = e' := by
  obtain ⟨d, hd, -, rfl⟩ := h
  obtain ⟨d', hd', -, rfl⟩ := h'
  cases hd.symm.trans hd'
  exact ⟨rfl, rfl⟩

theorem faultIn_zero : file.FaultIn 0 e ↔ file.readBlock blockSize = .error e := by
  rw [readBlock_eq_error]
  have hblock : ∀ d, d / blockSize = 0 ↔ d < blockSize := fun d => by
    unfold blockSize
    omega
  constructor
  · rintro ⟨d, hd, hle, hz⟩
    exact ⟨d, hd, (hblock d).1 hz, hle⟩
  · rintro ⟨d, hd, hlt, hle⟩
    exact ⟨d, hd, hle, (hblock d).2 hlt⟩

theorem exists_block (h : ∀ e, ¬ file.FaultIn 0 e) :
    ∃ block next, file.readBlock blockSize = .ok (block, next) := by
  cases hr : file.readBlock blockSize with
  | error e => exact absurd (faultIn_zero.2 hr) (h e)
  | ok result => exact ⟨result.1, result.2, rfl⟩

/-- There are faults only behind blocks that are full. -/
theorem full_of_faultIn (h : file.readBlock blockSize = .ok (block, next))
    (hf : next.FaultIn i e) : block.length = blockSize := by
  obtain ⟨d', hd', hle, -⟩ := hf
  obtain ⟨hnext, hbehind⟩ := fault_of_readBlock h
  rw [hnext] at hd'
  obtain ⟨d, hd, rfl⟩ := faultAfter_eq_some.1 hd'
  have hfault := hbehind d e hd
  have hrest := congrArg List.length (append_rest_of_readBlock h)
  have hlength : block.length = min blockSize file.rest.length := by
    rw [readBlock_eq_take h, List.length_take]
  rw [List.length_append] at hrest
  omega

/-- Behind the first block a fault is one block nearer. -/
theorem faultIn_succ (h : file.readBlock blockSize = .ok (block, next)) :
    file.FaultIn (i + 1) e ↔ next.FaultIn i e := by
  obtain ⟨hnext, hbehind⟩ := fault_of_readBlock h
  have hrest := congrArg List.length (append_rest_of_readBlock h)
  rw [List.length_append] at hrest
  have hblock : ∀ d, blockSize ≤ d → (d / blockSize = i + 1 ↔ (d - blockSize) / blockSize = i) :=
    fun d hd => by
      unfold blockSize at hd ⊢
      omega
  constructor
  · rintro ⟨d, hd, hle, hi⟩
    have hfault := hbehind d e hd
    have hlength : block.length = min blockSize file.rest.length := by
      rw [readBlock_eq_take h, List.length_take]
    have hfull : block.length = blockSize := by omega
    refine ⟨d - blockSize, ?_, by omega, (hblock d (by omega)).1 hi⟩
    rw [hnext, hfull, faultAfter, hd]
    rfl
  · intro hf
    have hfull := full_of_faultIn h hf
    obtain ⟨d', hd', hle, hi⟩ := hf
    rw [hnext] at hd'
    obtain ⟨d, hd, rfl⟩ := faultAfter_eq_some.1 hd'
    have hfault := (hbehind d e hd).1
    rw [hfull] at hi hfault
    exact ⟨d, hd, by omega, (hblock d hfault).2 hi⟩

/-- Behind a block that both files start with, the deciding block is one block
nearer. -/
theorem decidingBlock_eq (hl : left.readBlock blockSize = .ok (block, next))
    {next' : OpenFile} (hr : right.readBlock blockSize = .ok (block, next'))
    (hfull : block.length = blockSize) :
    decidingBlock left.rest right.rest = decidingBlock next.rest next'.rest + 1 := by
  rw [decidingBlock, ← append_rest_of_readBlock hl, ← append_rest_of_readBlock hr,
    sharedLength_append, hfull, decidingBlock]
  unfold blockSize
  omega

/-! ## Which fault is met -/

/-- The fault that the comparison of two files comes to: it lies no later than
the block that decides, and the other file has none before it. Of a block, that
of the left file is read first. -/
def Meets (left right : OpenFile) (side : Side) (number : Nat) (e : IoError) : Prop :=
  (side.place left right).1.FaultIn number e ∧ number ≤ decidingBlock left.rest right.rest ∧
    ∀ j e', (side.other.place left right).1.FaultIn j e' → number < j ∨ number = j ∧ side = .left

theorem readBlock_place {left' right' : OpenFile}
    (hl : left.readBlock blockSize = .ok (block, left'))
    (hr : right.readBlock blockSize = .ok (block, right')) (side : Side) :
    (side.place left right).1.readBlock blockSize = .ok (block, (side.place left' right').1) := by
  cases side with
  | left => exact hl
  | right => exact hr

/-- Behind a block that both files start with, what is met is one block
nearer. -/
theorem meets_succ {left' right' : OpenFile} {side : Side}
    (hl : left.readBlock blockSize = .ok (block, left'))
    (hr : right.readBlock blockSize = .ok (block, right')) :
    Meets left right side (i + 1) e ↔ Meets left' right' side i e := by
  have hread := readBlock_place hl hr
  constructor
  · rintro ⟨hfault, hdeciding, hfirst⟩
    rw [faultIn_succ (hread side)] at hfault
    rw [decidingBlock_eq hl hr (full_of_faultIn (hread side) hfault)] at hdeciding
    refine ⟨hfault, by omega, fun j e' hj => ?_⟩
    exact (hfirst (j + 1) e' ((faultIn_succ (hread side.other)).2 hj)).imp (by omega)
      (And.imp_left (by omega))
  · rintro ⟨hfault, hdeciding, hfirst⟩
    have hfull := full_of_faultIn (hread side) hfault
    refine ⟨(faultIn_succ (hread side)).2 hfault, ?_, fun j e' hj => ?_⟩
    · rw [decidingBlock_eq hl hr hfull]
      omega
    · cases j with
      | zero => exact nomatch (faultIn_zero.1 hj).symm.trans (hread side.other)
      | succ j =>
        exact (hfirst j e' ((faultIn_succ (hread side.other)).1 hj)).imp (by omega)
          (And.imp_left (by omega))

/-- Before a fault that is met in a later block, both files start with the same
block. -/
theorem Meets.blocks {side : Side} (h : Meets left right side (i + 1) e) :
    ∃ block left' right', block ≠ [] ∧ left.readBlock blockSize = .ok (block, left') ∧
      right.readBlock blockSize = .ok (block, right') := by
  obtain ⟨hfault, hdeciding, hfirst⟩ := h
  have hhere : ∀ e', ¬ (side.place left right).1.FaultIn 0 e' := fun e' h0 =>
    absurd (hfault.unique h0).1 (Nat.succ_ne_zero i)
  have hthere : ∀ e', ¬ (side.other.place left right).1.FaultIn 0 e' := fun e' h0 => by
    have := hfirst 0 e' h0
    omega
  obtain ⟨hnl, hnr⟩ : (∀ e', ¬ left.FaultIn 0 e') ∧ ∀ e', ¬ right.FaultIn 0 e' := by
    cases side with
    | left => exact ⟨hhere, hthere⟩
    | right => exact ⟨hthere, hhere⟩
  obtain ⟨block, left', hl⟩ := exists_block hnl
  obtain ⟨block', right', hr⟩ := exists_block hnr
  have hshared : blockSize ≤ sharedLength left.rest right.rest := by
    unfold decidingBlock blockSize at hdeciding
    unfold blockSize
    omega
  have hblocks : block = block' := by
    rw [readBlock_eq_take hl, readBlock_eq_take hr, take_eq_of_le_sharedLength hshared]
  subst hblocks
  refine ⟨block, left', right', ?_, hl, hr⟩
  rintro rfl
  have hnext : left'.FaultIn i e ∨ right'.FaultIn i e := by
    cases side with
    | left => exact Or.inl ((faultIn_succ hl).1 hfault)
    | right => exact Or.inr ((faultIn_succ hr).1 hfault)
  rcases hnext with hnext | hnext
  · exact absurd (full_of_faultIn hl hnext) (by decide)
  · exact absurd (full_of_faultIn hr hnext) (by decide)

/-- **The failure of a comparison** is a fault that lies no later than the
block that decides and that no other comes before. -/
theorem stumbles_iff {side : Side} :
    Stumbles left right side e ↔ ∃ number, Meets left right side number e := by
  constructor
  · intro h
    induction h with
    | left h =>
      exact ⟨0, faultIn_zero.2 h, Nat.zero_le _, fun j e' _ =>
        (Nat.eq_zero_or_pos j).symm.imp id fun hj => ⟨hj.symm, rfl⟩⟩
    | right hl h =>
      refine ⟨0, faultIn_zero.2 h, Nat.zero_le _, fun j e' hj => Or.inl ?_⟩
      rcases Nat.eq_zero_or_pos j with rfl | hpos
      · exact nomatch (faultIn_zero.1 hj).symm.trans hl
      · exact hpos
    | later hl hr _ _ ih =>
      obtain ⟨i, h⟩ := ih
      exact ⟨i + 1, (meets_succ hl hr).2 h⟩
  · rintro ⟨number, h⟩
    induction number generalizing left right with
    | zero =>
      obtain ⟨hfault, -, hfirst⟩ := h
      cases side with
      | left => exact .left (faultIn_zero.1 hfault)
      | right =>
        have hleft : ∀ e', ¬ left.FaultIn 0 e' := fun e' h0 => by
          rcases hfirst 0 e' h0 with hlt | ⟨-, hside⟩
          · omega
          · cases hside
        obtain ⟨block, left', hl⟩ := exists_block hleft
        exact .right hl (faultIn_zero.1 hfault)
    | succ i ih =>
      obtain ⟨block, left', right', hne, hl, hr⟩ := h.blocks
      exact .later hl hr hne (ih ((meets_succ hl hr).1 h))

/-- If some fault lies no later than the block that decides, one is met. -/
theorem exists_meets {side : Side} (h : (side.place left right).1.FaultIn i e)
    (hdeciding : i ≤ decidingBlock left.rest right.rest) :
    ∃ side' number e', Meets left right side' number e' := by
  by_cases hfirst : ∀ j e', (side.other.place left right).1.FaultIn j e' →
      i < j ∨ i = j ∧ side = .left
  · exact ⟨side, i, e, h, hdeciding, hfirst⟩
  · simp only [Classical.not_forall, not_or, not_and, Nat.not_lt] at hfirst
    obtain ⟨j, e', hj, hle, hside⟩ := hfirst
    refine ⟨side.other, j, e', hj, by omega, fun k e'' hk => ?_⟩
    have hback : side.other.other = side := by cases side <;> rfl
    rw [hback] at hk
    obtain rfl := (h.unique hk).1
    rcases Nat.lt_or_eq_of_le hle with hlt | rfl
    · exact Or.inl hlt
    · refine Or.inr ⟨rfl, ?_⟩
      cases side with
      | left => exact absurd rfl (hside rfl)
      | right => rfl

theorem sameRest_eq_error_iff_meets :
    left.sameRest right = .error e ↔ ∃ side number, Meets left right side number e := by
  rw [sameRest_eq_error]
  exact exists_congr fun side => stumbles_iff

/-- Comparing goes by the contents where no fault is met. -/
theorem sameRest_of_no_fault
    (h : ∀ (side : Side) number e, (side.place left right).1.FaultIn number e →
      decidingBlock left.rest right.rest < number) :
    left.sameRest right = .ok (decide (left.rest = right.rest)) := by
  cases hsame : left.sameRest right with
  | error e =>
    obtain ⟨side, number, hfault, hdeciding, -⟩ := sameRest_eq_error_iff_meets.1 hsame
    have := h side number e hfault
    omega
  | ok same =>
    rw [Except.ok.injEq, Bool.eq_iff_iff, decide_eq_true_iff]
    exact sameRest_eq_ok hsame

/-- The pace of the reads does not matter. -/
theorem sameRest_congr {left' right' : OpenFile} (hleft : left'.rest = left.rest)
    (hleft' : left'.fault = left.fault) (hright : right'.rest = right.rest)
    (hright' : right'.fault = right.fault) : left'.sameRest right' = left.sameRest right := by
  have hmeets : ∀ side number e, Meets left' right' side number e ↔
      Meets left right side number e := fun side number e => by
    cases side <;>
      simp only [Meets, FaultIn, Side.place, Side.other, hleft, hleft', hright, hright']
  have herror : ∀ e, left'.sameRest right' = .error e ↔ left.sameRest right = .error e :=
    fun e => by
      simp only [sameRest_eq_error_iff_meets, hmeets]
  cases h : left.sameRest right with
  | error e => exact (herror e).2 h
  | ok same =>
    cases h' : left'.sameRest right' with
    | error e => exact nomatch h.symm.trans ((herror e).1 h')
    | ok same' =>
      rw [Except.ok.injEq, Bool.eq_iff_iff, sameRest_eq_ok h, sameRest_eq_ok h', hleft, hright]

end OpenFile

namespace FileSystem

variable {fs : FileSystem} {left right : Path} {l r : OpenFile}

/-- **Comparing contents, block by block.** Two files that can be opened are
the same if their lengths are and their bytes are; it fails, with lengths that
are the same, exactly if one of them has a fault no later than the block in
which they first differ, or end, and then with the first such fault. The pace
of the reads does not matter. -/
theorem sameContents_blockwise (hl : fs.openFile left = .ok l) (hr : fs.openFile right = .ok r) :
    (∀ n m,
      (n = m → ∀ (side : Side) number e, (side.place l r).1.FaultIn number e →
        decidingBlock l.rest r.rest < number) →
      fs.sameContents left n right m = .ok (decide (n = m ∧ l.rest = r.rest))) ∧
    (∀ n, (∃ e, fs.sameContents left n right n = .error e) ↔
      ∃ (side : Side) (number : Nat) (e : IoError), (side.place l r).1.FaultIn number e ∧
        number ≤ decidingBlock l.rest r.rest) ∧
    (∀ n e, fs.sameContents left n right n = .error e ↔
      ∃ side number, OpenFile.Meets l r side number e) ∧
    ∀ (fs' : FileSystem) l' r', fs'.openFile left = .ok l' → fs'.openFile right = .ok r' →
      l'.rest = l.rest → l'.fault = l.fault → r'.rest = r.rest → r'.fault = r.fault →
      ∀ n m, fs'.sameContents left n right m = fs.sameContents left n right m := by
  have hsame : ∀ n, fs.sameContents left n right n = l.sameRest r := fun n => by
    simp only [sameContents, ne_eq, not_true_eq_false, if_false, hl, hr]
  refine ⟨fun n m hfaults => ?_, fun n => ?_, fun n e => ?_, ?_⟩
  · by_cases hlength : n = m
    · subst hlength
      rw [hsame, OpenFile.sameRest_of_no_fault (hfaults rfl)]
      simp only [true_and]
    · simp [sameContents, hlength]
  · rw [hsame]
    constructor
    · rintro ⟨e, he⟩
      obtain ⟨side, number, hmeets⟩ := OpenFile.sameRest_eq_error_iff_meets.1 he
      exact ⟨side, number, e, hmeets.1, hmeets.2.1⟩
    · rintro ⟨side, number, e, hfault, hdeciding⟩
      obtain ⟨side', number', e', hmeets⟩ := OpenFile.exists_meets hfault hdeciding
      exact ⟨e', OpenFile.sameRest_eq_error_iff_meets.2 ⟨side', number', hmeets⟩⟩
  · rw [hsame]
    exact OpenFile.sameRest_eq_error_iff_meets
  · intro fs' l' r' hl' hr' hrest hfault hrest' hfault' n m
    by_cases hlength : n = m
    · subst hlength
      rw [hsame, ← OpenFile.sameRest_congr hrest hfault hrest' hfault']
      simp only [sameContents, ne_eq, not_true_eq_false, if_false, hl', hr']
    · simp [sameContents, hlength]

/-- A file that delivers a byte more with each read and fails from its second
block on, one that is like it but does not fail, and one that is empty. -/
def pacedTree (bytes : List UInt8) : FileTree where
  objects := [
    { content := .directory 0 [(.ofString "failing", 1), (.ofString "whole", 2),
        (.ofString "empty", 3)] none },
    { content := .regular bytes
      faults := { failAt := some 65536, pace := fun i => ⟨i, i + 1, Nat.succ_pos i⟩ } },
    { content := .regular bytes },
    { content := .regular [] }]
  root := 0
  current := 0

/-- The fault is met only where the second block is read. -/
theorem sameContents_blockwise_pacedTree :
    let fs := (pacedTree (List.replicate 70000 0)).fileSystem
    fs.sameContents (.ofString "failing") 1 (.ofString "empty") 1 = .ok false ∧
      ∃ e, fs.sameContents (.ofString "failing") 1 (.ofString "whole") 1 = .error e := by
  suffices h : ∀ bytes : List UInt8, bytes.length = 70000 →
      let fs := (pacedTree bytes).fileSystem
      fs.sameContents (.ofString "failing") 1 (.ofString "empty") 1 = .ok false ∧
        ∃ e, fs.sameContents (.ofString "failing") 1 (.ofString "whole") 1 = .error e from
    h _ List.length_replicate
  intro bytes hlength fs
  have hfailing : fs.openFile (.ofString "failing") = .ok
      (.start bytes (some (65536, .inputOutput)) fun i => ⟨i, i + 1, Nat.succ_pos i⟩) := rfl
  have hwhole : fs.openFile (.ofString "whole") = .ok (.start bytes none fun _ => .steady) := rfl
  have hempty : fs.openFile (.ofString "empty") = .ok (.start [] none fun _ => .steady) := rfl
  constructor
  · refine ((sameContents_blockwise hfailing hempty).1 1 1 fun _ side number e h => ?_).trans ?_
    · obtain ⟨d, hd, -, rfl⟩ := h
      cases side with
      | left =>
        cases hd
        have hzero : decidingBlock bytes [] = 0 := by simp [decidingBlock, sharedLength]
        exact hzero ▸ (by decide)
      | right => cases hd
    · refine congrArg Except.ok (decide_eq_false fun h => ?_)
      rw [show bytes = [] from h.2, List.length_nil] at hlength
      omega
  · refine ((sameContents_blockwise hfailing hwhole).2.1 1).2
      ⟨.left, 1, .inputOutput, ⟨65536, rfl, ?_, rfl⟩, ?_⟩
    · show 65536 ≤ bytes.length
      omega
    · show 1 ≤ sharedLength bytes bytes / OpenFile.blockSize
      rw [sharedLength_self, hlength]
      decide

end FileSystem

end TreeCompare
