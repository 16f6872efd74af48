import Mathlib.Algebra.GroupWithZero.Nat
import Mathlib.Data.List.InsertIdx
import Mathlib.Logic.Relation
import TreeCompare.Proofs.Ordering.Tables
/-!
# Tables that are rearranged

A table made of a list of names holds them back to back, with one span for each
(`NameTable.Holds`). Whatever is done to it later, sorting it from a position on
or moving a name forward, permutes the spans and leaves the bytes alone
(`Rearranges.keeps`). So it still holds the same names, and every span that is
read lies within the bytes and covers one whole name
(`rearranged_faithful`).
-/

namespace TreeCompare

variable {names : List Name} {t t' : NameTable}

/-! ## Moving an item forward -/

section Moving

variable {α : Type} {l : List α} {target found : Nat}

theorem insertIdx_eq_take_drop (x : α) (h : target ≤ l.length) :
    l.insertIdx target x = l.take target ++ x :: l.drop target := by
  induction target generalizing l with
  | zero => rfl
  | succ n ih =>
    cases l with
    | nil => simp at h
    | cons y l =>
      rw [List.insertIdx_succ_cons, ih (Nat.le_of_succ_le_succ h)]
      rfl

theorem le_length_eraseIdx (h : target ≤ found) (hf : found < l.length) :
    target ≤ (l.eraseIdx found).length := by
  rw [List.length_eraseIdx_of_lt hf]
  omega

/-- A list put together again with one item moved forward is the list without
the item, and the item put in at the target. -/
theorem moved_eq (h : target ≤ found) (hf : found < l.length) :
    l.take target ++ (l.drop found).take 1 ++ (l.drop target).take (found - target) ++
      l.drop (found + 1) = (l.eraseIdx found).insertIdx target l[found] := by
  have hlen : target ≤ (l.take found).length := by
    rw [List.length_take]
    omega
  have hdrop : (l.eraseIdx found).drop target =
      (l.drop target).take (found - target) ++ l.drop (found + 1) := by
    rw [List.eraseIdx_eq_take_drop_succ, List.drop_append_of_le_length hlen, List.drop_take]
  rw [insertIdx_eq_take_drop _ (le_length_eraseIdx h hf),
    List.take_eraseIdx_eq_take_of_le _ _ _ h, hdrop, List.drop_eq_getElem_cons hf,
    List.take_succ_cons, List.take_zero, List.append_assoc, List.append_assoc,
    List.singleton_append]

theorem moved_perm (h : target ≤ found) (hf : found < l.length) :
    ((l.eraseIdx found).insertIdx target l[found]).Perm l :=
  (List.perm_insertIdx _ _ (le_length_eraseIdx h hf)).trans (List.getElem_cons_eraseIdx_perm hf)

end Moving

/-! ## What a table holds -/

/-- The places of names that lie back to back, the first one at `start`. -/
def spansFrom (start : Nat) : List Name → List Span
  | [] => []
  | name :: names => ⟨start, name.bytes.length⟩ :: spansFrom (start + name.bytes.length) names

/-- The name at a place, if the whole place lies within the bytes. -/
def Span.read? (span : Span) (bytes : List UInt8) : Option Name :=
  if span.start + span.length ≤ bytes.length then some (span.name bytes) else none

namespace NameTable

/-- The name at a position, with every access in range. -/
def read? (t : NameTable) (i : Nat) : Option Name := t.spans[i]?.bind (·.read? t.bytes)

/-- The table holds these names, in some order: its bytes are theirs, back to
back, and its spans are their places. -/
structure Holds (t : NameTable) (names : List Name) : Prop where
  bytes : t.bytes = names.flatMap Name.bytes
  spans : t.spans.Perm (spansFrom 0 names)

/-- Names pushed one after the other come behind what is there. -/
theorem bytes_spans_foldl (names : List Name) (t : NameTable) :
    (names.foldl push t).bytes = t.bytes ++ names.flatMap Name.bytes ∧
      (names.foldl push t).spans = t.spans ++ spansFrom t.bytes.length names := by
  induction names generalizing t with
  | nil => simp [spansFrom]
  | cons name names ih =>
    obtain ⟨hb, hs⟩ := ih (t.push name)
    rw [List.foldl_cons, hb, hs]
    simp [push, spansFrom]

theorem bytes_ofList (names : List Name) : (ofList names).bytes = names.flatMap Name.bytes :=
  (bytes_spans_foldl names empty).1

theorem spans_ofList (names : List Name) : (ofList names).spans = spansFrom 0 names :=
  (bytes_spans_foldl names empty).2

theorem holds_ofList (names : List Name) : (ofList names).Holds names :=
  ⟨bytes_ofList names, List.Perm.of_eq (spans_ofList names)⟩

/-- The places of the names give the names back. -/
theorem map_spansFrom (names : List Name) :
    (spansFrom 0 names).map (·.name (names.flatMap Name.bytes)) = names := by
  rw [← bytes_ofList, ← spans_ofList]
  exact names_ofList names

theorem Holds.names_perm (h : t.Holds names) : t.names.Perm names := by
  have hp := h.spans.map (·.name t.bytes)
  rwa [h.bytes, map_spansFrom, ← h.bytes] at hp

theorem Holds.byteCount (h : t.Holds names) :
    t.byteCount = (names.map (·.bytes.length)).sum := by
  rw [NameTable.byteCount, h.bytes, List.length_flatMap]

/-- No access is out of range: what is read at a position is the name there. -/
theorem read?_eq (t : NameTable) (i : Nat) : t.read? i = t.names[i]? := by
  rw [getElem?_names, read?, get?]
  cases hspan : t.spans[i]? with
  | none => rfl
  | some span =>
    have hin := t.within span (List.mem_of_getElem? hspan)
    simp only [Option.bind_some, Span.read?, if_pos hin, Option.map_some]

/-! ## What rearranges it -/

/-- An operation that is in range leads from one table to the other. -/
inductive Rearranges : NameTable → NameTable → Prop where
  | sort {σ : Type} {t : NameTable} {start : Nat} (order : NameOrdering σ) (s : RunState σ)
      (h : start ≤ t.size) : Rearranges t (t.sortTail start order s).1
  | bring {t : NameTable} {target found : Nat} (h : target ≤ found) (hf : found < t.size) :
      Rearranges t (t.bringForward target found)

/-- **An operation permutes the spans and leaves the bytes alone.** -/
theorem Rearranges.keeps (h : Rearranges t t') : t'.bytes = t.bytes ∧ t'.spans.Perm t.spans := by
  cases h with
  | @sort _ _ start order s h =>
    refine ⟨rfl, ?_⟩
    have hp := (order.sort_perm (·.name t.bytes) (t.spans.drop start) s).append_left
      (t.spans.take start)
    rwa [List.take_append_drop] at hp
  | @bring _ target found h hf =>
    refine ⟨rfl, ?_⟩
    simp only [bringForward]
    rw [moved_eq h hf]
    exact moved_perm h hf

theorem Holds.rearranged (hh : t.Holds names) (h : Rearranges t t') : t'.Holds names := by
  obtain ⟨hb, hs⟩ := h.keeps
  exact ⟨hb.trans hh.bytes, hs.trans hh.spans⟩

/-- **Whatever operations a table went through**, it holds what it was made of. -/
theorem holds_of_rearranged (h : Relation.ReflTransGen Rearranges (ofList names) t) :
    t.Holds names := by
  induction h with
  | refl => exact holds_ofList names
  | tail _ hstep ih => exact ih.rearranged hstep

/-- Sorting from a position on leaves the names before it in place, and permutes
the others. -/
theorem take_drop_sortTail {σ : Type} (t : NameTable) {start : Nat} (h : start ≤ t.size)
    (order : NameOrdering σ) (s : RunState σ) :
    (t.sortTail start order s).1.names.take start = t.names.take start ∧
      ((t.sortTail start order s).1.names.drop start).Perm (t.names.drop start) := by
  have hlen : (t.names.take start).length = start := by
    rw [List.length_take, length_names]
    omega
  rw [names_sortTail, List.take_left' hlen, List.drop_left' hlen]
  exact ⟨rfl, order.sort_perm id _ s⟩

/-- Moving a name forward is taking it out and putting it in there. -/
theorem names_bringForward_eq (t : NameTable) {target found : Nat} (h : target ≤ found)
    (hf : found < t.names.length) :
    (t.bringForward target found).names =
      (t.names.eraseIdx found).insertIdx target t.names[found] := by
  rw [names_bringForward, moved_eq h hf]

/-- **A table is a faithful list of names.** It gives back the names it was made
of, in their order and back to back. After any operations that are in range the
bytes are the same, every span lies within them and is the place of one of the
names, so that every name can be read, and the names are a permutation of those
it was made of. One more operation does to the list of names what it says. -/
theorem rearranged_faithful (names : List Name) :
    (ofList names).names = names ∧
    (ofList names).byteCount = (names.map (·.bytes.length)).sum ∧
    ∀ t, Relation.ReflTransGen Rearranges (ofList names) t →
      t.bytes = (ofList names).bytes ∧
      (∀ span ∈ t.spans, span.start + span.length ≤ t.byteCount) ∧
      t.spans.Perm (spansFrom 0 names) ∧
      (∀ i, t.read? i = t.names[i]?) ∧
      t.names.Perm names ∧
      (∀ {σ : Type} (order : NameOrdering σ) (s : RunState σ) (start : Nat),
        start ≤ t.size →
        (t.sortTail start order s).1.names.take start = t.names.take start ∧
          ((t.sortTail start order s).1.names.drop start).Perm (t.names.drop start)) ∧
      ∀ (target found : Nat) (hf : found < t.names.length), target ≤ found →
        (t.bringForward target found).names =
          (t.names.eraseIdx found).insertIdx target t.names[found] := by
  refine ⟨names_ofList names, (holds_ofList names).byteCount, fun t h => ?_⟩
  have hholds := holds_of_rearranged h
  refine ⟨hholds.bytes.trans (bytes_ofList names).symm, t.within, hholds.spans, t.read?_eq,
    hholds.names_perm, fun order s start hstart => t.take_drop_sortTail hstart order s,
    fun target found hf hle => t.names_bringForward_eq hle hf⟩

/-- Names one of which is empty and one of which is there twice, sorted from the
second on without regard to case, and the last one then moved to the front. -/
theorem rearranged_faithful_twice :
    let names := ["b", "", "C", "b"].map Name.ofString
    let folding : NameOrdering Unit := ⟨.ofKeying .foldAscii, true⟩
    let sorted := ((ofList names).sortTail 1 folding (.start ())).1
    let moved := sorted.bringForward 0 3
    Relation.ReflTransGen Rearranges (ofList names) moved ∧ moved.names.Perm names ∧
      sorted.names.take 1 = [.ofString "b"] ∧
      moved.names = ["C", "b", "", "b"].map Name.ofString ∧
      moved.read? 2 = some (.ofString "") ∧ moved.byteCount = 3 := by
  intro names folding sorted moved
  obtain ⟨-, hcount, hall⟩ := rearranged_faithful names
  have hsorted : Relation.ReflTransGen Rearranges (ofList names) sorted :=
    .single (.sort folding (.start ()) (by decide))
  have hmoved : Relation.ReflTransGen Rearranges (ofList names) moved :=
    hsorted.tail (.bring (Nat.zero_le 3) (by decide +kernel))
  obtain ⟨-, -, -, -, -, hsort, -⟩ := hall _ .refl
  obtain ⟨-, -, -, -, -, -, hbring⟩ := hall _ hsorted
  obtain ⟨hbytes, -, -, hread, hperm, -, -⟩ := hall _ hmoved
  refine ⟨hmoved, hperm, (hsort folding (.start ()) 1 (by decide)).1, ?_, ?_, ?_⟩
  · exact (hbring 0 3 (by decide +kernel) (Nat.zero_le 3)).trans (by decide +kernel)
  · exact (hread 2).trans (by decide +kernel)
  · exact (congrArg List.length hbytes).trans hcount

end NameTable

end TreeCompare
