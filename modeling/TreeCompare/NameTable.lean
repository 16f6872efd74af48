import TreeCompare.NameOrdering
/-!
# Tables of names

The names read from one directory. All names lie back to back in one
store of bytes, and the table keeps one span for each; sorting and moving
names only permutes the spans. `NameTable.names` is the list of names that
a table stands for. A name pushed is the last one (`names_push`), those
before it stay what they were, and a table made of a list gives the list
back (`names_ofList`).
-/

namespace TreeCompare

/-- The place of a name in a store of bytes. -/
structure Span where
  start : Nat
  length : Nat
deriving DecidableEq, Repr

/-- The name at a place in a store of bytes. -/
def Span.name (span : Span) (bytes : List UInt8) : Name :=
  ⟨(bytes.drop span.start).take span.length⟩

/-- More bytes behind a span do not change its name. -/
theorem Span.name_append {span : Span} {bytes : List UInt8} (more : List UInt8)
    (h : span.start + span.length ≤ bytes.length) :
    span.name (bytes ++ more) = span.name bytes := by
  simp only [name, Name.mk.injEq]
  rw [List.drop_append_of_le_length (by omega), List.take_append_of_le_length]
  simp only [List.length_drop]
  omega

/-- Names in one store of bytes, and what they were last sorted by. -/
structure NameTable where
  bytes : List UInt8
  spans : List Span
  sortedBy : Option Basis
  /-- No span reaches beyond the bytes. -/
  within : ∀ span ∈ spans, span.start + span.length ≤ bytes.length

namespace NameTable

/-- No names, and not sorted. -/
def empty : NameTable := ⟨[], [], none, by simp⟩

/-- The table with one more name at its end. -/
def push (t : NameTable) (name : Name) : NameTable where
  bytes := t.bytes ++ name.bytes
  spans := t.spans ++ [⟨t.bytes.length, name.bytes.length⟩]
  sortedBy := t.sortedBy
  within span h := by
    simp only [List.length_append]
    rcases List.mem_append.1 h with h | h
    · exact Nat.le_trans (t.within span h) (Nat.le_add_right _ _)
    · obtain rfl := List.mem_singleton.1 h
      exact Nat.le_refl _

/-- The unsorted table of some names in their order. -/
def ofList (names : List Name) : NameTable := names.foldl push empty

/-- The names of a table in its order. -/
def names (t : NameTable) : List Name := t.spans.map (·.name t.bytes)

/-- The number of names. -/
def size (t : NameTable) : Nat := t.spans.length

/-- The number of bytes the names take. -/
def byteCount (t : NameTable) : Nat := t.bytes.length

/-- The name at a position, if there is one. -/
def get? (t : NameTable) (i : Nat) : Option Name := t.spans[i]?.map (·.name t.bytes)

/-- The table with the names from position `start` on sorted. -/
def sortTail {σ : Type} (t : NameTable) (start : Nat) (order : NameOrdering σ) (s : RunState σ) :
    NameTable × RunState σ :=
  let sorted := order.sort (·.name t.bytes) (t.spans.drop start) s
  ({ t with
      spans := t.spans.take start ++ sorted.1
      sortedBy := some sorted.2.basis
      within := fun span h => t.within span <| by
        rcases List.mem_append.1 h with h | h
        · exact List.mem_of_mem_take h
        · exact List.mem_of_mem_drop ((order.sort_perm _ _ s).mem_iff.1 h) },
    sorted.2)

/-- The table with the name at position `found` moved to position
`target`, the names between the two one place further. -/
def bringForward (t : NameTable) (target found : Nat) : NameTable :=
  { t with
    spans := t.spans.take target ++ (t.spans.drop found).take 1 ++
      (t.spans.drop target).take (found - target) ++ t.spans.drop (found + 1)
    within := fun span h => t.within span <| by
      simp only [List.mem_append] at h
      obtain ((h | h) | h) | h := h
      · exact List.mem_of_mem_take h
      · exact List.mem_of_mem_drop (List.mem_of_mem_take h)
      · exact List.mem_of_mem_drop (List.mem_of_mem_take h)
      · exact List.mem_of_mem_drop h }

@[simp] theorem names_empty : empty.names = [] := rfl

/-- A name pushed comes last, and the others stay what they were. -/
@[simp] theorem names_push (t : NameTable) (name : Name) :
    (t.push name).names = t.names ++ [name] := by
  simp only [names, push, List.map_append, List.map_cons, List.map_nil]
  congr 1
  · exact List.map_congr_left fun span h => Span.name_append _ (t.within span h)
  · simp [Span.name]

/-- A table holds the names it was made of, in their order. -/
@[simp] theorem names_ofList (names : List Name) : (ofList names).names = names := by
  suffices h : ∀ t : NameTable, (names.foldl push t).names = t.names ++ names by
    simpa [ofList] using h empty
  induction names with
  | nil => simp
  | cons name names ih => simp [ih]

@[simp] theorem length_names (t : NameTable) : t.names.length = t.size := by simp [names, size]

@[simp] theorem getElem?_names (t : NameTable) (i : Nat) : t.names[i]? = t.get? i := by
  simp [names, get?]

/-- Moving a name changes no count. -/
theorem size_bringForward {t : NameTable} {target found : Nat} (h : target ≤ found)
    (hf : found < t.size) : (t.bringForward target found).size = t.size := by
  simp only [size] at hf
  simp only [size, bringForward, List.length_append, List.length_take, List.length_drop]
  omega

/-- Sorting changes no count. -/
@[simp] theorem size_sortTail {σ : Type} (t : NameTable) (start : Nat) (order : NameOrdering σ)
    (s : RunState σ) : (t.sortTail start order s).1.size = t.size := by
  have h := (order.sort_perm (·.name t.bytes) (t.spans.drop start) s).length_eq
  simp only [List.length_drop] at h
  simp only [size, sortTail, List.length_append, List.length_take, h]
  omega

end NameTable

end TreeCompare
