import Mathlib.Algebra.Order.Group.Multiset
import Mathlib.Data.Multiset.Filter

/-!
# Programs on a heap whose requests may be refused

A heap is a list of allocated blocks under their addresses. A program has no outcome where it frees or
uses a block that is not allocated. The outcomes of its requests for memory are given to it in
advance. `Owns` says that the allocated blocks are exactly those of a ledger, so a program that is
shown to run from one ledger to another frees nothing twice, uses nothing that was freed, and loses
nothing but what the second ledger lacks.
-/

namespace Heap

abbrev Ptr := Nat

/-- The allocated blocks, the next address and the outcomes of the coming requests. -/
structure State (β : Type) where
  blocks : List (Ptr × β)
  next : Ptr
  grants : List Bool

abbrev Prog (β α : Type) := StateT (State β) Option α

variable {α β γ : Type}

/-! ## The operations -/

/-- No outcome. -/
def undefined : Prog β α := fun _ => none

/-- The outcome of the next request and those after it; past the end of the list all are granted. -/
def granted : List Bool → Bool × List Bool
  | [] => (true, [])
  | grant :: grants => (grant, grants)

theorem granted_suffix (grants : List Bool) : (granted grants).2 <:+ grants := by
  cases grants with
  | nil => exact List.suffix_refl _
  | cons grant grants => exact List.suffix_cons grant grants

theorem mem_of_refused {grants : List Bool} (h : (granted grants).1 = false) : false ∈ grants := by
  cases grants with
  | nil => cases h
  | cons grant grants => exact h ▸ List.mem_cons_self

/-- A new block, or NULL. -/
def alloc (b : β) : Prog β (Option Ptr) := fun s =>
  match granted s.grants with
  | (true, grants) => some (some s.next, ⟨(s.next, b) :: s.blocks, s.next + 1, grants⟩)
  | (false, grants) => some (none, { s with grants := grants })

/-- A new block for a request that is known to be granted. -/
def place (b : β) : Prog β Ptr := fun s =>
  some (s.next, { s with blocks := (s.next, b) :: s.blocks, next := s.next + 1 })

def read (p : Ptr) : Prog β β := fun s =>
  (s.blocks.find? fun c => c.1 = p).map fun c => (c.2, s)

def write (p : Ptr) (b : β) : Prog β Unit := fun s =>
  if s.blocks.any fun c => c.1 = p then
    some ((), { s with blocks := s.blocks.map fun c => if c.1 = p then (p, b) else c })
  else none

def free (p : Ptr) : Prog β Unit := fun s =>
  if s.blocks.any fun c => c.1 = p then
    some ((), { s with blocks := s.blocks.filter fun c => c.1 ≠ p })
  else none

/-- `free`, which does nothing to NULL. -/
def freeOpt : Option Ptr → Prog β Unit
  | none => pure ()
  | some p => free p

/-- A block that holds what `grow` makes of the block at `p`, which is freed, or of nothing. If the
request is refused the block at `p` stays. -/
def realloc (p : Option Ptr) (grow : Option β → β) : Prog β (Option Ptr) :=
  match p with
  | none => alloc (grow none)
  | some p => do
    let old ← read p
    match ← alloc (grow (some old)) with
    | none => pure none
    | some p' => do
      free p
      pure (some p')

/-! ## What a program does from a state -/

/-- The program has an outcome, and it is as `Q` says. -/
def Spec (c : Prog β α) (s : State β) (Q : α → State β → Prop) : Prop :=
  ∃ a s', c s = some (a, s') ∧ Q a s'

namespace Spec

variable {s : State β} {c : Prog β α} {Q : α → State β → Prop}

theorem pure {a : α} (h : Q a s) : Spec (Pure.pure a) s Q := ⟨a, s, rfl, h⟩

theorem mono {R : α → State β → Prop} (h : Spec c s Q) (hQR : ∀ a s', Q a s' → R a s') :
    Spec c s R := by
  obtain ⟨a, s', hrun, hQ⟩ := h
  exact ⟨a, s', hrun, hQR a s' hQ⟩

theorem bind {f : α → Prog β γ} {R : γ → State β → Prop} (h : Spec c s Q)
    (hf : ∀ a s', Q a s' → Spec (f a) s' R) : Spec (c >>= f) s R := by
  obtain ⟨a, s', hrun, hQ⟩ := h
  obtain ⟨b, s'', hrun', hR⟩ := hf a s' hQ
  refine ⟨b, s'', ?_, hR⟩
  change (c s).bind (fun r => f r.1 r.2) = _
  rw [hrun]
  exact hrun'

end Spec

/-! ## Ledgers -/

/-- One block in a ledger. -/
def cell (p : Ptr) (b : β) : Multiset (Ptr × β) := {(p, b)}

/-- The allocated blocks are those of the ledger. -/
structure Owns (s : State β) (owned : Multiset (Ptr × β)) : Prop where
  blocks : (s.blocks : Multiset (Ptr × β)) = owned
  nodup : (owned.map Prod.fst).Nodup
  fresh : ∀ c ∈ owned, c.1 < s.next

/-- Nothing is allocated at first. -/
theorem owns_start (next : Ptr) (grants : List Bool) : Owns (⟨[], next, grants⟩ : State β) 0 :=
  ⟨rfl, Multiset.nodup_zero, fun _ h => absurd h (Multiset.notMem_zero _)⟩

namespace Owns

variable {s : State β} {owned frame : Multiset (Ptr × β)} {p : Ptr} {b : β}

theorem of_eq {m : Multiset (Ptr × β)} (h : Owns s owned) (heq : owned = m) : Owns s m := heq ▸ h

theorem withGrants (h : Owns s owned) (grants : List Bool) :
    Owns { s with grants := grants } owned :=
  ⟨h.blocks, h.nodup, h.fresh⟩

theorem notMem_frame (h : Owns s (cell p b + frame)) : ∀ c ∈ frame, c.1 ≠ p := by
  intro c hc heq
  have hnodup := h.nodup
  rw [cell, Multiset.map_add, Multiset.map_singleton, Multiset.singleton_add,
    Multiset.nodup_cons] at hnodup
  exact hnodup.1 (Multiset.mem_map.mpr ⟨c, hc, heq⟩)

theorem any (h : Owns s (cell p b + frame)) : (s.blocks.any fun c => c.1 = p) = true := by
  have hmem : (p, b) ∈ s.blocks := by
    rw [← Multiset.mem_coe, h.blocks]
    exact Multiset.mem_add.mpr (.inl (Multiset.mem_singleton_self _))
  exact List.any_eq_true.mpr ⟨(p, b), hmem, decide_eq_true rfl⟩

theorem frame_lt (h : Owns s (cell p b + frame)) : ∀ c ∈ frame, c.1 < s.next :=
  fun c hc => h.fresh c (Multiset.mem_add.mpr (.inr hc))

theorem cons (h : Owns s owned) (b : β) (grants : List Bool) :
    Owns ⟨(s.next, b) :: s.blocks, s.next + 1, grants⟩ (cell s.next b + owned) := by
  refine ⟨?_, ?_, ?_⟩
  · rw [cell, Multiset.singleton_add, ← h.blocks]
    rfl
  · rw [cell, Multiset.singleton_add, Multiset.map_cons, Multiset.nodup_cons]
    refine ⟨?_, h.nodup⟩
    intro hmem
    obtain ⟨c, hc, heq⟩ := Multiset.mem_map.mp hmem
    exact absurd (h.fresh c hc) (by rw [heq]; exact lt_irrefl _)
  · intro c hc
    rw [cell, Multiset.singleton_add, Multiset.mem_cons] at hc
    rcases hc with rfl | hc
    · exact Nat.lt_succ_self _
    · exact Nat.lt_succ_of_lt (h.fresh c hc)

theorem place (h : Owns s owned) (b : β) :
    Spec (place b) s fun p s' => s'.grants = s.grants ∧ Owns s' (cell p b + owned) :=
  ⟨s.next, _, rfl, rfl, h.cons b s.grants⟩

theorem alloc (h : Owns s owned) (b : β) :
    Spec (alloc b) s fun r s' => s'.grants = (granted s.grants).2 ∧
      r.isSome = (granted s.grants).1 ∧ Owns s' (r.elim 0 (fun p => cell p b) + owned) := by
  unfold Spec Heap.alloc
  obtain ⟨grant, grants⟩ := granted s.grants
  cases grant with
  | false =>
    refine ⟨none, _, rfl, rfl, rfl, ?_⟩
    rw [Option.elim_none, zero_add]
    exact h.withGrants grants
  | true =>
    exact ⟨some s.next, _, rfl, rfl, rfl, h.cons b grants⟩

theorem read (h : Owns s (cell p b + frame)) :
    Spec (read p) s fun b' s' => b' = b ∧ s' = s := by
  have hmem : (p, b) ∈ s.blocks := by
    rw [← Multiset.mem_coe, h.blocks]
    exact Multiset.mem_add.mpr (.inl (Multiset.mem_singleton_self _))
  have hunique : ∀ c ∈ s.blocks, c.1 = p → c = (p, b) := by
    intro c hc heq
    rw [← Multiset.mem_coe, h.blocks, Multiset.mem_add] at hc
    rcases hc with hc | hc
    · exact Multiset.mem_singleton.mp hc
    · exact absurd heq (h.notMem_frame c hc)
  have hfound : (s.blocks.find? fun c => c.1 = p).isSome :=
    List.find?_isSome.mpr ⟨(p, b), hmem, by simp⟩
  obtain ⟨c, hfind⟩ := Option.isSome_iff_exists.mp hfound
  obtain rfl := hunique c (List.mem_of_find?_eq_some hfind) (by simpa using List.find?_some hfind)
  refine ⟨b, s, ?_, rfl, rfl⟩
  rw [Heap.read, hfind]
  rfl

theorem read_of_mem (h : Owns s owned) (hmem : (p, b) ∈ owned) :
    Spec (Heap.read p) s fun b' s' => b' = b ∧ s' = s := by
  obtain ⟨frame, rfl⟩ := Multiset.exists_cons_of_mem hmem
  exact (h.of_eq (Multiset.singleton_add _ _).symm).read

theorem write (h : Owns s (cell p b + frame)) (b' : β) :
    Spec (write p b') s fun _ s' => s'.grants = s.grants ∧ Owns s' (cell p b' + frame) := by
  have hframe : frame.map (fun c => if c.1 = p then (p, b') else c) = frame := by
    conv_rhs => rw [← Multiset.map_id frame]
    refine Multiset.map_congr rfl fun c hc => ?_
    rw [if_neg (h.notMem_frame c hc)]
    rfl
  refine ⟨(), { s with blocks := s.blocks.map fun c => if c.1 = p then (p, b') else c }, ?_, rfl,
    ?_, ?_, ?_⟩
  · rw [Heap.write, if_pos h.any]
  · rw [← Multiset.map_coe, h.blocks, Multiset.map_add, hframe, cell, Multiset.map_singleton,
      if_pos rfl]
    rfl
  · have hnodup := h.nodup
    rw [cell, Multiset.map_add, Multiset.map_singleton] at hnodup ⊢
    exact hnodup
  · intro c hc
    rw [Multiset.mem_add] at hc
    rcases hc with hc | hc
    · obtain rfl := Multiset.mem_singleton.mp hc
      exact h.fresh (p, b) (Multiset.mem_add.mpr (.inl (Multiset.mem_singleton_self _)))
    · exact h.frame_lt c hc

theorem free (h : Owns s (cell p b + frame)) :
    Spec (free p) s fun _ s' => s'.grants = s.grants ∧ Owns s' frame := by
  refine ⟨(), { s with blocks := s.blocks.filter fun c => c.1 ≠ p }, ?_, rfl, ?_, ?_, ?_⟩
  · rw [Heap.free, if_pos h.any]
  · have hfilter := congrArg (Multiset.filter fun c => c.1 ≠ p) h.blocks
    rw [Multiset.filter_coe, Multiset.filter_add, Multiset.filter_eq_self.mpr h.notMem_frame, cell,
      Multiset.filter_singleton, if_neg (not_not.mpr rfl)] at hfilter
    simpa using hfilter
  · have hnodup := h.nodup
    rw [cell, Multiset.map_add, Multiset.map_singleton, Multiset.singleton_add,
      Multiset.nodup_cons] at hnodup
    exact hnodup.2
  · exact h.frame_lt

/-- The block moves, or stays if the request is refused. -/
theorem realloc (h : Owns s (cell p b + frame)) (grow : Option β → β) :
    Spec (realloc (some p) grow) s fun r s' => s'.grants = (granted s.grants).2 ∧
      r.isSome = (granted s.grants).1 ∧
      Owns s' (r.elim (cell p b) (fun p' => cell p' (grow (some b))) + frame) := by
  refine h.read.bind ?_
  rintro b s ⟨rfl, rfl⟩
  refine (h.alloc (grow (some b))).bind ?_
  rintro r s₁ ⟨hgrants, hsome, h₁⟩
  cases r with
  | none =>
    rw [Option.elim_none, zero_add] at h₁
    exact .pure ⟨hgrants, hsome, h₁⟩
  | some p' =>
    rw [Option.elim_some] at h₁
    refine (h₁.of_eq (m := cell p b + (cell p' (grow (some b)) + frame)) (by ac_rfl)).free.bind ?_
    rintro _ s₂ ⟨hgrants', h₂⟩
    exact .pure ⟨hgrants'.trans hgrants, hsome, h₂⟩

/-- A pointer that is NULL or owns a block. -/
theorem freeOpt {q : Option Ptr} {block : Ptr → β}
    (h : Owns s (q.elim 0 (fun p => cell p (block p)) + frame)) :
    Spec (freeOpt q) s fun _ s' => s'.grants = s.grants ∧ Owns s' frame := by
  cases q with
  | none =>
    rw [Option.elim_none, zero_add] at h
    exact .pure ⟨rfl, h⟩
  | some p => exact h.free

end Owns

end Heap
