import Mathlib.Data.Finset.Basic

/-!
# Read-write locks

A lock is shared by its readers or belongs to one writer. Taking it is partial: it has no result
where a thread has to wait. The lock keeps who holds it, which a program does not see.
-/

/-- The state of a read-write lock. -/
inductive RwLock (ι : Type)
  | shared (readers : Finset ι)
  | exclusive (writer : ι)

namespace RwLock

variable {ι : Type} {writes : ι → Bool} {l l' : RwLock ι} {i j : ι}

/-- The lock that nobody holds. -/
def free : RwLock ι := .shared ∅

/-- The threads that hold the lock. -/
def holders : RwLock ι → Finset ι
  | .shared readers => readers
  | .exclusive writer => {writer}

/-- The readers and the writers of a lock have it as such. -/
def Respects (writes : ι → Bool) : RwLock ι → Prop
  | .shared readers => ∀ i ∈ readers, writes i = false
  | .exclusive writer => writes writer = true

@[simp] theorem holders_free : (free : RwLock ι).holders = ∅ := rfl

theorem respects_free : (free : RwLock ι).Respects writes := by
  intro i hi
  cases hi

/-- A writer holds the lock alone. -/
theorem Respects.alone (hl : l.Respects writes) (hw : writes i = true) (hi : i ∈ l.holders)
    (hj : j ∈ l.holders) : j = i := by
  cases l with
  | shared readers =>
    have hr := hl i hi
    rw [hw] at hr
    cases hr
  | exclusive w => rw [Finset.mem_singleton.mp hi, Finset.mem_singleton.mp hj]

variable [DecidableEq ι]

/-- A reader takes the lock. -/
def acquireShared (i : ι) : RwLock ι → Option (RwLock ι)
  | .shared readers => some (.shared (insert i readers))
  | .exclusive _ => none

/-- A writer takes the lock. -/
def acquireExclusive (i : ι) : RwLock ι → Option (RwLock ι)
  | .shared readers => if readers = ∅ then some (.exclusive i) else none
  | .exclusive _ => none

/-- A thread takes the lock, as a writer or as a reader. -/
def acquire (writes : Bool) (i : ι) (l : RwLock ι) : Option (RwLock ι) :=
  if writes then l.acquireExclusive i else l.acquireShared i

/-- A thread gives the lock back. -/
def release (i : ι) : RwLock ι → RwLock ι
  | .shared readers => .shared (readers.erase i)
  | .exclusive writer => if i = writer then free else .exclusive writer

/-- A writer takes a lock that nobody holds. -/
theorem acquire_writer (hw : writes i = true) (h : l.acquire (writes i) i = some l') :
    l = free ∧ l' = .exclusive i := by
  rw [acquire, if_pos hw] at h
  cases l with
  | shared readers =>
    rw [acquireExclusive] at h
    split at h
    · rename_i hnone
      rw [hnone]
      exact ⟨rfl, (Option.some.inj h).symm⟩
    · cases h
  | exclusive w => cases h

/-- A reader takes a lock that no writer holds. -/
theorem acquire_reader (hw : writes i = false) (h : l.acquire (writes i) i = some l') :
    ∃ readers, l = .shared readers ∧ l' = .shared (insert i readers) := by
  rw [acquire, if_neg (by rw [hw]; exact Bool.false_ne_true)] at h
  cases l with
  | shared readers => exact ⟨readers, rfl, (Option.some.inj h).symm⟩
  | exclusive w => cases h

/-- A thread waits for a lock only while another holds it. -/
theorem exists_holder {w : Bool} (h : l.acquire w i = none) : ∃ j, j ∈ l.holders := by
  cases l with
  | shared readers =>
    unfold acquire acquireExclusive acquireShared at h
    split at h
    · simp only at h
      split at h
      · cases h
      · rename_i hsome
        exact Finset.nonempty_iff_ne_empty.mpr hsome
    · cases h
  | exclusive w => exact ⟨w, Finset.mem_singleton_self w⟩

theorem holders_acquire (h : l.acquire (writes i) i = some l') :
    l'.holders = insert i l.holders := by
  cases hw : writes i with
  | true =>
    obtain ⟨rfl, rfl⟩ := acquire_writer hw h
    rfl
  | false =>
    obtain ⟨readers, rfl, rfl⟩ := acquire_reader hw h
    rfl

theorem Respects.acquire (hl : l.Respects writes) (h : l.acquire (writes i) i = some l') :
    l'.Respects writes := by
  cases hw : writes i with
  | true =>
    obtain ⟨rfl, rfl⟩ := acquire_writer hw h
    exact hw
  | false =>
    obtain ⟨readers, rfl, rfl⟩ := acquire_reader hw h
    intro j hj
    rcases Finset.mem_insert.mp hj with rfl | hj
    · exact hw
    · exact hl j hj

theorem holders_release : (l.release i).holders = l.holders.erase i := by
  cases l with
  | shared readers => rfl
  | exclusive w =>
    rw [release]
    split
    · rename_i h
      subst h
      exact (Finset.erase_singleton i).symm
    · rename_i h
      rw [holders, Finset.erase_eq_of_notMem]
      exact fun hi => h (Finset.mem_singleton.mp hi)

theorem Respects.release (hl : l.Respects writes) : (l.release i).Respects writes := by
  cases l with
  | shared readers => exact fun j hj => hl j (Finset.mem_of_mem_erase hj)
  | exclusive w =>
    rw [RwLock.release]
    split
    · exact respects_free
    · exact hl

end RwLock
