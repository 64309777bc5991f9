import Mathlib.Data.Nat.ModEq
import JungleDb.Lib.CArray

/-!
# Ring buffers

A ring buffer keeps a list of at most `n` elements in an array of `n` cells: from `head` on, over the
end of the array. A push appends to the list and a pop takes its first element, wherever the list
stands in the array.
-/

open CArray

/-- The cells, the index of the first element, the index behind the last one, and their number. -/
structure RingBuffer (α : Type) (n : Nat) where
  items : Vector α n
  head : Nat
  tail : Nat
  count : Nat

namespace RingBuffer

variable {α : Type} [Inhabited α] {n : Nat}

/-- No elements. -/
def empty : RingBuffer α n := ⟨Vector.replicate n default, 0, 0, 0⟩

/-- `items[tail] = a; tail = (tail + 1) % n; count++;` -/
def push (r : RingBuffer α n) (a : α) : RingBuffer α n :=
  { r with items := wr r.items r.tail a, tail := (r.tail + 1) % n, count := r.count + 1 }

/-- `items[head]` -/
def front (r : RingBuffer α n) : α := rd r.items r.head

/-- `head = (head + 1) % n; count--;` -/
def pop (r : RingBuffer α n) : RingBuffer α n :=
  { r with head := (r.head + 1) % n, count := r.count - 1 }

/-- The ring keeps the list. -/
structure Represents (r : RingBuffer α n) (l : List α) : Prop where
  fits : l.length ≤ n
  count : r.count = l.length
  head : r.head < n
  tail : r.tail = (r.head + l.length) % n
  items : ∀ {i : Nat} {a : α}, l[i]? = some a → rd r.items ((r.head + i) % n) = a

/-- Two offsets below `n` lead to different cells. -/
theorem offset_inj {start i j : Nat} (hi : i < n) (hj : j < n)
    (h : (start + i) % n = (start + j) % n) : i = j := by
  have hmod : i ≡ j [MOD n] := Nat.ModEq.add_left_cancel' start h
  exact Nat.ModEq.eq_of_lt_of_lt hmod hi hj

theorem represents_empty (hn : 0 < n) : (empty : RingBuffer α n).Represents [] where
  fits := Nat.zero_le n
  count := rfl
  head := hn
  tail := (Nat.mod_eq_of_lt hn).symm
  items := nofun

variable {r : RingBuffer α n} {l : List α} {a : α}

theorem Represents.push (h : r.Represents l) (hroom : l.length < n) (a : α) :
    (r.push a).Represents (l ++ [a]) where
  fits := by
    rw [List.length_append]
    exact hroom
  count := by
    rw [List.length_append, ← h.count]
    rfl
  head := h.head
  tail := by
    show (r.tail + 1) % n = (r.head + (l ++ [a]).length) % n
    rw [h.tail, Nat.mod_add_mod, List.length_append, Nat.add_assoc]
    rfl
  items := by
    intro i b hb
    show rd (wr r.items r.tail a) ((r.head + i) % n) = b
    have hn : 0 < n := Nat.zero_lt_of_lt hroom
    have htail : r.tail < n := h.tail ▸ Nat.mod_lt _ hn
    rw [rd_wr _ _ _ _ htail, h.tail]
    rcases Nat.lt_trichotomy i l.length with hi | rfl | hi
    · have hne : (r.head + i) % n ≠ (r.head + l.length) % n := by
        intro heq
        exact absurd (offset_inj (Nat.lt_trans hi hroom) hroom heq) (Nat.ne_of_lt hi)
      rw [List.getElem?_append_left hi] at hb
      rw [if_neg hne]
      exact h.items hb
    · rw [List.getElem?_concat_length] at hb
      rw [if_pos rfl]
      exact Option.some.inj hb
    · rw [List.getElem?_eq_none (by rw [List.length_append]; exact hi)] at hb
      cases hb

theorem Represents.front (h : r.Represents (a :: l)) : r.front = a := by
  have hfirst := @Represents.items _ _ _ _ _ h 0 a rfl
  rw [Nat.add_zero, Nat.mod_eq_of_lt h.head] at hfirst
  exact hfirst

theorem Represents.pop (h : r.Represents (a :: l)) : r.pop.Represents l where
  fits := Nat.le_of_succ_le h.fits
  count := by
    show r.count - 1 = l.length
    rw [h.count]
    rfl
  head := Nat.mod_lt _ (Nat.zero_lt_of_lt h.head)
  tail := by
    show r.tail = ((r.head + 1) % n + l.length) % n
    rw [h.tail, Nat.mod_add_mod, List.length_cons, Nat.add_assoc, Nat.add_comm 1]
  items := by
    intro i b hb
    show rd r.items (((r.head + 1) % n + i) % n) = b
    rw [Nat.mod_add_mod, Nat.add_assoc, Nat.add_comm 1]
    exact h.items hb

theorem Represents.count_eq_zero (h : r.Represents l) : r.count = 0 ↔ l = [] := by
  rw [h.count, List.length_eq_zero_iff]

end RingBuffer
