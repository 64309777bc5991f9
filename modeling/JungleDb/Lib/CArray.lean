import Mathlib.Data.Vector.Defs
import Mathlib.Data.List.InsertIdx

/-!
# Fixed-size C arrays

`Vector α n` is a C array `α a[n]`: reads and writes by index (`rd`, `wr`), and the
index loops that C programs write by hand (shift up to open a slot, merge one element into a
copy, copy a range down). `Holds a l` says that the first `l.length` cells of `a` are the list
`l`; each loop has one lemma that says which list the array holds afterwards.
-/

namespace CArray

variable {α : Type} [Inhabited α] {n m : Nat}

/-- `a[i]` (the default value outside the declared bound). -/
def rd (a : Vector α n) (i : Nat) : α := a[i]?.getD default

/-- `a[i] = x;` (nothing is stored outside the declared bound). -/
def wr (a : Vector α n) (i : Nat) (x : α) : Vector α n := a.setIfInBounds i x

theorem rd_wr (a : Vector α n) (i j : Nat) (x : α) (hi : i < n) :
    rd (wr a i x) j = if j = i then x else rd a j := by
  unfold rd wr
  rw [Vector.getElem?_setIfInBounds]
  by_cases h : i = j
  · subst h; simp [hi]
  · simp [h, Ne.symm h]

@[simp] theorem rd_wr_self (a : Vector α n) (i : Nat) (x : α) (hi : i < n) :
    rd (wr a i x) i = x := by
  rw [rd_wr a i i x hi, if_pos rfl]

theorem rd_wr_ne (a : Vector α n) {i j : Nat} (x : α) (h : j ≠ i) :
    rd (wr a i x) j = rd a j := by
  unfold rd wr
  rw [Vector.getElem?_setIfInBounds, if_neg (Ne.symm h)]

@[simp] theorem rd_replicate (i : Nat) : rd (Vector.replicate n (default : α)) i = default := by
  unfold rd
  rw [Vector.getElem?_replicate]
  split <;> rfl

theorem rd_of_le (a : Vector α n) {i : Nat} (h : n ≤ i) : rd a i = default := by
  unfold rd
  rw [Vector.getElem?_eq_none h]
  rfl

/-! ## The loops -/

/-- `for (i = hi; i > lo; i--) a[i] = a[i - 1];` -/
def shiftUp (lo : Nat) : Nat → Vector α n → Vector α n
  | 0, a => a
  | hi + 1, a => if lo < hi + 1 then shiftUp lo hi (wr a (hi + 1) (rd a hi)) else a

/-- `for (; todo > 0; i++) { if (i == pos) { t[i] = x; continue; } t[i] = src[j]; j++; }`:
merge `x` at position `pos` into a copy of `src`. -/
def splice (src : Vector α n) (pos : Nat) (x : α) : Nat → Nat → Nat → Vector α m → Vector α m
  | 0, _, _, t => t
  | todo + 1, i, j, t =>
    if i = pos then splice src pos x todo (i + 1) j (wr t i x)
    else splice src pos x todo (i + 1) (j + 1) (wr t i (rd src j))

/-- `for (; todo > 0; i++, j++) dst[j] = src[i];` -/
def copyDown (src : Vector α n) : Nat → Nat → Nat → Vector α m → Vector α m
  | 0, _, _, dst => dst
  | todo + 1, i, j, dst => copyDown src todo (i + 1) (j + 1) (wr dst j (rd src i))

theorem rd_shiftUp (lo : Nat) : ∀ (hi : Nat) (a : Vector α n) (j : Nat), hi < n →
    rd (shiftUp lo hi a) j = if lo < j ∧ j ≤ hi then rd a (j - 1) else rd a j := by
  intro hi
  induction hi with
  | zero =>
    intro a j _
    rw [shiftUp, if_neg (by omega)]
  | succ hi ih =>
    intro a j hn
    rw [shiftUp]
    split
    · rw [ih _ j (by omega)]
      by_cases hj : lo < j ∧ j ≤ hi
      · rw [if_pos hj, if_pos (by omega), rd_wr_ne _ _ (by omega)]
      · rw [if_neg hj, rd_wr _ _ _ _ hn]
        by_cases hjs : j = hi + 1
        · subst hjs; rw [if_pos rfl, if_pos (by omega)]; rfl
        · rw [if_neg hjs, if_neg (by omega)]
    · rw [if_neg (by omega)]

theorem rd_splice (src : Vector α n) (pos : Nat) (x : α) :
    ∀ (todo i j : Nat) (t : Vector α m) (k : Nat), i + todo ≤ m →
      (j = if i ≤ pos then i else i - 1) →
      rd (splice src pos x todo i j t) k =
        if i ≤ k ∧ k < i + todo then
          if k < pos then rd src k else if k = pos then x else rd src (k - 1)
        else rd t k := by
  intro todo
  induction todo with
  | zero =>
    intro i j t k _ _
    rw [splice, if_neg (by omega)]
  | succ todo ih =>
    intro i j t k hm hj
    rw [splice]
    split
    · rename_i hip
      rw [ih (i + 1) j _ k (by omega) (by rw [hj]; split <;> split <;> omega),
        rd_wr _ _ _ _ (by omega)]
      by_cases hk : k = i
      · subst hk; rw [if_neg (by omega), if_pos rfl, if_pos (by omega), if_neg (by omega), if_pos hip]
      · simp only [if_neg hk]
        by_cases hr : i + 1 ≤ k ∧ k < i + 1 + todo
        · rw [if_pos hr, if_pos (show i ≤ k ∧ k < i + (todo + 1) by omega)]
        · rw [if_neg hr, if_neg (by omega)]
    · rename_i hip
      rw [ih (i + 1) (j + 1) _ k (by omega) (by rw [hj]; split <;> split <;> omega),
        rd_wr _ _ _ _ (by omega)]
      by_cases hk : k = i
      · subst hk
        rw [if_neg (by omega), if_pos rfl, if_pos (by omega)]
        by_cases hkp : k ≤ pos
        · rw [if_pos hkp] at hj
          rw [if_pos (by omega), hj]
        · rw [if_neg hkp] at hj
          rw [if_neg (by omega), if_neg hip, hj]
      · simp only [if_neg hk]
        by_cases hr : i + 1 ≤ k ∧ k < i + 1 + todo
        · rw [if_pos hr, if_pos (show i ≤ k ∧ k < i + (todo + 1) by omega)]
        · rw [if_neg hr, if_neg (by omega)]

theorem rd_copyDown (src : Vector α n) : ∀ (todo i j : Nat) (dst : Vector α m) (k : Nat),
    j + todo ≤ m →
      rd (copyDown src todo i j dst) k =
        if j ≤ k ∧ k < j + todo then rd src (i + (k - j)) else rd dst k := by
  intro todo
  induction todo with
  | zero =>
    intro i j dst k _
    rw [copyDown, if_neg (by omega)]
  | succ todo ih =>
    intro i j dst k hm
    rw [copyDown, ih (i + 1) (j + 1) _ k (by omega), rd_wr _ _ _ _ (by omega)]
    by_cases hk : k = j
    · subst hk; rw [if_neg (by omega), if_pos rfl, if_pos (by omega)]; simp
    · rw [if_neg hk]
      by_cases hr : j + 1 ≤ k ∧ k < j + 1 + todo
      · rw [if_pos hr, if_pos (by omega)]
        congr 1; omega
      · rw [if_neg hr, if_neg (by omega)]

/-! ## The list an array holds -/

/-- The first `l.length` cells of `a` are the list `l`. -/
def Holds (a : Vector α n) (l : List α) : Prop :=
  ∀ (j : Nat) (h : j < l.length), rd a j = l[j]

theorem Holds.nil (a : Vector α n) : Holds a [] := fun _ h => absurd h (Nat.not_lt_zero _)

theorem Holds.take {a : Vector α n} {l : List α} (h : Holds a l) (k : Nat) : Holds a (l.take k) := by
  intro j hj
  rw [List.getElem_take]
  exact h j (by simp at hj; omega)

theorem Holds.map_rd {a : Vector α n} {l : List α} (h : Holds a l) :
    (List.range l.length).map (rd a) = l := by
  refine List.ext_getElem (by simp) fun j h₁ h₂ => ?_
  rw [List.getElem_map, List.getElem_range]
  exact h j h₂

/-- A search loop over the held cells searches the list. -/
theorem Holds.findIdx {a : Vector α n} {l : List α} (h : Holds a l) (f : α → Bool) :
    (List.range l.length).findIdx (fun i => f (rd a i)) = l.findIdx f := by
  conv_rhs => rw [← h.map_rd, List.findIdx_map]
  rfl

/-- A search loop in one array for an index into another is a lookup. -/
theorem Holds.lookup {β : Type} [Inhabited β] [BEq α] [LawfulBEq α] {a : Vector α n}
    {b : Vector β m} {l : List (α × β)} (ha : Holds a (l.map Prod.fst))
    (hb : Holds b (l.map Prod.snd)) (x : α) :
    ((List.range l.length).find? fun i => rd a i == x).map (rd b) = l.lookup x := by
  have hl : l = (List.range l.length).map fun i => (rd a i, rd b i) := by
    refine List.ext_getElem (by simp) fun j h₁ h₂ => ?_
    rw [List.getElem_map, List.getElem_range, ha j (by simpa using h₁), hb j (by simpa using h₁),
      List.getElem_map, List.getElem_map]
  conv_rhs => rw [hl]
  induction List.range l.length with
  | nil => rfl
  | cons i is ih =>
    rw [List.find?_cons, List.map_cons, List.lookup_cons, BEq.comm, ← ih]
    cases x == rd a i <;> rfl

/-- Opening a slot with `shiftUp` and writing into it inserts into the list. -/
theorem Holds.insert {a : Vector α n} {l : List α} (h : Holds a l) (pos : Nat) (x : α)
    (hpos : pos ≤ l.length) (hn : l.length < n) :
    Holds (wr (shiftUp pos l.length a) pos x) (l.insertIdx pos x) := by
  intro j hj
  rw [List.length_insertIdx_of_le_length hpos] at hj
  rw [rd_wr _ _ _ _ (by omega), rd_shiftUp _ _ _ _ hn, List.getElem_insertIdx]
  by_cases h1 : j < pos
  · rw [if_neg (by omega), if_neg (by omega), dif_pos h1]
    exact h j (by omega)
  · by_cases h2 : j = pos
    · rw [if_pos h2, dif_neg h1, dif_pos h2]
    · rw [if_neg h2, if_pos (by omega), dif_neg h1, dif_neg h2]
      exact h (j - 1) (by omega)

/-- Merging `x` into a copy inserts it into the list. -/
theorem Holds.splice {src : Vector α n} {l : List α} (h : Holds src l) (pos : Nat) (x : α)
    (hpos : pos ≤ l.length) (t : Vector α m) (hm : l.length + 1 ≤ m) :
    Holds (splice src pos x (l.length + 1) 0 0 t) (l.insertIdx pos x) := by
  intro j hj
  rw [List.length_insertIdx_of_le_length hpos] at hj
  rw [rd_splice src pos x _ _ _ _ _ (by omega) (by split <;> omega), if_pos (by omega),
    List.getElem_insertIdx]
  by_cases h1 : j < pos
  · rw [if_pos h1, dif_pos h1]
    exact h j (by omega)
  · by_cases h2 : j = pos
    · rw [if_neg h1, if_pos h2, dif_neg h1, dif_pos h2]
    · rw [if_neg h1, if_neg h2, dif_neg h1, dif_neg h2]
      exact h (j - 1) (by omega)

/-- Copying `todo` cells from `i` on leaves that part of the list in the destination. -/
theorem Holds.copyDown {src : Vector α n} {l : List α} (h : Holds src l) (todo i : Nat)
    (dst : Vector α m) (hm : todo ≤ m) :
    Holds (copyDown src todo i 0 dst) ((l.drop i).take todo) := by
  intro j hj
  rw [List.length_take, List.length_drop] at hj
  rw [rd_copyDown _ _ _ _ _ _ (by omega), if_pos (by omega), List.getElem_take, List.getElem_drop]
  exact h (i + j) (by omega)

/-! ## Arrays of pointers, NULL after the last one -/

section Slots

variable {β : Type}

/-- The cells of `a` are exactly the pointers of `l`, and NULL after them. -/
def Slots (a : Vector (Option β) n) (l : List β) : Prop := ∀ j, rd a j = l[j]?

theorem Slots.nil : Slots (Vector.replicate n (none : Option β)) [] := by
  intro j
  exact rd_replicate j

theorem Slots.length_le {a : Vector (Option β) n} {l : List β} (h : Slots a l) : l.length ≤ n := by
  by_contra hn
  have hj := h n
  rw [rd_of_le a (Nat.le_refl n), List.getElem?_eq_getElem (by omega)] at hj
  cases hj

theorem Slots.holds {a : Vector (Option β) n} {l : List β} (h : Slots a l) :
    Holds a (l.map some) := by
  intro j hj
  rw [List.length_map] at hj
  rw [h j, List.getElem_map, List.getElem?_eq_getElem hj]

/-- Opening a slot and writing a pointer into it inserts into the list. -/
theorem Slots.insert {a : Vector (Option β) n} {l : List β} (h : Slots a l) (pos : Nat) (x : β)
    (hpos : pos ≤ l.length) (hn : l.length < n) :
    Slots (wr (shiftUp pos l.length a) pos (some x)) (l.insertIdx pos x) := by
  intro j
  rw [rd_wr _ _ _ _ (by omega), rd_shiftUp _ _ _ _ hn, List.getElem?_insertIdx]
  by_cases h1 : j < pos
  · rw [if_neg (by omega), if_neg (by omega), if_pos h1, h j]
  · by_cases h2 : j = pos
    · rw [if_pos h2, if_neg h1, if_pos h2, if_pos (by omega)]
    · rw [if_neg h2, if_neg h1, if_neg h2]
      by_cases h3 : j ≤ l.length
      · rw [if_pos (by omega), h (j - 1)]
      · rw [if_neg (by omega), h j, List.getElem?_eq_none (by omega),
          List.getElem?_eq_none (by omega)]

end Slots

/-! ## Loops that read outside an array nowhere -/

section Option

variable {β γ : Type}

theorem mapM_eq_some {f : β → Option γ} {g : β → γ} : ∀ {l : List β},
    (∀ x ∈ l, f x = some (g x)) → l.mapM f = some (l.map g)
  | [], _ => rfl
  | x :: l, h => by
    rw [List.mapM_cons, h x List.mem_cons_self,
      mapM_eq_some fun y hy => h y (List.mem_cons_of_mem x hy)]
    rfl

/-- A loop over the indices makes a list if each turn makes its element. -/
theorem mapM_range {f : Nat → Option γ} {l : List γ}
    (h : ∀ i x, l[i]? = some x → f i = some x) : (List.range l.length).mapM f = some l := by
  induction l generalizing f with
  | nil => rfl
  | cons x l ih =>
    have hmore : (List.range l.length).mapM (f ∘ Nat.succ) = some l :=
      ih fun i y hy => h (i + 1) y hy
    rw [List.length_cons, List.range_succ_eq_map, List.mapM_cons, h 0 x rfl, List.mapM_map, hmore]
    rfl

end Option

end CArray
