import Mathlib.Data.List.Sort
import Mathlib.Data.List.Perm.Subperm

/-!
# Sorting by a comparator and bisection

A C comparator orders by the sign of its result. A sort promises a sorted permutation where the
comparator is a total preorder of the elements, and nothing but an array of the same length
elsewhere. Bisection for a predicate finds the place where it turns false, in a list where the
elements that satisfy it come first; no place separates them in any other list.
-/

namespace Bisect

variable {α : Type}

/-! ## Comparators -/

/-- The comparator is consistent on the elements of the list. -/
structure TotalPreorder (cmp : α → α → Int) (l : List α) : Prop where
  swap : ∀ a ∈ l, ∀ b ∈ l, cmp a b < 0 ↔ 0 < cmp b a
  trans : ∀ a ∈ l, ∀ b ∈ l, ∀ c ∈ l, cmp a b ≤ 0 → cmp b c ≤ 0 → cmp a c ≤ 0

namespace TotalPreorder

variable {cmp : α → α → Int} {l : List α}

theorem total (h : TotalPreorder cmp l) {a b : α} (ha : a ∈ l) (hb : b ∈ l) :
    cmp a b ≤ 0 ∨ cmp b a ≤ 0 := by
  have hswap := h.swap b hb a ha
  by_contra hnot
  rw [not_or, not_le, not_le] at hnot
  have hless : cmp b a < 0 := hswap.mpr hnot.1
  omega

instance [DecidableEq α] : Decidable (TotalPreorder cmp l) :=
  decidable_of_iff
    ((∀ a ∈ l, ∀ b ∈ l, cmp a b < 0 ↔ 0 < cmp b a) ∧
      ∀ a ∈ l, ∀ b ∈ l, ∀ c ∈ l, cmp a b ≤ 0 → cmp b c ≤ 0 → cmp a c ≤ 0)
    ⟨fun h => ⟨h.1, h.2⟩, fun h => ⟨h.swap, h.trans⟩⟩

end TotalPreorder

/-- What a sort promises. -/
structure Sorts (sort : (α → α → Int) → List α → List α) : Prop where
  length : ∀ cmp l, (sort cmp l).length = l.length
  perm : ∀ {cmp l}, TotalPreorder cmp l → (sort cmp l).Perm l
  sorted : ∀ {cmp l}, TotalPreorder cmp l → (sort cmp l).Pairwise fun a b => cmp a b ≤ 0

/-- A sort: the insertion sort of the elements. -/
def sortBy (cmp : α → α → Int) (l : List α) : List α :=
  (l.attach.insertionSort fun a b => cmp a.1 b.1 ≤ 0).map Subtype.val

theorem sorts_sortBy : Sorts (sortBy (α := α)) := by
  constructor
  · intro cmp l
    rw [sortBy, List.length_map, List.length_insertionSort, List.length_attach]
  · intro cmp l _
    have hperm := (List.perm_insertionSort (fun a b : { x // x ∈ l } => cmp a.1 b.1 ≤ 0)
      l.attach).map Subtype.val
    rwa [List.attach_map_subtype_val] at hperm
  · intro cmp l h
    have htotal : Std.Total fun a b : { x // x ∈ l } => cmp a.1 b.1 ≤ 0 :=
      ⟨fun a b => h.total a.2 b.2⟩
    have htrans : IsTrans { x // x ∈ l } fun a b => cmp a.1 b.1 ≤ 0 :=
      ⟨fun a b c => h.trans a.1 a.2 b.1 b.2 c.1 c.2⟩
    rw [sortBy, List.pairwise_map]
    exact List.pairwise_insertionSort _ l.attach

/-- A sort that fills the array with one element where it promises nothing. -/
def sortOr [DecidableEq α] (junk : α) (cmp : α → α → Int) (l : List α) : List α :=
  if TotalPreorder cmp l then sortBy cmp l else List.replicate l.length junk

theorem sorts_sortOr [DecidableEq α] (junk : α) : Sorts (sortOr junk) := by
  constructor
  · intro cmp l
    unfold sortOr
    split
    · exact sorts_sortBy.length cmp l
    · exact List.length_replicate
  · intro cmp l h
    rw [sortOr, if_pos h]
    exact sorts_sortBy.perm h
  · intro cmp l h
    rw [sortOr, if_pos h]
    exact sorts_sortBy.sorted h

/-! ## Bisection -/

/-- The elements that satisfy the predicate come first. -/
def Splits (p : α → Bool) (l : List α) : Prop := l.Pairwise fun a b => p b = true → p a = true

/-- `while (left < right) { middle = left + (right - left) / 2; … }`: the elements that satisfy the
predicate are sought on the right. -/
def bisect (p : α → Bool) (l : List α) (left right : Nat) : Nat :=
  if left < right then
    let middle := left + (right - left) / 2
    if l[middle]?.any p then bisect p l (middle + 1) right else bisect p l left middle
  else left
termination_by right - left

variable {p : α → Bool} {l : List α}

theorem Splits.eq_append (h : Splits p l) : l = l.filter p ++ l.filter fun a => !p a := by
  induction l with
  | nil => rfl
  | cons a l ih =>
    obtain ⟨hfirst, hrest⟩ := List.pairwise_cons.mp h
    by_cases ha : p a = true
    · rw [List.filter_cons_of_pos ha, List.filter_cons_of_neg (by rw [ha]; exact Bool.false_ne_true),
        List.cons_append, ← ih hrest]
    · have hnone : l.filter p = [] := by
        rw [List.filter_eq_nil_iff]
        exact fun b hb hpb => ha (hfirst b hb hpb)
      have hall : (l.filter fun a => !p a) = l := by
        rw [List.filter_eq_self]
        intro b hb
        rw [Bool.not_eq_true']
        exact Bool.eq_false_iff.mpr fun hpb => ha (hfirst b hb hpb)
      rw [Bool.not_eq_true] at ha
      rw [List.filter_cons_of_neg (ne_true_of_eq_false ha), List.filter_cons_of_pos (by rw [ha]; rfl),
        hnone, hall]
      rfl

theorem Splits.take (h : Splits p l) : l.take (l.filter p).length = l.filter p :=
  (congrArg (List.take _) h.eq_append).trans List.take_left

theorem Splits.drop (h : Splits p l) :
    l.drop (l.filter p).length = l.filter fun a => !p a :=
  (congrArg (List.drop _) h.eq_append).trans List.drop_left

/-- The elements that satisfy the predicate are those before the place. -/
theorem Splits.any_iff (h : Splits p l) {i : Nat} (hi : i < l.length) :
    l[i]?.any p = true ↔ i < (l.filter p).length := by
  have hlist := h.eq_append
  have hfront : ∀ a ∈ l.filter p, p a = true := fun a ha => (List.mem_filter.mp ha).2
  have hback : ∀ a ∈ l.filter (fun a => !p a), ¬ p a = true := by
    intro a ha
    have hnot := (List.mem_filter.mp ha).2
    rwa [Bool.not_eq_true', ← Bool.not_eq_true] at hnot
  generalize l.filter p = front at hlist hfront ⊢
  generalize l.filter (fun a => !p a) = back at hlist hback
  subst hlist
  by_cases hplace : i < front.length
  · rw [List.getElem?_append_left hplace, List.getElem?_eq_getElem hplace]
    exact iff_of_true (hfront _ (List.getElem_mem hplace)) hplace
  · rw [List.length_append] at hi
    have hbehind : i - front.length < back.length := by omega
    rw [List.getElem?_append_right (not_lt.mp hplace), List.getElem?_eq_getElem hbehind]
    exact iff_of_false (hback _ (List.getElem_mem hbehind)) hplace

/-- The place stays between the bounds. -/
theorem Splits.bisect_between (h : Splits p l) {left right : Nat}
    (hleft : left ≤ (l.filter p).length) (hright : (l.filter p).length ≤ right)
    (hlength : right ≤ l.length) : bisect p l left right = (l.filter p).length := by
  fun_induction bisect p l left right with
  | case1 left right hless middle hany ih =>
    have hmiddle : middle < l.length := by omega
    have hplace := (h.any_iff hmiddle).mp hany
    exact ih hplace hright hlength
  | case2 left right hless middle hany ih =>
    have hmiddle : middle < l.length := by omega
    have hplace := mt (h.any_iff hmiddle).mpr hany
    exact ih hleft (not_lt.mp hplace) (Nat.le_of_lt hmiddle)
  | case3 left right hless => omega

/-- Bisection finds the place. -/
theorem Splits.bisect_eq (h : Splits p l) : bisect p l 0 l.length = (l.filter p).length :=
  h.bisect_between (Nat.zero_le _) (List.length_filter_le p l) (Nat.le_refl _)

/-! ## No place elsewhere -/

theorem splits_append {front back : List α} (hfront : ∀ a ∈ front, p a = true)
    (hback : ∀ b ∈ back, ¬ p b = true) : Splits p (front ++ back) := by
  refine List.pairwise_append.mpr ⟨?_, ?_, ?_⟩
  · exact List.pairwise_of_forall_mem_list fun a ha b _ _ => hfront a ha
  · exact List.pairwise_of_forall_mem_list fun a _ b hb hpb => absurd hpb (hback b hb)
  · exact fun a ha b _ _ => hfront a ha

variable {β : Type} {f : α → β}

/-- Where the elements before a place are those that satisfy the predicate, they come first. -/
theorem splits_of_take (hf : (l.map f).Nodup) {place : Nat}
    (h : ((l.take place).map f).Perm ((l.filter p).map f)) : Splits p l := by
  have hinj := List.inj_on_of_nodup_map hf
  rw [← List.take_append_drop place l, List.map_append] at hf
  have hapart := List.disjoint_of_nodup_append hf
  rw [← List.take_append_drop place l]
  refine splits_append ?_ ?_
  · intro a ha
    obtain ⟨b, hb, hsame⟩ := List.mem_map.mp (h.mem_iff.mp (List.mem_map_of_mem ha))
    obtain ⟨hmem, hpb⟩ := List.mem_filter.mp hb
    rwa [← hinj hmem (List.mem_of_mem_take ha) hsame]
  · intro b hb hpb
    have hmem := List.mem_filter.mpr ⟨List.mem_of_mem_drop hb, hpb⟩
    exact hapart (h.mem_iff.mpr (List.mem_map_of_mem hmem)) (List.mem_map_of_mem hb)

/-- Where the elements from a place on are those that do not satisfy it, the others come first. -/
theorem splits_of_drop (hf : (l.map f).Nodup) {place : Nat}
    (h : ((l.drop place).map f).Perm ((l.filter fun a => !p a).map f)) : Splits p l := by
  have hinj := List.inj_on_of_nodup_map hf
  rw [← List.take_append_drop place l, List.map_append] at hf
  have hapart := List.disjoint_of_nodup_append hf
  rw [← List.take_append_drop place l]
  refine splits_append ?_ ?_
  · intro a ha
    by_contra hpa
    rw [Bool.not_eq_true] at hpa
    have hnot : (!p a) = true := by
      rw [hpa]
      rfl
    have hmem : a ∈ l.filter fun a => !p a :=
      List.mem_filter.mpr ⟨List.mem_of_mem_take ha, hnot⟩
    exact hapart (List.mem_map_of_mem ha) (h.mem_iff.mpr (List.mem_map_of_mem hmem))
  · intro b hb hpb
    obtain ⟨a, ha, hsame⟩ := List.mem_map.mp (h.mem_iff.mp (List.mem_map_of_mem hb))
    obtain ⟨hmem, hpa⟩ := List.mem_filter.mp ha
    rw [hinj hmem (List.mem_of_mem_drop hb) hsame, hpb] at hpa
    cases hpa

/-- A sorted list splits just when no element that does not satisfy the predicate may stand before one
that does. -/
theorem splits_iff_of_sorted {cmp : α → α → Int} (hsorted : l.Pairwise fun a b => cmp a b ≤ 0)
    (hdistinct : ∀ a ∈ l, ∀ b ∈ l, cmp a b ≤ 0 → cmp b a ≤ 0 → a = b) :
    Splits p l ↔ ∀ a ∈ l, ∀ b ∈ l, cmp a b ≤ 0 → p b = true → p a = true := by
  constructor
  · intro h a ha b hb hle hpb
    obtain ⟨i, hi, rfl⟩ := List.getElem_of_mem ha
    obtain ⟨j, hj, rfl⟩ := List.getElem_of_mem hb
    rcases Nat.lt_trichotomy i j with hij | hij | hij
    · exact List.pairwise_iff_getElem.mp h i j hi hj hij hpb
    · subst hij
      exact hpb
    · have hge := List.pairwise_iff_getElem.mp hsorted j i hj hi hij
      rwa [hdistinct _ ha _ hb hle hge]
  · intro h
    exact hsorted.imp_of_mem fun ha hb hle => h _ ha _ hb hle

end Bisect
