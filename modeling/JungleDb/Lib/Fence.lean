import Mathlib.Order.WithBot
import Mathlib.Data.List.InsertIdx
import Mathlib.Data.List.Pairwise

/-!
# Fenced lists and sorted association lists

A search tree keeps its children in a row with separator keys between them. `Fenced P lo ks cs hi`
says that child `i` satisfies `P` within the half-open interval between separator `i - 1` and
separator `i` (`lo` and `hi` at the ends). The lemmas cut such a row, route a key to its child and
put a new row in the place of that child; `Inserted` says what the insertion of one entry does to
the list of all entries, and `lookup_inserted` what it does to the map they stand for.
-/

namespace Fence

/-! ## Intervals -/

section Within

variable {K : Type} [LinearOrder K]

/-- `x` lies in the half-open interval from `lo` to `hi`. -/
def Within (lo : WithBot K) (hi : WithTop K) (x : K) : Prop := lo ≤ x ∧ (x : WithTop K) < hi

theorem Within.mono {lo lo' : WithBot K} {hi hi' : WithTop K} {x : K} (h : Within lo hi x)
    (hlo : lo' ≤ lo) (hhi : hi ≤ hi') : Within lo' hi' x :=
  ⟨le_trans hlo h.1, lt_of_lt_of_le h.2 hhi⟩

theorem within_univ (x : K) : Within ⊥ ⊤ x := ⟨bot_le, WithTop.coe_lt_top x⟩

@[simp] theorem within_coe_left {k : K} {hi : WithTop K} {x : K} :
    Within (k : WithBot K) hi x ↔ k ≤ x ∧ (x : WithTop K) < hi := by
  unfold Within
  rw [WithBot.coe_le_coe]

@[simp] theorem within_coe_right {lo : WithBot K} {k : K} {x : K} :
    Within lo (k : WithTop K) x ↔ lo ≤ x ∧ x < k := by
  unfold Within
  rw [WithTop.coe_lt_coe]

/-- A separator between two non-empty intervals lies within the whole interval. -/
theorem Within.join {lo : WithBot K} {hi : WithTop K} {k x y : K} (hx : Within lo (k : WithTop K) x)
    (hy : Within (k : WithBot K) hi y) : lo < k ∧ (k : WithTop K) < hi := by
  rw [within_coe_right] at hx
  rw [within_coe_left] at hy
  exact ⟨lt_of_le_of_lt hx.1 (WithBot.coe_lt_coe.mpr hx.2),
    lt_of_le_of_lt (WithTop.coe_le_coe.mpr hy.1) hy.2⟩

/-- A non-empty, strictly ascending list of keys of the interval from `lo` to `hi`. -/
structure Spread (lo : WithBot K) (hi : WithTop K) (xs : List K) : Prop where
  ne_nil : xs ≠ []
  sorted : xs.Pairwise (· < ·)
  within : ∀ x ∈ xs, Within lo hi x

theorem Spread.mono {lo lo' : WithBot K} {hi hi' : WithTop K} {xs : List K} (h : Spread lo hi xs)
    (hlo : lo' ≤ lo) (hhi : hi ≤ hi') : Spread lo' hi' xs :=
  ⟨h.ne_nil, h.sorted, fun x hx => (h.within x hx).mono hlo hhi⟩

theorem Spread.exists_within {lo : WithBot K} {hi : WithTop K} {xs : List K} (h : Spread lo hi xs) :
    ∃ x, Within lo hi x := by
  obtain ⟨x, hx⟩ := List.exists_mem_of_ne_nil xs h.ne_nil
  exact ⟨x, h.within x hx⟩

theorem Spread.join {lo : WithBot K} {hi : WithTop K} {k : K} {xs ys : List K}
    (hx : Spread lo (k : WithTop K) xs) (hy : Spread (k : WithBot K) hi ys) :
    lo < k ∧ (k : WithTop K) < hi := by
  obtain ⟨x, hx⟩ := hx.exists_within
  obtain ⟨y, hy⟩ := hy.exists_within
  exact hx.join hy

theorem Spread.append {lo : WithBot K} {hi : WithTop K} {k : K} {xs ys : List K}
    (hx : Spread lo (k : WithTop K) xs) (hy : Spread (k : WithBot K) hi ys) :
    Spread lo hi (xs ++ ys) := by
  obtain ⟨hlk, hkh⟩ := hx.join hy
  refine ⟨by simp [hx.ne_nil], ?_, ?_⟩
  · rw [List.pairwise_append]
    refine ⟨hx.sorted, hy.sorted, fun a ha b hb => ?_⟩
    exact lt_of_lt_of_le (within_coe_right.mp (hx.within a ha)).2
      (within_coe_left.mp (hy.within b hb)).1
  · intro a ha
    rcases List.mem_append.mp ha with ha | ha
    · exact (hx.within a ha).mono (le_refl _) hkh.le
    · exact (hy.within a ha).mono hlk.le (le_refl _)

/-- Cutting a spread list before one of its elements. -/
theorem Spread.cut {lo : WithBot K} {hi : WithTop K} {xs : List K} (h : Spread lo hi xs) {m : Nat}
    (h0 : 0 < m) (hm : m < xs.length) :
    Spread lo (xs[m] : WithTop K) (xs.take m) ∧ Spread (xs[m] : WithBot K) hi (xs.drop m) := by
  have hs : (xs.take m ++ xs.drop m).Pairwise (· < ·) := by
    rw [List.take_append_drop]; exact h.sorted
  obtain ⟨hst, hsd, hlt⟩ := List.pairwise_append.mp hs
  have hdrop : xs.drop m = xs[m] :: xs.drop (m + 1) := List.drop_eq_getElem_cons hm
  refine ⟨⟨?_, hst, fun x hx => ?_⟩, ⟨?_, hsd, fun x hx => ?_⟩⟩
  · intro hnil
    have := congrArg List.length hnil
    rw [List.length_take, List.length_nil] at this
    omega
  · exact within_coe_right.mpr ⟨(h.within x (List.mem_of_mem_take hx)).1,
      hlt x hx xs[m] (by rw [hdrop]; exact List.mem_cons_self)⟩
  · rw [hdrop]; exact List.cons_ne_nil _ _
  · refine within_coe_left.mpr ⟨?_, (h.within x (List.mem_of_mem_drop hx)).2⟩
    rw [hdrop] at hx hsd
    rcases List.mem_cons.mp hx with rfl | hx
    · exact le_refl _
    · exact (List.rel_of_pairwise_cons hsd hx).le

end Within

/-! ## Rows of children -/

section Fenced

variable {K α : Type} {P Q : WithBot K → WithTop K → α → Prop}

/-- Child `i` satisfies `P` between its two separators (`lo` and `hi` at the ends). -/
def Fenced (P : WithBot K → WithTop K → α → Prop) :
    WithBot K → List K → List α → WithTop K → Prop
  | lo, [], [c], hi => P lo hi c
  | lo, k :: ks, c :: cs, hi => P lo (k : WithTop K) c ∧ Fenced P (k : WithBot K) ks cs hi
  | _, _, _, _ => False

@[simp] theorem fenced_single {lo : WithBot K} {hi : WithTop K} {c : α} :
    Fenced P lo [] [c] hi ↔ P lo hi c := Iff.rfl

@[simp] theorem fenced_cons {lo : WithBot K} {hi : WithTop K} {k : K} {ks : List K} {c : α}
    {cs : List α} : Fenced P lo (k :: ks) (c :: cs) hi ↔
      P lo (k : WithTop K) c ∧ Fenced P (k : WithBot K) ks cs hi := Iff.rfl

theorem Fenced.length : ∀ {lo : WithBot K} {ks : List K} {cs : List α} {hi : WithTop K},
    Fenced P lo ks cs hi → cs.length = ks.length + 1
  | _, [], [_], _, _ => rfl
  | _, [], [], _, h => h.elim
  | _, [], _ :: _ :: _, _, h => h.elim
  | _, _ :: _, [], _, h => h.elim
  | _, _ :: _, _ :: _, _, h => by
    rw [List.length_cons, List.length_cons, Fenced.length h.2]

theorem Fenced.mono (hPQ : ∀ lo hi c, P lo hi c → Q lo hi c) :
    ∀ {lo : WithBot K} {ks : List K} {cs : List α} {hi : WithTop K},
      Fenced P lo ks cs hi → Fenced Q lo ks cs hi
  | _, [], [_], _, h => hPQ _ _ _ h
  | _, [], [], _, h => h.elim
  | _, [], _ :: _ :: _, _, h => h.elim
  | _, _ :: _, [], _, h => h.elim
  | _, _ :: _, _ :: _, _, h => ⟨hPQ _ _ _ h.1, h.2.mono hPQ⟩

/-- Cutting a row at one of its separators. -/
theorem fenced_append : ∀ {lo : WithBot K} {ks₁ ks₂ : List K} {m : K} {cs₁ cs₂ : List α}
    {hi : WithTop K}, cs₁.length = ks₁.length + 1 →
      (Fenced P lo (ks₁ ++ m :: ks₂) (cs₁ ++ cs₂) hi ↔
        Fenced P lo ks₁ cs₁ m ∧ Fenced P m ks₂ cs₂ hi)
  | _, [], _, _, [_], _, _, _ => Iff.rfl
  | _, [], _, _, [], _, _, h => by simp at h
  | _, [], _, _, _ :: _ :: _, _, _, h => by simp at h
  | _, _ :: _, _, _, [], _, _, h => by simp at h
  | _, k :: ks, _, _, c :: cs, _, _, h => by
    simp only [List.cons_append, fenced_cons]
    rw [fenced_append (by simpa using h)]
    exact and_assoc.symm

/-- Cutting a row after its first `m` separators. -/
theorem Fenced.cut {lo : WithBot K} {ks : List K} {cs : List α} {hi : WithTop K}
    (h : Fenced P lo ks cs hi) {m : Nat} (hm : m < ks.length) :
    Fenced P lo (ks.take m) (cs.take (m + 1)) ks[m] ∧
      Fenced P ks[m] (ks.drop (m + 1)) (cs.drop (m + 1)) hi := by
  have hl := h.length
  rw [← List.take_append_drop m ks, List.drop_eq_getElem_cons hm,
    ← List.take_append_drop (m + 1) cs] at h
  exact (fenced_append (by simp; omega)).mp h

/-- Child `i` and its two separators, by index. -/
theorem Fenced.getElem : ∀ {lo : WithBot K} {ks : List K} {cs : List α} {hi : WithTop K},
    Fenced P lo ks cs hi → ∀ (i : Nat) (c : α), cs[i]? = some c →
      P (if h : 0 < i ∧ i ≤ ks.length then (ks[i - 1] : WithBot K) else lo)
        (if h : i < ks.length then (ks[i] : WithTop K) else hi) c
  | _, [], [_], _, h, 0, c, hc => by
    simp only [List.getElem?_cons_zero, Option.some.injEq] at hc
    subst hc
    simpa using h
  | _, [], [_], _, _, _ + 1, _, hc => by simp at hc
  | _, [], [], _, h, _, _, _ => h.elim
  | _, [], _ :: _ :: _, _, h, _, _, _ => h.elim
  | _, _ :: _, [], _, h, _, _, _ => h.elim
  | _, k :: ks, _ :: _, _, h, 0, c, hc => by
    simp only [List.getElem?_cons_zero, Option.some.injEq] at hc
    subst hc
    simpa using h.1
  | _, k :: ks, _ :: cs, hi, h, i + 1, c, hc => by
    rw [List.getElem?_cons_succ] at hc
    have ih := Fenced.getElem h.2 i c hc
    have hcs := h.2.length
    obtain ⟨hi', -⟩ := List.getElem?_eq_some_iff.mp hc
    cases i with
    | zero => simpa using ih
    | succ i =>
      have h1 : 0 < i + 1 ∧ i + 1 ≤ ks.length := by omega
      have h2 : 0 < i + 1 + 1 ∧ i + 1 + 1 ≤ (k :: ks).length := by simp; omega
      rw [dif_pos h1] at ih
      rw [dif_pos h2]
      simpa using ih

variable [LinearOrder K]

/-- The row's own bounds may be relaxed when those of its children may be. -/
theorem Fenced.relax (hP : ∀ {lo lo' hi hi' c}, P lo hi c → lo' ≤ lo → hi ≤ hi' → P lo' hi' c) :
    ∀ {lo lo' : WithBot K} {ks : List K} {cs : List α} {hi hi' : WithTop K},
      Fenced P lo ks cs hi → lo' ≤ lo → hi ≤ hi' → Fenced P lo' ks cs hi'
  | _, _, [], [_], _, _, h, hlo, hhi => hP h hlo hhi
  | _, _, [], [], _, _, h, _, _ => h.elim
  | _, _, [], _ :: _ :: _, _, _, h, _, _ => h.elim
  | _, _, _ :: _, [], _, _, h, _, _ => h.elim
  | _, _, _ :: _, _ :: _, _, _, h, hlo, hhi =>
    ⟨hP h.1 hlo (le_refl _), h.2.relax hP (le_refl _) hhi⟩

section Keys

variable {f : α → List K} (hf : ∀ lo hi c, P lo hi c → Spread lo hi (f c))

include hf

/-- All the keys of a row are ascending and lie within its bounds. -/
theorem Fenced.spread : ∀ {lo : WithBot K} {ks : List K} {cs : List α} {hi : WithTop K},
    Fenced P lo ks cs hi → Spread lo hi (cs.flatMap f)
  | _, [], [_], _, h => by simpa using hf _ _ _ h
  | _, [], [], _, h => h.elim
  | _, [], _ :: _ :: _, _, h => h.elim
  | _, _ :: _, [], _, h => h.elim
  | _, _ :: _, _ :: _, _, h => by
    rw [List.flatMap_cons]
    exact (hf _ _ _ h.1).append (Fenced.spread h.2)

/-- The separators of a row are ascending and lie strictly above its lower bound. -/
theorem Fenced.seps : ∀ {lo : WithBot K} {ks : List K} {cs : List α} {hi : WithTop K},
    Fenced P lo ks cs hi → ks.Pairwise (· < ·) ∧ ∀ k ∈ ks, lo < k ∧ (k : WithTop K) < hi
  | _, [], [_], _, _ => ⟨List.Pairwise.nil, fun _ h => absurd h List.not_mem_nil⟩
  | _, [], [], _, h => h.elim
  | _, [], _ :: _ :: _, _, h => h.elim
  | _, _ :: _, [], _, h => h.elim
  | lo, k :: ks, c :: cs, hi, h => by
    obtain ⟨hs, hb⟩ := Fenced.seps h.2
    obtain ⟨hlk, hkh⟩ := (hf _ _ _ h.1).join (Fenced.spread hf h.2)
    refine ⟨List.pairwise_cons.mpr ⟨fun k' hk' => WithBot.coe_lt_coe.mp (hb k' hk').1, hs⟩, ?_⟩
    intro k' hk'
    rcases List.mem_cons.mp hk' with rfl | hk'
    · exact ⟨hlk, hkh⟩
    · exact ⟨hlk.trans (hb k' hk').1, (hb k' hk').2⟩

/-! ### Routing -/

omit hf in
/-- The child a key belongs to: the number of separators before the first one above it. -/
def route (ks : List K) (x : K) : Nat := ks.findIdx (fun k => decide (x < k))

omit hf in
theorem route_cons (k : K) (ks : List K) (x : K) :
    route (k :: ks) x = if x < k then 0 else route ks x + 1 := by
  unfold route
  rw [List.findIdx_cons]
  by_cases h : x < k <;> simp [h]

omit hf in
/-- A row seen from the child that a key is routed to: the separators and children to its left
and right, the bounds `a` and `b` of the child, and what may stand in its place. -/
structure Hole (P : WithBot K → WithTop K → α → Prop) (f : α → List K) (lo : WithBot K)
    (hi : WithTop K) (x : K) (lk rk : List K) (ls : List α) (c : α) (rs : List α) (a : WithBot K)
    (b : WithTop K) : Prop where
  left : ls.length = lk.length
  right : rs.length = rk.length
  routed : route (lk ++ rk) x = lk.length
  within : Within a b x
  child : P a b c
  before : ∀ y ∈ ls.flatMap f, y < x
  after : ∀ y ∈ rs.flatMap f, x < y
  fill : ∀ (ts : List K) (ms : List α), Fenced P a ts ms b →
    Fenced P lo (lk ++ ts ++ rk) (ls ++ ms ++ rs) hi

/-- A key within the bounds of a row is routed to a child whose own bounds contain it. -/
theorem Fenced.hole : ∀ {lo : WithBot K} {ks : List K} {cs : List α} {hi : WithTop K} {x : K},
    Fenced P lo ks cs hi → Within lo hi x →
      ∃ lk rk ls c rs a b, ks = lk ++ rk ∧ cs = ls ++ c :: rs ∧ Hole P f lo hi x lk rk ls c rs a b
  | lo, [], [c], hi, x, h, hx =>
    ⟨[], [], [], c, [], lo, hi, rfl, rfl, rfl, rfl, rfl, hx, h, by simp, by simp,
      fun ts ms hm => by simpa using hm⟩
  | _, [], [], _, _, h, _ => h.elim
  | _, [], _ :: _ :: _, _, _, h, _ => h.elim
  | _, _ :: _, [], _, _, h, _ => h.elim
  | lo, k :: ks, c :: cs, hi, x, h, hx => by
    by_cases hxk : x < k
    · refine ⟨[], k :: ks, [], c, cs, lo, k, rfl, rfl, rfl, h.2.length, ?_, ?_, h.1, by simp, ?_, ?_⟩
      · rw [List.nil_append, route_cons, if_pos hxk, List.length_nil]
      · exact within_coe_right.mpr ⟨hx.1, hxk⟩
      · intro y hy
        exact lt_of_lt_of_le hxk (within_coe_left.mp ((Fenced.spread hf h.2).within y hy)).1
      · intro ts ms hm
        exact (fenced_append hm.length).mpr ⟨hm, h.2⟩
    · have hkx : k ≤ x := le_of_not_gt hxk
      obtain ⟨lk, rk, ls, d, rs, a, b, rfl, rfl, hh⟩ :=
        Fenced.hole h.2 (within_coe_left.mpr ⟨hkx, hx.2⟩)
      refine ⟨k :: lk, rk, c :: ls, d, rs, a, b, rfl, rfl, by simp [hh.left], hh.right, ?_,
        hh.within, hh.child, ?_, hh.after, ?_⟩
      · rw [List.cons_append, route_cons, if_neg hxk, hh.routed, List.length_cons]
      · intro y hy
        rw [List.flatMap_cons, List.mem_append] at hy
        rcases hy with hy | hy
        · exact lt_of_lt_of_le (within_coe_right.mp ((hf _ _ _ h.1).within y hy)).2 hkx
        · exact hh.before y hy
      · intro ts ms hm
        exact ⟨h.1, hh.fill ts ms hm⟩

end Keys

end Fenced

/-! ## Entries -/

section Entries

variable {K V : Type}

/-- `ys` is `xs` with the entry `e` put in at some place. -/
def Inserted (e : K × V) (xs ys : List (K × V)) : Prop := ∃ A B, xs = A ++ B ∧ ys = A ++ e :: B

theorem Inserted.context {e : K × V} {xs ys : List (K × V)} (h : Inserted e xs ys)
    (l r : List (K × V)) : Inserted e (l ++ xs ++ r) (l ++ ys ++ r) := by
  obtain ⟨A, B, rfl, rfl⟩ := h
  exact ⟨l ++ A, B ++ r, by simp, by simp⟩

theorem insertIdx_append_length {α : Type} (xs ys : List α) (x : α) :
    (xs ++ ys).insertIdx xs.length x = xs ++ x :: ys := by
  induction xs with
  | nil => rfl
  | cons a xs ih => rw [List.cons_append, List.length_cons, List.insertIdx_succ_cons, ih,
      List.cons_append]

theorem Inserted.insertIdx (e : K × V) (xs : List (K × V)) {pos : Nat} (h : pos ≤ xs.length) :
    Inserted e xs (xs.insertIdx pos e) := by
  refine ⟨xs.take pos, xs.drop pos, (List.take_append_drop pos xs).symm, ?_⟩
  rw [← insertIdx_append_length, List.take_append_drop, List.length_take, Nat.min_eq_left h]

theorem Inserted.length {e : K × V} {xs ys : List (K × V)} (h : Inserted e xs ys) :
    ys.length = xs.length + 1 := by
  obtain ⟨A, B, rfl, rfl⟩ := h
  simp only [List.length_append, List.length_cons]
  omega

theorem Inserted.mem_iff {e : K × V} {xs ys : List (K × V)} (h : Inserted e xs ys) (x : K × V) :
    x ∈ ys ↔ x = e ∨ x ∈ xs := by
  obtain ⟨A, B, rfl, rfl⟩ := h
  simp only [List.mem_append, List.mem_cons]
  tauto

variable [DecidableEq K]

theorem lookup_eq_none_of_forall_ne {k : K} {xs : List (K × V)} (h : ∀ e ∈ xs, e.1 ≠ k) :
    xs.lookup k = none := by
  rw [List.lookup_eq_none_iff]
  intro e he
  simpa using (h e he).symm

theorem isSome_lookup {k : K} {xs : List (K × V)} :
    (xs.lookup k).isSome ↔ k ∈ xs.map Prod.fst := by
  rw [List.lookup_isSome_iff, List.mem_map]
  refine ⟨fun ⟨e, he, hk⟩ => ⟨e, he, ?_⟩, fun ⟨e, he, hk⟩ => ⟨e, he, ?_⟩⟩
  · exact (eq_of_beq hk).symm
  · exact beq_iff_eq.mpr hk.symm

/-- The map after an insertion, when no key occurs twice. -/
theorem lookup_inserted {e : K × V} {xs ys : List (K × V)} (h : Inserted e xs ys)
    (hnd : (ys.map Prod.fst).Nodup) (k : K) :
    ys.lookup k = if k = e.1 then some e.2 else xs.lookup k := by
  obtain ⟨A, B, rfl, rfl⟩ := h
  obtain ⟨ek, ev⟩ := e
  rw [List.lookup_append, List.lookup_cons]
  by_cases hk : k = ek
  · subst hk
    have hA : A.lookup k = none := by
      refine lookup_eq_none_of_forall_ne fun e he hek => ?_
      rw [List.map_append, List.map_cons, List.nodup_append] at hnd
      exact hnd.2.2 e.1 (List.mem_map_of_mem he) k List.mem_cons_self hek
    simp [hA]
  · have hbeq : (k == ek) = false := by simpa using hk
    rw [if_neg hk, List.lookup_append, hbeq]

end Entries

end Fence
