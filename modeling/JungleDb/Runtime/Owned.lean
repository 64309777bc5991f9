import JungleDb.Bptree.Lost
import JungleDb.Runtime.Memory

/-!
# Which blocks a table owns

A row owns the array of its cells and the cells, a table its array of rows, the rows and the nodes of
its tree. Each function that builds or frees one of them is described by what it does to the ledger of
the blocks that are allocated; whatever else is allocated (`frame`) stays.
-/

namespace JungleDb

open CArray CString Heap

abbrev Blocks := Multiset (Ptr × Block)

/-- A cell of a row, where it is and what it holds, or NULL. -/
abbrev CellAt := Option (Ptr × Bytes)

def CellAt.owned (c : CellAt) : Blocks := c.elim 0 fun c => cell c.1 (.text c.2)

def CellAt.slot (c : CellAt) : Option (Option Ptr) := some (c.map Prod.fst)

def cellsOwned (cells : List CellAt) : Blocks := (cells.map CellAt.owned).sum

@[simp] theorem cellsOwned_nil : cellsOwned [] = 0 := rfl

@[simp] theorem cellsOwned_cons (c : CellAt) (cells : List CellAt) :
    cellsOwned (c :: cells) = c.owned + cellsOwned cells := rfl

@[simp] theorem cellsOwned_append (cells cells' : List CellAt) :
    cellsOwned (cells ++ cells') = cellsOwned cells + cellsOwned cells' := by
  simp [cellsOwned]

@[simp] theorem cellsOwned_replicate_none (n : Nat) : cellsOwned (List.replicate n none) = 0 := by
  induction n with
  | zero => rfl
  | succ n ih =>
    rw [List.replicate_succ, cellsOwned_cons, ih]
    rfl

/-- An array of cells. -/
structure RowAt where
  ptr : Ptr
  cells : List CellAt

def RowAt.owned (r : RowAt) : Blocks :=
  cell r.ptr (.slots (r.cells.map CellAt.slot)) + cellsOwned r.cells

/-- All cells are there and hold the texts of the row. -/
def RowAt.Holds (r : RowAt) (row : Row) : Prop := r.cells.map (Option.map Prod.snd) = row.map some

namespace Mem

/-! ## Loads and stores -/

section Access

variable {s : State Block} {frame : Blocks} {p : Ptr} {ps : List (Option (Option Ptr))} {i : Nat}

theorem loadSlot_of_mem {owned : Blocks} (h : Owns s owned) (hmem : (p, .slots ps) ∈ owned)
    {v : Option Ptr} (hi : ps[i]? = some (some v)) :
    Spec (loadSlot p i) s fun v' s' => v' = v ∧ s' = s := by
  refine (h.read_of_mem hmem).bind ?_
  rintro _ _ ⟨rfl, rfl⟩
  simp only [hi]
  exact .pure ⟨rfl, rfl⟩

theorem loadSlot_spec (h : Owns s (cell p (.slots ps) + frame)) {v : Option Ptr}
    (hi : ps[i]? = some (some v)) : Spec (loadSlot p i) s fun v' s' => v' = v ∧ s' = s :=
  loadSlot_of_mem h (Multiset.mem_add.mpr (.inl (Multiset.mem_singleton_self _))) hi

theorem storeSlot_spec (h : Owns s (cell p (.slots ps) + frame)) (hi : i < ps.length)
    (v : Option Ptr) : Spec (storeSlot p i v) s fun _ s' => s'.grants = s.grants ∧
      Owns s' (cell p (.slots (ps.set i (some v))) + frame) := by
  refine h.read.bind ?_
  rintro _ _ ⟨rfl, rfl⟩
  simp only [hi, if_true]
  exact h.write _

theorem loadText_of_mem {owned : Blocks} {text : Bytes} (h : Owns s owned)
    (hmem : (p, .text text) ∈ owned) :
    Spec (loadText p) s fun text' s' => text' = text ∧ s' = s := by
  refine (h.read_of_mem hmem).bind ?_
  rintro _ _ ⟨rfl, rfl⟩
  exact .pure ⟨rfl, rfl⟩

theorem utilsStrdup_spec {owned : Blocks} (h : Owns s owned) (src : Bytes) :
    Spec (utilsStrdup src) s fun r s' => s'.grants = (granted s.grants).2 ∧
      r.isSome = (granted s.grants).1 ∧
      Owns s' (CellAt.owned (r.map fun p => (p, src)) + owned) := by
  refine (h.alloc (.text src)).mono ?_
  rintro r s' ⟨hgrants, hsome, h'⟩
  refine ⟨hgrants, hsome, h'.of_eq ?_⟩
  cases r <;> rfl

theorem freeCell_spec {c : CellAt} (h : Owns s (c.owned + frame)) :
    Spec (freeOpt (c.map Prod.fst)) s fun _ s' => s'.grants = s.grants ∧ Owns s' frame := by
  cases c with
  | none =>
    rw [CellAt.owned, Option.elim_none, zero_add] at h
    exact .pure ⟨rfl, h⟩
  | some c => exact h.free

end Access

/-! ## Rows -/

theorem getElem?_append_cons {α : Type} (done rest : List α) (a : α) :
    (done ++ a :: rest)[done.length]? = some a := by simp

theorem set_append_cons {α : Type} (done rest : List α) (a b : α) :
    (done ++ a :: rest).set done.length b = done ++ [b] ++ rest := by simp

/-- The cells from the `done.length`-th on are freed. -/
theorem freeCells_spec {row : Ptr} {frame : Blocks} (cells : List CellAt) {s : State Block}
    (done : List (Option (Option Ptr)))
    (h : Owns s (cell row (.slots (done ++ cells.map CellAt.slot)) + cellsOwned cells + frame)) :
    Spec (freeCells row cells.length done.length) s fun _ s' => s'.grants = s.grants ∧
      ∃ ps, Owns s' (cell row (.slots ps) + frame) := by
  induction cells generalizing s done with
  | nil => exact .pure ⟨rfl, done, h.of_eq (by simp)⟩
  | cons c cells ih =>
    rw [List.map_cons, cellsOwned_cons] at h
    rw [List.length_cons, freeCells]
    refine (loadSlot_spec (h.of_eq (add_assoc _ _ _)) (getElem?_append_cons ..)).bind ?_
    rintro _ _ ⟨rfl, rfl⟩
    refine (freeCell_spec (h.of_eq (m := c.owned + (cell row _ + cellsOwned cells + frame))
      (by ac_rfl))).bind ?_
    rintro _ s₁ ⟨hg₁, h₁⟩
    refine (storeSlot_spec (h₁.of_eq (add_assoc _ _ _)) (by simp) none).bind ?_
    rintro _ s₂ ⟨hg₂, h₂⟩
    rw [set_append_cons] at h₂
    have hrest := ih (done ++ [some none]) (h₂.of_eq (add_assoc _ _ _).symm)
    rw [List.length_append] at hrest
    refine hrest.mono ?_
    rintro _ s₃ ⟨hg₃, hps⟩
    exact ⟨hg₃.trans (hg₂.trans hg₁), hps⟩

theorem tableFreeOwnedRow_spec {s : State Block} {frame : Blocks} {r : RowAt} {colCount : Nat}
    (hcount : r.cells.length = colCount) (h : Owns s (r.owned + frame)) :
    Spec (tableFreeOwnedRow (some r.ptr) colCount) s fun _ s' => s'.grants = s.grants ∧
      Owns s' frame := by
  subst hcount
  refine (freeCells_spec r.cells [] h).bind ?_
  rintro _ s₁ ⟨hg₁, ps, h₁⟩
  refine h₁.free.mono ?_
  rintro _ s₂ ⟨hg₂, h₂⟩
  exact ⟨hg₂.trans hg₁, h₂⟩

/-- The cells from the `done.length`-th up to the end of `cells` are freed, the array stays as it is. -/
theorem freeBuilt_spec {row : Ptr} {frame : Blocks} {rest : List (Option (Option Ptr))}
    (cells : List CellAt) {s : State Block} (done : List (Option (Option Ptr)))
    (h : Owns s (cell row (.slots (done ++ cells.map CellAt.slot ++ rest)) + cellsOwned cells +
      frame)) :
    Spec (freeBuilt row cells.length done.length) s fun _ s' => s'.grants = s.grants ∧
      ∃ ps, Owns s' (cell row (.slots ps) + frame) := by
  induction cells generalizing s done with
  | nil => exact .pure ⟨rfl, done ++ rest, h.of_eq (by simp)⟩
  | cons c cells ih =>
    rw [List.map_cons, cellsOwned_cons] at h
    rw [List.length_cons, freeBuilt]
    refine (loadSlot_spec (h.of_eq (add_assoc _ _ _)) (v := c.map Prod.fst) (by
      simp [CellAt.slot])).bind ?_
    rintro _ _ ⟨rfl, rfl⟩
    refine (freeCell_spec (h.of_eq (m := c.owned + (cell row _ + cellsOwned cells + frame))
      (by ac_rfl))).bind ?_
    rintro _ s₁ ⟨hg₁, h₁⟩
    have hrest := ih (done ++ [c.slot]) (h₁.of_eq (by simp))
    rw [List.length_append] at hrest
    refine hrest.mono ?_
    rintro _ s₂ ⟨hg₂, hps⟩
    exact ⟨hg₂.trans hg₁, hps⟩

/-! ## Building a row -/

theorem calloc_eq_granted (grants : List Bool) : calloc grants = granted grants := by
  cases grants <;> rfl

/-- The cells of the items from the `i`-th on are copied, or those before it are freed again. -/
theorem buildCells_spec {row : Ptr} {frame : Blocks} (items : List InsertItem) {s : State Block}
    (cells : List CellAt) {i : Nat} (hi : cells.length = i + 1)
    (h : Owns s (cell row (.slots (cells.map CellAt.slot ++
      List.replicate items.length (some none))) + cellsOwned cells + frame)) :
    Spec (buildCells row items i) s fun r s' =>
      s'.grants = (callocAll items.length s.grants).2 ∧
      if (callocAll items.length s.grants).1 then r = some row ∧ ∃ copies : List CellAt,
        copies.map (Option.map Prod.snd) = items.map (fun item => some item.value.text) ∧
        Owns s' (RowAt.owned ⟨row, cells ++ copies⟩ + frame)
      else r = none ∧ Owns s' frame := by
  induction items generalizing s cells i with
  | nil =>
    refine .pure ⟨rfl, ?_⟩
    rw [List.length_nil, callocAll, if_pos rfl]
    exact ⟨rfl, [], rfl, h.of_eq (by simp [RowAt.owned])⟩
  | cons item items ih =>
    rw [buildCells, List.length_cons, callocAll, calloc_eq_granted]
    rw [List.length_cons, List.replicate_succ] at h
    refine (utilsStrdup_spec h _).bind ?_
    rintro copy s₁ ⟨hg₁, hsome, h₁⟩
    generalize hcopy : (copy.map fun p => (p, item.value.text) : CellAt) = c at h₁
    have hslot : CellAt.slot c = some copy := by
      rw [← hcopy]
      cases copy <;> rfl
    have hstored := storeSlot_spec (i := i + 1) (h₁.of_eq (m := cell row _ +
      (CellAt.owned c + cellsOwned cells + frame)) (by ac_rfl)) (by simp; omega) copy
    refine hstored.bind ?_
    rintro _ s₂ ⟨hg₂, h₂⟩
    rw [show i + 1 = (cells.map CellAt.slot).length by simp [hi], set_append_cons, ← hslot,
      ← List.map_singleton, ← List.map_append] at h₂
    have hg : s₂.grants = (granted s.grants).2 := hg₂.trans hg₁
    revert hsome hg
    obtain ⟨grant, grants⟩ := granted s.grants
    rintro rfl hg
    cases copy with
    | some p =>
      refine (ih (cells ++ [c]) (i := i + 1) (by simp [hi]) (h₂.of_eq (by
        simp [add_assoc, add_comm]))).mono ?_
      rintro r s₃ ⟨hg₃, hbuilt⟩
      rw [hg] at hg₃ hbuilt
      refine ⟨hg₃, ?_⟩
      simp only [Option.isSome_some]
      split at hbuilt
      · rename_i hall
        rw [if_pos hall]
        obtain ⟨hr, copies, hcopies, h₃⟩ := hbuilt
        refine ⟨hr, c :: copies, ?_, h₃.of_eq (by simp)⟩
        rw [List.map_cons, hcopies, ← hcopy]
        rfl
      · rename_i hall
        rw [if_neg hall]
        exact hbuilt
    | none =>
      subst hcopy
      have hbuilt : Owns s₂ (cell row (.slots ([] ++ cells.map CellAt.slot ++
          (some none :: List.replicate items.length (some none)))) + cellsOwned cells + frame) :=
        h₂.of_eq (by simp [CellAt.owned, CellAt.slot, add_assoc])
      have hfreed := freeBuilt_spec cells [] hbuilt
      rw [hi] at hfreed
      refine hfreed.bind ?_
      rintro _ s₃ ⟨hg₃, ps, h₃⟩
      refine h₃.free.bind ?_
      rintro _ s₄ ⟨hg₄, h₄⟩
      exact .pure ⟨hg₄.trans (hg₃.trans hg), rfl, h₄⟩

/-- `table_build_row`, of as many slots as the schema of the statement has. -/
theorem tableBuildRow_spec {s : State Block} {frame : Blocks} (h : Owns s frame)
    (stmt : InsertStatement) (nextId : Int) :
    Spec (tableBuildRow (stmt.items.1.length + 1) stmt nextId) s fun r s' =>
      s'.grants = (JungleDb.tableBuildRow stmt nextId s.grants).2 ∧
      match (JungleDb.tableBuildRow stmt nextId s.grants).1 with
      | none => r = none ∧ Owns s' frame
      | some row => ∃ b : RowAt, r = some b.ptr ∧ b.Holds row ∧ Owns s' (b.owned + frame) := by
  have hlevel : JungleDb.tableBuildRow stmt nextId s.grants =
      (if (callocAll (stmt.items.1.length + 2) s.grants).1 then
        some (lld nextId :: stmt.items.1.map fun item => item.value.text) else none,
        (callocAll (stmt.items.1.length + 2) s.grants).2) := by
    rw [JungleDb.tableBuildRow]
    obtain ⟨grant, grants⟩ := callocAll (stmt.items.1.length + 2) s.grants
    cases grant <;> rfl
  rw [hlevel, callocAll, calloc_eq_granted]
  refine (h.alloc _).bind ?_
  rintro row s₁ ⟨hg₁, hsome₁, h₁⟩
  revert hg₁ hsome₁
  obtain ⟨grant, grants⟩ := granted s.grants
  rintro hg₁ rfl
  cases row with
  | none => exact .pure ⟨hg₁, rfl, h₁.of_eq (zero_add _)⟩
  | some row =>
    simp only [Option.isSome_some, callocAll, calloc_eq_granted]
    refine (utilsStrdup_spec h₁ _).bind ?_
    rintro id s₂ ⟨hg₂, hsome₂, h₂⟩
    have hslots : Owns s₂ (cell row (.slots (List.replicate (stmt.items.1.length + 1) (some none))) +
        (CellAt.owned (id.map fun p => (p, lld nextId)) + frame)) := h₂.of_eq (by
      rw [Option.elim_some]
      ac_rfl)
    refine (storeSlot_spec hslots (by simp) id).bind ?_
    rintro _ s₃ ⟨hg₃, h₃⟩
    rw [hg₁] at hg₂ hsome₂
    simp only at hg₂ hsome₂
    have hg := hg₃.trans hg₂
    revert hsome₂ hg
    obtain ⟨grant, grants⟩ := granted grants
    rintro rfl hg
    cases id with
    | none =>
      refine h₃.free.bind ?_
      rintro _ s₄ ⟨hg₄, h₄⟩
      exact .pure ⟨hg₄.trans hg, rfl, h₄.of_eq (zero_add _)⟩
    | some id =>
      rw [List.replicate_succ, List.set_cons_zero] at h₃
      have hfirst : Owns s₃ (cell row (.slots (([some (id, lld nextId)] : List CellAt).map
          CellAt.slot ++ List.replicate stmt.items.1.length (some none))) +
          cellsOwned [some (id, lld nextId)] + frame) := h₃.of_eq (by simp [CellAt.slot, add_assoc])
      refine (buildCells_spec (i := 0) stmt.items.1 _ rfl hfirst).mono ?_
      rintro r s₄ ⟨hg₄, hbuilt⟩
      rw [hg] at hg₄ hbuilt
      simp only [Option.isSome_some] at hg₄ hbuilt ⊢
      refine ⟨hg₄, ?_⟩
      split at hbuilt
      · rename_i hall
        rw [if_pos hall]
        obtain ⟨hr, copies, hcopies, h₄⟩ := hbuilt
        refine ⟨_, hr, ?_, h₄⟩
        simp [RowAt.Holds, hcopies]
      · rename_i hall
        rw [if_neg hall]
        exact hbuilt

end Mem

/-! ## Tables -/

def RowAt.slot (r : RowAt) : Option (Option Ptr) := some (some r.ptr)

def rowsOwned (rows : List RowAt) : Blocks := (rows.map RowAt.owned).sum

@[simp] theorem rowsOwned_nil : rowsOwned [] = 0 := rfl

@[simp] theorem rowsOwned_cons (r : RowAt) (rows : List RowAt) :
    rowsOwned (r :: rows) = r.owned + rowsOwned rows := rfl

@[simp] theorem rowsOwned_append (rows rows' : List RowAt) :
    rowsOwned (rows ++ rows') = rowsOwned rows + rowsOwned rows' := by
  simp [rowsOwned]

theorem RowAt.Holds.length_eq {r : RowAt} {row : Row} (h : r.Holds row) :
    r.cells.length = row.length := by
  simpa using congrArg List.length h

/-- An array of rows that hold the texts, with `spare` slots behind them. -/
inductive RowsAt : Option Ptr → List Row → Nat → Blocks → Prop
  | null : RowsAt none [] 0 0
  | array {p : Ptr} {rows : List RowAt} {texts : List Row} (spare : List (Option (Option Ptr))) :
    List.Forall₂ RowAt.Holds rows texts → RowsAt (some p) texts spare.length
      (cell p (.slots (rows.map RowAt.slot ++ spare)) + rowsOwned rows)

/-- The blocks of nodes. -/
def nodesOwned (ps : List Ptr) : Blocks := (ps.map fun p => cell p Block.node).sum

@[simp] theorem nodesOwned_nil : nodesOwned [] = 0 := rfl

@[simp] theorem nodesOwned_cons (p : Ptr) (ps : List Ptr) :
    nodesOwned (p :: ps) = cell p Block.node + nodesOwned ps := rfl

@[simp] theorem nodesOwned_append (ps ps' : List Ptr) :
    nodesOwned (ps ++ ps') = nodesOwned ps + nodesOwned ps' := by
  simp [nodesOwned]

/-- The table is in memory, in the blocks it owns: a block for each node that was ever created for its
tree, the array of rows and the rows. -/
structure TableAt (m : TableMemory) (t : TableRuntime) (owned : Blocks) : Prop where
  fields : m.fields = { t with rows := [] }
  nodes : m.nodes.length = t.idIndex.nodes.length
  rows : ∃ texts spare stored, RowsAt m.rows texts spare stored ∧
    owned = nodesOwned m.nodes + stored ∧
    t.rows = texts.map some ++ List.replicate spare none ∧ texts.length = t.rowCount ∧
    ∀ row ∈ texts, row.length = t.colCount

/-- A new table owns nothing. -/
theorem tableAt_init (name : Identifier) :
    TableAt ⟨{ tableInit with tableName := name }, none, []⟩ { tableInit with tableName := name }
      0 :=
  ⟨rfl, rfl, [], 0, 0, .null, rfl, rfl, rfl, nofun⟩

/-- A size that an array of rows can have is not below the size it has. -/
theorem Roomy.le_newCapacity {t : TableRuntime} (hr : Roomy t) {n : Int}
    (hn : n = if t.capacity = 0 then (INITIAL_ROW_CAPACITY : Int)
      else Int.bmod (t.capacity * 2) (2 ^ 32)) (hfits : (n * 8) % 2 ^ 64 ≤ PTRDIFF_MAX) :
    t.capacity ≤ n.toNat := by
  have hle : t.capacity ≤ 2 ^ 30 := by
    rcases hr.doubled with hzero | ⟨k, hk, hcap⟩
    · rw [hzero]
      exact Nat.zero_le _
    · rw [hcap]
      exact Nat.mul_le_mul_left 16 (Nat.pow_le_pow_right (by decide) hk)
  split at hn
  · omega
  · rw [Int.bmod_def] at hn
    have hmax : (PTRDIFF_MAX : Int) = 2 ^ 63 - 1 := rfl
    split at hn <;> omega

namespace Mem

/-- The array of rows moves to a larger block, or stays where that is refused. -/
theorem resizeSlots_spec {rows : Option Ptr} {texts : List Row} {spare n : Nat}
    {owned frame : Blocks} {s : State Block} (hrows : RowsAt rows texts spare owned)
    (hle : texts.length + spare ≤ n) (h : Owns s (owned + frame)) :
    Spec (realloc rows (resizeSlots n)) s fun r s' =>
      s'.grants = (granted s.grants).2 ∧ r.isSome = (granted s.grants).1 ∧
      ∃ owned', Owns s' (owned' + frame) ∧ (r = none → owned' = owned) ∧
        ∀ p, r = some p → RowsAt (some p) texts (spare + (n - (texts.length + spare))) owned' := by
  cases hrows with
  | null =>
    refine (h.alloc (resizeSlots n none)).mono ?_
    rintro r s' ⟨hg, hsome, h'⟩
    rw [zero_add] at h'
    refine ⟨hg, hsome, _, h', ?_, ?_⟩
    · rintro rfl
      rfl
    · rintro p rfl
      have hspare := RowsAt.array (p := p) (List.replicate n (none : Option (Option Ptr)))
        (.nil (R := RowAt.Holds))
      simpa [resizeSlots] using hspare
  | @array p stored texts spare hholds =>
    have hlength : (stored.map RowAt.slot ++ spare).length = texts.length + spare.length := by
      simp [hholds.length_eq]
    rw [add_assoc] at h
    refine (h.realloc (resizeSlots n)).mono ?_
    rintro r s' ⟨hg, hsome, h'⟩
    refine ⟨hg, hsome, _, h'.of_eq (add_assoc _ _ _).symm, ?_, ?_⟩
    · rintro rfl
      rfl
    · rintro p rfl
      have hspare := RowsAt.array (p := p)
        (spare ++ List.replicate (n - (texts.length + spare.length)) none) hholds
      rw [Option.elim_some, resizeSlots, List.take_of_length_le (hlength ▸ hle), hlength,
        List.append_assoc]
      simpa using hspare

/-- `table_reserve_if_needed` on the heap and on the table. -/
theorem tableReserveIfNeeded_spec {m : TableMemory} {t : TableRuntime} {owned frame : Blocks}
    {s : State Block} (hat : TableAt m t owned) (hr : Roomy t) (h : Owns s (owned + frame)) :
    Spec (tableReserveIfNeeded m) s fun r s' =>
      s'.grants = (JungleDb.tableReserveIfNeeded t s.grants).2.2 ∧
      r.1 = (JungleDb.tableReserveIfNeeded t s.grants).1 ∧
      ∃ owned', TableAt r.2 (JungleDb.tableReserveIfNeeded t s.grants).2.1 owned' ∧
        Owns s' (owned' + frame) := by
  obtain ⟨fields, rows, nodes⟩ := m
  have hsame := hat
  obtain ⟨rfl, hnodes, texts, spare, stored, hrows, rfl, hslots, hcount, hwidth⟩ := hat
  simp only [tableReserveIfNeeded, JungleDb.tableReserveIfNeeded]
  by_cases hroom : t.rowCount < t.capacity
  · simp only [if_pos hroom]
    exact .pure ⟨rfl, rfl, _, hsame, h⟩
  · simp only [if_neg hroom]
    generalize hn : (if t.capacity = 0 then (INITIAL_ROW_CAPACITY : Int)
      else Int.bmod (t.capacity * 2) (2 ^ 32)) = n
    unfold reallocRows
    by_cases hfits : (n * 8) % 2 ^ 64 ≤ PTRDIFF_MAX
    · simp only [if_pos hfits]
      have hle := hr.le_newCapacity hn.symm hfits
      rw [← hr.slots] at hle
      have hlength : texts.length + spare = t.rows.length := by simp [hslots]
      refine (resizeSlots_spec hrows (hlength ▸ hle) (h.of_eq
        (m := stored + (nodesOwned nodes + frame)) (by ac_rfl))).bind ?_
      rintro r s' ⟨hg, hsome, stored', h', hkept, hmoved⟩
      have h' : Owns s' (nodesOwned nodes + stored' + frame) := h'.of_eq (by ac_rfl)
      rw [calloc_eq_granted]
      revert hg hsome
      obtain ⟨grant, grants⟩ := granted s.grants
      rintro hg rfl
      cases r with
      | none =>
        obtain rfl := hkept rfl
        exact .pure ⟨hg, rfl, _, hsame, h'⟩
      | some p =>
        refine .pure ⟨hg, rfl, _, ⟨rfl, hnodes, texts, _, stored', hmoved p rfl, rfl, ?_, hcount,
          hwidth⟩, h'⟩
        change t.rows ++ List.replicate (n.toNat - t.rows.length) none = _
        rw [List.replicate_add, ← List.append_assoc, ← hslots, hlength]
    · simp only [if_neg hfits]
      exact .pure ⟨rfl, rfl, _, hsame, h⟩

/-! ### Nodes -/

theorem loadNodes_spec {owned : Blocks} {s : State Block} (h : Owns s owned) {ps : List Ptr}
    (hsub : nodesOwned ps ⊆ owned) : Spec (loadNodes ps) s fun _ s' => s' = s := by
  induction ps with
  | nil => exact .pure rfl
  | cons p ps ih =>
    rw [nodesOwned_cons] at hsub
    have hmem : (p, Block.node) ∈ owned :=
      hsub (Multiset.mem_add.mpr (.inl (Multiset.mem_singleton_self _)))
    refine (h.read_of_mem hmem).bind ?_
    rintro _ s ⟨-, rfl⟩
    exact ih fun c hc => hsub (Multiset.mem_add.mpr (.inr hc))

theorem bptreeSearch_spec {t : Bptree} {nodes : List Ptr} {key : Int} {found : Option Int}
    {owned : Blocks} {s : State Block} (h : Owns s owned) (hsub : nodesOwned nodes ⊆ owned)
    (hrun : JungleDb.bptreeSearch t key = some found) :
    Spec (bptreeSearch t nodes key) s fun r s' => r = found ∧ s' = s := by
  refine (loadNodes_spec h hsub).bind ?_
  rintro _ s rfl
  rw [hrun]
  exact .pure ⟨rfl, rfl⟩

theorem placeNodes_spec (n : Nat) {owned : Blocks} {s : State Block} (h : Owns s owned) :
    Spec (placeNodes n) s fun ps s' => ps.length = n ∧ s'.grants = s.grants ∧
      Owns s' (nodesOwned ps + owned) := by
  induction n generalizing s owned with
  | zero => exact .pure ⟨rfl, rfl, h.of_eq (zero_add _).symm⟩
  | succ n ih =>
    refine (h.place .node).bind ?_
    rintro p s₁ ⟨hg₁, h₁⟩
    refine (ih h₁).bind ?_
    rintro ps s₂ ⟨hlength, hg₂, h₂⟩
    refine .pure ⟨congrArg (· + 1) hlength, hg₂.trans hg₁, h₂.of_eq ?_⟩
    rw [nodesOwned_cons]
    ac_rfl

/-- What the call adds to the tree it adds to the blocks. -/
theorem bptreeInsert_spec {t t' : Bptree} {nodes : List Ptr} {key rowIndex : Int}
    {exit : InsertExit} {s : State Block} {frame : Blocks}
    (hnodes : nodes.length = t.nodes.length) (hle : t.nodes.length ≤ t'.nodes.length)
    (h : Owns s (nodesOwned nodes + frame))
    (hrun : JungleDb.bptreeInsert t s.grants key rowIndex = some (exit, t')) :
    Spec (bptreeInsert t nodes key rowIndex) s fun r s' => ∃ created, r = (exit, t', created) ∧
      created.length = t'.nodes.length ∧ Owns s' (nodesOwned created + frame) := by
  refine (loadNodes_spec h fun c hc => Multiset.mem_add.mpr (.inl hc)).bind ?_
  rintro _ s rfl
  have hinsert : Spec (bptreeInsertNodes t key rowIndex) s fun r s' => r = (exit, t') ∧
      Owns s' (nodesOwned nodes + frame) := by
    obtain ⟨r, hstate, heq⟩ := Option.map_eq_some_iff.mp hrun
    refine ⟨_, _, ?_, heq, h.withGrants r.2.callocs⟩
    rw [bptreeInsertNodes, hstate]
    rfl
  refine hinsert.bind ?_
  rintro _ s₁ ⟨rfl, h₁⟩
  refine (placeNodes_spec (t'.nodes.length - t.nodes.length) h₁).bind ?_
  rintro ps s₂ ⟨hlength, -, h₂⟩
  refine .pure ⟨nodes ++ ps, rfl, ?_, h₂.of_eq ?_⟩
  · rw [List.length_append, hnodes, hlength, Nat.add_sub_cancel' hle]
  · rw [nodesOwned_append]
    ac_rfl

/-- `table_insert_row` from the row that was built, on the heap and on the table. -/
theorem tableStoreRow_spec {m : TableMemory} {t t' : TableRuntime} {owned frame : Blocks}
    {s : State Block} {b : RowAt} {row : Row} {result : Sql Nat} (hat : TableAt m t owned)
    (htree : Reachable t.idIndex) (hb : b.Holds row) (hwidth : row.length = t.colCount)
    (h : Owns s (b.owned + (owned + frame)))
    (hrun : JungleDb.tableStoreRow t row s.grants = some (result, t')) :
    Spec (tableStoreRow m b.ptr) s fun r s' => r.1 = result ∧
      ∃ owned', TableAt r.2 t' owned' ∧ Owns s' (owned' + frame) := by
  obtain ⟨fields, rows, nodes⟩ := m
  have hsame := hat
  obtain ⟨rfl, hnodes, texts, spare, stored, hrows, rfl, hslots, hcount, hwidths⟩ := hat
  have hcells : b.cells.length = t.colCount := hb.length_eq.trans hwidth
  simp only [tableStoreRow]
  unfold JungleDb.tableStoreRow at hrun
  by_cases hid : INT_MAX < t.nextId
  · rw [if_pos hid] at hrun ⊢
    cases hrun
    refine (tableFreeOwnedRow_spec hcells h).bind ?_
    rintro _ s₁ ⟨-, h₁⟩
    exact .pure ⟨rfl, _, hsame, h₁⟩
  · rw [if_neg hid] at hrun ⊢
    by_cases hroom : t.rowCount < t.rows.length
    swap
    · rw [if_neg hroom] at hrun
      cases hrun
    rw [if_pos hroom] at hrun
    cases hrows with
    | null =>
      rw [hslots] at hroom
      exact absurd hroom (Nat.not_lt_zero _)
    | @array p stored texts spare hholds =>
      obtain ⟨slot, rest, rfl⟩ : ∃ slot rest, spare = slot :: rest := by
        cases spare with
        | nil =>
          rw [hslots] at hroom
          simp [hcount] at hroom
        | cons slot rest => exact ⟨slot, rest, rfl⟩
      have hindex : t.rowCount = (stored.map RowAt.slot).length := by
        rw [List.length_map, hholds.length_eq, hcount]
      have hlist : t.rowCount = (texts.map some).length := by
        rw [List.length_map, hcount]
      simp only
      refine (storeSlot_spec (h.of_eq (m := cell p _ +
        (nodesOwned nodes + (rowsOwned stored + b.owned + frame))) (by ac_rfl)) (by simp [hindex])
        (some b.ptr)).bind ?_
      rintro _ s₁ ⟨hg₁, h₁⟩
      rw [hindex, set_append_cons, List.append_assoc, List.singleton_append] at h₁
      rw [Option.bind_eq_bind, Option.bind_eq_some_iff] at hrun
      obtain ⟨⟨exit, idIndex⟩, hinsert, hrun⟩ := hrun
      have hle : t.idIndex.nodes.length ≤ idIndex.nodes.length := by
        obtain ⟨exit', idIndex', hinsert', hloses⟩ :=
          htree.insert_loses s.grants t.nextId t.rowCount
        cases hinsert'.symm.trans hinsert
        exact hloses.length_le
      rw [← hg₁] at hinsert
      refine (bptreeInsert_spec hnodes hle (h₁.of_eq (m := nodesOwned nodes + (cell p _ +
        (rowsOwned stored + b.owned + frame))) (by ac_rfl)) hinsert).bind ?_
      rintro _ s₂ ⟨created, rfl, hcreated, h₂⟩
      simp only at hrun ⊢
      cases hexit : exit.status with
      | success =>
        rw [hexit] at hrun
        cases hrun
        refine .pure ⟨rfl, _, ⟨rfl, hcreated, texts ++ [row], rest.length, _,
          .array rest (List.rel_append hholds (.cons hb .nil)), rfl, ?_, ?_, ?_⟩, h₂.of_eq ?_⟩
        · rw [hslots, hlist, List.length_cons, List.replicate_succ, set_append_cons]
          simp
        · simp [hcount]
        · rw [List.forall_mem_append]
          exact ⟨hwidths, by simpa using hwidth⟩
        · simp [RowAt.slot]
          ac_rfl
      | failure =>
        rw [hexit] at hrun
        cases hrun
        have hslot : (stored.map RowAt.slot ++ some (some b.ptr) :: rest)[t.rowCount]? =
            some (some (some b.ptr)) := by
          simp [hindex]
        have h₂ := h₂.of_eq (m := cell p _ + (nodesOwned created +
          (rowsOwned stored + b.owned + frame))) (by ac_rfl)
        refine (loadSlot_spec h₂ hslot).bind ?_
        rintro _ _ ⟨rfl, rfl⟩
        refine (tableFreeOwnedRow_spec hcells (h₂.of_eq (m := b.owned + (cell p _ +
          (nodesOwned created + (rowsOwned stored + frame)))) (by ac_rfl))).bind ?_
        rintro _ s₃ ⟨-, h₃⟩
        refine (storeSlot_spec h₃ (by simp [hindex]) none).bind ?_
        rintro _ s₄ ⟨-, h₄⟩
        rw [hindex, set_append_cons, List.append_assoc, List.singleton_append] at h₄
        refine .pure ⟨rfl, _, ⟨rfl, hcreated, texts, _, _, .array (some none :: rest) hholds, rfl, ?_,
          hcount, hwidths⟩, h₄.of_eq (by ac_rfl)⟩
        rw [hslots, hlist, List.length_cons, List.replicate_succ, set_append_cons]
        simp [List.replicate_succ]

/-- `table_insert_row` from the array of rows on. -/
theorem tableAppendRow_spec {m : TableMemory} {t t' : TableRuntime} {owned frame : Blocks}
    {s : State Block} {stmt : InsertStatement} {result : Sql Nat} (hat : TableAt m t owned)
    (htree : Reachable t.idIndex) (hr : Roomy t) (hcols : t.colCount = stmt.items.1.length + 1)
    (h : Owns s (owned + frame))
    (hrun : JungleDb.tableAppendRow t stmt s.grants = some (result, t')) :
    Spec (tableAppendRow m stmt) s fun r s' => r.1 = result ∧
      ∃ owned', TableAt r.2 t' owned' ∧ Owns s' (owned' + frame) := by
  unfold JungleDb.tableAppendRow at hrun
  refine (tableReserveIfNeeded_spec hat hr h).bind ?_
  rintro ⟨reserved, m₁⟩ s₁ ⟨hg₁, hreserved, owned₁, hat₁, h₁⟩
  have hcols₁ : (JungleDb.tableReserveIfNeeded t s.grants).2.1.colCount = t.colCount ∧
      (JungleDb.tableReserveIfNeeded t s.grants).2.1.nextId = t.nextId ∧
      (JungleDb.tableReserveIfNeeded t s.grants).2.1.idIndex = t.idIndex := by
    unfold JungleDb.tableReserveIfNeeded
    split
    · exact ⟨rfl, rfl, rfl⟩
    · simp only
      split <;> exact ⟨rfl, rfl, rfl⟩
  generalize JungleDb.tableReserveIfNeeded t s.grants = call at *
  obtain ⟨reserved', t₁, grants⟩ := call
  obtain ⟨hcol₁, hnext₁, hindex₁⟩ := hcols₁
  simp only at hg₁ hreserved hat₁ hcol₁ hnext₁ hindex₁
  subst hreserved
  cases reserved with
  | error e =>
    cases hrun
    exact .pure ⟨rfl, owned₁, hat₁, h₁⟩
  | ok =>
    simp only at hrun ⊢
    rw [hat₁.fields]
    simp only [hcol₁, hcols]
    refine (tableBuildRow_spec h₁ stmt t₁.nextId).bind ?_
    rintro r s₂ ⟨hg₂, hbuilt⟩
    rw [hg₁] at hg₂ hbuilt
    have hlength : ∀ row, (JungleDb.tableBuildRow stmt t₁.nextId grants).1 = some row →
        row.length = t₁.colCount := by
      intro row hrow
      unfold JungleDb.tableBuildRow at hrow
      split at hrow
      · cases hrow
        simp [hcol₁, hcols]
      · cases hrow
    generalize JungleDb.tableBuildRow stmt t₁.nextId grants = built at *
    obtain ⟨row, grants'⟩ := built
    cases row with
    | none =>
      obtain ⟨rfl, h₂⟩ := hbuilt
      cases hrun
      exact .pure ⟨rfl, owned₁, hat₁, h₂⟩
    | some row =>
      obtain ⟨b, rfl, hb, h₂⟩ := hbuilt
      simp only at hrun hg₂
      rw [← hg₂] at hrun
      exact tableStoreRow_spec hat₁ (hindex₁ ▸ htree) hb (hlength row rfl) h₂ hrun

end Mem

/-! ### The schema -/

/-- The loop reads and writes no rows. -/
theorem initializeColumns_rows (items : List InsertItem) (i : Nat) (t : TableRuntime)
    (rows : List (Option Row)) :
    initializeColumns i items { t with rows := rows } =
      ((initializeColumns i items t).1, { (initializeColumns i items t).2 with rows := rows }) := by
  induction items generalizing i t with
  | nil => rfl
  | cons item items ih =>
    rw [initializeColumns, initializeColumns]
    split
    · rfl
    · cases utilsSafeStrcpy MAX_IDENTIFIER_LEN item.column.text with
      | none => rfl
      | some name => exact ih (i + 1) { t with
          columns := wr t.columns (i + 1) name
          columnValueKinds := wr t.columnValueKinds (i + 1) item.valueKind }

theorem validateColumns_rows (items : List InsertItem) (i : Nat) (t : TableRuntime)
    (rows : List (Option Row)) :
    validateColumns { t with rows := rows } i items = validateColumns t i items := by
  induction items generalizing i with
  | nil => rfl
  | cons item items ih => rw [validateColumns, validateColumns, ih]

theorem tableCheckSchema_rows (t : TableRuntime) (stmt : InsertStatement)
    (rows : List (Option Row)) :
    tableCheckSchema { t with rows := rows } stmt =
      ((tableCheckSchema t stmt).1, { (tableCheckSchema t stmt).2 with rows := rows }) := by
  unfold tableCheckSchema
  by_cases hload : t.loaded = true
  · rw [if_pos hload, if_pos hload]
    unfold tableValidateInsertSchema
    rw [validateColumns_rows]
  · rw [if_neg hload, if_neg hload]
    unfold tableInitializeSchema
    split
    · rfl
    · have hrows := initializeColumns_rows stmt.items.1 0 { t with
        colCount := stmt.items.1.length + 1
        columns := wr t.columns 0 idName
        columnValueKinds := wr t.columnValueKinds 0 .int } rows
      simp only at hrows ⊢
      rw [hrows]
      obtain ⟨checked, u⟩ := initializeColumns 0 stmt.items.1 { t with
        colCount := stmt.items.1.length + 1
        columns := wr t.columns 0 idName
        columnValueKinds := wr t.columnValueKinds 0 .int }
      cases checked <;> rfl

/-- A statement that is let through has as many values as the schema. -/
theorem tableCheckSchema_colCount {t : TableRuntime} {stmt : InsertStatement}
    (h : (tableCheckSchema t stmt).1 = .ok ()) :
    (tableCheckSchema t stmt).2.colCount = stmt.items.1.length + 1 := by
  unfold tableCheckSchema at h ⊢
  cases hload : t.loaded with
  | true =>
    rw [hload] at h
    simp only [if_true] at h ⊢
    unfold tableValidateInsertSchema at h
    split at h
    · cases h
    · omega
  | false =>
    rw [hload] at h
    rw [if_neg Bool.false_ne_true] at h ⊢
    obtain ⟨u, -, -, hspec⟩ := tableInitializeSchema_spec hload stmt
    split at hspec
    · rw [hspec.1] at h
      cases h
    · split at hspec
      · rw [hspec.1] at h
        cases h
      · rw [hspec.1, hspec.2.colCount]
        simp

namespace Mem

theorem tableInsertNamed_spec {m : TableMemory} {t t' : TableRuntime} {owned frame : Blocks}
    {s : State Block} {stmt : InsertStatement} {result : Sql Nat} (hat : TableAt m t owned)
    (htree : Reachable t.idIndex) (hempty : t.loaded = false → t.rowCount = 0) (hr : Roomy t)
    (h : Owns s (owned + frame))
    (hrun : JungleDb.tableInsertNamed t stmt s.grants = some (result, t')) :
    Spec (tableInsertNamed m stmt) s fun r s' => r.1 = result ∧
      ∃ owned', TableAt r.2 t' owned' ∧ Owns s' (owned' + frame) := by
  obtain ⟨fields, rows, nodes⟩ := m
  obtain ⟨rfl, hnodes, texts, spare, stored, hrows, rfl, hslots, hcount, hwidth⟩ := hat
  rw [tableInsertNamed_check] at hrun
  simp only [tableInsertNamed, tableCheckSchema_rows]
  have hframe := (tableCheckSchema_frame t stmt).1
  have hcols : (tableCheckSchema t stmt).1 = .ok () → (tableCheckSchema t stmt).2.colCount = _ :=
    tableCheckSchema_colCount
  -- The number of columns is set only where there are no rows.
  have hkept : t.loaded = true → (tableCheckSchema t stmt).2 = t := by
    intro hload
    unfold tableCheckSchema
    rw [if_pos hload]
  generalize tableCheckSchema t stmt = call at *
  obtain ⟨checked, u⟩ := call
  have hat : TableAt ⟨{ u with rows := [] }, rows, nodes⟩ u (nodesOwned nodes + stored) := by
    refine ⟨rfl, hframe.idIndex ▸ hnodes, texts, spare, stored, hrows, rfl,
      hframe.rows.trans hslots, hcount.trans hframe.rowCount.symm, ?_⟩
    intro row hrow
    cases hload : t.loaded with
    | true =>
      obtain rfl : u = t := hkept hload
      exact hwidth row hrow
    | false =>
      rw [hempty hload, List.length_eq_zero_iff] at hcount
      subst hcount
      cases hrow
  cases checked with
  | error e =>
    cases hrun
    exact .pure ⟨rfl, _, hat, h⟩
  | ok =>
    exact tableAppendRow_spec hat (hframe.idIndex ▸ htree) (hframe.roomy hr) (hcols rfl) h hrun

/-- A call of `table_insert_row` does on the heap what it does to the table, and the blocks that are
allocated then are those of the table it leaves. -/
theorem tableInsertRow_spec {m : TableMemory} {t t' : TableRuntime} {owned frame : Blocks}
    {s : State Block} {stmt : InsertStatement} {result : Sql Nat} (hat : TableAt m t owned)
    (htree : Reachable t.idIndex) (hempty : t.loaded = false → t.rowCount = 0) (hr : Roomy t)
    (h : Owns s (owned + frame))
    (hrun : JungleDb.tableInsertRow t stmt s.grants = some (result, t')) :
    Spec (tableInsertRow m stmt) s fun r s' => r.1 = result ∧
      ∃ owned', TableAt r.2 t' owned' ∧ Owns s' (owned' + frame) := by
  obtain ⟨fields, rows, nodes⟩ := m
  obtain ⟨rfl, hnodes, texts, spare, stored, hrows, rfl, hslots, hcount, hwidth⟩ := hat
  rw [tableInsertRow_eq] at hrun
  have hadopt := sameRows_adopt t stmt
  have hat : TableAt ⟨{ t.adopt stmt with rows := [] }, rows, nodes⟩ (t.adopt stmt)
      (nodesOwned nodes + stored) := by
    refine ⟨rfl, hadopt.idIndex ▸ hnodes, texts, spare, stored, hrows, rfl,
      hadopt.rows.trans hslots, hcount.trans hadopt.rowCount.symm, ?_⟩
    unfold TableRuntime.adopt
    split <;> exact hwidth
  have hnamed : tableInsertRow ⟨{ t with rows := [] }, rows, nodes⟩ stmt =
      if !utilsEqualsIgnoreCase (t.adopt stmt).tableName.text stmt.tableName.text then
        pure (.error (message "Active runtime table does not match INSERT target."),
          ⟨{ t.adopt stmt with rows := [] }, rows, nodes⟩)
      else tableInsertNamed ⟨{ t.adopt stmt with rows := [] }, rows, nodes⟩ stmt := by
    unfold tableInsertRow TableRuntime.adopt
    by_cases hname : t.tableName.text = []
    · simp [hname, utilsSafeStrcpy_text]
    · simp [hname]
  rw [hnamed, utilsEqualsIgnoreCase_eq]
  by_cases hsame : SameName (t.adopt stmt).tableName.text stmt.tableName.text
  · rw [if_pos hsame] at hrun
    rw [decide_eq_true hsame]
    refine tableInsertNamed_spec hat (hadopt.idIndex ▸ htree) ?_ (hadopt.roomy hr) h hrun
    unfold TableRuntime.adopt
    split <;> exact hempty
  · rw [if_neg hsame] at hrun
    cases hrun
    rw [decide_eq_false hsame]
    exact .pure ⟨rfl, _, hat, h⟩

end Mem

end JungleDb
