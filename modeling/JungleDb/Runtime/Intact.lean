import Mathlib.Algebra.BigOperators.Group.List.Basic
import JungleDb.Runtime.Owned

/-!
# Tables whose allocations may fail

Whatever requests for memory are refused along the way, a table stores the rows of the calls of
`table_insert_row` that returned `SUCCESS`, in order and under the ids from 1 on. Only the B+ tree
may lose keys, and with them nodes. `table_free` gives back all blocks of such a table, none of them
twice, but for the nodes that the tree has lost.
-/

namespace JungleDb

open CArray CString Heap

/-! ## `table_free` -/

namespace Mem

theorem freeTableRows_spec {p : Ptr} {colCount : Nat} {frame : Blocks}
    {rest : List (Option (Option Ptr))} (stored : List RowAt) {s : State Block}
    (done : List (Option (Option Ptr))) (hwidth : ∀ r ∈ stored, r.cells.length = colCount)
    (h : Owns s (cell p (.slots (done ++ stored.map RowAt.slot ++ rest)) + rowsOwned stored +
      frame)) :
    Spec (freeTableRows p colCount stored.length done.length) s fun _ s' =>
      ∃ ps, Owns s' (cell p (.slots ps) + frame) := by
  induction stored generalizing s done with
  | nil => exact .pure ⟨done ++ rest, h.of_eq (by simp)⟩
  | cons r stored ih =>
    obtain ⟨hfirst, hwidth⟩ := List.forall_mem_cons.mp hwidth
    rw [List.map_cons, rowsOwned_cons] at h
    rw [List.length_cons, freeTableRows]
    have hslot : (done ++ r.slot :: stored.map RowAt.slot ++ rest)[done.length]? =
        some (some (some r.ptr)) := by
      simp [RowAt.slot]
    refine (loadSlot_spec (h.of_eq (add_assoc _ _ _)) hslot).bind ?_
    rintro _ _ ⟨rfl, rfl⟩
    refine (tableFreeOwnedRow_spec hfirst (h.of_eq (m := r.owned + (cell p
      (.slots (done ++ r.slot :: stored.map RowAt.slot ++ rest)) + rowsOwned stored + frame))
      (by ac_rfl))).bind ?_
    rintro _ s₁ ⟨-, h₁⟩
    refine (storeSlot_spec (h₁.of_eq (add_assoc _ _ _)) (by simp) none).bind ?_
    rintro _ s₂ ⟨-, h₂⟩
    have hrest := ih (done ++ [some none]) hwidth (h₂.of_eq (by simp [add_assoc]))
    rw [List.length_append] at hrest
    exact hrest

theorem forall_of_forall₂ {α β : Type} {R : α → β → Prop} {P : α → Prop} {Q : β → Prop}
    {as : List α} {bs : List β} (h : List.Forall₂ R as bs) (hQ : ∀ b ∈ bs, Q b)
    (hP : ∀ a b, R a b → Q b → P a) : ∀ a ∈ as, P a := by
  induction h with
  | nil => exact nofun
  | cons hab _ ih =>
    obtain ⟨hb, hbs⟩ := List.forall_mem_cons.mp hQ
    exact List.forall_mem_cons.mpr ⟨hP _ _ hab hb, ih hbs⟩

/-- The blocks of the nodes that the tree has lost. -/
def lostOwned (b : Bptree) (nodes : List Ptr) : Blocks :=
  nodesOwned (b.lost.filterMap fun a => nodes[a]?)

theorem filterMap_getElem?_range {α : Type} (as : List α) :
    (List.range as.length).filterMap (fun i => as[i]?) = as := by
  induction as with
  | nil => rfl
  | cons a as ih =>
    rw [List.length_cons, List.range_succ_eq_map, List.filterMap_cons, List.filterMap_map]
    exact congrArg (a :: ·) ih

theorem nodesOwned_eq_zero {ps : List Ptr} : nodesOwned ps = 0 ↔ ps = [] := by
  cases ps with
  | nil => exact iff_of_true rfl rfl
  | cons p ps =>
    rw [nodesOwned_cons, cell, Multiset.singleton_add]
    exact iff_of_false Multiset.cons_ne_zero (List.cons_ne_nil _ _)

theorem lostOwned_eq_zero {b : Bptree} {nodes : List Ptr} (hnodes : nodes.length = b.nodes.length) :
    lostOwned b nodes = 0 ↔ b.lost = [] := by
  rw [lostOwned, nodesOwned_eq_zero, List.filterMap_eq_nil_iff, List.eq_nil_iff_forall_not_mem]
  refine forall₂_congr fun a ha => ?_
  have hlt : a < nodes.length := hnodes ▸ List.mem_range.mp (List.mem_filter.mp ha).1
  rw [List.getElem?_eq_getElem hlt]
  exact iff_of_false nofun id

theorem freeNodes_spec {nodes : List Ptr} {frame : Blocks} (as : List Addr) {s : State Block}
    (hlt : ∀ a ∈ as, a < nodes.length)
    (h : Owns s (nodesOwned (as.filterMap fun a => nodes[a]?) + frame)) :
    Spec (freeNodes nodes as) s fun _ s' => Owns s' frame := by
  induction as generalizing s with
  | nil => exact .pure (h.of_eq (zero_add _))
  | cons a as ih =>
    obtain ⟨ha, hlt⟩ := List.forall_mem_cons.mp hlt
    have hnode : nodes[a]? = some nodes[a] := List.getElem?_eq_getElem ha
    rw [List.filterMap_cons, hnode, nodesOwned_cons, add_assoc] at h
    simp only [freeNodes, hnode]
    refine h.read.bind ?_
    rintro _ _ ⟨-, rfl⟩
    refine h.free.bind ?_
    rintro _ s₁ ⟨-, h₁⟩
    exact ih hlt h₁

/-- `bptree_free` leaves the nodes that are lost. -/
theorem bptreeFree_spec {b : Bptree} {nodes : List Ptr} {frame : Blocks} {s : State Block}
    (htree : Reachable b) (hnodes : nodes.length = b.nodes.length)
    (h : Owns s (nodesOwned nodes + frame)) :
    Spec (bptreeFree b nodes) s fun _ s' => Owns s' (lostOwned b nodes + frame) := by
  obtain ⟨freed, hfreed, hperm⟩ := htree.freed_lost_perm
  have hsplit : nodesOwned nodes =
      nodesOwned (freed.filterMap fun a => nodes[a]?) + lostOwned b nodes := by
    have hmap := (hperm.filterMap fun a => nodes[a]?)
    rw [← hnodes, filterMap_getElem?_range, List.filterMap_append] at hmap
    rw [lostOwned, ← nodesOwned_append]
    exact ((hmap.map _).sum_eq).symm
  rw [hsplit, add_assoc] at h
  rw [bptreeFree, hfreed]
  refine freeNodes_spec freed (fun a ha => ?_) h
  have hmem := hperm.subset (List.mem_append_left _ ha)
  rwa [List.mem_range, ← hnodes] at hmem

/-- `table_free` leaves of the table the nodes that its tree has lost. -/
theorem tableFree_spec {m : TableMemory} {t : TableRuntime} {owned frame : Blocks}
    {s : State Block} (hat : TableAt m t owned) (htree : Reachable t.idIndex)
    (h : Owns s (owned + frame)) :
    Spec (tableFree m) s fun m' s' => m' = ⟨tableInit, none, []⟩ ∧
      Owns s' (lostOwned t.idIndex m.nodes + frame) := by
  obtain ⟨fields, rows, nodes⟩ := m
  obtain ⟨rfl, hnodes, texts, spare, stored, hrows, rfl, hslots, hcount, hwidth⟩ := hat
  refine (bptreeFree_spec htree hnodes (h.of_eq (add_assoc _ _ _))).bind ?_
  intro _ s₁ h₁
  replace h₁ : Owns s₁ (stored + (lostOwned t.idIndex nodes + frame)) := h₁.of_eq (by ac_rfl)
  have hrowsFree : Spec (tableFreeRows rows t.colCount t.rowCount) s₁ fun _ s' =>
      Owns s' (lostOwned t.idIndex nodes + frame) := by
    cases hrows with
    | null =>
      rw [zero_add] at h₁
      exact .pure h₁
    | @array p stored texts spare hholds =>
      have hwidths : ∀ r ∈ stored, r.cells.length = t.colCount :=
        forall_of_forall₂ hholds hwidth fun r row hr hrow => hr.length_eq.trans hrow
      have hfree := freeTableRows_spec stored [] hwidths h₁
      rw [hholds.length_eq, hcount] at hfree
      refine hfree.bind ?_
      rintro _ s₂ ⟨ps, h₂⟩
      refine h₂.free.mono ?_
      rintro _ s₃ ⟨-, h₃⟩
      exact h₃
  refine hrowsFree.bind ?_
  intro _ s₂ h₂
  exact .pure ⟨rfl, h₂⟩

end Mem

/-! ## The rows -/

/-- A statement that is let through finds or makes a schema. -/
theorem tableCheckSchema_loaded {t : TableRuntime} {stmt : InsertStatement}
    (h : (tableCheckSchema t stmt).1 = .ok ()) : (tableCheckSchema t stmt).2.loaded = true := by
  unfold tableCheckSchema at h ⊢
  cases hload : t.loaded with
  | true => simpa using hload
  | false =>
    rw [hload, if_neg Bool.false_ne_true] at h
    rw [if_neg Bool.false_ne_true]
    obtain ⟨u, -, -, hspec⟩ := tableInitializeSchema_spec hload stmt
    split at hspec
    · rw [hspec.1] at h
      cases h
    · split at hspec
      · rw [hspec.1] at h
        cases h
      · rw [hspec.1]
        exact hspec.2.loaded

/-- What a function that is modelled by its result returns. -/
def callStatus {α : Type} : Sql α → Status
  | .ok _ => .success
  | .error _ => .failure

theorem callStatus_success {α : Type} (result : Sql α) :
    callStatus result = .success ↔ result.isOk = true := by
  cases result with
  | ok a => exact iff_of_true rfl rfl
  | error e => exact iff_of_false nofun nofun

/-- The table stores the rows; nothing is said of what its tree finds. -/
structure Intact (t : TableRuntime) (rows : List Row) : Prop where
  roomy : Roomy t
  tree : Reachable t.idIndex
  slots : ∃ spare, t.rows = rows.map some ++ List.replicate spare none
  rowCount : rows.length = t.rowCount
  nextId : t.nextId = t.rowCount + 1
  width : ∀ row ∈ rows, row.length = t.colCount
  unloaded : t.loaded = false → rows = []

theorem intact_named (name : Identifier) : Intact { tableInit with tableName := name } [] :=
  ⟨(represents_named name).2.roomy, .empty, ⟨0, rfl⟩, rfl, rfl, nofun, fun _ => rfl⟩

namespace Intact

variable {t u : TableRuntime} {rows : List Row}

/-- What does not touch the rows may change the schema of a table that has none. -/
theorem of_sameRows (h : Intact t rows) (hsame : SameRows t u)
    (hloaded : u.loaded = false → t.loaded = false)
    (hcols : t.loaded = true → u.colCount = t.colCount) : Intact u rows := by
  obtain ⟨hroomy, htree, ⟨spare, hslots⟩, hcount, hnext, hwidth, hunloaded⟩ := h
  refine ⟨hsame.roomy hroomy, hsame.idIndex ▸ htree, ⟨spare, hsame.rows.trans hslots⟩,
    hcount.trans hsame.rowCount.symm, ?_, ?_, fun hu => hunloaded (hloaded hu)⟩
  · rw [hsame.nextId, hsame.rowCount, hnext]
  · intro row hrow
    cases hload : t.loaded with
    | true => exact (hwidth row hrow).trans (hcols hload).symm
    | false =>
      rw [hunloaded hload] at hrow
      cases hrow

theorem adopt (h : Intact t rows) (stmt : InsertStatement) : Intact (t.adopt stmt) rows := by
  refine h.of_sameRows (sameRows_adopt t stmt) ?_ ?_
  · unfold TableRuntime.adopt
    split <;> exact id
  · unfold TableRuntime.adopt
    split <;> exact fun _ => rfl

theorem checkSchema (h : Intact t rows) (stmt : InsertStatement) :
    Intact (tableCheckSchema t stmt).2 rows := by
  have hkept : t.loaded = true → (tableCheckSchema t stmt).2 = t := by
    intro hload
    unfold tableCheckSchema
    rw [if_pos hload]
  refine h.of_sameRows (tableCheckSchema_frame t stmt).1 ?_ ?_
  · intro hu
    by_contra hload
    rw [Bool.not_eq_false] at hload
    rw [hkept hload, hload] at hu
    cases hu
  · intro hload
    rw [hkept hload]

theorem reserve (h : Intact t rows) (allocs : List Bool) :
    Intact (tableReserveIfNeeded t allocs).2.1 rows ∧
      (tableReserveIfNeeded t allocs).2.1.nextId = t.nextId ∧
      (tableReserveIfNeeded t allocs).2.1.colCount = t.colCount ∧
      (tableReserveIfNeeded t allocs).2.1.loaded = t.loaded ∧
      (tableReserveIfNeeded t allocs).2.1.idIndex = t.idIndex ∧
      ((tableReserveIfNeeded t allocs).1 = .ok () →
        (tableReserveIfNeeded t allocs).2.1.rowCount <
          (tableReserveIfNeeded t allocs).2.1.rows.length) := by
  by_cases hroom : t.rowCount < t.capacity
  · unfold tableReserveIfNeeded
    rw [if_pos hroom]
    exact ⟨h, rfl, rfl, rfl, rfl, fun _ => h.roomy.slots ▸ hroom⟩
  · by_cases hfull : t.rowCount = MAX_ROWS
    · rw [h.roomy.reserve_full hfull]
      exact ⟨h, rfl, rfl, rfl, rfl, nofun⟩
    · obtain ⟨n, k, hk, hn, hlt, hrun⟩ := h.roomy.reserve_grow hroom hfull allocs
      rw [hrun]
      obtain ⟨grant, allocs⟩ := calloc allocs
      cases grant with
      | false => exact ⟨h, rfl, rfl, rfl, rfl, nofun⟩
      | true =>
        have hroomy := h.roomy.grown hk hn hlt.le
        obtain ⟨spare, hslots⟩ := h.slots
        refine ⟨⟨hroomy, h.tree, ⟨spare + (n - t.rows.length), ?_⟩, h.rowCount, h.nextId, h.width,
          h.unloaded⟩, rfl, rfl, rfl, rfl, fun _ => ?_⟩
        · rw [RowStore.grown, List.replicate_add, ← List.append_assoc, ← hslots]
        · rw [hroomy.slots]
          exact Nat.lt_of_le_of_lt h.roomy.fits hlt

/-- The row that was built takes the next slot, unless the ids or the memory for the tree are used
up. -/
theorem storeRow (h : Intact t rows) (hroom : t.rowCount < t.rows.length) (hload : t.loaded = true)
    {row : Row} (hwidth : row.length = t.colCount) (allocs : List Bool) :
    ∃ result t', tableStoreRow t row allocs = some (result, t') ∧
      (∀ slot, result = .ok slot → slot = rows.length) ∧
      Loses (callStatus result) t.idIndex t'.idIndex ∧
      Intact t' (if result.isOk then rows ++ [row] else rows) := by
  obtain ⟨hroomy, htree, ⟨spare, hslots⟩, hcount, hnext, hwidths, -⟩ := h
  unfold tableStoreRow
  by_cases hid : INT_MAX < t.nextId
  · rw [if_pos hid]
    refine ⟨_, _, rfl, nofun, .refl _ _, hroomy, htree, ⟨spare, hslots⟩, hcount, hnext, hwidths, ?_⟩
    rw [hload]
    nofun
  rw [if_neg hid, if_pos hroom]
  obtain ⟨exit, idIndex, hinsert, hloses⟩ := htree.insert_loses allocs t.nextId t.rowCount
  have htree' : Reachable idIndex := .insert htree hinsert
  obtain ⟨spare, rfl⟩ : ∃ n, spare = n + 1 := by
    rw [hslots] at hroom
    simp only [List.length_append, List.length_map, List.length_replicate] at hroom
    exact ⟨spare - 1, by omega⟩
  have hset : ∀ slot : Option Row, t.rows.set t.rowCount slot =
      rows.map some ++ [slot] ++ List.replicate spare none := by
    intro slot
    have hlength : t.rowCount = (rows.map some).length := by rw [List.length_map, hcount]
    rw [hslots, hlength, List.replicate_succ, Mem.set_append_cons]
  simp only [hinsert, Option.bind_eq_bind, Option.bind_some]
  cases hexit : exit.status with
  | failure =>
    rw [hexit] at hloses
    refine ⟨_, _, rfl, nofun, hloses, ⟨?_, hroomy.fits, hroomy.doubled⟩, htree',
      ⟨spare + 1, ?_⟩, hcount, hnext, hwidths, ?_⟩
    · rw [List.length_set]
      exact hroomy.slots
    · simp only [hset]
      rw [List.append_assoc, List.singleton_append, ← List.replicate_succ]
      rfl
    · rw [hload]
      nofun
  | success =>
    rw [hexit] at hloses
    refine ⟨_, _, rfl, ?_, hloses, ⟨?_, ?_, hroomy.doubled⟩, htree', ⟨spare, ?_⟩, ?_, ?_,
      ?_, ?_⟩
    · rintro _ ⟨⟩
      exact hcount.symm
    · rw [List.length_set]
      exact hroomy.slots
    · exact hroomy.slots ▸ hroom
    · simp only [hset]
      simp [Except.isOk, Except.toBool]
    · simp [Except.isOk, Except.toBool, hcount]
    · simp [hnext]
    · change ∀ r ∈ rows ++ [row], r.length = t.colCount
      rw [List.forall_mem_append]
      exact ⟨hwidths, by simpa using hwidth⟩
    · rw [hload]
      nofun

/-- A call of `table_insert_row` adds its row exactly if it returns `SUCCESS`, with the slot of it. -/
theorem insertRow (h : Intact t rows) (stmt : InsertStatement) (allocs : List Bool) :
    ∃ result t', tableInsertRow t stmt allocs = some (result, t') ∧
      (∀ slot, result = .ok slot → slot = rows.length) ∧
      Loses (callStatus result) t.idIndex t'.idIndex ∧ Intact t' (if result.isOk then
        rows ++ [storedRow rows.length stmt.items.1] else rows) := by
  rw [tableInsertRow_eq]
  have hadopt := h.adopt stmt
  rw [← (sameRows_adopt t stmt).idIndex]
  by_cases hname : SameName (t.adopt stmt).tableName.text stmt.tableName.text
  swap
  · rw [if_neg hname]
    exact ⟨_, _, rfl, nofun, .refl _ _, hadopt⟩
  rw [if_pos hname, tableInsertNamed_check]
  have hchecked := hadopt.checkSchema stmt
  rw [← (tableCheckSchema_frame (t.adopt stmt) stmt).1.idIndex]
  have hcols : (tableCheckSchema (t.adopt stmt) stmt).1 = .ok () →
      (tableCheckSchema (t.adopt stmt) stmt).2.colCount = _ := tableCheckSchema_colCount
  have hloads : (tableCheckSchema (t.adopt stmt) stmt).1 = .ok () →
      (tableCheckSchema (t.adopt stmt) stmt).2.loaded = true := tableCheckSchema_loaded
  generalize tableCheckSchema (t.adopt stmt) stmt = call at *
  obtain ⟨checked, u⟩ := call
  cases checked with
  | error e => exact ⟨_, _, rfl, nofun, .refl _ _, hchecked⟩
  | ok =>
    simp only [forall_const] at hcols hloads hchecked ⊢
    unfold tableAppendRow
    have hreserve := hchecked.reserve allocs
    generalize tableReserveIfNeeded u allocs = call at *
    obtain ⟨reserved, u', allocs⟩ := call
    simp only at hreserve
    obtain ⟨hreserved, hnext, hcol, hload, hindex, hroom⟩ := hreserve
    simp only [← hindex]
    cases reserved with
    | error e => exact ⟨_, _, rfl, nofun, .refl _ _, hreserved⟩
    | ok =>
      simp only
      cases hbuilt : tableBuildRow stmt u'.nextId allocs with
      | mk row allocs =>
        cases row with
        | none => exact ⟨_, _, rfl, nofun, .refl _ _, hreserved⟩
        | some row =>
          have hrow : row = storedRow rows.length stmt.items.1 := by
            unfold tableBuildRow at hbuilt
            split at hbuilt
            · cases hbuilt
              rw [hreserved.nextId, ← hreserved.rowCount, storedRow, lld, if_neg (by omega)]
              rfl
            · cases hbuilt
          subst hrow
          exact hreserved.storeRow (hroom rfl) (hload.trans hloads) (by
            rw [hcol, hcols, storedRow]
            simp) allocs

end Intact

/-! ## From the first row to `table_free` -/

/-- A call of `table_insert_row`: what it returned, and how many nodes it was granted for the tree. -/
structure LoggedInsert where
  stmt : InsertStatement
  result : Sql Nat
  newNodes : Nat

/-- The call failed after it was granted a node. -/
def LoggedInsert.LosesNodes (call : LoggedInsert) : Prop :=
  call.result.isOk = false ∧ call.newNodes ≠ 0

abbrev InsertLog := List LoggedInsert

/-- The rows of the calls that returned `SUCCESS`, behind those that are there. -/
def keptRows (rows : List Row) : InsertLog → List Row
  | [] => rows
  | call :: calls =>
    keptRows (if call.result.isOk then rows ++ [storedRow rows.length call.stmt.items.1] else rows)
      calls

theorem keptRows_append (rows : List Row) (calls calls' : InsertLog) :
    keptRows rows (calls ++ calls') = keptRows (keptRows rows calls) calls' := by
  induction calls generalizing rows with
  | nil => rfl
  | cons call calls ih => exact ih _

namespace Mem

/-- A call of `table_insert_row`, logged. -/
def tableInsertLogged (m : TableMemory) (stmt : InsertStatement) :
    Prog Block (LoggedInsert × TableMemory) := do
  let (result, m') ← tableInsertRow m stmt
  pure (⟨stmt, result, m'.nodes.length - m.nodes.length⟩, m')

/-- Calls of `table_insert_row`. -/
def tableInsertRows (m : TableMemory) : List InsertStatement → Prog Block (InsertLog × TableMemory)
  | [] => pure ([], m)
  | stmt :: stmts => do
    let (call, m) ← tableInsertLogged m stmt
    let (calls, m) ← tableInsertRows m stmts
    pure (call :: calls, m)

/-- After the calls of the log the table in memory stores their rows, nothing else is allocated, and
nodes are lost only by calls that failed after they were granted one. -/
def Stored (m : TableMemory) (log : InsertLog) (s : State Block) : Prop :=
  ∃ t owned, TableAt m t owned ∧ Owns s owned ∧ Intact t (keptRows [] log) ∧
    (t.idIndex.lost = [] ↔ ∀ call ∈ log, ¬ call.LosesNodes)

theorem stored_init (name : Identifier) (next : Ptr) (grants : List Bool) :
    Stored ⟨{ tableInit with tableName := name }, none, []⟩ [] ⟨[], next, grants⟩ :=
  ⟨_, 0, tableAt_init name, owns_start next grants, intact_named name,
    iff_of_true rfl (List.forall_mem_nil _)⟩

variable {m : TableMemory} {log : InsertLog} {s : State Block}

theorem Stored.insertRow (h : Stored m log s) (stmt : InsertStatement) :
    Spec (tableInsertLogged m stmt) s fun r s' => r.1.stmt = stmt ∧
      (∀ slot, r.1.result = .ok slot → slot = (keptRows [] log).length) ∧
      Stored r.2 (log ++ [r.1]) s' := by
  obtain ⟨t, owned, hat, hs, hintact, hlost⟩ := h
  have hempty : t.loaded = false → t.rowCount = 0 := by
    intro hload
    rw [← hintact.rowCount, hintact.unloaded hload, List.length_nil]
  obtain ⟨result, t', hrun, hslot, hloses, hkept⟩ := hintact.insertRow stmt s.grants
  refine (tableInsertRow_spec hat hintact.tree hempty hintact.roomy
    (hs.of_eq (m := owned + 0) (add_zero _).symm) hrun).bind ?_
  rintro ⟨result, m'⟩ s' ⟨rfl, owned', hat', hs'⟩
  refine .pure ⟨rfl, hslot, t', owned', hat', hs'.of_eq (add_zero _), ?_, ?_⟩
  · rw [keptRows_append]
    exact hkept
  · rw [List.forall_mem_append, List.forall_mem_singleton, ← hlost]
    refine hloses.lost_nil.trans (and_congr_right fun _ => ?_)
    have hle := hloses.length_le
    simp only [LoggedInsert.LosesNodes, hat.nodes, hat'.nodes, callStatus_success]
    cases result.isOk with
    | true => simp
    | false =>
      simp
      omega

/-- The slots that the calls return are those behind the rows that were there. -/
theorem Stored.insertRows (stmts : List InsertStatement) (h : Stored m log s) :
    Spec (tableInsertRows m stmts) s fun r s' => r.1.map LoggedInsert.stmt = stmts ∧
      Stored r.2 (log ++ r.1) s' ∧
      List.range (keptRows [] log).length ++ r.1.filterMap (fun call => call.result.toOption) =
        List.range (keptRows [] (log ++ r.1)).length := by
  induction stmts generalizing m log s with
  | nil =>
    refine .pure ⟨rfl, ?_, ?_⟩
    · rw [List.append_nil]
      exact h
    · rw [List.append_nil, List.filterMap_nil, List.append_nil]
  | cons stmt stmts ih =>
    refine (h.insertRow stmt).bind ?_
    rintro ⟨call, m₁⟩ s₁ ⟨rfl, hslot, h₁⟩
    refine (ih h₁).bind ?_
    rintro ⟨calls, m₂⟩ s₂ ⟨rfl, h₂, hslots⟩
    rw [List.append_assoc, List.singleton_append] at h₂ hslots
    refine .pure ⟨rfl, h₂, ?_⟩
    rw [← hslots, keptRows_append, List.filterMap_cons]
    obtain ⟨stmt, result, newNodes⟩ := call
    cases result with
    | error e => rfl
    | ok slot =>
      obtain rfl := hslot slot rfl
      simp [keptRows, Except.toOption, Except.isOk, Except.toBool, List.range_succ]

/-- `table_free` leaves the nodes that are lost, so nothing just if there are none. -/
theorem tableFree_intact {t : TableRuntime} {owned : Blocks} {rows : List Row}
    (hat : TableAt m t owned) (hs : Owns s owned) (hintact : Intact t rows) :
    Spec (tableFree m) s fun m' s' => m' = ⟨tableInit, none, []⟩ ∧
      Owns s' (lostOwned t.idIndex m.nodes) ∧ (s'.blocks = [] ↔ t.idIndex.lost = []) := by
  refine (tableFree_spec hat hintact.tree (hs.of_eq (m := owned + 0) (add_zero _).symm)).mono ?_
  rintro m' s' ⟨hm, hs'⟩
  rw [add_zero] at hs'
  refine ⟨hm, hs', ?_⟩
  rw [← Multiset.coe_eq_zero, hs'.blocks]
  exact lostOwned_eq_zero hat.nodes

/-- Whichever of their requests for memory are refused, calls of `table_insert_row` on a new table use
no block that is not allocated and free none twice. The blocks that are allocated after them are those
of a table with the rows of the calls that returned `SUCCESS`, whose slots are 0, 1, 2 and so on, and
of each node that was created for its tree. `table_free` frees all of them but the nodes that the tree
has lost; that leaves nothing just if no call failed after it was granted a node. -/
theorem tableInsertRows_tableFree (name : Identifier) (stmts : List InsertStatement) (next : Ptr)
    (grants : List Bool) :
    Spec (tableInsertRows ⟨{ tableInit with tableName := name }, none, []⟩ stmts) ⟨[], next, grants⟩
      fun r s => r.1.map LoggedInsert.stmt = stmts ∧
        r.1.filterMap (fun call => call.result.toOption) =
          List.range (keptRows [] r.1).length ∧
        ∃ t owned, TableAt r.2 t owned ∧ Owns s owned ∧ Intact t (keptRows [] r.1) ∧
          Spec (tableFree r.2) s fun m s' => m = ⟨tableInit, none, []⟩ ∧
            Owns s' (lostOwned t.idIndex r.2.nodes) ∧
            (s'.blocks = [] ↔ ∀ call ∈ r.1, ¬ call.LosesNodes) := by
  refine ((stored_init name next grants).insertRows stmts).mono ?_
  rintro r s ⟨hstmts, ⟨t, owned, hat, hs, hintact, hlost⟩, hslots⟩
  refine ⟨hstmts, hslots, t, owned, hat, hs, hintact, ?_⟩
  refine (tableFree_intact hat hs hintact).mono ?_
  rintro m s' ⟨hm, hs', hnil⟩
  exact ⟨hm, hs', hnil.trans hlost⟩

end Mem

end JungleDb
