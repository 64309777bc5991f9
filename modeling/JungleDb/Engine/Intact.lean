import JungleDb.Engine.Owned

/-!
# SELECT on tables whose allocations may fail

A SELECT has an outcome on every table that calls of `table_insert_row` leave, whatever requests for
memory were refused before it and are refused to it. A run of INSERTs and SELECTs whose results are
freed keeps nothing but the table.
-/

namespace JungleDb

open CArray CString Heap

theorem Reachable.search_isSome {b : Bptree} (hr : Reachable b) (key : Int) :
    ∃ found, bptreeSearch b key = some found := by
  rcases hr.stores with rfl | ⟨h, t, hs⟩
  · exact ⟨none, rfl⟩
  · exact ⟨_, hs.search key⟩

theorem executorCopyProjectedRow_isSome {row : Row} {selected : List Nat}
    (hselected : ∀ i ∈ selected, i < row.length) :
    ∃ texts, executorCopyProjectedRow row selected = some texts := by
  unfold executorCopyProjectedRow
  induction selected with
  | nil => exact ⟨[], rfl⟩
  | cons i selected ih =>
    obtain ⟨hi, hselected⟩ := List.forall_mem_cons.mp hselected
    obtain ⟨texts, htexts⟩ := ih hselected
    refine ⟨row[i] :: texts, ?_⟩
    rw [List.mapM_cons, htexts, List.getElem?_eq_getElem hi]
    rfl

namespace Intact

variable {t : TableRuntime} {rows : List Row}

theorem getRow_length (h : Intact t rows) {rowIndex : Int} {row : Row}
    (hget : tableGetRowBySlot t rowIndex = some row) : row.length = t.colCount := by
  obtain ⟨spare, hslots⟩ := h.slots
  unfold tableGetRowBySlot at hget
  split at hget
  · cases hget
  · have hmem : some row ∈ t.rows := List.mem_of_getElem? (Option.join_eq_some_iff.mp hget)
    rw [hslots, List.mem_append] at hmem
    rcases hmem with hmem | hmem
    · obtain ⟨row', hrow, heq⟩ := List.mem_map.mp hmem
      exact h.width row (Option.some.inj heq ▸ hrow)
    · cases List.eq_of_mem_replicate hmem

/-- A slot below the row count. -/
theorem slot (h : Intact t rows) {i : Nat} (hi : i < t.rowCount) :
    ∃ row, t.rows[i]?.join = some row ∧ row.length = t.colCount := by
  obtain ⟨spare, hslots⟩ := h.slots
  have hlt : i < rows.length := h.rowCount ▸ hi
  refine ⟨rows[i], ?_, h.width _ (List.getElem_mem hlt)⟩
  rw [hslots, List.getElem?_append_left (by simpa using hlt), List.getElem?_map,
    List.getElem?_eq_getElem hlt]
  rfl

theorem collectLoop_isSome (h : Intact t rows) {selected : List Nat}
    (hselected : ∀ i ∈ selected, i < t.colCount) (rowIndices : List Int) :
    ∃ found, collectLoop t selected rowIndices = some found := by
  induction rowIndices with
  | nil => exact ⟨some [], rfl⟩
  | cons rowIndex rowIndices ih =>
    obtain ⟨found, hfound⟩ := ih
    unfold collectLoop
    cases hget : tableGetRowBySlot t rowIndex with
    | none => exact ⟨none, rfl⟩
    | some row =>
      have hwithin : ∀ i ∈ selected, i < row.length := fun i hi =>
        (h.getRow_length hget).symm ▸ hselected i hi
      obtain ⟨texts, htexts⟩ := executorCopyProjectedRow_isSome hwithin
      exact ⟨found.map (texts :: ·), by simp [htexts, hfound]⟩

theorem collectRows_isSome (h : Intact t rows) {selected : List Nat}
    (hselected : ∀ i ∈ selected, i < t.colCount) (rowIndices : List Int) (result : QueryResult) :
    ∃ reply, executorCollectRowsByIndices t selected rowIndices result = some reply := by
  obtain ⟨found, hfound⟩ := h.collectLoop_isSome hselected rowIndices
  unfold executorCollectRowsByIndices
  rw [hfound]
  cases found with
  | none => exact ⟨_, rfl⟩
  | some rows => exact ⟨_, rfl⟩

theorem scanLoop_isSome (h : Intact t rows) (clause : WhereClause) {column : Nat}
    (hcolumn : column < t.colCount) (todo i : Nat) (found : List Nat) (hi : i + todo ≤ t.rowCount) :
    ∃ scanned, scanLoop t clause column todo i found = some scanned := by
  induction todo generalizing i found with
  | zero => exact ⟨_, rfl⟩
  | succ todo ih =>
    obtain ⟨row, hrow, hwidth⟩ := h.slot (i := i) (by omega)
    have hcell : row[column]? = some row[column] := List.getElem?_eq_getElem (hwidth ▸ hcolumn)
    unfold scanLoop
    simp only [hrow, hcell, Option.bind_eq_bind, Option.bind_some]
    cases tableCompareFieldValue t column row[column] clause with
    | error e => exact ⟨_, rfl⟩
    | ok comparison => exact ih _ _ (by omega)

theorem scan_isSome (h : Intact t rows) (clause : Option WhereClause) :
    ∃ scanned, tableLinearScanByField t clause = some scanned := by
  unfold tableLinearScanByField
  split
  · exact ⟨_, rfl⟩
  · cases clause with
    | none => exact ⟨_, rfl⟩
    | some clause =>
      cases hfind : tableFindColumnIndex t clause.column.text with
      | none =>
        simp only [hfind]
        exact ⟨_, rfl⟩
      | some column =>
        simp only [hfind]
        have hcolumn := List.mem_range.mp (List.mem_of_find?_eq_some hfind)
        exact h.scanLoop_isSome clause hcolumn t.rowCount 0 [] (by omega)

theorem collectScanned_isSome (h : Intact t rows) (clause : Option WhereClause)
    {selected : List Nat} (hselected : ∀ i ∈ selected, i < t.colCount) (result : QueryResult) :
    ∃ reply, collectScanned t clause selected result = some reply := by
  obtain ⟨scanned, hscan⟩ := h.scan_isSome clause
  unfold collectScanned
  rw [hscan]
  cases scanned with
  | error e => exact ⟨_, rfl⟩
  | ok found => exact h.collectRows_isSome hselected _ result

/-- A SELECT has an outcome. -/
theorem executorSelectBody_isSome (h : Intact t rows) (stmt : SelectStatement)
    (result : QueryResult) : ∃ reply, executorSelectBody stmt t result = some reply := by
  unfold executorSelectBody
  split
  · exact ⟨_, rfl⟩
  have hprojected := executorPrepareProjection_projected stmt t result
  cases hprepare : executorPrepareProjection stmt t result with
  | error failed => exact ⟨_, rfl⟩
  | ok call =>
    obtain ⟨selected, prepared⟩ := call
    rw [hprepare] at hprojected
    obtain ⟨-, hselected, -⟩ := hprojected
    cases stmt.where with
    | none => exact h.collectScanned_isSome none hselected prepared
    | some clause =>
      simp only
      cases executorCanUseIdIndex t clause with
      | none => exact h.collectScanned_isSome (some clause) hselected prepared
      | some searchKey =>
        obtain ⟨found, hfound⟩ := h.tree.search_isSome searchKey
        simp only [executorCollectRowsById, hfound, Option.bind_eq_bind, Option.bind_some]
        cases found with
        | none => exact h.collectRows_isSome hselected [] prepared
        | some rowIndex => exact h.collectRows_isSome hselected [rowIndex] prepared

end Intact

namespace Mem

variable {m : TableMemory} {t : TableRuntime} {owned : Blocks} {rows : List Row} {log : InsertLog}
  {s : State Block}

/-- What a SELECT leaves besides the table is freed by `query_result_free`. -/
theorem queryResultFree_reply {reply : Reply} {grants : List Bool} {frame : Blocks}
    {answer : Status × ResultMemory} (h : ReplyAt reply grants frame answer s) :
    Spec (queryResultFree answer.2) s fun _ s' => Owns s' frame := by
  obtain ⟨status, result⟩ := answer
  obtain ⟨-, ⟨-, resultOwned, hresult, hs⟩ | ⟨-, hnull, -, hs⟩⟩ := h
  · refine (queryResultFree_spec hresult hs).mono ?_
    rintro _ s' ⟨-, hs'⟩
    exact hs'
  · obtain ⟨fields, resultRows, rowCount⟩ := result
    obtain rfl : resultRows = none := hnull
    exact ⟨_, _, rfl, hs⟩

end Mem

/-! ## Runs -/

/-- A call for a table. -/
inductive TableCall
  | insert (stmt : InsertStatement)
  | select (stmt : SelectStatement)

def TableCall.inserts : TableCall → List InsertStatement
  | .insert stmt => [stmt]
  | .select _ => []

namespace Mem

/-- A call, and its log if it is of `table_insert_row`; the result of a SELECT is freed after it. -/
def tableCall (m : TableMemory) : TableCall → Prog Block (InsertLog × TableMemory)
  | .insert stmt => do
    let (logged, m) ← tableInsertLogged m stmt
    pure ([logged], m)
  | .select stmt => do
    let (_, result) ← executorSelectBody stmt m queryResultInit
    let _ ← queryResultFree result
    pure ([], m)

def tableCalls (m : TableMemory) : List TableCall → Prog Block (InsertLog × TableMemory)
  | [] => pure ([], m)
  | call :: calls => do
    let (inserted, m) ← tableCall m call
    let (others, m) ← tableCalls m calls
    pure (inserted ++ others, m)

/-- A SELECT on a stored table, and its result freed. -/
theorem select_spec (hat : TableAt m t owned) (h : Owns s owned) (hintact : Intact t rows)
    (stmt : SelectStatement) :
    ∃ reply, JungleDb.executorSelectBody stmt t queryResultInit = some reply ∧
      Spec (executorSelectBody stmt m queryResultInit) s fun answer s₁ =>
        ReplyAt reply s.grants owned answer s₁ ∧
        Spec (queryResultFree answer.2) s₁ fun _ s₂ => Owns s₂ owned := by
  obtain ⟨reply, hreply⟩ := hintact.executorSelectBody_isSome stmt queryResultInit
  refine ⟨reply, hreply, ?_⟩
  refine (executorSelectBody_spec hat (Multiset.Subset.refl owned) rfl hreply h).mono ?_
  intro answer s₁ hanswer
  exact ⟨hanswer, queryResultFree_reply hanswer⟩

theorem Stored.call (h : Stored m log s) (call : TableCall) :
    Spec (tableCall m call) s fun r s' => r.1.map LoggedInsert.stmt = call.inserts ∧
      Stored r.2 (log ++ r.1) s' := by
  cases call with
  | insert stmt =>
    refine (h.insertRow stmt).bind ?_
    rintro ⟨logged, m'⟩ s₁ ⟨rfl, -, h₁⟩
    exact .pure ⟨rfl, h₁⟩
  | select stmt =>
    obtain ⟨t, owned, hat, hs, hintact, hlost⟩ := h
    obtain ⟨reply, -, hselect⟩ := select_spec hat hs hintact stmt
    refine hselect.bind ?_
    rintro ⟨status, result⟩ s₁ ⟨-, hfree⟩
    refine hfree.bind ?_
    intro _ s₂ h₂
    refine .pure ⟨rfl, ?_⟩
    rw [List.append_nil]
    exact ⟨t, owned, hat, h₂, hintact, hlost⟩

theorem Stored.calls (calls : List TableCall) (h : Stored m log s) :
    Spec (tableCalls m calls) s fun r s' =>
      r.1.map LoggedInsert.stmt = calls.flatMap TableCall.inserts ∧ Stored r.2 (log ++ r.1) s' := by
  induction calls generalizing m log s with
  | nil =>
    refine .pure ⟨rfl, ?_⟩
    rw [List.append_nil]
    exact h
  | cons call calls ih =>
    refine (h.call call).bind ?_
    rintro ⟨inserted, m₁⟩ s₁ ⟨hinserted, h₁⟩
    refine (ih h₁).bind ?_
    rintro ⟨others, m₂⟩ s₂ ⟨hothers, h₂⟩
    refine .pure ⟨?_, ?_⟩
    · rw [List.map_append, hinserted, hothers, List.flatMap_cons]
    · rw [← List.append_assoc]
      exact h₂

/-- After a run of calls on a new table, whichever of their requests were refused, what is allocated
is a table with the rows of the INSERTs that returned `SUCCESS` and the nodes that were created for its
tree. A SELECT then replies as on that table, the rows of its result in blocks of their own, or it
fails without rows because a request was refused. `query_result_free` leaves the table as it was, and
`table_free` leaves the nodes that the tree has lost: nothing just if no INSERT failed after it was
granted a node. -/
theorem tableCalls_select (name : Identifier) (calls : List TableCall) (next : Ptr)
    (grants : List Bool) :
    Spec (tableCalls ⟨{ tableInit with tableName := name }, none, []⟩ calls) ⟨[], next, grants⟩
      fun r s => r.1.map LoggedInsert.stmt = calls.flatMap TableCall.inserts ∧
        ∃ t owned, TableAt r.2 t owned ∧ Owns s owned ∧ Intact t (keptRows [] r.1) ∧
          ∀ stmt, ∃ reply, JungleDb.executorSelectBody stmt t queryResultInit = some reply ∧
            Spec (executorSelectBody stmt r.2 queryResultInit) s fun answer s₁ =>
              ReplyAt reply s.grants owned answer s₁ ∧
              Spec (queryResultFree answer.2) s₁ fun _ s₂ => Owns s₂ owned ∧
                Spec (tableFree r.2) s₂ fun _ s₃ => Owns s₃ (lostOwned t.idIndex r.2.nodes) ∧
                  (s₃.blocks = [] ↔ ∀ call ∈ r.1, ¬ call.LosesNodes) := by
  refine ((stored_init name next grants).calls calls).mono ?_
  rintro r s ⟨hinserts, t, owned, hat, hs, hintact, hlost⟩
  refine ⟨hinserts, t, owned, hat, hs, hintact, fun stmt => ?_⟩
  obtain ⟨reply, hreply, hselect⟩ := select_spec hat hs hintact stmt
  refine ⟨reply, hreply, hselect.mono ?_⟩
  rintro answer s₁ ⟨hanswer, hfree⟩
  refine ⟨hanswer, hfree.mono ?_⟩
  intro _ s₂ h₂
  refine ⟨h₂, (tableFree_intact hat h₂ hintact).mono ?_⟩
  rintro _ s₃ ⟨-, hs₃, hnil⟩
  exact ⟨hs₃, hnil.trans hlost⟩

end Mem

end JungleDb
