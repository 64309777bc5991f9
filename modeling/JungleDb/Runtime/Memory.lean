import JungleDb.Lib.Heap
import JungleDb.Runtime.Unchanged

/-!
# The memory of `table_runtime.c`

The functions of `table_runtime.c` that allocate, once more, on a heap: `rows` is a pointer to an
array of row pointers, a row is an array of pointers to its cells, and each of these, and each node of
the B+ tree, is a block that is requested, perhaps refused, and freed. Reading a slot that was never
written, using a freed block or freeing it again has no outcome. The contents of the nodes are those of
`Bptree`. `TableAt` says which blocks a table consists of. A call of `table_insert_row` does on the
heap what `tableInsertRow` does to the table, whatever requests are refused; what it leaves behind where
it fails are nodes that the tree has lost.
-/

namespace JungleDb

open CArray CString Heap

/-- What a block holds: a copied text, an array of pointers or of `int`s, each element perhaps not
written yet, or a node of the B+ tree, which `Bptree` has the contents of. -/
inductive Block
  | text (s : Bytes)
  | slots (ps : List (Option (Option Ptr)))
  | ints (values : List (Option Int))
  | node

/-- A `TableRuntime`: the pointer `rows` and the other members, in a table without rows, and the block
of each node of `id_index`, in the order of their addresses there. -/
structure TableMemory where
  fields : TableRuntime
  rows : Option Ptr
  nodes : List Ptr

namespace Mem

/-! ## Loads and stores -/

/-- `p[i]`, a pointer. -/
def loadSlot (p : Ptr) (i : Nat) : Prog Block (Option Ptr) := do
  match ← read p with
  | .slots ps =>
    match ps[i]? with
    | some (some v) => pure v
    | _ => undefined
  | _ => undefined

/-- `p[i] = v`. -/
def storeSlot (p : Ptr) (i : Nat) (v : Option Ptr) : Prog Block Unit := do
  match ← read p with
  | .slots ps => if i < ps.length then write p (.slots (ps.set i (some v))) else undefined
  | _ => undefined

/-- The text at `p`. -/
def loadText (p : Ptr) : Prog Block Bytes := do
  match ← read p with
  | .text s => pure s
  | _ => undefined

/-! ## The functions -/

/-- `utils_strdup`. -/
def utilsStrdup (src : Bytes) : Prog Block (Option Ptr) := alloc (.text src)

/-- The loop that frees the cells of a row, from the `i`-th on. -/
def freeCells (row : Ptr) : Nat → Nat → Prog Block Unit
  | 0, _ => pure ()
  | todo + 1, i => do
    freeOpt (← loadSlot row i)
    storeSlot row i none
    freeCells row todo (i + 1)

/-- `table_free_owned_row`. -/
def tableFreeOwnedRow (row : Option Ptr) (colCount : Nat) : Prog Block Unit :=
  match row with
  | none => pure ()
  | some row => do
    freeCells row colCount 0
    free row

/-- The loop of `table_build_row` that frees what it has built. -/
def freeBuilt (row : Ptr) : Nat → Nat → Prog Block Unit
  | 0, _ => pure ()
  | todo + 1, j => do
    freeOpt (← loadSlot row j)
    freeBuilt row todo (j + 1)

/-- The loop of `table_build_row` over the values. -/
def buildCells (row : Ptr) : List InsertItem → Nat → Prog Block (Option Ptr)
  | [], _ => pure (some row)
  | item :: items, i => do
    let copy ← utilsStrdup item.value.text
    storeSlot row (i + 1) copy
    match copy with
    | some _ => buildCells row items (i + 1)
    | none => do
      freeBuilt row (i + 1) 0
      free row
      pure none

/-- `table_build_row`. -/
def tableBuildRow (colCount : Nat) (stmt : InsertStatement) (nextId : Int) :
    Prog Block (Option Ptr) := do
  match ← alloc (.slots (List.replicate colCount (some none))) with
  | none => pure none
  | some row => do
    let id ← utilsStrdup (lld nextId)
    storeSlot row 0 id
    match id with
    | some _ => buildCells row stmt.items.1 0
    | none => do
      free row
      pure none

/-- The array of rows in its new size; what is new in it is not written. -/
def resizeSlots (n : Nat) : Option Block → Block
  | some (.slots ps) => .slots (ps.take n ++ List.replicate (n - ps.length) none)
  | _ => .slots (List.replicate n none)

/-- `table_reserve_if_needed`; the size in bytes is a `size_t`. -/
def tableReserveIfNeeded (m : TableMemory) : Prog Block (Sql Unit × TableMemory) :=
  if m.fields.rowCount < m.fields.capacity then pure (.ok (), m)
  else
    let newCapacity : Int := if m.fields.capacity = 0 then INITIAL_ROW_CAPACITY
      else Int.bmod (m.fields.capacity * 2) (2 ^ 32)
    if (newCapacity * 8) % 2 ^ 64 ≤ PTRDIFF_MAX then do
      match ← realloc m.rows (resizeSlots newCapacity.toNat) with
      | none => pure (.error (message "Failed to allocate memory."), m)
      | some rows =>
        pure (.ok (), ⟨{ m.fields with capacity := newCapacity.toNat }, some rows, m.nodes⟩)
    else pure (.error (message "Failed to allocate memory."), m)

/-- The nodes that a walk through the tree may load are allocated. -/
def loadNodes : List Ptr → Prog Block Unit
  | [] => pure ()
  | p :: ps => do
    let _ ← read p
    loadNodes ps

/-- The blocks of `n` new nodes. -/
def placeNodes : Nat → Prog Block (List Ptr)
  | 0 => pure []
  | n + 1 => do
    let p ← place .node
    let ps ← placeNodes n
    pure (p :: ps)

/-- `bptree_search`. -/
def bptreeSearch (t : Bptree) (nodes : List Ptr) (key : Int) : Prog Block (Option Int) := do
  loadNodes nodes
  match JungleDb.bptreeSearch t key with
  | none => undefined
  | some found => pure found

/-- `bptree_insert` on the tree; its requests are the coming ones. -/
def bptreeInsertNodes (t : Bptree) (key rowIndex : Int) : Prog Block (InsertExit × Bptree) := fun s =>
  (bptreeInsertState ⟨t, s.grants⟩ key rowIndex).map fun r =>
    ((r.1, r.2.toBptree), { s with grants := r.2.callocs })

/-- `bptree_insert`. Each request that it was granted is a node behind those that there were. -/
def bptreeInsert (t : Bptree) (nodes : List Ptr) (key rowIndex : Int) :
    Prog Block (InsertExit × Bptree × List Ptr) := do
  loadNodes nodes
  let (exit, t') ← bptreeInsertNodes t key rowIndex
  let created ← placeNodes (t'.nodes.length - t.nodes.length)
  pure (exit, t', nodes ++ created)

/-- `table_insert_row` from the row that was built. -/
def tableStoreRow (m : TableMemory) (row : Ptr) : Prog Block (Sql Nat × TableMemory) :=
  if INT_MAX < m.fields.nextId then do
    tableFreeOwnedRow (some row) m.fields.colCount
    pure (.error (message "Runtime id exceeds B+ tree key range."), m)
  else match m.rows with
    | none => undefined
    | some rows => do
      storeSlot rows m.fields.rowCount (some row)
      let (exit, idIndex, nodes) ←
        bptreeInsert m.fields.idIndex m.nodes m.fields.nextId m.fields.rowCount
      match exit.status with
      | .failure => do
        tableFreeOwnedRow (← loadSlot rows m.fields.rowCount) m.fields.colCount
        storeSlot rows m.fields.rowCount none
        pure (.error (message "Failed to insert row."),
          { m with fields := { m.fields with idIndex := idIndex }, nodes := nodes })
      | .success => pure (.ok m.fields.rowCount, { m with
          fields := { m.fields with
            idIndex := idIndex
            rowCount := m.fields.rowCount + 1
            nextId := m.fields.nextId + 1 }
          nodes := nodes })

/-- `table_insert_row` once the statement fits the schema. -/
def tableAppendRow (m : TableMemory) (stmt : InsertStatement) :
    Prog Block (Sql Nat × TableMemory) := do
  match ← tableReserveIfNeeded m with
  | (.error e, m) => pure (.error e, m)
  | (.ok (), m) =>
    match ← tableBuildRow m.fields.colCount stmt m.fields.nextId with
    | none => pure (.error (message "Failed to insert row."), m)
    | some row => tableStoreRow m row

/-- `table_insert_row` once the statement is known to be for this table. -/
def tableInsertNamed (m : TableMemory) (stmt : InsertStatement) :
    Prog Block (Sql Nat × TableMemory) :=
  match tableCheckSchema m.fields stmt with
  | (.error e, fields) => pure (.error e, { m with fields := fields })
  | (.ok (), fields) => tableAppendRow { m with fields := fields } stmt

/-- `table_insert_row`. -/
def tableInsertRow (m : TableMemory) (stmt : InsertStatement) :
    Prog Block (Sql Nat × TableMemory) :=
  let named := if m.fields.tableName.text = [] then
      (utilsSafeStrcpy MAX_IDENTIFIER_LEN stmt.tableName.text).map fun name =>
        { m.fields with tableName := name }
    else some m.fields
  match named with
  | none => pure (.error (message "Table name is too long."), m)
  | some fields =>
    if !utilsEqualsIgnoreCase fields.tableName.text stmt.tableName.text then
      pure (.error (message "Active runtime table does not match INSERT target."),
        { m with fields := fields })
    else tableInsertNamed { m with fields := fields } stmt

/-- The loop of `table_free` over the rows. -/
def freeTableRows (rows : Ptr) (colCount : Nat) : Nat → Nat → Prog Block Unit
  | 0, _ => pure ()
  | todo + 1, i => do
    tableFreeOwnedRow (← loadSlot rows i) colCount
    storeSlot rows i none
    freeTableRows rows colCount todo (i + 1)

/-- The calls of `free` in `bptree_free`, for the nodes at these addresses. The source reads a node before
it frees the children; the read stands at the `free` of the node, where fewer blocks are allocated. -/
def freeNodes (nodes : List Ptr) : List Addr → Prog Block Unit
  | [] => pure ()
  | a :: as =>
    match nodes[a]? with
    | none => undefined
    | some p => do
      let _ ← read p
      free p
      freeNodes nodes as

/-- `bptree_free`. -/
def bptreeFree (t : Bptree) (nodes : List Ptr) : Prog Block Unit :=
  match JungleDb.bptreeFree t.nodes t.nodes.length t.root with
  | none => undefined
  | some freed => freeNodes nodes freed

/-- The rows in `table_free`. -/
def tableFreeRows (rows : Option Ptr) (colCount rowCount : Nat) : Prog Block Unit :=
  match rows with
  | none => pure ()
  | some rows => do
    freeTableRows rows colCount rowCount 0
    free rows

/-- `table_free`. -/
def tableFree (m : TableMemory) : Prog Block TableMemory := do
  bptreeFree m.fields.idIndex m.nodes
  tableFreeRows m.rows m.fields.colCount m.fields.rowCount
  pure ⟨tableInit, none, []⟩

end Mem

end JungleDb
