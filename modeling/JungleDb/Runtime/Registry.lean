import JungleDb.Runtime.Table

/-!
# The registry of `table_runtime.c`

The entries are listed in the order of their creation, and the handle of an entry is its index. The
source links each new entry in front, so a search starts at the newest. The two steps of
`table_runtime_acquire_entry`, the search under the registry mutex and the lock of the entry, are
kept apart: the first is `tableRuntimeAcquireEntry`.
-/

namespace JungleDb

open CString

/-- The tables of the entries, the oldest first. -/
abbrev Registry := List TableRuntime

/-- `table_runtime_find_entry_locked`. -/
def tableRuntimeFindEntryLocked (registry : Registry) (tableName : Bytes) : Option Nat :=
  (List.range registry.length).reverse.find? fun i =>
    registry[i]?.any fun t => utilsEqualsIgnoreCase t.tableName.text tableName

/-- `table_runtime_create_entry`. -/
def tableRuntimeCreateEntry (registry : Registry) (tableName : Bytes) : Option Nat × Registry :=
  match utilsSafeStrcpy MAX_IDENTIFIER_LEN tableName with
  | none => (none, registry)
  | some name => (some registry.length, registry ++ [{ tableInit with tableName := name }])

/-- `table_runtime_acquire_entry` up to the lock of the entry. -/
def tableRuntimeAcquireEntry (registry : Registry) (tableName : Bytes) (createIfMissing : Bool) :
    Option Nat × Registry :=
  if tableName = [] then (none, registry)
  else match tableRuntimeFindEntryLocked registry tableName with
    | some entry => (some entry, registry)
    | none =>
      if createIfMissing then tableRuntimeCreateEntry registry tableName else (none, registry)

/-- `table_runtime_acquire_read`, up to the read lock. -/
def tableRuntimeAcquireRead (registry : Registry) (tableName : Bytes) : Option Nat × Registry :=
  tableRuntimeAcquireEntry registry tableName false

/-- A search for reading adds no entry. -/
theorem tableRuntimeAcquireRead_registry (registry : Registry) (tableName : Bytes) :
    (tableRuntimeAcquireRead registry tableName).2 = registry := by
  unfold tableRuntimeAcquireRead tableRuntimeAcquireEntry
  split
  · rfl
  split
  · rfl
  · rfl

/-- `table_runtime_acquire_write`, up to the write lock. -/
def tableRuntimeAcquireWrite (registry : Registry) (tableName : Bytes) : Option Nat × Registry :=
  tableRuntimeAcquireEntry registry tableName true

end JungleDb
