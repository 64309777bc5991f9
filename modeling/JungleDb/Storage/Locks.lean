import JungleDb.Lib.Inodes
import JungleDb.Storage.Files

/-!
# Concurrent calls of `storage_insert` and `storage_delete`

Each call opens the path, takes the lock of the inode it got, reads it, and either appends to it or
writes the temporary file and renames that over the path. The steps of the calls interleave.
-/

namespace JungleDb

open CString Stdio Inodes

/-- The two names in `data` that the calls for a table use. -/
inductive TablePath
  | csv
  | tmp
  deriving DecidableEq

abbrev Files := FileSystem TablePath Nat UInt8

inductive StorageCall
  | insert (stmt : InsertStatement)
  | delete (stmt : DeleteStatement)

/-- What a call returns, with the row that it wrote or the rows that it counted as deleted. -/
inductive StorageResult
  | failed
  | inserted (row : Row)
  | deleted (rows : List Row)
  deriving DecidableEq

/-- How far a call is, with its inode and its locals. -/
inductive StoragePhase
  | ready
  | opened (k : Nat)
  | locked (k : Nat)
  | planned (k : Nat) (plan : InsertPlan)
  | loaded (k : Nat) (table : TableData)
  | created (k : Nat) (table : TableData) (temp : Nat)
  | written (k : Nat) (table : TableData)
  | leaving (k : Nat) (result : StorageResult)
  | returned (result : StorageResult)

/-- One step of a call; no result where it waits or has returned. -/
def storageStep (tableName : Bytes) (fs : Files) (i : Nat) :
    StorageCall → StoragePhase → Option (Files × StoragePhase)
  | .insert _, .ready =>
    match storageBuildPath tableName with
    | none => some (fs, .returned .failed)
    | some _ => some ((fs.openAppend .csv).2, .opened (fs.openAppend .csv).1)
  | .delete _, .ready =>
    match storageBuildPath tableName, fs.links .csv with
    | some _, some k => some (fs, .opened k)
    | _, _ => some (fs, .returned .failed)
  | _, .opened k => (fs.lock i k).map fun fs => (fs, .locked k)
  | .insert stmt, .locked k =>
    match storagePlanInsert tableName (fs.read k) stmt with
    | .error _ => some (fs, .leaving k .failed)
    | .ok plan => some (fs, .planned k plan)
  | .insert _, .planned k plan => some (fs.append k plan.text, .leaving k (.inserted plan.row))
  | .delete _, .locked k =>
    match storageLoadTableFromFp (fs.read k) tableName false with
    | .error _ => some (fs, .leaving k .failed)
    | .ok table => some (fs, .loaded k table)
  | .delete _, .loaded k table =>
    some ((fs.openWrite .tmp).2, .created k table (fs.openWrite .tmp).1)
  | .delete stmt, .created k table temp =>
    -- the header and the rows; after a row that cannot be compared the file is removed
    match deleteRows tableName table.columns stmt 0
        ⟨(storageWriteHeader table.columns).flatten, []⟩ [] table.rows with
    | (.error _, _, tempFp) =>
      some ((fs.overwrite temp tempFp.content).unlink .tmp, .leaving k .failed)
    | (.ok (), _, tempFp) => some (fs.overwrite temp tempFp.content, .written k table)
  | .delete stmt, .written k table =>
    match fs.rename .tmp .csv with
    | none => some (fs.unlink .tmp, .leaving k .failed)
    | some fs => some (fs, .leaving k (.deleted (table.rows.filter (stmt.removes table.columns))))
  | _, .leaving k result => some (fs.unlock i k, .returned result)
  | _, _ => none

structure StorageProcess where
  call : StorageCall
  phase : StoragePhase

/-- The files of the table, and the calls. -/
structure StorageState where
  fs : Files
  processes : List StorageProcess

namespace StorageState

/-- No file is there, and no call has begun. -/
def start (calls : List StorageCall) : StorageState := ⟨.empty, calls.map fun call => ⟨call, .ready⟩⟩

/-- A step of a call. -/
def step (tableName : Bytes) (s : StorageState) (i : Nat) : Option StorageState := do
  let p ← s.processes[i]?
  let (fs, phase) ← storageStep tableName s.fs i p.call p.phase
  some ⟨fs, s.processes.set i ⟨p.call, phase⟩⟩

/-- The steps of the calls with these indices, as far as they are allowed. -/
def run (tableName : Bytes) (allowed : StorageState → Nat → Bool) :
    StorageState → List Nat → Option StorageState
  | s, [] => some s
  | s, i :: is =>
    if allowed s i then (s.step tableName i).bind fun s => s.run tableName allowed is else none

end StorageState

/-- The states that steps in any order lead to, if each of them is allowed where it is made. -/
inductive StorageRun (tableName : Bytes) (calls : List StorageCall)
    (allowed : StorageState → Nat → Bool) : StorageState → Prop
  | start : StorageRun tableName calls allowed (.start calls)
  | step {s s' : StorageState} {i : Nat} : StorageRun tableName calls allowed s →
      allowed s i = true → s.step tableName i = some s' → StorageRun tableName calls allowed s'

/-- The states that a list of steps leads to. -/
theorem StorageRun.run {tableName : Bytes} {calls : List StorageCall}
    {allowed : StorageState → Nat → Bool} {s s' : StorageState}
    (h : StorageRun tableName calls allowed s) {is : List Nat}
    (hrun : s.run tableName allowed is = some s') : StorageRun tableName calls allowed s' := by
  induction is generalizing s with
  | nil =>
    cases hrun
    exact h
  | cons i is ih =>
    rw [StorageState.run] at hrun
    split at hrun
    · rename_i hallowed
      obtain ⟨t, hstep, hrest⟩ := Option.bind_eq_some_iff.mp hrun
      exact ih (h.step hallowed hstep) hrest
    · cases hrun

/-! ## What the calls have done -/

/-- The row that the call has written. -/
def StoragePhase.inserted : StoragePhase → List Row
  | .leaving _ (.inserted row) => [row]
  | .returned (.inserted row) => [row]
  | _ => []

/-- The rows that it has deleted. -/
def StoragePhase.deleted : StoragePhase → List Row
  | .leaving _ (.deleted rows) => rows
  | .returned (.deleted rows) => rows
  | _ => []

namespace StorageState

def inserted (s : StorageState) : List Row := s.processes.flatMap fun p => p.phase.inserted

def deleted (s : StorageState) : List Row := s.processes.flatMap fun p => p.phase.deleted

/-- The rows that were inserted with `SUCCESS` are, each as often as it was inserted, those in the
file at the path of the table and those that a delete counted. -/
def Conserved (s : StorageState) : Prop :=
  ∃ rows, FileRows (s.fs.file .csv) rows ∧ s.inserted.Perm (rows ++ s.deleted)

/-- Every call has returned. -/
def finished (s : StorageState) : Bool :=
  s.processes.all fun p => match p.phase with
    | .returned _ => true
    | _ => false

/-- The step takes no lock of an inode that is not the table's any more, and writes no blank line. -/
def timely (s : StorageState) (i : Nat) : Bool :=
  match s.processes[i]? with
  | some ⟨_, .opened k⟩ => s.fs.links .csv = some k
  | some ⟨_, .planned _ plan⟩ => plan.row ≠ [[]]
  | _ => true

end StorageState

end JungleDb
