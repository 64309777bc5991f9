import Mathlib.Data.List.Perm.Basic
import JungleDb.Storage.Locks

/-!
# No row is lost between concurrent calls

A delete leaves the calls that wait for its lock with an inode that is not the table's any more; what
they append is lost, and what they write back brings deleted rows back. As long as every call gets its
lock while its inode is the table's, one call at a time reads and changes the table, and every row that
was inserted is in the file or was deleted.
-/

namespace JungleDb

open CString Stdio Inodes FileSystem

/-! ## The critical section -/

/-- The inode of a call between its lock and its last change of the files. -/
def StoragePhase.critical : StoragePhase → Option Nat
  | .locked k => some k
  | .planned k _ => some k
  | .loaded k _ => some k
  | .created k _ _ => some k
  | .written k _ => some k
  | _ => none

/-- What such a call knows of the files. -/
def Knows (tableName : Bytes) (fs : Files) : StorageCall → StoragePhase → Prop
  | _, .locked _ => fs.links .tmp = none
  | .insert stmt, .planned k plan =>
    fs.links .tmp = none ∧ storagePlanInsert tableName (fs.read k) stmt = .ok plan
  | .delete _, .loaded k table =>
    fs.links .tmp = none ∧ storageLoadTableFromFp (fs.read k) tableName false = .ok table
  | .delete _, .created k table temp =>
    fs.links .tmp = some temp ∧ temp ≠ k ∧ temp < fs.inodes.length ∧ fs.read temp = [] ∧
      storageLoadTableFromFp (fs.read k) tableName false = .ok table
  | .delete stmt, .written k table =>
    ∃ temp, fs.links .tmp = some temp ∧ temp < fs.inodes.length ∧
      fs.read temp = tableText table.columns (stmt.kept table.columns table.rows) ∧
      storageLoadTableFromFp (fs.read k) tableName false = .ok table
  | _, _ => False

/-- Only one call is in its critical section, on the inode of the table. -/
structure Consistent (tableName : Bytes) (s : StorageState) : Prop where
  linked : ∀ k, s.fs.links .csv = some k → k < s.fs.inodes.length
  critical : ∀ i p k, s.processes[i]? = some p → p.phase.critical = some k →
    s.fs.links .csv = some k ∧ s.fs.holder k = some i ∧ Knows tableName s.fs p.call p.phase
  quiet : (∀ p ∈ s.processes, p.phase.critical = none) → s.fs.links .tmp = none
  conserved : s.Conserved
  unblank : ∀ row ∈ s.inserted, row ≠ [[]]
  strings : ∀ p ∈ s.processes, ∀ stmt, p.call = .insert stmt → stmt.Strings

/-! ## Lists of processes -/

theorem flatMap_set_perm {α β : Type} {l : List α} {i : Nat} {a b : α} (h : l[i]? = some a)
    (f : α → List β) (hf : f a = []) : ((l.set i b).flatMap f).Perm (f b ++ l.flatMap f) := by
  induction l generalizing i with
  | nil => cases h
  | cons c l ih =>
    cases i with
    | zero =>
      obtain rfl := Option.some.inj h
      rw [List.set_cons_zero, List.flatMap_cons, List.flatMap_cons, hf, List.nil_append]
    | succ i =>
      rw [List.set_cons_succ, List.flatMap_cons, List.flatMap_cons]
      exact ((ih h).append_left (f c)).trans (List.perm_append_comm_assoc _ _ _)

theorem flatMap_set_eq {α β : Type} {l : List α} {i : Nat} {a b : α} (h : l[i]? = some a)
    (f : α → List β) (hf : f b = f a) : (l.set i b).flatMap f = l.flatMap f := by
  induction l generalizing i with
  | nil => cases h
  | cons c l ih =>
    cases i with
    | zero =>
      obtain rfl := Option.some.inj h
      rw [List.set_cons_zero, List.flatMap_cons, List.flatMap_cons, hf]
    | succ i =>
      rw [List.set_cons_succ, List.flatMap_cons, List.flatMap_cons, ih h]

theorem getElem?_set_cases {α : Type} {l : List α} {i j : Nat} {a b : α}
    (h : (l.set i a)[j]? = some b) : (j = i ∧ b = a) ∨ (j ≠ i ∧ l[j]? = some b) := by
  rw [List.getElem?_set] at h
  by_cases hj : i = j
  · rw [if_pos hj] at h
    split at h
    · exact .inl ⟨hj.symm, (Option.some.inj h).symm⟩
    · cases h
  · rw [if_neg hj] at h
    exact .inr ⟨Ne.symm hj, h⟩

theorem forall_mem_of_set {α : Type} {l : List α} {i : Nat} {a b : α} {P : α → Prop}
    (h : l[i]? = some a) (ha : P a) (hall : ∀ c ∈ l.set i b, P c) : ∀ c ∈ l, P c := by
  intro c hc
  obtain ⟨j, hj⟩ := List.mem_iff_getElem?.mp hc
  by_cases hji : j = i
  · rw [hji, h] at hj
    cases hj
    exact ha
  · refine hall c (List.mem_iff_getElem?.mpr ⟨j, ?_⟩)
    rw [List.getElem?_set_ne (Ne.symm hji)]
    exact hj

theorem mem_set {α : Type} {l : List α} {i : Nat} {a b : α} (h : l[i]? = some a) : b ∈ l.set i b := by
  obtain ⟨hi, -⟩ := List.getElem?_eq_some_iff.mp h
  exact List.mem_set hi b

theorem StorageState.step_cases {tableName : Bytes} {s s' : StorageState} {i : Nat}
    (h : s.step tableName i = some s') : ∃ p fs phase, s.processes[i]? = some p ∧
      storageStep tableName s.fs i p.call p.phase = some (fs, phase) ∧
      s' = ⟨fs, s.processes.set i ⟨p.call, phase⟩⟩ := by
  unfold StorageState.step at h
  simp only [Option.bind_eq_bind, Option.bind_eq_some_iff] at h
  obtain ⟨p, hp, ⟨fs, phase⟩, hstep, hs'⟩ := h
  exact ⟨p, fs, phase, hp, hstep, (Option.some.inj hs').symm⟩

namespace Consistent

variable {tableName : Bytes} {s : StorageState} {i : Nat} {p : StorageProcess}

theorem strings_set (h : ∀ p ∈ s.processes, ∀ stmt, p.call = .insert stmt → stmt.Strings)
    (hp : s.processes[i]? = some p) {phase : StoragePhase} :
    ∀ q ∈ s.processes.set i ⟨p.call, phase⟩, ∀ stmt, q.call = .insert stmt → stmt.Strings := by
  intro q hq
  rcases List.mem_or_eq_of_mem_set hq with hq | rfl
  · exact h q hq
  · exact h p (List.mem_of_getElem? hp)

/-- The call in its critical section is alone. -/
theorem alone (h : Consistent tableName s) {k : Nat} (hp : s.processes[i]? = some p)
    (hk : p.phase.critical = some k) :
    ∀ j q, j ≠ i → s.processes[j]? = some q → q.phase.critical = none := by
  intro j q hne hq
  cases hq' : q.phase.critical with
  | none => rfl
  | some k' =>
    obtain ⟨hlink, hholder, -⟩ := h.critical i p k hp hk
    obtain ⟨hlink', hholder', -⟩ := h.critical j q k' hq hq'
    rw [hlink] at hlink'
    cases hlink'
    rw [hholder] at hholder'
    exact absurd (Option.some.inj hholder').symm hne

/-- While nobody holds the lock of the table no call is in its critical section. -/
theorem free (h : Consistent tableName s)
    (hfree : ∀ k, s.fs.links .csv = some k → s.fs.holder k = none) :
    ∀ p ∈ s.processes, p.phase.critical = none := by
  intro p hp
  cases hcritical : p.phase.critical with
  | none => rfl
  | some k =>
    obtain ⟨i, hi⟩ := List.mem_iff_getElem?.mp hp
    obtain ⟨hlink, hheld, -⟩ := h.critical i p k hi hcritical
    rw [hfree k hlink] at hheld
    cases hheld

/-- A step that returns nothing yet and keeps the rows of the table keeps the balance of the rows. -/
theorem balance (h : Consistent tableName s) (hp : s.processes[i]? = some p) {fs : Files}
    {phase : StoragePhase} (hinserted : phase.inserted = p.phase.inserted)
    (hdeleted : phase.deleted = p.phase.deleted)
    (hfile : ∀ rows, FileRows (s.fs.file .csv) rows → FileRows (fs.file .csv) rows) :
    StorageState.Conserved ⟨fs, s.processes.set i ⟨p.call, phase⟩⟩ ∧
      ∀ row ∈ StorageState.inserted ⟨fs, s.processes.set i ⟨p.call, phase⟩⟩, row ≠ [[]] := by
  have hins : StorageState.inserted ⟨fs, s.processes.set i ⟨p.call, phase⟩⟩ = s.inserted :=
    flatMap_set_eq hp _ hinserted
  have hdel : StorageState.deleted ⟨fs, s.processes.set i ⟨p.call, phase⟩⟩ = s.deleted :=
    flatMap_set_eq hp _ hdeleted
  obtain ⟨rows, hrows, hperm⟩ := h.conserved
  constructor
  · refine ⟨rows, hfile rows hrows, ?_⟩
    rw [hins, hdel]
    exact hperm
  · rw [hins]
    exact h.unblank

/-- A step of a call outside the critical section that changes locks of its own only. -/
theorem outside (h : Consistent tableName s) (hp : s.processes[i]? = some p)
    (hcritical : p.phase.critical = none) {phase : StoragePhase} (hphase : phase.critical = none)
    (hinserted : phase.inserted = p.phase.inserted) (hdeleted : phase.deleted = p.phase.deleted)
    {holder : Nat → Option Nat}
    (hholder : ∀ k j, j ≠ i → s.fs.holder k = some j → holder k = some j) :
    Consistent tableName
      ⟨{ s.fs with holder := holder }, s.processes.set i ⟨p.call, phase⟩⟩ := by
  obtain ⟨hconserved, hunblank⟩ := h.balance hp hinserted hdeleted fun _ => id
  refine ⟨h.linked, ?_, ?_, hconserved, hunblank, strings_set h.strings hp⟩
  · intro j q k hq hk
    rcases getElem?_set_cases hq with ⟨-, rfl⟩ | ⟨hj, hq⟩
    · rw [hphase] at hk
      cases hk
    · obtain ⟨hlink, hheld, hknows⟩ := h.critical j q k hq hk
      exact ⟨hlink, hholder k j hj hheld, hknows⟩
  · exact fun hall => h.quiet (forall_mem_of_set hp hcritical hall)

theorem stay (h : Consistent tableName s) (hp : s.processes[i]? = some p)
    (hcritical : p.phase.critical = none) {phase : StoragePhase} (hphase : phase.critical = none)
    (hinserted : phase.inserted = p.phase.inserted) (hdeleted : phase.deleted = p.phase.deleted) :
    Consistent tableName ⟨s.fs, s.processes.set i ⟨p.call, phase⟩⟩ :=
  h.outside hp hcritical hphase hinserted hdeleted fun _ _ _ => id

/-- A step where no other call is in its critical section. -/
theorem inside (h : Consistent tableName s) (hp : s.processes[i]? = some p)
    (hothers : ∀ j q, j ≠ i → s.processes[j]? = some q → q.phase.critical = none)
    {fs : Files} {phase : StoragePhase} (hlinked : ∀ k, fs.links .csv = some k → k < fs.inodes.length)
    (hphase : ∀ k, phase.critical = some k →
      fs.links .csv = some k ∧ fs.holder k = some i ∧ Knows tableName fs p.call phase)
    (hquiet : phase.critical = none → fs.links .tmp = none)
    (hconserved : StorageState.Conserved ⟨fs, s.processes.set i ⟨p.call, phase⟩⟩)
    (hunblank : ∀ row ∈ StorageState.inserted ⟨fs, s.processes.set i ⟨p.call, phase⟩⟩, row ≠ [[]]) :
    Consistent tableName ⟨fs, s.processes.set i ⟨p.call, phase⟩⟩ := by
  refine ⟨hlinked, ?_, ?_, hconserved, hunblank, strings_set h.strings hp⟩
  · intro j q k hq hk
    rcases getElem?_set_cases hq with ⟨rfl, rfl⟩ | ⟨hj, hq⟩
    · exact hphase k hk
    · rw [hothers j q hj hq] at hk
      cases hk
  · intro hall
    exact hquiet (hall _ (mem_set hp))

/-- The same, if the rows of the table stay and the call returns nothing yet. -/
theorem silent (h : Consistent tableName s) (hp : s.processes[i]? = some p)
    (hothers : ∀ j q, j ≠ i → s.processes[j]? = some q → q.phase.critical = none)
    {fs : Files} {phase : StoragePhase} (hlinked : ∀ k, fs.links .csv = some k → k < fs.inodes.length)
    (hphase : ∀ k, phase.critical = some k →
      fs.links .csv = some k ∧ fs.holder k = some i ∧ Knows tableName fs p.call phase)
    (hquiet : phase.critical = none → fs.links .tmp = none)
    (hinserted : phase.inserted = p.phase.inserted) (hdeleted : phase.deleted = p.phase.deleted)
    (hfile : ∀ rows, FileRows (s.fs.file .csv) rows → FileRows (fs.file .csv) rows) :
    Consistent tableName ⟨fs, s.processes.set i ⟨p.call, phase⟩⟩ := by
  obtain ⟨hconserved, hunblank⟩ := h.balance hp hinserted hdeleted hfile
  exact h.inside hp hothers hlinked hphase hquiet hconserved hunblank

/-- The call in its critical section goes on without a change of the files. -/
theorem goOn (h : Consistent tableName s) (hp : s.processes[i]? = some p) {k : Nat}
    (hk : p.phase.critical = some k) (htmp : s.fs.links .tmp = none) {phase : StoragePhase}
    (hphase : ∀ k', phase.critical = some k' → k' = k ∧ Knows tableName s.fs p.call phase)
    (hinserted : phase.inserted = p.phase.inserted) (hdeleted : phase.deleted = p.phase.deleted) :
    Consistent tableName ⟨s.fs, s.processes.set i ⟨p.call, phase⟩⟩ := by
  obtain ⟨hlink, hheld, -⟩ := h.critical i p k hp hk
  refine h.silent hp (h.alone hp hk) h.linked ?_ (fun _ => htmp) hinserted
    hdeleted fun _ => id
  intro k' hk'
  obtain ⟨rfl, hknows⟩ := hphase k' hk'
  exact ⟨hlink, hheld, hknows⟩

/-! ## The steps -/

section Steps

variable {call : StorageCall}

theorem openAppend (h : Consistent tableName s) (hp : s.processes[i]? = some ⟨call, .ready⟩) :
    Consistent tableName ⟨(s.fs.openAppend .csv).2,
      s.processes.set i ⟨call, .opened (s.fs.openAppend .csv).1⟩⟩ := by
  cases hlink : s.fs.links .csv with
  | some k =>
    rw [openAppend_of_some hlink]
    exact h.stay hp rfl rfl rfl rfl
  | none =>
    have hfree := h.free fun k hk => by
      rw [hlink] at hk
      cases hk
    have hne : TablePath.tmp ≠ .csv := nofun
    rw [openAppend_of_none hlink]
    refine h.silent hp (fun j q _ hq => hfree q (List.mem_of_getElem? hq)) ?_ nofun (fun _ => ?_)
      rfl rfl ?_
    · intro k hk
      rw [links_create_self] at hk
      cases hk
      rw [length_create]
      exact Nat.lt_succ_self _
    · rw [links_create_of_ne hne]
      exact h.quiet hfree
    · intro rows hrows
      have hempty : s.fs.file .csv = none := by
        rw [FileSystem.file, hlink, Option.map_none]
      rw [hempty] at hrows
      rw [file_eq links_create_self, read_create_new]
      rcases hrows with ⟨-, rfl⟩ | ⟨T, hT, -⟩
      · exact .inl ⟨rfl, rfl⟩
      · cases hT

theorem lock (h : Consistent tableName s) {k : Nat} (hp : s.processes[i]? = some ⟨call, .opened k⟩)
    (hlink : s.fs.links .csv = some k) {fs : Files} (hlock : s.fs.lock i k = some fs) :
    Consistent tableName ⟨fs, s.processes.set i ⟨call, .locked k⟩⟩ := by
  unfold FileSystem.lock at hlock
  split at hlock
  · rename_i hholder
    cases hlock
    have hfree := h.free fun k' hk' => by
      rw [hlink] at hk'
      cases hk'
      exact hholder
    refine h.silent hp (fun j q _ hq => hfree q (List.mem_of_getElem? hq)) h.linked ?_ nofun rfl rfl
      fun _ => id
    intro k' hk'
    cases hk'
    refine ⟨hlink, Function.update_self .., ?_⟩
    have hquiet := h.quiet hfree
    cases call <;> exact hquiet
  · cases hlock

theorem unlock (h : Consistent tableName s) {k : Nat} {result : StorageResult}
    (hp : s.processes[i]? = some ⟨call, .leaving k result⟩) :
    Consistent tableName ⟨s.fs.unlock i k, s.processes.set i ⟨call, .returned result⟩⟩ := by
  have hsame : (StoragePhase.returned result).inserted = (StoragePhase.leaving k result).inserted ∧
      (StoragePhase.returned result).deleted = (StoragePhase.leaving k result).deleted := by
    cases result <;> exact ⟨rfl, rfl⟩
  unfold FileSystem.unlock
  split
  · rename_i hheld
    refine h.outside hp rfl rfl hsame.1 hsame.2 ?_
    intro k' j hj hholder
    have hk : k' ≠ k := by
      rintro rfl
      rw [hheld] at hholder
      exact hj (Option.some.inj hholder).symm
    rw [Function.update_of_ne hk]
    exact hholder
  · exact h.stay hp rfl rfl hsame.1 hsame.2

theorem append (h : Consistent tableName s) {k : Nat} {stmt : InsertStatement} {plan : InsertPlan}
    (hp : s.processes[i]? = some ⟨.insert stmt, .planned k plan⟩) (hrow : plan.row ≠ [[]]) :
    Consistent tableName ⟨s.fs.append k plan.text,
      s.processes.set i ⟨.insert stmt, .leaving k (.inserted plan.row)⟩⟩ := by
  obtain ⟨hlink, hheld, htmp, hplan⟩ := h.critical i _ k hp rfl
  have hk := h.linked k hlink
  have hlink' : (s.fs.append k plan.text).links .csv = some k := hlink
  have hins := flatMap_set_perm hp (fun p : StorageProcess => p.phase.inserted)
    (b := ⟨.insert stmt, .leaving k (.inserted plan.row)⟩) rfl
  have hdel := flatMap_set_eq hp (fun p : StorageProcess => p.phase.deleted)
    (b := ⟨.insert stmt, .leaving k (.inserted plan.row)⟩) rfl
  refine h.inside hp (h.alone hp rfl) ?_ nofun (fun _ => htmp) ?_ ?_
  · intro k' hk'
    rw [FileSystem.append, length_write]
    exact h.linked k' hk'
  · obtain ⟨rows, hrows, hperm⟩ := h.conserved
    rw [file_eq hlink] at hrows
    refine ⟨rows ++ [plan.row], ?_, ?_⟩
    · rw [file_eq hlink', FileSystem.append, read_write_self hk]
      exact hrows.insert (h.strings _ (List.mem_of_getElem? hp) stmt rfl) hplan
    · refine hins.trans ?_
      unfold StorageState.deleted
      rw [hdel, List.append_assoc]
      exact (hperm.cons plan.row).trans List.perm_middle.symm
  · intro row hmem
    rcases List.mem_append.mp (hins.mem_iff.mp hmem) with hnew | hold
    · rw [List.mem_singleton.mp hnew]
      exact hrow
    · exact h.unblank row hold

variable {stmt : DeleteStatement} {k : Nat} {table : TableData}

theorem createTemp (h : Consistent tableName s)
    (hp : s.processes[i]? = some ⟨.delete stmt, .loaded k table⟩) :
    Consistent tableName ⟨(s.fs.openWrite .tmp).2,
      s.processes.set i ⟨.delete stmt, .created k table (s.fs.openWrite .tmp).1⟩⟩ := by
  obtain ⟨hlink, hheld, htmp, hload⟩ := h.critical i _ k hp rfl
  have hk := h.linked k hlink
  have hne : TablePath.csv ≠ .tmp := nofun
  have hlink' : (s.fs.create .tmp).links .csv = some k := (links_create_of_ne hne).trans hlink
  rw [openWrite_of_none htmp]
  refine h.silent hp (h.alone hp rfl) ?_ ?_ nofun rfl rfl ?_
  · intro k' hk'
    rw [hlink'] at hk'
    cases hk'
    rw [length_create]
    exact Nat.lt_succ_of_lt hk
  · intro k' hk'
    cases hk'
    refine ⟨hlink', hheld, links_create_self, Nat.ne_of_gt hk, ?_, read_create_new, ?_⟩
    · rw [length_create]
      exact Nat.lt_succ_self _
    · rw [read_create_of_lt hk]
      exact hload
  · rw [file_eq hlink, file_eq hlink', read_create_of_lt hk]
    exact fun _ => id

theorem writeTemp (h : Consistent tableName s) {temp count : Nat} {tempFp : Stream}
    (hp : s.processes[i]? = some ⟨.delete stmt, .created k table temp⟩)
    (hloop : deleteRows tableName table.columns stmt 0
      ⟨(storageWriteHeader table.columns).flatten, []⟩ [] table.rows = (.ok (), count, tempFp)) :
    Consistent tableName ⟨s.fs.overwrite temp tempFp.content,
      s.processes.set i ⟨.delete stmt, .written k table⟩⟩ := by
  obtain ⟨hlink, hheld, htmp, hne, hlt, hempty, hload⟩ := h.critical i _ k hp rfl
  have htext : tempFp.content = tableText table.columns (stmt.kept table.columns table.rows) := by
    obtain ⟨-, -, rest, hput⟩ := deleteRows_eq_ok.mp hloop
    rw [Stream.content_putAll hput, ← flatten_tableCalls, tableCalls, List.flatten_append,
      Stream.content, List.append_nil]
  have hlink' : (s.fs.overwrite temp tempFp.content).links .csv = some k := hlink
  refine h.silent hp (h.alone hp rfl) ?_ ?_ (fun h => by cases h) rfl rfl ?_
  · intro k' hk'
    rw [FileSystem.overwrite, length_write]
    exact h.linked k' hk'
  · intro k' hk'
    cases hk'
    refine ⟨hlink, hheld, temp, htmp, ?_, ?_, ?_⟩
    · rw [FileSystem.overwrite, length_write]
      exact hlt
    · rw [FileSystem.overwrite, read_write_self hlt, hempty, List.drop_nil, List.append_nil, htext]
    · rw [FileSystem.overwrite, read_write_of_ne hne]
      exact hload
  · rw [file_eq hlink, file_eq hlink', FileSystem.overwrite, read_write_of_ne hne]
    exact fun _ => id

theorem dropTemp (h : Consistent tableName s) {temp : Nat} {text : Bytes}
    (hp : s.processes[i]? = some ⟨.delete stmt, .created k table temp⟩) :
    Consistent tableName ⟨(s.fs.overwrite temp text).unlink .tmp,
      s.processes.set i ⟨.delete stmt, .leaving k .failed⟩⟩ := by
  obtain ⟨hlink, hheld, -, hne, -⟩ := h.critical i _ k hp rfl
  have hcsv : TablePath.csv ≠ .tmp := nofun
  have hlink' : ((s.fs.overwrite temp text).unlink .tmp).links .csv = some k :=
    (links_unlink_of_ne hcsv).trans hlink
  refine h.silent hp (h.alone hp rfl) ?_ nofun
    (fun _ => links_unlink_self) rfl rfl ?_
  · intro k' hk'
    rw [hlink'] at hk'
    cases hk'
    show k < (s.fs.write temp _).inodes.length
    rw [length_write]
    exact h.linked k hlink
  · have hread : ((s.fs.overwrite temp text).unlink .tmp).read k = s.fs.read k := read_write_of_ne hne
    rw [file_eq hlink, file_eq hlink', hread]
    exact fun _ => id

theorem rename (h : Consistent tableName s)
    (hp : s.processes[i]? = some ⟨.delete stmt, .written k table⟩) :
    ∃ fs, s.fs.rename .tmp .csv = some fs ∧ Consistent tableName ⟨fs, s.processes.set i
      ⟨.delete stmt, .leaving k (.deleted (table.rows.filter (stmt.removes table.columns)))⟩⟩ := by
  obtain ⟨hlink, hheld, temp, htmp, hlt, htext, hload⟩ := h.critical i _ k hp rfl
  have hne : TablePath.csv ≠ .tmp := nofun
  obtain ⟨fs, hrename, hcsv, hquiet, hinodes⟩ := rename_eq htmp hne
  have hread : fs.read temp = s.fs.read temp := by
    rw [FileSystem.read, FileSystem.read, hinodes]
  have hins := flatMap_set_eq hp (fun p : StorageProcess => p.phase.inserted) (b := ⟨.delete stmt,
    .leaving k (.deleted (table.rows.filter (stmt.removes table.columns)))⟩) rfl
  have hdel := flatMap_set_perm hp (fun p : StorageProcess => p.phase.deleted) (b := ⟨.delete stmt,
    .leaving k (.deleted (table.rows.filter (stmt.removes table.columns)))⟩) rfl
  refine ⟨fs, hrename, h.inside hp (h.alone hp rfl) ?_ nofun
    (fun _ => hquiet) ?_ ?_⟩
  · intro k' hk'
    rw [hcsv] at hk'
    cases hk'
    rw [hinodes]
    exact hlt
  · obtain ⟨rows, hrows, hperm⟩ := h.conserved
    rw [file_eq hlink] at hrows
    obtain ⟨hkept, hloaded⟩ := hrows.delete stmt hload
    have hall : table.rows = rows := by
      rw [hloaded]
      refine List.filter_eq_self.mpr fun row hrow => decide_eq_true ?_
      exact h.unblank row (hperm.mem_iff.mpr (List.mem_append_left _ hrow))
    refine ⟨stmt.kept table.columns table.rows, ?_, ?_⟩
    · rw [file_eq hcsv, hread, htext]
      exact hkept
    · have hsplit : rows.Perm (stmt.kept table.columns table.rows ++
          table.rows.filter (stmt.removes table.columns)) := by
        rw [← hall]
        exact (List.perm_append_comm.trans (List.filter_append_perm _ _)).symm
      unfold StorageState.inserted
      rw [hins]
      refine hperm.trans ((hsplit.append_right _).trans ?_)
      rw [List.append_assoc]
      exact hdel.symm.append_left _
  · unfold StorageState.inserted
    rw [hins]
    exact h.unblank

/-- A timely step of an insert keeps it. -/
theorem insert (h : Consistent tableName s) {stmt : InsertStatement} {phase : StoragePhase}
    (hp : s.processes[i]? = some ⟨.insert stmt, phase⟩) (htimely : s.timely i = true)
    {fs : Files} {next : StoragePhase}
    (hstep : storageStep tableName s.fs i (.insert stmt) phase = some (fs, next)) :
    Consistent tableName ⟨fs, s.processes.set i ⟨.insert stmt, next⟩⟩ := by
  unfold StorageState.timely at htimely
  rw [hp] at htimely
  cases phase with
  | ready =>
    simp only [storageStep] at hstep
    split at hstep
    · cases hstep
      exact h.stay hp rfl rfl rfl rfl
    · cases hstep
      exact h.openAppend hp
  | opened k =>
    obtain ⟨fs', hlock, heq⟩ := Option.map_eq_some_iff.mp hstep
    cases heq
    exact h.lock hp (of_decide_eq_true htimely) hlock
  | locked k =>
    obtain ⟨-, -, hquiet⟩ := h.critical i _ k hp rfl
    simp only [storageStep] at hstep
    split at hstep
    · cases hstep
      exact h.goOn hp rfl hquiet nofun rfl rfl
    · rename_i plan hplan
      cases hstep
      refine h.goOn hp rfl hquiet ?_ rfl rfl
      intro k' hk'
      cases hk'
      exact ⟨rfl, hquiet, hplan⟩
  | planned k plan =>
    cases hstep
    exact h.append hp (of_decide_eq_true htimely)
  | leaving k result =>
    cases hstep
    exact h.unlock hp
  | _ => cases hstep

/-- A timely step of a delete keeps it. -/
theorem delete (h : Consistent tableName s) {phase : StoragePhase}
    (hp : s.processes[i]? = some ⟨.delete stmt, phase⟩) (htimely : s.timely i = true)
    {fs : Files} {next : StoragePhase}
    (hstep : storageStep tableName s.fs i (.delete stmt) phase = some (fs, next)) :
    Consistent tableName ⟨fs, s.processes.set i ⟨.delete stmt, next⟩⟩ := by
  unfold StorageState.timely at htimely
  rw [hp] at htimely
  cases phase with
  | ready =>
    simp only [storageStep] at hstep
    split at hstep
    · cases hstep
      exact h.stay hp rfl rfl rfl rfl
    · cases hstep
      exact h.stay hp rfl rfl rfl rfl
  | opened k =>
    obtain ⟨fs', hlock, heq⟩ := Option.map_eq_some_iff.mp hstep
    cases heq
    exact h.lock hp (of_decide_eq_true htimely) hlock
  | locked k =>
    obtain ⟨-, -, hquiet⟩ := h.critical i _ k hp rfl
    simp only [storageStep] at hstep
    split at hstep
    · cases hstep
      exact h.goOn hp rfl hquiet nofun rfl rfl
    · rename_i table hload
      cases hstep
      refine h.goOn hp rfl hquiet ?_ rfl rfl
      intro k' hk'
      cases hk'
      exact ⟨rfl, hquiet, hload⟩
  | loaded k table =>
    cases hstep
    exact h.createTemp hp
  | created k table temp =>
    simp only [storageStep] at hstep
    split at hstep
    · cases hstep
      exact h.dropTemp hp
    · rename_i hloop
      cases hstep
      exact h.writeTemp hp hloop
  | written k table =>
    obtain ⟨fs', hrename, hconsistent⟩ := h.rename hp
    simp only [storageStep] at hstep
    rw [hrename] at hstep
    cases hstep
    exact hconsistent
  | leaving k result =>
    cases hstep
    exact h.unlock hp
  | _ => cases hstep

end Steps

/-- Every timely step keeps it. -/
theorem step (h : Consistent tableName s) (htimely : s.timely i = true) {s' : StorageState}
    (hstep : s.step tableName i = some s') : Consistent tableName s' := by
  obtain ⟨⟨call, phase⟩, fs, next, hp, hnext, rfl⟩ := StorageState.step_cases hstep
  cases call with
  | insert stmt => exact h.insert hp htimely hnext
  | delete stmt => exact h.delete hp htimely hnext

end Consistent

/-- Before the first step. -/
theorem consistent_start (tableName : Bytes) {calls : List StorageCall}
    (hstrings : ∀ stmt, .insert stmt ∈ calls → stmt.Strings) :
    Consistent tableName (.start calls) := by
  have hready : ∀ p ∈ (StorageState.start calls).processes, p.phase = .ready := by
    intro p hp
    obtain ⟨call, -, rfl⟩ := List.mem_map.mp hp
    rfl
  have hnone : ∀ {f : StorageProcess → List Row},
      (∀ p ∈ (StorageState.start calls).processes, f p = []) →
      (StorageState.start calls).processes.flatMap f = [] := List.flatMap_eq_nil_iff.mpr
  have hinserted : (StorageState.start calls).inserted = [] :=
    hnone fun p hp => by rw [hready p hp]; rfl
  have hdeleted : (StorageState.start calls).deleted = [] :=
    hnone fun p hp => by rw [hready p hp]; rfl
  constructor
  · nofun
  · intro i p k hp hk
    rw [hready p (List.mem_of_getElem? hp)] at hk
    cases hk
  · exact fun _ => rfl
  · refine ⟨[], .inl ⟨rfl, rfl⟩, ?_⟩
    rw [hinserted, hdeleted]
    exact List.Perm.refl _
  · rw [hinserted]
    nofun
  · intro p hp stmt hcall
    obtain ⟨call, hmem, rfl⟩ := List.mem_map.mp hp
    obtain rfl : call = .insert stmt := hcall
    exact hstrings stmt hmem

/-- In every state of a run whose steps are timely the rows that were inserted are those in the file
and those that were deleted: none is lost, and none comes back. -/
theorem storageRun_conserved {tableName : Bytes} {calls : List StorageCall} {s : StorageState}
    (hstrings : ∀ stmt, .insert stmt ∈ calls → stmt.Strings)
    (hrun : StorageRun tableName calls StorageState.timely s) : s.Conserved := by
  suffices Consistent tableName s from this.conserved
  induction hrun with
  | start => exact consistent_start tableName hstrings
  | step _ htimely hstep ih => exact ih.step htimely hstep

/-! ## Runs -/

/-- The two inserts have the empty file open when the first takes the lock. -/
theorem storageRun_conserved_inserts : ∃ s,
    StorageRun (bytes "users")
      [.insert (insertId "1"), .insert (insertId "2"), .delete (deleteId "1")]
      StorageState.timely s ∧ s.finished = true ∧ s.Conserved := by
  have hrun : ((StorageState.start
      [.insert (insertId "1"), .insert (insertId "2"), .delete (deleteId "1")]).run (bytes "users")
        StorageState.timely [0, 1, 0, 0, 0, 0, 2, 1, 1, 1, 1, 2, 2, 2, 2, 2, 2]).any
      StorageState.finished = true := by
    decide +kernel
  obtain ⟨s, hs, hfinished⟩ := (Option.any_eq_true _ _).mp hrun
  have hreached := StorageRun.start.run hs
  refine ⟨s, hreached, hfinished, storageRun_conserved ?_ hreached⟩
  have hone : (insertId "1").Strings := ⟨by decide, by decide⟩
  have htwo : (insertId "2").Strings := ⟨by decide, by decide⟩
  simp only [List.mem_cons, StorageCall.insert.injEq, reduceCtorEq, List.not_mem_nil, or_false]
  rintro stmt (rfl | rfl)
  · exact hone
  · exact htwo

/-- A delete replaces the file while an insert waits for the lock of the old inode. -/
theorem storageRun_conserved_renamed :
    ¬ ∀ tableName calls s, (∀ stmt, .insert stmt ∈ calls → InsertStatement.Strings stmt) →
      StorageRun tableName calls (fun _ _ => true) s → s.finished = true → s.Conserved := by
  intro hgeneral
  have hrun : ((StorageState.start
      [.insert (insertId "1"), .delete (deleteId "2"), .insert (insertId "3")]).run (bytes "users")
        (fun _ _ => true) [0, 0, 0, 0, 0, 1, 1, 2, 1, 1, 1, 1, 1, 2, 2, 2, 2]).any
      (fun s => s.finished && decide (s.fs.file .csv = some usersFile ∧ s.inserted.length = 2 ∧
        s.deleted = [])) = true := by
    decide +kernel
  obtain ⟨s, hs, htest⟩ := (Option.any_eq_true _ _).mp hrun
  obtain ⟨hfinished, htest⟩ := Bool.and_eq_true_iff.mp htest
  obtain ⟨hfile, hinserted, hdeleted⟩ := of_decide_eq_true htest
  have hone : (insertId "1").Strings := ⟨by decide, by decide⟩
  have hthree : (insertId "3").Strings := ⟨by decide, by decide⟩
  obtain ⟨rows, hrows, hperm⟩ := hgeneral _ _ s
    (by
      simp only [List.mem_cons, StorageCall.insert.injEq, reduceCtorEq, List.not_mem_nil, or_false,
        false_or]
      rintro stmt (rfl | rfl)
      · exact hone
      · exact hthree) (StorageRun.start.run hs) hfinished
  -- one row is left of the two
  have htext : tableText (insertId "1").newColumns [(insertId "1").firstRow] = usersFile := by
    decide +kernel
  have hkim : FileRows (s.fs.file .csv) [(insertId "1").firstRow] := by
    rw [hfile, ← htext]
    exact .inr ⟨(insertId "1").newTable (by decide) hone, rfl, rfl⟩
  rw [hdeleted, List.append_nil, hrows.unique hkim] at hperm
  have hlength := hperm.length_eq
  rw [hinserted] at hlength
  cases hlength

end JungleDb
