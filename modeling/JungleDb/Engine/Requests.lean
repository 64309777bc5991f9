import JungleDb.Engine.Answer
import JungleDb.Lib.Sections

/-!
# Concurrent requests

Every request is a thread with one statement. It looks up, or for an INSERT creates, the registry
entry under the registry mutex; it takes the lock of that entry for reading or for writing; the body
of the statement runs; the lock is given back. `Sections` orders these steps in every interleaving;
here the bodies are those of the executor, and what they leave is read off the relation that each
table represents.
-/

namespace JungleDb

open CString Sections

/-- `executor_execute` up to the lock of the entry. -/
def executorLookup (statement : SqlStatement) (registry : Registry) :
    Except Reply Nat × Registry :=
  match statement with
  | .insert stmt =>
    if executorInsertMentionsId stmt then
      (.error (executorFail queryResultInit (bytes "Explicit id values are not allowed.")), registry)
    else match tableRuntimeAcquireWrite registry stmt.tableName.text with
      | (none, registry) => (.error (executorFail queryResultInit
          (bytes "Failed to open table '" ++ stmt.tableName.text ++ bytes "' for writing.")), registry)
      | (some entry, registry) => (.ok entry, registry)
  | .select stmt =>
    match tableRuntimeAcquireRead registry stmt.tableName.text with
    | (none, registry) => (.error (notFound stmt.tableName.text), registry)
    | (some entry, registry) => (.ok entry, registry)
  | .delete _ => (.error (executorExecuteDelete queryResultInit), registry)

/-- `executor_execute` under the lock of the entry; a DELETE does not get there. -/
def executorBody (statement : SqlStatement) (table : TableRuntime) : Option (Reply × TableRuntime) :=
  match statement with
  | .insert stmt => (executorInsertBody stmt table).map fun (status, table) =>
    (executorInsertFinish stmt queryResultInit status, table)
  | .select stmt => (executorSelectBody stmt table queryResultInit).map (·, table)
  | .delete _ => none

/-- An INSERT takes the lock for writing. -/
def SqlStatement.writes : SqlStatement → Bool
  | .insert _ => true
  | .select _ => false
  | .delete _ => false

/-- A table that has just been created. -/
def IsNew (t : TableRuntime) : Prop :=
  ∃ name : Identifier, t = { tableInit with tableName := name }

theorem executorLookup_grows (statement : SqlStatement) (registry : Registry) :
    ∃ new, (executorLookup statement registry).2 = registry ++ new ∧ ∀ t ∈ new, IsNew t := by
  have hsame : ∃ new, registry = registry ++ new ∧ ∀ t ∈ new, IsNew t :=
    ⟨[], (List.append_nil registry).symm, nofun⟩
  have hacquire (name : Bytes) (create : Bool) :
      ∃ new, (tableRuntimeAcquireEntry registry name create).2 = registry ++ new ∧
        ∀ t ∈ new, IsNew t := by
    unfold tableRuntimeAcquireEntry
    split
    · exact hsame
    split
    · exact hsame
    split
    · unfold tableRuntimeCreateEntry
      split
      · exact hsame
      · rename_i name _
        refine ⟨_, rfl, fun t ht => ⟨name, ?_⟩⟩
        rw [List.mem_singleton.mp ht]
    · exact hsame
  cases statement with
  | insert stmt =>
    have h := hacquire stmt.tableName.text true
    unfold executorLookup tableRuntimeAcquireWrite
    simp only
    split
    · exact hsame
    · split <;> rename_i hacq <;> rwa [hacq] at h
  | select stmt =>
    have h := hacquire stmt.tableName.text false
    unfold executorLookup tableRuntimeAcquireRead
    simp only
    split <;> rename_i hacq <;> rwa [hacq] at h
  | delete _ => exact hsame

/-- The requests as threads. -/
def requests {ι : Type} (stmt : ι → SqlStatement) : Program ι TableRuntime Reply where
  writes i := (stmt i).writes
  lookup i := executorLookup (stmt i)
  body t i := executorBody (stmt i) t
  Fresh := IsNew
  grows i := executorLookup_grows (stmt i)

/-! ## The registry -/

/-- A lookup keeps what the registry holds and finds the entry of the name. -/
theorem HoldsDb.lookup {registry registry' : Registry} {db : Database} (h : HoldsDb registry db)
    {statement : SqlStatement} {found : Except Reply Nat}
    (hfound : executorLookup statement registry = (found, registry')) :
    HoldsDb registry' db ∧ ∀ k, found = .ok k →
      ∃ t, registry'[k]? = some t ∧ SameName t.tableName.text statement.tableName := by
  cases statement with
  | insert insert =>
    simp only [executorLookup] at hfound
    split at hfound
    · cases hfound
      exact ⟨h, nofun⟩
    by_cases hname : insert.tableName.text = []
    · rw [tableRuntimeAcquireWrite, tableRuntimeAcquireEntry, if_pos hname] at hfound
      cases hfound
      exact ⟨h, nofun⟩
    · obtain ⟨k, t, registry'', hacq, h', ht, hsame⟩ := h.acquireWrite hname
      rw [hacq] at hfound
      cases hfound
      refine ⟨h', fun k' hk => ?_⟩
      cases hk
      exact ⟨t, ht, hsame⟩
  | select select =>
    simp only [executorLookup] at hfound
    rcases h.acquireRead select.tableName.text with ⟨hacq, -⟩ | ⟨k, t, hacq, -, ht, hsame⟩
    · rw [hacq] at hfound
      cases hfound
      exact ⟨h, nofun⟩
    · rw [hacq] at hfound
      cases hfound
      refine ⟨h, fun k' hk => ?_⟩
      cases hk
      exact ⟨t, ht, hsame⟩
  | delete _ =>
    cases hfound
    exact ⟨h, nofun⟩

/-- The body of an INSERT keeps that the registry holds a database, and the name of its table. -/
theorem HoldsDb.insertBody {registry : Registry} {db : Database} (h : HoldsDb registry db)
    {statement : SqlStatement} (hw : statement.writes = true) {k : Nat} {t t' : TableRuntime}
    {reply : Reply} (ht : registry[k]? = some t)
    (hsame : SameName t.tableName.text statement.tableName)
    (hbody : executorBody statement t = some (reply, t')) :
    (∃ db', HoldsDb (registry.set k t') db') ∧ t'.tableName = t.tableName := by
  cases statement with
  | insert insert =>
    obtain ⟨t₁, hname, hrun⟩ := h.insertRow ht hsame
    rw [executorBody] at hbody
    split at hrun
    · rw [hrun.1] at hbody
      cases hbody
      exact ⟨⟨_, hrun.2⟩, hname⟩
    · rw [hrun.1] at hbody
      cases hbody
      exact ⟨⟨_, hrun.2⟩, hname⟩
  | select _ => cases hw
  | delete _ => cases hw

/-- The values that an INSERT gives. -/
def SqlStatement.insertedValues : SqlStatement → Row
  | .insert stmt => values stmt.items.1
  | .select _ => []
  | .delete _ => []

/-- The reply is a success. -/
def Reply.succeeded (reply : Reply) : Bool := reply.1 == .success

/-- The body of an INSERT adds its values, if it succeeds. -/
theorem Represents.insertBody {t t' : TableRuntime} {o : Option Relation} (h : Represents t o)
    {statement : SqlStatement} (hw : statement.writes = true) {reply : Reply}
    (hbody : executorBody statement t = some (reply, t')) :
    ∃ o', Represents t' o' ∧
      Extends o o' (if reply.succeeded then [statement.insertedValues] else []) := by
  cases statement with
  | insert insert =>
    obtain ⟨result, t₁, o', hrun, hrep, hext⟩ := h.insertRow insert
    rw [executorBody, executorInsertBody, hrun] at hbody
    cases hbody
    refine ⟨o', hrep, ?_⟩
    cases result with
    | error e => exact hext
    | ok n => exact hext
  | select _ => cases hw
  | delete _ => cases hw

/-- The steps of a request in their order are `executor_execute`: when it is refused, -/
theorem executorExecute_refused {registry registry' : Registry} {statement : SqlStatement}
    {reply : Reply} (hfound : executorLookup statement registry = (.error reply, registry')) :
    executorExecute registry statement = some (reply, registry') := by
  cases statement with
  | insert stmt =>
    simp only [executorLookup] at hfound
    simp only [executorExecute, executorExecuteInsert]
    by_cases hid : executorInsertMentionsId stmt = true
    · rw [if_pos hid] at hfound ⊢
      cases hfound
      rfl
    · rw [if_neg hid] at hfound ⊢
      rcases hacq : tableRuntimeAcquireWrite registry stmt.tableName.text with ⟨_ | k, registry₁⟩
      · rw [hacq] at hfound
        cases hfound
        rfl
      · rw [hacq] at hfound
        cases hfound
  | select stmt =>
    simp only [executorLookup] at hfound
    simp only [executorExecute, executorExecuteSelect]
    rcases hacq : tableRuntimeAcquireRead registry stmt.tableName.text with ⟨_ | k, registry₁⟩
    · rw [hacq] at hfound
      cases hfound
      rfl
    · rw [hacq] at hfound
      cases hfound
  | delete _ =>
    cases hfound
    rfl

/-- and when its body runs. -/
theorem executorExecute_body {registry registry' : Registry} {statement : SqlStatement} {k : Nat}
    {t t' : TableRuntime} {reply : Reply}
    (hfound : executorLookup statement registry = (.ok k, registry')) (ht : registry'[k]? = some t)
    (hbody : executorBody statement t = some (reply, t')) :
    executorExecute registry statement =
      some (reply, if statement.writes then registry'.set k t' else registry') := by
  cases statement with
  | insert stmt =>
    simp only [executorLookup] at hfound
    simp only [executorExecute, executorExecuteInsert]
    by_cases hid : executorInsertMentionsId stmt = true
    · rw [if_pos hid] at hfound
      cases hfound
    rw [if_neg hid] at hfound ⊢
    simp only [executorBody, Option.map_eq_some_iff] at hbody
    obtain ⟨⟨status, t₁⟩, hinsert, heq⟩ := hbody
    cases heq
    rcases hacq : tableRuntimeAcquireWrite registry stmt.tableName.text with ⟨_ | k', registry₁⟩
    · rw [hacq] at hfound
      cases hfound
    · rw [hacq] at hfound
      cases hfound
      simp only [ht, hinsert, Option.bind_eq_bind, Option.bind_some]
      rfl
  | select stmt =>
    simp only [executorLookup] at hfound
    simp only [executorExecute, executorExecuteSelect]
    simp only [executorBody, Option.map_eq_some_iff] at hbody
    obtain ⟨reply', hselect, heq⟩ := hbody
    cases heq
    rcases hacq : tableRuntimeAcquireRead registry stmt.tableName.text with ⟨_ | k', registry₁⟩
    · rw [hacq] at hfound
      cases hfound
    · rw [hacq] at hfound
      cases hfound
      simp only [ht, hselect, Option.bind_eq_bind, Option.bind_some]
      rfl
  | delete _ => cases hfound

/-- A body runs on every table that a registry holds under the name. -/
theorem HoldsDb.body {registry : Registry} {db : Database} (h : HoldsDb registry db) {k : Nat}
    {t : TableRuntime} {statement : SqlStatement} (ht : registry[k]? = some t)
    (hsame : SameName t.tableName.text statement.tableName)
    (hdelete : ∀ stmt, statement ≠ .delete stmt) :
    ∃ reply t', executorBody statement t = some (reply, t') := by
  cases statement with
  | insert stmt =>
    obtain ⟨t', -, hrun⟩ := h.insertRow ht hsame
    rw [executorBody]
    split at hrun <;> rw [hrun.1] <;> exact ⟨_, _, rfl⟩
  | select stmt =>
    have hrep := h.entry t (List.mem_of_getElem? ht)
    rw [executorBody]
    cases hR : db (nameKey t.tableName.text) with
    | none =>
      rw [hR] at hrep
      rw [executorSelectBody, hrep.1]
      exact ⟨_, _, rfl⟩
    | some R =>
      rw [hR] at hrep
      rw [executorSelectBody_refines hrep stmt]
      exact ⟨_, _, rfl⟩
  | delete stmt => exact absurd rfl (hdelete stmt)

variable {ι : Type} [DecidableEq ι] {stmt : ι → SqlStatement} {trace : Trace ι}
  {s s' : State ι TableRuntime Reply}

/-- In every interleaving the registry holds a database, and a request works on the table of its
name. -/
theorem requests_hold (hrun : (requests stmt).Run trace s) :
    (∃ db, HoldsDb s.objects db) ∧ ∀ i k, (s.phase i).object = some k →
      ∃ t, s.objects[k]? = some t ∧ SameName t.tableName.text (stmt i).tableName := by
  refine hrun.invariant (I := fun registry => ∃ db, HoldsDb registry db)
    (J := fun i t => SameName t.tableName.text (stmt i).tableName) ⟨_, holds_empty⟩ ?_ ?_
  · rintro i registry found registry' ⟨db, h⟩ hfound
    obtain ⟨h', ht⟩ := h.lookup hfound
    exact ⟨⟨db, h'⟩, ht⟩
  · rintro i k t reply t' registry ⟨db, h⟩ hw ht hsame hbody
    obtain ⟨h', hname⟩ := h.insertBody hw ht hsame hbody
    exact ⟨h', fun j hj => by rwa [hname]⟩

/-- A request that comes when no lock is held and is not interrupted has its reply after a few
steps, and has done what `executor_execute` does. -/
theorem requests_alone (hrun : (requests stmt).Run trace s) {i : ι} (hready : s.phase i = .ready)
    (hfree : ∀ k, s.lock k = .free) :
    ∃ n trace' s' reply, (requests stmt).schedule trace s (List.replicate n i) = some (trace', s') ∧
      (s'.phase i).result = some reply ∧
      executorExecute s.objects (stmt i) = some (reply, s'.objects) := by
  obtain ⟨⟨db, hdb⟩, -⟩ := requests_hold hrun
  rcases hfound : executorLookup (stmt i) s.objects with ⟨reply | k, registry⟩
  · refine ⟨1, trace ++ [(i, .lookup)], (s.goto i (.refused reply)).setObjects registry, reply, ?_, ?_,
      executorExecute_refused hfound⟩
    · have hlookup : (requests stmt).lookup i s.objects = (.error reply, registry) := hfound
      simp [Program.schedule, Program.step, hready, hlookup]
    · rw [State.setObjects_phase, State.goto_phase_self]
      rfl
  · obtain ⟨hdb', hentry⟩ := hdb.lookup hfound
    obtain ⟨t, ht, hsame⟩ := hentry k rfl
    have hdelete : ∀ delete, stmt i ≠ .delete delete := fun delete heq => by
      rw [heq] at hfound
      cases hfound
    obtain ⟨reply, t', hbody⟩ := hdb'.body ht hsame hdelete
    obtain ⟨trace', s', hschedule, hphase, hobjects⟩ :=
      Program.alone (P := requests stmt) trace hready (hfree k) hfound ht hbody
    refine ⟨5, trace', s', reply, hschedule, by rw [hphase]; rfl, ?_⟩
    rw [hobjects]
    exact executorExecute_body hfound ht hbody

/-- A request that is refused before it has a lock fails. -/
theorem requests_refused (hrun : (requests stmt).Run trace s) {i : ι} {reply : Reply}
    (hphase : s.phase i = .refused reply) : reply.1 = .failure := by
  refine hrun.refused (E := fun _ reply => reply.1 = .failure) ?_ i reply hphase
  intro i registry out registry' hfound
  change executorLookup (stmt i) registry = _ at hfound
  unfold executorLookup at hfound
  split at hfound
  · split at hfound
    · cases hfound
      rfl
    · split at hfound
      · cases hfound
        rfl
      · cases hfound
  · split at hfound
    · cases hfound
      rfl
    · cases hfound
  · cases hfound
    rfl

/-! ## The bodies one after the other -/

omit [DecidableEq ι] in
/-- After the bodies of some INSERTs, one after the other, a table has the values of those that
succeeded. -/
theorem Represents.insertBodies {order : List ι} (hw : ∀ i ∈ order, (stmt i).writes = true)
    {reply : ι → Option Reply} : ∀ {outs : List Reply} {t t' : TableRuntime} {o : Option Relation},
    Represents t o → Machine.run (requests stmt).body t order = some (outs, t') →
      order.map reply = outs.map some →
        ∃ o', Represents t' o' ∧ Extends o o'
          ((order.filter fun i => (reply i).any Reply.succeeded).map fun i =>
            (stmt i).insertedValues) := by
  induction order with
  | nil =>
    intro outs t t' o h hrun _
    cases hrun
    exact ⟨o, h, .refl o⟩
  | cons i order ih =>
    intro outs t t' o h hrun houts
    rw [Machine.run, Option.bind_eq_bind, Option.bind_eq_some_iff] at hrun
    obtain ⟨⟨out, t₁⟩, hbody, hrun⟩ := hrun
    rw [Option.bind_eq_bind, Option.bind_eq_some_iff] at hrun
    obtain ⟨⟨outs', t₂⟩, hrest, hrun⟩ := hrun
    cases hrun
    obtain ⟨hout, houts'⟩ := List.cons.inj houts
    obtain ⟨o₁, h₁, hext₁⟩ := h.insertBody (hw i List.mem_cons_self) hbody
    obtain ⟨o₂, h₂, hext₂⟩ := ih (fun j hj => hw j (List.mem_cons_of_mem i hj)) h₁ hrest houts'
    refine ⟨o₂, h₂, ?_⟩
    have hext := hext₁.trans hext₂
    rw [List.filter_cons, hout, Option.any_some]
    cases hs : out.succeeded with
    | true => rwa [hs] at hext
    | false => rwa [hs] at hext

/-! ## All requests together -/

/-- The request is an INSERT into the table that has succeeded. -/
def Inserted (stmt : ι → SqlStatement) (s : State ι TableRuntime Reply) (name : Bytes) (i : ι) :
    Prop :=
  (stmt i).writes = true ∧ SameName (stmt i).tableName name ∧
    ∃ result, (s.phase i).result = some (.success, result)

/-- The rows that tuples make, in their order. -/
def numbered (tuples : List Row) : List Row := tuples.mapIdx fun i v => decimal (i + 1) :: v

/-- The result is the answer of the relation: the projected rows that satisfy the clause. -/
def Relation.Answers (R : Relation) (stmt : SelectStatement) (result : QueryResult) : Prop :=
  ∃ indices, R.projection stmt = some indices ∧ result.kind = .table ∧
    result.columns = R.names indices ∧ result.columnCount = indices.length ∧
    result.rows = (R.filtered stmt.where).map (projectRow indices)

theorem Relation.reply_answers {R : Relation} {stmt : SelectStatement} {result : QueryResult}
    (h : R.reply stmt = (.success, result)) : R.Answers stmt result := by
  have hsel := Relation.reply_success.mp (congrArg Prod.fst h)
  obtain ⟨indices, hproj, hres⟩ := Relation.reply_of_selectable hsel
  rw [h] at hres
  obtain rfl := (Prod.mk.inj hres).2
  exact ⟨indices, hproj, rfl, rfl, rfl, rfl⟩

theorem Represents.stored {t : TableRuntime} {o : Option Relation} (h : Represents t o) :
    t.stored = numbered (tuplesOf o) := by
  cases o with
  | none =>
    have hcount : t.rowCount = 0 := h.2.rowCount
    rw [TableRuntime.stored, hcount]
    rfl
  | some R => exact h.shows.stored

/-- The body of a SELECT that succeeds answers from the relation of its table. -/
theorem Represents.selectBody {t t' : TableRuntime} {o : Option Relation} (h : Represents t o)
    {stmt : SelectStatement} {result : QueryResult}
    (hbody : executorBody (.select stmt) t = some ((.success, result), t')) :
    ∃ R, o = some R ∧ R.Answers stmt result := by
  cases o with
  | none =>
    rw [executorBody, executorSelectBody, h.1] at hbody
    cases hbody
  | some R =>
    rw [executorBody, executorSelectBody_refines h stmt, Option.map_some] at hbody
    exact ⟨R, rfl, Relation.reply_answers (Prod.mk.inj (Option.some.inj hbody)).1⟩

/-- A step of a request that does not write leaves the registry as it is. -/
theorem requests_step_reader {i : ι} {a : Action} (hw : (stmt i).writes = false)
    (hstep : (requests stmt).step s i = some (a, s')) : s'.objects = s.objects := by
  have hlookup : ∀ {found registry}, executorLookup (stmt i) s.objects = (found, registry) →
      registry = s.objects := fun {found registry} hfound => by
    have hregistry : (executorLookup (stmt i) s.objects).2 = registry := congrArg Prod.snd hfound
    rw [← hregistry]
    cases hstmt : stmt i with
    | insert _ =>
      rw [hstmt] at hw
      cases hw
    | select select =>
      have hread := tableRuntimeAcquireRead_registry s.objects select.tableName.text
      rw [executorLookup]
      split <;> rename_i hacq <;> rwa [hacq] at hread
    | delete _ => rfl
  cases Program.step_cases hstep with
  | refused _ hfound => exact hlookup hfound
  | found _ hfound => exact hlookup hfound
  | lock _ _ => rfl
  | enter _ _ => rfl
  | leaveReader _ _ _ => rfl
  | leaveWriter _ _ hw' =>
    change (stmt i).writes = true at hw'
    rw [hw] at hw'
    cases hw'
  | unlock _ => rfl

/-- What an interleaving has made of a table: the rows are the INSERTs that succeeded, in the order
of their sections, and every SELECT that succeeded was answered from the first few of them, those at
least that were over when it took the lock. -/
structure TableHistory (stmt : ι → SqlStatement) (trace : Trace ι)
    (s : State ι TableRuntime Reply) (t : TableRuntime) (order : List ι) : Prop where
  nodup : order.Nodup
  mem : ∀ i, i ∈ order ↔ Inserted stmt s t.tableName.text i
  sections : order.Pairwise (Precedes trace)
  rows : t.stored = numbered (order.map fun i => (stmt i).insertedValues)
  answered : ∀ i select result, stmt i = .select select →
    SameName select.tableName.text t.tableName.text →
      (s.phase i).result = some (.success, result) →
        ∃ (before : List ι) (R : Relation), before <+: order ∧
        (∀ j ∈ order, Precedes trace j i → j ∈ before) ∧ R.header = t.header ∧
        R.tuples = before.map (fun i => (stmt i).insertedValues) ∧ R.Answers select result

/-- The same, and no SELECT has seen an INSERT whose section began when its own was over. -/
structure TableLinear (stmt : ι → SqlStatement) (trace : Trace ι)
    (s : State ι TableRuntime Reply) (t : TableRuntime) (order : List ι) : Prop where
  history : TableHistory stmt trace s t order
  seen : ∀ i select result, stmt i = .select select →
    SameName select.tableName.text t.tableName.text →
      (s.phase i).result = some (.success, result) →
        ∃ (before : List ι) (R : Relation), before <+: order ∧
        (∀ j ∈ order, Precedes trace j i → j ∈ before) ∧ (∀ j ∈ before, ¬ Precedes trace i j) ∧
        R.header = t.header ∧ R.tuples = before.map (fun i => (stmt i).insertedValues) ∧
        R.Answers select result

/-- The sections of a table in a run. -/
theorem requests_linear (hrun : (requests stmt).Run trace s) {k : Nat} {t : TableRuntime}
    (ht : s.objects[k]? = some t) : ∃ order, TableLinear stmt trace s t order := by
  obtain ⟨⟨db, hdb⟩, hfound⟩ := requests_hold hrun
  obtain ⟨o₀, order, ⟨name, rfl⟩, hwritten, hsaw⟩ := hrun.serialized k t ht
  obtain ⟨outs, hbodies, houts⟩ := hwritten.run
  have hreplies : order.map (fun i => (s.phase i).result) = outs.map some := by
    have hsnd := congrArg (List.map (Option.map Prod.snd)) houts
    rw [List.map_map, List.map_map] at hsnd
    refine Eq.trans (List.map_congr_left fun i hi => ?_) hsnd
    obtain ⟨-, out, hout⟩ := (hwritten.mem i).mp hi
    rw [(Phase.result_of_returned hout).1, Function.comp_apply, hout]
    rfl
  have hinserts : ∀ i ∈ order, (stmt i).writes = true := fun i hi => ((hwritten.mem i).mp hi).1
  -- a request that succeeded has worked on the table of its name
  have hkey : ∀ i result, (s.phase i).result = some (.success, result) →
      SameName (stmt i).tableName t.tableName.text →
        (s.phase i).returned = some (k, (.success, result)) := by
    intro i result hresult hname
    rcases Phase.refused_or_returned hresult with hphase | ⟨k', hreturned⟩
    · cases requests_refused hrun hphase
    · obtain ⟨t', ht', hsame⟩ := hfound i k' (Phase.result_of_returned hreturned).2
      rw [hreturned, hdb.distinct k' k t' t ht' ht (hsame.trans hname)]
  have hseen : ∀ i select result, stmt i = .select select →
      SameName select.tableName.text t.tableName.text →
        (s.phase i).result = some (.success, result) →
          ∃ (before : List ι) (R : Relation),
          before <+: order.filter (fun i => (s.phase i).result.any Reply.succeeded) ∧
          (∀ j ∈ order.filter (fun i => (s.phase i).result.any Reply.succeeded),
            Precedes trace j i → j ∈ before) ∧ (∀ j ∈ before, ¬ Precedes trace i j) ∧
          R.header = t.header ∧ R.tuples = before.map (fun i => (stmt i).insertedValues) ∧
          R.Answers select result := by
    intro i select result hstmt hname hresult
    have hw : (stmt i).writes = false := by rw [hstmt]; rfl
    have hreturned := hkey i result hresult (by rw [hstmt]; exact hname)
    obtain ⟨before, ⟨after, rfl⟩, ⟨outs₁, t₁, t₂, hbefore, hbody⟩, hover, hlater⟩ :=
      hsaw i _ hw hreturned
    obtain ⟨outs₁', outs₂, t₁', hbefore', hafter, rfl, hlen⟩ := Machine.run_append hbodies
    rw [hbefore] at hbefore'
    cases hbefore'
    rw [List.map_append, List.map_append] at hreplies
    obtain ⟨hreplies₁, hreplies₂⟩ := List.append_inj hreplies (by simp [hlen])
    have hinserts₁ : ∀ i ∈ before, (stmt i).writes = true := fun i hi =>
      hinserts i (List.mem_append_left after hi)
    have hinserts₂ : ∀ i ∈ after, (stmt i).writes = true := fun i hi =>
      hinserts i (List.mem_append_right before hi)
    obtain ⟨o₁, hrep₁, hext₁⟩ := (represents_named name).insertBodies hinserts₁ hbefore hreplies₁
    change executorBody (stmt i) t₁ = _ at hbody
    rw [hstmt] at hbody
    obtain ⟨R, rfl, hanswers⟩ := hrep₁.selectBody hbody
    obtain ⟨o₂, hrep₂, hext₂⟩ := hrep₁.insertBodies hinserts₂ hafter hreplies₂
    obtain ⟨R₂, rfl, hcolumns⟩ := hext₂.columns R rfl
    refine ⟨before.filter _, R, (List.prefix_append before after).filter _, fun j hj hprec => ?_,
      fun j hj => hlater j (List.mem_of_mem_filter hj), ?_, hext₁.tuples, hanswers⟩
    · obtain ⟨hj, hsucc⟩ := List.mem_filter.mp hj
      exact List.mem_filter.mpr ⟨hover j hj hprec, hsucc⟩
    · rw [hrep₂.shows.header, Relation.header, Relation.header, hcolumns]
  refine ⟨order.filter fun i => (s.phase i).result.any Reply.succeeded,
    ⟨?_, fun i => ?_, ?_, ?_, fun i select result hstmt hname hresult => ?_⟩, hseen⟩
  · exact hwritten.nodup.filter _
  · rw [List.mem_filter, hwritten.mem]
    constructor
    · rintro ⟨⟨hw, ⟨status, result⟩, hreturned⟩, hsucc⟩
      obtain ⟨hresult, hobject⟩ := Phase.result_of_returned hreturned
      obtain ⟨t', ht', hsame⟩ := hfound i k hobject
      obtain rfl := Option.some.inj (ht.symm.trans ht')
      rw [hresult, Option.any_some, Reply.succeeded, beq_iff_eq] at hsucc
      change status = .success at hsucc
      subst hsucc
      exact ⟨hw, hsame.symm, result, hresult⟩
    · rintro ⟨hw, hname, result, hresult⟩
      refine ⟨⟨hw, _, hkey i result hresult hname⟩, ?_⟩
      rw [hresult]
      rfl
  · exact hwritten.sections.filter _
  · obtain ⟨o, hrep, hext⟩ := (represents_named name).insertBodies hinserts hbodies hreplies
    rw [hrep.stored, hext.tuples]
    rfl
  · obtain ⟨before, R, hprefix, hover, -, hanswers⟩ := hseen i select result hstmt hname hresult
    exact ⟨before, R, hprefix, hover, hanswers⟩

theorem requests_history (hrun : (requests stmt).Run trace s) {k : Nat} {t : TableRuntime}
    (ht : s.objects[k]? = some t) : ∃ order, TableHistory stmt trace s t order := by
  obtain ⟨order, hlinear⟩ := requests_linear hrun ht
  exact ⟨order, hlinear.history⟩

/-- In every interleaving of any requests from an empty registry: no two entries have one name; a
step of a request that is not an INSERT changes no entry and adds none; a request that succeeded has
the entry of its name; and every table has a history. -/
theorem requests_serialized (hrun : (requests stmt).Run trace s) :
    (∀ (j k : Nat) (t t' : TableRuntime), s.objects[j]? = some t → s.objects[k]? = some t' →
      SameName t.tableName.text t'.tableName.text → j = k) ∧
    (∀ i a s', (stmt i).writes = false → (requests stmt).step s i = some (a, s') →
      s'.objects = s.objects) ∧
    (∀ i result, (s.phase i).result = some (.success, result) →
      ∃ t ∈ s.objects, SameName t.tableName.text (stmt i).tableName) ∧
    ∀ t ∈ s.objects, ∃ order, TableHistory stmt trace s t order := by
  obtain ⟨⟨db, hdb⟩, hfound⟩ := requests_hold hrun
  refine ⟨hdb.distinct, fun i a s' => requests_step_reader, fun i result hresult => ?_,
    fun t ht => ?_⟩
  · rcases Phase.refused_or_returned hresult with hphase | ⟨k, hreturned⟩
    · cases requests_refused hrun hphase
    · obtain ⟨t, ht, hsame⟩ := hfound i k (Phase.result_of_returned hreturned).2
      exact ⟨t, List.mem_of_getElem? ht, hsame⟩
  · obtain ⟨k, ht⟩ := List.getElem?_of_mem ht
    exact requests_history hrun ht

/-- An INSERT and a SELECT that races with it. -/
def race : Bool → SqlStatement
  | false => .insert ⟨lit _ "t", ⟨[⟨lit _ "a", lit _ "5", .int⟩], by decide⟩⟩
  | true => .select ⟨lit _ "T", ⟨[], by decide⟩, none⟩

/-- The SELECT has its entry before the INSERT has the lock, and answers after it. -/
theorem requests_serialized_race : ∃ trace s, s.objects ≠ [] ∧
    ∀ t ∈ s.objects, ∃ order, TableHistory race trace s t order := by
  have hlen : ((requests race).schedule [] .start [false, true, false, false, false, false, true,
      true, true, true]).map (fun r => r.2.objects.length) = some 1 := by
    decide +kernel
  obtain ⟨⟨trace, s⟩, hrun, hone⟩ := Option.map_eq_some_iff.mp hlen
  refine ⟨trace, s, fun hnil => ?_, (requests_serialized (Program.Run.start.schedule hrun)).2.2.2⟩
  rw [hnil] at hone
  cases hone

end JungleDb
