import JungleDb.Engine.Requests
import JungleDb.Server.Handler
import JungleDb.Server.Queue

/-!
# The whole server

The accept loop and the workers of `server_run`, with what a worker does between `server_queue_pop`
and `close`: it reads the request of its connection, runs the statement step by step against the
registry that all workers share, and sends the answer. The steps of all parties interleave freely.
What the clients send and how their sockets behave is given for each connection; a client that does
not send its request, or does not take its answer, holds up the one that waits for it.

The statements of the clients are threads of `Sections`. Every answered connection has its own answer
on the wire, and behind the answers there is for each table one order of the INSERTs that explains
them all and that agrees with the order in which connections were closed and accepted.
-/

namespace JungleDb

open CString Sections

/-! ## The text of a request -/

/-- `engine_execute_sql` up to the executor: the statement, or the reply to a text without one. -/
def engineParse (sql : Bytes) : Except Reply SqlStatement :=
  let fail (error : CStr MESSAGE_LEN) : Except Reply SqlStatement :=
    .error (.failure, queryResultSetError queryResultInit error)
  if MAX_SQL_LENGTH ≤ sql.length then fail (message "SQL is too long.")
  else match tokenizerTokenize sql with
    | .error e => fail e
    | .ok [] => fail (message "Failed to tokenize SQL.")
    | .ok tokens =>
      match parserParse tokens with
      | .error e => fail e
      | .ok statement => .ok statement

theorem engineExecuteSql_parse (registry : Registry) (sql : Bytes) :
    engineExecuteSql registry sql = match engineParse sql with
      | .error reply => some (reply, registry)
      | .ok statement => executorExecute registry statement := by
  unfold engineExecuteSql engineParse
  by_cases hlen : MAX_SQL_LENGTH ≤ sql.length
  · simp only [if_pos hlen]
  · simp only [if_neg hlen]
    cases tokenizerTokenize sql with
    | error e => rfl
    | ok tokens =>
      cases tokens with
      | nil => rfl
      | cons t tokens =>
        simp only
        cases parserParse (t :: tokens) with
        | error e => rfl
        | ok statement => rfl

/-! ## Replies -/

/-- The status of a reply is in its result, and the result can be printed. -/
structure Reply.Sound (reply : Reply) : Prop where
  wellFormed : reply.2.WellFormed
  success : reply.2.success = true ↔ reply.1 = .success

theorem executorFail_sound (result : QueryResult) (text : Bytes) :
    (executorFail result text).Sound where
  wellFormed := queryResultSetError_wellFormed result _
  success := iff_of_false Bool.false_ne_true Status.noConfusion

theorem executorMessage_sound (result : QueryResult) (text : Bytes) :
    (executorMessage result text).Sound where
  wellFormed := queryResultSetMessage_wellFormed result _
  success := iff_of_true rfl rfl

theorem Relation.reply_sound (R : Relation) (stmt : SelectStatement) : (R.reply stmt).Sound := by
  refine ⟨R.reply_wellFormed stmt, ?_⟩
  unfold Relation.reply
  simp only
  split
  · exact iff_of_false Bool.false_ne_true Status.noConfusion
  split
  · exact iff_of_false Bool.false_ne_true Status.noConfusion
  · exact iff_of_true rfl rfl

theorem engineParse_sound {sql : Bytes} {reply : Reply} (h : engineParse sql = .error reply) :
    reply.1 = .failure ∧ reply.Sound := by
  have hfail : ∀ error : CStr MESSAGE_LEN,
      (Except.error (.failure, queryResultSetError queryResultInit error) :
        Except Reply SqlStatement) = .error reply → reply.1 = .failure ∧ reply.Sound := by
    intro error heq
    cases heq
    exact ⟨rfl, queryResultSetError_wellFormed _ _,
      iff_of_false Bool.false_ne_true Status.noConfusion⟩
  unfold engineParse at h
  simp only at h
  split at h
  · exact hfail _ h
  · split at h
    · exact hfail _ h
    · exact hfail _ h
    · split at h
      · exact hfail _ h
      · cases h

theorem executorLookup_sound {statement : SqlStatement} {registry registry' : Registry}
    {reply : Reply} (h : executorLookup statement registry = (.error reply, registry')) :
    reply.Sound := by
  unfold executorLookup at h
  split at h
  · split at h
    · cases h
      exact executorFail_sound _ _
    · split at h
      · cases h
        exact executorFail_sound _ _
      · cases h
  · split at h
    · cases h
      exact executorFail_sound _ _
    · cases h
  · cases h
    exact executorFail_sound _ _

theorem Represents.body_sound {t t' : TableRuntime} {o : Option Relation} (h : Represents t o)
    {statement : SqlStatement} {reply : Reply}
    (hbody : executorBody statement t = some (reply, t')) : reply.Sound := by
  cases statement with
  | insert stmt =>
    obtain ⟨⟨status, t₁⟩, -, heq⟩ := Option.map_eq_some_iff.mp hbody
    cases heq
    unfold executorInsertFinish
    split
    · exact executorFail_sound _ _
    · exact executorMessage_sound _ _
  | select stmt =>
    rw [executorBody] at hbody
    cases o with
    | none =>
      rw [executorSelectBody, h.1] at hbody
      cases hbody
      exact executorFail_sound _ _
    | some R =>
      rw [executorSelectBody_refines h stmt] at hbody
      cases hbody
      exact R.reply_sound stmt
  | delete stmt => cases hbody

section Requests

variable {ι : Type} [DecidableEq ι] {stmt : ι → SqlStatement} {trace : Trace ι}
  {s : State ι TableRuntime Reply}

/-- Every reply of a run is sound. -/
theorem requests_sound (hrun : (requests stmt).Run trace s) {i : ι} {reply : Reply}
    (hresult : (s.phase i).result = some reply) : reply.Sound := by
  refine hrun.outcome (E := fun _ reply => reply.Sound) (fun hfound => ?_)
    (fun hbefore hphase hbody => ?_) i reply hresult
  · exact executorLookup_sound hfound
  · obtain ⟨⟨db, hdb⟩, -⟩ := requests_hold hbefore
    have hseen := hbefore.locked.seen _ _ _ hphase
    exact (hdb.entry _ (List.mem_of_getElem? hseen)).body_sound hbody

/-- A request that has found an entry has that of its name, and is no DELETE. -/
theorem requests_found (hrun : (requests stmt).Run trace s) :
    (∃ db, HoldsDb s.objects db) ∧ ∀ i k, (s.phase i).object = some k →
      ∃ t, s.objects[k]? = some t ∧ SameName t.tableName.text (stmt i).tableName ∧
        ∀ delete, stmt i ≠ .delete delete := by
  refine hrun.invariant (I := fun registry => ∃ db, HoldsDb registry db)
    (J := fun i t => SameName t.tableName.text (stmt i).tableName ∧
      ∀ delete, stmt i ≠ .delete delete) ⟨_, holds_empty⟩ ?_ ?_
  · rintro i registry found registry' ⟨db, h⟩ hfound
    obtain ⟨h', ht⟩ := h.lookup hfound
    refine ⟨⟨db, h'⟩, fun k hk => ?_⟩
    obtain ⟨t, ht, hsame⟩ := ht k hk
    refine ⟨t, ht, hsame, fun delete heq => ?_⟩
    subst hk
    change executorLookup (stmt i) registry = _ at hfound
    rw [heq] at hfound
    cases hfound
  · rintro i k t reply t' registry ⟨db, h⟩ hw ht ⟨hsame, -⟩ hbody
    obtain ⟨h', hname⟩ := h.insertBody hw ht hsame hbody
    exact ⟨h', fun j hj => by rwa [hname]⟩

/-- A request that has no reply yet goes on, or another does that holds the lock of its table. -/
theorem requests_progress (hrun : (requests stmt).Run trace s) {i : ι}
    (h : (s.phase i).final = none) :
    ∃ j r, (requests stmt).step s j = some r ∧ (j = i ∨ ∃ k, (s.phase j).held = some k) := by
  obtain ⟨⟨db, hdb⟩, hfound⟩ := requests_found hrun
  refine hrun.locked.progress (fun j k hobject => ?_) (fun j k t hphase => ?_) h
  · obtain ⟨t, ht, -⟩ := hfound j k hobject
    exact ⟨t, ht⟩
  · obtain ⟨t', ht', hsame, hdelete⟩ := hfound j k (by rw [hphase]; rfl)
    have hseen := hrun.locked.seen j k t hphase
    obtain rfl := Option.some.inj (hseen.symm.trans ht')
    obtain ⟨reply, t', hbody⟩ := hdb.body hseen hsame hdelete
    exact ⟨(reply, t'), hbody⟩

end Requests

variable {n : Nat}

/-! ## The model -/

/-- What the clients do on each connection, by its number. -/
structure Clients where
  recvs : Nat → List Recv
  sends : Nat → List Send

namespace Clients

variable (clients : Clients) (k : Nat)

/-- What the request of a connection leads to; none where its client holds it back. -/
def call : Option ClientCall := serverClientCall (clients.recvs k)

/-- The statement that a connection asks for. -/
def asked : Option SqlStatement :=
  match clients.call k with
  | some (.execute sql) => (engineParse sql).toOption
  | _ => none

/-- The same; a connection that asks for none has a thread that never starts. -/
def statement : SqlStatement := (clients.asked k).getD (.delete ⟨.empty, none⟩)

end Clients

/-- What a connection is answered with: the status code and the result. -/
abbrev Report := Nat × QueryResult

/-- The report of an error that is no reply of the engine. -/
def errorReport (statusCode : Nat) (error : String) : Report :=
  (statusCode, queryResultSetError queryResultInit (message error))

/-- The report of a reply. -/
def Reply.report (reply : Reply) : Report := (serverStatusForResult (some reply.2), reply.2)

/-- How far a connection has come: its request is to be read, or the executor works on it, or its
answer is to be sent, or `send` has returned. -/
inductive Handling
  | reading
  | executing
  | answering (report : Report)
  | answered (report : Report) (wire : Bytes)

/-- What a connection has been or will be answered with. -/
def Handling.report : Handling → Option Report
  | answering report => some report
  | answered report _ => some report
  | _ => none

/-- What can be seen from outside. -/
inductive Visible
  | accepted (k : Nat)
  | closed (k : Nat)
  deriving DecidableEq, Repr

/-- The server with its tables and connections; behind them, the steps of the engine and what could
be seen so far. -/
structure Service (n : Nat) where
  server : ServerState n
  engine : Sections.State Nat TableRuntime Reply
  handling : Nat → Handling
  trace : Trace Nat
  log : List Visible

/-- A step of the accept loop, of the queue or of the shutdown; the 503 of the accept loop; the next
step of a worker. -/
inductive ServiceAction (n : Nat)
  | server (action : ServerAction n)
  | busy
  | work (i : Fin (n + 1))

/-- The connection that a step closes. -/
def ServerState.closes (s : ServerState n) : ServerAction n → Option Nat
  | .close i =>
    match s.workers i with
    | .handling request => some request.number
    | _ => none
  | .reject =>
    match s.acceptor with
    | .rejecting request => some request.number
    | _ => none
  | _ => none

/-- What a step shows. -/
def ServerState.shows (s : ServerState n) (action : ServerAction n) : List Visible :=
  match action with
  | .accept _ => [.accepted s.accepted.length]
  | _ => ((s.closes action).map Visible.closed).toList

/-- The answer of `server_run` to a connection that does not fit the queue. -/
def busyReport : Report := errorReport 503 "Server is busy."

namespace Clients

variable (clients : Clients) (k : Nat)

/-- `server_handle_client` up to the executor. -/
def opening : Option Handling :=
  match clients.call k with
  | none => none
  | some (.reject statusCode _ error) => some (.answering (errorReport statusCode error))
  | some (.execute sql) =>
    match engineParse sql with
    | .error reply => some (.answering reply.report)
    | .ok _ => some .executing

/-- The response to a report is sent: the bytes that the client gets, when `send` returns. -/
def sent (report : Report) : Option Bytes := do
  let body ← serverBuildJsonResponse report.2
  match serverSendResponse ⟨[], clients.sends k⟩ report.1 (serverReasonPhrase report.1) body with
  | (some _, socket) => some socket.wire
  | (none, _) => none

end Clients

namespace Service

variable (s : Service n) (clients : Clients)

/-- Nobody is connected. -/
def start (n : Nat) : Service n := ⟨.start n, .start, fun _ => .reading, [], []⟩

def setHandling (k : Nat) (handling : Handling) : Service n :=
  { s with handling := Function.update s.handling k handling }

/-- A step of the thread of a connection. -/
def execute (k : Nat) : Option (Service n) :=
  ((requests clients.statement).step s.engine k).map fun (action, engine) =>
    { s with engine, trace := s.trace ++ [(k, action)] }

/-- The next step of `server_handle_client` for a connection. -/
def handle (k : Nat) : Option (Service n) :=
  match s.handling k with
  | .reading => (clients.opening k).map (s.setHandling k)
  | .executing =>
    match (s.engine.phase k).final with
    | some reply => some (s.setHandling k (.answering reply.report))
    | none => s.execute clients k
  | .answering report => (clients.sent k report).map fun wire =>
    s.setHandling k (.answered report wire)
  | .answered _ _ => none

end Service

/-- A connection has been answered. -/
def Handling.isAnswered : Handling → Bool
  | answered _ _ => true
  | _ => false

/-- The steps of the server; a connection is closed when it has been answered. -/
def serviceStep (clients : Clients) (s : Service n) : ServiceAction n → Option (Service n)
  | .server action =>
    if (s.server.closes action).all fun k => (s.handling k).isAnswered then
      (serverRunStep s.server action).map fun (_, server) =>
        { s with server, log := s.log ++ s.server.shows action }
    else none
  | .busy =>
    match s.server.acceptor with
    | .rejecting request =>
      match s.handling request.number with
      | .reading => (clients.sent request.number busyReport).map fun wire =>
        s.setHandling request.number (.answered busyReport wire)
      | _ => none
    | _ => none
  | .work i =>
    match s.server.workers i with
    | .handling request => s.handle clients request.number
    | _ => none

/-- The states of the runs. -/
inductive ServiceReachable (n : Nat) (clients : Clients) : Service n → Prop
  | start : ServiceReachable n clients (.start n)
  | step {s s' : Service n} {action : ServiceAction n} :
    ServiceReachable n clients s → serviceStep clients s action = some s' →
      ServiceReachable n clients s'

/-- What a step can do. -/
inductive Service.Steps (clients : Clients) (s : Service n) : ServiceAction n → Service n → Prop
  | server {action : ServerAction n} {status : Status} {server : ServerState n}
    (hclosed : ∀ k, s.server.closes action = some k → (s.handling k).isAnswered = true)
    (hserver : serverRunStep s.server action = some (status, server)) :
    Steps clients s (.server action) { s with server, log := s.log ++ s.server.shows action }
  | busy {request : ServerRequest} {wire : Bytes}
    (hacceptor : s.server.acceptor = .rejecting request)
    (hreading : s.handling request.number = .reading)
    (hsent : clients.sent request.number busyReport = some wire) :
    Steps clients s .busy (s.setHandling request.number (.answered busyReport wire))
  | opened {i : Fin (n + 1)} {request : ServerRequest} {handling : Handling}
    (hworker : s.server.workers i = .handling request)
    (hreading : s.handling request.number = .reading)
    (hopening : clients.opening request.number = some handling) :
    Steps clients s (.work i) (s.setHandling request.number handling)
  | executed {i : Fin (n + 1)} {request : ServerRequest} {action : Sections.Action}
    {engine : Sections.State Nat TableRuntime Reply}
    (hworker : s.server.workers i = .handling request)
    (hexecuting : s.handling request.number = .executing)
    (hstep : (requests clients.statement).step s.engine request.number = some (action, engine)) :
    Steps clients s (.work i)
      { s with engine, trace := s.trace ++ [(request.number, action)] }
  | replied {i : Fin (n + 1)} {request : ServerRequest} {reply : Reply}
    (hworker : s.server.workers i = .handling request)
    (hexecuting : s.handling request.number = .executing)
    (hfinal : (s.engine.phase request.number).final = some reply) :
    Steps clients s (.work i) (s.setHandling request.number (.answering reply.report))
  | answered {i : Fin (n + 1)} {request : ServerRequest} {report : Report} {wire : Bytes}
    (hworker : s.server.workers i = .handling request)
    (hanswering : s.handling request.number = .answering report)
    (hsent : clients.sent request.number report = some wire) :
    Steps clients s (.work i) (s.setHandling request.number (.answered report wire))

theorem serviceStep_steps {clients : Clients} {s s' : Service n} {action : ServiceAction n}
    (h : serviceStep clients s action = some s') : s.Steps clients action s' := by
  unfold serviceStep at h
  cases action with
  | server action =>
    simp only at h
    split at h
    · rename_i hclosed
      obtain ⟨⟨status, server⟩, hserver, rfl⟩ := Option.map_eq_some_iff.mp h
      refine .server (fun k hk => ?_) hserver
      rw [hk] at hclosed
      exact hclosed
    · cases h
  | busy =>
    simp only at h
    split at h
    · rename_i request hacceptor
      split at h
      · rename_i hreading
        obtain ⟨wire, hsent, rfl⟩ := Option.map_eq_some_iff.mp h
        exact .busy hacceptor hreading hsent
      · cases h
    · cases h
  | work i =>
    simp only at h
    split at h
    · rename_i request hworker
      unfold Service.handle at h
      split at h
      · rename_i hreading
        obtain ⟨handling, hopening, rfl⟩ := Option.map_eq_some_iff.mp h
        exact .opened hworker hreading hopening
      · rename_i hexecuting
        split at h
        · rename_i reply hfinal
          cases h
          exact .replied hworker hexecuting hfinal
        · obtain ⟨⟨a, engine⟩, hstep, rfl⟩ := Option.map_eq_some_iff.mp h
          exact .executed hworker hexecuting hstep
      · rename_i report hanswering
        obtain ⟨wire, hsent, rfl⟩ := Option.map_eq_some_iff.mp h
        exact .answered hworker hanswering hsent
      · cases h
    · cases h

/-! ## Who has a connection -/

namespace ServerState

/-- A worker or the accept loop has the connection in hand, or it has been closed. -/
def Has (s : ServerState n) (k : Nat) : Prop :=
  (∃ i request, s.workers i = .handling request ∧ request.number = k) ∨
    (∃ request, s.acceptor = .rejecting request ∧ request.number = k) ∨
    ∃ request ∈ s.closed, request.number = k

variable {s s' : ServerState n} {waiting : List ServerRequest} {action : ServerAction n}
  {status : Status} {request request' : ServerRequest} {i : Fin (n + 1)} {k : Nat}

theorem Accounts.number_inj (h : s.Accounts waiting) (hmem : request ∈ s.accepted)
    (hmem' : request' ∈ s.accepted) (heq : request.number = request'.number) :
    request = request' := by
  have hnodup : (s.accepted.map ServerRequest.number).Nodup := by
    rw [h.numbers]
    exact List.nodup_range
  exact List.inj_on_of_nodup_map hnodup hmem hmem' heq

theorem Accounts.number_lt (h : s.Accounts waiting) (hmem : request ∈ s.accepted) :
    request.number < s.accepted.length := by
  have hrange : request.number ∈ List.range s.accepted.length := by
    rw [← h.numbers]
    exact List.mem_map_of_mem hmem
  exact List.mem_range.mp hrange

theorem handlers_pos (hi : s.workers i = .handling request) : 0 < handlers s.workers request := by
  have hone : (s.workers i).handled.count request = 1 := by
    rw [hi]
    exact List.count_singleton_self
  have hsum := Finset.add_sum_erase Finset.univ (fun j => (s.workers j).handled.count request)
    (Finset.mem_univ i)
  simp only [hone] at hsum
  unfold handlers
  omega

/-- Of a connection that a party has, the request has been taken. -/
theorem Accounts.taken_of_has (h : s.Accounts waiting) (hhas : s.Has k) :
    ∃ request, request.number = k ∧ s.timesTaken request = 1 ∧ request ∈ s.accepted := by
  have haccepted : ∀ request, 0 < s.timesTaken request →
      s.timesTaken request = 1 ∧ request ∈ s.accepted := by
    intro request hpos
    have hle := h.taken_le request
    have hcount := h.accepted_count request
    exact ⟨by omega, List.count_pos_iff.mp (by omega)⟩
  rcases hhas with ⟨i, request, hi, hk⟩ | ⟨request, hacceptor, hk⟩ | ⟨request, hmem, hk⟩
  · have hclosings := h.closings request
    have hpos := handlers_pos hi
    exact ⟨request, hk, haccepted request (by omega)⟩
  · have hclosings := h.closings request
    have hone : s.acceptor.refused.count request = 1 := by
      rw [hacceptor]
      exact List.count_singleton_self
    exact ⟨request, hk, haccepted request (by omega)⟩
  · have hclosings := h.closings request
    have hpos : 0 < s.timesClosed request := List.count_pos_iff.mpr hmem
    exact ⟨request, hk, haccepted request (by omega)⟩

theorem Accounts.has_lt (h : s.Accounts waiting) (hhas : s.Has k) : k < s.accepted.length := by
  obtain ⟨request, rfl, -, hmem⟩ := h.taken_of_has hhas
  exact h.number_lt hmem

/-- Nobody has a connection that is being offered to the queue. -/
theorem Accounts.offering_not_has (h : s.Accounts waiting)
    (hacceptor : s.acceptor = .offering request) : ¬ s.Has request.number := by
  intro hhas
  obtain ⟨request', hnumber, htaken, hmem'⟩ := h.taken_of_has hhas
  have hcount := h.accepted_count request
  have hle := h.accepted_count_le request
  have hone : s.acceptor.offered.count request = 1 := by
    rw [hacceptor]
    exact List.count_singleton_self
  have hmem : request ∈ s.accepted := List.count_pos_iff.mp (by omega)
  rw [h.number_inj hmem' hmem hnumber] at htaken
  omega

/-- The accept loop does not answer a connection that a worker has. -/
theorem Accounts.rejecting_ne (h : s.Accounts waiting) (hi : s.workers i = .handling request)
    (hacceptor : s.acceptor = .rejecting request') : request.number ≠ request'.number := by
  intro heq
  have hpos := handlers_pos hi
  have hone : s.acceptor.refused.count request' = 1 := by
    rw [hacceptor]
    exact List.count_singleton_self
  have hclosings := h.closings request
  have hclosings' := h.closings request'
  have hcount := h.accepted_count request
  have hcount' := h.accepted_count request'
  have hmem : request ∈ s.accepted := List.count_pos_iff.mp (by omega)
  have hmem' : request' ∈ s.accepted := List.count_pos_iff.mp (by omega)
  have hle := h.taken_le request
  rw [h.number_inj hmem hmem' heq] at hpos hclosings hle
  omega

/-- A connection that a party has stays with one, or is closed. -/
theorem Has.step (h : s.Accounts waiting) (hhas : s.Has k)
    (hstep : serverStep s action = some (status, s')) : s'.Has k := by
  have hworker : ∀ {j : Fin (n + 1)} {v w : Worker}, s.workers j = v →
      (∀ request, v ≠ .handling request) → ∀ i request, s.workers i = .handling request →
        s.setWorker j w i = .handling request := by
    intro j v w hj hv i request hi
    rw [setWorker_of_ne]
    · exact hi
    · rintro rfl
      exact hv request (hj.symm.trans hi)
  cases serverStep_steps hstep with
  | createWorker created ha =>
    rename_i k'
    rcases hhas with ⟨i, request, hi, hk⟩ | ⟨request, hr, -⟩ | hclosed
    · unfold ServerState.createWorker
      cases created with
      | true =>
        exact .inl ⟨i, request, hworker (h.coming ha (Nat.le_refl _)) (fun _ => Worker.noConfusion)
          i request hi, hk⟩
      | false => exact .inl ⟨i, request, hi, hk⟩
    · cases ha.symm.trans hr
    · unfold ServerState.createWorker
      cases created <;> exact .inr (.inr hclosed)
  | accept clientFd ha =>
    rcases hhas with hhas | ⟨request, hr, -⟩ | hclosed
    · exact .inl hhas
    · cases ha.symm.trans hr
    · exact .inr (.inr hclosed)
  | push ha =>
    rcases hhas with ⟨i, request, hi, hk⟩ | ⟨request, hr, -⟩ | hclosed
    · unfold ServerState.push
      split <;> exact .inl ⟨i, request, hi, hk⟩
    · cases ha.symm.trans hr
    · unfold ServerState.push
      split <;> exact .inr (.inr hclosed)
  | reject ha =>
    rcases hhas with hhas | ⟨request, hr, hk⟩ | ⟨request, hmem, hk⟩
    · exact .inl hhas
    · cases ha.symm.trans hr
      exact .inr (.inr ⟨_, List.mem_append_right _ (List.mem_singleton_self _), hk⟩)
    · exact .inr (.inr ⟨request, List.mem_append_left _ hmem, hk⟩)
  | stop ha =>
    rcases hhas with hhas | ⟨request, hr, -⟩ | hclosed
    · exact .inl hhas
    · cases ha.symm.trans hr
    · exact .inr (.inr hclosed)
  | shutdown => exact hhas
  | pop hi hpop =>
    unfold ServerState.pop at hpop
    rcases hhas with ⟨j, request, hj, hk⟩ | hrejecting | hclosed
    · have hstays := fun w => hworker (w := w) hi (fun _ => Worker.noConfusion) j request hj
      split at hpop
      · cases hpop
      · cases hpop
        exact .inl ⟨j, request, hstays _, hk⟩
      · cases hpop
        exact .inl ⟨j, request, hstays _, hk⟩
    · split at hpop <;> cases hpop <;> exact .inr (.inl hrejecting)
    · split at hpop <;> cases hpop <;> exact .inr (.inr hclosed)
  | @close i request hi =>
    rcases hhas with ⟨j, request', hj, hk⟩ | hrejecting | ⟨request', hmem, hk⟩
    · by_cases hij : j = i
      · subst hij
        rw [hi] at hj
        cases hj
        exact .inr (.inr ⟨request, List.mem_append_right _ (List.mem_singleton_self _), hk⟩)
      · refine .inl ⟨j, request', ?_, hk⟩
        show s.setWorker i .waiting j = _
        rw [setWorker_of_ne hij]
        exact hj
    · exact .inr (.inl hrejecting)
    · exact .inr (.inr ⟨request', List.mem_append_left _ hmem, hk⟩)

end ServerState

namespace ServerState

variable {s s' : ServerState n} {action : ServerAction n} {status : Status}

/-- A connection that is closed was closed before, or the step closes it. -/
theorem closed_of_step (h : serverStep s action = some (status, s')) {request : ServerRequest}
    (hmem : request ∈ s'.closed) :
    request ∈ s.closed ∨ s.closes action = some request.number := by
  cases serverStep_steps h with
  | createWorker created _ => cases created <;> exact .inl hmem
  | push _ =>
    unfold ServerState.push at hmem
    split at hmem <;> exact .inl hmem
  | reject ha =>
    rcases List.mem_append.mp hmem with hmem | hmem
    · exact .inl hmem
    · rw [List.mem_singleton.mp hmem, closes, ha]
      exact .inr rfl
  | pop _ hpop =>
    unfold ServerState.pop at hpop
    split at hpop <;> cases hpop <;> exact .inl hmem
  | close hi =>
    rcases List.mem_append.mp hmem with hmem | hmem
    · exact .inl hmem
    · rw [List.mem_singleton.mp hmem, closes, hi]
      exact .inr rfl
  | _ => exact .inl hmem

theorem closes_of_step (h : serverStep s action = some (status, s')) {k : Nat}
    (hcloses : s.closes action = some k) : ∃ request ∈ s'.closed, request.number = k := by
  cases serverStep_steps h with
  | reject ha =>
    rw [closes, ha] at hcloses
    exact ⟨_, List.mem_append_right _ (List.mem_singleton_self _), Option.some.inj hcloses⟩
  | close hi =>
    rw [closes, hi] at hcloses
    exact ⟨_, List.mem_append_right _ (List.mem_singleton_self _), Option.some.inj hcloses⟩
  | _ => cases hcloses

/-- A connection that the accept loop rejects was offered before. -/
theorem rejecting_of_step (h : serverStep s action = some (status, s')) {request : ServerRequest}
    (hrejecting : s'.acceptor = .rejecting request) :
    s.acceptor = .rejecting request ∨ s.acceptor = .offering request := by
  cases serverStep_steps h with
  | @createWorker k created _ =>
    cases created with
    | false => cases hrejecting
    | true => exact absurd hrejecting (Acceptor.afterCreate_ne_rejecting k request)
  | accept _ _ => cases hrejecting
  | push ha =>
    unfold ServerState.push at hrejecting
    split at hrejecting
    · cases hrejecting
      exact .inr ha
    · cases hrejecting
  | reject _ => cases hrejecting
  | stop _ => cases hrejecting
  | shutdown => exact .inl hrejecting
  | pop _ hpop =>
    rw [(pop_eq_some hpop).2] at hrejecting
    exact .inl hrejecting
  | close _ => exact .inl hrejecting

theorem step_of_run (h : serverRunStep s action = some (status, s')) :
    serverStep s action = some (status, s') := by
  unfold serverRunStep at h
  split at h
  · cases h
  · exact h

/-- The queue refused the connection, and the accept loop took it back. -/
def Rejected (s : ServerState n) (k : Nat) : Prop := ∃ request ∈ s.rejected, request.number = k

/-- A worker took the connection out of the queue. -/
def Popped (s : ServerState n) (k : Nat) : Prop :=
  ∃ i request, (i, request) ∈ s.popped ∧ request.number = k

/-- The books only grow. -/
theorem books_of_step (h : serverStep s action = some (status, s')) :
    s.rejected ⊆ s'.rejected ∧ s.popped ⊆ s'.popped ∧ s.closed ⊆ s'.closed := by
  have hsame : ∀ {α : Type} {as : List α}, as ⊆ as := fun {_ as} => List.Subset.refl as
  cases serverStep_steps h with
  | createWorker created _ => cases created <;> exact ⟨hsame, hsame, hsame⟩
  | push _ =>
    unfold ServerState.push
    split
    · exact ⟨List.subset_append_left _ _, hsame, hsame⟩
    · exact ⟨hsame, hsame, hsame⟩
  | pop _ hpop =>
    unfold ServerState.pop at hpop
    split at hpop
    · cases hpop
    · cases hpop
      exact ⟨hsame, hsame, hsame⟩
    · cases hpop
      exact ⟨hsame, List.subset_append_left _ _, hsame⟩
  | reject _ => exact ⟨hsame, hsame, List.subset_append_left _ _⟩
  | close _ => exact ⟨hsame, hsame, List.subset_append_left _ _⟩
  | _ => exact ⟨hsame, hsame, hsame⟩

/-- What the accept loop rejects and what the workers handle is in the books. -/
structure Booked (s : ServerState n) : Prop where
  rejecting : ∀ request, s.acceptor = .rejecting request → request ∈ s.rejected
  handling : ∀ i request, s.workers i = .handling request → (i, request) ∈ s.popped

/-- A worker that comes to another point with nothing new in hand. -/
theorem Booked.setWorker (h : s.Booked) {i j : Fin (n + 1)} {w : Worker} {request : ServerRequest}
    (hw : ∀ request, w ≠ .handling request) (hj : s.setWorker i w j = .handling request) :
    (j, request) ∈ s.popped := by
  rcases setWorker_cases hj with ⟨-, heq⟩ | ⟨-, hold⟩
  · exact absurd heq (hw request)
  · exact h.handling j request hold

theorem Booked.step (h : s.Booked) (hstep : serverStep s action = some (status, s')) :
    s'.Booked := by
  cases serverStep_steps hstep with
  | @createWorker k created _ =>
    cases created with
    | false => exact ⟨fun _ hr => (by cases hr), h.handling⟩
    | true =>
      exact ⟨fun request hr => absurd hr (Acceptor.afterCreate_ne_rejecting k request),
        fun j request hj => h.setWorker (fun _ => Worker.noConfusion) hj⟩
  | accept _ _ => exact ⟨fun _ hr => (by cases hr), h.handling⟩
  | push _ =>
    unfold ServerState.push
    split
    · refine ⟨fun request hr => ?_, h.handling⟩
      cases hr
      exact List.mem_append_right _ (List.mem_singleton_self _)
    · exact ⟨fun _ hr => (by cases hr), h.handling⟩
  | reject _ => exact ⟨fun _ hr => (by cases hr), h.handling⟩
  | stop _ => exact ⟨fun _ hr => (by cases hr), h.handling⟩
  | shutdown => exact ⟨h.rejecting, h.handling⟩
  | pop _ hpop =>
    unfold ServerState.pop at hpop
    split at hpop
    · cases hpop
    · cases hpop
      exact ⟨h.rejecting, fun j request hj => h.setWorker (fun _ => Worker.noConfusion) hj⟩
    · cases hpop
      refine ⟨h.rejecting, fun j request hj => ?_⟩
      rcases setWorker_cases hj with ⟨rfl, heq⟩ | ⟨-, hold⟩
      · cases heq
        exact List.mem_append_right _ (List.mem_singleton_self _)
      · exact List.mem_append_left _ (h.handling j request hold)
  | close _ =>
    exact ⟨h.rejecting, fun j request hj => h.setWorker (fun _ => Worker.noConfusion) hj⟩

theorem booked_of_reachable (h : Machine.Reachable serverRunStep (.start n) s) : s.Booked := by
  induction h with
  | start => exact ⟨fun _ hr => (by cases hr), fun _ _ hi => (by cases hi)⟩
  | step _ hstep ih => exact ih.step (step_of_run hstep)

end ServerState

/-! ## What every state keeps -/

/-- Where the answer of a connection comes from: the accept loop where the queue refused the
connection; where a worker took it, the handler, a text without a statement, or the thread of its
statement. -/
inductive Earned (clients : Clients) (server : ServerState n) (k : Nat)
    (phase : Phase TableRuntime Reply) : Report → Prop
  | busy (hrejected : server.Rejected k) (hready : phase = .ready) :
    Earned clients server k phase busyReport
  | rejected {statusCode : Nat} {reason error : String} (hpopped : server.Popped k)
    (hready : phase = .ready) (hcall : clients.call k = some (.reject statusCode reason error)) :
    Earned clients server k phase (errorReport statusCode error)
  | unparsed {sql : Bytes} {reply : Reply} (hpopped : server.Popped k) (hready : phase = .ready)
    (hcall : clients.call k = some (.execute sql)) (hparse : engineParse sql = .error reply) :
    Earned clients server k phase reply.report
  | executed {statement : SqlStatement} {reply : Reply} (hpopped : server.Popped k)
    (hasked : clients.asked k = some statement) (hfinal : phase.final = some reply) :
    Earned clients server k phase reply.report

/-- A step of the server takes nothing back. -/
theorem Earned.serverStep {clients : Clients} {server server' : ServerState n}
    {action : ServerAction n} {status : Status} {k : Nat} {phase : Phase TableRuntime Reply}
    {report : Report} (h : Earned clients server k phase report)
    (hstep : JungleDb.serverStep server action = some (status, server')) :
    Earned clients server' k phase report := by
  obtain ⟨hrejected, hpopped, -⟩ := ServerState.books_of_step hstep
  have htook : server.Popped k → server'.Popped k :=
    fun ⟨i, request, hmem, hk⟩ => ⟨i, request, hpopped hmem, hk⟩
  cases h with
  | busy hbusy hready =>
    obtain ⟨request, hmem, hk⟩ := hbusy
    exact .busy ⟨request, hrejected hmem, hk⟩ hready
  | rejected htaken hready hcall => exact .rejected (htook htaken) hready hcall
  | unparsed htaken hready hcall hparse => exact .unparsed (htook htaken) hready hcall hparse
  | executed htaken hasked hfinal => exact .executed (htook htaken) hasked hfinal

namespace Service

/-- The connection `i` was closed before the connection `j` was accepted. -/
def Before (s : Service n) (i j : Nat) : Prop := [.closed i, .accepted j].Sublist s.log

/-- The queue, the threads of the engine and the connections fit together. -/
structure Consistent (clients : Clients) (s : Service n) : Prop where
  server : Machine.Reachable serverRunStep (.start n) s.server
  run : (requests clients.statement).Run s.trace s.engine
  reading : ∀ k, s.handling k = .reading → s.engine.phase k = .ready
  executing : ∀ k, s.handling k = .executing → ∃ statement, clients.asked k = some statement
  earned : ∀ k report, (s.handling k).report = some report →
    Earned clients s.server k (s.engine.phase k) report
  sent : ∀ k report wire, s.handling k = .answered report wire → clients.sent k report = some wire
  has : ∀ k, s.handling k ≠ .reading → s.server.Has k
  closed : ∀ request ∈ s.server.closed, (s.handling request.number).isAnswered = true
  rejecting : ∀ request, s.server.acceptor = .rejecting request →
    s.handling request.number = .reading ∨ (s.handling request.number).isAnswered = true
  logged : ∀ k, .closed k ∈ s.log → ∃ request ∈ s.server.closed, request.number = k
  order : ∀ i j, s.Before i j → (i, .unlock) ∈ s.trace → (j, .lock) ∈ s.trace →
    Precedes s.trace i j

variable {clients : Clients} {s s' : Service n}

theorem consistent_start (n : Nat) (clients : Clients) : (start n).Consistent clients where
  server := .start
  run := .start
  reading _ _ := rfl
  executing _ h := by cases h
  earned _ _ h := by cases h
  sent _ _ _ h := by cases h
  has _ h := absurd rfl h
  closed _ h := by cases h
  rejecting _ h := by cases h
  logged _ h := by cases h
  order _ _ h := by cases h

theorem Consistent.accounts (h : s.Consistent clients) : ∃ waiting, s.server.Accounts waiting :=
  ServerState.accounts_of_reachable (ServerState.reachable_of_run h.server)

theorem Consistent.popped (h : s.Consistent clients) {i : Fin (n + 1)} {request : ServerRequest}
    (hworker : s.server.workers i = .handling request) : s.server.Popped request.number :=
  ⟨i, request, (ServerState.booked_of_reachable h.server).handling i request hworker, rfl⟩

theorem Consistent.rejected (h : s.Consistent clients) {request : ServerRequest}
    (hacceptor : s.server.acceptor = .rejecting request) : s.server.Rejected request.number :=
  ⟨request, (ServerState.booked_of_reachable h.server).rejecting request hacceptor, rfl⟩

/-- A connection that was closed has been answered. -/
theorem Consistent.answered_of_logged (h : s.Consistent clients) {k : Nat}
    (hmem : .closed k ∈ s.log) : (s.handling k).isAnswered = true := by
  obtain ⟨request, hclosed, rfl⟩ := h.logged k hmem
  exact h.closed request hclosed

/-- What a step adds to the order of the connections. -/
theorem before_append {s : Service n} {i j : Nat} {more : List Visible}
    (h : [Visible.closed i, .accepted j].Sublist (s.log ++ more)) (hmore : more.length ≤ 1) :
    s.Before i j ∨ .closed i ∈ s.log ∧ .accepted j ∈ more := by
  obtain ⟨l₁, l₂, heq, h₁, h₂⟩ := List.sublist_append_iff.mp h
  rcases l₂ with _ | ⟨x, l₂⟩
  · rw [List.append_nil] at heq
    rw [← heq] at h₁
    exact .inl h₁
  · obtain rfl : l₂ = [] := by
      have hlen := h₂.length_le
      rw [List.length_cons] at hlen
      exact List.length_eq_zero_iff.mp (by omega)
    have hsplit : [Visible.closed i] ++ [.accepted j] = l₁ ++ [x] := heq
    obtain ⟨rfl, hx⟩ := List.append_inj' hsplit rfl
    obtain rfl := (List.cons.inj hx).1
    exact .inr ⟨h₁.subset List.mem_cons_self, h₂.subset List.mem_cons_self⟩

/-- A connection in hand comes to another point. -/
theorem Consistent.setHandling (h : s.Consistent clients) {k : Nat} {handling : Handling}
    (hhas : s.server.Has k) (hold : (s.handling k).isAnswered = false) (hnew : handling ≠ .reading)
    (hexecuting : handling = .executing → ∃ statement, clients.asked k = some statement)
    (hearned : ∀ report, handling.report = some report →
      Earned clients s.server k (s.engine.phase k) report)
    (hsent : ∀ report wire, handling = .answered report wire → clients.sent k report = some wire)
    (hrejecting : ∀ request, s.server.acceptor = .rejecting request → request.number = k →
      handling.isAnswered = true) : (s.setHandling k handling).Consistent clients := by
  have hself : (s.setHandling k handling).handling k = handling := Function.update_self ..
  have hother : ∀ {j}, j ≠ k → (s.setHandling k handling).handling j = s.handling j :=
    fun {j} hj => Function.update_of_ne hj ..
  refine ⟨h.server, h.run, fun j hj => ?_, fun j hj => ?_, fun j report hj => ?_,
    fun j report wire hj => ?_, fun j hj => ?_, fun request hmem => ?_, fun request hr => ?_,
    h.logged, h.order⟩
  · by_cases hjk : j = k
    · rw [hjk, hself] at hj
      exact absurd hj hnew
    · rw [hother hjk] at hj
      exact h.reading j hj
  · by_cases hjk : j = k
    · rw [hjk, hself] at hj
      rw [hjk]
      exact hexecuting hj
    · rw [hother hjk] at hj
      exact h.executing j hj
  · by_cases hjk : j = k
    · rw [hjk, hself] at hj
      rw [hjk]
      exact hearned report hj
    · rw [hother hjk] at hj
      exact h.earned j report hj
  · by_cases hjk : j = k
    · rw [hjk, hself] at hj
      rw [hjk]
      exact hsent report wire hj
    · rw [hother hjk] at hj
      exact h.sent j report wire hj
  · by_cases hjk : j = k
    · rw [hjk]
      exact hhas
    · rw [hother hjk] at hj
      exact h.has j hj
  · have hanswered := h.closed request hmem
    by_cases hjk : request.number = k
    · rw [hjk, hold] at hanswered
      cases hanswered
    · rw [hother hjk]
      exact hanswered
  · by_cases hjk : request.number = k
    · rw [hjk, hself]
      exact .inr (hrejecting request hr hjk)
    · rw [hother hjk]
      exact h.rejecting request hr

/-- A step of the accept loop or of the queue. -/
theorem Consistent.serverStep (h : s.Consistent clients) {action : ServerAction n} {status : Status}
    {server : ServerState n}
    (hclosed : ∀ k, s.server.closes action = some k → (s.handling k).isAnswered = true)
    (hserver : serverRunStep s.server action = some (status, server)) :
    Consistent clients { s with server, log := s.log ++ s.server.shows action } := by
  obtain ⟨waiting, haccounts⟩ := h.accounts
  have hstep := ServerState.step_of_run hserver
  have hshown : ∀ {event}, event ∈ s.server.shows action →
      (∃ k, event = .closed k ∧ s.server.closes action = some k) ∨
        event = .accepted s.server.accepted.length := by
    intro event hmem
    unfold ServerState.shows at hmem
    split at hmem
    · exact .inr (List.mem_singleton.mp hmem)
    · obtain ⟨k, hk, rfl⟩ := Option.map_eq_some_iff.mp (Option.mem_toList.mp hmem)
      exact .inl ⟨k, rfl, hk⟩
  have hone : (s.server.shows action).length ≤ 1 := by
    unfold ServerState.shows
    split
    · exact Nat.le_refl 1
    · cases (s.server.closes action).map Visible.closed with
      | none => exact Nat.zero_le 1
      | some _ => exact Nat.le_refl 1
  refine ⟨h.server.step hserver, h.run, h.reading, h.executing,
    fun k report hk => (h.earned k report hk).serverStep hstep, h.sent,
    fun k hk => (h.has k hk).step haccounts hstep, fun request hmem => ?_, fun request hr => ?_,
    fun k hmem => ?_, fun i j hbefore hi hj => ?_⟩
  · rcases ServerState.closed_of_step hstep hmem with hmem | hcloses
    · exact h.closed request hmem
    · exact hclosed _ hcloses
  · rcases ServerState.rejecting_of_step hstep hr with hr | hoffering
    · exact h.rejecting request hr
    · refine .inl (Classical.byContradiction fun hne => ?_)
      exact haccounts.offering_not_has hoffering (h.has _ hne)
  · rcases List.mem_append.mp hmem with hmem | hmem
    · obtain ⟨request, hmem, hk⟩ := h.logged k hmem
      exact ⟨request, (ServerState.books_of_step hstep).2.2 hmem, hk⟩
    · rcases hshown hmem with ⟨k', hk, hcloses⟩ | heq
      · cases hk
        exact ServerState.closes_of_step hstep hcloses
      · cases heq
  · rcases before_append hbefore hone with hbefore | ⟨-, hmem⟩
    · exact h.order i j hbefore hi hj
    · -- a connection that has just been accepted has taken no lock
      rcases hshown hmem with ⟨_, heq, -⟩ | heq
      · cases heq
      · cases heq
        have htook := (h.run.took _).mp hj
        have hreading : s.handling s.server.accepted.length = .reading :=
          Classical.byContradiction fun hne =>
            absurd (haccounts.has_lt (h.has _ hne)) (Nat.lt_irrefl _)
        rw [h.reading _ hreading] at htook
        cases htook

/-- A step of the thread of a connection. -/
theorem Consistent.executed (h : s.Consistent clients) {k : Nat} {action : Sections.Action}
    {engine : Sections.State Nat TableRuntime Reply} (hexecuting : s.handling k = .executing)
    (hstep : (requests clients.statement).step s.engine k = some (action, engine)) :
    Consistent clients { s with engine, trace := s.trace ++ [(k, action)] } := by
  have hother : ∀ {j}, s.handling j ≠ .executing → engine.phase j = s.engine.phase j :=
    fun {j} hj => Program.step_phase_ne hstep fun heq => hj (heq ▸ hexecuting)
  refine ⟨h.server, h.run.step hstep, fun j hj => ?_, h.executing, fun j report hj => ?_, h.sent,
    h.has, h.closed, h.rejecting, h.logged, fun i j hbefore hi hj => ?_⟩
  · rw [hother (by rw [hj]; exact Handling.noConfusion)]
    exact h.reading j hj
  · rw [hother (fun heq => by rw [heq] at hj; cases hj)]
    exact h.earned j report hj
  · -- the connection that was closed takes no more steps
    have hanswered := h.answered_of_logged (hbefore.subset List.mem_cons_self)
    have hmem : (i, .unlock) ∈ s.trace := by
      rcases List.mem_append.mp hi with hi | hi
      · exact hi
      · obtain ⟨rfl, -⟩ := Prod.mk.inj (List.mem_singleton.mp hi)
        rw [hexecuting] at hanswered
        cases hanswered
    rcases List.mem_append.mp hj with hj | hj
    · exact (h.order i j hbefore hmem hj).concat _
    · exact precedes_concat.mpr (.inr ⟨(List.mem_singleton.mp hj).symm, hmem⟩)

theorem Clients.opening_earned {clients : Clients} {server : ServerState n} {k : Nat}
    {handling : Handling} {phase : Phase TableRuntime Reply} (hpopped : server.Popped k)
    (h : clients.opening k = some handling) (hready : phase = .ready) :
    (handling = .executing ∧ ∃ statement, clients.asked k = some statement) ∨
      ∃ report, handling = .answering report ∧ Earned clients server k phase report := by
  unfold Clients.opening at h
  split at h
  · cases h
  · rename_i statusCode reason error hcall
    cases h
    exact .inr ⟨_, rfl, .rejected hpopped hready hcall⟩
  · rename_i sql hcall
    split at h
    · rename_i reply hparse
      cases h
      exact .inr ⟨_, rfl, .unparsed hpopped hready hcall hparse⟩
    · rename_i statement hparse
      cases h
      refine .inl ⟨rfl, statement, ?_⟩
      unfold Clients.asked
      rw [hcall]
      simp only [hparse]
      rfl

theorem Consistent.step (h : s.Consistent clients) {action : ServiceAction n}
    (hstep : serviceStep clients s action = some s') : s'.Consistent clients := by
  obtain ⟨waiting, haccounts⟩ := h.accounts
  have hworkerHas : ∀ {i : Fin (n + 1)} {request : ServerRequest},
      s.server.workers i = .handling request → s.server.Has request.number :=
    fun {i request} hi => .inl ⟨i, request, hi, rfl⟩
  have hworkerNe : ∀ {i : Fin (n + 1)} {request : ServerRequest} {handling : Handling},
      s.server.workers i = .handling request → ∀ request', s.server.acceptor = .rejecting request' →
        request'.number = request.number → handling.isAnswered = true :=
    fun {i request handling} hi request' hr heq =>
      absurd heq.symm (haccounts.rejecting_ne hi hr)
  cases serviceStep_steps hstep with
  | server hclosed hserver => exact h.serverStep hclosed hserver
  | @busy request wire hacceptor hreading hsent =>
    refine h.setHandling (.inr (.inl ⟨request, hacceptor, rfl⟩)) (by rw [hreading]; rfl)
      Handling.noConfusion Handling.noConfusion (fun report heq => ?_) (fun report wire heq => ?_)
      fun _ _ _ => rfl
    · cases heq
      exact .busy (h.rejected hacceptor) (h.reading _ hreading)
    · cases heq
      exact hsent
  | @opened i request handling hworker hreading hopening =>
    rcases Clients.opening_earned (h.popped hworker) hopening (h.reading _ hreading) with
      ⟨rfl, hasked⟩ | ⟨report, rfl, hearned⟩
    · exact h.setHandling (hworkerHas hworker) (by rw [hreading]; rfl) Handling.noConfusion
        (fun _ => hasked) (fun _ heq => by cases heq) (fun _ _ heq => by cases heq)
        (hworkerNe hworker)
    · refine h.setHandling (hworkerHas hworker) (by rw [hreading]; rfl) Handling.noConfusion
        (fun heq => by cases heq) (fun report heq => ?_) (fun _ _ heq => by cases heq)
        (hworkerNe hworker)
      cases heq
      exact hearned
  | executed hworker hexecuting hthread => exact h.executed hexecuting hthread
  | replied hworker hexecuting hfinal =>
    obtain ⟨statement, hasked⟩ := h.executing _ hexecuting
    refine h.setHandling (hworkerHas hworker) (by rw [hexecuting]; rfl) Handling.noConfusion
      (fun heq => by cases heq) (fun report heq => ?_) (fun _ _ heq => by cases heq)
      (hworkerNe hworker)
    cases heq
    exact .executed (h.popped hworker) hasked hfinal
  | answered hworker hanswering hsent =>
    refine h.setHandling (hworkerHas hworker) (by rw [hanswering]; rfl) Handling.noConfusion
      (fun heq => by cases heq) (fun report heq => ?_) (fun report wire heq => ?_)
      (hworkerNe hworker)
    · refine h.earned _ report ?_
      rw [hanswering]
      exact heq
    · cases heq
      exact hsent

theorem consistent_of_reachable (h : ServiceReachable n clients s) : s.Consistent clients := by
  induction h with
  | start => exact consistent_start n clients
  | step _ hstep ih => exact ih.step hstep

end Service

/-! ## The answers -/

section Answers

variable {clients : Clients} {s : Service n} {k : Nat} {report : Report}

theorem errorReport_wellFormed (statusCode : Nat) (error : String) :
    (errorReport statusCode error).2.WellFormed := queryResultSetError_wellFormed _ _

theorem Earned.wellFormed (h : s.Consistent clients)
    (hearned : Earned clients s.server k (s.engine.phase k) report) : report.2.WellFormed := by
  cases hearned with
  | busy _ _ => exact errorReport_wellFormed 503 "Server is busy."
  | @rejected statusCode _ error _ _ _ => exact errorReport_wellFormed statusCode error
  | unparsed _ _ _ hparse => exact (engineParse_sound hparse).2.wellFormed
  | executed _ _ hfinal => exact (requests_sound h.run (Phase.result_of_final hfinal)).wellFormed

/-- A success is that of the thread of the connection. -/
theorem Earned.of_success (h : s.Consistent clients)
    (hearned : Earned clients s.server k (s.engine.phase k) report)
    (hsuccess : report.2.success = true) :
    (s.engine.phase k).final = some (.success, report.2) := by
  cases hearned with
  | busy _ _ => cases hsuccess
  | rejected _ _ _ => cases hsuccess
  | unparsed _ _ _ hparse =>
    obtain ⟨hfailure, hsound⟩ := engineParse_sound hparse
    have hstatus := hsound.success.mp hsuccess
    rw [hfailure] at hstatus
    cases hstatus
  | @executed statement reply _ _ hfinal =>
    have hstatus :=
      (requests_sound h.run (Phase.result_of_final hfinal)).success.mp hsuccess
    rw [hfinal, ← hstatus]
    rfl

theorem Earned.code (hearned : Earned clients s.server k (s.engine.phase k) report) :
    report.1 < 1000 := by
  have hcodes : ∀ code ∈ clientStatusCodes, code < 1000 := by decide
  cases hearned with
  | busy _ _ => exact Nat.lt_of_lt_of_le (Nat.lt_succ_self 503) (by decide)
  | rejected _ _ hcall => exact hcodes _ (serverClientCall_phrased hcall).1
  | unparsed _ _ _ _ => exact hcodes _ (serverStatusForResult_mem _)
  | executed _ _ _ => exact hcodes _ (serverStatusForResult_mem _)

theorem Earned.final_or_ready
    (hearned : Earned clients s.server k (s.engine.phase k) report) :
    s.engine.phase k = .ready ∨
      ∃ reply, (s.engine.phase k).final = some reply ∧ report = reply.report := by
  cases hearned with
  | busy _ hready => exact .inl hready
  | rejected _ hready _ => exact .inl hready
  | unparsed _ hready _ _ => exact .inl hready
  | executed _ _ hfinal => exact .inr ⟨_, hfinal, rfl⟩

/-- The bytes that a connection gets are a beginning of the response with its report, and all of it
if the client takes enough. -/
theorem Clients.sent_wire (hwell : report.2.WellFormed) {wire : Bytes}
    (hsent : clients.sent k report = some wire) :
    ∃ body, serverBuildJsonResponse report.2 = some body ∧
      Json.parse body = some (responseValue report.2) ∧
      wire <+: (responseMessage report.1 body).bytes ∧
      (report.1 < 1000 → body.length < 2 ^ 64 →
        (∀ event ∈ clients.sends k, event ≠ .failed ∧ event ≠ .takes 0) →
        wire = (responseMessage report.1 body).bytes) := by
  obtain ⟨body, hbody, htext⟩ := serverBuildJsonResponse_isText hwell
  refine ⟨body, hbody, Json.parse_of_isText htext, ?_⟩
  simp only [Clients.sent, hbody, Option.bind_eq_bind, Option.bind_some] at hsent
  generalize hresponse : serverSendResponse ⟨[], clients.sends k⟩ report.1
    (serverReasonPhrase report.1) body = response at hsent
  obtain ⟨status, socket⟩ := response
  cases status with
  | none => cases hsent
  | some status =>
    cases hsent
    constructor
    · obtain ⟨sent, hprefix, hwire⟩ := serverSendResponse_prefix ⟨[], clients.sends k⟩ report.1 body
      rw [hresponse, List.nil_append] at hwire
      subst hwire
      exact hprefix
    · intro hcode hlength hwilling
      have hputs := serverSendResponse_puts ⟨[], clients.sends k⟩
        (length_responseHeader hcode hlength)
      rw [hresponse] at hputs
      obtain ⟨sent, -, hwire, hwhole⟩ := hputs.wire
      obtain ⟨-, hstatus, -⟩ := hputs.willing hwilling
      have hsuccess : status = .success := by
        cases status with
        | success => rfl
        | failure => exact absurd rfl hstatus
      rw [hwhole.mp (congrArg some hsuccess), List.nil_append] at hwire
      exact hwire

end Answers

/-! ## The order of the connections -/

section History

variable {clients : Clients} {s : Service n} {i j k : Nat} {report : Report}

theorem Clients.statement_of_asked {statement : SqlStatement}
    (h : clients.asked k = some statement) : clients.statement k = statement := by
  unfold Clients.statement
  rw [h]
  rfl

theorem Clients.asked_of_writes (h : (clients.statement k).writes = true) :
    ∃ stmt, clients.asked k = some (.insert stmt) := by
  unfold Clients.statement at h
  cases hasked : clients.asked k with
  | none =>
    rw [hasked] at h
    cases h
  | some statement =>
    rw [hasked] at h
    cases statement with
    | insert stmt => exact ⟨stmt, rfl⟩
    | select _ => cases h
    | delete _ => cases h

namespace Service.Consistent

variable (h : s.Consistent clients)
include h

/-- A thread that succeeded has taken the lock of its table. -/
theorem took {result : QueryResult} (hresult : (s.engine.phase k).result = some (.success, result)) :
    (k, .lock) ∈ s.trace := by
  rcases Phase.refused_or_returned hresult with hphase | ⟨entry, hreturned⟩
  · cases requests_refused h.run hphase
  · exact (h.run.took k).mpr (Phase.tookLock_of_returned hreturned)

/-- A connection that was closed and took a lock has given it back. -/
theorem released (hclosed : .closed k ∈ s.log) (hlock : (k, .lock) ∈ s.trace) :
    (k, .unlock) ∈ s.trace := by
  have htook := (h.run.took k).mp hlock
  have hanswered := h.answered_of_logged hclosed
  cases hhandling : s.handling k with
  | answered report wire =>
    rcases (h.earned k report (by rw [hhandling]; rfl)).final_or_ready with hready |
      ⟨reply, hfinal, -⟩
    · rw [hready] at htook
      cases htook
    · refine (h.run.unlocked k).mpr ?_
      cases hphase : s.engine.phase k with
      | done entry out => exact ⟨entry, out, rfl⟩
      | refused _ =>
        rw [hphase] at htook
        cases htook
      | _ =>
        rw [hphase] at hfinal
        cases hfinal
  | _ =>
    rw [hhandling] at hanswered
    cases hanswered

/-- The sections of two connections lie as the connections do. -/
theorem precedes (hbefore : s.Before i j) (hi : (i, .lock) ∈ s.trace) (hj : (j, .lock) ∈ s.trace) :
    Precedes s.trace i j :=
  h.order i j hbefore (h.released (hbefore.subset List.mem_cons_self) hi) hj

end Service.Consistent

/-- What the clients of a table see: there is one order of the INSERTs that succeeded, in which the
rows of the table lie; every successful SELECT was answered from the first few of them. An INSERT or
SELECT that was closed before another connection was accepted comes before it. -/
structure ServiceHistory (clients : Clients) (s : Service n) (t : TableRuntime)
    (order : List Nat) : Prop where
  nodup : order.Nodup
  inserts : ∀ k ∈ order, ∃ stmt, clients.asked k = some (.insert stmt) ∧
    SameName stmt.tableName.text t.tableName.text ∧
      ∀ report, (s.handling k).report = some report → report.2.success = true
  complete : ∀ k stmt report, clients.asked k = some (.insert stmt) →
    SameName stmt.tableName.text t.tableName.text → (s.handling k).report = some report →
      report.2.success = true → k ∈ order
  realTime : order.Pairwise fun i j => ¬ s.Before j i
  rows : t.stored = numbered (order.map fun k => (clients.statement k).insertedValues)
  selects : ∀ k select report, clients.asked k = some (.select select) →
    SameName select.tableName.text t.tableName.text → (s.handling k).report = some report →
      report.2.success = true →
        ∃ (before : List Nat) (R : Relation), before <+: order ∧
        (∀ j ∈ order, s.Before j k → j ∈ before) ∧ (∀ j ∈ before, ¬ s.Before k j) ∧
        R.header = t.header ∧ R.tuples = before.map (fun j => (clients.statement j).insertedValues) ∧
        R.Answers select report.2

theorem Service.Consistent.history (h : s.Consistent clients) {entry : Nat} {t : TableRuntime}
    (ht : s.engine.objects[entry]? = some t) : ∃ order, ServiceHistory clients s t order := by
  obtain ⟨order, hlinear⟩ := requests_linear h.run ht
  have htook : ∀ k ∈ order, (k, .lock) ∈ s.trace := by
    intro k hk
    obtain ⟨-, -, result, hresult⟩ := (hlinear.history.mem k).mp hk
    exact h.took hresult
  have hsucceeded : ∀ {k report}, (s.handling k).report = some report →
      report.2.success = true → (s.engine.phase k).result = some (.success, report.2) :=
    fun {k report} hreport hsuccess =>
      Phase.result_of_final ((h.earned k report hreport).of_success h hsuccess)
  refine ⟨order, hlinear.history.nodup, fun k hk => ?_, fun k stmt report hasked hname hreport
    hsuccess => ?_, ?_, hlinear.history.rows, fun k select report hasked hname hreport hsuccess => ?_⟩
  · obtain ⟨hw, hname, result, hresult⟩ := (hlinear.history.mem k).mp hk
    obtain ⟨stmt, hasked⟩ := Clients.asked_of_writes hw
    rw [Clients.statement_of_asked hasked] at hname
    refine ⟨stmt, hasked, hname, fun report hreport => ?_⟩
    rcases (h.earned k report hreport).final_or_ready with hready | ⟨reply, hfinal, rfl⟩
    · rw [hready] at hresult
      cases hresult
    · have hreply := Phase.result_of_final hfinal
      rw [hresult] at hreply
      cases hreply
      exact (requests_sound h.run hresult).success.mpr rfl
  · refine (hlinear.history.mem k).mpr ⟨?_, ?_, report.2, hsucceeded hreport hsuccess⟩
    · rw [Clients.statement_of_asked hasked]
      rfl
    · rw [Clients.statement_of_asked hasked]
      exact hname
  · refine hlinear.history.sections.imp_of_mem fun {i j} hi hj hprec hbefore => ?_
    exact h.run.asymm hprec (h.precedes hbefore (htook j hj) (htook i hi))
  · have hresult := hsucceeded hreport hsuccess
    obtain ⟨before, R, hbegins, hover, hlater, hheader, htuples, hanswers⟩ :=
      hlinear.seen k select report.2 (Clients.statement_of_asked hasked) hname hresult
    refine ⟨before, R, hbegins, fun j hj hbefore => ?_, fun j hj hbefore => ?_, hheader, htuples,
      hanswers⟩
    · exact hover j hj (h.precedes hbefore (htook j hj) (h.took hresult))
    · exact hlater j hj (h.precedes hbefore (h.took hresult) (htook j (hbegins.subset hj)))

/-- In every interleaving of the accept loop, the workers and their statements: a connection that is
closed has got a beginning of the one response with its own answer, the 503 of the accept loop if the
queue refused it, and if a worker took it the rejection of its request or the reply of the engine to
its statement, and all of it if no call of `send` failed; and for every table there is one
order of the INSERTs that explains what all connections were answered, and agrees with the order in
which connections were closed and accepted. -/
theorem service_linearizable (h : ServiceReachable n clients s) :
    (∀ request ∈ s.server.closed, ∃ report wire body,
      s.handling request.number = .answered report wire ∧
      Earned clients s.server request.number (s.engine.phase request.number) report ∧
      serverBuildJsonResponse report.2 = some body ∧
      Json.parse body = some (responseValue report.2) ∧
      wire <+: (responseMessage report.1 body).bytes ∧
      (body.length < 2 ^ 64 →
        (∀ event ∈ clients.sends request.number, event ≠ .failed ∧ event ≠ .takes 0) →
        wire = (responseMessage report.1 body).bytes)) ∧
    (∀ k report, (s.handling k).report = some report → report.2.success = true →
      ∃ t ∈ s.engine.objects, SameName t.tableName.text (clients.statement k).tableName) ∧
    ∀ t ∈ s.engine.objects, ∃ order, ServiceHistory clients s t order := by
  have hs := Service.consistent_of_reachable h
  refine ⟨fun request hmem => ?_, fun k report hreport hsuccess => ?_, fun t ht => ?_⟩
  · have hanswered := hs.closed request hmem
    cases hhandling : s.handling request.number with
    | answered report wire =>
      have hearned := hs.earned request.number report (by rw [hhandling]; rfl)
      obtain ⟨body, hbody, hparse, hprefix, hwhole⟩ :=
        Clients.sent_wire (hearned.wellFormed hs) (hs.sent _ report wire hhandling)
      exact ⟨report, wire, body, rfl, hearned, hbody, hparse, hprefix, hwhole hearned.code⟩
    | _ =>
      rw [hhandling] at hanswered
      cases hanswered
  · have hfinal := (hs.earned k report hreport).of_success hs hsuccess
    rcases Phase.refused_or_returned (Phase.result_of_final hfinal) with hphase |
      ⟨entry, hreturned⟩
    · cases requests_refused hs.run hphase
    · obtain ⟨t, ht, hsame⟩ :=
        (requests_hold hs.run).2 k entry (Phase.result_of_returned hreturned).2
      exact ⟨t, List.mem_of_getElem? ht, hsame⟩
  · obtain ⟨entry, ht⟩ := List.getElem?_of_mem ht
    exact hs.history ht

end History

/-- The states that actions lead to, one after the other. -/
def serviceRun (clients : Clients) : Service n → List (ServiceAction n) → Option (Service n)
  | s, [] => some s
  | s, action :: actions => do
    let s ← serviceStep clients s action
    serviceRun clients s actions

theorem ServiceReachable.run {clients : Clients} {s s' : Service n}
    (h : ServiceReachable n clients s) {actions : List (ServiceAction n)}
    (hrun : serviceRun clients s actions = some s') : ServiceReachable n clients s' := by
  induction actions generalizing s with
  | nil =>
    cases hrun
    exact h
  | cons action actions ih =>
    rw [serviceRun, Option.bind_eq_bind, Option.bind_eq_some_iff] at hrun
    obtain ⟨s₁, hstep, hrun⟩ := hrun
    exact ih (h.step hstep) hrun

/-- An INSERT and a SELECT that comes on the next connection. -/
def raceClients : Clients where
  recvs k :=
    if k = 0 then [.received (bytes "POST /query HTTP/1.1\r\nContent-Length: 39\r\n\r\n"),
      .received (bytes "\x7b\"sql\":\"INSERT INTO t (a) VALUES (5);\"\x7d")]
    else [.received (bytes "POST /query HTTP/1.1\r\nContent-Length: 26\r\n\r\n"),
      .received (bytes "\x7b\"sql\":\"SELECT * FROM T;\"\x7d")]
  sends _ := [.takes 200, .takes 200]

/-- Two workers take them; the SELECT finds its table before the INSERT has the lock, and answers
after it. -/
def raceActions : List (ServiceAction 1) :=
  let first : Fin 2 := ⟨0, Nat.zero_lt_succ 1⟩
  let second : Fin 2 := ⟨1, Nat.lt_succ_self 1⟩
  [.server (.createWorker true), .server (.createWorker true), .server (.accept 4), .server .push,
    .server (.pop first), .server (.accept 5), .server .push, .server (.pop second), .work first,
    .work second, .work first, .work second, .work first, .work first, .work first, .work first,
    .work second, .work second, .work second, .work second, .work second, .work first, .work first,
    .work second, .server (.close first), .server (.close second)]

theorem run_race : ∃ s, ServiceReachable 1 raceClients s ∧ s.server.closed = [⟨4, 0⟩, ⟨5, 1⟩] ∧
    s.engine.objects ≠ [] := by
  have hrun : (serviceRun raceClients (.start 1) raceActions).map (fun s =>
      (s.server.closed, s.engine.objects.isEmpty)) = some ([⟨4, 0⟩, ⟨5, 1⟩], false) := by
    decide +kernel
  obtain ⟨s, hs, heq⟩ := Option.map_eq_some_iff.mp hrun
  obtain ⟨hclosed, hobjects⟩ := Prod.mk.inj heq
  refine ⟨s, ServiceReachable.start.run hs, hclosed, fun hnil => ?_⟩
  rw [hnil] at hobjects
  cases hobjects

theorem service_linearizable_race : ∃ s report wire,
    s.server.closed = [⟨4, 0⟩, ⟨5, 1⟩] ∧ s.handling 1 = .answered report wire ∧
      s.engine.objects ≠ [] ∧
      ∀ t ∈ s.engine.objects, ∃ order, ServiceHistory (n := 1) raceClients s t order := by
  obtain ⟨s, hs, hclosed, hobjects⟩ := run_race
  obtain ⟨hanswered, -, hhistory⟩ := service_linearizable hs
  obtain ⟨report, wire, -, hanswered, -⟩ := hanswered ⟨5, 1⟩ (by rw [hclosed]; decide)
  exact ⟨s, report, wire, hclosed, hanswered, hobjects, hhistory⟩


/-! ## One worker alone -/

section Alone

variable {clients : Clients} {s s' : Service n} {i : Fin (n + 1)} {request : ServerRequest}

theorem serviceRun_append {actions more : List (ServiceAction n)} {s'' : Service n}
    (hrun : serviceRun clients s actions = some s') (hmore : serviceRun clients s' more = some s'') :
    serviceRun clients s (actions ++ more) = some s'' := by
  induction actions generalizing s with
  | nil =>
    cases hrun
    exact hmore
  | cons action actions ih =>
    rw [serviceRun, Option.bind_eq_bind, Option.bind_eq_some_iff] at hrun
    obtain ⟨s₁, hstep, hrun⟩ := hrun
    rw [List.cons_append, serviceRun, hstep]
    exact ih hrun

/-- A step of a worker that has a connection. -/
theorem serviceStep_work (hworker : s.server.workers i = .handling request) :
    serviceStep clients s (.work i) = s.handle clients request.number := by
  unfold serviceStep
  simp only [hworker]

theorem serviceRun_work (hworker : s.server.workers i = .handling request)
    (hstep : s.handle clients request.number = some s') :
    serviceRun clients s [.work i] = some s' := by
  rw [serviceRun, serviceStep_work hworker, hstep]
  rfl

/-- The steps of the thread of a connection, up to its end. -/
theorem serviceRun_schedule {steps : Nat} {trace : Trace Nat}
    {engine : Sections.State Nat TableRuntime Reply}
    (hworker : s.server.workers i = .handling request)
    (hexecuting : s.handling request.number = .executing)
    (hschedule : (requests clients.statement).schedule s.trace s.engine
      (List.replicate steps request.number) = some (trace, engine)) :
    serviceRun clients s (List.replicate steps (.work i)) = some { s with engine, trace } := by
  induction steps generalizing s with
  | zero =>
    cases hschedule
    rfl
  | succ steps ih =>
    rw [List.replicate_succ, Program.schedule, Option.bind_eq_bind,
      Option.bind_eq_some_iff] at hschedule
    obtain ⟨⟨a, engine₁⟩, hstep, hschedule⟩ := hschedule
    have hnot : (s.engine.phase request.number).final = none := by
      cases hfinal : (s.engine.phase request.number).final with
      | none => rfl
      | some out =>
        rw [Program.step_final hfinal] at hstep
        cases hstep
    rw [List.replicate_succ, serviceRun, serviceStep_work hworker]
    unfold Service.handle
    simp only [hexecuting, hnot, Service.execute, hstep, Option.map_some, Option.bind_eq_bind,
      Option.bind_some]
    exact ih hworker hexecuting hschedule

/-- A thread with a reply comes to its end, at once or with the step that gives its lock back. -/
theorem schedule_final (stmt : Nat → SqlStatement) (trace : Trace Nat) {k : Nat}
    {engine : Sections.State Nat TableRuntime Reply} {reply : Reply}
    (hresult : (engine.phase k).result = some reply) :
    ∃ steps trace' engine', (requests stmt).schedule trace engine (List.replicate steps k) =
      some (trace', engine') ∧ (engine'.phase k).final = some reply ∧
      engine'.objects = engine.objects := by
  cases hphase : engine.phase k with
  | refused out =>
    rw [hphase] at hresult
    exact ⟨0, trace, engine, rfl, by rw [hphase]; exact hresult, rfl⟩
  | done entry out =>
    rw [hphase] at hresult
    exact ⟨0, trace, engine, rfl, by rw [hphase]; exact hresult, rfl⟩
  | executed entry out =>
    rw [hphase] at hresult
    refine ⟨1, trace ++ [(k, .unlock)],
      (engine.setLock entry ((engine.lock entry).release k)).goto k (.done entry out), ?_, ?_, rfl⟩
    · simp [Program.schedule, Program.step, hphase]
    · rw [State.goto_phase_self]
      exact hresult
  | _ =>
    rw [hphase] at hresult
    cases hresult

/-- A worker sends a report and has answered. -/
theorem serviceRun_answer {s₁ : Service n} {actions : List (ServiceAction n)} {report : Report}
    {body : Bytes} {status : Status} {socket : Socket}
    (hactions : ∀ action ∈ actions, action = .work i)
    (hrun : serviceRun clients s actions = some s₁)
    (hworker : s₁.server.workers i = .handling request)
    (hanswering : s₁.handling request.number = .answering report)
    (hbody : serverBuildJsonResponse report.2 = some body)
    (hsend : serverSendResponse ⟨[], clients.sends request.number⟩ report.1
      (serverReasonPhrase report.1) body = (some status, socket)) :
    ∃ actions s', (∀ action ∈ actions, action = .work i) ∧
      serviceRun clients s actions = some s' ∧ s'.engine.objects = s₁.engine.objects ∧
      s'.handling request.number = .answered report socket.wire := by
  have hsent : clients.sent request.number report = some socket.wire := by
    simp only [Clients.sent, hbody, hsend, Option.bind_eq_bind, Option.bind_some]
  have hlast : s₁.handle clients request.number =
      some (s₁.setHandling request.number (.answered report socket.wire)) := by
    unfold Service.handle
    simp only [hanswering, hsent, Option.map_some]
  refine ⟨actions ++ [.work i], s₁.setHandling request.number (.answered report socket.wire), ?_,
    serviceRun_append hrun (serviceRun_work hworker hlast), rfl, Function.update_self ..⟩
  intro action hmem
  rcases List.mem_append.mp hmem with hmem | hmem
  · exact hactions action hmem
  · exact List.mem_singleton.mp hmem

/-- A worker opens the request of its connection. -/
theorem serviceRun_opening {handling : Handling} (hworker : s.server.workers i = .handling request)
    (hreading : s.handling request.number = .reading)
    (hopening : clients.opening request.number = some handling) :
    serviceRun clients s [.work i] = some (s.setHandling request.number handling) := by
  refine serviceRun_work hworker ?_
  unfold Service.handle
  simp only [hreading, hopening, Option.map_some]

/-- A worker runs its statement to the end, if no lock is held and it is not interrupted. -/
theorem serviceRun_statement (hs : s.Consistent clients) {statement : SqlStatement}
    (hworker : s.server.workers i = .handling request)
    (hreading : s.handling request.number = .reading) (hfree : ∀ k, s.engine.lock k = .free)
    (hopening : clients.opening request.number = some .executing)
    (hasked : clients.asked request.number = some statement) :
    ∃ actions s' reply, (∀ action ∈ actions, action = .work i) ∧
      serviceRun clients s actions = some s' ∧ s'.server = s.server ∧
      s'.handling request.number = .answering reply.report ∧ reply.2.WellFormed ∧
      executorExecute s.engine.objects statement = some (reply, s'.engine.objects) := by
  obtain ⟨steps, trace, engine, reply, hschedule, hresult, hexecute⟩ :=
    requests_alone hs.run (hs.reading _ hreading) hfree
  obtain ⟨steps', trace', engine', hschedule', hfinal, hobjects⟩ :=
    schedule_final clients.statement trace hresult
  have hwell := (requests_sound (hs.run.schedule hschedule) hresult).wellFormed
  have hself : (s.setHandling request.number .executing).handling request.number = .executing :=
    Function.update_self ..
  have hthread := serviceRun_schedule (s := s.setHandling request.number .executing) hworker hself
    hschedule
  have hunlock := serviceRun_schedule
    (s := { s.setHandling request.number .executing with engine, trace }) hworker hself hschedule'
  have hreply : serviceRun clients
      { s.setHandling request.number .executing with engine := engine', trace := trace' } [.work i] =
      some (Service.setHandling { s.setHandling request.number .executing with
        engine := engine', trace := trace' } request.number (.answering reply.report)) := by
    refine serviceRun_work hworker ?_
    unfold Service.handle
    simp only [hself, hfinal]
  refine ⟨_, _, reply, ?_, serviceRun_append (serviceRun_append (serviceRun_append
    (serviceRun_opening hworker hreading hopening) hthread) hunlock) hreply, rfl,
    Function.update_self .., hwell, ?_⟩
  · intro action hmem
    simp only [List.mem_append, List.mem_singleton, List.mem_replicate] at hmem
    rcases hmem with ((hmem | ⟨-, hmem⟩) | ⟨-, hmem⟩) | hmem <;> exact hmem
  · rw [← Clients.statement_of_asked hasked, hexecute, ← hobjects]
    rfl

/-- A worker comes to the answer of its call, if no lock is held and it is not interrupted. -/
theorem serviceRun_report (hs : s.Consistent clients)
    (hworker : s.server.workers i = .handling request)
    (hreading : s.handling request.number = .reading) (hfree : ∀ k, s.engine.lock k = .free)
    {call : ClientCall} (hcall : clients.call request.number = some call) :
    ∃ actions s' report, (∀ action ∈ actions, action = .work i) ∧
      serviceRun clients s actions = some s' ∧ s'.server = s.server ∧
      s'.handling request.number = .answering report ∧ report.2.WellFormed ∧
      clientAnswer s.engine.objects call = some (report, s'.engine.objects) := by
  cases call with
  | reject statusCode reason error =>
    have hopening : clients.opening request.number =
        some (.answering (errorReport statusCode error)) := by
      unfold Clients.opening
      rw [hcall]
    exact ⟨_, _, errorReport statusCode error, fun _ => List.mem_singleton.mp,
      serviceRun_opening hworker hreading hopening, rfl, Function.update_self ..,
      errorReport_wellFormed statusCode error, rfl⟩
  | execute sql =>
    cases hparse : engineParse sql with
    | error reply =>
      have hopening : clients.opening request.number = some (.answering reply.report) := by
        unfold Clients.opening
        rw [hcall]
        simp only [hparse]
      refine ⟨_, _, reply.report, fun _ => List.mem_singleton.mp,
        serviceRun_opening hworker hreading hopening, rfl, Function.update_self ..,
        (engineParse_sound hparse).2.wellFormed, ?_⟩
      simp only [clientAnswer, engineExecuteSql_parse, hparse, Option.map_some]
      rfl
    | ok statement =>
      have hopening : clients.opening request.number = some .executing := by
        unfold Clients.opening
        rw [hcall]
        simp only [hparse]
      have hasked : clients.asked request.number = some statement := by
        unfold Clients.asked
        rw [hcall]
        simp only [hparse]
        rfl
      obtain ⟨actions, s', reply, hactions, hrun, hserver, hanswering, hwell, hexecute⟩ :=
        serviceRun_statement hs hworker hreading hfree hopening hasked
      refine ⟨actions, s', reply.report, hactions, hrun, hserver, hanswering, hwell, ?_⟩
      simp only [clientAnswer, engineExecuteSql_parse, hparse, hexecute, Option.map_some]
      rfl

/-- What `server_handle_client` sends and leaves, when it has returned. -/
theorem serverHandleClient_returned {registry registry' : Registry} {recvs : List Recv}
    {sends : List Send} {call : ClientCall} {report : Report} {body : Bytes} {handled : Handled}
    (hcall : serverClientCall recvs = some call)
    (hanswer : clientAnswer registry call = some (report, registry'))
    (hbody : serverBuildJsonResponse report.2 = some body)
    (hhandled : serverHandleClient registry recvs ⟨[], sends⟩ = some handled)
    (hreturned : handled.returned = true) :
    ∃ status, serverSendResponse ⟨[], sends⟩ report.1 (serverReasonPhrase report.1) body =
      (some status, handled.socket) ∧ handled.registry = registry' := by
  unfold serverHandleClient at hhandled
  rw [hcall] at hhandled
  cases call with
  | reject statusCode reason error =>
    have hphrase : bytes reason = serverReasonPhrase statusCode := (serverClientCall_phrased hcall).2
    cases hanswer
    simp only [serverSendJsonError, hbody, hphrase, Option.bind_eq_bind, Option.bind_some]
      at hhandled
    generalize serverSendResponse ⟨[], sends⟩ statusCode (serverReasonPhrase statusCode) body = sent
      at hhandled
    obtain ⟨_ | status, socket⟩ := sent
    · cases hhandled
      cases hreturned
    · cases hhandled
      exact ⟨status, rfl, rfl⟩
  | execute sql =>
    obtain ⟨⟨⟨status, result⟩, registry''⟩, hrun, heq⟩ := Option.map_eq_some_iff.mp hanswer
    cases heq
    simp only [hrun, hbody, Option.bind_eq_bind, Option.bind_some] at hhandled
    generalize serverSendResponse ⟨[], sends⟩ (serverStatusForResult (some result))
      (serverReasonPhrase (serverStatusForResult (some result))) body = sent at hhandled
    obtain ⟨_ | status, socket⟩ := sent
    · cases hhandled
      cases hreturned
    · cases hhandled
      exact ⟨status, rfl, rfl⟩

/-- A worker that takes its connection when no lock is held and is not interrupted does what
`server_handle_client` does. -/
theorem service_alone (h : ServiceReachable n clients s)
    (hworker : s.server.workers i = .handling request)
    (hreading : s.handling request.number = .reading) (hfree : ∀ k, s.engine.lock k = .free)
    {handled : Handled}
    (hhandled : serverHandleClient s.engine.objects (clients.recvs request.number)
      ⟨[], clients.sends request.number⟩ = some handled) (hreturned : handled.returned = true) :
    ∃ actions s' report, (∀ action ∈ actions, action = .work i) ∧
      serviceRun clients s actions = some s' ∧ s'.engine.objects = handled.registry ∧
      s'.handling request.number = .answered report handled.socket.wire := by
  have hs := Service.consistent_of_reachable h
  cases hcall : serverClientCall (clients.recvs request.number) with
  | none =>
    unfold serverHandleClient at hhandled
    rw [hcall] at hhandled
    cases hhandled
    cases hreturned
  | some call =>
    obtain ⟨actions, s₁, report, hactions, hrun, hserver, hanswering, hwell, hanswer⟩ :=
      serviceRun_report hs hworker hreading hfree hcall
    obtain ⟨body, hbody, -⟩ := serverBuildJsonResponse_isText hwell
    obtain ⟨status, hsend, hregistry⟩ :=
      serverHandleClient_returned hcall hanswer hbody hhandled hreturned
    obtain ⟨actions', s', hactions', hrun', hobjects, hanswered⟩ :=
      serviceRun_answer hactions hrun (by rw [hserver]; exact hworker) hanswering hbody hsend
    exact ⟨actions', s', report, hactions', hrun', hobjects.trans hregistry.symm, hanswered⟩

end Alone

/-- The INSERT alone. -/
theorem service_alone_insert : ∃ (s : Service 0) (handled : Handled) (actions : List (ServiceAction 0))
    (s' : Service 0) (report : Report),
    serverHandleClient [] (raceClients.recvs 0) ⟨[], raceClients.sends 0⟩ = some handled ∧
      serviceRun raceClients s actions = some s' ∧ s'.engine.objects = handled.registry ∧
      s'.handling 0 = .answered report handled.socket.wire := by
  obtain ⟨s, hrun, hworker, hreading, hengine⟩ : ∃ s, serviceRun raceClients (.start 0)
      [.server (.createWorker true), .server (.accept 4), .server .push, .server (.pop 0)] = some s ∧
      s.server.workers 0 = .handling ⟨4, 0⟩ ∧ s.handling 0 = .reading ∧ s.engine = .start :=
    ⟨_, rfl, rfl, rfl, rfl⟩
  have hreturned : (serverHandleClient [] (raceClients.recvs 0) ⟨[], raceClients.sends 0⟩).map
      Handled.returned = some true := by
    decide +kernel
  obtain ⟨handled, hhandled, hreturned⟩ := Option.map_eq_some_iff.mp hreturned
  have hobjects : s.engine.objects = [] := by rw [hengine]; rfl
  obtain ⟨actions, s', report, -, hactions, hregistry, hanswered⟩ :=
    service_alone (ServiceReachable.start.run hrun) hworker hreading
      (fun k => by rw [hengine]; rfl) (by rw [hobjects]; exact hhandled) hreturned
  exact ⟨s, handled, actions, s', report, hhandled, hactions, hregistry, hanswered⟩

end JungleDb
