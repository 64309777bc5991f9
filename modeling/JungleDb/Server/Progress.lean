import JungleDb.Lib.Rest
import JungleDb.Server.Service

/-!
# The server makes progress

Without new connections the server comes to rest after a bounded number of steps, whichever of its
threads goes on. Then every thread waits for something that is not the server's: a worker for a
connection or for its own client, and the accept loop for a connection or for a client that it
rejects. No worker waits for another one.
-/

namespace JungleDb

open CString Rest Sections

variable {n : Nat}

/-! ## Who waits -/

namespace ServerState

variable {s : ServerState n} {waiting : List ServerRequest} {i j : Fin (n + 1)}
  {request request' : ServerRequest}

theorem sum_setWorker (f : Worker → Nat) (i : Fin (n + 1)) (w : Worker) :
    ∑ j, f (s.setWorker i w j) + f (s.workers i) = ∑ j, f (s.workers j) + f w := by
  have hold := Finset.add_sum_erase Finset.univ (fun j => f (s.workers j)) (Finset.mem_univ i)
  have hnew := Finset.add_sum_erase Finset.univ (fun j => f (s.setWorker i w j)) (Finset.mem_univ i)
  have hothers : ∑ j ∈ Finset.univ.erase i, f (s.setWorker i w j) =
      ∑ j ∈ Finset.univ.erase i, f (s.workers j) :=
    Finset.sum_congr rfl fun j hj => by rw [setWorker_of_ne (Finset.ne_of_mem_erase hj)]
  simp only [setWorker_self] at hnew
  omega

theorem Accounts.accepted_of_handling (h : s.Accounts waiting)
    (hi : s.workers i = .handling request) : request ∈ s.accepted := by
  have hclosings := h.closings request
  have hcount := h.accepted_count request
  have hpos := handlers_pos hi
  exact List.count_pos_iff.mp (by omega)

/-- Two workers have two connections. -/
theorem Accounts.handling_inj (h : s.Accounts waiting) (hi : s.workers i = .handling request)
    (hj : s.workers j = .handling request') (heq : request.number = request'.number) : i = j := by
  obtain rfl := h.number_inj (h.accepted_of_handling hi) (h.accepted_of_handling hj) heq
  by_contra hne
  have hclosings := h.closings request
  have hle := h.taken_le request
  have hone : ∀ {k : Fin (n + 1)}, s.workers k = .handling request →
      (s.workers k).handled.count request = 1 := fun {k} hk => by
    rw [hk]
    exact List.count_singleton_self
  have hfirst := Finset.add_sum_erase Finset.univ
    (fun k => (s.workers k).handled.count request) (Finset.mem_univ i)
  have hsecond := Finset.add_sum_erase (Finset.univ.erase i)
    (fun k => (s.workers k).handled.count request)
    (Finset.mem_erase.mpr ⟨Ne.symm hne, Finset.mem_univ j⟩)
  simp only [hone hi, hone hj] at hfirst hsecond
  unfold handlers at hclosings
  omega

/-- A worker waits in `server_queue_pop` just while the queue is empty and open. -/
theorem pop_eq_none (h : s.Accounts waiting) :
    s.pop i = none ↔ waiting = [] ∧ s.queue.shuttingDown = false := by
  unfold ServerState.pop
  obtain ⟨hempty, hopen, hqueue⟩ | ⟨hempty, hdown, hqueue⟩ |
    ⟨request, rest, queue, hwaiting, hqueue, -⟩ := serverQueuePop_cases h.ring
  · rw [hqueue]
    exact iff_of_true rfl ⟨hempty, hopen⟩
  · rw [hqueue, hdown]
    exact iff_of_false (Option.some_ne_none _) fun hboth => Bool.noConfusion hboth.2
  · rw [hqueue, hwaiting]
    exact iff_of_false (Option.some_ne_none _) fun hboth => List.cons_ne_nil _ _ hboth.1

end ServerState

/-! ## How much is left to do -/

/-- Without a connection that is accepted and without the end of the accept loop. -/
def ServiceAction.Own : ServiceAction n → Prop
  | .server (.accept _) => False
  | .server .stop => False
  | _ => True

/-- A step that a thread of the server takes by itself. -/
def OwnStep (clients : Clients) (s s' : Service n) : Prop :=
  ∃ action : ServiceAction n, action.Own ∧ serviceStep clients s action = some s'

namespace Service

variable (s : Service n)

/-- The steps that a connection has before it, to its close. -/
def left (k : Nat) : Nat :=
  match s.handling k with
  | .reading => 9
  | .executing => (s.engine.phase k).left + 3
  | .answering _ => 2
  | .answered _ _ => 1

/-- The steps of a worker with its connection, and the last. -/
def workerCost : Worker → Nat
  | .waiting => 1
  | .handling request => s.left request.number + 1
  | _ => 0

def acceptorCost : Acceptor n → Nat
  | .starting k => 2 * (n + 1 - k.val)
  | .offering _ => 11
  | .rejecting request => if (s.handling request.number).isAnswered then 1 else 2
  | _ => 0

/-- The steps before the server rests, at most, with the connections as they are. -/
def costOf (server : ServerState n) : Nat :=
  s.acceptorCost server.acceptor + (if server.queue.shuttingDown then 0 else 1) +
    10 * server.queue.ring.count + ∑ i, s.workerCost (server.workers i)

def cost : Nat := s.costOf s.server

@[simp] theorem workerCost_absent : s.workerCost .absent = 0 := rfl

@[simp] theorem workerCost_waiting : s.workerCost .waiting = 1 := rfl

@[simp] theorem workerCost_handling (request : ServerRequest) :
    s.workerCost (.handling request) = s.left request.number + 1 := rfl

@[simp] theorem workerCost_exited : s.workerCost .exited = 0 := rfl

@[simp] theorem acceptorCost_starting (k : Fin (n + 1)) :
    s.acceptorCost (.starting k) = 2 * (n + 1 - k.val) := rfl

@[simp] theorem acceptorCost_waiting : s.acceptorCost (.waiting : Acceptor n) = 0 := rfl

@[simp] theorem acceptorCost_offering (request : ServerRequest) :
    s.acceptorCost (.offering request : Acceptor n) = 11 := rfl

@[simp] theorem acceptorCost_rejecting (request : ServerRequest) :
    s.acceptorCost (.rejecting request : Acceptor n) =
      if (s.handling request.number).isAnswered then 1 else 2 := rfl

@[simp] theorem acceptorCost_stopped : s.acceptorCost (.stopped : Acceptor n) = 0 := rfl

theorem acceptorCost_afterCreate (k : Fin (n + 1)) :
    s.acceptorCost (Acceptor.afterCreate k) + 2 ≤ 2 * (n + 1 - k.val) := by
  have hlt := k.isLt
  unfold Acceptor.afterCreate
  split
  · rw [acceptorCost_starting]
    simp only
    omega
  · rw [acceptorCost_waiting]
    omega

theorem left_le (k : Nat) : s.left k ≤ 9 := by
  unfold left
  split
  · exact Nat.le_refl 9
  · cases s.engine.phase k <;> simp [Phase.left]
  · decide
  · decide

variable {s} {s' : Service n} {clients : Clients}

theorem left_of_answered {k : Nat} (h : (s.handling k).isAnswered = true) : s.left k = 1 := by
  unfold left
  cases hk : s.handling k with
  | answered _ _ => rfl
  | _ =>
    rw [hk] at h
    cases h

/-- A step of the accept loop or of the queue. -/
theorem costOf_serverStep {waiting : List ServerRequest} (h : s.server.Accounts waiting)
    {action : ServerAction n} (hown : (ServiceAction.server action).Own) {status : Status}
    {server : ServerState n}
    (hclosed : ∀ k, s.server.closes action = some k → (s.handling k).isAnswered = true)
    (hstep : serverStep s.server action = some (status, server)) :
    s.costOf server < s.costOf s.server := by
  unfold costOf
  cases serverStep_steps hstep with
  | @createWorker k created ha =>
    have hlt := k.isLt
    unfold ServerState.createWorker
    rw [ha, acceptorCost_starting]
    cases created with
    | false =>
      simp only [Bool.false_eq_true, if_false, acceptorCost_stopped]
      omega
    | true =>
      have hsum := ServerState.sum_setWorker (s := s.server) s.workerCost k .waiting
      have hnext := s.acceptorCost_afterCreate k
      rw [h.coming ha (Nat.le_refl _), workerCost_absent, workerCost_waiting] at hsum
      simp only [if_true]
      omega
  | accept _ _ => exact hown.elim
  | @push request ha =>
    unfold ServerState.push
    rw [ha, acceptorCost_offering]
    cases hpush : serverQueuePush s.server.queue request with
    | none =>
      simp only [acceptorCost_rejecting]
      split <;> omega
    | some queue =>
      obtain ⟨hring, hopen, hopen'⟩ := serverQueuePush_eq_some h.ring hpush
      have hcount := hring.count
      rw [List.length_append, ← h.ring.count, List.length_singleton] at hcount
      simp only [acceptorCost_waiting, hcount, hopen, hopen']
      omega
  | @reject request ha =>
    have hanswered := hclosed request.number (by rw [ServerState.closes, ha])
    unfold ServerState.reject
    simp only [ha, acceptorCost_waiting, acceptorCost_rejecting, hanswered, if_true]
    omega
  | stop _ => exact hown.elim
  | shutdown =>
    unfold serverStep at hstep
    simp only at hstep
    split at hstep
    · cases hstep
    · rename_i hopen
      simp only [serverQueueShutdown, hopen, if_true, Bool.false_eq_true, if_false]
      omega
  | @pop i status server hi hpop =>
    unfold ServerState.pop at hpop
    obtain ⟨-, -, hqueue⟩ | ⟨-, -, hqueue⟩ | ⟨request, rest, queue, hwaiting, hqueue, hring, hdown⟩ :=
      serverQueuePop_cases h.ring
    · rw [hqueue] at hpop
      cases hpop
    · rw [hqueue] at hpop
      cases hpop
      have hsum := ServerState.sum_setWorker (s := s.server) s.workerCost i .exited
      rw [hi, workerCost_waiting, workerCost_exited] at hsum
      simp only
      omega
    · rw [hqueue] at hpop
      cases hpop
      have hsum := ServerState.sum_setWorker (s := s.server) s.workerCost i (.handling request)
      rw [hi, workerCost_waiting, workerCost_handling] at hsum
      have hle := s.left_le request.number
      have hcount := h.ring.count
      rw [hwaiting, List.length_cons, ← hring.count] at hcount
      simp only [hcount, hdown]
      omega
  | @close i request hi =>
    have hanswered := hclosed request.number (by rw [ServerState.closes, hi])
    have hsum := ServerState.sum_setWorker (s := s.server) s.workerCost i .waiting
    rw [hi, workerCost_waiting, workerCost_handling, left_of_answered hanswered] at hsum
    unfold ServerState.close
    simp only
    omega

/-- A step for one connection, of the worker that has it. -/
theorem cost_work {waiting : List ServerRequest} (h : s.server.Accounts waiting)
    {i : Fin (n + 1)} {request : ServerRequest} (hi : s.server.workers i = .handling request)
    (hserver : s'.server = s.server) (hself : s'.left request.number < s.left request.number)
    (hother : ∀ k ≠ request.number, s'.left k = s.left k ∧ s'.handling k = s.handling k) :
    s'.cost < s.cost := by
  have hacceptor : s'.acceptorCost s.server.acceptor = s.acceptorCost s.server.acceptor := by
    cases ha : s.server.acceptor with
    | rejecting request' =>
      rw [acceptorCost_rejecting, acceptorCost_rejecting,
        (hother request'.number (h.rejecting_ne hi ha).symm).2]
    | _ => rfl
  have hold := Finset.add_sum_erase Finset.univ (fun j => s.workerCost (s.server.workers j))
    (Finset.mem_univ i)
  have hnew := Finset.add_sum_erase Finset.univ (fun j => s'.workerCost (s.server.workers j))
    (Finset.mem_univ i)
  have hothers : ∑ j ∈ Finset.univ.erase i, s'.workerCost (s.server.workers j) =
      ∑ j ∈ Finset.univ.erase i, s.workerCost (s.server.workers j) := by
    refine Finset.sum_congr rfl fun j hj => ?_
    cases hw : s.server.workers j with
    | handling request' =>
      rw [workerCost_handling, workerCost_handling, (hother request'.number fun heq =>
        Finset.ne_of_mem_erase hj (h.handling_inj hw hi heq)).1]
    | _ => rfl
  simp only [hi, workerCost_handling] at hold hnew
  unfold cost costOf
  rw [hserver, hacceptor]
  omega

theorem left_setHandling {k j : Nat} (handling : Handling) (hj : j ≠ k) :
    (s.setHandling k handling).left j = s.left j ∧
      (s.setHandling k handling).handling j = s.handling j := by
  have hsame : (s.setHandling k handling).handling j = s.handling j := Function.update_of_ne hj ..
  refine ⟨?_, hsame⟩
  unfold left
  rw [hsame]
  rfl

theorem left_setHandling_self (k : Nat) (handling : Handling) :
    (s.setHandling k handling).left k = match handling with
      | .reading => 9
      | .executing => (s.engine.phase k).left + 3
      | .answering _ => 2
      | .answered _ _ => 1 := by
  have hself : (s.setHandling k handling).handling k = handling := Function.update_self ..
  unfold left
  rw [hself]
  rfl

/-- The accept loop has answered the connection that it rejects. -/
theorem cost_busy {waiting : List ServerRequest} (h : s.server.Accounts waiting)
    {request : ServerRequest} (hacceptor : s.server.acceptor = .rejecting request)
    (hreading : s.handling request.number = .reading) (wire : Bytes) :
    (s.setHandling request.number (.answered busyReport wire)).cost < s.cost := by
  have hself : (s.setHandling request.number (.answered busyReport wire)).handling request.number =
      .answered busyReport wire := Function.update_self ..
  have hold : s.acceptorCost s.server.acceptor = 2 := by
    rw [hacceptor, acceptorCost_rejecting, hreading]
    rfl
  have hnew : (s.setHandling request.number (.answered busyReport wire)).acceptorCost
      s.server.acceptor = 1 := by
    rw [hacceptor, acceptorCost_rejecting, hself]
    rfl
  have hworkers : ∀ j, (s.setHandling request.number (.answered busyReport wire)).workerCost
      (s.server.workers j) = s.workerCost (s.server.workers j) := by
    intro j
    cases hw : s.server.workers j with
    | handling request' =>
      rw [workerCost_handling, workerCost_handling,
        (left_setHandling _ (h.rejecting_ne hw hacceptor)).1]
    | _ => rfl
  unfold cost costOf
  rw [hold]
  show _ + _ + _ + ∑ j, _ < _
  simp only [show (s.setHandling request.number (.answered busyReport wire)).server = s.server
    from rfl, hnew, hworkers]
  omega

theorem Consistent.cost_lt (h : s.Consistent clients) (hstep : OwnStep clients s s') :
    s'.cost < s.cost := by
  obtain ⟨waiting, haccounts⟩ := h.accounts
  obtain ⟨action, hown, hstep⟩ := hstep
  cases serviceStep_steps hstep with
  | server hclosed hserver =>
    exact costOf_serverStep haccounts hown hclosed (ServerState.step_of_run hserver)
  | @busy request wire hacceptor hreading hsent =>
    exact cost_busy haccounts hacceptor hreading wire
  | @opened i request handling hworker hreading hopening =>
    refine cost_work haccounts hworker rfl ?_ fun k => left_setHandling handling
    have hnine : s.left request.number = 9 := by
      unfold left
      rw [hreading]
    rw [left_setHandling_self, hnine]
    rcases Clients.opening_earned (h.popped hworker) hopening (h.reading _ hreading) with ⟨rfl, -⟩ |
      ⟨report, rfl, -⟩
    · rw [h.reading _ hreading]
      show 8 < 9
      decide
    · show 2 < 9
      decide
  | @executed i request action engine hworker hexecuting hthread =>
    refine cost_work haccounts hworker rfl ?_ fun k hk => ⟨?_, rfl⟩
    · have hless := Program.step_left hthread
      unfold left
      rw [hexecuting]
      simp only
      omega
    · unfold left
      simp only [Program.step_phase_ne hthread hk]
  | @replied i request reply hworker hexecuting hfinal =>
    refine cost_work haccounts hworker rfl ?_ fun k => left_setHandling _
    rw [left_setHandling_self]
    unfold left
    rw [hexecuting]
    simp only
    omega
  | @answered i request report wire hworker hanswering hsent =>
    refine cost_work haccounts hworker rfl ?_ fun k => left_setHandling _
    rw [left_setHandling_self]
    unfold left
    rw [hanswering]
    show 1 < 2
    decide

end Service

/-! ## At rest -/

/-- The client of a connection holds up the one that has it: it has not sent its request, or not taken
its answer. -/
inductive Stalled (clients : Clients) (s : Service n) (k : Nat) : Prop
  | request (hreading : s.handling k = .reading) (hcall : clients.call k = none)
  | response {report : Report} (hanswering : s.handling k = .answering report)
    (hsent : clients.sent k report = none)
  | busy {request : ServerRequest} (hacceptor : s.server.acceptor = .rejecting request)
    (hk : request.number = k) (hsent : clients.sent k busyReport = none)

theorem Clients.opening_eq_none {clients : Clients} {k : Nat} (h : clients.opening k = none) :
    clients.call k = none := by
  unfold Clients.opening at h
  split at h
  · assumption
  · cases h
  · split at h <;> cases h

section Resting

variable {s : Service n} {clients : Clients} (hs : s.Consistent clients)
  (hrest : Resting (OwnStep clients) s)

include hrest in
theorem Service.rest_work (i : Fin (n + 1)) : serviceStep clients s (.work i) = none := by
  cases hstep : serviceStep clients s (.work i) with
  | none => rfl
  | some s' => exact (hrest s' ⟨.work i, trivial, hstep⟩).elim

include hrest in
/-- At rest no step of the accept loop or the queue can be taken whose connection is answered. -/
theorem Service.rest_server (action : ServerAction n) (hown : (ServiceAction.server action).Own)
    (hclosed : ∀ k, s.server.closes action = some k → (s.handling k).isAnswered = true) :
    serverRunStep s.server action = none := by
  cases hserver : serverRunStep s.server action with
  | none => rfl
  | some r =>
    refine (hrest { s with server := r.2, log := s.log ++ s.server.shows action }
      ⟨.server action, hown, ?_⟩).elim
    unfold serviceStep
    simp only
    rw [if_pos, hserver]
    · rfl
    · cases hcloses : s.server.closes action with
      | none => rfl
      | some k => exact hclosed k hcloses

include hrest in
theorem Service.rest_step (action : ServerAction n) (hown : (ServiceAction.server action).Own)
    (hne : action ≠ .shutdown)
    (hclosed : ∀ k, s.server.closes action = some k → (s.handling k).isAnswered = true) :
    serverStep s.server action = none := by
  have hrun := Service.rest_server hrest action hown hclosed
  unfold serverRunStep at hrun
  rwa [if_neg (fun heq => hne heq.1)] at hrun

include hrest in
theorem Service.rest_handle {i : Fin (n + 1)} {request : ServerRequest}
    (hworker : s.server.workers i = .handling request) : s.handle clients request.number = none := by
  rw [← serviceStep_work hworker]
  exact Service.rest_work hrest i

include hs hrest in
/-- At rest no thread of the engine is under way: it could go on, or one that holds the lock it waits
for. -/
theorem Service.rest_engine {i : Fin (n + 1)} {request : ServerRequest}
    (hworker : s.server.workers i = .handling request) :
    s.handling request.number ≠ .executing := by
  intro hexecuting
  have hstuck : ∀ {i : Fin (n + 1)} {request : ServerRequest},
      s.server.workers i = .handling request → s.handling request.number = .executing →
        (s.engine.phase request.number).final = none ∧
          (requests clients.statement).step s.engine request.number = none := by
    intro i request hworker hexecuting
    have hnone := Service.rest_handle hrest hworker
    unfold Service.handle at hnone
    simp only [hexecuting] at hnone
    cases hfinal : (s.engine.phase request.number).final with
    | some reply =>
      rw [hfinal] at hnone
      cases hnone
    | none =>
      rw [hfinal] at hnone
      unfold Service.execute at hnone
      exact ⟨rfl, Option.map_eq_none_iff.mp hnone⟩
  obtain ⟨hfinal, hnostep⟩ := hstuck hworker hexecuting
  obtain ⟨j, r, hstep, hj⟩ := requests_progress hs.run hfinal
  rcases hj with rfl | ⟨k, hheld⟩
  · rw [hnostep] at hstep
    cases hstep
  · -- the thread that holds the lock is that of a worker
    have hnotReady : s.engine.phase j ≠ .ready := by
      intro hready
      rw [hready] at hheld
      cases hheld
    have hholder : s.handling j = .executing := by
      cases hhandling : s.handling j with
      | executing => rfl
      | reading => exact absurd (hs.reading j hhandling) hnotReady
      | answering report =>
        rcases (hs.earned j report (by rw [hhandling]; rfl)).final_or_ready with hready |
          ⟨reply, hfinal', -⟩
        · exact absurd hready hnotReady
        · rw [Phase.not_final_of_held hheld] at hfinal'
          cases hfinal'
      | answered report wire =>
        rcases (hs.earned j report (by rw [hhandling]; rfl)).final_or_ready with hready |
          ⟨reply, hfinal', -⟩
        · exact absurd hready hnotReady
        · rw [Phase.not_final_of_held hheld] at hfinal'
          cases hfinal'
    rcases hs.has j (by rw [hholder]; exact Handling.noConfusion) with
      ⟨i', request', hworker', rfl⟩ | ⟨request', hacceptor, rfl⟩ | ⟨request', hclosed, rfl⟩
    · rw [(hstuck hworker' hholder).2] at hstep
      cases hstep
    · rcases hs.rejecting request' hacceptor with hreading | hanswered
      · rw [hholder] at hreading
        cases hreading
      · rw [hholder] at hanswered
        cases hanswered
    · have hanswered := hs.closed request' hclosed
      rw [hholder] at hanswered
      cases hanswered

include hs hrest in
theorem Service.rest_worker {waiting : List ServerRequest} (haccounts : s.server.Accounts waiting)
    (i : Fin (n + 1)) :
    (s.server.workers i = .absent ∧ s.server.acceptor = .stopped) ∨ s.server.workers i = .exited ∨
      (s.server.workers i = .waiting ∧ waiting = [] ∧ s.server.queue.shuttingDown = false) ∨
        ∃ request, s.server.workers i = .handling request ∧ Stalled clients s request.number := by
  cases hworker : s.server.workers i with
  | absent =>
    refine .inl ⟨rfl, ?_⟩
    have hlack := (haccounts.absent hworker).2
    cases hacceptor : s.server.acceptor with
    | stopped => rfl
    | starting k =>
      have hnone := Service.rest_step hrest (.createWorker true) trivial
        (fun heq => by cases heq) (fun k hk => by cases hk)
      unfold serverStep at hnone
      simp only [hacceptor] at hnone
      cases hnone
    | _ =>
      rw [hacceptor] at hlack
      exact hlack.elim
  | exited => exact .inr (.inl rfl)
  | waiting =>
    refine .inr (.inr (.inl ⟨rfl, ?_⟩))
    have hnone := Service.rest_step hrest (.pop i) trivial (fun heq => by cases heq)
      (fun k hk => by cases hk)
    unfold serverStep at hnone
    simp only [hworker] at hnone
    exact (ServerState.pop_eq_none haccounts).mp hnone
  | handling request =>
    refine .inr (.inr (.inr ⟨request, rfl, ?_⟩))
    have hnone := Service.rest_handle hrest hworker
    unfold Service.handle at hnone
    cases hhandling : s.handling request.number with
    | reading =>
      simp only [hhandling, Option.map_eq_none_iff] at hnone
      exact .request hhandling (Clients.opening_eq_none hnone)
    | executing => exact absurd hhandling (Service.rest_engine hs hrest hworker)
    | answering report =>
      simp only [hhandling, Option.map_eq_none_iff] at hnone
      exact .response hhandling hnone
    | answered report wire =>
      have hclose := Service.rest_step hrest (.close i) trivial
        (fun heq => by cases heq) (fun k hk => by
          simp only [ServerState.closes, hworker, Option.some.injEq] at hk
          rw [← hk, hhandling]
          rfl)
      unfold serverStep at hclose
      simp only [hworker] at hclose
      cases hclose

include hs hrest in
theorem Service.rest_acceptor :
    s.server.acceptor = .waiting ∨
      (s.server.acceptor = .stopped ∧ s.server.queue.shuttingDown = true) ∨
        ∃ request, s.server.acceptor = .rejecting request ∧ Stalled clients s request.number := by
  cases hacceptor : s.server.acceptor with
  | waiting => exact .inl rfl
  | starting k =>
    have hcreate := Service.rest_step hrest (.createWorker true) trivial
      (fun heq => by cases heq) (fun k hk => by cases hk)
    unfold serverStep at hcreate
    simp only [hacceptor] at hcreate
    cases hcreate
  | offering request =>
    have hpush := Service.rest_step hrest .push trivial (fun heq => by cases heq)
      (fun k hk => by cases hk)
    unfold serverStep at hpush
    simp only [hacceptor] at hpush
    cases hpush
  | stopped =>
    refine .inr (.inl ⟨rfl, ?_⟩)
    have hshutdown := Service.rest_server hrest .shutdown trivial
      (fun k hk => by cases hk)
    unfold serverRunStep serverStep at hshutdown
    rw [if_neg (fun heq => heq.2 hacceptor)] at hshutdown
    cases hdown : s.server.queue.shuttingDown with
    | true => rfl
    | false =>
      simp only [hdown] at hshutdown
      cases hshutdown
  | rejecting request =>
    refine .inr (.inr ⟨request, rfl, ?_⟩)
    rcases hs.rejecting request hacceptor with hreading | hanswered
    · refine .busy hacceptor rfl ?_
      cases hsent : clients.sent request.number busyReport with
      | none => rfl
      | some wire =>
        refine (hrest (s.setHandling request.number (.answered busyReport wire))
          ⟨.busy, trivial, ?_⟩).elim
        unfold serviceStep
        simp only [hacceptor, hreading, hsent, Option.map_some]
    · have hreject := Service.rest_step hrest .reject trivial
        (fun heq => by cases heq) (fun k hk => by
          simp only [ServerState.closes, hacceptor, Option.some.injEq] at hk
          rw [← hk]
          exact hanswered)
      unfold serverStep at hreject
      simp only [hacceptor] at hreject
      cases hreject

end Resting

/-- With no client that holds it up, the server at rest has closed every connection. -/
theorem Service.rest_closed {s : Service n} {clients : Clients} {waiting : List ServerRequest}
    (hs : s.Consistent clients) (hrest : Resting (OwnStep clients) s)
    (haccounts : s.server.Accounts waiting) (hnone : ∀ k, ¬ Stalled clients s k)
    {request : ServerRequest} (hmem : request ∈ s.server.accepted) :
    request ∈ s.server.closed := by
  have hworkers : ∀ i, (s.server.workers i).handled = [] ∧
      (s.server.workers i = .absent ∨ waiting = []) := by
    intro i
    rcases Service.rest_worker hs hrest haccounts i with ⟨hw, -⟩ | hw | ⟨hw, hempty, -⟩ |
      ⟨_, -, hstalled⟩
    · rw [hw]
      exact ⟨rfl, .inl rfl⟩
    · exact ⟨by rw [hw]; rfl, .inr (haccounts.exited hw).2⟩
    · exact ⟨by rw [hw]; rfl, .inr hempty⟩
    · exact (hnone _ hstalled).elim
  have hempty : waiting = [] := by
    rcases (hworkers 0).2 with habsent | hempty
    · rw [(haccounts.absent habsent).1] at hmem
      cases hmem
    · exact hempty
  have hhandlers : ServerState.handlers s.server.workers request = 0 :=
    Finset.sum_eq_zero fun i _ => by rw [(hworkers i).1]; rfl
  have hacceptor : s.server.acceptor.offered = [] ∧ s.server.acceptor.refused = [] := by
    rcases Service.rest_acceptor hs hrest with hacceptor | ⟨hacceptor, -⟩ | ⟨_, -, hstalled⟩
    · rw [hacceptor]
      exact ⟨rfl, rfl⟩
    · rw [hacceptor]
      exact ⟨rfl, rfl⟩
    · exact (hnone _ hstalled).elim
  have hcount := haccounts.accepted_count request
  have hclosings := haccounts.closings request
  rw [hacceptor.1, hempty, List.count_nil] at hcount
  rw [hacceptor.2, hhandlers, List.count_nil] at hclosings
  have hpos : 0 < s.server.accepted.count request := List.count_pos_iff.mpr hmem
  refine List.count_pos_iff.mp ?_
  unfold ServerState.timesClosed at hclosings
  omega

/-- Own steps accept no connection. -/
theorem OwnStep.accepted {s s' : Service n} {clients : Clients} (h : OwnStep clients s s') :
    s'.server.accepted = s.server.accepted := by
  obtain ⟨action, hown, hstep⟩ := h
  cases serviceStep_steps hstep with
  | server _ hserver =>
    cases serverStep_steps (ServerState.step_of_run hserver) with
    | createWorker created _ => cases created <;> rfl
    | accept _ _ => exact hown.elim
    | push _ =>
      unfold ServerState.push
      split <;> rfl
    | pop _ hpop =>
      unfold ServerState.pop at hpop
      split at hpop <;> cases hpop <;> rfl
    | _ => rfl
  | _ => rfl

/-- In every interleaving, and whatever the clients do: without new connections the server comes to
rest after a bounded number of steps, whichever of its threads goes on. At rest a worker has not been
created, has returned, waits on a queue that is empty and open, or waits for its own client; the accept
loop waits for a connection or for a client that it rejects, or has ended with the queue shut down. If
no client holds up the server, every accepted connection has then been answered and closed. -/
theorem service_rests {s : Service n} {clients : Clients} (h : ServiceReachable n clients s) :
    (∃ bound, ∀ m s', Rest.Steps (OwnStep clients) m s s' → m ≤ bound) ∧
    (∃ m s', Rest.Steps (OwnStep clients) m s s' ∧ Resting (OwnStep clients) s') ∧
    ∀ m s', Rest.Steps (OwnStep clients) m s s' → Resting (OwnStep clients) s' →
      (∀ i, (s'.server.workers i = .absent ∧ s'.server.acceptor = .stopped) ∨
        s'.server.workers i = .exited ∨
        (s'.server.workers i = .waiting ∧ s'.server.queue.ring.Represents [] ∧
          s'.server.queue.shuttingDown = false) ∨
        ∃ request, s'.server.workers i = .handling request ∧
          Stalled clients s' request.number) ∧
      (s'.server.acceptor = .waiting ∨
        (s'.server.acceptor = .stopped ∧ s'.server.queue.shuttingDown = true) ∨
        ∃ request, s'.server.acceptor = .rejecting request ∧ Stalled clients s' request.number) ∧
      ((∀ k, ¬ Stalled clients s' k) → ∀ request ∈ s.server.accepted,
        request ∈ s'.server.closed ∧ (s'.handling request.number).isAnswered = true) := by
  have hs := Service.consistent_of_reachable h
  have hkeep : ∀ s s' : Service n, s.Consistent clients → OwnStep clients s s' →
      s'.Consistent clients := fun _ _ hs ⟨_, _, hstep⟩ => hs.step hstep
  have hless : ∀ s s' : Service n, s.Consistent clients → OwnStep clients s s' →
      s'.cost < s.cost := fun _ _ hs hstep => hs.cost_lt hstep
  refine ⟨⟨s.cost, fun m s' hsteps => ?_⟩, Rest.exists_resting hkeep hless hs,
    fun m s' hsteps hrest => ?_⟩
  · have hbound := hsteps.bounded hkeep hless hs
    omega
  · have hs' := hsteps.invariant hkeep hs
    have haccepted : s'.server.accepted = s.server.accepted :=
      hsteps.invariant (I := fun s' => s'.server.accepted = s.server.accepted)
        (fun _ _ heq hstep => hstep.accepted.trans heq) rfl
    obtain ⟨waiting, haccounts⟩ := hs'.accounts
    refine ⟨fun i => ?_, Service.rest_acceptor hs' hrest, fun hnone request hmem => ?_⟩
    · rcases Service.rest_worker hs' hrest haccounts i with hw | hw | ⟨hw, hempty, hopen⟩ | hw
      · exact .inl hw
      · exact .inr (.inl hw)
      · exact .inr (.inr (.inl ⟨hw, hempty ▸ haccounts.ring, hopen⟩))
      · exact .inr (.inr (.inr hw))
    · have hclosed := Service.rest_closed hs' hrest haccounts hnone (haccepted ▸ hmem)
      exact ⟨hclosed, hs'.closed request hclosed⟩

/-- The clients of the race, gone when their answers come. -/
def goneClients : Clients := { raceClients with sends := fun _ => [.failed] }

theorem goneClients_sent {k : Nat} {report : Report} (hwell : report.2.WellFormed) :
    goneClients.sent k report ≠ none := by
  obtain ⟨body, hbody, -⟩ := serverBuildJsonResponse_isText hwell
  simp only [Clients.sent, hbody, Option.bind_eq_bind, Option.bind_some, goneClients]
  have hstart : 0 < (responseHeader report.1 (serverReasonPhrase report.1) body.length).length := by
    unfold responseHeader
    simp only [List.length_append]
    have hversion : (bytes "HTTP/1.1 ").length = 9 := by decide
    omega
  have hfailed : serverSendAll ⟨[], [.failed]⟩
      (responseHeader report.1 (serverReasonPhrase report.1) body.length) =
        (some .failure, ⟨[], []⟩) := by
    unfold serverSendAll serverSendLoop
    simp only [if_pos hstart]
  unfold serverSendResponse
  simp only [hfailed]
  split
  · exact Option.some_ne_none _
  · rename_i hnone
    split at hnone <;> cases hnone

theorem goneClients_call (k : Nat) : goneClients.call k ≠ none := by
  have hfirst : (goneClients.call 0).isSome = true := by decide +kernel
  have hsecond : (goneClients.call 1).isSome = true := by decide +kernel
  have hsame : ∀ k ≠ 0, goneClients.call k = goneClients.call 1 := by
    intro k hk
    unfold Clients.call goneClients raceClients
    simp only [if_neg hk, if_neg Nat.one_ne_zero]
  intro hnone
  by_cases hk : k = 0
  · rw [hk] at hnone
    rw [hnone] at hfirst
    cases hfirst
  · rw [hsame k hk] at hnone
    rw [hnone] at hsecond
    cases hsecond

/-- Both connections are closed. -/
theorem service_rests_gone : ∃ (s s' : Service 1) (m : Nat), s.server.accepted = [⟨4, 0⟩, ⟨5, 1⟩] ∧
    s.server.closed = [] ∧ Rest.Steps (OwnStep goneClients) m s s' ∧
      ∀ request ∈ s.server.accepted, request ∈ s'.server.closed := by
  obtain ⟨s, hrun, haccepted, hclosed⟩ : ∃ s, serviceRun goneClients (.start 1)
      [.server (.createWorker true), .server (.createWorker true), .server (.accept 4),
        .server .push, .server (.accept 5)] = some s ∧
      s.server.accepted = [⟨4, 0⟩, ⟨5, 1⟩] ∧ s.server.closed = [] :=
    ⟨_, rfl, rfl, rfl⟩
  have hreach := ServiceReachable.start.run hrun
  obtain ⟨-, ⟨m, s', hsteps, hrest⟩, hall⟩ := service_rests hreach
  obtain ⟨-, -, hdone⟩ := hall m s' hsteps hrest
  have hs' : s'.Consistent goneClients :=
    hsteps.invariant (fun _ _ hs ⟨_, _, hstep⟩ => hs.step hstep)
      (Service.consistent_of_reachable hreach)
  refine ⟨s, s', m, haccepted, hclosed, hsteps, fun request hmem => (hdone ?_ request hmem).1⟩
  intro k hstalled
  cases hstalled with
  | request _ hcall => exact goneClients_call k hcall
  | @response report hanswering hsent =>
    have hearned := hs'.earned k report (by rw [hanswering]; rfl)
    exact goneClients_sent (hearned.wellFormed hs') hsent
  | busy _ _ hsent => exact goneClients_sent (errorReport_wellFormed 503 "Server is busy.") hsent

end JungleDb
