import Mathlib.Algebra.BigOperators.Fin
import JungleDb.Lib.Machine
import JungleDb.Lib.RingBuffer
import JungleDb.Bptree.Basic

/-!
# The request queue of `server.c`

The accept loop of `server_run` hands client descriptors to the workers through a ring buffer under
a mutex, so each operation on the queue is one step. The steps of the accept loop, of the workers
and of the shutdown interleave freely: the shutdown may come at any time, before the accept loop has
stopped as well. What has happened so far is kept beside the state; no step depends on it.
-/

namespace JungleDb

open CArray

/-- `SERVER_QUEUE_CAPACITY`. -/
abbrev SERVER_QUEUE_CAPACITY : Nat := 32

/-- `ServerRequest`; descriptors are not negative. The number is not in the source: it tells
connections apart that have had the same descriptor. -/
structure ServerRequest where
  clientFd : Nat
  number : Nat
  deriving DecidableEq, Inhabited, Repr

/-- `ServerRequestQueue`. -/
structure ServerRequestQueue where
  ring : RingBuffer ServerRequest SERVER_QUEUE_CAPACITY
  shuttingDown : Bool

/-- `server_queue_init` -/
def serverQueueInit : ServerRequestQueue := ⟨.empty, false⟩

/-- `server_queue_shutdown` -/
def serverQueueShutdown (queue : ServerRequestQueue) : ServerRequestQueue :=
  { queue with shuttingDown := true }

/-- `server_queue_push`; `none` is its FAILURE. -/
def serverQueuePush (queue : ServerRequestQueue) (request : ServerRequest) :
    Option ServerRequestQueue :=
  if queue.shuttingDown || queue.ring.count == SERVER_QUEUE_CAPACITY then none
  else some { queue with ring := queue.ring.push request }

/-- `server_queue_pop`: the request, or `none` for its FAILURE. It has no result as long as it waits
for the queue. -/
def serverQueuePop (queue : ServerRequestQueue) :
    Option (Option ServerRequest × ServerRequestQueue) :=
  if queue.ring.count == 0 && !queue.shuttingDown then none
  else if queue.ring.count == 0 && queue.shuttingDown then some (none, queue)
  else some (some queue.ring.front, { queue with ring := queue.ring.pop })

/-! ## The queue keeps a list -/

section Queue

variable {queue : ServerRequestQueue} {waiting : List ServerRequest} {request : ServerRequest}

theorem serverQueuePush_eq_none (h : queue.ring.Represents waiting) :
    serverQueuePush queue request = none ↔
      queue.shuttingDown = true ∨ waiting.length = SERVER_QUEUE_CAPACITY := by
  unfold serverQueuePush
  rw [h.count]
  split
  · rename_i hfull
    rw [Bool.or_eq_true, beq_iff_eq] at hfull
    exact ⟨fun _ => hfull, fun _ => rfl⟩
  · rename_i hroom
    rw [Bool.or_eq_true, beq_iff_eq] at hroom
    exact ⟨nofun, fun hfull => absurd hfull hroom⟩

theorem serverQueuePush_eq_some {queue' : ServerRequestQueue} (h : queue.ring.Represents waiting)
    (hpush : serverQueuePush queue request = some queue') :
    queue'.ring.Represents (waiting ++ [request]) ∧ queue.shuttingDown = false ∧
      queue'.shuttingDown = false := by
  unfold serverQueuePush at hpush
  split at hpush
  · cases hpush
  · rename_i hroom
    cases hpush
    rw [Bool.or_eq_true, beq_iff_eq, not_or, Bool.not_eq_true, h.count] at hroom
    exact ⟨h.push (Nat.lt_of_le_of_ne h.fits hroom.2) request, hroom.1, hroom.1⟩

theorem serverQueuePop_cases (h : queue.ring.Represents waiting) :
    (waiting = [] ∧ queue.shuttingDown = false ∧ serverQueuePop queue = none) ∨
    (waiting = [] ∧ queue.shuttingDown = true ∧ serverQueuePop queue = some (none, queue)) ∨
    ∃ request rest queue', waiting = request :: rest ∧
      serverQueuePop queue = some (some request, queue') ∧ queue'.ring.Represents rest ∧
      queue'.shuttingDown = queue.shuttingDown := by
  unfold serverQueuePop
  rw [h.count]
  cases waiting with
  | nil =>
    cases hdown : queue.shuttingDown with
    | false => exact .inl ⟨rfl, rfl, rfl⟩
    | true => exact .inr (.inl ⟨rfl, rfl, rfl⟩)
  | cons request rest =>
    refine .inr (.inr ⟨request, rest, { queue with ring := queue.ring.pop }, rfl, ?_, h.pop, rfl⟩)
    rw [← h.front]
    rfl

theorem serverQueuePop_shuttingDown {popped : Option ServerRequest} {queue' : ServerRequestQueue}
    (h : serverQueuePop queue = some (popped, queue')) :
    queue'.shuttingDown = queue.shuttingDown := by
  unfold serverQueuePop at h
  split at h
  · cases h
  · split at h <;> cases h <;> rfl

theorem serverQueuePop_failure (h : queue.ring.Represents waiting) :
    (∃ queue', serverQueuePop queue = some (none, queue')) ↔
      queue.shuttingDown = true ∧ waiting = [] := by
  obtain ⟨rfl, hdown, hpop⟩ | ⟨rfl, hdown, hpop⟩ | ⟨_, _, _, rfl, hpop, -, -⟩ :=
    serverQueuePop_cases h
  · rw [hpop, hdown]
    exact ⟨nofun, nofun⟩
  · rw [hpop, hdown]
    exact ⟨fun _ => ⟨rfl, rfl⟩, fun _ => ⟨queue, rfl⟩⟩
  · rw [hpop]
    exact ⟨nofun, nofun⟩

end Queue

/-! ## The accept loop and the workers -/

/-- Where `server_run` is: it creates the worker `k`, waits in `accept`, calls `server_queue_push`,
answers 503 after a push that failed, or has left the loop. -/
inductive Acceptor (n : Nat)
  | starting (k : Fin (n + 1))
  | waiting
  | offering (request : ServerRequest)
  | rejecting (request : ServerRequest)
  | stopped
  deriving DecidableEq, Repr

/-- Where a worker is: not created, in `server_queue_pop`, before the `close` of a request, or
returned. -/
inductive Worker
  | absent
  | waiting
  | handling (request : ServerRequest)
  | exited
  deriving DecidableEq, Repr

/-- The server with `n + 1` workers; behind the workers, what has happened. -/
structure ServerState (n : Nat) where
  queue : ServerRequestQueue
  acceptor : Acceptor n
  workers : Fin (n + 1) → Worker
  accepted : List ServerRequest
  pushed : List ServerRequest
  popped : List (Fin (n + 1) × ServerRequest)
  rejected : List ServerRequest
  closed : List ServerRequest

/-- The steps; `createWorker` with the outcome of `pthread_create`. -/
inductive ServerAction (n : Nat)
  | createWorker (created : Bool)
  | accept (clientFd : Nat)
  | push
  | reject
  | stop
  | shutdown
  | pop (i : Fin (n + 1))
  | close (i : Fin (n + 1))
  deriving DecidableEq, Repr

variable {n : Nat}

def ServerState.start (n : Nat) : ServerState n where
  queue := serverQueueInit
  acceptor := .starting 0
  workers := fun _ => .absent
  accepted := []
  pushed := []
  popped := []
  rejected := []
  closed := []

/-- After the worker `k` is created: the next one, or the accept loop. -/
def Acceptor.afterCreate (k : Fin (n + 1)) : Acceptor n :=
  if h : k.val + 1 < n + 1 then .starting ⟨k.val + 1, h⟩ else .waiting

namespace ServerState

variable (s : ServerState n)

def setWorker (i : Fin (n + 1)) (w : Worker) : Fin (n + 1) → Worker := Function.update s.workers i w

/-- The next round of the loop of `server_run` that starts the workers. -/
def createWorker (k : Fin (n + 1)) (created : Bool) : ServerState n :=
  if created then
    { s with acceptor := .afterCreate k, workers := s.setWorker k .waiting }
  else { s with acceptor := .stopped }

def accept (clientFd : Nat) : ServerState n :=
  { s with
    acceptor := .offering ⟨clientFd, s.accepted.length⟩
    accepted := s.accepted ++ [⟨clientFd, s.accepted.length⟩] }

def push (request : ServerRequest) : Status × ServerState n :=
  match serverQueuePush s.queue request with
  | none =>
    (.failure, { s with acceptor := .rejecting request, rejected := s.rejected ++ [request] })
  | some queue =>
    (.success, { s with queue, acceptor := .waiting, pushed := s.pushed ++ [request] })

def reject (request : ServerRequest) : ServerState n :=
  { s with acceptor := .waiting, closed := s.closed ++ [request] }

/-- The call of `server_queue_pop` in `server_worker_main`. -/
def pop (i : Fin (n + 1)) : Option (Status × ServerState n) :=
  match serverQueuePop s.queue with
  | none => none
  | some (none, queue) => some (.failure, { s with queue, workers := s.setWorker i .exited })
  | some (some request, queue) => some (.success, { s with
      queue
      workers := s.setWorker i (.handling request)
      popped := s.popped ++ [(i, request)] })

def close (i : Fin (n + 1)) (request : ServerRequest) : ServerState n :=
  { s with workers := s.setWorker i .waiting, closed := s.closed ++ [request] }

end ServerState

/-- One step of `server_run` or `server_worker_main`. The answer is that of the queue operation;
the other steps answer SUCCESS. -/
def serverStep (s : ServerState n) : ServerAction n → Option (Status × ServerState n)
  | .createWorker created =>
    match s.acceptor with
    | .starting k => some (.success, s.createWorker k created)
    | _ => none
  | .accept clientFd =>
    match s.acceptor with
    | .waiting => some (.success, s.accept clientFd)
    | _ => none
  | .push =>
    match s.acceptor with
    | .offering request => some (s.push request)
    | _ => none
  | .reject =>
    match s.acceptor with
    | .rejecting request => some (.success, s.reject request)
    | _ => none
  | .stop =>
    match s.acceptor with
    | .waiting => some (.success, { s with acceptor := .stopped })
    | _ => none
  | .shutdown =>
    if s.queue.shuttingDown then none
    else some (.success, { s with queue := serverQueueShutdown s.queue })
  | .pop i =>
    match s.workers i with
    | .waiting => s.pop i
    | _ => none
  | .close i =>
    match s.workers i with
    | .handling request => some (.success, s.close i request)
    | _ => none

/-- What a step can do. -/
inductive ServerState.Steps (s : ServerState n) : ServerAction n → ServerState n → Prop
  | createWorker {k : Fin (n + 1)} (created : Bool) :
    s.acceptor = .starting k → Steps s (.createWorker created) (s.createWorker k created)
  | accept (clientFd : Nat) : s.acceptor = .waiting → Steps s (.accept clientFd) (s.accept clientFd)
  | push {request : ServerRequest} :
    s.acceptor = .offering request → Steps s .push (s.push request).2
  | reject {request : ServerRequest} :
    s.acceptor = .rejecting request → Steps s .reject (s.reject request)
  | stop : s.acceptor = .waiting → Steps s .stop { s with acceptor := .stopped }
  | shutdown : Steps s .shutdown { s with queue := serverQueueShutdown s.queue }
  | pop {i : Fin (n + 1)} {status : Status} {s' : ServerState n} :
    s.workers i = .waiting → s.pop i = some (status, s') → Steps s (.pop i) s'
  | close {i : Fin (n + 1)} {request : ServerRequest} :
    s.workers i = .handling request → Steps s (.close i) (s.close i request)

theorem serverStep_steps {s s' : ServerState n} {action : ServerAction n} {status : Status}
    (h : serverStep s action = some (status, s')) : s.Steps action s' := by
  unfold serverStep at h
  cases action with
  | createWorker created =>
    cases ha : s.acceptor <;> rw [ha] at h <;> cases h
    exact .createWorker created ha
  | accept clientFd =>
    cases ha : s.acceptor <;> rw [ha] at h <;> cases h
    exact .accept clientFd ha
  | push =>
    cases ha : s.acceptor with
    | offering request =>
      rw [ha] at h
      have hs' : (s.push request).2 = s' := congrArg Prod.snd (Option.some.inj h)
      exact hs' ▸ .push ha
    | _ =>
      rw [ha] at h
      cases h
  | reject =>
    cases ha : s.acceptor <;> rw [ha] at h <;> cases h
    exact .reject ha
  | stop =>
    cases ha : s.acceptor <;> rw [ha] at h <;> cases h
    exact .stop ha
  | shutdown =>
    cases hdown : s.queue.shuttingDown <;> simp only [hdown] at h <;> cases h
    exact .shutdown
  | pop i =>
    cases hi : s.workers i <;> simp only [hi] at h <;> try cases h
    exact .pop hi h
  | close i =>
    cases hi : s.workers i <;> simp only [hi] at h <;> cases h
    exact .close hi

/-- The same where the shutdown waits for the accept loop, as in `server_run`. -/
def serverRunStep (s : ServerState n) (action : ServerAction n) : Option (Status × ServerState n) :=
  if action = .shutdown ∧ s.acceptor ≠ .stopped then none else serverStep s action

/-! ## The books -/

namespace Acceptor

/-- The request that is about to be pushed. -/
def offered : Acceptor n → List ServerRequest
  | offering request => [request]
  | _ => []

/-- The request whose push failed and whose descriptor is open. -/
def refused : Acceptor n → List ServerRequest
  | rejecting request => [request]
  | _ => []

/-- The worker may not have been created yet. -/
def MayLack : Acceptor n → Fin (n + 1) → Prop
  | starting k, i => k ≤ i
  | stopped, _ => True
  | _, _ => False

theorem MayLack.afterCreate {k i : Fin (n + 1)} (h : k ≤ i) (hne : i ≠ k) :
    (Acceptor.afterCreate k).MayLack i := by
  have hlt : k.val + 1 ≤ i.val := Nat.lt_of_le_of_ne h fun heq => hne (Fin.ext heq.symm)
  unfold Acceptor.afterCreate
  rw [dif_pos (Nat.lt_of_le_of_lt hlt i.isLt)]
  exact hlt

theorem afterCreate_eq_starting {k k' : Fin (n + 1)} (h : afterCreate k = .starting k') :
    k < k' := by
  unfold afterCreate at h
  split at h
  · cases h
    exact Nat.lt_succ_self k.val
  · cases h

theorem offered_afterCreate (k : Fin (n + 1)) : (afterCreate k).offered = [] := by
  unfold afterCreate
  split <;> rfl

theorem refused_afterCreate (k : Fin (n + 1)) : (afterCreate k).refused = [] := by
  unfold afterCreate
  split <;> rfl

theorem afterCreate_ne_rejecting (k : Fin (n + 1)) (request : ServerRequest) :
    afterCreate k ≠ .rejecting request := by
  intro heq
  have hrefused := refused_afterCreate k
  rw [heq] at hrefused
  cases hrefused

end Acceptor

/-- The request between the `server_queue_pop` and the `close` of a worker. -/
def Worker.handled : Worker → List ServerRequest
  | handling request => [request]
  | _ => []

namespace ServerState

variable {s : ServerState n} {waiting : List ServerRequest}

/-- How many workers handle the request. -/
def handlers (workers : Fin (n + 1) → Worker) (request : ServerRequest) : Nat :=
  ∑ i, (workers i).handled.count request

/-- How often the request has been taken: out of the queue by a worker, or back by the accept loop
after a push that failed. -/
def timesTaken (s : ServerState n) (request : ServerRequest) : Nat :=
  (s.popped.map Prod.snd).count request + s.rejected.count request

def timesClosed (s : ServerState n) (request : ServerRequest) : Nat := s.closed.count request

theorem setWorker_self (i : Fin (n + 1)) (w : Worker) : s.setWorker i w i = w := by
  unfold setWorker
  rw [Function.update_self]

theorem setWorker_of_ne {i j : Fin (n + 1)} (hne : j ≠ i) (w : Worker) :
    s.setWorker i w j = s.workers j := by
  unfold setWorker
  rw [Function.update_of_ne hne]

/-- A worker is where it was, or it is the one that was set. -/
theorem setWorker_cases {i j : Fin (n + 1)} {w v : Worker} (h : s.setWorker i w j = v) :
    (j = i ∧ w = v) ∨ (j ≠ i ∧ s.workers j = v) := by
  by_cases hj : j = i
  · rw [hj, setWorker_self] at h
    exact .inl ⟨hj, h⟩
  · rw [setWorker_of_ne hj] at h
    exact .inr ⟨hj, h⟩

theorem handlers_setWorker (i : Fin (n + 1)) (w : Worker) (request : ServerRequest) :
    handlers (s.setWorker i w) request + (s.workers i).handled.count request =
      handlers s.workers request + w.handled.count request := by
  have hold := Finset.add_sum_erase Finset.univ (fun j => (s.workers j).handled.count request)
    (Finset.mem_univ i)
  have hnew := Finset.add_sum_erase Finset.univ (fun j => (s.setWorker i w j).handled.count request)
    (Finset.mem_univ i)
  have hothers : ∑ j ∈ Finset.univ.erase i, (s.setWorker i w j).handled.count request =
      ∑ j ∈ Finset.univ.erase i, (s.workers j).handled.count request := by
    refine Finset.sum_congr rfl fun j hj => ?_
    rw [setWorker_of_ne (Finset.ne_of_mem_erase hj)]
  rw [hothers, setWorker_self] at hnew
  unfold handlers
  omega

/-- The queue keeps the requests that were pushed and not popped, and every accepted request is with
one party: offered, waiting, handled or rejected, and then closed. -/
structure Accounts (s : ServerState n) (waiting : List ServerRequest) : Prop where
  ring : s.queue.ring.Represents waiting
  order : s.pushed = s.popped.map Prod.snd ++ waiting
  numbers : s.accepted.map ServerRequest.number = List.range s.accepted.length
  arrivals : ∀ request, s.accepted.count request =
    s.acceptor.offered.count request + s.pushed.count request + s.rejected.count request
  closings : ∀ request, s.timesTaken request =
    s.timesClosed request + s.acceptor.refused.count request + handlers s.workers request
  exited : ∀ {i}, s.workers i = .exited → s.queue.shuttingDown = true ∧ waiting = []
  absent : ∀ {i}, s.workers i = .absent → s.accepted = [] ∧ s.acceptor.MayLack i
  coming : ∀ {k i}, s.acceptor = .starting k → k ≤ i → s.workers i = .absent

theorem accounts_start (n : Nat) : (start n).Accounts [] where
  ring := RingBuffer.represents_empty (Nat.succ_pos _)
  order := rfl
  numbers := rfl
  arrivals _ := rfl
  closings request := by
    have hidle : handlers (start n).workers request = 0 := Finset.sum_const_zero
    rw [hidle]
    rfl
  exited := nofun
  absent _ := ⟨rfl, Fin.zero_le _⟩
  coming _ _ := rfl

namespace Accounts

/-- In the accept loop every worker has been created. -/
theorem created (h : s.Accounts waiting) (hloop : ∀ i, ¬ s.acceptor.MayLack i) (i : Fin (n + 1)) :
    s.workers i ≠ .absent :=
  fun hi => hloop i (h.absent hi).2

theorem createWorker (h : s.Accounts waiting) {k : Fin (n + 1)} (hk : s.acceptor = .starting k)
    (created : Bool) : (s.createWorker k created).Accounts waiting := by
  have hnew : s.workers k = .absent := h.coming hk (le_refl k)
  have harrivals := h.arrivals
  have hclosings := h.closings
  rw [hk] at harrivals hclosings
  cases created with
  | false =>
    refine ⟨h.ring, h.order, h.numbers, harrivals, hclosings, h.exited, ?_, nofun⟩
    intro i hi
    exact ⟨(h.absent hi).1, trivial⟩
  | true =>
    refine ⟨h.ring, h.order, h.numbers, ?_, ?_, ?_, ?_, ?_⟩
    · intro request
      show s.accepted.count request = (Acceptor.afterCreate k).offered.count request + _ + _
      rw [Acceptor.offered_afterCreate]
      exact harrivals request
    · intro request
      have hhandlers := s.handlers_setWorker k .waiting request
      rw [hnew] at hhandlers
      show s.timesTaken request =
          s.timesClosed request + (Acceptor.afterCreate k).refused.count request +
            handlers (s.setWorker k .waiting) request
      rw [Acceptor.refused_afterCreate, Nat.add_right_cancel hhandlers]
      exact hclosings request
    · intro i hi
      obtain ⟨-, hi⟩ | ⟨-, hi⟩ := setWorker_cases hi
      · cases hi
      · exact h.exited hi
    · intro i hi
      obtain ⟨-, hi⟩ | ⟨hne, hi⟩ := setWorker_cases hi
      · cases hi
      · have hlack := (h.absent hi).2
        rw [hk] at hlack
        exact ⟨(h.absent hi).1, Acceptor.MayLack.afterCreate hlack hne⟩
    · intro k' i hk' hi
      have hki : k < i := Fin.lt_of_lt_of_le (Acceptor.afterCreate_eq_starting hk') hi
      show s.setWorker k .waiting i = .absent
      rw [setWorker_of_ne (ne_of_gt hki)]
      exact h.coming hk (le_of_lt hki)

theorem accept (h : s.Accounts waiting) (ha : s.acceptor = .waiting) (clientFd : Nat) :
    (s.accept clientFd).Accounts waiting := by
  have harrivals := h.arrivals
  have hclosings := h.closings
  have hcreated := h.created (by rw [ha]; exact fun _ => id)
  rw [ha] at harrivals hclosings
  refine ⟨h.ring, h.order, ?_, ?_, hclosings, h.exited, fun hi => (hcreated _ hi).elim, nofun⟩
  · show (s.accepted ++ [_]).map ServerRequest.number = List.range (s.accepted ++ [_]).length
    rw [List.map_append, h.numbers, List.length_append, List.length_singleton, List.range_succ]
    rfl
  · intro request
    have hcount : s.accepted.count request =
      [].count request + s.pushed.count request + s.rejected.count request := harrivals request
    show (s.accepted ++ [_]).count request =
      [_].count request + s.pushed.count request + s.rejected.count request
    rw [List.count_append, hcount, List.count_nil]
    omega

theorem push (h : s.Accounts waiting) {request : ServerRequest}
    (ha : s.acceptor = .offering request) : ∃ waiting', (s.push request).2.Accounts waiting' := by
  have harrivals := h.arrivals
  have hclosings := h.closings
  have hcreated := h.created (by rw [ha]; exact fun _ => id)
  rw [ha] at harrivals hclosings
  unfold ServerState.push
  cases hpush : serverQueuePush s.queue request with
  | none =>
    refine ⟨waiting, h.ring, h.order, h.numbers, ?_, ?_, h.exited, fun hi => (hcreated _ hi).elim,
      nofun⟩
    · intro request'
      have hcount := harrivals request'
      show s.accepted.count request' =
        [].count request' + s.pushed.count request' + (s.rejected ++ [request]).count request'
      rw [hcount, List.count_append]
      simp only [Acceptor.offered, List.count_nil]
      omega
    · intro request'
      have hcount := hclosings request'
      show (s.popped.map Prod.snd).count request' + (s.rejected ++ [request]).count request' =
        s.timesClosed request' + [request].count request' + handlers s.workers request'
      rw [List.count_append]
      simp only [timesTaken, Acceptor.refused, List.count_nil] at hcount
      omega
  | some queue =>
    obtain ⟨hring, hopen, hopen'⟩ := serverQueuePush_eq_some h.ring hpush
    refine ⟨waiting ++ [request], hring, ?_, h.numbers, ?_, hclosings, ?_,
      fun hi => (hcreated _ hi).elim, nofun⟩
    · show s.pushed ++ [request] = s.popped.map Prod.snd ++ (waiting ++ [request])
      rw [h.order, List.append_assoc]
    · intro request'
      have hcount := harrivals request'
      show s.accepted.count request' =
        [].count request' + (s.pushed ++ [request]).count request' + s.rejected.count request'
      rw [hcount, List.count_append]
      simp only [Acceptor.offered, List.count_nil]
      omega
    · intro i hi
      have hdown := (h.exited hi).1
      rw [hopen] at hdown
      cases hdown

theorem reject (h : s.Accounts waiting) {request : ServerRequest}
    (ha : s.acceptor = .rejecting request) : (s.reject request).Accounts waiting := by
  have harrivals := h.arrivals
  have hclosings := h.closings
  have hcreated := h.created (by rw [ha]; exact fun _ => id)
  rw [ha] at harrivals hclosings
  refine ⟨h.ring, h.order, h.numbers, harrivals, ?_, h.exited, fun hi => (hcreated _ hi).elim,
    nofun⟩
  intro request'
  have hcount := hclosings request'
  show s.timesTaken request' = (s.closed ++ [request]).count request' + [].count request' +
    handlers s.workers request'
  rw [hcount, List.count_append]
  simp only [timesClosed, Acceptor.refused, List.count_nil]
  omega

theorem stop (h : s.Accounts waiting) (ha : s.acceptor = .waiting) :
    { s with acceptor := .stopped }.Accounts waiting := by
  have harrivals := h.arrivals
  have hclosings := h.closings
  rw [ha] at harrivals hclosings
  exact ⟨h.ring, h.order, h.numbers, harrivals, hclosings, h.exited,
    fun hi => ⟨(h.absent hi).1, trivial⟩, nofun⟩

theorem shutdown (h : s.Accounts waiting) :
    { s with queue := serverQueueShutdown s.queue }.Accounts waiting :=
  ⟨h.ring, h.order, h.numbers, h.arrivals, h.closings, fun hi => ⟨rfl, (h.exited hi).2⟩, h.absent,
    h.coming⟩

/-- A worker that has been created is not absent after its step. -/
theorem setWorker_absent (h : s.Accounts waiting) {i : Fin (n + 1)} {v w : Worker}
    (hi : s.workers i = v) (hv : v ≠ .absent) (hw : w ≠ .absent) :
    (∀ {j}, s.setWorker i w j = .absent → s.accepted = [] ∧ s.acceptor.MayLack j) ∧
      ∀ {k j}, s.acceptor = .starting k → k ≤ j → s.setWorker i w j = .absent := by
  constructor
  · intro j hj
    obtain ⟨-, hj⟩ | ⟨-, hj⟩ := setWorker_cases hj
    · exact (hw hj).elim
    · exact h.absent hj
  · intro k j hk hj
    have hj := h.coming hk hj
    have hne : j ≠ i := by
      rintro rfl
      exact hv (hi.symm.trans hj)
    rw [setWorker_of_ne hne]
    exact hj

theorem pop (h : s.Accounts waiting) {i : Fin (n + 1)} (hi : s.workers i = .waiting)
    {status : Status} {s' : ServerState n} (hpop : s.pop i = some (status, s')) :
    ∃ waiting', s'.Accounts waiting' := by
  unfold ServerState.pop at hpop
  obtain ⟨-, -, hqueue⟩ | ⟨rfl, hdown, hqueue⟩ | ⟨request, rest, queue, rfl, hqueue, hring, hdown⟩ :=
    serverQueuePop_cases h.ring
  · rw [hqueue] at hpop
    cases hpop
  · rw [hqueue] at hpop
    cases hpop
    obtain ⟨habsent, hcoming⟩ := h.setWorker_absent (w := .exited) hi nofun nofun
    refine ⟨[], h.ring, h.order, h.numbers, h.arrivals, ?_, fun _ => ⟨hdown, rfl⟩, habsent,
      hcoming⟩
    intro request
    have hhandlers := s.handlers_setWorker i .exited request
    rw [hi] at hhandlers
    show s.timesTaken request = s.timesClosed request + s.acceptor.refused.count request +
      handlers (s.setWorker i .exited) request
    rw [Nat.add_right_cancel hhandlers]
    exact h.closings request
  · rw [hqueue] at hpop
    cases hpop
    obtain ⟨habsent, hcoming⟩ := h.setWorker_absent (w := .handling request) hi nofun nofun
    refine ⟨rest, hring, ?_, h.numbers, h.arrivals, ?_, ?_, habsent, hcoming⟩
    · show s.pushed = (s.popped ++ [(i, request)]).map Prod.snd ++ rest
      rw [h.order, List.map_append, List.append_assoc]
      rfl
    · intro request'
      have hcount := h.closings request'
      have hhandlers := s.handlers_setWorker i (.handling request) request'
      rw [hi] at hhandlers
      show ((s.popped ++ [(i, request)]).map Prod.snd).count request' + s.rejected.count request' =
        s.timesClosed request' + s.acceptor.refused.count request' +
          handlers (s.setWorker i (.handling request)) request'
      rw [List.map_append, List.count_append]
      simp only [Worker.handled, List.count_nil, timesTaken, List.map_cons, List.map_nil]
        at hcount hhandlers ⊢
      omega
    · intro j hj
      obtain ⟨-, hj⟩ | ⟨-, hj⟩ := setWorker_cases hj
      · cases hj
      · cases (h.exited hj).2

theorem close (h : s.Accounts waiting) {i : Fin (n + 1)} {request : ServerRequest}
    (hi : s.workers i = .handling request) : (s.close i request).Accounts waiting := by
  obtain ⟨habsent, hcoming⟩ := h.setWorker_absent (w := .waiting) hi nofun nofun
  refine ⟨h.ring, h.order, h.numbers, h.arrivals, ?_, ?_, habsent, hcoming⟩
  · intro request'
    have hcount := h.closings request'
    have hhandlers := s.handlers_setWorker i .waiting request'
    rw [hi] at hhandlers
    show s.timesTaken request' = (s.closed ++ [request]).count request' +
      s.acceptor.refused.count request' + handlers (s.setWorker i .waiting) request'
    rw [List.count_append]
    simp only [Worker.handled, List.count_nil, timesClosed] at hcount hhandlers
    omega
  · intro j hj
    obtain ⟨-, hj⟩ | ⟨-, hj⟩ := setWorker_cases hj
    · cases hj
    · exact h.exited hj

end Accounts

end ServerState

namespace ServerState

variable {s s' : ServerState n} {waiting : List ServerRequest}

/-- One step keeps the books. -/
theorem Accounts.step (h : s.Accounts waiting) {action : ServerAction n} {status : Status}
    (hstep : serverStep s action = some (status, s')) : ∃ waiting', s'.Accounts waiting' := by
  cases serverStep_steps hstep with
  | createWorker created ha => exact ⟨waiting, h.createWorker ha created⟩
  | accept clientFd ha => exact ⟨waiting, h.accept ha clientFd⟩
  | push ha => exact h.push ha
  | reject ha => exact ⟨waiting, h.reject ha⟩
  | stop ha => exact ⟨waiting, h.stop ha⟩
  | shutdown => exact ⟨waiting, h.shutdown⟩
  | pop hi hpop => exact h.pop hi hpop
  | close hi => exact ⟨waiting, h.close hi⟩

theorem accounts_of_reachable (h : Machine.Reachable serverStep (start n) s) :
    ∃ waiting, s.Accounts waiting := by
  induction h with
  | start => exact ⟨[], accounts_start n⟩
  | step _ hstep ih =>
    obtain ⟨waiting, hs⟩ := ih
    exact hs.step hstep

theorem handlers_of_exited (h : ∀ i, s.workers i = .absent ∨ s.workers i = .exited)
    (request : ServerRequest) : handlers s.workers request = 0 := by
  refine Finset.sum_eq_zero fun i _ => ?_
  rcases h i with hi | hi
  · rw [hi]
    rfl
  · rw [hi]
    rfl

namespace Accounts

variable (h : s.Accounts waiting) (request : ServerRequest)
include h

/-- A request is accepted once. -/
theorem accepted_count_le : s.accepted.count request ≤ 1 := by
  have hnodup : (s.accepted.map ServerRequest.number).Nodup := by
    rw [h.numbers]
    exact List.nodup_range
  exact List.nodup_iff_count_le_one.mp hnodup.of_map request

/-- An accepted request is offered, waiting or taken. -/
theorem accepted_count : s.accepted.count request =
    s.acceptor.offered.count request + waiting.count request + s.timesTaken request := by
  have hcount := h.arrivals request
  rw [h.order, List.count_append] at hcount
  unfold timesTaken
  omega

theorem taken_le : s.timesTaken request ≤ 1 := by
  have hcount := h.accepted_count request
  have hle := h.accepted_count_le request
  omega

theorem closed_le : s.timesClosed request ≤ s.timesTaken request := by
  have hcount := h.closings request
  omega

variable {request} (hexited : ∀ i, s.workers i = .absent ∨ s.workers i = .exited)
include hexited

/-- When every worker has returned, no request waits. -/
theorem waiting_of_exited : waiting = [] := by
  rcases hexited 0 with hzero | hzero
  · have hcount := h.accepted_count
    rw [(h.absent hzero).1] at hcount
    refine List.eq_nil_iff_forall_not_mem.mpr fun request hmem => ?_
    have hpos : 0 < waiting.count request := List.count_pos_iff.mpr hmem
    have hzero := hcount request
    rw [List.count_nil] at hzero
    omega
  · exact (h.exited hzero).2

/-- When every worker has returned, a request that the accept loop is done with has been taken once
and closed once. -/
theorem settled_of_exited (hmem : request ∈ s.accepted) (hoffered : request ∉ s.acceptor.offered)
    (hrefused : request ∉ s.acceptor.refused) :
    s.timesTaken request = 1 ∧ s.timesClosed request = 1 := by
  have hpos : 0 < s.accepted.count request := List.count_pos_iff.mpr hmem
  have hle := h.accepted_count_le request
  have hcount := h.accepted_count request
  have hclosings := h.closings request
  rw [h.waiting_of_exited hexited, List.count_eq_zero.mpr hoffered, List.count_nil] at hcount
  rw [List.count_eq_zero.mpr hrefused, handlers_of_exited hexited] at hclosings
  omega

end Accounts

end ServerState

/-! ## The shutdown of `server_run` -/

namespace ServerState

variable {s s' : ServerState n} {action : ServerAction n} {status : Status}

theorem push_shuttingDown (request : ServerRequest) :
    (s.push request).2.queue.shuttingDown = s.queue.shuttingDown := by
  unfold push serverQueuePush
  cases s.queue.shuttingDown || s.queue.ring.count == SERVER_QUEUE_CAPACITY <;> rfl

theorem pop_eq_some {i : Fin (n + 1)} (h : s.pop i = some (status, s')) :
    s'.queue.shuttingDown = s.queue.shuttingDown ∧ s'.acceptor = s.acceptor := by
  unfold pop at h
  cases hpop : serverQueuePop s.queue with
  | none =>
    rw [hpop] at h
    cases h
  | some popped =>
    obtain ⟨request, queue⟩ := popped
    have hflag := serverQueuePop_shuttingDown hpop
    cases request <;> rw [hpop] at h <;> cases h <;> exact ⟨hflag, rfl⟩

/-- A step other than the shutdown leaves its flag, and the accept loop stays out once it has
stopped. -/
theorem step_cases (h : serverStep s action = some (status, s')) :
    (action = .shutdown ∨ s'.queue.shuttingDown = s.queue.shuttingDown) ∧
      (s.acceptor = .stopped → s'.acceptor = .stopped) := by
  cases serverStep_steps h with
  | createWorker created ha =>
    refine ⟨.inr (by cases created <;> rfl), ?_⟩
    rw [ha]
    exact nofun
  | accept clientFd ha =>
    refine ⟨.inr rfl, ?_⟩
    rw [ha]
    exact nofun
  | push ha =>
    refine ⟨.inr (push_shuttingDown _), ?_⟩
    rw [ha]
    exact nofun
  | reject ha =>
    refine ⟨.inr rfl, ?_⟩
    rw [ha]
    exact nofun
  | stop ha => exact ⟨.inr rfl, fun _ => rfl⟩
  | shutdown => exact ⟨.inl rfl, fun ha => ha⟩
  | pop hi hpop =>
    obtain ⟨hflag, ha⟩ := pop_eq_some hpop
    exact ⟨.inr hflag, fun hs => ha.trans hs⟩
  | close hi => exact ⟨.inr rfl, fun ha => ha⟩

/-- In `server_run` the accept loop has stopped when the shutdown begins. -/
theorem stopped_of_shuttingDown (h : Machine.Reachable serverRunStep (start n) s)
    (hdown : s.queue.shuttingDown = true) : s.acceptor = .stopped := by
  induction h with
  | start => cases hdown
  | @step s s' action status _ hstep ih =>
    unfold serverRunStep at hstep
    split at hstep
    · cases hstep
    · rename_i hlate
      obtain ⟨hflag, hstopped⟩ := step_cases hstep
      rcases hflag with rfl | hflag
      · exact hstopped (not_not.mp fun hs => hlate ⟨rfl, hs⟩)
      · exact hstopped (ih (hflag ▸ hdown))

theorem reachable_of_run (h : Machine.Reachable serverRunStep (start n) s) :
    Machine.Reachable serverStep (start n) s := by
  induction h with
  | start => exact .start
  | step _ hstep ih =>
    unfold serverRunStep at hstep
    split at hstep
    · cases hstep
    · exact .step ih hstep

/-- When every worker of `server_run` has returned, the accept loop has nothing in hand. -/
theorem stopped_of_exited (h : Machine.Reachable serverRunStep (start n) s)
    (hexited : ∀ i, s.workers i = .absent ∨ s.workers i = .exited) :
    s.accepted = [] ∨ s.acceptor = .stopped := by
  obtain ⟨waiting, hs⟩ := accounts_of_reachable (reachable_of_run h)
  rcases hexited 0 with hzero | hzero
  · exact .inl (hs.absent hzero).1
  · exact .inr (stopped_of_shuttingDown h (hs.exited hzero).1)

end ServerState

/-- In every interleaving the queue is a list of at most 32 requests: a push fails exactly when it
is full or the shutdown has begun, a pop fails exactly when it is empty and the shutdown has begun,
and the requests leave it in the order in which they came. No request is taken or closed twice. When
every worker has returned, none waits and each accepted one has been taken by one party and closed,
up to the one that the accept loop has in hand if the shutdown did not wait for it; in `server_run`
there is none. -/
theorem serverQueue_accounts {s : ServerState n}
    (h : Machine.Reachable serverStep (ServerState.start n) s) :
    ∃ waiting, s.queue.ring.Represents waiting ∧ waiting.length ≤ SERVER_QUEUE_CAPACITY ∧
      s.pushed = s.popped.map Prod.snd ++ waiting ∧
      (∀ request, serverQueuePush s.queue request = none ↔
        s.queue.shuttingDown = true ∨ waiting.length = SERVER_QUEUE_CAPACITY) ∧
      ((∃ queue, serverQueuePop s.queue = some (none, queue)) ↔
        s.queue.shuttingDown = true ∧ waiting = []) ∧
      (∀ request, s.timesClosed request ≤ s.timesTaken request ∧ s.timesTaken request ≤ 1) ∧
      ((∀ i, s.workers i = .absent ∨ s.workers i = .exited) → waiting = [] ∧
        ∀ request ∈ s.accepted,
          (request ∉ s.acceptor.offered ∧ request ∉ s.acceptor.refused) ∨
            Machine.Reachable serverRunStep (ServerState.start n) s →
          s.timesTaken request = 1 ∧ s.timesClosed request = 1) := by
  obtain ⟨waiting, hs⟩ := ServerState.accounts_of_reachable h
  refine ⟨waiting, hs.ring, hs.ring.fits, hs.order, fun _ => serverQueuePush_eq_none hs.ring,
    serverQueuePop_failure hs.ring, fun request => ⟨hs.closed_le request, hs.taken_le request⟩, ?_⟩
  intro hexited
  refine ⟨hs.waiting_of_exited hexited, ?_⟩
  intro request hmem hdone
  rcases hdone with ⟨hoffered, hrefused⟩ | hrun
  · exact hs.settled_of_exited hexited hmem hoffered hrefused
  · rcases ServerState.stopped_of_exited hrun hexited with hnone | hstopped
    · rw [hnone] at hmem
      cases hmem
    · refine hs.settled_of_exited hexited hmem ?_ ?_ <;> rw [hstopped] <;> exact nofun

/-- One worker and two connections, the second in the queue when the shutdown begins. -/
theorem serverQueue_accounts_shutdown :
    ∃ answers s, Machine.run serverRunStep (ServerState.start 0) [.createWorker true, .accept 4,
        .push, .pop 0, .accept 5, .push, .stop, .shutdown, .close 0, .pop 0, .close 0, .pop 0] =
        some (answers, s) ∧
      s.accepted = [⟨4, 0⟩, ⟨5, 1⟩] ∧
      ∀ request ∈ s.accepted, s.timesTaken request = 1 ∧ s.timesClosed request = 1 := by
  obtain ⟨answers, s, hrun, haccepted, hexited⟩ : ∃ answers s,
      Machine.run serverRunStep (ServerState.start 0) [.createWorker true, .accept 4,
        .push, .pop 0, .accept 5, .push, .stop, .shutdown, .close 0, .pop 0, .close 0, .pop 0] =
        some (answers, s) ∧
      s.accepted = [⟨4, 0⟩, ⟨5, 1⟩] ∧ ∀ i, s.workers i = .absent ∨ s.workers i = .exited :=
    ⟨_, _, rfl, rfl, by decide⟩
  have hreach := Machine.reachable_of_run hrun
  obtain ⟨waiting, -, -, -, -, -, -, hsettled⟩ :=
    serverQueue_accounts (ServerState.reachable_of_run hreach)
  obtain ⟨-, hsettled⟩ := hsettled hexited
  exact ⟨answers, s, hrun, haccepted, fun request hmem => hsettled request hmem (.inr hreach)⟩

end JungleDb
