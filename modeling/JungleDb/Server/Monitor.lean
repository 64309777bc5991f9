import JungleDb.Lib.Monitor
import JungleDb.Server.Queue

/-!
# The queue under its mutex

`server_queue_push`, `server_queue_pop` and `server_queue_shutdown` lock the mutex of the queue, wait
on `not_empty`, assign field by field, signal and unlock. Threads in any number call them, and
between any two of these steps other threads may take theirs. What the callers see is a bounded
queue whose operations are single steps, those of `serverStep`, and no waiting worker is forgotten.
-/

namespace JungleDb

open CArray Monitor

/-! ## The calls -/

inductive QueueCall
  | push (request : ServerRequest)
  | pop
  | shutdown
  deriving DecidableEq, Repr

/-- What a call returns; `server_queue_pop` SUCCESS with a request. -/
inductive QueueAnswer
  | pushed (status : Status)
  | popped (request : Option ServerRequest)
  | shutDown
  deriving DecidableEq, Repr

/-- `queue->shutting_down || queue->count == SERVER_QUEUE_CAPACITY` -/
def pushFails (queue : ServerRequestQueue) : Bool :=
  queue.shuttingDown || queue.ring.count == SERVER_QUEUE_CAPACITY

/-- `queue->count == 0 && queue->shutting_down` -/
def popFails (queue : ServerRequestQueue) : Bool :=
  queue.ring.count == 0 && queue.shuttingDown

def setRing (f : RingBuffer ServerRequest SERVER_QUEUE_CAPACITY →
    RingBuffer ServerRequest SERVER_QUEUE_CAPACITY) (queue : ServerRequestQueue) :
    ServerRequestQueue :=
  { queue with ring := f queue.ring }

/-- The three functions, assignment by assignment. -/
def queueCall : QueueCall → Call ServerRequestQueue QueueAnswer
  | .push request =>
    { ready := fun _ => true
      answer := fun queue => .pushed (if pushFails queue then .failure else .success)
      body := fun queue => if pushFails queue then [] else
        [setRing fun ring => { ring with items := wr ring.items ring.tail request },
          setRing fun ring => { ring with tail := (ring.tail + 1) % SERVER_QUEUE_CAPACITY },
          setRing fun ring => { ring with count := ring.count + 1 }]
      wake := fun queue => if pushFails queue then .none else .one }
  | .pop =>
    { ready := fun queue => !(queue.ring.count == 0 && !queue.shuttingDown)
      answer := fun queue => .popped (if popFails queue then none else some queue.ring.front)
      body := fun queue => if popFails queue then [] else
        [setRing fun ring => { ring with head := (ring.head + 1) % SERVER_QUEUE_CAPACITY },
          setRing fun ring => { ring with count := ring.count - 1 }]
      wake := fun _ => .none }
  | .shutdown =>
    { ready := fun _ => true
      answer := fun _ => .shutDown
      body := fun _ => [fun queue => { queue with shuttingDown := true }]
      wake := fun _ => .all }

/-- The calls as the single steps of `serverStep`. -/
def queueStep : QueueCall → ServerRequestQueue → Option (QueueAnswer × ServerRequestQueue)
  | .push request, queue =>
    match serverQueuePush queue request with
    | none => some (.pushed .failure, queue)
    | some queue => some (.pushed .success, queue)
  | .pop, queue => (serverQueuePop queue).map fun (request, queue) => (.popped request, queue)
  | .shutdown, queue => some (.shutDown, serverQueueShutdown queue)

/-- The assignments of a call make up its step. -/
theorem queueCall_atomic (k : QueueCall) (queue : ServerRequestQueue) :
    (queueCall k).atomic queue = queueStep k queue := by
  cases k with
  | push request =>
    have hfails : serverQueuePush queue request =
      if pushFails queue then none else some { queue with ring := queue.ring.push request } := rfl
    unfold queueStep
    simp only [hfails]
    unfold Call.atomic queueCall
    cases hpush : pushFails queue with
    | true => simp only [hpush, if_true, assigned, List.foldl_nil]
    | false =>
      simp only [hpush, Bool.false_eq_true, if_false, if_true]
      rfl
  | pop =>
    unfold queueStep serverQueuePop Call.atomic queueCall
    simp only
    cases hwait : queue.ring.count == 0 && !queue.shuttingDown with
    | true => rfl
    | false =>
      simp only [Bool.not_false, if_true, Bool.false_eq_true, if_false]
      cases hfail : popFails queue with
      | true =>
        have hfail' : (queue.ring.count == 0 && queue.shuttingDown) = true := hfail
        rw [hfail']
        rfl
      | false =>
        have hfail' : (queue.ring.count == 0 && queue.shuttingDown) = false := hfail
        rw [hfail']
        rfl
  | shutdown => rfl

/-! ## A bounded queue -/

/-- The requests that wait, the oldest first, and whether the queue is shut down. -/
structure Fifo where
  waiting : List ServerRequest
  closed : Bool

def Fifo.start : Fifo := ⟨[], false⟩

/-- What the functions of the queue are for. -/
def Fifo.step : QueueCall → Fifo → Option (QueueAnswer × Fifo)
  | .push request, queue =>
    if queue.closed ∨ queue.waiting.length = SERVER_QUEUE_CAPACITY then
      some (.pushed .failure, queue)
    else some (.pushed .success, { queue with waiting := queue.waiting ++ [request] })
  | .pop, ⟨request :: waiting, closed⟩ => some (.popped (some request), ⟨waiting, closed⟩)
  | .pop, ⟨[], true⟩ => some (.popped none, ⟨[], true⟩)
  | .pop, ⟨[], false⟩ => none
  | .shutdown, queue => some (.shutDown, { queue with closed := true })

/-- The ring keeps the requests that wait. -/
def Keeps (queue : ServerRequestQueue) (fifo : Fifo) : Prop :=
  queue.ring.Represents fifo.waiting ∧ queue.shuttingDown = fifo.closed

theorem keeps_start : Keeps serverQueueInit .start :=
  ⟨RingBuffer.represents_empty (by decide), rfl⟩

/-- The steps of the queue are those of the bounded queue. -/
theorem Keeps.step {k : QueueCall} {queue queue' : ServerRequestQueue} {fifo : Fifo}
    {out : QueueAnswer} (h : Keeps queue fifo) (hstep : queueStep k queue = some (out, queue')) :
    ∃ fifo', Fifo.step k fifo = some (out, fifo') ∧ Keeps queue' fifo' := by
  obtain ⟨waiting, closed⟩ := fifo
  obtain ⟨hring, rfl⟩ := h
  cases k with
  | push request =>
    have hnone : serverQueuePush queue request = none ↔
        queue.shuttingDown = true ∨ waiting.length = SERVER_QUEUE_CAPACITY :=
      serverQueuePush_eq_none hring
    unfold queueStep at hstep
    unfold Fifo.step
    simp only at hstep ⊢
    cases hpush : serverQueuePush queue request with
    | none =>
      rw [hpush] at hstep
      cases hstep
      rw [if_pos (hnone.mp hpush)]
      exact ⟨_, rfl, hring, rfl⟩
    | some queue'' =>
      rw [hpush] at hstep
      cases hstep
      rw [if_neg fun hfull => Option.some_ne_none _ (hpush.symm.trans (hnone.mpr hfull))]
      obtain ⟨hring', hopen, hopen'⟩ := serverQueuePush_eq_some hring hpush
      exact ⟨_, rfl, hring', hopen'.trans hopen.symm⟩
  | pop =>
    rcases serverQueuePop_cases hring with ⟨rfl, -, hpop⟩ | ⟨rfl, hdown, hpop⟩ |
      ⟨request, rest, queue'', rfl, hpop, hring', hdown⟩
    · rw [queueStep, hpop] at hstep
      cases hstep
    · rw [queueStep, hpop] at hstep
      cases hstep
      rw [hdown]
      exact ⟨_, rfl, hring, hdown⟩
    · rw [queueStep, hpop] at hstep
      cases hstep
      exact ⟨_, rfl, hring', hdown⟩
  | shutdown =>
    cases hstep
    exact ⟨_, rfl, hring, rfl⟩

/-! ## Every interleaving -/

section Interleaving

variable {ι : Type} [DecidableEq ι] {events : List (Event ι QueueCall QueueAnswer)}
  {s s' : Monitor.State ι QueueCall ServerRequestQueue QueueAnswer}

/-- The calls and returns are those of single steps of the queue. -/
theorem run_queueStep (h : Monitor.Run queueCall serverQueueInit events s) :
    Object.Run queueStep serverQueueInit events s.object := by
  have hatomic : (fun k => (queueCall k).atomic) = queueStep :=
    funext fun k => funext fun queue => queueCall_atomic k queue
  have hrun := h.atomic
  rw [hatomic] at hrun
  exact hrun

/-- And those of a bounded queue that the ring keeps. -/
theorem run_fifo (h : Monitor.Run queueCall serverQueueInit events s) :
    ∃ o : Object ι QueueCall Fifo QueueAnswer, Object.Run Fifo.step .start events o ∧
      o.view = s.object.view ∧ Keeps s.settled o.shared :=
  (run_queueStep h).refines keeps_start fun _ _ _ _ _ hkeeps hstep => hkeeps.step hstep

/-- Any threads call the three functions, and their steps interleave in any way: at most one of them
is inside the mutex, and the calls and returns are those of calls that take effect at once, as steps
of the queue and as steps of a bounded queue. -/
theorem serverQueue_atomic (h : Monitor.Run queueCall serverQueueInit events s) :
    (∀ i j, (s.phase i).Holds → (s.phase j).Holds → i = j) ∧
    (∃ o : Object ι QueueCall ServerRequestQueue QueueAnswer,
      Object.Run queueStep serverQueueInit events o ∧ ∀ i, o.view i = (s.phase i).view) ∧
    ∃ o : Object ι QueueCall Fifo QueueAnswer,
      Object.Run Fifo.step .start events o ∧ ∀ i, o.view i = (s.phase i).view := by
  refine ⟨?_, ⟨s.object, run_queueStep h, fun _ => rfl⟩, ?_⟩
  · intro i j hi hj
    have hholder := (h.exclusive i).mp hi
    rw [(h.exclusive j).mp hj] at hholder
    exact (Option.some.inj hholder).symm
  · obtain ⟨o, hfifo, hview, -⟩ := run_fifo h
    exact ⟨o, hfifo, fun i => congrFun hview i⟩

/-- A worker waits just where the queue is empty and open; only `server_queue_pop` takes from it. -/
def QueueCall.takes : QueueCall → Bool
  | pop => true
  | _ => false

theorem queueCall_accounted :
    Accounted queueCall QueueCall.takes (fun queue => queue.ring.count)
      ServerRequestQueue.shuttingDown where
  waits := by
    intro k queue
    cases k with
    | push request => exact iff_of_false Bool.false_ne_true.symm fun h => Bool.false_ne_true h.1
    | shutdown => exact iff_of_false Bool.false_ne_true.symm fun h => Bool.false_ne_true h.1
    | pop =>
      show (!(queue.ring.count == 0 && !queue.shuttingDown)) = false ↔ true = true ∧ _
      rw [Bool.not_eq_false', Bool.and_eq_true, beq_iff_eq, Bool.not_eq_true']
      exact (and_iff_right rfl).symm
  take := by
    intro k queue htakes hready hopen
    cases k with
    | push request => cases htakes
    | shutdown => cases htakes
    | pop =>
      have hcount : queue.ring.count ≠ 0 := by
        intro hzero
        have hwaits : (!(queue.ring.count == 0 && !queue.shuttingDown)) = true := hready
        rw [hzero, hopen] at hwaits
        cases hwaits
      have hfails : popFails queue = false := by
        rw [popFails, hopen, Bool.and_false]
      have hbody : assigned ((queueCall .pop).body queue) queue =
          { queue with ring := queue.ring.pop } := by
        unfold queueCall
        simp only [hfails, Bool.false_eq_true, if_false]
        rfl
      rw [hbody]
      refine ⟨hopen, ?_⟩
      show queue.ring.count - 1 + 1 ≤ queue.ring.count
      omega
  bring := by
    intro k queue htakes
    cases k with
    | shutdown => exact .inl rfl
    | pop => cases htakes
    | push request =>
      refine .inr ?_
      unfold queueCall
      cases hfails : pushFails queue with
      | true =>
        simp only [hfails, if_true]
        exact ⟨rfl, Nat.le_add_right _ _⟩
      | false =>
        simp only [hfails, Bool.false_eq_true, if_false, if_true]
        exact ⟨rfl, Nat.le_refl _⟩

theorem length_queueCall_body (k : QueueCall) (queue : ServerRequestQueue) :
    ((queueCall k).body queue).length ≤ 3 := by
  cases k with
  | push request =>
    unfold queueCall
    simp only
    split
    · exact Nat.zero_le 3
    · exact Nat.le_refl 3
  | pop =>
    unfold queueCall
    simp only
    split
    · exact Nat.zero_le 3
    · exact Nat.le_succ 2
  | shutdown => exact Nat.succ_le_succ (Nat.zero_le 2)

/-- Without new calls and without spurious wakeups the threads come to rest after a bounded number of
steps, whichever of them goes on. Then every call has returned, but for workers that sleep in
`server_queue_pop` on a queue that is empty and not shut down. -/
theorem serverQueue_rests [Fintype ι] (h : Monitor.Run queueCall serverQueueInit events s) :
    (∃ bound, ∀ n s', Rest.Steps (InnerStep queueCall) n s s' → n ≤ bound) ∧
    (∃ n s', Rest.Steps (InnerStep queueCall) n s s' ∧ Rest.Resting (InnerStep queueCall) s') ∧
    ∀ n s', Rest.Steps (InnerStep queueCall) n s s' → Rest.Resting (InnerStep queueCall) s' → ∀ i,
      s'.phase i = .outside ∨
        (s'.phase i = .sleeping .pop ∧ s'.shared.ring.Represents [] ∧
          s'.shared.shuttingDown = false) := by
  refine ⟨⟨s.cost 3, fun n s' hinner => ?_⟩, exists_resting length_queueCall_body s, ?_⟩
  · have hbound := bounded length_queueCall_body hinner
    omega
  · intro n s' hinner hrest i
    obtain ⟨more, hrun⟩ := h.inner hinner
    rcases hrun.resting queueCall_accounted hrest i with hout | ⟨k, hk, htakes, hready⟩
    · exact .inl hout
    · obtain ⟨-, hempty, hopen⟩ := (queueCall_accounted.waits k s'.shared).mp hready
      obtain ⟨fifo, -, -, hkeeps⟩ := run_fifo hrun
      rw [State.settled_free (free_of_resting hrest hrun.exclusive)] at hkeeps
      have hnil : fifo.shared.waiting = [] := by
        rw [← List.length_eq_zero_iff, ← hkeeps.1.count]
        exact hempty
      cases k with
      | pop => exact .inr ⟨hk, hnil ▸ hkeeps.1, hopen⟩
      | push request => cases htakes
      | shutdown => cases htakes

end Interleaving

/-- What a client sees of a worker that waits and of an accept loop that brings a request. -/
def handOver : List (Event (Fin 2) QueueCall QueueAnswer) :=
  [.call 0 .pop, .call 1 (.push ⟨5, 0⟩), .answer 1 (.push ⟨5, 0⟩) (.pushed .success)]

/-- The worker has been woken and has not yet the mutex. -/
theorem run_handOver : ∃ s : Monitor.State (Fin 2) QueueCall ServerRequestQueue QueueAnswer,
    Monitor.Run queueCall serverQueueInit handOver s ∧ s.phase 0 = .woken .pop ∧
      s.phase 1 = .outside := by
  have hstart : Monitor.Run queueCall serverQueueInit []
    (.start serverQueueInit : Monitor.State (Fin 2) _ _ _) := .start
  have hasleep := ((hstart.step (.enter (i := 0) .pop rfl)).step (.lock (i := 0) rfl (.inl rfl))).step
    (.wait (i := 0) rfl rfl)
  have hpassed := ((hasleep.step (.enter (i := 1) (.push ⟨5, 0⟩) rfl)).step
    (.lock (i := 1) rfl (.inl rfl))).step (.pass (i := 1) rfl rfl)
  have hassigned := ((hpassed.step (.assign (i := 1) rfl)).step (.assign (i := 1) rfl)).step
    (.assign (i := 1) rfl)
  have hdone := (hassigned.step (.signal (i := 1) (j := 0) rfl rfl)).step (.unlock (i := 1) rfl)
  exact ⟨_, hdone, rfl, rfl⟩

theorem serverQueue_atomic_handOver :
    ∃ o : Object (Fin 2) QueueCall Fifo QueueAnswer, Object.Run Fifo.step .start handOver o ∧
      o.view 0 = .called .pop ∧ o.view 1 = .outside := by
  obtain ⟨s, hrun, hworker, hloop⟩ := run_handOver
  obtain ⟨-, -, o, hfifo, hview⟩ := serverQueue_atomic hrun
  refine ⟨o, hfifo, ?_, ?_⟩
  · rw [hview, hworker]
    rfl
  · rw [hview, hloop]
    rfl

/-- Left alone, the two come to rest. -/
theorem serverQueue_rests_handOver :
    ∃ n, ∃ s s' : Monitor.State (Fin 2) QueueCall ServerRequestQueue QueueAnswer,
      s.phase 0 = .woken .pop ∧ Rest.Steps (InnerStep queueCall) n s s' ∧
      Rest.Resting (InnerStep queueCall) s' ∧ ∀ i,
        s'.phase i = .outside ∨ (s'.phase i = .sleeping .pop ∧ s'.shared.ring.Represents [] ∧
          s'.shared.shuttingDown = false) := by
  obtain ⟨s, hrun, hworker, -⟩ := run_handOver
  obtain ⟨-, ⟨n, s', hinner, hrest⟩, hall⟩ := serverQueue_rests hrun
  exact ⟨n, s, s', hworker, hinner, hrest, hall n s' hinner hrest⟩

end JungleDb
