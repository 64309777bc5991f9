import Mathlib.Algebra.Order.BigOperators.Group.Finset
import Mathlib.Data.Fintype.BigOperators
import Mathlib.Logic.Function.Basic
import JungleDb.Lib.Rest

/-!
# Monitors

Threads call operations on one state under a mutex with one condition variable. A call takes the
mutex, sleeps on the condition as long as its test fails, makes its assignments one by one, wakes one
sleeper, all of them or none, and gives the mutex back. A sleeper may also wake for no reason, and
between its wakeup and its return other threads may take the mutex.

Every run has the calls and returns of a run in which each call takes effect at once. If a test only
fails where nothing is to be taken, each call that brings something wakes a sleeper, and one that
closes the monitor wakes all, then no wakeup is lost: left alone the threads come to rest in
a bounded number of steps, and then no thread sleeps whose test holds.
-/

namespace Monitor

open Rest

/-- Which sleepers a call wakes. -/
inductive Wake
  | none
  | one
  | all
  deriving DecidableEq, Repr

/-- An operation: it waits until `ready`; what it answers, assigns and wakes is settled by then. -/
structure Call (σ ο : Type) where
  ready : σ → Bool
  answer : σ → ο
  body : σ → List (σ → σ)
  wake : σ → Wake

variable {ι κ σ ο : Type}

/-- The state behind assignments. -/
def assigned (assignments : List (σ → σ)) (shared : σ) : σ :=
  assignments.foldl (fun shared f => f shared) shared

/-- The call in one step, if it need not wait. -/
def Call.atomic (c : Call σ ο) (shared : σ) : Option (ο × σ) :=
  if c.ready shared then some (c.answer shared, assigned (c.body shared) shared) else none

/-- Where a thread is: outside of any call, before it has the mutex, at the test, asleep, woken and
without the mutex, before the rest of its assignments and its wakeup, or before it gives the mutex
back. -/
inductive Phase (κ σ ο : Type)
  | outside
  | entering (k : κ)
  | testing (k : κ)
  | sleeping (k : κ)
  | woken (k : κ)
  | running (k : κ) (rest : List (σ → σ)) (wake : Wake) (out : ο)
  | leaving (k : κ) (out : ο)

/-- What is seen of a thread from outside: its call may have taken effect or not. -/
inductive View (κ ο : Type)
  | outside
  | called (k : κ)
  | answered (k : κ) (out : ο)

namespace Phase

/-- The thread has the mutex. -/
def Holds : Phase κ σ ο → Prop
  | testing _ => True
  | running _ _ _ _ => True
  | leaving _ _ => True
  | _ => False

/-- The thread is in `cond_wait` and has not been woken. -/
def Sleeps : Phase κ σ ο → Prop
  | sleeping _ => True
  | _ => False

/-- The assignments still to be made. -/
def rest : Phase κ σ ο → List (σ → σ)
  | running _ rest _ _ => rest
  | _ => []

def view : Phase κ σ ο → View κ ο
  | outside => .outside
  | entering k => .called k
  | testing k => .called k
  | sleeping k => .called k
  | woken k => .called k
  | running k _ _ out => .answered k out
  | leaving k out => .answered k out

/-- The phase of a sleeper behind its wakeup. -/
def roused : Phase κ σ ο → Phase κ σ ο
  | sleeping k => woken k
  | p => p

theorem view_roused (p : Phase κ σ ο) : p.roused.view = p.view := by
  cases p <;> rfl

theorem rest_roused (p : Phase κ σ ο) : p.roused.rest = p.rest := by
  cases p <;> rfl

theorem holds_roused {p : Phase κ σ ο} : p.roused.Holds ↔ p.Holds := by
  cases p <;> exact Iff.rfl

theorem not_sleeps_roused (p : Phase κ σ ο) : ¬ p.roused.Sleeps := by
  cases p <;> exact not_false

end Phase

structure State (ι κ σ ο : Type) where
  shared : σ
  holder : Option ι
  phase : ι → Phase κ σ ο

/-- No thread is in a call. -/
def State.start (shared : σ) : State ι κ σ ο := ⟨shared, none, fun _ => .outside⟩

/-- A call begins, a thread that is in one goes on, a call returns, or a sleeper wakes for no
reason. -/
inductive Action (ι κ ο : Type)
  | enter (i : ι) (k : κ)
  | turn (i : ι)
  | leave (i : ι) (k : κ) (out : ο)
  | spurious (i : ι)

/-- What a client sees of the steps. -/
inductive Event (ι κ ο : Type)
  | call (i : ι) (k : κ)
  | answer (i : ι) (k : κ) (out : ο)

def Action.events : Action ι κ ο → List (Event ι κ ο)
  | enter i k => [.call i k]
  | leave i k out => [.answer i k out]
  | _ => []

/-- The threads take the step by themselves. -/
def Action.Inner : Action ι κ ο → Prop
  | turn _ => True
  | leave _ _ _ => True
  | _ => False

namespace State

variable [DecidableEq ι]

def goto (s : State ι κ σ ο) (i : ι) (p : Phase κ σ ο) : State ι κ σ ο :=
  { s with phase := Function.update s.phase i p }

def give (s : State ι κ σ ο) (holder : Option ι) : State ι κ σ ο := { s with holder := holder }

def store (s : State ι κ σ ο) (shared : σ) : State ι κ σ ο := { s with shared := shared }

/-- All sleepers are woken. -/
def rouse (s : State ι κ σ ο) : State ι κ σ ο := { s with phase := fun i => (s.phase i).roused }

end State

/-- The steps. -/
inductive Step [DecidableEq ι] (calls : κ → Call σ ο) (s : State ι κ σ ο) :
    Action ι κ ο → State ι κ σ ο → Prop
  | enter {i : ι} (k : κ) : s.phase i = .outside → Step calls s (.enter i k) (s.goto i (.entering k))
  | lock {i : ι} {k : κ} : s.holder = none → s.phase i = .entering k ∨ s.phase i = .woken k →
    Step calls s (.turn i) ((s.goto i (.testing k)).give (some i))
  | pass {i : ι} {k : κ} : s.phase i = .testing k → (calls k).ready s.shared = true →
    Step calls s (.turn i) (s.goto i (.running k ((calls k).body s.shared)
      ((calls k).wake s.shared) ((calls k).answer s.shared)))
  | wait {i : ι} {k : κ} : s.phase i = .testing k → (calls k).ready s.shared = false →
    Step calls s (.turn i) ((s.goto i (.sleeping k)).give none)
  | assign {i : ι} {k : κ} {f : σ → σ} {rest : List (σ → σ)} {wake : Wake} {out : ο} :
    s.phase i = .running k (f :: rest) wake out →
    Step calls s (.turn i) ((s.goto i (.running k rest wake out)).store (f s.shared))
  | wakeNone {i : ι} {k : κ} {out : ο} : s.phase i = .running k [] .none out →
    Step calls s (.turn i) (s.goto i (.leaving k out))
  | signal {i j : ι} {k k' : κ} {out : ο} : s.phase i = .running k [] .one out →
    s.phase j = .sleeping k' →
    Step calls s (.turn i) ((s.goto j (.woken k')).goto i (.leaving k out))
  | signalNobody {i : ι} {k : κ} {out : ο} : s.phase i = .running k [] .one out →
    (∀ j, ¬ (s.phase j).Sleeps) → Step calls s (.turn i) (s.goto i (.leaving k out))
  | broadcast {i : ι} {k : κ} {out : ο} : s.phase i = .running k [] .all out →
    Step calls s (.turn i) (s.rouse.goto i (.leaving k out))
  | unlock {i : ι} {k : κ} {out : ο} : s.phase i = .leaving k out →
    Step calls s (.leave i k out) ((s.goto i .outside).give none)
  | spurious {i : ι} {k : κ} : s.phase i = .sleeping k →
    Step calls s (.spurious i) (s.goto i (.woken k))

/-- The runs from a state without calls, with what a client sees. -/
inductive Run [DecidableEq ι] (calls : κ → Call σ ο) (shared : σ) :
    List (Event ι κ ο) → State ι κ σ ο → Prop
  | start : Run calls shared [] (.start shared)
  | step {events : List (Event ι κ ο)} {s s' : State ι κ σ ο} {a : Action ι κ ο} :
    Run calls shared events s → Step calls s a s' → Run calls shared (events ++ a.events) s'

variable [DecidableEq ι] {calls : κ → Call σ ο} {s s' : State ι κ σ ο} {a : Action ι κ ο} {i j : ι}
  {p : Phase κ σ ο} {events : List (Event ι κ ο)} {shared : σ}

namespace State

theorem phase_goto_self : (s.goto i p).phase i = p := Function.update_self ..

theorem phase_goto_ne (h : j ≠ i) : (s.goto i p).phase j = s.phase j := Function.update_of_ne h ..

/-- What does not change for the thread itself changes for no thread. -/
theorem goto_forall {P : Phase κ σ ο → Phase κ σ ο → Prop} (hrefl : ∀ q, P q q)
    (h : P (s.phase i) p) (j : ι) : P (s.phase j) ((s.goto i p).phase j) := by
  by_cases hj : j = i
  · rw [hj, phase_goto_self]
    exact h
  · rw [phase_goto_ne hj]
    exact hrefl _

end State

open State

/-! ## Mutual exclusion -/

/-- Just the holder of the mutex is behind its lock. -/
def Exclusive (s : State ι κ σ ο) : Prop := ∀ i, (s.phase i).Holds ↔ s.holder = some i

namespace Exclusive

theorem goto (h : Exclusive s) (hp : p.Holds ↔ (s.phase i).Holds) : Exclusive (s.goto i p) := by
  intro j
  have hj : (s.phase j).Holds ↔ ((s.goto i p).phase j).Holds :=
    goto_forall (P := fun q q' => q.Holds ↔ q'.Holds) (fun _ => Iff.rfl) hp.symm j
  rw [← hj]
  exact h j

theorem acquire (h : Exclusive s) (hfree : s.holder = none) (hp : p.Holds) :
    Exclusive ((s.goto i p).give (some i)) := by
  intro j
  show ((s.goto i p).phase j).Holds ↔ some i = some j
  by_cases hj : j = i
  · rw [hj, phase_goto_self]
    exact iff_of_true hp rfl
  · rw [phase_goto_ne hj, h j, hfree]
    exact iff_of_false (Option.some_ne_none j).symm fun heq => hj (Option.some.inj heq).symm

theorem release (h : Exclusive s) (hi : (s.phase i).Holds) (hp : ¬ p.Holds) :
    Exclusive ((s.goto i p).give none) := by
  intro j
  show ((s.goto i p).phase j).Holds ↔ none = some j
  refine iff_of_false ?_ (Option.some_ne_none j).symm
  by_cases hj : j = i
  · rw [hj, phase_goto_self]
    exact hp
  · rw [phase_goto_ne hj, h j, (h i).mp hi]
    exact fun heq => hj (Option.some.inj heq).symm

theorem step (h : Exclusive s) (hstep : Step calls s a s') : Exclusive s' := by
  cases hstep with
  | enter k hi => exact h.goto (by rw [hi]; exact Iff.rfl)
  | lock hfree _ => exact h.acquire hfree trivial
  | pass hi _ => exact h.goto (by rw [hi]; exact Iff.rfl)
  | wait hi _ => exact h.release (by rw [hi]; trivial) not_false
  | @assign i k f rest wake out hi =>
    exact h.goto (p := .running k rest wake out) (by rw [hi]; exact Iff.rfl)
  | wakeNone hi => exact h.goto (by rw [hi]; exact Iff.rfl)
  | @signal i j k k' out hi hj =>
    have hne : i ≠ j := by
      rintro rfl
      rw [hi] at hj
      cases hj
    have hwoken : Exclusive (s.goto j (.woken k')) := h.goto (by rw [hj]; exact Iff.rfl)
    exact hwoken.goto (by rw [phase_goto_ne hne, hi]; exact Iff.rfl)
  | signalNobody hi _ => exact h.goto (by rw [hi]; exact Iff.rfl)
  | @broadcast i k out hi =>
    have hrouse : Exclusive s.rouse := fun j => Phase.holds_roused.trans (h j)
    refine hrouse.goto ?_
    show Phase.Holds (.leaving k out) ↔ (s.phase i).roused.Holds
    rw [hi]
    exact Iff.rfl
  | unlock hi => exact h.release (by rw [hi]; trivial) not_false
  | spurious hi => exact h.goto (by rw [hi]; exact Iff.rfl)

end Exclusive

/-- In every run at most one thread is between its lock and its unlock. -/
theorem Run.exclusive (h : Run calls shared events s) : Exclusive s := by
  induction h with
  | start => exact fun i => iff_of_false not_false (Option.some_ne_none i).symm
  | step _ hstep ih => exact ih.step hstep

/-! ## Calls that take effect at once -/

/-- A state and what is seen of the threads. -/
structure Object (ι κ σ ο : Type) where
  shared : σ
  view : ι → View κ ο

def Object.start (shared : σ) : Object ι κ σ ο := ⟨shared, fun _ => .outside⟩

def Object.goto (o : Object ι κ σ ο) (i : ι) (v : View κ ο) : Object ι κ σ ο :=
  { o with view := Function.update o.view i v }

/-- A call takes effect in one step between its beginning and its return. -/
inductive Object.Step (atomic : κ → σ → Option (ο × σ)) (o : Object ι κ σ ο) :
    List (Event ι κ ο) → Object ι κ σ ο → Prop
  | call {i : ι} (k : κ) : o.view i = .outside → Step atomic o [.call i k] (o.goto i (.called k))
  | apply {i : ι} {k : κ} {out : ο} {shared : σ} : o.view i = .called k →
    atomic k o.shared = some (out, shared) →
    Step atomic o [] { o.goto i (.answered k out) with shared := shared }
  | answer {i : ι} {k : κ} {out : ο} : o.view i = .answered k out →
    Step atomic o [.answer i k out] (o.goto i .outside)

inductive Object.Run (atomic : κ → σ → Option (ο × σ)) (shared : σ) :
    List (Event ι κ ο) → Object ι κ σ ο → Prop
  | start : Run atomic shared [] (.start shared)
  | step {events more : List (Event ι κ ο)} {o o' : Object ι κ σ ο} :
    Run atomic shared events o → Step atomic o more o' → Run atomic shared (events ++ more) o'

/-- Calls that follow a specification, state by state, have its answers in every run. -/
theorem Object.Run.refines {α : Type} {atomic : κ → σ → Option (ο × σ)}
    {spec : κ → α → Option (ο × α)} {R : σ → α → Prop} {abstract : α} {o : Object ι κ σ ο}
    (hstart : R shared abstract)
    (hstep : ∀ k s t out s', R s t → atomic k s = some (out, s') →
      ∃ t', spec k t = some (out, t') ∧ R s' t')
    (h : Object.Run atomic shared events o) :
    ∃ o' : Object ι κ α ο, Object.Run spec abstract events o' ∧ o'.view = o.view ∧
      R o.shared o'.shared := by
  induction h with
  | start => exact ⟨_, .start, rfl, hstart⟩
  | @step events more o o'' _ hmore ih =>
    obtain ⟨⟨t, view⟩, hrun, hview, hR⟩ := ih
    obtain rfl : view = o.view := hview
    cases hmore with
    | call k hi => exact ⟨_, hrun.step (.call k hi), rfl, hR⟩
    | apply hi happly =>
      obtain ⟨t', hspec, hR'⟩ := hstep _ _ _ _ _ hR happly
      exact ⟨_, hrun.step (.apply hi hspec), rfl, hR'⟩
    | answer hi => exact ⟨_, hrun.step (.answer hi), rfl, hR⟩

/-- The state behind the assignments that the holder has still to make. -/
def State.settled (s : State ι κ σ ο) : σ :=
  match s.holder with
  | none => s.shared
  | some i => assigned (s.phase i).rest s.shared

/-- The threads seen from outside, with the calls under way completed. -/
def State.object (s : State ι κ σ ο) : Object ι κ σ ο := ⟨s.settled, fun i => (s.phase i).view⟩

theorem view_goto (s : State ι κ σ ο) (i : ι) (p : Phase κ σ ο) :
    (fun j => ((s.goto i p).phase j).view) =
      Function.update (fun j => (s.phase j).view) i p.view :=
  Function.comp_update Phase.view s.phase i p

theorem view_goto_same (h : p.view = (s.phase i).view) :
    (fun j => ((s.goto i p).phase j).view) = fun j => (s.phase j).view := by
  rw [view_goto, h]
  exact Function.update_eq_self i _

namespace State

omit [DecidableEq ι] in
theorem settled_free (h : s.holder = none) : s.settled = s.shared := by
  rw [settled, h]

omit [DecidableEq ι] in
theorem settled_held (h : s.holder = some i) : s.settled = assigned (s.phase i).rest s.shared := by
  rw [settled, h]

/-- Of a thread that has as much to assign as before. -/
theorem settled_goto (h : p.rest = (s.phase i).rest) : (s.goto i p).settled = s.settled := by
  show (match s.holder with
    | none => s.shared
    | some j => assigned ((s.goto i p).phase j).rest s.shared) = s.settled
  cases hholder : s.holder with
  | none => exact (settled_free hholder).symm
  | some j =>
    rw [settled_held hholder]
    have hrest := goto_forall (P := fun q q' => q'.rest = q.rest) (fun _ => rfl) h j
    simp only [hrest]

omit [DecidableEq ι] in
theorem settled_rouse : s.rouse.settled = s.settled := by
  show (match s.holder with
    | none => s.shared
    | some j => assigned (s.phase j).roused.rest s.shared) = s.settled
  cases hholder : s.holder with
  | none => exact (settled_free hholder).symm
  | some j =>
    rw [settled_held hholder]
    simp only [Phase.rest_roused]

end State

/-- Each step completes a call, begins or ends one, or is not seen. -/
theorem Step.object (h : Exclusive s) (hstep : Step calls s a s') :
    (s'.object = s.object ∧ a.events = []) ∨
      Object.Step (fun k => (calls k).atomic) s.object a.events s'.object := by
  -- a step that is not seen changes neither the views nor the settled state
  have hidden : ∀ {t : State ι κ σ ο}, t.settled = s.settled →
      (fun j => (t.phase j).view) = (fun j => (s.phase j).view) → t.object = s.object := by
    intro t hsettled hview
    rw [State.object, State.object, hsettled, hview]
  cases hstep with
  | @enter i k hi =>
    have hcall : Object.Step (fun k => (calls k).atomic) s.object [.call i k]
        (s.object.goto i (.called k)) := .call k (congrArg Phase.view hi)
    have heq : (s.goto i (.entering k)).object = s.object.goto i (.called k) := by
      rw [State.object, settled_goto (by rw [hi]; rfl), view_goto]
      rfl
    exact .inr (heq ▸ hcall)
  | @lock i k hfree hi =>
    refine .inl ⟨hidden ?_ ?_, rfl⟩
    · rw [settled_free hfree, settled_held (i := i) rfl]
      show assigned ((s.goto i (.testing k)).phase i).rest s.shared = s.shared
      rw [phase_goto_self]
      rfl
    · refine view_goto_same ?_
      rcases hi with hi | hi
      · rw [hi]
        rfl
      · rw [hi]
        rfl
  | @pass i k hi hready =>
    have hholder := (h i).mp (by rw [hi]; trivial)
    have hsettled : s.settled = s.shared := by
      rw [settled_held hholder, hi]
      rfl
    have hatomic : (calls k).atomic s.object.shared =
        some ((calls k).answer s.shared, assigned ((calls k).body s.shared) s.shared) := by
      show (calls k).atomic s.settled = _
      rw [hsettled, Call.atomic, if_pos hready]
    have happly : Object.Step (fun k => (calls k).atomic) s.object []
        { s.object.goto i (.answered k ((calls k).answer s.shared)) with
          shared := assigned ((calls k).body s.shared) s.shared } :=
      .apply (congrArg Phase.view hi) hatomic
    generalize hp : Phase.running k ((calls k).body s.shared) ((calls k).wake s.shared)
      ((calls k).answer s.shared) = p
    have hthen : (s.goto i p).settled = assigned ((calls k).body s.shared) s.shared := by
      have hstill : (s.goto i p).holder = some i := hholder
      rw [settled_held hstill, phase_goto_self, ← hp]
      rfl
    have heq : (s.goto i p).object = { s.object.goto i (.answered k ((calls k).answer s.shared)) with
        shared := assigned ((calls k).body s.shared) s.shared } := by
      rw [State.object, view_goto, hthen, ← hp]
      rfl
    exact .inr (heq ▸ happly)
  | @wait i k hi _ =>
    have hholder := (h i).mp (by rw [hi]; trivial)
    refine .inl ⟨hidden ?_ (view_goto_same (by rw [hi]; rfl)), rfl⟩
    rw [settled_free rfl, settled_held hholder, hi]
    rfl
  | @assign i k f rest wake out hi =>
    have hholder := (h i).mp (by rw [hi]; trivial)
    refine .inl ⟨hidden ?_ (view_goto_same (by rw [hi]; rfl)), rfl⟩
    have hstill : ((s.goto i (.running k rest wake out)).store (f s.shared)).holder = some i := hholder
    rw [settled_held hstill, settled_held hholder, hi]
    show assigned ((s.goto i (.running k rest wake out)).phase i).rest (f s.shared) = _
    rw [phase_goto_self]
    rfl
  | @wakeNone i k out hi =>
    exact .inl ⟨hidden (settled_goto (by rw [hi]; rfl)) (view_goto_same (by rw [hi]; rfl)), rfl⟩
  | @signal i j k k' out hi hj =>
    have hne : i ≠ j := by
      rintro rfl
      rw [hi] at hj
      cases hj
    refine .inl ⟨hidden ?_ ?_, rfl⟩
    · rw [settled_goto (by rw [phase_goto_ne hne, hi]; rfl), settled_goto (by rw [hj]; rfl)]
    · rw [view_goto_same (by rw [phase_goto_ne hne, hi]; rfl),
        view_goto_same (by rw [hj]; rfl)]
  | @signalNobody i k out hi _ =>
    exact .inl ⟨hidden (settled_goto (by rw [hi]; rfl)) (view_goto_same (by rw [hi]; rfl)), rfl⟩
  | @broadcast i k out hi =>
    have hroused : s.rouse.phase i = .running k [] .all out := by
      show (s.phase i).roused = _
      rw [hi]
      rfl
    refine .inl ⟨hidden ?_ ?_, rfl⟩
    · rw [settled_goto (by rw [hroused]; rfl), settled_rouse]
    · rw [view_goto_same (by rw [hroused]; rfl)]
      exact funext fun j => Phase.view_roused _
  | @unlock i k out hi =>
    have hholder := (h i).mp (by rw [hi]; trivial)
    have hanswer : Object.Step (fun k => (calls k).atomic) s.object [.answer i k out]
        (s.object.goto i .outside) := .answer (congrArg Phase.view hi)
    have heq : ((s.goto i .outside).give none).object = s.object.goto i .outside := by
      have hview := view_goto s i .outside
      rw [State.object, settled_free rfl]
      show (⟨s.shared, fun j => ((s.goto i .outside).phase j).view⟩ : Object ι κ σ ο) = _
      rw [hview]
      show _ = (⟨s.settled, _⟩ : Object ι κ σ ο)
      rw [settled_held hholder, hi]
      rfl
    exact .inr (heq ▸ hanswer)
  | @spurious i k hi =>
    exact .inl ⟨hidden (settled_goto (by rw [hi]; rfl)) (view_goto_same (by rw [hi]; rfl)), rfl⟩

/-- Every run has the calls and answers of one in which each call takes effect at once. -/
theorem Run.atomic (h : Run calls shared events s) :
    Object.Run (fun k => (calls k).atomic) shared events s.object := by
  induction h with
  | start => exact .start
  | @step events s s' a hrun hstep ih =>
    rcases hstep.object hrun.exclusive with ⟨heq, hnone⟩ | hobject
    · rw [heq, hnone, List.append_nil]
      exact ih
    · exact ih.step hobject

/-! ## No wakeup is lost -/

/-- The calls that take wait just where nothing is to be taken and the monitor is open. Each of them
takes something; another call brings at most one thing and then wakes a sleeper, or wakes all. -/
structure Accounted (calls : κ → Call σ ο) (takes : κ → Bool) (credit : σ → Nat)
    (closed : σ → Bool) : Prop where
  waits : ∀ k s, (calls k).ready s = false ↔ takes k = true ∧ credit s = 0 ∧ closed s = false
  take : ∀ k s, takes k = true → (calls k).ready s = true → closed s = false →
    closed (assigned ((calls k).body s) s) = false ∧
      credit (assigned ((calls k).body s) s) + 1 ≤ credit s
  bring : ∀ k s, takes k = false → (calls k).wake s = .all ∨
    (closed (assigned ((calls k).body s) s) = closed s ∧
      credit (assigned ((calls k).body s) s) ≤
        credit s + if (calls k).wake s = .one then 1 else 0)

/-- What a thread can still be counted on for: to take a thing, or to wake a sleeper that does. -/
def Phase.due (takes : κ → Bool) : Phase κ σ ο → Nat
  | entering k => if takes k then 1 else 0
  | testing k => if takes k then 1 else 0
  | woken k => if takes k then 1 else 0
  | running _ _ wake _ => if wake = .one then 1 else 0
  | _ => 0

variable [Fintype ι] {takes : κ → Bool} {credit : σ → Nat} {closed : σ → Bool}

/-- A sum over the threads when one of them goes on. -/
theorem sum_goto (f : Phase κ σ ο → Nat) (s : State ι κ σ ο) (i : ι) (p : Phase κ σ ο) :
    ∑ j, f ((s.goto i p).phase j) + f (s.phase i) = ∑ j, f (s.phase j) + f p := by
  have hothers : ∀ j ∈ Finset.univ.erase i, f ((s.goto i p).phase j) = f (s.phase j) := by
    intro j hj
    rw [phase_goto_ne (Finset.ne_of_mem_erase hj)]
  rw [← Finset.add_sum_erase _ _ (Finset.mem_univ i),
    ← Finset.add_sum_erase _ (fun j => f (s.phase j)) (Finset.mem_univ i),
    Finset.sum_congr rfl hothers, phase_goto_self]
  omega

/-- While a thread sleeps, all sleepers are about to be woken, or the monitor is open and for each
thing to be taken there is a thread that takes it or wakes one that does. -/
structure Awake (takes : κ → Bool) (credit : σ → Nat) (closed : σ → Bool) (s : State ι κ σ ο) :
    Prop where
  sleepers : ∀ i k, s.phase i = .sleeping k → takes k = true
  owed : (∃ i, (s.phase i).Sleeps) → (∃ i k rest out, s.phase i = .running k rest .all out) ∨
    (closed s.settled = false ∧ credit s.settled ≤ ∑ i, (s.phase i).due takes)

namespace Awake

/-- A thread goes on that does not fall asleep, and what is settled stays. -/
theorem goto (h : Awake takes credit closed s) {t : State ι κ σ ο}
    (hphase : t.phase = (s.goto i p).phase) (hsettled : t.settled = s.settled)
    (hsleeps : ¬ p.Sleeps) (hdue : (s.phase i).due takes ≤ p.due takes)
    (hall : ∀ k rest out, s.phase i = .running k rest .all out → ∃ k' rest' out',
      p = .running k' rest' .all out') : Awake takes credit closed t where
  sleepers := by
    intro j k hj
    rw [hphase] at hj
    by_cases heq : j = i
    · rw [heq, phase_goto_self] at hj
      exact absurd (hj ▸ trivial) hsleeps
    · rw [phase_goto_ne heq] at hj
      exact h.sleepers j k hj
  owed := by
    rintro ⟨j, hj⟩
    have hslept : ∃ j, (s.phase j).Sleeps := by
      rw [hphase] at hj
      by_cases heq : j = i
      · rw [heq, phase_goto_self] at hj
        exact absurd hj hsleeps
      · rw [phase_goto_ne heq] at hj
        exact ⟨j, hj⟩
    rw [hphase, hsettled]
    rcases h.owed hslept with ⟨l, k, rest, out, hl⟩ | ⟨hopen, hcredit⟩
    · by_cases heq : l = i
      · obtain ⟨k', rest', out', hp⟩ := hall k rest out (heq ▸ hl)
        exact .inl ⟨i, k', rest', out', phase_goto_self.trans hp⟩
      · exact .inl ⟨l, k, rest, out, (phase_goto_ne heq).trans hl⟩
    · have hsum := sum_goto (Phase.due takes) s i p
      exact .inr ⟨hopen, by omega⟩

omit [DecidableEq ι] in
/-- No thread sleeps. -/
theorem of_awake (h : ∀ i, ¬ (s.phase i).Sleeps) : Awake takes credit closed s where
  sleepers := fun i _ hi => absurd (hi ▸ trivial) (h i)
  owed := fun ⟨i, hi⟩ => absurd hi (h i)

/-- A call is passed: what is due for it is at hand. -/
theorem pass (hcalls : Accounted calls takes credit closed) (hexcl : Exclusive s)
    (h : Awake takes credit closed s) {k : κ} (hi : s.phase i = .testing k)
    (hready : (calls k).ready s.shared = true) :
    Awake takes credit closed (s.goto i (.running k ((calls k).body s.shared)
      ((calls k).wake s.shared) ((calls k).answer s.shared))) := by
  have hholder := (hexcl i).mp (by rw [hi]; trivial)
  have hsettled : s.settled = s.shared := by
    rw [settled_held hholder, hi]
    rfl
  generalize hp : Phase.running k ((calls k).body s.shared) ((calls k).wake s.shared)
    ((calls k).answer s.shared) = p
  have hthen : (s.goto i p).settled = assigned ((calls k).body s.shared) s.shared := by
    have hstill : (s.goto i p).holder = some i := hholder
    rw [settled_held hstill, phase_goto_self, ← hp]
    rfl
  have hother : ∀ j, j ≠ i → (s.goto i p).phase j = s.phase j := fun j hj => phase_goto_ne hj
  constructor
  · intro j k' hj
    by_cases heq : j = i
    · rw [heq, phase_goto_self, ← hp] at hj
      cases hj
    · rw [hother j heq] at hj
      exact h.sleepers j k' hj
  · rintro ⟨j, hj⟩
    have hne : j ≠ i := by
      rintro rfl
      rw [phase_goto_self, ← hp] at hj
      exact hj
    rw [hother j hne] at hj
    rcases h.owed ⟨j, hj⟩ with ⟨l, k', rest, out, hl⟩ | ⟨hopen, hcredit⟩
    · -- the one that is about to wake all would have the mutex
      have hlholder := (hexcl l).mp (by rw [hl]; trivial)
      rw [hholder] at hlholder
      rw [← Option.some.inj hlholder, hi] at hl
      cases hl
    · rw [hsettled] at hopen hcredit
      have hsum := sum_goto (Phase.due takes) s i p
      have hbefore : (s.phase i).due takes = if takes k then 1 else 0 := by
        rw [hi]
        rfl
      have hafter : p.due takes = if (calls k).wake s.shared = .one then 1 else 0 := by
        rw [← hp]
        rfl
      rw [hbefore, hafter] at hsum
      rw [hthen]
      cases htakes : takes k with
      | true =>
        obtain ⟨hopen', hless⟩ := hcalls.take k s.shared htakes hready hopen
        rw [if_pos htakes] at hsum
        exact .inr ⟨hopen', by omega⟩
      | false =>
        rw [if_neg (by rw [htakes]; exact Bool.false_ne_true)] at hsum
        rcases hcalls.bring k s.shared htakes with hall | ⟨hsame, hmore⟩
        · exact .inl ⟨i, k, (calls k).body s.shared, (calls k).answer s.shared, by
            rw [phase_goto_self, ← hp, hall]⟩
        · exact .inr ⟨hsame.trans hopen, by omega⟩

theorem wait (hcalls : Accounted calls takes credit closed)
    (h : Awake takes credit closed s) {k : κ} (hready : (calls k).ready s.shared = false) :
    Awake takes credit closed ((s.goto i (.sleeping k)).give none) := by
  obtain ⟨htakes, hcredit, hopen⟩ := (hcalls.waits k s.shared).mp hready
  constructor
  · intro j k' hj
    have hphase : (s.goto i (.sleeping k)).phase j = .sleeping k' := hj
    by_cases heq : j = i
    · rw [heq, phase_goto_self] at hphase
      cases hphase
      exact htakes
    · rw [phase_goto_ne heq] at hphase
      exact h.sleepers j k' hphase
  · intro _
    rw [settled_free rfl]
    show _ ∨ closed s.shared = false ∧ credit s.shared ≤ _
    exact .inr ⟨hopen, hcredit ▸ Nat.zero_le _⟩

/-- The thread that is woken takes over what the signal was due for. -/
theorem signal (h : Awake takes credit closed s) {k k' : κ} {out : ο}
    (hi : s.phase i = .running k [] .one out) (hj : s.phase j = .sleeping k') :
    Awake takes credit closed ((s.goto j (.woken k')).goto i (.leaving k out)) := by
  have hne : i ≠ j := by
    rintro rfl
    rw [hi] at hj
    cases hj
  have hi' : (s.goto j (.woken k')).phase i = .running k [] .one out :=
    (phase_goto_ne hne).trans hi
  have hphase : ∀ l, l ≠ i → l ≠ j →
      ((s.goto j (.woken k')).goto i (.leaving k out)).phase l = s.phase l := fun l hli hlj =>
    (phase_goto_ne hli).trans (phase_goto_ne hlj)
  have hphase_i : ((s.goto j (.woken k')).goto i (.leaving k out)).phase i = .leaving k out :=
    phase_goto_self
  have hphase_j : ((s.goto j (.woken k')).goto i (.leaving k out)).phase j = .woken k' :=
    (phase_goto_ne hne.symm).trans phase_goto_self
  constructor
  · intro l k'' hl
    by_cases hli : l = i
    · rw [hli, hphase_i] at hl
      cases hl
    by_cases hlj : l = j
    · rw [hlj, hphase_j] at hl
      cases hl
    rw [hphase l hli hlj] at hl
    exact h.sleepers l k'' hl
  · intro _
    rcases h.owed ⟨j, by rw [hj]; trivial⟩ with ⟨l, k'', rest, out', hl⟩ | ⟨hopen, hcredit⟩
    · have hli : l ≠ i := by
        rintro rfl
        rw [hi] at hl
        cases hl
      have hlj : l ≠ j := by
        rintro rfl
        rw [hj] at hl
        cases hl
      exact .inl ⟨l, k'', rest, out', (hphase l hli hlj).trans hl⟩
    · have hwoken := sum_goto (Phase.due takes) s j (.woken k')
      have hleaving := sum_goto (Phase.due takes) (s.goto j (.woken k')) i (.leaving k out)
      have hone : (Phase.woken k' : Phase κ σ ο).due takes = 1 := if_pos (h.sleepers j k' hj)
      rw [hj, hone] at hwoken
      rw [hi'] at hleaving
      change _ + 1 = _ + 0 at hleaving
      change _ + 0 = _ at hwoken
      rw [settled_goto (by rw [hi']; rfl), settled_goto (by rw [hj]; rfl)]
      exact .inr ⟨hopen, by omega⟩

theorem step (hcalls : Accounted calls takes credit closed) (hexcl : Exclusive s)
    (h : Awake takes credit closed s) (hstep : Step calls s a s') :
    Awake takes credit closed s' := by
  cases hstep with
  | @enter i k hi =>
    refine h.goto rfl (settled_goto (by rw [hi]; rfl)) not_false (by rw [hi]; exact Nat.zero_le _) ?_
    intro _ _ _ hall
    rw [hi] at hall
    cases hall
  | @lock i k hfree hi =>
    have hsettled : ((s.goto i (.testing k)).give (some i)).settled = s.settled := by
      rw [settled_free hfree, settled_held (i := i) rfl]
      show assigned ((s.goto i (.testing k)).phase i).rest s.shared = s.shared
      rw [phase_goto_self]
      rfl
    rcases hi with hi | hi
    · refine h.goto rfl hsettled not_false (by rw [hi]; exact Nat.le_refl _) ?_
      intro _ _ _ hall
      rw [hi] at hall
      cases hall
    · refine h.goto rfl hsettled not_false (by rw [hi]; exact Nat.le_refl _) ?_
      intro _ _ _ hall
      rw [hi] at hall
      cases hall
  | pass hi hready => exact h.pass hcalls hexcl hi hready
  | wait _ hready => exact h.wait hcalls hready
  | @assign i k f rest wake out hi =>
    have hholder := (hexcl i).mp (by rw [hi]; trivial)
    have hsettled : ((s.goto i (.running k rest wake out)).store (f s.shared)).settled = s.settled := by
      have hstill : ((s.goto i (.running k rest wake out)).store (f s.shared)).holder = some i :=
        hholder
      rw [settled_held hstill, settled_held hholder, hi]
      show assigned ((s.goto i (.running k rest wake out)).phase i).rest (f s.shared) = _
      rw [phase_goto_self]
      rfl
    refine h.goto rfl hsettled not_false (by rw [hi]; exact Nat.le_refl _) ?_
    intro _ _ _ hall
    rw [hi] at hall
    cases hall
    exact ⟨_, _, _, rfl⟩
  | @wakeNone i k out hi =>
    refine h.goto rfl (settled_goto (by rw [hi]; rfl)) not_false (by rw [hi]; exact Nat.zero_le _) ?_
    intro _ _ _ hall
    rw [hi] at hall
    cases hall
  | signal hi hj => exact h.signal hi hj
  | @signalNobody i k out hi hnobody =>
    refine of_awake fun j => ?_
    by_cases heq : j = i
    · rw [heq, phase_goto_self]
      exact not_false
    · rw [phase_goto_ne heq]
      exact hnobody j
  | @broadcast i k out hi =>
    refine of_awake fun j => ?_
    by_cases heq : j = i
    · rw [heq, phase_goto_self]
      exact not_false
    · rw [phase_goto_ne heq]
      exact Phase.not_sleeps_roused _
  | @unlock i k out hi =>
    have hholder := (hexcl i).mp (by rw [hi]; trivial)
    have hsettled : ((s.goto i .outside).give none).settled = s.settled := by
      rw [settled_free rfl, settled_held hholder, hi]
      rfl
    refine h.goto rfl hsettled not_false (by rw [hi]; exact Nat.zero_le _) ?_
    intro _ _ _ hall
    rw [hi] at hall
    cases hall
  | @spurious i k hi =>
    refine h.goto rfl (settled_goto (by rw [hi]; rfl)) not_false (by rw [hi]; exact Nat.zero_le _) ?_
    intro _ _ _ hall
    rw [hi] at hall
    cases hall

end Awake

theorem Run.awake (hcalls : Accounted calls takes credit closed) (h : Run calls shared events s) :
    Awake takes credit closed s := by
  induction h with
  | start => exact Awake.of_awake fun _ => not_false
  | step hrun hstep ih => exact ih.step hcalls hrun.exclusive hstep

/-! ## Coming to rest -/

/-- A step that a thread takes by itself. -/
def InnerStep (calls : κ → Call σ ο) (s s' : State ι κ σ ο) : Prop :=
  ∃ a : Action ι κ ο, a.Inner ∧ Step calls s a s'

/-- What a thread and those that it wakes can still do, where bodies have at most `size`
assignments. -/
def Phase.cost (size threads : Nat) : Phase κ σ ο → Nat
  | outside => 0
  | entering _ => size + 2 * threads + 4
  | testing _ => size + 2 * threads + 3
  | sleeping _ => size + 2 * threads + 2
  | woken _ => size + 2 * threads + 4
  | running _ rest _ _ => rest.length + 2 * threads + 2
  | leaving _ _ => 1

def State.cost (size : Nat) (s : State ι κ σ ο) : Nat :=
  ∑ i, (s.phase i).cost size (Fintype.card ι)

variable {size : Nat}

theorem cost_goto_lt (h : p.cost size (Fintype.card ι) < (s.phase i).cost size (Fintype.card ι)) :
    (s.goto i p).cost size < s.cost size := by
  have hsum := sum_goto (Phase.cost size (Fintype.card ι)) s i p
  unfold State.cost
  omega

theorem cost_roused (p : Phase κ σ ο) (threads : Nat) :
    p.roused.cost size threads ≤ p.cost size threads + 2 := by
  cases p with
  | sleeping k => exact Nat.le_refl _
  | _ => exact Nat.le_add_right _ 2

omit [DecidableEq ι] in
theorem cost_rouse (s : State ι κ σ ο) :
    s.rouse.cost size ≤ s.cost size + 2 * Fintype.card ι := by
  calc s.rouse.cost size
      ≤ ∑ i, ((s.phase i).cost size (Fintype.card ι) + 2) :=
        Finset.sum_le_sum fun i _ => cost_roused (s.phase i) _
    _ = s.cost size + 2 * Fintype.card ι := by
        rw [Finset.sum_add_distrib, Finset.sum_const_nat fun _ _ => rfl, Finset.card_univ,
          Nat.mul_comm, State.cost]

/-- Each step that a thread takes by itself costs something. -/
theorem Step.cost_lt (hsize : ∀ k s, ((calls k).body s).length ≤ size) (hinner : a.Inner)
    (hstep : Step calls s a s') : s'.cost size < s.cost size := by
  cases hstep with
  | enter k _ => exact hinner.elim
  | @lock i k _ hi =>
    refine cost_goto_lt (i := i) (p := .testing k) ?_
    rcases hi with hi | hi
    · rw [hi]
      exact Nat.lt_succ_self _
    · rw [hi]
      exact Nat.lt_succ_self _
  | @pass i k hi _ =>
    refine cost_goto_lt ?_
    have hbody := hsize k s.shared
    rw [hi]
    show ((calls k).body s.shared).length + 2 * Fintype.card ι + 2 < size + 2 * Fintype.card ι + 3
    omega
  | @wait i k hi _ =>
    refine cost_goto_lt (i := i) (p := .sleeping k) ?_
    rw [hi]
    exact Nat.lt_succ_self _
  | @assign i k f rest wake out hi =>
    refine cost_goto_lt (i := i) (p := .running k rest wake out) ?_
    rw [hi]
    show rest.length + _ + 2 < (rest.length + 1) + _ + 2
    omega
  | @wakeNone i k out hi =>
    refine cost_goto_lt ?_
    rw [hi]
    show 1 < 0 + _ + 2
    omega
  | @signal i j k k' out hi hj =>
    have hne : i ≠ j := by
      rintro rfl
      rw [hi] at hj
      cases hj
    have hpos : 1 ≤ Fintype.card ι := Fintype.card_pos_iff.mpr ⟨i⟩
    have hwoken := sum_goto (Phase.cost size (Fintype.card ι)) s j (.woken k')
    have hleaving := sum_goto (Phase.cost size (Fintype.card ι)) (s.goto j (.woken k')) i
      (.leaving k out)
    rw [hj] at hwoken
    rw [phase_goto_ne hne, hi] at hleaving
    change _ + (size + 2 * Fintype.card ι + 2) = _ + (size + 2 * Fintype.card ι + 4) at hwoken
    change _ + (0 + 2 * Fintype.card ι + 2) = _ + 1 at hleaving
    unfold State.cost
    omega
  | @signalNobody i k out hi _ =>
    refine cost_goto_lt ?_
    rw [hi]
    show 1 < 0 + _ + 2
    omega
  | @broadcast i k out hi =>
    have hleaving := sum_goto (Phase.cost size (Fintype.card ι)) s.rouse i (.leaving k out)
    have hrouse : s.rouse.cost size ≤ s.cost size + 2 * Fintype.card ι := cost_rouse s
    have hroused : s.rouse.phase i = .running k [] .all out := by
      show (s.phase i).roused = _
      rw [hi]
      rfl
    rw [hroused] at hleaving
    change _ + (0 + 2 * Fintype.card ι + 2) = _ + 1 at hleaving
    unfold State.cost at hrouse ⊢
    omega
  | @unlock i k out hi =>
    refine cost_goto_lt (i := i) (p := .outside) ?_
    rw [hi]
    exact Nat.zero_lt_one
  | spurious _ => exact hinner.elim

/-- Left alone, the threads come to rest. -/
theorem bounded {n : Nat} (hsize : ∀ k s, ((calls k).body s).length ≤ size)
    (h : Steps (InnerStep calls) n s s') : n + s'.cost size ≤ s.cost size :=
  h.bounded (I := fun _ => True) (fun _ _ _ _ => trivial)
    (fun _ _ _ ⟨_, hinner, hstep⟩ => hstep.cost_lt hsize hinner) trivial

omit [Fintype ι] in
theorem Run.inner {n : Nat} (h : Run calls shared events s)
    (hinner : Steps (InnerStep calls) n s s') :
    ∃ more, Run calls shared (events ++ more) s' := by
  induction hinner with
  | refl => exact ⟨[], (List.append_nil events).symm ▸ h⟩
  | step _ hinner ih =>
    obtain ⟨a, -, hstep⟩ := hinner
    obtain ⟨more, hmore⟩ := ih h
    exact ⟨more ++ a.events, by rw [← List.append_assoc]; exact hmore.step hstep⟩

omit [Fintype ι] in
theorem not_turn (h : Resting (InnerStep calls) s) : ¬ Step calls s (.turn i) s' :=
  fun hstep => h s' ⟨.turn i, trivial, hstep⟩

omit [Fintype ι] in
/-- At rest the mutex is free. -/
theorem free_of_resting (h : Resting (InnerStep calls) s) (hexcl : Exclusive s) : s.holder = none := by
  by_contra hheld
  obtain ⟨j, hj⟩ := Option.ne_none_iff_exists'.mp hheld
  have hholds := (hexcl j).mpr hj
  cases hphase : s.phase j with
  | testing k =>
    cases hready : (calls k).ready s.shared with
    | true => exact not_turn h (.pass hphase hready)
    | false => exact not_turn h (.wait hphase hready)
  | running k rest wake out =>
    cases rest with
    | cons f rest => exact not_turn h (.assign hphase)
    | nil =>
      cases wake with
      | none => exact not_turn h (.wakeNone hphase)
      | all => exact not_turn h (.broadcast hphase)
      | one =>
        by_cases hsleeper : ∃ l, (s.phase l).Sleeps
        · obtain ⟨l, hl⟩ := hsleeper
          cases hl' : s.phase l with
          | sleeping k' => exact not_turn h (.signal hphase hl')
          | _ =>
            rw [hl'] at hl
            exact hl
        · exact not_turn h (.signalNobody hphase (not_exists.mp hsleeper))
  | leaving k out => exact h _ ⟨.leave j k out, trivial, .unlock hphase⟩
  | _ =>
    rw [hphase] at hholds
    exact hholds

omit [Fintype ι] in
/-- At rest each thread is outside or asleep. -/
theorem phase_of_resting (h : Resting (InnerStep calls) s) (hexcl : Exclusive s) (i : ι) :
    s.phase i = .outside ∨ ∃ k, s.phase i = .sleeping k := by
  have hfree := free_of_resting h hexcl
  have hnot : ¬ (s.phase i).Holds := by
    rw [hexcl i, hfree]
    exact (Option.some_ne_none i).symm
  cases hphase : s.phase i with
  | outside => exact .inl rfl
  | sleeping k => exact .inr ⟨k, rfl⟩
  | entering k => exact (not_turn h (.lock hfree (.inl hphase))).elim
  | woken k => exact (not_turn h (.lock hfree (.inr hphase))).elim
  | _ =>
    rw [hphase] at hnot
    exact absurd trivial hnot

/-- At rest no thread sleeps whose call could be done. -/
theorem Run.resting (hcalls : Accounted calls takes credit closed) (h : Run calls shared events s)
    (hrest : Resting (InnerStep calls) s) (i : ι) :
    s.phase i = .outside ∨
      ∃ k, s.phase i = .sleeping k ∧ takes k = true ∧ (calls k).ready s.shared = false := by
  have hexcl := h.exclusive
  obtain ⟨hsleepers, howed⟩ := h.awake hcalls
  rcases phase_of_resting hrest hexcl i with hout | ⟨k, hk⟩
  · exact .inl hout
  refine .inr ⟨k, hk, hsleepers i k hk, ?_⟩
  have hnone : ∀ j ∈ Finset.univ, (s.phase j).due takes = 0 := by
    intro j _
    rcases phase_of_resting hrest hexcl j with hout | ⟨k', hk'⟩
    · rw [hout]
      rfl
    · rw [hk']
      rfl
  rcases howed ⟨i, by rw [hk]; trivial⟩ with ⟨l, k', rest, out, hl⟩ | ⟨hopen, hcredit⟩
  · rcases phase_of_resting hrest hexcl l with hout | ⟨k'', hk''⟩
    · rw [hout] at hl
      cases hl
    · rw [hk''] at hl
      cases hl
  · rw [settled_free (free_of_resting hrest hexcl)] at hopen hcredit
    rw [Finset.sum_eq_zero hnone] at hcredit
    exact (hcalls.waits k s.shared).mpr ⟨hsleepers i k hk, Nat.le_zero.mp hcredit, hopen⟩

/-- From every state the threads come to rest. -/
theorem exists_resting (hsize : ∀ k s, ((calls k).body s).length ≤ size) (s : State ι κ σ ο) :
    ∃ n s', Steps (InnerStep calls) n s s' ∧ Resting (InnerStep calls) s' :=
  Rest.exists_resting (I := fun _ => True) (fun _ _ _ _ => trivial)
    (fun _ _ _ ⟨_, hinner, hstep⟩ => hstep.cost_lt hsize hinner) trivial

end Monitor
