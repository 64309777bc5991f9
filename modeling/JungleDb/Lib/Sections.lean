import Mathlib.Data.List.Infix
import Mathlib.Logic.Function.Basic
import JungleDb.Lib.Machine
import JungleDb.Lib.RwLock

/-!
# Sections under read-write locks

Threads work on a growing list of objects. A thread first looks up the index of an object, which may
append new ones, in one step; then it takes the lock of that object, as a writer or as a reader; its
body reads the object when it starts and, if it is a writer's, stores the new object when it ends;
then it gives the lock back. Between any two of these steps other threads may take theirs. A thread
runs once: a client that calls again is another thread.

In every interleaving each object has gone through the bodies of its writers one after the other, in
the order in which their sections lie in time, and each reader has seen the object after the first
few of them: those at least that were over when it took the lock, and none that took it when the
reader was done.
-/

namespace Sections

/-- What the threads do. New objects are `Fresh`. -/
structure Program (ι σ ρ : Type) where
  writes : ι → Bool
  lookup : ι → List σ → Except ρ Nat × List σ
  body : σ → ι → Option (ρ × σ)
  Fresh : σ → Prop
  grows : ∀ i objects, ∃ new, (lookup i objects).2 = objects ++ new ∧ ∀ o ∈ new, Fresh o

/-- How far a thread has come. -/
inductive Phase (σ ρ : Type)
  | ready
  | refused (out : ρ)
  | waiting (k : Nat)
  | holding (k : Nat)
  | running (k : Nat) (seen : σ)
  | executed (k : Nat) (out : ρ)
  | done (k : Nat) (out : ρ)

namespace Phase

variable {σ ρ : Type}

/-- The object whose lock the thread holds. -/
def held : Phase σ ρ → Option Nat
  | holding k => some k
  | running k _ => some k
  | executed k _ => some k
  | _ => none

/-- The object that the thread has looked up. -/
def object : Phase σ ρ → Option Nat
  | waiting k => some k
  | holding k => some k
  | running k _ => some k
  | executed k _ => some k
  | done k _ => some k
  | _ => none

/-- The object whose lock the thread holds and whose body has not ended. -/
def pending : Phase σ ρ → Option Nat
  | holding k => some k
  | running k _ => some k
  | _ => none

/-- The object and the result of a body that has ended. -/
def returned : Phase σ ρ → Option (Nat × ρ)
  | executed k out => some (k, out)
  | done k out => some (k, out)
  | _ => none

/-- The result of a thread, refused or executed. -/
def result : Phase σ ρ → Option ρ
  | refused out => some out
  | executed _ out => some out
  | done _ out => some out
  | _ => none

theorem result_of_returned {p : Phase σ ρ} {k : Nat} {out : ρ} (h : p.returned = some (k, out)) :
    p.result = some out ∧ p.object = some k := by
  cases p with
  | executed _ _ =>
    cases h
    exact ⟨rfl, rfl⟩
  | done _ _ =>
    cases h
    exact ⟨rfl, rfl⟩
  | _ => cases h

/-- A result comes from the lookup or from the body. -/
theorem refused_or_returned {p : Phase σ ρ} {out : ρ} (h : p.result = some out) :
    p = .refused out ∨ ∃ k, p.returned = some (k, out) := by
  cases p with
  | refused _ =>
    cases h
    exact .inl rfl
  | executed k _ =>
    cases h
    exact .inr ⟨k, rfl⟩
  | done k _ =>
    cases h
    exact .inr ⟨k, rfl⟩
  | _ => cases h

theorem held_of_pending {p : Phase σ ρ} {k : Nat} (h : p.pending = some k) : p.held = some k := by
  cases p with
  | holding _ => exact h
  | running _ _ => exact h
  | _ => cases h

/-- After its body a thread holds the lock until it is done. -/
theorem held_or_done {p : Phase σ ρ} {k : Nat} {out : ρ} (h : p.returned = some (k, out)) :
    p.held = some k ∨ p = .done k out := by
  cases p with
  | executed _ _ =>
    cases h
    exact .inl rfl
  | done _ _ =>
    cases h
    exact .inr rfl
  | _ => cases h

end Phase

/-- The steps of a thread. -/
inductive Action
  | lookup
  | lock
  | enter
  | leave
  | unlock
  deriving DecidableEq, Repr

structure State (ι σ ρ : Type) where
  objects : List σ
  lock : Nat → RwLock ι
  phase : ι → Phase σ ρ

/-- The steps taken so far, the oldest first. -/
abbrev Trace (ι : Type) := List (ι × Action)

variable {ι σ ρ : Type}

/-- No objects, and no thread has started. -/
def State.start : State ι σ ρ := ⟨[], fun _ => .free, fun _ => .ready⟩

/-- The section of `i` was over when `j` took its lock. -/
def Precedes (tr : Trace ι) (i j : ι) : Prop := [(i, .unlock), (j, .lock)].Sublist tr

namespace State

def setLock (s : State ι σ ρ) (k : Nat) (l : RwLock ι) : State ι σ ρ :=
  { s with lock := Function.update s.lock k l }

def setObjects (s : State ι σ ρ) (objects : List σ) : State ι σ ρ := { s with objects := objects }

variable (s : State ι σ ρ) (i j : ι) (p : Phase σ ρ) (k k' : Nat) (l : RwLock ι) (objects : List σ)

@[simp] theorem setLock_objects : (s.setLock k l).objects = s.objects := rfl

@[simp] theorem setLock_phase : (s.setLock k l).phase = s.phase := rfl

@[simp] theorem setLock_lock_self : (s.setLock k l).lock k = l := Function.update_self ..

@[simp] theorem setLock_lock_ne (h : k' ≠ k) : (s.setLock k l).lock k' = s.lock k' :=
  Function.update_of_ne h ..

@[simp] theorem setObjects_objects : (s.setObjects objects).objects = objects := rfl

@[simp] theorem setObjects_lock : (s.setObjects objects).lock = s.lock := rfl

@[simp] theorem setObjects_phase : (s.setObjects objects).phase = s.phase := rfl

variable [DecidableEq ι]

/-- A thread comes to a phase. -/
def goto (s : State ι σ ρ) (i : ι) (p : Phase σ ρ) : State ι σ ρ :=
  { s with phase := Function.update s.phase i p }

@[simp] theorem goto_objects : (s.goto i p).objects = s.objects := rfl

@[simp] theorem goto_lock : (s.goto i p).lock = s.lock := rfl

@[simp] theorem goto_phase_self : (s.goto i p).phase i = p := Function.update_self ..

@[simp] theorem goto_phase_ne (h : j ≠ i) : (s.goto i p).phase j = s.phase j :=
  Function.update_of_ne h ..

/-- What does not change for the thread itself changes for no thread. -/
theorem goto_congr {α : Type} (f : Phase σ ρ → α) (h : f p = f (s.phase i)) :
    f ((s.goto i p).phase j) = f (s.phase j) := by
  by_cases hj : j = i
  · rw [hj, goto_phase_self, h]
  · rw [goto_phase_ne _ _ _ _ hj]

end State

variable [DecidableEq ι]

/-- The next step of a thread, if it has one that it need not wait for. -/
def Program.step (P : Program ι σ ρ) (s : State ι σ ρ) (i : ι) : Option (Action × State ι σ ρ) :=
  match s.phase i with
  | .ready =>
    match P.lookup i s.objects with
    | (.error out, objects) => some (.lookup, (s.goto i (.refused out)).setObjects objects)
    | (.ok k, objects) => some (.lookup, (s.goto i (.waiting k)).setObjects objects)
  | .waiting k => ((s.lock k).acquire (P.writes i) i).map fun l =>
    (.lock, (s.setLock k l).goto i (.holding k))
  | .holding k => s.objects[k]?.map fun o => (.enter, s.goto i (.running k o))
  | .running k o => (P.body o i).map fun (out, o') =>
    (.leave, (s.goto i (.executed k out)).setObjects
      (if P.writes i then s.objects.set k o' else s.objects))
  | .executed k out =>
    some (.unlock, (s.setLock k ((s.lock k).release i)).goto i (.done k out))
  | .refused _ => none
  | .done _ _ => none

/-- The runs from the start. -/
inductive Program.Run (P : Program ι σ ρ) : Trace ι → State ι σ ρ → Prop
  | start : P.Run [] .start
  | step {tr : Trace ι} {s s' : State ι σ ρ} {i : ι} {a : Action} :
    P.Run tr s → P.step s i = some (a, s') → P.Run (tr ++ [(i, a)]) s'

/-- The steps, case by case. -/
inductive Program.Step (P : Program ι σ ρ) (s : State ι σ ρ) (i : ι) :
    Action → State ι σ ρ → Prop
  | refused {out : ρ} {objects : List σ} (hphase : s.phase i = .ready)
    (hfound : P.lookup i s.objects = (.error out, objects)) :
    P.Step s i .lookup ((s.goto i (.refused out)).setObjects objects)
  | found {k : Nat} {objects : List σ} (hphase : s.phase i = .ready)
    (hfound : P.lookup i s.objects = (.ok k, objects)) :
    P.Step s i .lookup ((s.goto i (.waiting k)).setObjects objects)
  | lock {k : Nat} {l : RwLock ι} (hphase : s.phase i = .waiting k)
    (hlock : (s.lock k).acquire (P.writes i) i = some l) :
    P.Step s i .lock ((s.setLock k l).goto i (.holding k))
  | enter {k : Nat} {o : σ} (hphase : s.phase i = .holding k) (hobject : s.objects[k]? = some o) :
    P.Step s i .enter (s.goto i (.running k o))
  | leaveReader {k : Nat} {o o' : σ} {out : ρ} (hphase : s.phase i = .running k o)
    (hbody : P.body o i = some (out, o')) (hw : P.writes i = false) :
    P.Step s i .leave (s.goto i (.executed k out))
  | leaveWriter {k : Nat} {o o' : σ} {out : ρ} (hphase : s.phase i = .running k o)
    (hbody : P.body o i = some (out, o')) (hw : P.writes i = true) :
    P.Step s i .leave ((s.goto i (.executed k out)).setObjects (s.objects.set k o'))
  | unlock {k : Nat} {out : ρ} (hphase : s.phase i = .executed k out) :
    P.Step s i .unlock ((s.setLock k ((s.lock k).release i)).goto i (.done k out))

variable {P : Program ι σ ρ} {tr : Trace ι} {s s' : State ι σ ρ} {i : ι} {a : Action}

theorem Program.step_cases (h : P.step s i = some (a, s')) : P.Step s i a s' := by
  unfold Program.step at h
  split at h
  · rename_i hphase
    split at h
    · rename_i out objects hfound
      cases h
      exact .refused hphase hfound
    · rename_i k objects hfound
      cases h
      exact .found hphase hfound
  · rename_i k hphase
    obtain ⟨l, hlock, heq⟩ := Option.map_eq_some_iff.mp h
    cases heq
    exact .lock hphase hlock
  · rename_i k hphase
    obtain ⟨o, hobject, heq⟩ := Option.map_eq_some_iff.mp h
    cases heq
    exact .enter hphase hobject
  · rename_i k o hphase
    obtain ⟨⟨out, o'⟩, hbody, heq⟩ := Option.map_eq_some_iff.mp h
    cases hw : P.writes i with
    | true =>
      simp only [hw, if_true] at heq
      cases heq
      exact .leaveWriter hphase hbody hw
    | false =>
      simp only [hw] at heq
      cases heq
      exact .leaveReader hphase hbody hw
  · rename_i k out hphase
    cases h
    exact .unlock hphase
  · cases h
  · cases h

/-- The steps of the threads as they are scheduled, if none of them has to wait. -/
def Program.schedule (P : Program ι σ ρ) (tr : Trace ι) (s : State ι σ ρ) :
    List ι → Option (Trace ι × State ι σ ρ)
  | [] => some (tr, s)
  | i :: is => do
    let (a, s) ← P.step s i
    schedule P (tr ++ [(i, a)]) s is

theorem Program.Run.schedule (h : P.Run tr s) {is : List ι} {tr' : Trace ι}
    (hrun : P.schedule tr s is = some (tr', s')) : P.Run tr' s' := by
  induction is generalizing tr s with
  | nil =>
    cases hrun
    exact h
  | cons i is ih =>
    rw [Program.schedule, Option.bind_eq_bind, Option.bind_eq_some_iff] at hrun
    obtain ⟨⟨a, s₁⟩, hstep, hrun⟩ := hrun
    exact ih (h.step hstep) hrun

/-- A thread that is not interrupted, and need not wait, comes to its end. -/
theorem Program.alone (tr : Trace ι) {k : Nat} {objects : List σ} {o o' : σ} {out : ρ}
    (hready : s.phase i = .ready) (hfree : s.lock k = .free)
    (hfound : P.lookup i s.objects = (.ok k, objects)) (hobject : objects[k]? = some o)
    (hbody : P.body o i = some (out, o')) :
    ∃ tr' s', P.schedule tr s [i, i, i, i, i] = some (tr', s') ∧ s'.phase i = .done k out ∧
      s'.objects = if P.writes i then objects.set k o' else objects := by
  have hacquire : ∃ l, (RwLock.free : RwLock ι).acquire (P.writes i) i = some l := by
    cases P.writes i with
    | true => exact ⟨_, rfl⟩
    | false => exact ⟨_, rfl⟩
  obtain ⟨l, hl⟩ := hacquire
  have hschedule : (P.schedule tr s [i, i, i, i, i]).map (fun r => (r.2.phase i, r.2.objects)) =
      some (.done k out, if P.writes i then objects.set k o' else objects) := by
    simp [Program.schedule, Program.step, hready, hfound, hfree, hl, hobject, hbody]
  obtain ⟨⟨tr', s'⟩, hrun, heq⟩ := Option.map_eq_some_iff.mp hschedule
  exact ⟨tr', s', hrun, congrArg Prod.fst heq, congrArg Prod.snd heq⟩

/-! ## Locks -/

/-- The locks are held by the threads whose phase says so, and what a body has seen is still
there. -/
structure Locked (P : Program ι σ ρ) (s : State ι σ ρ) : Prop where
  holder : ∀ k i, i ∈ (s.lock k).holders ↔ (s.phase i).held = some k
  mode : ∀ k, (s.lock k).Respects P.writes
  seen : ∀ i k o, s.phase i = .running k o → s.objects[k]? = some o
  exists_object : ∀ i k out, (s.phase i).returned = some (k, out) → k < s.objects.length

namespace Locked

omit [DecidableEq ι] in
theorem start : Locked P .start :=
  ⟨fun _ i => iff_of_false (Finset.notMem_empty i) nofun, fun _ => RwLock.respects_free, nofun,
    nofun⟩

omit [DecidableEq ι] in
/-- While a writer has the lock, no other thread has it. -/
theorem alone (h : Locked P s) {i j : ι} {k : Nat} (hw : P.writes i = true)
    (hi : (s.phase i).held = some k) (hj : (s.phase j).held = some k) : j = i :=
  (h.mode k).alone hw ((h.holder k i).mpr hi) ((h.holder k j).mpr hj)

/-- A thread comes to a phase in which it has the same lock. -/
theorem goto (h : Locked P s) {p : Phase σ ρ} (hheld : p.held = (s.phase i).held)
    (hseen : ∀ k o, p = .running k o → s.objects[k]? = some o)
    (hexists : ∀ k out, p.returned = some (k, out) → k < s.objects.length) :
    Locked P (s.goto i p) := by
  refine ⟨fun k j => ?_, h.mode, fun j k o hj => ?_, fun j k out hj => ?_⟩
  · rw [State.goto_lock, h.holder, s.goto_congr i j p Phase.held hheld]
  · by_cases hji : j = i
    · rw [hji, State.goto_phase_self] at hj
      exact hseen k o hj
    · rw [State.goto_phase_ne _ _ _ _ hji] at hj
      exact h.seen j k o hj
  · by_cases hji : j = i
    · rw [hji, State.goto_phase_self] at hj
      exact hexists k out hj
    · rw [State.goto_phase_ne _ _ _ _ hji] at hj
      exact h.exists_object j k out hj

omit [DecidableEq ι] in
/-- Objects are appended. -/
theorem append (h : Locked P s) (new : List σ) : Locked P (s.setObjects (s.objects ++ new)) := by
  refine ⟨h.holder, h.mode, fun j k o hj => ?_, fun j k out hj => ?_⟩
  · have hseen := h.seen j k o hj
    rw [State.setObjects_objects, List.getElem?_append_left (List.getElem?_eq_some_iff.mp hseen).1]
    exact hseen
  · have := h.exists_object j k out hj
    rw [State.setObjects_objects, List.length_append]
    omega

omit [DecidableEq ι] in
/-- A writer whose body has ended stores the object. -/
theorem store (h : Locked P s) {k : Nat} {out : ρ} (hw : P.writes i = true)
    (hphase : s.phase i = .executed k out) (o : σ) :
    Locked P (s.setObjects (s.objects.set k o)) := by
  refine ⟨h.holder, h.mode, fun j k' o' hj => ?_, fun j k' out hj => ?_⟩
  · rw [State.setObjects_phase] at hj
    -- a thread in its body works on another object
    have hk : k ≠ k' := by
      rintro rfl
      obtain rfl := h.alone hw (by rw [hphase]; rfl) (by rw [hj]; rfl)
      rw [hphase] at hj
      cases hj
    rw [State.setObjects_objects, List.getElem?_set_ne hk]
    exact h.seen j k' o' hj
  · rw [State.setObjects_objects, List.length_set]
    exact h.exists_object j k' out hj

/-- The lock of an object and the phase of a thread change together. -/
theorem relock (h : Locked P s) {k : Nat} {l : RwLock ι} {p : Phase σ ρ}
    (hself : i ∈ l.holders ↔ p.held = some k)
    (hother : ∀ j ≠ i, j ∈ l.holders ↔ j ∈ (s.lock k).holders)
    (hheld : ∀ k' ≠ k, (s.phase i).held ≠ some k' ∧ p.held ≠ some k')
    (hmode : l.Respects P.writes) (hseen : ∀ k o, p ≠ .running k o)
    (hreturned : p.returned = (s.phase i).returned) :
    Locked P ((s.setLock k l).goto i p) := by
  refine ⟨fun k' j => ?_, fun k' => ?_, fun j k' o hj => ?_, fun j k' out hj => ?_⟩
  · rw [State.goto_lock]
    by_cases hk : k' = k
    · rw [hk, State.setLock_lock_self]
      by_cases hji : j = i
      · rw [hji, State.goto_phase_self]
        exact hself
      · rw [State.goto_phase_ne _ _ _ _ hji, hother j hji]
        exact h.holder k j
    · rw [State.setLock_lock_ne _ _ _ _ hk, h.holder]
      by_cases hji : j = i
      · rw [hji, State.goto_phase_self]
        exact iff_of_false (hheld k' hk).1 (hheld k' hk).2
      · rw [State.goto_phase_ne _ _ _ _ hji, State.setLock_phase]
  · rw [State.goto_lock]
    by_cases hk : k' = k
    · rw [hk, State.setLock_lock_self]
      exact hmode
    · rw [State.setLock_lock_ne _ _ _ _ hk]
      exact h.mode k'
  · by_cases hji : j = i
    · rw [hji, State.goto_phase_self] at hj
      exact absurd hj (hseen k' o)
    · rw [State.goto_phase_ne _ _ _ _ hji] at hj
      exact h.seen j k' o hj
  · rw [(s.setLock k l).goto_congr i j p Phase.returned hreturned] at hj
    exact h.exists_object j k' out hj

theorem step (h : Locked P s) (hstep : P.Step s i a s') : Locked P s' := by
  cases hstep with
  | @refused out objects hphase hfound =>
    obtain ⟨new, hnew, -⟩ := P.grows i s.objects
    rw [hfound] at hnew
    subst hnew
    exact (h.goto (p := .refused out) (by rw [hphase]; rfl) nofun nofun).append new
  | @found k objects hphase hfound =>
    obtain ⟨new, hnew, -⟩ := P.grows i s.objects
    rw [hfound] at hnew
    subst hnew
    exact (h.goto (p := .waiting k) (by rw [hphase]; rfl) nofun nofun).append new
  | @lock k l hphase hlock =>
    have hholders := RwLock.holders_acquire hlock
    refine h.relock ?_ (fun j hj => ?_) (fun k' hk => ⟨?_, ?_⟩) ((h.mode k).acquire hlock) nofun ?_
    · rw [hholders]
      exact iff_of_true (Finset.mem_insert_self i _) rfl
    · rw [hholders, Finset.mem_insert, or_iff_right hj]
    · rw [hphase]
      nofun
    · exact fun heq => hk (Option.some.inj heq).symm
    · rw [hphase]
      rfl
  | @enter k o hphase hobject =>
    refine h.goto (by rw [hphase]; rfl) (fun k' o' heq => ?_) nofun
    cases heq
    exact hobject
  | @leaveReader k o o' out hphase hbody hw =>
    refine h.goto (by rw [hphase]; rfl) nofun fun k' out' heq => ?_
    cases heq
    exact (List.getElem?_eq_some_iff.mp (h.seen i k o hphase)).1
  | @leaveWriter k o o' out hphase hbody hw =>
    refine (h.goto (p := .executed k out) (by rw [hphase]; rfl) nofun fun k' out' heq => ?_).store
      hw (State.goto_phase_self ..) o'
    cases heq
    exact (List.getElem?_eq_some_iff.mp (h.seen i k o hphase)).1
  | @unlock k out hphase =>
    refine h.relock ?_ (fun j hj => ?_) (fun k' hk => ⟨?_, nofun⟩) (h.mode k).release nofun ?_
    · rw [RwLock.holders_release]
      exact iff_of_false (Finset.notMem_erase i _) nofun
    · rw [RwLock.holders_release, Finset.mem_erase, and_iff_right hj]
    · rw [hphase]
      exact fun heq => hk (Option.some.inj heq).symm
    · rw [hphase]
      rfl

end Locked

/-- A run keeps the locks. -/
theorem Program.Run.locked (h : P.Run tr s) : Locked P s := by
  induction h with
  | start => exact .start
  | step _ hstep ih => exact ih.step (P.step_cases hstep)

/-! ## The trace -/

omit [DecidableEq ι] in
theorem Precedes.concat {i j : ι} (h : Precedes tr i j) (ev : ι × Action) :
    Precedes (tr ++ [ev]) i j :=
  h.trans (List.sublist_append_left tr [ev])

omit [DecidableEq ι] in
/-- What a step adds to the order of the sections. -/
theorem precedes_concat {i j : ι} {ev : ι × Action} :
    Precedes (tr ++ [ev]) i j ↔ Precedes tr i j ∨ ev = (j, .lock) ∧ (i, .unlock) ∈ tr := by
  constructor
  · intro h
    obtain ⟨l₁, l₂, heq, h₁, h₂⟩ := List.sublist_append_iff.mp h
    rcases l₂ with _ | ⟨x, l₂⟩
    · rw [List.append_nil] at heq
      rw [← heq] at h₁
      exact .inl h₁
    · obtain ⟨rfl, rfl⟩ : x = ev ∧ l₂ = [] := by
        have hlen := h₂.length_le
        obtain rfl := List.length_eq_zero_iff.mp (Nat.le_zero.mp (Nat.le_of_succ_le_succ hlen))
        exact ⟨List.mem_singleton.mp (h₂.subset List.mem_cons_self), rfl⟩
      have hsplit : [(i, Action.unlock)] ++ [(j, .lock)] = l₁ ++ [x] := heq
      obtain ⟨rfl, hx⟩ := List.append_inj' hsplit rfl
      exact .inr ⟨(List.cons.inj hx).1.symm, h₁.subset List.mem_cons_self⟩
  · rintro (h | ⟨rfl, h⟩)
    · exact h.concat ev
    · exact (List.singleton_sublist.mpr h).append (List.Sublist.refl _)

/-- The threads that gave their lock back are those that are done. -/
theorem Program.Run.unlocked (h : P.Run tr s) (i : ι) :
    (i, .unlock) ∈ tr ↔ ∃ k out, s.phase i = .done k out := by
  induction h with
  | start => exact iff_of_false nofun nofun
  | @step tr s s' j a _ hstep ih =>
    rw [List.mem_append, List.mem_singleton, ih]
    cases P.step_cases hstep with
    | unlock hphase =>
      by_cases hi : i = j
      · subst hi
        rw [State.goto_phase_self]
        exact iff_of_true (.inr rfl) ⟨_, _, rfl⟩
      · rw [State.goto_phase_ne _ _ _ _ hi]
        refine or_iff_left fun heq => hi (Prod.mk.inj heq).1
    | _ =>
      rw [or_iff_left (by nofun)]
      by_cases hi : i = j
      · subst hi
        simp [*]
      · simp [hi]

/-! ## The order of the sections -/

/-- The object `o` with index `k` has come from `o₀` by the bodies of the writers `order`, which are
all writers of that object whose body has ended. Their sections do not overlap and lie in this
order, before that of a writer that holds the lock. -/
structure Written (P : Program ι σ ρ) (tr : Trace ι) (s : State ι σ ρ) (k : Nat) (o₀ o : σ)
    (order : List ι) : Prop where
  run : ∃ outs, Machine.run P.body o₀ order = some (outs, o) ∧
    order.map (fun i => (s.phase i).returned) = outs.map fun out => some (k, out)
  mem : ∀ i, i ∈ order ↔ P.writes i = true ∧ ∃ out, (s.phase i).returned = some (k, out)
  nodup : order.Nodup
  sections : order.Pairwise (Precedes tr)
  pending : ∀ j, P.writes j = true → (s.phase j).pending = some k → ∀ i ∈ order, Precedes tr i j

/-- The reader `i` was answered from the object after the writers `before`, among which is every
writer whose section was over when the reader took the lock, and none that took it after the
reader. -/
def Saw (P : Program ι σ ρ) (tr : Trace ι) (o₀ : σ) (order : List ι) (i : ι) (out : ρ) : Prop :=
  ∃ before, before <+: order ∧
    (∃ outs o o', Machine.run P.body o₀ before = some (outs, o) ∧ P.body o i = some (out, o')) ∧
    (∀ j ∈ order, Precedes tr j i → j ∈ before) ∧ ∀ j ∈ before, ¬ Precedes tr i j

omit [DecidableEq ι] in
theorem Saw.concat {o₀ : σ} {order : List ι} {out : ρ} {ev : ι × Action}
    (h : Saw P tr o₀ order i out) (hev : ev ≠ (i, .lock)) (horder : ∀ j ∈ order, ev ≠ (j, .lock)) :
    Saw P (tr ++ [ev]) o₀ order i out := by
  obtain ⟨before, hbefore, hbody, hover, hlater⟩ := h
  refine ⟨before, hbefore, hbody, fun j hj hprec => ?_, fun j hj hprec => ?_⟩
  · rcases precedes_concat.mp hprec with hprec | ⟨rfl, -⟩
    · exact hover j hj hprec
    · exact absurd rfl hev
  · rcases precedes_concat.mp hprec with hprec | ⟨rfl, -⟩
    · exact hlater j hj hprec
    · exact absurd rfl (horder j (hbefore.subset hj))

omit [DecidableEq ι] in
/-- A writer that ends after the reader took the lock comes behind what the reader saw. -/
theorem Saw.append {o₀ : σ} {order : List ι} {out : ρ} {j : ι} (h : Saw P tr o₀ order i out)
    (hj : ¬ Precedes tr j i) : Saw P tr o₀ (order ++ [j]) i out := by
  obtain ⟨before, hbefore, hbody, hover, hlater⟩ := h
  refine ⟨before, hbefore.trans (List.prefix_append order [j]), hbody, fun j' hj' hprec => ?_,
    hlater⟩
  rcases List.mem_append.mp hj' with hj' | hj'
  · exact hover j' hj' hprec
  · rw [List.mem_singleton.mp hj'] at hprec
    exact absurd hprec hj

namespace Written

variable {k : Nat} {o₀ o : σ} {order : List ι}

omit [DecidableEq ι] in
/-- An object that nobody has worked on. -/
theorem fresh (hnone : ∀ i out, (s.phase i).returned ≠ some (k, out)) : Written P tr s k o o [] := by
  refine ⟨⟨[], rfl, rfl⟩, fun i => iff_of_false nofun ?_, List.nodup_nil, List.Pairwise.nil, nofun⟩
  rintro ⟨-, out, hout⟩
  exact hnone i out hout

omit [DecidableEq ι] in
/-- A step that ends no writer's body for this object. -/
theorem frame (h : Written P tr s k o₀ o order) (ev : ι × Action)
    (hreturned : ∀ j, P.writes j = true → ∀ out,
      (s'.phase j).returned = some (k, out) ↔ (s.phase j).returned = some (k, out))
    (hpending : ∀ j, P.writes j = true → (s'.phase j).pending = some k →
      (s.phase j).pending = some k ∨ ∀ i ∈ order, Precedes (tr ++ [ev]) i j) :
    Written P (tr ++ [ev]) s' k o₀ o order := by
  obtain ⟨outs, hrun, houts⟩ := h.run
  refine ⟨⟨outs, hrun, ?_⟩, fun i => ?_, h.nodup, h.sections.imp fun hp => hp.concat ev,
    fun j hw hj i hi => ?_⟩
  · rw [← houts]
    refine List.map_congr_left fun i hi => ?_
    obtain ⟨hw, out, hout⟩ := (h.mem i).mp hi
    rw [hout, (hreturned i hw out).mpr hout]
  · rw [h.mem]
    exact and_congr_right fun hw => exists_congr fun out => (hreturned i hw out).symm
  · rcases hpending j hw hj with hj | hj
    · exact (h.pending j hw hj i hi).concat ev
    · exact hj i hi

/-- A writer's body ends. -/
theorem leave (h : Written P tr s k o₀ o order) (hl : Locked P s) {o' : σ} {out : ρ}
    (hw : P.writes i = true) (hphase : s.phase i = .running k o)
    (hbody : P.body o i = some (out, o')) (objects : List σ) :
    Written P (tr ++ [(i, .leave)]) ((s.goto i (.executed k out)).setObjects objects) k o₀ o'
      (order ++ [i]) := by
  obtain ⟨outs, hrun, houts⟩ := h.run
  have hnew : i ∉ order := by
    intro hi
    obtain ⟨-, out', hout'⟩ := (h.mem i).mp hi
    rw [hphase] at hout'
    cases hout'
  have hne : ∀ j ∈ order, j ≠ i := fun j hj heq => hnew (heq ▸ hj)
  refine ⟨⟨outs ++ [out], Machine.run_concat hrun hbody, ?_⟩, fun j => ?_, ?_, ?_, fun j hwj hj => ?_⟩
  · rw [List.map_append, List.map_append, ← houts, List.map_singleton, List.map_singleton,
      State.setObjects_phase, State.goto_phase_self]
    refine congrArg (· ++ _) (List.map_congr_left fun j hj => ?_)
    rw [State.goto_phase_ne _ _ _ _ (hne j hj)]
  · rw [List.mem_append, List.mem_singleton, State.setObjects_phase]
    by_cases hj : j = i
    · rw [hj, State.goto_phase_self]
      exact iff_of_true (.inr rfl) ⟨hw, out, rfl⟩
    · rw [State.goto_phase_ne _ _ _ _ hj, ← h.mem]
      exact or_iff_left hj
  · rw [List.nodup_append]
    refine ⟨h.nodup, List.nodup_singleton i, fun j hj j' hj' => ?_⟩
    rw [List.mem_singleton.mp hj']
    exact hne j hj
  · rw [List.pairwise_append]
    refine ⟨h.sections.imp fun hp => hp.concat _, List.pairwise_singleton _ i, fun j hj j' hj' => ?_⟩
    rw [List.mem_singleton.mp hj']
    exact (h.pending i hw (by rw [hphase]; rfl) j hj).concat _
  · -- no other writer holds the lock
    rw [State.setObjects_phase] at hj
    by_cases hji : j = i
    · rw [hji, State.goto_phase_self] at hj
      cases hj
    · rw [State.goto_phase_ne _ _ _ _ hji] at hj
      exact absurd (hl.alone hw (by rw [hphase]; rfl) (Phase.held_of_pending hj)) hji

end Written

/-- An object has gone through the bodies of its writers, and its readers have seen it so. -/
def Serialized (P : Program ι σ ρ) (tr : Trace ι) (s : State ι σ ρ) (k : Nat) (o : σ) : Prop :=
  ∃ o₀ order, P.Fresh o₀ ∧ Written P tr s k o₀ o order ∧
    ∀ i out, P.writes i = false → (s.phase i).returned = some (k, out) → Saw P tr o₀ order i out

namespace Serialized

variable {k : Nat} {o : σ}

omit [DecidableEq ι] in
/-- A step that ends no body for this object. -/
theorem frame (h : Serialized P tr s k o) (ev : ι × Action)
    (hreturned : ∀ j, (s'.phase j).returned = (s.phase j).returned)
    (hpending : ∀ o₀ order, Written P tr s k o₀ o order → ∀ j, P.writes j = true →
      (s'.phase j).pending = some k →
        (s.phase j).pending = some k ∨ ∀ i ∈ order, Precedes (tr ++ [ev]) i j)
    (hev : ∀ j out, (s.phase j).returned = some (k, out) → ev ≠ (j, .lock)) :
    Serialized P (tr ++ [ev]) s' k o := by
  obtain ⟨o₀, order, hfresh, hwritten, hsaw⟩ := h
  refine ⟨o₀, order, hfresh, hwritten.frame ev (fun j _ out => by rw [hreturned])
    (hpending o₀ order hwritten), fun j out hw hj => ?_⟩
  rw [hreturned] at hj
  refine (hsaw j out hw hj).concat (hev j out hj) fun j' hj' => ?_
  obtain ⟨-, out', hout'⟩ := (hwritten.mem j').mp hj'
  exact hev j' out' hout'

/-- A lookup. -/
theorem lookup (hl : Locked P s) (h : ∀ o, s.objects[k]? = some o → Serialized P tr s k o)
    {objects : List σ} {found : Except ρ Nat} {p : Phase σ ρ} (hphase : s.phase i = .ready)
    (hfound : P.lookup i s.objects = (found, objects)) (hpending : p.pending = none)
    (hreturned : p.returned = none) (hobject : objects[k]? = some o) :
    Serialized P (tr ++ [(i, .lookup)]) ((s.goto i p).setObjects objects) k o := by
  have hsame : ∀ j, (((s.goto i p).setObjects objects).phase j).returned =
      (s.phase j).returned := fun j =>
    s.goto_congr i j p Phase.returned (by rw [hreturned, hphase]; rfl)
  obtain ⟨new, hnew, hfresh⟩ := P.grows i s.objects
  rw [hfound] at hnew
  subst hnew
  rcases Nat.lt_or_ge k s.objects.length with hk | hk
  · rw [List.getElem?_append_left hk] at hobject
    refine (h o hobject).frame _ hsame (fun _ _ _ j _ hj => .inl ?_) nofun
    rw [State.setObjects_phase, s.goto_congr i j p Phase.pending (by rw [hpending, hphase]; rfl)]
      at hj
    exact hj
  · rw [List.getElem?_append_right hk] at hobject
    have hnone : ∀ j out, (((s.goto i p).setObjects (s.objects ++ new)).phase j).returned ≠
        some (k, out) := fun j out hj => by
      rw [hsame] at hj
      have := hl.exists_object j k out hj
      omega
    exact ⟨o, [], hfresh o (List.mem_of_getElem? hobject), .fresh hnone,
      fun j out _ hj => absurd hj (hnone j out)⟩

/-- A thread takes its lock. -/
theorem lock (hl : Locked P s) (hdone : ∀ i, (i, .unlock) ∈ tr ↔ ∃ k out, s.phase i = .done k out)
    (h : Serialized P tr s k o) {k' : Nat} {l : RwLock ι} (hphase : s.phase i = .waiting k')
    (hlock : (s.lock k').acquire (P.writes i) i = some l) :
    Serialized P (tr ++ [(i, .lock)]) ((s.setLock k' l).goto i (.holding k')) k o := by
  refine h.frame _ (fun j => ?_) (fun o₀ order hwritten j hw hj => ?_) fun j out hj heq => ?_
  · exact (s.setLock k' l).goto_congr i j _ Phase.returned (by rw [State.setLock_phase, hphase]; rfl)
  · by_cases hji : j = i
    · -- the writers of the object that have ended do not hold its lock any more
      subst hji
      rw [State.goto_phase_self] at hj
      cases hj
      right
      intro i' hi'
      obtain ⟨-, out, hout⟩ := (hwritten.mem i').mp hi'
      rcases Phase.held_or_done hout with hheld | hphase'
      · have hmem := (hl.holder k i').mpr hheld
        rw [(RwLock.acquire_writer hw hlock).1] at hmem
        cases hmem
      · exact precedes_concat.mpr (.inr ⟨rfl, (hdone i').mpr ⟨k, out, hphase'⟩⟩)
    · rw [State.goto_phase_ne _ _ _ _ hji] at hj
      exact .inl hj
  · cases heq
    rw [hphase] at hj
    cases hj

/-- A reader's body ends. -/
theorem leaveReader (hdone : ∀ i, (i, .unlock) ∈ tr ↔ ∃ k out, s.phase i = .done k out)
    (h : Serialized P tr s k o) {k' : Nat} {seen o' : σ} {out : ρ}
    (hphase : s.phase i = .running k' seen) (hbody : P.body seen i = some (out, o'))
    (hseen : k' = k → seen = o) (hw : P.writes i = false) :
    Serialized P (tr ++ [(i, .leave)]) (s.goto i (.executed k' out)) k o := by
  obtain ⟨o₀, order, hfresh, hwritten, hsaw⟩ := h
  refine ⟨o₀, order, hfresh, hwritten.frame _ (fun j hwj out' => ?_) (fun j hwj hj => .inl ?_),
    fun j out' hwj hj => ?_⟩
  · rw [State.goto_phase_ne]
    rintro rfl
    rw [hw] at hwj
    cases hwj
  · rwa [State.goto_phase_ne] at hj
    rintro rfl
    rw [hw] at hwj
    cases hwj
  · by_cases hji : j = i
    · rw [hji, State.goto_phase_self] at hj
      cases hj
      obtain rfl := hseen rfl
      obtain ⟨outs, hrun, -⟩ := hwritten.run
      rw [hji]
      refine ⟨order, List.prefix_rfl, ⟨outs, seen, o', hrun, hbody⟩, fun j hj _ => hj,
        fun j' _ hprec => ?_⟩
      -- the reader has not given its lock back
      have hmem := hprec.subset List.mem_cons_self
      rw [List.mem_append, List.mem_singleton, or_iff_left (by nofun), hdone] at hmem
      obtain ⟨_, _, hphase'⟩ := hmem
      rw [hphase] at hphase'
      cases hphase'
    · rw [State.goto_phase_ne _ _ _ _ hji] at hj
      exact (hsaw j out' hwj hj).concat nofun fun _ _ => nofun

/-- A writer's body ends. -/
theorem leaveWriter (hl : Locked P s)
    (hdone : ∀ i, (i, .unlock) ∈ tr ↔ ∃ k out, s.phase i = .done k out)
    (h : Serialized P tr s k o) {o' : σ} {out : ρ} (hphase : s.phase i = .running k o)
    (hbody : P.body o i = some (out, o')) (hw : P.writes i = true) (objects : List σ) :
    Serialized P (tr ++ [(i, .leave)]) ((s.goto i (.executed k out)).setObjects objects) k o' := by
  obtain ⟨o₀, order, hfresh, hwritten, hsaw⟩ := h
  refine ⟨o₀, order ++ [i], hfresh, hwritten.leave hl hw hphase hbody objects,
    fun j out' hwj hj => ?_⟩
  have hji : j ≠ i := by
    rintro rfl
    rw [hw] at hwj
    cases hwj
  rw [State.setObjects_phase, State.goto_phase_ne _ _ _ _ hji] at hj
  have hkept : Saw P (tr ++ [(i, .leave)]) o₀ order j out' := (hsaw j out' hwj hj).concat nofun
    fun _ _ => nofun
  refine hkept.append fun hprec => ?_
  -- the writer has not given its lock back
  have hmem := hprec.subset List.mem_cons_self
  rw [List.mem_append, List.mem_singleton, or_iff_left (by nofun), hdone] at hmem
  obtain ⟨k', out'', hphase'⟩ := hmem
  rw [hphase] at hphase'
  cases hphase'

/-- A writer's body ends for another object. -/
theorem leaveOther (h : Serialized P tr s k o) {k' : Nat} {seen : σ} {out : ρ} (hk : k' ≠ k)
    (hphase : s.phase i = .running k' seen) (objects : List σ) :
    Serialized P (tr ++ [(i, .leave)]) ((s.goto i (.executed k' out)).setObjects objects) k o := by
  obtain ⟨o₀, order, hfresh, hwritten, hsaw⟩ := h
  have hreturned : ∀ j out', (((s.goto i (.executed k' out)).setObjects objects).phase j).returned =
      some (k, out') ↔ (s.phase j).returned = some (k, out') := fun j out' => by
    rw [State.setObjects_phase]
    by_cases hji : j = i
    · rw [hji, State.goto_phase_self, hphase]
      exact iff_of_false (fun heq => hk (Prod.mk.inj (Option.some.inj heq)).1) nofun
    · rw [State.goto_phase_ne _ _ _ _ hji]
  refine ⟨o₀, order, hfresh, hwritten.frame _ (fun j _ => hreturned j) (fun j _ hj => .inl ?_),
    fun j out' hwj hj => ?_⟩
  · rw [State.setObjects_phase] at hj
    by_cases hji : j = i
    · rw [hji, State.goto_phase_self] at hj
      cases hj
    · rwa [State.goto_phase_ne _ _ _ _ hji] at hj
  · exact (hsaw j out' hwj ((hreturned j out').mp hj)).concat nofun fun _ _ => nofun

end Serialized

/-- In every interleaving the sections of an object lie one after the other. -/
theorem Program.Run.serialized (h : P.Run tr s) :
    ∀ k o, s.objects[k]? = some o → Serialized P tr s k o := by
  induction h with
  | start => nofun
  | @step tr s s' i a hrun hstep ih =>
    intro k o hobject
    have hl := hrun.locked
    cases P.step_cases hstep with
    | refused hphase hfound => exact .lookup hl (ih k) hphase hfound rfl rfl hobject
    | found hphase hfound => exact .lookup hl (ih k) hphase hfound rfl rfl hobject
    | lock hphase hlock => exact .lock hl hrun.unlocked (ih k o hobject) hphase hlock
    | @enter k' o' hphase _ =>
      refine (ih k o hobject).frame _ (fun j => ?_) (fun _ _ _ j _ hj => .inl ?_) nofun
      · exact s.goto_congr i j _ Phase.returned (by rw [hphase]; rfl)
      · rwa [s.goto_congr i j _ Phase.pending (by rw [hphase]; rfl)] at hj
    | @leaveReader k' seen o' out hphase hbody hw =>
      refine (ih k o hobject).leaveReader hrun.unlocked hphase hbody (fun hk => ?_) hw
      subst hk
      exact Option.some.inj ((hl.seen i k' seen hphase).symm.trans hobject)
    | @leaveWriter k' seen o' out hphase hbody hw =>
      rw [State.setObjects_objects, List.getElem?_set] at hobject
      split at hobject
      · rename_i hk
        subst hk
        have hseen := hl.seen i k' seen hphase
        rw [if_pos (List.getElem?_eq_some_iff.mp hseen).1] at hobject
        obtain rfl := Option.some.inj hobject
        exact .leaveWriter hl hrun.unlocked (ih k' seen hseen) hphase hbody hw _
      · rename_i hk
        exact .leaveOther (ih k o hobject) hk hphase _
    | @unlock k' out hphase =>
      refine (ih k o hobject).frame _ (fun j => ?_) (fun _ _ _ j _ hj => .inl ?_) nofun
      · exact (s.setLock k' _).goto_congr i j _ Phase.returned
          (by rw [State.setLock_phase, hphase]; rfl)
      · rwa [(s.setLock k' _).goto_congr i j _ Phase.pending
          (by rw [State.setLock_phase, hphase]; rfl)] at hj

/-! ## Rules for the objects -/

/-- What every lookup and every writer's body keep of the objects, and what a lookup finds of its
object and every body keeps of it, hold in every run. -/
theorem Program.Run.invariant {I : List σ → Prop} {J : ι → σ → Prop} (hstart : I [])
    (hlookup : ∀ {i objects found objects'}, I objects → P.lookup i objects = (found, objects') →
      I objects' ∧ ∀ k, found = .ok k → ∃ o, objects'[k]? = some o ∧ J i o)
    (hstore : ∀ {i k o out o' objects}, I objects → P.writes i = true → objects[k]? = some o →
      J i o → P.body o i = some (out, o') → I (objects.set k o') ∧ ∀ j, J j o → J j o')
    (h : P.Run tr s) :
    I s.objects ∧ ∀ i k, (s.phase i).object = some k → ∃ o, s.objects[k]? = some o ∧ J i o := by
  induction h with
  | start => exact ⟨hstart, nofun⟩
  | @step tr s s' i a hrun hstep ih =>
    obtain ⟨hI, hJ⟩ := ih
    have hkept : ∀ {p : Phase σ ρ} {new : List σ} {j : ι} {k : Nat}, j ≠ i →
        ((s.goto i p).phase j).object = some k → ∃ o, (s.objects ++ new)[k]? = some o ∧ J j o :=
      fun {p new j k} hji hj => by
        rw [State.goto_phase_ne _ _ _ _ hji] at hj
        obtain ⟨o, ho, hJo⟩ := hJ j k hj
        refine ⟨o, ?_, hJo⟩
        rw [List.getElem?_append_left (List.getElem?_eq_some_iff.mp ho).1]
        exact ho
    cases P.step_cases hstep with
    | @refused out objects hphase hfound =>
      obtain ⟨new, hnew, -⟩ := P.grows i s.objects
      rw [hfound] at hnew
      subst hnew
      refine ⟨(hlookup hI hfound).1, fun j k hj => ?_⟩
      by_cases hji : j = i
      · rw [State.setObjects_phase, hji, State.goto_phase_self] at hj
        cases hj
      · exact hkept hji hj
    | @found k' objects hphase hfound =>
      obtain ⟨new, hnew, -⟩ := P.grows i s.objects
      rw [hfound] at hnew
      subst hnew
      obtain ⟨hI', hJ'⟩ := hlookup hI hfound
      refine ⟨hI', fun j k hj => ?_⟩
      by_cases hji : j = i
      · rw [State.setObjects_phase, hji, State.goto_phase_self] at hj
        cases hj
        rw [hji]
        exact hJ' k' rfl
      · exact hkept hji hj
    | lock hphase hlock =>
      refine ⟨hI, fun j k hj => hJ j k ?_⟩
      rwa [(s.setLock _ _).goto_congr i j _ Phase.object (by rw [State.setLock_phase, hphase]; rfl)]
        at hj
    | enter hphase hobject =>
      refine ⟨hI, fun j k hj => hJ j k ?_⟩
      rwa [s.goto_congr i j _ Phase.object (by rw [hphase]; rfl)] at hj
    | leaveReader hphase hbody hw =>
      refine ⟨hI, fun j k hj => hJ j k ?_⟩
      rwa [s.goto_congr i j _ Phase.object (by rw [hphase]; rfl)] at hj
    | @leaveWriter k' o o' out hphase hbody hw =>
      have hseen := hrun.locked.seen i k' o hphase
      have hJi : J i o := by
        obtain ⟨o₁, ho₁, hJo₁⟩ := hJ i k' (by rw [hphase]; rfl)
        rw [hseen] at ho₁
        rwa [Option.some.inj ho₁]
      obtain ⟨hI', hJ'⟩ := hstore hI hw hseen hJi hbody
      refine ⟨hI', fun j k hj => ?_⟩
      rw [State.setObjects_phase, s.goto_congr i j _ Phase.object (by rw [hphase]; rfl)] at hj
      obtain ⟨o₁, ho₁, hJo₁⟩ := hJ j k hj
      rw [State.setObjects_objects, List.getElem?_set]
      split
      · rename_i hk
        subst hk
        rw [hseen] at ho₁
        obtain rfl := Option.some.inj ho₁
        exact ⟨o', if_pos (List.getElem?_eq_some_iff.mp hseen).1, hJ' j hJo₁⟩
      · exact ⟨o₁, ho₁, hJo₁⟩
    | unlock hphase =>
      refine ⟨hI, fun j k hj => hJ j k ?_⟩
      rwa [(s.setLock _ _).goto_congr i j _ Phase.object (by rw [State.setLock_phase, hphase]; rfl)]
        at hj

/-- A refused thread has the result of its lookup. -/
theorem Program.Run.refused {E : ι → ρ → Prop}
    (hlookup : ∀ {i objects out objects'}, P.lookup i objects = (.error out, objects') → E i out)
    (h : P.Run tr s) (i : ι) (out : ρ) (hphase : s.phase i = .refused out) : E i out := by
  induction h with
  | start => cases hphase
  | @step tr s s' j a hrun hstep ih =>
    by_cases hi : i = j
    · subst hi
      cases P.step_cases hstep with
      | refused _ hfound =>
        rw [State.setObjects_phase, State.goto_phase_self] at hphase
        cases hphase
        exact hlookup hfound
      | _ => simp at hphase
    · apply ih
      cases P.step_cases hstep with
      | _ => simpa [hi] using hphase

/-- The result of a thread is that of its lookup or of its body. -/
theorem Program.Run.outcome {E : ι → ρ → Prop}
    (hlookup : ∀ {i objects out objects'}, P.lookup i objects = (.error out, objects') → E i out)
    (hbody : ∀ {tr s i k o out o'}, P.Run tr s → s.phase i = .running k o →
      P.body o i = some (out, o') → E i out)
    (h : P.Run tr s) (i : ι) (out : ρ) (hresult : (s.phase i).result = some out) : E i out := by
  induction h with
  | start => cases hresult
  | @step tr s s' j a hrun hstep ih =>
    by_cases hi : i = j
    · subst hi
      cases P.step_cases hstep with
      | refused _ hfound =>
        rw [State.setObjects_phase, State.goto_phase_self] at hresult
        cases hresult
        exact hlookup hfound
      | leaveReader hphase hran _ =>
        rw [State.goto_phase_self] at hresult
        cases hresult
        exact hbody hrun hphase hran
      | leaveWriter hphase hran _ =>
        rw [State.setObjects_phase, State.goto_phase_self] at hresult
        cases hresult
        exact hbody hrun hphase hran
      | unlock hphase =>
        rw [State.goto_phase_self] at hresult
        refine ih ?_
        rw [hphase]
        exact hresult
      | _ => simp [Phase.result] at hresult
    · apply ih
      cases P.step_cases hstep with
      | _ => simpa [hi] using hresult

/-! ## Ends and progress -/

namespace Phase

/-- The result of a thread that has come to its end. -/
def final : Phase σ ρ → Option ρ
  | refused out => some out
  | done _ out => some out
  | _ => none

/-- The thread has taken its lock. -/
def tookLock : Phase σ ρ → Bool
  | holding _ => true
  | running _ _ => true
  | executed _ _ => true
  | done _ _ => true
  | _ => false

/-- The steps that a thread has before it, if it is not refused. -/
def left : Phase σ ρ → Nat
  | ready => 5
  | waiting _ => 4
  | holding _ => 3
  | running _ _ => 2
  | executed _ _ => 1
  | _ => 0

theorem result_of_final {p : Phase σ ρ} {out : ρ} (h : p.final = some out) :
    p.result = some out := by
  cases p with
  | refused _ => exact h
  | done _ _ => exact h
  | _ => cases h

theorem tookLock_of_returned {p : Phase σ ρ} {k : Nat} {out : ρ}
    (h : p.returned = some (k, out)) : p.tookLock = true := by
  cases p with
  | executed _ _ => rfl
  | done _ _ => rfl
  | _ => cases h

theorem not_final_of_held {p : Phase σ ρ} {k : Nat} (h : p.held = some k) : p.final = none := by
  cases p with
  | refused _ => cases h
  | done _ _ => cases h
  | _ => rfl

end Phase

/-- A step is that of one thread. -/
theorem Program.step_phase_ne (h : P.step s i = some (a, s')) {j : ι} (hj : j ≠ i) :
    s'.phase j = s.phase j := by
  cases P.step_cases h with
  | _ => simp [hj]

theorem Program.step_left (h : P.step s i = some (a, s')) :
    (s'.phase i).left < (s.phase i).left := by
  cases P.step_cases h with
  | _ => simp [Phase.left, *]

theorem Program.step_final {out : ρ} (hfinal : (s.phase i).final = some out) :
    P.step s i = none := by
  unfold Program.step
  cases hphase : s.phase i with
  | refused _ => rfl
  | done _ _ => rfl
  | _ =>
    rw [hphase] at hfinal
    cases hfinal

/-- The threads that took their lock. -/
theorem Program.Run.took (h : P.Run tr s) (i : ι) :
    (i, .lock) ∈ tr ↔ (s.phase i).tookLock = true := by
  induction h with
  | start => exact iff_of_false nofun nofun
  | @step tr s s' j a _ hstep ih =>
    rw [List.mem_append, List.mem_singleton, ih]
    by_cases hi : i = j
    · subst hi
      cases P.step_cases hstep with
      | _ => simp [Phase.tookLock, *]
    · rw [Program.step_phase_ne hstep hi]
      exact or_iff_left fun heq => hi (Prod.mk.inj heq).1

omit [DecidableEq ι] in
theorem Precedes.mem_unlock {i j : ι} (h : Precedes tr i j) : (i, .unlock) ∈ tr :=
  h.subset List.mem_cons_self

/-- Of two sections one is first. -/
theorem Program.Run.asymm (h : P.Run tr s) {i j : ι} (hij : Precedes tr i j) :
    ¬ Precedes tr j i := by
  induction h with
  | start => cases hij
  | @step tr s s' k a hrun hstep ih =>
    -- a thread that gave its lock back does not take it again
    have honce : ∀ {i : ι}, (i, .unlock) ∈ tr → (k, a) ≠ (i, .lock) := by
      rintro i hmem heq
      obtain ⟨k', out, hdone⟩ := (hrun.unlocked i).mp hmem
      have hfinal : (s.phase i).final = some out := by
        rw [hdone]
        rfl
      rw [(Prod.mk.inj heq).1, Program.step_final hfinal] at hstep
      cases hstep
    intro hji
    rcases precedes_concat.mp hij with hij | ⟨hev, hi⟩
    · rcases precedes_concat.mp hji with hji | ⟨hev', -⟩
      · exact ih hij hji
      · exact honce hij.mem_unlock hev'
    · rcases precedes_concat.mp hji with hji | ⟨hev', -⟩
      · exact honce hji.mem_unlock hev
      · exact honce hi hev'

theorem Program.step_ready (hready : s.phase i = .ready) : ∃ r, P.step s i = some r := by
  unfold Program.step
  rw [hready]
  simp only
  rcases P.lookup i s.objects with ⟨_ | _, _⟩
  · exact ⟨_, rfl⟩
  · exact ⟨_, rfl⟩

/-- A thread that holds a lock goes on. -/
theorem Program.step_held {k : Nat} (hheld : (s.phase i).held = some k)
    (hobject : ∃ o, s.objects[k]? = some o)
    (hbody : ∀ o, s.phase i = .running k o → ∃ r, P.body o i = some r) :
    ∃ r, P.step s i = some r := by
  unfold Program.step
  cases hphase : s.phase i with
  | holding k' =>
    rw [hphase] at hheld
    cases hheld
    obtain ⟨o, ho⟩ := hobject
    simp only [ho, Option.map_some]
    exact ⟨_, rfl⟩
  | running k' o =>
    rw [hphase] at hheld
    cases hheld
    obtain ⟨r, hr⟩ := hbody o hphase
    simp only [hr, Option.map_some]
    exact ⟨_, rfl⟩
  | executed k' out => exact ⟨_, rfl⟩
  | _ =>
    rw [hphase] at hheld
    cases hheld

/-- A thread that has not come to its end goes on, or another does that holds the lock it waits
for. -/
theorem Locked.progress (hl : Locked P s)
    (hobject : ∀ i k, (s.phase i).object = some k → ∃ o, s.objects[k]? = some o)
    (hbody : ∀ i k o, s.phase i = .running k o → ∃ r, P.body o i = some r)
    (h : (s.phase i).final = none) :
    ∃ j r, P.step s j = some r ∧ (j = i ∨ ∃ k, (s.phase j).held = some k) := by
  have hobjectOf : ∀ {j : ι} {k : Nat}, (s.phase j).held = some k →
      (s.phase j).object = some k := by
    intro j k hheld
    cases hphase : s.phase j <;> rw [hphase] at hheld <;> first | exact hheld | cases hheld
  have hheldStep : ∀ {j : ι} {k : Nat}, (s.phase j).held = some k →
      ∃ r, P.step s j = some r := fun {j k} hheld =>
    Program.step_held hheld (hobject j k (hobjectOf hheld)) fun o ho => hbody j k o ho
  cases hphase : s.phase i with
  | ready =>
    obtain ⟨r, hr⟩ := Program.step_ready (P := P) hphase
    exact ⟨i, r, hr, .inl rfl⟩
  | refused _ =>
    rw [hphase] at h
    cases h
  | done _ _ =>
    rw [hphase] at h
    cases h
  | waiting k =>
    cases hacquire : (s.lock k).acquire (P.writes i) i with
    | none =>
      obtain ⟨j, hj⟩ := RwLock.exists_holder hacquire
      have hheld := (hl.holder k j).mp hj
      obtain ⟨r, hr⟩ := hheldStep hheld
      exact ⟨j, r, hr, .inr ⟨k, hheld⟩⟩
    | some l =>
      refine ⟨i, (.lock, (s.setLock k l).goto i (.holding k)), ?_, .inl rfl⟩
      unfold Program.step
      rw [hphase]
      simp only
      rw [hacquire, Option.map_some]
  | _ =>
    obtain ⟨r, hr⟩ := hheldStep (j := i) (by rw [hphase]; rfl)
    exact ⟨i, r, hr, .inl rfl⟩

end Sections
