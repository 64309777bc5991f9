import Mathlib.Logic.Relation

/-!
# Machines that answer

A machine reads an input in a state, gives an answer and goes to a next state; its step is partial,
as a program's is. A specification is a total machine over abstract states. When a relation between
the two kinds of states is kept by every input, with equal answers, the machine never gets stuck and
gives the answers of the specification, in any run; so two states with one abstract state cannot be
told apart by any inputs.
-/

namespace Machine

variable {σ α ι ο : Type}

/-- The answers to a list of inputs and the last state. -/
def run (step : σ → ι → Option (ο × σ)) : σ → List ι → Option (List ο × σ)
  | s, [] => some ([], s)
  | s, i :: is => do
    let (o, s) ← step s i
    let (os, s) ← run step s is
    some (o :: os, s)

/-- A run with one more input. -/
theorem run_concat {step : σ → ι → Option (ο × σ)} {s s' s'' : σ} {is : List ι} {os : List ο}
    {i : ι} {o : ο} (hrun : run step s is = some (os, s')) (hstep : step s' i = some (o, s'')) :
    run step s (is ++ [i]) = some (os ++ [o], s'') := by
  induction is generalizing s os with
  | nil =>
    cases hrun
    rw [List.nil_append, run, hstep]
    rfl
  | cons j is ih =>
    rw [run, Option.bind_eq_bind, Option.bind_eq_some_iff] at hrun
    obtain ⟨⟨p, t⟩, hp, hrun⟩ := hrun
    rw [Option.bind_eq_bind, Option.bind_eq_some_iff] at hrun
    obtain ⟨⟨ps, t'⟩, hps, hrun⟩ := hrun
    cases hrun
    simp only [List.cons_append, run, hp, ih hps, Option.bind_eq_bind, Option.bind_some]

/-- A run falls into that of the first inputs and that of the others. -/
theorem run_append {step : σ → ι → Option (ο × σ)} {s s'' : σ} {is js : List ι} {os : List ο}
    (hrun : run step s (is ++ js) = some (os, s'')) :
    ∃ os₁ os₂ s', run step s is = some (os₁, s') ∧ run step s' js = some (os₂, s'') ∧
      os = os₁ ++ os₂ ∧ os₁.length = is.length := by
  induction is generalizing s os with
  | nil => exact ⟨[], os, s, rfl, hrun, rfl, rfl⟩
  | cons i is ih =>
    rw [List.cons_append, run, Option.bind_eq_bind, Option.bind_eq_some_iff] at hrun
    obtain ⟨⟨o, t⟩, ho, hrun⟩ := hrun
    rw [Option.bind_eq_bind, Option.bind_eq_some_iff] at hrun
    obtain ⟨⟨os, t'⟩, hos, hrun⟩ := hrun
    cases hrun
    obtain ⟨os₁, os₂, s', h₁, h₂, rfl, hlen⟩ := ih hos
    refine ⟨o :: os₁, os₂, s', ?_, h₂, rfl, by rw [List.length_cons, hlen, List.length_cons]⟩
    simp only [run, ho, h₁, Option.bind_eq_bind, Option.bind_some]

/-- The same for a specification. -/
def specRun (spec : α → ι → ο × α) : α → List ι → List ο × α
  | a, [] => ([], a)
  | a, i :: is =>
    let next := spec a i
    let rest := specRun spec next.2 is
    (next.1 :: rest.1, rest.2)

/-- The states that inputs lead to. -/
inductive Reachable (step : σ → ι → Option (ο × σ)) (start : σ) : σ → Prop
  | start : Reachable step start start
  | step {s s' : σ} {i : ι} {o : ο} :
    Reachable step start s → step s i = some (o, s') → Reachable step start s'

/-- The states at the ends of runs. -/
theorem reachable_of_run {step : σ → ι → Option (ο × σ)} {start s : σ} {is : List ι} {os : List ο}
    (h : run step start is = some (os, s)) : Reachable step start s := by
  suffices ∀ {t : σ} {os : List ο}, Reachable step start t → run step t is = some (os, s) →
    Reachable step start s from this .start h
  clear h os
  induction is with
  | nil =>
    intro t os ht h
    cases h
    exact ht
  | cons i is ih =>
    intro t os ht h
    rw [run, Option.bind_eq_bind, Option.bind_eq_some_iff] at h
    obtain ⟨⟨o, t'⟩, hstep, h⟩ := h
    rw [Option.bind_eq_bind, Option.bind_eq_some_iff] at h
    obtain ⟨⟨os', s'⟩, hrun, h⟩ := h
    cases h
    exact ih (ht.step hstep) hrun

/-- The relation is kept by every input, and the answers are those of the specification. -/
def Simulates (step : σ → ι → Option (ο × σ)) (spec : α → ι → ο × α) (R : σ → α → Prop) : Prop :=
  ∀ {s a}, R s a → ∀ i, ∃ s', step s i = some ((spec a i).1, s') ∧ R s' (spec a i).2

namespace Simulates

variable {step : σ → ι → Option (ο × σ)} {spec : α → ι → ο × α} {R : σ → α → Prop}

/-- A run gives the answers of the specification. -/
theorem run (h : Simulates step spec R) {s : σ} {a : α} (hR : R s a) (is : List ι) :
    ∃ s', Machine.run step s is = some ((specRun spec a is).1, s') ∧ R s' (specRun spec a is).2 := by
  induction is generalizing s a with
  | nil => exact ⟨s, rfl, hR⟩
  | cons i is ih =>
    obtain ⟨s₁, hstep, hR₁⟩ := h hR i
    obtain ⟨s₂, hrun, hR₂⟩ := ih hR₁
    refine ⟨s₂, ?_, hR₂⟩
    simp only [Machine.run, hstep, hrun, Option.bind_eq_bind, Option.bind_some, specRun]

/-- Every reachable state stands for an abstract state. -/
theorem reachable (h : Simulates step spec R) {start s : σ} {a : α} (hR : R start a)
    (hs : Reachable step start s) : ∃ a', R s a' := by
  induction hs with
  | start => exact ⟨a, hR⟩
  | step _ hstep ih =>
    obtain ⟨a', hR'⟩ := ih
    obtain ⟨s', hstep', hR''⟩ := h hR' _
    rw [hstep, Option.some.injEq, Prod.mk.injEq] at hstep'
    rw [← hstep'.2] at hR''
    exact ⟨_, hR''⟩

/-- Two states that stand for one abstract state give the same answers to all inputs. -/
theorem answers_eq (h : Simulates step spec R) {s t : σ} {a : α} (hs : R s a) (ht : R t a)
    (is : List ι) : ∃ os, (Machine.run step s is).map Prod.fst = some os ∧
      (Machine.run step t is).map Prod.fst = some os := by
  obtain ⟨s', hrun, -⟩ := h.run hs is
  obtain ⟨t', hrun', -⟩ := h.run ht is
  exact ⟨(specRun spec a is).1, by rw [hrun]; rfl, by rw [hrun']; rfl⟩

end Simulates

/-! ## States in step -/

/-- Related states give the same answer to every input and go on to related states. -/
def Lockstep (step : σ → ι → Option (ο × σ)) (R : σ → σ → Prop) : Prop :=
  ∀ {s t}, R s t → ∀ i, Option.Rel (fun p q => p.1 = q.1 ∧ R p.2 q.2) (step s i) (step t i)

/-- Related states cannot be told apart by any inputs. -/
theorem Lockstep.answers_eq {step : σ → ι → Option (ο × σ)} {R : σ → σ → Prop}
    (h : Lockstep step R) {s t : σ} (hR : R s t) (is : List ι) :
    (run step s is).map Prod.fst = (run step t is).map Prod.fst := by
  induction is generalizing s t with
  | nil => rfl
  | cons i is ih =>
    have hstep := h hR i
    rw [run, run]
    generalize step s i = p at hstep
    generalize step t i = q at hstep
    cases hstep with
    | none => rfl
    | @some p q hpq =>
      obtain ⟨o, s'⟩ := p
      obtain ⟨o', t'⟩ := q
      obtain ⟨rfl, hR'⟩ := hpq
      have hrest := ih hR'
      simp only [Option.bind_eq_bind, Option.bind_some]
      revert hrest
      cases run step s' is <;> cases run step t' is
      · exact fun _ => rfl
      · exact nofun
      · exact nofun
      · intro hrest
        rw [Option.map_some, Option.map_some, Option.some.injEq] at hrest
        simp only [Option.bind_some, Option.map_some, hrest]

/-! ## Answers that are seen in part -/

/-- States with one view give answers that look the same, to all inputs. -/
theorem specRun_observed {β γ : Type} (spec : α → ι → ο × α) (view : α → β) (observe : ο → γ)
    (h : ∀ {a b : α}, view a = view b → ∀ i, observe (spec a i).1 = observe (spec b i).1 ∧
      view (spec a i).2 = view (spec b i).2) {a b : α} (hview : view a = view b) (is : List ι) :
    (specRun spec a is).1.map observe = (specRun spec b is).1.map observe := by
  induction is generalizing a b with
  | nil => rfl
  | cons i is ih =>
    obtain ⟨hanswer, hnext⟩ := h hview i
    rw [specRun, specRun, List.map_cons, List.map_cons, hanswer, ih hnext]

/-! ## Inputs that are not seen -/

/-- The answers to the inputs that are seen. -/
def answersTo (sees : ι → Bool) (is : List ι) (os : List ο) : List ο :=
  ((is.zip os).filter fun p => sees p.1).map Prod.snd

theorem answersTo_cons (sees : ι → Bool) (i : ι) (is : List ι) (o : ο) (os : List ο) :
    answersTo sees (i :: is) (o :: os) =
      if sees i then o :: answersTo sees is os else answersTo sees is os := by
  unfold answersTo
  rw [List.zip_cons_cons, List.filter_cons]
  split <;> rfl

/-- Part of the abstract state is all that the inputs seen read and write, and the other inputs
leave it. -/
structure Views {β : Type} (spec : α → ι → ο × α) (sees : ι → Bool) (view : α → β) : Prop where
  blind : ∀ {a i}, sees i = false → view (spec a i).2 = view a
  seen : ∀ {a b i}, sees i = true → view a = view b →
    (spec a i).1 = (spec b i).1 ∧ view (spec a i).2 = view (spec b i).2

namespace Views

variable {β : Type} {spec : α → ι → ο × α} {sees : ι → Bool} {view : α → β}

/-- The answers to the inputs seen are those of a run of these inputs only. -/
theorem answersTo_eq (h : Views spec sees view) {a b : α} (hview : view a = view b) (is : List ι) :
    answersTo sees is (specRun spec a is).1 = (specRun spec b (is.filter sees)).1 := by
  induction is generalizing a b with
  | nil => rfl
  | cons i is ih =>
    rw [specRun, answersTo_cons, List.filter_cons]
    cases hi : sees i with
    | true =>
      obtain ⟨hanswer, hnext⟩ := h.seen hi hview
      rw [if_pos rfl, if_pos rfl, specRun, ih hnext, hanswer]
    | false =>
      rw [if_neg Bool.false_ne_true, if_neg Bool.false_ne_true]
      exact ih ((h.blind hi).trans hview)

/-- Two runs with the same inputs seen give the same answers to them. -/
theorem answersTo_congr (h : Views spec sees view) {a b : α} (hview : view a = view b)
    {is js : List ι} (his : is.filter sees = js.filter sees) :
    answersTo sees is (specRun spec a is).1 = answersTo sees js (specRun spec b js).1 := by
  rw [h.answersTo_eq hview is, h.answersTo_eq (b := b) rfl js, his]

end Views

/-! ## Inputs that are rejected -/

/-- The inputs with answers of a kind. -/
def answered (accepts : ο → Bool) (is : List ι) (os : List ο) : List ι :=
  ((is.zip os).filter fun p => accepts p.2).map Prod.fst

section Rejected

variable {spec : α → ι → ο × α} {accepts : ο → Bool}
  (hrejects : ∀ a i, accepts (spec a i).1 = false → (spec a i).2 = a)

include hrejects

end Rejected

end Machine
