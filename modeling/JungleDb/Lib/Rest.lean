import Mathlib.Tactic.ByContra

/-!
# Coming to rest

Steps that make a measure smaller come to an end, whichever of them are taken. The measure need only
do so in the states that an invariant allows.
-/

namespace Rest

variable {σ : Type*} {step : σ → σ → Prop} {s s' : σ} {n : Nat}

/-- A number of steps. -/
inductive Steps (step : σ → σ → Prop) : Nat → σ → σ → Prop
  | refl (s : σ) : Steps step 0 s s
  | step {n : Nat} {s s' s'' : σ} : Steps step n s s' → step s' s'' → Steps step (n + 1) s s''

/-- No step can be taken. -/
def Resting (step : σ → σ → Prop) (s : σ) : Prop := ∀ s', ¬ step s s'

variable {I : σ → Prop} {cost : σ → Nat}

theorem Steps.invariant (hkeep : ∀ s s', I s → step s s' → I s') (hs : I s)
    (h : Steps step n s s') : I s' := by
  induction h with
  | refl => exact hs
  | step _ hstep ih => exact hkeep _ _ (ih hs) hstep

theorem Steps.bounded (hkeep : ∀ s s', I s → step s s' → I s')
    (hless : ∀ s s', I s → step s s' → cost s' < cost s) (hs : I s) (h : Steps step n s s') :
    n + cost s' ≤ cost s := by
  induction h with
  | refl => exact Nat.le_of_eq (Nat.zero_add _)
  | step hsteps hstep ih =>
    have hsmaller := hless _ _ (hsteps.invariant hkeep hs) hstep
    have hbound := ih hs
    omega

/-- Some of the steps come to rest. -/
theorem exists_resting (hkeep : ∀ s s', I s → step s s' → I s')
    (hless : ∀ s s', I s → step s s' → cost s' < cost s) (hs : I s) :
    ∃ n s', Steps step n s s' ∧ Resting step s' := by
  by_contra hnone
  have hmore : ∀ n, ∃ s', Steps step n s s' := by
    intro n
    induction n with
    | zero => exact ⟨s, .refl s⟩
    | succ n ih =>
      obtain ⟨s', hs'⟩ := ih
      by_contra hend
      exact hnone ⟨n, s', hs', fun s'' hstep => hend ⟨s'', hs'.step hstep⟩⟩
  obtain ⟨s', hs'⟩ := hmore (cost s + 1)
  have hbound : cost s + 1 + cost s' ≤ cost s := hs'.bounded hkeep hless hs
  omega

end Rest
