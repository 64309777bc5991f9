import Mathlib.Data.List.Induction

/-!
# Properties of the steps of a run

A run is the list of its steps. What is said of every step may look at the steps before it.
-/

namespace Runs

variable {σ : Type*} {P : List σ → σ → Prop}

/-- Every step has the property, behind the steps before it. -/
def Every (P : List σ → σ → Prop) (steps : List σ) : Prop :=
  ∀ before step, before ++ [step] <+: steps → P before step

theorem every_nil (P : List σ → σ → Prop) : Every P [] := by
  intro before step hprefix
  exact absurd (List.prefix_nil.mp hprefix) (List.append_ne_nil_of_right_ne_nil _ nofun)

theorem every_concat {steps : List σ} {step : σ} :
    Every P (steps ++ [step]) ↔ Every P steps ∧ P steps step := by
  constructor
  · intro h
    refine ⟨fun before last hprefix => h before last ?_, h steps step (List.prefix_refl _)⟩
    exact hprefix.trans (List.prefix_append _ _)
  · rintro ⟨hall, hlast⟩ before last hprefix
    rcases List.prefix_concat_iff.mp hprefix with heq | hprefix
    · obtain ⟨rfl, hlast'⟩ := List.append_inj' heq rfl
      cases hlast'
      exact hlast
    · exact hall before last hprefix

end Runs
