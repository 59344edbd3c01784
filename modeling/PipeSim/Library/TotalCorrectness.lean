import PipeSim.Library.Transition

/-!
# Total correctness of machines

A postcondition is met when the machine finishes from every state with the precondition, in a
state with the postcondition.  Assertions at some states of a run are enough to show this: from
each of them the machine finishes as required, or it comes to one that is smaller in a
well-founded order.
-/

namespace PipeSim
namespace Library

variable {σ ι : Type}

namespace Machine

/-- From every state with `P` the machine finishes, in a state with `Q`. -/
def Finishes (M : Machine σ) (P Q : σ -> Prop) : Prop :=
  forall s, P s -> exists n t, FinishesIn M n s t ∧ Q t

section Finishes

variable {M : Machine σ} {P Q A : σ -> Prop} {s t : σ}

theorem finishesIn_one (h : M s = (true, t)) : FinishesIn M 1 s t :=
  ⟨0, s, rfl, Reaches.refl s, h⟩

/-- The rule of the inductive assertions. -/
theorem Finishes.of_assertions {r : ι -> ι -> Prop} (hr : WellFounded r) (μ : σ -> ι)
    (h : forall s, A s -> (exists t, M s = (true, t) ∧ Q t) ∨
      exists n t, Reaches M n s t ∧ A t ∧ r (μ t) (μ s)) : Finishes M A Q := by
  intro s
  induction s using (InvImage.wf μ hr).induction with
  | _ s ih =>
      intro hs
      rcases h s hs with ⟨t, hlast, ht⟩ | ⟨n, t, hreach, ht, hsmaller⟩
      · exact ⟨1, t, finishesIn_one hlast, ht⟩
      · rcases ih t hsmaller ht with ⟨m, u, hfinish, hu⟩
        exact ⟨n + m, u, FinishesIn.of_reaches hreach hfinish, hu⟩

end Finishes

end Machine

end Library
end PipeSim
