import Mathlib.Data.Set.Basic
import Mathlib.Logic.Function.Basic
import Mathlib.Tactic.Common

/-!
# Programs on a store and their footprints

A program reads and writes the places of a store and may fail to return.  Its footprint says
which places it looks at and which it may change: from stores that agree on the former it does
the same, and it leaves the others alone.  A program that does not look at what it changes can
be run again without effect, and two programs that keep out of each other's way commute.
-/

namespace PipeSim
namespace Library

variable {κ γ ω ν : Type}

/-- A program that reads and writes a store; `none` when it does not return. -/
abbrev Program (κ γ ω : Type) := StateT (κ -> γ) Option ω

namespace Program

def readAt (k : κ) : Program κ γ γ := fun s => some (s k, s)

def writeAt [DecidableEq κ] (k : κ) (c : γ) : Program κ γ Unit :=
  fun s => some ((), Function.update s k c)

def ofOption (a : Option ω) : Program κ γ ω := fun s => a.map fun result => (result, s)

section Apply

variable (s : κ -> γ)

@[simp] theorem pure_apply (a : ω) : (Pure.pure a : Program κ γ ω) s = some (a, s) := rfl

@[simp] theorem bind_apply (P : Program κ γ ω) (f : ω -> Program κ γ ν) :
    (P >>= f) s = (P s).bind fun r => f r.1 r.2 := rfl

@[simp] theorem readAt_apply (k : κ) : readAt k s = some (s k, s) := rfl

@[simp] theorem writeAt_apply [DecidableEq κ] (k : κ) (c : γ) :
    writeAt k c s = some ((), Function.update s k c) := rfl

@[simp] theorem ofOption_apply (a : Option ω) :
    ofOption a s = a.map fun result => (result, s) := rfl

end Apply

end Program

def AgreeOn (R : Set κ) (s t : κ -> γ) : Prop := forall k, k ∈ R -> s k = t k

/-- Each place is left alone in both runs, or one that may be changed gets the same contents
in both. -/
def SameEffect (W : Set κ) (s s' t t' : κ -> γ) : Prop :=
  forall k, (s' k = s k ∧ t' k = t k) ∨ (k ∈ W ∧ s' k = t' k)

/-- The program looks at the places in `R` and changes none outside of `W`. -/
def Footprint (P : Program κ γ ω) (R W : Set κ) : Prop :=
  forall s t, AgreeOn R s t ->
    (P s = none ∧ P t = none) ∨
      exists o s' t', P s = some (o, s') ∧ P t = some (o, t') ∧ SameEffect W s s' t t'

namespace Footprint

variable {P : Program κ γ ω} {Q : Program κ γ ν} {R W R' W' : Set κ} {s s' t : κ -> γ} {o : ω}

/-!
## Building footprints
-/

theorem pure (a : ω) : Footprint (Pure.pure a : Program κ γ ω) R W := by
  intro s t _
  exact Or.inr ⟨a, s, t, rfl, rfl, fun _ => Or.inl ⟨rfl, rfl⟩⟩

theorem ofOption (a : Option ω) : Footprint (Program.ofOption a : Program κ γ ω) R W := by
  intro s t _
  cases a with
  | none =>
      exact Or.inl ⟨rfl, rfl⟩
  | some o =>
      exact Or.inr ⟨o, s, t, rfl, rfl, fun _ => Or.inl ⟨rfl, rfl⟩⟩

theorem readAt {k : κ} (hk : k ∈ R) : Footprint (Program.readAt k : Program κ γ γ) R W := by
  intro s t hagree
  refine Or.inr ⟨s k, s, t, rfl, ?_, fun _ => Or.inl ⟨rfl, rfl⟩⟩
  rw [hagree k hk]
  rfl

theorem writeAt [DecidableEq κ] {k : κ} (hk : k ∈ W) (c : γ) :
    Footprint (Program.writeAt k c : Program κ γ Unit) R W := by
  intro s t _
  refine Or.inr ⟨(), _, _, rfl, rfl, ?_⟩
  intro j
  by_cases hj : j = k
  · subst hj
    exact Or.inr ⟨hk, by rw [Function.update_self, Function.update_self]⟩
  · exact Or.inl ⟨Function.update_of_ne hj _ _, Function.update_of_ne hj _ _⟩

theorem bind_of_returns {f : ω -> Program κ γ ν} (h : Footprint P R W)
    (hf : forall a s s', P s = some (a, s') -> Footprint (f a) R W) :
    Footprint (P >>= f) R W := by
  intro s t hagree
  rcases h s t hagree with ⟨hs, ht⟩ | ⟨o, s', t', hs, ht, heffect⟩
  · left
    constructor
    · rw [Program.bind_apply, hs]
      rfl
    · rw [Program.bind_apply, ht]
      rfl
  · have hs' : (P >>= f) s = f o s' := by
      rw [Program.bind_apply, hs]
      rfl
    have ht' : (P >>= f) t = f o t' := by
      rw [Program.bind_apply, ht]
      rfl
    have hagree' : AgreeOn R s' t' := by
      intro k hk
      rcases heffect k with ⟨hks, hkt⟩ | ⟨_, hsame⟩
      · rw [hks, hkt, hagree k hk]
      · exact hsame
    rw [hs', ht']
    rcases hf o s s' hs s' t' hagree' with hnone | ⟨r, s'', t'', hs'', ht'', hthen⟩
    · exact Or.inl hnone
    · refine Or.inr ⟨r, s'', t'', hs'', ht'', ?_⟩
      intro k
      rcases hthen k with ⟨hks, hkt⟩ | hsame
      · rw [hks, hkt]
        exact heffect k
      · exact Or.inr hsame

theorem bind {f : ω -> Program κ γ ν} (h : Footprint P R W) (hf : forall a, Footprint (f a) R W) :
    Footprint (P >>= f) R W :=
  h.bind_of_returns fun a _ _ _ => hf a

/-!
## What a footprint says
-/

theorem frame (h : Footprint P R W) (hrun : P s = some (o, s')) {k : κ} (hk : k ∉ W) :
    s' k = s k := by
  rcases h s s fun _ _ => rfl with ⟨hnone, _⟩ | ⟨_, _, _, hs, _, heffect⟩
  · rw [hrun] at hnone
    cases hnone
  · rw [hrun] at hs
    cases hs
    rcases heffect k with ⟨hsame, _⟩ | ⟨hmem, _⟩
    · exact hsame
    · exact absurd hmem hk

theorem agreeOn (h : Footprint P R W) (hrun : P s = some (o, s'))
    (hdisjoint : forall k, k ∈ W -> k ∉ R') : AgreeOn R' s s' :=
  fun k hk => (h.frame hrun fun hmem => hdisjoint k hmem hk).symm

theorem returns (h : Footprint P R W) (hagree : AgreeOn R s t) (hrun : P s = some (o, s')) :
    exists t', P t = some (o, t') := by
  rcases h s t hagree with ⟨hnone, _⟩ | ⟨_, _, t', hs, ht, _⟩
  · rw [hrun] at hnone
    cases hnone
  · rw [hrun] at hs
    cases hs
    exact ⟨t', ht⟩

/-- A program that does not look at what it changes has no further effect when it is run
again. -/
theorem rerun (h : Footprint P R W) (hdisjoint : forall k, k ∈ W -> k ∉ R)
    (hrun : P s = some (o, s')) : P s' = some (o, s') := by
  rcases h s s' (h.agreeOn hrun hdisjoint) with ⟨hnone, _⟩ | ⟨_, _, s'', hs, hs', heffect⟩
  · rw [hrun] at hnone
    cases hnone
  · rw [hrun] at hs
    cases hs
    rw [hs']
    congr 2
    funext k
    rcases heffect k with ⟨_, hsame⟩ | ⟨_, hsame⟩
    · exact hsame
    · exact hsame.symm

/-- Programs that keep out of each other's way can be run in either order. -/
theorem commute (h : Footprint P R W) (h' : Footprint Q R' W')
    (hPQ : forall k, k ∈ W -> k ∉ R') (hQP : forall k, k ∈ W' -> k ∉ R)
    (hWW : forall k, k ∈ W -> k ∉ W') {o' : ν} {s₁ s₁₂ : κ -> γ}
    (hP : P s = some (o, s₁)) (hQ : Q s₁ = some (o', s₁₂)) :
    exists s₂, Q s = some (o', s₂) ∧ P s₂ = some (o, s₁₂) := by
  rcases h' s s₁ (h.agreeOn hP hPQ) with ⟨_, hnone⟩ | ⟨_, s₂, _, hQs, hQs₁, heffect⟩
  · rw [hQ] at hnone
    cases hnone
  · rw [hQ] at hQs₁
    cases hQs₁
    refine ⟨s₂, hQs, ?_⟩
    rcases h s s₂ (h'.agreeOn hQs hQP) with ⟨hnone, _⟩ | ⟨_, _, s₂₁, hPs, hPs₂, heffect'⟩
    · rw [hP] at hnone
      cases hnone
    · rw [hP] at hPs
      cases hPs
      rw [hPs₂]
      congr 2
      funext k
      rcases heffect k with ⟨hQ2, hQ12⟩ | ⟨hk', hQ2⟩
      · rcases heffect' k with ⟨hP1, hP21⟩ | ⟨_, hP1⟩
        · rw [hP21, hQ2, hQ12, hP1]
        · rw [hQ12, hP1]
      · rcases heffect' k with ⟨_, hP21⟩ | ⟨hk, _⟩
        · rw [hP21, hQ2]
        · exact absurd hk' (hWW k hk)

end Footprint

end Library
end PipeSim
