import DetectionSystem.Lib.Transition
import Mathlib.Data.Finset.Card
import Mathlib.Data.Finset.Range

/-!
# A barrier of numbered parties

What a barrier of the parties `0, …, n - 1` is for: it releases a round only when every party has
arrived since the last release. `full_of_nodup` is the pigeonhole argument that lets an
implementation count arrivals instead of recording them, as long as no party is counted twice.
-/

namespace Barrier

open Transition

/-- Every party is among the arrivals. -/
def Full (n : ℕ) (arrived : List ℕ) : Prop := ∀ p < n, p ∈ arrived

/-- Whether all have arrived can be decided. -/
instance (n : ℕ) (arrived : List ℕ) : Decidable (Full n arrived) :=
  inferInstanceAs (Decidable (∀ p < n, p ∈ arrived))

/-- As many different parties as there are make a full barrier. -/
theorem full_of_nodup {n : ℕ} {arrived : List ℕ} (hnd : arrived.Nodup)
    (hlt : ∀ p ∈ arrived, p < n) (hlen : n ≤ arrived.length) : Full n arrived := by
  have hsub : arrived.toFinset ⊆ Finset.range n := fun p hp =>
    Finset.mem_range.2 (hlt p (List.mem_toFinset.1 hp))
  have heq : arrived.toFinset = Finset.range n :=
    Finset.eq_of_subset_of_card_le hsub (by
      rw [Finset.card_range, List.toFinset_card_of_nodup hnd]
      exact hlen)
  intro p hp
  exact List.mem_toFinset.1 (heq ▸ Finset.mem_range.2 hp)

/-- The arrivals since the last release, and those of the released rounds. -/
structure State where
  arrived : List ℕ
  released : List (List ℕ)
deriving DecidableEq, Repr

/-- The barrier before any arrival. -/
def init : State := ⟨[], []⟩

/-- A party arrives, or a full barrier is released. -/
inductive Action
  | arrive (p : ℕ)
  | release
deriving DecidableEq, Repr

/-- One step of the barrier. -/
def step (n : ℕ) (b : State) : Action → Option State
  | .arrive p => guarded (p < n) { b with arrived := b.arrived ++ [p] }
  | .release => guarded (Full n b.arrived) ⟨[], b.released ++ [b.arrived]⟩

/-- Every released round had all its parties. -/
theorem full_of_run {n : ℕ} {as : List Action} {b : State}
    (h : run (step n) init as = some b) : ∀ r ∈ b.released, Full n r := by
  refine run_invariant (I := fun b => ∀ r ∈ b.released, Full n r) (fun b a b' hb hs => ?_)
    (by simp [init]) h
  cases a with
  | arrive p =>
    obtain ⟨-, rfl⟩ := guarded_eq_some.1 hs
    exact hb
  | release =>
    obtain ⟨hfull, rfl⟩ := guarded_eq_some.1 hs
    intro r hr
    rcases List.mem_append.1 hr with hr | hr
    · exact hb r hr
    · exact List.mem_singleton.1 hr ▸ hfull

end Barrier
