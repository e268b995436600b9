import DetectionSystem.Lib.Transition

/-!
# A first-in first-out hand-off

What a hand-off between a producer and a consumer is for: the values come out in the order they
went in, each at most once, whatever the order of the two sides' steps.
-/

namespace Fifo

open Transition

variable {α : Type*}

/-- The values in the queue, and all that went in and came out so far. -/
structure State (α : Type*) where
  queue : List α
  pushed : List α
  popped : List α

/-- The empty queue. -/
def init : State α := ⟨[], [], []⟩

/-- A value goes in, or the oldest one comes out. -/
inductive Action (α : Type*)
  | push (a : α)
  | pop

/-- One step of the queue. -/
def step (s : State α) : Action α → Option (State α)
  | .push a => some ⟨s.queue ++ [a], s.pushed ++ [a], s.popped⟩
  | .pop =>
    match s.queue with
    | [] => none
    | a :: queue => some ⟨queue, s.pushed, s.popped ++ [a]⟩

/-- What went in is what came out, followed by what is still queued. -/
theorem pushed_eq_of_run {as : List (Action α)} {s : State α} (h : run step init as = some s) :
    s.pushed = s.popped ++ s.queue := by
  refine run_invariant (I := fun s => s.pushed = s.popped ++ s.queue) (fun s a t hs ht => ?_) rfl h
  cases a with
  | push a =>
    cases ht
    dsimp only
    rw [hs, List.append_assoc]
  | pop =>
    simp only [step] at ht
    split at ht
    · cases ht
    · next hq =>
      cases ht
      simp [hs, hq]

/-- **First in, first out.** -/
theorem popped_prefix_of_run {as : List (Action α)} {s : State α} (h : run step init as = some s) :
    s.popped <+: s.pushed :=
  ⟨s.queue, (pushed_eq_of_run h).symm⟩

end Fifo
