import DetectionSystem.Lib.Transition
import Mathlib.Data.Finset.Card

/-!
# Condition variables

The threads at a condition variable, next to its mutex: those that sleep on it, and those that were
woken and have not got the mutex back yet. `notify_one` wakes a sleeper if there is one, whichever
it is; a sleeper may also wake up without a notification.

`Covered c n` is what keeps a producer and its consumers together: as long as a thread sleeps, each
of the `n` items that wait has a woken thread of its own. One rule for each operation says how it
changes with the number of items, so that an invariant of a monitor gets it from them.
-/

namespace CondVar

open Transition

variable {ι : Type*}

/-- The sleeping and the woken threads. -/
structure State (ι : Type*) where
  waiters : Finset ι
  woken : Finset ι
  disjoint : Disjoint waiters woken

/-- Nobody is there. -/
def init : State ι := ⟨∅, ∅, Finset.disjoint_empty_left _⟩

/-- A thread is at the condition variable. -/
def State.Blocked (c : State ι) (i : ι) : Prop := i ∈ c.waiters ∨ i ∈ c.woken

/-- If a thread sleeps, then each of `n` items has a woken thread of its own. -/
def State.Covered (c : State ι) (n : ℕ) : Prop := c.waiters.Nonempty → n ≤ c.woken.card

/-- Who waits is not woken. -/
theorem State.notMem_woken (c : State ι) {i : ι} (hi : i ∈ c.waiters) : i ∉ c.woken :=
  Finset.disjoint_left.1 c.disjoint hi

/-- A larger number is covered as well. -/
theorem State.Covered.mono {c : State ι} {m n : ℕ} (h : c.Covered n) (hmn : m ≤ n) : c.Covered m :=
  fun hw => hmn.trans (h hw)

/-- Without items nobody has to be awake, -/
theorem State.covered_zero (c : State ι) : c.Covered 0 := fun _ => Nat.zero_le _

/-- and without sleepers neither. -/
theorem State.covered_of_waiters {c : State ι} (h : c.waiters = ∅) (n : ℕ) : c.Covered n := by
  intro hw
  rw [h] at hw
  exact absurd hw Finset.not_nonempty_empty

variable [DecidableEq ι]

/-- Whether a thread is blocked can be decided. -/
instance (c : State ι) (i : ι) : Decidable (c.Blocked i) := inferInstanceAs (Decidable (_ ∨ _))

/-! ## The operations -/

/-- A thread that holds the mutex releases it and sleeps. -/
def State.sleep (c : State ι) (i : ι) : State ι where
  waiters := insert i c.waiters
  woken := c.woken.erase i
  disjoint := Finset.disjoint_insert_left.2
    ⟨Finset.notMem_erase i _, c.disjoint.mono_right (Finset.erase_subset ..)⟩

/-- A sleeping thread wakes up. -/
def State.wake (c : State ι) (i : ι) : State ι where
  waiters := c.waiters.erase i
  woken := insert i c.woken
  disjoint := Finset.disjoint_insert_right.2
    ⟨Finset.notMem_erase i _, c.disjoint.mono_left (Finset.erase_subset ..)⟩

/-- A woken thread has got the mutex back and goes on. -/
def State.leave (c : State ι) (i : ι) : State ι where
  waiters := c.waiters
  woken := c.woken.erase i
  disjoint := c.disjoint.mono_right (Finset.erase_subset ..)

/-- `notify_one`: the thread that it wakes is `some i`, and `none` only if none sleeps. -/
def State.notifyOne (c : State ι) : Option ι → Option (State ι)
  | none => guarded (c.waiters = ∅) c
  | some i => guarded (i ∈ c.waiters) (c.wake i)

/-- `notify_all`. -/
def State.notifyAll (c : State ι) : State ι where
  waiters := ∅
  woken := c.waiters ∪ c.woken
  disjoint := Finset.disjoint_empty_left _

section
variable {c c' : State ι} {i : ι} {n : ℕ} {w : Option ι}

/-- A thread that wakes up is one more. -/
theorem State.Covered.wake (h : c.Covered n) (hi : i ∈ c.waiters) : (c.wake i).Covered (n + 1) := by
  intro _
  have hcard := Finset.card_insert_of_notMem (c.notMem_woken hi)
  have hn := h ⟨i, hi⟩
  show n + 1 ≤ (insert i c.woken).card
  omega

/-- A notification covers one more item. -/
theorem State.Covered.notifyOne (h : c.Covered n) (hc : c.notifyOne w = some c') :
    c'.Covered (n + 1) := by
  cases w with
  | none =>
    obtain ⟨hnone, rfl⟩ := guarded_eq_some.1 hc
    exact State.covered_of_waiters hnone _
  | some i =>
    obtain ⟨hi, rfl⟩ := guarded_eq_some.1 hc
    exact h.wake hi

/-- A thread that goes on with an item leaves the others covered. -/
theorem State.Covered.leave (h : c.Covered (n + 1)) (i : ι) : (c.leave i).Covered n := by
  intro hw
  have hn := h hw
  have hcard := Finset.pred_card_le_card_erase (s := c.woken) (a := i)
  show n ≤ (c.woken.erase i).card
  omega

end

end CondVar
