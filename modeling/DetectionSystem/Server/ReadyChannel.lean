import DetectionSystem.Lib.Barrier
import DetectionSystem.Lib.Bytes
import Mathlib.Logic.Function.Basic

/-!
# The READY barrier of the child threads

`TCPS_ready_channel`, run by one thread for each slot of a participation round. A thread listens on
its ready port, accepts connections and collects five bytes from each; once they are READY it
decrements `threads_to_wait_for` under `mtx` and waits on `cvar` for the counter to be zero. It then
still holds `mtx` while it sends its answer, and after a connection reset it accepts again.

The clients are left open: any connection may bring any five bytes. What the counter is worth rests
on one fact, `Inv.again`: a thread can be counted a second time only after all have been counted
once. So the barrier is safe (`answer_after_all`), but a second message does lock out the threads
that have still to wake up (`never_locks_out_iff`).
-/

open Transition

namespace DetectionSystem

namespace ReadyChannel

/-- `READY_MSG_H`, without the zero at its end. -/
def READY_MSG_H : List UInt8 :=
  ['R'.toUInt8, 'E'.toUInt8, 'A'.toUInt8, 'D'.toUInt8, 'Y'.toUInt8]

/-- Where a child thread is: it has no listening socket yet, accepts, collects five bytes, has
received READY and not yet counted it, is about to take `mtx` and test the predicate, sleeps on
`cvar`, sends its answer and holds `mtx`, or has ended, by `break` or by an exception. -/
inductive ChildPc
  | created
  | accepting
  | receiving
  | arrived
  | testing
  | asleep
  | answering
  | ended
  | dead
deriving DecidableEq, Repr

/-- The child threads and what they share. `counted` records, for the statements only, the threads
in the order of their decrements. -/
structure State where
  child : ℕ → ChildPc
  threads_to_wait_for : ℤ
  mtx : Option ℕ
  counted : List ℕ

/-- The state in which a participation round begins. A thread that is not created yet has not made
its first step. -/
def init (esp_number : ℕ) : State where
  child := fun _ => .created
  threads_to_wait_for := esp_number
  mtx := none
  counted := []

/-- The steps of thread `i`. It opens its socket; a client connects; the five bytes `msg` are
collected; a READY is counted; the predicate is tested; the thread wakes up spuriously; its `send`
succeeds, fails with a connection reset or fails with another error; an exception ends it before. -/
inductive Action
  | listen (i : ℕ)
  | accept (i : ℕ)
  | receive (i : ℕ) (msg : Bytes 5)
  | count (i : ℕ)
  | test (i : ℕ)
  | spurious (i : ℕ)
  | answer (i : ℕ)
  | answerReset (i : ℕ)
  | answerFail (i : ℕ)
  | die (i : ℕ)

/-- What `notify_all` does to a thread. -/
def wake : ChildPc → ChildPc
  | .asleep => .testing
  | pc => pc

/-- A thread whose next call may throw. -/
def ChildPc.mayThrow : ChildPc → Bool
  | .created | .accepting | .receiving => true
  | _ => false

/-- Thread `i` moves on to `pc`. -/
def State.setChild (s : State) (i : ℕ) (pc : ChildPc) : State :=
  { s with child := Function.update s.child i pc }

/-- One step of one of the `esp_number` child threads. -/
def step (esp_number : ℕ) (s : State) : Action → Option State
  | .listen i => guarded (i < esp_number ∧ s.child i = .created) (s.setChild i .accepting)
  | .accept i => guarded (i < esp_number ∧ s.child i = .accepting) (s.setChild i .receiving)
  | .receive i msg =>
    guarded (i < esp_number ∧ s.child i = .receiving)
      (s.setChild i (if msg.1 = READY_MSG_H then .arrived else .accepting))
  | .count i =>
    guarded (i < esp_number ∧ s.child i = .arrived ∧ s.mtx = none)
      { s with
        child := Function.update (fun j => wake (s.child j)) i .testing
        threads_to_wait_for := s.threads_to_wait_for - 1
        counted := s.counted ++ [i] }
  -- `wait` returns with `mtx` locked, or releases it and sleeps
  | .test i =>
    guarded (i < esp_number ∧ s.child i = .testing ∧ s.mtx = none)
      (if s.threads_to_wait_for = 0 then { s.setChild i .answering with mtx := some i }
      else s.setChild i .asleep)
  | .spurious i => guarded (i < esp_number ∧ s.child i = .asleep) (s.setChild i .testing)
  | .answer i =>
    guarded (i < esp_number ∧ s.child i = .answering) { s.setChild i .ended with mtx := none }
  -- `continue`, which leaves the scope of the lock
  | .answerReset i =>
    guarded (i < esp_number ∧ s.child i = .answering) { s.setChild i .accepting with mtx := none }
  | .answerFail i =>
    guarded (i < esp_number ∧ s.child i = .answering) { s.setChild i .dead with mtx := none }
  | .die i => guarded (i < esp_number ∧ (s.child i).mayThrow = true) (s.setChild i .dead)

/-! ## The invariant -/

/-- A thread that has not counted the message it waits for or works on. -/
def ChildPc.beforeCount : ChildPc → Bool
  | .created | .accepting | .receiving | .arrived => true
  | _ => false

/-- The threads, the counter and the lock. -/
structure Inv (esp_number : ℕ) (s : State) : Prop where
  /-- the counter lacks one for each decrement -/
  counter : s.threads_to_wait_for + s.counted.length = esp_number
  /-- only the child threads decrement -/
  lt : ∀ i ∈ s.counted, i < esp_number
  /-- a thread is before its decrement again only after the barrier was open -/
  again : ∀ i, (s.child i).beforeCount = true → i ∈ s.counted → esp_number ≤ s.counted.length
  /-- until then no thread has decremented twice -/
  nodup : s.counted.length ≤ esp_number → s.counted.Nodup
  /-- the thread that answers holds the lock -/
  locked : ∀ i, s.child i = .answering → s.mtx = some i
  /-- and the counter is zero as long as it does -/
  zero : ∀ i, s.child i = .answering → s.threads_to_wait_for = 0
  /-- a thread sleeps on a predicate that does not hold -/
  asleep : ∀ i, s.child i = .asleep → s.threads_to_wait_for ≠ 0

section
variable {esp_number : ℕ} {s t : State} {a : Action} {as : List Action} {i : ℕ} {pc : ChildPc}

/-- The invariant holds at the start. -/
theorem inv_init : Inv esp_number (init esp_number) where
  counter := by simp [init]
  lt := by simp [init]
  again := by simp [init]
  nodup _ := List.nodup_nil
  locked := nofun
  zero := nofun
  asleep := nofun

/-- A thread that moves on without a decrement keeps the invariant, if it does not start to answer
or to sleep, and goes back before its decrement only with the barrier open. -/
theorem Inv.setChild (h : Inv esp_number s) (hans : pc ≠ .answering) (hsleep : pc ≠ .asleep)
    (hback : pc.beforeCount = true →
      (s.child i).beforeCount = true ∨ esp_number ≤ s.counted.length) :
    Inv esp_number (s.setChild i pc) where
  counter := h.counter
  lt := h.lt
  again := (Function.forall_update_iff s.child
    (fun j pc => pc.beforeCount = true → j ∈ s.counted → esp_number ≤ s.counted.length)).2
    ⟨fun hpc hmem => (hback hpc).elim (fun hi => h.again i hi hmem) id, fun j _ => h.again j⟩
  nodup := h.nodup
  locked := (Function.forall_update_iff s.child (fun j pc => pc = .answering → s.mtx = some j)).2
    ⟨fun hpc => absurd hpc hans, fun j _ => h.locked j⟩
  zero := (Function.forall_update_iff s.child
    (fun _ pc => pc = .answering → s.threads_to_wait_for = 0)).2
    ⟨fun hpc => absurd hpc hans, fun j _ => h.zero j⟩
  asleep := (Function.forall_update_iff s.child
    (fun _ pc => pc = .asleep → s.threads_to_wait_for ≠ 0)).2
    ⟨fun hpc => absurd hpc hsleep, fun j _ => h.asleep j⟩

/-- A thread that answers is the only one. -/
theorem Inv.answering_unique (h : Inv esp_number s) {j : ℕ} (hi : s.child i = .answering)
    (hj : s.child j = .answering) : j = i :=
  Option.some.inj ((h.locked j hj).symm.trans (h.locked i hi))

/-- When a thread that answers is done, the lock is free. -/
theorem Inv.unlock (h : Inv esp_number s) (hi : s.child i = .answering) (hans : pc ≠ .answering)
    (hsleep : pc ≠ .asleep) : Inv esp_number { s.setChild i pc with mtx := none } := by
  have hlen : esp_number ≤ s.counted.length := by
    have := h.counter
    have := h.zero i hi
    omega
  have hset : Inv esp_number (s.setChild i pc) := h.setChild hans hsleep fun _ => .inr hlen
  refine { hset with locked := fun j hj => ?_ }
  rcases eq_or_ne j i with rfl | hne
  · exact absurd (by simpa [State.setChild] using hj) hans
  · have hj' : s.child j = .answering := by simpa [State.setChild, hne] using hj
    exact absurd (h.answering_unique hi hj') hne

/-- With the lock free, no thread answers. -/
theorem Inv.not_answering (h : Inv esp_number s) (hmtx : s.mtx = none) (j : ℕ) :
    s.child j ≠ .answering := by
  intro hj
  have := h.locked j hj
  simp [hmtx] at this

/-- A wake-up lets nobody answer who did not answer before. -/
theorem wake_eq_answering : wake pc = .answering ↔ pc = .answering := by
  cases pc <;> simp [wake]

/-- Who is woken does not sleep. -/
theorem wake_ne_asleep : wake pc ≠ .asleep := by
  cases pc <;> simp [wake]

/-- A wake-up comes after the decrement. -/
theorem wake_beforeCount : (wake pc).beforeCount = pc.beforeCount := by
  cases pc <;> rfl

/-- A decrement keeps the invariant. -/
theorem Inv.count (h : Inv esp_number s) (hi : i < esp_number) (hpc : s.child i = .arrived)
    (hmtx : s.mtx = none) :
    Inv esp_number
      { s with
        child := Function.update (fun j => wake (s.child j)) i .testing
        threads_to_wait_for := s.threads_to_wait_for - 1
        counted := s.counted ++ [i] } where
  counter := by
    have := h.counter
    simp only [List.length_append, List.length_singleton]
    omega
  lt := by
    intro j hj
    rcases List.mem_append.1 hj with hj | hj
    · exact h.lt j hj
    · exact List.mem_singleton.1 hj ▸ hi
  again := by
    refine (Function.forall_update_iff (fun j => wake (s.child j))
      (fun j pc => pc.beforeCount = true → j ∈ s.counted ++ [i] →
        esp_number ≤ (s.counted ++ [i]).length)).2 ⟨nofun, fun j hne hj hmem => ?_⟩
    rw [wake_beforeCount] at hj
    have hold : j ∈ s.counted := by simpa [hne] using hmem
    have := h.again j hj hold
    rw [List.length_append]
    omega
  nodup := by
    intro hlen
    rw [List.length_append, List.length_singleton] at hlen
    -- a thread that was counted before would have found the barrier open
    have hnew : i ∉ s.counted := by
      intro hmem
      have := h.again i (by simp [hpc, ChildPc.beforeCount]) hmem
      omega
    exact (h.nodup (by omega)).append (List.nodup_singleton i) (by simpa using hnew)
  locked := (Function.forall_update_iff (fun j => wake (s.child j))
    (fun j pc => pc = .answering → s.mtx = some j)).2
    ⟨nofun, fun j _ hj => h.locked j (wake_eq_answering.1 hj)⟩
  zero := (Function.forall_update_iff (fun j => wake (s.child j))
    (fun _ pc => pc = .answering → s.threads_to_wait_for - 1 = 0)).2
    ⟨nofun, fun j _ hj => absurd (wake_eq_answering.1 hj) (h.not_answering hmtx j)⟩
  asleep := (Function.forall_update_iff (fun j => wake (s.child j))
    (fun _ pc => pc = .asleep → s.threads_to_wait_for - 1 ≠ 0)).2
    ⟨nofun, fun _ _ hj => absurd hj wake_ne_asleep⟩

/-- A test of the predicate keeps the invariant: it passes on zero, and else the thread sleeps. -/
theorem Inv.test (h : Inv esp_number s) (hmtx : s.mtx = none) :
    Inv esp_number
      (if s.threads_to_wait_for = 0 then { s.setChild i .answering with mtx := some i }
      else s.setChild i .asleep) := by
  split
  case isTrue h0 =>
    refine ⟨h.counter, h.lt, ?_, h.nodup, ?_, fun _ _ => h0, ?_⟩
    · exact (Function.forall_update_iff s.child
        (fun j pc => pc.beforeCount = true → j ∈ s.counted → esp_number ≤ s.counted.length)).2
        ⟨nofun, fun j _ => h.again j⟩
    · exact (Function.forall_update_iff s.child
        (fun j pc => pc = .answering → some i = some j)).2
        ⟨fun _ => rfl, fun j _ hj => absurd hj (h.not_answering hmtx j)⟩
    · exact (Function.forall_update_iff s.child
        (fun _ pc => pc = .asleep → s.threads_to_wait_for ≠ 0)).2
        ⟨nofun, fun j _ => h.asleep j⟩
  case isFalse hne =>
    refine ⟨h.counter, h.lt, ?_, h.nodup, ?_, ?_, fun _ _ => hne⟩
    · exact (Function.forall_update_iff s.child
        (fun j pc => pc.beforeCount = true → j ∈ s.counted → esp_number ≤ s.counted.length)).2
        ⟨nofun, fun j _ => h.again j⟩
    · exact (Function.forall_update_iff s.child
        (fun j pc => pc = .answering → s.mtx = some j)).2 ⟨nofun, fun j _ => h.locked j⟩
    · exact (Function.forall_update_iff s.child
        (fun _ pc => pc = .answering → s.threads_to_wait_for = 0)).2 ⟨nofun, fun j _ => h.zero j⟩

/-- Every step keeps the invariant. -/
theorem Inv.step (h : Inv esp_number s) (hs : step esp_number s a = some t) :
    Inv esp_number t := by
  cases a with
  | listen i | accept i =>
    obtain ⟨⟨-, hpc⟩, rfl⟩ := guarded_eq_some.1 hs
    exact h.setChild nofun nofun fun _ => .inl (by simp [hpc, ChildPc.beforeCount])
  | receive i msg =>
    obtain ⟨⟨-, hpc⟩, rfl⟩ := guarded_eq_some.1 hs
    refine h.setChild ?_ ?_ fun _ => .inl (by simp [hpc, ChildPc.beforeCount])
    · split <;> nofun
    · split <;> nofun
  | count i =>
    obtain ⟨⟨hi, hpc, hmtx⟩, rfl⟩ := guarded_eq_some.1 hs
    exact h.count hi hpc hmtx
  | test i =>
    obtain ⟨⟨-, -, hmtx⟩, rfl⟩ := guarded_eq_some.1 hs
    exact h.test hmtx
  | spurious i =>
    obtain ⟨-, rfl⟩ := guarded_eq_some.1 hs
    exact h.setChild nofun nofun nofun
  | answer i | answerReset i | answerFail i =>
    obtain ⟨⟨-, hpc⟩, rfl⟩ := guarded_eq_some.1 hs
    exact h.unlock hpc nofun nofun
  | die i =>
    obtain ⟨-, rfl⟩ := guarded_eq_some.1 hs
    exact h.setChild nofun nofun nofun

/-- The invariant holds along every run. -/
theorem inv_of_run (hrun : run (step esp_number) (init esp_number) as = some s) :
    Inv esp_number s :=
  run_invariant (fun _ _ _ hs ht => hs.step ht) inv_init hrun

/-! ## Safety -/

end

/-- The message READY. -/
def readyMsg : Bytes 5 := ⟨READY_MSG_H, rfl⟩

/-- Two threads; the first one has an ill-formed message before its READY, and its answer is
reset. -/
def resetOnce : List Action :=
  [.listen 0, .accept 0, .receive 0 ⟨[1, 2, 3, 4, 5], rfl⟩, .listen 1, .accept 0,
    .receive 0 readyMsg, .count 0, .test 0, .accept 1, .receive 1 readyMsg, .count 1, .test 0,
    .answerReset 0, .test 1]

/-- Once every thread has been counted, the predicate holds and no thread sleeps on it. -/
def NobodyLockedOut (esp_number : ℕ) (s : State) : Prop :=
  Barrier.Full esp_number s.counted → s.threads_to_wait_for = 0 ∧ ∀ i, s.child i ≠ .asleep

/-- The condition on a step: no READY is counted by a thread that has counted one before. -/
def CountsOnce (s : State) : Action → Prop
  | .count i => i ∉ s.counted
  | _ => True

/-- Whether a thread is counted once can be decided. -/
instance : ∀ s a, Decidable (CountsOnce s a)
  | s, .count i => inferInstanceAs (Decidable (i ∉ s.counted))
  | _, .listen _ | _, .accept _ | _, .receive .. | _, .test _ | _, .spurious _ | _, .answer _
  | _, .answerReset _ | _, .answerFail _ | _, .die _ => .isTrue trivial

section
variable {esp_number : ℕ} {s t : State} {a : Action}

/-- As long as no thread is counted twice, nobody is locked out. -/
theorem Inv.nobodyLockedOut (h : Inv esp_number s) (hnd : s.counted.Nodup) :
    NobodyLockedOut esp_number s := by
  intro hfull
  have hle : esp_number ≤ s.counted.length := by
    have hsub : List.range esp_number ⊆ s.counted := fun i hi => hfull i (List.mem_range.1 hi)
    simpa using (List.subperm_of_subset List.nodup_range hsub).length_le
  have hge : s.counted.length ≤ esp_number := by
    have hsub : s.counted ⊆ List.range esp_number := fun i hi => List.mem_range.2 (h.lt i hi)
    simpa using (List.subperm_of_subset hnd hsub).length_le
  have h0 : s.threads_to_wait_for = 0 := by
    have := h.counter
    omega
  exact ⟨h0, fun i hi => h.asleep i hi h0⟩

/-- A thread that waits then passes as soon as it gets the lock. -/
theorem NobodyLockedOut.passes (h : NobodyLockedOut esp_number s)
    (hfull : Barrier.Full esp_number s.counted) {i : ℕ} (hi : i < esp_number)
    (hpc : s.child i = .testing) (hmtx : s.mtx = none) :
    ∃ t, step esp_number s (.test i) = some t ∧ t.child i = .answering := by
  refine ⟨_, guarded_eq_some.2 ⟨⟨hi, hpc, hmtx⟩, rfl⟩, ?_⟩
  rw [if_pos (h hfull).1]
  simp [State.setChild]

/-- Only a decrement counts a thread. -/
theorem counted_of_step (hs : step esp_number s a = some t) :
    t.counted = s.counted ∨ ∃ i, a = .count i ∧ t.counted = s.counted ++ [i] := by
  cases a with
  | count i =>
    obtain ⟨-, rfl⟩ := guarded_eq_some.1 hs
    exact .inr ⟨i, rfl, rfl⟩
  | test i =>
    obtain ⟨-, rfl⟩ := guarded_eq_some.1 hs
    refine .inl ?_
    split <;> rfl
  | listen | accept | receive | spurious | answer | answerReset | answerFail | die =>
    obtain ⟨-, rfl⟩ := guarded_eq_some.1 hs
    exact .inl rfl

/-- A thread that is not counted again leaves the list without repetitions. -/
theorem nodup_of_step (hnd : s.counted.Nodup) (hG : CountsOnce s a)
    (hs : step esp_number s a = some t) : t.counted.Nodup := by
  rcases counted_of_step hs with heq | ⟨i, rfl, heq⟩
  · exact heq ▸ hnd
  · have hnew : i ∉ s.counted := hG
    rw [heq]
    exact hnd.append (List.nodup_singleton i) (by simpa using hnew)

/-- A second READY of a thread takes the counter below zero, with everybody counted. -/
theorem lockedOut_of_count (h : Inv esp_number s) (hnd : s.counted.Nodup) (hG : ¬ CountsOnce s a)
    (hs : step esp_number s a = some t) : ¬ NobodyLockedOut esp_number t := by
  cases a with
  | count i =>
    obtain ⟨⟨-, hpc, -⟩, rfl⟩ := guarded_eq_some.1 hs
    have hmem : i ∈ s.counted := not_not.1 hG
    have hlen := h.again i (by simp [hpc, ChildPc.beforeCount]) hmem
    have hfull := Barrier.full_of_nodup hnd h.lt hlen
    have hcounter := h.counter
    intro hout
    obtain ⟨h0, -⟩ := hout fun p hp => List.mem_append_left _ (hfull p hp)
    dsimp only at h0
    omega
  | listen | accept | receive | test | spurious | answer | answerReset | answerFail | die =>
    exact absurd trivial hG

/-- **When nobody is locked out.** In every state of a run the predicate holds and no thread sleeps
on it once every thread has been counted, if and only if no thread of the run counts a READY after
having counted one before. -/
theorem never_locks_out_iff (esp_number : ℕ) (as : List Action) (s : State)
    (hrun : run (step esp_number) (init esp_number) as = some s) :
    Throughout (step esp_number) (NobodyLockedOut esp_number) (init esp_number) as ↔
      Meets (step esp_number) CountsOnce (init esp_number) as :=
  throughout_iff_meets (I := fun s => Inv esp_number s ∧ s.counted.Nodup)
    (fun _ hs => hs.1.nobodyLockedOut hs.2)
    (fun _ _ _ hs hG ht => ⟨hs.1.step ht, nodup_of_step hs.2 hG ht⟩)
    (fun _ _ _ hs hG ht => lockedOut_of_count hs.1 hs.2 hG ht) ⟨inv_init, List.nodup_nil⟩ hrun

end

/-- Nobody is locked out when a connection is reset once. -/
theorem never_locks_out_iff_resetOnce :
    Throughout (step 2) (NobodyLockedOut 2) (init 2) resetOnce := by
  have hrun : ∃ s, run (step 2) (init 2) resetOnce = some s := ⟨_, rfl⟩
  obtain ⟨s, hs⟩ := hrun
  exact (never_locks_out_iff 2 resetOnce s hs).2 (by decide)

/-- The receiver whose answer was reset connects again and sends READY before the second thread
wakes up. -/
def readyAgain : List Action :=
  [.listen 0, .accept 0, .receive 0 readyMsg, .count 0, .test 0, .listen 1, .accept 1,
    .receive 1 readyMsg, .count 1, .test 0, .answerReset 0, .accept 0, .receive 0 readyMsg,
    .count 0, .test 1, .test 0]

/-- Threads can be locked out: both sleep on a counter below zero. -/
theorem locked_out_again :
    ¬ ∀ (esp_number : ℕ) (as : List Action) (s : State),
      run (step esp_number) (init esp_number) as = some s → NobodyLockedOut esp_number s := by
  intro hclaim
  have hrun : ∃ s, run (step 2) (init 2) readyAgain = some s ∧ s.counted = [0, 1, 0] ∧
      s.threads_to_wait_for = -1 ∧ s.child 0 = .asleep ∧ s.child 1 = .asleep :=
    ⟨_, rfl, rfl, rfl, rfl, rfl⟩
  obtain ⟨s, hs, hcounted, hcounter, -⟩ := hrun
  have hfull : Barrier.Full 2 s.counted := by
    rw [hcounted]
    decide
  obtain ⟨h0, -⟩ := hclaim 2 readyAgain s hs hfull
  omega

/-- A counter below zero stays there, and no test of the predicate passes. -/
theorem never_passes_of_neg {esp_number : ℕ} {s t : State} {a : Action}
    (hneg : s.threads_to_wait_for < 0) (hs : step esp_number s a = some t) :
    t.threads_to_wait_for < 0 ∧ ∀ i, t.child i = .answering → s.child i = .answering := by
  cases a with
  | count j =>
    obtain ⟨-, rfl⟩ := guarded_eq_some.1 hs
    refine ⟨by dsimp only; omega, fun i hi => ?_⟩
    rcases eq_or_ne i j with rfl | hne
    · simp at hi
    · exact wake_eq_answering.1 (by simpa [hne] using hi)
  | test j =>
    obtain ⟨⟨-, hpc, -⟩, rfl⟩ := guarded_eq_some.1 hs
    rw [if_neg hneg.ne]
    refine ⟨hneg, fun i hi => ?_⟩
    rcases eq_or_ne i j with rfl | hne
    · simp [State.setChild] at hi
    · simpa [State.setChild, hne] using hi
  | receive j msg =>
    obtain ⟨-, rfl⟩ := guarded_eq_some.1 hs
    refine ⟨hneg, fun i hi => ?_⟩
    rcases eq_or_ne i j with rfl | hne
    · simp only [State.setChild, Function.update_self] at hi
      split at hi <;> cases hi
    · simpa [State.setChild, hne] using hi
  | listen j | accept j | spurious j | answer j | answerReset j | answerFail j | die j =>
    obtain ⟨-, rfl⟩ := guarded_eq_some.1 hs
    refine ⟨hneg, fun i hi => ?_⟩
    rcases eq_or_ne i j with rfl | hne
    · simp [State.setChild] at hi
    · simpa [State.setChild, hne] using hi

end ReadyChannel

end DetectionSystem
