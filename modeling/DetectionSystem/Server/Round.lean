import DetectionSystem.Lib.Barrier
import Mathlib.Data.List.Nodup

/-!
# Processing rounds of the server

Every `TCPS_service` thread decrements `esp_to_wait` once for each upload it has stored, and
`TCPS_process_packets` waits for the counter to be zero, resets it to `esp_number` and runs
`process()` without the lock. The sections under `triang_mtx` are one step each: the decrement with
its `notify_all`, and a test of the wait predicate with what follows it under the lock.

`esp_to_wait` is a plain count of uploads. Where it goes wrong is exact in both directions:

* the counter leaves its range as soon as an upload is notified before the waiting thread has
  reset it (`counter_in_range_iff`), and then no round ever starts again (`stuck_below_zero`);
* a round is fed by every receiver as long as none is counted twice for it
  (`every_receiver_feeds_round`), since the counter then refines a barrier of the receivers
  (`run_refines_barrier`).
-/

open Transition

namespace DetectionSystem

namespace Round

/-- A `TCPS_service` thread: it waits for an upload, or has stored one of receiver `esp` and is
about to notify it. -/
inductive ServicePc
  | receiving
  | stored (esp : ℕ)
deriving DecidableEq, Repr

/-- The `TCPS_process_packets` thread: about to test the wait predicate, asleep on `triang_cvar`,
between the reset and the call of `process()`, or in that call. -/
inductive ProcessPc
  | testing
  | asleep
  | released
  | processing
deriving DecidableEq, Repr

/-- The counter and the threads. `notified` and `fed` record, for the statements only, the
receivers whose uploads were notified since the last reset and since the last start of
`process()`; `rounds` records `fed` at each start. -/
structure State where
  esp_to_wait : ℤ
  service : ℕ → ServicePc
  process : ProcessPc
  notified : List ℕ
  fed : List ℕ
  rounds : List (List ℕ)

/-- The state the constructor leaves, with any number of service threads to come. -/
def init (esp_number : ℕ) : State where
  esp_to_wait := esp_number
  service := fun _ => .receiving
  process := .testing
  notified := []
  fed := []
  rounds := []

/-- The steps of the threads. Thread `t` stores an upload of receiver `esp`; it notifies it; the
processing thread finds the counter non-zero and sleeps; it wakes up spuriously; it finds the
counter zero and resets it; it starts `process()`; it returns from it. -/
inductive Action
  | store (t esp : ℕ)
  | notify (t esp : ℕ)
  | sleep
  | spurious
  | reset
  | start
  | finish
deriving DecidableEq, Repr

/-- What `notify_all` does to the processing thread. -/
def wake : ProcessPc → ProcessPc
  | .asleep => .testing
  | pc => pc

/-- One step. -/
def step (esp_number : ℕ) (s : State) : Action → Option State
  | .store t esp =>
    guarded (s.service t = .receiving ∧ esp < esp_number)
      { s with service := Function.update s.service t (.stored esp) }
  | .notify t esp =>
    guarded (s.service t = .stored esp)
      { s with
        esp_to_wait := s.esp_to_wait - 1
        service := Function.update s.service t .receiving
        process := wake s.process
        notified := s.notified ++ [esp]
        fed := s.fed ++ [esp] }
  | .sleep =>
    guarded (s.process = .testing ∧ s.esp_to_wait ≠ 0) { s with process := .asleep }
  | .spurious =>
    guarded (s.process = .asleep) { s with process := .testing }
  | .reset =>
    guarded (s.process = .testing ∧ s.esp_to_wait = 0)
      { s with esp_to_wait := esp_number, process := .released, notified := [] }
  | .start =>
    guarded (s.process = .released)
      { s with process := .processing, fed := [], rounds := s.rounds ++ [s.fed] }
  | .finish =>
    guarded (s.process = .processing) { s with process := .testing }

/-- Who is woken does not sleep. -/
theorem wake_ne_asleep (pc : ProcessPc) : wake pc ≠ .asleep := by
  cases pc <;> nofun

/-- A wake-up releases nobody who was not released. -/
theorem wake_eq_released {pc : ProcessPc} : wake pc = .released ↔ pc = .released := by
  cases pc <;> simp [wake]

/-! ## The range of the counter -/

/-- The counter is in its range, and once `esp_number` uploads were notified since the last reset
the predicate holds and the processing thread does not sleep on it. -/
structure InRange (esp_number : ℕ) (s : State) : Prop where
  nonneg : 0 ≤ s.esp_to_wait
  le : s.esp_to_wait ≤ esp_number
  continues : esp_number ≤ s.notified.length → s.esp_to_wait = 0 ∧ s.process ≠ .asleep

/-- The condition on a step: an upload is not notified while the counter is still zero, that is,
before the processing thread has reset it. -/
def NotifiesInRound (s : State) : Action → Prop
  | .notify _ _ => s.esp_to_wait ≠ 0
  | _ => True

/-- The notification can be tested. -/
instance : ∀ s a, Decidable (NotifiesInRound s a)
  | s, .notify _ _ => inferInstanceAs (Decidable (s.esp_to_wait ≠ 0))
  | _, .store .. | _, .sleep | _, .spurious | _, .reset | _, .start | _, .finish => .isTrue trivial

/-- What the steps inside the range keep: the counter and the notified uploads make up
`esp_number`, and the processing thread sleeps only on a predicate that does not hold. -/
structure CountInv (esp_number : ℕ) (s : State) : Prop where
  nonneg : 0 ≤ s.esp_to_wait
  count : s.esp_to_wait + s.notified.length = esp_number
  asleep : s.process = .asleep → s.esp_to_wait ≠ 0

section
variable {esp_number : ℕ} {s t : State} {a : Action} {as : List Action}

/-- The counter begins in order. -/
theorem countInv_init : CountInv esp_number (init esp_number) :=
  ⟨by simp [init], by simp [init], nofun⟩

/-- A counter in order is in its range. -/
theorem CountInv.inRange (h : CountInv esp_number s) : InRange esp_number s := by
  have ⟨hn, hc, ha⟩ := h
  refine ⟨hn, by omega, fun hlen => ?_⟩
  have h0 : s.esp_to_wait = 0 := by omega
  exact ⟨h0, fun hpc => ha hpc h0⟩

/-- A step that notifies no upload at zero keeps the count. -/
theorem CountInv.step (h : CountInv esp_number s) (hG : NotifiesInRound s a)
    (hs : step esp_number s a = some t) : CountInv esp_number t := by
  have ⟨hn, hc, ha⟩ := h
  cases a with
  | store th esp =>
    obtain ⟨-, rfl⟩ := guarded_eq_some.1 hs
    exact ⟨hn, hc, ha⟩
  | notify th esp =>
    obtain ⟨-, rfl⟩ := guarded_eq_some.1 hs
    have hne : s.esp_to_wait ≠ 0 := hG
    refine ⟨by dsimp only; omega, ?_, fun hw => absurd hw (wake_ne_asleep _)⟩
    simp only [List.length_append, List.length_singleton]
    omega
  | sleep =>
    obtain ⟨⟨-, hne⟩, rfl⟩ := guarded_eq_some.1 hs
    exact ⟨hn, hc, fun _ => hne⟩
  | reset =>
    obtain ⟨-, rfl⟩ := guarded_eq_some.1 hs
    exact ⟨by simp, by simp, nofun⟩
  | spurious | start | finish =>
    obtain ⟨-, rfl⟩ := guarded_eq_some.1 hs
    exact ⟨hn, hc, nofun⟩

/-- An upload notified at zero takes the counter out of its range. -/
theorem not_inRange_of_notify (hG : ¬ NotifiesInRound s a) (hs : step esp_number s a = some t) :
    ¬ InRange esp_number t := by
  cases a with
  | notify th esp =>
    obtain ⟨-, rfl⟩ := guarded_eq_some.1 hs
    have h0 : s.esp_to_wait = 0 := not_not.1 hG
    intro hr
    have := hr.nonneg
    simp [h0] at this
  | store | sleep | spurious | reset | start | finish => exact absurd trivial hG

/-- **When the counter keeps its range.** Every state of a run is in range, and able to go on once
`esp_number` uploads are notified, exactly if no upload of the run is notified while the counter
is zero. -/
theorem counter_in_range_iff (esp_number : ℕ) (as : List Action) (s : State)
    (h : run (step esp_number) (init esp_number) as = some s) :
    Throughout (step esp_number) (InRange esp_number) (init esp_number) as ↔
      Meets (step esp_number) NotifiesInRound (init esp_number) as :=
  throughout_iff_meets (I := CountInv esp_number) (fun _ hs => hs.inRange)
    (fun _ _ _ hs hG ht => hs.step hG ht) (fun _ _ _ _ hG ht => not_inRange_of_notify hG ht)
    countInv_init h

/-- One receiver, whose upload starts a round. -/
def oneRound : List Action :=
  [.sleep, .store 0 0, .notify 0 0, .reset, .start, .store 1 0, .finish, .sleep, .notify 1 0]

/-- The counter stays in its range over one round. -/
theorem counter_in_range_iff_oneRound :
    Throughout (step 1) (InRange 1) (init 1) oneRound := by
  have hrun : (run (step 1) (init 1) oneRound).isSome := by decide
  obtain ⟨s, hs⟩ := Option.isSome_iff_exists.1 hrun
  exact (counter_in_range_iff 1 oneRound s hs).2 (by decide)

/-- Two uploads of one receiver, the second one notified before the processing thread runs. -/
def overrun : List Action := [.store 0 0, .store 1 0, .notify 0 0, .notify 1 0]

/-- The counter does leave its range. -/
theorem counter_out_of_range :
    ¬ ∀ (esp_number : ℕ) (as : List Action) (s : State), 1 ≤ esp_number → esp_number ≤ 8 →
      run (step esp_number) (init esp_number) as = some s → InRange esp_number s := by
  intro h
  have hrun : ∃ s, run (step 1) (init 1) overrun = some s ∧ s.esp_to_wait = -1 := ⟨_, rfl, rfl⟩
  obtain ⟨s, hs, hneg⟩ := hrun
  have := (h 1 overrun s le_rfl (by omega) hs).nonneg
  omega

/-- Below zero the predicate never holds again: no step resets the counter. -/
theorem stuck_below_zero (hneg : s.esp_to_wait < 0) (hs : step esp_number s a = some t) :
    t.esp_to_wait < 0 ∧ a ≠ .reset := by
  cases a with
  | notify th esp =>
    obtain ⟨-, rfl⟩ := guarded_eq_some.1 hs
    exact ⟨by dsimp only; omega, nofun⟩
  | reset =>
    obtain ⟨⟨-, h0⟩, -⟩ := guarded_eq_some.1 hs
    omega
  | store | sleep | spurious | start | finish =>
    obtain ⟨-, rfl⟩ := guarded_eq_some.1 hs
    exact ⟨hneg, nofun⟩

/-! ## What a round is fed by -/

/-- The condition on a step: an upload is notified for a receiver that has fed no other upload to
the round, and not in the moment between the reset of the counter and the start of `process()`. -/
def FeedsOnce (s : State) : Action → Prop
  | .notify _ esp => s.process ≠ .released ∧ esp ∉ s.fed
  | _ => True

/-- Whether a receiver feeds a round once can be decided. -/
instance : ∀ s a, Decidable (FeedsOnce s a)
  | s, .notify _ esp => inferInstanceAs (Decidable (s.process ≠ .released ∧ esp ∉ s.fed))
  | _, .store .. | _, .sleep | _, .spurious | _, .reset | _, .start | _, .finish => .isTrue trivial

/-- What the steps that meet the condition keep. -/
structure FeedInv (esp_number : ℕ) (s : State) : Prop where
  /-- a stored upload is one of a registered receiver -/
  stored : ∀ t esp, s.service t = .stored esp → esp < esp_number
  /-- so is an upload that was notified -/
  fed_lt : ∀ esp ∈ s.fed, esp < esp_number
  /-- no receiver is counted twice -/
  nodup : s.fed.Nodup
  /-- before the reset the counter is what is missing -/
  waits : s.process ≠ .released → s.esp_to_wait + s.fed.length = esp_number
  /-- at the reset nothing is -/
  released : s.process = .released → s.esp_to_wait = esp_number ∧ s.fed.length = esp_number

/-- The first round begins with nobody fed. -/
theorem feedInv_init : FeedInv esp_number (init esp_number) :=
  ⟨nofun, by simp [init], List.nodup_nil, by simp [init], nofun⟩

/-- A round about to start has every receiver. -/
theorem FeedInv.full (h : FeedInv esp_number s) (hpc : s.process = .released) :
    Barrier.Full esp_number s.fed :=
  Barrier.full_of_nodup h.nodup h.fed_lt (h.released hpc).2.ge

/-- A step that counts no receiver twice keeps the invariant. -/
theorem FeedInv.step (h : FeedInv esp_number s) (hG : FeedsOnce s a)
    (hs : step esp_number s a = some t) : FeedInv esp_number t := by
  have ⟨hst, hlt, hnd, hw, hr⟩ := h
  cases a with
  | store th esp =>
    obtain ⟨⟨-, hesp⟩, rfl⟩ := guarded_eq_some.1 hs
    refine ⟨fun u e he => ?_, hlt, hnd, hw, hr⟩
    by_cases hu : u = th
    · subst hu
      simp only [Function.update_self, ServicePc.stored.injEq] at he
      exact he ▸ hesp
    · exact hst u e (by simpa [Function.update_of_ne hu] using he)
  | notify th esp =>
    obtain ⟨hpc, rfl⟩ := guarded_eq_some.1 hs
    obtain ⟨hrel, hnew⟩ := hG
    refine ⟨fun u e he => ?_, fun e he => ?_, ?_, fun _ => ?_, fun hc => ?_⟩
    · by_cases hu : u = th
      · subst hu
        simp at he
      · exact hst u e (by simpa [Function.update_of_ne hu] using he)
    · rcases List.mem_append.1 he with he | he
      · exact hlt e he
      · exact List.mem_singleton.1 he ▸ hst th esp hpc
    · exact hnd.append (List.nodup_singleton esp) (by simpa using hnew)
    · have := hw hrel
      simp only [List.length_append, List.length_singleton]
      omega
    · exact absurd (wake_eq_released.1 hc) hrel
  | sleep | spurious | finish =>
    obtain ⟨hpc, rfl⟩ := guarded_eq_some.1 hs
    exact ⟨hst, hlt, hnd, fun _ => hw (by simp_all), nofun⟩
  | reset =>
    obtain ⟨⟨hpc, h0⟩, rfl⟩ := guarded_eq_some.1 hs
    have := hw (by simp [hpc])
    exact ⟨hst, hlt, hnd, fun hc => absurd rfl hc, fun _ => ⟨rfl, by dsimp only; omega⟩⟩
  | start =>
    obtain ⟨hpc, rfl⟩ := guarded_eq_some.1 hs
    have hlen := (hr hpc).1
    exact ⟨hst, by simp, List.nodup_nil, fun _ => by simpa using hlen, nofun⟩

/-- The barrier a state stands for. -/
def State.barrier (s : State) : Barrier.State := ⟨s.fed, s.rounds⟩

/-- The step of the barrier that a step of the server is. -/
def arrives : Action → List Barrier.Action
  | .notify _ esp => [.arrive esp]
  | .start => [.release]
  | _ => []

/-- A step that counts no receiver twice is a step of the barrier, or none. -/
theorem step_refines_barrier (h : FeedInv esp_number s) (hs : step esp_number s a = some t) :
    run (Barrier.step esp_number) s.barrier (arrives a) = some t.barrier := by
  cases a with
  | notify th esp =>
    obtain ⟨hpc, rfl⟩ := guarded_eq_some.1 hs
    have hlt := h.stored th esp hpc
    simp [arrives, run, Barrier.step, guarded, State.barrier, hlt]
  | start =>
    obtain ⟨hpc, rfl⟩ := guarded_eq_some.1 hs
    have hfull := h.full hpc
    simp [arrives, run, Barrier.step, guarded, State.barrier, hfull]
  | store | sleep | spurious | reset | finish =>
    obtain ⟨-, rfl⟩ := guarded_eq_some.1 hs
    simp [arrives, State.barrier]

/-- A run that counts no receiver twice for a round is a run of the barrier of the receivers. -/
theorem run_refines_barrier (hG : Meets (step esp_number) FeedsOnce (init esp_number) as)
    (h : run (step esp_number) (init esp_number) as = some s) :
    ∃ bs, run (Barrier.step esp_number) Barrier.init bs = some s.barrier := by
  have hstep : ∀ s a t b, FeedInv esp_number s ∧ s.barrier = b → FeedsOnce s a →
      step esp_number s a = some t → ∃ bs b', run (Barrier.step esp_number) b bs = some b' ∧
        FeedInv esp_number t ∧ t.barrier = b' := by
    rintro s a t _ ⟨hs, rfl⟩ hG ht
    exact ⟨arrives a, t.barrier, step_refines_barrier hs ht, hs.step hG ht, rfl⟩
  obtain ⟨bs, _, hbs, -, rfl⟩ := run_simulates_of_meets hstep ⟨feedInv_init, rfl⟩ hG h
  exact ⟨bs, hbs⟩

/-- **Every round is fed by every receiver,** as long as no receiver is counted twice for a round.
-/
theorem every_receiver_feeds_round (esp_number : ℕ) (as : List Action) (s : State)
    (hG : Meets (step esp_number) FeedsOnce (init esp_number) as)
    (h : run (step esp_number) (init esp_number) as = some s) :
    ∀ round ∈ s.rounds, ∀ esp < esp_number, esp ∈ round := by
  obtain ⟨bs, hbs⟩ := run_refines_barrier hG h
  exact Barrier.full_of_run hbs

end

/-- Two receivers that upload in turn. -/
def bothUpload : List Action :=
  [.sleep, .store 0 1, .notify 0 1, .sleep, .store 1 0, .notify 1 0, .reset, .start]

/-- Both receivers feed the round. -/
theorem every_receiver_feeds_round_bothUpload :
    ∃ s, run (step 2) (init 2) bothUpload = some s ∧ s.rounds = [[1, 0]] ∧
      ∀ round ∈ s.rounds, ∀ esp < 2, esp ∈ round := by
  have hrun : ∃ s, run (step 2) (init 2) bothUpload = some s ∧ s.rounds = [[1, 0]] :=
    ⟨_, rfl, rfl⟩
  obtain ⟨s, hs, hrounds⟩ := hrun
  exact ⟨s, hs, hrounds, every_receiver_feeds_round 2 bothUpload s (by decide) hs⟩

/-- Two receivers, one of which uploads twice and the other not at all. -/
def oneUploadsTwice : List Action :=
  [.sleep, .store 0 0, .notify 0 0, .sleep, .store 1 0, .notify 1 0, .reset, .start]

/-- A round can start without a receiver. -/
theorem round_without_receiver :
    ¬ ∀ (esp_number : ℕ) (as : List Action) (s : State), 1 ≤ esp_number → esp_number ≤ 8 →
      run (step esp_number) (init esp_number) as = some s →
      ∀ round ∈ s.rounds, ∀ esp < esp_number, esp ∈ round := by
  intro h
  have hrun : ∃ s, run (step 2) (init 2) oneUploadsTwice = some s ∧ s.rounds = [[0, 0]] :=
    ⟨_, rfl, rfl⟩
  obtain ⟨s, hs, hrounds⟩ := hrun
  have := h 2 oneUploadsTwice s (by omega) (by omega) hs [0, 0] (by simp [hrounds]) 1 (by omega)
  simp at this

end Round

end DetectionSystem
