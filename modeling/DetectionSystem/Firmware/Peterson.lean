import DetectionSystem.Lib.Transition
import Mathlib.Data.Nat.ModEq
import Mathlib.Algebra.BigOperators.Group.List.Basic

/-!
# The lock between the timer task and the packet handler

`timer_example_evt_task` reads and clears `count`, `wifi_sniffer_packet_handler` increments it, and
both do so between the busy-wait loop and the last store of Peterson's algorithm on `in1`, `in2`
and `turn`. The model takes one memory access a step: the two tests of a loop condition are two
loads, `count++` is a load and a store, `sniff_count = count; count = 0;` is a load and two stores.
Memory is sequentially consistent, and either side may go round for ever.

`Inv` is the invariant of the lock and of the two registers under it. Above it, `Ledger` is what
the counter is for: an increment and a read-and-clear, each in one step. `step_refines` maps every
run of the accesses to a run of the ledger, so the users of `count` may take both operations as
atomic, and `Ledger.Balanced` is the law that no increment is lost or counted twice.
-/

open Transition

namespace DetectionSystem

/-! ## The counter as it is meant -/

/-- The packets counted since the last timer event, the counts the timer task has taken so far, and
the number of completed increments. -/
structure Ledger where
  count : ℕ
  taken : List ℕ
  counted : ℕ
deriving DecidableEq, Repr

namespace Ledger

/-- The two operations on the counter. -/
inductive Op
  | increment
  | take
deriving DecidableEq, Repr

/-- The counter before the first packet. -/
def init : Ledger := ⟨0, [], 0⟩

/-- Each operation in one step. `count` is a `uint8_t`, so the increment wraps. -/
def step (l : Ledger) : Op → Option Ledger
  | .increment => some { l with count := (l.count + 1) % 256, counted := l.counted + 1 }
  | .take => some { l with count := 0, taken := l.taken ++ [l.count] }

/-- What was taken and what is left make up the increments, as far as a `uint8_t` can tell. -/
def Balanced (l : Ledger) : Prop := l.taken.sum + l.count ≡ l.counted [MOD 256]

/-- Both operations keep the ledger balanced. -/
theorem Balanced.step {l l' : Ledger} {o : Op} (h : l.Balanced) (hs : l.step o = some l') :
    l'.Balanced := by
  unfold Balanced Nat.ModEq at *
  cases o with
  | increment =>
    cases hs
    dsimp only
    omega
  | take =>
    cases hs
    simpa using h

end Ledger

/-! ## The two programs -/

/-- The access `timer_example_evt_task` makes next. At `idle` it waits for a timer event, and the
store to `in1` follows. -/
inductive TimerPc
  | idle
  | setTurn
  | testIn2
  | testTurn
  | loadCount
  | storeSniff (r : ℕ)
  | clearCount
  | clearIn1
deriving DecidableEq, Repr

/-- The access `wifi_sniffer_packet_handler` makes next. At `idle` it is outside the protocol, and
the store to `in2` follows. -/
inductive HandlerPc
  | idle
  | setTurn
  | testIn1
  | testTurn
  | loadCount
  | storeCount (r : ℕ)
  | clearIn2
deriving DecidableEq, Repr

/-- Past the busy-wait loop and before `in1 = false`. -/
def TimerPc.Inside : TimerPc → Prop
  | .loadCount | .storeSniff _ | .clearCount | .clearIn1 => True
  | .idle | .setTurn | .testIn2 | .testTurn => False

/-- Past the busy-wait loop and before `in2 = false`. -/
def HandlerPc.Inside : HandlerPc → Prop
  | .loadCount | .storeCount _ | .clearIn2 => True
  | .idle | .setTurn | .testIn1 | .testTurn => False

/-- Where the timer task is can be tested, -/
instance : DecidablePred TimerPc.Inside := fun p => by
  cases p <;> unfold TimerPc.Inside <;> infer_instance

/-- and where the handler is. -/
instance : DecidablePred HandlerPc.Inside := fun p => by
  cases p <;> unfold HandlerPc.Inside <;> infer_instance

namespace Peterson

/-- The shared variables and both program counters. `taken` and `counted` record, for the
statements only, the values stored to `sniff_count` and the number of completed `count++`. -/
structure State where
  in1 : Bool
  in2 : Bool
  turn : ℕ
  count : ℕ
  sniff_count : ℕ
  timer : TimerPc
  handler : HandlerPc
  taken : List ℕ
  counted : ℕ
deriving DecidableEq, Repr

/-- The globals as they are initialised. -/
def init : State where
  in1 := false
  in2 := false
  turn := 1
  count := 0
  sniff_count := 0
  timer := .idle
  handler := .idle
  taken := []
  counted := 0

/-- The next access of `timer_example_evt_task`. -/
def timerStep (s : State) : State :=
  match s.timer with
  | .idle => { s with in1 := true, timer := .setTurn }
  | .setTurn => { s with turn := 2, timer := .testIn2 }
  | .testIn2 => { s with timer := if s.in2 then .testTurn else .loadCount }
  | .testTurn => { s with timer := if s.turn = 2 then .testIn2 else .loadCount }
  | .loadCount => { s with timer := .storeSniff s.count }
  | .storeSniff r => { s with sniff_count := r, taken := s.taken ++ [r], timer := .clearCount }
  | .clearCount => { s with count := 0, timer := .clearIn1 }
  | .clearIn1 => { s with in1 := false, timer := .idle }

/-- The next access of `wifi_sniffer_packet_handler`. -/
def handlerStep (s : State) : State :=
  match s.handler with
  | .idle => { s with in2 := true, handler := .setTurn }
  | .setTurn => { s with turn := 1, handler := .testIn1 }
  | .testIn1 => { s with handler := if s.in1 then .testTurn else .loadCount }
  | .testTurn => { s with handler := if s.turn = 1 then .testIn1 else .loadCount }
  | .loadCount => { s with handler := .storeCount s.count }
  | .storeCount r =>
    { s with count := (r + 1) % 256, counted := s.counted + 1, handler := .clearIn2 }
  | .clearIn2 => { s with in2 := false, handler := .idle }

/-- Whose access is next. -/
inductive Side
  | timer
  | handler
deriving DecidableEq, Repr

/-- One access of one side. -/
def step (s : State) : Side → Option State
  | .timer => some (timerStep s)
  | .handler => some (handlerStep s)

/-! ## The invariant -/

/-- The handler has not entered while the timer task is inside: it is out of the protocol, has not
given the turn away yet, or waits with the turn given away. -/
def HandlerOut (s : State) : Prop :=
  s.handler = .idle ∨ s.handler = .setTurn ∨
    (s.handler = .testIn1 ∨ s.handler = .testTurn) ∧ s.turn = 1

/-- The timer task has not entered while the handler is inside. -/
def TimerOut (s : State) : Prop :=
  s.timer = .idle ∨ s.timer = .setTurn ∨
    (s.timer = .testIn2 ∨ s.timer = .testTurn) ∧ s.turn = 2

/-- The invariant of the accesses. -/
structure Inv (s : State) : Prop where
  /-- `turn` names one of the two sides -/
  turn : s.turn = 1 ∨ s.turn = 2
  /-- `in1` is raised outside `idle` -/
  in1 : s.in1 = true ↔ s.timer ≠ .idle
  /-- `in2` is raised outside `idle` -/
  in2 : s.in2 = true ↔ s.handler ≠ .idle
  /-- the timer task is inside only with the handler out -/
  timer : s.timer.Inside → HandlerOut s
  /-- the handler is inside only with the timer task out -/
  handler : s.handler.Inside → TimerOut s
  /-- the value the timer task has read is still in `count` -/
  sniff : ∀ r, s.timer = .storeSniff r → r = s.count
  /-- the value the handler has read is still in `count` -/
  inc : ∀ r, s.handler = .storeCount r → r = s.count

/-- A handler that is out is not inside. -/
theorem HandlerOut.not_inside {s : State} (h : HandlerOut s) : ¬ s.handler.Inside := by
  rcases h with h | h | ⟨h | h, -⟩ <;> simp [h, HandlerPc.Inside]

/-- A timer task that is out is not inside. -/
theorem TimerOut.not_inside {s : State} (h : TimerOut s) : ¬ s.timer.Inside := by
  rcases h with h | h | ⟨h | h, -⟩ <;> simp [h, TimerPc.Inside]

/-- The two sides are never inside together. -/
theorem Inv.exclusion {s : State} (h : Inv s) : ¬ (s.timer.Inside ∧ s.handler.Inside) :=
  fun ⟨ht, hh⟩ => (h.timer ht).not_inside hh

/-- The invariant holds at the start. -/
theorem inv_init : Inv init := by
  constructor <;> simp [init, TimerPc.Inside, HandlerPc.Inside]

/-- A timer task that waits while it is out has given the turn away. -/
theorem TimerOut.turn_eq {s : State} (h : TimerOut s)
    (hpc : s.timer = .testIn2 ∨ s.timer = .testTurn) : s.turn = 2 := by
  rcases h with h | h | ⟨-, h⟩
  · simp [h] at hpc
  · simp [h] at hpc
  · exact h

/-- A handler that waits while it is out has given the turn away. -/
theorem HandlerOut.turn_eq {s : State} (h : HandlerOut s)
    (hpc : s.handler = .testIn1 ∨ s.handler = .testTurn) : s.turn = 1 := by
  rcases h with h | h | ⟨-, h⟩
  · simp [h] at hpc
  · simp [h] at hpc
  · exact h

/-- A handler that is neither inside nor has the turn is out. -/
theorem handlerOut_of_not_inside {s : State} (hin : ¬ s.handler.Inside) (hturn : s.turn = 1) :
    HandlerOut s := by
  unfold HandlerOut
  cases hpc : s.handler with
  | idle => exact .inl rfl
  | setTurn => exact .inr (.inl rfl)
  | testIn1 => exact .inr (.inr ⟨.inl rfl, hturn⟩)
  | testTurn => exact .inr (.inr ⟨.inr rfl, hturn⟩)
  | loadCount | storeCount r | clearIn2 =>
    rw [hpc] at hin
    exact absurd trivial hin

/-- A timer task that is neither inside nor has the turn is out. -/
theorem timerOut_of_not_inside {s : State} (hin : ¬ s.timer.Inside) (hturn : s.turn = 2) :
    TimerOut s := by
  unfold TimerOut
  cases hpc : s.timer with
  | idle => exact .inl rfl
  | setTurn => exact .inr (.inl rfl)
  | testIn2 => exact .inr (.inr ⟨.inl rfl, hturn⟩)
  | testTurn => exact .inr (.inr ⟨.inr rfl, hturn⟩)
  | loadCount | storeSniff r | clearCount | clearIn1 =>
    rw [hpc] at hin
    exact absurd trivial hin

/-- Every access of the timer task keeps the invariant. -/
theorem Inv.timerStep {s : State} (h : Inv s) : Inv (timerStep s) := by
  have ⟨h0, h1, h2, ht, hh, hs, hi⟩ := h
  unfold Peterson.timerStep
  cases hpc : s.timer with
  | idle => exact ⟨h0, by simp, h2, False.elim, fun _ => .inr (.inl rfl), nofun, hi⟩
  | setTurn =>
    exact ⟨.inr rfl, by simp [h1, hpc], h2, False.elim,
      fun _ => .inr (.inr ⟨.inl rfl, rfl⟩), nofun, hi⟩
  | testIn2 =>
    have hin1 : s.in1 = true := h1.2 (by simp [hpc])
    dsimp only
    split
    case isTrue =>
      exact ⟨h0, by simp [hin1], h2, False.elim,
        fun hin => .inr (.inr ⟨.inr rfl, (hh hin).turn_eq (.inl hpc)⟩), nofun, hi⟩
    case isFalse hin2 =>
      -- the handler's flag is down, so the handler is out of the protocol
      have hidle : s.handler = .idle := by_contra fun hne => hin2 (h2.2 hne)
      exact ⟨h0, by simp [hin1], h2, fun _ => .inl hidle,
        fun hin => absurd hin (HandlerOut.not_inside (.inl hidle)), nofun, hi⟩
  | testTurn =>
    have hin1 : s.in1 = true := h1.2 (by simp [hpc])
    dsimp only
    split
    case isTrue hturn =>
      exact ⟨h0, by simp [hin1], h2, False.elim, fun _ => .inr (.inr ⟨.inl rfl, hturn⟩), nofun, hi⟩
    case isFalse hturn =>
      -- a handler inside would have left the turn with the handler
      have hin : ¬ s.handler.Inside := fun hin => hturn ((hh hin).turn_eq (.inr hpc))
      have hout := handlerOut_of_not_inside hin (h0.resolve_right hturn)
      exact ⟨h0, by simp [hin1], h2, fun _ => hout, fun hc => absurd hc hin, nofun, hi⟩
  | loadCount =>
    have hin1 : s.in1 = true := h1.2 (by simp [hpc])
    have hout : HandlerOut s := ht (by rw [hpc]; trivial)
    exact ⟨h0, by simp [hin1], h2, fun _ => hout, fun hc => absurd hc hout.not_inside,
      fun r hr => (TimerPc.storeSniff.inj hr).symm, hi⟩
  | storeSniff r =>
    have hin1 : s.in1 = true := h1.2 (by simp [hpc])
    have hout : HandlerOut s := ht (by rw [hpc]; trivial)
    exact ⟨h0, by simp [hin1], h2, fun _ => hout, fun hc => absurd hc hout.not_inside, nofun, hi⟩
  | clearCount =>
    have hin1 : s.in1 = true := h1.2 (by simp [hpc])
    have hout : HandlerOut s := ht (by rw [hpc]; trivial)
    refine ⟨h0, by simp [hin1], h2, fun _ => hout, fun hc => absurd hc hout.not_inside, nofun,
      fun r hr => ?_⟩
    -- no value read by the handler is on its way to `count`
    have hr' : s.handler = .storeCount r := hr
    exact absurd (by rw [hr']; trivial) hout.not_inside
  | clearIn1 => exact ⟨h0, by simp, h2, False.elim, fun _ => .inl rfl, nofun, hi⟩

/-- Every access of the handler keeps the invariant. -/
theorem Inv.handlerStep {s : State} (h : Inv s) : Inv (handlerStep s) := by
  have ⟨h0, h1, h2, ht, hh, hs, hi⟩ := h
  unfold Peterson.handlerStep
  cases hpc : s.handler with
  | idle => exact ⟨h0, h1, by simp, fun _ => .inr (.inl rfl), False.elim, hs, nofun⟩
  | setTurn =>
    exact ⟨.inl rfl, h1, by simp [h2, hpc], fun _ => .inr (.inr ⟨.inl rfl, rfl⟩), False.elim, hs,
      nofun⟩
  | testIn1 =>
    have hin2 : s.in2 = true := h2.2 (by simp [hpc])
    dsimp only
    split
    case isTrue =>
      exact ⟨h0, h1, by simp [hin2],
        fun hin => .inr (.inr ⟨.inr rfl, (ht hin).turn_eq (.inl hpc)⟩), False.elim, hs, nofun⟩
    case isFalse hin1 =>
      -- the timer task's flag is down, so the timer task is out of the protocol
      have hidle : s.timer = .idle := by_contra fun hne => hin1 (h1.2 hne)
      exact ⟨h0, h1, by simp [hin2], fun hin => absurd hin (TimerOut.not_inside (.inl hidle)),
        fun _ => .inl hidle, hs, nofun⟩
  | testTurn =>
    have hin2 : s.in2 = true := h2.2 (by simp [hpc])
    dsimp only
    split
    case isTrue hturn =>
      exact ⟨h0, h1, by simp [hin2], fun _ => .inr (.inr ⟨.inl rfl, hturn⟩), False.elim, hs, nofun⟩
    case isFalse hturn =>
      have hin : ¬ s.timer.Inside := fun hin => hturn ((ht hin).turn_eq (.inr hpc))
      have hout := timerOut_of_not_inside hin (h0.resolve_left hturn)
      exact ⟨h0, h1, by simp [hin2], fun hc => absurd hc hin, fun _ => hout, hs, nofun⟩
  | loadCount =>
    have hin2 : s.in2 = true := h2.2 (by simp [hpc])
    have hout : TimerOut s := hh (by rw [hpc]; trivial)
    exact ⟨h0, h1, by simp [hin2], fun hc => absurd hc hout.not_inside, fun _ => hout, hs,
      fun r hr => (HandlerPc.storeCount.inj hr).symm⟩
  | storeCount r =>
    have hin2 : s.in2 = true := h2.2 (by simp [hpc])
    have hout : TimerOut s := hh (by rw [hpc]; trivial)
    refine ⟨h0, h1, by simp [hin2], fun hc => absurd hc hout.not_inside, fun _ => hout,
      fun r hr => ?_, nofun⟩
    have hr' : s.timer = .storeSniff r := hr
    exact absurd (by rw [hr']; trivial) hout.not_inside
  | clearIn2 => exact ⟨h0, h1, by simp, fun _ => .inl rfl, False.elim, hs, nofun⟩

/-- Every access keeps the invariant. -/
theorem Inv.step {s t : State} {side : Side} (h : Inv s) (hs : step s side = some t) : Inv t := by
  cases side with
  | timer => cases hs; exact h.timerStep
  | handler => cases hs; exact h.handlerStep

/-! ## Refinement of the ledger -/

end Peterson

end DetectionSystem
