import DetectionSystem.Firmware.Peterson

/-!
# The Wi-Fi events and the timer tasks

`event_handler` sets up the timer, creates `timer_example_evt_task` and turns the sniffing on in its
branch for `SYSTEM_EVENT_STA_GOT_IP`, which is delivered again each time the link comes back. Here
the handler, the timer tasks it has created and the packet handler are interleaved. Every timer task
runs the program of the one timer task of `Peterson`, on the same `in1`, `turn`, `count` and
`sniff_count`.

With one timer task the system is the two-party one (`Inv`), and so `at_most_one_iff` needs to count
the calls of `xTaskCreate` only, of which each delivery of `STA_GOT_IP` makes one
(`count_createTask_add_underWay_le`); `exclusion_lost` is what the lock comes to with a second task.
-/

open Transition

namespace DetectionSystem

namespace Events

/-- The events `event_handler` tells apart. -/
inductive Event
  | STA_START
  | STA_GOT_IP
  | STA_CONNECTED
  | STA_DISCONNECTED
deriving DecidableEq, Repr

/-- Where `event_handler` is: it waits for an event, or handles `STA_GOT_IP` and is about to return
from `esp_initialization`, to return from `esp_is_ready`, to start the timer, to create the task, or
to turn the sniffing on. -/
inductive Pc
  | idle
  | esp_initialization
  | esp_is_ready
  | tg0_timer_init
  | xTaskCreate
  | set_promiscuous
deriving DecidableEq, Repr

/-- `TIMER_1`: its configuration, and how often `timer_start` was called since it was paused. -/
structure Timer where
  auto_reload : Bool
  interval : ℕ
  starts : ℕ
deriving DecidableEq, Repr

/-- `tg0_timer_init`: `timer_init` pauses the timer, and `timer_start` starts it. -/
def tg0_timer_init (auto_reload : Bool) (timer_interval_sec : ℕ) : Timer :=
  let paused : Timer := ⟨auto_reload, timer_interval_sec, 0⟩
  { paused with starts := paused.starts + 1 }

/-- The seconds between two uploads. -/
def TIMER_INTERVAL1_SEC : ℕ := 15

/-- The state of a receiver. `tasks` holds the program counter of each `timer_example_evt_task`;
`lock` holds the shared variables and the program counter of the packet handler, while its program
counter of the timer task is that of the task that moved last. -/
structure State where
  handler : Pc
  connected : Bool
  ready : Bool
  timer : Timer
  promiscuous : Bool
  tasks : List TimerPc
  lock : Peterson.State
deriving DecidableEq, Repr

/-- A receiver that was just switched on. -/
def init : State where
  handler := .idle
  connected := false
  ready := false
  timer := ⟨false, 0, 0⟩
  promiscuous := false
  tasks := []
  lock := Peterson.init

/-- What can happen next: an event is delivered; `esp_initialization` returns, if it ever does;
`esp_is_ready` returns, with or without the READY message of the server; the next two calls of
`event_handler` are made, of which `xTaskCreate` may fail; the sniffing is turned on; a timer task
makes its next access, or the packet handler does. -/
inductive Action
  | event (e : Event)
  | initialized
  | readied (ready : Bool)
  | startTimer
  | createTask (ok : Bool)
  | sniff
  | task (i : ℕ)
  | packet
deriving DecidableEq, Repr

/-- The branches of `event_handler`, up to the first call that takes time. -/
def event_handler (s : State) : Event → State
  | .STA_START => s
  | .STA_GOT_IP => { s with connected := true, handler := .esp_initialization }
  | .STA_CONNECTED => s
  | .STA_DISCONNECTED => { s with connected := false }

/-- The shared variables as a timer task at `pc` finds them. -/
def State.seen (s : State) (pc : TimerPc) : Peterson.State := { s.lock with timer := pc }

/-- One step. -/
def step (s : State) : Action → Option State
  | .event e => guarded (s.handler = .idle) (event_handler s e)
  | .initialized => guarded (s.handler = .esp_initialization) { s with handler := .esp_is_ready }
  | .readied ready =>
    guarded (s.handler = .esp_is_ready)
      { s with ready := s.ready || ready, handler := .tg0_timer_init }
  | .startTimer =>
    guarded (s.handler = .tg0_timer_init)
      { s with timer := tg0_timer_init true TIMER_INTERVAL1_SEC, handler := .xTaskCreate }
  | .createTask ok =>
    guarded (s.handler = .xTaskCreate)
      { s with tasks := if ok then s.tasks ++ [.idle] else s.tasks, handler := .set_promiscuous }
  | .sniff =>
    guarded (s.handler = .set_promiscuous) { s with promiscuous := true, handler := .idle }
  | .task i => s.tasks[i]?.map fun pc =>
    let lock := Peterson.timerStep (s.seen pc)
    { s with lock := lock, tasks := s.tasks.set i lock.timer }
  | .packet => guarded (s.promiscuous = true) { s with lock := Peterson.handlerStep s.lock }

/-- At most one timer task exists and at most one timer start is in force, and no two of the parties
are inside the lock. -/
structure AtMostOne (s : State) : Prop where
  task : s.tasks.length ≤ 1
  start : s.timer.starts ≤ 1
  exclusion : ∀ (i : ℕ) (pc : TimerPc), s.tasks[i]? = some pc → pc.Inside →
    ¬ s.lock.handler.Inside ∧ ∀ (j : ℕ) (pc' : TimerPc), s.tasks[j]? = some pc' → pc'.Inside → j = i

/-- No timer task is created beside another one. -/
def CreatesFirst (s : State) : Action → Prop
  | .createTask ok => ok = true → s.tasks = []
  | _ => True

/-! ## One timer task -/

/-- There is at most one timer task, and it and the packet handler are in a state of Peterson's
algorithm. -/
structure Inv (s : State) : Prop where
  task : s.tasks.length ≤ 1
  start : s.timer.starts ≤ 1
  lock : Peterson.Inv (s.seen (s.tasks.headD .idle))

variable {s t : State} {a : Action} {as : List Action}

/-- There is no task yet, and Peterson's algorithm starts. -/
theorem inv_init : Inv init := ⟨by decide, by decide, Peterson.inv_init⟩

/-- The packet handler does not look at the program counters of the timer tasks. -/
theorem seen_handlerStep (l : Peterson.State) (pc : TimerPc) :
    { Peterson.handlerStep l with timer := pc } = Peterson.handlerStep { l with timer := pc } := by
  unfold Peterson.handlerStep
  cases l.handler <;> rfl

/-- One task, in the lock with the packet handler. -/
theorem Inv.atMostOne (h : Inv s) : AtMostOne s where
  task := h.task
  start := h.start
  exclusion := by
    have hindex : ∀ (i : ℕ) (pc : TimerPc), s.tasks[i]? = some pc → i = 0 := by
      intro i pc hi
      have hlt := (List.getElem?_eq_some_iff.1 hi).1
      have hlen := h.task
      omega
    intro i pc hi hin
    obtain rfl := hindex i pc hi
    refine ⟨fun hhandler => h.lock.exclusion ⟨?_, hhandler⟩, fun j pc' hj _ => hindex j pc' hj⟩
    have hhead : s.tasks.headD .idle = pc := by
      rw [List.headD_eq_head?_getD, List.head?_eq_getElem?, hi]
      rfl
    rw [hhead]
    exact hin

/-- A step that creates no second task keeps the invariant. -/
theorem Inv.step (h : Inv s) (hG : CreatesFirst s a) (hstep : step s a = some t) : Inv t := by
  cases a with
  | event e =>
    obtain ⟨-, rfl⟩ := guarded_eq_some.1 hstep
    cases e <;> exact ⟨h.task, h.start, h.lock⟩
  | initialized | readied | sniff =>
    obtain ⟨-, rfl⟩ := guarded_eq_some.1 hstep
    exact ⟨h.task, h.start, h.lock⟩
  | startTimer =>
    obtain ⟨-, rfl⟩ := guarded_eq_some.1 hstep
    exact ⟨h.task, le_rfl, h.lock⟩
  | createTask ok =>
    obtain ⟨-, rfl⟩ := guarded_eq_some.1 hstep
    cases ok with
    | false => exact ⟨h.task, h.start, h.lock⟩
    | true =>
      have hnone : s.tasks = [] := hG rfl
      have hlock := h.lock
      refine ⟨by simp [hnone], h.start, ?_⟩
      simpa [hnone, State.seen] using hlock
  | task i =>
    obtain ⟨pc, hpc, rfl⟩ := Option.map_eq_some_iff.1 hstep
    have hlen := h.task
    have hlt := (List.getElem?_eq_some_iff.1 hpc).1
    obtain ⟨only, honly⟩ := List.length_eq_one_iff.1 (show s.tasks.length = 1 by omega)
    obtain rfl : i = 0 := by omega
    obtain rfl : only = pc := by simpa [honly] using hpc
    have hlock := h.lock
    simp only [honly, List.headD_cons] at hlock
    refine ⟨by simpa using h.task, h.start, ?_⟩
    simpa [honly, State.seen] using hlock.timerStep
  | packet =>
    obtain ⟨-, rfl⟩ := guarded_eq_some.1 hstep
    refine ⟨h.task, h.start, ?_⟩
    have hlock := h.lock.handlerStep
    rwa [State.seen, ← seen_handlerStep] at hlock

/-! ## How many timer tasks -/

/-- The actions of a list are its first one and the others. -/
theorem count_cons_eq_add (b a : Action) (as : List Action) :
    (a :: as).count b = [a].count b + as.count b := by
  rw [List.count_cons, List.count_singleton, Nat.add_comm]

/-- A successful `xTaskCreate` is one task more, and nothing else creates or ends one. -/
theorem tasks_length_of_step (hstep : step s a = some t) :
    t.tasks.length = s.tasks.length + [a].count (.createTask true) := by
  cases a with
  | createTask ok =>
    obtain ⟨-, rfl⟩ := guarded_eq_some.1 hstep
    cases ok with
    | false => rfl
    | true => exact List.length_append
  | task i =>
    obtain ⟨pc, -, rfl⟩ := Option.map_eq_some_iff.1 hstep
    exact List.length_set
  | event e =>
    obtain ⟨-, rfl⟩ := guarded_eq_some.1 hstep
    cases e <;> rfl
  | initialized | readied | startTimer | sniff | packet =>
    obtain ⟨-, rfl⟩ := guarded_eq_some.1 hstep
    rfl

/-- So the tasks of a run are its successful calls of `xTaskCreate`. -/
theorem tasks_length_of_run (hrun : run step s as = some t) :
    t.tasks.length = s.tasks.length + as.count (.createTask true) := by
  induction as generalizing s with
  | nil =>
    cases hrun
    rfl
  | cons a as ih =>
    obtain ⟨u, hu, hrun⟩ := run_cons_eq_some.1 hrun
    rw [ih hrun, tasks_length_of_step hu, count_cons_eq_add _ a as, Nat.add_assoc]

/-- The call of `xTaskCreate` that a handler will still make which has left
`esp_initialization`. -/
def underWay : Pc → ℕ
  | .idle | .esp_initialization | .set_promiscuous => 0
  | .esp_is_ready | .tg0_timer_init | .xTaskCreate => 1

/-- A call of `xTaskCreate` has a return from `esp_initialization` of its own before it. -/
theorem count_createTask_add_underWay_of_step (hstep : step s a = some t) :
    [a].count (.createTask true) + underWay t.handler ≤
      [a].count .initialized + underWay s.handler := by
  cases a with
  | event e =>
    obtain ⟨hidle, rfl⟩ := guarded_eq_some.1 hstep
    cases e <;> simp [event_handler, hidle, underWay]
  | createTask ok =>
    obtain ⟨hpc, rfl⟩ := guarded_eq_some.1 hstep
    cases ok <;> simp [hpc, underWay]
  | initialized | readied | startTimer | sniff =>
    obtain ⟨hpc, rfl⟩ := guarded_eq_some.1 hstep
    simp [hpc, underWay]
  | task i =>
    obtain ⟨pc, -, rfl⟩ := Option.map_eq_some_iff.1 hstep
    simp
  | packet =>
    obtain ⟨-, rfl⟩ := guarded_eq_some.1 hstep
    simp

/-- So `event_handler` creates no more tasks than it returns from `esp_initialization`. -/
theorem count_createTask_add_underWay_le (hrun : run step s as = some t) :
    as.count (.createTask true) + underWay t.handler ≤
      as.count .initialized + underWay s.handler := by
  induction as generalizing s with
  | nil =>
    cases hrun
    exact le_rfl
  | cons a as ih =>
    obtain ⟨u, hu, hrun⟩ := run_cons_eq_some.1 hrun
    have hstep := count_createTask_add_underWay_of_step hu
    have hrest := ih hrun
    rw [count_cons_eq_add _ a as, count_cons_eq_add _ a as]
    omega

/-- If `xTaskCreate` succeeds once, then no task is created beside another one. -/
theorem createsFirst_of_count (hcount : as.count (.createTask true) ≤ 1) :
    Meets step CreatesFirst init as := by
  refine meets_iff_forall.2 fun pre a post heq t hpre => ?_
  cases a with
  | createTask ok =>
    rintro rfl
    have hlen := tasks_length_of_run hpre
    rw [heq, List.count_append, List.count_cons_self] at hcount
    refine List.eq_nil_of_length_eq_zero (hlen.trans ?_)
    show 0 + _ = 0
    omega
  | event | initialized | readied | startTimer | sniff | task | packet => trivial

/-- **One timer task.** Throughout a run at most one timer task exists, at most one timer start is
in force and the lock has two parties, if and only if at most one of the calls of `xTaskCreate`
succeeds. That is the case if `esp_initialization` returns at most once. -/
theorem at_most_one_iff (as : List Action) (s : State) (hrun : run step init as = some s) :
    (Throughout step AtMostOne init as ↔ as.count (.createTask true) ≤ 1) ∧
      (as.count .initialized ≤ 1 → Throughout step AtMostOne init as) := by
  have hiff : Throughout step AtMostOne init as ↔ as.count (.createTask true) ≤ 1 := by
    constructor
    · intro h
      have hone := (h as (List.prefix_refl as) s hrun).task
      have hlen := tasks_length_of_run hrun
      omega
    · intro hcount pre hpre t ht
      have hprecount := (hpre.sublist.count_le (.createTask true)).trans hcount
      have hinv : Inv t := run_invariant_of_meets (fun _ _ _ h hG hstep => h.step hG hstep)
        inv_init (createsFirst_of_count hprecount) ht
      exact hinv.atMostOne
  refine ⟨hiff, fun hinit => hiff.2 ?_⟩
  have hle := count_createTask_add_underWay_le hrun
  simp only [init, underWay] at hle
  omega

/-- What `event_handler` does on `STA_GOT_IP`, with a server that answers. -/
def gotIp : List Action :=
  [.event .STA_GOT_IP, .initialized, .readied true, .startTimer, .createTask true, .sniff]

/-- The link is lost before the receiver has an address, and once more after it is set up. -/
def oneAddress : List Action :=
  [.event .STA_START, .event .STA_CONNECTED, .event .STA_DISCONNECTED, .event .STA_CONNECTED] ++
    gotIp ++ [.task 0, .packet, .event .STA_DISCONNECTED]

/-- With one address there is one task. -/
theorem at_most_one_iff_oneAddress :
    oneAddress.count (.createTask true) = 1 ∧ Throughout step AtMostOne init oneAddress :=
  ⟨by decide, (at_most_one_iff oneAddress _ rfl).2 (by decide)⟩

/-- The link is lost and comes back: a second timer task is created. -/
theorem second_task :
    ¬ ∀ (as : List Action) (s : State), run step init as = some s →
      Throughout step AtMostOne init as := by
  intro hclaim
  have hrun : ∃ s, run step init
      ([.event .STA_START, .event .STA_CONNECTED] ++ gotIp ++
        [.event .STA_DISCONNECTED, .event .STA_CONNECTED] ++ gotIp) = some s ∧
        s.tasks.length = 2 := ⟨_, rfl, rfl⟩
  obtain ⟨s, hs, hlen⟩ := hrun
  have hone := (hclaim _ s hs _ (List.prefix_refl _) s hs).task
  omega

/-- With two timer tasks, the one that leaves the lock lowers `in1` for the other: the packet
handler enters while that one is still inside. -/
theorem exclusion_lost :
    ∃ as s, run step init as = some s ∧
      (∃ pc ∈ s.tasks, pc.Inside) ∧ s.lock.handler.Inside :=
  ⟨gotIp ++ gotIp ++ List.replicate 4 (.task 0) ++ List.replicate 7 (.task 1) ++
      [.packet, .packet, .packet], _, rfl, by decide, by decide⟩

end Events

end DetectionSystem
