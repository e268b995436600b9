import DetectionSystem.Server.Participation

/-!
# The retry loop of the constructor

The `TCPServer` constructor sets its two counters once, and then makes up to `MAX_RETRY_TIMES`
attempts at a loop body of twelve steps, each of which may throw. Its three catch clauses release
what they can of the sockets, none of them touches `esp_list`, the counters or the detached threads.
The participation is the one of `Participation`, of which every run here is a run with more detail
(`participation_of_run`).

What carries `retry_clean_iff` is `Inv`: before a device has been listed nothing has changed since
the first attempt, and once the participation has returned a device is listed. In between the child
threads are joinable, and an exception does not get as far as a catch clause.
-/

open Transition

namespace DetectionSystem

namespace Retry

/-! ## The sockets -/

/-- What is thrown, as the catch clauses tell it apart. A thread that cannot be created throws a
`std::system_error`, which is a `runtime_error`. -/
inductive Exception
  | TCPServer_exception
  | runtime_error
  | exception
deriving DecidableEq, Repr

/-- What `aresult` points to. -/
inductive AddrInfo
  | null
  | allocated
  | freed
deriving DecidableEq, Repr

/-- What the attempts acquire and release: the calls of `WSAStartup` without a `WSACleanup`, the
address, and whether `listen_socket` is open. `double_free` records that the address was freed
twice; C++ does not say what happens then, and the model just goes on. -/
structure Winsock where
  startups : ℕ
  aresult : AddrInfo
  listening : Bool
  double_free : Bool
deriving DecidableEq, Repr

/-- `freeaddrinfo(aresult)`, which leaves the pointer as it is. -/
def Winsock.freeaddrinfo (w : Winsock) : Winsock :=
  match w.aresult with
  | .null => w
  | .allocated => { w with aresult := .freed }
  | .freed => { w with double_free := true }

/-- The catch clauses, up to `retry--`. -/
def Winsock.catch (w : Winsock) : Exception → Winsock
  | .TCPServer_exception => { w.freeaddrinfo with listening := false, startups := w.startups - 1 }
  | .runtime_error => { w with startups := w.startups - 1 }
  | .exception => w

/-! ## The constructor -/

/-- The step the constructor is at. The listening socket is set up twice: `again` is the second
time, for the uploads. -/
inductive Pc
  | setup
  | WSAStartup
  | TCPS_initialize (again : Bool)
  | TCPS_socket (again : Bool)
  | TCPS_bind (again : Bool)
  | TCPS_listen (again : Bool)
  | TCPS_ask_participation
  | TCPS_close_listen_socket
  | TCPS_process_packets
  | TCPS_requests_loop
  | ended
deriving DecidableEq, Repr

/-- The next step, for those that only succeed or throw. -/
def Pc.next : Pc → Option Pc
  | .WSAStartup => some <| Pc.TCPS_initialize false
  | Pc.TCPS_initialize again => some (.TCPS_socket again)
  | .TCPS_socket again => some (.TCPS_bind again)
  | .TCPS_bind again => some (.TCPS_listen again)
  | .TCPS_listen false => some .TCPS_ask_participation
  | .TCPS_close_listen_socket => some <| Pc.TCPS_initialize true
  | .TCPS_listen true => some .TCPS_process_packets
  | .setup | .TCPS_ask_participation | .TCPS_process_packets | .TCPS_requests_loop | .ended => none

/-- What a step does to the sockets when it succeeds. -/
def Pc.success (w : Winsock) : Pc → Winsock
  | .WSAStartup => { w with startups := w.startups + 1 }
  | Pc.TCPS_initialize _ => { w.freeaddrinfo with aresult := .allocated }
  | .TCPS_socket _ => { w with listening := true }
  | .TCPS_close_listen_socket => { w with listening := false }
  | _ => w

/-- What it does before it throws. -/
def Pc.failure (w : Winsock) : Pc → Winsock
  | Pc.TCPS_initialize _ | .TCPS_socket _ => w.freeaddrinfo
  | _ => w

/-- The state of the constructor and of the threads; `services` and `processors` are the detached
threads that are alive, of `TCPS_service` and of `TCPS_process_packets`. -/
structure State where
  part : Participation.State
  pc : Pc
  winsock : Winsock
  threads_to_wait_for : ℤ
  esp_to_wait : ℤ
  services : ℕ
  processors : ℕ
deriving DecidableEq, Repr

/-- The constructor begins with `setupDB`. -/
def init (args : Participation.Args) (stored : List Esp) : State where
  part := Participation.init args stored
  pc := .setup
  winsock := ⟨0, .null, false, false⟩
  threads_to_wait_for := 0
  esp_to_wait := 0
  services := 0
  processors := 0

/-- What can happen next: the number of receivers is accepted; the current step succeeds; a device
joins; a child thread counts a READY message; the participation returns; the processing thread is
created; an upload is accepted, is notified, or its thread ends; a processing thread begins a round;
the current step throws. Messages the participation ignores change nothing. -/
inductive Action
  | construct
  | succeeds
  | joins (mac : Mac) (sqlOk spawned : Bool) (t₁ t₂ : ℕ)
  | ready
  | returns
  | serves
  | accepts
  | uploads
  | leaves
  | processes
  | throws (kind : Exception)
deriving DecidableEq, Repr

/-- An exception reaches the loop, which begins its next attempt, unless the exception has ended the
program or was the last one. -/
def caught (s : State) (kind : Exception) (p : Participation.State) : State :=
  if p.status = .asking then
    { s with part := p, pc := .WSAStartup, winsock := (s.pc.failure s.winsock).catch kind }
  else { s with part := p, pc := .ended }

/-- One step. -/
def step (args : Participation.Args) (s : State) : Action → Option State
  | .construct =>
    (Participation.step args s.part .construct).bind fun p => guarded (s.pc = .setup)
      { s with
        part := p, pc := .WSAStartup, threads_to_wait_for := args.espn, esp_to_wait := args.espn }
  | .succeeds => s.pc.next.map fun pc => { s with pc := pc, winsock := s.pc.success s.winsock }
  | .joins mac sqlOk spawned t₁ t₂ =>
    (Participation.step args s.part (.join mac sqlOk spawned t₁ t₂)).bind fun p =>
      guarded (s.pc = .TCPS_ask_participation)
        (if p.status = .asking ∧ spawned then { s with part := p } else caught s .runtime_error p)
  | .ready =>
    guarded (s.pc = .TCPS_ask_participation ∧ 0 < s.part.slot)
      { s with threads_to_wait_for := s.threads_to_wait_for - 1 }
  | .returns =>
    guarded (s.pc = .TCPS_ask_participation ∧ s.part.slot = args.espn)
      { s with pc := .TCPS_close_listen_socket }
  | .serves =>
    (Participation.step args s.part .serve).bind fun p => guarded (s.pc = .TCPS_process_packets)
      { s with part := p, pc := .TCPS_requests_loop, processors := s.processors + 1 }
  | .accepts => guarded (s.pc = .TCPS_requests_loop) { s with services := s.services + 1 }
  | .uploads =>
    guarded (s.pc ≠ .ended ∧ 0 < s.services) { s with esp_to_wait := s.esp_to_wait - 1 }
  | .leaves => guarded (s.pc ≠ .ended ∧ 0 < s.services) { s with services := s.services - 1 }
  | .processes =>
    guarded (s.pc ≠ .ended ∧ 0 < s.processors ∧ s.esp_to_wait = 0)
      { s with esp_to_wait := args.espn }
  | .throws kind =>
    (Participation.step args s.part .throws).bind fun p =>
      guarded (s.pc ≠ .ended ∧ (s.pc = .TCPS_ask_participation → s.part.slot < args.espn))
        (caught s kind p)

/-- What a run of the constructor does to the list and the table, a participation does. -/
theorem participation_of_run {args : Participation.Args} {stored : List Esp} {as : List Action}
    {s : State} (hrun : run (step args) (init args stored) as = some s) :
    ∃ bs, run (Participation.step args) (Participation.init args stored) bs = some s.part := by
  have hstep : ∀ (s : State) (a : Action) (s' : State) (p : Participation.State), s.part = p →
      step args s a = some s' →
      ∃ bs p', run (Participation.step args) p bs = some p' ∧ s'.part = p' := by
    rintro s a s' p rfl h
    cases a with
    | construct | serves =>
      obtain ⟨p, hp, h⟩ := Option.bind_eq_some_iff.1 h
      obtain ⟨-, rfl⟩ := guarded_eq_some.1 h
      exact ⟨[_], p, run_cons_eq_some.2 ⟨p, hp, rfl⟩, rfl⟩
    | joins | throws =>
      obtain ⟨p, hp, h⟩ := Option.bind_eq_some_iff.1 h
      obtain ⟨-, rfl⟩ := guarded_eq_some.1 h
      refine ⟨[_], p, run_cons_eq_some.2 ⟨p, hp, rfl⟩, ?_⟩
      unfold caught
      split_ifs <;> rfl
    | succeeds =>
      obtain ⟨pc, -, rfl⟩ := Option.map_eq_some_iff.1 h
      exact ⟨[], _, rfl, rfl⟩
    | ready | returns | accepts | uploads | leaves | processes =>
      obtain ⟨-, rfl⟩ := guarded_eq_some.1 h
      exact ⟨[], _, rfl, rfl⟩
  obtain ⟨bs, p, hbs, rfl⟩ := run_simulates hstep rfl hrun
  exact ⟨bs, hbs⟩

/-! ## What an attempt begins with -/

/-- The state of the first attempt, as far as the devices and the threads go. -/
structure Clean (args : Participation.Args) (s : State) : Prop where
  esp_list : s.part.esp_list = []
  threads_to_wait_for : s.threads_to_wait_for = args.espn
  esp_to_wait : s.esp_to_wait = args.espn
  processors : s.processors = 0

/-- An attempt begins clean. -/
def BeginsClean (args : Participation.Args) (s : State) : Prop := s.pc = .WSAStartup → Clean args s

/-- Where a step stands in an attempt: before the participation, in it, or behind it. -/
inductive Phase
  | setup
  | before
  | asking
  | behind
  | ended
deriving DecidableEq, Repr

/-- The phase a call belongs to. -/
def Pc.phase : Pc → Phase
  | .setup => .setup
  | .WSAStartup => .before
  | Pc.TCPS_initialize again | .TCPS_socket again | .TCPS_bind again | .TCPS_listen again =>
    if again then .behind else .before
  | .TCPS_ask_participation => .asking
  | .TCPS_close_listen_socket | .TCPS_process_packets | .TCPS_requests_loop => .behind
  | .ended => .ended

/-- An exception that is not the last one is thrown before the participation has returned, and not
by the creation of the first child thread, behind the listing of its device. -/
def ThrownEarly (args : Participation.Args) (s : State) : Action → Prop
  | .throws _ => 1 < s.part.retry → s.pc.phase ≠ .behind
  | .joins mac sqlOk spawned t₁ t₂ => 1 < s.part.retry → s.part.slot = 0 →
    (Participation.store args s.part (Participation.espdata args s.part mac t₁ t₂) sqlOk).isSome →
    spawned = true
  | _ => True

/-- When an exception is thrown can be seen. -/
instance (args : Participation.Args) : ∀ s a, Decidable (ThrownEarly args s a)
  | s, .throws _ => inferInstanceAs (Decidable (1 < s.part.retry → s.pc.phase ≠ .behind))
  | _, .joins _ _ spawned _ _ =>
    inferInstanceAs (Decidable (_ → _ → _ → spawned = true))
  | _, .construct | _, .succeeds | _, .ready | _, .returns | _, .serves | _, .accepts | _, .uploads
  | _, .leaves | _, .processes => .isTrue trivial

/-- Before a device is listed nothing has changed; behind the participation a device is listed. -/
structure Inv (args : Participation.Args) (s : State) : Prop where
  number : s.pc.phase ≠ .setup → 0 < args.espn
  setup : s.pc.phase = .setup → s.part.status = .setup ∧ s.part.slot = 0 ∧
    s.part.esp_list = [] ∧ s.services = 0 ∧ s.processors = 0
  before : s.pc.phase = .before → s.part.status = .asking ∧ s.part.slot = 0
  asking : s.pc.phase = .asking → s.part.status = .asking ∧
    (0 < s.part.slot → s.part.esp_list ≠ [])
  behind : s.pc.phase = .behind → s.part.slot = args.espn ∧ s.part.esp_list ≠ []
  clean : s.pc.phase = .before ∨ s.pc.phase = .asking → s.part.slot = 0 →
    Clean args s ∧ s.services = 0

variable {args : Participation.Args} {stored : List Esp} {s t : State} {a : Action}

/-- The invariant holds at the start. -/
theorem inv_init : Inv args (init args stored) where
  number h := absurd rfl h
  setup _ := ⟨rfl, rfl, rfl, rfl, rfl⟩
  before h := by cases h
  asking h := by cases h
  behind h := by cases h
  clean h := by rcases h with h | h <;> cases h

/-- A step that only succeeds or throws leads on within its part of the attempt, or from the first
`TCPS_listen` to the participation. -/
theorem Pc.phase_next {pc pc' : Pc} (h : pc.next = some pc') :
    pc.phase = .before ∧ (pc'.phase = .before ∨ pc'.phase = .asking) ∨
      pc.phase = .behind ∧ pc'.phase = .behind := by
  cases pc with
  | setup | TCPS_ask_participation | TCPS_process_packets | TCPS_requests_loop | ended => cases h
  | WSAStartup =>
    cases h
    exact .inl ⟨rfl, .inl rfl⟩
  | TCPS_close_listen_socket =>
    cases h
    exact .inr ⟨rfl, rfl⟩
  | TCPS_initialize again | TCPS_socket again | TCPS_bind again =>
    cases h
    cases again <;> simp [Pc.phase]
  | TCPS_listen again => cases again <;> cases h <;> simp [Pc.phase]

/-- A program that has ended keeps nothing. -/
theorem inv_of_ended (hn : 0 < args.espn) (ht : t.pc.phase = .ended) : Inv args t where
  number _ := hn
  setup h := by simp [ht] at h
  before h := by simp [ht] at h
  asking h := by simp [ht] at h
  behind h := by simp [ht] at h
  clean h := by simp [ht] at h

/-- Behind the participation only its devices count. -/
theorem inv_of_behind (hn : 0 < args.espn) (ht : t.pc.phase = .behind)
    (hjoined : t.part.slot = args.espn ∧ t.part.esp_list ≠ []) : Inv args t where
  number _ := hn
  setup h := by simp [ht] at h
  before h := by simp [ht] at h
  asking h := by simp [ht] at h
  behind _ := hjoined
  clean h := by simp [ht] at h

/-- An exception ends the program while child threads are joinable or when no attempt is left, and
begins a new attempt otherwise. -/
theorem caught_raise (args : Participation.Args) (s : State) (kind : Exception)
    (p : Participation.State) :
    (1 < p.retry ∧ ¬ (p.status = .asking ∧ 0 < p.slot ∧ p.slot < args.espn) ∧
      caught s kind (Participation.raise args p) =
        { s with
          part := { p with retry := p.retry - 1, slot := 0, status := .asking }
          pc := .WSAStartup
          winsock := (s.pc.failure s.winsock).catch kind }) ∨
    ((p.retry ≤ 1 ∨ p.status = .asking ∧ 0 < p.slot ∧ p.slot < args.espn) ∧
      (caught s kind (Participation.raise args p)).pc = .ended) := by
  by_cases hjoin : p.status = .asking ∧ 0 < p.slot ∧ p.slot < args.espn
  · exact .inr ⟨.inr hjoin, by simp [caught, Participation.raise, hjoin]⟩
  · by_cases hretry : p.retry ≤ 1
    · exact .inr ⟨.inl hretry, by simp [caught, Participation.raise, hjoin, hretry]⟩
    · refine .inl ⟨not_le.1 hretry, hjoin, ?_⟩
      rw [caught, Participation.raise, if_neg hjoin, if_neg hretry, if_pos rfl]

/-- A new attempt that follows an exception before the first device is like the first one. -/
theorem Inv.restart (h : Inv args s) (hphase : s.pc.phase = .before ∨ s.pc.phase = .asking)
    (hslot : s.part.slot = 0) (retry : ℕ) (winsock : Winsock) :
    Inv args { s with
      part := { s.part with retry := retry, slot := 0, status := .asking }
      pc := .WSAStartup
      winsock := winsock } := by
  obtain ⟨hclean, hservices⟩ := h.clean hphase hslot
  exact {
    number := fun _ => h.number (by rcases hphase with h | h <;> simp [h])
    setup := fun hsetup => by cases hsetup
    before := fun _ => ⟨rfl, rfl⟩
    asking := fun hask => by cases hask
    behind := fun hbehind => by cases hbehind
    clean := fun _ _ => ⟨⟨hclean.esp_list, hclean.threads_to_wait_for, hclean.esp_to_wait,
      hclean.processors⟩, hservices⟩ }

/-- Participation is asked for in one place, -/
theorem Pc.phase_eq_asking {pc : Pc} : pc.phase = .asking ↔ pc = .TCPS_ask_participation := by
  cases pc <;> simp [Pc.phase, ite_eq_iff]

/-- and the constructor ends in one. -/
theorem Pc.phase_eq_ended {pc : Pc} : pc.phase = .ended ↔ pc = .ended := by
  cases pc <;> simp [Pc.phase, ite_eq_iff]

/-- An exception that is thrown before the participation has returned, or is the last one, keeps the
invariant. -/
theorem Inv.throws (h : Inv args s) (hs : s.part.status = .asking ∨ s.part.status = .serving)
    (hended : s.pc ≠ .ended) (hslot : s.pc = .TCPS_ask_participation → s.part.slot < args.espn)
    (hG : 1 < s.part.retry → s.pc.phase ≠ .behind) (kind : Exception) :
    Inv args (caught s kind (Participation.raise args s.part)) := by
  have hsetup : s.pc.phase ≠ .setup := by
    intro hsetup
    have hstatus := (h.setup hsetup).1
    rcases hs with hs | hs <;> cases hs.symm.trans hstatus
  rcases caught_raise args s kind s.part with ⟨hretry, hjoin, heq⟩ | ⟨-, hend⟩
  · rw [heq]
    cases hphase : s.pc.phase with
    | setup => exact absurd hphase hsetup
    | before => exact h.restart (.inl hphase) (h.before hphase).2 _ _
    | asking =>
      have hlt := hslot (Pc.phase_eq_asking.1 hphase)
      have hzero : s.part.slot = 0 := by
        by_contra hne
        exact hjoin ⟨(h.asking hphase).1, Nat.pos_of_ne_zero hne, hlt⟩
      exact h.restart (.inr hphase) hzero _ _
    | behind => exact absurd hphase (hG hretry)
    | ended => exact absurd (Pc.phase_eq_ended.1 hphase) hended
  · exact inv_of_ended (h.number hsetup) (Pc.phase_eq_ended.2 hend)

/-- Any other exception leaves its devices to the next attempt. -/
theorem Inv.not_clean_of_throws (h : Inv args s) (hretry : 1 < s.part.retry)
    (hphase : s.pc.phase = .behind) (kind : Exception) :
    ¬ BeginsClean args (caught s kind (Participation.raise args s.part)) := by
  obtain ⟨hslot, hlist⟩ := h.behind hphase
  rcases caught_raise args s kind s.part with ⟨-, -, heq⟩ | ⟨hend, -⟩
  · rw [heq]
    exact fun hclean => hlist (hclean rfl).esp_list
  · omega

/-- A device is listed, and its child thread created unless `spawned` is false. -/
theorem Inv.joins (h : Inv args s) (hpc : s.pc = .TCPS_ask_participation)
    (hlt : s.part.slot < args.espn) {e : ESP32} {sqlOk spawned : Bool}
    (hG : 1 < s.part.retry → s.part.slot = 0 →
      (Participation.store args s.part e sqlOk).isSome → spawned = true)
    {p : Participation.State} (hp : Participation.join args s.part e sqlOk spawned = p) :
    Inv args (if p.status = .asking ∧ spawned then { s with part := p }
      else caught s .runtime_error p) := by
  have hphase := Pc.phase_eq_asking.2 hpc
  have hn := h.number (by simp [hphase])
  have hask := (h.asking hphase).1
  unfold Participation.join at hp
  split at hp
  case h_1 =>
    subst hp
    rw [if_neg (by simp)]
    exact inv_of_ended hn rfl
  case h_2 esp hstore =>
    dsimp only at hp
    cases spawned with
    | true =>
      subst hp
      rw [if_pos ⟨hask, rfl⟩]
      exact {
        number := fun _ => hn
        setup := fun hsetup => by simp [hphase] at hsetup
        before := fun hbefore => by simp [hphase] at hbefore
        asking := fun _ => ⟨hask, fun _ => by simp⟩
        behind := fun hbehind => by simp [hphase] at hbehind
        clean := fun _ hslot => by simp at hslot }
    | false =>
      rw [if_neg (by simp)]
      rw [if_neg (by simp)] at hp
      subst hp
      rcases caught_raise args s .runtime_error
        { s.part with esp := esp, esp_list := s.part.esp_list ++ [e] }
        with ⟨hr, hjoin, -⟩ | ⟨-, hend⟩
      · -- with a child thread to destroy the program ends, and else the device is the first one
        have hzero : s.part.slot = 0 := by
          by_contra hne
          exact hjoin ⟨hask, Nat.pos_of_ne_zero hne, hlt⟩
        cases hG hr hzero (by simp [hstore])
      · exact inv_of_ended hn (Pc.phase_eq_ended.2 hend)

/-- If the first child thread cannot be created, its device is left to the next attempt. -/
theorem not_clean_of_joins {e : ESP32} {sqlOk : Bool} (hretry : 1 < s.part.retry)
    (hslot : s.part.slot = 0) (hstore : (Participation.store args s.part e sqlOk).isSome) :
    ¬ BeginsClean args
      (caught s .runtime_error (Participation.join args s.part e sqlOk false)) := by
  obtain ⟨esp, hesp⟩ := Option.isSome_iff_exists.1 hstore
  rw [Participation.join, hesp]
  dsimp only
  rw [if_neg (by simp)]
  rcases caught_raise args s .runtime_error
    { s.part with esp := esp, esp_list := s.part.esp_list ++ [e] } with ⟨-, -, heq⟩ | ⟨hend, -⟩
  · rw [heq]
    intro hclean
    have hlist := (hclean rfl).esp_list
    simp at hlist
  · dsimp only at hend
    omega

/-- One step that meets the guard keeps the invariant. -/
theorem Inv.step (h : Inv args s) (hG : ThrownEarly args s a) (hstep : step args s a = some t) :
    Inv args t := by
  cases a with
  | construct =>
    obtain ⟨p, hp, hstep⟩ := Option.bind_eq_some_iff.1 hstep
    obtain ⟨⟨-, hn, -⟩, rfl⟩ := guarded_eq_some.1 hp
    obtain ⟨hpc, rfl⟩ := guarded_eq_some.1 hstep
    obtain ⟨-, hslot, hlist, hservices, hprocessors⟩ := h.setup (by rw [hpc]; rfl)
    exact {
      number := fun _ => hn
      setup := fun hsetup => by cases hsetup
      before := fun _ => ⟨rfl, hslot⟩
      asking := fun hask => by cases hask
      behind := fun hbehind => by cases hbehind
      clean := fun _ _ => ⟨⟨hlist, rfl, rfl, hprocessors⟩, hservices⟩ }
  | succeeds =>
    obtain ⟨pc, hpc, rfl⟩ := Option.map_eq_some_iff.1 hstep
    rcases Pc.phase_next hpc with ⟨hphase, hnext⟩ | ⟨hphase, hnext⟩
    · obtain ⟨hask, hslot⟩ := h.before hphase
      obtain ⟨hclean, hservices⟩ := h.clean (.inl hphase) hslot
      exact {
        number := fun _ => h.number (by simp [hphase])
        setup := fun hsetup => by rcases hnext with hn | hn <;> simp [hn] at hsetup
        before := fun _ => ⟨hask, hslot⟩
        asking := fun _ => ⟨hask, fun hpos => absurd hslot hpos.ne'⟩
        behind := fun hbehind => by rcases hnext with hn | hn <;> simp [hn] at hbehind
        clean := fun _ _ => ⟨⟨hclean.esp_list, hclean.threads_to_wait_for, hclean.esp_to_wait,
          hclean.processors⟩, hservices⟩ }
    · exact inv_of_behind (h.number (by simp [hphase])) hnext (h.behind hphase)
  | joins mac sqlOk spawned t₁ t₂ =>
    obtain ⟨p, hp, hstep⟩ := Option.bind_eq_some_iff.1 hstep
    obtain ⟨⟨-, hlt⟩, hp⟩ := guarded_eq_some.1 hp
    obtain ⟨hpc, rfl⟩ := guarded_eq_some.1 hstep
    exact h.joins hpc hlt hG hp
  | throws kind =>
    obtain ⟨p, hp, hstep⟩ := Option.bind_eq_some_iff.1 hstep
    obtain ⟨hs, rfl⟩ := guarded_eq_some.1 hp
    obtain ⟨⟨hended, hslot⟩, rfl⟩ := guarded_eq_some.1 hstep
    exact h.throws hs hended hslot hG kind
  | returns =>
    obtain ⟨⟨hpc, hslot⟩, rfl⟩ := guarded_eq_some.1 hstep
    have hphase := Pc.phase_eq_asking.2 hpc
    have hn := h.number (by simp [hphase])
    exact inv_of_behind hn rfl ⟨hslot, (h.asking hphase).2 (hslot ▸ hn)⟩
  | ready =>
    obtain ⟨⟨-, hpos⟩, rfl⟩ := guarded_eq_some.1 hstep
    exact { h with clean := fun _ hslot => absurd hslot hpos.ne' }
  | serves =>
    obtain ⟨p, hp, hstep⟩ := Option.bind_eq_some_iff.1 hstep
    obtain ⟨⟨-, hslot⟩, rfl⟩ := guarded_eq_some.1 hp
    obtain ⟨hpc, rfl⟩ := guarded_eq_some.1 hstep
    have hphase : s.pc.phase = .behind := by rw [hpc]; rfl
    exact inv_of_behind (h.number (by simp [hphase])) rfl ⟨hslot, (h.behind hphase).2⟩
  | accepts =>
    obtain ⟨hpc, rfl⟩ := guarded_eq_some.1 hstep
    have hphase : s.pc.phase = .behind := by rw [hpc]; rfl
    exact { h with
      setup := fun hsetup => by cases hphase.symm.trans hsetup
      clean := fun hor => by rcases hor with hor | hor <;> cases hphase.symm.trans hor }
  | uploads =>
    obtain ⟨⟨-, hpos⟩, rfl⟩ := guarded_eq_some.1 hstep
    exact { h with clean := fun hor hslot => absurd (h.clean hor hslot).2 hpos.ne' }
  | leaves =>
    obtain ⟨⟨-, hpos⟩, rfl⟩ := guarded_eq_some.1 hstep
    exact { h with
      setup := fun hsetup => absurd (h.setup hsetup).2.2.2.1 hpos.ne'
      clean := fun hor hslot => absurd (h.clean hor hslot).2 hpos.ne' }
  | processes =>
    obtain ⟨⟨-, hpos, -⟩, rfl⟩ := guarded_eq_some.1 hstep
    exact { h with clean := fun hor hslot => absurd (h.clean hor hslot).1.processors hpos.ne' }

/-- A step that does not meet it begins an attempt with what the last one has left. -/
theorem Inv.not_clean (h : Inv args s) (hG : ¬ ThrownEarly args s a)
    (hstep : Retry.step args s a = some t) : ¬ BeginsClean args t := by
  cases a with
  | throws kind =>
    obtain ⟨p, hp, hstep⟩ := Option.bind_eq_some_iff.1 hstep
    obtain ⟨-, rfl⟩ := guarded_eq_some.1 hp
    obtain ⟨-, rfl⟩ := guarded_eq_some.1 hstep
    obtain ⟨hretry, hphase⟩ := Classical.not_imp.1 hG
    exact h.not_clean_of_throws hretry (not_not.1 hphase) kind
  | joins mac sqlOk spawned t₁ t₂ =>
    obtain ⟨p, hp, hstep⟩ := Option.bind_eq_some_iff.1 hstep
    obtain ⟨-, rfl⟩ := guarded_eq_some.1 hp
    obtain ⟨-, rfl⟩ := guarded_eq_some.1 hstep
    obtain ⟨hretry, hG⟩ := Classical.not_imp.1 hG
    obtain ⟨hslot, hG⟩ := Classical.not_imp.1 hG
    obtain ⟨hstore, hspawned⟩ := Classical.not_imp.1 hG
    obtain rfl : spawned = false := Bool.eq_false_iff.2 hspawned
    rw [if_neg (by simp)]
    exact not_clean_of_joins hretry hslot hstore
  | construct | succeeds | ready | returns | serves | accepts | uploads | leaves | processes =>
    exact absurd trivial hG

/-- **A clean retry.** Every attempt of a run begins as the first one did, with no device listed,
both counters at the number of receivers and no processing thread, if and only if every exception
but the last one is thrown before the participation has returned, and the first child thread can be
created. -/
theorem retry_clean_iff (args : Participation.Args) (stored : List Esp) (as : List Action)
    (s : State) (hrun : run (step args) (init args stored) as = some s) :
    Throughout (step args) (BeginsClean args) (init args stored) as ↔
      Meets (step args) (ThrownEarly args) (init args stored) as :=
  throughout_iff_meets
    (fun _ h hpc => (h.clean (.inl (by rw [hpc]; rfl)) (h.before (by rw [hpc]; rfl)).2).1)
    (fun _ _ _ h hG hstep => h.step hG hstep) (fun _ _ _ h hG hstep => h.not_clean hG hstep) inv_init
    hrun

/-- The first attempt fails to get an address, the second one to accept a first device; the third
one gets as far as a round of processing. -/
theorem retry_clean_iff_twice :
    Throughout (step ⟨1, 1, [3, 4]⟩) (BeginsClean ⟨1, 1, [3, 4]⟩) (init ⟨1, 1, [3, 4]⟩ [])
      ([Action.construct, .succeeds, .throws .runtime_error] ++ List.replicate 5 Action.succeeds ++
        [Action.throws .TCPServer_exception] ++ List.replicate 5 Action.succeeds ++
        [Action.joins Participation.firstMac true true 5 5, .ready, .returns] ++
        List.replicate 5 Action.succeeds ++
        [Action.serves, .accepts, .uploads, .leaves, .processes]) :=
  (retry_clean_iff ⟨1, 1, [3, 4]⟩ [] _ _ (Option.eq_some_of_isSome (by decide +kernel))).2
    (by decide +kernel)

/-- The server cannot accept a connection for an upload, and asks for participation again with the
device still listed, its READY message still counted and the processing thread still running. -/
theorem retried_with_device :
    ¬ ∀ (args : Participation.Args) (stored : List Esp) (as : List Action) (s : State),
      run (step args) (init args stored) as = some s →
      Throughout (step args) (BeginsClean args) (init args stored) as := by
  intro hclaim
  have hrun : ∃ s, run (step ⟨1, 1, [3, 4]⟩) (init ⟨1, 1, [3, 4]⟩ [])
      ([Action.construct] ++ List.replicate 5 Action.succeeds ++
        [Action.joins Participation.firstMac true true 5 5, .ready, .returns] ++
        List.replicate 5 Action.succeeds ++
        [Action.serves, .throws .TCPServer_exception]) = some s ∧
      decide (s.pc = .WSAStartup ∧ s.part.esp_list.length = 1 ∧ s.threads_to_wait_for = 0 ∧
        s.processors = 1) := (Option.any_eq_true _ _).1 (by decide +kernel)
  obtain ⟨s, hs, hend⟩ := hrun
  obtain ⟨hpc, hlist, -, -⟩ := of_decide_eq_true hend
  have hclean := hclaim _ _ _ s hs _ (List.prefix_refl _) s hs hpc
  simp [hclean.esp_list] at hlist

end Retry

end DetectionSystem
