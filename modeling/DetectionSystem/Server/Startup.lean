import DetectionSystem.Lib.Barrier
import Mathlib.Logic.Function.Basic
import Mathlib.Data.List.Perm.Subperm

/-!
# Start-up: one participation round of the server and its receivers

The server takes the INIT messages one by one (`TCPS_ask_participation`): it answers each with the
ready port of the next slot and then creates the child thread that binds and listens on that port
(`TCPS_ready_channel`). A receiver exchanges INIT (`esp_initialization`), connects to its ready
port and exchanges READY (`esp_is_ready`), and then `event_handler` starts its timer and the
sniffing. The model interleaves the steps of both programs; a connect succeeds only where a child
thread has its socket open.

`esp_is_ready` returns on every failure and `event_handler` goes on all the same, since nothing
reads `ready`. So the barrier holds exactly as far as no such return is taken:
`started_after_ready` is the law for runs without one, `started_early` a run with one. What the law
rests on is `complete_of_zero`: a zero of `threads_to_wait_for` means that every slot is taken, by
`esp_number` different receivers.
-/

open Transition

namespace DetectionSystem

namespace Startup

/-- `FIRST_READY_PORT`. -/
def FIRST_READY_PORT : ℕ := 3011

/-- The ready port of a slot: the loop of `TCPS_ask_participation` counts in steps of two. -/
def readyPort (slot : ℕ) : ℕ := FIRST_READY_PORT + 2 * slot

/-- The main thread of the server: waiting for an INIT message, or about to create the child
thread of the slot it has just confirmed. -/
inductive MainPc
  | accepting
  | spawning (slot : ℕ)
deriving DecidableEq, Repr

/-- The child thread of a slot: not created, created but without a listening socket, listening and
ready to accept, past the decrement for the READY of a receiver, ended, or ended by an error. -/
inductive ChildPc
  | absent
  | created
  | listening
  | waiting (esp : ℕ)
  | done
  | dead
deriving DecidableEq, Repr

/-- A receiver. `returned` and `started` carry its variable `ready`. -/
inductive EspPc
  | offline
  | initSent
  | confirmSent (port : ℕ)
  | confirmed (port : ℕ)
  | connected (port : ℕ)
  | readySent (port : ℕ)
  | awaiting
  | answerSent
  | returned (ready : Bool)
  | started (ready : Bool)
deriving DecidableEq, Repr

/-- Both programs. `joined` is `esp_list`, by the receiver that took each slot. `arrived` and
`answered` record, for the statements only, the READY messages in the order of their decrements
(slot and receiver) and the receivers to which the server has sent READY. -/
structure State where
  joined : List ℕ
  main : MainPc
  child : ℕ → ChildPc
  threads_to_wait_for : ℤ
  esp : ℕ → EspPc
  arrived : List (ℕ × ℕ)
  answered : ℕ → Bool

/-- The state in which the round begins. -/
def init (esp_number : ℕ) : State where
  joined := []
  main := .accepting
  child := fun _ => .absent
  threads_to_wait_for := esp_number
  esp := fun _ => .offline
  arrived := []
  answered := fun _ => false

/-- The steps of the receivers and of the server. -/
inductive Action
  | sendInit (e : ℕ)
  | acceptInit (e : ℕ)
  | refuseInit (e : ℕ)
  | recvConfirm (e port : ℕ)
  | loseConfirm (e port : ℕ)
  | garbleConfirm (e port read : ℕ)
  | spawn (slot : ℕ)
  | listen (slot : ℕ)
  | connect (e slot : ℕ)
  | sendReady (e port : ℕ)
  | recvReady (slot e : ℕ)
  | answer (slot e : ℕ)
  | answerReset (slot e : ℕ)
  | die (slot : ℕ)
  | recvAnswer (e : ℕ)
  | errorReturn (e : ℕ)
  | start (e : ℕ) (ready : Bool)
deriving DecidableEq, Repr

/-- A receiver inside `esp_is_ready`. -/
def EspPc.Readying : EspPc → Prop
  | .confirmed _ | .connected _ | .readySent _ | .awaiting | .answerSent => True
  | _ => False

/-- Where a receiver is can be tested, -/
instance : DecidablePred EspPc.Readying := fun p => by
  cases p <;> unfold EspPc.Readying <;> infer_instance

/-- A child thread with its socket open: a connect to it succeeds. -/
def ChildPc.Open : ChildPc → Prop
  | .listening | .waiting _ => True
  | _ => False

/-- and so can whether a socket is open, -/
instance : DecidablePred ChildPc.Open := fun p => by
  cases p <;> unfold ChildPc.Open <;> infer_instance

/-- A child thread that an error can still end. -/
def ChildPc.Alive : ChildPc → Prop
  | .created | .listening | .waiting _ => True
  | _ => False

/-- and whether an error can still end a thread. -/
instance : DecidablePred ChildPc.Alive := fun p => by
  cases p <;> unfold ChildPc.Alive <;> infer_instance

/-- A receiver moves on to `pc`. -/
def State.setEsp (s : State) (e : ℕ) (pc : EspPc) : State :=
  { s with esp := Function.update s.esp e pc }

/-- A child thread moves on to `pc`. -/
def State.setChild (s : State) (slot : ℕ) (pc : ChildPc) : State :=
  { s with child := Function.update s.child slot pc }

/-- One step of the receivers or of the server. -/
def step (esp_number : ℕ) (s : State) : Action → Option State
  | .sendInit e => guarded (s.esp e = .offline) (s.setEsp e .initSent)
  -- the slot is taken once the confirmation is sent; its child thread is created after that
  | .acceptInit e =>
    guarded (s.main = .accepting ∧ s.joined.length < esp_number ∧ s.esp e = .initSent)
      { s.setEsp e (.confirmSent (readyPort s.joined.length)) with
        joined := s.joined ++ [e]
        main := .spawning s.joined.length }
  -- `send` fails with a connection reset, so the server accepts again for the same slot
  | .refuseInit e =>
    guarded (s.main = .accepting ∧ s.esp e = .initSent) (s.setEsp e .offline)
  | .recvConfirm e port => guarded (s.esp e = .confirmSent port) (s.setEsp e (.confirmed port))
  -- `read` fails, so the receiver sends INIT again
  | .loseConfirm e port => guarded (s.esp e = .confirmSent port) (s.setEsp e .offline)
  -- the one `read` need not return the whole confirmation, and `READY_PORT` is then any number
  | .garbleConfirm e port read =>
    guarded (s.esp e = .confirmSent port) (s.setEsp e (.confirmed read))
  | .spawn slot =>
    guarded (s.main = .spawning slot) { s.setChild slot .created with main := .accepting }
  | .listen slot => guarded (s.child slot = .created) (s.setChild slot .listening)
  | .connect e slot =>
    guarded (s.esp e = .confirmed (readyPort slot) ∧ (s.child slot).Open)
      (s.setEsp e (.connected (readyPort slot)))
  | .sendReady e port =>
    guarded (s.esp e = .connected port) (s.setEsp e (.readySent port))
  | .recvReady slot e =>
    guarded (s.child slot = .listening ∧ s.esp e = .readySent (readyPort slot))
      { (s.setEsp e .awaiting).setChild slot (.waiting e) with
        threads_to_wait_for := s.threads_to_wait_for - 1
        arrived := s.arrived ++ [(slot, e)] }
  | .answer slot e =>
    guarded (s.child slot = .waiting e ∧ s.threads_to_wait_for = 0)
      { (s.setEsp e (if s.esp e = .awaiting then .answerSent else s.esp e)).setChild slot .done with
        answered := Function.update s.answered e true }
  -- `send` fails with a connection reset, so the child thread accepts again
  | .answerReset slot e =>
    guarded (s.child slot = .waiting e ∧ s.threads_to_wait_for = 0) (s.setChild slot .listening)
  | .die slot => guarded ((s.child slot).Alive) (s.setChild slot .dead)
  | .recvAnswer e => guarded (s.esp e = .answerSent) (s.setEsp e (.returned true))
  -- `socket`, `connect`, `write` or `read` fails, or what is read is not READY
  | .errorReturn e => guarded ((s.esp e).Readying) (s.setEsp e (.returned false))
  -- `event_handler` does not read `ready`
  | .start e ready => guarded (s.esp e = .returned ready) (s.setEsp e (.started ready))

/-- Every slot is taken, by different receivers. -/
def AllJoined (esp_number : ℕ) (s : State) : Prop :=
  s.joined.length = esp_number ∧ s.joined.Nodup

/-- A receiver that has started its timer and sniffing was sent READY, and every receiver had
joined. -/
def StartedAfterReady (esp_number : ℕ) (s : State) : Prop :=
  ∀ e ready, s.esp e = .started ready → s.answered e = true ∧ AllJoined esp_number s

/-- The condition on a step: `esp_is_ready` returns on a failure only in a receiver that the server
has already sent READY. -/
def NoEarlyReturn (s : State) : Action → Prop
  | .errorReturn e => s.answered e = true
  | _ => True

/-- Whether `esp_is_ready` returns early can be seen. -/
instance : ∀ s a, Decidable (NoEarlyReturn s a)
  | s, .errorReturn e => inferInstanceAs (Decidable (s.answered e = true))
  | _, .sendInit _ | _, .acceptInit _ | _, .refuseInit _ | _, .recvConfirm .. | _, .loseConfirm ..
  | _, .garbleConfirm .. | _, .spawn _ | _, .listen _ | _, .connect .. | _, .sendReady ..
  | _, .recvReady .. | _, .answer .. | _, .answerReset .. | _, .die _ | _, .recvAnswer _
  | _, .start .. => .isTrue trivial

/-! ## The slots -/

/-- The slots whose child thread has received READY, in the order of the decrements. -/
def State.slots (s : State) : List ℕ := s.arrived.map Prod.fst

/-- The receivers whose READY was received, in the same order. -/
def State.readied (s : State) : List ℕ := s.arrived.map Prod.snd

/-- The slots, their child threads and the counter. -/
structure SlotInv (esp_number : ℕ) (s : State) : Prop where
  /-- no more slots are given than there are -/
  joined_le : s.joined.length ≤ esp_number
  /-- the slot about to get its child thread is the last one given -/
  spawning : ∀ i, s.main = .spawning i → s.child i = .absent ∧ i + 1 = s.joined.length
  /-- a child thread stands for a given slot -/
  child_lt : ∀ i, s.child i ≠ .absent → i < s.joined.length
  /-- the counter lacks one for each decrement -/
  counter : s.threads_to_wait_for + s.arrived.length = esp_number
  /-- a slot with a decrement is given -/
  slots_lt : ∀ i ∈ s.slots, i < s.joined.length
  /-- a child thread that has not listened yet has not decremented -/
  fresh : ∀ i, s.child i = .absent ∨ s.child i = .created → i ∉ s.slots
  /-- a child thread listens again only after the barrier was open -/
  again : ∀ i, s.child i = .listening → i ∈ s.slots → esp_number ≤ s.arrived.length
  /-- until then no slot has decremented twice -/
  nodup : s.arrived.length ≤ esp_number → s.slots.Nodup

section
variable {esp_number : ℕ} {s t : State} {a : Action} {as : List Action}

/-- The slots are free at the start. -/
theorem slotInv_init : SlotInv esp_number (init esp_number) := by
  constructor <;> simp [init, State.slots]

/-- A child thread that moves on without a decrement, to a state other than `absent` and `created`,
keeps the invariant of the slots. -/
theorem SlotInv.setChild (h : SlotInv esp_number s) {i : ℕ} {pc : ChildPc}
    (hi : s.child i ≠ .absent) (hpc : pc ≠ .absent ∧ pc ≠ .created)
    (hagain : pc = .listening → i ∈ s.slots → esp_number ≤ s.arrived.length) :
    SlotInv esp_number (s.setChild i pc) := by
  obtain ⟨hj, hsp, hlt, hc, hsl, hf, hag, hnd⟩ := h
  refine ⟨hj, fun j hm => ?_, ?_, hc, hsl, ?_, ?_, hnd⟩
  · obtain ⟨hj, hlast⟩ := hsp j hm
    have hne : j ≠ i := fun hji => hi (hji ▸ hj)
    exact ⟨by simpa [State.setChild, Function.update_of_ne hne] using hj, hlast⟩
  · exact (Function.forall_update_iff s.child (fun j pc => pc ≠ .absent → j < s.joined.length)).2
      ⟨fun _ => hlt i hi, fun j _ => hlt j⟩
  · exact (Function.forall_update_iff s.child
      (fun j pc => pc = .absent ∨ pc = .created → j ∉ s.slots)).2
      ⟨fun h => absurd h (by simp [hpc]), fun j _ => hf j⟩
  · exact (Function.forall_update_iff s.child
      (fun j pc => pc = .listening → j ∈ s.slots → esp_number ≤ s.arrived.length)).2
      ⟨hagain, fun j _ => hag j⟩

/-- Every step keeps the invariant of the slots. -/
theorem SlotInv.step (h : SlotInv esp_number s) (hs : step esp_number s a = some t) :
    SlotInv esp_number t := by
  have ⟨hj, hsp, hlt, hc, hsl, hf, hag, hnd⟩ := h
  cases a with
  | sendInit | refuseInit | recvConfirm | loseConfirm | garbleConfirm | connect | sendReady
  | recvAnswer | errorReturn | start =>
    obtain ⟨-, rfl⟩ := guarded_eq_some.1 hs
    exact ⟨hj, hsp, hlt, hc, hsl, hf, hag, hnd⟩
  | acceptInit e =>
    obtain ⟨⟨-, hroom, -⟩, rfl⟩ := guarded_eq_some.1 hs
    refine ⟨by simpa using Nat.succ_le_of_lt hroom, fun i hm => ?_, fun i hi => ?_, hc,
      fun i hi => ?_, hf, hag, hnd⟩
    · cases hm
      refine ⟨?_, by simp⟩
      by_contra hne
      exact absurd (hlt _ hne) (lt_irrefl _)
    · have := hlt i hi
      simp only [List.length_append, List.length_singleton]
      omega
    · have := hsl i hi
      simp only [List.length_append, List.length_singleton]
      omega
  | spawn slot =>
    obtain ⟨hm, rfl⟩ := guarded_eq_some.1 hs
    obtain ⟨habs, hlast⟩ := hsp slot hm
    refine ⟨hj, nofun, ?_, hc, hsl, ?_, ?_, hnd⟩
    · exact (Function.forall_update_iff s.child (fun j pc => pc ≠ .absent → j < s.joined.length)).2
        ⟨fun _ => by omega, fun j _ => hlt j⟩
    · exact (Function.forall_update_iff s.child
        (fun j pc => pc = .absent ∨ pc = .created → j ∉ s.slots)).2
        ⟨fun _ => hf slot (.inl habs), fun j _ => hf j⟩
    · exact (Function.forall_update_iff s.child
        (fun j pc => pc = .listening → j ∈ s.slots → esp_number ≤ s.arrived.length)).2
        ⟨nofun, fun j _ => hag j⟩
  | listen slot =>
    obtain ⟨hcr, rfl⟩ := guarded_eq_some.1 hs
    exact h.setChild (by simp [hcr]) (by simp) fun _ hmem => absurd hmem (hf slot (.inr hcr))
  | recvReady slot e =>
    obtain ⟨⟨hli, -⟩, rfl⟩ := guarded_eq_some.1 hs
    have hset : SlotInv esp_number (s.setChild slot (.waiting e)) :=
      h.setChild (by simp [hli]) (by simp) nofun
    obtain ⟨-, hsp', hlt', -, -, hf', hag', -⟩ := hset
    have hslots : ∀ i, i ∈ (s.arrived ++ [(slot, e)]).map Prod.fst → i ∈ s.slots ∨ i = slot :=
      fun i hi => by simpa [State.slots] using hi
    have hlength : (s.arrived ++ [(slot, e)]).length = s.arrived.length + 1 := List.length_append ..
    refine ⟨hj, hsp', hlt', ?_, fun i hi => ?_, fun i hi hmem => ?_, fun i hi hmem => ?_, ?_⟩
    · dsimp only
      omega
    · rcases hslots i hi with hi | rfl
      · exact hsl i hi
      · exact hlt i (by simp [hli])
    · rcases hslots i hmem with hmem | rfl
      · exact hf' i hi hmem
      · simp [State.setChild] at hi
    · rcases hslots i hmem with hmem | rfl
      · have hopen : esp_number ≤ s.arrived.length := hag' i hi hmem
        dsimp only
        omega
      · simp [State.setChild] at hi
    · intro hlen
      rw [hlength] at hlen
      -- a slot that decremented before would have found the barrier open
      have hnew : slot ∉ s.slots := fun hmem => by
        have := hag slot hli hmem
        omega
      rw [State.slots, List.map_append]
      exact (hnd (by omega)).append (List.nodup_singleton slot) (by simpa using hnew)
  | answer slot e =>
    obtain ⟨⟨hw, -⟩, rfl⟩ := guarded_eq_some.1 hs
    have hset : SlotInv esp_number (s.setChild slot .done) :=
      h.setChild (by simp [hw]) (by simp) nofun
    exact ⟨hset.joined_le, hset.spawning, hset.child_lt, hset.counter, hset.slots_lt, hset.fresh,
      hset.again, hset.nodup⟩
  | answerReset slot e =>
    obtain ⟨⟨hw, h0⟩, rfl⟩ := guarded_eq_some.1 hs
    exact h.setChild (by simp [hw]) (by simp) fun _ _ => by omega
  | die slot =>
    obtain ⟨hal, rfl⟩ := guarded_eq_some.1 hs
    refine h.setChild (fun habs => ?_) (by simp) nofun
    simp [habs, ChildPc.Alive] at hal

/-! ## The receivers -/

/-- A receiver whose READY no child thread has received. -/
def EspPc.BeforeReady : EspPc → Prop
  | .offline | .initSent | .confirmSent _ | .confirmed _ | .connected _ | .readySent _ => True
  | _ => False

/-- A receiver between its confirmation and its READY. -/
def EspPc.Joined : EspPc → Prop
  | .confirmSent _ | .confirmed _ | .connected _ | .readySent _ => True
  | _ => False

/-- The receivers, as far as the barrier needs them. -/
structure EspInv (s : State) : Prop where
  /-- a READY is received once from each receiver -/
  nodup : s.readied.Nodup
  /-- and only from one that has joined -/
  readied : ∀ e ∈ s.readied, e ∈ s.joined
  before : ∀ e, (s.esp e).BeforeReady → e ∉ s.readied
  joined : ∀ e, (s.esp e).Joined → e ∈ s.joined

/-- No receiver has started. -/
theorem espInv_init : EspInv (init esp_number) := by
  constructor <;> simp [init, State.readied, EspPc.Joined]

/-- A receiver that moves on, and not back before its READY, keeps the invariant. -/
theorem EspInv.setEsp (h : EspInv s) {e : ℕ} {pc : EspPc}
    (hb : pc.BeforeReady → (s.esp e).BeforeReady) (hj : pc.Joined → (s.esp e).Joined) :
    EspInv (s.setEsp e pc) :=
  ⟨h.nodup, h.readied,
    (Function.forall_update_iff s.esp (fun e pc => pc.BeforeReady → e ∉ s.readied)).2
      ⟨fun hpc => h.before e (hb hpc), fun e _ => h.before e⟩,
    (Function.forall_update_iff s.esp (fun e pc => pc.Joined → e ∈ s.joined)).2
      ⟨fun hpc => h.joined e (hj hpc), fun e _ => h.joined e⟩⟩

/-- Every step keeps the invariant of the receivers. -/
theorem EspInv.step (h : EspInv s) (hs : step esp_number s a = some t) : EspInv t := by
  have ⟨hnd, hr, hb, hj⟩ := h
  cases a with
  | spawn | listen | answerReset | die =>
    obtain ⟨-, rfl⟩ := guarded_eq_some.1 hs
    exact ⟨hnd, hr, hb, hj⟩
  | sendInit | refuseInit | recvConfirm | loseConfirm | garbleConfirm | sendReady | recvAnswer
  | start =>
    obtain ⟨hpc, rfl⟩ := guarded_eq_some.1 hs
    exact h.setEsp (by simp [hpc, EspPc.BeforeReady]) (by simp [hpc, EspPc.Joined])
  | errorReturn e =>
    obtain ⟨-, rfl⟩ := guarded_eq_some.1 hs
    exact h.setEsp nofun nofun
  | connect e slot =>
    obtain ⟨⟨hpc, -⟩, rfl⟩ := guarded_eq_some.1 hs
    exact h.setEsp (by simp [hpc, EspPc.BeforeReady]) (by simp [hpc, EspPc.Joined])
  | acceptInit e =>
    obtain ⟨⟨-, -, hpc⟩, rfl⟩ := guarded_eq_some.1 hs
    refine ⟨hnd, fun x hx => List.mem_append_left _ (hr x hx), ?_, ?_⟩
    · exact (Function.forall_update_iff s.esp (fun e pc => pc.BeforeReady → e ∉ s.readied)).2
        ⟨fun _ => hb e (by simp [hpc, EspPc.BeforeReady]), fun x _ => hb x⟩
    · exact (Function.forall_update_iff s.esp (fun x pc => pc.Joined → x ∈ s.joined ++ [e])).2
        ⟨fun _ => by simp, fun x _ hx => List.mem_append_left _ (hj x hx)⟩
  | recvReady slot e =>
    obtain ⟨⟨-, hpc⟩, rfl⟩ := guarded_eq_some.1 hs
    have hnew : e ∉ s.readied := hb e (by simp [hpc, EspPc.BeforeReady])
    have hjoined : e ∈ s.joined := hj e (by simp [hpc, EspPc.Joined])
    refine ⟨?_, fun x hx => ?_, ?_, ?_⟩
    · rw [State.readied, List.map_append]
      exact hnd.append (List.nodup_singleton e) (by simpa using hnew)
    · rw [State.readied, List.map_append] at hx
      rcases List.mem_append.1 hx with hx | hx
      · exact hr x hx
      · simp only [List.map_cons, List.map_nil, List.mem_singleton] at hx
        exact hx ▸ hjoined
    · refine (Function.forall_update_iff s.esp
        (fun x pc => pc.BeforeReady → x ∉ (s.arrived ++ [(slot, e)]).map Prod.snd)).2
        ⟨nofun, fun x hxe hx => ?_⟩
      have := hb x hx
      simpa [State.readied, hxe] using this
    · exact (Function.forall_update_iff s.esp (fun x pc => pc.Joined → x ∈ s.joined)).2
        ⟨nofun, fun x _ => hj x⟩
  | answer slot e =>
    obtain ⟨-, rfl⟩ := guarded_eq_some.1 hs
    have hset : EspInv (s.setEsp e (if s.esp e = .awaiting then .answerSent else s.esp e)) :=
      h.setEsp (by split <;> simp [EspPc.BeforeReady]) (by split <;> simp [EspPc.Joined])
    exact ⟨hset.nodup, hset.readied, hset.before, hset.joined⟩

/-! ## The barrier -/

/-- **What a zero counter means.** Every slot is taken, and by different receivers. -/
theorem complete_of_zero (hsl : SlotInv esp_number s) (he : EspInv s)
    (h0 : s.threads_to_wait_for = 0) : AllJoined esp_number s := by
  have hlen : s.arrived.length = esp_number := by
    have := hsl.counter
    omega
  have hfull : Barrier.Full esp_number s.slots := by
    refine Barrier.full_of_nodup (hsl.nodup hlen.le) (fun i hi => ?_) (by simp [State.slots, hlen])
    exact (hsl.slots_lt i hi).trans_le hsl.joined_le
  have hjoined : s.joined.length = esp_number := by
    refine le_antisymm hsl.joined_le ?_
    by_contra hlt
    exact absurd (hsl.slots_lt _ (hfull _ (not_le.1 hlt))) (lt_irrefl _)
  refine ⟨hjoined, ?_⟩
  have hperm : s.readied.Perm s.joined :=
    (List.subperm_of_subset he.nodup he.readied).perm_of_length_le
      (by simp [State.readied, hjoined, hlen])
  exact hperm.nodup_iff.1 he.nodup

/-- A full `esp_list` stays as it is. -/
theorem AllJoined.step (h : AllJoined esp_number s) (hs : step esp_number s a = some t) :
    AllJoined esp_number t := by
  cases a with
  | acceptInit e =>
    obtain ⟨⟨-, hroom, -⟩, -⟩ := guarded_eq_some.1 hs
    exact absurd h.1 hroom.ne
  | sendInit | refuseInit | recvConfirm | loseConfirm | garbleConfirm | spawn | listen | connect
  | sendReady | recvReady | answer | answerReset | die | recvAnswer | errorReturn | start =>
    obtain ⟨-, rfl⟩ := guarded_eq_some.1 hs
    exact h

/-- A receiver for which the answer is on its way, or that has returned from `esp_is_ready`. -/
def EspPc.PastAnswer : EspPc → Prop
  | .answerSent | .returned _ | .started _ => True
  | _ => False

/-- The answers of the server. -/
structure AnswerInv (esp_number : ℕ) (s : State) : Prop where
  /-- READY is sent only when all have joined -/
  complete : ∀ e, s.answered e = true → AllJoined esp_number s
  /-- no receiver is past the answer without one -/
  past : ∀ e, (s.esp e).PastAnswer → s.answered e = true

/-- A receiver that moves on to a state past the answer only with one keeps the invariant. -/
theorem AnswerInv.setEsp (h : AnswerInv esp_number s) {e : ℕ} {pc : EspPc}
    (hpc : pc.PastAnswer → s.answered e = true) : AnswerInv esp_number (s.setEsp e pc) :=
  ⟨h.complete, (Function.forall_update_iff s.esp
    (fun e pc => pc.PastAnswer → s.answered e = true)).2 ⟨hpc, fun e _ => h.past e⟩⟩

/-- A step without an early return keeps the invariant of the answers. -/
theorem AnswerInv.step (h : AnswerInv esp_number s) (hsl : SlotInv esp_number s) (he : EspInv s)
    (hG : NoEarlyReturn s a) (hs : step esp_number s a = some t) : AnswerInv esp_number t := by
  have hall : AllJoined esp_number s → AllJoined esp_number t := fun hc => hc.step hs
  have ⟨hc, hp⟩ := h
  cases a with
  | sendInit | refuseInit | recvConfirm | loseConfirm | garbleConfirm | sendReady | connect =>
    obtain ⟨-, rfl⟩ := guarded_eq_some.1 hs
    exact h.setEsp nofun
  | acceptInit e =>
    obtain ⟨-, rfl⟩ := guarded_eq_some.1 hs
    have hset : AnswerInv esp_number (s.setEsp e (.confirmSent (readyPort s.joined.length))) :=
      h.setEsp nofun
    exact ⟨fun x hx => hall (hc x hx), hset.past⟩
  | spawn | listen | answerReset | die =>
    obtain ⟨-, rfl⟩ := guarded_eq_some.1 hs
    exact ⟨hc, hp⟩
  | recvReady slot e =>
    obtain ⟨-, rfl⟩ := guarded_eq_some.1 hs
    have hset : AnswerInv esp_number (s.setEsp e .awaiting) := h.setEsp nofun
    exact ⟨hc, hset.past⟩
  | answer slot e =>
    obtain ⟨⟨-, h0⟩, rfl⟩ := guarded_eq_some.1 hs
    have hcomplete := complete_of_zero hsl he h0
    refine ⟨fun _ _ => hcomplete, ?_⟩
    refine (Function.forall_update_iff s.esp
      (fun x pc => pc.PastAnswer → Function.update s.answered e true x = true)).2
      ⟨fun _ => by simp, fun x hx hpc => ?_⟩
    rw [Function.update_of_ne hx]
    exact hp x hpc
  | recvAnswer e =>
    obtain ⟨hpc, rfl⟩ := guarded_eq_some.1 hs
    exact h.setEsp fun _ => hp e (by simp [hpc, EspPc.PastAnswer])
  | errorReturn e =>
    obtain ⟨-, rfl⟩ := guarded_eq_some.1 hs
    exact h.setEsp fun _ => hG
  | start e ready =>
    obtain ⟨hpc, rfl⟩ := guarded_eq_some.1 hs
    exact h.setEsp fun _ => hp e (by simp [hpc, EspPc.PastAnswer])

/-- **No receiver starts early,** as long as `esp_is_ready` does not return on a failure in a
receiver that was not sent READY. -/
theorem started_after_ready (esp_number : ℕ) (as : List Action) (s : State)
    (hG : Meets (step esp_number) NoEarlyReturn (init esp_number) as)
    (h : run (step esp_number) (init esp_number) as = some s) :
    StartedAfterReady esp_number s := by
  obtain ⟨-, -, hinv⟩ := run_invariant_of_meets
    (I := fun s => SlotInv esp_number s ∧ EspInv s ∧ AnswerInv esp_number s)
    (fun s a t ⟨hsl, he, ha⟩ hG ht => ⟨hsl.step ht, he.step ht, ha.step hsl he hG ht⟩)
    ⟨slotInv_init, espInv_init, nofun, nofun⟩ hG h
  intro e ready hpc
  have hans := hinv.past e (by simp [hpc, EspPc.PastAnswer])
  exact ⟨hans, hinv.complete e hans⟩

/-- An early return is followed by an early start: `event_handler` goes on in any case. -/
theorem early_return_starts_early {e : ℕ} (hG : ¬ NoEarlyReturn s (.errorReturn e))
    (hs : step esp_number s (.errorReturn e) = some t) :
    ∃ u, step esp_number t (.start e false) = some u ∧ ¬ StartedAfterReady esp_number u := by
  obtain ⟨-, rfl⟩ := guarded_eq_some.1 hs
  refine ⟨_, guarded_eq_some.2 ⟨by simp [State.setEsp], rfl⟩, fun h => hG ?_⟩
  exact (h e false (by simp [State.setEsp])).1

end

/-- Two receivers whose start-up goes through. -/
def bothStart : List Action :=
  [.sendInit 7, .acceptInit 7, .sendInit 4, .spawn 0, .recvConfirm 7 3011, .listen 0, .connect 7 0,
    .acceptInit 4, .sendReady 7 3011, .spawn 1, .listen 1, .recvReady 0 7, .recvConfirm 4 3013,
    .connect 4 1, .sendReady 4 3013, .recvReady 1 4, .answer 0 7, .recvAnswer 7, .start 7 true]

/-- The receiver starts after it was answered, when both have joined. -/
theorem started_after_ready_bothStart :
    ∃ s, run (step 2) (init 2) bothStart = some s ∧ s.esp 7 = .started true ∧
      s.answered 7 = true ∧ AllJoined 2 s := by
  have hrun : ∃ s, run (step 2) (init 2) bothStart = some s ∧ s.esp 7 = .started true :=
    ⟨_, rfl, rfl⟩
  obtain ⟨s, hs, hpc⟩ := hrun
  exact ⟨s, hs, hpc, started_after_ready 2 bothStart s (by decide) hs 7 true hpc⟩

/-- A receiver that connects before the child thread of its slot listens. -/
def connectsFirst : List Action :=
  [.sendInit 7, .acceptInit 7, .recvConfirm 7 3011, .errorReturn 7, .start 7 false]

/-- A receiver can start early. -/
theorem started_early :
    ¬ ∀ (esp_number : ℕ) (as : List Action) (s : State),
      run (step esp_number) (init esp_number) as = some s → StartedAfterReady esp_number s := by
  intro h
  have hrun : ∃ s, run (step 2) (init 2) connectsFirst = some s ∧ s.esp 7 = .started false ∧
      s.answered 7 = false := ⟨_, rfl, rfl, rfl⟩
  obtain ⟨s, hs, hpc, hans⟩ := hrun
  have := (h 2 connectsFirst s hs 7 false hpc).1
  simp [hans] at this

end Startup

end DetectionSystem
