import DetectionSystem.Firmware.BufferList

/-!
# The hand-off of packets from the handler to the sender

One invariant, `Inv`, ties the list, the counters and both tasks together: the nodes from the
sender's next node to `curr` are linked, allocated and owned by nobody else, they hold the linked
packets that were not sent, and they are as many as `count`, the nodes the current upload has still
to send and the node the handler is about to count make up, plus a number `lost` that no counter
knows of. `Inv.step` follows every statement of both tasks and says what it does to `lost`: an
upload that is given up and a `count` that wraps add to it, and nothing takes from it.

Two results follow. With no failed write among the nodes, the sender only meets linked, allocated
nodes that the handler has left, and sends them in order (`hand_off_safe`), which is to say that the
list refines a queue (`run_refines_fifo`). And while nothing is lost, `count` is the length of the
list whenever neither task is at work (`count_eq_list_size`).
-/

open Transition ListSeg

namespace DetectionSystem

namespace BufferList

variable {P : Type}

/-! ## What the program counters hold -/

/-- The first node that is not sent. -/
def SenderPc.front (next : ℕ → Option ℕ) (head : Option ℕ) : SenderPc → Option ℕ
  | .write _ _ ptr => ptr
  | .readNext _ _ ptr => next ptr
  | .free _ _ _ aux_ptr => aux_ptr
  | .setHead ptr => ptr
  | .idle | .socket _ | .connect _ | .mac _ | .counting .. | .probe _ | .ack => head

/-- The node that is sent and not yet freed. -/
def SenderPc.held : SenderPc → List ℕ
  | .readNext _ _ ptr | .free _ _ ptr _ => [ptr]
  | _ => []

/-- Before a `write` of `send_probe_buffer`. -/
def SenderPc.isWrite : SenderPc → Bool
  | .write .. => true
  | _ => false

/-- The number of nodes the current upload has still to send. -/
def SenderPc.pending (sniff_count : ℕ) : SenderPc → ℕ
  | .socket _ | .connect _ | .mac _ | .counting .. | .probe _ => sniff_count
  | .write _ k _ => sniff_count - k
  | .readNext _ k _ | .free _ k _ _ => sniff_count - (k + 1)
  | .idle | .setHead _ | .ack => 0

/-- The loop of `send_probe_buffer` is within its bound, and `head` is the first node until one is
sent. -/
def SenderPc.InLoop (sniff_count : ℕ) (head : Option ℕ) : SenderPc → Prop
  | .write _ k ptr => k < sniff_count ∧ (k = 0 → head = ptr)
  | .readNext _ k _ | .free _ k _ _ => k < sniff_count
  | _ => True

/-- The node the handler has allocated and not yet made current. -/
def HandlerPc.temp : HandlerPc P → List ℕ
  | .clearNext temp | .link temp | .advance temp => [temp]
  | _ => []

/-- The linked packet that is still at `curr`. -/
def HandlerPc.late (d : P) : HandlerPc P → List P
  | .advance _ => [d]
  | _ => []

/-- The number of nodes before `curr` that the handler has not counted yet. -/
def HandlerPc.uncounted : HandlerPc P → ℕ
  | .increment => 1
  | _ => 0

/-- Where the list ends: at `curr`, but for the moment in which the new node is linked behind it. -/
def HandlerPc.Ends (next : ℕ → Option ℕ) (curr : ℕ) : HandlerPc P → Prop
  | .link temp => next curr = none ∧ next temp = none
  | .advance temp => next curr = some temp ∧ next temp = none
  | _ => next curr = none

/-- A store to the pointer of a node that the sender does not hold does not move its next node. -/
theorem SenderPc.front_update {pc : SenderPc} {next : ℕ → Option ℕ} {head v : Option ℕ} {a : ℕ}
    (ha : a ∉ pc.held) : pc.front (Function.update next a v) head = pc.front next head := by
  cases pc with
  | readNext i k ptr =>
    have hne : ptr ≠ a := fun h => ha (by simp [SenderPc.held, h])
    simp [SenderPc.front, Function.update_of_ne hne]
  | _ => rfl

/-! ## The invariant -/

/-- The nodes that belong to one of the tasks or to the list. -/
def State.owned (s : State P) (nodes : List ℕ) : List ℕ :=
  s.handler.temp ++ s.sender.held ++ s.curr :: nodes

/-- The invariant, for the nodes from the sender's next one to `curr`. -/
structure InvAt (lost : ℕ) (nodes : List ℕ) (s : State P) : Prop where
  /-- the nodes are linked up to `curr` -/
  seg : Seg s.next (s.sender.front s.next s.head) nodes s.curr
  /-- no node has two owners -/
  nodup : (s.owned nodes).Nodup
  /-- and none of them is freed -/
  alloc : ∀ a ∈ s.owned nodes, s.alloc a = true
  /-- what was linked and not sent is in the nodes, in order -/
  linked : s.linked = s.sent ++ nodes.map s.data ++ s.handler.late (s.data s.curr)
  /-- the counters know of all nodes but the lost ones -/
  count : nodes.length =
    s.count + s.sender.pending s.sniff_count + s.handler.uncounted + lost
  /-- `count` is a `uint8_t` -/
  count_lt : s.count < 256
  inLoop : s.sender.InLoop s.sniff_count s.head
  ends : s.handler.Ends s.next s.curr

/-- The invariant of the hand-off, with `lost` nodes that no counter knows of. -/
def Inv (lost : ℕ) (s : State P) : Prop := ∃ nodes, InvAt lost nodes s

/-- What a step loses: 256 where `count` wraps, and what an upload has still to send where it is
given up. -/
def loss (s : State P) : Action P → ℕ
  | .handler =>
    match s.handler with
    | .increment => if s.count = 255 then 256 else 0
    | _ => 0
  | .senderFail =>
    match s.sender with
    | .socket i | .connect i | .counting i _ | .write i _ _ =>
      if i + 1 < 3 then 0 else s.sender.pending s.sniff_count
    | _ => 0
  | _ => 0

/-- `head` is not yet behind the sender: no node of the list was freed in this attempt. -/
def SenderPc.headValid : SenderPc → Bool
  | .write _ k _ => k = 0
  | _ => true

/-- No write fails after a node of the list was freed. -/
def KeepsHead (s : State P) : Action P → Prop
  | .senderFail => s.sender.headValid = true
  | _ => True

/-- Whether the head of the list is kept can be seen. -/
instance : ∀ (s : State P) a, Decidable (KeepsHead s a)
  | s, .senderFail => inferInstanceAs (Decidable (s.sender.headValid = true))
  | _, .capture _ | _, .handler | _, .malloc _ | _, .mallocFail | _, .sender => .isTrue trivial

section
variable {lost : ℕ} {nodes : List ℕ} {s t : State P} {a : Action P}

/-- The lists are in order at the start. -/
theorem inv_init (data : ℕ → P) (next : ℕ → Option ℕ) (b : ℕ) : Inv 0 (init data next b) := by
  refine ⟨[], ?_⟩
  constructor <;>
    simp [init, State.owned, SenderPc.front, SenderPc.held, SenderPc.pending, SenderPc.InLoop,
      HandlerPc.temp, HandlerPc.late, HandlerPc.uncounted, HandlerPc.Ends]

/-- The ownership of an invariant state, piece by piece. -/
theorem InvAt.disjoint (h : InvAt lost nodes s) :
    s.curr ∉ nodes ∧ s.curr ∉ s.sender.held ∧
      (∀ b ∈ s.handler.temp, b ≠ s.curr ∧ b ∉ nodes ∧ b ∉ s.sender.held) ∧
      ∀ b ∈ s.sender.held, b ∉ nodes := by
  have hnd := h.nodup
  simp only [State.owned, List.nodup_append, List.mem_append, List.nodup_cons, List.mem_cons] at hnd
  obtain ⟨⟨-, -, hth⟩, ⟨hcn, -⟩, hx⟩ := hnd
  refine ⟨hcn, fun hc => hx _ (.inr hc) _ (.inl rfl) rfl, fun b hb => ⟨?_, ?_, ?_⟩,
    fun b hb hbn => hx _ (.inr hb) _ (.inr hbn) rfl⟩
  · exact fun hbc => hx _ (.inl hb) _ (.inl hbc) rfl
  · exact fun hbn => hx _ (.inl hb) _ (.inr hbn) rfl
  · exact fun hbh => hth _ hb _ hbh rfl

/-- A handler that moves on without touching the list keeps the invariant. -/
theorem InvAt.setHandler (h : InvAt lost nodes s) {pc : HandlerPc P}
    (ht : pc.temp = s.handler.temp) (hl : ∀ d, pc.late d = s.handler.late d)
    (hu : pc.uncounted = s.handler.uncounted)
    (he : s.handler.Ends s.next s.curr → pc.Ends s.next s.curr) :
    InvAt lost nodes { s with handler := pc } :=
  ⟨h.seg, by simpa [State.owned, ht] using h.nodup, by simpa [State.owned, ht] using h.alloc,
    by simpa [hl] using h.linked, by simpa [hu] using h.count, h.count_lt, h.inLoop, he h.ends⟩

/-- A timer task that moves on without taking a node keeps the invariant, but for the nodes it gives
up. -/
theorem InvAt.giveUp (h : InvAt lost nodes s) {pc : SenderPc} {given : ℕ}
    (hf : pc.front s.next s.head = s.sender.front s.next s.head) (hh : pc.held = s.sender.held)
    (hp : s.sender.pending s.sniff_count = pc.pending s.sniff_count + given)
    (hl : pc.InLoop s.sniff_count s.head) :
    InvAt (lost + given) nodes { s with sender := pc } := by
  refine ⟨?_, by simpa [State.owned, hh] using h.nodup, by simpa [State.owned, hh] using h.alloc,
    h.linked, ?_, h.count_lt, hl, h.ends⟩
  · rw [hf]
    exact h.seg
  · have hco := h.count
    dsimp only
    omega

/-- It gives none up where as many are left to send. -/
theorem InvAt.setSender (h : InvAt lost nodes s) {pc : SenderPc}
    (hf : pc.front s.next s.head = s.sender.front s.next s.head) (hh : pc.held = s.sender.held)
    (hp : s.sender.pending s.sniff_count = pc.pending s.sniff_count)
    (hl : pc.InLoop s.sniff_count s.head) : InvAt lost nodes { s with sender := pc } := by
  have hkept : InvAt (lost + 0) nodes { s with sender := pc } := h.giveUp hf hh hp hl
  exact hkept

/-- Every statement of the handler keeps the invariant, but for the wrap of `count`. -/
theorem InvAt.handlerStep (h : InvAt lost nodes s) (hs : handlerStep s = some t) :
    Inv (lost + loss s .handler) t := by
  have ⟨hcn, hch, htemp, hhn⟩ := h.disjoint
  have ⟨hseg, hnd, hal, hli, hco, hlt, hlo, hen⟩ := h
  unfold BufferList.handlerStep at hs
  cases hpc : s.handler with
  | idle | malloc => simp [hpc] at hs
  | filling p =>
    simp only [hpc, Option.some.injEq] at hs
    subst hs
    refine ⟨nodes, hseg, ?_, ?_, ?_, ?_, hlt, hlo, ?_⟩
    · simpa [State.owned, HandlerPc.temp, hpc] using hnd
    · simpa [State.owned, HandlerPc.temp, hpc] using hal
    · have hmap : nodes.map (Function.update s.data s.curr p) = nodes.map s.data :=
        List.map_congr_left fun b hb => Function.update_of_ne (ne_of_mem_of_not_mem hb hcn) _ _
      simpa [HandlerPc.late, hpc, hmap] using hli
    · simpa [HandlerPc.uncounted, loss, hpc] using hco
    · simpa [HandlerPc.Ends, hpc] using hen
  | clearNext temp =>
    simp only [hpc, Option.some.injEq] at hs
    subst hs
    obtain ⟨htc, htn, hth⟩ := htemp temp (by simp [HandlerPc.temp, hpc])
    refine ⟨nodes, ?_, ?_, ?_, ?_, ?_, hlt, hlo, ?_⟩
    · simpa [SenderPc.front_update hth] using hseg.update htn none
    · simpa [State.owned, HandlerPc.temp, hpc] using hnd
    · simpa [State.owned, HandlerPc.temp, hpc] using hal
    · simpa [HandlerPc.late, hpc] using hli
    · simpa [HandlerPc.uncounted, loss, hpc] using hco
    · simpa [HandlerPc.Ends, hpc, Function.update_of_ne htc.symm] using hen
  | link temp =>
    simp only [hpc, Option.some.injEq] at hs
    subst hs
    obtain ⟨htc, htn, hth⟩ := htemp temp (by simp [HandlerPc.temp, hpc])
    simp only [HandlerPc.Ends, hpc] at hen
    refine ⟨nodes, ?_, ?_, ?_, ?_, ?_, hlt, hlo, ?_⟩
    · simpa [SenderPc.front_update hch] using hseg.update hcn (some temp)
    · simpa [State.owned, HandlerPc.temp, hpc] using hnd
    · simpa [State.owned, HandlerPc.temp, hpc] using hal
    · simp [HandlerPc.late, hpc, hli]
    · simpa [HandlerPc.uncounted, loss, hpc] using hco
    · simp [HandlerPc.Ends, Function.update_of_ne htc, hen.2]
  | advance temp =>
    simp only [hpc, Option.some.injEq] at hs
    subst hs
    simp only [HandlerPc.Ends, hpc] at hen
    -- the node at `curr` joins the list, and `temp` is the new empty one
    have hperm : (s.owned nodes).Perm (s.sender.held ++ temp :: (nodes ++ [s.curr])) := by
      simp only [State.owned, HandlerPc.temp, hpc, List.singleton_append]
      refine List.perm_middle.symm.trans (List.Perm.append_left _ (List.Perm.cons _ ?_))
      exact List.perm_append_singleton s.curr nodes |>.symm
    refine ⟨nodes ++ [s.curr], hseg.snoc hen.1, ?_, fun b hb => ?_, ?_, ?_, hlt, hlo, ?_⟩
    · simpa [State.owned, HandlerPc.temp] using hperm.nodup_iff.1 hnd
    · exact hal b (hperm.mem_iff.2 (by simpa [State.owned, HandlerPc.temp] using hb))
    · simpa [HandlerPc.late, hpc] using hli
    · simp only [HandlerPc.uncounted, loss, hpc, List.length_append, List.length_singleton] at hco ⊢
      omega
    · simpa [HandlerPc.Ends] using hen.2
  | increment =>
    simp only [hpc, Option.some.injEq] at hs
    subst hs
    refine ⟨nodes, hseg, ?_, ?_, ?_, ?_, Nat.mod_lt _ (by omega), hlo, ?_⟩
    · simpa [State.owned, HandlerPc.temp, hpc] using hnd
    · simpa [State.owned, HandlerPc.temp, hpc] using hal
    · simpa [HandlerPc.late, hpc] using hli
    · simp only [HandlerPc.uncounted, loss, hpc] at hco ⊢
      split <;> omega
    · simpa [HandlerPc.Ends, hpc] using hen

/-- Every statement of the timer task keeps the invariant. -/
theorem InvAt.senderStep (h : InvAt lost nodes s) (hs : senderStep s = some t) : Inv lost t := by
  have ⟨hseg, hnd, hal, hli, hco, hlt, hlo, hen⟩ := h
  unfold BufferList.senderStep at hs
  cases hpc : s.sender with
  | idle =>
    simp only [hpc, Option.some.injEq] at hs
    subst hs
    simp only [hpc, SenderPc.front, State.owned, SenderPc.held, SenderPc.pending] at *
    exact ⟨nodes, hseg, hnd, hal, hli, by simpa [SenderPc.pending] using hco, by simp, trivial, hen⟩
  | socket i | connect i | mac i | ack =>
    simp only [hpc, Option.some.injEq] at hs
    subst hs
    exact ⟨nodes, h.setSender (by rw [hpc]; rfl) (by rw [hpc]; rfl) (by rw [hpc]; rfl) trivial⟩
  | counting i closed =>
    simp only [hpc, guarded_eq_some] at hs
    obtain ⟨-, rfl⟩ := hs
    exact ⟨nodes, h.setSender (by rw [hpc]; rfl) (by rw [hpc]; rfl) (by rw [hpc]; rfl) trivial⟩
  | probe i =>
    simp only [hpc] at hs
    split at hs
    · next h0 =>
      cases hs
      refine ⟨nodes, h.setSender (by rw [hpc]; rfl) (by rw [hpc]; rfl) ?_ trivial⟩
      rw [hpc, h0]
      rfl
    · next h0 =>
      cases hs
      exact ⟨nodes, h.setSender (by rw [hpc]; rfl) (by rw [hpc]; rfl) (by rw [hpc]; rfl)
        ⟨Nat.pos_of_ne_zero h0, fun _ => rfl⟩⟩
  | write i k ptr =>
    simp only [hpc, SenderPc.front, State.owned, SenderPc.held, SenderPc.pending,
      SenderPc.InLoop] at *
    -- the bound of the loop leaves a node to send, so `ptr` is one
    cases nodes with
    | nil =>
      simp only [List.length_nil] at hco
      omega
    | cons b rest =>
      obtain ⟨rfl, hseg⟩ := hseg
      simp only [Option.some.injEq] at hs
      subst hs
      have hperm : (s.handler.temp ++ [] ++ s.curr :: b :: rest).Perm
          (s.handler.temp ++ [b] ++ s.curr :: rest) := by
        simp only [List.append_assoc, List.nil_append, List.singleton_append]
        exact List.Perm.append_left _ (List.Perm.swap _ _ _)
      refine ⟨rest, hseg, hperm.nodup_iff.1 hnd, fun c hc => hal c (hperm.mem_iff.2 hc), ?_, ?_, hlt,
        hlo.1, hen⟩
      · simpa using hli
      · simp only [List.length_cons, SenderPc.pending] at hco ⊢
        omega
  | readNext i k ptr =>
    simp only [hpc, Option.some.injEq] at hs
    subst hs
    rw [hpc] at hlo
    exact ⟨nodes, h.setSender (by rw [hpc]; rfl) (by rw [hpc]; rfl) (by rw [hpc]; rfl) hlo⟩
  | free i k ptr aux_ptr =>
    simp only [hpc, Option.some.injEq] at hs
    subst hs
    obtain ⟨hcn, hch, htemp, hhn⟩ := h.disjoint
    simp only [hpc, SenderPc.front, State.owned, SenderPc.held, SenderPc.pending,
      SenderPc.InLoop] at *
    have hsub : (s.handler.temp ++ s.curr :: nodes).Sublist
        (s.handler.temp ++ [ptr] ++ s.curr :: nodes) := by
      simp
    have halloc : ∀ b ∈ s.handler.temp ++ s.curr :: nodes,
        Function.update s.alloc ptr false b = true := by
      intro b hb
      have hne : b ≠ ptr := by
        rintro rfl
        simp only [List.mem_append, List.mem_cons] at hb
        rcases hb with hb | hb | hb
        · exact (htemp b hb).2.2 (by simp)
        · exact hch (by simp [hb])
        · exact hhn b (by simp) hb
      rw [Function.update_of_ne hne]
      exact hal b (hsub.subset hb)
    split
    · next hk =>
      exact ⟨nodes, hseg, by simpa [State.owned, SenderPc.held] using hsub.nodup hnd,
        by simpa [State.owned, SenderPc.held] using halloc, hli, hco, hlt,
        ⟨hk, fun h0 => absurd h0 (Nat.succ_ne_zero k)⟩, hen⟩
    · next hk =>
      refine ⟨nodes, hseg, by simpa [State.owned, SenderPc.held] using hsub.nodup hnd,
        by simpa [State.owned, SenderPc.held] using halloc, hli, ?_, hlt, trivial, hen⟩
      simp only [SenderPc.pending]
      omega
  | setHead ptr =>
    simp only [hpc, Option.some.injEq] at hs
    subst hs
    simp only [hpc, SenderPc.front, State.owned, SenderPc.held, SenderPc.pending] at *
    exact ⟨nodes, hseg, hnd, hal, hli, hco, hlt, trivial, hen⟩

/-- A failed call of the timer task keeps the invariant, but for the nodes it gives up, as long as
`head` is still the first node. -/
theorem InvAt.senderFail (h : InvAt lost nodes s) (hG : KeepsHead s .senderFail)
    (hs : senderFail s = some t) : Inv (lost + loss s .senderFail) t := by
  unfold BufferList.senderFail at hs
  cases hpc : s.sender with
  | idle | probe | readNext | free | setHead | ack => simp [hpc] at hs
  | mac i =>
    simp only [hpc, Option.some.injEq] at hs
    subst hs
    simp only [loss, hpc]
    exact ⟨nodes, h.setSender (by rw [hpc]; rfl) (by rw [hpc]; rfl) (by rw [hpc]; rfl) trivial⟩
  | socket i | connect i | counting i closed =>
    simp only [hpc, Option.some.injEq] at hs
    subst hs
    simp only [loss, nextAttempt, hpc]
    split
    · exact ⟨nodes, h.setSender (by rw [hpc]; rfl) (by rw [hpc]; rfl) (by rw [hpc]; rfl) trivial⟩
    · refine ⟨nodes, h.giveUp (by rw [hpc]; rfl) (by rw [hpc]; rfl) ?_ trivial⟩
      simp [hpc, SenderPc.pending]
  | write i k ptr =>
    simp only [hpc, Option.some.injEq] at hs
    subst hs
    have hlo := h.inLoop
    simp only [hpc, KeepsHead, SenderPc.headValid, decide_eq_true_eq, SenderPc.InLoop] at hG hlo
    subst hG
    -- nothing has been sent in this attempt, so that the next one starts at the same node
    have hhead : s.head = ptr := hlo.2 rfl
    simp only [loss, nextAttempt, hpc]
    split
    · exact ⟨nodes, h.setSender (by rw [hpc, hhead]; rfl) (by rw [hpc]; rfl) (by rw [hpc]; rfl)
        trivial⟩
    · refine ⟨nodes, h.giveUp (by rw [hpc, hhead]; rfl) (by rw [hpc]; rfl) ?_ trivial⟩
      simp [hpc, SenderPc.pending]

/-- **One step.** The invariant is kept, and what is lost grows by the loss of the step. -/
theorem Inv.step (h : Inv lost s) (hG : KeepsHead s a) (hs : step s a = some t) :
    Inv (lost + loss s a) t := by
  obtain ⟨nodes, h⟩ := h
  have ⟨hseg, hnd, hal, hli, hco, hlt, hlo, hen⟩ := h
  cases a with
  | handler => exact h.handlerStep hs
  | sender => exact h.senderStep hs
  | senderFail => exact h.senderFail hG hs
  | capture p =>
    simp only [BufferList.step] at hs
    cases hpc : s.handler with
    | idle =>
      simp only [hpc, Option.some.injEq] at hs
      subst hs
      exact ⟨nodes, h.setHandler (by simp [HandlerPc.temp, hpc]) (by simp [HandlerPc.late, hpc])
        (by simp [HandlerPc.uncounted, hpc]) (by simp [HandlerPc.Ends, hpc])⟩
    | _ => simp [hpc] at hs
  | malloc b =>
    simp only [BufferList.step] at hs
    cases hpc : s.handler with
    | malloc =>
      simp only [hpc, guarded_eq_some] at hs
      obtain ⟨hfree, rfl⟩ := hs
      have hnew : b ∉ s.owned nodes := fun hb => by
        have := hal b hb
        simp [hfree] at this
      have hown : (b :: s.owned nodes) =
          ([b] ++ s.sender.held ++ s.curr :: nodes) := by
        simp [State.owned, HandlerPc.temp, hpc]
      refine ⟨nodes, hseg, ?_, fun c hc => ?_, ?_, ?_, hlt, hlo, ?_⟩
      · simp only [State.owned, HandlerPc.temp]
        exact hown ▸ List.nodup_cons.2 ⟨hnew, hnd⟩
      · simp only [State.owned, HandlerPc.temp] at hc
        rw [← hown] at hc
        rcases List.mem_cons.1 hc with rfl | hc
        · simp
        · dsimp only
          rw [Function.update_of_ne (ne_of_mem_of_not_mem hc hnew)]
          exact hal c hc
      · simpa [HandlerPc.late, hpc] using hli
      · simpa [HandlerPc.uncounted, loss, hpc] using hco
      · simpa [HandlerPc.Ends, hpc] using hen
    | _ => simp [hpc] at hs
  | mallocFail =>
    simp only [BufferList.step] at hs
    cases hpc : s.handler with
    | malloc =>
      simp only [hpc, Option.some.injEq] at hs
      subst hs
      exact ⟨nodes, h.setHandler (by simp [HandlerPc.temp, hpc]) (by simp [HandlerPc.late, hpc])
        (by simp [HandlerPc.uncounted, hpc]) (by simp [HandlerPc.Ends, hpc])⟩
    | _ => simp [hpc] at hs

/-! ## Order and ownership -/

/-- The queue a state stands for. -/
def State.fifo (s : State P) : Fifo.State P :=
  ⟨s.linked.drop s.sent.length, s.linked, s.sent⟩

/-- The step of the queue that a statement is: the link behind `curr` is the push, the write of a
node is the pop. -/
def moves (s : State P) : Action P → List (Fifo.Action P)
  | .handler =>
    match s.handler with
    | .link _ => [.push (s.data s.curr)]
    | _ => []
  | .sender =>
    match s.sender with
    | .write _ _ (some _) => [.pop]
    | _ => []
  | _ => []

/-- Every step is a step of the queue, or none. -/
theorem step_refines_fifo (h : Inv lost s) (hs : step s a = some t) :
    run Fifo.step s.fifo (moves s a) = some t.fifo := by
  obtain ⟨nodes, h⟩ := h
  have hli := h.linked
  cases a with
  | handler =>
    simp only [step, handlerStep] at hs
    cases hpc : s.handler with
    | idle | malloc => simp [hpc] at hs
    | link temp =>
      simp only [hpc, Option.some.injEq] at hs
      subst hs
      have hlen : s.sent.length ≤ s.linked.length := by
        rw [hli]
        simp only [List.length_append]
        omega
      simp [moves, hpc, run, Fifo.step, State.fifo, List.drop_append_of_le_length hlen]
    | filling | clearNext | advance | increment =>
      simp only [hpc, Option.some.injEq] at hs
      subst hs
      simp [moves, hpc, State.fifo]
  | sender =>
    have hseg := h.seg
    have hco := h.count
    have hlo := h.inLoop
    simp only [step, senderStep] at hs
    cases hpc : s.sender with
    | write i k ptr =>
      simp only [hpc, SenderPc.front, SenderPc.pending, SenderPc.InLoop] at hseg hco hlo hs
      cases nodes with
      | nil =>
        simp only [List.length_nil] at hco
        omega
      | cons b rest =>
        obtain ⟨rfl, hseg⟩ := hseg
        simp only [Option.some.injEq] at hs
        subst hs
        simp [moves, hpc, run, Fifo.step, State.fifo, hli, ← List.drop_drop]
    | probe i =>
      simp only [hpc] at hs
      split at hs <;> cases hs <;> simp [moves, hpc, State.fifo]
    | counting i closed =>
      simp only [hpc, guarded_eq_some] at hs
      obtain ⟨-, rfl⟩ := hs
      simp [moves, hpc, State.fifo]
    | idle | socket | connect | mac | readNext | free | setHead | ack =>
      simp only [hpc, Option.some.injEq] at hs
      subst hs
      simp [moves, hpc, State.fifo]
  | senderFail =>
    simp only [step, senderFail] at hs
    split at hs <;> cases hs <;> simp [moves, State.fifo]
  | capture | mallocFail =>
    simp only [step] at hs
    split at hs <;> cases hs
    simp [moves, State.fifo]
  | malloc b =>
    simp only [step] at hs
    split at hs
    · obtain ⟨-, rfl⟩ := guarded_eq_some.1 hs
      simp [moves, State.fifo]
    · cases hs

/-- The condition on a step: no write inside `send_probe_buffer` fails. -/
def WritesSucceed (s : State P) : Action P → Prop
  | .senderFail => s.sender.isWrite = false
  | _ => True

/-- Whether a step is a failing write can be seen. -/
instance : ∀ (s : State P) a, Decidable (WritesSucceed s a)
  | s, .senderFail => inferInstanceAs (Decidable (s.sender.isWrite = false))
  | _, .capture _ | _, .handler | _, .malloc _ | _, .mallocFail | _, .sender => .isTrue trivial

/-- A node the sender may work on: allocated, behind the handler's current node and not the one it
prepares. -/
def State.Released (s : State P) (b : ℕ) : Prop :=
  s.alloc b = true ∧ b ≠ s.curr ∧ b ∉ s.handler.temp

/-- The hand-off in a state: packets are sent in the order in which they were linked, and the node
the sender reads, follows or frees is released by the handler and still allocated. -/
structure HandOffSafe (s : State P) : Prop where
  inOrder : s.sent <+: s.linked
  reads : ∀ i k ptr, s.sender = .write i k ptr → ∃ b, ptr = some b ∧ s.Released b
  follows : ∀ i k b, s.sender = .readNext i k b → s.Released b ∧ s.next b ≠ none
  frees : ∀ i k b aux_ptr, s.sender = .free i k b aux_ptr → s.Released b

/-- An allocated node that is on the list, or that the sender holds, is released by the handler. -/
theorem InvAt.released (h : InvAt lost nodes s) {b : ℕ} (hb : b ∈ s.sender.held ++ nodes) :
    s.Released b := by
  obtain ⟨hcn, hch, htemp, -⟩ := h.disjoint
  have hown : b ∈ s.owned nodes := by
    simp only [State.owned, List.mem_append, List.mem_cons] at hb ⊢
    tauto
  rw [List.mem_append] at hb
  refine ⟨h.alloc b hown, ?_, fun ht => ?_⟩
  · rintro rfl
    exact hb.elim hch hcn
  · obtain ⟨-, hn, hh⟩ := htemp b ht
    exact hb.elim hh hn

/-- The invariant makes the sender's next access safe. -/
theorem Inv.handOffSafe (h : Inv lost s) (hpre : s.sent <+: s.linked) : HandOffSafe s := by
  obtain ⟨nodes, h⟩ := h
  refine ⟨hpre, fun i k ptr hpc => ?_, fun i k b hpc => ⟨?_, ?_⟩, fun i k b aux_ptr hpc => ?_⟩
  · have hseg := h.seg
    have hco := h.count
    have hlo := h.inLoop
    simp only [hpc, SenderPc.front, SenderPc.pending, SenderPc.InLoop] at hseg hco hlo
    -- fewer nodes are sent than `sniff_count`, and the list has at least as many as are missing
    cases nodes with
    | nil =>
      simp only [List.length_nil] at hco
      omega
    | cons b rest => exact ⟨b, hseg.1, h.released (by simp)⟩
  · exact h.released (by simp [hpc, SenderPc.held])
  · have hseg := h.seg
    simp only [hpc, SenderPc.front] at hseg
    exact hseg.ne_none
  · exact h.released (by simp [hpc, SenderPc.held])

/-- Every run without a failed write is a run of the queue. -/
theorem run_refines_fifo {data : ℕ → P} {next : ℕ → Option ℕ} {b : ℕ} {as : List (Action P)}
    (hG : Meets step WritesSucceed (init data next b) as)
    (h : run step (init data next b) as = some s) :
    (∃ lost, Inv lost s) ∧ ∃ bs, run Fifo.step Fifo.init bs = some s.fifo := by
  have hkeep : ∀ s a, WritesSucceed s a → KeepsHead (P := P) s a := by
    intro s a ha
    cases a with
    | senderFail =>
      simp only [WritesSucceed, KeepsHead] at ha ⊢
      cases hpc : s.sender <;> simp_all [SenderPc.isWrite, SenderPc.headValid]
    | _ => trivial
  have hstep : ∀ s a t f, (∃ lost, Inv lost s) ∧ s.fifo = f → WritesSucceed (P := P) s a →
      step s a = some t → ∃ bs f', run Fifo.step f bs = some f' ∧
        (∃ lost, Inv lost t) ∧ t.fifo = f' := by
    rintro s a t _ ⟨⟨lost, hs⟩, rfl⟩ hG ht
    exact ⟨moves s a, t.fifo, step_refines_fifo hs ht, ⟨_, hs.step (hkeep s a hG) ht⟩, rfl⟩
  obtain ⟨bs, _, hbs, hinv, rfl⟩ :=
    run_simulates_of_meets (t := Fifo.init) hstep ⟨⟨0, inv_init data next b⟩, rfl⟩ hG h
  exact ⟨hinv, bs, hbs⟩

/-- **The hand-off keeps order and ownership,** whatever the interleaving and whatever calls fail
outside `send_probe_buffer`: what is sent is a prefix of what was linked, and the sender reads,
follows and frees only allocated nodes that the handler has released. -/
theorem hand_off_safe (data : ℕ → P) (next : ℕ → Option ℕ) (b : ℕ) (as : List (Action P))
    (s : State P) (hG : Meets step WritesSucceed (init data next b) as)
    (h : run step (init data next b) as = some s) : HandOffSafe s := by
  obtain ⟨⟨lost, hinv⟩, bs, hbs⟩ := run_refines_fifo hG h
  exact hinv.handOffSafe (Fifo.popped_prefix_of_run hbs)

/-- A packet captured while the first one is sent, after a failed attempt to connect. -/
def captureWhileSending : List (Action ℕ) :=
  [.capture 5, .handler, .malloc 1, .handler, .handler, .handler, .handler, .sender, .sender,
    .senderFail, .sender, .sender, .sender, .capture 6, .sender, .handler, .sender, .sender,
    .malloc 2, .sender, .handler, .sender, .handler, .sender, .handler]

/-- The packet captured during an upload stays in the list. -/
theorem hand_off_safe_captureWhileSending :
    ∃ s, run step (init (fun _ => 0) (fun _ => none) 0) captureWhileSending = some s ∧
      s.sent = [5] ∧ s.linked = [5, 6] ∧ HandOffSafe s := by
  have hrun : ∃ s, run step (init (fun _ => 0) (fun _ => none) 0) captureWhileSending = some s ∧
      s.sent = [5] ∧ s.linked = [5, 6] := ⟨_, rfl, rfl, rfl⟩
  obtain ⟨s, hs, hsent, hlinked⟩ := hrun
  exact ⟨s, hs, hsent, hlinked, hand_off_safe _ _ _ captureWhileSending s (by decide) hs⟩

/-! ## The counter and the list -/

/-- Neither task is at work. -/
def State.Quiet (s : State P) : Prop := s.handler = .idle ∧ s.sender = .idle

/-- `count` is the number of filled nodes, from `head` up to but not including the empty node at
`curr`; they hold all linked packets that were not sent, and the next timer event takes them all.
-/
def CountIsListSize (s : State P) : Prop :=
  ∃ nodes, Seg s.next s.head nodes s.curr ∧ s.curr ∉ nodes ∧
    (∀ b ∈ s.curr :: nodes, s.alloc b = true) ∧ nodes.length = s.count ∧
    s.linked = s.sent ++ nodes.map s.data ∧
    ∀ t, step s .sender = some t → t.sniff_count = nodes.length

/-- The condition on a step: `count` does not wrap, an upload is given up only when it has nothing
to send, and no write fails after a node of the list was freed. -/
def Lossless (s : State P) (a : Action P) : Prop := KeepsHead s a ∧ loss s a = 0

/-- Whether a step loses packets can be decided. -/
instance (s : State P) (a : Action P) : Decidable (Lossless s a) :=
  inferInstanceAs (Decidable (_ ∧ _))

/-- With nothing lost and no task at work, the counter is the size of the list. -/
theorem Inv.countIsListSize (h : Inv 0 s) (hq : s.Quiet) : CountIsListSize s := by
  obtain ⟨nodes, h⟩ := h
  obtain ⟨hh, hse⟩ := hq
  have hseg := h.seg
  have hal := h.alloc
  have hli := h.linked
  have hco := h.count
  simp only [State.owned, hh, hse, SenderPc.front, SenderPc.held, SenderPc.pending, HandlerPc.temp,
    HandlerPc.late, HandlerPc.uncounted] at hseg hal hli hco
  refine ⟨nodes, hseg, h.disjoint.1, by simpa using hal, by omega, by simpa using hli, ?_⟩
  intro t ht
  simp only [BufferList.step, senderStep, hse, Option.some.injEq] at ht
  subst ht
  show s.count = nodes.length
  omega

/-- A run that loses no node keeps the invariant without a loss. -/
theorem inv_of_lossless {data : ℕ → P} {next : ℕ → Option ℕ} {b : ℕ} {as : List (Action P)}
    (hG : Meets step Lossless (init data next b) as)
    (h : run step (init data next b) as = some s) : Inv 0 s := by
  refine run_invariant_of_meets (I := Inv 0) (fun s a t hs hG ht => ?_)
    (inv_init data next b) hG h
  have := hs.step hG.1 ht
  rwa [hG.2] at this

/-- **The counter and the list agree,** in every state in which neither task is at work, as long
as no step of the run loses a node. -/
theorem count_eq_list_size (data : ℕ → P) (next : ℕ → Option ℕ) (b : ℕ) (as : List (Action P))
    (s : State P) (hG : Meets step Lossless (init data next b) as)
    (h : run step (init data next b) as = some s) (hq : s.Quiet) : CountIsListSize s :=
  (inv_of_lossless hG h).countIsListSize hq

/-- What `check_list_size` prints then: the walk over the list gives `count`. -/
theorem check_list_size_eq_count {data : ℕ → P} {next : ℕ → Option ℕ} {b : ℕ}
    {as : List (Action P)} (hG : Meets step Lossless (init data next b) as)
    (h : run step (init data next b) as = some s) (hq : s.Quiet) (fuel : ℕ) :
    check_list_size s (s.count + 1 + fuel) = some s.count := by
  have hinv := inv_of_lossless hG h
  obtain ⟨nodes, hseg, -, -, hlen, -⟩ := hinv.countIsListSize hq
  obtain ⟨_, hat⟩ := hinv
  have hend : s.next s.curr = none := by simpa [HandlerPc.Ends, hq.1] using hat.ends
  obtain ⟨c, hc⟩ := Option.ne_none_iff_exists'.1 hseg.ne_none
  rw [hc] at hseg
  rw [check_list_size, hc, ← hlen]
  exact hseg.size_eq hend fuel

end

/-- One packet, captured and uploaded. -/
def captureThenUpload : List (Action ℕ) :=
  [.capture 5, .handler, .malloc 1, .handler, .handler, .handler, .handler, .sender, .sender,
    .sender, .sender, .sender, .sender, .sender, .sender, .sender, .sender, .sender, .capture 6,
    .handler, .malloc 0, .handler, .handler, .handler, .handler]

/-- One packet is sent, and the one captured meanwhile is in the list and counted. -/
theorem count_eq_list_size_captureThenUpload :
    ∃ s, run step (init (fun _ => 0) (fun _ => none) 0) captureThenUpload = some s ∧
      s.sent = [5] ∧ s.count = 1 ∧ CountIsListSize s := by
  have hrun : ∃ s, run step (init (fun _ => 0) (fun _ => none) 0) captureThenUpload = some s ∧
      s.sent = [5] ∧ s.count = 1 ∧ s.Quiet := ⟨_, rfl, rfl, rfl, rfl, rfl⟩
  obtain ⟨s, hs, hsent, hcount, hq⟩ := hrun
  exact ⟨s, hs, hsent, hcount, count_eq_list_size _ _ _ captureThenUpload s (by decide) hs hq⟩

/-- One packet, captured and lost to an upload whose three attempts find no socket. -/
def captureThenGiveUp : List (Action ℕ) :=
  [.capture 5, .handler, .malloc 1, .handler, .handler, .handler, .handler, .sender, .senderFail,
    .senderFail, .senderFail]

/-- The counter and the list can disagree. -/
theorem count_ne_list_size :
    ¬ ∀ (data : ℕ → ℕ) (next : ℕ → Option ℕ) (b : ℕ) (as : List (Action ℕ)) (s : State ℕ),
      run step (init data next b) as = some s → s.Quiet → CountIsListSize s := by
  intro h
  have hrun : ∃ s, run step (init (fun _ => 0) (fun _ => none) 0) captureThenGiveUp = some s ∧
      s.Quiet ∧ s.count = 0 ∧ s.head = some 0 ∧ s.curr = 1 :=
    ⟨_, rfl, ⟨rfl, rfl⟩, rfl, rfl, rfl⟩
  obtain ⟨s, hs, hq, hcount, hhead, hcurr⟩ := hrun
  obtain ⟨nodes, hseg, -, -, hlen, -⟩ := h _ _ _ captureThenGiveUp s hs hq
  rw [hcount, List.length_eq_zero_iff] at hlen
  simp [hlen, hhead, hcurr] at hseg

end BufferList

end DetectionSystem
