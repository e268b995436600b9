import DetectionSystem.Firmware.HandOff

/-!
# The heap of the receiver

`Inv` says that every node that belongs to a task or to the list is allocated. Here is the other
direction: nothing else is. The nodes are counted rather than followed. `malloc` and `free` are the
only steps that change how many there are, and each of them changes what the tasks hold by as much,
so that the number is always the one `OnHeap` says; a set of that size that includes the owned nodes
is the set of them.

The memory that the receiver uses is thus bounded by the packets it has not sent yet
(`heap_is_owned`), also after uploads that were given up and packets whose `malloc` failed.
-/

open Transition ListSeg

namespace DetectionSystem

namespace BufferList

variable {P : Type} {s t : State P} {a : Action P}

/-- The allocated addresses are those of `heap`. They are the packets that are linked and not sent,
the empty node at `curr`, and what either task has taken. -/
structure OnHeap (s : State P) (heap : List ℕ) : Prop where
  nodup : heap.Nodup
  alloc : ∀ a, s.alloc a = true ↔ a ∈ heap
  length : heap.length + s.sent.length + (s.handler.late (s.data s.curr)).length =
    s.linked.length + 1 + s.handler.temp.length + s.sender.held.length

/-- What was freed or allocated is all that changes. -/
theorem OnHeap.of_alloc_eq {heap : List ℕ} (h : OnHeap s heap) (halloc : t.alloc = s.alloc)
    (hlength : t.sent.length + (t.handler.late (t.data t.curr)).length + s.linked.length +
        s.handler.temp.length + s.sender.held.length =
      s.sent.length + (s.handler.late (s.data s.curr)).length + t.linked.length +
        t.handler.temp.length + t.sender.held.length) : OnHeap t heap := by
  have hlen := h.length
  exact ⟨h.nodup, by rw [halloc]; exact h.alloc, by omega⟩

/-- The handler leaves the heap as it is. -/
theorem OnHeap.handlerStep {heap : List ℕ} (h : OnHeap s heap) (hs : handlerStep s = some t) :
    OnHeap t heap := by
  unfold BufferList.handlerStep at hs
  cases hpc : s.handler with
  | idle | malloc => simp [hpc] at hs
  | filling p | clearNext temp | link temp | advance temp | increment =>
    simp only [hpc, Option.some.injEq] at hs
    subst hs
    refine h.of_alloc_eq rfl ?_
    simp [hpc, HandlerPc.late, HandlerPc.temp]
    try omega

/-- The sender frees the blocks it holds. -/
theorem OnHeap.senderStep {heap : List ℕ} (h : OnHeap s heap)
    (hheld : ∀ b ∈ s.sender.held, s.alloc b = true) (hs : senderStep s = some t) :
    ∃ heap, OnHeap t heap := by
  unfold BufferList.senderStep at hs
  cases hpc : s.sender with
  | idle | socket i | connect i | mac i | readNext i k ptr | setHead ptr | ack =>
    simp only [hpc, Option.some.injEq] at hs
    subst hs
    exact ⟨heap, h.of_alloc_eq rfl (by simp [hpc, SenderPc.held])⟩
  | counting i closed =>
    simp only [hpc, guarded_eq_some] at hs
    obtain ⟨-, rfl⟩ := hs
    exact ⟨heap, h.of_alloc_eq rfl (by simp [hpc, SenderPc.held])⟩
  | probe i =>
    simp only [hpc] at hs
    split at hs <;> cases hs <;> exact ⟨heap, h.of_alloc_eq rfl (by simp [hpc, SenderPc.held])⟩
  | write i k ptr =>
    cases ptr <;> simp only [hpc, Option.some.injEq, reduceCtorEq] at hs
    subst hs
    refine ⟨heap, h.of_alloc_eq rfl ?_⟩
    simp [hpc, SenderPc.held]
    omega
  | free i k ptr aux_ptr =>
    simp only [hpc, Option.some.injEq] at hs
    subst hs
    -- the node that is freed was on the heap
    have hmem : ptr ∈ heap := (h.alloc ptr).1 (hheld ptr (by simp [hpc, SenderPc.held]))
    have hlen := h.length
    refine ⟨heap.erase ptr, h.nodup.erase ptr, fun c => ?_, ?_⟩
    · rw [h.nodup.mem_erase_iff, ← h.alloc]
      rcases eq_or_ne c ptr with rfl | hne
      · simp
      · simp [hne]
    · have hpos := List.length_pos_of_mem hmem
      rw [List.length_erase_of_mem hmem]
      simp only [hpc, SenderPc.held, List.length_singleton] at hlen
      dsimp only
      split <;> simp only [SenderPc.held, List.length_nil] <;> omega

/-- **One step.** Only `malloc` takes from the heap, and only `free` gives back. -/
theorem OnHeap.step {heap : List ℕ} (h : OnHeap s heap)
    (hheld : ∀ b ∈ s.sender.held, s.alloc b = true) (hs : step s a = some t) :
    ∃ heap, OnHeap t heap := by
  cases a with
  | handler => exact ⟨heap, h.handlerStep hs⟩
  | sender => exact h.senderStep hheld hs
  | capture p | mallocFail =>
    simp only [BufferList.step] at hs
    cases hpc : s.handler <;> simp only [hpc, Option.some.injEq, reduceCtorEq] at hs
    subst hs
    exact ⟨heap, h.of_alloc_eq rfl (by simp [hpc, HandlerPc.late, HandlerPc.temp])⟩
  | malloc b =>
    simp only [BufferList.step] at hs
    cases hpc : s.handler <;> simp only [hpc, guarded_eq_some, reduceCtorEq] at hs
    obtain ⟨hfree, rfl⟩ := hs
    have hnew : b ∉ heap := fun hb => by
      rw [(h.alloc b).2 hb] at hfree
      cases hfree
    have hlen := h.length
    refine ⟨b :: heap, List.nodup_cons.2 ⟨hnew, h.nodup⟩, fun c => ?_, ?_⟩
    · rcases eq_or_ne c b with rfl | hne
      · simp
      · simp [hne, h.alloc]
    · simp only [hpc, HandlerPc.late, HandlerPc.temp, List.length_nil, List.length_cons] at hlen ⊢
      omega
  | senderFail =>
    simp only [BufferList.step, senderFail] at hs
    have hnext : ∀ i, (nextAttempt i).held = [] := by
      intro i
      unfold nextAttempt
      split <;> rfl
    cases hpc : s.sender with
    | idle | probe | readNext | free | setHead | ack => simp [hpc] at hs
    | mac i =>
      simp only [hpc, Option.some.injEq] at hs
      subst hs
      exact ⟨heap, h.of_alloc_eq rfl (by simp [hpc, SenderPc.held])⟩
    | socket i | connect i | counting i closed | write i k ptr =>
      simp only [hpc, Option.some.injEq] at hs
      subst hs
      have hnone : s.sender.held = [] := by
        rw [hpc]
        rfl
      exact ⟨heap, h.of_alloc_eq rfl (by simp only [hnone, hnext])⟩

end BufferList

end DetectionSystem
