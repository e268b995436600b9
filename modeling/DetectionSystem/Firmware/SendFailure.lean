import DetectionSystem.Firmware.BufferList

/-!
# A write that fails in `send_probe_buffer`

The loop of `send_probe_buffer` frees every node it has sent, but moves `head` only behind the loop.
When a write fails, the function returns from the middle of the loop and `head` stays where it was.
So the list is intact after a failure, and can be sent again by the next attempt, exactly if no node
has been freed yet: the write that fails is the first one (`send_failure_iff`).
-/

open Transition

namespace DetectionSystem

namespace BufferList

variable {P : Type} {s t : State P} {p : Option ℕ} {nodes : List ℕ} {a q : ℕ}

/-! ## Lists in memory -/

/-- From the pointer `p`, memory holds a list of the filled nodes `nodes` and of the empty node `q`
behind them. None of them has been freed. -/
structure ListFrom (s : State P) (p : Option ℕ) (nodes : List ℕ) (q : ℕ) : Prop where
  seg : ListSeg.Seg s.next p nodes q
  last : s.next q = none
  nodup : (nodes ++ [q]).Nodup
  alloc : ∀ a ∈ nodes ++ [q], s.alloc a = true

/-- A freed node starts no list. -/
theorem not_listFrom_of_freed (h : s.alloc a = false) : ¬ ListFrom s (some a) nodes q := by
  intro hlist
  cases nodes with
  | nil =>
    cases Option.some.inj (ListSeg.seg_nil.1 hlist.seg)
    exact absurd (hlist.alloc a List.mem_cons_self) (by simp [h])
  | cons b nodes =>
    cases Option.some.inj (ListSeg.seg_cons.1 hlist.seg).1
    exact absurd (hlist.alloc a List.mem_cons_self) (by simp [h])

/-! ## The loop -/

/-- The statements of one round: write, read the next pointer, free. -/
def sendNode : List (Action P) := [.sender, .sender, .sender]

/-- `t` is `s` after the nodes `done` have been sent and freed. -/
structure After (s t : State P) (done : List ℕ) : Prop where
  data : t.data = s.data
  head : t.head = s.head
  sniff_count : t.sniff_count = s.sniff_count
  sent : t.sent = s.sent ++ done.map s.data
  freed : ∀ a ∈ done, t.alloc a = false
  stays : ∀ a, s.alloc a = false → t.alloc a = false

/-- Nodes that are sent one after the other. -/
theorem After.trans {u : State P} {done done' : List ℕ} (h : After s t done)
    (h' : After t u done') : After s u (done ++ done') where
  data := h'.data.trans h.data
  head := h'.head.trans h.head
  sniff_count := h'.sniff_count.trans h.sniff_count
  sent := by rw [h'.sent, h.sent, h.data, List.map_append, List.append_assoc]
  freed a ha := (List.mem_append.1 ha).elim (fun ha => h'.stays a (h.freed a ha)) (h'.freed a)
  stays a ha := h'.stays a (h.stays a ha)

/-- A round sends the first node of the list and frees it. -/
theorem run_sendNode {i j : ℕ} (hpc : s.sender = .write i j p) (h : ListFrom s p (a :: nodes) q) :
    ∃ t p', run step s sendNode = some t ∧
      t.sender = (if j + 1 < s.sniff_count then .write i (j + 1) p' else .setHead p') ∧
      ListFrom t p' nodes q ∧ After s t [a] := by
  obtain ⟨rfl, hseg⟩ := ListSeg.seg_cons.1 h.seg
  have hnodup := List.nodup_cons.1 h.nodup
  refine ⟨{ s with
    sent := s.sent ++ [s.data a]
    alloc := Function.update s.alloc a false
    sender := if j + 1 < s.sniff_count then .write i (j + 1) (s.next a) else .setHead (s.next a) },
    s.next a, ?_, rfl, ⟨hseg, h.last, hnodup.2, ?_⟩, ⟨rfl, rfl, rfl, rfl, ?_, ?_⟩⟩
  · simp [sendNode, run, step, senderStep, hpc]
  · intro b hb
    have hba : b ≠ a := fun hba => hnodup.1 (hba ▸ hb)
    show Function.update s.alloc a false b = true
    rw [Function.update_of_ne hba]
    exact h.alloc b (List.mem_cons_of_mem a hb)
  · intro b hb
    obtain rfl := List.mem_singleton.1 hb
    exact Function.update_self ..
  · intro b hb
    show Function.update s.alloc a false b = false
    rw [Function.update_apply]
    split
    · rfl
    · exact hb

/-- Rounds that do not reach `sniff_count` send as many nodes, one after another. -/
theorem run_sendNodes {i j k : ℕ} (hpc : s.sender = .write i j p) (h : ListFrom s p nodes q)
    (hlen : k ≤ nodes.length) (hk : j + k < s.sniff_count) :
    ∃ t p', run step s (List.replicate k sendNode).flatten = some t ∧
      t.sender = .write i (j + k) p' ∧ ListFrom t p' (nodes.drop k) q ∧
      After s t (nodes.take k) := by
  induction k generalizing s p nodes j with
  | zero => exact ⟨s, p, rfl, hpc, h, ⟨rfl, rfl, rfl, by simp, by simp, fun _ ha => ha⟩⟩
  | succ k ih =>
    cases nodes with
    | nil => simp at hlen
    | cons a nodes =>
      obtain ⟨u, p', hu, hpcu, hlist, hafter⟩ := run_sendNode hpc h
      rw [if_pos (by omega)] at hpcu
      obtain ⟨t, p'', ht, hpct, hlist', hafter'⟩ := ih hpcu hlist (by simpa using hlen)
        (by rw [hafter.sniff_count]; omega)
      refine ⟨t, p'', ?_, ?_, hlist', hafter.trans hafter'⟩
      · rw [List.replicate_succ, List.flatten_cons]
        exact run_append_eq_some.2 ⟨u, hu, ht⟩
      · rw [hpct, Nat.add_right_comm, Nat.add_assoc]

/-- A call of `send_probe_buffer` that succeeds. -/
def sendAll (n : ℕ) : List (Action P) := .sender :: (List.replicate n sendNode).flatten

/-- A call whose write `k + 1` fails. -/
def failAfter (k : ℕ) : List (Action P) :=
  .sender :: ((List.replicate k sendNode).flatten ++ [.senderFail])

/-- A call that succeeds writes the first `sniff_count` packets of the list, each once. -/
theorem run_sendAll {i : ℕ} (hpc : s.sender = .probe i) (h : ListFrom s s.head nodes q)
    (hpos : 0 < s.sniff_count) (hlen : s.sniff_count ≤ nodes.length) :
    ∃ t, run step s (sendAll s.sniff_count) = some t ∧
      t.sent = s.sent ++ (nodes.map s.data).take s.sniff_count := by
  obtain ⟨n, hn⟩ : ∃ n, s.sniff_count = n + 1 := ⟨s.sniff_count - 1, by omega⟩
  obtain ⟨u, hu⟩ : ∃ u : State P, u = { s with sender := .write i 0 s.head } := ⟨_, rfl⟩
  have hprobe : step s .sender = some u := by
    simp [step, senderStep, hpc, hu, hpos.ne']
  have hlist : ListFrom u s.head nodes q := hu ▸ ⟨h.seg, h.last, h.nodup, h.alloc⟩
  obtain ⟨v, p', hv, hpcv, hlistv, hafter⟩ := run_sendNodes (i := i) (j := 0) (k := n)
    (by rw [hu]) hlist (by omega) (by rw [hu]; simp only; omega)
  have hdrop : nodes.drop n = nodes[n] :: nodes.drop (n + 1) :=
    List.drop_eq_getElem_cons (by omega)
  rw [hdrop] at hlistv
  obtain ⟨t, p'', ht, -, -, hafter'⟩ := run_sendNode hpcv hlistv
  refine ⟨t, ?_, ?_⟩
  · rw [hn, sendAll, List.replicate_succ']
    rw [List.flatten_append]
    exact run_cons_eq_some.2 ⟨u, hprobe, run_append_eq_some.2 ⟨v, hv, by simpa using ht⟩⟩
  · rw [(hafter.trans hafter').sent, hn, List.take_append_getElem, hu, List.map_take]

/-! ## Failures -/

/-- `head` begins a list of exactly these packets. -/
def Holds (s : State P) (packets : List P) : Prop :=
  ∃ nodes q, ListFrom s s.head nodes q ∧ nodes.map s.data = packets

/-- Whenever `send_probe_buffer` is called next, for however many of these packets, it writes them
in order, each once. -/
def SendsOnce (s : State P) (packets : List P) : Prop :=
  ∀ i n, 0 < n → n ≤ packets.length →
    ∃ t, run step { s with sniff_count := n, sender := .probe i } (sendAll n) = some t ∧
      t.sent = s.sent ++ packets.take n

/-- From a list that holds packets, the first ones are sent in order, each once. -/
theorem Holds.sendsOnce {packets : List P} (h : Holds s packets) : SendsOnce s packets := by
  obtain ⟨nodes, q, hlist, rfl⟩ := h
  intro i n hpos hlen
  rw [List.length_map] at hlen
  exact run_sendAll (s := { s with sniff_count := n, sender := .probe i }) rfl
    ⟨hlist.seg, hlist.last, hlist.nodup, hlist.alloc⟩ hpos hlen

/-- **A failure in the loop.** From every list, when write `k + 1` fails, the packets that have not
been written can be sent exactly once if and only if nothing had been written. -/
theorem send_failure_iff (s : State P) (i k : ℕ) (nodes : List ℕ) (q : ℕ)
    (hpc : s.sender = .probe i) (hlist : ListFrom s s.head nodes q)
    (hlen : s.sniff_count ≤ nodes.length) (hk : k < s.sniff_count) :
    ∃ t, run step s (failAfter k) = some t ∧ t.sender = nextAttempt i ∧
      t.sent = s.sent ++ (nodes.map s.data).take k ∧
      ((Holds t ((nodes.map s.data).drop k) ∧ SendsOnce t ((nodes.map s.data).drop k)) ↔
        k = 0) := by
  obtain ⟨u, hu⟩ : ∃ u : State P, u = { s with sender := .write i 0 s.head } := ⟨_, rfl⟩
  have hprobe : step s .sender = some u := by
    have : s.sniff_count ≠ 0 := by omega
    simp [step, senderStep, hpc, hu, this]
  have hlistu : ListFrom u s.head nodes q := hu ▸ ⟨hlist.seg, hlist.last, hlist.nodup, hlist.alloc⟩
  obtain ⟨v, p', hv, hpcv, hlistv, hafter⟩ := run_sendNodes (i := i) (j := 0) (k := k)
    (by rw [hu]) hlistu (by omega) (by rw [hu]; simp only; omega)
  refine ⟨{ v with sender := nextAttempt i }, ?_, rfl, ?_, ?_, ?_⟩
  · refine run_cons_eq_some.2 ⟨u, hprobe, run_append_eq_some.2 ⟨v, hv, ?_⟩⟩
    simp [run, step, senderFail, hpcv]
  · show v.sent = _
    rw [hafter.sent, hu, List.map_take]
  · intro hholds
    obtain ⟨⟨nodes', q', hlist', -⟩, -⟩ := hholds
    by_contra hne
    -- `head` still points to the first node, which has been freed
    cases nodes with
    | nil => simp at hlen; omega
    | cons a nodes =>
      have hhead : v.head = some a := by
        rw [hafter.head, hu]
        exact (ListSeg.seg_cons.1 hlist.seg).1
      have hfreed : v.alloc a = false := by
        refine hafter.freed a ?_
        obtain ⟨k', rfl⟩ := Nat.exists_eq_succ_of_ne_zero hne
        exact List.mem_cons_self
      have hlist'' : ListFrom { v with sender := nextAttempt i } (some a) nodes' q' :=
        hhead ▸ hlist'
      exact not_listFrom_of_freed (s := { v with sender := nextAttempt i }) hfreed hlist''
  · rintro rfl
    obtain rfl : u = v := Option.some.inj hv
    have hholds : Holds { u with sender := nextAttempt i } ((nodes.map s.data).drop 0) := by
      rw [hu]
      exact ⟨nodes, q, ⟨hlist.seg, hlist.last, hlist.nodup, hlist.alloc⟩, rfl⟩
    exact ⟨hholds, hholds.sendsOnce⟩

/-- Two filled nodes, about to be sent in the first attempt. -/
def twoPackets : State ℕ where
  data a := a
  next a := if a < 2 then some (a + 1) else none
  alloc a := a < 3
  head := some 0
  curr := 2
  count := 0
  sniff_count := 2
  handler := .idle
  sender := .probe 0
  linked := [0, 1]
  sent := []

/-- The list of two packets. -/
theorem listFrom_twoPackets : ListFrom twoPackets twoPackets.head [0, 1] 2 where
  seg := ⟨rfl, rfl, rfl⟩
  last := rfl
  nodup := by decide
  alloc := by decide

/-- The first write fails. -/
theorem send_failure_iff_firstWrite :
    ∃ t, run step twoPackets (failAfter 0) = some t ∧ t.sender = nextAttempt 0 ∧
      t.sent = twoPackets.sent ++ ([0, 1].map twoPackets.data).take 0 ∧
      ((Holds t (([0, 1].map twoPackets.data).drop 0) ∧
        SendsOnce t (([0, 1].map twoPackets.data).drop 0)) ↔ 0 = 0) :=
  send_failure_iff twoPackets 0 0 [0, 1] 2 rfl listFrom_twoPackets (by decide) (by decide)

/-- The second write fails: `head` still points to the first node, which has been freed. -/
theorem not_holds_after_failure :
    ¬ ∀ (s : State ℕ) (i k : ℕ) (nodes : List ℕ) (q : ℕ), s.sender = .probe i →
        ListFrom s s.head nodes q → s.sniff_count ≤ nodes.length → k < s.sniff_count →
        ∃ t, run step s (failAfter k) = some t ∧
          Holds t ((nodes.map s.data).drop k) ∧ SendsOnce t ((nodes.map s.data).drop k) := by
  intro hclaim
  obtain ⟨t, ht, ⟨nodes, q, hlist, -⟩, -⟩ :=
    hclaim twoPackets 0 1 [0, 1] 2 rfl listFrom_twoPackets (by decide) (by decide)
  obtain rfl := Option.some.inj ht
  exact not_listFrom_of_freed (a := 0) rfl hlist

end BufferList

end DetectionSystem
