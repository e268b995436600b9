import DetectionSystem.Server.Receive

/-!
# The attempts of a connection

The thread of `Service` may read from its connection more than once: the loop of `TCPS_service` goes
round again when the acknowledgement cannot be sent and when an exception is thrown. `trace` lists
the states in which it does so, and `visits` the receivers it finds. Two things come of it.

`update_time` shifts the two times of a receiver as soon as its address is read, so the base time of
a batch is that of the attempt before it, and that of the delivery before it only if no attempt was
broken in between, at another time (`based_iff`).

An unknown address is answered by reading the next six bytes as an address, wherever in the stream
they stand. `attempt_upload` says what an attempt makes of the bytes it finds, and `attributed_iff`
when everything that is stored belongs to the first six bytes.
-/

open Transition

namespace DetectionSystem

namespace Service

variable {w : World} {fuel attempts : ℕ} {s t : State}

/-! ## One attempt -/

/-- An attempt that finds no receiver changes neither the list nor what is stored. -/
structure Unchanged (s t : State) : Prop where
  esp_list : t.esp_list = s.esp_list
  resolved : t.resolved = s.resolved
  stored : t.stored = s.stored
  notified : t.notified = s.notified
  readings : t.readings = s.readings

/-- The time from which the offsets of a batch of the receiver count. -/
def State.base (s : State) (esp_id : ℕ) : ℕ := (s.esp_list[esp_id]?.map (·.last_update)).getD 0

/-- Nothing is stored, or a batch of the receiver, with the base time. -/
def Batch (esp_id base : ℕ) (s t : State) : Prop :=
  t.stored = s.stored ∧ t.notified = s.notified ∨
    (∃ packets : List ProbePacket,
      t.stored = s.stored ++ packets.map fun packet => ⟨esp_id, base, packet⟩) ∧
      t.notified = s.notified + 1

/-- An attempt that finds a receiver takes its time. It may store a batch, with the time that was
taken before. -/
structure Visited (w : World) (s t : State) (esp_id : ℕ) : Prop where
  found : esp_id < s.esp_list.length
  esp_list : t.esp_list = s.esp_list.modify esp_id (·.update_time (w.time s.readings))
  resolved : t.resolved = s.resolved ++ [esp_id]
  readings : t.readings = s.readings + 1
  batch : Batch esp_id (s.base esp_id) s t

/-- What follows the MAC address changes only what is stored, with the previous time of the
receiver. -/
structure Kept (esp_id : ℕ) (s t : State) : Prop where
  esp_list : t.esp_list = s.esp_list
  resolved : t.resolved = s.resolved
  readings : t.readings = s.readings
  batch : Batch esp_id ((s.esp_list[esp_id]?.map (·.previous_update)).getD 0) s t

/-- Storing a batch changes only what is stored. -/
theorem deliver_effect (w : World) (s : State) (count esp_id : ℕ) (recvbuf : List UInt8)
    (result : ℤ) {t : State} (ht : (deliver w s count esp_id recvbuf result).state = t) :
    Kept esp_id s t := by
  unfold deliver at ht
  split_ifs at ht
  · have hstored : ∃ packets : List ProbePacket,
        (storePackets s count esp_id recvbuf).stored = s.stored ++ packets.map fun packet =>
          ⟨esp_id, (s.esp_list[esp_id]?.map (·.previous_update)).getD 0, packet⟩ := by
      refine ⟨(List.range count).map fun i => .decode (recvbuf.drop (i * PACKET_SIZE)), ?_⟩
      rw [List.map_map]
      rfl
    dsimp only at ht
    split at ht <;> subst ht <;> exact ⟨rfl, rfl, rfl, .inr ⟨hstored, rfl⟩⟩
  all_goals subst ht; exact ⟨rfl, rfl, rfl, .inl ⟨rfl, rfl⟩⟩

/-- So does receiving it. -/
theorem receivePackets_effect (w : World) (fuel : ℕ) (s : State) (esp_id : ℕ) (result : ℤ)
    {t : State} (ht : (receivePackets w fuel s esp_id result).state = t) : Kept esp_id s t := by
  unfold receivePackets at ht
  split at ht
  · subst ht
    exact ⟨rfl, rfl, rfl, .inl ⟨rfl, rfl⟩⟩
  · dsimp only at ht
    split at ht
    · subst ht
      exact ⟨rfl, rfl, rfl, .inl ⟨rfl, rfl⟩⟩
    · have hkept := deliver_effect _ _ _ _ _ _ ht
      exact ⟨hkept.esp_list, hkept.resolved, hkept.readings, hkept.batch⟩

/-- **One attempt.** It finds no receiver, or takes the time of one. -/
theorem attempt_effect (w : World) (fuel : ℕ) (s : State) :
    Unchanged s (attempt w fuel s).state ∨
      ∃ esp_id, Visited w s (attempt w fuel s).state esp_id := by
  generalize ht : (attempt w fuel s).state = t
  unfold attempt at ht
  split at ht
  · subst ht
    exact .inl ⟨rfl, rfl, rfl, rfl, rfl⟩
  · dsimp only at ht
    split at ht
    · subst ht
      exact .inl ⟨rfl, rfl, rfl, rfl, rfl⟩
    · split at ht
      · subst ht
        exact .inl ⟨rfl, rfl, rfl, rfl, rfl⟩
      · next esp_id hid =>
        obtain ⟨hlt, -⟩ := List.findIdx?_eq_some_iff_getElem.1 hid
        rw [List.length_take] at hlt
        have hfound : esp_id < s.esp_list.length := (lt_min_iff.1 hlt).2
        obtain ⟨hlist, hresolved, hreadings, hbatch⟩ := receivePackets_effect _ _ _ _ _ ht
        have hbase : ((s.esp_list.modify esp_id (·.update_time (w.time s.readings)))[esp_id]?.map
            (·.previous_update)).getD 0 = s.base esp_id := by
          rw [List.getElem?_modify_eq, Option.map_eq_map, Option.map_map, State.base]
          rfl
        exact .inr ⟨esp_id, hfound, hlist, hresolved, hreadings, hbase ▸ hbatch⟩

/-! ## The attempts of a session -/

/-- What an attempt has found: a receiver, the time that was taken for it, whether its batch was
complete, and what was stored of it. -/
structure Visit where
  esp_id : ℕ
  time : ℕ
  complete : Bool
  stored : List Stored
deriving DecidableEq

/-- What an attempt from `s` to `t` has found. -/
def visit (w : World) (s t : State) : Option Visit :=
  t.resolved[s.resolved.length]?.map fun esp_id =>
    ⟨esp_id, w.time s.readings, s.notified < t.notified, t.stored.drop s.stored.length⟩

/-- What the attempts of `TCPS_service` find. -/
def visits (w : World) (fuel : ℕ) : ℕ → State → List Visit
  | 0, _ => []
  | attempts + 1, s =>
    if s.retry_child = 0 then []
    else
      (visit w s (attempt w fuel s).state).toList ++
        match attempt w fuel s with
        | .finished _ => []
        | .again t => visits w fuel attempts t
        | .threw t => visits w fuel attempts { t with retry_child := t.retry_child - 1 }
        | .stuck _ => []

/-- A connection and what its thread meets with. -/
structure Connection where
  w : World
  sock : Socket
  c : UInt8
  fuel : ℕ
  attempts : ℕ

/-- The thread of a connection, with the list of receivers as it finds it. -/
def Connection.serve (k : Connection) (esp_list : List ESP32) : State :=
  TCPS_service k.w k.fuel k.attempts (start esp_list k.sock k.c)

/-- What is found in a sequence of connections. -/
def session : List ESP32 → List Connection → List Visit
  | _, [] => []
  | esp_list, k :: ks =>
    visits k.w k.fuel k.attempts (start esp_list k.sock k.c) ++
      session (k.serve esp_list).esp_list ks

/-- The last step of `TCPS_ready_channel`: each receiver takes the time of its READY answer. -/
def answerReady (esp_list : List ESP32) (answered : ℕ → ℕ) : List ESP32 :=
  esp_list.mapIdx fun i e => e.update_time (answered i)

/-- The time of the last visit of the receiver that is as `P` says, or of its READY answer. -/
def lastVisit (P : Visit → Bool) (esp_id ready : ℕ) (vs : List Visit) : ℕ :=
  vs.foldl (fun time v => if v.esp_id = esp_id ∧ P v then v.time else time) ready

/-- The time of its last visit, broken or not. -/
def lastTime : ℕ → ℕ → List Visit → ℕ := lastVisit fun _ => true

/-- The time of its last complete batch. -/
def lastDelivery : ℕ → ℕ → List Visit → ℕ := lastVisit (·.complete)

/-- Every packet that is stored counts from the last complete batch of its receiver. -/
def Based (answered : ℕ → ℕ) (vs : List Visit) : Prop :=
  ∀ pre v post, vs = pre ++ v :: post → ∀ st ∈ v.stored,
    st.esp_id = v.esp_id ∧ st.last_update = lastDelivery v.esp_id (answered v.esp_id) pre

/-- Whenever a batch is stored, the visit before it was at the time of the last complete batch. -/
def Undisturbed (answered : ℕ → ℕ) (vs : List Visit) : Prop :=
  ∀ pre v post, vs = pre ++ v :: post → v.stored ≠ [] →
    lastTime v.esp_id (answered v.esp_id) pre = lastDelivery v.esp_id (answered v.esp_id) pre

/-! ## Base times -/

/-- The list of receivers through a sequence of visits: each takes the time of its visit, and what
is stored of it has the time it had before. -/
inductive Evolves : List ESP32 → List Visit → List ESP32 → Prop
  | nil (esp_list : List ESP32) : Evolves esp_list [] esp_list
  | cons {esp_list esp_list' : List ESP32} {v : Visit} {vs : List Visit}
      (base : ∀ st ∈ v.stored, st.esp_id = v.esp_id ∧
        esp_list[v.esp_id]?.map (·.last_update) = some st.last_update)
      (rest : Evolves (esp_list.modify v.esp_id (·.update_time v.time)) vs esp_list') :
      Evolves esp_list (v :: vs) esp_list'

/-- Visits one after the other. -/
theorem Evolves.append {l l' l'' : List ESP32} {vs vs' : List Visit} (h : Evolves l vs l')
    (h' : Evolves l' vs' l'') : Evolves l (vs ++ vs') l'' := by
  induction h with
  | nil => exact h'
  | cons base _ ih => exact .cons base (ih h')

/-- A visit finds the list that the ones before it have left. -/
theorem Evolves.split {l l' : List ESP32} {pre post : List Visit} {v : Visit}
    (h : Evolves l (pre ++ v :: post) l') :
    ∃ l₁, Evolves l pre l₁ ∧ ∀ st ∈ v.stored, st.esp_id = v.esp_id ∧
      l₁[v.esp_id]?.map (·.last_update) = some st.last_update := by
  induction pre generalizing l with
  | nil =>
    cases h with
    | cons base _ => exact ⟨l, .nil l, base⟩
  | cons u pre ih =>
    cases h with
    | cons base rest =>
      obtain ⟨l₁, hpre, hv⟩ := ih rest
      exact ⟨l₁, .cons base hpre, hv⟩

/-- The list holds the time of the last visit of each receiver. -/
theorem Evolves.last_update {l l' : List ESP32} {vs : List Visit} (h : Evolves l vs l') (i : ℕ) :
    l'[i]?.map (·.last_update) = l[i]?.map fun e => lastTime i e.last_update vs := by
  induction h with
  | nil => rfl
  | @cons l l' v vs base rest ih =>
    rw [ih, List.getElem?_modify]
    cases l[i]? with
    | none => rfl
    | some e => by_cases hi : v.esp_id = i <;> simp [lastTime, lastVisit, hi, ESP32.update_time]

/-- One attempt makes one visit or none. -/
theorem evolves_attempt (w : World) (fuel : ℕ) (s : State) :
    Evolves s.esp_list (visit w s (attempt w fuel s).state).toList
      (attempt w fuel s).state.esp_list := by
  rcases attempt_effect w fuel s with h | ⟨esp_id, h⟩
  · have hnone : visit w s (attempt w fuel s).state = none := by
      rw [visit, h.resolved, List.getElem?_eq_none le_rfl]
      rfl
    rw [hnone, h.esp_list]
    exact .nil _
  · have hsome : visit w s (attempt w fuel s).state = some ⟨esp_id, w.time s.readings,
        s.notified < (attempt w fuel s).state.notified,
        (attempt w fuel s).state.stored.drop s.stored.length⟩ := by
      rw [visit, h.resolved, List.getElem?_concat_length]
      rfl
    rw [hsome, h.esp_list]
    refine .cons (fun st hst => ?_) (.nil _)
    rcases h.batch with ⟨hstored, -⟩ | ⟨⟨packets, hstored⟩, -⟩
    · simp [hstored] at hst
    · dsimp only at hst ⊢
      rw [hstored, List.drop_left] at hst
      obtain ⟨packet, -, rfl⟩ := List.mem_map.1 hst
      refine ⟨rfl, ?_⟩
      simp [State.base, List.getElem?_eq_getElem h.found]

/-- So do the attempts of a thread, -/
theorem evolves_visits (w : World) (fuel attempts : ℕ) (s : State) :
    Evolves s.esp_list (visits w fuel attempts s) (TCPS_service w fuel attempts s).esp_list := by
  induction attempts generalizing s with
  | zero => exact .nil _
  | succ attempts ih =>
    rw [visits, TCPS_service]
    split
    · exact .nil _
    · have hone := evolves_attempt w fuel s
      refine hone.append ?_
      generalize attempt w fuel s = outcome
      cases outcome with
      | finished t | stuck t => exact .nil _
      | again t => exact ih t
      | threw t => exact ih { t with retry_child := t.retry_child - 1 }

/-- and the connections of a session. -/
theorem evolves_session (esp_list : List ESP32) (ks : List Connection) :
    ∃ esp_list', Evolves esp_list (session esp_list ks) esp_list' := by
  induction ks generalizing esp_list with
  | nil => exact ⟨esp_list, .nil _⟩
  | cons k ks ih =>
    obtain ⟨esp_list', h⟩ := ih (k.serve esp_list).esp_list
    exact ⟨esp_list', (evolves_visits k.w k.fuel k.attempts (start esp_list k.sock k.c)).append h⟩

/-- **Base times.** The packets of every batch count from the time of the last complete batch of the
receiver, or from its READY answer, if and only if no broken attempt in between has shifted it. -/
theorem based_iff (esp_list : List ESP32) (answered : ℕ → ℕ) (ks : List Connection) :
    Based answered (session (answerReady esp_list answered) ks) ↔
      Undisturbed answered (session (answerReady esp_list answered) ks) := by
  obtain ⟨esp_list', hevolves⟩ := evolves_session (answerReady esp_list answered) ks
  have hbase : ∀ pre v post, session (answerReady esp_list answered) ks = pre ++ v :: post →
      ∀ st ∈ v.stored, st.esp_id = v.esp_id ∧
        st.last_update = lastTime v.esp_id (answered v.esp_id) pre := by
    intro pre v post hsplit st hst
    rw [hsplit] at hevolves
    obtain ⟨l₁, hpre, hv⟩ := hevolves.split
    obtain ⟨hid, hlast⟩ := hv st hst
    rw [hpre.last_update, answerReady, List.getElem?_mapIdx, Option.map_map] at hlast
    obtain ⟨e, -, he⟩ := Option.map_eq_some_iff.1 hlast
    exact ⟨hid, he.symm⟩
  constructor
  · intro h pre v post hsplit hne
    obtain ⟨st, hst⟩ := List.exists_mem_of_ne_nil _ hne
    exact (hbase pre v post hsplit st hst).2.symm.trans (h pre v post hsplit st hst).2
  · intro h pre v post hsplit st hst
    obtain ⟨hid, hlast⟩ := hbase pre v post hsplit st hst
    exact ⟨hid, hlast.trans (h pre v post hsplit (List.ne_nil_of_mem hst))⟩

/-- Without a broken attempt the base times are right. -/
theorem undisturbed_of_complete {answered : ℕ → ℕ} {vs : List Visit}
    (h : ∀ v ∈ vs, v.complete = true) : Undisturbed answered vs := by
  intro pre v post hsplit _
  have hlast : ∀ (pre : List Visit) (ready : ℕ), (∀ u ∈ pre, u.complete = true) →
      lastTime v.esp_id ready pre = lastDelivery v.esp_id ready pre := by
    intro pre
    induction pre with
    | nil => exact fun _ _ => rfl
    | cons u pre ih =>
      intro ready hpre
      have hu := hpre u (List.mem_cons_self ..)
      simpa [lastTime, lastDelivery, lastVisit, hu] using
        ih (if u.esp_id = v.esp_id then u.time else ready) fun x hx =>
          hpre x (List.mem_cons_of_mem u hx)
  exact hlast pre _ fun u hu => h u (hsplit ▸ List.mem_append_left _ hu)

/-- A connection that brings its bytes at once, and then nothing. -/
def atOnce (bytes : List UInt8) (hne : bytes ≠ []) : Socket := ⟨[⟨bytes, hne⟩], .silent⟩

/-- A receiver that was answered READY at 40 breaks off an upload at 50 and repeats it at 60: its
packets are dated ten seconds late. -/
theorem based_on_broken_attempt :
    ¬ ∀ (esp_list : List ESP32) (answered : ℕ → ℕ) (ks : List Connection),
      Based answered (session (answerReady esp_list answered) ks) := by
  intro hclaim
  have hvisits : session (answerReady [⟨0, Participation.firstMac, 1, 1, 3011, 0, 0⟩] fun _ => 40)
      [⟨⟨1, fun _ => 50, fun _ => .sent⟩, atOnce Participation.firstMac.1 (by decide), 0, 10, 1⟩,
        ⟨⟨1, fun _ => 60, fun _ => .sent⟩, atOnce (tcp_client_timer_version Participation.firstMac 1
          [⟨samplePacket, 0⟩]) (by decide), 0, 10, 1⟩] =
      [⟨0, 50, false, []⟩] ++ ⟨0, 60, true, [⟨0, 50, samplePacket⟩]⟩ :: [] := by decide +kernel
  have hbased := hclaim _ _ _ _ _ _ hvisits _ (List.mem_cons_self ..)
  exact absurd hbased.2 (by decide)

/-! ## What an attempt makes of its bytes -/

/-- A loop that lacks bytes never ends. -/
theorem recvLoop_short {size : ℕ} {sock : Socket} (fuel : ℕ) (buf : List UInt8) (result i : ℤ)
    (h : i + sock.bytes.length < size) : recvLoop fuel size i buf result sock = none := by
  induction fuel generalizing sock buf result i with
  | zero => rfl
  | succ fuel ih =>
    rcases eq_or_ne sock.bytes [] with hnil | hne
    · rw [hnil, List.length_nil, Nat.cast_zero, add_zero] at h
      exact recvLoop_stuck (Socket.chunks_eq_nil hnil) _ _ _ _ h
    · have hi : i < size := by omega
      obtain ⟨got, rest, hrecv, -, -, hbytes⟩ :=
        recv_eq sock (show 0 < ((size : ℤ) - i).toNat by omega) hne
      rw [recvLoop, if_pos hi, hrecv]
      refine ih _ _ _ ?_
      rw [hbytes, List.length_append, Nat.cast_add] at h
      omega

/-- A `recv` takes bytes from the socket and leaves its ending. -/
theorem recv_rest {sock sock' : Socket} {len : ℕ} {result : ℤ} {bytes : List UInt8}
    (h : sock.recv len = some (result, bytes, sock')) :
    sock'.bytes.length ≤ sock.bytes.length ∧ sock'.ending = sock.ending := by
  obtain ⟨chunks, ending⟩ := sock
  cases chunks with
  | nil =>
    cases ending with
    | silent => cases h
    | closed | reset | failed =>
      cases h
      exact ⟨le_rfl, rfl⟩
  | cons chunk chunks =>
    simp only [Socket.recv] at h
    split_ifs at h
    · cases h
      exact ⟨by simp [Socket.bytes], rfl⟩
    · cases h
      exact ⟨by simp [Socket.bytes], rfl⟩

/-- So does a loop. -/
theorem recvLoop_rest {fuel size : ℕ} {i result result' : ℤ} {buf buf' : List UInt8}
    {sock sock' : Socket} (h : recvLoop fuel size i buf result sock = some (buf', result', sock')) :
    sock'.bytes.length ≤ sock.bytes.length ∧ sock'.ending = sock.ending := by
  induction fuel generalizing sock buf result i with
  | zero => cases h
  | succ fuel ih =>
    rw [recvLoop] at h
    split at h
    · split at h
      · cases h
      · next hrecv =>
        obtain ⟨hle, hend⟩ := ih h
        obtain ⟨hle', hend'⟩ := recv_rest hrecv
        exact ⟨hle.trans hle', hend.trans hend'⟩
    · cases h
      exact ⟨le_rfl, rfl⟩

/-- The number of packets of an upload of which the bytes behind the address are given, if it is
complete. If there are none, the count is left from the attempt before. -/
def completeCount (ending : Ending) (c : UInt8) : List UInt8 → Option ℕ
  | c :: payload =>
    if (c - '0'.toUInt8).toNat * PACKET_SIZE ≤ payload.length then some (c - '0'.toUInt8).toNat
    else none
  | [] => if ending ≠ .silent ∧ c = '0'.toUInt8 then some 0 else none

/-- The receiver and the number of packets of the complete upload that an attempt begins with. -/
def upload (w : World) (s : State) : Option (ℕ × ℕ) :=
  if 6 ≤ s.sock.bytes.length then
    (get_esp_instance w.esp_number s.esp_list (s.sock.bytes.take 6)).bind fun esp_id =>
      (completeCount s.sock.ending s.c (s.sock.bytes.drop 6)).map fun count => (esp_id, count)
  else none

/-- An attempt stores the packets of a complete upload and notifies it, and nothing else. -/
def Yields (s t : State) : Option (ℕ × ℕ) → Prop
  | some (esp_id, count) =>
    t.stored.map (·.esp_id) = s.stored.map (·.esp_id) ++ List.replicate count esp_id ∧
      t.notified = s.notified + 1
  | none => t.stored = s.stored ∧ t.notified = s.notified

/-- What an attempt yields depends on what was stored and notified before. -/
theorem Yields.congr {s s' t : State} {found : Option (ℕ × ℕ)} (h : Yields s' t found)
    (hstored : s'.stored = s.stored) (hnotified : s'.notified = s.notified) : Yields s t found := by
  cases found with
  | none => exact ⟨h.1.trans hstored, h.2.trans hnotified⟩
  | some found => exact ⟨hstored ▸ h.1, hnotified ▸ h.2⟩

/-- A batch that has been received is stored whole. -/
theorem deliver_yields (w : World) (s : State) (count esp_id : ℕ) (recvbuf : List UInt8)
    {result : ℤ} (hresult : 0 < result) :
    Yields s (deliver w s count esp_id recvbuf result).state (some (esp_id, count)) := by
  have hstored : (storePackets s count esp_id recvbuf).stored.map (·.esp_id) =
      s.stored.map (·.esp_id) ++ List.replicate count esp_id := by
    simp only [storePackets, List.map_append, List.map_map]
    congr 1
    exact List.eq_replicate_iff.2 ⟨by simp, by simp⟩
  rw [deliver, if_pos hresult]
  dsimp only
  cases w.ack ((storePackets s count esp_id recvbuf).sends + 1 - 1) <;> exact ⟨hstored, rfl⟩

/-- Where nothing follows the address, the count is the one of the attempt before: a batch is empty,
or the attempt gets stuck. -/
theorem receivePackets_yields_nil (w : World) {fuel : ℕ} {s : State} (esp_id : ℕ) {result : ℤ}
    (hbytes : s.sock.bytes = []) (hfuel : 0 < fuel) (hresult : 0 < result) :
    Yields s (receivePackets w fuel s esp_id result).state
      ((completeCount s.sock.ending s.c []).map fun count => (esp_id, count)) := by
  have hchunks := Socket.chunks_eq_nil hbytes
  by_cases hsilent : s.sock.ending = .silent
  case pos =>
    have hrecv : s.sock.recv 1 = none := by simp [Socket.recv, hchunks, hsilent]
    have hnone : completeCount s.sock.ending s.c [] = none := if_neg fun h => h.1 hsilent
    rw [hnone, receivePackets, hrecv]
    exact ⟨rfl, rfl⟩
  case neg =>
    obtain ⟨res, hrecv⟩ : ∃ res, s.sock.recv 1 = some (res, [], s.sock) := by
      cases hend : s.sock.ending with
      | silent => exact absurd hend hsilent
      | closed => exact ⟨0, by simp only [Socket.recv, hchunks, hend]⟩
      | reset | failed => exact ⟨-1, by simp only [Socket.recv, hchunks, hend]⟩
    rw [receivePackets, hrecv]
    dsimp only [List.headD_nil]
    by_cases hc : s.c = '0'.toUInt8
    · have hsome : completeCount s.sock.ending s.c [] = some 0 := if_pos ⟨hsilent, hc⟩
      have hcount : (s.c - '0'.toUInt8).toNat = 0 := (Receive.count_eq_zero s.c).2 hc
      have hloop : recvLoop fuel (0 * PACKET_SIZE) 0 [] result s.sock =
          some ([], result, s.sock) := by
        obtain ⟨fuel, rfl⟩ := Nat.exists_eq_succ_of_ne_zero hfuel.ne'
        rw [Nat.zero_mul]
        rfl
      rw [hsome, hcount, hloop]
      exact deliver_yields w s 0 esp_id [] hresult
    · have hnone : completeCount s.sock.ending s.c [] = none := if_neg fun h => hc h.2
      have hpos : 0 < (s.c - '0'.toUInt8).toNat :=
        Nat.pos_of_ne_zero fun h => hc ((Receive.count_eq_zero s.c).1 h)
      have hshort : (0 : ℤ) + s.sock.bytes.length <
          ((s.c - '0'.toUInt8).toNat * PACKET_SIZE : ℕ) := by
        rw [hbytes]
        exact_mod_cast Nat.mul_pos hpos (show 0 < PACKET_SIZE by decide)
      rw [hnone, recvLoop_short _ _ _ _ hshort]
      exact ⟨rfl, rfl⟩

/-- A count that is received is followed by its packets, or the attempt gets stuck. -/
theorem receivePackets_yields_cons (w : World) {fuel : ℕ} {s : State} (esp_id : ℕ) {result : ℤ}
    {c : UInt8} {payload : List UInt8} (hbytes : s.sock.bytes = c :: payload)
    (hfuel : s.sock.bytes.length < fuel) (hresult : 0 < result) :
    Yields s (receivePackets w fuel s esp_id result).state
      ((completeCount s.sock.ending s.c (c :: payload)).map fun count => (esp_id, count)) := by
  obtain ⟨got, rest, hrecv, hne, hle, hsplit⟩ := recv_eq s.sock Nat.one_pos
    (by rw [hbytes]; exact List.cons_ne_nil _ _)
  obtain ⟨b, rfl⟩ : ∃ b, got = [b] := List.length_eq_one_iff.1 (by
    have := List.length_pos_iff.2 hne
    omega)
  rw [hbytes, List.singleton_append, List.cons.injEq] at hsplit
  obtain ⟨rfl, hrest⟩ := hsplit
  rw [receivePackets, hrecv]
  dsimp only [List.headD_cons]
  by_cases hlen : (c - '0'.toUInt8).toNat * PACKET_SIZE ≤ payload.length
  · have hsome : completeCount s.sock.ending s.c (c :: payload) =
        some (c - '0'.toUInt8).toNat := if_pos hlen
    have hlt : (c - '0'.toUInt8).toNat * PACKET_SIZE < fuel := by
      rw [hbytes, List.length_cons] at hfuel
      omega
    obtain ⟨result', sock', hloop, -, hpos⟩ := recvLoop_start fuel _ result
      (hrest.symm.trans (List.take_append_drop _ payload).symm)
      (List.length_take_of_le hlen) hlt
    rw [hsome, hloop]
    exact deliver_yields w _ _ esp_id _ (hpos (.inl hresult))
  · have hnone : completeCount s.sock.ending s.c (c :: payload) = none := if_neg hlen
    have hshort : (0 : ℤ) + rest.bytes.length <
        ((c - '0'.toUInt8).toNat * PACKET_SIZE : ℕ) := by
      rw [← hrest]
      omega
    rw [hnone, recvLoop_short _ _ _ _ hshort]
    exact ⟨rfl, rfl⟩

/-- What follows the address is stored if it is complete, and else the attempt gets stuck. -/
theorem receivePackets_yields (w : World) {fuel : ℕ} {s : State} (esp_id : ℕ) {result : ℤ}
    (hfuel : s.sock.bytes.length < fuel) (hresult : 0 < result) :
    Yields s (receivePackets w fuel s esp_id result).state
      ((completeCount s.sock.ending s.c s.sock.bytes).map fun count => (esp_id, count)) := by
  cases hbytes : s.sock.bytes with
  | nil => exact receivePackets_yields_nil w esp_id hbytes (Nat.zero_lt_of_lt hfuel) hresult
  | cons c payload => exact receivePackets_yields_cons w esp_id hbytes hfuel hresult

/-- **The bytes of an attempt.** If the bytes that are to come begin with a complete upload of a
receiver, an attempt stores and notifies it; else it stores nothing. -/
theorem attempt_upload (w : World) {fuel : ℕ} {s : State} (hfuel : s.sock.bytes.length < fuel) :
    Yields s (attempt w fuel s).state (upload w s) := by
  by_cases hlen : 6 ≤ s.sock.bytes.length
  case neg =>
    have hshort : (0 : ℤ) + s.sock.bytes.length < (6 : ℕ) := by omega
    rw [upload, if_neg hlen, attempt, recvLoop_short _ _ _ _ hshort]
    exact ⟨rfl, rfl⟩
  case pos =>
    obtain ⟨result, sock', hloop, hrest, hpos⟩ := recvLoop_start fuel 6 0
      (List.take_append_drop 6 s.sock.bytes).symm (List.length_take_of_le hlen) (by omega)
    have hresult : 0 < result := hpos (.inr (List.ne_nil_of_length_pos (by
      rw [List.length_take_of_le hlen]
      decide)))
    obtain ⟨hle, hend⟩ := recvLoop_rest hloop
    rw [upload, if_pos hlen, attempt, hloop]
    dsimp only
    rw [if_neg (not_lt.2 hresult.le)]
    cases get_esp_instance w.esp_number s.esp_list (s.sock.bytes.take 6) with
    | none => exact ⟨rfl, rfl⟩
    | some esp_id =>
      rw [Option.bind_some, ← hend, ← hrest]
      refine (receivePackets_yields w esp_id ?_ hresult).congr rfl rfl
      exact hle.trans_lt hfuel

/-! ## Whose bytes they are -/

/-- The states in which the attempts of `TCPS_service` begin. -/
def trace (w : World) (fuel : ℕ) : ℕ → State → List State
  | 0, _ => []
  | attempts + 1, s =>
    if s.retry_child = 0 then []
    else
      s :: match attempt w fuel s with
        | .finished _ => []
        | .again t => trace w fuel attempts t
        | .threw t => trace w fuel attempts { t with retry_child := t.retry_child - 1 }
        | .stuck _ => []

/-- Everything that is stored belongs to the receiver with the address, and if there is none,
nothing is stored or notified. -/
structure Attributed (w : World) (esp_list : List ESP32) (mac : List UInt8) (s : State) : Prop where
  stored : ∀ st ∈ s.stored, ∃ e, esp_list[st.esp_id]? = some e ∧ e.mac_address.1 = mac
  unknown : get_esp_instance w.esp_number esp_list mac = none → s.stored = [] ∧ s.notified = 0

/-- An attempt that finds a complete upload finds one of the receiver with the address, or an empty
one, and the address is known. -/
def Unmixed (w : World) (esp_list : List ESP32) (mac : List UInt8) (s : State) : Prop :=
  ∀ esp_id count, upload w s = some (esp_id, count) →
    get_esp_instance w.esp_number esp_list mac = some esp_id ∨
      (get_esp_instance w.esp_number esp_list mac).isSome ∧ count = 0

/-- The indices under which the packets of an attempt are stored. -/
def batch (w : World) (s : State) : List ℕ :=
  match upload w s with
  | some (esp_id, count) => List.replicate count esp_id
  | none => []

/-- Storing a batch reads nothing. -/
theorem deliver_sock (w : World) (s : State) (count esp_id : ℕ) (recvbuf : List UInt8)
    (result : ℤ) : (deliver w s count esp_id recvbuf result).state.sock = s.sock := by
  unfold deliver
  split_ifs
  · dsimp only
    split <;> rfl
  all_goals rfl

/-- Receiving a batch leaves no more bytes than there were. -/
theorem receivePackets_rest (w : World) (fuel : ℕ) (s : State) (esp_id : ℕ) (result : ℤ) :
    (receivePackets w fuel s esp_id result).state.sock.bytes.length ≤ s.sock.bytes.length := by
  unfold receivePackets
  split
  · exact le_rfl
  · next hrecv =>
    dsimp only
    split
    · exact (recv_rest hrecv).1
    · next hloop =>
      rw [deliver_sock]
      exact (recvLoop_rest hloop).1.trans (recv_rest hrecv).1

/-- An attempt takes bytes from its socket. -/
theorem attempt_rest (w : World) (fuel : ℕ) (s : State) :
    (attempt w fuel s).state.sock.bytes.length ≤ s.sock.bytes.length := by
  unfold attempt
  split
  · exact le_rfl
  · next hloop =>
    dsimp only
    split
    · exact (recvLoop_rest hloop).1
    · split
      · exact (recvLoop_rest hloop).1
      · exact (receivePackets_rest ..).trans (recvLoop_rest hloop).1

/-- What `TCPS_service` stores and notifies is what its attempts find. -/
theorem stored_of_trace (w : World) {fuel : ℕ} (attempts : ℕ) {s : State}
    (hfuel : s.sock.bytes.length < fuel) :
    (TCPS_service w fuel attempts s).stored.map (·.esp_id) =
        s.stored.map (·.esp_id) ++ (trace w fuel attempts s).flatMap (batch w) ∧
      (TCPS_service w fuel attempts s).notified =
        s.notified + (trace w fuel attempts s).countP fun s => (upload w s).isSome := by
  induction attempts generalizing s with
  | zero => simp [TCPS_service, trace]
  | succ attempts ih =>
    rw [TCPS_service, trace]
    split
    · simp
    · have hyields := attempt_upload w hfuel
      have hrest := attempt_rest w fuel s
      have hone : (attempt w fuel s).state.stored.map (·.esp_id) =
            s.stored.map (·.esp_id) ++ batch w s ∧ (attempt w fuel s).state.notified =
            s.notified + if (upload w s).isSome then 1 else 0 := by
        unfold batch
        cases hupload : upload w s with
        | none =>
          rw [hupload] at hyields
          exact ⟨by simp [hyields.1], by simp [hyields.2]⟩
        | some found =>
          rw [hupload] at hyields
          exact ⟨hyields.1, by simp [hyields.2]⟩
      rw [List.flatMap_cons, List.countP_cons, ← List.append_assoc, ← hone.1,
        Nat.add_comm (List.countP ..), ← Nat.add_assoc, ← hone.2]
      generalize attempt w fuel s = outcome at hrest ⊢
      cases outcome with
      | finished t | stuck t => simp [Outcome.state]
      | again t => exact ih (hrest.trans_lt hfuel)
      | threw t =>
        exact ih (s := { t with retry_child := t.retry_child - 1 }) (hrest.trans_lt hfuel)

/-- The look-up depends on the addresses only. -/
theorem get_esp_instance_congr {n : ℕ} {l l' : List ESP32}
    (h : l.map (·.mac_address) = l'.map (·.mac_address)) (mac : List UInt8) :
    get_esp_instance n l mac = get_esp_instance n l' mac := by
  have hmap : ∀ l : List ESP32, get_esp_instance n l mac =
      ((l.map (·.mac_address)).take n).findIdx? fun m => m.1 = mac := by
    intro l
    rw [← List.map_take, List.findIdx?_map]
    rfl
  rw [hmap, hmap, h]

/-- The entry that is found has the address. -/
theorem get_esp_instance_entry {n i : ℕ} {l : List ESP32} {mac : List UInt8}
    (h : get_esp_instance n l mac = some i) : ∃ e, l[i]? = some e ∧ e.mac_address.1 = mac := by
  obtain ⟨hlt, hmac, -⟩ := List.findIdx?_eq_some_iff_getElem.1 h
  rw [List.length_take] at hlt
  rw [List.getElem_take, decide_eq_true_eq] at hmac
  exact ⟨_, List.getElem?_eq_getElem (lt_min_iff.1 hlt).2, hmac⟩

/-- Attempts leave the addresses alone. -/
theorem trace_macs {attempts : ℕ} {s t : State} (ht : t ∈ trace w fuel attempts s) :
    t.esp_list.map (·.mac_address) = s.esp_list.map (·.mac_address) := by
  induction attempts generalizing s with
  | zero => cases ht
  | succ attempts ih =>
    have hattempt : (attempt w fuel s).state.esp_list.map (·.mac_address) =
        s.esp_list.map (·.mac_address) := by
      rcases attempt_effect w fuel s with h | ⟨esp_id, h⟩
      · rw [h.esp_list]
      · rw [h.esp_list]
        apply List.ext_getElem?
        intro i
        rw [List.getElem?_map, List.getElem?_map, List.getElem?_modify]
        cases s.esp_list[i]? with
        | none => rfl
        | some e => by_cases hi : esp_id = i <;> simp [hi, ESP32.update_time]
    rw [trace] at ht
    split at ht
    · cases ht
    · rcases List.mem_cons.1 ht with rfl | ht
      · rfl
      · generalize attempt w fuel s = outcome at hattempt ht
        cases outcome with
        | finished u | stuck u => cases ht
        | again u => exact (ih ht).trans hattempt
        | threw u => exact (ih ht).trans hattempt

/-- A complete upload is one of the receiver with the address it begins with. -/
theorem upload_entry {esp_list : List ESP32} {s : State} {esp_id count : ℕ}
    (hmacs : s.esp_list.map (·.mac_address) = esp_list.map (·.mac_address))
    (h : upload w s = some (esp_id, count)) :
    get_esp_instance w.esp_number esp_list (s.sock.bytes.take 6) = some esp_id := by
  unfold upload at h
  split at h
  · obtain ⟨i, hi, h⟩ := Option.bind_eq_some_iff.1 h
    obtain ⟨k, -, h⟩ := Option.map_eq_some_iff.1 h
    cases h
    rw [← get_esp_instance_congr hmacs]
    exact hi
  · cases h

section

variable {esp_list : List ESP32} {sock : Socket} {c : UInt8} {attempts : ℕ}

/-- The batches that are stored are those of the complete uploads that carry packets. -/
theorem mem_stored_iff (hfuel : sock.bytes.length < fuel) (esp_id : ℕ) :
    esp_id ∈ (TCPS_service w fuel attempts (start esp_list sock c)).stored.map (·.esp_id) ↔
      ∃ s ∈ trace w fuel attempts (start esp_list sock c),
        ∃ count, upload w s = some (esp_id, count) ∧ count ≠ 0 := by
  rw [(stored_of_trace w attempts (s := start esp_list sock c) hfuel).1, start, List.map_nil,
    List.nil_append, List.mem_flatMap]
  refine exists_congr fun s => and_congr_right fun _ => ?_
  unfold batch
  cases upload w s with
  | none => simp
  | some found => simp [eq_comm, and_comm, Prod.ext_iff]

/-- The first attempt begins in the first state. -/
theorem eq_start_or_mem_tail {s : State}
    (hs : s ∈ trace w fuel attempts (start esp_list sock c)) :
    s = start esp_list sock c ∨ s ∈ (trace w fuel attempts (start esp_list sock c)).tail := by
  cases attempts with
  | zero =>
    rw [trace] at hs
    cases hs
  | succ attempts =>
    have hretry : ¬ (start esp_list sock c).retry_child = 0 := Nat.succ_ne_zero 2
    rw [trace, if_neg hretry] at hs ⊢
    exact List.mem_cons.1 hs

/-- A complete upload is notified, and stored if it carries packets. -/
theorem Attributed.unmixed (hfuel : sock.bytes.length < fuel)
    (h : Attributed w esp_list (sock.bytes.take 6)
      (TCPS_service w fuel attempts (start esp_list sock c)))
    {s : State} (hs : s ∈ trace w fuel attempts (start esp_list sock c)) :
    Unmixed w esp_list (sock.bytes.take 6) s := by
  intro esp_id count hupload
  have hknown : get_esp_instance w.esp_number esp_list (sock.bytes.take 6) ≠ none := by
    intro hnone
    have hpos : 0 < (trace w fuel attempts (start esp_list sock c)).countP
        fun s => (upload w s).isSome := List.countP_pos_iff.2 ⟨s, hs, by rw [hupload]; rfl⟩
    have hnotified := (stored_of_trace w attempts (s := start esp_list sock c) hfuel).2
    rw [(h.unknown hnone).2] at hnotified
    omega
  by_cases hcount : count = 0
  · exact .inr ⟨Option.isSome_iff_ne_none.2 hknown, hcount⟩
  · obtain ⟨st, hst, rfl⟩ :=
      List.mem_map.1 ((mem_stored_iff hfuel esp_id).2 ⟨s, hs, count, hupload, hcount⟩)
    obtain ⟨e, he, hmac⟩ := h.stored st hst
    have hown := upload_entry (trace_macs hs) hupload
    obtain ⟨e', he', hmac'⟩ := get_esp_instance_entry hown
    cases he.symm.trans he'
    rw [← hmac, hmac']
    exact .inl hown

/-- Uploads of one receiver only are stored as its own. -/
theorem attributed_of_unmixed (hfuel : sock.bytes.length < fuel)
    (hall : ∀ s ∈ trace w fuel attempts (start esp_list sock c),
      Unmixed w esp_list (sock.bytes.take 6) s) :
    Attributed w esp_list (sock.bytes.take 6)
      (TCPS_service w fuel attempts (start esp_list sock c)) := by
  constructor
  · intro st hst
    obtain ⟨s, hs, count, hupload, hcount⟩ :=
      (mem_stored_iff hfuel st.esp_id).1 (List.mem_map_of_mem hst)
    rcases hall s hs _ _ hupload with hown | ⟨-, hzero⟩
    · exact get_esp_instance_entry hown
    · exact absurd hzero hcount
  · intro hnone
    have hnothing : ∀ s ∈ trace w fuel attempts (start esp_list sock c), upload w s = none := by
      intro s hs
      by_contra hne
      obtain ⟨found, hupload⟩ := Option.ne_none_iff_exists'.1 hne
      rcases hall s hs _ _ hupload with hown | ⟨hsome, -⟩
      · cases hnone.symm.trans hown
      · rw [hnone] at hsome
        cases hsome
    refine ⟨List.eq_nil_iff_forall_not_mem.2 fun st hst => ?_, ?_⟩
    · obtain ⟨s, hs, count, hupload, -⟩ :=
        (mem_stored_iff hfuel st.esp_id).1 (List.mem_map_of_mem hst)
      cases (hnothing s hs).symm.trans hupload
    · rw [(stored_of_trace w attempts (s := start esp_list sock c) hfuel).2,
        List.countP_eq_zero.2 fun s hs => by simp [hnothing s hs]]
      rfl

end

/-- **The first six bytes.** Whatever a connection brings and however it is split, everything that
is stored belongs to its first six bytes if and only if no attempt but the first one finds a
complete upload of another receiver. -/
theorem attributed_iff (w : World) (esp_list : List ESP32) (sock : Socket) (c : UInt8)
    (fuel attempts : ℕ) (hfuel : sock.bytes.length < fuel) :
    Attributed w esp_list (sock.bytes.take 6)
        (TCPS_service w fuel attempts (start esp_list sock c)) ↔
      ∀ s ∈ (trace w fuel attempts (start esp_list sock c)).tail,
        Unmixed w esp_list (sock.bytes.take 6) s := by
  constructor
  · exact fun h s hs => h.unmixed hfuel (List.mem_of_mem_tail hs)
  · intro h
    refine attributed_of_unmixed hfuel fun s hs => ?_
    rcases eq_start_or_mem_tail hs with rfl | htail
    · -- the first attempt reads the first six bytes
      exact fun esp_id count hupload => .inl (upload_entry (trace_macs hs) hupload)
    · exact h s htail

/-- An upload whose acknowledgement is reset, and the same one again. -/
def resent : Socket :=
  atOnce (tcp_client_timer_version Participation.firstMac 1 [⟨samplePacket, 0⟩] ++
    tcp_client_timer_version Participation.firstMac 1 [⟨samplePacket, 0⟩]) (by decide)

/-- Both uploads belong to the receiver of the first six bytes. -/
theorem attributed_iff_resent :
    Attributed ⟨1, fun _ => 50, fun k => if k = 0 then .reset else .sent⟩
      [⟨0, Participation.firstMac, 1, 1, 3011, 40, 30⟩] (resent.bytes.take 6)
      (TCPS_service ⟨1, fun _ => 50, fun k => if k = 0 then .reset else .sent⟩ 200 3
        (start [⟨0, Participation.firstMac, 1, 1, 3011, 40, 30⟩] resent 0)) := by
  refine (attributed_iff ⟨1, fun _ => 50, fun k => if k = 0 then .reset else .sent⟩
    [⟨0, Participation.firstMac, 1, 1, 3011, 40, 30⟩] resent 0 200 3 (by decide +kernel)).2 ?_
  have hagain : ∀ s ∈ (trace ⟨1, fun _ => 50, fun k => if k = 0 then .reset else .sent⟩ 200 3
      (start [⟨0, Participation.firstMac, 1, 1, 3011, 40, 30⟩] resent 0)).tail,
      upload ⟨1, fun _ => 50, fun k => if k = 0 then .reset else .sent⟩ s = some (0, 1) := by
    decide +kernel
  intro s hs esp_id count hupload
  cases (hagain s hs).symm.trans hupload
  exact .inl (by decide +kernel)

/-- Behind six bytes that are no address there is an upload of a receiver, and it is stored. -/
theorem stored_of_unknown :
    ¬ ∀ (w : World) (esp_list : List ESP32) (sock : Socket) (c : UInt8) (fuel attempts : ℕ),
      sock.bytes.length < fuel → Attributed w esp_list (sock.bytes.take 6)
        (TCPS_service w fuel attempts (start esp_list sock c)) := by
  intro hclaim
  have hattributed := hclaim ⟨1, fun _ => 50, fun _ => .sent⟩
    [⟨0, Participation.firstMac, 1, 1, 3011, 40, 30⟩]
    (atOnce ([1, 2, 3, 4, 5, 6] ++ tcp_client_timer_version Participation.firstMac 1
      [⟨samplePacket, 0⟩]) (by decide)) 0 200 3 (by decide +kernel)
  have hnotified := (hattributed.unknown (by decide +kernel)).2
  exact absurd hnotified (by decide +kernel)

end Service

end DetectionSystem
