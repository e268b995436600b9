import DetectionSystem.Server.Service

/-!
# The identity of a receiver

`TCPS_ask_participation` lists a device for every INIT message it confirms, and never compares a MAC
address with the earlier ones. `get_esp_instance` returns the first entry with a MAC address. So a
receiver can be found under its own index exactly if no address is listed twice
(`find_own_index_iff`), and the addresses of the list are those of the messages (`macs_of_run`).

A repeated address is caught in one of the two modes only: when the database was erased, the device
is inserted under its address as the primary key, and a second insertion ends the program
(`nodup_of_erased`). With the old configuration nothing is inserted, and the second entry of a
device that sent INIT twice is never found.
-/

open Transition

namespace DetectionSystem

namespace Participation

variable {args : Args} {stored : List Esp} {s t : State} {a : Action} {as : List Action}

/-- The MAC addresses of the INIT messages that are confirmed. -/
def inits (as : List Action) : List Mac :=
  as.filterMap fun
    | .join mac _ _ _ _ => some mac
    | _ => none

/-- The MAC addresses in `esp_list`. -/
def macs (s : State) : List Mac := s.esp_list.map (·.mac_address)

/-- There is an entry for every receiver, and each entry is found under its own index. -/
structure Identified (esp_number : ℕ) (s : State) : Prop where
  number : s.esp_list.length = esp_number
  found : ∀ i e, s.esp_list[i]? = some e →
    Service.get_esp_instance esp_number s.esp_list e.mac_address.1 = some i

/-! ## First entries -/

/-- In a list, every element is the first one with its key if and only if no key occurs twice. -/
theorem find_own_index_iff {α β : Type*} [DecidableEq β] (key : α → β) (l : List α) :
    (∀ i x, l[i]? = some x → l.findIdx? (fun y => key y = key x) = some i) ↔
      (l.map key).Nodup := by
  rw [List.nodup_iff_getElem?_ne_getElem?]
  constructor
  · intro h i j hij hj heq
    rw [List.length_map] at hj
    rw [List.getElem?_map, List.getElem?_map, List.getElem?_eq_getElem hj,
      List.getElem?_eq_getElem (hij.trans hj), Option.map_some, Option.map_some,
      Option.some.injEq] at heq
    have hi := h i _ (List.getElem?_eq_getElem (hij.trans hj))
    have hj := h j _ (List.getElem?_eq_getElem hj)
    rw [heq, hj, Option.some.injEq] at hi
    omega
  · intro h i x hx
    obtain ⟨hi, rfl⟩ := List.getElem?_eq_some_iff.1 hx
    refine List.findIdx?_eq_some_iff_getElem.2 ⟨hi, by simp, fun j hj => ?_⟩
    have hne := h j i hj (by rwa [List.length_map])
    rw [List.getElem?_map, List.getElem?_map, List.getElem?_eq_getElem hi,
      List.getElem?_eq_getElem (hj.trans hi)] at hne
    simpa using hne

/-- With an entry for every receiver, each is found under its own index if and only if no MAC
address is listed twice. -/
theorem identified_iff_nodup {esp_number : ℕ} (hlen : s.esp_list.length = esp_number) :
    Identified esp_number s ↔ (macs s).Nodup := by
  have hmacs : (s.esp_list.map fun e => e.mac_address.1) = (macs s).map Subtype.val := by
    rw [macs, List.map_map]
    rfl
  have hnodup : (s.esp_list.map fun e => e.mac_address.1).Nodup ↔ (macs s).Nodup := by
    rw [hmacs, List.nodup_map_iff Subtype.val_injective]
  rw [← hnodup, ← find_own_index_iff]
  have htake : s.esp_list.take esp_number = s.esp_list := List.take_of_length_le hlen.le
  constructor
  · intro h i e he
    have hfound := h.found i e he
    rwa [Service.get_esp_instance, htake] at hfound
  · intro h
    refine ⟨hlen, fun i e he => ?_⟩
    rw [Service.get_esp_instance, htake]
    exact h i e he

/-! ## The list and the messages -/

/-- One step lists the address it confirms, unless it ends the program. -/
theorem macs_of_step (hG : NoThrow s a) (hstep : step args s a = some t)
    (ht : t.status ≠ .exited) : macs t = macs s ++ inits [a] := by
  cases a with
  | construct | malformed | confirmReset | serve =>
    obtain ⟨-, rfl⟩ := guarded_eq_some.1 hstep
    simp [macs, inits]
  | throws => exact hG.elim
  | join mac sqlOk spawned t₁ t₂ =>
    obtain ⟨-, rfl⟩ := guarded_eq_some.1 hstep
    obtain rfl : spawned = true := hG
    unfold join at ht ⊢
    split at ht
    case h_1 => exact absurd rfl ht
    case h_2 => simp [macs, inits, espdata, ESP32.mk', ESP32.update_time]

/-- Nothing happens after the program has ended. -/
theorem step_exited (hs : s.status = .exited) : step args s a = none := by
  cases a <;> simp [step, guarded, hs]

/-- The INIT messages of a run, one action after the other. -/
theorem inits_cons (a : Action) (as : List Action) : inits (a :: as) = inits [a] ++ inits as := by
  simp only [inits, ← List.filterMap_append, List.singleton_append]

/-- The list holds the addresses of the INIT messages, in their order. -/
theorem macs_of_run (hG : Meets (step args) NoThrow s as) (hrun : run (step args) s as = some t)
    (ht : t.status ≠ .exited) : macs t = macs s ++ inits as := by
  induction as generalizing s with
  | nil =>
    cases hrun
    exact (List.append_nil _).symm
  | cons a as ih =>
    obtain ⟨u, hu, hrun⟩ := run_cons_eq_some.1 hrun
    have husafe : u.status ≠ .exited := by
      intro hexit
      cases as with
      | nil =>
        cases hrun
        exact ht hexit
      | cons b bs =>
        obtain ⟨v, hv, -⟩ := run_cons_eq_some.1 hrun
        rw [step_exited hexit] at hv
        cases hv
    rw [ih (hG.2 u hu) hrun, macs_of_step hG.1 hu husafe, List.append_assoc, ← inits_cons]

/-- In a database that was erased there is a row for every device that is listed, and no address
twice. -/
structure Keyed (s : State) : Prop where
  rows : s.esp.map (·.mac) = macs s
  nodup : (macs s).Nodup

/-- The primary key keeps it so. -/
theorem Keyed.step (h : Keyed s) (herase : args.should_erase_db ≠ 0) (hG : NoThrow s a)
    (hstep : step args s a = some t) : Keyed t := by
  cases a with
  | construct | malformed | confirmReset | serve =>
    obtain ⟨-, rfl⟩ := guarded_eq_some.1 hstep
    exact ⟨h.rows, h.nodup⟩
  | throws => exact hG.elim
  | join mac sqlOk spawned t₁ t₂ =>
    obtain ⟨-, rfl⟩ := guarded_eq_some.1 hstep
    obtain rfl : spawned = true := hG
    unfold join
    split
    case h_1 => exact ⟨h.rows, h.nodup⟩
    case h_2 esp hstore =>
      rw [store, if_neg herase] at hstore
      split_ifs at hstore with hfresh
      cases hstore
      refine ⟨?_, ?_⟩
      · have hrows := h.rows
        simp only [macs] at hrows
        simp [macs, hrows, ESP32.row]
      · have hnew := hfresh.2
        rw [h.rows] at hnew
        have hsingle := List.nodup_singleton mac
        have hnodup := h.nodup.append hsingle (List.disjoint_singleton.2 hnew)
        simpa [macs, espdata, ESP32.mk', ESP32.update_time] using hnodup

/-- With an erased database no address is listed twice. -/
theorem nodup_of_erased (herase : args.should_erase_db ≠ 0)
    (hG : Meets (step args) NoThrow (init args stored) as)
    (hrun : run (step args) (init args stored) as = some s) : (macs s).Nodup := by
  have hinit : Keyed (init args stored) :=
    ⟨by simp [init, setupDB, herase, macs], by simp [init, macs]⟩
  exact (run_invariant_of_meets (fun _ _ _ h hG hstep => Keyed.step h herase hG hstep) hinit hG
    hrun).nodup

/-- A device has joined for every receiver: `TCPS_ask_participation` returns, or has returned. -/
def Returned (args : Args) (s : State) : Prop :=
  s.status = .serving ∨ s.status = .asking ∧ s.slot = args.espn

/-- **The identity of a receiver.** When a participation in which no exception is thrown returns,
each receiver has its own entry, which is the one its address is resolved to, if and only if the
database was erased or no device has sent INIT twice. -/
theorem identified_iff (args : Args) (stored : List Esp) (as : List Action) (s : State)
    (hG : Meets (step args) NoThrow (init args stored) as)
    (hrun : run (step args) (init args stored) as = some s) (hreturn : Returned args s) :
    Identified args.espn s ↔ args.should_erase_db ≠ 0 ∨ (inits as).Nodup := by
  have hlist : ListInv args s := run_invariant_of_meets
    (fun _ _ _ hs hG hstep => ListInv.step hs hG hstep) ⟨rfl, fun hserve => by cases hserve⟩ hG hrun
  have hslot : s.slot = args.espn := hreturn.elim hlist.complete fun h => h.2
  have hlen : s.esp_list.length = args.espn := by
    have h := congrArg List.length hlist.ids
    rwa [List.length_map, List.length_range, hslot] at h
  have hmacs : macs s = inits as :=
    macs_of_run hG hrun (by rcases hreturn with h | h <;> simp [h])
  rw [identified_iff_nodup hlen]
  constructor
  · exact fun h => .inr (hmacs ▸ h)
  · rintro (herase | hnodup)
    · exact nodup_of_erased herase hG hrun
    · exact hmacs ▸ hnodup

/-- Two devices join with the old configuration, the first one after a reset confirmation. -/
theorem identified_iff_twoDevices :
    ∃ s, Identified 2 s ∧ macs s = [firstMac, secondMac] := by
  have hrun : ∃ s, run (step ⟨0, 2, [1, 1, 2, 2]⟩) (init ⟨0, 2, [1, 1, 2, 2]⟩ [])
      [.construct, .confirmReset, .join firstMac true true 5 5, .join secondMac true true 6 7] =
        some s ∧ s.status = .asking ∧ s.slot = 2 ∧ macs s = [firstMac, secondMac] :=
    ⟨_, rfl, rfl, rfl, rfl⟩
  obtain ⟨s, hs, hask, hslot, hmacs⟩ := hrun
  exact ⟨s, (identified_iff ⟨0, 2, [1, 1, 2, 2]⟩ [] _ s (by decide) hs (.inr ⟨hask, hslot⟩)).2
    (.inr (by decide)), hmacs⟩

/-- A device that joined reboots and sends INIT again, with the old configuration: it is listed a
second time, as the other receiver, and that entry is never found. -/
theorem listed_twice :
    ¬ ∀ (args : Args) (stored : List Esp) (as : List Action) (s : State),
      Meets (step args) NoThrow (init args stored) as →
      run (step args) (init args stored) as = some s → Returned args s →
      Identified args.espn s := by
  intro hclaim
  have hrun : ∃ s, run (step ⟨0, 2, [1, 1, 2, 2]⟩) (init ⟨0, 2, [1, 1, 2, 2]⟩ [])
      [.construct, .join firstMac true true 5 5, .join firstMac true true 6 7] = some s ∧
        s.status = .asking ∧ s.slot = 2 ∧ s.esp_list[1]? = some ⟨1, firstMac, 2, 2, 3013, 7, 6⟩ ∧
        Service.get_esp_instance 2 s.esp_list firstMac.1 = some 0 :=
    ⟨_, rfl, rfl, rfl, rfl, rfl⟩
  obtain ⟨s, hs, hask, hslot, hentry, hfirst⟩ := hrun
  have hfound := (hclaim ⟨0, 2, [1, 1, 2, 2]⟩ [] _ s (by decide) hs (.inr ⟨hask, hslot⟩)).found 1 _
    hentry
  rw [hfirst] at hfound
  cases hfound

end Participation

end DetectionSystem
