import DetectionSystem.Lib.CondVar
import Mathlib.Data.List.Range

/-!
# The blocking queue

`BlockingQueue<T>` for any number of producers and consumers. Each of its functions is one critical
section under `mutex`, except for `waitPop`: it tests its predicate, sleeps on `condition` where
that fails, and tests again whenever it has been woken and has got `mutex` back. So a run is a
sequence of critical sections in any order, with spurious wake-ups between them.

A critical section returns what its caller gets (`Outcome`), so what the producers and consumers
have seen of a run is read off its actions (`pushed`) and the answers to them (`outcomes`). The
queue is first in, first out up to what `clear` removes (`returned_append_queue`), and no consumer
sleeps on while an item has no woken taker (`CondVar.State.Covered`), although `push` notifies one
thread only and another thread may take the item first.
-/

open Transition

namespace DetectionSystem

namespace BlockingQueue

variable {ι T : Type*}

/-- The queue, and the threads at its condition variable. -/
structure State (ι T : Type*) where
  queue : List T
  is_valid : Bool
  condition : CondVar.State ι

/-- A queue that was just constructed. -/
def init : State ι T := ⟨[], true, CondVar.init⟩

/-- The critical sections. `push` wakes the thread `notified`; `waitPop` is the first test of its
predicate by thread `i` and `again` a later one; a sleeping thread wakes up spuriously. The
destructor is a call of `invalidate`. -/
inductive Action (ι T : Type*)
  | push (value : T) (notified : Option ι)
  | waitPop (i : ι)
  | again (i : ι)
  | spurious (i : ι)
  | clear
  | isValid
  | empty
  | invalidate
deriving DecidableEq

/-- What comes of a critical section: nothing that its caller sees (`waitPop` goes to sleep, or a
function without a result returns), `waitPop` returns `false`, it returns `true` with the value
`out`, `clear` has dropped values, or a test of the queue is answered. -/
inductive Outcome (T : Type*)
  | nothing
  | failed
  | popped (out : T)
  | cleared (values : List T)
  | answered (b : Bool)
deriving DecidableEq

section
variable [DecidableEq ι]

/-- What `waitPop` does once it holds the mutex: it sleeps, or it returns, `false` if the queue is
not valid and `true` with the front of the queue otherwise. -/
def test (s : State ι T) (i : ι) : Outcome T × State ι T :=
  if ¬ (!s.queue.isEmpty || !s.is_valid) then
    (.nothing, { s with condition := s.condition.sleep i })
  else if !s.is_valid then (.failed, { s with condition := s.condition.leave i })
  else
    match s.queue with
    -- not reached: the predicate holds and the queue is valid
    | [] => (.nothing, s)
    | out :: queue =>
      (.popped out, { s with queue := queue, condition := s.condition.leave i })

/-- One critical section, or one wake-up: what comes of it, and the queue after it. -/
def criticalSection (s : State ι T) : Action ι T → Option (Outcome T × State ι T)
  | .push value notified =>
    (s.condition.notifyOne notified).map fun condition =>
      (.nothing, { s with queue := s.queue ++ [value], condition := condition })
  | .waitPop i => guarded (¬ s.condition.Blocked i) (test s i)
  | .again i => guarded (i ∈ s.condition.woken) (test s i)
  | .spurious i =>
    guarded (i ∈ s.condition.waiters) (.nothing, { s with condition := s.condition.wake i })
  | .clear =>
    some (.cleared s.queue, { s with queue := [], condition := s.condition.notifyAll })
  | .isValid => some (.answered s.is_valid, s)
  | .empty => some (.answered s.queue.isEmpty, s)
  | .invalidate =>
    some (.nothing, { s with is_valid := false, condition := s.condition.notifyAll })

/-- The queue after one critical section, or one wake-up. -/
def step (s : State ι T) (a : Action ι T) : Option (State ι T) := (criticalSection s a).map Prod.snd

/-- What comes of the critical sections of a run, one after the other. -/
def outcomes : State ι T → List (Action ι T) → List (Outcome T)
  | _, [] => []
  | s, a :: as =>
    match criticalSection s a with
    | none => []
    | some (o, t) => o :: outcomes t as

end

/-! ## What the producers and the consumers see -/

/-- The values that an action pushes. -/
def Action.values : Action ι T → List T
  | .push value _ => [value]
  | _ => []

/-- The values that were pushed, in the order of the calls. -/
def pushed (as : List (Action ι T)) : List T := as.flatMap Action.values

/-- The value that a successful `waitPop` returns. -/
def Outcome.out : Outcome T → List T
  | .popped out => [out]
  | _ => []

/-- The values that the successful calls of `waitPop` returned, in the order of the calls. -/
def returned (os : List (Outcome T)) : List T := os.flatMap Outcome.out

/-- The values that leave the queue. -/
def Outcome.values : Outcome T → List T
  | .popped out => [out]
  | .cleared values => values
  | _ => []

/-- The values that have left the queue, one way or the other. -/
def taken (os : List (Outcome T)) : List T := os.flatMap Outcome.values

/-- The values that `clear` drops. -/
def Outcome.dropped : Outcome T → List T
  | .cleared values => values
  | .nothing | .failed | .popped _ | .answered _ => []

/-- The places in the push order of the values that `clear` dropped, if `n` values had left the
queue before. -/
def cleared (n : ℕ) : List (Outcome T) → List ℕ
  | [] => []
  | o :: os => List.range' n o.dropped.length ++ cleared (n + o.values.length) os

/-- The values of a list, the first of them with the place `n`, without those at the places
`places`. -/
def keptFrom (n : ℕ) (places : List ℕ) (values : List T) : List T :=
  ((values.zipIdx n).filter fun e => e.2 ∉ places).map Prod.fst

/-- The values of a list without those at the places `places`. -/
def kept (places : List ℕ) (values : List T) : List T := keptFrom 0 places values

/-! ## First in, first out -/

/-- A value that was cleared is none of those that had left before. -/
theorem le_of_mem_cleared {n k : ℕ} {os : List (Outcome T)} (hk : k ∈ cleared n os) : n ≤ k := by
  induction os generalizing n with
  | nil => cases hk
  | cons o os ih =>
    rcases List.mem_append.1 hk with hk | hk
    · exact (List.mem_range'_1.1 hk).1
    · exact (Nat.le_add_right n _).trans (ih hk)

/-- `keptFrom` in two parts. -/
theorem keptFrom_append (n : ℕ) (places : List ℕ) (values rest : List T) :
    keptFrom n places (values ++ rest) =
      keptFrom n places values ++ keptFrom (n + values.length) places rest := by
  simp [keptFrom, List.zipIdx_append]

/-- Places that the list does not have do not matter. -/
theorem keptFrom_append_places {n : ℕ} {places : List ℕ} (others : List ℕ) (values : List T)
    (hothers : ∀ k ∈ others, k < n ∨ n + values.length ≤ k) :
    keptFrom n (others ++ places) values = keptFrom n places values := by
  refine congrArg (List.map Prod.fst) (List.filter_congr fun e he => ?_)
  obtain ⟨hle, hlt, -⟩ := List.mem_zipIdx he
  have hnot : e.2 ∉ others := fun hmem => by
    have := hothers e.2 hmem
    omega
  simp [hnot]

/-- All values are kept if no place is one of theirs, -/
theorem keptFrom_eq_self {n : ℕ} {places : List ℕ} {values : List T}
    (hplaces : ∀ k ∈ places, n + values.length ≤ k) : keptFrom n places values = values := by
  have h : keptFrom n (places ++ []) values = keptFrom n [] values :=
    keptFrom_append_places places values fun k hk => .inr (hplaces k hk)
  rw [List.append_nil] at h
  rw [h]
  simp [keptFrom]

/-- and none if all places are. -/
theorem keptFrom_range' (n : ℕ) (places : List ℕ) (values : List T) :
    keptFrom n (List.range' n values.length ++ places) values = [] := by
  rw [keptFrom, List.map_eq_nil_iff, List.filter_eq_nil_iff]
  intro e he
  obtain ⟨hle, hlt, -⟩ := List.mem_zipIdx he
  have hmem : e.2 ∈ List.range' n values.length := List.mem_range'_1.2 ⟨hle, by omega⟩
  simp [hmem]

/-- What left the queue, without what was cleared, is what `waitPop` returned. -/
theorem keptFrom_taken (n : ℕ) (os : List (Outcome T)) (queue : List T) :
    keptFrom n (cleared n os) (taken os ++ queue) = returned os ++ queue := by
  induction os generalizing n with
  | nil =>
    have hnone : ∀ k ∈ cleared n ([] : List (Outcome T)), n + queue.length ≤ k := fun k hk => by
      cases hk
    exact keptFrom_eq_self hnone
  | cons o os ih =>
    have hsplit : taken (o :: os) ++ queue = o.values ++ (taken os ++ queue) := by
      simp [taken]
    rw [hsplit, keptFrom_append]
    cases o with
    | cleared values =>
      -- the places of the cleared values are below those of the values behind them
      have hbelow : ∀ k ∈ List.range' n values.length,
          k < n + values.length ∨ n + values.length + (taken os ++ queue).length ≤ k :=
        fun k hk => .inl (List.mem_range'_1.1 hk).2
      rw [cleared, Outcome.values, Outcome.dropped, keptFrom_range', List.nil_append,
        keptFrom_append_places _ _ hbelow, ih]
      rfl
    | nothing | failed | popped out | answered b =>
      rw [cleared, Outcome.dropped, List.length_nil, List.range'_zero, List.nil_append, ih,
        keptFrom_eq_self fun k hk => le_of_mem_cleared hk]
      simp [returned, Outcome.values, Outcome.out]

section
variable [DecidableEq ι] {s t : State ι T} {a : Action ι T} {as bs : List (Action ι T)}
  {o : Outcome T} {i : ι}

/-- A step is a critical section without its outcome. -/
theorem step_eq_some : step s a = some t ↔ ∃ o, criticalSection s a = some (o, t) := by
  simp [step]

/-- The outcomes of a run are that of its first step and those of the rest. -/
theorem outcomes_cons (h : criticalSection s a = some (o, t)) :
    outcomes s (a :: as) = o :: outcomes t as := by
  rw [outcomes, h]

/-- What a test of the predicate can come to: the thread sleeps on an empty queue, fails on one that
is not valid, or takes the front. -/
theorem test_cases (s : State ι T) (i : ι) :
    (s.queue = [] ∧ s.is_valid = true ∧
        test s i = (.nothing, { s with condition := s.condition.sleep i })) ∨
      (s.is_valid = false ∧
        test s i = (.failed, { s with condition := s.condition.leave i })) ∨
      ∃ out queue, s.queue = out :: queue ∧ s.is_valid = true ∧
        test s i = (.popped out, { s with queue := queue, condition := s.condition.leave i }) := by
  cases hqueue : s.queue with
  | nil => cases hvalid : s.is_valid <;> simp [test, hqueue, hvalid]
  | cons out queue => cases hvalid : s.is_valid <;> simp [test, hqueue, hvalid]

/-- What a test of the predicate takes out of the queue is its front. -/
theorem test_values (s : State ι T) (i : ι) :
    s.queue = (test s i).1.values ++ (test s i).2.queue := by
  rcases test_cases s i with ⟨-, -, h⟩ | ⟨-, h⟩ | ⟨out, queue, hqueue, -, h⟩
  · rw [h]
    rfl
  · rw [h]
    rfl
  · rw [h, hqueue]
    rfl

/-- **One step is first in, first out.** What is pushed comes in behind, and what leaves the queue
leaves in front. -/
theorem criticalSection_values (h : criticalSection s a = some (o, t)) :
    s.queue ++ a.values = o.values ++ t.queue := by
  cases a with
  | push value notified =>
    obtain ⟨condition, -, hc⟩ := Option.map_eq_some_iff.1 h
    cases hc
    rfl
  | waitPop i | again i =>
    obtain ⟨-, htest⟩ := guarded_eq_some.1 h
    have hvalues := test_values s i
    rw [htest] at hvalues
    exact (List.append_nil _).trans hvalues
  | spurious i =>
    obtain ⟨-, hc⟩ := guarded_eq_some.1 h
    cases hc
    exact List.append_nil _
  | clear =>
    cases h
    rfl
  | isValid | empty | invalidate =>
    cases h
    exact List.append_nil _

/-- So is a run: what was in the queue and what was pushed is what has left it, in this order, and
then what is in it. -/
theorem taken_append_queue (hrun : run step s as = some t) :
    s.queue ++ pushed as = taken (outcomes s as) ++ t.queue := by
  induction as generalizing s with
  | nil =>
    cases hrun
    exact List.append_nil _
  | cons a as ih =>
    obtain ⟨u, hu, hrun⟩ := run_cons_eq_some.1 hrun
    obtain ⟨o, ho⟩ := step_eq_some.1 hu
    calc s.queue ++ pushed (a :: as)
        = (s.queue ++ a.values) ++ pushed as := by simp [pushed]
      _ = o.values ++ (u.queue ++ pushed as) := by rw [criticalSection_values ho, List.append_assoc]
      _ = o.values ++ (taken (outcomes u as) ++ t.queue) := by rw [ih hrun]
      _ = taken (outcomes s (a :: as)) ++ t.queue := by rw [outcomes_cons ho]; simp [taken]

/-- What `waitPop` has returned, and then what is in the queue, is what was pushed without what was
cleared. -/
theorem returned_append_queue (hrun : run step init as = some s) :
    returned (outcomes init as) ++ s.queue = kept (cleared 0 (outcomes init as)) (pushed as) := by
  have htaken : pushed as = taken (outcomes init as) ++ s.queue := taken_append_queue hrun
  rw [kept, htaken, keptFrom_taken]

/-! ## The woken threads -/

/-- The items and the threads. -/
structure Inv (s : State ι T) : Prop where
  /-- if a thread sleeps on a valid queue, then each item has a woken thread -/
  covered : s.is_valid = true → s.condition.Covered s.queue.length
  /-- and on a queue that is not valid none does -/
  invalid : s.is_valid = false → s.condition.waiters = ∅

omit [DecidableEq ι] in
/-- Nobody waits for a new queue. -/
theorem inv_init : Inv (init : State ι T) where
  covered := fun _ => CondVar.State.covered_zero _
  invalid := by simp [init]

/-- A notification covers the item that was pushed. -/
theorem Inv.push (h : Inv s) (value : T) {notified : Option ι} {condition : CondVar.State ι}
    (hc : s.condition.notifyOne notified = some condition) :
    Inv { s with queue := s.queue ++ [value], condition := condition } where
  covered := by
    intro hvalid
    rw [List.length_append]
    exact (h.covered hvalid).notifyOne hc
  invalid := by
    intro hinvalid
    have hnone := h.invalid hinvalid
    cases notified with
    | none =>
      obtain ⟨-, rfl⟩ := guarded_eq_some.1 hc
      exact hnone
    | some i =>
      obtain ⟨hi, -⟩ := guarded_eq_some.1 hc
      rw [hnone] at hi
      exact absurd hi (Finset.notMem_empty i)

/-- A thread that tests the predicate sleeps on an empty queue only, and takes one item with it
otherwise. -/
theorem Inv.test (h : Inv s) (i : ι) : Inv (test s i).2 := by
  rcases test_cases s i with
    ⟨hqueue, hvalid, ht⟩ | ⟨hinvalid, ht⟩ | ⟨out, queue, hqueue, hvalid, ht⟩
  · rw [ht]
    refine ⟨fun _ => ?_, fun hinvalid => ?_⟩
    · dsimp only
      rw [hqueue]
      exact CondVar.State.covered_zero _
    · rw [hvalid] at hinvalid
      cases hinvalid
  · rw [ht]
    refine ⟨fun hvalid => ?_, fun _ => h.invalid hinvalid⟩
    rw [hinvalid] at hvalid
    cases hvalid
  · rw [ht]
    refine ⟨fun _ => ?_, fun hinvalid => ?_⟩
    · have hcovered := h.covered hvalid
      rw [hqueue, List.length_cons] at hcovered
      exact hcovered.leave i
    · rw [hvalid] at hinvalid
      cases hinvalid

/-- One step keeps the invariant. -/
theorem Inv.step (h : Inv s) (hs : step s a = some t) : Inv t := by
  obtain ⟨o, hs⟩ := step_eq_some.1 hs
  cases a with
  | push value notified =>
    obtain ⟨condition, hc, heq⟩ := Option.map_eq_some_iff.1 hs
    cases heq
    exact h.push value hc
  | waitPop i | again i =>
    obtain ⟨-, htest⟩ := guarded_eq_some.1 hs
    have hinv := h.test i
    rw [htest] at hinv
    exact hinv
  | spurious i =>
    obtain ⟨hi, heq⟩ := guarded_eq_some.1 hs
    cases heq
    refine ⟨fun hvalid => ?_, fun hinvalid => ?_⟩
    · exact ((h.covered hvalid).wake hi).mono (Nat.le_succ _)
    · rw [h.invalid hinvalid] at hi
      exact absurd hi (Finset.notMem_empty i)
  | clear =>
    cases hs
    exact ⟨fun _ => CondVar.State.covered_zero _, fun _ => rfl⟩
  | isValid | empty =>
    cases hs
    exact h
  | invalidate =>
    cases hs
    refine ⟨fun hvalid => ?_, fun _ => rfl⟩
    cases hvalid

/-! ## After `invalidate` -/

/-- A queue that is not valid stays so, and no `waitPop` returns `true` on it. -/
theorem invalid_of_criticalSection (hinvalid : s.is_valid = false)
    (hs : criticalSection s a = some (o, t)) : t.is_valid = false ∧ o.out = [] := by
  cases a with
  | push value notified =>
    obtain ⟨condition, -, heq⟩ := Option.map_eq_some_iff.1 hs
    cases heq
    exact ⟨hinvalid, rfl⟩
  | waitPop i | again i =>
    obtain ⟨-, heq⟩ := guarded_eq_some.1 hs
    rcases test_cases s i with ⟨-, hvalid, -⟩ | ⟨-, ht⟩ | ⟨out, queue, -, hvalid, -⟩
    · cases hinvalid.symm.trans hvalid
    · cases ht.symm.trans heq
      exact ⟨hinvalid, rfl⟩
    · cases hinvalid.symm.trans hvalid
  | spurious i =>
    obtain ⟨-, heq⟩ := guarded_eq_some.1 hs
    cases heq
    exact ⟨hinvalid, rfl⟩
  | clear | isValid | empty =>
    cases hs
    exact ⟨hinvalid, rfl⟩
  | invalidate =>
    cases hs
    exact ⟨rfl, rfl⟩

/-- Nothing is returned from a queue that is not valid. -/
theorem returned_of_invalid (hinvalid : s.is_valid = false) (bs : List (Action ι T)) :
    returned (outcomes s bs) = [] := by
  induction bs generalizing s with
  | nil => rfl
  | cons b bs ih =>
    cases hs : criticalSection s b with
    | none => rw [outcomes, hs]; rfl
    | some ot =>
      obtain ⟨o, t⟩ := ot
      obtain ⟨ht, ho⟩ := invalid_of_criticalSection hinvalid hs
      rw [outcomes_cons hs, returned, List.flatMap_cons, ho, List.nil_append]
      exact ih ht

/-- A queue on which `invalidate` was called is not valid. -/
theorem invalid_of_mem (hmem : .invalidate ∈ as) (hrun : run step s as = some t) :
    t.is_valid = false := by
  obtain ⟨pre, post, rfl⟩ := List.append_of_mem hmem
  obtain ⟨u, -, hpost⟩ := run_append_eq_some.1 hrun
  obtain ⟨v, hv, hpost⟩ := run_cons_eq_some.1 hpost
  cases hv
  refine run_invariant (I := fun u => u.is_valid = false) (fun u a v hu hv => ?_) rfl hpost
  obtain ⟨o, hv⟩ := step_eq_some.1 hv
  exact (invalid_of_criticalSection hu hv).1

/-! ## The queue -/

/-- **The blocking queue.** In every state of every run the values that were pushed are, in their
order, those that have left the queue and then those in it; so what the calls of `waitPop` have
returned, and then the content of the queue, is what was pushed without what was cleared. Once
`invalidate` was called, no `waitPop` returns `true`. And while the queue is valid and a thread
sleeps, the items are no more than the woken threads. -/
theorem fifo_and_covered (as : List (Action ι T)) (s : State ι T)
    (hrun : run step init as = some s) :
    (pushed as = taken (outcomes init as) ++ s.queue ∧
        returned (outcomes init as) ++ s.queue =
          kept (cleared 0 (outcomes init as)) (pushed as)) ∧
      (.invalidate ∈ as → ∀ bs, returned (outcomes s bs) = []) ∧
      (s.is_valid = true → s.condition.waiters.Nonempty →
        s.queue.length ≤ s.condition.woken.card) := by
  have h : Inv s := run_invariant (fun _ _ _ hs ht => hs.step ht) inv_init hrun
  refine ⟨⟨taken_append_queue hrun, returned_append_queue hrun⟩, fun hmem => ?_, h.covered⟩
  exact returned_of_invalid (invalid_of_mem hmem hrun)

end

/-- Two consumers sleep; a value is pushed, and taken by a third one before the woken thread gets
the mutex; another one is cleared; the next is taken by the thread it has woken; the last one waits
for the thread that was woken for it, while a third one sleeps. -/
def threeConsumers : List (Action ℕ Char) :=
  [.waitPop 0, .waitPop 1, .push 'a' (some 1), .waitPop 2, .again 1, .push 'b' (some 0), .clear,
    .again 1, .again 0, .push 'c' (some 0), .again 0, .waitPop 0, .push 'd' (some 1)]

/-- Three consumers: one takes the first value, one is woken for the last, the second value is
cleared. -/
theorem fifo_and_covered_threeConsumers :
    (∃ s, run step init threeConsumers = some s ∧
      pushed threeConsumers = ['a', 'b', 'c', 'd'] ∧
      outcomes init threeConsumers =
        [.nothing, .nothing, .nothing, .popped 'a', .nothing, .nothing, .cleared ['b'], .nothing,
          .nothing, .nothing, .popped 'c', .nothing, .nothing] ∧
      cleared 0 (outcomes init threeConsumers) = [1] ∧
      s.queue = ['d'] ∧ s.condition.waiters = {0} ∧ s.condition.woken = {1} ∧
      returned (outcomes init threeConsumers) ++ ['d'] = kept [1] ['a', 'b', 'c', 'd'] ∧
      s.queue.length ≤ s.condition.woken.card) ∧
    ∃ s, run step init (threeConsumers ++ [.invalidate]) = some s ∧ s.queue = ['d'] ∧
      ∀ bs, returned (outcomes s bs) = [] := by
  refine ⟨⟨_, rfl, rfl, rfl, rfl, rfl, rfl, rfl, ?_, ?_⟩, _, rfl, rfl, ?_⟩
  · exact (fifo_and_covered threeConsumers _ rfl).1.2
  · exact (fifo_and_covered threeConsumers _ rfl).2.2 rfl ⟨0, Finset.mem_singleton_self 0⟩
  · exact (fifo_and_covered (threeConsumers ++ [.invalidate]) _ rfl).2.1 (by simp)

end BlockingQueue

end DetectionSystem
