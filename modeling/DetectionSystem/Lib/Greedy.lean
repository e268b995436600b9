import Mathlib.Data.List.Perm.Subperm
import Mathlib.Order.Basic
import Mathlib.Data.List.Dedup
import Mathlib.Data.List.Pairwise

/-!
# Greedy grouping

The first element of a list starts a group and takes every later element it can; the rest is grouped
in the same way. The groups partition the list (`groups_perm`), and no first element could have
taken a later one (`firsts_pairwise`).

The first elements may depend on the order of the list. `firsts_perm` says which part of the order
does not matter: elements at the same time that cannot take each other may change places, so that
two lists in order of time have the same first elements if they list the elements of each key alike.
-/

namespace Greedy

variable {α : Type*} (takes : α → α → Bool)

/-- The elements that `a` does not take. -/
def others (a : α) (l : List α) : List α := l.filter (!takes a ·)

variable {takes} {a b : α} {l p q : List α} {g : α × List α}

@[simp] theorem mem_others : b ∈ others takes a l ↔ b ∈ l ∧ takes a b = false := by simp [others]

/-- What is left keeps its order. -/
theorem others_sublist : (others takes a l).Sublist l := List.filter_sublist

/-- Something is taken in every round. -/
theorem length_others_lt : (others takes a l).length < (a :: l).length :=
  Nat.lt_succ_of_le others_sublist.length_le

@[simp] theorem others_append : others takes a (p ++ q) = others takes a p ++ others takes a q :=
  List.filter_append ..

/-- What is not taken is left. -/
theorem others_cons_of_not (h : takes a b = false) :
    others takes a (b :: l) = b :: others takes a l := by simp [others, h]

/-- Who takes first makes no difference to what is left. -/
theorem others_comm : others takes a (others takes b l) = others takes b (others takes a l) := by
  simp only [others, List.filter_filter, Bool.and_comm]

variable (takes)

/-- The groups: each first element with the elements it takes. -/
def groups : List α → List (α × List α)
  | [] => []
  | a :: l => (a, l.filter (takes a)) :: groups (others takes a l)
termination_by l => l.length
decreasing_by exact length_others_lt

/-- The first elements of the groups. -/
def firsts (l : List α) : List α := (groups takes l).map Prod.fst

variable {takes}

@[simp] theorem groups_nil : groups takes [] = [] := by rw [groups]

@[simp] theorem groups_cons :
    groups takes (a :: l) = (a, l.filter (takes a)) :: groups takes (others takes a l) := by
  rw [groups]

@[simp] theorem firsts_nil : firsts takes [] = [] := by simp [firsts]

@[simp] theorem firsts_cons :
    firsts takes (a :: l) = a :: firsts takes (others takes a l) := by simp [firsts]

@[simp] theorem length_firsts : (firsts takes l).length = (groups takes l).length :=
  List.length_map ..

/-! ## A partition -/

/-- The groups hold every element once. -/
theorem groups_perm (l : List α) :
    ((groups takes l).flatMap fun g => g.1 :: g.2).Perm l := by
  induction l using groups.induct takes with
  | case1 => simp
  | case2 a l ih =>
    rw [groups_cons, List.flatMap_cons, List.cons_append]
    refine .cons a ((List.Perm.append_left _ ih).trans ?_)
    exact List.filter_append_perm (takes a) l

/-- A first element takes the others of its group. -/
theorem takes_of_mem (hg : g ∈ groups takes l) : ∀ b ∈ g.2, takes g.1 b = true := by
  induction l using groups.induct takes with
  | case1 => simp at hg
  | case2 a l ih =>
    rw [groups_cons, List.mem_cons] at hg
    rcases hg with rfl | hg
    · exact fun b hb => (List.mem_filter.1 hb).2
    · exact ih hg

/-- The elements that start a group keep their order. -/
theorem firsts_sublist (l : List α) : (firsts takes l).Sublist l := by
  induction l using groups.induct takes with
  | case1 => simp
  | case2 a l ih =>
    rw [firsts_cons]
    exact .cons_cons a (ih.trans others_sublist)

/-- No first element takes a later one. -/
theorem firsts_pairwise (l : List α) :
    (firsts takes l).Pairwise fun a b => takes a b = false := by
  induction l using groups.induct takes with
  | case1 => simp
  | case2 a l ih =>
    rw [firsts_cons, List.pairwise_cons]
    exact ⟨fun b hb => (mem_others.1 ((firsts_sublist _).subset hb)).2, ih⟩

/-- The first elements and those they take. -/
theorem firsts_append_perm (l : List α) :
    (firsts takes l ++ (groups takes l).flatMap Prod.snd).Perm l := by
  have hgroups : ((groups takes l).flatMap fun g => g.1 :: g.2).Perm l := groups_perm l
  refine .trans ?_ hgroups
  unfold firsts
  induction groups takes l with
  | nil => rfl
  | cons g gs ih =>
    rw [List.map_cons, List.flatMap_cons, List.flatMap_cons, List.cons_append, List.cons_append]
    refine .cons g.1 ?_
    exact (List.perm_append_comm_assoc ..).trans (ih.append_left g.2)

/-- The elements of the groups that meet a condition on the group, and those that do not. -/
theorem flatMap_filter_append_perm (c : α → α → Bool) (gs : List (α × List α)) :
    ((gs.flatMap fun g => g.2.filter (c g.1)) ++
      gs.flatMap fun g => g.2.filter (!c g.1 ·)).Perm (gs.flatMap Prod.snd) := by
  induction gs with
  | nil => rfl
  | cons g gs ih =>
    rw [List.flatMap_cons, List.flatMap_cons, List.flatMap_cons, List.append_assoc]
    refine ((List.perm_append_comm_assoc ..).append_left _).trans ?_
    rw [← List.append_assoc]
    exact (List.filter_append_perm (c g.1) g.2).append ih

section
variable {κ : Type*} {key : α → κ}

/-- Where an element takes every later one of its key, the first elements have different keys. -/
theorem nodup_map_firsts (hkey : ∀ a b, key a = key b → takes a b = true) (l : List α) :
    ((firsts takes l).map key).Nodup := by
  refine List.pairwise_map.2 ((firsts_pairwise l).imp fun {a b} hab heq => ?_)
  rw [hkey a b heq] at hab
  cases hab

/-- So there are no more of them than keys. -/
theorem length_firsts_le [DecidableEq κ] (hkey : ∀ a b, key a = key b → takes a b = true)
    (l : List α) : (firsts takes l).length ≤ (l.map key).dedup.length := by
  rw [← List.length_map key]
  refine ((nodup_map_firsts hkey l).subperm fun k hk => ?_).length_le
  exact List.mem_dedup.2 (((firsts_sublist l).map key).subset hk)

end

/-! ## The order of the list -/

/-- An element may start its group before those that neither take it nor are taken by it. -/
theorem firsts_move (hindep : ∀ b ∈ p, takes a b = false ∧ takes b a = false) :
    (firsts takes (p ++ a :: q)).Perm (a :: firsts takes (others takes a (p ++ q))) := by
  induction hn : p.length using Nat.strongRecOn generalizing p q with
  | ind n ih =>
    cases p with
    | nil => simp
    | cons b p =>
      obtain ⟨⟨hab, hba⟩, hp⟩ := List.forall_mem_cons.1 hindep
      have hlt : (others takes b p).length < n := hn ▸ length_others_lt
      have hmove := ih _ hlt (q := others takes b q) (fun c hc => hp c (mem_others.1 hc).1) rfl
      rw [List.cons_append, List.cons_append, firsts_cons, others_append, others_cons_of_not hba,
        others_cons_of_not hab, firsts_cons]
      refine (hmove.cons b).trans (.trans (.swap a b _) ?_)
      -- what `a` and `b` leave does not depend on who comes first
      rw [← others_append, others_comm]

variable {κ : Type*} [DecidableEq κ] {key : α → κ} {τ : Type*} [PartialOrder τ] {time : α → τ}

/-- Taking leaves lists alike that were alike at each key. -/
theorem filter_key_others {l₁ l₂ : List α}
    (hkeys : ∀ k, l₁.filter (key · = k) = l₂.filter (key · = k)) (k : κ) :
    (others takes a l₁).filter (key · = k) = (others takes a l₂).filter (key · = k) := by
  unfold others
  rw [List.filter_comm, hkeys k, List.filter_comm]

/-- A list that lists the elements of each key alike has the first element too, behind elements of
other keys, and what is left of both lists them alike again. -/
theorem exists_split {l₂ : List α}
    (hkeys : ∀ k, (a :: l).filter (key · = k) = l₂.filter (key · = k)) :
    ∃ p q, l₂ = p ++ a :: q ∧ (∀ b ∈ p, key b ≠ key a) ∧
      ∀ k, l.filter (key · = k) = (p ++ q).filter (key · = k) := by
  obtain ⟨p, q, rfl, hp, -, -⟩ := List.filter_eq_cons_iff.1
    ((hkeys (key a)).symm.trans (List.filter_cons_of_pos (by simp)))
  have hp' : ∀ b ∈ p, key b ≠ key a := fun b hb => by simpa using hp b hb
  refine ⟨p, q, rfl, hp', fun k => ?_⟩
  have hk := hkeys k
  rw [List.filter_append, List.filter_cons, List.filter_cons] at hk
  rw [List.filter_append]
  split at hk
  case isTrue heq =>
    have hnil : p.filter (key · = k) = [] := List.filter_eq_nil_iff.2 fun b hb => by
      simpa [← of_decide_eq_true heq] using hp' b hb
    rw [hnil] at hk ⊢
    exact (List.cons.inj hk).2
  case isFalse => exact hk

/-- Lists that are alike at each key have the same elements. -/
theorem perm_of_filter_key {l₁ l₂ : List α}
    (hkeys : ∀ k, l₁.filter (key · = k) = l₂.filter (key · = k)) : l₁.Perm l₂ := by
  induction l₁ generalizing l₂ with
  | nil =>
    cases l₂ with
    | nil => rfl
    | cons b l₂ => simpa using hkeys (key b)
  | cons a l₁ ih =>
    obtain ⟨p, q, rfl, -, hrest⟩ := exists_split hkeys
    exact ((ih hrest).cons a).trans List.perm_middle.symm

/-- **Ties.** If elements at one time do not take each other unless they have one key, two lists in
order of time that list the elements of each key alike have the same first elements. -/
theorem firsts_perm
    (htie : ∀ a b, time a = time b → key a ≠ key b → takes a b = false) {l₁ l₂ : List α}
    (hsorted₁ : l₁.Pairwise (time · ≤ time ·)) (hsorted₂ : l₂.Pairwise (time · ≤ time ·))
    (hkeys : ∀ k, l₁.filter (key · = k) = l₂.filter (key · = k)) :
    (firsts takes l₁).Perm (firsts takes l₂) := by
  induction l₁ using groups.induct takes generalizing l₂ with
  | case1 => rw [List.Perm.nil_eq (perm_of_filter_key hkeys)]
  | case2 a l₁ ih =>
    have hperm := perm_of_filter_key hkeys
    obtain ⟨p, q, rfl, hp, hrest⟩ := exists_split hkeys
    have hsame : ∀ b ∈ p, time a = time b := fun b hb => by
      have hb' : b ∈ a :: l₁ := hperm.symm.subset (List.mem_append_left _ hb)
      refine le_antisymm ?_ ((List.pairwise_append.1 hsorted₂).2.2 b hb a (by simp))
      rcases List.mem_cons.1 hb' with rfl | hb'
      · rfl
      · exact (List.pairwise_cons.1 hsorted₁).1 b hb'
    refine List.Perm.trans ?_ (firsts_move fun b hb =>
      ⟨htie a b (hsame b hb) (hp b hb).symm, htie b a (hsame b hb).symm (hp b hb)⟩).symm
    rw [firsts_cons]
    refine .cons a (ih ?_ ?_ (filter_key_others hrest))
    · exact (List.pairwise_cons.1 hsorted₁).2.sublist others_sublist
    · refine hsorted₂.sublist (others_sublist.trans ?_)
      exact (List.Sublist.refl p).append (List.sublist_cons_self a q)

end Greedy
