import DetectionSystem.Lib.Greedy
import Mathlib.Data.List.Sort

/-!
# One row of each group

A query with a `GROUP BY` that selects columns outside it returns one row of each group, and leaves
open which one. `OneOfEach key rows out` says that `out` is a result of that kind. Any row can be
the one of its group (`exists_oneOfEach`), and it may be exchanged for another one (`replace`).
Where a condition is the same on all rows of a group, the rows of the result that meet it are as
many as the keys of the rows that do (`length_filter`).
-/

namespace GroupBy

variable {α κ : Type*} {key : α → κ} {rows out : List α} {a b : α}

/-- `out` holds one of the `rows` for each key they have. -/
structure OneOfEach (key : α → κ) (rows out : List α) : Prop where
  subset : ∀ a ∈ out, a ∈ rows
  nodup : (out.map key).Nodup
  covers : ∀ a ∈ rows, key a ∈ out.map key

namespace OneOfEach

/-- The order of the rows does not matter. -/
theorem perm {out' : List α} (h : OneOfEach key rows out) (hperm : out.Perm out') :
    OneOfEach key rows out' where
  subset a ha := h.subset a (hperm.symm.subset ha)
  nodup := (hperm.map key).nodup_iff.1 h.nodup
  covers a ha := (hperm.map key).subset (h.covers a ha)

/-- Every group has its row. -/
theorem exists_mem (h : OneOfEach key rows out) (ha : a ∈ rows) : ∃ b ∈ out, key b = key a :=
  List.mem_map.1 (h.covers a ha)

/-- A row may stand for its group in place of another one. -/
theorem replace {p q : List α} (h : OneOfEach key rows (p ++ a :: q)) (hb : b ∈ rows)
    (hkey : key b = key a) : OneOfEach key rows (p ++ b :: q) where
  subset c hc := by
    rw [List.mem_append, List.mem_cons] at hc
    rcases hc with hc | rfl | hc
    · exact h.subset c (by simp [hc])
    · exact hb
    · exact h.subset c (by simp [hc])
  nodup := by simpa [hkey] using h.nodup
  covers c hc := by simpa [hkey] using h.covers c hc

/-- The rows of the result that meet a condition, where it is the same on each group. -/
theorem length_filter [DecidableEq κ] (h : OneOfEach key rows out) (c : α → Bool)
    (hc : ∀ a ∈ rows, ∀ b ∈ rows, key a = key b → c a = c b) :
    (out.filter c).length = ((rows.filter c).map key).dedup.length := by
  have hnodup : ((out.filter c).map key).Nodup := h.nodup.sublist (List.filter_sublist.map key)
  rw [← List.length_map key]
  refine ((List.perm_ext_iff_of_nodup hnodup (List.nodup_dedup _)).2 fun k => ?_).length_eq
  rw [List.mem_dedup, List.mem_map, List.mem_map]
  constructor
  · rintro ⟨a, ha, rfl⟩
    obtain ⟨ha, hca⟩ := List.mem_filter.1 ha
    exact ⟨a, List.mem_filter.2 ⟨h.subset a ha, hca⟩, rfl⟩
  · rintro ⟨a, ha, rfl⟩
    obtain ⟨ha, hca⟩ := List.mem_filter.1 ha
    obtain ⟨b, hb, hkey⟩ := h.exists_mem ha
    exact ⟨b, List.mem_filter.2 ⟨hb, (hc b (h.subset b hb) a ha hkey).trans hca⟩, hkey⟩

end OneOfEach

/-- The first row of each group is a result. -/
theorem oneOfEach_firsts [DecidableEq κ] (key : α → κ) (rows : List α) :
    OneOfEach key rows (Greedy.firsts (fun a b => key a = key b) rows) where
  subset a ha := (Greedy.firsts_sublist rows).subset ha
  nodup := Greedy.nodup_map_firsts (fun a b hab => decide_eq_true hab) rows
  covers a ha := by
    have hgroups : ((Greedy.groups (fun a b => key a = key b) rows).flatMap
        fun g => g.1 :: g.2).Perm rows := Greedy.groups_perm rows
    obtain ⟨g, hg, hag⟩ := List.mem_flatMap.1 (hgroups.symm.subset ha)
    have hfirst : key g.1 ∈ (Greedy.firsts (fun a b => decide (key a = key b)) rows).map key :=
      List.mem_map_of_mem (List.mem_map_of_mem hg)
    rcases List.mem_cons.1 hag with rfl | hag
    · exact hfirst
    · rwa [← of_decide_eq_true (Greedy.takes_of_mem hg a hag)]

/-- Every row is the one of its group in some result. -/
theorem exists_oneOfEach [DecidableEq κ] (ha : a ∈ rows) :
    ∃ out, OneOfEach key rows out ∧ a ∈ out := by
  obtain ⟨p, q, rfl⟩ := List.append_of_mem ha
  have h := oneOfEach_firsts key (a :: (p ++ q))
  rw [Greedy.firsts_cons] at h
  refine ⟨_, ⟨fun b hb => ?_, h.nodup, fun b hb => h.covers b ?_⟩, List.mem_cons_self⟩
  · exact List.perm_middle.symm.subset (h.subset b hb)
  · exact List.perm_middle.subset hb

/-- A result in order. -/
theorem OneOfEach.sorted (h : OneOfEach key rows out) (time : α → ℕ) :
    OneOfEach key rows (out.mergeSort fun a b => decide (time a ≤ time b)) ∧
      (out.mergeSort fun a b => decide (time a ≤ time b)).Pairwise (time · ≤ time ·) := by
  refine ⟨h.perm (List.mergeSort_perm _ _).symm, ?_⟩
  have hpairwise : (out.mergeSort fun a b => decide (time a ≤ time b)).Pairwise
      fun a b => decide (time a ≤ time b) := by
    refine List.pairwise_mergeSort (fun a b c hab hbc => ?_) (fun a b => ?_) out
    · simp only [decide_eq_true_eq] at *
      omega
    · simp only [Bool.or_eq_true, decide_eq_true_eq]
      omega
  exact hpairwise.imp fun hab => of_decide_eq_true hab

end GroupBy
