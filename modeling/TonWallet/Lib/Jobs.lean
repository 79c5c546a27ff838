import Mathlib.Data.List.Perm.Basic
import Mathlib.Tactic.Common

/-!
# Lists of running jobs

A job is launched at the end of the list, goes on in its place, and ends by
leaving the list. What holds of all jobs before holds of all jobs after, if it
holds of the one that is new.

* `launch`, `goOn`, `finish`: the three rules for a property of all jobs.
* `count_finish`: what is counted is the job that ends, and the others.
* `goOn_perm`, `finish_perm`: up to order, the job that goes on stands before
  the others.
-/

namespace Jobs

variable {α : Type*} {Q : α → Prop} {jobs : List α} {j : α}

theorem launch (h : ∀ k ∈ jobs, Q k) (hj : Q j) : ∀ k ∈ jobs ++ [j], Q k :=
  List.forall_mem_append.mpr ⟨h, List.forall_mem_singleton.mpr hj⟩

theorem goOn (h : ∀ k ∈ jobs, Q k) {i : ℕ} (hj : Q j) : ∀ k ∈ jobs.set i j, Q k := by
  intro k hk
  rcases List.mem_or_eq_of_mem_set hk with hk | rfl
  · exact h k hk
  · exact hj

theorem finish (h : ∀ k ∈ jobs, Q k) (i : ℕ) : ∀ k ∈ jobs.eraseIdx i, Q k :=
  fun k hk => h k (List.mem_of_mem_eraseIdx hk)

theorem count_finish [DecidableEq α] {i : ℕ} (hj : jobs[i]? = some j) (k : α) :
    jobs.count k = (jobs.eraseIdx i).count k + if j = k then 1 else 0 := by
  obtain ⟨hi, rfl⟩ := List.getElem?_eq_some_iff.mp hj
  have hperm := (List.getElem_cons_eraseIdx_perm hi).count_eq k
  rw [← hperm, List.count_cons]
  simp

theorem finish_perm {i : ℕ} (hj : jobs[i]? = some j) : jobs.Perm (j :: jobs.eraseIdx i) := by
  obtain ⟨hi, rfl⟩ := List.getElem?_eq_some_iff.mp hj
  exact (List.getElem_cons_eraseIdx_perm hi).symm

theorem goOn_perm {i : ℕ} (hj : jobs[i]? = some j) (k : α) :
    (jobs.set i k).Perm (k :: jobs.eraseIdx i) := by
  obtain ⟨hi, -⟩ := List.getElem?_eq_some_iff.mp hj
  exact List.set_perm_cons_eraseIdx hi k

end Jobs
