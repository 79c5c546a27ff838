import Mathlib.Data.List.Pairwise
import Mathlib.Order.Lattice
import Mathlib.Tactic.Common

/-!
# Logs that are read by pages

A log grows at its front, and every entry has an id. A page is a number of
entries from an id on, the newest first; the ids of newer entries are greater in
the order `ord`.

* `mem_page_of_between`: a page has no gaps.
* `mem_page_of_count`: a page is long enough for a number of entries.
* `page_cons`: a page of old entries does not change as the log grows.
* `Newest.eq_of_id`: an id has one entry.
-/

namespace Pages

variable {α κ τ : Type*} [LinearOrder τ] {id : α → κ} {ord : κ → τ} {n : ℕ} {k : κ} {log : List α}
  {a t u : α}

/-- Newer entries have greater ids. -/
def Newest (id : α → κ) (ord : κ → τ) (log : List α) : Prop :=
  log.Pairwise fun a b => ord (id b) < ord (id a)

theorem newest_nil : Newest id ord [] := List.Pairwise.nil

theorem newest_cons :
    Newest id ord (a :: log) ↔ (∀ t ∈ log, ord (id t) < ord (id a)) ∧ Newest id ord log :=
  List.pairwise_cons

/-- The newest entries of a log have no gaps. -/
theorem mem_take_of_le (hlog : Newest id ord log) (hu : u ∈ log.take n) (ht : t ∈ log)
    (hut : ord (id u) ≤ ord (id t)) : t ∈ log.take n := by
  rw [← List.take_append_drop n log] at ht
  rcases List.mem_append.mp ht with ht | ht
  · exact ht
  · rw [Newest, ← List.take_append_drop n log] at hlog
    exact absurd ((List.pairwise_append.mp hlog).2.2 u hu t ht) (not_lt.mpr hut)

/-- An entry is among the newest `n` if there are no more from it on. -/
theorem mem_take_of_count (hlog : Newest id ord log) (ht : t ∈ log)
    (hcount : log.countP (fun a => ord (id t) ≤ ord (id a)) ≤ n) : t ∈ log.take n := by
  induction log generalizing n with
  | nil => cases ht
  | cons b log ih =>
    obtain ⟨hbefore, hlog⟩ := newest_cons.mp hlog
    have hb : ord (id t) ≤ ord (id b) := by
      rcases List.mem_cons.mp ht with rfl | ht
      · exact le_refl _
      · exact le_of_lt (hbefore t ht)
    rw [List.countP_cons_of_pos (by simpa using hb)] at hcount
    obtain ⟨m, rfl⟩ := Nat.exists_eq_add_of_le' (Nat.le_of_add_left_le hcount)
    rw [List.take_succ_cons]
    rcases List.mem_cons.mp ht with rfl | ht
    · exact List.mem_cons_self ..
    · exact List.mem_cons_of_mem _ (ih hlog ht (Nat.le_of_succ_le_succ hcount))

/-- The first entry is the newest. -/
theorem Newest.le_head (hlog : Newest id ord (a :: log)) (ht : t ∈ a :: log) :
    ord (id t) ≤ ord (id a) := by
  rcases List.mem_cons.mp ht with rfl | ht
  · exact le_refl _
  · exact le_of_lt ((newest_cons.mp hlog).1 t ht)

/-- An id has one entry. -/
theorem Newest.eq_of_id (hlog : Newest id ord log) (ht : t ∈ log) (hu : u ∈ log)
    (h : id t = id u) : t = u := by
  induction log with
  | nil => cases ht
  | cons b log ih =>
    obtain ⟨hbefore, hlog⟩ := newest_cons.mp hlog
    rcases List.mem_cons.mp ht with rfl | ht' <;> rcases List.mem_cons.mp hu with rfl | hu'
    · rfl
    · exact absurd (hbefore u hu') (by rw [h]; exact lt_irrefl _)
    · exact absurd (hbefore t ht') (by rw [h]; exact lt_irrefl _)
    · exact ih hlog ht' hu'

variable [DecidableEq κ]

/-- The `n` newest entries from the one with the id `k` on. -/
def page (id : α → κ) (n : ℕ) (k : κ) (log : List α) : List α :=
  (log.dropWhile fun a => id a ≠ k).take n

theorem mem_of_mem_page (h : t ∈ page id n k log) : t ∈ log :=
  (List.dropWhile_sublist _).mem (List.mem_of_mem_take h)

theorem page_cons_self (h : id a = k) : page id n k (a :: log) = (a :: log).take n := by
  rw [page, List.dropWhile_cons_of_neg (by simpa using h)]

/-- A page does not reach the entries before its id. -/
theorem page_cons (h : id a ≠ k) : page id n k (a :: log) = page id n k log := by
  rw [page, List.dropWhile_cons_of_pos (by simpa using h), page]

/-- A page that is not empty begins with the entry of its id. -/
theorem exists_of_mem_page (h : t ∈ page id n k log) : ∃ c ∈ log, id c = k := by
  induction log with
  | nil => simp [page] at h
  | cons b log ih =>
    by_cases hb : id b = k
    · exact ⟨b, List.mem_cons_self .., hb⟩
    · obtain ⟨c, hc, he⟩ := ih (page_cons hb ▸ h)
      exact ⟨c, List.mem_cons_of_mem _ hc, he⟩

/-- A page has no gaps. -/
theorem mem_page_of_between (hlog : Newest id ord log) (hu : u ∈ page id n k log) (ht : t ∈ log)
    (hut : ord (id u) ≤ ord (id t)) (hk : ord (id t) ≤ ord k) : t ∈ page id n k log := by
  induction log with
  | nil => cases ht
  | cons b log ih =>
    by_cases hb : id b = k
    · rw [page_cons_self hb] at hu ⊢
      exact mem_take_of_le hlog hu ht hut
    · rw [page_cons hb] at hu ⊢
      obtain ⟨hbefore, hlog⟩ := newest_cons.mp hlog
      obtain ⟨c, hc, he⟩ := exists_of_mem_page hu
      rcases List.mem_cons.mp ht with rfl | ht
      · exact absurd (he ▸ hbefore c hc) (not_lt.mpr hk)
      · exact ih hlog hu ht

/-- A page has the entries up to its id after which there are not too many others. -/
theorem mem_page_of_count (hlog : Newest id ord log) (hk : ∃ c ∈ log, id c = k) (ht : t ∈ log)
    (hle : ord (id t) ≤ ord k)
    (hcount : log.countP (fun a => ord (id t) ≤ ord (id a) ∧ ord (id a) ≤ ord k) ≤ n) :
    t ∈ page id n k log := by
  induction log with
  | nil => cases ht
  | cons b log ih =>
    by_cases hb : id b = k
    · rw [page_cons_self hb]
      refine mem_take_of_count hlog ht (Nat.le_trans ?_ hcount)
      refine List.countP_mono_left fun a ha hta => ?_
      have hab := hb ▸ hlog.le_head ha
      simpa [hab] using hta
    · rw [page_cons hb]
      obtain ⟨c, hc, he⟩ := hk
      have hcl : c ∈ log := (List.mem_cons.mp hc).resolve_left fun h => hb (h ▸ he)
      obtain ⟨hbefore, hlog⟩ := newest_cons.mp hlog
      have htl : t ∈ log := by
        refine (List.mem_cons.mp ht).resolve_left fun h => ?_
        exact absurd (he ▸ hbefore c hcl) (not_lt.mpr (h ▸ hle))
      have hsub : log.Sublist (b :: log) := List.sublist_cons_self b log
      exact ih hlog ⟨c, hcl, he⟩ htl (Nat.le_trans hsub.countP_le hcount)

end Pages
