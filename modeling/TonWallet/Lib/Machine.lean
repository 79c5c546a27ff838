import Mathlib.Data.List.Basic
import Mathlib.Tactic.Common

/-!
# Machines with partial steps

A program that reacts to its environment is a function `step s a : Option σ`:
the state after the action `a`, or `none` when `a` cannot happen in `s` (it is
not enabled there, or taking it ends the program). A run is a list of actions.

* `run`: the state a list of actions leads to.
* `Always P`: `P` holds in the first state of the run and after each of its
  actions, i.e. in every state the run reaches.
* `Guarded c`: every action of the run is taken in a state where `c` allows it.

Rules:

* `always_of_guarded`: an invariant kept by the steps that `c` allows holds
  along every guarded run.
* `always_iff_guarded`: if moreover every step outside `c` breaks the property,
  the guarded runs are exactly those along which the property holds.
* `always_iff_of_guarded`: the same among the runs that a second condition guards.
-/

namespace Machine

variable {σ α : Type*}

/-- The state reached from `s` by the actions `as`. -/
def run (step : σ → α → Option σ) : σ → List α → Option σ
  | s, [] => some s
  | s, a :: as => (step s a).bind fun t => run step t as

/-- `P` holds in `s` and in every state the actions `as` lead through. -/
def Always (step : σ → α → Option σ) (P : σ → Prop) : σ → List α → Prop
  | s, [] => P s
  | s, a :: as => P s ∧ ∀ t, step s a = some t → Always step P t as

/-- Every step of the run starts in a state in which `c` allows its action. -/
def Guarded (step : σ → α → Option σ) (c : σ → α → Prop) : σ → List α → Prop
  | _, [] => True
  | s, a :: as => ∀ t, step s a = some t → c s a ∧ Guarded step c t as

/-- `I` is kept by every step that `c` allows. -/
def Keeps (step : σ → α → Option σ) (c : σ → α → Prop) (I : σ → Prop) : Prop :=
  ∀ s a t, I s → c s a → step s a = some t → I t

variable {step : σ → α → Option σ} {c : σ → α → Prop} {P I : σ → Prop}

instance decidableGuarded [∀ s a, Decidable (c s a)] :
    ∀ s as, Decidable (Guarded step c s as)
  | _, [] => isTrue trivial
  | s, a :: as =>
    match h : step s a with
    | none => isTrue fun t ht => by rw [h] at ht; cases ht
    | some t =>
      have := decidableGuarded t as
      decidable_of_iff (c s a ∧ Guarded step c t as)
        ⟨fun hc u hu => by rw [h] at hu; cases hu; exact hc, fun hg => hg t h⟩

@[simp] theorem run_nil (s : σ) : run step s [] = some s := rfl

@[simp] theorem run_cons (s : σ) (a : α) (as : List α) :
    run step s (a :: as) = (step s a).bind fun t => run step t as := rfl

theorem run_append (s : σ) (as bs : List α) :
    run step s (as ++ bs) = (run step s as).bind fun t => run step t bs := by
  induction as generalizing s with
  | nil => rfl
  | cons a as ih =>
    simp only [List.cons_append, run_cons, Option.bind_assoc]
    congr 1
    funext t
    exact ih t

theorem Always.start {s : σ} {as : List α} (h : Always step P s as) : P s := by
  cases as with
  | nil => exact h
  | cons a as => exact h.1

theorem Always.mono {Q : σ → Prop} (hPQ : ∀ s, P s → Q s) {s : σ} {as : List α}
    (h : Always step P s as) : Always step Q s as := by
  induction as generalizing s with
  | nil => exact hPQ s h
  | cons a as ih => exact ⟨hPQ s h.1, fun t ht => ih (h.2 t ht)⟩

theorem Always.and {Q : σ → Prop} {s : σ} {as : List α} (hP : Always step P s as)
    (hQ : Always step Q s as) : Always step (fun s => P s ∧ Q s) s as := by
  induction as generalizing s with
  | nil => exact ⟨hP, hQ⟩
  | cons a as ih => exact ⟨⟨hP.1, hQ.1⟩, fun t ht => ih (hP.2 t ht) (hQ.2 t ht)⟩

/-- `Always` speaks about the state each prefix of the run ends in. -/
theorem always_iff {s : σ} {as : List α} :
    Always step P s as ↔ ∀ bs cs t, as = bs ++ cs → run step s bs = some t → P t := by
  induction as generalizing s with
  | nil =>
    constructor
    · intro h bs cs t he hr
      obtain ⟨rfl, -⟩ := List.append_eq_nil_iff.mp he.symm
      cases hr
      exact h
    · intro h
      exact h [] [] s rfl rfl
  | cons a as ih =>
    constructor
    · rintro ⟨hs, ht⟩ bs cs t he hr
      cases bs with
      | nil => cases hr; exact hs
      | cons b bs =>
        obtain ⟨rfl, rfl⟩ := List.cons.inj he
        obtain ⟨u, hu, hr⟩ := Option.bind_eq_some_iff.mp hr
        exact ih.mp (ht u hu) bs cs t rfl hr
    · intro h
      refine ⟨h [] _ s rfl rfl, fun t ht => ih.mpr fun bs cs u he hr => ?_⟩
      exact h (a :: bs) cs u (by rw [he]; rfl) (by rw [run_cons, ht]; exact hr)

/-- The state a run ends in. -/
theorem Always.of_run {s t : σ} {as : List α} (h : Always step P s as)
    (hr : run step s as = some t) : P t :=
  always_iff.mp h as [] t (by simp) hr

/-- A run that goes on. -/
theorem Always.append {s : σ} {as bs : List α} (h : Always step P s as)
    (ht : ∀ t, run step s as = some t → Always step P t bs) : Always step P s (as ++ bs) := by
  induction as generalizing s with
  | nil => exact ht s rfl
  | cons a as ih =>
    refine ⟨h.1, fun u hu => ih (h.2 u hu) fun t hr => ht t ?_⟩
    rw [run_cons, hu]
    exact hr

/-- A state that breaks the property refutes `Always` for the run leading to it. -/
theorem not_always_of_run {s t : σ} {as : List α} (hr : run step s as = some t) (ht : ¬ P t) :
    ¬ Always step P s as :=
  fun h => ht (h.of_run hr)

/-- The invariant rule. -/
theorem always_of_guarded (hI : Keeps step c I) (hP : ∀ s, I s → P s) {s : σ} {as : List α}
    (hs : I s) (hg : Guarded step c s as) : Always step P s as := by
  induction as generalizing s with
  | nil => exact hP s hs
  | cons a as ih =>
    refine ⟨hP s hs, fun t ht => ?_⟩
    obtain ⟨hc, hg⟩ := hg t ht
    exact ih (hI s a t hs hc ht) hg

theorem guarded_of_forall (hc : ∀ s a, c s a) (s : σ) (as : List α) : Guarded step c s as := by
  induction as generalizing s with
  | nil => trivial
  | cons a as ih => exact fun t _ => ⟨hc s a, ih t⟩

/-- The invariant rule, for an invariant that every step keeps. -/
theorem always_of_inv (hI : ∀ s a t, I s → step s a = some t → I t) (hP : ∀ s, I s → P s) {s : σ}
    (hs : I s) (as : List α) : Always step P s as :=
  always_of_guarded (c := fun _ _ => True) (fun s a t h _ => hI s a t h) hP hs
    (guarded_of_forall (fun _ _ => trivial) s as)

/-- Among the runs that `c` guards, `P` holds exactly along those that `d` guards too, when every
step that `d` forbids breaks `P`. -/
theorem always_iff_of_guarded {d : σ → α → Prop} (hI : Keeps step (fun s a => c s a ∧ d s a) I)
    (hP : ∀ s, I s → P s)
    (hbad : ∀ s a t, I s → c s a → step s a = some t → ¬ d s a → ¬ P t) {s : σ} {as : List α}
    (hs : I s) (hg : Guarded step c s as) :
    Always step P s as ↔ Guarded step d s as := by
  induction as generalizing s with
  | nil => exact iff_of_true (hP s hs) trivial
  | cons a as ih =>
    constructor
    · rintro ⟨-, h⟩ t ht
      obtain ⟨hc, hg⟩ := hg t ht
      have hd : d s a := by
        by_contra hd
        exact hbad s a t hs hc ht hd (h t ht).start
      exact ⟨hd, (ih (hI s a t hs ⟨hc, hd⟩ ht) hg).mp (h t ht)⟩
    · intro h
      refine ⟨hP s hs, fun t ht => ?_⟩
      obtain ⟨hc, hg⟩ := hg t ht
      obtain ⟨hd, h⟩ := h t ht
      exact (ih (hI s a t hs ⟨hc, hd⟩ ht) hg).mpr h

/-- When every step that `c` forbids breaks `P`, `P` holds along a run exactly
if the run is guarded. -/
theorem always_iff_guarded (hI : Keeps step c I) (hP : ∀ s, I s → P s)
    (hbad : ∀ s a t, I s → step s a = some t → ¬ c s a → ¬ P t) {s : σ} {as : List α} (hs : I s) :
    Always step P s as ↔ Guarded step c s as :=
  always_iff_of_guarded (c := fun _ _ => True) (fun s a t h hc => hI s a t h hc.2) hP
    (fun s a t h _ => hbad s a t h) hs (guarded_of_forall (fun _ _ => trivial) s as)

end Machine
