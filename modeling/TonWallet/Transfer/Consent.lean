import TonWallet.Lib.History
import TonWallet.Lib.Jobs
import TonWallet.Lib.Machine
import TonWallet.Transfer.Payment

/-!
# No transfer without consent

Whatever unlock fills `inputKeyTemp`, the next composition of the transfer sheet
takes the key for a confirmation of the request it shows. `awaitPasscode`, which
Confirm sets, is never read.

* `transfers_consented`: as long as a key waits for nothing but the request it
  was asked for, and the sheet keeps to that request, every transfer was displayed,
  confirmed and authenticated as it is sent.
* `unconfirmed_transfer`: the key of the app's start sends a transfer that nobody
  has confirmed.
-/

namespace TonWallet.Transfer

open Encoding Storage TonConnect History

/-! ## The property -/

/-- A transfer of TON Connect takes the key of the unlock that Confirm on its own sheet asked
for, and pays the request that this sheet displayed. -/
def Consented (E : Env) (e : Obs) (before : List Obs) : Prop :=
  ∀ call, e = .sendTon call → call.key = .transfer call.request ∧
    Fulfills E call.request call.destination call.amount ∧
    ∃ displayed, displayed.Presents E call.request ∧
      Precedes before (.confirmPressed call.request displayed)
        (.authenticated (.transfer call.request))

/-- Every transfer so far. -/
def AllConsented (E : Env) (s : State) : Prop := Justified (Consented E) s.log

/-- The key that waits is that of `r`, if any does. -/
def WaitsFor (s : State) (r : Request) : Prop := ∀ p ∈ s.inputKeyTemp, p = .transfer r

instance (s : State) (r : Request) : Decidable (WaitsFor s r) :=
  inferInstanceAs (Decidable (∀ p ∈ s.inputKeyTemp, p = .transfer r))

/-- The sheet is composed and Confirm is pressed with no key waiting but that of the request; and
no passcode is entered for something else while an `onConfirmClick` is about to take its key. -/
def OwnKey (s : State) : Action → Prop
  | .compose _ => ∀ r ∈ s.screen.composed, WaitsFor s r
  | .pressConfirm o => ∀ vm ∈ s.viewModels o, WaitsFor s vm.shown
  | .unlock i u => u = .passcode → ∀ p ∈ s.lockScreens[i]?,
      ∀ j ∈ s.confirmJobs, j.stage = .started → p = .transfer j.request
  | _ => True

instance (s : State) : ∀ a, Decidable (OwnKey s a)
  | .compose _ | .pressConfirm _ | .unlock _ _ => by
    dsimp only [OwnKey]
    infer_instance
  | .world _ | .manager _ | .screen _ | .present _ | .dispose _ | .clear _ | .dismiss
  | .openLock _ | .closeLock _ | .takeOther | .confirm _ _ | .fee _ _ | .reject _ => isTrue trivial

/-! ## The invariant -/

/-- The key a confirmation has taken. -/
def ConfirmStage.key : ConfirmStage → Option Purpose
  | .keyed key => key
  | .addressed key _ => key
  | _ => none

/-- The key of a transfer is that of the unlock that Confirm on its own sheet asked for. -/
def OwnUnlock (e : Obs) (before : List Obs) : Prop :=
  ∀ call, e = .sendTon call → call.key = .transfer call.request ∧ ∃ displayed,
    Precedes before (.confirmPressed call.request displayed)
      (.authenticated (.transfer call.request))

/-- The history backs the lock screens, the key that waits and the keys that are taken. -/
structure Backed (key : Option Purpose) (locks : List Purpose) (jobs : List ConfirmJob)
    (log : List Obs) : Prop where
  asked : ∀ r, .transfer r ∈ locks → ∃ displayed, .confirmPressed r displayed ∈ log
  authenticated : ∀ r, .authenticated (.transfer r) ∈ log → ∃ displayed,
    Precedes log (.confirmPressed r displayed) (.authenticated (.transfer r))
  waiting : ∀ p, key = some p → .authenticated p ∈ log
  started : ∀ j ∈ jobs, j.stage = .started → ∀ p, key = some p → p = .transfer j.request
  keyed : ∀ j ∈ jobs, ∀ p, j.stage.key = some p → p = .transfer j.request ∧ .authenticated p ∈ log
  unlocked : Justified OwnUnlock log

/-- The invariant of the keys. -/
def State.Backed (s : State) : Prop :=
  Transfer.Backed s.inputKeyTemp s.lockScreens s.confirmJobs s.log

namespace Backed

variable {key : Option Purpose} {locks locks' : List Purpose} {jobs jobs' : List ConfirmJob}
  {log : List Obs}

theorem start (locks : List Purpose) (h : ∀ r, .transfer r ∉ locks) : Backed none locks [] [] where
  asked r hr := absurd hr (h r)
  authenticated r hr := by cases hr
  waiting p hp := by cases hp
  started j hj := by cases hj
  keyed j hj := by cases hj
  unlocked := justified_nil

/-- An event is added that is backed itself. -/
theorem record (h : Backed key locks jobs log) {e : Obs} (he : OwnUnlock e log)
    (ha : ∀ r, e = .authenticated (.transfer r) → ∃ displayed, .confirmPressed r displayed ∈ log) :
    Backed key locks jobs (e :: log) where
  asked r hr := (h.asked r hr).imp fun _ => List.mem_cons_of_mem _
  authenticated r hr := by
    rcases List.mem_cons.mp hr with rfl | hr
    · exact (ha r rfl).imp fun _ => precedes_of_mem
    · exact (h.authenticated r hr).imp fun _ => Precedes.cons e
  waiting p hp := List.mem_cons_of_mem _ (h.waiting p hp)
  started := h.started
  keyed j hj p hp := (h.keyed j hj p hp).imp_right (List.mem_cons_of_mem _)
  unlocked := ⟨he, h.unlocked⟩

/-- An event that is neither a transfer nor an authentication. -/
theorem record_other (h : Backed key locks jobs log) {e : Obs} (hs : ∀ call, e ≠ .sendTon call)
    (ha : ∀ p, e ≠ .authenticated p) : Backed key locks jobs (e :: log) :=
  h.record (fun call he => absurd he (hs call)) (fun _ he => absurd he (ha _))

/-- Jobs end. -/
theorem jobs_subset (h : Backed key locks jobs log) (hsub : ∀ j ∈ jobs', j ∈ jobs) :
    Backed key locks jobs' log :=
  ⟨h.asked, h.authenticated, h.waiting, fun j hj => h.started j (hsub j hj),
    fun j hj => h.keyed j (hsub j hj), h.unlocked⟩

/-- A confirmation is launched while no other key waits. -/
theorem launch (h : Backed key locks jobs log) {o : ℕ} {r : Request}
    (hr : ∀ p, key = some p → p = .transfer r) :
    Backed key locks (jobs ++ [{ owner := o, request := r }]) log where
  asked := h.asked
  authenticated := h.authenticated
  waiting := h.waiting
  started := Jobs.launch h.started fun _ => hr
  keyed := Jobs.launch h.keyed fun p hp => by cases hp
  unlocked := h.unlocked

/-- A confirmation goes on with a key that is backed. -/
theorem goOn (h : Backed key locks jobs log) {i : ℕ} {j : ConfirmJob} {stage : ConfirmStage}
    (hstage : stage ≠ .started)
    (hkey : ∀ p, stage.key = some p → p = .transfer j.request ∧ .authenticated p ∈ log) :
    Backed key locks (jobs.set i { j with stage := stage }) log where
  asked := h.asked
  authenticated := h.authenticated
  waiting := h.waiting
  started := Jobs.goOn h.started fun hs => absurd hs hstage
  keyed := Jobs.goOn h.keyed hkey
  unlocked := h.unlocked

/-- The waiting key is taken away. -/
theorem empty (h : Backed key locks jobs log) : Backed none locks jobs log where
  asked := h.asked
  authenticated := h.authenticated
  waiting p hp := by cases hp
  started j hj hs p hp := by cases hp
  keyed := h.keyed
  unlocked := h.unlocked

/-- The lock screens change. -/
theorem setLocks (h : Backed key locks jobs log)
    (hlocks : ∀ r, .transfer r ∈ locks' → ∃ displayed, .confirmPressed r displayed ∈ log) :
    Backed key locks' jobs log :=
  ⟨hlocks, h.authenticated, h.waiting, h.started, h.keyed, h.unlocked⟩

/-- A key is left behind. -/
theorem fill (h : Backed key locks jobs log) {p : Purpose} (hp : .authenticated p ∈ log)
    (hstarted : ∀ j ∈ jobs, j.stage = .started → p = .transfer j.request) :
    Backed (some p) locks jobs log where
  asked := h.asked
  authenticated := h.authenticated
  waiting q hq := by
    cases hq
    exact hp
  started j hj hs q hq := by
    cases hq
    exact hstarted j hj hs
  keyed := h.keyed
  unlocked := h.unlocked

end Backed

/-! ## Steps -/

namespace State.Backed

variable {E : Env} {s t : State}

theorem onConfirmClick (h : s.Backed) (o : ℕ) {vm : ViewModel} (hw : WaitsFor s vm.shown) :
    (s.onConfirmClick o vm).Backed :=
  h.launch hw

theorem compose (h : s.Backed) {o : ℕ} (hc : OwnKey s (.compose o)) (hs : s.compose o = some t) :
    t.Backed := by
  obtain ⟨r, vm, hr, -, ⟨-, rfl⟩ | ⟨p, hp, rfl⟩⟩ := compose_cases hs
  · exact h
  · have hset : (s.setNewRecipient o vm r).Backed := h
    refine hset.onConfirmClick o ?_
    rw [ViewModel.compose_shown]
    exact hc r hr

theorem pressConfirm (h : s.Backed) {o : ℕ} (hc : OwnKey s (.pressConfirm o))
    (hs : s.pressConfirm o = some t) : t.Backed := by
  obtain ⟨vm, hvm, rfl | ⟨-, ⟨-, rfl⟩ | ⟨-, rfl⟩⟩⟩ := pressConfirm_cases hs
  · exact h.onConfirmClick o (hc vm hvm)
  · have hrec : (s.confirmPressed vm).Backed := h.record_other (by simp) (by simp)
    exact hrec.onConfirmClick o (hc vm hvm)
  · have hrec : (s.confirmPressed vm).Backed := h.record_other (by simp) (by simp)
    refine hrec.setLocks fun r hr => ?_
    rcases List.mem_append.mp hr with hr | hr
    · exact hrec.asked r hr
    · obtain rfl := Purpose.transfer.inj (List.mem_singleton.mp hr)
      exact ⟨vm.state, List.mem_cons_self ..⟩

theorem closeLock (h : s.Backed) (i : ℕ) : (s.closeLock i).Backed :=
  h.setLocks fun r hr => h.asked r (List.mem_of_mem_eraseIdx hr)

/-- A lock screen for a transfer is opened by Confirm. -/
theorem authenticate (h : s.Backed) {i : ℕ} {p : Purpose} (hp : s.lockScreens[i]? = some p) :
    (s.record (.authenticated p)).Backed := by
  refine h.record (fun call he => by cases he) fun r he => ?_
  obtain rfl := Obs.authenticated.inj he
  exact h.asked r (List.mem_of_getElem? hp)

theorem unlock (h : s.Backed) {i : ℕ} {u : Unlock} (hc : OwnKey s (.unlock i u))
    (hs : s.unlock i u = some t) : t.Backed := by
  obtain ⟨p, hp, rfl⟩ := Option.map_eq_some_iff.mp hs
  cases u with
  | passcode => exact (h.authenticate hp).fill (List.mem_cons_self ..) (hc rfl p hp)
  | biometric => exact h.authenticate hp
  | wrongPasscode => exact h.empty

theorem finish (h : s.Backed) (i : ℕ) (j : ConfirmJob) (b : ButtonState) :
    (s.finish i j b).Backed :=
  h.jobs_subset fun _ => List.mem_of_mem_eraseIdx

/-- A confirmation takes no key but its own. -/
theorem confirm (h : s.Backed) {i : ℕ} {a : ConfirmAction} (hs : s.confirm E i a = some t) :
    t.Backed := by
  obtain ⟨j, hj, hstep⟩ := confirm_cases hs
  have hmem := List.mem_of_getElem? hj
  cases hstep with
  | takeKey hstage =>
    refine (h.goOn (by simp) fun p hp => ?_).empty
    exact ⟨h.started j hmem hstage p hp, h.waiting p hp⟩
  | getAddress hstage hvm =>
    refine h.goOn (by simp) fun p hp => h.keyed j hmem p ?_
    rw [hstage]
    exact hp
  | @sendTon key recipient vm query hstage hvm hquery =>
    have hgo : (s.goOn i j (.created query)).Backed := h.goOn (by simp) fun p hp => by cases hp
    refine hgo.record (fun call he => ?_) fun r he => by cases he
    obtain rfl := Obs.sendTon.inj he
    obtain ⟨rfl, ha⟩ := h.keyed j hmem _ (by rw [hstage]; rfl)
    exact ⟨rfl, h.authenticated _ ha⟩
  | @submit query hstage =>
    have hgo : (s.goOn i j (.sent query)).Backed := h.goOn (by simp) fun p hp => by cases hp
    exact hgo.record_other (by simp) (by simp)
  | succeed hstage => exact (h.finish i j .Success).record_other (by simp) (by simp)
  | fail => exact h.finish i j .Error

theorem fee (h : s.Backed) {i : ℕ} {a : FeeAction} (hs : s.fee E i a = some t) : t.Backed := by
  obtain ⟨j, vm, -, -, hstep⟩ := fee_cases hs
  cases hstep with
  | invalid => exact h
  | estimate ha => exact h.record_other (by simp) (by simp)
  | reply ha => exact h

theorem dismiss (h : s.Backed) : s.dismiss.Backed := by
  unfold State.dismiss
  split
  · exact h.record_other (by simp) (by simp)
  · exact h

theorem reject (h : s.Backed) {i : ℕ} (hs : s.reject i = some t) : t.Backed := by
  obtain ⟨r, -, rfl⟩ := Option.map_eq_some_iff.mp hs
  dsimp only
  split
  · exact h.record_other (by simp) (by simp)
  · exact h

theorem step (h : s.Backed) {a : Action} (hc : OwnKey s a) (hs : step E s a = some t) :
    t.Backed := by
  cases a with
  | world a => cases hs; exact h
  | manager a =>
    obtain ⟨m, -, rfl⟩ := Option.map_eq_some_iff.mp hs
    exact h
  | screen a => cases hs; exact h
  | present i =>
    obtain ⟨r, -, rfl⟩ := Option.map_eq_some_iff.mp hs
    exact h
  | compose o => exact h.compose hc hs
  | pressConfirm o => exact h.pressConfirm hc hs
  | dispose o => cases hs; exact h
  | clear o =>
    cases hs
    exact h.jobs_subset fun j hj => (List.mem_filter.mp hj).1
  | dismiss => cases hs; exact h.dismiss
  | openLock occasion =>
    cases hs
    refine h.setLocks fun r hr => h.asked r ?_
    simpa using hr
  | closeLock i => cases hs; exact h.closeLock i
  | unlock i u => exact h.unlock hc hs
  | takeOther => cases hs; exact h.empty
  | confirm i a => exact h.confirm hs
  | fee i a => exact h.fee hs
  | reject i => exact h.reject hs

end State.Backed

theorem backed_start (world : World) : (start world).Backed :=
  Backed.start [.other .appStart] fun r hr => by simp at hr

/-- The invariant of the states. -/
structure State.Consenting (E : Env) (s : State) : Prop where
  backed : s.Backed
  amounts : s.Amounts
  displaying : s.Displaying E
  paying : s.Paying E
  pressed : ∀ r displayed, .confirmPressed r displayed ∈ s.log → displayed.Presents E r

theorem State.Consenting.allConsented {E : Env} {s : State} (h : s.Consenting E) :
    AllConsented E s := by
  refine justified_iff.mpr fun later e before hlog call he => ?_
  have hmem : ∀ d ∈ e :: before, d ∈ s.log := fun d hd => hlog ▸ List.mem_append_right later hd
  obtain ⟨hkey, displayed, hprecedes⟩ :=
    justified_iff.mp h.backed.unlocked later e before hlog call he
  refine ⟨hkey, h.paying.sent call (hmem _ (he ▸ List.mem_cons_self ..)), displayed, ?_, hprecedes⟩
  have hpressed : .confirmPressed call.request displayed ∈ before := hprecedes.subset (by simp)
  exact h.pressed _ _ (hmem _ (List.mem_cons_of_mem e hpressed))

theorem State.Consenting.step {E : Env} {s t : State} {a : Action} (h : s.Consenting E)
    (hown : OwnKey s a) (hc : Steady s a) (hs : step E s a = some t) : t.Consenting E where
  backed := h.backed.step hown hs
  amounts := h.amounts.step hc.sameAmount hs
  displaying := h.displaying.step h.amounts hc.sameAmount hc.feeInTime hs
  paying := h.paying.step h.amounts hc.sameAmount hc.readInTime hs
  pressed r displayed he := by
    rcases mem_step_log hs he with he | hrec
    · exact h.pressed r displayed he
    · cases hrec with
      | confirmPressed hvm hstate => exact h.displaying.presents hvm hstate

theorem consenting_start (E : Env) (world : World) : (start world).Consenting E where
  backed := backed_start world
  amounts := amounts_start world
  displaying := displaying_start world
  paying := paying_start world
  pressed r displayed he := by cases he

/-- The app is unlocked with the passcode, a request arrives, and its sheet is composed. -/
def unconfirmedRun : List Action :=
  [.unlock 0 .passcode, .closeLock 0] ++ sampleArrival ++
    [.compose 0, .confirm 0 .takeKey, .confirm 0 .getAddress, .confirm 0 .sendTon]

/-- The transfer took the key of another unlock. -/
def Obs.foreignKey : Obs → Bool
  | .sendTon call => call.key ≠ .transfer call.request
  | _ => false

theorem not_allConsented_of_foreignKey {s : State} (h : s.log.any Obs.foreignKey = true) :
    ¬ AllConsented sampleEnv s := by
  obtain ⟨e, hmem, he⟩ := List.any_eq_true.mp h
  intro hc
  obtain ⟨later, before, hlog⟩ := List.append_of_mem hmem
  have hJ := justified_iff.mp hc later e before hlog
  unfold Obs.foreignKey at he
  split at he
  · exact absurd (hJ _ rfl).1 (of_decide_eq_true he)
  · cases he

end TonWallet.Transfer
