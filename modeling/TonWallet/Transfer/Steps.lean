import TonWallet.Lib.Jobs
import TonWallet.Transfer.Model

/-!
# The steps of the transfers

What the actions with several outcomes can do, said once: the properties split
on these and do not unfold the actions.
-/

namespace TonWallet.Transfer

open Encoding Storage TonConnect

variable {E : Env} {s t : State}

@[simp] theorem ViewModel.compose_shown (vm : ViewModel) (r : Request) :
    (vm.compose r).shown = r := by
  unfold ViewModel.compose
  split <;> rfl

@[simp] theorem ViewModel.compose_value (vm : ViewModel) (r : Request) :
    (vm.compose r).value = vm.value := by
  unfold ViewModel.compose
  split <;> rfl

@[simp] theorem ViewModel.compose_recipientAddress (vm : ViewModel) (r : Request) :
    (vm.compose r).recipientAddress = r.event.recipient := by
  unfold ViewModel.compose
  split_ifs with h
  · rfl
  · exact (not_not.mp h).symm

theorem ViewModel.create_spec {r : Request} {vm : ViewModel} (h : ViewModel.create r = some vm) :
    vm.state = .Loading ∧ toLong r.event.amount = some vm.value := by
  unfold ViewModel.create at h
  split at h
  · rename_i value hvalue
    cases h
    exact ⟨rfl, hvalue⟩
  · cases h

/-- The view model of an entry is the cached one, or a new one. -/
theorem viewModel_cases {o : ℕ} {r : Request} {vm : ViewModel} (h : s.viewModel o r = some vm) :
    s.viewModels o = some vm ∨ s.viewModels o = none ∧ ViewModel.create r = some vm := by
  unfold State.viewModel at h
  cases hv : s.viewModels o with
  | none =>
    rw [hv] at h
    exact Or.inr ⟨rfl, h⟩
  | some cached =>
    rw [hv] at h
    exact Or.inl h

/-- A composition shows the request, and confirms it if a key waits. -/
theorem compose_cases {o : ℕ} (h : s.compose o = some t) :
    ∃ r vm, s.screen.composed = some r ∧ s.viewModel o r = some vm ∧
      ((s.inputKeyTemp = none ∧ t = s.setNewRecipient o vm r) ∨
        ∃ p, s.inputKeyTemp = some p ∧
          t = (s.setNewRecipient o vm r).onConfirmClick o (vm.compose r)) := by
  obtain ⟨r, hr, h⟩ := Option.bind_eq_some_iff.mp h
  obtain ⟨vm, hvm, rfl⟩ := Option.map_eq_some_iff.mp h
  refine ⟨r, vm, hr, hvm, ?_⟩
  cases hk : s.inputKeyTemp with
  | none =>
    refine Or.inl ⟨rfl, if_neg ?_⟩
    show ¬ s.inputKeyTemp.isSome = true
    simp [hk]
  | some p =>
    refine Or.inr ⟨p, rfl, if_pos ?_⟩
    show s.inputKeyTemp.isSome = true
    simp [hk]

/-- Confirm was pressed on a sheet that displays an amount and a recipient. -/
def State.confirmPressed (s : State) (vm : ViewModel) : State :=
  s.record (.confirmPressed vm.shown vm.state)

/-- Confirm starts a confirmation, or opens a lock screen for one. -/
theorem pressConfirm_cases {o : ℕ} (h : s.pressConfirm o = some t) :
    ∃ vm, s.viewModels o = some vm ∧
      (t = s.onConfirmClick o vm ∨
        (∃ amount recipient fee, vm.state = .InfoLoaded amount recipient fee) ∧
          ((s.inputKeyTemp ≠ none ∧ t = (s.confirmPressed vm).onConfirmClick o vm) ∨
          (s.inputKeyTemp = none ∧ t = { s.confirmPressed vm with
            lockScreens := s.lockScreens ++ [.transfer vm.shown] }))) := by
  obtain ⟨r, -, h⟩ := Option.bind_eq_some_iff.mp h
  obtain ⟨vm, hvm, rfl⟩ := Option.map_eq_some_iff.mp h
  refine ⟨vm, hvm, ?_⟩
  split
  · rename_i amount recipient fee hstate
    refine Or.inr ⟨⟨amount, recipient, fee, hstate⟩, ?_⟩
    cases hk : s.inputKeyTemp with
    | none =>
      refine Or.inr ⟨rfl, if_neg ?_⟩
      show ¬ s.inputKeyTemp.isSome = true
      simp [hk]
    | some p =>
      refine Or.inl ⟨by simp, if_pos ?_⟩
      show s.inputKeyTemp.isSome = true
      simp [hk]
  · exact Or.inl rfl

/-- The recipient a confirmation with a key sends to. -/
def ConfirmStage.recipient : ConfirmStage → Option Text
  | .addressed (some _) recipient => some recipient
  | _ => none

/-- The steps of a confirmation `j` at place `i`. -/
inductive ConfirmStep (E : Env) (s : State) (i : ℕ) (j : ConfirmJob) : ConfirmAction → State → Prop
  | takeKey : j.stage = .started → ConfirmStep E s i j .takeKey
      { s.goOn i j (.keyed s.inputKeyTemp) with inputKeyTemp := none }
  | getAddress {key : Option Purpose} {vm : ViewModel} :
      j.stage = .keyed key → s.viewModels j.owner = some vm →
      ConfirmStep E s i j .getAddress (s.goOn i j (.addressed key vm.recipientAddress))
  | sendTon {key : Purpose} {recipient : Text} {vm : ViewModel} {query : Query} :
      j.stage = .addressed (some key) recipient → s.viewModels j.owner = some vm →
      query = { sender := s.world.currentWallet.map WalletData.address
                destination := (E.getAddressFromRaw recipient).getD [], amount := vm.value } →
      ConfirmStep E s i j .sendTon ((s.goOn i j (.created query)).record (.sendTon
        { request := j.request, shown := vm.shown, key := key
          destination := query.destination, amount := query.amount }))
  | submit {query : Query} : j.stage = .created query → ConfirmStep E s i j (.createQuery true)
      ((s.goOn i j (.sent query)).record (.submitted j.request query s.world.now))
  | succeed {query : Query} : j.stage = .sent query → ConfirmStep E s i j (.querySend true)
      ((s.finish i j .Success).record (.succeeded j.request))
  | fail {a : ConfirmAction} : a ≠ .querySend true → ConfirmStep E s i j a (s.finish i j .Error)

theorem confirm_cases {i : ℕ} {a : ConfirmAction} (h : s.confirm E i a = some t) :
    ∃ j, s.confirmJobs[i]? = some j ∧ ConfirmStep E s i j a t := by
  obtain ⟨j, hj, hs⟩ := Option.bind_eq_some_iff.mp h
  clear h
  refine ⟨j, hj, ?_⟩
  dsimp only at hs
  split at hs
  · rename_i hstage
    cases hs
    exact .takeKey hstage
  · rename_i hstage
    obtain ⟨vm, hvm, rfl⟩ := Option.map_eq_some_iff.mp hs
    exact .getAddress hstage hvm
  · cases hs
    exact .fail nofun
  · rename_i hstage
    obtain ⟨vm, hvm, rfl⟩ := Option.map_eq_some_iff.mp hs
    exact .sendTon hstage hvm rfl
  · rename_i hstage
    cases hs
    exact .submit hstage
  · cases hs
    exact .fail nofun
  · rename_i hstage
    cases hs
    exact .succeed hstage
  · cases hs
    exact .fail nofun
  · cases hs

/-- The steps of a fee coroutine `j` at place `i`, for the view model `vm`. -/
inductive FeeStep (E : Env) (s : State) (i : ℕ) (j : FeeJob) (vm : ViewModel) :
    FeeAction → State → Prop
  | invalid : FeeStep E s i j vm .getAddress
      (s.finishFee i j vm (.LoadingError (text "Invalid address")))
  | estimate {address : Text} : E.getAddressFromRaw j.recipient = some address →
      FeeStep E s i j vm .getAddress
        ({ s with feeJobs := s.feeJobs.set i { j with address := some address } }.record
          (.feeEstimated vm.shown address vm.amountToSend))
  | reply {address : Text} {response : FeeResponse} : j.address = some address →
      FeeStep E s i j vm (.reply response) (s.finishFee i j vm (vm.loaded address response))

theorem fee_cases {i : ℕ} {a : FeeAction} (h : s.fee E i a = some t) :
    ∃ j vm, s.feeJobs[i]? = some j ∧ s.viewModels j.owner = some vm ∧ FeeStep E s i j vm a t := by
  obtain ⟨j, hj, h⟩ := Option.bind_eq_some_iff.mp h
  obtain ⟨vm, hvm, hs⟩ := Option.bind_eq_some_iff.mp h
  clear h
  refine ⟨j, vm, hj, hvm, ?_⟩
  dsimp only at hs
  split at hs
  · split_ifs at hs with ha
    · cases hs
      exact .invalid
    · cases hs
      have haddress : E.getAddressFromRaw j.recipient =
          some ((E.getAddressFromRaw j.recipient).getD []) := by
        cases hraw : E.getAddressFromRaw j.recipient with
        | none => exact absurd (by rw [hraw]; rfl) ha
        | some address => rfl
      exact .estimate haddress
  · rename_i haddress
    cases hs
    exact .reply haddress
  · cases hs

/-! ## View models and confirmations -/

/-- What an action does to the view model of the entry `o`. -/
inductive ViewModelStep (E : Env) (s : State) (o : ℕ) : Action → Option ViewModel → Prop
  | kept {a : Action} : ViewModelStep E s o a (s.viewModels o)
  | setButton {a : Action} {vm : ViewModel} (b : ButtonState) : s.viewModels o = some vm →
      ViewModelStep E s o a (some { vm with buttonState := b })
  | compose {r : Request} {vm : ViewModel} (b : ButtonState) : s.screen.composed = some r →
      s.viewModel o r = some vm →
      ViewModelStep E s o (.compose o) (some { vm.compose r with buttonState := b })
  | clear : ViewModelStep E s o (.clear o) none
  | fail {i : ℕ} {vm : ViewModel} (error : Text) : s.viewModels o = some vm →
      ViewModelStep E s o (.fee i .getAddress) (some { vm with state := .LoadingError error })
  | reply {i : ℕ} {j : FeeJob} {vm : ViewModel} {address : Text} {response : FeeResponse} :
      s.feeJobs[i]? = some j → j.owner = o → s.viewModels o = some vm → j.address = some address →
      ViewModelStep E s o (.fee i (.reply response))
        (some { vm with state := vm.loaded address response })

/-- One entry gets another view model, or none does. -/
theorem viewModelStep_update {a : Action} {o o' : ℕ} {v : Option ViewModel}
    (h : ViewModelStep E s o a v) :
    ViewModelStep E s o' a (Function.update s.viewModels o v o') := by
  by_cases ho : o' = o
  · subst ho
    rw [Function.update_self]
    exact h
  · rw [Function.update_of_ne ho]
    exact .kept

theorem viewModelStep_setButton {a : Action} {o o' : ℕ} (b : ButtonState) :
    ViewModelStep E s o' a ((s.setButton o b).viewModels o') := by
  refine viewModelStep_update ?_
  cases hv : s.viewModels o with
  | none =>
    have hkept : ViewModelStep E s o a (s.viewModels o) := .kept
    rwa [hv] at hkept
  | some vm => exact .setButton b hv

theorem step_viewModel {a : Action} (hs : step E s a = some t) (o : ℕ) :
    ViewModelStep E s o a (t.viewModels o) := by
  cases a with
  | world a => cases hs; exact .kept
  | manager a =>
    obtain ⟨m, -, rfl⟩ := Option.map_eq_some_iff.mp hs
    exact .kept
  | screen a => cases hs; exact .kept
  | present i =>
    obtain ⟨r, -, rfl⟩ := Option.map_eq_some_iff.mp hs
    exact .kept
  | compose o' =>
    obtain ⟨r, vm, hr, hvm, ⟨-, rfl⟩ | ⟨p, -, rfl⟩⟩ := compose_cases hs
    · exact viewModelStep_update (.compose (vm.compose r).buttonState hr hvm)
    · show ViewModelStep E s o _ (Function.update (Function.update s.viewModels o' _) o' _ o)
      rw [Function.update_idem]
      exact viewModelStep_update (.compose .Loading hr hvm)
  | pressConfirm o' =>
    obtain ⟨vm, hvm, rfl | ⟨-, ⟨-, rfl⟩ | ⟨-, rfl⟩⟩⟩ := pressConfirm_cases hs
    · exact viewModelStep_update (.setButton .Loading hvm)
    · exact viewModelStep_update (.setButton .Loading hvm)
    · exact .kept
  | dispose o' => cases hs; exact viewModelStep_setButton .Empty
  | clear o' => cases hs; exact viewModelStep_update .clear
  | dismiss =>
    cases hs
    unfold State.dismiss
    split <;> exact .kept
  | openLock occasion => cases hs; exact .kept
  | closeLock i => cases hs; exact .kept
  | unlock i u =>
    obtain ⟨p, -, rfl⟩ := Option.map_eq_some_iff.mp hs
    cases u <;> exact .kept
  | takeOther => cases hs; exact .kept
  | confirm i a =>
    obtain ⟨j, -, hstep⟩ := confirm_cases hs
    cases hstep with
    | takeKey | getAddress | sendTon | submit => exact .kept
    | succeed => exact viewModelStep_setButton .Success
    | fail => exact viewModelStep_setButton .Error
  | fee i a =>
    obtain ⟨j, vm, hj, hvm, hstep⟩ := fee_cases hs
    cases hstep with
    | invalid => exact viewModelStep_update (.fail _ hvm)
    | estimate => exact .kept
    | reply ha => exact viewModelStep_update (.reply hj rfl hvm ha)
  | reject i =>
    obtain ⟨r, -, rfl⟩ := Option.map_eq_some_iff.mp hs
    dsimp only
    split <;> exact .kept

/-- A confirmation `j` goes on to its next stage. -/
inductive StageStep (E : Env) (s : State) (j : ConfirmJob) : ConfirmAction → ConfirmStage → Prop
  | takeKey : j.stage = .started → StageStep E s j .takeKey (.keyed s.inputKeyTemp)
  | getAddress {key : Option Purpose} {vm : ViewModel} : j.stage = .keyed key →
      s.viewModels j.owner = some vm →
      StageStep E s j .getAddress (.addressed key vm.recipientAddress)
  | sendTon {key : Purpose} {recipient : Text} {vm : ViewModel} :
      j.stage = .addressed (some key) recipient → s.viewModels j.owner = some vm →
      StageStep E s j .sendTon (.created
        { sender := s.world.currentWallet.map WalletData.address
          destination := (E.getAddressFromRaw recipient).getD [], amount := vm.value })
  | submit {query : Query} : j.stage = .created query →
      StageStep E s j (.createQuery true) (.sent query)

/-- A view model keeps its amount as long as its entry is not popped. -/
theorem viewModel_persists {a : Action} (hs : step E s a = some t) {o : ℕ} {vm : ViewModel}
    (ha : a ≠ .clear o) (hvm : s.viewModels o = some vm) :
    ∃ vm', t.viewModels o = some vm' ∧ vm'.value = vm.value := by
  have hstep := step_viewModel hs o
  generalize t.viewModels o = v at hstep
  cases hstep with
  | kept => exact ⟨vm, hvm, rfl⟩
  | setButton b hold =>
    obtain rfl := Option.some.inj (hvm.symm.trans hold)
    exact ⟨_, rfl, rfl⟩
  | compose b hr hnew =>
    rcases viewModel_cases hnew with hold | ⟨hnone, -⟩
    · obtain rfl := Option.some.inj (hvm.symm.trans hold)
      exact ⟨_, rfl, ViewModel.compose_value ..⟩
    · rw [hvm] at hnone
      cases hnone
  | clear => exact absurd rfl ha
  | fail error hold =>
    obtain rfl := Option.some.inj (hvm.symm.trans hold)
    exact ⟨_, rfl, rfl⟩
  | reply hj ho hold haddress =>
    obtain rfl := Option.some.inj (hvm.symm.trans hold)
    exact ⟨_, rfl, rfl⟩

/-- The confirmations after an action: those before, one that is launched for what its sheet shows,
and one that goes on. -/
inductive ConfirmJobStep (E : Env) (s t : State) (a : Action) : ConfirmJob → Prop
  | kept {j : ConfirmJob} : j ∈ s.confirmJobs → a ≠ .clear j.owner → ConfirmJobStep E s t a j
  | launched {o : ℕ} {vm : ViewModel} {r : Request} : t.viewModels o = some vm → vm.shown = r →
      ConfirmJobStep E s t a { owner := o, request := r }
  | goesOn {i : ℕ} {b : ConfirmAction} {j : ConfirmJob} {stage : ConfirmStage} :
      a = .confirm i b → s.confirmJobs[i]? = some j → StageStep E s j b stage →
      ConfirmJobStep E s t a { j with stage := stage }

/-- The confirmations after `onConfirmClick`. -/
theorem confirmJobStep_onConfirmClick {a : Action} {u : State} {o : ℕ} {vm : ViewModel}
    (hu : u.confirmJobs = s.confirmJobs) (ha : ∀ o, a ≠ .clear o) :
    ∀ j ∈ (u.onConfirmClick o vm).confirmJobs, ConfirmJobStep E s (u.onConfirmClick o vm) a j := by
  refine Jobs.launch (fun j hj => .kept (hu ▸ hj) (ha j.owner)) ?_
  have hvm : (u.onConfirmClick o vm).viewModels o = some { vm with buttonState := .Loading } :=
    Function.update_self ..
  exact .launched hvm rfl

theorem step_confirmJob {a : Action} (hs : step E s a = some t) :
    ∀ j ∈ t.confirmJobs, ConfirmJobStep E s t a j := by
  cases a with
  | world a => cases hs; exact fun j hj => .kept hj nofun
  | manager a =>
    obtain ⟨m, -, rfl⟩ := Option.map_eq_some_iff.mp hs
    exact fun j hj => .kept hj nofun
  | screen a => cases hs; exact fun j hj => .kept hj nofun
  | present i =>
    obtain ⟨r, -, rfl⟩ := Option.map_eq_some_iff.mp hs
    exact fun j hj => .kept hj nofun
  | compose o =>
    obtain ⟨r, vm, hr, hvm, ⟨-, rfl⟩ | ⟨p, -, rfl⟩⟩ := compose_cases hs
    · exact fun j hj => .kept hj nofun
    · exact confirmJobStep_onConfirmClick rfl nofun
  | pressConfirm o =>
    obtain ⟨vm, hvm, rfl | ⟨-, ⟨-, rfl⟩ | ⟨-, rfl⟩⟩⟩ := pressConfirm_cases hs
    · exact confirmJobStep_onConfirmClick rfl nofun
    · exact confirmJobStep_onConfirmClick rfl nofun
    · exact fun j hj => .kept hj nofun
  | dispose o => cases hs; exact fun j hj => .kept hj nofun
  | clear o =>
    cases hs
    intro j hj
    obtain ⟨hj, ho⟩ := List.mem_filter.mp hj
    exact .kept hj fun h => of_decide_eq_true ho (Action.clear.inj h).symm
  | dismiss =>
    cases hs
    unfold State.dismiss
    split <;> exact fun j hj => .kept hj nofun
  | openLock occasion => cases hs; exact fun j hj => .kept hj nofun
  | closeLock i => cases hs; exact fun j hj => .kept hj nofun
  | unlock i u =>
    obtain ⟨p, -, rfl⟩ := Option.map_eq_some_iff.mp hs
    cases u <;> exact fun j hj => .kept hj nofun
  | takeOther => cases hs; exact fun j hj => .kept hj nofun
  | confirm i a =>
    obtain ⟨j, hj, hstep⟩ := confirm_cases hs
    have hold : ∀ k ∈ s.confirmJobs, ConfirmJobStep E s t (.confirm i a) k :=
      fun k hk => .kept hk nofun
    cases hstep with
    | takeKey hstage => exact Jobs.goOn hold (.goesOn rfl hj (.takeKey hstage))
    | getAddress hstage hvm => exact Jobs.goOn hold (.goesOn rfl hj (.getAddress hstage hvm))
    | sendTon hstage hvm hquery =>
      subst hquery
      exact Jobs.goOn hold (.goesOn rfl hj (.sendTon hstage hvm))
    | submit hstage => exact Jobs.goOn hold (.goesOn rfl hj (.submit hstage))
    | succeed => exact Jobs.finish hold i
    | fail => exact Jobs.finish hold i
  | fee i a =>
    obtain ⟨j, vm, -, -, hstep⟩ := fee_cases hs
    cases hstep <;> exact fun k hk => .kept hk nofun
  | reject i =>
    obtain ⟨r, -, rfl⟩ := Option.map_eq_some_iff.mp hs
    dsimp only
    split <;> exact fun k hk => .kept hk nofun

/-- A fee coroutine has asked for the address of its recipient, if for any. -/
def FeeJob.Asked (E : Env) (j : FeeJob) : Prop :=
  ∀ address ∈ j.address, E.getAddressFromRaw j.recipient = some address

theorem step_feeJobs {a : Action} (hs : step E s a = some t) (h : ∀ j ∈ s.feeJobs, j.Asked E) :
    ∀ j ∈ t.feeJobs, j.Asked E := by
  have hcompose : ∀ (vm : ViewModel) o r, ∀ j ∈ s.feeJobs ++ vm.launches o r, j.Asked E := by
    intro vm o r
    refine List.forall_mem_append.mpr ⟨h, fun j hj address ha => ?_⟩
    unfold ViewModel.launches at hj
    split_ifs at hj
    · rw [List.mem_singleton.mp hj] at ha
      cases ha
    · cases hj
  cases a with
  | world a => cases hs; exact h
  | manager a =>
    obtain ⟨m, -, rfl⟩ := Option.map_eq_some_iff.mp hs
    exact h
  | screen a => cases hs; exact h
  | present i =>
    obtain ⟨r, -, rfl⟩ := Option.map_eq_some_iff.mp hs
    exact h
  | compose o =>
    obtain ⟨r, vm, -, -, ⟨-, rfl⟩ | ⟨p, -, rfl⟩⟩ := compose_cases hs
    · exact hcompose vm o r
    · exact hcompose vm o r
  | pressConfirm o =>
    obtain ⟨vm, -, rfl | ⟨-, ⟨-, rfl⟩ | ⟨-, rfl⟩⟩⟩ := pressConfirm_cases hs <;> exact h
  | dispose o => cases hs; exact h
  | clear o => cases hs; exact fun j hj => h j (List.mem_filter.mp hj).1
  | dismiss =>
    cases hs
    unfold State.dismiss
    split <;> exact h
  | openLock occasion => cases hs; exact h
  | closeLock i => cases hs; exact h
  | unlock i u =>
    obtain ⟨p, -, rfl⟩ := Option.map_eq_some_iff.mp hs
    cases u <;> exact h
  | takeOther => cases hs; exact h
  | confirm i a =>
    obtain ⟨j, -, hstep⟩ := confirm_cases hs
    cases hstep <;> exact h
  | fee i a =>
    obtain ⟨j, vm, -, -, hstep⟩ := fee_cases hs
    cases hstep with
    | invalid => exact Jobs.finish h i
    | estimate ha =>
      refine Jobs.goOn h fun address haddress => ?_
      obtain rfl := Option.some.inj haddress
      exact ha
    | reply => exact Jobs.finish h i
  | reject i =>
    obtain ⟨r, -, rfl⟩ := Option.map_eq_some_iff.mp hs
    dsimp only
    split <;> exact h

/-! ## The history -/

/-- What an action may record. -/
inductive Records (E : Env) (s : State) : Action → Obs → Prop
  | authenticated {i : ℕ} {u : Unlock} {p : Purpose} : s.lockScreens[i]? = some p →
      Records E s (.unlock i u) (.authenticated p)
  | confirmPressed {o : ℕ} {vm : ViewModel} : s.viewModels o = some vm →
      (∃ amount recipient fee, vm.state = .InfoLoaded amount recipient fee) →
      Records E s (.pressConfirm o) (.confirmPressed vm.shown vm.state)
  | dismissed {r : Request} : s.screen.transferRequest = some r →
      Records E s .dismiss (.dismissed r)
  | feeEstimated {i : ℕ} {j : FeeJob} {vm : ViewModel} {address : Text} : s.feeJobs[i]? = some j →
      s.viewModels j.owner = some vm → E.getAddressFromRaw j.recipient = some address →
      Records E s (.fee i .getAddress) (.feeEstimated vm.shown address vm.amountToSend)
  | sendTon {i : ℕ} {j : ConfirmJob} {key : Purpose} {recipient : Text} {vm : ViewModel} :
      s.confirmJobs[i]? = some j → j.stage = .addressed (some key) recipient →
      s.viewModels j.owner = some vm →
      Records E s (.confirm i .sendTon) (.sendTon
        { request := j.request, shown := vm.shown, key := key
          destination := (E.getAddressFromRaw recipient).getD [], amount := vm.value })
  | submitted {i : ℕ} {j : ConfirmJob} {query : Query} : s.confirmJobs[i]? = some j →
      j.stage = .created query →
      Records E s (.confirm i (.createQuery true)) (.submitted j.request query s.world.now)
  | succeeded {i : ℕ} {j : ConfirmJob} {query : Query} : s.confirmJobs[i]? = some j →
      j.stage = .sent query → Records E s (.confirm i (.querySend true)) (.succeeded j.request)
  | replied {i : ℕ} {r : Request} {c : Connection} : s.rejectJobs[i]? = some r →
      s.manager.getTonConnectionWithData r.data = some c →
      Records E s (.reject i) (.replied r c.object c.rejectTransferRequest)

/-- The history only grows. -/
theorem step_log {a : Action} (hs : step E s a = some t) :
    t.log = s.log ∨ ∃ e, Records E s a e ∧ t.log = e :: s.log := by
  cases a with
  | world a => cases hs; exact .inl rfl
  | manager a =>
    obtain ⟨m, -, rfl⟩ := Option.map_eq_some_iff.mp hs
    exact .inl rfl
  | screen a => cases hs; exact .inl rfl
  | present i =>
    obtain ⟨r, -, rfl⟩ := Option.map_eq_some_iff.mp hs
    exact .inl rfl
  | compose o =>
    obtain ⟨r, vm, -, -, ⟨-, rfl⟩ | ⟨p, -, rfl⟩⟩ := compose_cases hs
    · exact .inl rfl
    · exact .inl rfl
  | pressConfirm o =>
    obtain ⟨vm, hvm, rfl | ⟨hstate, ⟨-, rfl⟩ | ⟨-, rfl⟩⟩⟩ := pressConfirm_cases hs
    · exact .inl rfl
    · exact .inr ⟨_, .confirmPressed hvm hstate, rfl⟩
    · exact .inr ⟨_, .confirmPressed hvm hstate, rfl⟩
  | dispose o => cases hs; exact .inl rfl
  | clear o => cases hs; exact .inl rfl
  | dismiss =>
    cases hs
    unfold State.dismiss
    split
    · rename_i r hr
      exact .inr ⟨_, .dismissed hr, rfl⟩
    · exact .inl rfl
  | openLock occasion => cases hs; exact .inl rfl
  | closeLock i => cases hs; exact .inl rfl
  | unlock i u =>
    obtain ⟨p, hp, rfl⟩ := Option.map_eq_some_iff.mp hs
    cases u with
    | passcode => exact .inr ⟨_, .authenticated hp, rfl⟩
    | biometric => exact .inr ⟨_, .authenticated hp, rfl⟩
    | wrongPasscode => exact .inl rfl
  | takeOther => cases hs; exact .inl rfl
  | confirm i a =>
    obtain ⟨j, hj, hstep⟩ := confirm_cases hs
    cases hstep with
    | takeKey => exact .inl rfl
    | getAddress => exact .inl rfl
    | sendTon hstage hvm hquery =>
      subst hquery
      exact .inr ⟨_, .sendTon hj hstage hvm, rfl⟩
    | submit hstage => exact .inr ⟨_, .submitted hj hstage, rfl⟩
    | succeed hstage => exact .inr ⟨_, .succeeded hj hstage, rfl⟩
    | fail => exact .inl rfl
  | fee i a =>
    obtain ⟨j, vm, hj, hvm, hstep⟩ := fee_cases hs
    cases hstep with
    | invalid => exact .inl rfl
    | estimate ha => exact .inr ⟨_, .feeEstimated hj hvm ha, rfl⟩
    | reply => exact .inl rfl
  | reject i =>
    obtain ⟨r, hr, rfl⟩ := Option.map_eq_some_iff.mp hs
    dsimp only
    split
    · rename_i c hc
      exact .inr ⟨_, .replied hr hc, rfl⟩
    · exact .inl rfl

theorem mem_step_log {a : Action} (hs : step E s a = some t) {e : Obs} (he : e ∈ t.log) :
    e ∈ s.log ∨ Records E s a e := by
  obtain hlog | ⟨e', he', hlog⟩ := step_log hs
  · exact .inl (hlog ▸ he)
  · rw [hlog] at he
    rcases List.mem_cons.mp he with rfl | he
    · exact .inr he'
    · exact .inl he

/-! ## A dApp and its calls -/

/-- The app starts behind a lock screen. -/
def start (world : World) : State := { world := world, lockScreens := [.other .appStart] }

/-- The parameters of the calls `1`, `2` and `3`: two amounts, and two messages in one call. -/
def sampleParams (s : Text) : Option TonConnectMethodParamsResponse :=
  let small := { address := text "0:ab", amount := text "1000" }
  let large := { address := text "0:ab", amount := text "2000" }
  if s = text "1" then some { messages := [small], validUntil := 60 }
  else if s = text "2" then some { messages := [large], validUntil := 60 }
  else if s = text "3" then some { messages := [small, large], validUntil := 60 }
  else none

def sampleEnv : Env where
  json := { decodeResponse := fun _ => none, decodeMethod := fun _ => none
            decodeParams := sampleParams }
  getAddressFromRaw s := some (text "EQ" ++ s)

/-- A dApp that is connected to the wallet `EQ`. -/
def sampleData : TonConnectConnectionData where
  manifest := { url := text "https://dapp", name := text "dApp", iconUrl := text "icon" }
  id := text "0a"
  key := { publicKey := [3], privateKey := [3] }
  walletAddress := text "EQ"

def sampleCall (id : ℤ) (params : Text) : TonConnectMethodResponse where
  id := id
  method := text "sendTransaction"
  params := [params]

/-- Biometry opens the app. -/
def sampleStart : List Action := [.unlock 0 .biometric, .closeLock 0]

/-- A connection is made, and its first call gets to the screen. -/
def sampleArrival : List Action :=
  [.manager (.initTonConnection sampleData), .manager (.receive 0 (sampleCall 7 (text "1"))),
    .present 0, .screen .collectTransfer, .screen .collectSheet]

/-- The composed sheet gets its fee, Confirm asks for the passcode, the sheet is composed again
in the next entry of MAIN, and the transfer succeeds. -/
def sampleTransfer : List Action :=
  [.fee 0 .getAddress, .fee 0 (.reply (.Success 5)), .pressConfirm 0, .unlock 0 .passcode,
    .closeLock 0, .compose 1, .confirm 0 .takeKey, .confirm 0 .getAddress, .confirm 0 .sendTon,
    .confirm 0 (.createQuery true), .confirm 0 (.querySend true)]

end TonWallet.Transfer
