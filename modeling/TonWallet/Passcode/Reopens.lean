import TonWallet.Keystore.RoundTrip
import TonWallet.Lib.Jobs
import TonWallet.Lib.Machine
import TonWallet.Passcode.Setup

/-!
# A confirmed PIN opens the wallet

The record that creation leaves behind is encrypted in place by the job that
saves the PIN, and stays in its buffer. So every press on the complete PIN
encrypts it once more, and the last write wins. The PIN itself is read when the
job runs, and the first screen hands over whatever is typed when its animation
ends.

* `confirmed_pin_reopens`: when the first screen hands over a complete PIN, and
  each job that saves finds the confirmed PIN and the plain record, the PIN
  opens the wallet.
* `extra_press_locks_out`: one press too many, and it does not.
-/

namespace TonWallet.Passcode

open Encoding Keystore Storage

variable {K : Type} {P : Primitives K}

/-! ## The property -/

/-- A wallet whose creation has left its key for later encryption, and the writes creation
has launched, none of which is a key record. -/
structure Created (P : Primitives K) where
  entry : KeyEntry K
  no_authentication : entry.isUserAuthenticationRequired = false
  password : Bytes
  length_password : password.length = 64
  secret : Bytes
  random : ℕ → Byte
  fits : (recordOf password secret random).length ≤ P.maxMessage
  controller : TonController K
  controller_entry : controller.entry = some entry
  controller_data :
    controller.creatingDataForLaterEncrypt = some (recordOf password secret random)
  stored : Option PasscodeData
  writes : List PasscodeData
  writes_key : ∀ u ∈ writes, u.encryptedPinData = none ∧ u.passcodeSalt = none

namespace Created

variable (w : Created P)

/-- The plain record. -/
def record : Bytes := recordOf w.password w.secret w.random

/-- The key in it, as it is read for a public key. -/
def inputKey (tonPublicKey : Option Text) : InputKeyRegular where
  key := { publicKey := tonPublicKey, secret := w.secret }
  localPassword := w.password

/-- The first screen opens. -/
def start : State K where
  controller := w.controller
  stored := w.stored
  writes := w.writes

end Created

/-- The lock screen takes PINs of four or of six digits. -/
def Enterable (pin : Text) : Prop :=
  (pin.length = 4 ∨ pin.length = 6) ∧ ∀ c ∈ pin, ∃ d : Fin 10, c = BitVec.ofNat 16 (0x30 + d)

/-- Once the second screen shows success and nothing runs any more, the PIN it confirmed can
be entered on the lock screen and gives back the original key. -/
def Reopens (w : Created P) (s : State K) : Prop :=
  ∀ vm, s.confirm = some vm → vm.successAnimation = true → s.jobs = [] → s.writes = [] →
    ∃ pin data, vm.cachedPasscode = some pin ∧ Enterable pin ∧ s.stored = some data ∧
      (s.controller.decryptTonData P (some pin) none false data.encryptedPinData
        data.passcodeSalt 0 data.tonPublicKey).2 = .ok (some (w.inputKey data.tonPublicKey))

/-- The first screen hands over a complete PIN; a job that saves finds the confirmed PIN still
typed and the record not yet encrypted. -/
def Careful (w : Created P) (s : State K) : Action → Prop
  | .successAnimationEnd => s.confirm = none → s.setup.passcode.length = s.setup.passcodeCount
  | .run i _ _ => s.jobs[i]? = some (.save .confirm) →
      s.controller.creatingDataForLaterEncrypt = some w.record ∧
      ∀ vm, s.confirm = some vm → vm.cachedPasscode = some vm.passcode
  | _ => True

instance (w : Created P) (s : State K) : ∀ a, Decidable (Careful w s a)
  | .successAnimationEnd =>
    inferInstanceAs (Decidable (s.confirm = none → s.setup.passcode.length = s.setup.passcodeCount))
  | .run i _ _ =>
    decidable_of_iff (s.jobs[i]? = some (.save .confirm) →
        s.controller.creatingDataForLaterEncrypt = some w.record ∧
        s.confirm.all (fun vm => vm.cachedPasscode = some vm.passcode) = true)
      (by simp [Careful, Option.all_eq_true])
  | .digit _ | .delete | .countChanged _ | .errorAnimationEnd | .write _ => isTrue trivial

/-! ## The invariant -/

/-- The record `data` gives the original key back for `pin`, on every controller with the
wallet's key store entry. -/
def Opens (w : Created P) (pin : Text) (data : PasscodeData) : Prop :=
  ∃ encrypted salt, data.encryptedPinData = some encrypted ∧ data.passcodeSalt = some salt ∧
    ∀ c : TonController K, c.entry = some w.entry → ∀ tonPublicKey,
      (c.decryptTonData P (some pin) none false (some encrypted) (some salt) 0 tonPublicKey).2
        = .ok (some (w.inputKey tonPublicKey))

/-- A view model of the first screen: digits, and room for four or six. -/
def Typed (vm : CreatePasscodeViewModel) : Prop :=
  vm.cachedPasscode = none ∧ (vm.passcodeCount = 4 ∨ vm.passcodeCount = 6) ∧
    ∀ c ∈ vm.passcode, ∃ d : Fin 10, c = BitVec.ofNat 16 (0x30 + d)

/-- The first screen prepares and the second one saves. -/
def Job.Safe : Job → Prop
  | .prepare screen => screen = .setup
  | .prepareRead screen _ => screen = .setup
  | .prepareDecrypt screen _ _ => screen = .setup
  | .save screen => screen = .confirm

structure Inv (w : Created P) (s : State K) : Prop where
  entry : s.controller.entry = some w.entry
  setup : Typed s.setup
  confirm : ∀ vm, s.confirm = some vm → ∃ pin, vm.cachedPasscode = some pin ∧ Enterable pin
  jobs : ∀ j ∈ s.jobs, j.Safe
  writes : ∀ u ∈ s.writes, (u.encryptedPinData = none ∧ u.passcodeSalt = none) ∨
    ∃ vm pin, s.confirm = some vm ∧ vm.cachedPasscode = some pin ∧ Opens w pin u
  saved : ∀ vm pin, s.confirm = some vm → vm.successAnimation = true →
    vm.cachedPasscode = some pin →
    (∃ u ∈ s.writes, Opens w pin u) ∨ ∃ data, s.stored = some data ∧ Opens w pin data

theorem inv_start (w : Created P) : Inv w w.start where
  entry := w.controller_entry
  setup := ⟨rfl, Or.inl rfl, by simp [Created.start, CreatePasscodeViewModel.create]⟩
  confirm vm h := by cases h
  jobs j h := by cases h
  writes u h := Or.inl (w.writes_key u h)
  saved vm pin h := by cases h

/-- Nothing runs any more: the stored record is the one that opens. -/
theorem Inv.reopens {w : Created P} {s : State K} (hi : Inv w s) : Reopens w s := by
  intro vm hvm hsuccess _ hwrites
  obtain ⟨pin, hpin, henter⟩ := hi.confirm vm hvm
  rcases hi.saved vm pin hvm hsuccess hpin with ⟨u, hu, -⟩ | ⟨data, hdata, enc, salt, he, hs, hopen⟩
  · rw [hwrites] at hu
    cases hu
  · refine ⟨pin, data, hpin, henter, hdata, ?_⟩
    rw [he, hs]
    exact hopen s.controller hi.entry data.tonPublicKey

/-! ## Presses -/

section
variable {w : Created P} {s : State K}

/-- Changing a view model keeps the invariant, as long as what was confirmed stays. -/
theorem Inv.setViewModel (hi : Inv w s) {screen : Screen} {vm vm' : CreatePasscodeViewModel}
    (hvm : s.viewModel screen = some vm) (hcached : vm'.cachedPasscode = vm.cachedPasscode)
    (hsetup : screen = .setup → Typed vm')
    (hconfirm : screen = .confirm → vm'.successAnimation = vm.successAnimation) :
    Inv w (s.setViewModel vm' screen) := by
  cases screen with
  | setup => exact ⟨hi.entry, hsetup rfl, hi.confirm, hi.jobs, hi.writes, hi.saved⟩
  | confirm =>
    have hvm : s.confirm = some vm := hvm
    refine ⟨hi.entry, hi.setup, ?_, hi.jobs, ?_, ?_⟩
    · rintro _ ⟨⟩
      rw [hcached]
      exact hi.confirm vm hvm
    · intro u hu
      refine (hi.writes u hu).imp_right ?_
      rintro ⟨vm₀, pin, h₀, hpin, hopen⟩
      rw [hvm] at h₀
      cases h₀
      exact ⟨vm', pin, rfl, hcached.trans hpin, hopen⟩
    · rintro _ pin ⟨⟩ hsuccess hpin
      exact hi.saved vm pin hvm ((hconfirm rfl).symm.trans hsuccess) (hcached.symm.trans hpin)

theorem Inv.setJobs (hi : Inv w s) {jobs : List Job} (hjobs : ∀ j ∈ jobs, j.Safe) :
    Inv w { s with jobs := jobs } :=
  ⟨hi.entry, hi.setup, hi.confirm, hjobs, hi.writes, hi.saved⟩

theorem Typed.appendDigit {vm : CreatePasscodeViewModel} (h : Typed vm) (d : Fin 10) :
    Typed (vm.appendDigit (digitText d)) := by
  unfold CreatePasscodeViewModel.appendDigit
  split_ifs with hroom
  · refine ⟨h.1, h.2.1, ?_⟩
    intro c hc
    rcases List.mem_append.mp hc with hc | hc
    · exact h.2.2 c hc
    · exact ⟨d, List.mem_singleton.mp hc⟩
  · exact h

theorem appendDigit_cachedPasscode (vm : CreatePasscodeViewModel) (digit : Text) :
    (vm.appendDigit digit).cachedPasscode = vm.cachedPasscode ∧
      (vm.appendDigit digit).successAnimation = vm.successAnimation := by
  unfold CreatePasscodeViewModel.appendDigit
  split_ifs
  · exact ⟨rfl, rfl⟩
  · exact ⟨rfl, rfl⟩

/-- A press changes the typed PIN and the error animation, and nothing else. -/
theorem onNewDigitInPasscode_viewModel (screen : Screen) (vm : CreatePasscodeViewModel)
    (digit : Text) : ∃ error, (vm.onNewDigitInPasscode screen digit).1
      = { vm.appendDigit digit with errorAnimation := error } := by
  unfold CreatePasscodeViewModel.onNewDigitInPasscode
  dsimp only
  split_ifs
  · exact ⟨_, rfl⟩
  · exact ⟨_, rfl⟩
  · exact ⟨true, rfl⟩
  · exact ⟨_, rfl⟩

/-- The first screen launches jobs that prepare, the second one jobs that save. -/
theorem onNewDigitInPasscode_launched {screen : Screen} {vm : CreatePasscodeViewModel}
    {digit : Text} {j : Job} (hj : j ∈ (vm.onNewDigitInPasscode screen digit).2) :
    j = .prepare screen ∧ vm.cachedPasscode.getD [] = [] ∨
      j = .save screen ∧ vm.cachedPasscode.getD [] ≠ [] := by
  unfold CreatePasscodeViewModel.onNewDigitInPasscode at hj
  dsimp only at hj
  rw [(appendDigit_cachedPasscode vm digit).1] at hj
  split_ifs at hj with hfull hempty heq
  · exact Or.inl ⟨List.mem_singleton.mp hj, hempty⟩
  · exact Or.inr ⟨List.mem_singleton.mp hj, hempty⟩
  · cases hj
  · cases hj

theorem Enterable.ne_nil {pin : Text} (h : Enterable pin) : pin ≠ [] := by
  rintro rfl
  rcases h.1 with h | h
  · cases h
  · cases h

theorem Inv.onDigit (hi : Inv w s) {t : State K} {d : Fin 10} (h : s.onDigit d = some t) :
    Inv w t := by
  obtain ⟨vm, hvm, rfl⟩ := Option.map_eq_some_iff.mp h
  set r := vm.onNewDigitInPasscode s.current (digitText d) with hr
  obtain ⟨error, hnew⟩ := onNewDigitInPasscode_viewModel s.current vm (digitText d)
  obtain ⟨hcached, hsuccess⟩ := appendDigit_cachedPasscode vm (digitText d)
  have hinv : Inv w (s.setViewModel r.1 s.current) := by
    refine hi.setViewModel hvm (by rw [hr, hnew]; exact hcached) ?_ fun _ => by
      rw [hr, hnew]; exact hsuccess
    intro hc
    rw [hc] at hvm
    obtain rfl : s.setup = vm := Option.some.inj hvm
    rw [hr, hnew]
    exact hi.setup.appendDigit d
  have hlaunched : ∀ j ∈ r.2, j.Safe := by
    intro j hj
    cases hc : s.current with
    | setup =>
      rw [hc] at hvm
      obtain rfl : s.setup = vm := Option.some.inj hvm
      rcases onNewDigitInPasscode_launched hj with ⟨rfl, -⟩ | ⟨-, hne⟩
      · exact hc
      · rw [hi.setup.1] at hne
        exact absurd rfl hne
    | confirm =>
      rw [hc] at hvm
      obtain ⟨pin, hpin, henter⟩ := hi.confirm vm hvm
      rcases onNewDigitInPasscode_launched hj with ⟨-, hempty⟩ | ⟨rfl, -⟩
      · rw [hpin] at hempty
        exact absurd hempty henter.ne_nil
      · exact hc
  have hsafe : ∀ j ∈ s.jobs ++ r.2, j.Safe := by
    intro j hj
    rcases List.mem_append.mp hj with hj | hj
    · exact hi.jobs j hj
    · exact hlaunched j hj
  exact hinv.setJobs hsafe

/-- Deleting, changing the length and the end of an animation launch nothing. -/
theorem Inv.onViewModel (hi : Inv w s) {t : State K}
    {f : CreatePasscodeViewModel → CreatePasscodeViewModel} (h : s.onViewModel f = some t)
    (hcached : ∀ vm, (f vm).cachedPasscode = vm.cachedPasscode)
    (hsuccess : ∀ vm, (f vm).successAnimation = vm.successAnimation)
    (htyped : ∀ vm, Typed vm → Typed (f vm)) : Inv w t := by
  obtain ⟨vm, hvm, rfl⟩ := Option.map_eq_some_iff.mp h
  refine hi.setViewModel hvm (hcached vm) (fun hc => ?_) fun _ => hsuccess vm
  rw [hc] at hvm
  obtain rfl : s.setup = vm := Option.some.inj hvm
  exact htyped _ hi.setup

/-- The second screen opens with a complete PIN. -/
theorem Inv.onSuccess (hi : Inv w s) {t : State K} (h : s.onSuccess = some t)
    (hc : s.confirm = none → s.setup.passcode.length = s.setup.passcodeCount) : Inv w t := by
  unfold State.onSuccess at h
  cases hs : s.confirm with
  | none =>
    simp only [hs] at h
    split_ifs at h with hsuccess
    cases h
    have henter : Enterable s.setup.passcode := by
      refine ⟨?_, hi.setup.2.2⟩
      rw [hc hs]
      exact hi.setup.2.1
    refine ⟨hi.entry, hi.setup, ?_, hi.jobs, ?_, ?_⟩
    · rintro _ ⟨⟩
      exact ⟨_, rfl, henter⟩
    · intro u hu
      rcases hi.writes u hu with hu | ⟨vm, pin, hvm, -, -⟩
      · exact Or.inl hu
      · rw [hs] at hvm
        cases hvm
    · rintro _ pin ⟨⟩ hfalse
      cases hfalse
  | some vm =>
    simp only [hs] at h
    split_ifs at h with hsuccess
    cases h
    have hnone : ∀ j ∈ ([] : List Job), j.Safe := by simp
    rw [← hs]
    exact hi.setJobs hnone

/-! ## Jobs -/

theorem opens_update {pin : Text} {current : Option PasscodeData} {u : PasscodeData}
    (h : Opens w pin u) : Opens w pin (updatePasscodeData current u) := by
  obtain ⟨enc, salt, he, hs, hopen⟩ := h
  cases current with
  | none => exact ⟨enc, salt, he, hs, hopen⟩
  | some d => exact ⟨enc, salt, by simp [updatePasscodeData, he], by simp [updatePasscodeData, hs],
      hopen⟩

theorem opens_keep {pin : Text} {d u : PasscodeData} (h : Opens w pin d)
    (he : u.encryptedPinData = none) (hs : u.passcodeSalt = none) :
    Opens w pin (updatePasscodeData (some d) u) := by
  obtain ⟨enc, salt, he', hs', hopen⟩ := h
  exact ⟨enc, salt, by simp [updatePasscodeData, he, he'], by simp [updatePasscodeData, hs, hs'],
    hopen⟩

/-- A write leaves the right record in the storage, whatever the order of the writes. -/
theorem Inv.write (hi : Inv w s) {t : State K} {i : ℕ} (h : s.write i = some t) : Inv w t := by
  obtain ⟨u, hu, rfl⟩ := Option.map_eq_some_iff.mp h
  have hmem := List.mem_of_getElem? hu
  refine ⟨hi.entry, hi.setup, hi.confirm, hi.jobs, ?_, ?_⟩
  · exact Jobs.finish hi.writes i
  · intro vm pin hvm hsuccess hpin
    rcases hi.writes u hmem with ⟨he, hs⟩ | ⟨vm', pin', hvm', hpin', hopen⟩
    · rcases hi.saved vm pin hvm hsuccess hpin with ⟨v, hv, hopen⟩ | ⟨d, hd, hopen⟩
      · refine Or.inl ⟨v, ?_, hopen⟩
        obtain ⟨k, hk, rfl⟩ := List.mem_iff_getElem.mp hv
        have hne : k ≠ i := by
          rintro rfl
          rw [List.getElem?_eq_getElem hk] at hu
          obtain ⟨enc, salt, he', -, -⟩ := hopen
          rw [Option.some.inj hu, he] at he'
          cases he'
        exact List.mem_eraseIdx_iff_getElem.mpr ⟨k, hk, hne, rfl⟩
      · refine Or.inr ⟨_, rfl, ?_⟩
        rw [hd]
        exact opens_keep hopen he hs
    · rw [hvm] at hvm'
      cases hvm'
      rw [hpin] at hpin'
      cases hpin'
      exact Or.inr ⟨_, rfl, opens_update hopen⟩

/-- Preparing may fill the buffer, but changes neither the key store nor the storage. -/
theorem Inv.setController (hi : Inv w s) {c : TonController K} (hc : c.entry = s.controller.entry) :
    Inv w { s with controller := c } :=
  ⟨hc.trans hi.entry, hi.setup, hi.confirm, hi.jobs, hi.writes, hi.saved⟩

/-- A job of the first screen ends. -/
theorem Inv.succeed_setup (hi : Inv w s) {t : State K} {i : ℕ}
    (h : s.succeed i .setup = some t) : Inv w t := by
  obtain ⟨vm, hvm, rfl⟩ := Option.map_eq_some_iff.mp h
  obtain rfl : s.setup = vm := Option.some.inj hvm
  have hsetup : Typed { s.setup with successAnimation := true } := hi.setup
  have hinv : Inv w (s.setViewModel { s.setup with successAnimation := true } .setup) :=
    hi.setViewModel hvm rfl (fun _ => hsetup) (fun hc => by cases hc)
  exact hinv.setJobs (Jobs.finish hi.jobs i)

/-- A job that saves the confirmed PIN over the plain record: the write it launches opens. -/
theorem Inv.save (hP : P.Lawful) (hi : Inv w s) {t : State K} {i : ℕ} {salt seed : Bytes}
    (hj : s.jobs[i]? = some (.save .confirm))
    (hdata : s.controller.creatingDataForLaterEncrypt = some w.record)
    (hpin : ∀ vm, s.confirm = some vm → vm.cachedPasscode = some vm.passcode)
    (h : s.runJob P i salt seed = some t) : Inv w t := by
  simp only [State.runJob, hj] at h
  obtain ⟨vm, hvm, h⟩ := Option.bind_eq_some_iff.mp h
  have hvm : s.confirm = some vm := hvm
  have hcached := hpin vm hvm
  obtain ⟨c, encrypted, hset, hread⟩ := decryptTonData_setUserPasscode hP hi.entry
    w.no_authentication w.length_password hdata w.fits vm.passcode salt seed
  have hentry : c.entry = some w.entry := by
    rw [← hi.entry, ← TonController.setUserPasscode_entry P s.controller vm.passcode salt seed,
      hset]
  have hopens : Opens w vm.passcode
      { encryptedPinData := some encrypted, passcodeSalt := some salt } :=
    ⟨encrypted, salt, rfl, rfl, fun c' hc' tonPublicKey =>
      hread c' hc' false 0 (by decide) tonPublicKey⟩
  rw [hset] at h
  obtain ⟨vm', hvm', rfl⟩ := Option.map_eq_some_iff.mp h
  cases hvm'
  refine ⟨hentry, hi.setup, ?_, Jobs.finish hi.jobs i, ?_, ?_⟩
  · rintro _ ⟨⟩
    exact hi.confirm vm hvm
  · intro u hu
    rcases List.mem_append.mp hu with hu | hu
    · refine (hi.writes u hu).imp_right ?_
      rintro ⟨vm₀, pin, h₀, hpin₀, hopen⟩
      rw [hvm] at h₀
      cases h₀
      exact ⟨_, pin, rfl, hpin₀, hopen⟩
    · rw [List.mem_singleton.mp hu]
      exact Or.inr ⟨_, vm.passcode, rfl, hcached, hopens⟩
  · rintro _ pin ⟨⟩ - hpin'
    obtain rfl : vm.passcode = pin := Option.some.inj (hcached.symm.trans hpin')
    exact Or.inl ⟨_, List.mem_append_right _ (List.mem_singleton_self _), hopens⟩

theorem Inv.runJob (hP : P.Lawful) (hi : Inv w s) {t : State K} {i : ℕ} {salt seed : Bytes}
    (hc : s.jobs[i]? = some (.save .confirm) →
      s.controller.creatingDataForLaterEncrypt = some w.record ∧
      ∀ vm, s.confirm = some vm → vm.cachedPasscode = some vm.passcode)
    (h : s.runJob P i salt seed = some t) : Inv w t := by
  cases hj : s.jobs[i]? with
  | none =>
    simp only [State.runJob, hj] at h
    cases h
  | some j =>
    have hsafe := hi.jobs j (List.mem_of_getElem? hj)
    cases j with
    | prepare screen =>
      obtain rfl : screen = .setup := hsafe
      simp only [State.runJob, hj] at h
      obtain ⟨vm, hvm, rfl⟩ := Option.map_eq_some_iff.mp h
      obtain rfl : s.setup = vm := Option.some.inj hvm
      have hsetup : Typed { s.setup with loading := true } := hi.setup
      have hinv : Inv w (s.setViewModel { s.setup with loading := true } .setup) :=
        hi.setViewModel hvm rfl (fun _ => hsetup) (fun hc => by cases hc)
      have hread : (Job.prepareRead .setup s.setup.passcode).Safe := rfl
      exact hinv.setJobs (Jobs.goOn hi.jobs hread)
    | prepareRead screen passcode =>
      obtain rfl : screen = .setup := hsafe
      simp only [State.runJob, hj] at h
      cases h
      have hdecrypt : (Job.prepareDecrypt .setup passcode s.stored).Safe := rfl
      exact hi.setJobs (Jobs.goOn hi.jobs hdecrypt)
    | prepareDecrypt screen passcode encryptedData =>
      obtain rfl : screen = .setup := hsafe
      simp only [State.runJob, hj] at h
      split at h
      · exact (hi.setController (TonController.decryptTonData_entry ..)).succeed_setup h
      · cases h
    | save screen =>
      obtain rfl : screen = .confirm := hsafe
      obtain ⟨hdata, hpin⟩ := hc hj
      exact hi.save hP hj hdata hpin h

/-- One step. -/
theorem Inv.step (hP : P.Lawful) (hi : Inv w s) {t : State K} {a : Action} (hc : Careful w s a)
    (h : step P s a = some t) : Inv w t := by
  cases a with
  | digit d => exact hi.onDigit h
  | delete =>
    refine hi.onViewModel h (fun _ => rfl) (fun _ => rfl) fun vm hvm => ⟨hvm.1, hvm.2.1, ?_⟩
    intro c hc
    exact hvm.2.2 c ((List.dropLast_sublist _).subset hc)
  | countChanged six =>
    simp only [Passcode.step] at h
    split_ifs at h with hscreen
    · refine hi.onViewModel h (fun _ => rfl) (fun _ => rfl) fun vm hvm => ⟨hvm.1, ?_, ?_⟩
      · exact Or.inr rfl
      · intro c hc
        cases hc
    · refine hi.onViewModel h (fun _ => rfl) (fun _ => rfl) fun vm hvm => ⟨hvm.1, ?_, ?_⟩
      · exact Or.inl rfl
      · intro c hc
        cases hc
  | errorAnimationEnd =>
    exact hi.onViewModel h (fun _ => rfl) (fun _ => rfl) fun vm hvm => hvm
  | successAnimationEnd => exact hi.onSuccess h hc
  | run i salt seed => exact hi.runJob hP hc h
  | write i => exact hi.write h

end

/-- **A confirmed PIN opens the wallet**, in every run in which the first screen hands over a
complete PIN and each job that saves finds the confirmed PIN and the plain record. -/
theorem confirmed_pin_reopens (hP : P.Lawful) (w : Created P) {as : List Action}
    (h : Machine.Guarded (step P) (Careful w) w.start as) :
    Machine.Always (step P) (Reopens w) w.start as :=
  Machine.always_of_guarded (fun _ _ _ hi hc hs => hi.step hP hc hs) (fun _ hi => hi.reopens)
    (inv_start w) h

/-! ## One press too many -/

/-- A wallet with the empty secret, just created. -/
def sampleCreated : Created samplePrimitives where
  entry := { key := 5, isUserAuthenticationRequired := false }
  no_authentication := rfl
  password := List.replicate 64 7
  length_password := List.length_replicate
  secret := []
  random := fun _ => 9
  fits := by rw [length_recordOf]; decide
  controller := { entry := some { key := 5, isUserAuthenticationRequired := false }
                  creatingDataForLaterEncrypt :=
                    some (recordOf (List.replicate 64 7) [] fun _ => 9) }
  controller_entry := rfl
  controller_data := rfl
  stored := none
  writes := []
  writes_key := by simp

/-- `1234` on the first screen and its job, `1234` and one more key on the second one, and the
two jobs and writes that this launches. -/
def extraPress : List Action :=
  [.digit 1, .digit 2, .digit 3, .digit 4, .run 0 [] [], .run 0 [] [], .run 0 [] [],
    .successAnimationEnd, .digit 1, .digit 2, .digit 3, .digit 4, .digit 5,
    .run 0 [1] [], .run 0 [2] [], .write 0, .write 0]

/-- The second screen is done, and its PIN does not open the stored record. -/
def lockedOut (s : State ℕ) : Bool :=
  match s.confirm, s.stored with
  | some vm, some data =>
    vm.successAnimation && s.jobs.isEmpty && s.writes.isEmpty &&
      decide ((s.controller.decryptTonData samplePrimitives vm.cachedPasscode none false
        data.encryptedPinData data.passcodeSalt 0 data.tonPublicKey).2 = .ok none)
  | _, _ => false

theorem not_reopens_of_lockedOut {w : Created samplePrimitives} {s : State ℕ}
    (h : lockedOut s = true) : ¬ Reopens w s := by
  unfold lockedOut at h
  split at h
  · rename_i vm data hvm hdata
    simp only [Bool.and_eq_true, decide_eq_true_eq, List.isEmpty_iff] at h
    obtain ⟨⟨⟨hsuccess, hjobs⟩, hwrites⟩, hread⟩ := h
    intro hr
    obtain ⟨pin, data', hpin, -, hdata', hread'⟩ := hr vm hvm hsuccess hjobs hwrites
    obtain rfl : data = data' := Option.some.inj (hdata.symm.trans hdata')
    rw [hpin, hread'] at hread
    cases hread
  · cases h

/-- A fifth key on the second screen encrypts the record a second time, and the PIN that both
screens have confirmed is of no use. -/
theorem extra_press_locks_out :
    ¬ Machine.Always (step samplePrimitives) (Reopens sampleCreated) sampleCreated.start
      extraPress := by
  have hrun : (Machine.run (step samplePrimitives) sampleCreated.start extraPress).any lockedOut
      = true := by decide +kernel
  obtain ⟨t, ht, hlocked⟩ := (Option.any_eq_true ..).mp hrun
  exact Machine.not_always_of_run ht (not_reopens_of_lockedOut hlocked)

/-- The same PIN typed once on each screen, and everything run to its end. -/
theorem confirmed_pin_reopens_once :
    Machine.Always (step samplePrimitives) (Reopens sampleCreated) sampleCreated.start
      [.digit 1, .digit 2, .digit 3, .digit 4, .run 0 [] [], .run 0 [] [], .run 0 [] [],
        .successAnimationEnd, .digit 1, .digit 2, .digit 3, .digit 4, .run 0 [1] [], .write 0] :=
  confirmed_pin_reopens samplePrimitives_lawful sampleCreated (by decide +kernel)

end TonWallet.Passcode
