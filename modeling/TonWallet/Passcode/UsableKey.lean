import TonWallet.Keystore.RoundTrip
import TonWallet.Lib.Jobs
import TonWallet.Lib.Machine
import TonWallet.Passcode.LockScreen

/-!
# The key of an unlock

The slot `inputKeyTemp` is written by the checks of passcodes, and only by them.
An unlock yields a usable key if nothing else is written to the slot between the
check that found the key and its consumer.

* `unlock_yields_key`: while no check writes something else over a key that was
  found, no biometric check finds a key that is not in the slot, and nothing
  that the consumer asks for is missing, the slot holds the key that `onSuccess`
  is given, and the consumer ends with a result.
* `biometric_yields_none`: a biometric unlock leaves the slot empty, and the
  pending screen pending.
-/

namespace TonWallet.LockScreen

open Encoding Keystore Storage

variable {K : Type}

/-! ## Properties -/

/-- The text is that of the key in the slot. -/
def Yields (inputKey : Text) (slot : Option InputKeyRegular) : Prop :=
  ∃ key ∈ slot, ∃ k ∈ toStorage key, inputKey = k.encodeToString

instance (inputKey : Text) (slot : Option InputKeyRegular) : Decidable (Yields inputKey slot) :=
  inferInstanceAs (Decidable (∃ key ∈ slot, ∃ k ∈ toStorage key, inputKey = k.encodeToString))

/-- A consumer that has ended has a result. -/
def Consumer.Settled : Consumer → Prop
  | .none => True
  | .send _ p => p.stage ≠ .thrown ∧ (p.stage = .ended → p.isSendSuccess ∨ p.isSendError)
  | .connection a =>
    a.stage ≠ .thrown ∧ (a.stage = .ended → a.buttonState = .Success ∨ a.buttonState = .Error)

instance : ∀ c : Consumer, Decidable c.Settled
  | .none => isTrue trivial
  | .send _ _ => inferInstanceAs (Decidable (_ ∧ _))
  | .connection _ => inferInstanceAs (Decidable (_ ∧ _))

/-- Every unlock has yielded a key, and its consumer does not end without a result. -/
def Sound (s : State K) : Prop := (∀ e ∈ s.unlocks, Yields e.1 e.2) ∧ s.consumer.Settled

instance (s : State K) : Decidable (Sound s) :=
  inferInstanceAs (Decidable ((∀ e ∈ s.unlocks, Yields e.1 e.2) ∧ _))

/-- The check has found a key that `onSuccess` has not been given. -/
def Check.found : Check K → Bool
  | .returned (some _) | .keyed => true
  | _ => false

/-- A key has been found, and the success animation has not ended. -/
def Unlocking (s : State K) : Prop :=
  s.isSuccessTriggered = false ∧ (s.showSuccessAnimation = true ∨ ∃ c ∈ s.checks, c.found)

instance (s : State K) : Decidable (Unlocking s) :=
  inferInstanceAs (Decidable (_ ∧ (_ ∨ ∃ c ∈ s.checks, c.found = true)))

/-- The slot has not been read. -/
def SendStage.waits : SendStage → Bool
  | .launched => true
  | _ => false

def ApproveStage.waits : ApproveStage → Bool
  | .rawAddress | .unpackAccountAddress _ | .publicKey | .walletStateInit |
    .rawGetAccountState _ | .privateKey => true
  | _ => false

def Consumer.waits : Consumer → Bool
  | .none => false
  | .send _ p => p.stage.waits
  | .connection a => a.stage.waits

variable (P : Primitives K) (client : Client K)

/-- While a key is passed on, a check writes nothing else to the slot, and no biometric check
finds a key that is not there. -/
def Check.Harmless (s : State K) : Check K → Prop
  | .decrypted key => (Unlocking s → key = s.inputKeyTemp) ∧ (s.consumer.waits → key.isSome)
  | .decryptCipher cipher =>
    ∀ result ∈ (inputKeyWithCipher P client cipher).toOption, ∀ key ∈ result,
      s.isSuccessTriggered = false → s.inputKeyTemp = some key
  | _ => True

/-- Nothing is missing that the consumer asks the storage for. -/
def Consumer.supplied : Consumer → Bool
  | .none => true
  | .send payment p =>
    match p.stage with
    | .sendTon key => (payment.query client key).isSome
    | _ => true
  | .connection a =>
    match a.stage with
    | .rawAddress | .walletStateInit => client.currentWallet.isSome
    | .publicKey => (client.currentWallet.bind (·.publicKey)).isSome
    | _ => true

/-- Nothing is missing that the consumer asks tonlib for, and the approval does not throw. -/
def Reply.supplied : Reply → Bool
  | .unpackedAccountAddress rawAddress => rawAddress.isSome
  | .rawFullAccountState walletStateInit => walletStateInit.isSome
  | .exportedUnencryptedKey privateKey => privateKey.isSome
  | .approved result => result.toOption.isSome
  | _ => true

instance (s : State K) : ∀ c : Check K, Decidable (c.Harmless P client s)
  | .decrypted _ => inferInstanceAs (Decidable ((_ → _) ∧ (_ → _)))
  | .decryptCipher cipher =>
    inferInstanceAs (Decidable (∀ result ∈ (inputKeyWithCipher P client cipher).toOption,
      ∀ key ∈ result, s.isSuccessTriggered = false → s.inputKeyTemp = some key))
  | .passcode => isTrue trivial
  | .decryptPasscode _ => isTrue trivial
  | .returned _ => isTrue trivial
  | .keyed => isTrue trivial

/-- The step does not disturb what is passed on. -/
def Undisturbed (s : State K) : Action K → Prop
  | .check i => ∀ c ∈ s.checks[i]?, c.Harmless P client s
  | .consume => s.consumer.supplied client
  | .reply r => r.supplied
  | _ => True

instance (s : State K) : ∀ a, Decidable (Undisturbed P client s a)
  | .check i => inferInstanceAs (Decidable (∀ c ∈ s.checks[i]?, c.Harmless P client s))
  | .consume => inferInstanceAs (Decidable (_ = true))
  | .reply _ => inferInstanceAs (Decidable (_ = true))
  | .onPasscodeOptionsChanged _ => isTrue trivial
  | .onNewDigitClick _ => isTrue trivial
  | .onDeleteDigitClick => isTrue trivial
  | .onAuthenticationSuccess _ => isTrue trivial
  | .onErrorAnimationEnd => isTrue trivial
  | .onSuccessAnimationEnd => isTrue trivial

/-! ## The invariant -/

/-- What the consumer has, and what the slot holds for it. -/
def ApprovalOk (slot : Option InputKeyRegular) (a : Approval) : Prop :=
  match a.stage with
  | .rawAddress | .unpackAccountAddress _ => slot.isSome
  | .publicKey => slot.isSome ∧ a.rawAddress.isSome
  | .walletStateInit | .rawGetAccountState _ =>
    slot.isSome ∧ a.rawAddress.isSome ∧ a.publicKey.isSome
  | .privateKey =>
    slot.isSome ∧ a.rawAddress.isSome ∧ a.publicKey.isSome ∧ a.walletStateInit.isSome
  | .exportUnencryptedKey _ =>
    a.rawAddress.isSome ∧ a.publicKey.isSome ∧ a.walletStateInit.isSome
  | .taken =>
    a.rawAddress.isSome ∧ a.publicKey.isSome ∧ a.walletStateInit.isSome ∧ a.privateKey.isSome
  | .approving => True
  | .ended => a.buttonState = .Success ∨ a.buttonState = .Error
  | .thrown => False

def PendingOk (slot : Option InputKeyRegular) (p : Pending) : Prop :=
  match p.stage with
  | .launched => slot.isSome
  | .taken key => key.isSome
  | .sendTon _ | .createQuery _ | .querySend => True
  | .ended => p.isSendSuccess ∨ p.isSendError
  | .thrown => False

def ConsumerOk (slot : Option InputKeyRegular) : Consumer → Prop
  | .none => True
  | .send _ p => PendingOk slot p
  | .connection a => ApprovalOk slot a

/-- A key that was found is in the slot, and the screen has its text; the consumer, which there is
only after the unlock, has what it needs. -/
structure Inv (s : State K) : Prop where
  found : s.isSuccessTriggered = false →
    ∀ key, .returned (some key) ∈ s.checks → s.inputKeyTemp = some key
  keyed : s.isSuccessTriggered = false →
    s.showSuccessAnimation = true ∨ .keyed ∈ s.checks → Yields s.inputKey s.inputKeyTemp
  idle : s.isSuccessTriggered = false → s.consumer = .none
  consumer : ConsumerOk s.inputKeyTemp s.consumer
  unlocks : ∀ e ∈ s.unlocks, Yields e.1 e.2

theorem ConsumerOk.settled {slot : Option InputKeyRegular} {c : Consumer} (h : ConsumerOk slot c) :
    c.Settled := by
  cases c with
  | none => trivial
  | send payment p =>
    rw [ConsumerOk, PendingOk] at h
    constructor <;> intro hs <;> rw [hs] at h <;> exact h
  | connection a =>
    rw [ConsumerOk, ApprovalOk] at h
    constructor <;> intro hs <;> rw [hs] at h <;> exact h

theorem Inv.sound {s : State K} (h : Inv s) : Sound s := ⟨h.unlocks, h.consumer.settled⟩

/-- Only a consumer that has not read the slot depends on it. -/
theorem ConsumerOk.slot {slot slot' : Option InputKeyRegular} {c : Consumer}
    (h : ConsumerOk slot c) (hw : c.waits → slot'.isSome) : ConsumerOk slot' c := by
  cases c with
  | none => trivial
  | send payment p =>
    replace hw : p.stage.waits → slot'.isSome := hw
    rw [ConsumerOk, PendingOk] at h ⊢
    cases hs : p.stage <;> rw [hs] at h hw <;> first | exact h | exact hw rfl
  | connection a =>
    replace hw : a.stage.waits → slot'.isSome := hw
    rw [ConsumerOk, ApprovalOk] at h ⊢
    cases hs : a.stage <;> rw [hs] at h hw <;>
      first | exact h | exact hw rfl | exact ⟨hw rfl, h.2⟩

/-! ## The checks -/

variable {P client} {s t : State K} {i : ℕ} {c : Check K}

/-- What the invariant does not speak about may change: the input, and checks that have found
nothing. -/
theorem inv_checks (h : Inv s) {checks : List (Check K)}
    (hsub : ∀ c ∈ checks, c.found → c ∈ s.checks) (digitsCount : ℕ) (currentPasscode : Text)
    (showErrorAnimation : Bool) :
    Inv { s with
      checks := checks, digitsCount := digitsCount, currentPasscode := currentPasscode,
      showErrorAnimation := showErrorAnimation } where
  found hs key hkey := h.found hs key (hsub _ hkey rfl)
  keyed hs hkey := h.keyed hs (hkey.imp_right fun hk => hsub _ hk rfl)
  idle := h.idle
  consumer := h.consumer
  unlocks := h.unlocks

/-- A check comes to a stage where it has found nothing. -/
theorem inv_advance (h : Inv s) (hc : c.found = false) : Inv (s.advance i c) := by
  refine inv_checks h (fun d hd hf => ?_) s.digitsCount s.currentPasscode s.showErrorAnimation
  rcases List.mem_or_eq_of_mem_set hd with hd | rfl
  · exact hd
  · rw [hc] at hf; cases hf

theorem inv_finish (h : Inv s) (showErrorAnimation : Bool) :
    Inv ({ s with showErrorAnimation := showErrorAnimation }.finish i) :=
  inv_checks h (fun _ hd _ => List.mem_of_mem_eraseIdx hd) s.digitsCount s.currentPasscode
    showErrorAnimation

/-- A biometric check has found the key that is in the slot. -/
theorem inv_decryptCipher (h : Inv s) {key : InputKeyRegular}
    (hslot : s.isSuccessTriggered = false → s.inputKeyTemp = some key) :
    Inv (s.advance i (.returned (some key))) where
  found hs key' hkey := by
    rcases List.mem_or_eq_of_mem_set hkey with hkey | heq
    · exact h.found hs key' hkey
    · obtain rfl := Option.some.inj (Check.returned.inj heq)
      exact hslot hs
  keyed hs hkey := by
    refine h.keyed hs (hkey.imp_right fun hk => ?_)
    rcases List.mem_or_eq_of_mem_set hk with hk | heq
    · exact hk
    · cases heq
  idle := h.idle
  consumer := h.consumer
  unlocks := h.unlocks

/-- The check of a passcode writes the slot. -/
theorem inv_decrypted (h : Inv s) {key : Option InputKeyRegular}
    (hkey : Unlocking s → key = s.inputKeyTemp) (hwaits : s.consumer.waits → key.isSome) :
    Inv ({ s with inputKeyTemp := key }.advance i (.returned key)) where
  found hs key' hmem := by
    rcases List.mem_or_eq_of_mem_set hmem with hmem | heq
    · have hsame := hkey ⟨hs, .inr ⟨_, hmem, rfl⟩⟩
      exact hsame.trans (h.found hs key' hmem)
    · exact (Check.returned.inj heq).symm
  keyed hs hmem := by
    have hold : s.showSuccessAnimation = true ∨ .keyed ∈ s.checks := by
      refine hmem.imp_right fun hm => ?_
      rcases List.mem_or_eq_of_mem_set hm with hm | heq
      · exact hm
      · cases heq
    have hsame := hkey ⟨hs, hold.imp_right fun hm => ⟨_, hm, rfl⟩⟩
    rw [hsame]
    exact h.keyed hs hold
  idle := h.idle
  consumer := h.consumer.slot hwaits
  unlocks := h.unlocks

/-- The text of the key is written. -/
theorem inv_returned (h : Inv s) {key : InputKeyRegular} {k : StoredKey}
    (hc : .returned (some key) ∈ s.checks) (hk : toStorage key = some k) :
    Inv ({ s with inputKey := k.encodeToString }.advance i .keyed) where
  found hs key' hmem := by
    rcases List.mem_or_eq_of_mem_set hmem with hmem | heq
    · exact h.found hs key' hmem
    · cases heq
  keyed hs _ := ⟨key, h.found hs key hc, k, hk, rfl⟩
  idle := h.idle
  consumer := h.consumer
  unlocks := h.unlocks

theorem inv_keyed (h : Inv s) (hc : .keyed ∈ s.checks) :
    Inv ({ s with showSuccessAnimation := true }.finish i) where
  found hs key hmem := h.found hs key (List.mem_of_mem_eraseIdx hmem)
  keyed hs _ := h.keyed hs (.inr hc)
  idle := h.idle
  consumer := h.consumer
  unlocks := h.unlocks

theorem inv_check (h : Inv s) (hc : s.checks[i]? = some c) (hharm : c.Harmless P client s)
    (ht : goOn P client s i c = some t) : Inv t := by
  have hmem := List.mem_of_getElem? hc
  cases c with
  | passcode =>
    obtain rfl := Option.some.inj ht
    exact inv_advance h rfl
  | decryptPasscode passcode =>
    obtain ⟨key, -, rfl⟩ := Option.map_eq_some_iff.mp ht
    exact inv_advance h rfl
  | decryptCipher cipher =>
    obtain ⟨key, hkey, rfl⟩ := Option.map_eq_some_iff.mp ht
    cases key with
    | none => exact inv_advance h rfl
    | some key => exact inv_decryptCipher h (hharm (some key) hkey key rfl)
  | decrypted key =>
    obtain rfl := Option.some.inj ht
    exact inv_decrypted h hharm.1 hharm.2
  | returned key =>
    cases key with
    | none =>
      obtain rfl := Option.some.inj ht
      exact inv_finish h true
    | some key =>
      obtain ⟨k, hk, rfl⟩ := Option.map_eq_some_iff.mp ht
      exact inv_returned h hmem hk
  | keyed =>
    obtain rfl := Option.some.inj ht
    exact inv_keyed h hmem

/-! ## The unlock and the consumer -/

theorem Yields.isSome {inputKey : Text} {slot : Option InputKeyRegular} (h : Yields inputKey slot) :
    slot.isSome := by
  obtain ⟨key, hkey, -⟩ := h
  exact Option.isSome_of_mem hkey

theorem consumerOk_onSuccess {slot : Option InputKeyRegular} (hslot : slot.isSome) :
    ∀ purpose : Purpose, ConsumerOk slot purpose.onSuccess
  | .send _ => hslot
  | .connection => hslot
  | .other => trivial

/-- The animation ends: what `onSuccess` is given is in the slot. -/
theorem inv_onSuccessAnimationEnd (h : Inv s) (hshow : s.showSuccessAnimation = true) :
    Inv s.onSuccessAnimationEnd := by
  rw [State.onSuccessAnimationEnd]
  split
  · rename_i hs
    have hs : s.isSuccessTriggered ≠ false := by simp [hs]
    exact ⟨fun hf => absurd hf hs, fun hf => absurd hf hs, fun hf => absurd hf hs, h.consumer,
      h.unlocks⟩
  · rename_i hs
    have hyields := h.keyed (by simpa using hs) (.inl hshow)
    exact ⟨fun hf => (nomatch hf), fun hf => (nomatch hf), fun hf => (nomatch hf),
      consumerOk_onSuccess hyields.isSome s.purpose,
      List.forall_mem_cons.mpr ⟨hyields, h.unlocks⟩⟩

/-- After the unlock only the consumer matters. -/
theorem inv_consumer (h : Inv s) (hcons : s.consumer ≠ .none) {slot : Option InputKeyRegular}
    {consumer : Consumer} (hok : ConsumerOk slot consumer) :
    Inv { s with inputKeyTemp := slot, consumer := consumer } := by
  have htrig : s.isSuccessTriggered ≠ false := fun hs => hcons (h.idle hs)
  exact ⟨fun hs => absurd hs htrig, fun hs => absurd hs htrig, fun hs => absurd hs htrig, hok,
    h.unlocks⟩

theorem pendingOk_goOn {payment : Payment} {p q : Pending} {slot slot' : Option InputKeyRegular}
    (h : PendingOk slot p) (hsup : (Consumer.send payment p).supplied client)
    (hq : p.goOn client payment slot = some (slot', q)) : PendingOk slot' q := by
  rw [PendingOk] at h
  rw [Consumer.supplied] at hsup
  rw [Pending.goOn] at hq
  cases hs : p.stage with
  | launched =>
    rw [hs] at h hq
    obtain ⟨rfl, rfl⟩ := Prod.mk.inj (Option.some.inj hq)
    exact h
  | taken key =>
    rw [hs] at h hq
    cases key with
    | none => cases h
    | some key =>
      obtain ⟨rfl, rfl⟩ := Prod.mk.inj (Option.some.inj hq)
      trivial
  | sendTon key =>
    rw [hs] at hsup hq
    obtain ⟨query, hquery⟩ := Option.isSome_iff_exists.mp hsup
    simp only [hquery] at hq
    obtain ⟨rfl, rfl⟩ := Prod.mk.inj (Option.some.inj hq)
    trivial
  | createQuery | querySend | ended | thrown => rw [hs] at hq; cases hq

theorem pendingOk_reply {p q : Pending} {slot : Option InputKeyRegular} {r : Reply}
    (hq : p.reply r = some q) : PendingOk slot q := by
  cases r with
  | queryInfo ok =>
    rw [Pending.reply] at hq
    split at hq
    · obtain rfl := Option.some.inj hq
      cases ok
      · exact .inr rfl
      · trivial
    · cases hq
  | querySent ok =>
    rw [Pending.reply] at hq
    split at hq
    · obtain rfl := Option.some.inj hq
      cases ok
      · exact .inr rfl
      · exact .inl rfl
    · cases hq
  | unpackedAccountAddress | rawFullAccountState | exportedUnencryptedKey | approved => cases hq

theorem approvalOk_goOn {a b : Approval} {slot slot' : Option InputKeyRegular}
    (h : ApprovalOk slot a) (hsup : (Consumer.connection a).supplied client)
    (hb : a.goOn client slot = some (slot', b)) : ApprovalOk slot' b := by
  rw [ApprovalOk] at h
  rw [Consumer.supplied] at hsup
  rw [Approval.goOn.eq_def] at hb
  cases hs : a.stage with
  | rawAddress =>
    rw [hs] at h hsup hb
    obtain ⟨wallet, hw⟩ := Option.isSome_iff_exists.mp hsup
    simp only [hw] at hb
    obtain ⟨rfl, rfl⟩ := Prod.mk.inj (Option.some.inj hb)
    exact h
  | publicKey =>
    rw [hs] at h hsup hb
    obtain ⟨rfl, rfl⟩ := Prod.mk.inj (Option.some.inj hb)
    exact ⟨h.1, h.2, hsup⟩
  | walletStateInit =>
    rw [hs] at h hsup hb
    obtain ⟨wallet, hw⟩ := Option.isSome_iff_exists.mp hsup
    simp only [hw] at hb
    obtain ⟨rfl, rfl⟩ := Prod.mk.inj (Option.some.inj hb)
    exact h
  | privateKey =>
    rw [hs] at h hb
    obtain ⟨key, hkey⟩ := Option.isSome_iff_exists.mp h.1
    simp only [hkey] at hb
    obtain ⟨rfl, rfl⟩ := Prod.mk.inj (Option.some.inj hb)
    exact h.2
  | taken =>
    rw [hs] at h hb
    obtain ⟨rfl, rfl⟩ := Prod.mk.inj (Option.some.inj hb)
    rw [if_pos h]
    trivial
  | unpackAccountAddress | rawGetAccountState | exportUnencryptedKey | approving | ended
  | thrown => rw [hs] at hb; cases hb

theorem approvalOk_reply {a b : Approval} {slot : Option InputKeyRegular} {r : Reply}
    (h : ApprovalOk slot a) (hsup : r.supplied) (hb : a.reply r = some b) :
    ApprovalOk slot b := by
  rw [ApprovalOk] at h
  cases r with
  | queryInfo | querySent => cases hb
  | unpackedAccountAddress rawAddress =>
    rw [Approval.reply] at hb
    split at hb
    · rename_i hs
      rw [hs] at h
      obtain rfl := Option.some.inj hb
      exact ⟨h, hsup⟩
    · cases hb
  | rawFullAccountState walletStateInit =>
    rw [Approval.reply] at hb
    split at hb
    · rename_i hs
      rw [hs] at h
      obtain rfl := Option.some.inj hb
      exact ⟨h.1, h.2.1, h.2.2, hsup⟩
    · cases hb
  | exportedUnencryptedKey privateKey =>
    rw [Approval.reply] at hb
    split at hb
    · rename_i hs
      rw [hs] at h
      obtain rfl := Option.some.inj hb
      exact ⟨h.1, h.2.1, h.2.2, hsup⟩
    · cases hb
  | approved result =>
    rw [Approval.reply.eq_def] at hb
    dsimp only at hb
    split at hb
    · rename_i isSuccess hs
      obtain rfl := Option.some.inj hb
      cases isSuccess
      · exact .inr rfl
      · exact .inl rfl
    · cases hsup
    · cases hb

theorem inv_consume (h : Inv s) (hsup : s.consumer.supplied client)
    (ht : consume client s = some t) : Inv t := by
  have hok := h.consumer
  rw [consume] at ht
  cases hcons : s.consumer with
  | none => rw [hcons] at ht; cases ht
  | send payment p =>
    rw [hcons] at ht hok hsup
    obtain ⟨⟨slot, q⟩, hq, rfl⟩ := Option.map_eq_some_iff.mp ht
    exact inv_consumer h (by rw [hcons]; exact Consumer.noConfusion) (pendingOk_goOn hok hsup hq)
  | connection a =>
    rw [hcons] at ht hok hsup
    obtain ⟨⟨slot, b⟩, hb, rfl⟩ := Option.map_eq_some_iff.mp ht
    exact inv_consumer h (by rw [hcons]; exact Consumer.noConfusion) (approvalOk_goOn hok hsup hb)

theorem inv_reply (h : Inv s) {r : Reply} (hsup : r.supplied) (ht : s.reply r = some t) :
    Inv t := by
  have hok := h.consumer
  rw [State.reply] at ht
  cases hcons : s.consumer with
  | none => rw [hcons] at ht; cases ht
  | send payment p =>
    rw [hcons] at ht
    obtain ⟨q, hq, rfl⟩ := Option.map_eq_some_iff.mp ht
    exact inv_consumer h (by rw [hcons]; exact Consumer.noConfusion) (pendingOk_reply hq)
  | connection a =>
    rw [hcons] at ht hok
    obtain ⟨b, hb, rfl⟩ := Option.map_eq_some_iff.mp ht
    exact inv_consumer h (by rw [hcons]; exact Consumer.noConfusion) (approvalOk_reply hok hsup hb)

/-! ## The end of a consumer -/

/-- How many steps are left at most. -/
def SendStage.rank : SendStage → ℕ
  | .launched => 5
  | .taken _ => 4
  | .sendTon _ => 3
  | .createQuery _ => 2
  | .querySend => 1
  | .ended | .thrown => 0

def ApproveStage.rank : ApproveStage → ℕ
  | .rawAddress => 9
  | .unpackAccountAddress _ => 8
  | .publicKey => 7
  | .walletStateInit => 6
  | .rawGetAccountState _ => 5
  | .privateKey => 4
  | .exportUnencryptedKey _ => 3
  | .taken => 2
  | .approving => 1
  | .ended | .thrown => 0

def Consumer.rank : Consumer → ℕ
  | .none => 0
  | .send _ p => p.stage.rank
  | .connection a => a.stage.rank

variable (client) in
/-- A consumer that has not ended goes on by itself or waits for a reply, and each step brings it
closer to its end. -/
structure Ends (s : State K) : Prop where
  moves : s.consumer.rank ≠ 0 → (consume client s).isSome ∨ ∃ r, (s.reply r).isSome
  consume : ∀ t, consume client s = some t → t.consumer.rank < s.consumer.rank
  reply : ∀ r t, s.reply r = some t → t.consumer.rank < s.consumer.rank

theorem Pending.moves {payment : Payment} {p : Pending} (slot : Option InputKeyRegular)
    (h : p.stage.rank ≠ 0) :
    (p.goOn client payment slot).isSome ∨ ∃ r, (p.reply r).isSome := by
  rw [Pending.goOn]
  cases hs : p.stage with
  | launched => exact .inl rfl
  | taken key => cases key <;> exact .inl rfl
  | sendTon key => cases hq : payment.query client key <;> exact .inl (by simp [hq])
  | createQuery => exact .inr ⟨.queryInfo true, by simp [Pending.reply, hs]⟩
  | querySend => exact .inr ⟨.querySent true, by simp [Pending.reply, hs]⟩
  | ended | thrown => rw [hs] at h; exact absurd rfl h

theorem Pending.rank_goOn {payment : Payment} {p q : Pending} {slot slot' : Option InputKeyRegular}
    (hq : p.goOn client payment slot = some (slot', q)) : q.stage.rank < p.stage.rank := by
  rw [Pending.goOn] at hq
  cases hs : p.stage with
  | taken key => cases key <;> simp only [hs, Option.some.injEq, Prod.mk.injEq] at hq <;>
      simp [← hq.2, SendStage.rank]
  | sendTon key =>
    simp only [hs] at hq
    split at hq <;> simp only [Option.some.injEq, Prod.mk.injEq] at hq <;>
      simp [← hq.2, SendStage.rank]
  | launched =>
    simp only [hs, Option.some.injEq, Prod.mk.injEq] at hq
    simp [← hq.2, SendStage.rank]
  | createQuery | querySend | ended | thrown => simp only [hs, reduceCtorEq] at hq

theorem Pending.rank_reply {p q : Pending} {r : Reply} (hq : p.reply r = some q) :
    q.stage.rank < p.stage.rank := by
  cases r with
  | queryInfo ok | querySent ok =>
    rw [Pending.reply] at hq
    split at hq
    · rename_i hs
      obtain rfl := Option.some.inj hq
      rw [hs]
      cases ok <;> simp [SendStage.rank]
    · cases hq
  | unpackedAccountAddress | rawFullAccountState | exportedUnencryptedKey | approved => cases hq

theorem Approval.moves {a : Approval} (slot : Option InputKeyRegular) (h : a.stage.rank ≠ 0) :
    (a.goOn client slot).isSome ∨ ∃ r, (a.reply r).isSome := by
  rw [Approval.goOn.eq_def]
  cases hs : a.stage with
  | rawAddress | walletStateInit => left; cases client.currentWallet <;> rfl
  | publicKey | taken => exact .inl rfl
  | privateKey => left; cases slot <;> rfl
  | unpackAccountAddress => exact .inr ⟨.unpackedAccountAddress none, by simp [Approval.reply, hs]⟩
  | rawGetAccountState => exact .inr ⟨.rawFullAccountState none, by simp [Approval.reply, hs]⟩
  | exportUnencryptedKey => exact .inr ⟨.exportedUnencryptedKey none, by simp [Approval.reply, hs]⟩
  | approving => exact .inr ⟨.approved (.ok true), by simp [Approval.reply, hs]⟩
  | ended | thrown => rw [hs] at h; exact absurd rfl h

theorem Approval.rank_goOn {a b : Approval} {slot slot' : Option InputKeyRegular}
    (hb : a.goOn client slot = some (slot', b)) : b.stage.rank < a.stage.rank := by
  rw [Approval.goOn.eq_def] at hb
  cases hs : a.stage with
  | rawAddress | walletStateInit | privateKey =>
    simp only [hs] at hb
    split at hb <;> simp only [Option.some.injEq, Prod.mk.injEq] at hb <;>
      simp [← hb.2, ApproveStage.rank]
  | publicKey =>
    simp only [hs, Option.some.injEq, Prod.mk.injEq] at hb
    simp [← hb.2, ApproveStage.rank]
  | taken =>
    simp only [hs, Option.some.injEq, Prod.mk.injEq] at hb
    rw [← hb.2]
    dsimp only
    split <;> simp [ApproveStage.rank]
  | unpackAccountAddress | rawGetAccountState | exportUnencryptedKey | approving | ended
  | thrown => simp only [hs, reduceCtorEq] at hb

theorem Approval.rank_reply {a b : Approval} {r : Reply} (hb : a.reply r = some b) :
    b.stage.rank < a.stage.rank := by
  rw [Approval.reply.eq_def] at hb
  cases r with
  | queryInfo | querySent => cases hb
  | unpackedAccountAddress | rawFullAccountState | exportedUnencryptedKey =>
    dsimp only at hb
    split at hb
    · rename_i hs
      obtain rfl := Option.some.inj hb
      rw [hs]
      exact Nat.lt_succ_self _
    · cases hb
  | approved result =>
    dsimp only at hb
    split at hb
    · rename_i isSuccess hs
      obtain rfl := Option.some.inj hb
      rw [hs]
      exact Nat.zero_lt_one
    · rename_i hs
      obtain rfl := Option.some.inj hb
      rw [hs]
      exact Nat.zero_lt_one
    · cases hb

theorem ends (s : State K) : Ends client s where
  moves h := by
    cases hcons : s.consumer with
    | none => rw [hcons] at h; exact absurd rfl h
    | send payment p =>
      rw [hcons] at h
      simpa [LockScreen.consume, State.reply, hcons] using Pending.moves s.inputKeyTemp h
    | connection a =>
      rw [hcons] at h
      simpa [LockScreen.consume, State.reply, hcons] using Approval.moves s.inputKeyTemp h
  consume t ht := by
    rw [LockScreen.consume] at ht
    cases hcons : s.consumer with
    | none => rw [hcons] at ht; cases ht
    | send payment p =>
      rw [hcons] at ht
      obtain ⟨⟨slot, q⟩, hq, rfl⟩ := Option.map_eq_some_iff.mp ht
      exact Pending.rank_goOn hq
    | connection a =>
      rw [hcons] at ht
      obtain ⟨⟨slot, b⟩, hb, rfl⟩ := Option.map_eq_some_iff.mp ht
      exact Approval.rank_goOn hb
  reply r t ht := by
    rw [State.reply] at ht
    cases hcons : s.consumer with
    | none => rw [hcons] at ht; cases ht
    | send payment p =>
      rw [hcons] at ht
      obtain ⟨q, hq, rfl⟩ := Option.map_eq_some_iff.mp ht
      exact Pending.rank_reply hq
    | connection a =>
      rw [hcons] at ht
      obtain ⟨b, hb, rfl⟩ := Option.map_eq_some_iff.mp ht
      exact Approval.rank_reply hb

/-! ## Runs -/

theorem inv_onNewDigitClick (h : Inv s) (number : Text) : Inv (s.onNewDigitClick number) := by
  have hnew : ∀ c ∈ s.checks ++ [Check.passcode], c.found → c ∈ s.checks := by
    intro c hc hf
    rcases List.mem_append.mp hc with hc | hc
    · exact hc
    · rw [List.mem_singleton.mp hc] at hf; cases hf
  have hold : ∀ c ∈ s.checks, c.found → c ∈ s.checks := fun _ hc _ => hc
  rw [State.onNewDigitClick]
  split <;> split
  · exact inv_checks h hnew s.digitsCount _ s.showErrorAnimation
  · exact inv_checks h hold s.digitsCount _ s.showErrorAnimation
  · exact inv_checks h hnew s.digitsCount s.currentPasscode s.showErrorAnimation
  · exact h

theorem inv_step (s : State K) (a : Action K) (t : State K) (h : Inv s)
    (hu : Undisturbed P client s a) (ht : step P client s a = some t) : Inv t := by
  have hold : ∀ c ∈ s.checks, c.found → c ∈ s.checks := fun _ hc _ => hc
  cases a with
  | onPasscodeOptionsChanged newDigitsCount =>
    obtain rfl := Option.some.inj ht
    exact inv_checks h hold newDigitsCount [] s.showErrorAnimation
  | onNewDigitClick number =>
    obtain rfl := Option.some.inj ht
    exact inv_onNewDigitClick h number
  | onDeleteDigitClick =>
    obtain rfl := Option.some.inj ht
    exact inv_checks h hold s.digitsCount _ s.showErrorAnimation
  | onAuthenticationSuccess cipher =>
    obtain rfl := Option.some.inj ht
    refine inv_checks h (fun c hc hf => ?_) s.digitsCount s.currentPasscode s.showErrorAnimation
    rcases List.mem_append.mp hc with hc | hc
    · exact hc
    · obtain ⟨cipher, -, rfl⟩ := Option.map_eq_some_iff.mp (Option.mem_toList.mp hc)
      cases hf
  | onErrorAnimationEnd =>
    obtain rfl := Option.some.inj ht
    exact inv_checks h hold s.digitsCount s.currentPasscode false
  | onSuccessAnimationEnd =>
    obtain ⟨hshow, ht⟩ := Option.ite_none_right_eq_some.mp ht
    obtain rfl := Option.some.inj ht
    exact inv_onSuccessAnimationEnd h hshow
  | check i =>
    obtain ⟨c, hc, ht⟩ := Option.bind_eq_some_iff.mp ht
    exact inv_check h hc (hu c hc) ht
  | consume => exact inv_consume h hu ht
  | reply r => exact inv_reply h hu ht

theorem inv_start (purpose : Purpose) (inputKeyTemp : Option InputKeyRegular) :
    Inv (start purpose inputKeyTemp : State K) :=
  ⟨fun _ _ h => (nomatch h), fun _ h => by simp [start] at h, fun _ => rfl, trivial,
    fun _ h => (nomatch h)⟩

variable (P client) in
/-- While nothing disturbs what is passed on, the slot holds the key that `onSuccess` is given, and
the consumer ends with a result. -/
theorem unlock_yields_key (purpose : Purpose) (inputKeyTemp : Option InputKeyRegular)
    (as : List (Action K))
    (hg : Machine.Guarded (step P client) (Undisturbed P client) (start purpose inputKeyTemp) as) :
    Machine.Always (step P client) (fun s => Sound s ∧ Ends client s)
      (start purpose inputKeyTemp) as :=
  Machine.always_of_guarded inv_step (fun s h => ⟨h.sound, ends s⟩) (inv_start purpose inputKeyTemp)
    hg

/-! ## Samples -/

/-- The key that both records hold. -/
def sampleKey : InputKeyRegular where
  key := { publicKey := some (text "PUB"), secret := [1, 2, 3] }
  localPassword := List.replicate 64 7

def samplePasscodeController : TonController ℕ :=
  { entry := some { key := 5, isUserAuthenticationRequired := false } }

/-- The entry of a key that asks for a biometric prompt. -/
def sampleEntry : KeyEntry ℕ := { key := 6, isUserAuthenticationRequired := true }

/-- The records of a wallet with the passcode `1234`. -/
def sampleData : PasscodeData :=
  let created := samplePasscodeController.onFinishWalletCreate samplePrimitives
    sampleKey.localPassword sampleKey.key (fun _ => 9) []
  let pin := (created.1.setUserPasscode samplePrimitives (text "1234") [1] []).2
  let biometric := ({ entry := some sampleEntry } : TonController ℕ).onFinishWalletCreate
    samplePrimitives sampleKey.localPassword sampleKey.key (fun _ => 9) []
  { tonPublicKey := some (text "PUB")
    encryptedPinData := pin.toOption.map (·.1)
    encryptedBiometricData := biometric.2.toOption.join
    passcodeSalt := some [1] }

def sampleClient : Client ℕ where
  passcodeTonController := samplePasscodeController
  biometricTonController := { entry := some sampleEntry }
  encryptedData := some sampleData
  defaultWalletId := some 698983191

def samplePayment : Purpose :=
  .send { destination := some (text "EQAA"), amount := some (text "1000") }

/-- An unlock with a wrong passcode, then with the right one, and the payment. -/
def passcodeRun : List (Action ℕ) :=
  [.onNewDigitClick (text "4"), .onNewDigitClick (text "3"), .onNewDigitClick (text "2"),
    .onNewDigitClick (text "1"), .check 0, .check 0, .check 0, .check 0,
    .onPasscodeOptionsChanged 4, .onNewDigitClick (text "1"), .onNewDigitClick (text "2"),
    .onNewDigitClick (text "3"), .onNewDigitClick (text "4"), .check 0, .check 0, .check 0,
    .check 0, .check 0, .onSuccessAnimationEnd, .consume, .consume, .consume,
    .reply (.queryInfo true), .reply (.querySent true)]

theorem unlock_yields_key_passcode :
    Machine.Always (step samplePrimitives sampleClient) (fun s => Sound s ∧ Ends sampleClient s)
      (start samplePayment none) passcodeRun :=
  unlock_yields_key samplePrimitives sampleClient samplePayment none passcodeRun
    (by decide +kernel)

/-- A biometric unlock, and the payment. -/
def biometricRun : List (Action ℕ) :=
  [.onAuthenticationSuccess (some { entry := sampleEntry, authorized := true }), .check 0,
    .check 0, .check 0, .onSuccessAnimationEnd, .consume, .consume]

/-- The biometric key is not in the slot, and the payment ends without a result. -/
theorem biometric_yields_none :
    ¬ Machine.Always (step samplePrimitives sampleClient) (fun s => Sound s ∧ Ends sampleClient s)
      (start samplePayment none) biometricRun := by
  have hrun : (Machine.run (step samplePrimitives sampleClient) (start samplePayment none)
      biometricRun).any (fun s => ¬ Sound s) = true := by decide +kernel
  obtain ⟨s, hs, h⟩ := (Option.any_eq_true ..).mp hrun
  exact Machine.not_always_of_run hs fun hs => of_decide_eq_true h hs.1

end TonWallet.LockScreen
