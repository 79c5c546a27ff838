import TonWallet.Creation.Model
import TonWallet.Keystore.RoundTrip
import TonWallet.Lib.Jobs
import TonWallet.Lib.Machine

/-!
# All or nothing

A call deletes the entries of the key store first, and with them every record
that was stored, also when tonlib then refuses the key. A wallet is stored as
soon as its account state arrives, when no record of its key exists anywhere
yet, and a key is returned also when no wallet could be stored. So a run that
creates anything passes through a state in which the process must not stop, or
returns a key without a wallet.

* `all_or_nothing_iff`: from every stored disk on which the four guarantees
  hold, they hold along a run if and only if it is harmless: no call begins
  over a stored wallet, none is refused that found a usable record, and nothing
  is created.
* `refused_import_loses_key`: a refused import over a wallet and its record.
* `offline_import_returns_key`: a key without a wallet.
-/

namespace TonWallet.Creation

open Encoding Keystore Storage

variable {K : Type} (P : Primitives K) (publicKeyOf : Bytes → Bytes → Text)

/-! ## The guarantees -/

/-- Some stored record gives the key, under some PIN or after a biometric prompt. -/
def Recoverable (d : Disk K) (inputKey : InputKeyRegular) : Prop :=
  ∃ data, d.preferences.passcode = some data ∧
    ((∃ pin, (({ entry := d.passcodeEntry } : TonController K).decryptTonData P (some pin) none
        false data.encryptedPinData data.passcodeSalt 0 data.tonPublicKey).2
        = .ok (some inputKey)) ∨
      ∃ cipher, ({ entry := d.biometricEntry } : TonController K).cipherForDecrypt = some cipher ∧
        (({ entry := d.biometricEntry } : TonController K).decryptTonData P none
          (some cipher.authorize) false data.encryptedBiometricData data.passcodeSalt (-1)
          data.tonPublicKey).2 = .ok (some inputKey))

/-- The public key of a decrypted key: tonlib derives it from the password and the secret. -/
def publicKey (inputKey : InputKeyRegular) : Text :=
  publicKeyOf inputKey.localPassword inputKey.key.secret

/-- A controller holds the key of `pk`, in its record for later or in memory. -/
def Holds (c : TonController K) (pk : Text) : Prop :=
  (∃ data inputKey, c.creatingDataForLaterEncrypt = some data ∧
      TonController.readRecord data none = .ok (some inputKey) ∧
      publicKey publicKeyOf inputKey = pk) ∨
    ∃ inputKey, c.memInputKey = some inputKey ∧ publicKey publicKeyOf inputKey = pk

/-- The public keys of stored wallets, of keys that are held and of keys in stored records. -/
def Concerned (s : State K) (pk : Text) : Prop :=
  (∃ version data, s.preferences.wallets version = some data ∧ data.publicKey = some pk) ∨
    Holds publicKeyOf s.biometric pk ∨ Holds publicKeyOf s.passcode pk ∨
    ∃ inputKey, Recoverable P s.disk inputKey ∧ publicKey publicKeyOf inputKey = pk

/-- The guarantees of creation. -/
structure AllOrNothing (s : State K) : Prop where
  /-- (a) A returned key is the key of the current wallet. -/
  returned : ∀ inputKey wallet, Outcome.returned inputKey wallet ∈ s.ended →
    ∃ data, wallet = some data ∧ data.publicKey = inputKey.key.publicKey
  /-- (b) Wallets, keys in memory and records belong to one public key. -/
  one_key : ∀ pk pk', Concerned P publicKeyOf s pk → Concerned P publicKeyOf s pk' → pk = pk'
  /-- (c) A call that fails leaves the wallets and the usable records as they were. -/
  failed : ∀ found left, Outcome.failed found left ∈ s.ended →
    left.preferences.wallets = found.preferences.wallets ∧
      ∀ inputKey, Recoverable P found inputKey → Recoverable P left inputKey
  /-- (d) The key of a stored wallet can be decrypted from some stored record. -/
  recoverable : ∀ version data, s.preferences.wallets version = some data →
    ∃ inputKey, Recoverable P s.disk inputKey ∧
      data.publicKey = some (publicKey publicKeyOf inputKey)

/-! ## The condition -/

/-- A process starts on a stored disk. -/
def State.boot (d : Disk K) : State K where
  biometric := { entry := d.biometricEntry }
  passcode := { entry := d.passcodeEntry }
  preferences := d.preferences

/-- No stored record is encrypted for the key. -/
def Unreadable (preferences : Preferences) (key : K) : Prop :=
  ∀ data encoded bytes, preferences.passcode = some data →
    data.encryptedPinData = some encoded ∨ data.encryptedBiometricData = some encoded →
    P.decode encoded = some bytes → P.rsaDecrypt key bytes = none

/-- The key pairs that a call generates are new: no stored record is encrypted for them. -/
def Fresh (s : State K) : Action K → Prop
  | .begin _ _ _ biometricKey passcodeKey => ∀ key, biometricKey = some key ∨
      passcodeKey = some key → Unreadable P s.preferences key
  | _ => True

/-- tonlib refuses to import, to create or to export the key. -/
def Refused : Phase → Reply → Prop
  | .importKey, .key _ => False
  | .createKey, .key _ => False
  | .exportKey _, .exportedKey => False
  | .importKey, _ => True
  | .createKey, _ => True
  | .exportKey _, _ => True
  | _, _ => False

/-- An account state arrives for a call. -/
def Arrives : Phase → Reply → Prop
  | .accountStates _ _ _, .fullAccountState _ _ _ => True
  | _, _ => False

/-- No call begins while a wallet is stored, none is refused that found a usable record, no
account state arrives for a call and no call gets to its end. -/
def Harmless (s : State K) : Action K → Prop
  | .begin _ _ _ _ _ => ∀ version, s.preferences.wallets version = none
  | .reply i r => ∀ call, s.calls[i]? = some call →
      ¬ Arrives call.phase r ∧
        (Refused call.phase r → ∀ inputKey, ¬ Recoverable P call.found inputKey)
  | .finish _ _ _ _ => False
  | _ => True

/-! ## The invariant -/

/-- Nothing has been created since the process started on the disk `d`. As long as no call has
begun the disk is as it was; from the first one on no record can be decrypted. -/
structure Untouched (d : Disk K) (s : State K) : Prop where
  preferences : s.preferences = d.preferences
  writes : s.writes = []
  biometric_data : s.biometric.creatingDataForLaterEncrypt = none ∧ s.biometric.memInputKey = none
  passcode_data : s.passcode.creatingDataForLaterEncrypt = none ∧ s.passcode.memInputKey = none
  calls : ∀ call ∈ s.calls, call.found.preferences = d.preferences
  entries : (s.disk = d ∧ s.calls = []) ∨ ((∀ version, d.preferences.wallets version = none) ∧
    ∀ inputKey, ¬ Recoverable P s.disk inputKey)
  ended : ∀ outcome ∈ s.ended, ∃ found left, outcome = .failed found left ∧
    left.preferences.wallets = found.preferences.wallets ∧
      ∀ inputKey, ¬ Recoverable P found inputKey

theorem untouched_boot (d : Disk K) : Untouched P d (State.boot d) where
  preferences := rfl
  writes := rfl
  biometric_data := ⟨rfl, rfl⟩
  passcode_data := ⟨rfl, rfl⟩
  calls call h := by cases h
  entries := Or.inl ⟨rfl, rfl⟩
  ended outcome h := by cases h

variable {P publicKeyOf} {d : Disk K} {s t : State K}

/-- A text that the cipher's key does not decrypt. -/
theorem decryptTonData_ne_ok {c : TonController K} {passcode : Option Text}
    {cipher : Option (Cipher K)} {change : Bool} {encoded : Option Text} {salt : Option Bytes}
    {passcodeType : ℤ} {pk : Option Text}
    (h : ∀ cipher' text bytes, (cipher <|> c.cipherForDecrypt) = some cipher' →
      encoded = some text → P.decode text = some bytes →
      P.rsaDecrypt cipher'.entry.key bytes = none) (inputKey : InputKeyRegular) :
    (c.decryptTonData P passcode cipher change encoded salt passcodeType pk).2
      ≠ .ok (some inputKey) := by
  have hnone : c.decrypt P encoded cipher = none := by
    unfold TonController.decrypt
    cases hc : (cipher <|> c.cipherForDecrypt) with
    | none => rfl
    | some cipher' =>
      cases he : encoded with
      | none => rfl
      | some text =>
        cases hb : P.decode text with
        | none => simp [hb]
        | some bytes => simp [hb, Cipher.doFinal, h cipher' text bytes hc he hb]
  unfold TonController.decryptTonData
  rw [hnone]
  intro hok
  cases hok

/-- Without a key that reads them, the stored records give nothing. -/
theorem not_recoverable {d : Disk K}
    (h : ∀ entry, d.biometricEntry = some entry ∨ d.passcodeEntry = some entry →
      Unreadable P d.preferences entry.key) (inputKey : InputKeyRegular) :
    ¬ Recoverable P d inputKey := by
  rintro ⟨data, hdata, ⟨pin, hpin⟩ | ⟨cipher, hcipher, hbiometric⟩⟩
  · refine decryptTonData_ne_ok (fun cipher' text bytes hc he hb => ?_) inputKey hpin
    obtain ⟨entry, hentry, rfl⟩ := Option.map_eq_some_iff.mp hc
    exact h entry (Or.inr hentry) data text bytes hdata (Or.inl he) hb
  · obtain ⟨entry, hentry, rfl⟩ := Option.map_eq_some_iff.mp hcipher
    refine decryptTonData_ne_ok (fun cipher' text bytes hc he hb => ?_) inputKey hbiometric
    cases hc
    exact h entry (Or.inl hentry) data text bytes hdata (Or.inr he) hb

/-- What can be recovered depends on the records and the entries only. -/
theorem Recoverable.of_eq {d d' : Disk K} {inputKey : InputKeyRegular}
    (h : Recoverable P d inputKey) (hp : d'.preferences.passcode = d.preferences.passcode)
    (hb : d'.biometricEntry = d.biometricEntry) (hc : d'.passcodeEntry = d.passcodeEntry) :
    Recoverable P d' inputKey := by
  obtain ⟨data, hdata, h⟩ := h
  refine ⟨data, hp.trans hdata, ?_⟩
  rw [hb, hc]
  exact h

theorem not_holds {c : TonController K}
    (h : c.creatingDataForLaterEncrypt = none ∧ c.memInputKey = none) (pk : Text) :
    ¬ Holds publicKeyOf c pk := by
  rintro (⟨data, _, hdata, -⟩ | ⟨inputKey, hmem, -⟩)
  · rw [h.1] at hdata
    cases hdata
  · rw [h.2] at hmem
    cases hmem

/-- A call is running only over a disk without wallets, of which nothing can be recovered. -/
theorem Untouched.of_call (hu : Untouched P d s) {i : ℕ} {call : Call K}
    (hc : s.calls[i]? = some call) : (∀ version, d.preferences.wallets version = none) ∧
      ∀ inputKey, ¬ Recoverable P s.disk inputKey := by
  rcases hu.entries with ⟨-, hcalls⟩ | h
  · rw [hcalls] at hc
    cases hc
  · exact h

/-- The public keys that are concerned are those on the disk. -/
theorem Untouched.concerned (hu : Untouched P d s) {pk : Text}
    (h : Concerned P publicKeyOf s pk) : Concerned P publicKeyOf (State.boot d) pk := by
  rcases h with ⟨version, data, hdata, hpk⟩ | h | h | ⟨inputKey, hr, hpk⟩
  · exact Or.inl ⟨version, data, by rw [← hdata, hu.preferences]; rfl, hpk⟩
  · exact absurd h (not_holds hu.biometric_data pk)
  · exact absurd h (not_holds hu.passcode_data pk)
  · rcases hu.entries with ⟨hd, -⟩ | ⟨-, hn⟩
    · exact Or.inr (Or.inr (Or.inr ⟨inputKey, by rw [hd] at hr; exact hr, hpk⟩))
    · exact absurd hr (hn inputKey)

/-- Where nothing has been created, nothing is amiss that was in order on the disk. -/
theorem Untouched.allOrNothing (hd : AllOrNothing P publicKeyOf (State.boot d))
    (hu : Untouched P d s) : AllOrNothing P publicKeyOf s where
  returned inputKey wallet h := by
    obtain ⟨_, _, he, -⟩ := hu.ended _ h
    cases he
  one_key pk pk' h h' := hd.one_key pk pk' (hu.concerned h) (hu.concerned h')
  failed found left h := by
    obtain ⟨found', left', he, hw, hr⟩ := hu.ended _ h
    cases he
    exact ⟨hw, fun inputKey h => absurd h (hr inputKey)⟩
  recoverable version data h := by
    rw [hu.preferences] at h
    rcases hu.entries with ⟨hdisk, -⟩ | ⟨hn, -⟩
    · rw [hdisk]
      exact hd.recoverable version data h
    · rw [hn version] at h
      cases h

/-! ## Steps -/

theorem Untouched.goOn (hu : Untouched P d s) {i : ℕ} {call : Call K}
    (hc : s.calls[i]? = some call) (phase : Phase) : Untouched P d (s.goOn i call phase) := by
  refine ⟨hu.preferences, hu.writes, hu.biometric_data, hu.passcode_data, ?_,
    Or.inr (hu.of_call hc), hu.ended⟩
  exact Jobs.goOn hu.calls (hu.calls call (List.mem_of_getElem? hc))

theorem Untouched.fail (hu : Untouched P d s) {i : ℕ} {call : Call K}
    (hc : s.calls[i]? = some call) (hr : ∀ inputKey, ¬ Recoverable P call.found inputKey) :
    Untouched P d (s.fail i call) := by
  refine ⟨hu.preferences, hu.writes, hu.biometric_data, hu.passcode_data, ?_,
    Or.inr (hu.of_call hc), ?_⟩
  · exact Jobs.finish hu.calls i
  · intro outcome hmem
    rcases List.mem_cons.mp hmem with rfl | hmem
    · refine ⟨_, _, rfl, ?_, hr⟩
      rw [hu.calls call (List.mem_of_getElem? hc)]
      exact congrArg Preferences.wallets hu.preferences
    · exact hu.ended outcome hmem

/-- A call that begins deletes the entries, and leaves records that nothing decrypts. -/
theorem not_recoverable_begin {importing : Bool} {password : Bytes} {isDeviceSecure : Bool}
    {biometricKey passcodeKey : Option K}
    (hf : Fresh P s (.begin importing password isDeviceSecure biometricKey passcodeKey))
    (inputKey : InputKeyRegular) :
    ¬ Recoverable P
      (s.begin importing password isDeviceSecure biometricKey passcodeKey).disk inputKey := by
  refine not_recoverable (fun entry he => ?_) inputKey
  rcases he with he | he
  · obtain ⟨key, hkey, rfl⟩ := Option.map_eq_some_iff.mp he
    exact hf key (Or.inl hkey)
  · obtain ⟨key, hkey, rfl⟩ := Option.map_eq_some_iff.mp he
    exact hf key (Or.inr hkey)

/-- An account state has arrived for the call. -/
def SavesWallet (s t : State K) (r : Reply) (call : Call K) : Prop :=
  ∃ key version rest address lastTransactionId balance,
    call.phase = .accountStates key version rest ∧
    r = .fullAccountState address lastTransactionId balance ∧
    t.preferences = s.preferences.saveWalletData
      (State.walletData key version address lastTransactionId balance) ∧
    t.biometric = s.biometric ∧ t.passcode = s.passcode

/-- Every reply moves a call on, or refuses it its key, or is an account state. -/
theorem reply_cases {i : ℕ} {r : Reply} (h : s.reply i r = some t) :
    ∃ call, s.calls[i]? = some call ∧
      ((¬ Refused call.phase r ∧ ¬ Arrives call.phase r ∧ ∃ phase, t = s.goOn i call phase) ∨
        (Refused call.phase r ∧ ¬ Arrives call.phase r ∧ t = s.fail i call) ∨
        (Arrives call.phase r ∧ SavesWallet s t r call)) := by
  obtain ⟨call, hc, h⟩ := Option.bind_eq_some_iff.mp h
  refine ⟨call, hc, ?_⟩
  dsimp only at h
  cases hphase : call.phase <;> rw [hphase] at h <;> cases r <;> first
    | exact Or.inl ⟨id, id, _, (Option.some.inj h).symm⟩
    | exact Or.inr (Or.inl ⟨trivial, id, (Option.some.inj h).symm⟩)
    | cases h; exact Or.inr (Or.inr ⟨trivial, _, _, _, _, _, _, hphase, rfl, rfl, rfl, rfl⟩)
    | cases h

/-- A wallet is stored before there is any record of its key. -/
theorem not_allOrNothing_of_saves (hn : ∀ inputKey, ¬ Recoverable P s.disk inputKey) {r : Reply}
    {call : Call K} (hs : SavesWallet s t r call) : ¬ AllOrNothing P publicKeyOf t := by
  obtain ⟨key, version, rest, address, lastTransactionId, balance, -, -, ht, hb, hp⟩ := hs
  intro ha
  have hsaved : t.preferences.wallets version
      = some (State.walletData key version address lastTransactionId balance) := by
    rw [ht]
    exact Preferences.saveWalletData_wallets_self ..
  obtain ⟨inputKey, hr, -⟩ := ha.recoverable version _ hsaved
  refine hn inputKey (hr.of_eq ?_ ?_ ?_)
  · show s.preferences.passcode = t.preferences.passcode
    rw [ht, Preferences.saveWalletData_passcode]
  · show s.biometric.entry = t.biometric.entry
    rw [hb]
  · show s.passcode.entry = t.passcode.entry
    rw [hp]

/-- A call that ends returns its key, with the current wallet of that moment. -/
theorem finish_ended {i : ℕ} {random random' : ℕ → Byte} {seed : Bytes}
    (h : s.finish P i random random' seed = some t) :
    ∃ inputKey, Outcome.returned inputKey s.preferences.getCurrentWallet ∈ t.ended := by
  obtain ⟨call, hc, h⟩ := Option.bind_eq_some_iff.mp h
  dsimp only at h
  split at h
  · split at h
    · cases h
    · cases h
      exact ⟨_, List.mem_cons_self ..⟩
  · cases h

/-- A key is returned although no wallet is stored. -/
theorem not_allOrNothing_of_finish (hw : ∀ version, s.preferences.wallets version = none) {i : ℕ}
    {random random' : ℕ → Byte} {seed : Bytes}
    (h : s.finish P i random random' seed = some t) : ¬ AllOrNothing P publicKeyOf t := by
  obtain ⟨inputKey, hmem⟩ := finish_ended h
  intro ha
  obtain ⟨data, hdata, -⟩ := ha.returned _ _ hmem
  rw [Preferences.getCurrentWallet, hw] at hdata
  cases hdata

/-- A harmless step leaves everything untouched. -/
theorem Untouched.step (hu : Untouched P d s) {a : Action K} (hf : Fresh P s a)
    (hc : Harmless P s a) (h : Creation.step P s a = some t) : Untouched P d t := by
  cases a with
  | «begin» importing password isDeviceSecure biometricKey passcodeKey =>
    cases h
    refine ⟨hu.preferences, hu.writes, ⟨rfl, rfl⟩, ⟨rfl, rfl⟩, ?_, Or.inr ⟨?_, ?_⟩, hu.ended⟩
    · exact Jobs.launch hu.calls hu.preferences
    · intro version
      rw [← hu.preferences]
      exact hc version
    · exact not_recoverable_begin hf
  | reply i r =>
    obtain ⟨call, hcall, ⟨-, -, phase, rfl⟩ | ⟨hr, -, rfl⟩ | ⟨ha, -⟩⟩ := reply_cases h
    · exact hu.goOn hcall phase
    · exact hu.fail hcall ((hc call hcall).2 hr)
    · exact absurd ha (hc call hcall).1
  | finish i random random' seed => exact absurd hc id
  | abandon i =>
    simp only [Creation.step] at h
    split_ifs at h with hi
    cases h
    refine ⟨hu.preferences, hu.writes, hu.biometric_data, hu.passcode_data, ?_,
      Or.inr (hu.of_call (List.getElem?_eq_getElem hi)), hu.ended⟩
    exact Jobs.finish hu.calls i
  | setUserPasscode pin salt seed =>
    simp [Creation.step, State.setUserPasscode, TonController.setUserPasscode,
      hu.passcode_data.1] at h
  | finishCreateImportWallet j =>
    simp only [Creation.step, State.finishCreateImportWallet] at h
    split at h
    · rename_i hj
      obtain ⟨_, _, he, -⟩ := hu.ended _ (List.mem_of_getElem? hj)
      cases he
    · cases h
  | write i =>
    simp [Creation.step, State.write, hu.writes] at h
  | stop =>
    cases h
    refine ⟨hu.preferences, rfl, ⟨rfl, rfl⟩, ⟨rfl, rfl⟩, ?_, ?_, hu.ended⟩
    · intro call hmem
      cases hmem
    · exact hu.entries.imp (fun hd => ⟨hd.1, rfl⟩) id

/-- Every other step breaks a guarantee. -/
theorem Untouched.not_allOrNothing (hu : Untouched P d s) {a : Action K} (hf : Fresh P s a)
    (h : Creation.step P s a = some t) (hc : ¬ Harmless P s a) :
    ¬ AllOrNothing P publicKeyOf t := by
  cases a with
  | «begin» importing password isDeviceSecure biometricKey passcodeKey =>
    -- (d) The wallet stays, and the entries of its records are gone.
    obtain ⟨version, hw⟩ := not_forall.mp hc
    obtain ⟨data, hdata⟩ := Option.ne_none_iff_exists'.mp hw
    cases h
    intro ha
    obtain ⟨inputKey, hr, -⟩ := ha.recoverable version data hdata
    exact not_recoverable_begin hf inputKey hr
  | reply i r =>
    obtain ⟨call, hcall, hcases⟩ := reply_cases h
    obtain ⟨hw, hn⟩ := hu.of_call hcall
    rcases hcases with ⟨hr, ha, -⟩ | ⟨hr, ha, rfl⟩ | ⟨-, hs⟩
    · refine absurd (fun call' hcall' => ?_) hc
      obtain rfl := Option.some.inj (hcall.symm.trans hcall')
      exact ⟨ha, fun hr' => absurd hr' hr⟩
    · -- (c) The record that the call has found is gone.
      intro hall
      refine hc fun call' hcall' => ?_
      obtain rfl := Option.some.inj (hcall.symm.trans hcall')
      refine ⟨ha, fun _ inputKey hfound => hn inputKey ?_⟩
      exact (hall.failed _ _ (List.mem_cons_self ..)).2 inputKey hfound
    · exact not_allOrNothing_of_saves hn hs
  | finish i random random' seed =>
    obtain ⟨call, hcall, -⟩ := Option.bind_eq_some_iff.mp h
    refine not_allOrNothing_of_finish (fun version => ?_) h
    rw [hu.preferences]
    exact (hu.of_call hcall).1 version
  | abandon | setUserPasscode | finishCreateImportWallet | write | stop =>
    exact absurd trivial hc

/-- **Creation is all or nothing only as long as it creates nothing.** Let the four guarantees
hold on a stored disk. Among the runs from there in which the key store generates new key pairs,
they hold in every state exactly along those whose steps are all harmless. -/
theorem all_or_nothing_iff (P : Primitives K) (publicKeyOf : Bytes → Bytes → Text) (d : Disk K)
    (hd : AllOrNothing P publicKeyOf (State.boot d)) {as : List (Action K)}
    (hf : Machine.Guarded (step P) (Fresh P) (State.boot d) as) :
    Machine.Always (step P) (AllOrNothing P publicKeyOf) (State.boot d) as ↔
      Machine.Guarded (step P) (Harmless P) (State.boot d) as :=
  Machine.always_iff_of_guarded (fun _ _ _ hu hc hs => hu.step hc.1 hc.2 hs)
    (fun _ hu => hu.allOrNothing hd) (fun _ _ _ hu hf hs hc => hu.not_allOrNothing hf hs hc)
    (untouched_boot P d) hf

/-! ## A refused import -/

/-- The public key of the sample ciphers: the secret itself. -/
def samplePublicKeyOf (_ secret : Bytes) : Text := secret.map (·.setWidth 16)

/-- A key store entry behind the biometric prompt. -/
def sampleEntry : KeyEntry ℕ where
  key := 5
  isUserAuthenticationRequired := true

/-- The record of the secret `!`. -/
def sampleRecord : Option Text :=
  ({ entry := some sampleEntry } : TonController ℕ).encrypt samplePrimitives []
    (recordOf (List.replicate 64 7) [33] fun _ => 9)

/-- A wallet, and the record of its key. -/
def sampleDisk : Disk ℕ where
  preferences :=
    { wallets := fun version =>
        if version = .V3R2 then
          some { address := text "EQ", publicKey := some (text "!"), walletVersion := .V3R2
                 lastTransactionId := {}, balance := 0 }
        else none
      passcode := some { encryptedBiometricData := sampleRecord } }
  biometricEntry := some sampleEntry

/-- What the record holds. -/
def sampleInputKey : InputKeyRegular where
  key := { publicKey := none, secret := [33] }
  localPassword := List.replicate 64 7

theorem decryptTonData_sampleRecord :
    (({ entry := some sampleEntry } : TonController ℕ).decryptTonData samplePrimitives none
      (some ({ entry := sampleEntry } : Cipher ℕ).authorize) false sampleRecord none (-1) none).2
      = .ok (some sampleInputKey) := by decide +kernel

/-- The record gives the key of the wallet, and nothing else. -/
theorem recoverable_sampleDisk (inputKey : InputKeyRegular) :
    Recoverable samplePrimitives sampleDisk inputKey ↔ inputKey = sampleInputKey := by
  constructor
  · rintro ⟨data, hdata, ⟨pin, hpin⟩ | ⟨cipher, hcipher, hread⟩⟩
    · cases hdata
      exact absurd hpin (decryptTonData_ne_ok (fun _ _ _ _ he _ => by cases he) inputKey)
    · cases hdata
      cases hcipher
      exact Option.some.inj (Except.ok.inj (hread.symm.trans decryptTonData_sampleRecord))
  · rintro rfl
    exact ⟨_, rfl, Or.inr ⟨_, rfl, decryptTonData_sampleRecord⟩⟩

/-- On the sample disk everything is in order. -/
theorem allOrNothing_sampleDisk :
    AllOrNothing samplePrimitives samplePublicKeyOf (State.boot sampleDisk) where
  returned inputKey wallet h := by cases h
  one_key := by
    have hone : ∀ pk, Concerned samplePrimitives samplePublicKeyOf (State.boot sampleDisk) pk →
        pk = text "!" := by
      rintro pk (⟨version, data, hdata, hpk⟩ | h | h | ⟨inputKey, hr, rfl⟩)
      · cases version with
        | V3R2 =>
          cases hdata
          exact (Option.some.inj hpk).symm
        | V3R1 | V4R2 => cases hdata
      · exact absurd h (not_holds ⟨rfl, rfl⟩ pk)
      · exact absurd h (not_holds ⟨rfl, rfl⟩ pk)
      · rw [(recoverable_sampleDisk inputKey).mp hr]
        rfl
    exact fun pk pk' h h' => (hone pk h).trans (hone pk' h').symm
  failed found left h := by cases h
  recoverable version data h := by
    refine ⟨sampleInputKey, (recoverable_sampleDisk _).mpr rfl, ?_⟩
    cases version with
    | V3R2 =>
      cases h
      rfl
    | V3R1 | V4R2 => cases h

/-- An import that tonlib refuses. -/
def refusedImport : List (Action ℕ) :=
  [.begin true (List.replicate 64 8) true (some 1) (some 2), .reply 0 .error]

/-- The key pairs of the refused import are new. -/
theorem fresh_refusedImport :
    Machine.Guarded (step samplePrimitives) (Fresh samplePrimitives) (State.boot sampleDisk)
      refusedImport := by
  have hnone : ∀ key ∈ [1, 2], (sampleRecord.bind fun encoded =>
      (samplePrimitives.decode encoded).bind (samplePrimitives.rsaDecrypt key)) = none := by
    decide +kernel
  refine fun t ht => ⟨fun key hkey data encoded bytes hdata he hb => ?_, fun u hu =>
    ⟨trivial, trivial⟩⟩
  cases hdata
  have hkey' : key ∈ [1, 2] := by
    rcases hkey with hkey | hkey <;> cases hkey <;> decide
  have hrecord : sampleRecord = some encoded := he.resolve_left (fun h => by cases h)
  have hn := hnone key hkey'
  rw [hrecord, Option.bind_some, hb] at hn
  exact hn

/-- A refused import takes the stored wallet its key. -/
theorem refused_import_loses_key :
    ¬ Machine.Always (step samplePrimitives) (AllOrNothing samplePrimitives samplePublicKeyOf)
      (State.boot sampleDisk) refusedImport := by
  rw [all_or_nothing_iff samplePrimitives samplePublicKeyOf sampleDisk allOrNothing_sampleDisk
    fresh_refusedImport]
  intro hg
  have hnone := (hg _ rfl).1 .V3R2
  cases hnone

/-! ## Importing without a network -/

/-- An import in which tonlib knows the key and the three addresses, but gets no account state. -/
def offlineImport : List (Action ℕ) :=
  [.begin true (List.replicate 64 7) false (some 1) (some 2),
    .reply 0 (.key { publicKey := text "Pu", secret := [1] }),
    .reply 0 (.accountAddress (text "EQ1")), .reply 0 (.accountAddress (text "EQ2")),
    .reply 0 .unpackedAccountAddress, .reply 0 (.accountAddress (text "EQ4")),
    .reply 0 .error, .reply 0 .error, .reply 0 .error, .finish 0 (fun _ => 0) (fun _ => 0) []]

/-- The call has returned a key without a current wallet. -/
def Outcome.withoutWallet : Outcome K → Bool
  | .returned _ none => true
  | _ => false

theorem not_allOrNothing_of_withoutWallet (h : s.ended.any Outcome.withoutWallet = true) :
    ¬ AllOrNothing P publicKeyOf s := by
  obtain ⟨outcome, hmem, ho⟩ := List.any_eq_true.mp h
  intro ha
  unfold Outcome.withoutWallet at ho
  split at ho
  · obtain ⟨data, hdata, -⟩ := ha.returned _ _ hmem
    cases hdata
  · cases ho

/-- The import returns a key, and there is no current wallet. -/
theorem offline_import_returns_key :
    ¬ Machine.Always (step samplePrimitives)
      (AllOrNothing samplePrimitives samplePublicKeyOf) (State.boot {}) offlineImport := by
  have hrun : (Machine.run (step samplePrimitives) (State.boot {}) offlineImport).any
      (fun s => s.ended.any Outcome.withoutWallet) = true := by decide +kernel
  obtain ⟨t, ht, hended⟩ := (Option.any_eq_true ..).mp hrun
  exact Machine.not_always_of_run ht (not_allOrNothing_of_withoutWallet hended)

end TonWallet.Creation
