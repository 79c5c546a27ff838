import TonWallet.Keystore.RoundTrip

/-!
# Damaged records

What `decryptTonData` does with the bytes it has decrypted, whatever they are:
under a wrong passcode they are as good as random. Bytes 1 and 2 have to be the
marker `ok`; the padding byte in front of them is signed, and neither it nor the
length of the array is looked at before the arrays are made and copied.

* `readRecord_fits`, `readRecord_throws`: with the marker, a key is returned or an
  exception thrown.
* `decryptTonData_clean_iff`: damaged records are rejected without an exception
  exactly when those that carry the marker are well formed.
-/

namespace TonWallet.Keystore

open Encoding TonController

variable {K : Type} (P : Primitives K)

/-! ## Records -/

/-- The marker `ok`. -/
def HasMarker (record : Bytes) : Prop := record.getD 1 0 = 0x6F ∧ record.getD 2 0 = 0x6B

instance (record : Bytes) : Decidable (HasMarker record) := instDecidableAnd

/-- `decrypted[0].toInt()`. -/
def paddingByte (record : Bytes) : ℤ := (record.getD 0 0).toInt

/-- A padding that `onFinishWalletCreate` could have written, and room for it, for the password
and for the first three bytes. -/
structure WellFormed (record : Bytes) : Prop where
  padding_nonneg : 0 ≤ paddingByte record
  padding_le : paddingByte record ≤ 15
  fits : 3 + 64 + paddingByte record ≤ record.length

/-- The bytes `decryptTonData` reads as a record; there are none if the cipher fails or leaves
at most three (`TonController.kt` lines 365–378). -/
def TonController.decryptedRecord (c : TonController K) (passcode : Option Text)
    (cipherForDecrypt : Option (Cipher K)) (encryptedData : Option Text)
    (passcodeSalt : Option Bytes) (passcodeType : ℤ) : Option Bytes :=
  ((c.decrypt P encryptedData cipherForDecrypt).filter fun d => 3 < d.length).map fun d =>
    if passcodeType ≠ -1 then
      P.aesIge (keyAndIv P passcode passcodeSalt).1 (keyAndIv P passcode passcodeSalt).2 false d
    else d

/-- Nothing is thrown, a key comes from a well-formed record only, and with null the buffer for a
later encryption stays as it is. -/
structure Clean (c : TonController K) (record : Option Bytes)
    (r : TonController K × Except Throwable (Option InputKeyRegular)) : Prop where
  throwsNothing : ∃ inputKey, r.2 = .ok inputKey
  wellFormed : ∀ inputKey, r.2 = .ok (some inputKey) → ∀ b ∈ record, WellFormed b
  unchanged : r.2 = .ok none → r.1.creatingDataForLaterEncrypt = c.creatingDataForLaterEncrypt

/-! ## Reading -/

variable {P} {record : Bytes} {tonPublicKey : Option Text}

theorem readRecord_unmarked (h : ¬ HasMarker record) : readRecord record tonPublicKey = .ok none :=
  if_neg h

/-- The array sizes and copies of a marked record. -/
theorem readRecord_marked (h : HasMarker record) :
    readRecord record tonPublicKey =
      let size : ℤ := record.length - 64 - paddingByte record - 3
      if size < 0 then .error .negativeArraySize
      else (do
        let password ← arraycopy record 3 (List.replicate 64 0) 0 64
        let secret ← arraycopy record (3 + 64) (List.replicate size.toNat 0) 0 size.toNat
        .ok (some { key := { publicKey := tonPublicKey, secret := secret },
                    localPassword := password })) :=
  if_pos h

/-- A padding that is not negative and leaves room: the copies stay in the array. -/
theorem readRecord_fits (h : HasMarker record) (hpos : 0 ≤ paddingByte record)
    (hfits : 3 + 64 + paddingByte record ≤ record.length) :
    ∃ inputKey, readRecord record tonPublicKey = .ok (some inputKey) := by
  obtain ⟨size, hsize⟩ := Int.eq_ofNat_of_zero_le
    (show 0 ≤ (record.length : ℤ) - 64 - paddingByte record - 3 by omega)
  rw [readRecord_marked h]
  simp only [hsize, Int.toNat_natCast]
  rw [if_neg (by omega), arraycopy, if_neg (by rw [List.length_replicate]; omega), ok_bind,
    arraycopy, if_neg (by rw [List.length_replicate]; omega), ok_bind]
  exact ⟨_, rfl⟩

/-- Any other marked record makes an array of negative size, or a copy from outside the array. -/
theorem readRecord_throws (h : HasMarker record)
    (hbad : ¬ (0 ≤ paddingByte record ∧ 3 + 64 + paddingByte record ≤ record.length)) :
    ∃ e, readRecord record tonPublicKey = .error e := by
  rw [readRecord_marked h]
  dsimp only
  by_cases hneg : (record.length : ℤ) - 64 - paddingByte record - 3 < 0
  · exact ⟨_, if_pos hneg⟩
  obtain ⟨size, hsize⟩ := Int.eq_ofNat_of_zero_le (not_lt.mp hneg)
  rw [if_neg hneg, hsize, Int.toNat_natCast]
  by_cases hpassword : record.length < 67
  · rw [arraycopy, if_pos (by omega), error_bind]
    exact ⟨_, rfl⟩
  · -- There is room for the password: the padding is negative, and the secret too long.
    rw [arraycopy, if_neg (by rw [List.length_replicate]; omega), ok_bind, arraycopy,
      if_pos (by omega), error_bind]
    exact ⟨_, rfl⟩

theorem decryptTonData_eq (c : TonController K) (passcode : Option Text)
    (cipherForDecrypt : Option (Cipher K)) (forPasscodeChange : Bool)
    (encryptedData : Option Text) (passcodeSalt : Option Bytes) (passcodeType : ℤ)
    (tonPublicKey : Option Text) :
    c.decryptTonData P passcode cipherForDecrypt forPasscodeChange encryptedData passcodeSalt
        passcodeType tonPublicKey =
      match c.decryptedRecord P passcode cipherForDecrypt encryptedData passcodeSalt
        passcodeType with
      | none => (c, .ok none)
      | some record =>
        match readRecord record tonPublicKey with
        | .ok (some inputKey) =>
          (if forPasscodeChange then { c with creatingDataForLaterEncrypt := some record } else c,
            .ok (some inputKey))
        | result => (c, result) := by
  rw [decryptTonData, decryptedRecord]
  cases c.decrypt P encryptedData cipherForDecrypt with
  | none => rfl
  | some d =>
    by_cases hlen : d.length ≤ 3
    · rw [Option.filter_some, if_neg (by simp [hlen])]
      simp only [if_pos hlen, Option.map_none]
    · rw [Option.filter_some, if_pos (by simp; omega)]
      exact if_neg hlen

/-- Returning null leaves the controller as it is. -/
theorem clean_null (c : TonController K) (record : Option Bytes) : Clean c record (c, .ok none) :=
  ⟨⟨_, rfl⟩, fun _ h => (by cases h), fun _ => rfl⟩

/-- **Damaged records.** A call is clean exactly when the bytes it reads as a record, if there
are any, are well formed or do not carry the marker. -/
theorem decryptTonData_clean_iff (P : Primitives K) (c : TonController K)
    (passcode : Option Text) (cipherForDecrypt : Option (Cipher K)) (forPasscodeChange : Bool)
    (encryptedData : Option Text) (passcodeSalt : Option Bytes) (passcodeType : ℤ)
    (tonPublicKey : Option Text) :
    let record := c.decryptedRecord P passcode cipherForDecrypt encryptedData passcodeSalt
      passcodeType
    Clean c record (c.decryptTonData P passcode cipherForDecrypt forPasscodeChange encryptedData
        passcodeSalt passcodeType tonPublicKey) ↔
      ∀ b ∈ record, HasMarker b → WellFormed b := by
  intro record
  rw [decryptTonData_eq]
  cases hrecord : record with
  | none =>
    have hr : c.decryptedRecord P passcode cipherForDecrypt encryptedData passcodeSalt passcodeType
        = none := hrecord
    rw [hr]
    exact ⟨fun _ b hb => (by cases hb), fun _ => clean_null c none⟩
  | some b =>
    have hr : c.decryptedRecord P passcode cipherForDecrypt encryptedData passcodeSalt passcodeType
        = some b := hrecord
    rw [hr]
    simp only [Option.mem_some_iff, forall_eq']
    by_cases hmarker : HasMarker b
    · by_cases hreads : 0 ≤ paddingByte b ∧ 3 + 64 + paddingByte b ≤ b.length
      · obtain ⟨inputKey, hkey⟩ : ∃ inputKey, readRecord b tonPublicKey = .ok (some inputKey) :=
          readRecord_fits hmarker hreads.1 hreads.2
        rw [hkey]
        constructor
        · intro h _
          exact h.wellFormed inputKey rfl b rfl
        · intro h
          refine ⟨⟨_, rfl⟩, fun _ _ b' hb' => ?_, fun hnone => by cases hnone⟩
          rw [← Option.mem_some_iff.mp hb']
          exact h hmarker
      · obtain ⟨e, herror⟩ : ∃ e, readRecord b tonPublicKey = .error e :=
          readRecord_throws hmarker hreads
        rw [herror]
        constructor
        · rintro ⟨⟨_, h⟩, -, -⟩
          cases h
        · intro h
          exact absurd ⟨(h hmarker).padding_nonneg, (h hmarker).fits⟩ hreads
    · rw [readRecord_unmarked hmarker]
      exact ⟨fun _ h => absurd h hmarker, fun _ => clean_null c (some b)⟩

/-- Four bytes with the marker, under a passcode: an array of size -63 is to be made. -/
theorem damaged_record_throws :
    let c : TonController ℕ := { entry := some { key := 5, isUserAuthenticationRequired := false } }
    c.decryptedRecord samplePrimitives (some (text "1234")) none
        (some [5, 0x31, 0xA0, 0x9C, 0x31]) (some [1]) 0 = some [0, 0x6F, 0x6B, 0] ∧
      ¬ Clean c (some [0, 0x6F, 0x6B, 0])
        (c.decryptTonData samplePrimitives (some (text "1234")) none false
          (some [5, 0x31, 0xA0, 0x9C, 0x31]) (some [1]) 0 none) := by
  intro c
  refine ⟨by decide, fun h => ?_⟩
  obtain ⟨inputKey, hkey⟩ := h.throwsNothing
  have herror : (c.decryptTonData samplePrimitives (some (text "1234")) none false
      (some [5, 0x31, 0xA0, 0x9C, 0x31]) (some [1]) 0 none).2 = .error .negativeArraySize := rfl
  rw [herror] at hkey
  cases hkey

end TonWallet.Keystore
