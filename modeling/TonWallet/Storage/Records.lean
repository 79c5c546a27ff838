import TonWallet.Encoding.Bytes
import Mathlib.Data.Int.Notation

/-!
# Stored records

The part of the preferences that holds wallets and key records: one `WalletData`
for each wallet version, the current version, and one `PasscodeData`, which is
only ever merged into.
-/

namespace TonWallet.Storage

open Encoding

/-- `WalletVersion` (`Storage.kt` lines 402–411). -/
inductive WalletVersion where
  | V3R1
  | V3R2
  | V4R2
deriving DecidableEq, Repr

/-- `InternalTransactionId`, compared by content. -/
structure InternalTransactionId where
  lt : ℤ := 0
  hash : Option Bytes := none
deriving DecidableEq, Repr

/-- `WalletData`. -/
structure WalletData where
  address : Text
  publicKey : Option Text := none
  walletVersion : WalletVersion
  lastTransactionId : InternalTransactionId
  balance : ℤ
deriving DecidableEq, Repr

/-- `PasscodeData`. -/
structure PasscodeData where
  tonPublicKey : Option Text := none
  encryptedPinData : Option Text := none
  encryptedBiometricData : Option Text := none
  passcodeSalt : Option Bytes := none
  passcodeType : Option ℤ := none
deriving DecidableEq, Repr

/-- `Storage.updatePasscodeData`: the fields that are given replace the stored ones
(`Storage.kt` lines 160–191). -/
def updatePasscodeData (current : Option PasscodeData) (update : PasscodeData) : PasscodeData :=
  match current with
  | none => update
  | some current =>
    { tonPublicKey := update.tonPublicKey <|> current.tonPublicKey
      encryptedPinData := update.encryptedPinData <|> current.encryptedPinData
      encryptedBiometricData := update.encryptedBiometricData <|> current.encryptedBiometricData
      passcodeSalt := update.passcodeSalt <|> current.passcodeSalt
      passcodeType := update.passcodeType <|> current.passcodeType }

/-- The preferences. -/
structure Preferences where
  wallets : WalletVersion → Option WalletData := fun _ => none
  currentWalletVersion : Option WalletVersion := none
  passcode : Option PasscodeData := none

namespace Preferences

/-- `getCurrentWalletVersion` (`Storage.kt` lines 117–125). -/
def getCurrentWalletVersion (p : Preferences) : WalletVersion :=
  p.currentWalletVersion.getD .V3R2

/-- `getCurrentWallet` (`Storage.kt` lines 92–94). -/
def getCurrentWallet (p : Preferences) : Option WalletData :=
  p.wallets p.getCurrentWalletVersion

/-- `saveWalletData` (`Storage.kt` lines 147–151). -/
def saveWalletData (p : Preferences) (data : WalletData) : Preferences :=
  { p with wallets := fun v => if v = data.walletVersion then some data else p.wallets v }

/-- `updatePasscodeData` on the preferences. -/
def updatePasscode (p : Preferences) (update : PasscodeData) : Preferences :=
  { p with passcode := some (updatePasscodeData p.passcode update) }

@[simp] theorem saveWalletData_wallets_self (p : Preferences) (data : WalletData) :
    (p.saveWalletData data).wallets data.walletVersion = some data := by
  simp [saveWalletData]

@[simp] theorem saveWalletData_passcode (p : Preferences) (data : WalletData) :
    (p.saveWalletData data).passcode = p.passcode := rfl

end Preferences

end TonWallet.Storage
