import TonWallet.Lib.Distinct
import TonWallet.Lib.Machine
import TonWallet.Storage.Records

/-!
# The transactions of each wallet version

`Storage.saveTransactions` writes the list of the version it is given, but
merges the new transactions with the list of the current version
(`getCurrentTransactions`). So a list is that of its own version only as long
as nothing is saved for a version that is not the current one.

* `histories_isolated_iff`: the runs along which every list has the transactions
  of its own version, each once.
* `history_of_other_version`: a transaction of one version in the list of another.
-/

namespace TonWallet.Storage

open Encoding Distinct

/-! ## Storage -/

/-- `RawTransaction`, without its messages. -/
structure RawTransaction where
  address : Text
  utime : ℤ
  data : Bytes
  transactionId : InternalTransactionId
  fee : ℤ
  storageFee : ℤ
  otherFee : ℤ
deriving DecidableEq, Repr

/-- The preferences with the lists under `"${version.name}_transactions"`, and all the
transactions that were ever saved for a version. -/
structure Histories where
  preferences : Preferences := {}
  transactions : WalletVersion → Option (List RawTransaction) := fun _ => none
  saved : WalletVersion → List RawTransaction := fun _ => []

inductive StorageAction where
  | saveTransactions (transactions : List RawTransaction) (version : WalletVersion)
  | setCurrentWalletVersion (version : WalletVersion)
  | saveWalletData (data : WalletData)
deriving DecidableEq, Repr

/-- The version an operation is about. -/
def StorageAction.version : StorageAction → WalletVersion
  | .saveTransactions _ version => version
  | .setCurrentWalletVersion version => version
  | .saveWalletData data => data.walletVersion

namespace Histories

/-- The list that is stored for a version. -/
def stored (s : Histories) (version : WalletVersion) : List RawTransaction :=
  (s.transactions version).getD []

/-- `getCurrentTransactions` (`Storage.kt` lines 202–212). -/
def getCurrentTransactions (s : Histories) : List RawTransaction :=
  s.stored s.preferences.getCurrentWalletVersion

/-- `saveTransactions` (`Storage.kt` lines 219–227). -/
def saveTransactions (s : Histories) (transactions : List RawTransaction)
    (version : WalletVersion) : Histories :=
  let transactionsResult :=
    distinctBy RawTransaction.transactionId (transactions ++ s.getCurrentTransactions)
  { s with
    transactions := Function.update s.transactions version (some transactionsResult)
    saved := Function.update s.saved version (transactions ++ s.saved version) }

/-- `setCurrentWalletVersion` (`Storage.kt` lines 140–144). -/
def setCurrentWalletVersion (s : Histories) (version : WalletVersion) : Histories :=
  { s with preferences := { s.preferences with currentWalletVersion := some version } }

def step (s : Histories) : StorageAction → Option Histories
  | .saveTransactions transactions version => some (s.saveTransactions transactions version)
  | .setCurrentWalletVersion version => some (s.setCurrentWalletVersion version)
  | .saveWalletData data => some { s with preferences := s.preferences.saveWalletData data }

/-! ## Isolation -/

/-- The list of `version` has each transaction that was saved for it once, and no other. -/
structure Holds (list saved : List RawTransaction) : Prop where
  once : (list.map RawTransaction.transactionId).Nodup
  complete : ∀ t ∈ saved, t.transactionId ∈ list.map RawTransaction.transactionId
  sound : ∀ t ∈ list, t ∈ saved

/-- Every version has its own list, and no operation on another version changes it. -/
structure Isolated (s : Histories) : Prop where
  own : ∀ version, Holds (s.stored version) (s.saved version)
  frame : ∀ version a t, a.version ≠ version → s.step a = some t →
    t.stored version = s.stored version

/-- Apart from the transactions that are being saved, the list of the current version has the
transactions that were saved for `version`. -/
def Agrees (s : Histories) (transactions : List RawTransaction) (version : WalletVersion) : Prop :=
  (∀ t ∈ s.stored version, t.transactionId ∈
    (transactions ++ s.getCurrentTransactions).map RawTransaction.transactionId) ∧
  ∀ t ∈ s.getCurrentTransactions,
    t.transactionId ∉ transactions.map RawTransaction.transactionId → t ∈ s.saved version

instance (s : Histories) (transactions : List RawTransaction) (version : WalletVersion) :
    Decidable (s.Agrees transactions version) := by
  unfold Agrees
  infer_instance

/-- Transactions are saved for the current version, or for one whose list agrees with its list. -/
def SavesCurrent (s : Histories) : StorageAction → Prop
  | .saveTransactions transactions version =>
    version = s.preferences.getCurrentWalletVersion ∨ s.Agrees transactions version
  | _ => True

instance (s : Histories) (a : StorageAction) : Decidable (s.SavesCurrent a) := by
  cases a <;> dsimp only [SavesCurrent] <;> infer_instance

variable {s t : Histories} {a : StorageAction} {transactions : List RawTransaction}
  {version : WalletVersion}

@[simp] theorem saveTransactions_stored_self :
    (s.saveTransactions transactions version).stored version
    = distinctBy RawTransaction.transactionId (transactions ++ s.getCurrentTransactions) := by
  simp [stored, saveTransactions]

@[simp] theorem saveTransactions_saved_self :
    (s.saveTransactions transactions version).saved version
      = transactions ++ s.saved version := by
  simp [saveTransactions]

theorem saveTransactions_of_ne {other : WalletVersion} (h : other ≠ version) :
    (s.saveTransactions transactions version).stored other = s.stored other ∧
      (s.saveTransactions transactions version).saved other = s.saved other := by
  simp [stored, saveTransactions, Function.update_of_ne h]

/-- What the operations change: a save, the list of its version; the others, none. -/
theorem step_cases (h : s.step a = some t) :
    (∃ transactions version, a = .saveTransactions transactions version ∧
      t = s.saveTransactions transactions version) ∨
    t.transactions = s.transactions ∧ t.saved = s.saved ∧ s.SavesCurrent a := by
  cases a with
  | saveTransactions transactions version =>
    exact .inl ⟨transactions, version, rfl, (Option.some.inj h).symm⟩
  | setCurrentWalletVersion version =>
    obtain rfl := Option.some.inj h
    exact .inr ⟨rfl, rfl, trivial⟩
  | saveWalletData data =>
    obtain rfl := Option.some.inj h
    exact .inr ⟨rfl, rfl, trivial⟩

/-- The list of one version is safe from the operations on the others, in any state. -/
theorem stored_frame (hne : a.version ≠ version) (h : s.step a = some t) :
    t.stored version = s.stored version := by
  obtain ⟨transactions, w, rfl, rfl⟩ | ⟨ht, -, -⟩ := step_cases h
  · exact (saveTransactions_of_ne hne.symm).1
  · rw [stored, ht, stored]

/-- The merge keeps a list its version's own exactly if the current list agrees with it. -/
theorem holds_distinctBy_iff (h : ∀ version, Holds (s.stored version) (s.saved version)) :
    Holds (distinctBy RawTransaction.transactionId (transactions ++ s.getCurrentTransactions))
        (transactions ++ s.saved version) ↔
      version = s.preferences.getCurrentWalletVersion ∨ s.Agrees transactions version := by
  have hcurrent : Holds s.getCurrentTransactions _ := h s.preferences.getCurrentWalletVersion
  constructor
  · intro hd
    refine .inr ⟨fun t ht => ?_, fun t ht hnew => ?_⟩
    · rw [← mem_map_distinctBy]
      exact hd.complete t (List.mem_append_right _ ((h version).sound t ht))
    · have hmem := hd.sound t (mem_distinctBy_of_new hcurrent.once ht hnew)
      exact (List.mem_append.mp hmem).resolve_left fun hm => hnew (List.mem_map_of_mem hm)
  · intro hc
    have hagrees : s.Agrees transactions version := by
      obtain rfl | hc := hc
      · refine ⟨fun t ht => ?_, fun t ht _ => hcurrent.sound t ht⟩
        rw [List.map_append]
        exact List.mem_append_right _ (List.mem_map_of_mem ht)
      · exact hc
    refine ⟨nodup_map_distinctBy, fun t ht => ?_, fun t ht => ?_⟩
    · rw [mem_map_distinctBy]
      obtain ht | ht := List.mem_append.mp ht
      · exact List.mem_map_of_mem (List.mem_append_left _ ht)
      -- What was saved before has its id in the old list.
      · obtain ⟨u, hu, hid⟩ := List.mem_map.mp ((h version).complete t ht)
        exact hid ▸ hagrees.1 u hu
    · obtain ht | ⟨ht, hnew⟩ := mem_distinctBy_append ht
      · exact List.mem_append_left _ ht
      · exact List.mem_append_right _ (hagrees.2 t ht hnew)

/-- After a save every list is its version's own exactly if the save was for the current
version, or for one whose list agrees with the current one. -/
theorem holds_step_iff (h : ∀ version, Holds (s.stored version) (s.saved version))
    (ht : s.step a = some t) :
    (∀ version, Holds (t.stored version) (t.saved version)) ↔ s.SavesCurrent a := by
  obtain ⟨transactions, version, rfl, rfl⟩ | ⟨htr, hsv, hc⟩ := step_cases ht
  · refine Iff.trans ⟨fun hall => ?_, fun hv other => ?_⟩ (holds_distinctBy_iff h)
    · have hv := hall version
      rwa [saveTransactions_stored_self, saveTransactions_saved_self] at hv
    · by_cases he : other = version
      · subst he
        rwa [saveTransactions_stored_self, saveTransactions_saved_self]
      · rw [(saveTransactions_of_ne he).1, (saveTransactions_of_ne he).2]
        exact h other
  · refine iff_of_true (fun version => ?_) hc
    rw [stored, htr, hsv]
    exact h version

theorem isolated_iff :
    s.Isolated ↔ ∀ version, Holds (s.stored version) (s.saved version) :=
  ⟨Isolated.own, fun h => ⟨h, fun _ _ _ => stored_frame⟩⟩

theorem isolated_start : Isolated {} :=
  isolated_iff.mpr fun _ => ⟨List.nodup_nil, fun _ ht => (List.not_mem_nil ht).elim,
    fun _ ht => (List.not_mem_nil ht).elim⟩

/-- **Isolation of the histories.** Along a run every version's list has the transactions
saved for it, each once, and no other, if and only if transactions are saved only for the
version that is current, or for one whose list agrees with the current one. -/
theorem histories_isolated_iff (as : List StorageAction) :
    Machine.Always step Isolated {} as ↔ Machine.Guarded step SavesCurrent {} as := by
  refine Machine.always_iff_guarded (I := Isolated) ?_ (fun _ h => h) ?_ isolated_start
  · intro s a t hs hc ht
    exact isolated_iff.mpr ((holds_step_iff (isolated_iff.mp hs) ht).mpr hc)
  · intro s a t hs ht hc hP
    exact hc ((holds_step_iff (isolated_iff.mp hs) ht).mp (isolated_iff.mp hP))

/-! ## A second version -/

/-- A transaction of the account. -/
def sampleTransaction (lt : ℤ) : RawTransaction where
  address := text "EQ"
  utime := 1690000000
  data := []
  transactionId := { lt := lt, hash := some [7] }
  fee := 5
  storageFee := 1
  otherFee := 4

/-- With V3R2 as current version, a transaction of V3R2 gets into the list of V3R1 when the
history of V3R1 is loaded. -/
theorem history_of_other_version :
    ¬ Machine.Always step Isolated {}
      [.saveTransactions [sampleTransaction 1] .V3R2,
        .saveTransactions [sampleTransaction 2] .V3R1] := by
  refine Machine.not_always_of_run rfl fun h => ?_
  have hmem := (h.own .V3R1).sound (sampleTransaction 1) (by decide)
  exact absurd hmem (by decide)

end Histories

end TonWallet.Storage
