import TonWallet.Lib.Jobs
import TonWallet.Sync.Model
import Mathlib.Data.Int.Order.Basic

/-!
# No history is skipped

The id that is stored with a wallet is the cursor of its synchronisation: once
it is the last one on the chain, nothing is fetched any more. The cursor is saved
whether or not the page before it was, and the page is filed under a version that
is not read from the wallet.

* `history_complete`: while every fetch brings what is missing and every list is
  saved for its own version, a version whose cursor is the last transaction of its
  account has all transactions that are due, and no others.
* `failed_fetch_skips`: a fetch that fails leaves a gap behind the cursor.
-/

namespace TonWallet.Sync

open Encoding Storage

/-! ## Properties -/

namespace State

/-- The transaction is not older than what the version has been imported from. -/
def Due (s : State) (version : WalletVersion) (t : RawTransaction) : Prop :=
  ∃ time ∈ s.since version, time ≤ t.transactionId.lt

instance (s : State) (version : WalletVersion) (t : RawTransaction) : Decidable (s.Due version t) :=
  inferInstanceAs (Decidable (∃ time ∈ s.since version, time ≤ t.transactionId.lt))

/-- The list has the transactions of the account that are due, up to a time. -/
def Covers (s : State) (version : WalletVersion) (address : Text) (time : ℤ)
    (list : List RawTransaction) : Prop :=
  ∀ t ∈ s.chain address, s.Due version t → t.transactionId.lt ≤ time → t ∈ list

instance (s : State) (version : WalletVersion) (address : Text) (time : ℤ)
    (list : List RawTransaction) : Decidable (s.Covers version address time list) :=
  inferInstanceAs (Decidable (∀ t ∈ s.chain address, s.Due version t → _ → t ∈ list))

def wallets (s : State) : WalletVersion → Option WalletData := s.storage.preferences.wallets

/-- A wallet whose cursor is the last transaction of its account has all that are due. -/
def Complete (s : State) (version : WalletVersion) : Prop :=
  ∀ w ∈ s.wallets version, w.lastTransactionId = s.lastTransactionId w.address →
    ∀ t ∈ s.chain w.address, s.Due version t → t ∈ s.storage.stored version

instance (s : State) (version : WalletVersion) : Decidable (s.Complete version) :=
  inferInstanceAs (Decidable (∀ w ∈ s.wallets version,
    w.lastTransactionId = s.lastTransactionId w.address →
      ∀ t ∈ s.chain w.address, s.Due version t → t ∈ s.storage.stored version))

/-- The transactions that are stored for a version are those of its wallet. -/
def Filed (s : State) (version : WalletVersion) : Prop :=
  ∀ t ∈ s.storage.stored version, ∃ w ∈ s.wallets version, t.address = w.address

/-- No history is skipped, and none is filed under another version. -/
def Synced (s : State) : Prop := ∀ version, s.Complete version ∧ s.Filed version

end State

/-! ## Steps in order -/

/-- The second reading finds the wallet of the same version, or another transaction id, or nothing
is missing; a page is filed under the version of the wallet, and saved for the current one. -/
def UpdateStage.InOrder (s : State) : UpdateStage → Prop
  | .compare walletData accountStatus =>
    (s.storage.preferences.getCurrentWallet.any fun saved =>
      accountStatus.lastTransactionId ≠ saved.lastTransactionId ∨
        saved.walletVersion = walletData.walletVersion) = true ∨
      s.Covers walletData.walletVersion walletData.address accountStatus.lastTransactionId.lt
        (s.storage.stored walletData.walletVersion)
  | .saveTransactions walletData accountStatus transactions =>
    (transactions = [] ∨ accountStatus.version = walletData.walletVersion) ∧
      s.storage.SavesCurrent (.saveTransactions transactions accountStatus.version)
  | _ => True

/-- A wallet is imported where there is none, or one of the same account with nothing missing; its
page is saved for the current version, and reaches the transactions that are due. -/
def Job.InOrder (s : State) : Job → Prop
  | .update stage => stage.InOrder s
  | .saveWalletData _ _ version accountState _ =>
    (∀ w ∈ s.wallets version, w.address = accountState.address) ∧
      s.Covers version accountState.address accountState.lastTransactionId.lt
        (s.storage.stored version)
  | .saveTransactions version address lastTransactionId transactions =>
    s.storage.SavesCurrent (.saveTransactions transactions version) ∧
      (transactions = [] ∨ ∀ t ∈ s.chain address, ¬ s.Due version t →
        lastTransactionId.lt < t.transactionId.lt → t ∈ s.storage.stored version)
  | _ => True

/-- A fetch of an update brings what is missing. -/
def Job.Fetches (s : State) (ok : Bool) : Job → Prop
  | .update (.getTransactions walletData accountStatus) =>
    s.Covers walletData.walletVersion walletData.address accountStatus.lastTransactionId.lt
      (s.storage.stored walletData.walletVersion ++
        if ok then
          getRawTransactions (s.chain accountStatus.address) accountStatus.lastTransactionId
        else [])
  | _ => True

/-- The step loses and misplaces nothing. -/
def InOrder (s : State) : Action → Prop
  | .goOn i => ∀ j ∈ s.jobs[i]?, j.InOrder s
  | .rawTransactions i ok => ∀ j ∈ s.jobs[i]?, j.Fetches s ok
  | _ => True

instance (s : State) : ∀ stage : UpdateStage, Decidable (stage.InOrder s)
  | .compare _ _ => inferInstanceAs (Decidable (_ = true ∨ _))
  | .saveTransactions _ _ _ => inferInstanceAs (Decidable ((_ ∨ _) ∧ _))
  | .launched => isTrue trivial
  | .getAccountState _ => isTrue trivial
  | .getTransactions _ _ => isTrue trivial
  | .saveWalletData _ _ => isTrue trivial

instance (s : State) : ∀ j : Job, Decidable (j.InOrder s)
  | .update stage => inferInstanceAs (Decidable (stage.InOrder s))
  | .saveWalletData _ _ version accountState _ =>
    inferInstanceAs (Decidable ((∀ w ∈ s.wallets version, w.address = accountState.address) ∧ _))
  | .saveTransactions version address lastTransactionId _ =>
    inferInstanceAs (Decidable (_ ∧ (_ ∨ ∀ t ∈ s.chain address, ¬ s.Due version t →
      lastTransactionId.lt < t.transactionId.lt → t ∈ s.storage.stored version)))
  | .getAccountAddress _ _ _ _ => isTrue trivial
  | .getAccountState _ _ _ => isTrue trivial
  | .getTransactions _ _ _ => isTrue trivial
  | .setCurrentWalletVersion _ => isTrue trivial

instance (s : State) (ok : Bool) : ∀ j : Job, Decidable (j.Fetches s ok)
  | .update (.getTransactions _ _) => inferInstanceAs (Decidable (State.Covers ..))
  | .update .launched => isTrue trivial
  | .update (.getAccountState _) => isTrue trivial
  | .update (.compare _ _) => isTrue trivial
  | .update (.saveTransactions _ _ _) => isTrue trivial
  | .update (.saveWalletData _ _) => isTrue trivial
  | .saveWalletData _ _ _ _ _ => isTrue trivial
  | .saveTransactions _ _ _ _ => isTrue trivial
  | .getAccountAddress _ _ _ _ => isTrue trivial
  | .getAccountState _ _ _ => isTrue trivial
  | .getTransactions _ _ _ => isTrue trivial
  | .setCurrentWalletVersion _ => isTrue trivial

instance (s : State) : ∀ a, Decidable (InOrder s a)
  | .goOn i => inferInstanceAs (Decidable (∀ j ∈ s.jobs[i]?, j.InOrder s))
  | .rawTransactions i ok => inferInstanceAs (Decidable (∀ j ∈ s.jobs[i]?, j.Fetches s ok))
  | .updateCurrentAccountState => isTrue trivial
  | .loadAccountRevisions _ _ => isTrue trivial
  | .saveCurrentAddressVersion _ => isTrue trivial
  | .grow _ => isTrue trivial
  | .accountAddress _ _ => isTrue trivial
  | .accountState _ _ => isTrue trivial

/-! ## The invariant -/

/-- The wallet of the version is that of the account. -/
def Owner (s : State) (version : WalletVersion) (address : Text) : Prop :=
  ∃ w ∈ s.wallets version, w.address = address

/-- The id is that of a transaction of the account, or zero. -/
def Reached (s : State) (address : Text) (last : InternalTransactionId) : Prop :=
  last.lt ≤ 0 ∨ ∃ t ∈ s.chain address, t.transactionId = last

/-- Up to this one, the transactions that are due have been saved or are in a page. -/
structure UpTo (s : State) (version : WalletVersion) (address : Text)
    (last : InternalTransactionId) (page : List RawTransaction) : Prop where
  owner : Owner s version address
  reached : Reached s address last
  onChain : ∀ t ∈ page, t ∈ s.chain address
  covers : s.Covers version address last.lt (s.storage.saved version ++ page)

/-- What an update knows. -/
def UpdateStage.Ok (s : State) : UpdateStage → Prop
  | .launched => True
  | .getAccountState w => Owner s w.walletVersion w.address
  | .compare w a | .getTransactions w a =>
    Owner s w.walletVersion w.address ∧ a.address = w.address ∧
      Reached s w.address a.lastTransactionId
  | .saveTransactions w a transactions =>
    UpTo s w.walletVersion w.address a.lastTransactionId transactions
  | .saveWalletData w a => UpTo s w.walletVersion w.address a.lastTransactionId []

/-- What a coroutine knows. -/
def Job.Ok (s : State) : Job → Prop
  | .update stage => stage.Ok s
  | .saveWalletData _ _ _ a _ => Reached s a.address a.lastTransactionId
  | .getTransactions version address lastTransactionId =>
    Owner s version address ∧ Reached s address lastTransactionId
  | .saveTransactions version address lastTransactionId transactions =>
    Owner s version address ∧ Reached s address lastTransactionId ∧
      (∀ t ∈ transactions, t ∈ s.chain address) ∧
      ∀ u ∈ transactions, ∀ t ∈ s.chain address, u.transactionId.lt ≤ t.transactionId.lt →
        t.transactionId.lt ≤ lastTransactionId.lt → t ∈ transactions
  | _ => True

/-- The chain is in order, every list has what was saved for its version, and that are transactions
of its wallet; a wallet has what is due up to its cursor; the coroutines know what they should. -/
structure Inv (s : State) : Prop where
  newest : ∀ address,
    Pages.Newest RawTransaction.transactionId InternalTransactionId.lt (s.chain address)
  address : ∀ address, ∀ t ∈ s.chain address, t.address = address
  positive : ∀ address, ∀ t ∈ s.chain address, 0 < t.transactionId.lt
  holds : ∀ version, Histories.Holds (s.storage.stored version) (s.storage.saved version)
  saved : ∀ version, ∀ t ∈ s.storage.saved version, ∃ w ∈ s.wallets version, t ∈ s.chain w.address
  since : ∀ version, (s.wallets version).isSome → (s.since version).isSome
  version : ∀ version, ∀ w ∈ s.wallets version, w.walletVersion = version
  wallets : ∀ version, ∀ w ∈ s.wallets version,
    UpTo s version w.address w.lastTransactionId []
  jobs : ∀ j ∈ s.jobs, j.Ok s

/-! ### What it gives -/

variable {s t : State} {version : WalletVersion}

/-- What was saved for a version is in its list. -/
theorem Inv.mem_stored (h : Inv s) {x : RawTransaction} (hx : x ∈ s.storage.saved version) :
    x ∈ s.storage.stored version := by
  obtain ⟨y, hy, hid⟩ := List.mem_map.mp ((h.holds version).complete x hx)
  obtain ⟨w, hw, hxc⟩ := h.saved version x hx
  obtain ⟨w', hw', hyc⟩ := h.saved version y ((h.holds version).sound y hy)
  obtain rfl := Option.mem_unique hw hw'
  exact (h.newest w.address).eq_of_id hyc hxc hid ▸ hy

theorem Inv.complete (h : Inv s) : s.Complete version := by
  intro w hw hlast x hx hdue
  have hle : x.transactionId.lt ≤ w.lastTransactionId.lt := by
    have hnew := h.newest w.address
    rw [hlast, State.lastTransactionId]
    cases hc : s.chain w.address with
    | nil => rw [hc] at hx; cases hx
    | cons y l => rw [hc] at hx hnew; exact hnew.le_head hx
  have hmem := (h.wallets version w hw).covers x hx hdue hle
  exact h.mem_stored (by simpa using hmem)

theorem Inv.filed (h : Inv s) : s.Filed version := by
  intro x hx
  obtain ⟨w, hw, hc⟩ := h.saved version x ((h.holds version).sound x hx)
  exact ⟨w, hw, h.address w.address x hc⟩

theorem Inv.synced (h : Inv s) : s.Synced := fun _ => ⟨h.complete, h.filed⟩

/-! ### What it needs -/

/-- The chain grows, wallets keep their account, and nothing that was saved is lost; what has
become due has been saved. -/
structure Extends (s t : State) : Prop where
  chain : ∀ address, ∀ x ∈ s.chain address, x ∈ t.chain address
  newer : ∀ address, ∀ x ∈ t.chain address, x ∈ s.chain address ∨
    0 < x.transactionId.lt ∧ ∀ u ∈ s.chain address, u.transactionId.lt < x.transactionId.lt
  owner : ∀ version address, Owner s version address → Owner t version address
  saved : ∀ version, ∀ x ∈ s.storage.saved version, x ∈ t.storage.saved version
  due : ∀ version address, Owner s version address → ∀ x ∈ s.chain address,
    t.Due version x → s.Due version x ∨ x ∈ t.storage.saved version

theorem Extends.of_eq {storage : Histories} {jobs : List Job}
    (hw : storage.preferences.wallets = s.wallets) (hs : storage.saved = s.storage.saved) :
    Extends s { s with storage := storage, jobs := jobs } where
  chain _ _ hx := hx
  newer _ _ hx := .inl hx
  owner version address h := by
    obtain ⟨w, hmem, he⟩ := h
    exact ⟨w, by rw [State.wallets, hw]; exact hmem, he⟩
  saved version x hx := by rw [hs]; exact hx
  due _ _ _ _ _ h := .inl h

/-- What is not newer than a transaction that was reached was there. -/
theorem Extends.mem_chain (he : Extends s t) {address : Text} {last : InternalTransactionId}
    (hr : Reached s address last) {x : RawTransaction} (hx : x ∈ t.chain address)
    (hle : x.transactionId.lt ≤ last.lt) : x ∈ s.chain address := by
  refine (he.newer address x hx).resolve_right ?_
  rintro ⟨hpos, hnew⟩
  rcases hr with h0 | ⟨u, hu, rfl⟩
  · omega
  · have := hnew u hu
    omega

theorem Reached.mono (he : Extends s t) {address : Text} {last : InternalTransactionId}
    (h : Reached s address last) : Reached t address last :=
  h.imp_right fun ⟨u, hu, hid⟩ => ⟨u, he.chain address u hu, hid⟩

theorem UpTo.mono (he : Extends s t) {address : Text} {last : InternalTransactionId}
    {page : List RawTransaction} (h : UpTo s version address last page) :
    UpTo t version address last page where
  owner := he.owner _ _ h.owner
  reached := h.reached.mono he
  onChain x hx := he.chain _ _ (h.onChain x hx)
  covers x hx hdue hle := by
    have hmem := he.mem_chain h.reached hx hle
    rcases he.due version address h.owner x hmem hdue with hdue | hsaved
    · refine List.mem_append.mpr ((List.mem_append.mp (h.covers x hmem hdue hle)).imp_left ?_)
      exact he.saved version x
    · exact List.mem_append_left _ hsaved

theorem UpdateStage.Ok.mono (he : Extends s t) {stage : UpdateStage} (h : stage.Ok s) :
    stage.Ok t := by
  cases stage with
  | launched => trivial
  | getAccountState w => exact he.owner _ _ h
  | compare w a | getTransactions w a => exact ⟨he.owner _ _ h.1, h.2.1, h.2.2.mono he⟩
  | saveTransactions w a transactions => exact UpTo.mono he h
  | saveWalletData w a => exact UpTo.mono he h

theorem Job.Ok.mono (he : Extends s t) {j : Job} (h : j.Ok s) : j.Ok t := by
  cases j with
  | update stage => exact UpdateStage.Ok.mono he h
  | getAccountAddress | getAccountState | setCurrentWalletVersion => trivial
  | saveWalletData => exact Reached.mono he h
  | getTransactions => exact ⟨he.owner _ _ h.1, h.2.mono he⟩
  | saveTransactions version address last transactions =>
    obtain ⟨howner, hreached, hchain, hpage⟩ := h
    refine ⟨he.owner _ _ howner, hreached.mono he, fun x hx => he.chain _ _ (hchain x hx), ?_⟩
    intro u hu x hx hux hle
    exact hpage u hu x (he.mem_chain hreached hx hle) hux hle

/-! ## The storage -/

variable {i : ℕ} {j : Job} {jobs : List Job} {since : WalletVersion → Option ℤ}
  {transactions : List RawTransaction}

/-- The wallets and the lists stay, and the coroutines that are new know what they should. -/
theorem inv_jobs (h : Inv s) {storage : Histories}
    (hw : storage.preferences.wallets = s.wallets) (hs : storage.saved = s.storage.saved)
    (ht : storage.transactions = s.storage.transactions)
    (hjobs : ∀ j ∈ jobs, j ∈ s.jobs ∨ j.Ok s) :
    Inv { s with storage := storage, jobs := jobs } := by
  have he : Extends s { s with storage := storage, jobs := jobs } := .of_eq hw hs
  have hwallets : ({ s with storage := storage, jobs := jobs } : State).wallets = s.wallets := hw
  constructor
  case newest => exact h.newest
  case address => exact h.address
  case positive => exact h.positive
  case holds =>
    intro version
    rw [Histories.stored, ht, hs]
    exact h.holds version
  case saved => rw [hwallets, hs]; exact h.saved
  case since => rw [hwallets]; exact h.since
  case version => rw [hwallets]; exact h.version
  case wallets => rw [hwallets]; exact fun version w hw => (h.wallets version w hw).mono he
  case jobs =>
    intro j hj
    exact ((hjobs j hj).elim (h.jobs j) fun hok => hok).mono he

theorem mem_saved_saveTransactions {storage : Histories} {v : WalletVersion} {x : RawTransaction} :
    x ∈ (storage.saveTransactions transactions version).saved v ↔
      v = version ∧ x ∈ transactions ∨ x ∈ storage.saved v := by
  by_cases hv : v = version
  · subst hv
    rw [Histories.saveTransactions_saved_self, List.mem_append]
    simp
  · rw [(Histories.saveTransactions_of_ne hv).2]
    simp [hv]

/-- Transactions of the wallet of a version are saved for it. -/
theorem inv_saveTransactions (h : Inv s)
    (hc : s.storage.SavesCurrent (.saveTransactions transactions version))
    (hpage : transactions = [] ∨
      ∃ w ∈ s.wallets version, ∀ x ∈ transactions, x ∈ s.chain w.address)
    (hsince : ∀ v, (s.since v).isSome → (since v).isSome)
    (he : Extends s { s with
      storage := s.storage.saveTransactions transactions version, jobs := jobs, since := since })
    (hjobs : ∀ j ∈ jobs, j ∈ s.jobs ∨ j.Ok { s with
      storage := s.storage.saveTransactions transactions version, jobs := jobs, since := since }) :
    Inv { s with
      storage := s.storage.saveTransactions transactions version, jobs := jobs,
      since := since } where
  newest := h.newest
  address := h.address
  positive := h.positive
  holds :=
    have hstep : s.storage.step (.saveTransactions transactions version) = some _ := rfl
    (Histories.holds_step_iff h.holds hstep).mpr hc
  saved v x hx := by
    rcases mem_saved_saveTransactions.mp hx with ⟨rfl, hnew⟩ | hold
    · rcases hpage with rfl | ⟨w, hw, hall⟩
      · cases hnew
      · exact ⟨w, hw, hall x hnew⟩
    · exact h.saved v x hold
  since v hv := hsince v (h.since v hv)
  version := h.version
  wallets v w hw := (h.wallets v w hw).mono he
  jobs j hj := (hjobs j hj).elim (fun hold => (h.jobs j hold).mono he) fun hok => hok

/-- A wallet is saved that has what is due up to its cursor. -/
theorem inv_saveWalletData (h : Inv s) (data : WalletData)
    (hdata : ∀ w ∈ s.wallets data.walletVersion, w.address = data.address)
    (hreached : Reached s data.address data.lastTransactionId)
    (hcovers : ∀ x ∈ s.chain data.address, (∃ time ∈ since data.walletVersion,
      time ≤ x.transactionId.lt) → x.transactionId.lt ≤ data.lastTransactionId.lt →
        x ∈ s.storage.saved data.walletVersion)
    (hsome : (since data.walletVersion).isSome)
    (hsince : ∀ v, (s.wallets v).isSome → since v = s.since v)
    (hjobs : ∀ j ∈ jobs, j ∈ s.jobs ∨
      j.Ok { s.saveWalletData data with jobs := jobs, since := since }) :
    Inv { s.saveWalletData data with jobs := jobs, since := since } := by
  have hwallets : ∀ v, ({ s.saveWalletData data with jobs := jobs, since := since } : State).wallets
      v = if v = data.walletVersion then some data else s.wallets v := fun _ => rfl
  have howner : ∀ v address, Owner s v address →
      Owner { s.saveWalletData data with jobs := jobs, since := since } v address := by
    rintro v address ⟨w, hw, hadd⟩
    by_cases hv : v = data.walletVersion
    · subst hv
      exact ⟨data, by rw [hwallets, if_pos rfl]; rfl, (hdata w hw).symm.trans hadd⟩
    · exact ⟨w, by rw [hwallets, if_neg hv]; exact hw, hadd⟩
  have he : Extends s { s.saveWalletData data with jobs := jobs, since := since } := by
    refine ⟨fun _ _ hx => hx, fun _ _ hx => .inl hx, howner, fun _ _ hx => hx, ?_⟩
    rintro v address ⟨w, hw, -⟩ x - hdue
    left
    rw [State.Due] at hdue ⊢
    rwa [← hsince v (Option.isSome_of_mem hw)]
  constructor
  case newest => exact h.newest
  case address => exact h.address
  case positive => exact h.positive
  case holds => exact h.holds
  case saved =>
    intro v x hx
    obtain ⟨w, hw, hc⟩ := h.saved v x hx
    obtain ⟨w', hw', hadd⟩ := howner v w.address ⟨w, hw, rfl⟩
    exact ⟨w', hw', hadd ▸ hc⟩
  case since =>
    intro v hv
    by_cases hd : v = data.walletVersion
    · rw [hd]; exact hsome
    · rw [hwallets, if_neg hd] at hv
      exact (congrArg Option.isSome (hsince v hv)).trans (h.since v hv)
  case version =>
    intro v w hw
    rw [hwallets] at hw
    split at hw
    · rename_i hv
      obtain rfl := Option.some.inj hw
      exact hv.symm
    · exact h.version v w hw
  case wallets =>
    intro v w hw
    have hw' := hw
    rw [hwallets] at hw
    split at hw
    · rename_i hv
      obtain rfl := Option.some.inj hw
      subst hv
      refine ⟨⟨data, hw', rfl⟩, hreached, fun _ hx => (nomatch hx), fun x hx hdue hle => ?_⟩
      exact List.mem_append_left _ (hcovers x hx hdue hle)
    · exact (h.wallets v w hw).mono he
  case jobs =>
    intro j hj
    exact (hjobs j hj).elim (fun hold => (h.jobs j hold).mono he) fun hok => hok

/-! ## The coroutines -/

theorem mem_set_or {jobs : List Job} {Q : Job → Prop} (hQ : Q j) :
    ∀ k ∈ jobs.set i j, k ∈ jobs ∨ Q k := by
  intro k hk
  rcases List.mem_or_eq_of_mem_set hk with hk | rfl
  · exact .inl hk
  · exact .inr hQ

theorem inv_advance (h : Inv s) (hj : j.Ok s) : Inv (s.advance i j) :=
  inv_jobs h rfl rfl rfl (mem_set_or hj)

theorem inv_finish (h : Inv s) : Inv (s.finish i) :=
  inv_jobs h rfl rfl rfl fun _ hk => .inl (List.mem_of_mem_eraseIdx hk)

theorem inv_launch (h : Inv s) (hj : j.Ok s) : Inv { s with jobs := s.jobs ++ [j] } :=
  inv_jobs h rfl rfl rfl fun k hk => (List.mem_append.mp hk).imp_right fun hk => by
    rw [List.mem_singleton.mp hk]; exact hj

theorem inv_grow (h : Inv s) {x : RawTransaction} (hpos : 0 < x.transactionId.lt)
    (hnew : ∀ u ∈ s.chain x.address, u.transactionId.lt < x.transactionId.lt) :
    Inv { s with chain := Function.update s.chain x.address (x :: s.chain x.address) } := by
  have hchain : ∀ address y,
      y ∈ Function.update s.chain x.address (x :: s.chain x.address) address ↔
        address = x.address ∧ y = x ∨ y ∈ s.chain address := by
    intro address y
    by_cases ha : address = x.address
    · subst ha; simp
    · simp [ha]
  have he : Extends s
      { s with chain := Function.update s.chain x.address (x :: s.chain x.address) } := by
    refine ⟨fun a y hy => (hchain a y).mpr (.inr hy), fun a y hy => ?_, fun _ _ ho => ho,
      fun _ _ hy => hy, fun _ _ _ _ _ hd => .inl hd⟩
    rcases (hchain a y).mp hy with ⟨rfl, rfl⟩ | hy
    · exact .inr ⟨hpos, hnew⟩
    · exact .inl hy
  constructor
  case newest =>
    intro address
    dsimp only
    by_cases ha : address = x.address
    · subst ha
      rw [Function.update_self]
      exact Pages.newest_cons.mpr ⟨hnew, h.newest x.address⟩
    · rw [Function.update_of_ne ha]
      exact h.newest address
  case address =>
    intro address y hy
    rcases (hchain address y).mp hy with ⟨rfl, rfl⟩ | hy
    · rfl
    · exact h.address address y hy
  case positive =>
    intro address y hy
    rcases (hchain address y).mp hy with ⟨rfl, rfl⟩ | hy
    · exact hpos
    · exact h.positive address y hy
  case holds => exact h.holds
  case saved =>
    intro version y hy
    obtain ⟨w, hw, hc⟩ := h.saved version y hy
    exact ⟨w, hw, he.chain _ _ hc⟩
  case since => exact h.since
  case version => exact h.version
  case wallets => exact fun version w hw => (h.wallets version w hw).mono he
  case jobs => exact fun j hj => (h.jobs j hj).mono he

theorem reached_lastTransactionId (s : State) (address : Text) :
    Reached s address (s.lastTransactionId address) := by
  rw [State.lastTransactionId]
  cases hc : s.chain address with
  | nil => exact .inl (le_refl 0)
  | cons y l => exact .inr ⟨y, by rw [hc]; exact List.mem_cons_self .., rfl⟩

theorem Owner.eq {address address' : Text} (h : Owner s version address)
    (h' : Owner s version address') : address = address' := by
  obtain ⟨w, hw, rfl⟩ := h
  obtain ⟨w', hw', rfl⟩ := h'
  rw [Option.mem_unique hw hw']

/-- Nothing is missing that is due. -/
theorem upTo_of_covers (h : Inv s) {address : Text} {last : InternalTransactionId}
    {page : List RawTransaction} (howner : Owner s version address)
    (hreached : Reached s address last) (hpage : ∀ x ∈ page, x ∈ s.chain address)
    (hcovers : s.Covers version address last.lt (s.storage.stored version ++ page)) :
    UpTo s version address last page := by
  refine ⟨howner, hreached, hpage, fun x hx hdue hle => ?_⟩
  have hmem := List.mem_append.mp (hcovers x hx hdue hle)
  exact List.mem_append.mpr (hmem.imp_left ((h.holds version).sound x))

/-- The wallet that is current has what is due up to its cursor. -/
theorem upTo_current (h : Inv s) {w : WalletData}
    (hw : s.storage.preferences.getCurrentWallet = some w) :
    UpTo s w.walletVersion w.address w.lastTransactionId [] := by
  have hmem : w ∈ s.wallets s.storage.preferences.getCurrentWalletVersion := hw
  rw [h.version _ w hmem]
  exact h.wallets _ w hmem

/-- A comparison that leads to no fetch finds nothing missing. -/
theorem upTo_compare (h : Inv s) {w : WalletData} {a : FullAccountState}
    (hok : (UpdateStage.compare w a).Ok s) (ho : (UpdateStage.compare w a).InOrder s)
    (hsame : ∀ saved ∈ s.storage.preferences.getCurrentWallet,
      a.lastTransactionId = saved.lastTransactionId) :
    UpTo s w.walletVersion w.address a.lastTransactionId [] := by
  obtain ⟨howner, -, hreached⟩ := hok
  rcases ho with hcurrent | hcovers
  · obtain ⟨saved, hsaved, hc⟩ := (Option.any_eq_true ..).mp hcurrent
    have hid := hsame saved hsaved
    have hversion : saved.walletVersion = w.walletVersion := by
      simpa [hid] using hc
    have hup := upTo_current h hsaved
    rw [hversion] at hup
    rw [howner.eq hup.owner, hid]
    exact hup
  · exact upTo_of_covers h howner hreached (fun _ hx => (nomatch hx)) (by simpa using hcovers)

theorem inv_goOnUpdate (h : Inv s) {stage : UpdateStage} (hok : stage.Ok s)
    (ho : stage.InOrder s) (ht : s.goOnUpdate i stage = some t) : Inv t := by
  cases stage with
  | launched =>
    rw [State.goOnUpdate] at ht
    split at ht
    · rename_i w hw
      obtain rfl := Option.some.inj ht
      exact inv_advance h (upTo_current h hw).owner
    · obtain rfl := Option.some.inj ht
      exact inv_finish h
  | compare w a =>
    rw [State.goOnUpdate] at ht
    split at ht
    · rename_i saved hsaved
      split at ht
      · obtain rfl := Option.some.inj ht
        exact inv_advance h hok
      · rename_i hid
        obtain rfl := Option.some.inj ht
        refine inv_advance h (upTo_compare h hok ho fun current hcurrent => ?_)
        obtain rfl := Option.some.inj (hsaved.symm.trans hcurrent)
        exact not_not.mp hid
    · rename_i hnone
      obtain rfl := Option.some.inj ht
      refine inv_advance h (upTo_compare h hok ho fun current hcurrent => ?_)
      rw [hnone] at hcurrent
      cases hcurrent
  | saveTransactions w a transactions =>
    obtain rfl := Option.some.inj ht
    obtain ⟨howner, hreached, hpage, hcovers⟩ := hok
    obtain ⟨hversion, hcurrent⟩ := ho
    have he : Extends s { s with
        storage := s.storage.saveTransactions transactions a.version
        jobs := s.jobs.set i (.update (.saveWalletData w a)) } :=
      ⟨fun _ _ hx => hx, fun _ _ hx => .inl hx, fun _ _ hx => hx,
        fun _ _ hx => mem_saved_saveTransactions.mpr (.inr hx), fun _ _ _ _ _ hx => .inl hx⟩
    refine inv_saveTransactions h hcurrent ?_ (fun _ hs => hs) he (mem_set_or ?_)
    · refine hversion.imp_right fun hv => ?_
      obtain ⟨w', hw', hadd⟩ := howner
      exact ⟨w', hv ▸ hw', hadd ▸ hpage⟩
    · refine ⟨he.owner _ _ howner, hreached.mono he, fun _ hx => (nomatch hx), ?_⟩
      intro x hx hdue hle
      refine List.mem_append_left _ (mem_saved_saveTransactions.mpr ?_)
      rcases List.mem_append.mp (hcovers x hx hdue hle) with hold | hnew
      · exact .inr hold
      · exact .inl ⟨(hversion.resolve_left fun hnil => by rw [hnil] at hnew; cases hnew).symm, hnew⟩
  | saveWalletData w a =>
    obtain rfl := Option.some.inj ht
    obtain ⟨⟨w', hw', hadd⟩, hreached, -, hcovers⟩ := hok
    have hdata : ∀ v ∈ s.wallets w.walletVersion, v.address = w.address :=
      fun v hv => Option.mem_unique hv hw' ▸ hadd
    refine inv_saveWalletData h (updated w a) hdata hreached (fun x hx hdue hle => ?_)
      (h.since _ (Option.isSome_of_mem hw')) (fun _ _ => rfl)
      fun k hk => .inl (List.mem_of_mem_eraseIdx hk)
    have hmem := hcovers x hx hdue hle
    rw [List.append_nil] at hmem
    exact hmem
  | getAccountState | getTransactions => cases ht

/-! ### The import -/

/-- What is not before the earliest of some transactions is not before one of them. -/
theorem exists_of_earliest_le {transactions : List RawTransaction} {bound time : ℤ}
    (h : earliest transactions bound ≤ time) (hb : time < bound) :
    ∃ x ∈ transactions, x.transactionId.lt ≤ time := by
  induction transactions with
  | nil => exact absurd h (not_le.mpr hb)
  | cons x l ih =>
    by_cases hx : x.transactionId.lt ≤ time
    · exact ⟨x, List.mem_cons_self .., hx⟩
    · have hl : earliest l bound ≤ time := by
        simp only [earliest, List.map_cons, List.foldr_cons] at h ⊢
        omega
      obtain ⟨y, hy, hle⟩ := ih hl
      exact ⟨y, List.mem_cons_of_mem _ hy, hle⟩

theorem inv_import (h : Inv s) {publicKey : Text} {load : Bool} {a : FullAccountState}
    {entries : List (WalletVersion × Text)}
    (hok : (Job.saveWalletData publicKey load version a entries).Ok s)
    (ho : (Job.saveWalletData publicKey load version a entries).InOrder s)
    (ht : s.goOn i (.saveWalletData publicKey load version a entries) = some t) : Inv t := by
  obtain rfl := Option.some.inj ht
  obtain ⟨hdata, hcovers⟩ := ho
  refine inv_saveWalletData h (imported publicKey version a) hdata hok ?_ (by simp [imported])
    (fun v hv => ?_) fun k hk => ?_
  · rintro x hx ⟨time, htime, hdue⟩ hle
    rw [imported, Function.update_self] at htime
    obtain rfl := Option.some.inj htime
    cases hs : s.since version with
    | none =>
      rw [hs, Option.getD_none] at hdue
      have : x.transactionId.lt ≤ a.lastTransactionId.lt := hle
      omega
    | some b =>
      rw [hs, Option.getD_some] at hdue
      exact (h.holds version).sound x (hcovers x hx ⟨b, hs, hdue⟩ hle)
  · by_cases hversion : v = version
    · subst hversion
      obtain ⟨b, hb⟩ := Option.isSome_iff_exists.mp (h.since v hv)
      rw [Function.update_self, hb, Option.getD_some]
    · rw [Function.update_of_ne hversion]
  · rcases List.mem_append.mp hk with hk | hk
    · rcases List.mem_or_eq_of_mem_set hk with hk | rfl
      · exact .inl hk
      · exact .inr trivial
    · right
      cases load with
      | false => cases hk
      | true =>
        rw [List.mem_singleton.mp hk]
        refine ⟨⟨imported publicKey version a, ?_, rfl⟩, hok⟩
        exact s.storage.preferences.saveWalletData_wallets_self (imported publicKey version a)

theorem inv_importTransactions (h : Inv s) {address : Text} {last : InternalTransactionId}
    (hok : (Job.saveTransactions version address last transactions).Ok s)
    (ho : (Job.saveTransactions version address last transactions).InOrder s)
    (ht : s.goOn i (.saveTransactions version address last transactions) = some t) : Inv t := by
  obtain rfl := Option.some.inj ht
  obtain ⟨howner, hreached, hchain, hpage⟩ := hok
  obtain ⟨hcurrent, hconnected⟩ := ho
  have he : Extends s { s with
      storage := s.storage.saveTransactions transactions version
      jobs := s.jobs.eraseIdx i
      since :=
        Function.update s.since version ((s.since version).map (earliest transactions)) } := by
    refine ⟨fun _ _ hx => hx, fun _ _ hx => .inl hx, fun _ _ hx => hx,
      fun _ _ hx => mem_saved_saveTransactions.mpr (.inr hx), ?_⟩
    rintro v address' howner' x hx ⟨time, htime, hdue⟩
    dsimp only at htime
    by_cases hv : v = version
    · subst hv
      rw [Function.update_self] at htime
      obtain ⟨b, hb, rfl⟩ := Option.map_eq_some_iff.mp htime
      by_cases hold : b ≤ x.transactionId.lt
      · exact .inl ⟨b, hb, hold⟩
      -- Newly due: in the page, or between the page and what was due.
      · right
        obtain ⟨u, hu, hux⟩ := exists_of_earliest_le hdue (not_le.mp hold)
        obtain rfl := howner.eq howner'
        refine mem_saved_saveTransactions.mpr ?_
        by_cases hlast : x.transactionId.lt ≤ last.lt
        · exact .inl ⟨rfl, hpage u hu x hx hux hlast⟩
        · have hgap := hconnected.resolve_left (List.ne_nil_of_mem hu)
          refine .inr ((h.holds v).sound x (hgap x hx ?_ (not_le.mp hlast)))
          rintro ⟨b', hb', hle⟩
          obtain rfl := Option.mem_unique hb hb'
          exact hold hle
    · rw [Function.update_of_ne hv] at htime
      exact .inl ⟨time, htime, hdue⟩
  change Inv { s with
    storage := s.storage.saveTransactions transactions version
    jobs := s.jobs.eraseIdx i
    since := Function.update s.since version ((s.since version).map (earliest transactions)) }
  refine inv_saveTransactions h hcurrent ?_ (fun v hv => ?_) he
    fun k hk => .inl (List.mem_of_mem_eraseIdx hk)
  · obtain ⟨w, hw, rfl⟩ := howner
    exact .inr ⟨w, hw, hchain⟩
  · by_cases hversion : v = version
    · subst hversion
      rw [Function.update_self, Option.isSome_map]
      exact hv
    · rw [Function.update_of_ne hversion]
      exact hv

theorem inv_goOn (h : Inv s) (hok : j.Ok s) (ho : j.InOrder s) (ht : s.goOn i j = some t) :
    Inv t := by
  cases j with
  | update stage => exact inv_goOnUpdate h hok ho ht
  | getAccountAddress publicKey load asked found =>
    cases asked with
    | nil => obtain rfl := Option.some.inj ht; exact inv_advance h trivial
    | cons => cases ht
  | getAccountState publicKey load entries =>
    cases entries with
    | nil => obtain rfl := Option.some.inj ht; exact inv_finish h
    | cons => cases ht
  | saveWalletData => exact inv_import h hok ho ht
  | getTransactions => cases ht
  | saveTransactions => exact inv_importTransactions h hok ho ht
  | setCurrentWalletVersion version =>
    obtain rfl := Option.some.inj ht
    exact inv_jobs h rfl rfl rfl fun k hk => .inl (List.mem_of_mem_eraseIdx hk)

/-! ### The replies -/

/-- A page of an update brings what is missing if no more than 100 transactions have come since
the cursor. -/
theorem fetches_of_gap (h : Inv s) {w saved : WalletData} {a : FullAccountState}
    (hok : (UpdateStage.getTransactions w a).Ok s) (hsaved : saved ∈ s.wallets w.walletVersion)
    (hgap : (s.chain w.address).countP (fun x =>
      saved.lastTransactionId.lt < x.transactionId.lt ∧
        x.transactionId.lt ≤ a.lastTransactionId.lt) ≤ 100) :
    (Job.update (.getTransactions w a)).Fetches s true := by
  obtain ⟨howner, haddress, hreached⟩ := hok
  have hup := h.wallets _ saved hsaved
  obtain hsame := howner.eq hup.owner
  intro x hx hdue hle
  by_cases hold : x.transactionId.lt ≤ saved.lastTransactionId.lt
  · have hmem := hup.covers x (hsame ▸ hx) hdue hold
    rw [List.append_nil] at hmem
    exact List.mem_append_left _ (h.mem_stored hmem)
  · have hpos := h.positive _ x hx
    refine List.mem_append_right _ ?_
    rw [if_pos rfl, haddress]
    refine Pages.mem_page_of_count (h.newest w.address)
      (hreached.resolve_left (by omega)) hx hle (Nat.le_trans ?_ hgap)
    refine List.countP_mono_left fun y _ hy => ?_
    have hy := of_decide_eq_true hy
    exact decide_eq_true ⟨by omega, hy.2⟩

theorem inv_accountState (h : Inv s) {addresses : Addresses} {reply : Option (ℤ × ℤ)}
    (ht : step addresses s (.accountState i reply) = some t) : Inv t := by
  rw [step] at ht
  split at ht
  · rename_i w hj
    have hok := h.jobs _ (List.mem_of_getElem? hj)
    split at ht
    · obtain rfl := Option.some.inj ht
      exact inv_advance h ⟨hok, rfl, reached_lastTransactionId s w.address⟩
    · obtain rfl := Option.some.inj ht
      exact inv_finish h
  · rename_i publicKey load version address entries hj
    split at ht
    · obtain rfl := Option.some.inj ht
      exact inv_advance h (reached_lastTransactionId s address)
    · obtain rfl := Option.some.inj ht
      exact inv_advance h trivial
  · cases ht

theorem inv_rawTransactions (h : Inv s) {addresses : Addresses} {ok : Bool}
    (ho : InOrder s (.rawTransactions i ok))
    (ht : step addresses s (.rawTransactions i ok) = some t) : Inv t := by
  rw [step] at ht
  split at ht
  · rename_i w a hj
    obtain ⟨howner, haddress, hreached⟩ := h.jobs _ (List.mem_of_getElem? hj)
    have hcovers := ho _ hj
    rw [Job.Fetches] at hcovers
    split at ht
    · rename_i hok
      obtain rfl := Option.some.inj ht
      rw [if_pos hok] at hcovers
      refine inv_advance h (upTo_of_covers h howner hreached (fun x hx => ?_) hcovers)
      exact haddress ▸ Pages.mem_of_mem_page hx
    · rename_i hok
      obtain rfl := Option.some.inj ht
      rw [if_neg hok] at hcovers
      exact inv_advance h (upTo_of_covers h howner hreached (fun _ hx => (nomatch hx)) hcovers)
  · rename_i version address last hj
    obtain ⟨howner, hreached⟩ := h.jobs _ (List.mem_of_getElem? hj)
    split at ht
    · obtain rfl := Option.some.inj ht
      refine inv_advance h ⟨howner, hreached, fun x hx => Pages.mem_of_mem_page hx, ?_⟩
      exact fun u hu x hx hux hle => Pages.mem_page_of_between (h.newest address) hu hx hux hle
    · obtain rfl := Option.some.inj ht
      exact inv_finish h
  · cases ht

theorem inv_step {addresses : Addresses} (s : State) (a : Action) (t : State) (h : Inv s)
    (ho : InOrder s a) (ht : step addresses s a = some t) : Inv t := by
  cases a with
  | updateCurrentAccountState | loadAccountRevisions | saveCurrentAddressVersion =>
    obtain rfl := Option.some.inj ht
    exact inv_launch h trivial
  | grow x =>
    obtain ⟨⟨hpos, hnew⟩, ht⟩ := Option.ite_none_right_eq_some.mp ht
    obtain rfl := Option.some.inj ht
    exact inv_grow h hpos hnew
  | goOn i =>
    obtain ⟨j, hj, ht⟩ := Option.bind_eq_some_iff.mp ht
    exact inv_goOn h (h.jobs j (List.mem_of_getElem? hj)) (ho j hj) ht
  | accountAddress i ok =>
    rw [step] at ht
    split at ht
    · obtain rfl := Option.some.inj ht
      exact inv_advance h trivial
    · cases ht
  | accountState i reply => exact inv_accountState h ht
  | rawTransactions i ok => exact inv_rawTransactions h ho ht

/-! ## Runs -/

theorem inv_start : Inv {} where
  newest _ := Pages.newest_nil
  address _ _ hx := nomatch hx
  positive _ _ hx := nomatch hx
  holds := Histories.isolated_start.own
  saved _ _ hx := nomatch hx
  since _ hw := nomatch hw
  version _ _ hw := nomatch hw
  wallets _ _ hw := nomatch hw
  jobs _ hj := nomatch hj

/-- A fetch of an update succeeds, and no more than 100 transactions have come since the cursor. -/
def Job.WithinPage (s : State) (ok : Bool) : Job → Prop
  | .update (.getTransactions walletData accountStatus) => ok = true ∧
    ∀ saved ∈ s.wallets walletData.walletVersion, (s.chain walletData.address).countP (fun x =>
      saved.lastTransactionId.lt < x.transactionId.lt ∧
        x.transactionId.lt ≤ accountStatus.lastTransactionId.lt) ≤ 100
  | _ => True

/-- The steps are in order, and the fetches of updates within a page. -/
def WithinPages (s : State) : Action → Prop
  | .rawTransactions i ok => ∀ j ∈ s.jobs[i]?, j.WithinPage s ok
  | a => InOrder s a

theorem WithinPages.inOrder {a : Action} (h : Inv s) (ha : WithinPages s a) : InOrder s a := by
  cases a with
  | rawTransactions i ok =>
    intro j hj
    have hpage := ha j hj
    have hok := h.jobs j (List.mem_of_getElem? hj)
    cases j with
    | update stage =>
      cases stage with
      | getTransactions w a =>
        obtain ⟨rfl, hgap⟩ := hpage
        obtain ⟨saved, hsaved, -⟩ := hok.1
        exact fetches_of_gap h hok hsaved (hgap saved hsaved)
      | launched | getAccountState | compare | saveTransactions | saveWalletData => trivial
    | getAccountAddress | getAccountState | saveWalletData | getTransactions | saveTransactions
      | setCurrentWalletVersion => trivial
  | goOn | updateCurrentAccountState | loadAccountRevisions | saveCurrentAddressVersion | grow
    | accountAddress | accountState => exact ha

/-- No history is skipped while the fetches succeed and 100 transactions are enough. -/
theorem synced_of_withinPages (addresses : Addresses) (as : List Action)
    (hg : Machine.Guarded (step addresses) WithinPages {} as) :
    Machine.Always (step addresses) State.Synced {} as :=
  Machine.always_of_guarded (fun s a t h ha ht => inv_step s a t h (ha.inOrder h) ht)
    (fun _ h => h.synced) inv_start hg

/-! ## Samples -/

def sampleAddresses : Addresses := fun _ version =>
  match version with
  | .V3R1 => text "EQ1"
  | .V3R2 => text "EQ2"
  | .V4R2 => text "EQ4"

/-- A transaction of the account of V3R2. -/
def sampleTransaction (lt : ℤ) : RawTransaction where
  address := text "EQ2"
  utime := 1690000000
  data := []
  transactionId := { lt := lt, hash := some [7] }
  fee := 5
  storageFee := 1
  otherFee := 4

/-- A key is imported, for which only V3R2 has an address, with one transaction; another one comes,
and the update has asked for it. -/
def importRun : List Action :=
  [.grow (sampleTransaction 1), .loadAccountRevisions (text "PUB") true, .accountAddress 0 false,
    .accountAddress 0 true, .accountAddress 0 false, .goOn 0, .accountState 0 (some (10, 2)),
    .goOn 0, .goOn 0, .rawTransactions 0 true, .goOn 0, .grow (sampleTransaction 2),
    .updateCurrentAccountState, .goOn 0, .accountState 0 (some (20, 2)), .goOn 0]

/-- The fetch brings it. -/
def fetchedRun : List Action := importRun ++ [.rawTransactions 0 true, .goOn 0, .goOn 0]

/-- The fetch fails. -/
def failedRun : List Action := importRun ++ [.rawTransactions 0 false, .goOn 0]

end TonWallet.Sync
