import TonWallet.Lib.Pages
import TonWallet.Storage.Transactions

/-!
# The synchronisation of the wallets

Three kinds of coroutines write the wallets and their transactions, next to a
chain that grows: `updateCurrentAccountState` for the current wallet,
`loadAccountRevisions` for all versions of a key, with one coroutine for the
transactions of each, and `saveCurrentAddressVersion`. A coroutine makes one
step from one point where it may be suspended to the next.

tonlib answers with what is on the chain at that time, or with an error. A
request for transactions brings the 100 newest ones from an id on.
-/

namespace TonWallet.Sync

open Encoding Storage

/-! ## State -/

/-- `TonApi.FullAccountState`. -/
structure FullAccountState where
  address : Text
  lastTransactionId : InternalTransactionId
  balance : ℤ
  revision : ℤ
deriving DecidableEq, Repr

/-- How far `updateCurrentAccountState` has come (`TonWalletClient.kt` lines 688–720). -/
inductive UpdateStage where
  | launched
  | getAccountState (walletData : WalletData)
  /-- The current wallet is still to be read a second time. -/
  | compare (walletData : WalletData) (accountStatus : FullAccountState)
  | getTransactions (walletData : WalletData) (accountStatus : FullAccountState)
  | saveTransactions (walletData : WalletData) (accountStatus : FullAccountState)
      (transactions : List RawTransaction)
  | saveWalletData (walletData : WalletData) (accountStatus : FullAccountState)
deriving DecidableEq, Repr

/-- The coroutines. -/
inductive Job where
  | update (stage : UpdateStage)
  /-- `loadAccountRevisions`: the versions whose address is still to come, and the addresses. -/
  | getAccountAddress (publicKey : Text) (loadTransactions : Bool) (asked : List WalletVersion)
      (found : List (WalletVersion × Text))
  /-- The entries that are left; the state of the first one has been asked for. -/
  | getAccountState (publicKey : Text) (loadTransactions : Bool)
      (entries : List (WalletVersion × Text))
  | saveWalletData (publicKey : Text) (loadTransactions : Bool) (version : WalletVersion)
      (accountState : FullAccountState) (entries : List (WalletVersion × Text))
  /-- `loadTransactionsForAddress`. -/
  | getTransactions (walletVersion : WalletVersion) (address : Text)
      (lastTransactionId : InternalTransactionId)
  | saveTransactions (walletVersion : WalletVersion) (address : Text)
      (lastTransactionId : InternalTransactionId) (transactions : List RawTransaction)
  /-- `saveCurrentAddressVersion`. -/
  | setCurrentWalletVersion (version : WalletVersion)
deriving DecidableEq, Repr

/-- The chain, with the transactions of each address, the newest first, the storage and the
coroutines. The last member is a history: the time from which on the transactions of a version
are due. That is the oldest one an import has fetched, and before it has, the first one after
the import. -/
structure State where
  chain : Text → List RawTransaction := fun _ => []
  storage : Histories := {}
  jobs : List Job := []
  since : WalletVersion → Option ℤ := fun _ => none

/-- What can happen. -/
inductive Action where
  | updateCurrentAccountState
  | loadAccountRevisions (publicKey : Text) (loadTransactions : Bool)
  | saveCurrentAddressVersion (version : WalletVersion)
  /-- A transaction comes to the chain. -/
  | grow (transaction : RawTransaction)
  /-- Coroutine `i` goes on by itself. -/
  | goOn (i : ℕ)
  /-- The replies, `false` and `none` for an error; a state comes with balance and revision. -/
  | accountAddress (i : ℕ) (ok : Bool)
  | accountState (i : ℕ) (reply : Option (ℤ × ℤ))
  | rawTransactions (i : ℕ) (ok : Bool)

/-! ## Steps -/

/-- `RawGetTransactionsV2` with a count of 100. -/
def getRawTransactions (log : List RawTransaction) (fromTransaction : InternalTransactionId) :
    List RawTransaction :=
  Pages.page RawTransaction.transactionId 100 fromTransaction log

/-- The version `updateCurrentAccountState` files transactions under (line 703). -/
def FullAccountState.version (a : FullAccountState) : WalletVersion :=
  if a.revision = 1 then .V3R1 else .V3R2

/-- The wallet `updateCurrentAccountState` saves (lines 709–715). -/
def updated (walletData : WalletData) (accountStatus : FullAccountState) : WalletData where
  address := walletData.address
  publicKey := walletData.publicKey
  walletVersion := walletData.walletVersion
  lastTransactionId := accountStatus.lastTransactionId
  balance := accountStatus.balance

/-- The wallet `loadAccountRevisions` saves (lines 783–789). -/
def imported (publicKey : Text) (version : WalletVersion) (accountState : FullAccountState) :
    WalletData where
  address := accountState.address
  publicKey := some publicKey
  walletVersion := version
  lastTransactionId := accountState.lastTransactionId
  balance := accountState.balance

/-- The earliest time of some transactions and a bound. -/
def earliest (transactions : List RawTransaction) (bound : ℤ) : ℤ :=
  (transactions.map (·.transactionId.lt)).foldr min bound

namespace State

/-- The last transaction of an account; an account without any has the id zero. -/
def lastTransactionId (s : State) (address : Text) : InternalTransactionId :=
  ((s.chain address).head?.map RawTransaction.transactionId).getD
    { lt := 0, hash := some (List.replicate 32 0) }

/-- The answer to `GetAccountState`. -/
def accountState (s : State) (address : Text) (reply : ℤ × ℤ) : FullAccountState where
  address := address
  lastTransactionId := s.lastTransactionId address
  balance := reply.1
  revision := reply.2

def saveWalletData (s : State) (data : WalletData) : State :=
  { s with storage.preferences := s.storage.preferences.saveWalletData data }

/-- A coroutine comes to a stage, or ends. -/
def advance (s : State) (i : ℕ) (j : Job) : State := { s with jobs := s.jobs.set i j }

def finish (s : State) (i : ℕ) : State := { s with jobs := s.jobs.eraseIdx i }

/-- What an update does next by itself. -/
def goOnUpdate (s : State) (i : ℕ) : UpdateStage → Option State
  | .launched =>
    match s.storage.preferences.getCurrentWallet with
    | some walletData => some (s.advance i (.update (.getAccountState walletData)))
    | none => some (s.finish i)
  | .compare walletData accountStatus =>
    match s.storage.preferences.getCurrentWallet with
    | some saved =>
      if accountStatus.lastTransactionId ≠ saved.lastTransactionId then
        some (s.advance i (.update (.getTransactions walletData accountStatus)))
      else some (s.advance i (.update (.saveWalletData walletData accountStatus)))
    | none => some (s.advance i (.update (.saveWalletData walletData accountStatus)))
  | .saveTransactions walletData accountStatus transactions =>
    some ({ s with
      storage := s.storage.saveTransactions transactions accountStatus.version }.advance i
        (.update (.saveWalletData walletData accountStatus)))
  | .saveWalletData walletData accountStatus =>
    some ((s.saveWalletData (updated walletData accountStatus)).finish i)
  | .getAccountState _ | .getTransactions _ _ => none

/-- What a coroutine does next by itself. -/
def goOn (s : State) (i : ℕ) : Job → Option State
  | .update stage => s.goOnUpdate i stage
  | .getAccountAddress publicKey loadTransactions [] found =>
    some (s.advance i (.getAccountState publicKey loadTransactions found))
  | .getAccountState _ _ [] => some (s.finish i)
  | .saveWalletData publicKey loadTransactions version accountState entries =>
    let launched := if loadTransactions then
        [Job.getTransactions version accountState.address accountState.lastTransactionId]
      else []
    some { s.saveWalletData (imported publicKey version accountState) with
      jobs := s.jobs.set i (.getAccountState publicKey loadTransactions entries) ++ launched
      since := Function.update s.since version
        (some ((s.since version).getD (accountState.lastTransactionId.lt + 1))) }
  | .saveTransactions version _ _ transactions =>
    some { s.finish i with
      storage := s.storage.saveTransactions transactions version
      since := Function.update s.since version ((s.since version).map (earliest transactions)) }
  | .setCurrentWalletVersion version =>
    some ({ s with storage := s.storage.setCurrentWalletVersion version }.finish i)
  | .getAccountAddress _ _ (_ :: _) _ | .getAccountState _ _ (_ :: _) |
    .getTransactions _ _ _ => none

end State

/-- The addresses of a public key, one for each version. -/
abbrev Addresses := Text → WalletVersion → Text

/-- One step. -/
def step (addresses : Addresses) (s : State) : Action → Option State
  | .updateCurrentAccountState => some { s with jobs := s.jobs ++ [.update .launched] }
  | .loadAccountRevisions publicKey loadTransactions =>
    some { s with
      jobs := s.jobs ++ [.getAccountAddress publicKey loadTransactions [.V3R1, .V3R2, .V4R2] []] }
  | .saveCurrentAddressVersion version =>
    some { s with jobs := s.jobs ++ [.setCurrentWalletVersion version] }
  | .grow t =>
    if 0 < t.transactionId.lt ∧
        ∀ u ∈ s.chain t.address, u.transactionId.lt < t.transactionId.lt then
      some { s with chain := Function.update s.chain t.address (t :: s.chain t.address) }
    else none
  | .goOn i => s.jobs[i]?.bind (s.goOn i)
  | .accountAddress i ok =>
    match s.jobs[i]? with
    | some (.getAccountAddress publicKey loadTransactions (version :: asked) found) =>
      let found := if ok then found ++ [(version, addresses publicKey version)] else found
      some (s.advance i (.getAccountAddress publicKey loadTransactions asked found))
    | _ => none
  | .accountState i reply =>
    match s.jobs[i]? with
    | some (.update (.getAccountState walletData)) =>
      match reply with
      | some reply => some (s.advance i
          (.update (.compare walletData (s.accountState walletData.address reply))))
      | none => some (s.finish i)
    | some (.getAccountState publicKey loadTransactions ((version, address) :: entries)) =>
      match reply with
      | some reply => some (s.advance i (.saveWalletData publicKey loadTransactions version
          (s.accountState address reply) entries))
      | none => some (s.advance i (.getAccountState publicKey loadTransactions entries))
    | _ => none
  | .rawTransactions i ok =>
    match s.jobs[i]? with
    | some (.update (.getTransactions walletData accountStatus)) =>
      if ok then
        some (s.advance i (.update (.saveTransactions walletData accountStatus
          (getRawTransactions (s.chain accountStatus.address) accountStatus.lastTransactionId))))
      else some (s.advance i (.update (.saveWalletData walletData accountStatus)))
    | some (.getTransactions version address lastTransactionId) =>
      if ok then
        some (s.advance i (.saveTransactions version address lastTransactionId
          (getRawTransactions (s.chain address) lastTransactionId)))
      else some (s.finish i)
    | _ => none

end TonWallet.Sync
