import TonWallet.Encoding.Currency
import TonWallet.Lib.Distinct
import TonWallet.Lib.Groups
import TonWallet.Lib.Machine
import TonWallet.Lib.Pages
import TonWallet.Lib.Segments
import TonWallet.Storage.Conversion
import TonWallet.Storage.Transactions

/-!
# The history on the main screen

A page of transactions is put before those that are stored, and repeated ids are
dropped. Nothing sorts the list: it is in order if the pages are saved in the
order they were asked for. The screen groups it by the month and the day of the
month.

* `descending_save_iff`: when a save leaves the list in order.
* `displayed_history_iff`: the runs along which the list is in order, and the lists
  that are grouped by calendar days.
* `late_page_and_other_year`: a page that is late, and two transactions a year
  apart.
-/

/-! ## Transactions -/

namespace TonWallet.Storage.Transaction

/-- `is MsgDataRaw`. -/
def MsgData.isRaw : MsgData → Bool
  | .MsgDataRaw .. => true
  | _ => false

namespace RawTransaction

variable (t : RawTransaction)

/-- `getAmount` (`RawTransaction.kt` lines 29–38). -/
def getAmount : Long :=
  (t.inMsg.map RawMessage.value).getD 0 - (t.outMsgs.map RawMessage.value).foldl (· + ·) 0

/-- `isEmpty` (lines 87–91). Without an incoming message there is a message. -/
def isEmpty : Bool :=
  let hasMessage := !((t.inMsg.map fun m => m.msgData.isRaw).getD false)
    || t.outMsgs.any fun m => !m.msgData.isRaw
  let isSourceEmpty := (t.inMsg.map fun m => m.source.accountAddress.isEmpty).getD true
  !hasMessage && isSourceEmpty && t.getAmount == 0

/-- `utime * 1000`. The `utime` of tonlib has at most 53 bits. -/
def millis : ℤ := (t.utime * 1000).toInt

end RawTransaction

end TonWallet.Storage.Transaction

namespace TonWallet.Sync

open Encoding Storage.Transaction

/-! ## Saves -/

/-- `saveTransactions` for the current version (`Storage.kt` lines 219–227). -/
def saveTransactions (transactions current : List RawTransaction) : List RawTransaction :=
  Distinct.distinctBy RawTransaction.transactionId (transactions ++ current)

def recordId (id : InternalTransactionId) : Storage.InternalTransactionId := ⟨id.lt.toInt, id.hash⟩

/-- A transaction without its messages, as the storage of all versions has it. -/
def record (t : RawTransaction) : Storage.RawTransaction where
  address := t.address.accountAddress
  utime := t.utime.toInt
  data := t.data
  transactionId := recordId t.transactionId
  fee := t.fee.toInt
  storageFee := t.storageFee.toInt
  otherFee := t.otherFee.toInt

theorem recordId_injective : Function.Injective recordId := by
  rintro ⟨lt, hash⟩ ⟨lt', hash'⟩ h
  obtain ⟨hlt, rfl⟩ := Storage.InternalTransactionId.mk.inj h
  obtain rfl := BitVec.toInt_inj.mp hlt
  rfl

/-- It is what the storage of all versions does for the current one. -/
theorem stored_saveTransactions {s : Storage.Histories} {page stored : List RawTransaction}
    (h : s.stored s.preferences.getCurrentWalletVersion = stored.map record) :
    (s.saveTransactions (page.map record) s.preferences.getCurrentWalletVersion).stored
        s.preferences.getCurrentWalletVersion
      = (saveTransactions page stored).map record := by
  rw [Storage.Histories.saveTransactions_stored_self, Storage.Histories.getCurrentTransactions, h,
    ← List.map_append, saveTransactions]
  exact (Distinct.map_distinctBy (f := record) recordId_injective fun _ => rfl).symm

/-- An account, the newest transaction first, the pages that have been asked for and not been saved
yet, and the stored list of its version. -/
structure Feed where
  account : List RawTransaction := []
  requested : List (List RawTransaction) := []
  stored : List RawTransaction := []

inductive FeedAction where
  /-- A transaction comes to the account. -/
  | grow (t : RawTransaction)
  /-- A page is asked for, from the last transaction on. -/
  | request (count : ℕ)
  /-- The page of a request is saved. -/
  | save (i : ℕ)

namespace Feed

def step (s : Feed) : FeedAction → Option Feed
  | .grow t =>
    if ∀ u ∈ s.account, u.transactionId.lt.toInt < t.transactionId.lt.toInt then
      some { s with account := t :: s.account }
    else none
  | .request count => some { s with requested := s.requested ++ [s.account.take count] }
  | .save i => s.requested[i]?.map fun page =>
    { s with requested := s.requested.eraseIdx i, stored := saveTransactions page s.stored }

end Feed

/-- The newest transaction first. -/
def Descending (l : List RawTransaction) : Prop :=
  Pages.Newest RawTransaction.transactionId (fun id => id.lt.toInt) l

/-- A page begins with no older transaction than those that are stored. -/
def PageInOrder (page stored : List RawTransaction) : Prop :=
  ∀ first ∈ page.head?, ∀ t ∈ stored,
    t.transactionId.lt.toInt ≤ first.transactionId.lt.toInt

/-- The pages are saved in order. -/
def Feed.SavesInOrder (s : Feed) : FeedAction → Prop
  | .save i => ∀ page ∈ s.requested[i]?, PageInOrder page s.stored
  | _ => True

theorem nodup_of_descending {l : List RawTransaction} (h : Descending l) :
    (l.map RawTransaction.transactionId).Nodup :=
  List.pairwise_map.mpr (h.imp fun hlt he => by rw [he] at hlt; exact lt_irrefl _ hlt)

/-- Behind a block of an account that begins with the newest stored transaction, there are only
older ones. -/
theorem lt_of_not_mem_block {account page : List RawTransaction} {first a b : RawTransaction}
    (ha : Descending account) (hpage : page <:+: account) (hfirst : first ∈ page.head?)
    (hap : a ∈ page) (hb : b ∈ account)
    (hle : b.transactionId.lt.toInt ≤ first.transactionId.lt.toInt)
    (hnew : b.transactionId ∉ page.map RawTransaction.transactionId) :
    b.transactionId.lt.toInt < a.transactionId.lt.toInt := by
  obtain ⟨before, after, rfl⟩ := hpage
  obtain ⟨hbefore, -, hafter⟩ := List.pairwise_append.mp ha
  obtain ⟨-, -, hfront⟩ := List.pairwise_append.mp hbefore
  rcases List.mem_append.mp hb with hb | hb
  · rcases List.mem_append.mp hb with hb | hb
    · have hlt := hfront b hb first (List.mem_of_mem_head? hfirst)
      exact absurd hlt (not_lt.mpr hle)
    · exact absurd (List.mem_map_of_mem hb) hnew
  · exact hafter a (List.mem_append_right _ hap) b hb

/-- A save leaves the list in order if and only if its page is in order. -/
theorem descending_save_iff {account page stored : List RawTransaction} (ha : Descending account)
    (hpage : page <:+: account) (hs : Descending stored) (hstored : stored ⊆ account) :
    Descending (saveTransactions page stored) ↔ PageInOrder page stored := by
  have hp : Descending page := ha.sublist hpage.sublist
  rw [saveTransactions, Distinct.distinctBy_append (nodup_of_descending hp)
    (nodup_of_descending hs), Descending, Pages.Newest, List.pairwise_append]
  constructor
  · rintro ⟨-, -, h⟩ first hfirst t ht
    by_contra hlt
    have hmem := List.mem_of_mem_head? hfirst
    have hnew : t.transactionId ∉ page.map RawTransaction.transactionId := by
      intro hid
      obtain ⟨u, hu, he⟩ := List.mem_map.mp hid
      obtain ⟨rest, rfl⟩ := List.head?_eq_some_iff.mp hfirst
      have hle := Pages.Newest.le_head hp hu
      exact hlt (he ▸ hle)
    have holder := h first hmem t (List.mem_filter.mpr ⟨ht, decide_eq_true hnew⟩)
    exact hlt (le_of_lt holder)
  · intro h
    refine ⟨hp, hs.filter _, fun a hap b hb => ?_⟩
    obtain ⟨hb, hnew⟩ := List.mem_filter.mp hb
    obtain ⟨first, hfirst⟩ : ∃ first, first ∈ page.head? := by
      cases page with
      | nil => cases hap
      | cons first rest => exact ⟨first, rfl⟩
    exact lt_of_not_mem_block ha hpage hfirst hap (hstored hb) (h first hfirst b hb)
      (of_decide_eq_true hnew)

/-- The pages are blocks of the account, and the stored transactions are of it. -/
structure Feed.Inv (s : Feed) : Prop where
  account : Descending s.account
  requested : ∀ page ∈ s.requested, page <:+: s.account
  stored : s.stored ⊆ s.account
  descending : Descending s.stored

theorem saveTransactions_subset {page stored : List RawTransaction} :
    saveTransactions page stored ⊆ page ++ stored :=
  (Distinct.distinctFrom_sublist []).subset

/-- What a step does: a save changes the list, and the others keep it. -/
theorem Feed.step_cases {s t : Feed} {a : FeedAction} (h : s.step a = some t) :
    (∃ i page, a = .save i ∧ page ∈ s.requested[i]? ∧
      t = { s with
        requested := s.requested.eraseIdx i, stored := saveTransactions page s.stored }) ∨
    (t.stored = s.stored ∧ s.SavesInOrder a ∧ (s.Inv → t.Inv)) := by
  cases a with
  | save i =>
    obtain ⟨page, hpage, rfl⟩ := Option.map_eq_some_iff.mp h
    exact .inl ⟨i, page, rfl, hpage, rfl⟩
  | grow u =>
    rw [Feed.step] at h
    split at h
    · rename_i hnew
      cases h
      refine .inr ⟨rfl, trivial, fun hs => ⟨Pages.newest_cons.mpr ⟨hnew, hs.account⟩, ?_, ?_,
        hs.descending⟩⟩
      · exact fun page hpage => (hs.requested page hpage).trans (List.suffix_cons u _).isInfix
      · exact fun x hx => List.mem_cons_of_mem u (hs.stored hx)
    · cases h
  | request count =>
    cases h
    refine .inr ⟨rfl, trivial, fun hs => ⟨hs.account, fun page hpage => ?_, hs.stored,
      hs.descending⟩⟩
    rcases List.mem_append.mp hpage with hpage | hpage
    · exact hs.requested page hpage
    · rw [List.mem_singleton.mp hpage]
      exact (List.take_prefix _ _).isInfix

/-- The list is that of the current version. -/
def Feed.StoredIn (s : Feed) (h : Storage.Histories) : Prop :=
  h.stored h.preferences.getCurrentWalletVersion = s.stored.map record

/-- A step is at most one operation of the storage of all versions. -/
theorem Feed.step_storedIn {s t : Feed} {a : FeedAction} {h : Storage.Histories}
    (hin : s.StoredIn h) (hs : s.step a = some t) :
    ∃ bs u, Machine.run Storage.Histories.step h bs = some u ∧ t.StoredIn u := by
  rcases Feed.step_cases hs with ⟨i, page, -, -, rfl⟩ | ⟨hstored, -, -⟩
  · exact ⟨[.saveTransactions (page.map record) h.preferences.getCurrentWalletVersion], _, rfl,
      stored_saveTransactions hin⟩
  · refine ⟨[], h, rfl, ?_⟩
    rw [Feed.StoredIn, hstored]
    exact hin

/-- Every run is one of the storage of all versions. -/
theorem Feed.run_storedIn {s t : Feed} {as : List FeedAction} {h : Storage.Histories}
    (hin : s.StoredIn h) (hs : Machine.run Feed.step s as = some t) :
    ∃ bs u, Machine.run Storage.Histories.step h bs = some u ∧ t.StoredIn u := by
  induction as generalizing s h with
  | nil =>
    obtain rfl := Option.some.inj hs
    exact ⟨[], h, rfl, hin⟩
  | cons a as ih =>
    obtain ⟨s', ha, hs⟩ := Option.bind_eq_some_iff.mp hs
    obtain ⟨bs, u, hbs, hu⟩ := Feed.step_storedIn hin ha
    obtain ⟨cs, v, hcs, hv⟩ := ih hu hs
    refine ⟨bs ++ cs, v, ?_, hv⟩
    rw [Machine.run_append, hbs]
    exact hcs

/-- Along a run the list is in order if and only if the pages are saved in order. -/
theorem descending_iff_saves_in_order (as : List FeedAction) :
    Machine.Always Feed.step (fun s => Descending s.stored) {} as ↔
      Machine.Guarded Feed.step Feed.SavesInOrder {} as := by
  refine Machine.always_iff_guarded (I := Feed.Inv) ?_ (fun s hs => hs.descending) ?_ ?_
  · intro s a t hs hc ht
    obtain ⟨i, page, rfl, hpage, rfl⟩ | ⟨-, -, hkeep⟩ := Feed.step_cases ht
    · have hblock := hs.requested page (List.mem_of_getElem? hpage)
      refine ⟨hs.account, fun p hp => hs.requested p (List.mem_of_mem_eraseIdx hp),
        fun x hx => ?_, ?_⟩
      · rcases List.mem_append.mp (saveTransactions_subset hx) with hx | hx
        · exact hblock.subset hx
        · exact hs.stored hx
      · exact (descending_save_iff hs.account hblock hs.descending hs.stored).mpr (hc page hpage)
    · exact hkeep hs
  · intro s a t hs ht hc hd
    obtain ⟨i, page, rfl, hpage, rfl⟩ | ⟨-, hc', -⟩ := Feed.step_cases ht
    · have hblock := hs.requested page (List.mem_of_getElem? hpage)
      refine hc fun p hp => ?_
      obtain rfl := Option.mem_unique hpage hp
      exact (descending_save_iff hs.account hblock hs.descending hs.stored).mp hd
    · exact hc hc'
  · exact ⟨Pages.newest_nil, List.forall_mem_nil _, List.nil_subset _, Pages.newest_nil⟩

/-! ## Groups -/

/-- A date. Months and days count from 0. -/
structure Date where
  year : ℤ
  month : Fin 12
  day : Fin 31
deriving DecidableEq

/-- The English names of the months. -/
def monthNames : List Text :=
  [text "January", text "February", text "March", text "April", text "May", text "June",
    text "July", text "August", text "September", text "October", text "November",
    text "December"]

/-- The name of a month, and the number of a day, as `MMMM` and `d` write them. -/
def monthText (month : Fin 12) : Text := monthNames.getD month []
def dayText (day : Fin 31) : Text := ascii (Nat.toDigits 10 (day + 1))

/-- `FastDateFormat.getInstance("MMMM d", Locale.ENGLISH)`. -/
def Date.format (d : Date) : Text := monthText d.month ++ 0x20 :: dayText d.day

section
variable (date : ℤ → Date)

/-- The calendar day of a transaction, in the time zone of the device. -/
def day (t : RawTransaction) : Date := date t.millis

/-- The map of `getTransactions` for a stored list (`TonWalletClient.kt` lines 620–633), in the
order of its keys. `getTransactionsFlow` leaves out what is empty (`Storage.kt` line 199). -/
def getTransactions (transactions : List RawTransaction) : List (Text × List RawTransaction) :=
  Groups.groupBy (fun it => (day date it).format) (transactions.filter fun it => !it.isEmpty)

/-- There is one group for each calendar day, and the groups make up the list. -/
structure ShownByDay (transactions : List RawTransaction) : Prop where
  days : ∀ a ∈ transactions, ∀ b ∈ transactions,
    (∃ g ∈ getTransactions date transactions, a ∈ g.2 ∧ b ∈ g.2) ↔ day date a = day date b
  list : (getTransactions date transactions).flatMap Prod.snd = transactions

/-- No transaction is empty, no two of different years have the same month and day of the month,
and no date comes back after another one. -/
structure OneYear (transactions : List RawTransaction) : Prop where
  shown : ∀ t ∈ transactions, t.isEmpty = false
  years : ∀ a ∈ transactions, ∀ b ∈ transactions, (day date a).month = (day date b).month →
    (day date a).day = (day date b).day → (day date a).year = (day date b).year
  contiguous : Groups.Contiguous (day date) transactions

end

variable {date : ℤ → Date} {l : List RawTransaction}

theorem monthText_inj : ∀ m n : Fin 12, monthText m = monthText n → m = n := by decide +kernel

theorem dayText_inj : ∀ m n : Fin 31, dayText m = dayText n → m = n := by decide +kernel

theorem space_not_mem_monthText : ∀ m : Fin 12, (0x20 : Char16) ∉ monthText m := by decide +kernel

/-- The key of a date tells its month and its day. -/
theorem format_eq_iff {d e : Date} : d.format = e.format ↔ d.month = e.month ∧ d.day = e.day := by
  constructor
  · intro h
    obtain ⟨hmonth, hday⟩ := Segments.separated_inj (space_not_mem_monthText d.month)
      (space_not_mem_monthText e.month) h
    exact ⟨monthText_inj _ _ hmonth, dayText_inj _ _ hday⟩
  · rintro ⟨hmonth, hday⟩
    rw [Date.format, hmonth, hday, Date.format]

/-- In one year keys are calendar days. -/
theorem OneYear.format_day_iff (h : OneYear date l) {a b : RawTransaction} (ha : a ∈ l)
    (hb : b ∈ l) : (day date a).format = (day date b).format ↔ day date a = day date b := by
  rw [format_eq_iff]
  constructor
  · rintro ⟨hmonth, hday⟩
    have hyear := h.years a ha b hb hmonth hday
    cases hd : day date a
    cases he : day date b
    simp_all
  · intro he
    rw [he]
    exact ⟨rfl, rfl⟩

/-- Three elements of a sublist are in the list. -/
theorem mem_of_sublist {a b c : RawTransaction} (h : [a, c, b].Sublist l) :
    a ∈ l ∧ c ∈ l ∧ b ∈ l :=
  ⟨h.subset (by simp), h.subset (by simp), h.subset (by simp)⟩

theorem ShownByDay.not_empty (h : ShownByDay date l) {t : RawTransaction} (ht : t ∈ l) :
    t.isEmpty = false := by
  rw [← h.list, getTransactions, Groups.mem_flatten_groupBy, List.mem_filter] at ht
  simpa using ht.2

/-- If nothing is empty, the whole list is grouped. -/
theorem getTransactions_eq (h : ∀ t ∈ l, t.isEmpty = false) :
    getTransactions date l = Groups.groupBy (fun it => (day date it).format) l := by
  rw [getTransactions, List.filter_eq_self.mpr fun t ht => by rw [h t ht]; rfl]

/-- The groups are the calendar days, one after the other, exactly in one year. -/
theorem shownByDay_iff (date : ℤ → Date) (l : List RawTransaction) :
    ShownByDay date l ↔ OneYear date l := by
  constructor
  · intro h
    have hgroups : getTransactions date l = _ := getTransactions_eq fun t => h.not_empty
    have hkey : ∀ a ∈ l, ∀ b ∈ l, (day date a).format = (day date b).format →
        day date a = day date b := by
      intro a ha b hb he
      refine (h.days a ha b hb).mp ?_
      rw [hgroups]
      exact (Groups.same_group_iff ha hb).mpr he
    refine ⟨fun t => h.not_empty, fun a ha b hb hmonth hday => ?_, fun a c b hsub he => ?_⟩
    · exact congrArg Date.year (hkey a ha b hb (format_eq_iff.mpr ⟨hmonth, hday⟩))
    · obtain ⟨ha, hc, -⟩ := mem_of_sublist hsub
      have hlist := h.list
      rw [hgroups, Groups.flatten_groupBy_iff] at hlist
      exact hkey c hc a ha (hlist a c b hsub (congrArg Date.format he))
  · intro h
    have hgroups : getTransactions date l = _ := getTransactions_eq h.shown
    constructor
    · intro a ha b hb
      rw [hgroups, Groups.same_group_iff ha hb, h.format_day_iff ha hb]
    · rw [hgroups, Groups.flatten_groupBy_iff]
      intro a c b hsub he
      obtain ⟨ha, -, hb⟩ := mem_of_sublist hsub
      exact congrArg Date.format (h.contiguous a c b hsub ((h.format_day_iff ha hb).mp he))

/-- **The history on the main screen.** Along every run the stored list is in order exactly if the
pages are saved in order. A list is grouped by calendar days exactly if its transactions are of
one year, as far as they have the same month and day. -/
theorem displayed_history_iff (date : ℤ → Date) :
    (∀ as, Machine.Always Feed.step (fun s => Descending s.stored) {} as ↔
      Machine.Guarded Feed.step Feed.SavesInOrder {} as) ∧
    ∀ l, ShownByDay date l ↔ OneYear date l :=
  ⟨descending_iff_saves_in_order, shownByDay_iff date⟩

/-! ## A late page, and another year -/

/-- A transaction, with its logical time and its time. -/
def displayedTransaction (lt utime : BitVec 64) : RawTransaction where
  address := ⟨text "EQ"⟩
  utime := utime
  data := []
  transactionId := ⟨lt, some [7]⟩
  fee := 5
  storageFee := 1
  otherFee := 4

/-- The 22nd of July 2022, and a year later. -/
def earlier : RawTransaction := displayedTransaction 1 1658464000
def later : RawTransaction := displayedTransaction 2 1690000000

/-- Two pages are asked for, and the second one is saved first. -/
def latePage : List FeedAction :=
  [.grow earlier, .request 1, .grow later, .request 2, .save 1, .save 0]

/-- The dates of the two in UTC. -/
def utcDate (millis : ℤ) : Date := ⟨if millis < 1672531200000 then 2022 else 2023, 6, 21⟩

/-- The stored list is out of order after a late page, and transactions of two years are shown as
those of one day. -/
theorem late_page_and_other_year :
    ¬ Machine.Always Feed.step (fun s => Descending s.stored) {} latePage ∧
      Descending [later, earlier] ∧ ¬ ShownByDay utcDate [later, earlier] := by
  refine ⟨Machine.not_always_of_run rfl fun h => ?_, ?_, fun h => ?_⟩
  · have hpair : Descending [earlier, later] := h
    exact absurd (List.pairwise_pair.mp hpair) (by decide +kernel)
  · exact List.pairwise_pair.mpr (by decide +kernel)
  · have hyear := ((shownByDay_iff _ _).mp h).years later (by decide +kernel) earlier
      (by decide +kernel) rfl rfl
    exact absurd hyear (by decide +kernel)

end TonWallet.Sync
