import TonWallet.Lib.Jobs
import TonWallet.Lib.Machine
import TonWallet.Encoding.Text
import TonWallet.Storage.Keys

/-!
# The rate of the primary currency

The header shows the balance times `currentCurrency` behind the symbol of
`currentPrimaryCurrency`. The rate comes from an HTTP call that nothing ties to
the selection: two coroutines at the start read the preference, each selection
writes the field, enqueues a call and launches the write of the preference.

* `rate_belongs`: while the preference is read and written in order, the rate
  belongs to the selected currency exactly if no selection meets the rate of
  another one, and no response comes in for another one.
* `selection_keeps_rate`: a selection leaves the old rate under the new symbol.
-/

namespace TonWallet.Rates

open Encoding
open Storage (PrimaryCurrency)

/-! ## The call -/

/-- `currency.name.lowercase()`. -/
def lowercase : PrimaryCurrency → Text
  | .USD => text "usd"
  | .EUR => text "eur"
  | .RUB => text "rub"
  | .AED => text "aed"
  | .CNY => text "cny"

/-- The address that `loadCurrency` asks (`TonWalletClient.kt` line 905). -/
def ratesUrl (currency : PrimaryCurrency) : Text :=
  text "https://tonapi.io/v2/rates?tokens=ton&currencies=" ++ lowercase currency

/-- A `BigDecimal`: `unscaled * 10 ^ (-scale)`. -/
structure BigDecimal where
  unscaled : ℤ
  scale : ℤ
deriving DecidableEq

/-- `String.toBigDecimal()`: a sign, digits with a point among them, and an exponent. -/
def toBigDecimal (s : Text) : Option BigDecimal :=
  let unsigned := if s.head? = some 0x2D ∨ s.head? = some 0x2B then s.drop 1 else s
  let mantissa := unsigned.takeWhile fun c => c ≠ 0x65 ∧ c ≠ 0x45
  let integer := mantissa.takeWhile fun c => c ≠ 0x2E
  let fraction := mantissa.drop (integer.length + 1)
  let exponent :=
    if mantissa.length < unsigned.length then
      parse (-intMax) intMax 10 (unsigned.drop (mantissa.length + 1))
    else some 0
  if integer ++ fraction = [] then none
  else
    (digits 10 0 (integer ++ fraction)).bind fun n =>
      exponent.bind fun e =>
        let scale := fraction.length - e
        if intMin ≤ scale ∧ scale ≤ intMax then
          some { unscaled := if s.head? = some 0x2D then -n else n, scale := scale }
        else none

/-- What `onResponse` reads from a body: what follows the last colon, without its last four
characters (lines 914–919). -/
def rateOf (body : Text) : Option BigDecimal :=
  let last := ((body.splitOn 0x3A).getLast?).getD []
  toBigDecimal (last.take (last.length - 4))

example : rateOf (text "\x7b\"TON\":\x7b\"prices\":\x7b\"USD\":2.05\x7d\x7d\x7d\x7d") =
    some { unscaled := 205, scale := 2 } := by decide

/-! ## Model -/

/-- A rate, and the address it was the answer of. -/
structure Rate where
  value : BigDecimal
  url : Text
deriving DecidableEq

/-- The coroutines, and how far each has come. -/
inductive Job where
  /-- `loadCurrentCurrency`: it reads the preference, and calls `loadCurrency`. -/
  | loadCurrentCurrency
  | loadCurrency (currency : PrimaryCurrency)
  /-- The last coroutine of `init`: it reads the preference, and writes the field. -/
  | init
  | assign (currency : PrimaryCurrency)
  /-- `storage.savePrimaryCurrency`. -/
  | save (currency : PrimaryCurrency)
  /-- `onPrimaryCurrencySelected`: it reads the preference, and calls `savePrimaryCurrency`. -/
  | selected (currency : PrimaryCurrency)
  | differs (currency : PrimaryCurrency)
deriving DecidableEq

/-- The client, the preference, the calls that have no response yet, and the coroutines. The last
member is the argument of the last `savePrimaryCurrency`, in this process or an earlier one. -/
structure State where
  currentCurrency : Option Rate := none
  currentPrimaryCurrency : PrimaryCurrency := .USD
  stored : Option PrimaryCurrency
  calls : List Text := []
  jobs : List Job := [.loadCurrentCurrency, .init]
  lastSelected : PrimaryCurrency

/-- What can happen. -/
inductive Action where
  | savePrimaryCurrency (currency : PrimaryCurrency)
  | onPrimaryCurrencySelected (currency : PrimaryCurrency)
  | goOn (i : ℕ)
  /-- The response to a call; `none` if its body cannot be read. -/
  | onResponse (i : ℕ) (body : Option Text)
  | onFailure (i : ℕ)

namespace State

/-- `storage.getPrimaryCurrency()` (`Storage.kt` lines 286–292). -/
def getPrimaryCurrency (s : State) : PrimaryCurrency := s.stored.getD .USD

/-- `savePrimaryCurrency` (`TonWalletClient.kt` lines 676–680). -/
def savePrimaryCurrency (s : State) (currency : PrimaryCurrency) : State :=
  { s with
    currentPrimaryCurrency := currency
    calls := s.calls ++ [ratesUrl currency]
    jobs := s.jobs ++ [.save currency]
    lastSelected := currency }

/-- A coroutine has come to a stage, or has ended. -/
def advance (s : State) (i : ℕ) (j : Job) : State := { s with jobs := s.jobs.set i j }

def finish (s : State) (i : ℕ) : State := { s with jobs := s.jobs.eraseIdx i }

/-- What a coroutine does next. -/
def goOn (s : State) (i : ℕ) : Job → State
  | .loadCurrentCurrency => s.advance i (.loadCurrency s.getPrimaryCurrency)
  | .loadCurrency currency => { s with calls := s.calls ++ [ratesUrl currency] }.finish i
  | .init => s.advance i (.assign s.getPrimaryCurrency)
  | .assign currency => { s with currentPrimaryCurrency := currency }.finish i
  | .save currency => { s with stored := some currency }.finish i
  | .selected currency =>
    if s.getPrimaryCurrency = currency then s.finish i else s.advance i (.differs currency)
  | .differs currency => (s.finish i).savePrimaryCurrency currency

end State

/-- One step. -/
def step (s : State) : Action → Option State
  | .savePrimaryCurrency currency => some (s.savePrimaryCurrency currency)
  | .onPrimaryCurrencySelected currency => some { s with jobs := s.jobs ++ [.selected currency] }
  | .goOn i => s.jobs[i]?.map (s.goOn i)
  | .onResponse i body =>
    s.calls[i]?.map fun url =>
      let rate := (body.bind rateOf).map fun value => ({ value, url } : Rate)
      { s with currentCurrency := rate <|> s.currentCurrency, calls := s.calls.eraseIdx i }
  | .onFailure i => s.calls[i]?.map fun _ => { s with calls := s.calls.eraseIdx i }

/-- The client when it has been created, for what the preference holds. The two coroutines of the
first `init` block run after this: the initializer of `currentPrimaryCurrency`, further down in the
class (`TonWalletClient.kt` line 893), is taken to be done before them, though it could also
overwrite what they have read. -/
def start (stored : Option PrimaryCurrency) : State :=
  { stored := stored, lastSelected := stored.getD .USD }

/-! ## Properties -/

/-- The rate is the answer to a call for this currency. -/
def BelongsTo (rate : Option Rate) (currency : PrimaryCurrency) : Prop :=
  ∀ r ∈ rate, r.url = ratesUrl currency

instance (rate : Option Rate) (currency : PrimaryCurrency) : Decidable (BelongsTo rate currency) :=
  inferInstanceAs (Decidable (∀ r ∈ rate, r.url = ratesUrl currency))

/-- The rate that is shown belongs to the currency whose symbol is shown. -/
def Fits (s : State) : Prop := BelongsTo s.currentCurrency s.currentPrimaryCurrency

instance (s : State) : Decidable (Fits s) := inferInstanceAs (Decidable (BelongsTo _ _))

/-- The coroutine writes one of the two, or is about to read for it. -/
def Job.storage : Job → Bool
  | .selected _ | .differs _ => false
  | _ => true

/-- All responses are in, and all storage jobs are finished. -/
def Idle (s : State) : Prop := s.calls = [] ∧ ∀ j ∈ s.jobs, j.storage = false

instance (s : State) : Decidable (Idle s) := inferInstanceAs (Decidable (_ ∧ _))

/-- When the client is idle, the field and the preference are the last selected currency. -/
def Settles (s : State) : Prop :=
  Idle s → s.currentPrimaryCurrency = s.lastSelected ∧ s.getPrimaryCurrency = s.lastSelected

instance (s : State) : Decidable (Settles s) := inferInstanceAs (Decidable (Idle s → _))

/-- What the next step of a coroutine writes to the field. -/
def Job.field : Job → Option PrimaryCurrency
  | .assign currency | .differs currency => some currency
  | _ => none

/-- No currency is selected, or read at the start, while the rate of another one is shown, and no
rate comes in for a currency that is not the selected one. -/
def Fitting (s : State) : Action → Prop
  | .savePrimaryCurrency currency => BelongsTo s.currentCurrency currency
  | .goOn i => ∀ currency ∈ s.jobs[i]?.bind Job.field, BelongsTo s.currentCurrency currency
  | .onResponse i body =>
    ∀ url ∈ s.calls[i]?, (body.bind rateOf).isSome → url = ratesUrl s.currentPrimaryCurrency
  | _ => True

/-- What was read at the start is still the selected currency when the field is written, and the
preference is not written over with an earlier selection. -/
def Job.UpToDate (s : State) : Job → Prop
  | .assign currency => currency = s.lastSelected
  | .save currency => currency = s.lastSelected ∨ .save s.lastSelected ∈ s.jobs
  | _ => True

def Ordered (s : State) : Action → Prop
  | .goOn i => ∀ j ∈ s.jobs[i]?, j.UpToDate s
  | _ => True

instance (s : State) : ∀ a, Decidable (Fitting s a)
  | .savePrimaryCurrency _ => inferInstanceAs (Decidable (BelongsTo _ _))
  | .onPrimaryCurrencySelected _ => isTrue trivial
  | .goOn i =>
    inferInstanceAs (Decidable (∀ currency ∈ s.jobs[i]?.bind Job.field, BelongsTo _ currency))
  | .onResponse i body =>
    inferInstanceAs (Decidable (∀ url ∈ s.calls[i]?, (body.bind rateOf).isSome → url = _))
  | .onFailure _ => isTrue trivial

instance (s : State) : ∀ j : Job, Decidable (j.UpToDate s)
  | .assign _ => inferInstanceAs (Decidable (_ = _))
  | .save _ => inferInstanceAs (Decidable (_ ∨ _))
  | .loadCurrentCurrency => isTrue trivial
  | .loadCurrency _ => isTrue trivial
  | .init => isTrue trivial
  | .selected _ => isTrue trivial
  | .differs _ => isTrue trivial

instance (s : State) : ∀ a, Decidable (Ordered s a)
  | .goOn i => inferInstanceAs (Decidable (∀ j ∈ s.jobs[i]?, j.UpToDate s))
  | .savePrimaryCurrency _ => isTrue trivial
  | .onPrimaryCurrencySelected _ => isTrue trivial
  | .onResponse _ _ => isTrue trivial
  | .onFailure _ => isTrue trivial

/-! ## The rate -/

variable {s t : State} {i : ℕ} {j : Job}

theorem currentCurrency_goOn (s : State) (i : ℕ) (j : Job) :
    (s.goOn i j).currentCurrency = s.currentCurrency := by
  cases j <;> simp only [State.goOn, State.advance, State.finish, State.savePrimaryCurrency]
  split <;> rfl

theorem currentPrimaryCurrency_goOn (s : State) (i : ℕ) (j : Job) :
    (s.goOn i j).currentPrimaryCurrency = j.field.getD s.currentPrimaryCurrency := by
  cases j <;> simp only [State.goOn, State.advance, State.finish, State.savePrimaryCurrency,
    Job.field, Option.getD_some, Option.getD_none]
  split <;> rfl

/-- A rate that fits still fits after exactly the steps that are fitting. -/
theorem fits_step (h : Fits s) {a : Action} (ht : step s a = some t) : Fits t ↔ Fitting s a := by
  cases a with
  | savePrimaryCurrency currency =>
    obtain rfl := Option.some.inj ht
    exact Iff.rfl
  | onPrimaryCurrencySelected currency =>
    obtain rfl := Option.some.inj ht
    exact iff_of_true h trivial
  | goOn i =>
    obtain ⟨j, hj, rfl⟩ := Option.map_eq_some_iff.mp ht
    rw [Fits, currentCurrency_goOn, currentPrimaryCurrency_goOn, Fitting, hj, Option.bind_some]
    cases j.field with
    | none => exact iff_of_true h fun c hc => nomatch hc
    | some currency => simp
  | onResponse i body =>
    obtain ⟨url, hurl, rfl⟩ := Option.map_eq_some_iff.mp ht
    rw [Fitting, hurl]
    cases hrate : body.bind rateOf with
    | none => exact iff_of_true (by simpa [Fits, hrate] using h) (by simp)
    | some value => simp [Fits, BelongsTo]
  | onFailure i =>
    obtain ⟨url, -, rfl⟩ := Option.map_eq_some_iff.mp ht
    exact iff_of_true h trivial

theorem fits_iff (stored : Option PrimaryCurrency) (as : List Action) :
    Machine.Always step Fits (start stored) as ↔ Machine.Guarded step Fitting (start stored) as :=
  Machine.always_iff_guarded (fun _ _ _ h hc ht => (fits_step h ht).mpr hc) (fun _ h => h)
    (fun _ _ _ h ht hc hfit => hc ((fits_step h ht).mp hfit)) fun _ hr => nomatch hr

/-! ## The preference -/

/-- The coroutine of `init` that writes the field. -/
def Job.assigns : Job → Bool
  | .init | .assign _ => true
  | _ => false

/-- The field and the preference are the last selected currency, or will be. -/
structure Inv (s : State) : Prop where
  field : s.currentPrimaryCurrency = s.lastSelected ∨ ∃ j ∈ s.jobs, j.assigns
  stored : s.getPrimaryCurrency = s.lastSelected ∨ .save s.lastSelected ∈ s.jobs

/-- An idle client has no coroutine left that would. -/
theorem Inv.settles (h : Inv s) : Settles s := by
  rintro ⟨-, hidle⟩
  constructor
  · rcases h.field with hf | ⟨j, hj, ha⟩
    · exact hf
    · have hs := hidle j hj
      cases j <;> simp [Job.assigns, Job.storage] at ha hs
  · rcases h.stored with hs | hj
    · exact hs
    · cases hidle _ hj

/-- Where the other coroutines are after one has gone on. -/
theorem mem_goOn (hj : s.jobs[i]? = some j) {k : Job} (hk : k ∈ s.jobs) (hne : k ≠ j) :
    k ∈ (s.goOn i j).jobs := by
  have herase : k ∈ s.jobs.eraseIdx i := by
    rcases List.mem_cons.mp ((Jobs.finish_perm hj).mem_iff.mp hk) with rfl | hk
    · exact absurd rfl hne
    · exact hk
  have hset : ∀ l, k ∈ s.jobs.set i l :=
    fun l => (Jobs.goOn_perm hj l).mem_iff.mpr (List.mem_cons_of_mem _ herase)
  cases j with
  | loadCurrentCurrency | init => exact hset _
  | loadCurrency | assign | save => exact herase
  | selected currency =>
    rw [State.goOn]
    split
    · exact herase
    · exact hset _
  | differs currency => exact List.mem_append_left _ herase

/-- Selecting a currency makes all that went before irrelevant. -/
theorem inv_savePrimaryCurrency (s : State) (currency : PrimaryCurrency) :
    Inv (s.savePrimaryCurrency currency) :=
  ⟨.inl rfl, .inr (List.mem_append_right _ (List.mem_singleton_self _))⟩

theorem lastSelected_goOn (s : State) (i : ℕ) (hd : ∀ currency, j ≠ .differs currency) :
    (s.goOn i j).lastSelected = s.lastSelected := by
  cases j with
  | differs currency => exact absurd rfl (hd currency)
  | selected currency => rw [State.goOn]; split <;> rfl
  | loadCurrentCurrency | loadCurrency | init | assign | save => rfl

theorem getPrimaryCurrency_goOn (s : State) (i : ℕ) (hs : ∀ currency, j ≠ .save currency) :
    (s.goOn i j).getPrimaryCurrency = s.getPrimaryCurrency := by
  cases j with
  | save currency => exact absurd rfl (hs currency)
  | selected currency => rw [State.goOn]; split <;> rfl
  | loadCurrentCurrency | loadCurrency | init | assign | differs => rfl

theorem field_goOn (h : Inv s) (hj : s.jobs[i]? = some j) (hup : j.UpToDate s)
    (hd : ∀ currency, j ≠ .differs currency) :
    (s.goOn i j).currentPrimaryCurrency = s.lastSelected ∨
      ∃ k ∈ (s.goOn i j).jobs, k.assigns := by
  cases j with
  | assign currency => exact .inl hup
  | init =>
    have hi := (List.getElem?_eq_some_iff.mp hj).1
    exact .inr ⟨_, List.mem_set hi _, rfl⟩
  | differs currency => exact absurd rfl (hd currency)
  | loadCurrentCurrency | loadCurrency | save | selected =>
    rw [currentPrimaryCurrency_goOn]
    refine h.field.imp_right ?_
    rintro ⟨k, hk, ha⟩
    exact ⟨k, mem_goOn hj hk (by rintro rfl; cases ha), ha⟩

theorem stored_goOn (h : Inv s) (hj : s.jobs[i]? = some j) (hup : j.UpToDate s) :
    (s.goOn i j).getPrimaryCurrency = s.lastSelected ∨
      .save s.lastSelected ∈ (s.goOn i j).jobs := by
  by_cases hs : ∃ currency, j = .save currency
  · obtain ⟨currency, rfl⟩ := hs
    by_cases hc : currency = s.lastSelected
    · exact .inl hc
    · have hsave : .save s.lastSelected ∈ s.jobs := hup.resolve_left hc
      exact .inr (mem_goOn hj hsave fun he => hc (Job.save.inj he).symm)
  · rw [getPrimaryCurrency_goOn s i fun currency he => hs ⟨currency, he⟩]
    exact h.stored.imp_right fun hk => mem_goOn hj hk fun he => hs ⟨_, he.symm⟩

theorem inv_goOn (h : Inv s) (hj : s.jobs[i]? = some j) (hup : j.UpToDate s) :
    Inv (s.goOn i j) := by
  by_cases hd : ∃ currency, j = .differs currency
  · obtain ⟨currency, rfl⟩ := hd
    exact inv_savePrimaryCurrency _ _
  · have hd : ∀ currency, j ≠ .differs currency := fun currency he => hd ⟨currency, he⟩
    have hlast := lastSelected_goOn s i hd
    refine ⟨?_, ?_⟩
    · rw [hlast]; exact field_goOn h hj hup hd
    · rw [hlast]; exact stored_goOn h hj hup

theorem inv_step (s : State) (a : Action) (t : State) (h : Inv s) (ho : Ordered s a)
    (ht : step s a = some t) : Inv t := by
  cases a with
  | savePrimaryCurrency currency =>
    obtain rfl := Option.some.inj ht
    exact inv_savePrimaryCurrency s currency
  | onPrimaryCurrencySelected currency =>
    obtain rfl := Option.some.inj ht
    refine ⟨h.field.imp_right ?_, h.stored.imp_right (List.mem_append_left _)⟩
    rintro ⟨j, hj, ha⟩
    exact ⟨j, List.mem_append_left _ hj, ha⟩
  | goOn i =>
    obtain ⟨j, hj, rfl⟩ := Option.map_eq_some_iff.mp ht
    exact inv_goOn h hj (ho j hj)
  | onResponse i body =>
    obtain ⟨url, -, rfl⟩ := Option.map_eq_some_iff.mp ht
    exact ⟨h.field, h.stored⟩
  | onFailure i =>
    obtain ⟨url, -, rfl⟩ := Option.map_eq_some_iff.mp ht
    exact ⟨h.field, h.stored⟩

theorem inv_start (stored : Option PrimaryCurrency) : Inv (start stored) :=
  ⟨.inr ⟨.init, by simp [start], rfl⟩, .inl rfl⟩

/-! ## Runs -/

/-- The rate is that of the currency whose symbol is shown, and an idle client has settled. -/
def Belongs (s : State) : Prop := Fits s ∧ Settles s

instance (s : State) : Decidable (Belongs s) := inferInstanceAs (Decidable (_ ∧ _))

/-- A response with a price. -/
def priced (price : Text) : Option Text :=
  some (text "\"USD\":" ++ price ++ text "\x7d\x7d\x7d\x7d")

/-- At the start with euros, roubles are selected before a rate has come in. -/
def earlyRun : List Action :=
  [.goOn 1, .goOn 1, .savePrimaryCurrency .RUB, .goOn 1, .goOn 0, .goOn 0, .onFailure 0,
    .onResponse 0 (priced (text "187.5"))]

/-- The rate of the dollar has come in when euros are selected, and that call fails. -/
def selectionRun : List Action :=
  [.goOn 0, .goOn 0, .goOn 0, .goOn 0, .onResponse 0 (priced (text "2.05")),
    .savePrimaryCurrency .EUR, .goOn 0, .onFailure 0]

end TonWallet.Rates
