import TonWallet.Lib.Jobs
import TonWallet.Lib.Machine
import TonWallet.Send.Routes

/-!
# The recipient screen

A press of the button launches a coroutine that reads the text of the field three
times: to see whether it is a name, for the request, and for the model. Between
two of these reads the text can be edited, and other coroutines can go on.

* `checked_recipient`: while no text is edited that is being checked, whoever is
  shown as found is the recipient that was checked.
* `edit_attaches`: an edited text is taken for the one that was checked.
-/

namespace TonWallet.Send.Recipient

open Encoding

/-! ## Model -/

/-- How far a coroutine of `onButtonClick` has come (lines 51–81). -/
inductive Stage where
  | launched
  /-- The text ends in `.ton`, or does not. -/
  | resolve
  | check
  /-- The request has been sent. -/
  | resolving (name : Text)
  | checking (address : Text)
  /-- The reply was an address, or that of an account. -/
  | named (resolvedAddress : Text)
  | found
  /-- The model, before and after it is assigned. -/
  | built (model : TonSendRecipientModel)
  | assigned
  /-- `success` is true, until the delay ends. -/
  | showing
  | failed
  | failing
deriving DecidableEq

/-- A coroutine, and the text that was in the field when it was launched. -/
structure Job where
  pressed : Text
  stage : Stage := .launched
deriving DecidableEq

/-- `TonSendRecipientViewModel`. The last three members are a history: the addresses that the
check has confirmed, the answers to names, and, for each time `success` became true, the text at
the press and the model. -/
structure State where
  address : Text
  loading : Bool := false
  error : Text := []
  success : Bool := false
  recipientModel : Option TonSendRecipientModel := none
  jobs : List Job := []
  confirmed : List Text := []
  answers : List (Text × Text) := []
  successes : List (Text × Option TonSendRecipientModel) := []

/-- What can happen. -/
inductive Action where
  | onAddressChanged (newAddress : Text)
  | onButtonClick
  | goOn (i : ℕ)
  /-- The reply to `isWalletAddressExist`, and to `resolveTonDnsAddress`. -/
  | walletExist (i : ℕ) (exist : Bool)
  | resolvedAddress (i : ℕ) (address : Option Text)

namespace State

/-- A coroutine has come to a stage. -/
def advance (s : State) (i : ℕ) (j : Job) (stage : Stage) : State :=
  { s with jobs := s.jobs.set i { j with stage := stage } }

/-- What a coroutine does next, unless it waits for a reply. -/
def goOn (s : State) (i : ℕ) (j : Job) : Option State :=
  match j.stage with
  | .launched =>
    some (s.advance i j (if (text ".ton").isSuffixOf s.address then .resolve else .check))
  | .resolve => some (s.advance i j (.resolving s.address))
  | .check => some (s.advance i j (.checking s.address))
  | .named r =>
    some (s.advance i j (.built { address := r, tonDnsAddress := some s.address }))
  | .found => some (s.advance i j (.built { address := s.address }))
  | .built model => some ({ s with recipientModel := some model }.advance i j .assigned)
  | .assigned =>
    some ({ s with
      success := true
      successes := if s.success then s.successes
        else (j.pressed, s.recipientModel) :: s.successes }.advance i j .showing)
  | .showing => some { s with success := false, loading := false, jobs := s.jobs.eraseIdx i }
  | .failed => some ({ s with error := text "Not found" }.advance i j .failing)
  | .failing => some { s with error := [], loading := false, jobs := s.jobs.eraseIdx i }
  | .resolving _ => none
  | .checking _ => none

end State

/-- One step. -/
def step (s : State) : Action → Option State
  | .onAddressChanged newAddress => some { s with address := newAddress }
  | .onButtonClick =>
    some (if s.address = [] then s
      else { s with loading := true, jobs := s.jobs ++ [{ pressed := s.address }] })
  | .goOn i => s.jobs[i]?.bind (s.goOn i)
  | .walletExist i exist =>
    s.jobs[i]?.bind fun j =>
      match j.stage with
      | .checking address =>
        some (if exist then
          { s with confirmed := address :: s.confirmed }.advance i j .found
        else s.advance i j .failed)
      | _ => none
  | .resolvedAddress i address =>
    s.jobs[i]?.bind fun j =>
      match j.stage, address with
      | .resolving name, some r =>
        some ({ s with answers := (name, r) :: s.answers }.advance i j (.named r))
      | .resolving _, none => some (s.advance i j .failed)
      | _, _ => none

/-- The view model for an argument of the screen. -/
def start (recipientAddress : Option Text) : State := { address := recipientAddress.getD [] }

/-! ## Properties -/

/-- The model is that of a text which has been checked: of a name, its answer, of another text,
the text itself. -/
def Genuine (s : State) (pressed : Text) (model : TonSendRecipientModel) : Prop :=
  (∀ name ∈ model.tonDnsAddress, (name, model.address) ∈ s.answers ∧ name = pressed) ∧
    (model.tonDnsAddress = none → model.address ∈ s.confirmed ∧ model.address = pressed)

instance (s : State) (pressed : Text) (model : TonSendRecipientModel) :
    Decidable (Genuine s pressed model) :=
  inferInstanceAs (Decidable (_ ∧ _))

/-- Each time `success` became true, the model was that of the text at the press. -/
def Sound (s : State) : Prop := ∀ e ∈ s.successes, ∃ model ∈ e.2, Genuine s e.1 model

instance (s : State) : Decidable (Sound s) :=
  inferInstanceAs (Decidable (∀ e ∈ s.successes, ∃ model ∈ e.2, Genuine s e.1 model))

/-- Up to `success` or the error. -/
def Stage.busy : Stage → Bool
  | .showing | .failed | .failing => false
  | _ => true

/-- No edit changes a text that is being checked. -/
def Calm (s : State) : Action → Prop
  | .onAddressChanged newAddress => newAddress = s.address ∨ ∀ j ∈ s.jobs, j.stage.busy = false
  | _ => True

instance (s : State) : ∀ a, Decidable (Calm s a)
  | .onAddressChanged _ => inferInstanceAs (Decidable (_ ∨ _))
  | .onButtonClick => isTrue trivial
  | .goOn _ => isTrue trivial
  | .walletExist _ _ => isTrue trivial
  | .resolvedAddress _ _ => isTrue trivial

/-! ## The invariant -/

/-- What a coroutine knows, while the text it was launched for is in the field. -/
def StageOk (s : State) (pressed : Text) : Stage → Prop
  | .launched | .resolve | .check => pressed = s.address
  | .resolving name => pressed = s.address ∧ name = s.address
  | .checking address => pressed = s.address ∧ address = s.address
  | .named r => pressed = s.address ∧ (s.address, r) ∈ s.answers
  | .found => pressed = s.address ∧ s.address ∈ s.confirmed
  | .built model => pressed = s.address ∧ Genuine s s.address model
  | .assigned => pressed = s.address ∧ ∃ model ∈ s.recipientModel, Genuine s s.address model
  | .showing | .failed | .failing => True

/-- Every coroutine knows what it should, and all successes are sound. -/
structure Inv (s : State) : Prop where
  jobs : ∀ j ∈ s.jobs, StageOk s j.pressed j.stage
  sound : Sound s

/-- The same text; nothing is forgotten, and the model stays unless it is one of this text. -/
structure Extends (s t : State) : Prop where
  address : t.address = s.address
  confirmed : s.confirmed ⊆ t.confirmed
  answers : s.answers ⊆ t.answers
  model : t.recipientModel = s.recipientModel ∨
    ∃ model ∈ t.recipientModel, Genuine t t.address model

theorem Genuine.mono {s t : State} (hc : s.confirmed ⊆ t.confirmed) (ha : s.answers ⊆ t.answers)
    {pressed : Text} {model : TonSendRecipientModel} (h : Genuine s pressed model) :
    Genuine t pressed model :=
  ⟨fun name hn => (h.1 name hn).imp_left fun hm => ha hm,
    fun hn => (h.2 hn).imp_left fun hm => hc hm⟩

theorem Sound.mono {s t : State} (hc : s.confirmed ⊆ t.confirmed) (ha : s.answers ⊆ t.answers)
    (hs : t.successes = s.successes) (h : Sound s) : Sound t := by
  intro e he
  obtain ⟨model, hm, hg⟩ := h e (hs ▸ he)
  exact ⟨model, hm, hg.mono hc ha⟩

theorem StageOk.mono {s t : State} (h : Extends s t) {pressed : Text} {stage : Stage}
    (hs : StageOk s pressed stage) : StageOk t pressed stage := by
  cases stage with
  | launched | resolve | check => exact hs.trans h.address.symm
  | resolving name => rw [StageOk, h.address]; exact hs
  | checking address => rw [StageOk, h.address]; exact hs
  | named r => rw [StageOk, h.address]; exact ⟨hs.1, h.answers hs.2⟩
  | found => rw [StageOk, h.address]; exact ⟨hs.1, h.confirmed hs.2⟩
  | built model => rw [StageOk, h.address]; exact ⟨hs.1, hs.2.mono h.confirmed h.answers⟩
  | assigned =>
    obtain ⟨hp, model, hm, hg⟩ := hs
    refine ⟨hp.trans h.address.symm, ?_⟩
    rcases h.model with he | hnew
    · exact ⟨model, he ▸ hm, h.address ▸ hg.mono h.confirmed h.answers⟩
    · exact hnew
  | showing | failed | failing => trivial

variable {s t : State} {i : ℕ} {j : Job} {stage : Stage}

/-- A coroutine comes to a stage and knows what it should there. -/
theorem inv_advance (h : Inv s) (ht : Extends s t) (hjobs : t.jobs = s.jobs)
    (hstage : StageOk t j.pressed stage) (hsound : Sound t) : Inv (t.advance i j stage) := by
  refine ⟨?_, hsound⟩
  have hold : ∀ k ∈ t.jobs, StageOk t k.pressed k.stage :=
    fun k hk => (h.jobs k (hjobs ▸ hk)).mono ht
  exact Jobs.goOn hold hstage

/-- A coroutine ends. -/
theorem inv_finish (h : Inv s) (ht : Extends s t) (hjobs : t.jobs = s.jobs.eraseIdx i)
    (hsound : Sound t) : Inv t := by
  refine ⟨?_, hsound⟩
  rw [hjobs]
  exact Jobs.finish (fun k hk => (h.jobs k hk).mono ht) i

/-- Nothing is forgotten where nothing that a coroutine knows has changed. -/
theorem Extends.of_same (ha : t.address = s.address) (hc : t.confirmed = s.confirmed)
    (hn : t.answers = s.answers) (hm : t.recipientModel = s.recipientModel) : Extends s t :=
  ⟨ha, hc ▸ List.Subset.refl _, hn ▸ List.Subset.refl _, .inl hm⟩

theorem inv_goOn (h : Inv s) (hj : s.jobs[i]? = some j) (ht : s.goOn i j = some t) : Inv t := by
  have hok := h.jobs j (List.mem_of_getElem? hj)
  have hself : Extends s s := .of_same rfl rfl rfl rfl
  rw [State.goOn] at ht
  cases hstage : j.stage with
  | launched =>
    rw [hstage] at hok ht
    obtain rfl := Option.some.inj ht
    refine inv_advance h hself rfl ?_ h.sound
    split <;> exact hok
  | resolve =>
    rw [hstage] at hok ht
    obtain rfl := Option.some.inj ht
    exact inv_advance h hself rfl ⟨hok, rfl⟩ h.sound
  | check =>
    rw [hstage] at hok ht
    obtain rfl := Option.some.inj ht
    exact inv_advance h hself rfl ⟨hok, rfl⟩ h.sound
  | named r =>
    rw [hstage] at hok ht
    obtain rfl := Option.some.inj ht
    refine inv_advance h hself rfl ⟨hok.1, ?_, fun hn => nomatch hn⟩ h.sound
    rintro name ⟨rfl⟩
    exact ⟨hok.2, rfl⟩
  | found =>
    rw [hstage] at hok ht
    obtain rfl := Option.some.inj ht
    have hnew : Genuine s s.address { address := s.address } :=
      ⟨fun _ hn => (nomatch hn), fun _ => ⟨hok.2, rfl⟩⟩
    exact inv_advance h hself rfl ⟨hok.1, hnew⟩ h.sound
  | built model =>
    rw [hstage] at hok ht
    obtain rfl := Option.some.inj ht
    have hnew : ∃ m ∈ some model, Genuine { s with recipientModel := some model } s.address m :=
      ⟨model, rfl, hok.2⟩
    exact inv_advance h ⟨rfl, List.Subset.refl _, List.Subset.refl _, .inr hnew⟩ rfl
      ⟨hok.1, hnew⟩ h.sound
  | assigned =>
    rw [hstage] at hok ht
    obtain rfl := Option.some.inj ht
    obtain ⟨hp, model, hm, hg⟩ := hok
    refine inv_advance h (.of_same rfl rfl rfl rfl) rfl trivial ?_
    intro e he
    dsimp only at he
    split at he
    · exact h.sound e he
    · rcases List.mem_cons.mp he with rfl | he
      · exact ⟨model, hm, hp ▸ hg⟩
      · exact h.sound e he
  | showing =>
    rw [hstage] at ht
    obtain rfl := Option.some.inj ht
    exact inv_finish h (.of_same rfl rfl rfl rfl) rfl h.sound
  | failed =>
    rw [hstage] at ht
    obtain rfl := Option.some.inj ht
    exact inv_advance h (.of_same rfl rfl rfl rfl) rfl trivial h.sound
  | failing =>
    rw [hstage] at ht
    obtain rfl := Option.some.inj ht
    exact inv_finish h (.of_same rfl rfl rfl rfl) rfl h.sound
  | resolving name => rw [hstage] at ht; cases ht
  | checking address => rw [hstage] at ht; cases ht

theorem inv_walletExist (h : Inv s) {exist : Bool} (ht : step s (.walletExist i exist) = some t) :
    Inv t := by
  obtain ⟨j, hj, ht⟩ := Option.bind_eq_some_iff.mp ht
  have hok := h.jobs j (List.mem_of_getElem? hj)
  split at ht
  · rename_i address hstage
    rw [hstage] at hok
    obtain ⟨hp, rfl⟩ := hok
    obtain rfl := Option.some.inj ht
    split
    · have hc : s.confirmed ⊆ s.address :: s.confirmed := List.subset_cons_self _ _
      exact inv_advance h ⟨rfl, hc, List.Subset.refl _, .inl rfl⟩ rfl
        ⟨hp, List.mem_cons_self ..⟩ (Sound.mono (s := s) hc (List.Subset.refl _) rfl h.sound)
    · exact inv_advance h (.of_same rfl rfl rfl rfl) rfl trivial h.sound
  · cases ht

theorem inv_resolvedAddress (h : Inv s) {address : Option Text}
    (ht : step s (.resolvedAddress i address) = some t) : Inv t := by
  obtain ⟨j, hj, ht⟩ := Option.bind_eq_some_iff.mp ht
  have hok := h.jobs j (List.mem_of_getElem? hj)
  split at ht
  · rename_i name r hstage _
    rw [hstage] at hok
    obtain ⟨hp, rfl⟩ := hok
    obtain rfl := Option.some.inj ht
    have ha : s.answers ⊆ (s.address, r) :: s.answers := List.subset_cons_self _ _
    exact inv_advance h ⟨rfl, List.Subset.refl _, ha, .inl rfl⟩ rfl ⟨hp, List.mem_cons_self ..⟩
      (Sound.mono (s := s) (List.Subset.refl _) ha rfl h.sound)
  · obtain rfl := Option.some.inj ht
    exact inv_advance h (.of_same rfl rfl rfl rfl) rfl trivial h.sound
  · cases ht

/-- A text that is not being checked can be edited. -/
theorem inv_onAddressChanged (h : Inv s) {newAddress : Text}
    (hc : Calm s (.onAddressChanged newAddress)) : Inv { s with address := newAddress } := by
  have hsound : Sound { s with address := newAddress } :=
    h.sound.mono (List.Subset.refl _) (List.Subset.refl _) rfl
  refine ⟨fun j hj => ?_, hsound⟩
  rcases hc with rfl | hidle
  · exact h.jobs j hj
  · have hbusy := hidle j hj
    cases hstage : j.stage <;> rw [hstage] at hbusy <;> trivial

theorem inv_onButtonClick (h : Inv s) (ht : step s .onButtonClick = some t) : Inv t := by
  obtain rfl := Option.some.inj ht
  split
  · exact h
  · refine ⟨Jobs.launch (fun k hk => ?_) rfl, h.sound⟩
    exact (h.jobs k hk).mono (.of_same rfl rfl rfl rfl)

theorem inv_step (s : State) (a : Action) (t : State) (h : Inv s) (hc : Calm s a)
    (ht : step s a = some t) : Inv t := by
  cases a with
  | onAddressChanged newAddress =>
    obtain rfl := Option.some.inj ht
    exact inv_onAddressChanged h hc
  | onButtonClick => exact inv_onButtonClick h ht
  | goOn i =>
    obtain ⟨j, hj, ht⟩ := Option.bind_eq_some_iff.mp ht
    exact inv_goOn h hj ht
  | walletExist i exist => exact inv_walletExist h ht
  | resolvedAddress i address => exact inv_resolvedAddress h ht

/-! ## Runs -/

/-- While no text that is being checked is edited, each time `success` becomes true the model is
that of the text at the press. -/
theorem checked_recipient (recipientAddress : Option Text) (as : List Action)
    (hg : Machine.Guarded step Calm (start recipientAddress) as) :
    Machine.Always step Sound (start recipientAddress) as :=
  Machine.always_of_guarded inv_step (fun _ h => h.sound)
    ⟨fun _ h => (nomatch h), fun _ h => (nomatch h)⟩ hg

/-- A name is resolved. -/
def nameRun : List Action :=
  [.onAddressChanged (text "a.ton"), .onButtonClick, .goOn 0, .goOn 0,
    .resolvedAddress 0 (some (text "EQAA")), .goOn 0, .goOn 0, .goOn 0,
    .onAddressChanged (text "b.ton")]

theorem checked_recipient_name : Machine.Always step Sound (start none) nameRun :=
  checked_recipient none nameRun (by decide)

/-- An address is checked and, while the reply is on its way, edited. -/
def editRun : List Action :=
  [.onAddressChanged (text "EQAA"), .onButtonClick, .goOn 0, .goOn 0,
    .onAddressChanged (text "EQBB"), .walletExist 0 true, .goOn 0, .goOn 0, .goOn 0]

/-- The edited text is taken for the one that was checked. -/
theorem edit_attaches : ¬ Machine.Always step Sound (start none) editRun := by
  have hrun : (Machine.run step (start none) editRun).any (fun s => ¬ Sound s) = true := by
    decide +kernel
  obtain ⟨s, hs, h⟩ := (Option.any_eq_true ..).mp hrun
  exact Machine.not_always_of_run hs (of_decide_eq_true h)

end TonWallet.Send.Recipient
