import TonWallet.Lib.Machine
import TonWallet.Encoding.Decimal

/-!
# The keypad of the amount

`TonSendAmountViewModel` appends what is typed to the entered amount, and drops
the last character. A zero that stands alone is replaced by the next digit, a
point is only added once, after a zero if nothing has been entered. The switch
for all of the balance writes the balance over the amount.

* `entered_amounts_decimal`: whatever is typed, the entered amount is empty or a
  decimal without superfluous zeros.
-/

namespace TonWallet.Send.Keypad

open Encoding

/-! ## The model -/

/-- A balance or an amount: a `Long` that is not negative. -/
abbrev Balance := { x : BitVec 64 // 0 ≤ x.toInt }

/-- A `MutableStateFlow`: its value, and those it has had before. -/
structure StateFlow (α : Type) where
  value : α
  past : List α := []

namespace StateFlow

variable {α : Type} (f : StateFlow α)

def set (a : α) : StateFlow α := { value := a, past := f.value :: f.past }

/-- The values of the flow, the last one first. -/
def values : List α := f.value :: f.past

end StateFlow

/-- `TonSendAmountViewModel`. -/
structure ViewModel where
  walletBalance : StateFlow Text := { value := [] }
  sendAllChecked : Bool := false
  enteredAmount : StateFlow Text

/-- The view model when it has been created (lines 25 and 40). -/
def ViewModel.create (amount : Option Balance) : ViewModel where
  enteredAmount := { value := (amount.map fun x => formatCurrency x.1.toInt).getD [] }

/-- The keys that are passed to `onNumberClick`. -/
inductive Key where
  | digit (n : Fin 10)
  | point
deriving DecidableEq

def Key.text : Key → Text
  | .digit n => ascii [Nat.digitChar n]
  | .point => Encoding.text "."

namespace ViewModel

variable (m : ViewModel)

/-- `onDeleteClick` (lines 63–65). -/
def onDeleteClick : ViewModel :=
  { m with enteredAmount := m.enteredAmount.set m.enteredAmount.value.dropLast }

/-- `_enteredAmount.value += resultNumber` (line 60). -/
def append (resultNumber : Text) : ViewModel :=
  { m with enteredAmount := m.enteredAmount.set (m.enteredAmount.value ++ resultNumber) }

/-- `onNumberClick` (lines 43–61). -/
def onNumberClick (number : Text) : ViewModel :=
  if number = Encoding.text "." then
    if 0x2E ∈ m.enteredAmount.value then m.append []
    else if m.enteredAmount.value = [] then m.append (Encoding.text "0" ++ number)
    else m.append number
  else if m.enteredAmount.value = Encoding.text "0" then m.onDeleteClick.append number
  else m.append number

/-- `onSendAllCheckChanged` (lines 67–70). -/
def onSendAllCheckChanged : ViewModel :=
  { m with
    sendAllChecked := !m.sendAllChecked
    enteredAmount := m.enteredAmount.set m.walletBalance.value }

/-- What `loadWalletBalance` does with the balance of the current wallet (lines 72–78). -/
def loadWalletBalance (balance : Balance) : ViewModel :=
  { m with walletBalance := m.walletBalance.set (formatCurrency balance.1.toInt) }

end ViewModel

/-- What happens. -/
inductive Action where
  | onNumberClick (key : Key)
  | onDeleteClick
  | onSendAllCheckChanged (checked : Bool)
  | loadWalletBalance (balance : Balance)

def step (m : ViewModel) : Action → Option ViewModel
  | .onNumberClick key => some (m.onNumberClick key.text)
  | .onDeleteClick => some m.onDeleteClick
  | .onSendAllCheckChanged _ => some m.onSendAllCheckChanged
  | .loadWalletBalance balance => some (m.loadWalletBalance balance)

section
variable {D : Type} (parseDouble : Text → D) (greater : D → D → Bool)

/-- `String.toDouble()`: `parseDouble` of the texts of a `Double`; it throws on all others. -/
def toDouble (s : Text) : Except Throwable D :=
  if isDouble s then .ok (parseDouble s) else .error .numberFormat

/-- What `error` makes of an amount and a balance (lines 28–34). -/
def error (amount balance : Text) : Except Throwable Bool :=
  if amount ≠ [] ∧ balance ≠ [] then do
    let entered ← toDouble parseDouble amount
    let available ← toDouble parseDouble balance
    return greater entered available
  else .ok false

end

/-! ## Amounts -/

/-- Empty, or a decimal without superfluous zeros. -/
def IsAmount (s : Text) : Prop := s = [] ∨ ∃ d : Decimal, d.Canonical ∧ d.text = s

theorem isAmount_formatCurrency (x : ℤ) : IsAmount (formatCurrency x) :=
  .inr (formatCurrency_canonical x)

section
variable {whole ds : List Char}

/-- Digits without a point. -/
theorem isAmount_whole (hne : whole ≠ []) (hw : ∀ c ∈ whole, c.isDigit)
    (hc : whole = ['0'] ∨ whole.head? ≠ some '0') : IsAmount (ascii whole) :=
  .inr ⟨⟨whole, none, hne, hw, fun _ h => absurd h (Option.not_mem_none _)⟩, hc, List.append_nil _⟩

/-- Digits with a point. -/
theorem isAmount_point (hne : whole ≠ []) (hw : ∀ c ∈ whole, c.isDigit)
    (hc : whole = ['0'] ∨ whole.head? ≠ some '0') (hds : ∀ c ∈ ds, c.isDigit) :
    IsAmount (ascii whole ++ 0x2E :: ascii ds) :=
  .inr ⟨⟨whole, some ds, hne, hw, fun _ h => Option.some.inj h ▸ hds⟩, hc, rfl⟩

end

theorem isAmount_zero : IsAmount (text "0") := by
  have hascii : text "0" = ascii ['0'] := rfl
  rw [hascii]
  exact isAmount_whole (List.cons_ne_nil _ _) (List.forall_mem_singleton.mpr rfl) (.inl rfl)

/-- A digit that is entered first. -/
theorem isAmount_digit {c : Char} (hc : c.isDigit) : IsAmount (ascii [c]) := by
  refine isAmount_whole (by simp) (by simpa using hc) ?_
  by_cases h : c = '0'
  · exact .inl (by rw [h])
  · exact .inr (by simpa using h)

/-- A digit that follows others, unless it follows a zero that stands alone. -/
theorem IsAmount.append_digit {s : Text} (h : IsAmount s) (hz : s ≠ text "0") {c : Char}
    (hc : c.isDigit) : IsAmount (s ++ ascii [c]) := by
  rcases h with rfl | ⟨d, hd, rfl⟩
  · exact isAmount_digit hc
  · have happend : ∀ {cs : List Char}, (∀ c ∈ cs, c.isDigit) → ∀ e ∈ cs ++ [c], e.isDigit := by
      intro cs hcs
      simp only [List.forall_mem_append, List.forall_mem_singleton]
      exact ⟨hcs, hc⟩
    cases hf : d.frac with
    | none =>
      rw [Decimal.text_of_none hf] at hz ⊢
      have hwhole : d.whole ≠ ['0'] := fun h => hz (by rw [h]; rfl)
      rw [← ascii_append]
      refine isAmount_whole (by simp) (happend d.whole_digits) (.inr ?_)
      rw [List.head?_append_of_ne_nil _ d.whole_ne]
      exact hd.resolve_left hwhole
    | some ds =>
      rw [Decimal.text_of_some hf, List.append_assoc, List.cons_append, ← ascii_append]
      exact isAmount_point d.whole_ne d.whole_digits hd (happend (d.frac_digits ds hf))

/-- A point that follows digits. -/
theorem IsAmount.append_point {s : Text} (h : IsAmount s) (hne : s ≠ [])
    (hp : (0x2E : Char16) ∉ s) : IsAmount (s ++ text ".") := by
  obtain ⟨d, hd, rfl⟩ := h.resolve_left hne
  cases hf : d.frac with
  | none =>
    rw [Decimal.text_of_none hf]
    have hpoint : text "." = 0x2E :: ascii [] := rfl
    rw [hpoint]
    exact isAmount_point d.whole_ne d.whole_digits hd (List.forall_mem_nil _)
  | some ds =>
    rw [Decimal.text_of_some hf] at hp
    simp at hp

/-- What is left without the last character. -/
theorem IsAmount.dropLast {s : Text} (h : IsAmount s) : IsAmount s.dropLast := by
  rcases h with rfl | ⟨d, hd, rfl⟩
  · exact .inl rfl
  cases hf : d.frac with
  | none =>
    rw [Decimal.text_of_none hf, dropLast_ascii]
    by_cases hnil : d.whole.dropLast = []
    · exact .inl (by rw [hnil]; rfl)
    · refine isAmount_whole hnil (fun c hc => d.whole_digits c (List.dropLast_subset _ hc)) ?_
      have hlen : 1 < d.whole.length := by
        have := List.length_pos_of_ne_nil hnil
        rw [List.length_dropLast] at this
        omega
      refine .inr ?_
      rw [List.head?_dropLast, if_pos hlen]
      exact hd.resolve_left fun h => by simp [h] at hlen
  | some ds =>
    rw [Decimal.text_of_some hf, List.dropLast_append_of_ne_nil (by simp)]
    cases ds with
    | nil => exact (List.append_nil _).symm ▸ isAmount_whole d.whole_ne d.whole_digits hd
    | cons c cs =>
      have hdigits := d.frac_digits _ hf
      rw [List.dropLast_cons_of_ne_nil (by simp [ascii]), dropLast_ascii]
      exact isAmount_point d.whole_ne d.whole_digits hd
        fun c hc => hdigits c (List.dropLast_subset _ hc)

/-! ## Runs -/

theorem Key.isDigit_text (n : Fin 10) : (Nat.digitChar n).isDigit := by
  revert n
  decide

/-- The entered amounts are empty or decimals, and the balances are amounts. -/
structure Inv (m : ViewModel) : Prop where
  entered : ∀ s ∈ m.enteredAmount.values, IsAmount s
  balance : ∀ s ∈ m.walletBalance.values, IsAmount s

theorem inv_create (amount : Option Balance) : Inv (ViewModel.create amount) where
  entered := by
    refine List.forall_mem_cons.mpr ⟨?_, List.forall_mem_nil _⟩
    cases amount with
    | none => exact .inl rfl
    | some x => exact isAmount_formatCurrency x.1.toInt
  balance := List.forall_mem_cons.mpr ⟨.inl rfl, List.forall_mem_nil _⟩

theorem Inv.value {m : ViewModel} (h : Inv m) : IsAmount m.enteredAmount.value :=
  h.entered _ (List.mem_cons_self ..)

/-- A value that is written to the flow. -/
theorem Inv.set {m : ViewModel} (h : Inv m) {s : Text} (hs : IsAmount s) :
    Inv { m with enteredAmount := m.enteredAmount.set s } where
  entered := List.forall_mem_cons.mpr ⟨hs, h.entered⟩
  balance := h.balance

theorem Inv.onDeleteClick {m : ViewModel} (h : Inv m) : Inv m.onDeleteClick :=
  h.set h.value.dropLast

theorem Inv.onNumberClick {m : ViewModel} (h : Inv m) (key : Key) :
    Inv (m.onNumberClick key.text) := by
  cases key with
  | digit n =>
    have hn := Key.isDigit_text n
    have hne : Key.text (.digit n) ≠ text "." := by revert n; decide
    rw [ViewModel.onNumberClick, if_neg hne]
    split
    · rename_i hzero
      -- the zero is dropped first, so that the digit is the first one
      have hempty : m.onDeleteClick.enteredAmount.value = [] := by
        rw [ViewModel.onDeleteClick, StateFlow.set, hzero]
        rfl
      rw [ViewModel.append, hempty]
      exact h.onDeleteClick.set (isAmount_digit hn)
    · rename_i hzero
      exact h.set (h.value.append_digit hzero hn)
  | point =>
    rw [ViewModel.onNumberClick, if_pos (show Key.text .point = text "." from rfl)]
    split
    · rw [ViewModel.append, List.append_nil]
      exact h.set h.value
    · rename_i hp
      split
      · rename_i hempty
        rw [ViewModel.append, hempty, List.nil_append]
        exact h.set (isAmount_zero.append_point (by decide) (by decide))
      · rename_i hne
        exact h.set (h.value.append_point hne hp)

theorem inv_step {m m' : ViewModel} {a : Action} (h : Inv m) (ht : step m a = some m') :
    Inv m' := by
  cases a with
  | onNumberClick key => exact Option.some.inj ht ▸ h.onNumberClick key
  | onDeleteClick => exact Option.some.inj ht ▸ h.onDeleteClick
  | onSendAllCheckChanged checked =>
    obtain rfl := Option.some.inj ht
    have hset := h.set (h.balance _ (List.mem_cons_self ..))
    exact ⟨hset.entered, hset.balance⟩
  | loadWalletBalance balance =>
    obtain rfl := Option.some.inj ht
    exact ⟨h.entered, List.forall_mem_cons.mpr ⟨isAmount_formatCurrency _, h.balance⟩⟩

/-- An amount does not make `error` throw. -/
theorem error_ok {D : Type} (parseDouble : Text → D) (greater : D → D → Bool) {s b : Text}
    (hs : IsAmount s) (hb : IsAmount b) : ∃ r, error parseDouble greater s b = .ok r := by
  have hdouble : ∀ {s : Text}, IsAmount s → s ≠ [] → isDouble s = true := by
    rintro s h hne
    obtain ⟨d, -, rfl⟩ := h.resolve_left hne
    exact d.isDouble_text
  rw [error]
  split
  · rename_i hne
    rw [toDouble, toDouble, if_pos (hdouble hs hne.1), if_pos (hdouble hb hne.2)]
    exact ⟨_, rfl⟩
  · exact ⟨false, rfl⟩

/-- **The keypad.** Whatever is typed, in whatever order, and whenever the balance comes in: all
entered amounts are empty or decimals without superfluous zeros, and `error` does not throw. -/
theorem entered_amounts_decimal {D : Type} (parseDouble : Text → D) (greater : D → D → Bool)
    (amount : Option Balance) (as : List Action) :
    Machine.Always step (fun m => ∀ s ∈ m.enteredAmount.values,
      (s = [] ∨ ∃ d : Decimal, d.Canonical ∧ d.text = s) ∧
        ∀ b ∈ m.walletBalance.values, ∃ r, error parseDouble greater s b = .ok r)
      (ViewModel.create amount) as :=
  Machine.always_of_inv (fun _ _ _ h ht => inv_step h ht)
    (fun _ h s hs => ⟨h.entered s hs, fun b hb =>
      error_ok parseDouble greater (h.entered s hs) (h.balance b hb)⟩) (inv_create amount) as

end TonWallet.Send.Keypad
