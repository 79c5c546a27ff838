import TonWallet.Encoding.Bytes
import Mathlib.Data.Int.Notation

/-!
# Resolving a name

`dnsResolve` asks for a name and, while it is referred to another resolver, for
what is left of it: it splits the name at its points, drops the last label and
joins the others, without the points. With a point at the end of the label it was
referred for, it drops one more character.

* `resolves_labels_iff`: what is left of a name is what the next resolver is asked
  for exactly if the name has two labels, the second of which comes back without a
  point.
-/

namespace TonWallet.Send.Dns

open Encoding

/-! ## The model -/

/-- `TonApi.DnsEntryDataNextResolver`, and the other data of entries. -/
inductive DnsEntryData where
  | DnsEntryDataNextResolver (resolver : Text)
  | other
deriving DecidableEq

/-- `TonApi.DnsEntry`. -/
structure DnsEntry where
  name : Text
  entry : DnsEntryData
deriving DecidableEq

/-- `TonApi.DnsResolved`, and the other replies. -/
inductive DnsReply where
  | DnsResolved (entries : List DnsEntry)
  | other
deriving DecidableEq

/-- `TonApi.DnsResolve`. -/
structure DnsResolve where
  accountAddress : Option Text
  name : Text
  category : Bytes := [0]
  ttl : ℤ := 0
deriving DecidableEq

/-- What the calls have sent, and what the first one returns once they have ended. -/
structure DnsRun where
  requests : List DnsResolve
  result : Option (Option Text) := none
deriving DecidableEq

def point : Char16 := 0x2E

/-- What is asked for next, after a referral for `name` (lines 310–329). -/
def nextName (splited : List Text) (name : Text) : Option Text :=
  let last := splited.getLast?.getD []
  if name = last then some splited.dropLast.flatten
  else if name = last ++ [point] then some splited.dropLast.flatten.dropLast
  else none

/-- `dnsResolve` (`TonWalletClient.kt` lines 299–336) in at most `calls` calls, the first of which
gets reply `i`. -/
def dnsResolve (replies : ℕ → DnsReply) :
    (calls : ℕ) → (address : Text) → (resolverAddress : Option Text) → (i : ℕ) → DnsRun
  | 0, _, _, _ => { requests := [] }
  | calls + 1, address, resolverAddress, i =>
    let req : DnsResolve := { accountAddress := resolverAddress, name := address }
    match replies i with
    | .DnsResolved ({ name := name, entry := .DnsEntryDataNextResolver resolver } :: _) =>
      let splited := address.splitOn point
      if splited.length = 1 then { requests := [req], result := some (some resolver) }
      else
        match nextName splited name with
        | some next =>
          let r := dnsResolve replies calls next (some resolver) (i + 1)
          { r with requests := req :: r.requests }
        | none => { requests := [req], result := some none }
    | _ => { requests := [req], result := some none }

/-- `resolveTonDnsAddress` (line 294). -/
def resolveTonDnsAddress (replies : ℕ → DnsReply) (calls : ℕ) (address : Text) : DnsRun :=
  dnsResolve replies calls address none 0

/-! ## Names -/

/-- Labels, separated by points. -/
def joined (labels : List Text) : Text := [point].intercalate labels

/-- A name of two labels or more. -/
structure Domain where
  labels : List Text
  two_le : 2 ≤ labels.length
  no_point : ∀ l ∈ labels, point ∉ l

namespace Domain

variable (d : Domain)

def text : Text := joined d.labels

/-- The labels that are left after `i` referrals. -/
def left (i : ℕ) : List Text := d.labels.take (d.labels.length - i)

end Domain

/-- Resolvers that refer to others for the last label that is left: the others, whether a point
follows the label, and what else is in the replies. -/
structure Referrals where
  resolver : ℕ → Text
  trailing : ℕ → Bool
  more : ℕ → List DnsEntry

/-- Their replies. -/
def Referrals.replies (s : Referrals) (d : Domain) (i : ℕ) : DnsReply :=
  .DnsResolved ({
    name := (d.left i).getLast?.getD [] ++ if s.trailing i then [point] else []
    entry := .DnsEntryDataNextResolver (s.resolver i) } :: s.more i)

/-- Each resolver is asked for what is left of the name. -/
def Walks (d : Domain) (s : Referrals) : Prop :=
  ∀ calls i req, (resolveTonDnsAddress (s.replies d) calls d.text).requests[i]? = some req →
    req.name = joined (d.left i)

/-! ## Labels -/

theorem length_joined (labels : List Text) :
    (joined labels).length = labels.flatten.length + (labels.length - 1) := by
  induction labels with
  | nil => rfl
  | cons l labels ih =>
    cases labels with
    | nil => simp [joined]
    | cons m labels =>
      rw [joined, List.intercalate_cons_cons, List.length_append, List.length_append,
        ← joined, ih]
      simp only [List.flatten_cons, List.length_append, List.length_cons, List.length_nil]
      omega

/-- Only one label is joined to itself without points. -/
theorem flatten_eq_joined {labels : List Text} (hne : labels ≠ []) :
    labels.flatten = joined labels ↔ labels.length = 1 := by
  have hpos := List.length_pos_of_ne_nil hne
  constructor
  · intro h
    have hlen := length_joined labels
    rw [← h] at hlen
    omega
  · intro h
    obtain ⟨l, rfl⟩ := List.length_eq_one_iff.mp h
    simp [joined]

/-- One label without its last character is itself only if it is empty. -/
theorem dropLast_eq_joined {labels : List Text} (hne : labels ≠ []) :
    labels.flatten.dropLast = joined labels ↔ labels = [[]] := by
  have hpos := List.length_pos_of_ne_nil hne
  constructor
  · intro h
    have hlen := length_joined labels
    rw [← h, List.length_dropLast] at hlen
    obtain ⟨l, rfl⟩ := List.length_eq_one_iff.mp (show labels.length = 1 by omega)
    rw [List.flatten_singleton] at hlen
    simp only [List.length_singleton] at hlen
    rw [List.length_eq_zero_iff.mp (show l.length = 0 by omega)]
  · rintro rfl
    rfl

/-! ## Referrals -/

section
variable {d : Domain} {s : Referrals}

theorem Domain.labels_ne_nil (d : Domain) : d.labels ≠ [] := by
  have := d.two_le
  rintro h
  simp [h] at this

theorem Domain.splitOn_text (d : Domain) : d.text.splitOn point = d.labels :=
  List.splitOn_intercalate point d.no_point d.labels_ne_nil

theorem Domain.left_zero (d : Domain) : d.left 0 = d.labels := by
  rw [left, Nat.sub_zero, List.take_length]

theorem Domain.left_one (d : Domain) : d.left 1 = d.labels.dropLast := by
  rw [left, List.dropLast_eq_take]

theorem Domain.length_dropLast (d : Domain) : d.labels.dropLast.length = d.labels.length - 1 :=
  List.length_dropLast

/-- What is asked for after the first referral. -/
theorem nextName_first (d : Domain) (trailing : Bool) :
    nextName d.labels (d.labels.getLast?.getD [] ++ if trailing then [point] else [])
      = some (if trailing then d.labels.dropLast.flatten.dropLast
          else d.labels.dropLast.flatten) := by
  cases trailing with
  | false => simp [nextName]
  | true => simp [nextName]

/-- Without points there is one label, so that the second call ends. -/
theorem next_single (d : Domain) (trailing : Bool) :
    ((if trailing then d.labels.dropLast.flatten.dropLast
      else d.labels.dropLast.flatten).splitOn point).length = 1 := by
  have hflatten : point ∉ d.labels.dropLast.flatten := by
    simp only [List.mem_flatten, not_exists, not_and]
    exact fun l hl => d.no_point l (List.dropLast_subset _ hl)
  have hnext : point ∉ if trailing then d.labels.dropLast.flatten.dropLast
      else d.labels.dropLast.flatten := by
    split
    · exact fun h => hflatten (List.dropLast_subset _ h)
    · exact hflatten
  rw [List.splitOn_eq_singleton hnext]
  rfl

/-- The requests: there are two of them at most. -/
theorem requests_eq (d : Domain) (s : Referrals) (calls : ℕ) :
    (resolveTonDnsAddress (s.replies d) calls d.text).requests
      = [{ accountAddress := none, name := d.text },
          { accountAddress := some (s.resolver 0)
            name := if s.trailing 0 then d.labels.dropLast.flatten.dropLast
              else d.labels.dropLast.flatten }].take calls := by
  cases calls with
  | zero => rfl
  | succ calls =>
    have htwo : ¬ d.labels.length = 1 := by
      have := d.two_le
      omega
    have hname := nextName_first d (s.trailing 0)
    have hsingle := next_single d (s.trailing 0)
    generalize (if s.trailing 0 then d.labels.dropLast.flatten.dropLast
      else d.labels.dropLast.flatten) = next at hname hsingle ⊢
    rw [resolveTonDnsAddress, dnsResolve, Referrals.replies, d.left_zero, d.splitOn_text]
    simp only [if_neg htwo, hname]
    cases calls with
    | zero => rfl
    | succ calls =>
      rw [dnsResolve, Referrals.replies]
      simp only [if_pos hsingle, List.take_succ_cons, List.take_nil]

/-- Only the second request can go wrong. -/
theorem walks_iff_next (d : Domain) (s : Referrals) :
    Walks d s ↔ (if s.trailing 0 then d.labels.dropLast.flatten.dropLast
      else d.labels.dropLast.flatten) = joined d.labels.dropLast := by
  constructor
  · intro h
    have hsecond := h 2 1 _ (by rw [requests_eq]; rfl)
    rwa [d.left_one] at hsecond
  · intro h calls i req hreq
    rw [requests_eq, List.getElem?_take] at hreq
    obtain ⟨-, hreq⟩ := Option.ite_none_right_eq_some.mp hreq
    rcases i with _ | _ | i
    · obtain rfl := Option.some.inj hreq
      rw [d.left_zero]
      rfl
    · obtain rfl := Option.some.inj hreq
      rw [d.left_one]
      exact h
    · cases hreq

/-- **Resolution.** Each resolver is asked for what is left of the name exactly if the name has two
labels, and the second one comes back without a point, or the first one is empty. -/
theorem resolves_labels_iff (d : Domain) (s : Referrals) :
    Walks d s ↔ d.labels.length = 2 ∧ (s.trailing 0 = false ∨ d.labels.head? = some []) := by
  have hlen := d.length_dropLast
  have htwo := d.two_le
  have hne : d.labels.dropLast ≠ [] := List.ne_nil_of_length_pos (by omega)
  have hhead : d.labels.dropLast.head? = d.labels.head? := by
    rw [List.head?_dropLast, if_pos (by omega)]
  rw [walks_iff_next]
  cases s.trailing 0 with
  | false =>
    simp only [Bool.false_eq_true, if_false, true_or, and_true, flatten_eq_joined hne]
    omega
  | true =>
    simp only [if_true, reduceCtorEq, false_or, dropLast_eq_joined hne]
    rw [← hhead]
    constructor
    · intro h
      rw [h] at hlen hhead ⊢
      exact ⟨by simp at hlen; omega, rfl⟩
    · rintro ⟨hlength, hempty⟩
      obtain ⟨l, hl⟩ := List.length_eq_one_iff.mp (show d.labels.dropLast.length = 1 by omega)
      rw [hl, List.head?_cons, Option.some.injEq] at hempty
      rw [hl, hempty]

/-- `wallet.alice.ton`. -/
def subdomain : Domain where
  labels := [Encoding.text "wallet", Encoding.text "alice", Encoding.text "ton"]
  two_le := by decide
  no_point := by decide

/-- The next resolver is asked for `walletalice`. -/
theorem labels_merged : ¬ ∀ (d : Domain) (s : Referrals), Walks d s := by
  intro h
  have hnext := (walks_iff_next subdomain ⟨fun _ => [], fun _ => false, fun _ => []⟩).mp (h _ _)
  revert hnext
  decide

/-- So is it for `walletal.ice.ton`: the points between the labels do not reach it. -/
theorem next_eq_of_flatten {d d' : Domain} {s : Referrals} {calls : ℕ}
    (h : d.labels.dropLast.flatten = d'.labels.dropLast.flatten) :
    (resolveTonDnsAddress (s.replies d) calls d.text).requests[1]?
      = (resolveTonDnsAddress (s.replies d') calls d'.text).requests[1]? := by
  rw [requests_eq, requests_eq, h, List.getElem?_take, List.getElem?_take]
  rfl

end

end TonWallet.Send.Dns
