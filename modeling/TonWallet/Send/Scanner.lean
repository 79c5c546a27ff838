import TonWallet.Send.Pipeline

/-!
# The scanner

The camera and the gallery read QR codes. A text that one of them accepts goes to
the screen the scanner was opened from: the main navigation, or the send sheet.

* `agrees_iff`: the scanner and its consumers agree on exactly the texts that the
  camera does not accept; the code of the receive screen is read by both, and opens
  the send flow from the sheet.
-/

namespace TonWallet.Scanner

open Encoding Send

/-! ## Producers -/

/-- `"ton://transfer/"`, and the beginnings of the texts of TON Connect. -/
def transferPrefix : Text := text "ton://transfer/"
def connectPrefix : Text := text "tc://?v=2"
def tonkeeperPrefix : Text := text "https://app.tonkeeper.com/ton-connect?"

/-- A transfer text, and a text of TON Connect that is none. -/
def IsTransfer (t : Text) : Prop := transferPrefix <+: t
def IsTonConnect (t : Text) : Prop := connectPrefix <+: t ∨ tonkeeperPrefix <+: t

instance (t : Text) : Decidable (IsTransfer t) := inferInstanceAs (Decidable (_ <+: _))
instance (t : Text) : Decidable (IsTonConnect t) := inferInstanceAs (Decidable (_ ∨ _))

/-- `Uri.parse(t).path`, of a transfer text: what stands between the authority and the query or
the fragment. -/
def uriPath (t : Text) : Text := percentDecode (pathOf (t.drop (text "ton://transfer").length))

/-- `path.replace("/", "")`. -/
def checked (t : Text) : Text := (uriPath t).filter (· ≠ slash)

/-- `t.split("/").last()`. -/
def lastPart (t : Text) : Text := ((t.splitOn slash).getLast?).getD []

section
variable (isValidWalletAddress : Text → Bool)

/-- What `QrCodeAnalyzer.analyze` hands on (lines 38–53). -/
def camera (t : Text) : Option Text :=
  if t ≠ [] then
    if IsTransfer t then
      if isValidWalletAddress (checked t) then some (lastPart t) else none
    else if IsTonConnect t then some t
    else none
  else none

/-- A transfer text with a valid address, or a text of TON Connect. -/
def Accepted (t : Text) : Prop :=
  if IsTransfer t then isValidWalletAddress (checked t) = true else IsTonConnect t

instance (t : Text) : Decidable (Accepted isValidWalletAddress t) := by
  unfold Accepted
  infer_instance

/-- What the image picker hands on (`TonWalletCameraScreen.kt` lines 127–135). -/
def gallery (t : Text) : Option Text :=
  if t ≠ [] ∧ IsTransfer t then
    if isValidWalletAddress (checked t) then some (lastPart t) else none
  else none

end

/-! ## Consumers -/

/-- What a consumer does with a result. -/
inductive Outcome where
  /-- The send flow opens with this text for a recipient. -/
  | sendFlow (recipient : Option Text)
  | processString (tonConnectData : Text)
  /-- The result is saved as `qrScanResult`, which nothing reads, and the scanner is closed. -/
  | saved (qrScanResult : Text)
  | closed
deriving DecidableEq

/-- The scanner of the main navigation (`Navigation.kt` lines 393–400). -/
def navigationResult (result : Text) : Outcome :=
  if text "ton:" <+: result then .saved result
  else if text "tc:" <+: result ∨ tonkeeperPrefix <+: result then .processString result
  else .closed

/-- The destination of the recipient screen (`SendWalletNavigation.kt` lines 68–83). -/
def sendAddressEntry (r : Text) : Option Text := queryParameter (text "wallet_address") r

/-- The scanner of the send sheet (`TonWalletMainScreen.kt` lines 151–157). -/
def sheetResult (result : Text) : Outcome :=
  .sendFlow (sendAddressEntry (route (text "send_address") [(text "wallet_address", result)]))

/-- The consumers. -/
def consumers : List (Text → Outcome) := [navigationResult, sheetResult]

/-! ## Agreement -/

section
variable (isValidWalletAddress : Text → Bool)

/-- The scanner and its consumers agree on a text. -/
structure Agrees (t : Text) : Prop where
  accept : (camera isValidWalletAddress t).isSome ↔ (gallery isValidWalletAddress t).isSome
  transfer : ∀ scan ∈ [camera isValidWalletAddress, gallery isValidWalletAddress],
    ∀ result ∈ scan t, IsTransfer t →
      result = checked t ∧ ∀ consumer ∈ consumers, consumer result = .sendFlow (some (checked t))
  tonConnect : ∀ scan ∈ [camera isValidWalletAddress, gallery isValidWalletAddress],
    ∀ result ∈ scan t, ¬ IsTransfer t →
      ∀ consumer ∈ consumers, consumer result = .processString t

variable {isValidWalletAddress : Text → Bool}

/-- The gallery accepts transfer texts only. -/
theorem gallery_eq (t : Text) :
    gallery isValidWalletAddress t
      = if IsTransfer t then camera isValidWalletAddress t else none := by
  rw [gallery, camera]
  by_cases ht : t = [] <;> by_cases htransfer : IsTransfer t <;> simp [ht, htransfer]

/-- The camera hands on the accepted texts. -/
theorem camera_eq_none_iff {t : Text} :
    camera isValidWalletAddress t = none ↔ ¬ Accepted isValidWalletAddress t := by
  have hempty : ¬ Accepted isValidWalletAddress [] := by
    have htransfer : ¬ IsTransfer [] := by decide
    have hconnect : ¬ IsTonConnect [] := by decide
    rwa [Accepted, if_neg htransfer]
  by_cases ht : t = []
  · rw [ht]
    exact iff_of_true rfl hempty
  · rw [camera, if_pos ht, Accepted]
    split
    · split <;> simp_all
    · split <;> simp_all

theorem navigationResult_ne_sendFlow (result : Text) (recipient : Option Text) :
    navigationResult result ≠ .sendFlow recipient := by
  rw [navigationResult]
  split
  · exact Outcome.noConfusion
  · split <;> exact Outcome.noConfusion

/-- No transfer text opens the send flow from the main navigation, and no text of TON Connect is
read from the gallery. -/
theorem agrees_iff_camera {t : Text} :
    Agrees isValidWalletAddress t ↔ camera isValidWalletAddress t = none := by
  constructor
  · intro h
    by_contra hne
    obtain ⟨result, hresult⟩ := Option.ne_none_iff_exists'.mp hne
    by_cases ht : IsTransfer t
    · have hall := (h.transfer _ (List.mem_cons_self ..) result hresult ht).2
      exact navigationResult_ne_sendFlow _ _ (hall navigationResult (List.mem_cons_self ..))
    · have haccept := h.accept.mp (by rw [hresult]; rfl)
      rw [gallery_eq, if_neg ht] at haccept
      cases haccept
  · intro h
    have hgallery : gallery isValidWalletAddress t = none := by
      rw [gallery_eq, h, ite_self]
    have hnone : ∀ scan ∈ [camera isValidWalletAddress, gallery isValidWalletAddress],
        scan t = none := by
      simp only [List.forall_mem_cons]
      exact ⟨h, hgallery, fun _ hs => nomatch hs⟩
    refine ⟨by rw [h, hgallery], ?_, ?_⟩
    · intro scan hscan result hresult
      rw [hnone scan hscan] at hresult
      cases hresult
    · intro scan hscan result hresult
      rw [hnone scan hscan] at hresult
      cases hresult

/-! ## The receive screen -/

/-- `TonReceiveViewModel.qrData`. -/
def qrData (address : Text) : Text := transferPrefix ++ address

theorem qrData_eq (address : Text) :
    qrData address = text "ton://transfer" ++ slash :: address := by
  have h : transferPrefix = text "ton://transfer" ++ [slash] := by decide
  rw [qrData, h, List.append_assoc, List.singleton_append]

theorem checked_qrData {address : Text} (h : Plain address) :
    checked (qrData address) = address := by
  obtain ⟨hclean, hcapture, hquestion⟩ := h
  have hpath : pathOf (slash :: address) = slash :: address := by
    rw [pathOf_self, List.mem_cons, List.mem_cons, not_or, not_or]
    exact ⟨⟨by decide, hquestion⟩, by decide, hclean.2.1⟩
  have hpercent : percent ∉ slash :: address := by
    rw [List.mem_cons, not_or]
    exact ⟨by decide, hclean.2.2⟩
  have hfilter : address.filter (· ≠ slash) = address := by
    rw [List.filter_eq_self]
    exact fun c hc => decide_eq_true fun e : c = slash => hcapture.2 (e ▸ hc)
  rw [checked, uriPath, qrData_eq, List.drop_left, hpath, percentDecode_of_not_mem hpercent,
    List.filter_cons_of_neg (by decide), hfilter]

theorem lastPart_qrData {address : Text} (h : Plain address) :
    lastPart (qrData address) = address := by
  rw [lastPart, qrData_eq, List.splitOn_append_cons_self, List.splitOn_eq_singleton h.2.1.2,
    List.getLast?_concat, Option.getD_some]

/-- The code of the receive screen is read as the address, which the sheet opens the send flow
with. -/
theorem qrData_scans {address : Text} (h : Plain address)
    (hv : isValidWalletAddress address = true) :
    camera isValidWalletAddress (qrData address) = some address ∧
      gallery isValidWalletAddress (qrData address) = some address ∧
      sheetResult address = .sendFlow (some address) := by
  have htransfer : IsTransfer (qrData address) := List.prefix_append ..
  have hne : qrData address ≠ [] := by
    rw [qrData_eq]
    simp
  have hcamera : camera isValidWalletAddress (qrData address) = some address := by
    rw [camera, if_pos hne, if_pos htransfer, checked_qrData h, if_pos hv, lastPart_qrData h]
  have hname : IsName (text "wallet_address") := by decide
  have hpath : questionMark ∉ text "send_address" ∧ hash ∉ text "send_address" := by decide
  have hnd : ([(text "wallet_address", address)].map (·.1)).Nodup := List.nodup_singleton _
  have hsheet := queryParameter_clean hpath hnd (List.forall_mem_singleton.mpr hname)
    (List.forall_mem_singleton.mpr h.1) (List.mem_singleton_self (_, address))
  refine ⟨hcamera, by rw [gallery_eq, if_pos htransfer, hcamera], ?_⟩
  rw [sheetResult, sendAddressEntry, hsheet]

/-- The scanner and its consumers agree on exactly the texts that are neither a transfer text with a
valid address nor one of TON Connect. The code of a wallet address is read as that address. -/
theorem agrees_iff (isValidWalletAddress : Text → Bool) :
    (∀ t, Agrees isValidWalletAddress t ↔ ¬ Accepted isValidWalletAddress t) ∧
      ∀ address, Plain address → isValidWalletAddress address = true →
        camera isValidWalletAddress (qrData address) = some address ∧
          gallery isValidWalletAddress (qrData address) = some address ∧
          sheetResult address = .sendFlow (some address) :=
  ⟨fun _ => agrees_iff_camera.trans camera_eq_none_iff, fun _ h hv => qrData_scans h hv⟩

/-- A text of TON Connect, and the code of a wallet address. -/
theorem agrees_receive :
    (Agrees (· = text "EQAA") (text "tc://?v=2&id=1") ↔
        ¬ Accepted (· = text "EQAA") (text "tc://?v=2&id=1")) ∧
      camera (· = text "EQAA") (qrData (text "EQAA")) = some (text "EQAA") ∧
      gallery (· = text "EQAA") (qrData (text "EQAA")) = some (text "EQAA") ∧
      sheetResult (text "EQAA") = .sendFlow (some (text "EQAA")) :=
  ⟨(agrees_iff fun a => a = text "EQAA").1 (text "tc://?v=2&id=1"),
    (agrees_iff fun a => a = text "EQAA").2 (text "EQAA") (by decide) (by decide)⟩

/-- The address of a link with an amount is checked, but the amount is delivered with it. -/
theorem amount_delivered :
    ¬ Agrees (· = text "EQAA") (text "ton://transfer/EQAA?amount=1") := by
  intro h
  have hcamera : camera (· = text "EQAA") (text "ton://transfer/EQAA?amount=1")
      = some (text "EQAA?amount=1") := by decide +kernel
  have hchecked : checked (text "ton://transfer/EQAA?amount=1") = text "EQAA" := by
    decide +kernel
  have hresult := (h.transfer _ (List.mem_cons_self ..) _ hcamera (by decide +kernel)).1
  rw [hchecked] at hresult
  revert hresult
  decide

end

end TonWallet.Scanner
