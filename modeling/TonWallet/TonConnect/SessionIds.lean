import TonWallet.TonConnect.Registry

/-!
# The ids of the messages of a session

A `TonConnectConnection` numbers its messages from 1. A session, that is a
client id with a key pair, has more than one such object: one for every start
of the process, one for every approval, and one for a rejection.

* `session_ids_increase_iff`: the runs along which the ids of every session
  increase.
* `ids_repeat_after_restart`: the first id again.
-/

namespace TonWallet.TonConnect

open Encoding Storage

/-- The session of a message. -/
def WalletMessage.session (m : WalletMessage) : Text × TonConnectConnectionKeyData :=
  (m.clientId, m.key)

/-- The session of a connection. -/
def Connection.session (c : Connection) : Text × TonConnectConnectionKeyData :=
  (c.data.id, c.data.key)

/-- In each session every message has a greater id than those before it. The last message
comes first. -/
def Increasing (sent : List WalletMessage) : Prop :=
  sent.Pairwise fun m m' => m.session = m'.session → m'.id < m.id

instance (sent : List WalletMessage) : Decidable (Increasing sent) := by
  unfold Increasing
  infer_instance

namespace Registry

/-- The connection that is to send a message in a step. -/
def sender (r : Registry) : RegistryAction → Option Connection
  | .approve data true => some { object := r.created, data := data }
  | .reject data => some { object := r.created, data := data }
  | .rejectTransfer data => r.getTonConnectionWithData data
  | .run i =>
    match r.jobs[i]? with
    | some (.delete data .launched) =>
      r.connections.find? fun c => c.data.manifest = data.manifest
    | _ => none
  | _ => none

/-- No other object has sent a message in the session. -/
def OneObject (r : Registry) (a : RegistryAction) : Prop :=
  ∀ c ∈ r.sender a, c.HasClientKey → ∀ m ∈ r.sent, m.session = c.session → m.object = c.object

instance (r : Registry) (a : RegistryAction) : Decidable (r.OneObject a) := by
  unfold OneObject
  infer_instance

/-! ## The invariant -/

/-- The counter of a connection is above the ids of its messages, and is 1 before the first. -/
structure Fits (c : Connection) (sent : List WalletMessage) : Prop where
  session : ∀ m ∈ sent, m.object = c.object → m.session = c.session
  above : ∀ m ∈ sent, m.object = c.object → m.id < c.clientLastEventId
  first : (∀ m ∈ sent, m.object ≠ c.object) → c.clientLastEventId = 1

structure SessionInv (connections : List Connection) (created : ℕ) (sent : List WalletMessage) :
    Prop where
  live_lt : ∀ c ∈ connections, c.object < created
  sent_lt : ∀ m ∈ sent, m.object < created
  unique : ∀ c ∈ connections, ∀ c' ∈ connections, c'.object = c.object → c' = c
  fits : ∀ c ∈ connections, Fits c sent
  single : ∀ m ∈ sent, ∀ m' ∈ sent, m.session = m'.session → m.object = m'.object
  positive : ∀ m ∈ sent, 1 ≤ m.id
  increasing : Increasing sent

/-- The invariant of the state. -/
def Inv (r : Registry) : Prop := SessionInv r.connections r.created r.sent

/-- A connection that may send: one of the live ones, or one that is not kept. -/
structure Ready (r : Registry) (c : Connection) : Prop where
  lt : c.object < r.created
  unique : ∀ c' ∈ r.connections, c'.object = c.object → c' = c
  fits : Fits c r.sent

variable {r t : Registry} {a : RegistryAction} {c : Connection}
  {data : TonConnectConnectionData}

/-- Connections may go. -/
theorem SessionInv.subset {cs cs' : List Connection} {n : ℕ} {sent : List WalletMessage}
    (h : SessionInv cs n sent) (hs : ∀ c ∈ cs', c ∈ cs) : SessionInv cs' n sent where
  live_lt c hc := h.live_lt c (hs c hc)
  sent_lt := h.sent_lt
  unique c hc c' hc' := h.unique c (hs c hc) c' (hs c' hc')
  fits c hc := h.fits c (hs c hc)
  single := h.single
  positive := h.positive
  increasing := h.increasing

/-- An object that is yet to be made has sent nothing. -/
theorem SessionInv.fits_new {cs : List Connection} {n : ℕ} {sent : List WalletMessage}
    (h : SessionInv cs n sent) : Fits { object := n, data := data } sent where
  session m hm he := absurd he (h.sent_lt m hm).ne
  above m hm he := absurd he (h.sent_lt m hm).ne
  first _ := rfl

theorem inv_new (h : r.Inv) : (r.new data).Inv where
  live_lt c hc := (h.live_lt c hc).trans (Nat.lt_succ_self _)
  sent_lt m hm := (h.sent_lt m hm).trans (Nat.lt_succ_self _)
  unique := h.unique
  fits := h.fits
  single := h.single
  positive := h.positive
  increasing := h.increasing

theorem inv_initTonConnection (h : r.Inv) : (r.initTonConnection data).Inv := by
  have hold : SessionInv (r.connections.eraseP fun c => c.data.manifest = data.manifest)
      (r.created + 1) r.sent := (@inv_new _ data h).subset fun c => List.mem_of_mem_eraseP
  have hne : ∀ c ∈ r.connections.eraseP (fun c => c.data.manifest = data.manifest),
      c.object ≠ r.created := fun c hc => (h.live_lt c (List.mem_of_mem_eraseP hc)).ne
  refine ⟨?_, hold.sent_lt, ?_, ?_, h.single, h.positive, h.increasing⟩
  · exact List.forall_mem_append.mpr ⟨hold.live_lt,
      List.forall_mem_singleton.mpr (Nat.lt_succ_self _)⟩
  · intro c hc c' hc' he
    obtain hc | hc := List.mem_append.mp hc <;> obtain hc' | hc' := List.mem_append.mp hc'
    · exact hold.unique c hc c' hc' he
    · obtain rfl := List.mem_singleton.mp hc'
      exact absurd he.symm (hne c hc)
    · obtain rfl := List.mem_singleton.mp hc
      exact absurd he (hne c' hc')
    · rw [List.mem_singleton.mp hc, List.mem_singleton.mp hc']
  · exact List.forall_mem_append.mpr ⟨hold.fits, List.forall_mem_singleton.mpr h.fits_new⟩

theorem inv_foldl (h : r.Inv) (read : List TonConnectConnectionData) :
    (read.foldl initTonConnection r).Inv := by
  induction read generalizing r with
  | nil => exact h
  | cons data read ih => exact ih (inv_initTonConnection h)

theorem ready_of_mem (h : r.Inv) (hc : c ∈ r.connections) : r.Ready c :=
  ⟨h.live_lt c hc, h.unique c hc, h.fits c hc⟩

theorem ready_new (h : r.Inv) : (r.new data).Ready { object := r.created, data := data } where
  lt := Nat.lt_succ_self _
  unique c hc he := absurd he (h.live_lt c hc).ne
  fits := h.fits_new

/-- A message of an object that alone has sent in its session keeps the invariant. -/
theorem inv_send (h : r.Inv) (hc : r.Ready c)
    (hone : ∀ m ∈ r.sent, m.session = c.session → m.object = c.object) : (r.send c).Inv := by
  have hmap : ∀ d ∈ (r.send c).connections,
      (d.object ≠ c.object ∧ d ∈ r.connections) ∨
        d = { c with clientLastEventId := c.clientLastEventId + 1 } := by
    intro d hd
    obtain ⟨d', hd', rfl⟩ := List.mem_map.mp hd
    by_cases he : d'.object = c.object
    · obtain rfl := hc.unique d' hd' he
      rw [if_pos rfl]
      exact .inr rfl
    · rw [if_neg he]
      exact .inl ⟨he, hd'⟩
  have hpos : 1 ≤ c.clientLastEventId := by
    by_cases hs : ∀ m ∈ r.sent, m.object ≠ c.object
    · rw [hc.fits.first hs]
    · push Not at hs
      obtain ⟨m, hm, he⟩ := hs
      exact (h.positive m hm).trans (hc.fits.above m hm he).le
  refine ⟨fun d hd => ?_, ?_, fun d hd d' hd' he => ?_, fun d hd => ?_, ?_, ?_, ?_⟩
  · obtain ⟨-, hd⟩ | rfl := hmap d hd
    · exact h.live_lt d hd
    · exact hc.lt
  · exact List.forall_mem_cons.mpr ⟨hc.lt, h.sent_lt⟩
  · obtain ⟨hne, hd⟩ | rfl := hmap d hd <;> obtain ⟨hne', hd'⟩ | rfl := hmap d' hd'
    · exact h.unique d hd d' hd' he
    · exact absurd he.symm hne
    · exact absurd he hne'
    · rfl
  · obtain ⟨hne, hd⟩ | rfl := hmap d hd
    · have hf := h.fits d hd
      refine ⟨?_, ?_, fun hs => hf.first fun m hm => hs m (List.mem_cons_of_mem _ hm)⟩
      · exact List.forall_mem_cons.mpr ⟨fun he => absurd he.symm hne, hf.session⟩
      · exact List.forall_mem_cons.mpr ⟨fun he => absurd he.symm hne, hf.above⟩
    · refine ⟨?_, ?_, fun hs => absurd rfl (hs _ List.mem_cons_self)⟩
      · exact List.forall_mem_cons.mpr ⟨fun _ => rfl, hc.fits.session⟩
      · refine List.forall_mem_cons.mpr ⟨fun _ => Int.lt_succ _, fun m hm he => ?_⟩
        exact (hc.fits.above m hm he).trans (Int.lt_succ _)
  · intro m hm m' hm' he
    obtain rfl | hm := List.mem_cons.mp hm <;> obtain rfl | hm' := List.mem_cons.mp hm'
    · rfl
    · exact (hone m' hm' he.symm).symm
    · exact hone m hm he
    · exact h.single m hm m' hm' he
  · exact List.forall_mem_cons.mpr ⟨hpos, h.positive⟩
  · refine List.pairwise_cons.mpr ⟨fun m hm he => ?_, h.increasing⟩
    exact hc.fits.above m hm (hone m hm he.symm)

/-- A message of another object than those before it has the id 1, which is not new. -/
theorem not_increasing_send (h : r.Inv) (hc : r.Ready c)
    (hone : ¬ ∀ m ∈ r.sent, m.session = c.session → m.object = c.object) :
    ¬ Increasing (r.send c).sent := by
  intro hinc
  push Not at hone
  obtain ⟨m, hm, hs, hne⟩ := hone
  have hfirst : c.clientLastEventId = 1 := by
    refine hc.fits.first fun m' hm' he => hne ?_
    rw [← he]
    exact h.single m hm m' hm' (hs.trans (hc.fits.session m' hm' he).symm)
  have hlt : m.id < c.clientLastEventId := (List.pairwise_cons.mp hinc).1 m hm hs.symm
  have hpos := h.positive m hm
  omega

/-- The same for a message that may turn out not to be encrypted. -/
theorem inv_sendRequest (h : r.Inv) (hc : r.Ready c)
    (hone : c.HasClientKey → ∀ m ∈ r.sent, m.session = c.session → m.object = c.object) :
    (r.sendRequest c).Inv := by
  rw [sendRequest]
  split
  · rename_i hkey
    exact inv_send h hc (hone hkey)
  · exact h

theorem not_increasing_sendRequest (h : r.Inv) (hc : r.Ready c)
    (hone : ¬ (c.HasClientKey → ∀ m ∈ r.sent, m.session = c.session → m.object = c.object)) :
    ¬ Increasing (r.sendRequest c).sent := by
  obtain ⟨hkey, hone⟩ := Classical.not_imp.mp hone
  rw [sendRequest, if_pos hkey]
  exact not_increasing_send h hc hone

/-! ## The steps -/

/-- A step makes and removes connections, and then one of them may send a message. -/
theorem step_effect (h : r.Inv) (hs : r.step a = some t) :
    r.sender a = none ∧ t.Inv ∨
    ∃ (c : Connection) (r' : Registry), r.sender a = some c ∧ r'.Inv ∧ r'.Ready c ∧
      r'.sent = r.sent ∧ (t.Inv ↔ (r'.sendRequest c).Inv) ∧ t.sent = (r'.sendRequest c).sent := by
  cases a with
  | approve data proved =>
    obtain rfl := Option.some.inj hs
    have hinit : (r.initTonConnection data).Inv := inv_initTonConnection h
    cases proved with
    | false => exact .inl ⟨rfl, hinit⟩
    | true =>
      let r' : Registry :=
        { (r.initTonConnection data).launch (.saveManifest data) with
          deleted := r.deleted.filter (· ≠ data.manifest) }
      refine .inr ⟨_, r', rfl, hinit, ready_of_mem hinit ?_, rfl, Iff.rfl, rfl⟩
      exact List.mem_append_right _ (List.mem_singleton_self _)
  | reject data =>
    obtain rfl := Option.some.inj hs
    exact .inr ⟨_, r.new data, rfl, inv_new h, ready_new h, rfl, Iff.rfl, rfl⟩
  | rejectTransfer data =>
    obtain rfl := Option.some.inj hs
    cases hf : r.getTonConnectionWithData data with
    | none =>
      refine .inl ⟨hf, ?_⟩
      rw [rejectTransfer, hf]
      exact h
    | some c =>
      refine .inr ⟨c, r, hf, h, ready_of_mem h (List.mem_of_find?_eq_some hf), rfl, ?_⟩
      rw [rejectTransfer, hf]
      exact ⟨Iff.rfl, rfl⟩
  | delete data =>
    obtain rfl := Option.some.inj hs
    exact .inl ⟨rfl, h⟩
  | saveLastEventId clientId lastEventId =>
    obtain rfl := Option.some.inj hs
    exact .inl ⟨rfl, h⟩
  | restart =>
    obtain rfl := Option.some.inj hs
    exact .inl ⟨rfl, h.subset fun _ hc => absurd hc List.not_mem_nil⟩
  | run i =>
    obtain ⟨j, hj, rfl⟩ := Option.map_eq_some_iff.mp hs
    rw [sender, hj]
    match j with
    | .saveManifest data => exact .inl ⟨rfl, h⟩
    | .init none => exact .inl ⟨rfl, h⟩
    | .init (some read) => exact .inl ⟨rfl, inv_foldl h read⟩
    | .delete data (.declined object) =>
      exact .inl ⟨rfl, h.subset fun c => List.mem_of_mem_eraseP⟩
    | .delete data .removed => exact .inl ⟨rfl, h⟩
    | .delete data .launched =>
      dsimp only [runJob, runDelete]
      split
      · rename_i c hf
        refine .inr ⟨c, r, hf, h, ready_of_mem h (List.mem_of_find?_eq_some hf), rfl, ?_⟩
        rw [sendRequest]
        split <;> exact ⟨Iff.rfl, rfl⟩
      · rename_i hf
        exact .inl ⟨hf, h⟩

/-- **Ids of a session.** Along a run the ids of the messages of every session increase if and
only if no session has messages of two objects. -/
theorem session_ids_increase_iff (as : List RegistryAction) :
    Machine.Always step (fun r => Increasing r.sent) {} as ↔
      Machine.Guarded step OneObject {} as := by
  refine Machine.always_iff_guarded (I := Inv) ?_ (fun _ h => h.increasing) ?_ ?_
  · intro r a t h hone hs
    obtain ⟨-, ht⟩ | ⟨c, r', hc, hinv, hready, hsent, ht, -⟩ := step_effect h hs
    · exact ht
    · rw [ht]
      exact inv_sendRequest hinv hready (hsent ▸ hone c hc)
  · intro r a t h hs hone hinc
    obtain ⟨hc, -⟩ | ⟨c, r', hc, hinv, hready, hsent, -, ht⟩ := step_effect h hs
    · refine hone fun c' hc' => ?_
      rw [hc] at hc'
      cases hc'
    · refine not_increasing_sendRequest hinv hready (fun hone' => hone fun c' hc' => ?_) (ht ▸ hinc)
      obtain rfl : c = c' := Option.some.inj (hc.symm.trans hc')
      exact hsent ▸ hone'
  · refine ⟨?_, ?_, ?_, ?_, ?_, ?_, List.Pairwise.nil⟩ <;>
      exact fun _ h => absurd h List.not_mem_nil

/-! ## A restart -/

/-- A connection is approved and stored, the process is started again, and a transfer is
declined: the reply has the id of the first message. -/
theorem ids_repeat_after_restart :
    ¬ Machine.Always step (fun r => Increasing r.sent) {}
      [.approve sampleConnection true, .run 0, .restart, .run 0, .run 0,
        .rejectTransfer sampleConnection] := by
  have hrun : (Machine.run step {} [.approve sampleConnection true, .run 0, .restart, .run 0,
      .run 0, .rejectTransfer sampleConnection]).any (fun r => ¬ Increasing r.sent) = true := by
    decide +kernel
  obtain ⟨r, hr, h⟩ := (Option.any_eq_true ..).mp hrun
  exact Machine.not_always_of_run hr (of_decide_eq_true h)

end Registry

end TonWallet.TonConnect
