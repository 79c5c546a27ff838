import TonWallet.Lib.History
import TonWallet.Lib.Machine
import TonWallet.Storage.Records

/-!
# The lock gate

`Navigation` asks `isWalletExists` twice: for the start destination of the outer
host, each time it is composed, and for that of the host inside MAIN, which
remembers the answer. `isWalletExists` says whether the collector of
`TonWalletClient` has run, not whether the storage holds a wallet. MAIN also
declares the deep link, which opens it without the start destination. Both hosts
save their back stacks: an activity whose process was stopped starts with the
outer one as it was, and with the lock that was opened long ago.

* `lock_gate_iff`: the exact condition, on what the first composition finds,
  for nothing to be shown before an authentication, whatever happens later.
* `main_without_lock`: the three ways around the lock.
-/

namespace TonWallet.Navigation

open Encoding Storage History

/-! ## Model -/

/-- The destinations of the outer host. -/
inductive Route where
  | PASSCODE
  | MAIN
deriving DecidableEq, Repr

/-- The destinations of the host inside MAIN: its start destinations, its own LockScreen, and the
others. -/
inductive Screen where
  | START_DESTINATION
  | WALLET_MAIN_DESTINATION
  | LOCK_DESTINATION
  | other
deriving DecidableEq, Repr

/-- An entry of the outer back stack. That of MAIN saves the back stack of the host inside it,
which is empty until the host is composed. -/
inductive Entry where
  | PASSCODE
  | MAIN (inner : List Screen)
deriving DecidableEq, Repr

/-- The entry of a start destination. -/
def Route.entry : Route → Entry
  | .PASSCODE => .PASSCODE
  | .MAIN => .MAIN []

/-- The intent of the launch: plain, or one that matches `ton://transfer/{wallet_address}`. -/
inductive Intent where
  | plain
  | deepLink
deriving DecidableEq, Repr

/-- What the controller of the outer host saved in `savedInstanceState`, when a former process was
stopped. -/
structure Saved where
  backStack : List Entry := []
  deepLinkHandled : Bool := false
deriving DecidableEq, Repr

inductive Event where
  | authenticated
  | shown (screen : Screen)
deriving DecidableEq, Repr

/-- A process and its activity. The back stacks have their tops first. -/
structure State where
  intent : Intent
  walletData : Option WalletData := none
  /-- The start destination of the graph that is set. -/
  graph : Option Route := none
  /-- The saved back stack, until a graph is set. -/
  backStackToRestore : List Entry := []
  deepLinkHandled : Bool := false
  backStack : List Entry := []
  history : List Event := []
deriving DecidableEq, Repr

inductive Action where
  /-- The collector in `init` gets what the storage holds. -/
  | collect
  /-- `Navigation` is composed, or recomposed. -/
  | compose
  /-- The content of MAIN is composed. -/
  | composeMain
  /-- The authentication on the LockScreen succeeds. -/
  | unlock
  /-- The authentication on the LockScreen inside MAIN succeeds. -/
  | unlockInside
  /-- A sheet over MAIN asks for the LockScreen. -/
  | navigatePasscode
  /-- A screen inside MAIN goes to another one, in place of the `popped` upper ones. -/
  | navigate (screen : Screen) (popped : ℕ)
  /-- The back button. -/
  | back
deriving DecidableEq, Repr

namespace State

/-- `init` (`TonWalletClient.kt` lines 101–107). -/
def collect (storage : Preferences) (s : State) : State :=
  match storage.getCurrentWallet with
  | some updatedWalletData => { s with walletData := some updatedWalletData }
  | none => s

/-- `isWalletExists` (`TonWalletClient.kt` lines 141–143). -/
def isWalletExists (s : State) : Bool := s.walletData.isSome

/-- The intent holds a deep link that no graph has handled yet. -/
abbrev Pending (s : State) : Prop := s.intent = .deepLink ∧ s.deepLinkHandled = false

/-- The back stack of a new graph: its start destination, and above it the destination of a
deep link. -/
def openGraph (s : State) (start : Route) : List Entry :=
  if s.Pending ∧ start ≠ .MAIN then [.MAIN [], start.entry] else [start.entry]

/-- The outer host (`Navigation.kt` lines 119–124). The first graph takes over the back stack that
was saved, if there is one, and leaves the deep link alone; a graph with another start destination
replaces the one that is set, and its back stack. -/
def compose (s : State) : State :=
  let start := if s.isWalletExists then Route.PASSCODE else Route.MAIN
  if s.graph = some start then s
  else if s.backStackToRestore = [] then
    { s with graph := some start, backStack := s.openGraph start, deepLinkHandled := true }
  else
    { s with graph := some start, backStack := s.backStackToRestore, backStackToRestore := [] }

/-- The host inside MAIN (`Navigation.kt` lines 211–217): its start destination, or the back stack
that it had. -/
def composeMain (s : State) : Option State :=
  match s.backStack with
  | .MAIN [] :: rest =>
    let start := if s.isWalletExists then Screen.WALLET_MAIN_DESTINATION else .START_DESTINATION
    some { s with backStack := .MAIN [start] :: rest, history := .shown start :: s.history }
  | .MAIN (screen :: _) :: _ => some { s with history := .shown screen :: s.history }
  | _ => none

/-- The success of the LockScreen goes to MAIN, in place of PASSCODE
(`Navigation.kt` lines 125–135). -/
def unlock (s : State) : Option State :=
  match s.backStack with
  | .PASSCODE :: rest =>
    some { s with backStack := .MAIN [] :: rest, history := .authenticated :: s.history }
  | _ => none

/-- The success of the LockScreen inside MAIN (`Navigation.kt` lines 352–384); where it goes is
left to the next step. -/
def unlockInside (s : State) : Option State :=
  match s.backStack with
  | .MAIN (.LOCK_DESTINATION :: _) :: _ =>
    some { s with history := .authenticated :: s.history }
  | _ => none

/-- `globalNavController.navigate("PASSCODE")`. -/
def navigatePasscode (s : State) : Option State :=
  match s.backStack with
  | .MAIN inner :: rest => some { s with backStack := .PASSCODE :: .MAIN inner :: rest }
  | _ => none

/-- `navController.navigate`, after a `popUpTo` that removes the `popped` upper entries. -/
def navigate (s : State) (screen : Screen) (popped : ℕ) : Option State :=
  match s.backStack with
  | .MAIN (top :: inner) :: rest =>
    some { s with backStack := .MAIN (screen :: (top :: inner).drop popped) :: rest }
  | _ => none

/-- Back to the screen below, inside MAIN or outside; from the last one it leaves the activity. -/
def back (s : State) : Option State :=
  match s.backStack with
  | .MAIN (_ :: screen :: inner) :: rest =>
    some { s with backStack := .MAIN (screen :: inner) :: rest }
  | _ :: entry :: rest => some { s with backStack := entry :: rest }
  | _ => none

end State

def step (storage : Preferences) (s : State) : Action → Option State
  | .collect => some (s.collect storage)
  | .compose => some s.compose
  | .composeMain => s.composeMain
  | .unlock => s.unlock
  | .unlockInside => s.unlockInside
  | .navigatePasscode => s.navigatePasscode
  | .navigate screen popped => s.navigate screen popped
  | .back => s.back

/-! ## The gate -/

/-- Neither the main screen nor the start screen is shown before an authentication. -/
def LockGate (s : State) : Prop :=
  Justified (fun e before => e = .shown .START_DESTINATION ∨ e = .shown .WALLET_MAIN_DESTINATION →
    Event.authenticated ∈ before) s.history

/-- Behind the gate: until an authentication only the LockScreen is on the back stack, and no
other graph can put MAIN on it. -/
structure Closed (s : State) : Prop where
  gate : LockGate s
  locked : Event.authenticated ∈ s.history ∨ ∀ entry ∈ s.backStack, entry = .PASSCODE
  restored : s.backStackToRestore = []
  graph : (s.graph = some .PASSCODE ∧ s.walletData.isSome = true) ∨
    (s.graph = some .MAIN ∧ ¬ s.Pending)

variable {storage : Preferences} {s t : State}

theorem Closed.collect (h : Closed s) : Closed (s.collect storage) := by
  unfold State.collect
  split
  · exact ⟨h.gate, h.locked, h.restored, h.graph.imp (fun hg => ⟨hg.1, rfl⟩) id⟩
  · exact h

theorem openGraph_of_not_pending (h : ¬ s.Pending) (start : Route) :
    s.openGraph start = [start.entry] :=
  if_neg fun hp => h hp.1

theorem Closed.compose (h : Closed s) : Closed s.compose := by
  rcases h.graph with ⟨hgraph, hdata⟩ | ⟨hgraph, hpending⟩
  · -- The graph of the LockScreen stays.
    have hsame : s.compose = s := by simp [State.compose, State.isWalletExists, hdata, hgraph]
    rw [hsame]
    exact h
  · cases hdata : s.walletData.isSome with
    | false =>
      have hsame : s.compose = s := by simp [State.compose, State.isWalletExists, hdata, hgraph]
      rw [hsame]
      exact h
    | true =>
      have hnew : s.compose = { s with graph := some .PASSCODE
                                       backStack := [.PASSCODE]
                                       deepLinkHandled := true } := by
        simp [State.compose, State.isWalletExists, hdata, hgraph, h.restored,
          openGraph_of_not_pending hpending, Route.entry]
      rw [hnew]
      exact ⟨h.gate, Or.inr fun entry he => List.mem_singleton.mp he, h.restored,
        Or.inl ⟨rfl, hdata⟩⟩

/-- MAIN is on the back stack only after an authentication. -/
theorem Closed.authenticated (h : Closed s) {inner : List Screen} {rest : List Entry}
    (hstack : s.backStack = .MAIN inner :: rest) : Event.authenticated ∈ s.history := by
  rcases h.locked with ha | hlocked
  · exact ha
  · cases hlocked (.MAIN inner) (by rw [hstack]; exact List.mem_cons_self ..)

theorem Closed.composeMain (h : Closed s) (hs : s.composeMain = some t) : Closed t := by
  unfold State.composeMain at hs
  split at hs
  · rename_i rest hstack
    cases hs
    have ha := h.authenticated hstack
    exact ⟨⟨fun _ => ha, h.gate⟩, Or.inl (List.mem_cons_of_mem _ ha), h.restored, h.graph⟩
  · rename_i screen inner rest hstack
    cases hs
    have ha := h.authenticated hstack
    exact ⟨⟨fun _ => ha, h.gate⟩, Or.inl (List.mem_cons_of_mem _ ha), h.restored, h.graph⟩
  · cases hs

theorem Closed.authenticate (h : Closed s) (stack : List Entry) :
    Closed { s with backStack := stack, history := .authenticated :: s.history } := by
  refine ⟨⟨?_, h.gate⟩, Or.inl (List.mem_cons_self ..), h.restored, h.graph⟩
  rintro (he | he) <;> cases he

theorem Closed.unlock (h : Closed s) (hs : s.unlock = some t) : Closed t := by
  unfold State.unlock at hs
  split at hs
  · cases hs
    exact h.authenticate _
  · cases hs

theorem Closed.unlockInside (h : Closed s) (hs : s.unlockInside = some t) : Closed t := by
  unfold State.unlockInside at hs
  split at hs
  · cases hs
    exact h.authenticate s.backStack
  · cases hs

/-- With MAIN on the top the back stack is free. -/
theorem Closed.moved (h : Closed s) {inner : List Screen} {rest : List Entry}
    (hstack : s.backStack = .MAIN inner :: rest) (stack : List Entry) :
    Closed { s with backStack := stack } :=
  ⟨h.gate, Or.inl (h.authenticated hstack), h.restored, h.graph⟩

theorem Closed.navigatePasscode (h : Closed s) (hs : s.navigatePasscode = some t) : Closed t := by
  unfold State.navigatePasscode at hs
  split at hs
  · rename_i inner rest hstack
    cases hs
    exact h.moved hstack _
  · cases hs

theorem Closed.navigate {screen : Screen} {popped : ℕ} (h : Closed s)
    (hs : s.navigate screen popped = some t) : Closed t := by
  unfold State.navigate at hs
  split at hs
  · rename_i top inner rest hstack
    cases hs
    exact h.moved hstack _
  · cases hs

theorem Closed.back (h : Closed s) (hs : s.back = some t) : Closed t := by
  unfold State.back at hs
  split at hs
  · rename_i top screen inner rest hstack
    cases hs
    exact h.moved hstack _
  · rename_i top entry rest _ hstack
    cases hs
    refine ⟨h.gate, h.locked.imp id fun hlocked e he => ?_, h.restored, h.graph⟩
    exact hlocked e (by rw [hstack]; exact List.mem_cons_of_mem _ he)
  · cases hs

/-- The gate stays closed. -/
theorem Closed.step {a : Action} (h : Closed s) (hs : step storage s a = some t) : Closed t := by
  cases a with
  | collect => cases hs; exact h.collect
  | compose => cases hs; exact h.compose
  | composeMain => exact h.composeMain hs
  | unlock => exact h.unlock hs
  | unlockInside => exact h.unlockInside hs
  | navigatePasscode => exact h.navigatePasscode hs
  | navigate screen popped => exact h.navigate hs
  | back => exact h.back hs

/-! ## Before the first composition -/

/-- The process starts. -/
def start (intent : Intent) (saved : Saved) : State where
  intent := intent
  backStackToRestore := saved.backStack
  deepLinkHandled := saved.deepLinkHandled

theorem collect_collect (s : State) : (s.collect storage).collect storage = s.collect storage := by
  unfold State.collect
  split <;> rfl

/-- Without a back stack only the collector runs, until `Navigation` is composed. -/
theorem eq_collect {a : Action} (hb : s.backStack = []) (ha : a ≠ .compose)
    (hs : step storage s a = some t) : a = .collect := by
  cases a with
  | collect => rfl
  | compose => exact absurd rfl ha
  | composeMain => simp [step, State.composeMain, hb] at hs
  | unlock => simp [step, State.unlock, hb] at hs
  | unlockInside => simp [step, State.unlockInside, hb] at hs
  | navigatePasscode => simp [step, State.navigatePasscode, hb] at hs
  | navigate screen popped => simp [step, State.navigate, hb] at hs
  | back => simp [step, State.back, hb] at hs

theorem collect_eq {data : WalletData} (hdata : storage.getCurrentWallet = some data) (s : State) :
    s.collect storage = { s with walletData := some data } := by
  simp [State.collect, hdata]

theorem collect_history (s : State) : (s.collect storage).history = s.history := by
  unfold State.collect
  split <;> rfl

theorem collect_backStack (s : State) : (s.collect storage).backStack = s.backStack := by
  unfold State.collect
  split <;> rfl

/-- The run before the first composition: some emissions of the storage, or none. -/
theorem run_before {pre : List Action} (hb : s.backStack = []) (hpre : Action.compose ∉ pre)
    (h : Machine.run (step storage) s pre = some t) :
    (pre = [] ∧ t = s) ∨ (Action.collect ∈ pre ∧ t = s.collect storage) := by
  induction pre generalizing s with
  | nil =>
    cases h
    exact Or.inl ⟨rfl, rfl⟩
  | cons a as ih =>
    obtain ⟨ha, has⟩ := not_or.mp (mt List.mem_cons.mpr hpre)
    obtain ⟨u, hu, h⟩ := Option.bind_eq_some_iff.mp h
    obtain rfl := eq_collect hb (Ne.symm ha) hu
    cases hu
    refine Or.inr ⟨List.mem_cons_self .., ?_⟩
    rcases ih (by rw [collect_backStack, hb]) has h with ⟨-, rfl⟩ | ⟨-, rfl⟩
    · rfl
    · exact collect_collect s

/-- Before the first composition nothing is shown. -/
theorem always_before {pre : List Action} (hb : s.backStack = []) (hh : s.history = [])
    (hpre : Action.compose ∉ pre) : Machine.Always (step storage) LockGate s pre := by
  refine Machine.always_iff.mpr fun bs cs t he ht => ?_
  have hbs : Action.compose ∉ bs := fun hm => hpre (he ▸ List.mem_append_left _ hm)
  have hnil : t.history = [] := by
    rcases run_before hb hbs ht with ⟨-, rfl⟩ | ⟨-, rfl⟩
    · exact hh
    · rw [collect_history, hh]
  unfold LockGate
  rw [hnil]
  exact justified_nil

/-! ## The condition -/

/-- What the first composition has to find. -/
structure LocksOut (intent : Intent) (saved : Saved) (pre : List Action) : Prop where
  /-- MAIN was not on the saved back stack. -/
  main : ∀ inner, Entry.MAIN inner ∉ saved.backStack
  /-- Without a saved back stack, the data is there. -/
  fresh : saved.backStack = [] → Action.collect ∈ pre
  /-- With a deep link that is not handled, there is a saved back stack, and the data is there. -/
  deepLink : intent = .deepLink → saved.deepLinkHandled = false →
    saved.backStack ≠ [] ∧ Action.collect ∈ pre

/-- The first composition closes the gate. -/
theorem LocksOut.closed {intent : Intent} {saved : Saved} {pre : List Action}
    (h : LocksOut intent saved pre) (hw : storage.getCurrentWallet.isSome = true)
    (hs : (pre = [] ∧ s = start intent saved) ∨
      (Action.collect ∈ pre ∧ s = (start intent saved).collect storage)) : Closed s.compose := by
  obtain ⟨data, hdata⟩ := Option.isSome_iff_exists.mp hw
  have hsaved : ∀ entry ∈ saved.backStack, entry = Entry.PASSCODE := by
    intro entry he
    cases entry with
    | PASSCODE => rfl
    | MAIN inner => exact absurd he (h.main inner)
  rcases hs with ⟨rfl, rfl⟩ | ⟨hc, rfl⟩
  · -- Nothing is known of the wallet, and the saved back stack is taken over.
    have hne : saved.backStack ≠ [] := fun hnil => by cases h.fresh hnil
    have hpending : ¬ (start intent saved).Pending := fun hp => by cases (h.deepLink hp.1 hp.2).2
    have hnew : (start intent saved).compose =
        { start intent saved with graph := some .MAIN
                                  backStack := saved.backStack
                                  backStackToRestore := [] } := by
      simp [State.compose, State.isWalletExists, start, hne]
    rw [hnew]
    exact ⟨justified_nil, Or.inr hsaved, rfl, Or.inr ⟨rfl, hpending⟩⟩
  · rw [collect_eq hdata]
    by_cases hnil : saved.backStack = []
    · have hpending : ¬ ({ start intent saved with walletData := some data } : State).Pending :=
        fun hp => (h.deepLink hp.1 hp.2).1 hnil
      have hnew : ({ start intent saved with walletData := some data } : State).compose =
          { start intent saved with walletData := some data
                                    graph := some .PASSCODE
                                    backStack := [.PASSCODE]
                                    deepLinkHandled := true } := by
        simp only [State.compose, State.isWalletExists, openGraph_of_not_pending hpending]
        simp [start, hnil, Route.entry]
      rw [hnew]
      exact ⟨justified_nil, Or.inr fun entry he => List.mem_singleton.mp he, hnil,
        Or.inl ⟨rfl, rfl⟩⟩
    · have hnew : ({ start intent saved with walletData := some data } : State).compose =
          { start intent saved with walletData := some data
                                    graph := some .PASSCODE
                                    backStack := saved.backStack
                                    backStackToRestore := [] } := by
        simp [State.compose, State.isWalletExists, start, hnil]
      rw [hnew]
      exact ⟨justified_nil, Or.inr hsaved, rfl, Or.inl ⟨rfl, rfl⟩⟩

/-! ## The ways around the lock -/

/-- MAIN on the top shows one of the two screens, though nobody has authenticated: at once, or
after its screens have gone on. -/
theorem exists_shown {inner : List Screen} {rest : List Entry}
    (hmain : s.backStack = .MAIN inner :: rest) (hh : Event.authenticated ∉ s.history) :
    ∃ as t, Machine.run (step storage) s as = some t ∧ ¬ LockGate t := by
  cases inner with
  | nil =>
    refine ⟨[.composeMain], _, by simp [Machine.run, step, State.composeMain, hmain]; rfl, ?_⟩
    refine fun hgate => hh (hgate.1 ?_)
    cases s.isWalletExists <;> simp
  | cons screen inner =>
    refine ⟨[.navigate .WALLET_MAIN_DESTINATION 0, .composeMain], _,
      by simp [Machine.run, step, State.composeMain, State.navigate, hmain]; rfl, ?_⟩
    exact fun hgate => hh (hgate.1 (Or.inr rfl))

/-- The back button uncovers MAIN. -/
theorem exists_shown_below {inner : List Screen} {stack : List Entry}
    (hstack : s.backStack = stack) (hmain : .MAIN inner ∈ stack)
    (hh : Event.authenticated ∉ s.history) :
    ∃ as t, Machine.run (step storage) s as = some t ∧ ¬ LockGate t := by
  induction stack generalizing s with
  | nil => cases hmain
  | cons entry rest ih =>
    cases entry with
    | MAIN inner' => exact exists_shown hstack hh
    | PASSCODE =>
      have hrest : .MAIN inner ∈ rest := (List.mem_cons.mp hmain).resolve_left (by simp)
      cases rest with
      | nil => cases hrest
      | cons next rest =>
        obtain ⟨as, t, ht, hgate⟩ := ih (s := { s with backStack := next :: rest }) rfl hrest hh
        refine ⟨.back :: as, t, ?_, hgate⟩
        rw [Machine.run_cons, show step storage s .back = some { s with backStack := next :: rest }
          by simp [step, State.back, hstack]]
        exact ht

/-- A new graph puts MAIN on the top for a deep link, and when nothing is known of the wallet. -/
theorem compose_opens_main (hr : s.backStackToRestore = [])
    (hg : s.graph = none ∨ s.graph = some .MAIN ∧ s.isWalletExists = true)
    (h : s.Pending ∨ s.isWalletExists = false) :
    (∃ rest, s.compose.backStack = .MAIN [] :: rest) ∧ s.compose.history = s.history := by
  have hne : s.graph ≠ some (if s.isWalletExists then Route.PASSCODE else Route.MAIN) := by
    rcases hg with hg | ⟨hg, hw⟩
    · rw [hg]
      simp
    · rw [hg, hw]
      simp
  unfold State.compose
  dsimp only
  rw [if_neg hne, if_pos hr]
  refine ⟨?_, rfl⟩
  dsimp only [State.openGraph]
  cases hw : s.isWalletExists with
  | false => exact ⟨[], if_neg fun hp => hp.2 rfl⟩
  | true =>
    have hp : s.Pending := h.resolve_right (by simp [hw])
    exact ⟨[.PASSCODE], if_pos ⟨hp, by simp⟩⟩

/-- The first graph takes over a saved back stack. -/
theorem compose_restores {saved : Saved} (hne : saved.backStack ≠ [])
    (hs : s.graph = none) (hr : s.backStackToRestore = saved.backStack) :
    s.compose.backStack = saved.backStack ∧ s.compose.backStackToRestore = [] ∧
      s.compose.history = s.history ∧ s.compose.intent = s.intent ∧
      s.compose.deepLinkHandled = s.deepLinkHandled := by
  unfold State.compose
  dsimp only
  rw [if_neg (by rw [hs]; simp), if_neg (by rw [hr]; exact hne)]
  exact ⟨hr, rfl, rfl, rfl, rfl⟩

/-- What the first composition finds. -/
theorem found_before {intent : Intent} {saved : Saved} {pre : List Action}
    (hw : storage.getCurrentWallet.isSome = true)
    (hs : (pre = [] ∧ s = start intent saved) ∨
      (Action.collect ∈ pre ∧ s = (start intent saved).collect storage)) :
    s.graph = none ∧ s.backStackToRestore = saved.backStack ∧ s.history = [] ∧
      (intent = .deepLink → saved.deepLinkHandled = false → s.Pending) ∧
      (Action.collect ∉ pre → s.isWalletExists = false) := by
  obtain ⟨data, hdata⟩ := Option.isSome_iff_exists.mp hw
  rcases hs with ⟨rfl, rfl⟩ | ⟨hc, rfl⟩
  · exact ⟨rfl, rfl, rfl, fun hi hd => ⟨hi, hd⟩, fun _ => rfl⟩
  · rw [collect_eq hdata]
    exact ⟨rfl, rfl, rfl, fun hi hd => ⟨hi, hd⟩, fun hn => absurd hc hn⟩

/-- Where the condition fails, something is shown: at once, or after the data has arrived. -/
theorem exists_shown_of_not_locksOut {intent : Intent} {saved : Saved} {pre : List Action}
    (h : ¬ LocksOut intent saved pre) (hw : storage.getCurrentWallet.isSome = true)
    (hs : (pre = [] ∧ s = start intent saved) ∨
      (Action.collect ∈ pre ∧ s = (start intent saved).collect storage)) :
    ∃ as t, Machine.run (step storage) s.compose as = some t ∧ ¬ LockGate t := by
  obtain ⟨data, hdata⟩ := Option.isSome_iff_exists.mp hw
  obtain ⟨hgraph, hrestore, hhistory, hpending, hunknown⟩ := found_before hw hs
  by_cases hnil : saved.backStack = []
  · -- A new graph, for a deep link or without the data.
    have hopen : s.Pending ∨ s.isWalletExists = false := by
      by_contra hn
      obtain ⟨hp, hex⟩ := not_or.mp hn
      refine h ⟨fun inner => by simp [hnil], fun _ => ?_, fun hi hd => absurd (hpending hi hd) hp⟩
      by_contra hc
      exact hex (hunknown hc)
    obtain ⟨⟨rest, hmain⟩, hh⟩ := compose_opens_main (hrestore.trans hnil) (Or.inl hgraph) hopen
    exact exists_shown hmain (by simp [hh, hhistory])
  · obtain ⟨hstack, hr, hh, hintent, hhandled⟩ := compose_restores hnil hgraph hrestore
    by_cases hmain : ∃ inner, Entry.MAIN inner ∈ saved.backStack
    · obtain ⟨inner, hmain⟩ := hmain
      exact exists_shown_below hstack hmain (by simp [hh, hhistory])
    · -- Only the LockScreen was saved; the deep link waits for the graph of the wallet.
      have hlate : (intent = .deepLink ∧ saved.deepLinkHandled = false) ∧ Action.collect ∉ pre := by
        by_contra hn
        refine h ⟨fun inner hm => hmain ⟨inner, hm⟩, fun hn => absurd hn hnil, fun hi hd => ?_⟩
        exact ⟨hnil, by_contra fun hc => hn ⟨⟨hi, hd⟩, hc⟩⟩
      obtain ⟨⟨hi, hd⟩, hc⟩ := hlate
      have hex := hunknown hc
      have hg : s.compose.graph = some .MAIN := by
        simp [State.compose, hex, hgraph, hrestore, hnil]
      have hp : (s.compose.collect storage).Pending := by
        rw [collect_eq hdata]
        exact ⟨hintent.trans (hpending hi hd).1, hhandled.trans (hpending hi hd).2⟩
      obtain ⟨⟨rest, hmain'⟩, hh'⟩ := compose_opens_main (s := s.compose.collect storage)
        (by rw [collect_eq hdata]; exact hr)
        (Or.inr (by rw [collect_eq hdata]; exact ⟨hg, rfl⟩)) (Or.inl hp)
      have hshown : ∃ as t, Machine.run (step storage) (s.compose.collect storage).compose as =
          some t ∧ ¬ LockGate t :=
        exists_shown hmain' (by simp [hh', collect_history, hh, hhistory])
      obtain ⟨as, t, ht, hgate⟩ := hshown
      exact ⟨.collect :: .compose :: as, t, ht, hgate⟩

/-- A storage with a wallet of the default version. -/
def sampleStorage : Preferences where
  wallets version :=
    if version = .V3R2 then
      some { address := text "EQ", walletVersion := .V3R2, lastTransactionId := {}, balance := 0 }
    else none

/-- **The lock gate depends on a race, on the intent and on what was saved.** Let the storage hold
the data of the current wallet, and let `pre` be what runs before the first composition of
`Navigation`. The main screen and the start screen stay behind the lock, whatever follows, if and
only if MAIN was not on a saved back stack, the data is there or a back stack was saved, and a deep
link finds both. -/
theorem lock_gate_iff (hw : storage.getCurrentWallet.isSome = true) (intent : Intent)
    (saved : Saved) {pre : List Action} (hpre : Action.compose ∉ pre)
    (hrun : Machine.run (step storage) (start intent saved) pre = some s) :
    (∀ as, Machine.Always (step storage) LockGate (start intent saved) (pre ++ .compose :: as)) ↔
      LocksOut intent saved pre := by
  have hs := run_before rfl hpre hrun
  constructor
  · intro h
    by_contra hn
    obtain ⟨as, t, ht, hgate⟩ := exists_shown_of_not_locksOut hn hw hs
    refine Machine.not_always_of_run ?_ hgate (h as)
    rw [Machine.run_append, hrun]
    exact ht
  · intro h as
    refine (always_before rfl rfl hpre).append fun t ht => ?_
    obtain rfl := Option.some.inj (hrun.symm.trans ht)
    refine ⟨(always_before rfl rfl hpre).of_run hrun, fun t ht => ?_⟩
    cases ht
    exact Machine.always_of_inv (fun _ _ _ hI hs => Closed.step hI hs) (fun _ hI => hI.gate)
      (h.closed hw hs) _

/-- With the data collected before the first composition, and only the LockScreen saved, a start
stays locked. -/
theorem lock_gate_iff_collected :
    Machine.Always (step sampleStorage) LockGate
      (start .deepLink { backStack := [.PASSCODE] })
      [.collect, .compose, .unlock, .composeMain] := by
  have hrun : Machine.run (step sampleStorage) (start .deepLink { backStack := [.PASSCODE] })
      [.collect] = some ((start .deepLink { backStack := [.PASSCODE] }).collect sampleStorage) :=
    rfl
  exact (lock_gate_iff rfl .deepLink { backStack := [.PASSCODE] } (by decide) hrun).mpr
    ⟨by simp, by simp, by simp⟩ [.unlock, .composeMain]

/-- **Three ways around the lock**: a deep link opens MAIN, a plain start opens it when the first
composition is faster than the storage, and a start on the back stack of a stopped process shows
the main screen that it left. -/
theorem main_without_lock :
    ¬ Machine.Always (step sampleStorage) LockGate (start .deepLink {})
        [.collect, .compose, .composeMain] ∧
      ¬ Machine.Always (step sampleStorage) LockGate (start .plain {})
        [.compose, .composeMain] ∧
      ¬ Machine.Always (step sampleStorage) LockGate
        (start .plain { backStack := [.MAIN [.WALLET_MAIN_DESTINATION]] })
        [.collect, .compose, .composeMain] := by
  refine ⟨?_, ?_, ?_⟩ <;> refine Machine.not_always_of_run (t := _) rfl ?_
  · exact fun hgate => by cases hgate.1 (by decide)
  · exact fun hgate => by cases hgate.1 (by decide)
  · exact fun hgate => by cases hgate.1 (by decide)

end TonWallet.Navigation
