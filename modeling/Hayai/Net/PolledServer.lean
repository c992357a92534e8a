import Hayai.Machine.Run
import Hayai.Net.Interest
import Hayai.Net.ServerMembers
import Hayai.Net.ServerPass
import Hayai.Net.ServerStop

/-! # A server with its pollers

The server of `net/TcpServer.cc` together with what its members leave in the pollers: the
entries of `channels_`, which find a channel by its descriptor, and the filters that the
kernel has for each connection. A connection is released when its last owner lets go of it,
which a user may delay; its descriptor can be given out again after that.
-/

namespace Hayai

variable {τ υ : Type}

def Task.holds (c : Nat) : Task τ υ → Bool
  | .conn d .connectEstablished | .conn d .connectDestroyed | .removeConnectionInLoop d => d == c
  | _ => false

/-- The server owns connection `c`: by its registry, by the vector of `stop()`, or by a
functor on the base loop or on the connection's own, where all those functors are. -/
def Server.owned (s : Server τ υ) (c : Nat) : Bool :=
  s.connections.any (·.2 == c) || s.stopping.contains c ||
    [0, (s.conns c).loop].any fun l =>
      (s.loops l).loop.queued.any (Task.holds c) ||
        (s.inFlight (.loop l)).any (·.task.holds c)

/-- `channels` has the entries of each loop's poller, with `none` for the acceptor's
channel; `kernel` has the filters registered for a connection's descriptor. -/
structure PolledServer (τ υ : Type) where
  server : Server τ υ
  channels : Nat → Nat → Option (Option Nat)
  kernel : Nat → Interest
  released : Nat → Bool

inductive PolledInput (τ υ : Type) where
  | server (i : ServerInput τ υ)
  | release (c : Nat)

namespace PolledServer

/-! ## Pollers -/

def setEntry (s : PolledServer τ υ) (l fd : Nat) (k : Option (Option Nat)) : PolledServer τ υ :=
  { s with channels := Function.update s.channels l (Function.update (s.channels l) fd k) }

def updateChannel (s : PolledServer τ υ) (c : Nat) (channel : Channel) : PolledServer τ υ :=
  { s.setEntry (s.server.conns c).loop channel.fd (some (some c)) with
    kernel := Function.update s.kernel c ((s.kernel c).kevent (Poller.updates channel)) }

def removeChannel (s : PolledServer τ υ) (c : Nat) (channel : Channel) : PolledServer τ υ :=
  { s.setEntry (s.server.conns c).loop channel.fd none with
    kernel := Function.update s.kernel c ((s.kernel c).kevent Poller.removals) }

/-- What a member of connection `c` does to its poller. A member updates its channel once
at most, and before it removes it. -/
def ran (s : PolledServer τ υ) (c : Nat) (op : Op (Thread τ)) : PolledServer τ υ :=
  let p := op.run (s.server.conns c).conn
  let t := if p.2.contains .updateChannel then s.updateChannel c p.1.channel else s
  if p.2.contains .removeChannel then t.removeChannel c p.1.channel else t

def dropAcceptor (s : PolledServer τ υ) : PolledServer τ υ :=
  match s.server.acceptor with
  | some a => s.setEntry 0 a.fd none
  | none => s

variable [DecidableEq τ]

def polled (s : PolledServer τ υ) (i : ServerInput τ υ) : PolledServer τ υ :=
  let t := match s.server.member i with
    | some (c, op) => s.ran c op
    | none => s
  if s.server.runsStop i then t.dropAcceptor else t

/-! ## Steps -/

omit [DecidableEq τ] in
def Unused (s : PolledServer τ υ) (fd : Nat) : Prop :=
  (∀ c < s.server.accepted, s.released c = false → (s.server.conns c).conn.channel.fd ≠ fd) ∧
    s.server.acceptor.all (·.fd ≠ fd) = true

omit [DecidableEq τ] in
instance (s : PolledServer τ υ) (fd : Nat) : Decidable (s.Unused fd) :=
  inferInstanceAs (Decidable (_ ∧ _))

omit [DecidableEq τ] in
/-- A user calls a connection that it has. The kernel promises that an event is for a filter
that it has, and that an accepted connection gets a descriptor that is not in use.
`nextConnId_` is an `int`, whose overflow is not defined; the run ends before it. -/
def Possible (s : PolledServer τ υ) (i : ServerInput τ υ) : Prop :=
  match i with
  | .call _ c _ => s.released c = false
  | .poll _ events => ∀ e ∈ events, e.udata.all (s.kernel · e.filter) = true
  | _ => (s.server.accepts i).isSome = true → s.server.accepted < 2 ^ 31 - 1 ∧
      ∀ sockfd ∈ s.server.accepts i, s.Unused sockfd

omit [DecidableEq τ] in
instance (s : PolledServer τ υ) (i : ServerInput τ υ) : Decidable (s.Possible i) := by
  unfold Possible
  split <;> infer_instance

/-- A connection is released once nothing of the server owns it and no user does; its
socket is closed with it, and the kernel forgets its filters. -/
def step (s : PolledServer τ υ) : PolledInput τ υ → Option (PolledServer τ υ)
  | .server i =>
      if s.Possible i then (s.server.step i).map fun t => { s.polled i with server := t }
      else none
  | .release c =>
      if c < s.server.accepted ∧ s.released c = false ∧ s.server.owned c = false then
        some { s with
          kernel := Function.update s.kernel c .empty
          released := Function.update s.released c true }
      else none

def machine (τ υ : Type) [DecidableEq τ] : Machine (PolledServer τ υ) (PolledInput τ υ) := ⟨step⟩

omit [DecidableEq τ] in
def start (name : String) (numThreads : Nat) (connectionCallback messageCallback : Bool) :
    PolledServer τ υ where
  server := .start name numThreads connectionCallback messageCallback
  channels := fun l fd => if l = 0 ∧ fd = 0 then some none else none
  kernel := fun _ => .empty
  released := fun _ => false

end PolledServer

/-! ## Connections and their filters -/

/-- An open connection is read from, and the kernel has what its channel asks for; for one
that is not open the kernel has nothing, whatever its channel asks for later. -/
structure Watches (c : TcpConnection (List UInt8)) (k : Interest) : Prop where
  index : c.channel.index = -1
  opened : c.state.isOpen = true → c.channel.isReading = true ∧ k = c.channel.asksFor
  closed : c.state.isOpen = false → c.channel.isReading = false ∧ k = .empty

structure Tended (c : TcpConnection (List UInt8)) (k : Interest)
    (p : TcpConnection (List UInt8) × List Effect) : Prop where
  fd : p.1.channel.fd = c.channel.fd
  removes : p.2.contains .removeChannel = false
  entered : c.state = .connecting → p.1.state = .connecting ∨ p.2.contains .updateChannel = true
  watches : Watches p.1
    (if p.2.contains .updateChannel then k.kevent (Poller.updates p.1.channel) else k)

namespace Watches

variable {c : TcpConnection (List UInt8)} {k : Interest}

theorem congr {d : TcpConnection (List UInt8)} (h : Watches c k)
    (hevents : d.channel.events = c.channel.events) (hindex : d.channel.index = c.channel.index)
    (hopen : d.state.isOpen = c.state.isOpen) : Watches d k := by
  have hreading : d.channel.isReading = c.channel.isReading := by
    rw [Channel.isReading_eq, Channel.isReading_eq, hevents]
  have hwriting : d.channel.isWriting = c.channel.isWriting := by
    rw [Channel.isWriting_eq, Channel.isWriting_eq, hevents]
  have hasks : d.channel.asksFor = c.channel.asksFor := by
    funext f
    cases f with
    | read => exact hreading
    | write => exact hwriting
  constructor
  · rw [hindex, h.index]
  · rw [hopen, hreading, hasks]
    exact h.opened
  · rw [hopen, hreading]
    exact h.closed

theorem update {d : TcpConnection (List UInt8)} (h : Watches c k)
    (hreading : d.channel.isReading = c.channel.isReading)
    (hindex : d.channel.index = c.channel.index) (hopen : d.state.isOpen = c.state.isOpen) :
    Watches d (k.kevent (Poller.updates d.channel)) := by
  constructor
  · rw [hindex, h.index]
  · intro hopened
    rw [hopen] at hopened
    have hread := (h.opened hopened).1
    rw [Interest.kevent_updates, hreading, hread]
    exact ⟨rfl, rfl⟩
  · intro hclosed
    rw [hopen] at hclosed
    rcases h.closed hclosed with ⟨hread, rfl⟩
    rw [Interest.kevent_updates, hreading, hread]
    exact ⟨rfl, rfl⟩

/-- Closing turns the channel off, and the kernel follows. -/
theorem handleClose (h : Watches c k) {d : TcpConnection (List UInt8)}
    (hchannel : d.channel = c.channel) : Tended c k d.handleClose := by
  have hasks : d.handleClose.1.channel.asksFor = .empty := Channel.asksFor_of_events_eq_zero rfl
  have hread : d.handleClose.1.channel.isReading = false := d.channel.isReading_disableAll
  have hnotify : ∀ e : TcpConnection (List UInt8), e.notify.contains .removeChannel = false := by
    intro e
    unfold TcpConnection.notify
    split <;> rfl
  refine ⟨by rw [← hchannel]; rfl, ?_, fun _ => .inr rfl, ?_⟩
  · simp only [TcpConnection.handleClose, List.contains_eq_any_beq, List.any_append,
      List.any_cons, List.any_nil]
    rw [← List.contains_eq_any_beq, hnotify]
    rfl
  · have hupdate : d.handleClose.2.contains .updateChannel = true := rfl
    rw [hupdate, if_pos rfl, Interest.kevent_updates, hread, hasks]
    refine ⟨?_, by rintro ⟨⟩, fun _ => ⟨hread, ?_⟩⟩
    · rw [← h.index, ← hchannel]
      rfl
    · cases hopen : c.state.isOpen with
      | true =>
          rw [(h.opened hopen).2]
          split <;> rename_i hk
          · rfl
          · have := (h.opened hopen).1
            exact absurd (by simpa [Channel.asksFor] using this) hk
      | false =>
          rw [(h.closed hopen).2]
          rfl

theorem tended_same (h : Watches c k) {d : TcpConnection (List UInt8)} {effects : List Effect}
    (hchannel : d.channel.fd = c.channel.fd ∧ d.channel.events = c.channel.events ∧
      d.channel.index = c.channel.index) (hopen : d.state.isOpen = c.state.isOpen)
    (hstate : c.state = .connecting → d.state = .connecting)
    (hremoves : effects.contains .removeChannel = false)
    (hupdates : effects.contains .updateChannel = false) : Tended c k (d, effects) := by
  refine ⟨hchannel.1, hremoves, fun hconnecting => .inl (hstate hconnecting), ?_⟩
  rw [hupdates]
  exact h.congr hchannel.2.1 hchannel.2.2 hopen

theorem tended_update (h : Watches c k) {d : TcpConnection (List UInt8)} {effects : List Effect}
    (hfd : d.channel.fd = c.channel.fd) (hreading : d.channel.isReading = c.channel.isReading)
    (hindex : d.channel.index = c.channel.index) (hstate : d.state = c.state)
    (hremoves : effects.contains .removeChannel = false)
    (hupdates : effects.contains .updateChannel = true) : Tended c k (d, effects) := by
  refine ⟨hfd, hremoves, fun _ => .inr hupdates, ?_⟩
  rw [hupdates]
  exact h.update hreading hindex (by rw [hstate])

theorem connectEstablished (h : Watches c k) (hstate : c.state = .connecting) :
    Tended c k c.connectEstablished := by
  have hread : c.channel.tie.enableReading.isReading = true :=
    Channel.isReading_enableReading _
  have hrun : c.connectEstablished =
      ({ c with state := .connected, channel := c.channel.tie.enableReading },
        [.updateChannel] ++ ({ c with
          state := .connected, channel := c.channel.tie.enableReading }).notify) := by
    simp [TcpConnection.connectEstablished, hstate]
  rw [hrun]
  refine ⟨rfl, ?_, fun _ => .inr rfl, ?_⟩
  · unfold TcpConnection.notify
    split <;> rfl
  · have hupdate : ([.updateChannel] ++ ({ c with
        state := .connected, channel := c.channel.tie.enableReading }).notify).contains
        Effect.updateChannel = true := rfl
    rw [hupdate, if_pos rfl, Interest.kevent_updates, hread]
    exact ⟨h.index, fun _ => ⟨hread, rfl⟩, by rintro ⟨⟩⟩

theorem connectDestroyed (h : Watches c k) (hstate : c.state = .disconnected) :
    Tended c k c.connectDestroyed := by
  have hrun : c.connectDestroyed = (c, []) := by
    have hindex : ¬(0 : Int) ≤ c.channel.index := by
      rw [h.index]
      decide
    simp only [TcpConnection.connectDestroyed, hstate, reduceCtorEq, if_false, hindex]
    rw [← hstate]
    rfl
  rw [hrun]
  exact h.tended_same ⟨rfl, rfl, rfl⟩ rfl (fun hbad => hbad) rfl rfl

end Watches

/-- Every member keeps an open connection watched and a closed one unwatched. -/
theorem Op.tended {τ : Type} {c : TcpConnection (List UInt8)} {k : Interest} {op : Op τ}
    (h : Watches c k) (hfits : op.Fits c) (hallowed : op.Allowed c.state) :
    Tended c k (op.run c) := by
  have hnone : ∀ effects : List Effect, effects.contains .removeChannel = false →
      effects.contains .updateChannel = false → Tended c k (c, effects) :=
    fun effects => h.tended_same ⟨rfl, rfl, rfl⟩ rfl fun hbad => hbad
  cases op with
  | idle => exact hnone _ rfl rfl
  | setRevents revt => exact h.tended_same ⟨rfl, rfl, rfl⟩ rfl (fun hbad => hbad) rfl rfl
  | sendInLoop m w =>
      apply TcpConnection.sendInLoop_cases (P := Tended c k) hfits
      · exact fun _ _ => hnone _ rfl rfl
      · intro _ _ _
        exact h.tended_update rfl (Channel.isReading_enableWriting _) rfl rfl rfl rfl
      · exact fun _ _ => hnone _ rfl rfl
      · intro _ _
        cases c.channel.isWriting with
        | true => exact h.tended_same ⟨rfl, rfl, rfl⟩ rfl (fun hbad => hbad) rfl rfl
        | false => exact h.tended_update rfl (Channel.isReading_enableWriting _) rfl rfl rfl rfl
  | handleWrite w =>
      apply TcpConnection.handleWrite_cases (P := Tended c k) hfits
      · exact fun _ => hnone _ rfl rfl
      · exact fun _ _ => hnone _ rfl rfl
      · exact fun _ _ _ => h.tended_same ⟨rfl, rfl, rfl⟩ rfl (fun hbad => hbad) rfl rfl
      · intro _ _ _
        apply h.tended_update (d := { c with
          outputBuffer := [], channel := c.channel.disableWriting }) rfl
          (Channel.isReading_disableWriting _) rfl rfl
        · split <;> rfl
        · split <;> rfl
  | handleRead r retrieved =>
      show Tended c k (c.handleRead (fun input r => input ++ r.data)
        (fun input => input.drop retrieved) r)
      apply TcpConnection.handleRead_cases
      · exact fun _ => h.handleClose rfl
      · intro data _ _ inputBuffer
        apply h.tended_same (d := { c with inputBuffer }) ⟨rfl, rfl, rfl⟩ rfl (fun hbad => hbad)
        · split <;> rfl
        · split <;> rfl
      · exact fun _ _ => h.tended_same ⟨rfl, rfl, rfl⟩ rfl (fun hbad => hbad) rfl rfl
  | handleError => exact hnone _ rfl rfl
  | shutdownInLoop =>
      simp only [run, TcpConnection.shutdownInLoop]
      split <;> exact hnone _ rfl rfl
  | shutdown | shutdownNow =>
      have hstate : c.shutdown.state.isOpen = c.state.isOpen := by
        unfold TcpConnection.shutdown
        split
        · next hconnected => simp [hconnected, ConnState.isOpen]
        · rfl
      have hchannel : c.shutdown.channel = c.channel := by
        unfold TcpConnection.shutdown
        split <;> rfl
      have hconnecting : c.state = .connecting → c.shutdown.state = .connecting := by
        intro hconnecting
        simp [TcpConnection.shutdown, hconnecting]
      simp only [run, TcpConnection.shutdownInLoop]
      apply h.tended_same ⟨by rw [hchannel], by rw [hchannel], by rw [hchannel]⟩ hstate hconnecting
      all_goals first | rfl | (split <;> rfl)
  | forceClose =>
      have hstate : c.forceClose.state.isOpen = c.state.isOpen := by
        by_cases hclosable : c.closable = true
        · have hopen : c.state.isOpen = true := by
            revert hclosable
            unfold TcpConnection.closable
            cases c.state <;> decide
          rw [hopen]
          simp [TcpConnection.forceClose, hclosable, ConnState.isOpen]
        · simp [TcpConnection.forceClose, hclosable]
      have hchannel : c.forceClose.channel = c.channel := by
        unfold TcpConnection.forceClose
        split <;> rfl
      have hconnecting : c.state = .connecting → c.forceClose.state = .connecting := by
        intro hconnecting
        simp [TcpConnection.forceClose, TcpConnection.closable, hconnecting]
      exact h.tended_same ⟨by rw [hchannel], by rw [hchannel], by rw [hchannel]⟩ hstate
        hconnecting rfl rfl
  | forceCloseNow =>
      apply h.handleClose
      unfold TcpConnection.forceClose
      split <;> rfl
  | handleClose => exact h.handleClose rfl
  | connectEstablished => exact h.connectEstablished hallowed
  | connectDestroyed => exact h.connectDestroyed hallowed

end Hayai
