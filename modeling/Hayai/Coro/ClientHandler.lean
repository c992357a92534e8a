import Hayai.Coro.AwaitedSend
import Hayai.Coro.HeldRecv

/-! # The handler of the coroutine echo server

`handleClient` of `examples/coro_echo_server.cc`. While its connection is connected it awaits
`recv()`, stops when that returns nothing, and otherwise awaits a `send()` of what it got.
Nobody else sends on the connection. Any thread may run the handler, at any time.
-/

namespace Hayai

/-! ## The model -/

/-- Where `handleClient` is: at the head of its loop, between `await_ready()` of a `recv()`
and what follows it, in one of its awaits, or with a buffer that it has received. -/
inductive HandlerPhase where
  | testing
  | checked (n : Nat)
  | suspended (n : Nat)
  | holding (buf : List UInt8)
  | sending (id : Nat)
  | ended
  deriving DecidableEq, Repr

structure ClientHandler (τ υ : Type) where
  conn : AsyncEndpoint τ υ
  phase : HandlerPhase

inductive HandlerInput (τ υ : Type) where
  | run (i : Input τ υ)
  | go (caller : Caller τ) (w : WriteResult)

def Input.sends {τ υ : Type} : Input τ υ → Bool
  | .call _ (.send _) _ => true
  | _ => false

def AsyncEndpoint.result {τ υ : Type} (s : AsyncEndpoint τ υ) (n : Nat) : List UInt8 :=
  (s.received.lookup n).getD []

def HandlerPhase.wake {τ υ : Type} (p : HandlerPhase) (c : AsyncEndpoint τ υ) :
    Option Suspension → HandlerPhase
  | none => p
  | some h =>
      match p with
      | .suspended n => if h = .recv n then .holding (c.result n) else p
      | .sending id => if h = .send id then .testing else p
      | p => p

namespace ClientHandler

variable {τ υ : Type} [DecidableEq τ]

/-- The handler up to its next suspension point. -/
def go (s : ClientHandler τ υ) (caller : Caller τ) (w : WriteResult) :
    Option (ClientHandler τ υ) :=
  match s.phase with
  | .testing =>
      if s.conn.endpoint.conn.connected then
        (s.conn.step .recvReady).map fun conn => ⟨conn, .checked s.conn.recvs⟩
      else some { s with phase := .ended }
  | .checked n =>
      if s.conn.checked n = some true then
        (s.conn.step (.recvReturn n)).map fun conn => ⟨conn, .holding (conn.result n)⟩
      else
        (s.conn.step (.recvSuspend n (caller = .loopThread))).map fun conn => ⟨conn, .suspended n⟩
  | .holding buf =>
      if buf.isEmpty then some { s with phase := .ended }
      else (s.conn.step (.send caller buf w)).map fun conn =>
        ⟨conn, .sending s.conn.endpoint.control.sends⟩
  | .suspended _ | .sending _ | .ended => none

/-- The wrapper is gone with the frame of a handler that has ended. -/
def step (s : ClientHandler τ υ) : HandlerInput τ υ → Option (ClientHandler τ υ)
  | .run i =>
      if s.phase = .ended ∨ i.sends = true then none
      else (s.conn.step (.run i)).map fun conn => ⟨conn, s.phase.wake conn (s.conn.resumed i)⟩
  | .go caller w => s.go caller w

def machine (τ υ : Type) [DecidableEq τ] : Machine (ClientHandler τ υ) (HandlerInput τ υ) := ⟨step⟩

omit [DecidableEq τ] in
def start (inLoopThread : Bool) (l : EventLoop υ) (sockfd : Nat) : ClientHandler τ υ :=
  ⟨.accept inLoopThread l sockfd, .testing⟩

end ClientHandler

/-! ## A connection that is read -/

variable {τ υ : Type}

def Functor.suspension? : Functor τ (Posted υ) → Option Suspension
  | .user (.resume h) => some h
  | _ => none

def Control.suspensions (b : Control τ (Posted υ)) : List Suspension :=
  b.loop.queued.filterMap Functor.suspension?

theorem suspension?_of_isCall {f : Functor τ (Posted υ)} (h : f.isCall = true) :
    f.suspension? = none := by
  cases f <;> first | rfl | cases h

@[simp] theorem suspensions_queueInLoop (b : Control τ (Posted υ)) (inLoopThread : Bool)
    (f : Functor τ (Posted υ)) :
    (b.queueInLoop inLoopThread f).suspensions = b.suspensions ++ f.suspension?.toList := by
  rw [Control.suspensions, Control.queued_queueInLoop, List.filterMap_append]
  cases h : f.suspension? <;> simp [Control.suspensions, h]

namespace AsyncEndpoint

def delivered (s : AsyncEndpoint τ υ) : List UInt8 := s.endpoint.log.flatMap Effect.received

variable [DecidableEq τ] {s t : AsyncEndpoint τ υ}

/-- A step of the connection takes the resume it runs from the queue, and adds none. -/
theorem suspensions_moves {i : Input τ υ} {b : Control τ (Posted υ)} {op : Op τ}
    (hlife : s.endpoint.Lifecycle) (hmoves : s.endpoint.Moves (s.lift i) b op) :
    s.endpoint.control.suspensions = (s.resumed i).toList ++ b.suspensions := by
  cases i with
  | functor w =>
      cases hmoves with
      | @functor w f functors hf hcalling =>
          have hhead : s.resumed (.functor w) = f.suspension? := by
            simp only [resumed, hf]
            cases f with
            | user x => cases x <;> rfl
            | _ => rfl
          rw [hhead, Control.suspensions, EventLoop.queued_of_functors hf, List.filterMap_cons]
          cases h : f.suspension? <;> rfl
  | enqueue t =>
      cases hmoves with
      | enqueue hf =>
          have hnone := suspension?_of_isCall (hlife.calls _ _ hf).1
          rw [suspensions_queueInLoop, hnone]
          exact (List.append_nil _).symm
  | queueUser inLoopThread x =>
      cases hmoves with
      | queueUser =>
          rw [suspensions_queueInLoop]
          exact (List.append_nil _).symm
  | doPendingFunctors =>
      cases hmoves with
      | doPendingFunctors hhandling htodo hfunctors =>
          have hqueued := EventLoop.queued_beginPendingFunctors
            (l := { s.endpoint.control.loop with eventHandling := false }) hfunctors
          show _ = List.filterMap _ (EventLoop.queued _)
          rw [hqueued]
          rfl
  | removeConnectionInLoop inLoopThread =>
      cases hmoves with
      | remove =>
          rw [suspensions_queueInLoop]
          exact (List.append_nil _).symm
      | removeAgain => rfl
  | call caller c w => cases hmoves <;> rfl
  | poll events =>
      cases hmoves
      rfl
  | callback r retrieved w =>
      cases hmoves
      rfl
  | endPendingFunctors =>
      cases hmoves
      rfl

theorem accepted_moves {i : Input τ υ} {b : Control τ (Posted υ)} {op : Op τ}
    (hmoves : s.endpoint.Moves (s.lift i) b op) :
    ∃ ms, b.accepted = s.endpoint.control.accepted ++ ms ∧ ms.length ≤ 1 ∧
      ∀ m ∈ ms, ∃ caller w, i = .call caller (.send m.data) w := by
  have hnone : b.accepted = s.endpoint.control.accepted →
      ∃ ms, b.accepted = s.endpoint.control.accepted ++ ms ∧ ms.length ≤ 1 ∧
        ∀ m ∈ ms, ∃ caller w, i = .call caller (.send m.data) w :=
    fun hsame => ⟨[], by simpa using hsame, Nat.zero_le 1, by simp⟩
  cases i with
  | call caller c w =>
      cases hmoves with
      | sendNow => exact ⟨_, rfl, Nat.le_refl 1, by simp [Endpoint.message]⟩
      | sendLater => exact ⟨_, rfl, Nat.le_refl 1, by simp [Endpoint.message]⟩
      | _ => exact hnone rfl
  | _ =>
      cases hmoves
      all_goals exact hnone rfl

def Hears : Effect → Bool
  | .messageCallback _ | .writeCompleteCallback => true
  | _ => false

omit [DecidableEq τ] in
theorem reactAll_eq_self {input : List UInt8} {effects : List Effect}
    (h : ∀ e ∈ effects, Hears e = false) : s.reactAll input effects = s := by
  apply reactAll_keeps (P := (· = s)) _ rfl
  rintro u e he rfl
  have hdeaf := h e he
  cases e <;> first | rfl | cases hdeaf

/-- The connection as `newConnection` leaves it; `onMessage` takes all that is read. -/
structure Calm (s : AsyncEndpoint τ υ) : Prop where
  lifecycle : s.endpoint.Lifecycle
  ordered : s.endpoint.Ordered
  streaming : s.endpoint.Streaming []
  input : s.endpoint.conn.inputBuffer = []
  callback : s.endpoint.conn.messageCallback = true

theorem Calm.of_endpoint (h : s.Calm) (hendpoint : t.endpoint = s.endpoint) : t.Calm := by
  constructor
  all_goals rw [hendpoint]
  · exact h.lifecycle
  · exact h.ordered
  · exact h.streaming
  · exact h.input
  · exact h.callback

theorem Calm.perform (h : s.Calm) {i : Input τ (Posted υ)} {b : Control τ (Posted υ)} {op : Op τ}
    (hplan : s.endpoint.plan i = some (b, op)) (hfits : op.Fits s.endpoint.conn)
    (hinput : (op.run s.endpoint.conn).1.inputBuffer = s.endpoint.conn.inputBuffer)
    (hcallback : (op.run s.endpoint.conn).1.messageCallback = s.endpoint.conn.messageCallback) :
    ({ s with endpoint := s.endpoint.perform b op } : AsyncEndpoint τ υ).Calm := by
  have hstep : s.endpoint.step i = some (s.endpoint.perform b op) := by
    simp [Endpoint.step, hplan, hfits]
  exact ⟨Endpoint.step_lifecycle h.lifecycle hstep, Endpoint.step_ordered h.ordered hstep,
    Endpoint.step_streaming h.streaming hstep, hinput.trans h.input, hcallback.trans h.callback⟩

theorem Calm.queueResume (h : s.Calm) (inLoopThread : Bool) (r : Option Suspension) :
    (s.queueResume inLoopThread r).Calm := by
  cases r with
  | none => exact h
  | some r =>
      have hqueued := h.perform (i := .queueUser inLoopThread (.resume r)) rfl trivial rfl rfl
      exact hqueued.of_endpoint rfl

omit [DecidableEq τ] in
theorem suspensions_queueResume (s : AsyncEndpoint τ υ) (inLoopThread : Bool)
    (r : Option Suspension) : (s.queueResume inLoopThread r).endpoint.control.suspensions =
      s.endpoint.control.suspensions ++ r.toList := by
  cases r with
  | none => exact (List.append_nil _).symm
  | some r => exact suspensions_queueInLoop ..

omit [DecidableEq τ] in
theorem accepted_queueResume (s : AsyncEndpoint τ υ) (inLoopThread : Bool)
    (r : Option Suspension) : (s.queueResume inLoopThread r).endpoint.control.accepted =
      s.endpoint.control.accepted := by
  cases r <;> rfl

omit [DecidableEq τ] in
theorem delivered_queueResume (s : AsyncEndpoint τ υ) (inLoopThread : Bool)
    (r : Option Suspension) : (s.queueResume inLoopThread r).delivered = s.delivered := by
  cases r with
  | none => rfl
  | some r =>
      show (s.endpoint.log ++ []).flatMap Effect.received = _
      rw [List.append_nil]
      rfl

/-- The connection has moved from `s` to `t` and the wrapper has heard nothing; the step took
the resume `r` from the queue. -/
structure Unheard (s t : AsyncEndpoint τ υ) (r : Option Suspension) : Prop where
  same : t = { s with endpoint := t.endpoint }
  calm : t.Calm
  delivered : t.delivered = s.delivered
  suspensions : s.endpoint.control.suspensions = r.toList ++ t.endpoint.control.suspensions

def heard (s : AsyncEndpoint τ υ) (data : List UInt8) : AsyncEndpoint τ υ :=
  { s with wrapper := (s.wrapper.onMessage data).1 }.queueResume true (s.wrapper.onMessage data).2

omit [DecidableEq τ] in
/-- An operation that reads nothing does not reach the wrapper. -/
theorem run_unheard {c : TcpConnection (List UInt8)} {op : Op τ} (hfits : op.Fits c)
    (hallowed : op.Allowed c.state) (hread : ∀ r n, op = .handleRead r n → r.data = []) :
    (op.run c).1.inputBuffer = c.inputBuffer ∧ (op.run c).1.messageCallback = c.messageCallback ∧
      (∀ e ∈ (op.run c).2, Hears e = false) ∧ (op.run c).2.flatMap Effect.received = [] := by
  by_cases hestablish : op = .connectEstablished
  · subst hestablish
    have hstate : c.state = .connecting := hallowed
    simp only [Op.run, TcpConnection.connectEstablished, hstate, if_true, TcpConnection.notify]
    refine ⟨trivial, trivial, ?_⟩
    split <;> simp [Hears, Effect.received]
  · have hhears : op.hears = false := by
      cases op with
      | connectEstablished => exact (hestablish rfl).elim
      | handleRead r n => simp [Op.hears, hread r n rfl]
      | _ => rfl
    have hsilent := Op.silent_run hfits hallowed hhears
    refine ⟨hsilent.inputBuffer, hsilent.messageCallback, ?_, Op.received_of_silent hsilent.effects⟩
    intro e he
    have hdeaf := hsilent.effects e he
    cases e with
    | writeCompleteCallback => exact (Op.writeComplete_not_mem hfits he).elim
    | messageCallback data => cases hdeaf
    | _ => rfl

/-- Only a read callback reads, and `onMessage` takes all that is there. -/
theorem read_moves {i : Input τ υ} {b : Control τ (Posted υ)} {r : ReadResult} {n : Nat}
    (hmoves : s.endpoint.Moves (s.lift i) b (.handleRead r n)) :
    (∃ retrieved w, i = .callback r retrieved w) ∧
      n = (s.endpoint.conn.inputBuffer ++ r.data).length := by
  generalize hop : (.handleRead r n : Op τ) = op at hmoves
  cases i with
  | callback r' retrieved w =>
      cases hmoves with
      | @callback _ _ _ kind =>
          cases kind <;> cases hop
          exact ⟨⟨retrieved, w, rfl⟩, rfl⟩
  | functor w =>
      cases hmoves with
      | @functor _ f => cases f <;> cases hop
  | _ => cases hmoves <;> cases hop

/-- A step of the connection gives the wrapper bytes, or does not reach it. -/
theorem advance_cases (h : s.Calm) {i : Input τ υ} (hstep : s.advance (s.lift i) = some t) :
    (∃ ms, t.endpoint.control.accepted = s.endpoint.control.accepted ++ ms ∧ ms.length ≤ 1 ∧
      ∀ m ∈ ms, ∃ caller w, i = .call caller (.send m.data) w) ∧
    (s.Unheard t (s.resumed i) ∨ ∃ (u : AsyncEndpoint τ υ) (data : List UInt8), data ≠ [] ∧
      (∃ r retrieved w, i = .callback r retrieved w) ∧
      u = { s with endpoint := u.endpoint } ∧ u.Calm ∧ u.delivered = s.delivered ++ data ∧
      u.endpoint.control.suspensions = s.endpoint.control.suspensions ∧ t = u.heard data) := by
  rcases advance_spec hstep with ⟨b, op, hplan, hfits, rfl⟩
  have hmoves := Endpoint.plan_moves hplan
  have hallowed := hmoves.allowed h.lifecycle
  have hsuspensions := suspensions_moves h.lifecycle hmoves
  have haccepted := accepted_moves hmoves
  by_cases hread : ∃ r n, op = .handleRead r n ∧ r.data ≠ []
  · rcases hread with ⟨r, n, rfl, hdata⟩
    rcases read_moves hmoves with ⟨⟨retrieved, w, rfl⟩, hn⟩
    rw [h.input, List.nil_append] at hn
    have hrun : (Op.handleRead r n : Op τ).run s.endpoint.conn =
        (s.endpoint.conn, [.messageCallback r.data]) :=
      HeldEndpoint.run_handleRead h.input h.callback hdata hn
    let u : AsyncEndpoint τ υ := { s with endpoint := s.endpoint.perform b (.handleRead r n) }
    have hu : u.Calm := h.perform hplan hfits (by rw [hrun]) (by rw [hrun])
    have hheard : u.reactAll s.endpoint.conn.inputBuffer
        ((Op.handleRead r n : Op τ).run s.endpoint.conn).2 = u.heard r.data := by
      rw [hrun, h.input]
      rfl
    rw [hheard]
    refine ⟨?_, .inr ⟨u, r.data, hdata, ⟨r, retrieved, w, rfl⟩, rfl, hu, ?_, hsuspensions.symm, rfl⟩⟩
    · rw [heard, accepted_queueResume]
      exact haccepted
    · show (s.endpoint.log ++ _).flatMap Effect.received = _
      rw [hrun, List.flatMap_append]
      simp [Effect.received, delivered]
  · have hnone : ∀ r n, op = .handleRead r n → r.data = [] := by
      intro r n hop
      by_contra hdata
      exact hread ⟨r, n, hop, hdata⟩
    rcases run_unheard hfits hallowed hnone with ⟨hinput, hcallback, heffects, hreceived⟩
    rw [reactAll_eq_self heffects]
    refine ⟨haccepted, .inl ⟨rfl, h.perform hplan hfits hinput hcallback, ?_, hsuspensions⟩⟩
    show (s.endpoint.log ++ _).flatMap Effect.received = _
    rw [List.flatMap_append, hreceived, List.append_nil]
    rfl

/-! ## Where the handler stands -/

structure Idle (s : AsyncEndpoint τ υ) : Prop where
  receiver : s.wrapper.recvCoroutine = none
  suspensions : s.endpoint.control.suspensions = []

structure Fresh (s : AsyncEndpoint τ υ) : Prop where
  received : s.received = []
  accepted : s.endpoint.control.accepted = []

def Waits (s : AsyncEndpoint τ υ) (n : Nat) : Prop :=
  s.wrapper.recvCoroutine = some (.recv n) ∧ s.wrapper.receivedData = [] ∧
      s.endpoint.control.suspensions = [] ∨
    s.wrapper.recvCoroutine = none ∧ s.wrapper.receivedData ≠ [] ∧
      s.endpoint.control.suspensions = [.recv n]

/-- One `recv()` has returned, and nothing else was sent since. -/
structure Got (s : AsyncEndpoint τ υ) (buf : List UInt8) : Prop where
  nonempty : buf ≠ []
  received : ∃ n, s.received = [(n, buf)]
  once : s.endpoint.control.accepted.length ≤ 1
  own : ∀ m ∈ s.endpoint.control.accepted, m.data = buf

def Stands (s : AsyncEndpoint τ υ) : HandlerPhase → Prop
  | .testing | .ended => s.Fresh ∧ s.Idle
  | .checked n => s.Fresh ∧ s.Idle ∧ (s.checked n = some true → s.wrapper.receivedData ≠ [])
  | .suspended n => s.Fresh ∧ s.Waits n
  | .holding buf => s.Got buf ∧ s.endpoint.control.accepted = [] ∧ s.Idle
  | .sending id =>
      (∃ buf, s.Got buf) ∧ s.Idle ∧ s.wrapper.sendCoroutine = some (.send id)

omit [DecidableEq τ] in
theorem Stands.suspensions {p : HandlerPhase} (h : s.Stands p) :
    s.endpoint.control.suspensions = [] ∨
      ∃ n, p = .suspended n ∧ s.wrapper.recvCoroutine = none ∧ s.wrapper.receivedData ≠ [] ∧
        s.endpoint.control.suspensions = [.recv n] := by
  cases p with
  | suspended n =>
      rcases h.2 with ⟨-, -, hnone⟩ | ⟨hreceiver, hdata, hone⟩
      · exact .inl hnone
      · exact .inr ⟨n, rfl, hreceiver, hdata, hone⟩
  | testing | ended => exact .inl h.2.suspensions
  | checked n => exact .inl h.2.1.suspensions
  | holding buf => exact .inl h.2.2.suspensions
  | sending id => exact .inl h.2.1.suspensions

omit [DecidableEq τ] in
theorem Stands.of_same {p : HandlerPhase} (h : s.Stands p) {e : Endpoint τ (Posted υ)}
    (haccepted : e.control.accepted = s.endpoint.control.accepted)
    (hsuspensions : e.control.suspensions = s.endpoint.control.suspensions) :
    ({ s with endpoint := e } : AsyncEndpoint τ υ).Stands p := by
  have hfresh : s.Fresh → ({ s with endpoint := e } : AsyncEndpoint τ υ).Fresh :=
    fun h => ⟨h.received, haccepted.trans h.accepted⟩
  have hidle : s.Idle → ({ s with endpoint := e } : AsyncEndpoint τ υ).Idle :=
    fun h => ⟨h.receiver, hsuspensions.trans h.suspensions⟩
  have hgot : ∀ buf, s.Got buf → ({ s with endpoint := e } : AsyncEndpoint τ υ).Got buf := by
    intro buf h
    exact ⟨h.nonempty, h.received, haccepted ▸ h.once, haccepted ▸ h.own⟩
  cases p with
  | testing | ended => exact ⟨hfresh h.1, hidle h.2⟩
  | checked n => exact ⟨hfresh h.1, hidle h.2.1, h.2.2⟩
  | suspended n =>
      refine ⟨hfresh h.1, ?_⟩
      rcases h.2 with ⟨hreceiver, hdata, hnone⟩ | ⟨hreceiver, hdata, hone⟩
      · exact .inl ⟨hreceiver, hdata, hsuspensions.trans hnone⟩
      · exact .inr ⟨hreceiver, hdata, hsuspensions.trans hone⟩
  | holding buf => exact ⟨hgot buf h.1, haccepted.trans h.2.1, hidle h.2.2⟩
  | sending id =>
      rcases h.1 with ⟨buf, hbuf⟩
      exact ⟨⟨buf, hgot buf hbuf⟩, hidle h.2.1, h.2.2⟩

omit [DecidableEq τ] in
theorem heard_eq (s : AsyncEndpoint τ υ) (data : List UInt8) :
    ∃ e, s.heard data = { s with
        wrapper := (s.wrapper.onMessage data).1
        endpoint := e
        resumes := s.resumes ++ s.wrapper.recvCoroutine.toList } ∧
      e.control.accepted = s.endpoint.control.accepted ∧
      e.control.suspensions =
        s.endpoint.control.suspensions ++ s.wrapper.recvCoroutine.toList := by
  have hsuspensions := suspensions_queueResume
    { s with wrapper := (s.wrapper.onMessage data).1 } true (s.wrapper.onMessage data).2
  have haccepted := accepted_queueResume
    { s with wrapper := (s.wrapper.onMessage data).1 } true (s.wrapper.onMessage data).2
  refine ⟨(s.heard data).endpoint, ?_, haccepted, hsuspensions⟩
  unfold heard AsyncConnection.onMessage
  cases s.wrapper.recvCoroutine <;> simp [AsyncEndpoint.queueResume]

omit [DecidableEq τ] in
/-- Bytes wake a `recv()` that sleeps, and change nothing else. -/
theorem Stands.heard {p : HandlerPhase} (h : s.Stands p) {data : List UInt8} (hdata : data ≠ []) :
    (s.heard data).Stands p ∧ ∀ id, .send id ∈ (s.heard data).resumes → .send id ∈ s.resumes := by
  rcases s.heard_eq data with ⟨e, heq, haccepted, hsuspensions⟩
  rw [heq]
  by_cases hasleep : ∃ n, p = .suspended n ∧ s.wrapper.recvCoroutine = some (.recv n)
  · rcases hasleep with ⟨n, rfl, hreceiver⟩
    rcases h with ⟨hfresh, hwaits⟩
    rcases hwaits with ⟨-, hempty, hnone⟩ | ⟨hawake, -⟩
    · rw [hreceiver, hnone] at hsuspensions
      refine ⟨⟨⟨hfresh.received, haccepted.trans hfresh.accepted⟩, .inr ⟨rfl, ?_, hsuspensions⟩⟩, ?_⟩
      · simpa [AsyncConnection.onMessage, hempty] using hdata
      · intro id hid
        simpa [hreceiver] using hid
    · rw [hawake] at hreceiver
      cases hreceiver
  · have hnone : s.wrapper.recvCoroutine = none := by
      cases p with
      | testing | ended => exact h.2.receiver
      | checked n => exact h.2.1.receiver
      | holding buf => exact h.2.2.receiver
      | sending id => exact h.2.1.receiver
      | suspended n =>
          rcases h.2 with ⟨hreceiver, -⟩ | ⟨hreceiver, -⟩
          · exact (hasleep ⟨n, rfl, hreceiver⟩).elim
          · exact hreceiver
    rw [hnone, Option.toList_none, List.append_nil] at hsuspensions
    have hsame := h.of_same haccepted hsuspensions
    have hmore : s.wrapper.receivedData ≠ [] → s.wrapper.receivedData ++ data ≠ [] := by
      intro hbefore
      simp [hbefore]
    constructor
    · cases p with
      | testing | ended => exact ⟨⟨hsame.1.received, hsame.1.accepted⟩, rfl, hsame.2.suspensions⟩
      | checked n =>
          exact ⟨⟨hsame.1.received, hsame.1.accepted⟩, ⟨rfl, hsame.2.1.suspensions⟩,
            fun hchecked => hmore (hsame.2.2 hchecked)⟩
      | suspended n =>
          refine ⟨⟨hsame.1.received, hsame.1.accepted⟩, .inr ?_⟩
          rcases hsame.2 with ⟨hreceiver, -⟩ | ⟨-, hdata', hone⟩
          · exact (hasleep ⟨n, rfl, hreceiver⟩).elim
          · exact ⟨rfl, hmore hdata', hone⟩
      | holding buf =>
          rcases hsame with ⟨hgot, hnothing, hidle⟩
          exact ⟨⟨hgot.nonempty, hgot.received, hgot.once, hgot.own⟩, hnothing, rfl, hidle.suspensions⟩
      | sending id =>
          rcases hsame with ⟨⟨buf, hgot⟩, hidle, hheld⟩
          exact ⟨⟨buf, hgot.nonempty, hgot.received, hgot.once, hgot.own⟩, ⟨rfl, hidle.suspensions⟩,
            hheld⟩
    · intro id hid
      simpa [hnone] using hid

end AsyncEndpoint

namespace ClientHandler

variable [DecidableEq τ] {s t : ClientHandler τ υ}

structure Sound (s : ClientHandler τ υ) : Prop where
  calm : s.conn.Calm
  stands : s.conn.Stands s.phase
  delivered : s.conn.delivered =
    s.conn.received.flatMap Prod.snd ++ s.conn.wrapper.receivedData
  resumes : ∀ id, .send id ∉ s.conn.resumes

omit [DecidableEq τ] in
theorem recvResume_got {c : AsyncEndpoint τ υ} (n : Nat) (hdata : c.wrapper.receivedData ≠ [])
    (hreceived : c.received = []) (haccepted : c.endpoint.control.accepted = []) :
    (c.recvResume n).Got ((c.recvResume n).result n) ∧
      (c.recvResume n).received.flatMap Prod.snd ++ (c.recvResume n).wrapper.receivedData =
        c.received.flatMap Prod.snd ++ c.wrapper.receivedData := by
  have hnow : (c.recvResume n).received = [(n, c.wrapper.receivedData)] := by
    simp [AsyncEndpoint.recvResume, hreceived, AsyncConnection.recvResume]
  have hresult : (c.recvResume n).result n = c.wrapper.receivedData := by
    simp [AsyncEndpoint.result, hnow]
  have hnothing : (c.recvResume n).endpoint.control.accepted = [] := haccepted
  constructor
  · rw [hresult]
    exact ⟨hdata, ⟨n, hnow⟩, by simp [hnothing], by simp [hnothing]⟩
  · rw [hnow, hreceived]
    show _ ++ [] = _
    simp

theorem Sound.unheard (h : s.Sound) {c : AsyncEndpoint τ υ} {r : Option Suspension}
    (hc : s.conn.Unheard c r)
    (haccepted : c.endpoint.control.accepted = s.conn.endpoint.control.accepted) :
    (⟨c.resume r, s.phase.wake (c.resume r) r⟩ : ClientHandler τ υ).Sound := by
  have hsuspensions := hc.suspensions
  cases r with
  | none =>
      have hstands := h.stands.of_same haccepted hsuspensions.symm
      rw [← hc.same] at hstands
      refine ⟨hc.calm, hstands, ?_, ?_⟩
      · show c.delivered = c.received.flatMap Prod.snd ++ c.wrapper.receivedData
        rw [hc.delivered, hc.same]
        exact h.delivered
      · show ∀ id, .send id ∉ c.resumes
        rw [hc.same]
        exact h.resumes
  | some x =>
      rcases h.stands.suspensions with hnone | ⟨n, hphase, hreceiver, hdata, hone⟩
      · rw [hnone] at hsuspensions
        cases hsuspensions
      · rw [hone] at hsuspensions
        rcases List.cons.inj hsuspensions with ⟨rfl, hrest⟩
        have hstands := h.stands
        rw [hphase] at hstands
        have hgot := recvResume_got (c := c) n (by rw [hc.same]; exact hdata)
          (by rw [hc.same]; exact hstands.1.received) (haccepted.trans hstands.1.accepted)
        have hwake : s.phase.wake (c.recvResume n) (some (.recv n)) =
            .holding ((c.recvResume n).result n) := by
          rw [hphase]
          exact if_pos rfl
        show (⟨c.recvResume n, s.phase.wake (c.recvResume n) (some (.recv n))⟩ :
          ClientHandler τ υ).Sound
        rw [hwake]
        refine ⟨hc.calm.of_endpoint rfl, ⟨hgot.1, haccepted.trans hstands.1.accepted, ?_, ?_⟩, ?_, ?_⟩
        · show c.wrapper.recvCoroutine = none
          rw [hc.same]
          exact hreceiver
        · exact hrest.symm
        · refine Eq.trans hc.delivered (h.delivered.trans ?_)
          rw [hgot.2]
          rw [hc.same]
        · show ∀ id, .send id ∉ c.resumes
          rw [hc.same]
          exact h.resumes

/-- A read gives the wrapper bytes. -/
theorem Sound.heard (h : s.Sound) {c : AsyncEndpoint τ υ} {data : List UInt8} (hdata : data ≠ [])
    (hc : c = { s.conn with endpoint := c.endpoint }) (hcalm : c.Calm)
    (hdelivered : c.delivered = s.conn.delivered ++ data)
    (hsuspensions : c.endpoint.control.suspensions = s.conn.endpoint.control.suspensions)
    (haccepted : c.endpoint.control.accepted = s.conn.endpoint.control.accepted) :
    (⟨c.heard data, s.phase⟩ : ClientHandler τ υ).Sound := by
  have hstands := h.stands.of_same haccepted hsuspensions
  rw [← hc] at hstands
  have hnext := hstands.heard hdata
  have hquiet : ({ c with wrapper := (c.wrapper.onMessage data).1 } : AsyncEndpoint τ υ).Calm :=
    hcalm.of_endpoint rfl
  refine ⟨hquiet.queueResume true _, hnext.1, ?_, ?_⟩
  · have hsame : (c.heard data).delivered = c.delivered :=
      AsyncEndpoint.delivered_queueResume _ true _
    rcases c.heard_eq data with ⟨e, heq, -⟩
    show (c.heard data).delivered = _
    rw [hsame, hdelivered, h.delivered, heq]
    show _ = c.received.flatMap Prod.snd ++ (c.wrapper.receivedData ++ data)
    rw [hc, List.append_assoc]
  · intro id hid
    have hbefore := hnext.2 id hid
    rw [hc] at hbefore
    exact h.resumes id hbefore

theorem step_run_sound (h : s.Sound) {i : Input τ υ} (hstep : s.step (.run i) = some t) :
    t.Sound := by
  simp only [step] at hstep
  split at hstep
  · cases hstep
  · rename_i hguard
    rw [not_or, Bool.not_eq_true] at hguard
    rcases Option.map_eq_some_iff.1 hstep with ⟨c, hc, rfl⟩
    rcases Option.map_eq_some_iff.1 hc with ⟨u, hu, rfl⟩
    rcases AsyncEndpoint.advance_cases h.calm hu with ⟨⟨ms, haccepted, -, hown⟩, hcases⟩
    have hsame : u.endpoint.control.accepted = s.conn.endpoint.control.accepted := by
      cases ms with
      | nil => simpa using haccepted
      | cons m ms =>
          rcases hown m List.mem_cons_self with ⟨caller, w, rfl⟩
          cases hguard.2
    rcases hcases with hunheard |
      ⟨c, data, hdata, ⟨r, n, w, rfl⟩, hendpoint, hcalm, hdelivered, hsuspensions, rfl⟩
    · exact h.unheard hunheard hsame
    · have hbefore := AsyncEndpoint.accepted_queueResume
        { c with wrapper := (c.wrapper.onMessage data).1 } true (c.wrapper.onMessage data).2
      exact h.heard hdata hendpoint hcalm hdelivered hsuspensions (hbefore.symm.trans hsame)

/-! ## The handler's own steps -/

theorem Sound.check (h : s.Sound) (hphase : s.phase = .testing) {c : AsyncEndpoint τ υ}
    (hc : s.conn.step .recvReady = some c) :
    (⟨c, .checked s.conn.recvs⟩ : ClientHandler τ υ).Sound := by
  have hstands := h.stands
  rw [hphase] at hstands
  rcases hstands with ⟨hfresh, hidle⟩
  cases hc
  refine ⟨h.calm.of_endpoint rfl, ⟨⟨hfresh.received, hfresh.accepted⟩,
    ⟨hidle.receiver, hidle.suspensions⟩, ?_⟩, h.delivered, h.resumes⟩
  intro hchecked
  have hready : s.conn.wrapper.recvReady = true := by
    simpa [AsyncEndpoint.setChecked] using hchecked
  exact List.length_pos_iff.1 (of_decide_eq_true hready)

/-- A `recv()` that finds bytes returns at once. -/
theorem Sound.take (h : s.Sound) {n : Nat} (hphase : s.phase = .checked n) {c : AsyncEndpoint τ υ}
    (hc : s.conn.step (.recvReturn n) = some c) :
    (⟨c, .holding (c.result n)⟩ : ClientHandler τ υ).Sound := by
  have hstands := h.stands
  rw [hphase] at hstands
  rcases hstands with ⟨hfresh, hidle, hready⟩
  rcases Option.ite_none_right_eq_some.1 hc with ⟨hchecked, ⟨⟩⟩
  have hgot := recvResume_got (c := s.conn.setChecked n none) n (hready hchecked) hfresh.received
    hfresh.accepted
  refine ⟨h.calm.of_endpoint rfl, ⟨hgot.1, hfresh.accepted, hidle.receiver, hidle.suspensions⟩,
    ?_, h.resumes⟩
  exact h.delivered.trans hgot.2.symm

/-- A `recv()` suspends, and has its resume queued if bytes have come meanwhile. -/
theorem Sound.suspend (h : s.Sound) {n : Nat} (hphase : s.phase = .checked n)
    {inLoopThread : Bool} {c : AsyncEndpoint τ υ}
    (hc : s.conn.step (.recvSuspend n inLoopThread) = some c) :
    (⟨c, .suspended n⟩ : ClientHandler τ υ).Sound := by
  have hstands := h.stands
  rw [hphase] at hstands
  rcases hstands with ⟨hfresh, hidle, -⟩
  rcases Option.ite_none_right_eq_some.1 hc with ⟨-, ⟨⟩⟩
  by_cases hdata : 0 < s.conn.wrapper.receivedData.length
  · have hsuspend : s.conn.wrapper.recvSuspend (.recv n) = (s.conn.wrapper, some (.recv n)) :=
      if_pos hdata
    rw [hsuspend]
    let u : AsyncEndpoint τ υ := s.conn.setChecked n none
    have hu : u.Calm := h.calm.of_endpoint rfl
    have hsuspensions := AsyncEndpoint.suspensions_queueResume u inLoopThread (some (.recv n))
    have hbefore : u.endpoint.control.suspensions = [] := hidle.suspensions
    rw [hbefore] at hsuspensions
    refine ⟨hu.queueResume inLoopThread (some (.recv n)),
      ⟨⟨hfresh.received, ?_⟩, .inr ⟨hidle.receiver, ?_, ?_⟩⟩, ?_, ?_⟩
    · exact (AsyncEndpoint.accepted_queueResume u inLoopThread _).trans hfresh.accepted
    · exact List.length_pos_iff.1 hdata
    · exact hsuspensions
    · exact (AsyncEndpoint.delivered_queueResume u inLoopThread _).trans h.delivered
    · intro id hid
      rcases List.mem_append.1 hid with hid | hid
      · exact h.resumes id hid
      · cases List.mem_singleton.1 hid
  · have hsuspend : s.conn.wrapper.recvSuspend (.recv n) =
        ({ s.conn.wrapper with recvCoroutine := some (.recv n) }, none) := if_neg hdata
    rw [hsuspend]
    refine ⟨h.calm.of_endpoint rfl, ⟨⟨hfresh.received, hfresh.accepted⟩,
      .inl ⟨rfl, ?_, hidle.suspensions⟩⟩, h.delivered, h.resumes⟩
    exact List.length_eq_zero_iff.1 (Nat.eq_zero_of_not_pos hdata)

/-- The handler sends what it holds, and nothing will resume it. -/
theorem Sound.send (h : s.Sound) {buf : List UInt8} (hphase : s.phase = .holding buf)
    {caller : Caller τ} {w : WriteResult} {c : AsyncEndpoint τ υ}
    (hc : s.conn.step (.send caller buf w) = some c) :
    (⟨c, .sending s.conn.endpoint.control.sends⟩ : ClientHandler τ υ).Sound := by
  have hstands := h.stands
  rw [hphase] at hstands
  rcases hstands with ⟨hgot, hnothing, hidle⟩
  let u : AsyncEndpoint τ υ :=
    { s.conn with wrapper := s.conn.wrapper.sendSuspend (.send s.conn.endpoint.control.sends) }
  have hu : u.Calm := h.calm.of_endpoint rfl
  have hadvance : u.advance (u.lift (.call caller (.send buf) w)) = some c := hc
  rcases AsyncEndpoint.advance_cases hu hadvance with ⟨⟨ms, haccepted, hlength, hown⟩, hcases⟩
  have hbefore : u.endpoint.control.accepted = [] := hnothing
  rw [hbefore, List.nil_append] at haccepted
  have hdata : ∀ m ∈ ms, m.data = buf := by
    intro m hm
    rcases hown m hm with ⟨caller', w', heq⟩
    injection heq with _ hsend
    injection hsend with hbuf
    exact hbuf.symm
  rcases hcases with hunheard | ⟨v, data, -, ⟨r, n, w, hread⟩, -⟩
  · have hsuspensions := hunheard.suspensions
    have hidle' : u.endpoint.control.suspensions = [] := hidle.suspensions
    rw [hidle'] at hsuspensions
    refine ⟨hunheard.calm, ⟨⟨buf, hgot.nonempty, ?_, ?_, ?_⟩, ⟨?_, hsuspensions.symm⟩, ?_⟩, ?_, ?_⟩
    · rw [hunheard.same]
      exact hgot.received
    · rw [haccepted]
      exact hlength
    · rw [haccepted]
      exact hdata
    · rw [hunheard.same]
      exact hidle.receiver
    · rw [hunheard.same]
      rfl
    · show c.delivered = _
      rw [hunheard.delivered, hunheard.same]
      exact h.delivered
    · show ∀ id, .send id ∉ c.resumes
      rw [hunheard.same]
      exact h.resumes
  · cases hread

theorem go_sound (h : s.Sound) {caller : Caller τ} {w : WriteResult}
    (hstep : s.go caller w = some t) : t.Sound := by
  have hstands := h.stands
  cases hphase : s.phase with
  | testing =>
      simp only [go, hphase] at hstep
      split at hstep
      · rcases Option.map_eq_some_iff.1 hstep with ⟨c, hc, rfl⟩
        exact h.check hphase hc
      · cases hstep
        rw [hphase] at hstands
        exact ⟨h.calm, hstands, h.delivered, h.resumes⟩
  | checked n =>
      simp only [go, hphase] at hstep
      split at hstep
      · rcases Option.map_eq_some_iff.1 hstep with ⟨c, hc, rfl⟩
        exact h.take hphase hc
      · rcases Option.map_eq_some_iff.1 hstep with ⟨c, hc, rfl⟩
        exact h.suspend hphase hc
  | holding buf =>
      simp only [go, hphase] at hstep
      split at hstep
      · rename_i hempty
        rw [hphase] at hstands
        exact (hstands.1.nonempty (List.isEmpty_iff.1 hempty)).elim
      · rcases Option.map_eq_some_iff.1 hstep with ⟨c, hc, rfl⟩
        exact h.send hphase hc
  | suspended n | sending id | ended => simp [go, hphase] at hstep

theorem step_sound {i : HandlerInput τ υ} (h : s.Sound) (hstep : s.step i = some t) : t.Sound := by
  cases i with
  | run i => exact step_run_sound h hstep
  | go caller w => exact go_sound h hstep

omit [DecidableEq τ] in
theorem accept_idle (inLoopThread : Bool) (l : EventLoop υ) (sockfd : Nat) :
    (AsyncEndpoint.accept inLoopThread l sockfd : AsyncEndpoint τ υ).Idle := by
  refine ⟨rfl, ?_⟩
  have hforeign : (Endpoint.registered (l.map .other) sockfd true true :
      Endpoint τ (Posted υ)).control.suspensions = [] := by
    simp only [Control.suspensions, Endpoint.registered, EventLoop.queued_map, List.filterMap_map]
    exact List.filterMap_none _
  cases inLoopThread with
  | true => exact hforeign
  | false =>
      refine (suspensions_queueInLoop _ false .connectEstablished).trans ?_
      rw [hforeign]
      rfl

theorem start_sound (inLoopThread : Bool) (l : EventLoop υ) (sockfd : Nat) :
    (start inLoopThread l sockfd : ClientHandler τ υ).Sound := by
  have hidle := accept_idle (τ := τ) inLoopThread l sockfd
  refine ⟨⟨Endpoint.accept_lifecycle .., Endpoint.accept_ordered .., Endpoint.accept_streaming ..,
    ?_, ?_⟩, ⟨⟨rfl, ?_⟩, hidle⟩, ?_, nofun⟩
  all_goals cases inLoopThread <;> rfl

/-! ## What a client gets -/

/-- What has run of at most one accepted message. -/
theorem ran_prefix {e : Endpoint τ υ} (h : e.Ordered) (hone : e.control.accepted.length ≤ 1) :
    e.ran.map Prod.fst <+: e.control.accepted := by
  have hbegins : ∀ c, ofCaller c (e.ran.map Prod.fst) <+: ofCaller c e.control.accepted := by
    intro c
    rw [h.calls c, List.append_assoc]
    exact List.prefix_append _ _
  have hmem : ∀ m ∈ e.ran.map Prod.fst, m ∈ e.control.accepted := by
    intro m hm
    have hown : m ∈ ofCaller m.caller (e.ran.map Prod.fst) := List.mem_filter.2 ⟨hm, by simp⟩
    exact (List.mem_filter.1 ((hbegins m.caller).subset hown)).1
  match haccepted : e.control.accepted with
  | [] =>
      rw [haccepted] at hmem
      exact List.eq_nil_iff_forall_not_mem.2 (fun m hm => List.not_mem_nil (hmem m hm)) ▸
        List.nil_prefix
  | [m] =>
      rw [haccepted] at hmem
      have hall : ofCaller m.caller (e.ran.map Prod.fst) = e.ran.map Prod.fst := by
        rw [ofCaller, List.filter_eq_self]
        intro m' hm'
        rw [List.mem_singleton.1 (hmem m' hm')]
        simp
      have hown := hbegins m.caller
      rw [hall, haccepted, ofCaller_singleton, if_pos rfl] at hown
      exact hown
  | m :: m' :: ms => simp [haccepted] at hone

/-- The socket has got nothing but the beginning of the one message there is. -/
theorem stream_prefix {e : Endpoint τ υ} (hordered : e.Ordered) (hstreaming : e.Streaming [])
    (hone : e.control.accepted.length ≤ 1) {buf : List UInt8}
    (hown : ∀ m ∈ e.control.accepted, m.data = buf) :
    sentBytes e.log ++ e.conn.outputBuffer <+: buf := by
  have hran := ran_prefix hordered hone
  rw [hstreaming.stream, List.nil_append]
  match hcases : e.ran with
  | [] => exact List.nil_prefix
  | [(m, dropped)] =>
      have hm : m ∈ e.control.accepted := hran.subset (by rw [hcases]; exact List.mem_cons_self)
      simp only [List.flatMap_cons, List.flatMap_nil, List.append_nil, kept, hown m hm]
      split
      · exact List.nil_prefix
      · exact List.prefix_rfl
  | p :: q :: rest =>
      have hle := hran.length_le
      rw [hcases] at hle
      simp only [List.map_cons, List.length_cons] at hle
      omega

/-- The handler receives once. The peer gets back at most those bytes, the rest of what it
sends stays in the wrapper, and the handler neither ends nor goes on. -/
structure EchoesOnce (s : ClientHandler τ υ) : Prop where
  once : s.conn.received.length ≤ 1
  nonempty : ∀ n buf, (n, buf) ∈ s.conn.received → buf ≠ []
  delivered : s.conn.delivered =
    s.conn.received.flatMap Prod.snd ++ s.conn.wrapper.receivedData
  stream : sentBytes s.conn.endpoint.log ++ s.conn.endpoint.conn.outputBuffer <+:
    s.conn.received.flatMap Prod.snd
  stays : ∀ n buf, (n, buf) ∈ s.conn.received → s.phase = .holding buf ∨ ∃ id, s.phase = .sending id ∧
    s.conn.wrapper.sendCoroutine = some (.send id) ∧ s.conn.endpoint.control.suspensions = []

theorem Sound.echoesOnce (h : s.Sound) : s.EchoesOnce := by
  have hgot : ∀ buf, s.conn.Got buf → (s.phase = .holding buf ∨ ∃ id, s.phase = .sending id ∧
      s.conn.wrapper.sendCoroutine = some (.send id) ∧
        s.conn.endpoint.control.suspensions = []) → s.EchoesOnce := by
    intro buf hgot hphase
    rcases hgot.received with ⟨n, hreceived⟩
    have hflat : s.conn.received.flatMap Prod.snd = buf := by simp [hreceived]
    refine ⟨by simp [hreceived], ?_, h.delivered, ?_, ?_⟩
    · intro n' buf' hmem
      rw [hreceived] at hmem
      cases List.mem_singleton.1 hmem
      exact hgot.nonempty
    · rw [hflat]
      exact stream_prefix h.calm.ordered h.calm.streaming hgot.once hgot.own
    · intro n' buf' hmem
      rw [hreceived] at hmem
      cases List.mem_singleton.1 hmem
      exact hphase
  have hfresh : s.conn.Fresh → s.EchoesOnce := by
    intro hfresh
    refine ⟨by simp [hfresh.received], by simp [hfresh.received], h.delivered, ?_,
      by simp [hfresh.received]⟩
    rw [hfresh.received]
    exact stream_prefix h.calm.ordered h.calm.streaming (by simp [hfresh.accepted])
      (by simp [hfresh.accepted])
  have hstands := h.stands
  cases hphase : s.phase with
  | testing | checked n | suspended n | ended =>
      rw [hphase] at hstands
      exact hfresh hstands.1
  | holding buf =>
      rw [hphase] at hstands
      exact hgot buf hstands.1 (.inl hphase)
  | sending id =>
      rw [hphase] at hstands
      rcases hstands with ⟨⟨buf, hbuf⟩, hidle, hheld⟩
      exact hgot buf hbuf (.inr ⟨id, hphase, hheld, hidle.suspensions⟩)

/-- Whatever the peer, the kernel and the other threads do. -/
theorem client_echoed_once (inLoopThread : Bool) (l : EventLoop υ) (sockfd : Nat)
    (is : List (HandlerInput τ υ)) :
    (machine τ υ).Always EchoesOnce (start inLoopThread l sockfd) is := by
  apply Machine.Always.mono (P := Sound)
  · intro s hs
    exact hs.echoesOnce
  · apply Machine.always_of_invariant
    · intro s i t hs hstep
      exact step_sound hs hstep
    · exact start_sound inLoopThread l sockfd

end ClientHandler

end Hayai
