import Hayai.Machine.Run
import Hayai.Net.EventLoop
import Hayai.Net.Poller
import Hayai.Net.TcpConnection

/-! # A connection, its loop and its callers

The state machine around one connection accepted by `TcpServer::newConnection`:
the loop that owns it, any number of other threads that call `send`, `shutdown`
and `forceClose`, and the base loop that removes it. A call on the loop's own
thread does its work at once. A call on another thread tests `state_` in one step
and enqueues its functor in a later one; calling atomically is the run in which
nothing comes in between.

Each step does bookkeeping on the queues and then performs one operation on the
connection. Callbacks run user code last, so a call made from inside a callback
is a call of the loop thread in the next step.
-/

namespace Hayai

inductive Caller (τ : Type) where
  | loopThread
  | other (t : τ)
  deriving DecidableEq, Repr

structure Message (τ : Type) where
  id : Nat
  caller : Caller τ
  data : List UInt8
  deriving DecidableEq, Repr

/-- The functors queued on the connection's loop; `user` is foreign work. -/
inductive Functor (τ υ : Type) where
  | connectEstablished
  | sendInLoop (m : Message τ)
  | shutdownInLoop
  | handleClose
  | connectDestroyed
  | user (x : υ)
  deriving DecidableEq, Repr

/-- What a step makes the connection do. `shutdown` and `forceClose` are the parts
of these calls before `runInLoop`; the `Now` versions include the functor that
`runInLoop` runs inline on the loop thread. -/
inductive Op (τ : Type) where
  | idle
  | setRevents (revt : BitVec 32)
  | sendInLoop (m : Message τ) (w : WriteResult)
  | shutdown
  | shutdownNow
  | shutdownInLoop
  | forceClose
  | forceCloseNow
  | handleClose
  | handleError
  | handleRead (r : ReadResult) (retrieved : Nat)
  | handleWrite (w : WriteResult)
  | connectEstablished
  | connectDestroyed

namespace Op

variable {τ : Type}

/-- `inputBuffer_` is a byte queue here, of which the message callback retrieves
some bytes. -/
def run (c : TcpConnection (List UInt8)) : Op τ → TcpConnection (List UInt8) × List Effect
  | .idle => (c, [])
  | .setRevents revt => (c.setRevents revt, [])
  | .sendInLoop m w => c.sendInLoop m.data w
  | .shutdown => (c.shutdown, [])
  | .shutdownNow => (c.shutdown, c.shutdown.shutdownInLoop)
  | .shutdownInLoop => (c, c.shutdownInLoop)
  | .forceClose => (c.forceClose, [])
  | .forceCloseNow => c.forceClose.handleClose
  | .handleClose => c.handleClose
  | .handleError => c.handleError
  | .handleRead r retrieved =>
      c.handleRead (fun input r => input ++ r.data) (fun input => input.drop retrieved) r
  | .handleWrite w => c.handleWrite w
  | .connectEstablished => c.connectEstablished
  | .connectDestroyed => c.connectDestroyed

/-- `write` takes at most what it was given. -/
def Fits (c : TcpConnection (List UInt8)) : Op τ → Prop
  | .sendInLoop m w => w.count ≤ m.data.length
  | .handleWrite w => w.count ≤ c.outputBuffer.length
  | _ => True

instance (c : TcpConnection (List UInt8)) (op : Op τ) : Decidable (op.Fits c) := by
  cases op <;> unfold Fits <;> infer_instance

def record (c : TcpConnection (List UInt8)) : Op τ → List (Message τ × Bool)
  | .sendInLoop m w => [(m, c.faulted w)]
  | _ => []

end Op

/-- The queues and threads around the connection. `todo` holds the callbacks of
the current pass that are still to run, `inFlight` the functors of calls that
have tested `state_` and not yet enqueued, `accepted` the `send()` calls that
found the connection connected. -/
structure Control (τ υ : Type) where
  loop : EventLoop (Functor τ υ)
  todo : List Callback
  inFlight : τ → Option (Functor τ υ)
  registered : Bool
  removals : Nat
  sends : Nat
  accepted : List (Message τ)

structure Endpoint (τ υ : Type) where
  control : Control τ υ
  conn : TcpConnection (List UInt8)
  log : List Effect
  ran : List (Message τ × Bool)

inductive Call where
  | send (data : List UInt8)
  | shutdown
  | forceClose
  deriving DecidableEq, Repr

inductive Input (τ υ : Type) where
  | call (caller : Caller τ) (c : Call) (w : WriteResult)
  | enqueue (t : τ)
  | queueUser (inLoopThread : Bool) (x : υ)
  | poll (events : List (KEvent Unit))
  | callback (r : ReadResult) (retrieved : Nat) (w : WriteResult)
  | doPendingFunctors
  | functor (w : WriteResult)
  | endPendingFunctors
  | removeConnectionInLoop (inLoopThread : Bool)

namespace Control

variable {τ υ : Type} [DecidableEq τ]

def free (b : Control τ υ) : Caller τ → Bool
  | .loopThread => true
  | .other t => (b.inFlight t).isNone

def setInFlight (b : Control τ υ) (t : τ) (f : Option (Functor τ υ)) : Control τ υ :=
  { b with inFlight := Function.update b.inFlight t f }

def noteSend (b : Control τ υ) (m : Message τ) : Control τ υ :=
  { b with sends := b.sends + 1, accepted := b.accepted ++ [m] }

def queueInLoop (b : Control τ υ) (inLoopThread : Bool) (f : Functor τ υ) : Control τ υ :=
  { b with loop := b.loop.queueInLoop inLoopThread f }

omit [DecidableEq τ] in
@[simp] theorem accepted_noteSend (b : Control τ υ) (m : Message τ) :
    (b.noteSend m).accepted = b.accepted ++ [m] := rfl

omit [DecidableEq τ] in
@[simp] theorem loop_noteSend (b : Control τ υ) (m : Message τ) : (b.noteSend m).loop = b.loop := rfl

omit [DecidableEq τ] in
@[simp] theorem inFlight_noteSend (b : Control τ υ) (m : Message τ) :
    (b.noteSend m).inFlight = b.inFlight := rfl

@[simp] theorem accepted_setInFlight (b : Control τ υ) (t : τ) (f : Option (Functor τ υ)) :
    (b.setInFlight t f).accepted = b.accepted := rfl

@[simp] theorem loop_setInFlight (b : Control τ υ) (t : τ) (f : Option (Functor τ υ)) :
    (b.setInFlight t f).loop = b.loop := rfl

theorem forall_setInFlight {P : τ → Functor τ υ → Prop} {b : Control τ υ}
    {f : Option (Functor τ υ)} {t : τ} (h : ∀ u g, b.inFlight u = some g → P u g)
    (hf : ∀ g, f = some g → P t g) : ∀ u g, (b.setInFlight t f).inFlight u = some g → P u g := by
  intro u g hg
  by_cases hu : u = t
  · subst hu
    exact hf g (by simpa [setInFlight] using hg)
  · exact h u g (by simpa [setInFlight, hu] using hg)

omit [DecidableEq τ] in
@[simp] theorem accepted_queueInLoop (b : Control τ υ) (inLoopThread : Bool) (f : Functor τ υ) :
    (b.queueInLoop inLoopThread f).accepted = b.accepted := rfl

omit [DecidableEq τ] in
@[simp] theorem inFlight_queueInLoop (b : Control τ υ) (inLoopThread : Bool) (f : Functor τ υ) :
    (b.queueInLoop inLoopThread f).inFlight = b.inFlight := rfl

omit [DecidableEq τ] in
@[simp] theorem queued_queueInLoop (b : Control τ υ) (inLoopThread : Bool) (f : Functor τ υ) :
    (b.queueInLoop inLoopThread f).loop.queued = b.loop.queued ++ [f] :=
  b.loop.queued_queueInLoop inLoopThread f

end Control

namespace Functor

variable {τ υ : Type}

/-- The operation of a functor; `w` is the outcome of its `write`, if it makes one. -/
def op (w : WriteResult) : Functor τ υ → Op τ
  | .connectEstablished => .connectEstablished
  | .sendInLoop m => .sendInLoop m w
  | .shutdownInLoop => .shutdownInLoop
  | .handleClose => .handleClose
  | .connectDestroyed => .connectDestroyed
  | .user _ => .idle

def message? : Functor τ υ → Option (Message τ)
  | .sendInLoop m => some m
  | _ => none

end Functor

def Callback.op {τ : Type} (r : ReadResult) (retrieved : Nat) (w : WriteResult) : Callback → Op τ
  | .error => .handleError
  | .close => .handleClose
  | .read => .handleRead r retrieved
  | .write => .handleWrite w

namespace Endpoint

variable {τ υ : Type} [DecidableEq τ]

/-! ## Public calls -/

omit [DecidableEq τ] in
def message (s : Endpoint τ υ) (caller : Caller τ) (data : List UInt8) : Message τ :=
  ⟨s.control.sends, caller, data⟩

def planSend (s : Endpoint τ υ) (caller : Caller τ) (data : List UInt8) (w : WriteResult) :
    Control τ υ × Op τ :=
  let m := s.message caller data
  if s.conn.connected then
    match caller with
    | .loopThread => (s.control.noteSend m, .sendInLoop m w)
    | .other t => ((s.control.noteSend m).setInFlight t (some (.sendInLoop m)), .idle)
  else ({ s.control with sends := s.control.sends + 1 }, .idle)

def planShutdown (s : Endpoint τ υ) (caller : Caller τ) : Control τ υ × Op τ :=
  if s.conn.connected then
    match caller with
    | .loopThread => (s.control, .shutdownNow)
    | .other t => (s.control.setInFlight t (some .shutdownInLoop), .shutdown)
  else (s.control, .idle)

def planForceClose (s : Endpoint τ υ) (caller : Caller τ) : Control τ υ × Op τ :=
  if s.conn.closable then
    match caller with
    | .loopThread => (s.control, .forceCloseNow)
    | .other t => (s.control.setInFlight t (some .handleClose), .forceClose)
  else (s.control, .idle)

/-! ## The loop -/

/-- The kernel knows the descriptor only after the first `updateChannel`. -/
def planPoll (s : Endpoint τ υ) (events : List (KEvent Unit)) : Option (Control τ υ × Op τ) :=
  let l := s.control.loop
  if !l.eventHandling && !l.callingPendingFunctors &&
      (events.isEmpty || s.log.contains .updateChannel) then
    let pass := Poller.pass s.conn.channel events
    some ({ s.control with loop := { l with eventHandling := true }, todo := pass.2 },
      .setRevents pass.1.revents)
  else none

def planCallback (s : Endpoint τ υ) (r : ReadResult) (retrieved : Nat) (w : WriteResult) :
    Option (Control τ υ × Op τ) :=
  match s.control.todo with
  | [] => none
  | kind :: todo =>
      if s.control.loop.eventHandling then some ({ s.control with todo }, kind.op r retrieved w)
      else none

def planDoPendingFunctors (s : Endpoint τ υ) : Option (Control τ υ × Op τ) :=
  let l := s.control.loop
  if l.eventHandling && s.control.todo.isEmpty && l.functors.isEmpty then
    some ({ s.control with loop := { l with eventHandling := false }.beginPendingFunctors }, .idle)
  else none

def planFunctor (s : Endpoint τ υ) (w : WriteResult) : Option (Control τ υ × Op τ) :=
  let l := s.control.loop
  match l.functors with
  | [] => none
  | f :: functors =>
      if l.callingPendingFunctors then
        some ({ s.control with loop := { l with functors } }, f.op w)
      else none

def planEndPendingFunctors (s : Endpoint τ υ) : Option (Control τ υ × Op τ) :=
  let l := s.control.loop
  if l.callingPendingFunctors && l.functors.isEmpty then
    some ({ s.control with loop := l.endPendingFunctors }, .idle)
  else none

/-- `TcpServer::removeConnectionInLoop`, once for every call of `closeCallback_`. -/
def planRemove (s : Endpoint τ υ) (inLoopThread : Bool) : Option (Control τ υ × Op τ) :=
  if s.control.removals < s.log.count .closeCallback then
    let b := { s.control with removals := s.control.removals + 1 }
    if b.registered then
      some ({ b with registered := false }.queueInLoop inLoopThread .connectDestroyed, .idle)
    else some (b, .idle)
  else none

/-! ## Steps -/

def plan (s : Endpoint τ υ) : Input τ υ → Option (Control τ υ × Op τ)
  | .call caller c w =>
      if s.control.free caller then
        match c with
        | .send data => some (s.planSend caller data w)
        | .shutdown => some (s.planShutdown caller)
        | .forceClose => some (s.planForceClose caller)
      else none
  | .enqueue t =>
      match s.control.inFlight t with
      | some f => some ((s.control.setInFlight t none).queueInLoop false f, .idle)
      | none => none
  | .queueUser inLoopThread x => some (s.control.queueInLoop inLoopThread (.user x), .idle)
  | .poll events => s.planPoll events
  | .callback r retrieved w => s.planCallback r retrieved w
  | .doPendingFunctors => s.planDoPendingFunctors
  | .functor w => s.planFunctor w
  | .endPendingFunctors => s.planEndPendingFunctors
  | .removeConnectionInLoop inLoopThread => s.planRemove inLoopThread

omit [DecidableEq τ] in
def perform (s : Endpoint τ υ) (b : Control τ υ) (op : Op τ) : Endpoint τ υ :=
  ⟨b, (op.run s.conn).1, s.log ++ (op.run s.conn).2, s.ran ++ op.record s.conn⟩

omit [DecidableEq τ] in
@[simp] theorem perform_control (s : Endpoint τ υ) (b : Control τ υ) (op : Op τ) :
    (s.perform b op).control = b := rfl

omit [DecidableEq τ] in
@[simp] theorem perform_conn (s : Endpoint τ υ) (b : Control τ υ) (op : Op τ) :
    (s.perform b op).conn = (op.run s.conn).1 := rfl

omit [DecidableEq τ] in
@[simp] theorem perform_log (s : Endpoint τ υ) (b : Control τ υ) (op : Op τ) :
    (s.perform b op).log = s.log ++ (op.run s.conn).2 := rfl

omit [DecidableEq τ] in
@[simp] theorem perform_ran (s : Endpoint τ υ) (b : Control τ υ) (op : Op τ) :
    (s.perform b op).ran = s.ran ++ op.record s.conn := rfl

def step (s : Endpoint τ υ) (i : Input τ υ) : Option (Endpoint τ υ) :=
  match s.plan i with
  | none => none
  | some (b, op) => if op.Fits s.conn then some (s.perform b op) else none

def machine (τ υ : Type) [DecidableEq τ] : Machine (Endpoint τ υ) (Input τ υ) := ⟨step⟩

omit [DecidableEq τ] in
/-- A connection in `connections_`, its I/O loop busy with foreign work `l`. -/
def registered (l : EventLoop υ) (sockfd : Nat) (connectionCallback messageCallback : Bool) :
    Endpoint τ υ where
  control :=
    { loop := l.map .user
      todo := []
      inFlight := fun _ => none
      registered := true
      removals := 0
      sends := 0
      accepted := [] }
  conn := TcpConnection.new sockfd [] connectionCallback messageCallback
  log := []
  ran := []

omit [DecidableEq τ] in
/-- `newConnection` ends with `ioLoop->runInLoop(connectEstablished)`, which runs at
once where the base loop is the I/O loop. -/
def accept (inLoopThread : Bool) (l : EventLoop υ) (sockfd : Nat)
    (connectionCallback messageCallback : Bool) : Endpoint τ υ :=
  let s := registered l sockfd connectionCallback messageCallback
  if inLoopThread then s.perform s.control .connectEstablished
  else s.perform (s.control.queueInLoop false .connectEstablished) .idle

/-! ## Inversion -/

/-- What one step can do: the queues after it and the operation it performs. -/
inductive Moves (s : Endpoint τ υ) : Input τ υ → Control τ υ → Op τ → Prop
  | sendDropped {caller : Caller τ} {data : List UInt8} {w : WriteResult} :
      s.control.free caller → s.conn.state ≠ .connected →
      Moves s (.call caller (.send data) w) { s.control with sends := s.control.sends + 1 } .idle
  | sendNow {data : List UInt8} {w : WriteResult} :
      s.conn.state = .connected →
      Moves s (.call .loopThread (.send data) w) (s.control.noteSend (s.message .loopThread data))
        (.sendInLoop (s.message .loopThread data) w)
  | sendLater {t : τ} {data : List UInt8} {w : WriteResult} :
      s.control.inFlight t = none → s.conn.state = .connected →
      Moves s (.call (.other t) (.send data) w)
        ((s.control.noteSend (s.message (.other t) data)).setInFlight t
          (some (.sendInLoop (s.message (.other t) data)))) .idle
  | ignored {caller : Caller τ} {c : Call} {w : WriteResult} :
      s.control.free caller → (c = .shutdown ∧ s.conn.state ≠ .connected ∨
        c = .forceClose ∧ s.conn.closable = false) →
      Moves s (.call caller c w) s.control .idle
  | shutdownNow {w : WriteResult} :
      s.conn.state = .connected →
      Moves s (.call .loopThread .shutdown w) s.control .shutdownNow
  | shutdownLater {t : τ} {w : WriteResult} :
      s.control.inFlight t = none → s.conn.state = .connected →
      Moves s (.call (.other t) .shutdown w)
        (s.control.setInFlight t (some .shutdownInLoop)) .shutdown
  | forceCloseNow {w : WriteResult} :
      s.conn.closable = true →
      Moves s (.call .loopThread .forceClose w) s.control .forceCloseNow
  | forceCloseLater {t : τ} {w : WriteResult} :
      s.control.inFlight t = none → s.conn.closable = true →
      Moves s (.call (.other t) .forceClose w)
        (s.control.setInFlight t (some .handleClose)) .forceClose
  | enqueue {t : τ} {f : Functor τ υ} :
      s.control.inFlight t = some f →
      Moves s (.enqueue t) ((s.control.setInFlight t none).queueInLoop false f) .idle
  | queueUser {inLoopThread : Bool} {x : υ} :
      Moves s (.queueUser inLoopThread x) (s.control.queueInLoop inLoopThread (.user x)) .idle
  | poll {events : List (KEvent Unit)} :
      s.control.loop.eventHandling = false → s.control.loop.callingPendingFunctors = false →
      (events = [] ∨ Effect.updateChannel ∈ s.log) →
      Moves s (.poll events)
        { s.control with
          loop := { s.control.loop with eventHandling := true }
          todo := (Poller.pass s.conn.channel events).2 }
        (.setRevents (Poller.pass s.conn.channel events).1.revents)
  | callback {r : ReadResult} {retrieved : Nat} {w : WriteResult} {kind : Callback}
      {todo : List Callback} :
      s.control.todo = kind :: todo → s.control.loop.eventHandling = true →
      Moves s (.callback r retrieved w) { s.control with todo } (kind.op r retrieved w)
  | doPendingFunctors :
      s.control.loop.eventHandling = true → s.control.todo = [] →
      s.control.loop.functors = [] →
      Moves s .doPendingFunctors
        { s.control with
          loop := { s.control.loop with eventHandling := false }.beginPendingFunctors } .idle
  | functor {w : WriteResult} {f : Functor τ υ} {functors : List (Functor τ υ)} :
      s.control.loop.functors = f :: functors → s.control.loop.callingPendingFunctors = true →
      Moves s (.functor w) { s.control with loop := { s.control.loop with functors } } (f.op w)
  | endPendingFunctors :
      s.control.loop.functors = [] → s.control.loop.callingPendingFunctors = true →
      Moves s .endPendingFunctors
        { s.control with loop := s.control.loop.endPendingFunctors } .idle
  | remove {inLoopThread : Bool} :
      s.control.registered = true → s.control.removals < s.log.count .closeCallback →
      Moves s (.removeConnectionInLoop inLoopThread)
        (Control.queueInLoop
          { s.control with removals := s.control.removals + 1, registered := false } inLoopThread
          .connectDestroyed) .idle
  | removeAgain {inLoopThread : Bool} :
      s.control.registered = false → s.control.removals < s.log.count .closeCallback →
      Moves s (.removeConnectionInLoop inLoopThread)
        { s.control with removals := s.control.removals + 1 } .idle

theorem planSend_moves {s : Endpoint τ υ} {caller : Caller τ} (data : List UInt8)
    (w : WriteResult) (hfree : s.control.free caller = true) :
    Moves s (.call caller (.send data) w) (s.planSend caller data w).1
      (s.planSend caller data w).2 := by
  by_cases hconn : s.conn.state = .connected
  · cases caller with
    | loopThread =>
        simp only [planSend, TcpConnection.connected, hconn, beq_self_eq_true, if_true]
        exact .sendNow hconn
    | other t =>
        simp only [planSend, TcpConnection.connected, hconn, beq_self_eq_true, if_true]
        exact .sendLater (by simpa [Control.free] using hfree) hconn
  · simp only [planSend, TcpConnection.connected, beq_iff_eq, hconn, if_false]
    exact .sendDropped hfree hconn

theorem planShutdown_moves {s : Endpoint τ υ} {caller : Caller τ} {w : WriteResult}
    (hfree : s.control.free caller = true) :
    Moves s (.call caller .shutdown w) (s.planShutdown caller).1 (s.planShutdown caller).2 := by
  by_cases hconn : s.conn.state = .connected
  · cases caller with
    | loopThread =>
        simp only [planShutdown, TcpConnection.connected, hconn, beq_self_eq_true, if_true]
        exact .shutdownNow hconn
    | other t =>
        simp only [planShutdown, TcpConnection.connected, hconn, beq_self_eq_true, if_true]
        exact .shutdownLater (by simpa [Control.free] using hfree) hconn
  · simp only [planShutdown, TcpConnection.connected, beq_iff_eq, hconn, if_false]
    exact .ignored hfree (.inl ⟨rfl, hconn⟩)

theorem planForceClose_moves {s : Endpoint τ υ} {caller : Caller τ} {w : WriteResult}
    (hfree : s.control.free caller = true) :
    Moves s (.call caller .forceClose w) (s.planForceClose caller).1
      (s.planForceClose caller).2 := by
  cases hconn : s.conn.closable with
  | true =>
      cases caller with
      | loopThread =>
          simp only [planForceClose, hconn, if_true]
          exact .forceCloseNow hconn
      | other t =>
          simp only [planForceClose, hconn, if_true]
          exact .forceCloseLater (by simpa [Control.free] using hfree) hconn
  | false =>
      simp only [planForceClose, hconn, Bool.false_eq_true, if_false]
      exact .ignored hfree (.inr ⟨rfl, hconn⟩)

theorem plan_moves {s : Endpoint τ υ} {i : Input τ υ} {b : Control τ υ} {op : Op τ}
    (h : s.plan i = some (b, op)) : Moves s i b op := by
  cases i with
  | call caller c w =>
      simp only [plan] at h
      split at h
      · rename_i hfree
        cases c with
        | send data =>
            rw [Option.some.injEq] at h
            simpa only [h] using planSend_moves data w hfree
        | shutdown =>
            rw [Option.some.injEq] at h
            simpa only [h] using planShutdown_moves hfree
        | forceClose =>
            rw [Option.some.injEq] at h
            simpa only [h] using planForceClose_moves hfree
      · cases h
  | enqueue t =>
      simp only [plan] at h
      split at h
      · rename_i f hf
        cases h
        exact .enqueue hf
      · cases h
  | queueUser inLoopThread x =>
      cases h
      exact .queueUser
  | poll events =>
      simp only [plan, planPoll] at h
      split at h
      · rename_i hidle
        cases h
        simp only [Bool.and_eq_true, Bool.not_eq_true', Bool.or_eq_true, List.isEmpty_iff,
          List.contains_iff_mem] at hidle
        exact .poll hidle.1.1 hidle.1.2 hidle.2
      · cases h
  | callback r retrieved w =>
      simp only [plan, planCallback] at h
      split at h
      · cases h
      · rename_i kind todo htodo
        split at h
        · rename_i hhandling
          cases h
          exact .callback htodo hhandling
        · cases h
  | doPendingFunctors =>
      simp only [plan, planDoPendingFunctors] at h
      split at h
      · rename_i hidle
        cases h
        simp only [Bool.and_eq_true, List.isEmpty_iff] at hidle
        exact .doPendingFunctors hidle.1.1 hidle.1.2 hidle.2
      · cases h
  | functor w =>
      simp only [plan, planFunctor] at h
      split at h
      · cases h
      · rename_i f functors hfunctors
        split at h
        · rename_i hcalling
          cases h
          exact .functor hfunctors hcalling
        · cases h
  | endPendingFunctors =>
      simp only [plan, planEndPendingFunctors] at h
      split at h
      · rename_i hidle
        cases h
        simp only [Bool.and_eq_true, List.isEmpty_iff] at hidle
        exact .endPendingFunctors hidle.2 hidle.1
      · cases h
  | removeConnectionInLoop inLoopThread =>
      simp only [plan, planRemove] at h
      split at h
      · rename_i hlt
        split at h
        · rename_i hregistered
          cases h
          exact .remove hregistered hlt
        · rename_i hregistered
          cases h
          exact .removeAgain (by simpa using hregistered) hlt
      · cases h

theorem step_spec {s t : Endpoint τ υ} {i : Input τ υ} (h : s.step i = some t) :
    ∃ b op, Moves s i b op ∧ op.Fits s.conn ∧ t = s.perform b op := by
  unfold step at h
  split at h
  · cases h
  · rename_i b op hplan
    split at h
    · rename_i hfits
      exact ⟨b, op, plan_moves hplan, hfits, (Option.some.inj h).symm⟩
    · cases h

end Endpoint

end Hayai
