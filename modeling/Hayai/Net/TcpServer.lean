import Hayai.Machine.Run
import Hayai.Net.Endpoint
import Hayai.Net.EventLoop
import Hayai.Net.Poller
import Mathlib.Algebra.Group.Nat.Defs
import Mathlib.Data.List.Sort

/-! # A server and its loops

`net/TcpServer.cc` after `start()`: the base loop, which accepts and keeps the registry,
the I/O loops of the pool and the connections spread over them, with any number of
foreign threads. Loop 0 is the base loop; the pool's loops are numbered from 1. A thread
that calls `runInLoop` or `queueInLoop` holds the functor in flight; its next step runs it
or pushes it onto the loop's queue, and the steps of other threads may come in between.

Callbacks run user code last, or when nothing the connection still does depends on it, so
calls made from inside a callback are calls of that loop's thread in the next steps.
-/

namespace Hayai

inductive Thread (τ : Type) where
  | loop (l : Nat)
  | other (t : τ)
  deriving DecidableEq, Repr

/-- A functor in the queue of some loop. Connections are numbered as they are accepted. -/
inductive Task (τ υ : Type) where
  | conn (c : Nat) (f : Functor (Thread τ) Empty)
  | removeConnectionInLoop (c : Nat)
  | stop
  | user (x : υ)
  deriving DecidableEq, Repr

/-- A functor on its way to a loop, by `runInLoop` (`inline`) or by `queueInLoop`. -/
structure Job (τ υ : Type) where
  loop : Nat
  task : Task τ υ
  inline : Bool
  deriving DecidableEq, Repr

/-- One execution of a member function: who ran it, what it found and what it did. -/
structure Entry (τ : Type) where
  thread : Thread τ
  found : ConnState
  op : Op (Thread τ)
  effects : List Effect

/-- A connection with its loop. `removals` counts the `removeConnectionInLoop` calls made
for it. -/
structure Connection (τ : Type) where
  name : String
  loop : Nat
  conn : TcpConnection (List UInt8)
  history : List (Entry τ)
  removals : Nat

def Connection.act {τ : Type} (x : Connection τ) (θ : Thread τ) (op : Op (Thread τ)) :
    Connection τ :=
  let p := op.run x.conn
  { x with conn := p.1, history := x.history ++ [⟨θ, x.conn.state, op, p.2⟩] }

/-- A loop with the callbacks of its current pass; `none` is the acceptor's channel. -/
structure IoLoop (τ υ : Type) where
  loop : EventLoop (Task τ υ)
  todo : List (Option Nat × Callback)

inductive Access where
  | newConnection (c : Nat)
  | removeConnection (c : Nat)
  | removeConnectionInLoop (c : Nat)
  | stop
  deriving DecidableEq, Repr

/-- `next` and `nextConnId` are 64-bit and 32-bit; `connections` is sorted by name, as the
`std::map` is; `stopping` is the vector over which the functor of `stop()` still loops.
`posted` has every functor that was pushed, with its loop. -/
structure Server (τ υ : Type) where
  name : String
  connectionCallback : Bool
  messageCallback : Bool
  numThreads : Nat
  next : Nat
  nextConnId : Int
  acceptor : Option Channel
  connections : List (String × Nat)
  accepted : Nat
  conns : Nat → Connection τ
  loops : Nat → IoLoop τ υ
  inFlight : Thread τ → Option (Job τ υ)
  stopping : List Nat
  sends : Nat
  posted : List (Nat × Task τ υ)
  accesses : List (Thread τ × Access)
  aborted : Bool

inductive ServerInput (τ υ : Type) where
  | call (θ : Thread τ) (c : Nat) (k : Call)
  | stop (θ : Thread τ)
  | stopNext
  | deliver (θ : Thread τ) (w : WriteResult)
  | queueUser (θ : Thread τ) (l : Nat) (x : υ)
  | poll (l : Nat) (events : List (KEvent (Option Nat)))
  | callback (l : Nat) (r : ReadResult) (retrieved : Nat) (w : WriteResult) (sockfd : Option Nat)
  | doPendingFunctors (l : Nat)
  | functor (l : Nat) (w : WriteResult)
  | endPendingFunctors (l : Nat)

def ServerInput.thread {τ υ : Type} : ServerInput τ υ → Thread τ
  | .call θ _ _ | .stop θ | .deliver θ _ | .queueUser θ _ _ => θ
  | .stopNext => .loop 0
  | .poll l _ | .callback l _ _ _ _ | .doPendingFunctors l | .functor l _
  | .endPendingFunctors l => .loop l

def Op.asserts {τ : Type} : Op τ → Bool
  | .idle | .setRevents _ | .shutdown | .forceClose | .handleError => false
  | _ => true

namespace Server

variable {τ υ : Type}

/-! ## Parts of the state -/

def setConn (s : Server τ υ) (c : Nat) (x : Connection τ) : Server τ υ :=
  { s with conns := Function.update s.conns c x }

@[simp] theorem conns_setConn_self (s : Server τ υ) (c : Nat) (x : Connection τ) :
    (s.setConn c x).conns c = x := by
  simp [setConn]

theorem conns_setConn_of_ne {s : Server τ υ} {c d : Nat} (h : d ≠ c) (x : Connection τ) :
    (s.setConn c x).conns d = s.conns d := by
  simp [setConn, h]

def setIo (s : Server τ υ) (l : Nat) (io : IoLoop τ υ) : Server τ υ :=
  { s with loops := Function.update s.loops l io }

@[simp] theorem loops_setIo_self (s : Server τ υ) (l : Nat) (io : IoLoop τ υ) :
    (s.setIo l io).loops l = io := by
  simp [setIo]

theorem loops_setIo_of_ne {s : Server τ υ} {l m : Nat} (h : m ≠ l) (io : IoLoop τ υ) :
    (s.setIo l io).loops m = s.loops m := by
  simp [setIo, h]

def setLoop (s : Server τ υ) (l : Nat) (loop : EventLoop (Task τ υ)) : Server τ υ :=
  s.setIo l { s.loops l with loop }

def setTodo (s : Server τ υ) (l : Nat) (todo : List (Option Nat × Callback)) : Server τ υ :=
  s.setIo l { s.loops l with todo }

def note (s : Server τ υ) (θ : Thread τ) (a : Access) : Server τ υ :=
  { s with accesses := s.accesses ++ [(θ, a)] }

def erase (s : Server τ υ) (name : String) : Server τ υ :=
  { s with connections := s.connections.filter (·.1 ≠ name) }

def abort (s : Server τ υ) : Server τ υ := { s with aborted := true }

variable [DecidableEq τ]

def setFlight (s : Server τ υ) (θ : Thread τ) (j : Option (Job τ υ)) : Server τ υ :=
  { s with inFlight := Function.update s.inFlight θ j }

@[simp] theorem inFlight_setFlight_self (s : Server τ υ) (θ : Thread τ) (j : Option (Job τ υ)) :
    (s.setFlight θ j).inFlight θ = j := by
  simp [setFlight]

theorem inFlight_setFlight_of_ne {s : Server τ υ} {θ θ' : Thread τ} (h : θ' ≠ θ)
    (j : Option (Job τ υ)) : (s.setFlight θ j).inFlight θ' = s.inFlight θ' := by
  simp [setFlight, h]

/-! ## Loops -/

def runInLoop (s : Server τ υ) (θ : Thread τ) (l : Nat) (k : Task τ υ) : Server τ υ :=
  s.setFlight θ (some ⟨l, k, true⟩)

def queueInLoop (s : Server τ υ) (θ : Thread τ) (l : Nat) (k : Task τ υ) : Server τ υ :=
  s.setFlight θ (some ⟨l, k, false⟩)

/-- The critical section of `queueInLoop`, and its wakeup. -/
def push (s : Server τ υ) (θ : Thread τ) (l : Nat) (k : Task τ υ) : Server τ υ :=
  { s.setLoop l ((s.loops l).loop.queueInLoop (θ = .loop l) k) with
    posted := s.posted ++ [(l, k)] }

/-! ## Members -/

def act (s : Server τ υ) (θ : Thread τ) (c : Nat) (op : Op (Thread τ)) : Server τ υ :=
  s.setConn c ((s.conns c).act θ op)

def removeConnectionInLoop (s : Server τ υ) (θ : Thread τ) (c : Nat) : Server τ υ :=
  if θ = .loop 0 then
    let x := s.conns c
    let t := (s.note θ (.removeConnectionInLoop c)).setConn c { x with removals := x.removals + 1 }
    let n := s.connections.countP (·.1 = x.name)
    if n = 0 then t
    else (t.erase x.name).queueInLoop θ x.loop (.conn c .connectDestroyed)
  else s.abort

/-- The server's `closeCallback_`. -/
def removeConnection (s : Server τ υ) (θ : Thread τ) (c : Nat) : Server τ υ :=
  (s.note θ (.removeConnection c)).runInLoop θ 0 (.removeConnectionInLoop c)

/-- A member of connection `c` on thread `θ`, with the close callback if it calls that. -/
def exec (s : Server τ υ) (θ : Thread τ) (c : Nat) (op : Op (Thread τ)) : Server τ υ :=
  if op.asserts && decide (θ ≠ .loop (s.conns c).loop) then s.abort
  else
    let closes := (op.run (s.conns c).conn).2.contains .closeCallback
    let t := s.act θ c op
    if closes then t.removeConnection θ c else t

/-- The functor that `stop()` runs on the base loop, up to its loop over the copies. -/
def stopInLoop (s : Server τ υ) (θ : Thread τ) : Server τ υ :=
  { s.note θ .stop with acceptor := none, stopping := s.connections.map Prod.snd }

def perform (s : Server τ υ) (θ : Thread τ) (w : WriteResult) : Task τ υ → Server τ υ
  | .conn c f => s.exec θ c (f.op w)
  | .removeConnectionInLoop c => s.removeConnectionInLoop θ c
  | .stop => s.stopInLoop θ
  | .user _ => s

def deliver (s : Server τ υ) (θ : Thread τ) (w : WriteResult) (j : Job τ υ) : Server τ υ :=
  let t := s.setFlight θ none
  if j.inline ∧ θ = .loop j.loop then t.perform θ w j.task else t.push θ j.loop j.task

/-! ## Public calls -/

def call (s : Server τ υ) (θ : Thread τ) (c : Nat) : Call → Server τ υ
  | .send data =>
      let t : Server τ υ := { s with sends := s.sends + 1 }
      if (s.conns c).conn.connected then
        t.runInLoop θ (s.conns c).loop (.conn c (.sendInLoop ⟨s.sends, .other θ, data⟩))
      else t
  | .shutdown =>
      if (s.conns c).conn.connected then
        (s.act θ c .shutdown).runInLoop θ (s.conns c).loop (.conn c .shutdownInLoop)
      else s
  | .forceClose =>
      if (s.conns c).conn.closable then
        (s.act θ c .forceClose).runInLoop θ (s.conns c).loop (.conn c .handleClose)
      else s

/-! ## Accepting -/

def getNextLoop (s : Server τ υ) : Nat × Server τ υ :=
  if s.numThreads = 0 then (0, s)
  else (s.next % s.numThreads + 1, { s with next := (s.next + 1) % 2 ^ 64 })

/-- `std::format("{}#{}", name_, nextConnId_++)`. -/
def connName (s : Server τ υ) : String := s.name ++ "#" ++ toString s.nextConnId

/-- `newConnection` up to its last line. -/
def register (s : Server τ υ) (θ : Thread τ) (sockfd l : Nat) : Server τ υ :=
  let x : Connection τ := ⟨s.connName, l,
    TcpConnection.new sockfd [] s.connectionCallback s.messageCallback, [], 0⟩
  let t := (s.note θ (.newConnection s.accepted)).setConn s.accepted x
  { t.erase x.name with
    nextConnId := Int.bmod (s.nextConnId + 1) (2 ^ 32)
    accepted := s.accepted + 1
    connections := (t.erase x.name).connections.orderedInsert (·.1 ≤ ·.1) (x.name, s.accepted) }

omit [DecidableEq τ] in
theorem conns_register_self (s : Server τ υ) (θ : Thread τ) (sockfd l : Nat) :
    (s.register θ sockfd l).conns s.accepted = ⟨s.connName, l,
      TcpConnection.new sockfd [] s.connectionCallback s.messageCallback, [], 0⟩ :=
  conns_setConn_self _ _ _

omit [DecidableEq τ] in
theorem conns_register_of_ne {s : Server τ υ} {c : Nat} (hc : c ≠ s.accepted) (θ : Thread τ)
    (sockfd l : Nat) : (s.register θ sockfd l).conns c = s.conns c :=
  conns_setConn_of_ne hc _

omit [DecidableEq τ] in
theorem inFlight_register (s : Server τ υ) (θ : Thread τ) (sockfd l : Nat) :
    (s.register θ sockfd l).inFlight = s.inFlight := rfl

def newConnection (s : Server τ υ) (θ : Thread τ) (sockfd : Nat) : Server τ υ :=
  if θ = .loop 0 then
    let p := s.getNextLoop
    (p.2.register θ sockfd p.1).runInLoop θ p.1 (.conn s.accepted .connectEstablished)
  else s.abort

/-- The next callback of the pass. The acceptor's is `Acceptor::handleRead`; it is gone
with the acceptor. -/
def callback (s : Server τ υ) (l : Nat) (r : ReadResult) (retrieved : Nat) (w : WriteResult)
    (sockfd : Option Nat) : Option Nat → Callback → Option (Server τ υ)
  | some c, kind =>
      if Op.Fits (s.conns c).conn (kind.op (τ := Thread τ) r retrieved w) then
        some (s.exec (.loop l) c (kind.op r retrieved w))
      else none
  | none, _ =>
      if s.acceptor.isSome then
        match sockfd with
        | some sockfd => some (s.newConnection (.loop l) sockfd)
        | none => some s
      else none

/-! ## The loops' threads -/

def channels (s : Server τ υ) : Option Nat → Channel
  | none => s.acceptor.getD (Channel.new 0)
  | some c => (s.conns c).conn.channel

/-- What kqueue promises: an entry is for a channel of this loop, and its filter is in the
channel's mask. -/
def MayReport (s : Server τ υ) (l : Nat) (e : KEvent (Option Nat)) : Prop :=
  (match e.udata with
    | none => l = 0 ∧ s.acceptor.isSome
    | some c => c < s.accepted ∧ (s.conns c).loop = l) ∧
  match e.filter with
  | .read => (s.channels e.udata).isReading
  | .write => (s.channels e.udata).isWriting

instance (s : Server τ υ) (l : Nat) (e : KEvent (Option Nat)) : Decidable (s.MayReport l e) := by
  unfold MayReport
  cases e.udata <;> cases e.filter <;> infer_instance

def poll (s : Server τ υ) (l : Nat) (events : List (KEvent (Option Nat))) : Server τ υ :=
  let filled := Poller.fillActiveChannels s.channels events
  let todo := filled.2.flatMap fun k => ((filled.1 k).handleEvent true).map (Prod.mk k)
  { s.setIo l ⟨{ (s.loops l).loop with eventHandling := true }, todo⟩ with
    conns := fun c =>
      { s.conns c with conn := (s.conns c).conn.setRevents (filled.1 (some c)).revents } }

def loopOf (s : Server τ υ) (c : Nat) : Option Nat :=
  if c < s.accepted then some (s.conns c).loop else none

/-- The thread is not in the middle of a call or of the functor of `stop()`. -/
def Free (s : Server τ υ) (θ : Thread τ) : Prop :=
  s.inFlight θ = none ∧ (θ = .loop 0 → s.stopping = [])

instance (s : Server τ υ) (θ : Thread τ) : Decidable (s.Free θ) :=
  inferInstanceAs (Decidable (_ ∧ _))

end Server

/-- `write` takes at most what it was given. -/
def Task.Fits {τ υ : Type} (w : WriteResult) : Task τ υ → Prop
  | .conn _ (.sendInLoop m) => w.count ≤ m.data.length
  | _ => True

instance {τ υ : Type} (w : WriteResult) (k : Task τ υ) : Decidable (k.Fits w) := by
  unfold Task.Fits
  split <;> infer_instance

namespace Server

variable {τ υ : Type} [DecidableEq τ]

def step (s : Server τ υ) : ServerInput τ υ → Option (Server τ υ)
  | .call θ c k =>
      if s.aborted = false ∧ s.Free θ ∧ c < s.accepted then some (s.call θ c k) else none
  | .stop θ =>
      if s.aborted = false ∧ s.Free θ then some (s.runInLoop θ 0 .stop) else none
  | .stopNext =>
      match s.stopping with
      | c :: stopping =>
          if s.aborted = false ∧ s.inFlight (.loop 0) = none then
            some (({ s with stopping } : Server τ υ).call (.loop 0) c .shutdown)
          else none
      | [] => none
  | .deliver θ w =>
      match s.inFlight θ with
      | some j => if s.aborted = false ∧ j.task.Fits w then some (s.deliver θ w j) else none
      | none => none
  | .queueUser θ l x =>
      if s.aborted = false ∧ s.Free θ then some (s.queueInLoop θ l (.user x)) else none
  | .poll l events =>
      let io := s.loops l
      if s.aborted = false ∧ s.Free (.loop l) ∧ io.loop.eventHandling = false ∧
          io.loop.callingPendingFunctors = false ∧ ∀ e ∈ events, s.MayReport l e then
        some (s.poll l events)
      else none
  | .callback l r retrieved w sockfd =>
      let io := s.loops l
      match io.todo with
      | (k, kind) :: todo =>
          if s.aborted = false ∧ s.Free (.loop l) ∧ io.loop.eventHandling then
            (s.setTodo l todo).callback l r retrieved w sockfd k kind
          else none
      | [] => none
  | .doPendingFunctors l =>
      let io := s.loops l
      if s.aborted = false ∧ s.Free (.loop l) ∧ io.loop.eventHandling ∧ io.todo = [] ∧
          io.loop.functors = [] then
        some (s.setLoop l { io.loop with eventHandling := false }.beginPendingFunctors)
      else none
  | .functor l w =>
      let io := s.loops l
      match io.loop.functors with
      | k :: functors =>
          if s.aborted = false ∧ s.Free (.loop l) ∧ io.loop.callingPendingFunctors ∧ k.Fits w then
            some ((s.setLoop l { io.loop with functors }).perform (.loop l) w k)
          else none
      | [] => none
  | .endPendingFunctors l =>
      let io := s.loops l
      if s.aborted = false ∧ s.Free (.loop l) ∧ io.loop.callingPendingFunctors ∧
          io.loop.functors = [] then
        some (s.setLoop l io.loop.endPendingFunctors)
      else none

def machine (τ υ : Type) [DecidableEq τ] : Machine (Server τ υ) (ServerInput τ υ) := ⟨step⟩

/-- Right after `start()` on the base loop's thread, with `numThreads` loops in the pool. -/
def start (name : String) (numThreads : Nat) (connectionCallback messageCallback : Bool) :
    Server τ υ where
  name := name
  connectionCallback := connectionCallback
  messageCallback := messageCallback
  numThreads := numThreads
  next := 0
  nextConnId := 1
  acceptor := some { Channel.new 0 with readCallback := true }.enableReading
  connections := []
  accepted := 0
  conns := fun _ => ⟨"", 0, TcpConnection.new 0 [] false false, [], 0⟩
  loops := fun _ => ⟨.new, []⟩
  inFlight := fun _ => none
  stopping := []
  sends := 0
  posted := []
  accesses := []
  aborted := false

/-! ## Inversion -/

inductive Moves (s : Server τ υ) : ServerInput τ υ → Server τ υ → Prop
  | call {θ : Thread τ} {c : Nat} {k : Call} (hfree : s.Free θ) (hc : c < s.accepted) :
      Moves s (.call θ c k) (s.call θ c k)
  | stop {θ : Thread τ} (hfree : s.Free θ) : Moves s (.stop θ) (s.runInLoop θ 0 .stop)
  | stopNext {c : Nat} {stopping : List Nat} (hstopping : s.stopping = c :: stopping)
      (hidle : s.inFlight (.loop 0) = none) :
      Moves s .stopNext (({ s with stopping } : Server τ υ).call (.loop 0) c .shutdown)
  | deliver {θ : Thread τ} {w : WriteResult} {j : Job τ υ} (hj : s.inFlight θ = some j)
      (hfits : j.task.Fits w) : Moves s (.deliver θ w) (s.deliver θ w j)
  | queueUser {θ : Thread τ} {l : Nat} {x : υ} (hfree : s.Free θ) :
      Moves s (.queueUser θ l x) (s.queueInLoop θ l (.user x))
  | poll {l : Nat} {events : List (KEvent (Option Nat))} (hfree : s.Free (.loop l))
      (hevents : ∀ e ∈ events, s.MayReport l e) : Moves s (.poll l events) (s.poll l events)
  | callback {l : Nat} {r : ReadResult} {retrieved : Nat} {w : WriteResult} {sockfd : Option Nat}
      {c : Nat} {kind : Callback} {todo : List (Option Nat × Callback)}
      (htodo : (s.loops l).todo = (some c, kind) :: todo) (hfree : s.Free (.loop l))
      (hfits : Op.Fits (s.conns c).conn (kind.op (τ := Thread τ) r retrieved w)) :
      Moves s (.callback l r retrieved w sockfd)
        ((s.setTodo l todo).exec (.loop l) c (kind.op r retrieved w))
  | accept {l : Nat} {r : ReadResult} {retrieved : Nat} {w : WriteResult} {sockfd : Nat}
      {kind : Callback} {todo : List (Option Nat × Callback)}
      (htodo : (s.loops l).todo = (none, kind) :: todo) (hfree : s.Free (.loop l))
      (hacceptor : s.acceptor.isSome = true) :
      Moves s (.callback l r retrieved w (some sockfd))
        ((s.setTodo l todo).newConnection (.loop l) sockfd)
  | acceptFailed {l : Nat} {r : ReadResult} {retrieved : Nat} {w : WriteResult}
      {kind : Callback} {todo : List (Option Nat × Callback)}
      (htodo : (s.loops l).todo = (none, kind) :: todo) (hfree : s.Free (.loop l)) :
      Moves s (.callback l r retrieved w none) (s.setTodo l todo)
  | doPendingFunctors {l : Nat} (htodo : (s.loops l).todo = [])
      (hfunctors : (s.loops l).loop.functors = []) :
      Moves s (.doPendingFunctors l)
        (s.setLoop l { (s.loops l).loop with eventHandling := false }.beginPendingFunctors)
  | functor {l : Nat} {w : WriteResult} {k : Task τ υ} {functors : List (Task τ υ)}
      (hfunctors : (s.loops l).loop.functors = k :: functors) (hfree : s.Free (.loop l))
      (hfits : k.Fits w) :
      Moves s (.functor l w)
        ((s.setLoop l { (s.loops l).loop with functors }).perform (.loop l) w k)
  | endPendingFunctors {l : Nat} :
      Moves s (.endPendingFunctors l) (s.setLoop l (s.loops l).loop.endPendingFunctors)

theorem callback_moves {s t : Server τ υ} {l : Nat} {r : ReadResult} {retrieved : Nat}
    {w : WriteResult} {sockfd k : Option Nat} {kind : Callback}
    {todo : List (Option Nat × Callback)} (htodo : (s.loops l).todo = (k, kind) :: todo)
    (hfree : s.Free (.loop l))
    (h : (s.setTodo l todo).callback l r retrieved w sockfd k kind = some t) :
    Moves s (.callback l r retrieved w sockfd) t := by
  cases k with
  | some c =>
      simp only [callback] at h
      split at h
      · next hfits =>
          cases h
          exact .callback htodo hfree hfits
      · cases h
  | none =>
      simp only [callback] at h
      split at h
      · next hacceptor =>
          cases sockfd with
          | some sockfd =>
              cases h
              exact .accept htodo hfree hacceptor
          | none =>
              cases h
              exact .acceptFailed htodo hfree
      · cases h

theorem step_spec {s t : Server τ υ} {i : ServerInput τ υ} (h : s.step i = some t) :
    s.aborted = false ∧ Moves s i t := by
  cases i with
  | call θ c k =>
      simp only [step] at h
      split at h
      · next hguard =>
          cases h
          exact ⟨hguard.1, .call hguard.2.1 hguard.2.2⟩
      · cases h
  | stop θ =>
      simp only [step] at h
      split at h
      · next hguard =>
          cases h
          exact ⟨hguard.1, .stop hguard.2⟩
      · cases h
  | stopNext =>
      simp only [step] at h
      split at h
      · next c stopping hstopping =>
          split at h
          · next hguard =>
              cases h
              exact ⟨hguard.1, .stopNext hstopping hguard.2⟩
          · cases h
      · cases h
  | deliver θ w =>
      simp only [step] at h
      split at h
      · next j hj =>
          split at h
          · next hguard =>
              cases h
              exact ⟨hguard.1, .deliver hj hguard.2⟩
          · cases h
      · cases h
  | queueUser θ l x =>
      simp only [step] at h
      split at h
      · next hguard =>
          cases h
          exact ⟨hguard.1, .queueUser hguard.2⟩
      · cases h
  | poll l events =>
      simp only [step] at h
      split at h
      · next hguard =>
          cases h
          exact ⟨hguard.1, .poll hguard.2.1 hguard.2.2.2.2⟩
      · cases h
  | callback l r retrieved w sockfd =>
      simp only [step] at h
      split at h
      · next k kind todo htodo =>
          split at h
          · next hguard => exact ⟨hguard.1, callback_moves htodo hguard.2.1 h⟩
          · cases h
      · cases h
  | doPendingFunctors l =>
      simp only [step] at h
      split at h
      · next hguard =>
          cases h
          exact ⟨hguard.1, .doPendingFunctors hguard.2.2.2.1 hguard.2.2.2.2⟩
      · cases h
  | functor l w =>
      simp only [step] at h
      split at h
      · next k functors hfunctors =>
          split at h
          · next hguard =>
              cases h
              exact ⟨hguard.1, .functor hfunctors hguard.2.1 hguard.2.2.2⟩
          · cases h
      · cases h
  | endPendingFunctors l =>
      simp only [step] at h
      split at h
      · next hguard =>
          cases h
          exact ⟨hguard.1, .endPendingFunctors⟩
      · cases h

end Server

end Hayai
