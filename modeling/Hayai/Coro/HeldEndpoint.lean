import Hayai.Coro.Binding
import Hayai.Coro.Wake
import Hayai.Machine.Handoff
import Hayai.Net.Lifecycle

/-! # A connection on its way to its coroutine

A connection accepted by `AsyncServer`, from before `connectEstablished`. Its connection
callback makes the first wrapper, which is then moved from one place to another, each move
in one step, until one coroutine awaits `recv()` on it again and again.
-/

namespace Hayai

/-- `self` is the wrapper that the `recv()` in progress refers to; a coroutine handle is
numbered by its suspension. -/
structure HeldEndpoint (ω τ υ : Type) where
  endpoint : Endpoint τ (Wake Unit υ)
  wrappers : Wrappers ω Unit (Unit × Nat)
  self : Option ω
  phase : Handoff.Phase
  suspensions : Nat
  results : List (List UInt8)
  resumed : List (Unit × Nat)
  misresumed : Bool

/-- `own` is what the wrappers' owners do. A step of the connection that calls its
connection callback makes the wrapper at address `w`. -/
inductive HeldInput (ω τ υ : Type) where
  | run (w : ω) (i : Input τ υ)
  | own (i : WrapperInput ω Unit)
  | recvReady (w : ω)
  | recvSuspend (inLoopThread : Bool)
  | recvReturn

def Functor.handle? {τ κ υ : Type} : Functor τ (Wake κ υ) → Option (κ × Nat)
  | .user x => x.handle?
  | _ => none

def Control.resumes {τ κ υ : Type} (b : Control τ (Wake κ υ)) : List (κ × Nat) :=
  b.loop.queued.filterMap Functor.handle?

def Effect.received : Effect → List UInt8
  | .messageCallback data => data
  | _ => []

namespace HeldEndpoint

variable {ω τ υ : Type}

/-! ## Members of the wrapper -/

def stray (s : HeldEndpoint ω τ υ) : HeldEndpoint ω τ υ :=
  { s with wrappers := { s.wrappers with misdelivered := true } }

def queueResume (s : HeldEndpoint ω τ υ) (inLoopThread : Bool) :
    Option (Unit × Nat) → HeldEndpoint ω τ υ
  | none => s
  | some h =>
      { s with endpoint := { s.endpoint with
          control := s.endpoint.control.queueInLoop inLoopThread (.user (.resume h)) } }

variable [DecidableEq ω]

/-- A member of the wrapper at `w` that hands back a handle. -/
def member (s : HeldEndpoint ω τ υ) (w : ω) (inLoopThread : Bool)
    (f : AsyncConnection Unit (Unit × Nat) →
      AsyncConnection Unit (Unit × Nat) × Option (Unit × Nat)) : HeldEndpoint ω τ υ :=
  match s.wrappers.wrapper w with
  | none => s.stray
  | some a =>
      { s with wrappers := s.wrappers.setWrapper w (some (f a).1) }.queueResume inLoopThread (f a).2

/-- `AsyncServer::onConnection` makes a wrapper, whose constructor binds the callbacks. -/
def onConnection (s : HeldEndpoint ω τ υ) (w : ω) : HeldEndpoint ω τ υ :=
  { s with
    wrappers := s.wrappers.construct w (some ())
    endpoint := { s.endpoint with
      conn := { s.endpoint.conn with messageCallback := true, writeCompleteCallback := true } } }

def onMessage (s : HeldEndpoint ω τ υ) (data : List UInt8) : HeldEndpoint ω τ υ :=
  match s.wrappers.messageCallback () with
  | none => s.stray
  | some w => s.member w true (·.onMessage data)

def recvReady (s : HeldEndpoint ω τ υ) (w : ω) : HeldEndpoint ω τ υ :=
  match s.wrappers.wrapper w with
  | none => s.stray
  | some a => { s with self := some w, phase := if a.recvReady then .ready else .unready }

def recvSuspend (s : HeldEndpoint ω τ υ) (inLoopThread : Bool) : HeldEndpoint ω τ υ :=
  match s.self with
  | none => s.stray
  | some w =>
      { s with phase := .suspended, suspensions := s.suspensions + 1 }.member w inLoopThread
        (·.recvSuspend ((), s.suspensions))

def recvResume (s : HeldEndpoint ω τ υ) : HeldEndpoint ω τ υ :=
  match s.self with
  | none => s.stray
  | some w =>
      match s.wrappers.wrapper w with
      | none => s.stray
      | some a =>
          { s with
            self := none
            phase := .away
            wrappers := s.wrappers.setWrapper w (some a.recvResume.1)
            results := s.results ++ [a.recvResume.2] }

/-- `h.resume()`, if the step resumes a coroutine; it goes on if it is in the suspension
that the resume is of. -/
def resume (s : HeldEndpoint ω τ υ) : Option (Unit × Nat) → HeldEndpoint ω τ υ
  | none => s
  | some h =>
      let t := { s with resumed := s.resumed ++ [h] }
      if s.phase = .suspended ∧ s.suspensions = h.2 + 1 then t.recvResume
      else { t with misresumed := true }

/-! ## The connection -/

/-- The callbacks of the connection, whose input buffer had `input` before the read. The
connection callback does nothing when the connection is not connected. -/
def react (w : ω) (input : List UInt8) (s : HeldEndpoint ω τ υ) : Effect → HeldEndpoint ω τ υ
  | .connectionCallback true => s.onConnection w
  | .messageCallback data => s.onMessage (input ++ data)
  | _ => s

def reactAll (s : HeldEndpoint ω τ υ) (w : ω) (input : List UInt8) (effects : List Effect) :
    HeldEndpoint ω τ υ :=
  effects.foldl (react w input) s

omit [DecidableEq ω] in
def lift (s : HeldEndpoint ω τ υ) : Input τ υ → Input τ (Wake Unit υ)
  | .call caller c w => .call caller c w
  | .enqueue t => .enqueue t
  | .queueUser inLoopThread x => .queueUser inLoopThread (.other x)
  | .poll events => .poll events
  | .callback r _ w => .callback r (s.endpoint.conn.inputBuffer ++ r.data).length w
  | .doPendingFunctors => .doPendingFunctors
  | .functor w => .functor w
  | .endPendingFunctors => .endPendingFunctors
  | .removeConnectionInLoop inLoopThread => .removeConnectionInLoop inLoopThread

omit [DecidableEq ω] in
def resumes? (s : HeldEndpoint ω τ υ) : Input τ υ → Option (Unit × Nat)
  | .functor _ => s.endpoint.control.loop.functors.head?.bind Functor.handle?
  | _ => none

variable [DecidableEq τ]

def advance (s : HeldEndpoint ω τ υ) (w : ω) (i : Input τ (Wake Unit υ)) :
    Option (HeldEndpoint ω τ υ) :=
  (s.endpoint.step i).map fun e =>
    { s with endpoint := e }.reactAll w s.endpoint.conn.inputBuffer
      (e.log.drop s.endpoint.log.length)

omit [DecidableEq τ] in
/-- What the owners may do: they move and destroy wrappers, but no wrapper with a `recv()`
in progress, and they neither destroy nor overwrite the one that has the connection. -/
def Owns (s : HeldEndpoint ω τ υ) : WrapperInput ω Unit → Prop
  | .moveConstruct _ other => s.self ≠ some other
  | .moveAssign w other => s.self ≠ some other ∧ (w = other ∨ ¬s.wrappers.Holds w ())
  | .destroy w => ¬s.wrappers.Holds w ()
  | _ => False

instance (s : HeldEndpoint ω τ υ) (i : WrapperInput ω Unit) : Decidable (s.Owns i) := by
  unfold Owns
  split <;> infer_instance

def step (s : HeldEndpoint ω τ υ) : HeldInput ω τ υ → Option (HeldEndpoint ω τ υ)
  | .run w i => (s.advance w (s.lift i)).map fun t => t.resume (s.resumes? i)
  | .own i =>
      if s.Owns i then (s.wrappers.step i).map fun wrappers => { s with wrappers } else none
  | .recvReady w =>
      if s.phase = .away ∧ s.wrappers.Holds w () then some (s.recvReady w) else none
  | .recvSuspend inLoopThread =>
      if s.phase = .unready then some (s.recvSuspend inLoopThread) else none
  | .recvReturn => if s.phase = .ready then some s.recvResume else none

def machine (ω τ υ : Type) [DecidableEq ω] [DecidableEq τ] :
    Machine (HeldEndpoint ω τ υ) (HeldInput ω τ υ) := ⟨step⟩

omit [DecidableEq ω] [DecidableEq τ] in
/-- Nothing has happened to the connection yet but `e`. -/
def fresh (e : Endpoint τ (Wake Unit υ)) : HeldEndpoint ω τ υ where
  endpoint := e
  wrappers := .new
  self := none
  phase := .away
  suspensions := 0
  results := []
  resumed := []
  misresumed := false

omit [DecidableEq τ] in
/-- `newConnection`; on the base loop `connectEstablished` runs at once, and makes the
wrapper at address `w`. The server has no message callback to give. -/
def accept (w : ω) (inLoopThread : Bool) (l : EventLoop υ) (sockfd : Nat) :
    HeldEndpoint ω τ υ :=
  let e := Endpoint.accept inLoopThread (l.map .other) sockfd true false
  (fresh e).reactAll w [] e.log

end HeldEndpoint

end Hayai
