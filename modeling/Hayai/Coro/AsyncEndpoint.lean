import Hayai.Coro.AsyncConnection
import Hayai.Machine.Run
import Hayai.Net.Output

/-! # A connection and its wrapper

A connection accepted by `AsyncServer` with the `AsyncConnection` that its connection
callback makes, and the coroutines that await on it. The connection's callbacks are the
wrapper's members from the first read on. Every await is its own suspension; a resume is a
functor in the queue of the connection's loop, and `await_resume()` runs when that functor
does.
-/

namespace Hayai

/-- An awaited `recv()` by its number, an awaited `send()` by the number of its call. -/
inductive Suspension where
  | recv (n : Nat)
  | send (id : Nat)
  deriving DecidableEq, Repr

inductive Posted (υ : Type) where
  | resume (h : Suspension)
  | other (x : υ)
  deriving DecidableEq, Repr

/-- `checked` has the answer of `await_ready()` for a `recv()` that is between that and its
next member. `resumes` has every resume that was queued, `received` what each `recv()`
returned. -/
structure AsyncEndpoint (τ υ : Type) where
  endpoint : Endpoint τ (Posted υ)
  wrapper : AsyncConnection Unit Suspension
  recvs : Nat
  checked : Nat → Option Bool
  resumes : List Suspension
  received : List (Nat × List UInt8)

inductive AsyncInput (τ υ : Type) where
  | run (i : Input τ υ)
  | send (caller : Caller τ) (data : List UInt8) (w : WriteResult)
  | recvReady
  | recvSuspend (n : Nat) (inLoopThread : Bool)
  | recvReturn (n : Nat)

namespace AsyncEndpoint

variable {τ υ : Type}

/-! ## Resumes -/

def setChecked (s : AsyncEndpoint τ υ) (n : Nat) (b : Option Bool) : AsyncEndpoint τ υ :=
  { s with checked := Function.update s.checked n b }

def queueResume (s : AsyncEndpoint τ υ) (inLoopThread : Bool) :
    Option Suspension → AsyncEndpoint τ υ
  | none => s
  | some h =>
      { s with
        endpoint := s.endpoint.perform
          (s.endpoint.control.queueInLoop inLoopThread (.user (.resume h))) .idle
        resumes := s.resumes ++ [h] }

def recvResume (s : AsyncEndpoint τ υ) (n : Nat) : AsyncEndpoint τ υ :=
  let p := s.wrapper.recvResume
  { s with wrapper := p.1, received := s.received ++ [(n, p.2)] }

/-- A coroutine goes on; `await_resume()` of a `send()` does nothing. -/
def resume (s : AsyncEndpoint τ υ) : Option Suspension → AsyncEndpoint τ υ
  | some (.recv n) => s.recvResume n
  | _ => s

/-! ## Callbacks -/

def react (input : List UInt8) (s : AsyncEndpoint τ υ) : Effect → AsyncEndpoint τ υ
  | .messageCallback data =>
      let p := s.wrapper.onMessage (input ++ data)
      { s with wrapper := p.1 }.queueResume true p.2
  | .writeCompleteCallback =>
      let p := s.wrapper.onWriteComplete
      { s with wrapper := p.1 }.queueResume true p.2
  | _ => s

def reactAll (s : AsyncEndpoint τ υ) (input : List UInt8) (effects : List Effect) :
    AsyncEndpoint τ υ :=
  effects.foldl (react input) s

def lift (s : AsyncEndpoint τ υ) : Input τ υ → Input τ (Posted υ)
  | .call caller c w => .call caller c w
  | .enqueue t => .enqueue t
  | .queueUser inLoopThread x => .queueUser inLoopThread (.other x)
  | .poll events => .poll events
  | .callback r _ w => .callback r (s.endpoint.conn.inputBuffer ++ r.data).length w
  | .doPendingFunctors => .doPendingFunctors
  | .functor w => .functor w
  | .endPendingFunctors => .endPendingFunctors
  | .removeConnectionInLoop inLoopThread => .removeConnectionInLoop inLoopThread

def resumed (s : AsyncEndpoint τ υ) : Input τ υ → Option Suspension
  | .functor _ =>
      match s.endpoint.control.loop.functors with
      | .user (.resume h) :: _ => some h
      | _ => none
  | _ => none

variable [DecidableEq τ]

/-- A step of the connection, with the callbacks it makes. -/
def advance (s : AsyncEndpoint τ υ) (i : Input τ (Posted υ)) : Option (AsyncEndpoint τ υ) :=
  (s.endpoint.step i).map fun e =>
    { s with endpoint := e }.reactAll s.endpoint.conn.inputBuffer
      (e.log.drop s.endpoint.log.length)

def step (s : AsyncEndpoint τ υ) : AsyncInput τ υ → Option (AsyncEndpoint τ υ)
  | .run i => (s.advance (s.lift i)).map fun t => t.resume (s.resumed i)
  | .send caller data w =>
      { s with wrapper := s.wrapper.sendSuspend (.send s.endpoint.control.sends) }.advance
        (.call caller (.send data) w)
  | .recvReady =>
      some { s.setChecked s.recvs (some s.wrapper.recvReady) with recvs := s.recvs + 1 }
  | .recvSuspend n inLoopThread =>
      if s.checked n = some false then
        let p := s.wrapper.recvSuspend (.recv n)
        some ({ s.setChecked n none with wrapper := p.1 }.queueResume inLoopThread p.2)
      else none
  | .recvReturn n =>
      if s.checked n = some true then some ((s.setChecked n none).recvResume n) else none

def machine (τ υ : Type) [DecidableEq τ] : Machine (AsyncEndpoint τ υ) (AsyncInput τ υ) := ⟨step⟩

omit [DecidableEq τ] in
def accept (inLoopThread : Bool) (l : EventLoop υ) (sockfd : Nat) : AsyncEndpoint τ υ where
  endpoint := .accept inLoopThread (l.map .other) sockfd true true
  wrapper := .new (some ())
  recvs := 0
  checked := fun _ => none
  resumes := []
  received := []

/-! ## Steps -/

omit [DecidableEq τ] in
theorem reactAll_keeps {P : AsyncEndpoint τ υ → Prop} {input : List UInt8}
    {effects : List Effect} (h : ∀ s, ∀ e ∈ effects, P s → P (react input s e))
    {s : AsyncEndpoint τ υ} (hs : P s) : P (s.reactAll input effects) := by
  induction effects generalizing s with
  | nil => exact hs
  | cons e effects ih =>
      apply ih
      · intro u f hf
        exact h u f (List.mem_cons_of_mem e hf)
      · exact h s e List.mem_cons_self hs

theorem advance_spec {s t : AsyncEndpoint τ υ} {i : Input τ (Posted υ)}
    (h : s.advance i = some t) :
    ∃ b op, s.endpoint.plan i = some (b, op) ∧ op.Fits s.endpoint.conn ∧
      t = ({ s with endpoint := s.endpoint.perform b op } : AsyncEndpoint τ υ).reactAll
        s.endpoint.conn.inputBuffer (op.run s.endpoint.conn).2 := by
  rcases Option.map_eq_some_iff.1 h with ⟨e, he, rfl⟩
  unfold Endpoint.step at he
  split at he
  · cases he
  · next b op hplan =>
      rcases Option.ite_none_right_eq_some.1 he with ⟨hfits, ⟨⟩⟩
      refine ⟨b, op, hplan, hfits, ?_⟩
      rw [Endpoint.perform_log, List.drop_left]

omit [DecidableEq τ] in
theorem resume_cases (s : AsyncEndpoint τ υ) (h : Option Suspension) :
    s.resume h = s ∨ ∃ n, h = some (.recv n) ∧ s.resume h = s.recvResume n := by
  rcases h with _ | (n | id)
  · exact .inl rfl
  · exact .inr ⟨n, rfl, rfl⟩
  · exact .inl rfl

end AsyncEndpoint

end Hayai
