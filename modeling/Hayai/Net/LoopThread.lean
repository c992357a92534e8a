import Hayai.Machine.Run
import Hayai.Net.EventLoop
import Mathlib.Logic.Function.Basic

/-! # One loop and the threads around it

`EventLoop::loop`, `quit`, `queueInLoop` and `doPendingFunctors` at the grain at which
threads can see each other: a push is one critical section, and the write of the wakeup
token that follows it is a step of its own. The pipe holds `capacity` tokens and a write
to a full one waits. `τ` names the other threads.
-/

namespace Hayai

/-- What event callbacks, functors and other threads ask of the loop. A `runInLoop` call
either runs inline or is a `queueInLoop`. -/
inductive Request (φ : Type) where
  | queueInLoop (cb : φ)
  | quit
  deriving DecidableEq, Repr

def Request.isQueueInLoop {φ : Type} : Request φ → Bool
  | .queueInLoop _ => true
  | .quit => false

/-- Where the loop thread is. `outside` is before, between and after calls of `loop`. -/
inductive Phase where
  | outside
  | testing
  | polling
  /-- The events of one poll; the flag says that the wakeup channel is still to come. -/
  | handling (wakeup : Bool)
  | functors
  deriving DecidableEq, Repr

structure Past (φ : Type) where
  enqueued : List φ
  executed : List φ
  /-- The pending functors at the last swap, and those of them that have been run. -/
  batch : List φ
  started : List φ
  writes : Nat
  reads : Nat
  /-- `quit()` has been called since `loop()` last returned. -/
  quitCalled : Bool
  /-- The loop thread has queued a functor outside `loop()` that is still pending. -/
  ownQueued : Bool
  /-- The present call of `loop()` has not come back from its first poll. -/
  first : Bool
  deriving Repr

def Past.new {φ : Type} : Past φ := ⟨[], [], [], [], 0, 0, false, false, false⟩

structure LoopThread (φ τ : Type) where
  loop : EventLoop φ
  quit : Bool
  phase : Phase
  /-- The loop thread has pushed and has not written its token. -/
  owes : Bool
  /-- The other threads that have pushed or stored `quit_` and have not written theirs. -/
  mid : τ → Bool
  /-- The calls that the running functor still makes. -/
  body : List (Request φ)
  past : Past φ

inductive LoopInput (φ τ : Type) where
  | enter
  | test
  | poll (wakeup : Bool)
  | handleWakeup
  | call (c : Request φ)
  | swap
  | runFunctor (body : List (Request φ))
  | next
  | wakeup
  | finish
  | other (t : τ) (c : Request φ)
  | otherWakeup (t : τ)

def LoopInput.isOwn {φ τ : Type} : LoopInput φ τ → Bool
  | .other _ _ | .otherWakeup _ => false
  | _ => true

def LoopInput.goesOn {φ τ : Type} : LoopInput φ τ → Bool
  | .next | .wakeup => true
  | _ => false

namespace LoopThread

variable {φ τ : Type} [DecidableEq τ]

def new : LoopThread φ τ := ⟨.new, false, .outside, false, fun _ => false, [], .new⟩

/-! ## Steps -/

/-- The part of a call that other threads see at once: the push or the store. -/
def ask (s : LoopThread φ τ) : Request φ → LoopThread φ τ
  | .queueInLoop cb =>
      { s with
        loop := s.loop.push cb
        past := { s.past with enqueued := s.past.enqueued ++ [cb] } }
  | .quit => { s with quit := true, past := { s.past with quitCalled := true } }

/-- A call by the loop thread. `quit` writes no token, `queueInLoop` only from a functor. -/
def call (s : LoopThread φ τ) (c : Request φ) : LoopThread φ τ :=
  match c with
  | .queueInLoop _ =>
      let t := s.ask c
      { t with
        owes := s.loop.callingPendingFunctors
        past := { t.past with ownQueued := s.past.ownQueued || s.phase = .outside } }
  | .quit => s.ask c

def callFrom (s : LoopThread φ τ) (t : τ) (c : Request φ) : LoopThread φ τ :=
  { s.ask c with mid := Function.update s.mid t true }

def write (s : LoopThread φ τ) : LoopThread φ τ :=
  { s with loop := s.loop.wakeup, past := { s.past with writes := s.past.writes + 1 } }

def enter (s : LoopThread φ τ) : LoopThread φ τ :=
  { s with quit := false, phase := .testing, past := { s.past with first := true } }

/-- `while (!quit_)`; `loop()` returns when the test fails. -/
def test (s : LoopThread φ τ) : LoopThread φ τ :=
  if s.quit then { s with phase := .outside, past := { s.past with quitCalled := false } }
  else { s with phase := .polling }

def poll (s : LoopThread φ τ) (wakeup : Bool) : LoopThread φ τ :=
  { s with
    loop := { s.loop with eventHandling := true }
    phase := .handling wakeup
    past := { s.past with first := false } }

def handleWakeup (s : LoopThread φ τ) : LoopThread φ τ :=
  { s with
    loop := s.loop.handleWakeup
    phase := .handling false
    past := { s.past with reads := s.past.reads + 1 } }

def swap (s : LoopThread φ τ) : LoopThread φ τ :=
  { s with
    loop := { s.loop.beginPendingFunctors with eventHandling := false }
    phase := .functors
    past := { s.past with
      batch := s.loop.pendingFunctors
      started := []
      ownQueued := false } }

def runFunctor (s : LoopThread φ τ) (f : φ) (rest : List φ) (body : List (Request φ)) :
    LoopThread φ τ :=
  { s with
    loop := { s.loop with functors := rest }
    body := body
    past := { s.past with
      executed := s.past.executed ++ [f]
      started := s.past.started ++ [f] } }

def finish (s : LoopThread φ τ) : LoopThread φ τ :=
  { s with loop := s.loop.endPendingFunctors, phase := .testing }

def Idle (s : LoopThread φ τ) : Prop := s.phase = .functors ∧ s.owes = false

instance (s : LoopThread φ τ) : Decidable s.Idle := inferInstanceAs (Decidable (_ ∧ _))

def step (capacity : Nat) (s : LoopThread φ τ) : LoopInput φ τ → Option (LoopThread φ τ)
  | .enter => if s.phase = .outside then some s.enter else none
  | .test => if s.phase = .testing then some s.test else none
  | .poll wakeup =>
      if s.phase = .polling ∧ (wakeup → 0 < s.loop.wakeups) then some (s.poll wakeup) else none
  | .handleWakeup => if s.phase = .handling true then some s.handleWakeup else none
  | .call c =>
      match s.phase with
      | .outside | .handling _ => some (s.call c)
      | _ => none
  | .swap => if s.phase = .handling false then some s.swap else none
  | .runFunctor body =>
      match s.loop.functors with
      | f :: rest =>
          if s.Idle ∧ s.body = [] then some (s.runFunctor f rest body) else none
      | [] => none
  | .next =>
      match s.body with
      | c :: body => if s.Idle then some ({ s with body }.call c) else none
      | [] => none
  | .wakeup =>
      if s.owes ∧ s.loop.wakeups < capacity then some { s.write with owes := false } else none
  | .finish =>
      if s.Idle ∧ s.body = [] ∧ s.loop.functors = [] then some s.finish else none
  | .other t c => if s.mid t then none else some (s.callFrom t c)
  | .otherWakeup t =>
      if s.mid t ∧ s.loop.wakeups < capacity then
        some { s.write with mid := Function.update s.mid t false }
      else none

/-- The loop with its thread, over every interleaving with the threads of `τ`. -/
def machine (capacity : Nat) : Machine (LoopThread φ τ) (LoopInput φ τ) := ⟨step capacity⟩

/-- What one step can do, with what it finds. -/
inductive Moves (capacity : Nat) (s : LoopThread φ τ) : LoopInput φ τ → LoopThread φ τ → Prop
  | enter (hphase : s.phase = .outside) : Moves capacity s .enter s.enter
  | test (hphase : s.phase = .testing) : Moves capacity s .test s.test
  | poll {wakeup : Bool} (hphase : s.phase = .polling) (hready : wakeup → 0 < s.loop.wakeups) :
      Moves capacity s (.poll wakeup) (s.poll wakeup)
  | handleWakeup (hphase : s.phase = .handling true) :
      Moves capacity s .handleWakeup s.handleWakeup
  | call {c : Request φ} (hphase : s.phase = .outside ∨ ∃ wakeup, s.phase = .handling wakeup) :
      Moves capacity s (.call c) (s.call c)
  | swap (hphase : s.phase = .handling false) : Moves capacity s .swap s.swap
  | runFunctor {f : φ} {rest : List φ} {body : List (Request φ)} (hidle : s.Idle)
      (hbody : s.body = []) (hfunctors : s.loop.functors = f :: rest) :
      Moves capacity s (.runFunctor body) (s.runFunctor f rest body)
  | next {c : Request φ} {body : List (Request φ)} (hidle : s.Idle) (hbody : s.body = c :: body) :
      Moves capacity s .next ({ s with body }.call c)
  | wakeup (howes : s.owes = true) (hroom : s.loop.wakeups < capacity) :
      Moves capacity s .wakeup { s.write with owes := false }
  | finish (hidle : s.Idle) (hbody : s.body = []) (hfunctors : s.loop.functors = []) :
      Moves capacity s .finish s.finish
  | other {t : τ} {c : Request φ} (hmid : s.mid t = false) :
      Moves capacity s (.other t c) (s.callFrom t c)
  | otherWakeup {t : τ} (hmid : s.mid t = true) (hroom : s.loop.wakeups < capacity) :
      Moves capacity s (.otherWakeup t) { s.write with mid := Function.update s.mid t false }

theorem step_moves {capacity : Nat} {s t : LoopThread φ τ} {i : LoopInput φ τ}
    (h : step capacity s i = some t) : Moves capacity s i t := by
  unfold step at h
  split at h
  case h_5 c =>
    split at h
    · cases h
      exact .call (.inl (by assumption))
    · cases h
      exact .call (.inr ⟨_, by assumption⟩)
    · cases h
  case h_7 body =>
    split at h
    · split at h
      next f rest hfunctors hguard =>
        cases h
        exact .runFunctor hguard.1 hguard.2 hfunctors
      next => cases h
    · cases h
  case h_8 =>
    split at h
    · split at h
      next hbody hidle =>
        cases h
        exact .next hidle hbody
      next => cases h
    · cases h
  case h_11 u c =>
    split at h
    · cases h
    · next hmid =>
        cases h
        exact .other (by simpa using hmid)
  all_goals
    split at h
    · next hguard =>
        cases h
        first
          | exact .enter hguard
          | exact .test hguard
          | exact .poll hguard.1 hguard.2
          | exact .handleWakeup hguard
          | exact .swap hguard
          | exact .wakeup hguard.1 hguard.2
          | exact .finish hguard.1 hguard.2.1 hguard.2.2
          | exact .otherWakeup hguard.1 hguard.2
    · cases h

/-! ## The halves of a call -/

/-- The push of another thread and its token make up `queueInLoop`. -/
theorem loop_write_callFrom (s : LoopThread φ τ) (t : τ) (cb : φ) :
    (s.callFrom t (.queueInLoop cb)).write.loop = s.loop.queueInLoop false cb := by
  rw [EventLoop.queueInLoop_eq_push]
  rfl

omit [DecidableEq τ] in
/-- The loop thread's own push makes up `queueInLoop` with the token that it then owes. -/
theorem loop_call_queueInLoop (s : LoopThread φ τ) (cb : φ) :
    (if (s.call (.queueInLoop cb)).owes then (s.call (.queueInLoop cb)).write.loop
      else (s.call (.queueInLoop cb)).loop) = s.loop.queueInLoop true cb := by
  rw [EventLoop.queueInLoop_eq_push]
  rfl

/-! ## What the phases say about the rest of the state -/

structure Wf (s : LoopThread φ τ) : Prop where
  calling : s.loop.callingPendingFunctors = true ↔ s.phase = .functors
  owes : s.owes = true → s.phase = .functors
  idle : s.phase ≠ .functors → s.loop.functors = [] ∧ s.body = []
  tokens : s.loop.wakeups + s.past.reads = s.past.writes
  ready : s.phase = .handling true → 0 < s.loop.wakeups

omit [DecidableEq τ] in
theorem new_wf : (new : LoopThread φ τ).Wf := by
  constructor <;> simp [new, EventLoop.new, Past.new]

omit [DecidableEq τ] in
theorem call_wf {s : LoopThread φ τ} (c : Request φ) (hs : s.Wf) : (s.call c).Wf := by
  cases c with
  | queueInLoop cb =>
      exact ⟨hs.calling, hs.calling.1, hs.idle, hs.tokens, hs.ready⟩
  | quit => exact ⟨hs.calling, hs.owes, hs.idle, hs.tokens, hs.ready⟩

theorem callFrom_wf {s : LoopThread φ τ} (t : τ) (c : Request φ) (hs : s.Wf) :
    (s.callFrom t c).Wf := by
  cases c <;> exact ⟨hs.calling, hs.owes, hs.idle, hs.tokens, hs.ready⟩

theorem step_wf {capacity : Nat} {s t : LoopThread φ τ} {i : LoopInput φ τ} (hs : s.Wf)
    (h : Moves capacity s i t) : t.Wf := by
  have htokens := hs.tokens
  cases h with
  | enter hphase =>
      exact ⟨by simpa [enter, hphase] using hs.calling, by simpa [enter, hphase] using hs.owes,
        fun _ => hs.idle (by simp [hphase]), htokens, by rintro ⟨⟩⟩
  | test hphase =>
      unfold test
      split <;>
        exact ⟨by simpa [hphase] using hs.calling, by simpa [hphase] using hs.owes,
          fun _ => hs.idle (by simp [hphase]), htokens, by rintro ⟨⟩⟩
  | poll hphase hready =>
      refine ⟨by simpa [poll, hphase] using hs.calling, by simpa [poll, hphase] using hs.owes,
        fun _ => hs.idle (by simp [hphase]), htokens, ?_⟩
      intro hwakeup
      exact hready (by simpa [poll] using hwakeup)
  | handleWakeup hphase =>
      refine ⟨by simpa [handleWakeup, EventLoop.handleWakeup, hphase] using hs.calling,
        by simpa [handleWakeup, hphase] using hs.owes, fun _ => hs.idle (by simp [hphase]), ?_,
        by simp [handleWakeup]⟩
      have hready := hs.ready hphase
      simp only [handleWakeup, EventLoop.handleWakeup]
      omega
  | call => exact call_wf _ hs
  | swap => exact ⟨by simp [swap, EventLoop.beginPendingFunctors], fun _ => rfl,
      fun h => absurd rfl h, htokens, by rintro ⟨⟩⟩
  | runFunctor hidle => exact ⟨hs.calling, hs.owes, fun h => absurd hidle.1 h, htokens, hs.ready⟩
  | next hidle =>
      apply call_wf
      exact ⟨hs.calling, hs.owes, fun h => absurd hidle.1 h, htokens, hs.ready⟩
  | wakeup howes =>
      refine ⟨hs.calling, by rintro ⟨⟩, fun h => absurd (hs.owes howes) h, ?_, fun h => ?_⟩
      · simp only [write, EventLoop.wakeup]
        omega
      · simp [write, EventLoop.wakeup]
  | finish hidle hbody hfunctors =>
      exact ⟨by simp [finish, EventLoop.endPendingFunctors], by simp [finish, hidle.2],
        fun _ => ⟨hfunctors, hbody⟩, htokens, by rintro ⟨⟩⟩
  | other => exact callFrom_wf _ _ hs
  | otherWakeup =>
      refine ⟨hs.calling, hs.owes, hs.idle, ?_, fun h => ?_⟩
      · simp only [write, EventLoop.wakeup]
        omega
      · simp [write, EventLoop.wakeup]

end LoopThread

end Hayai
