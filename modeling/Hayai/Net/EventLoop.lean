import Mathlib.Data.List.Basic

/-! # The functor queue of an event loop

`EventLoop::queueInLoop` and the three phases of `EventLoop::doPendingFunctors`:
the swap under the lock, the run over the private batch, and its end. `functors`
is the rest of the batch that has been swapped out and not yet run.
-/

namespace Hayai

structure EventLoop (φ : Type) where
  pendingFunctors : List φ
  functors : List φ
  eventHandling : Bool
  callingPendingFunctors : Bool
  /-- 8-byte tokens in the wakeup pipe. -/
  wakeups : Nat
  deriving DecidableEq, Repr

namespace EventLoop

variable {φ : Type}

def new : EventLoop φ := ⟨[], [], false, false, 0⟩

def map {ψ : Type} (f : φ → ψ) (l : EventLoop φ) : EventLoop ψ :=
  { l with pendingFunctors := l.pendingFunctors.map f, functors := l.functors.map f }

def wakeup (l : EventLoop φ) : EventLoop φ := { l with wakeups := l.wakeups + 1 }

/-- The critical section of `queueInLoop`. -/
def push (l : EventLoop φ) (cb : φ) : EventLoop φ :=
  { l with pendingFunctors := l.pendingFunctors ++ [cb] }

def handleWakeup (l : EventLoop φ) : EventLoop φ := { l with wakeups := l.wakeups - 1 }

def queueInLoop (l : EventLoop φ) (inLoopThread : Bool) (cb : φ) : EventLoop φ :=
  let l := { l with pendingFunctors := l.pendingFunctors ++ [cb] }
  if !inLoopThread || l.callingPendingFunctors then l.wakeup else l

/-- `doPendingFunctors` up to and including the swap. -/
def beginPendingFunctors (l : EventLoop φ) : EventLoop φ :=
  { l with callingPendingFunctors := true, functors := l.pendingFunctors, pendingFunctors := [] }

def endPendingFunctors (l : EventLoop φ) : EventLoop φ :=
  { l with callingPendingFunctors := false }

/-- Everything enqueued and not yet run, oldest first. -/
def queued (l : EventLoop φ) : List φ := l.functors ++ l.pendingFunctors

/-- `queueInLoop` is its critical section, then the wakeup when the caller owes one. -/
theorem queueInLoop_eq_push (l : EventLoop φ) (inLoopThread : Bool) (cb : φ) :
    l.queueInLoop inLoopThread cb =
      if !inLoopThread || l.callingPendingFunctors then (l.push cb).wakeup else l.push cb := rfl

@[simp] theorem queued_queueInLoop (l : EventLoop φ) (inLoopThread : Bool) (cb : φ) :
    (l.queueInLoop inLoopThread cb).queued = l.queued ++ [cb] := by
  unfold queueInLoop
  dsimp only
  split <;> simp [queued, wakeup]

@[simp] theorem functors_queueInLoop (l : EventLoop φ) (inLoopThread : Bool) (cb : φ) :
    (l.queueInLoop inLoopThread cb).functors = l.functors := by
  unfold queueInLoop
  dsimp only
  split <;> rfl

@[simp] theorem queued_map {ψ : Type} (f : φ → ψ) (l : EventLoop φ) :
    (l.map f).queued = l.queued.map f := by
  simp [queued, map]

theorem queued_beginPendingFunctors {l : EventLoop φ} (h : l.functors = []) :
    l.beginPendingFunctors.queued = l.queued := by
  simp [queued, beginPendingFunctors, h]

@[simp] theorem queued_endPendingFunctors (l : EventLoop φ) :
    l.endPendingFunctors.queued = l.queued := rfl

theorem queued_of_functors {l : EventLoop φ} {f : φ} {rest : List φ} (h : l.functors = f :: rest) :
    l.queued = f :: { l with functors := rest }.queued := by
  simp [queued, h]

end EventLoop

end Hayai
