import Hayai.Net.EventLoop

/-! # Resumes in a loop's queue

A coroutine that is to go on is resumed by a functor of a loop.
-/

namespace Hayai

/-- What a loop runs: the resume of a coroutine in the suspension with that number, or
something else. -/
inductive Wake (κ υ : Type) where
  | resume (h : κ × Nat)
  | other (x : υ)
  deriving DecidableEq, Repr

def Wake.handle? {κ υ : Type} : Wake κ υ → Option (κ × Nat)
  | .resume h => some h
  | .other _ => none

/-- What the loop's thread does with the queue, and others who queue something else. -/
inductive TurnInput (υ : Type) where
  | queueOther (inLoopThread : Bool) (x : υ)
  | doPendingFunctors
  | functor
  | endPendingFunctors

namespace EventLoop

variable {κ υ : Type}

def resumes (l : EventLoop (Wake κ υ)) : List (κ × Nat) := l.queued.filterMap Wake.handle?

@[simp] theorem resumes_queueInLoop (l : EventLoop (Wake κ υ)) (inLoopThread : Bool)
    (k : Wake κ υ) : (l.queueInLoop inLoopThread k).resumes = l.resumes ++ k.handle?.toList := by
  rw [resumes, queued_queueInLoop, List.filterMap_append]
  cases k <;> rfl

@[simp] theorem resumes_map_other (l : EventLoop υ) : (l.map (Wake.other (κ := κ))).resumes = [] := by
  rw [resumes, queued_map, List.filterMap_map]
  exact List.filterMap_none _

def turn (l : EventLoop (Wake κ υ)) : TurnInput υ → Option (EventLoop (Wake κ υ) × Option (κ × Nat))
  | .queueOther inLoopThread x => some (l.queueInLoop inLoopThread (.other x), none)
  | .doPendingFunctors =>
      if l.callingPendingFunctors = false ∧ l.functors = [] then
        some (l.beginPendingFunctors, none)
      else none
  | .functor =>
      match l.functors with
      | k :: functors =>
          if l.callingPendingFunctors = true then some ({ l with functors }, k.handle?) else none
      | [] => none
  | .endPendingFunctors =>
      if l.callingPendingFunctors = true ∧ l.functors = [] then some (l.endPendingFunctors, none)
      else none

/-- Only the resume that was queued first is taken. -/
theorem resumes_turn {l l' : EventLoop (Wake κ υ)} {i : TurnInput υ} {h : Option (κ × Nat)}
    (hturn : l.turn i = some (l', h)) : l.resumes = h.toList ++ l'.resumes := by
  cases i with
  | queueOther inLoopThread x =>
      cases hturn
      rw [resumes_queueInLoop]
      exact (List.append_nil _).symm
  | doPendingFunctors =>
      rcases Option.ite_none_right_eq_some.1 hturn with ⟨⟨-, hfunctors⟩, ⟨⟩⟩
      rw [resumes, resumes, queued_beginPendingFunctors hfunctors]
      rfl
  | functor =>
      simp only [turn] at hturn
      split at hturn
      · next k functors hfunctors =>
          rcases Option.ite_none_right_eq_some.1 hturn with ⟨-, ⟨⟩⟩
          rw [resumes, queued_of_functors hfunctors, resumes]
          cases k <;> rfl
      · cases hturn
  | endPendingFunctors =>
      rcases Option.ite_none_right_eq_some.1 hturn with ⟨-, ⟨⟩⟩
      rfl

end EventLoop

end Hayai
