import Hayai.Machine.Execution
import Hayai.Machine.Run
import Hayai.Net.Wakeup
import Mathlib.Data.Prod.Lex

/-! # The functor queue

Functors run once each and in the order in which they were queued, and a call of
`doPendingFunctors` runs those that were pending at its swap and no others. Such a call
ends even when every functor queues itself again, unless a functor's own `wakeup()` is held
up by a full pipe.
-/

namespace Hayai

namespace LoopThread

variable {φ τ : Type}

/-- What has run, the rest of the batch and what is pending make up what was queued. -/
structure InOrder (s : LoopThread φ τ) : Prop where
  order : s.past.executed ++ s.loop.functors ++ s.loop.pendingFunctors = s.past.enqueued
  batch : s.phase = .functors → s.past.started ++ s.loop.functors = s.past.batch
  rest : s.phase ≠ .functors → s.loop.functors = []

theorem ask_inOrder {s : LoopThread φ τ} (c : Request φ) (hs : s.InOrder) :
    (s.ask c).InOrder := by
  cases c with
  | queueInLoop cb =>
      refine ⟨?_, hs.batch, hs.rest⟩
      simp [ask, EventLoop.push, ← hs.order]
  | quit => exact ⟨hs.order, hs.batch, hs.rest⟩

theorem call_inOrder {s : LoopThread φ τ} (c : Request φ) (hs : s.InOrder) :
    (s.call c).InOrder := by
  have hask := ask_inOrder c hs
  cases c <;> exact ⟨hask.order, hask.batch, hask.rest⟩

theorem step_inOrder [DecidableEq τ] {capacity : Nat} {s t : LoopThread φ τ}
    {i : LoopInput φ τ} (hs : s.InOrder) (h : Moves capacity s i t) : t.InOrder := by
  cases h with
  | enter hphase => exact ⟨hs.order, by rintro ⟨⟩, fun _ => hs.rest (by simp [hphase])⟩
  | test hphase =>
      unfold test
      split <;> exact ⟨hs.order, by rintro ⟨⟩, fun _ => hs.rest (by simp [hphase])⟩
  | poll hphase => exact ⟨hs.order, by rintro ⟨⟩, fun _ => hs.rest (by simp [hphase])⟩
  | handleWakeup hphase => exact ⟨hs.order, by rintro ⟨⟩, fun _ => hs.rest (by simp [hphase])⟩
  | call => exact call_inOrder _ hs
  | swap hphase =>
      have hrest := hs.rest (by simp [hphase])
      have horder := hs.order
      refine ⟨?_, fun _ => rfl, fun h => absurd rfl h⟩
      simpa [swap, EventLoop.beginPendingFunctors, hrest] using horder
  | runFunctor hidle hbody hfunctors =>
      have horder := hs.order
      have hbatch := hs.batch hidle.1
      rw [hfunctors] at horder hbatch
      refine ⟨?_, fun _ => ?_, fun h => absurd hidle.1 h⟩
      · simpa [runFunctor] using horder
      · simpa [runFunctor] using hbatch
  | next =>
      apply call_inOrder
      exact ⟨hs.order, hs.batch, hs.rest⟩
  | wakeup => exact ⟨hs.order, hs.batch, hs.rest⟩
  | finish hidle hbody hfunctors => exact ⟨hs.order, by rintro ⟨⟩, fun _ => hfunctors⟩
  | @other u c =>
      have hask := ask_inOrder c hs
      exact ⟨hask.order, hask.batch, hask.rest⟩
  | otherWakeup => exact ⟨hs.order, hs.batch, hs.rest⟩

/-! ## The call comes to its end -/

def CanMove [DecidableEq τ] (capacity : Nat) (s : LoopThread φ τ) : Prop :=
  ∃ i t, i.isOwn = true ∧ step capacity s i = some t

theorem canMove_of_not_blocked [DecidableEq τ] {capacity : Nat} {s : LoopThread φ τ}
    (hphase : s.phase = .functors) (hfree : ¬s.Blocked capacity) : s.CanMove capacity := by
  cases howes : s.owes with
  | true =>
      have hroom : s.loop.wakeups < capacity := by
        by_contra hfull
        exact hfree ⟨howes, by omega⟩
      exact ⟨.wakeup, _, rfl, by simp [step, howes, hroom]; rfl⟩
  | false =>
      have hidle : s.Idle := ⟨hphase, howes⟩
      cases hbody : s.body with
      | cons c body => exact ⟨.next, _, rfl, by simp [step, hbody, hidle]; rfl⟩
      | nil =>
          cases hfunctors : s.loop.functors with
          | cons f rest =>
              exact ⟨.runFunctor [], _, rfl, by simp [step, hfunctors, hidle, hbody]; rfl⟩
          | nil => exact ⟨.finish, _, rfl, by simp [step, hidle, hbody, hfunctors]; rfl⟩

/-- A blocked loop thread has no step, and no step of another thread frees it. -/
theorem step_blocked [DecidableEq τ] {capacity : Nat} {s t : LoopThread φ τ}
    {i : LoopInput φ τ} (hwf : s.Wf) (hs : s.Blocked capacity) (h : Moves capacity s i t) :
    i.isOwn = false ∧ t.Blocked capacity := by
  have hphase := hwf.owes hs.1
  have hfull := hs.2
  have hbusy : ¬s.Idle := fun hidle => by simpa [hs.1] using hidle.2
  cases h with
  | @other u c =>
      refine ⟨rfl, ?_⟩
      cases c <;> exact hs
  | otherWakeup hmid hroom => omega
  | wakeup howes hroom => omega
  | call h => rcases h with h | ⟨wakeup, h⟩ <;> simp [hphase] at h
  | runFunctor hidle => exact absurd hidle hbusy
  | next hidle => exact absurd hidle hbusy
  | finish hidle => exact absurd hidle hbusy
  | enter h => simp [hphase] at h
  | test h => simp [hphase] at h
  | poll h => simp [hphase] at h
  | handleWakeup h => simp [hphase] at h
  | swap h => simp [hphase] at h

theorem not_blocked_of_canMove [DecidableEq τ] {capacity : Nat} {s : LoopThread φ τ}
    (hwf : s.Wf) (h : s.phase = .functors → s.CanMove capacity) : ¬s.Blocked capacity := by
  intro hblocked
  rcases h (hwf.owes hblocked.1) with ⟨i, t, hown, hstep⟩
  have hother := (step_blocked hwf hblocked (step_moves hstep)).1
  simp [hown] at hother

theorem run_blocked [DecidableEq τ] {capacity : Nat} {s t : LoopThread φ τ}
    {is : List (LoopInput φ τ)} (hwf : s.Wf) (hs : s.Blocked capacity)
    (hrun : (machine capacity).run s is = some t) : ∀ i ∈ is, i.isOwn = false := by
  induction is generalizing s with
  | nil => simp
  | cons i is ih =>
      rcases Option.bind_eq_some_iff.1 hrun with ⟨u, hu, hrun⟩
      have hmoves := step_moves hu
      rcases step_blocked hwf hs hmoves with ⟨hother, hblocked⟩
      intro j hj
      rcases List.mem_cons.1 hj with rfl | hj
      · exact hother
      · exact ih (step_wf hwf hmoves) hblocked hrun j hj

/-- What is left of a batch: its functors first, then the calls of the one that runs. -/
def rank (s : LoopThread φ τ) : ℕ ×ₗ ℕ :=
  toLex (s.loop.functors.length, 2 * s.body.length + s.owes.toNat)

/-- What other threads queue is not part of the batch. -/
theorem rank_other [DecidableEq τ] {capacity : Nat} {s t : LoopThread φ τ} {i : LoopInput φ τ}
    (hi : i.isOwn = false) (h : Moves capacity s i t) : t.phase = s.phase ∧ t.rank = s.rank := by
  cases h with
  | @other u c => cases c <;> exact ⟨rfl, rfl⟩
  | otherWakeup => exact ⟨rfl, rfl⟩
  | _ => simp [LoopInput.isOwn] at hi

/-- Nor is what the batch's own functors queue. -/
theorem rank_own [DecidableEq τ] {capacity : Nat} {s t : LoopThread φ τ} {i : LoopInput φ τ}
    (hphase : s.phase = .functors) (hi : i.isOwn = true) (h : Moves capacity s i t) :
    i = .finish ∨ t.phase = .functors ∧ t.rank < s.rank := by
  cases h with
  | finish => exact .inl rfl
  | runFunctor hidle hbody hfunctors =>
      refine .inr ⟨hphase, ?_⟩
      simp [rank, runFunctor, Prod.Lex.toLex_lt_toLex, hfunctors]
  | @next c body hidle hbody =>
      refine .inr ⟨by cases c <;> exact hphase, ?_⟩
      have howes := Bool.toNat_le (c := s.loop.callingPendingFunctors)
      cases c with
      | queueInLoop cb =>
          simp [rank, call, ask, EventLoop.push, Prod.Lex.toLex_lt_toLex, hbody]
          omega
      | quit => simp [rank, call, ask, Prod.Lex.toLex_lt_toLex, hbody]
  | wakeup howes =>
      refine .inr ⟨hphase, ?_⟩
      simp [rank, write, EventLoop.wakeup, Prod.Lex.toLex_lt_toLex, howes]
  | call h => rcases h with h | ⟨wakeup, h⟩ <;> simp [hphase] at h
  | other => simp [LoopInput.isOwn] at hi
  | otherWakeup => simp [LoopInput.isOwn] at hi
  | enter h => simp [hphase] at h
  | test h => simp [hphase] at h
  | poll h => simp [hphase] at h
  | handleWakeup h => simp [hphase] at h
  | swap h => simp [hphase] at h

/-- A batch of a fair execution is run to its end when every functor finds room for the
tokens it writes. -/
theorem batch_finishes [DecidableEq τ] {capacity : Nat}
    {e : (machine (φ := φ) (τ := τ) capacity).Execution} (hstart : e.state 0 = new)
    (hfair : e.Fair fun i => i.isOwn = true)
    (hroomy : ∀ n, (e.state n).Roomy capacity (e.input n)) {n : ℕ}
    (hphase : (e.state n).phase = .functors) : ∃ m, n ≤ m ∧ e.input m = .finish := by
  have hgood : ∀ n, (e.state n).Wf ∧ ¬(e.state n).Blocked capacity := by
    apply Machine.Execution.always_of_keeps (e := e)
      (I := fun s : LoopThread φ τ => s.Wf ∧ ¬s.Blocked capacity)
    · intro n hn
      have hmoves := step_moves (e.step n)
      exact ⟨step_wf hn.1 hmoves, (step_not_blocked_iff hn.1 hn.2 hmoves).2 (hroomy n)⟩
    · rw [hstart]
      exact ⟨new_wf, fun h => nomatch h.1⟩
  apply Machine.Execution.reaches (I := fun s => s.phase = .functors ∧ ¬s.Blocked capacity)
    rank (· = .finish) hfair
  · intro s hs
    exact canMove_of_not_blocked hs.1 hs.2
  · intro n hn hother
    rcases rank_other (by simpa using hother) (step_moves (e.step n)) with ⟨hsame, hrank⟩
    exact ⟨⟨hsame.trans hn.1, (hgood (n + 1)).2⟩, hrank⟩
  · intro n hn hown
    rcases rank_own hn.1 hown (step_moves (e.step n)) with hdone | ⟨hnext, hrank⟩
    · exact .inl hdone
    · exact .inr ⟨⟨hnext, (hgood (n + 1)).2⟩, hrank⟩
  · exact ⟨hphase, (hgood n).2⟩

/-- The queue is FIFO and exactly-once in every run; within a batch the loop thread can
always go on exactly when its functors find room in the pipe; and then every batch of a
fair execution comes to its end. -/
theorem functor_queue_exact_iff_roomy [DecidableEq τ] (capacity : Nat) :
    (∀ is, (machine (φ := φ) (τ := τ) capacity).Always InOrder new is) ∧
      (∀ is, (machine (φ := φ) (τ := τ) capacity).Always
          (fun s => s.phase = .functors → s.CanMove capacity) new is ↔
        (machine capacity).Meets (Roomy capacity) new is) ∧
      ∀ e : (machine (φ := φ) (τ := τ) capacity).Execution, e.state 0 = new →
        e.Fair (fun i => i.isOwn = true) →
        (∀ n, (e.state n).Roomy capacity (e.input n)) →
        ∀ n, (e.state n).phase = .functors → ∃ m, n ≤ m ∧ e.input m = .finish := by
  refine ⟨?_, ?_, ?_⟩
  · intro is
    apply Machine.always_of_invariant
    · intro s i t hs hstep
      exact step_inOrder hs (step_moves hstep)
    · exact ⟨rfl, nofun, fun _ => rfl⟩
  · intro is
    apply Machine.always_iff_meets (I := fun s => s.Wf ∧ ¬s.Blocked capacity)
    · intro s hs hphase
      exact canMove_of_not_blocked hphase hs.2
    · intro s i t hs hroomy hstep
      have hmoves := step_moves hstep
      exact ⟨step_wf hs.1 hmoves, (step_not_blocked_iff hs.1 hs.2 hmoves).2 hroomy⟩
    · intro s i t hs hstep hmove
      have hmoves := step_moves hstep
      exact (step_not_blocked_iff hs.1 hs.2 hmoves).1
        (not_blocked_of_canMove (step_wf hs.1 hmoves) hmove)
    · exact ⟨new_wf, fun h => nomatch h.1⟩
  · intro e hstart hfair hroomy n hphase
    exact batch_finishes hstart hfair hroomy hphase

/-- A functor queues one functor more than a pipe of 64 KiB holds tokens: however the other
threads go on, its batch never ends. -/
theorem overfull_batch_never_finishes :
    ∃ t : LoopThread Nat Unit, (machine 8192).run new (overfull 8192) = some t ∧
      t.phase = .functors ∧
      ∀ more u, (machine 8192).run t more = some u → .finish ∉ more := by
  rcases run_overfull 8192 with ⟨t, hrun, hwf, hblocked⟩
  refine ⟨t, hrun, hwf.owes hblocked.1, fun more u hmore hfinish => ?_⟩
  have hother := run_blocked hwf hblocked hmore _ hfinish
  cases hother

end LoopThread

end Hayai
