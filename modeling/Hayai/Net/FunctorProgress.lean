import Hayai.Machine.Progress
import Hayai.Net.FunctorQueue

/-! # Queued functors are run

A functor that is queued while `loop()` runs is run sooner or later, whoever queued it and
from where, unless the loop sees `quit_` first. The loop thread has to get its turns, event
callbacks have to return, and no functor may be held up by a full pipe.
-/

namespace Hayai

/-- The step gets the loop on: it is neither a call made by an event callback nor another
call of `loop()`. -/
def LoopInput.advances {φ τ : Type} : LoopInput φ τ → Bool
  | .other _ _ | .otherWakeup _ | .enter | .call _ => false
  | _ => true

namespace LoopThread

variable {φ τ : Type}

/-- Functor number `k` is queued and has not been run, and `loop()` has not returned. -/
structure Due (capacity k : Nat) (s : LoopThread φ τ) : Prop where
  wf : s.Wf
  order : s.InOrder
  free : ¬s.Blocked capacity
  running : s.phase ≠ .outside
  queued : k < s.past.enqueued.length
  waiting : s.past.executed.length ≤ k

/-- How far the loop is from the swap that takes functor number `k`. -/
def stage (k : Nat) (s : LoopThread φ τ) : ℕ :=
  if k < s.past.executed.length + s.loop.functors.length then 0
  else match s.phase with
    | .handling false => 1
    | .handling true => 2
    | .polling => 3
    | .testing => 4
    | .functors => 5
    | .outside => 6

def distance (k : Nat) (s : LoopThread φ τ) : ℕ ×ₗ (ℕ ×ₗ ℕ) := toLex (s.stage k, s.rank)

def Settles (k : Nat) (s : LoopThread φ τ) (i : LoopInput φ τ) (t : LoopThread φ τ) : Prop :=
  i = .test ∧ s.quit = true ∨ k < t.past.executed.length

theorem stage_of_rest {capacity k : Nat} {s : LoopThread φ τ} (h : s.Due capacity k)
    (hphase : s.phase ≠ .functors) :
    s.stage k = match s.phase with
      | .handling false => 1
      | .handling true => 2
      | .polling => 3
      | .testing => 4
      | .functors => 5
      | .outside => 6 := by
  have hwaiting := h.waiting
  unfold stage
  rw [h.order.rest hphase, List.length_nil, Nat.add_zero, if_neg (by omega)]

variable [DecidableEq τ]

theorem due_able {capacity k : Nat} {s : LoopThread φ τ} (h : s.Due capacity k) :
    ∃ i t, i.advances = true ∧ step capacity s i = some t := by
  cases hphase : s.phase with
  | outside => exact absurd hphase h.running
  | testing => exact ⟨.test, _, rfl, if_pos hphase⟩
  | polling => exact ⟨.poll false, _, rfl, if_pos ⟨hphase, nofun⟩⟩
  | handling wakeup =>
      cases wakeup with
      | true => exact ⟨.handleWakeup, _, rfl, if_pos hphase⟩
      | false => exact ⟨.swap, _, rfl, if_pos hphase⟩
  | functors =>
      obtain ⟨i, t, hown, hstep⟩ := canMove_of_not_blocked hphase h.free
      refine ⟨i, t, ?_, hstep⟩
      -- Inside `doPendingFunctors` the loop thread neither enters `loop()` nor is in a callback.
      cases i with
      | enter => simp [step, hphase] at hstep
      | call c => simp [step, hphase] at hstep
      | other u c => cases hown
      | otherWakeup u => cases hown
      | _ => rfl

/-- Whatever the others do, and whatever event callbacks ask for, leaves the distance. -/
theorem distance_others {capacity k : Nat} {s t : LoopThread φ τ} {i : LoopInput φ τ}
    (h : s.Due capacity k) (hi : i.advances = false) (hmoves : Moves capacity s i t) :
    t.phase = s.phase ∧ t.past.executed = s.past.executed ∧
      s.past.enqueued.length ≤ t.past.enqueued.length ∧ t.distance k = s.distance k := by
  cases hmoves with
  | enter hphase => exact absurd hphase h.running
  | @call c hphase =>
      have hcalling : s.loop.callingPendingFunctors = false := by
        rw [Bool.eq_false_iff]
        intro hcalling
        have hfunctors := h.wf.calling.1 hcalling
        rcases hphase with hphase | ⟨wakeup, hphase⟩ <;> simp [hphase] at hfunctors
      have howes : s.owes = false := by
        rw [Bool.eq_false_iff]
        intro howes
        have hfunctors := h.wf.owes howes
        rcases hphase with hphase | ⟨wakeup, hphase⟩ <;> simp [hphase] at hfunctors
      cases c with
      | queueInLoop cb =>
          refine ⟨rfl, rfl, by simp [call, ask], ?_⟩
          simp [distance, stage, rank, call, ask, EventLoop.push, hcalling, howes]
      | quit => exact ⟨rfl, rfl, le_rfl, rfl⟩
  | @other u c =>
      cases c with
      | queueInLoop cb => exact ⟨rfl, rfl, by simp [callFrom, ask], rfl⟩
      | quit => exact ⟨rfl, rfl, le_rfl, rfl⟩
  | otherWakeup => exact ⟨rfl, rfl, le_rfl, rfl⟩
  | _ => cases hi

omit [DecidableEq τ] in
theorem distance_lt_of_stage {k : Nat} {s t : LoopThread φ τ} (hstage : t.stage k < s.stage k) :
    t.distance k < s.distance k := by
  rw [distance, distance, Prod.Lex.toLex_lt_toLex]
  exact .inl hstage

theorem distance_lt_of_batch {capacity k : Nat} {s t : LoopThread φ τ} {i : LoopInput φ τ}
    (hmoves : Moves capacity s i t) (hphase : s.phase = .functors) (hown : i.isOwn = true)
    (hgoes : i ≠ .finish)
    (hsum : t.past.executed.length + t.loop.functors.length =
      s.past.executed.length + s.loop.functors.length) :
    t.phase ≠ .outside ∧ t.distance k < s.distance k := by
  rcases rank_own hphase hown hmoves with hfinish | ⟨hsame, hrank⟩
  · exact absurd hfinish hgoes
  · refine ⟨by simp [hsame], ?_⟩
    rw [distance, distance, Prod.Lex.toLex_lt_toLex]
    refine .inr ⟨?_, hrank⟩
    rw [stage, stage, hsum, hsame, hphase]

/-- A step of the loop itself settles the functor or comes closer to it. -/
theorem distance_advances {capacity k : Nat} {s t : LoopThread φ τ} {i : LoopInput φ τ}
    (h : s.Due capacity k) (hi : i.advances = true) (hmoves : Moves capacity s i t) :
    s.Settles k i t ∨ t.phase ≠ .outside ∧ t.past.executed.length ≤ k ∧
      s.past.enqueued.length ≤ t.past.enqueued.length ∧ t.distance k < s.distance k := by
  have hwaiting := h.waiting
  have hrest := fun hphase => stage_of_rest h hphase
  cases hmoves with
  | test hphase =>
      by_cases hquit : s.quit = true
      · exact .inl (.inl ⟨rfl, hquit⟩)
      · right
        have hlt : s.test.stage k < s.stage k := by
          rw [hrest (by simp [hphase]), hphase]
          simp [stage, test, hquit, h.order.rest (by simp [hphase]), Nat.not_lt.2 hwaiting]
        refine ⟨by simp [test, hquit], ?_, ?_, distance_lt_of_stage hlt⟩
        · simpa [test, hquit] using hwaiting
        · simp [test, hquit]
  | @poll wakeup hphase hready =>
      right
      have hlt : (s.poll wakeup).stage k < s.stage k := by
        rw [hrest (by simp [hphase]), hphase]
        cases wakeup <;>
          simp [stage, poll, h.order.rest (by simp [hphase]), Nat.not_lt.2 hwaiting]
      exact ⟨by simp [poll], hwaiting, le_rfl, distance_lt_of_stage hlt⟩
  | handleWakeup hphase =>
      right
      have hlt : s.handleWakeup.stage k < s.stage k := by
        rw [hrest (by simp [hphase]), hphase]
        simp [stage, handleWakeup, EventLoop.handleWakeup, h.order.rest (by simp [hphase]),
          Nat.not_lt.2 hwaiting]
      exact ⟨by simp [handleWakeup], hwaiting, le_rfl, distance_lt_of_stage hlt⟩
  | swap hphase =>
      right
      -- All that was queued and not run is pending here, functor `k` among it.
      have horder := congrArg List.length h.order.order
      have hqueued := h.queued
      rw [h.order.rest (by simp [hphase])] at horder
      simp only [List.length_append, List.length_nil] at horder
      have hlt : s.swap.stage k < s.stage k := by
        have hin : k < s.past.executed.length + s.loop.pendingFunctors.length := by omega
        rw [hrest (by simp [hphase]), hphase]
        simp [stage, swap, EventLoop.beginPendingFunctors, hin]
      exact ⟨by simp [swap], hwaiting, le_rfl, distance_lt_of_stage hlt⟩
  | @runFunctor f rest body hidle hbody hfunctors =>
      by_cases hlast : s.past.executed.length = k
      · left
        right
        simp [runFunctor, hlast]
      · right
        have hmoves : Moves capacity s (.runFunctor body) (s.runFunctor f rest body) :=
          .runFunctor hidle hbody hfunctors
        have hsum : s.past.executed.length + 1 + rest.length =
            s.past.executed.length + (rest.length + 1) := by omega
        obtain ⟨hin, hless⟩ := distance_lt_of_batch (k := k) hmoves hidle.1 rfl (by simp)
          (by simpa [runFunctor, hfunctors] using hsum)
        refine ⟨hin, ?_, le_rfl, hless⟩
        simp only [runFunctor, List.length_append, List.length_singleton]
        omega
  | @next c body hidle hbody =>
      right
      have hmoves : Moves capacity s .next ({ s with body }.call c) := .next hidle hbody
      cases c with
      | queueInLoop cb =>
          obtain ⟨hin, hless⟩ := distance_lt_of_batch (k := k) hmoves hidle.1 rfl (by simp) rfl
          exact ⟨hin, hwaiting, by simp [call, ask], hless⟩
      | quit =>
          obtain ⟨hin, hless⟩ := distance_lt_of_batch (k := k) hmoves hidle.1 rfl (by simp) rfl
          exact ⟨hin, hwaiting, le_rfl, hless⟩
  | wakeup howes hroom =>
      right
      obtain ⟨hin, hless⟩ := distance_lt_of_batch (k := k) (.wakeup howes hroom)
        (h.wf.owes howes) rfl (by simp) rfl
      exact ⟨hin, hwaiting, le_rfl, hless⟩
  | finish hidle hbody hfunctors =>
      right
      have hlt : s.finish.stage k < s.stage k := by
        simp [stage, finish, EventLoop.endPendingFunctors, hfunctors, hidle.1,
          Nat.not_lt.2 hwaiting]
      exact ⟨by simp [finish], hwaiting, le_rfl, distance_lt_of_stage hlt⟩
  | _ => cases hi

/-! ## The whole execution -/

/-- Nothing that was queued or run is taken back. -/
theorem past_grows {capacity : Nat} {s t : LoopThread φ τ} {i : LoopInput φ τ}
    (h : Moves capacity s i t) :
    s.past.enqueued <+: t.past.enqueued ∧ s.past.executed <+: t.past.executed := by
  cases h with
  | test =>
      unfold test
      split <;> exact ⟨List.prefix_rfl, List.prefix_rfl⟩
  | @call c =>
      cases c with
      | queueInLoop cb => exact ⟨List.prefix_append _ _, List.prefix_rfl⟩
      | quit => exact ⟨List.prefix_rfl, List.prefix_rfl⟩
  | @next c =>
      cases c with
      | queueInLoop cb => exact ⟨List.prefix_append _ _, List.prefix_rfl⟩
      | quit => exact ⟨List.prefix_rfl, List.prefix_rfl⟩
  | @other u c =>
      cases c with
      | queueInLoop cb => exact ⟨List.prefix_append _ _, List.prefix_rfl⟩
      | quit => exact ⟨List.prefix_rfl, List.prefix_rfl⟩
  | runFunctor => exact ⟨List.prefix_rfl, List.prefix_append _ _⟩
  | _ => exact ⟨List.prefix_rfl, List.prefix_rfl⟩

/-- In an execution in which the loop thread gets its turns and finds room for its tokens,
each functor queued while `loop()` runs is run, in its place, unless `quit_` is seen
before. -/
theorem queued_functor_runs (capacity : Nat)
    (e : (machine (φ := φ) (τ := τ) capacity).Execution) (hstart : e.state 0 = new)
    (hfair : e.Fair fun i => i.advances = true)
    (hroomy : ∀ n, (e.state n).Roomy capacity (e.input n)) {n k : ℕ} {f : φ}
    (hqueued : (e.state n).past.enqueued[k]? = some f) (hrunning : (e.state n).phase ≠ .outside) :
    ∃ m, n ≤ m ∧ (e.input m = .test ∧ (e.state m).quit = true ∨
      (e.state m).past.executed[k]? = some f) := by
  have hgood : ∀ n, (e.state n).Wf ∧ ¬(e.state n).Blocked capacity ∧ (e.state n).InOrder := by
    apply Machine.Execution.always_of_keeps (e := e)
      (I := fun s : LoopThread φ τ => s.Wf ∧ ¬s.Blocked capacity ∧ s.InOrder)
    · rintro n ⟨hwf, hfree, horder⟩
      have hmoves := step_moves (e.step n)
      exact ⟨step_wf hwf hmoves, (step_not_blocked_iff hwf hfree hmoves).2 (hroomy n),
        step_inOrder horder hmoves⟩
    · rw [hstart]
      exact ⟨new_wf, (fun h => nomatch h.1), ⟨rfl, nofun, fun _ => rfl⟩⟩
  -- What was queued in place `k` stays there, and is what is run in that place.
  have hplace : ∀ m, n ≤ m → k < (e.state m).past.executed.length →
      (e.state m).past.executed[k]? = some f := by
    intro m hm hk
    have hkept : (e.state m).past.enqueued[k]? = some f := by
      apply Machine.Execution.holds_from
        (P := fun s : LoopThread φ τ => s.past.enqueued[k]? = some f) _ hqueued hm
      intro j hj
      obtain ⟨added, hadded⟩ := (past_grows (step_moves (e.step j))).1
      rw [← hadded, List.getElem?_append_left (List.getElem?_eq_some_iff.1 hj).1]
      exact hj
    rw [← (hgood m).2.2.order, List.append_assoc, List.getElem?_append_left hk] at hkept
    exact hkept
  have hk : k < (e.state n).past.enqueued.length := (List.getElem?_eq_some_iff.1 hqueued).1
  by_cases hdone : k < (e.state n).past.executed.length
  · exact ⟨n, le_rfl, .inr (hplace n le_rfl hdone)⟩
  · have hdue : (e.state n).Due capacity k :=
      ⟨(hgood n).1, (hgood n).2.2, (hgood n).2.1, hrunning, hk, Nat.not_lt.1 hdone⟩
    have hnext : ∀ j, (e.state j).Due capacity k → (e.state (j + 1)).phase ≠ .outside →
        (e.state (j + 1)).past.executed.length ≤ k →
        (e.state j).past.enqueued.length ≤ (e.state (j + 1)).past.enqueued.length →
        (e.state (j + 1)).Due capacity k := by
      intro j hj hphase hwaiting hgrows
      obtain ⟨hwf, hfree, horder⟩ := hgood (j + 1)
      exact ⟨hwf, horder, hfree, hphase, hj.queued.trans_le hgrows, hwaiting⟩
    obtain ⟨m, hm, hsettled⟩ := Machine.Execution.eventually (distance k)
      (fun j => (e.state j).Settles k (e.input j) (e.state (j + 1)))
      (hfair.turns fun s (hs : s.Due capacity k) => due_able hs)
      (fun j hj hother => by
        obtain ⟨hphase, hexecuted, hgrows, hsame⟩ :=
          distance_others hj (Bool.eq_false_iff.2 hother) (step_moves (e.step j))
        refine .inr ⟨hnext j hj (hphase ▸ hj.running) ?_ hgrows, hsame⟩
        rw [hexecuted]
        exact hj.waiting)
      (fun j hj hown => by
        rcases distance_advances hj hown (step_moves (e.step j)) with
          hsettled | ⟨hphase, hwaiting, hgrows, hless⟩
        · exact .inl hsettled
        · exact .inr ⟨hnext j hj hphase hwaiting hgrows, hless⟩) hdue
    rcases hsettled with hquit | hrun
    · exact ⟨m, hm, .inl hquit⟩
    · exact ⟨m + 1, by omega, .inr (hplace (m + 1) (by omega) hrun)⟩

structure Quiet (s : LoopThread Nat Unit) : Prop where
  phase : s.phase = .testing
  quit : s.quit = false
  owes : s.owes = false
  body : s.body = []
  pending : s.loop.pendingFunctors = []

theorem quiet_pass (s : LoopThread Nat Unit) (h : s.Quiet) : ∃ t,
    (machine 1).run s [.test, .poll false, .swap, .finish] = some t ∧ t.Quiet := by
  obtain ⟨hphase, hquit, howes, hbody, hpending⟩ := h
  refine ⟨((s.test.poll false).swap).finish, ?_, ?_⟩
  · simp [Machine.run, machine, step, hphase, test, hquit, poll, swap, Idle, howes, hbody,
      EventLoop.beginPendingFunctors, hpending]
  · constructor <;> simp [test, hquit, poll, swap, finish, EventLoop.beginPendingFunctors,
      EventLoop.endPendingFunctors, hbody, howes]

/-- An event callback queues a functor; then the loop goes on for ever. -/
theorem callback_functor_runs : ∃ e : (machine (φ := Nat) (τ := Unit) 1).Execution,
    e.state 0 = new ∧ (e.state 4).past.enqueued = [7] ∧ (e.state 4).past.executed = [] ∧
      ∃ m, 4 ≤ m ∧ (e.input m = .test ∧ (e.state m).quit = true ∨
        (e.state m).past.executed[0]? = some 7) := by
  let queue : List (LoopInput Nat Unit) := [.enter, .test, .poll false, .call (.queueInLoop 7)]
  let batch : List (LoopInput Nat Unit) := [.swap, .runFunctor [], .finish]
  let pass : List (LoopInput Nat Unit) := [.test, .poll false, .swap, .finish]
  obtain ⟨s, hs, henqueued, hexecuted, hphase⟩ : ∃ s,
      (machine 1).run (new : LoopThread Nat Unit) queue = some s ∧ s.past.enqueued = [7] ∧
        s.past.executed = [] ∧ s.phase = .handling false := ⟨_, rfl, rfl, rfl, rfl⟩
  obtain ⟨t, ht, hquiet⟩ : ∃ t, (machine 1).run s batch = some t ∧ t.Quiet := by
    cases hs
    exact ⟨_, rfl, rfl, rfl, rfl, rfl, rfl⟩
  obtain ⟨e₀, rfl, hcycle, hrecurs⟩ := Machine.exists_cycling (show pass ≠ [] by simp [pass])
    quiet_pass hquiet
  obtain ⟨e₁, rfl, -, hinput₁, hbatch⟩ := Machine.Execution.exists_append ht
  obtain ⟨e, hstart, hstate, hinput, hqueue⟩ := Machine.Execution.exists_append hs
  let Spares : LoopThread Nat Unit → LoopInput Nat Unit → Prop := fun _ i => ∀ s, Roomy 1 s i
  have hpass : ∀ i ∈ pass, ∀ s, Roomy 1 s i := by simp [pass, Roomy]
  have hroomy₁ : ∀ n, ∀ s, Roomy 1 s (e₁.input n) :=
    Machine.Execution.meets_of_append (C := Spares)
      (Machine.meets_of_forall_mem (by simp [batch, Roomy])) hbatch
      fun n => hpass _ (hinput₁ n ▸ hcycle n)
  have hroomy : ∀ n, ∀ s, Roomy 1 s (e.input n) :=
    Machine.Execution.meets_of_append (C := Spares)
      (Machine.meets_of_forall_mem (by simp [queue, Roomy])) hqueue
      fun n => by rw [hinput]; exact hroomy₁ n
  have hfair : e.Fair fun i => i.advances = true := by
    intro n
    obtain ⟨m, hm, hswap⟩ :=
      ((hrecurs .swap (by simp [pass])).of_append hinput₁).of_append hinput n
    exact ⟨m, hm, .inl (by rw [hswap]; rfl)⟩
  have hfour : e.state 4 = e₁.state 0 := hstate 0
  refine ⟨e, hstart, hfour ▸ henqueued, hfour ▸ hexecuted, ?_⟩
  exact queued_functor_runs 1 e hstart hfair (fun n => hroomy n _) (by rw [hfour, henqueued]; rfl)
    (by simp [hfour, hphase])

end LoopThread

end Hayai
