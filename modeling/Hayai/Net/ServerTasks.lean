import Hayai.Machine.Run
import Hayai.Net.ServerKernel
import Hayai.Net.ServerPass

/-! # What a step does to the functors

A step takes at most one functor off a queue or puts one there, and only the thread that
takes the step picks up or puts down a functor. Members of a connection are handed over
before its removal; after that only its `connectDestroyed` is.
-/

namespace Hayai

namespace Server

variable {τ υ : Type}

/-- What one step does to the functors queued at loop `l`. -/
inductive QueueMoves (s t : Server τ υ) (l : Nat) (i : ServerInput τ υ) : Prop
  | kept (hqueue : (t.loops l).loop.queued = (s.loops l).loop.queued)
  | pushed {j : Job τ υ} (hj : s.inFlight i.thread = some j) (hl : j.loop = l)
      (hqueue : (t.loops l).loop.queued = (s.loops l).loop.queued ++ [j.task])
  | popped {k : Task τ υ} (hqueue : (s.loops l).loop.queued = k :: (t.loops l).loop.queued)

theorem QueueMoves.of_loops {s t : Server τ υ} {l : Nat} {i : ServerInput τ υ}
    (h : t.loops = s.loops) : s.QueueMoves t l i := by
  apply QueueMoves.kept
  rw [h]

theorem queued_setIo {s : Server τ υ} {m : Nat} (io : IoLoop τ υ)
    (h : io.loop.queued = (s.loops m).loop.queued) (l : Nat) :
    ((s.setIo m io).loops l).loop.queued = (s.loops l).loop.queued := by
  by_cases hl : l = m
  · subst hl
    rw [loops_setIo_self, h]
  · rw [loops_setIo_of_ne hl]

theorem queued_setTodo (s : Server τ υ) (m : Nat) (todo : List (Option Nat × Callback)) (l : Nat) :
    ((s.setTodo m todo).loops l).loop.queued = (s.loops l).loop.queued :=
  queued_setIo { s.loops m with todo } rfl l

theorem queued_setLoop {s : Server τ υ} {m : Nat} {loop : EventLoop (Task τ υ)}
    (h : loop.queued = (s.loops m).loop.queued) (l : Nat) :
    ((s.setLoop m loop).loops l).loop.queued = (s.loops l).loop.queued :=
  queued_setIo { s.loops m with loop } h l

variable [DecidableEq τ]

theorem step_queued {s t : Server τ υ} {i : ServerInput τ υ} (hstep : s.step i = some t)
    (l : Nat) : s.QueueMoves t l i := by
  cases (step_spec hstep).2 with
  | call => exact .of_loops (loops_call _ _ _ _)
  | stop => exact .of_loops rfl
  | stopNext => exact .of_loops (loops_call _ _ _ _)
  | @deliver θ w j hj =>
      unfold deliver
      dsimp only
      split
      · exact .of_loops (loops_perform _ _ _ _)
      · by_cases hl : l = j.loop
        · subst hl
          refine .pushed hj rfl ?_
          simp [push, setFlight]
        · apply QueueMoves.kept
          simp only [push, setLoop, loops_setIo_of_ne hl]
          rfl
  | queueUser => exact .of_loops rfl
  | @poll m events =>
      have hqueue : ({ (s.loops m).loop with eventHandling := true } :
        EventLoop (Task τ υ)).queued = (s.loops m).loop.queued := rfl
      exact .kept (queued_setIo ⟨_, _⟩ hqueue l)
  | callback =>
      apply QueueMoves.kept
      rw [loops_exec]
      exact queued_setTodo s _ _ l
  | accept =>
      apply QueueMoves.kept
      rw [loops_newConnection]
      exact queued_setTodo s _ _ l
  | acceptFailed => exact .kept (queued_setTodo s _ _ l)
  | @doPendingFunctors m htodo hfunctors =>
      have hbegin := EventLoop.queued_beginPendingFunctors
        (l := { (s.loops m).loop with eventHandling := false }) hfunctors
      exact .kept (queued_setLoop hbegin l)
  | @functor m w k functors hfunctors =>
      by_cases hl : l = m
      · subst hl
        apply QueueMoves.popped
        rw [loops_perform, loops_setLoop_self]
        exact EventLoop.queued_of_functors hfunctors
      · apply QueueMoves.kept
        rw [loops_perform, setLoop, loops_setIo_of_ne hl]
  | endPendingFunctors =>
      exact .kept (queued_setLoop (EventLoop.queued_endPendingFunctors _) l)

theorem queued_functor {s t : Server τ υ} {l : Nat} {w : WriteResult}
    (hstep : s.step (.functor l w) = some t) {k : Task τ υ}
    (hhead : (s.loops l).loop.functors.head? = some k) :
    (s.loops l).loop.queued = k :: (t.loops l).loop.queued := by
  cases (step_spec hstep).2 with
  | functor hfunctors =>
      rw [hfunctors] at hhead
      cases hhead
      rw [loops_perform, loops_setLoop_self]
      exact EventLoop.queued_of_functors hfunctors

/-! ## Functors in flight -/

theorem inFlight_exec_of_ne {s : Server τ υ} {θ θ' : Thread τ} (h : θ' ≠ θ) (c : Nat)
    (op : Op (Thread τ)) : (s.exec θ c op).inFlight θ' = s.inFlight θ' := by
  unfold exec
  split
  · rfl
  · dsimp only
    split
    · exact inFlight_setFlight_of_ne h _
    · rfl

theorem inFlight_perform_of_ne {s : Server τ υ} {θ θ' : Thread τ} (h : θ' ≠ θ) (w : WriteResult)
    (k : Task τ υ) : (s.perform θ w k).inFlight θ' = s.inFlight θ' := by
  cases k with
  | conn c f => exact inFlight_exec_of_ne h c _
  | removeConnectionInLoop c =>
      simp only [perform, removeConnectionInLoop]
      split
      · split
        · rfl
        · exact inFlight_setFlight_of_ne h _
      · rfl
  | stop => rfl
  | user x => rfl

theorem inFlight_call_of_ne {s : Server τ υ} {θ θ' : Thread τ} (h : θ' ≠ θ) (c : Nat) (k : Call) :
    (s.call θ c k).inFlight θ' = s.inFlight θ' := by
  cases k <;> simp only [call] <;> split
  all_goals first | rfl | exact inFlight_setFlight_of_ne h _

omit [DecidableEq τ] in
theorem inFlight_getNextLoop (s : Server τ υ) : s.getNextLoop.2.inFlight = s.inFlight := by
  unfold getNextLoop
  split <;> rfl

theorem inFlight_newConnection_of_ne {s : Server τ υ} {θ θ' : Thread τ} (h : θ' ≠ θ)
    (sockfd : Nat) : (s.newConnection θ sockfd).inFlight θ' = s.inFlight θ' := by
  unfold newConnection
  split
  · dsimp only
    rw [runInLoop, inFlight_setFlight_of_ne h, inFlight_register, inFlight_getNextLoop]
  · rfl

/-- A thread's functor in flight is its own business. -/
theorem inFlight_step_of_ne {s t : Server τ υ} {i : ServerInput τ υ} {θ : Thread τ}
    (h : θ ≠ i.thread) (hstep : s.step i = some t) : t.inFlight θ = s.inFlight θ := by
  cases (step_spec hstep).2 with
  | call => exact inFlight_call_of_ne h _ _
  | stop => exact inFlight_setFlight_of_ne h _
  | stopNext => exact inFlight_call_of_ne h _ _
  | @deliver θ' w j =>
      change θ ≠ θ' at h
      have hflight : (s.setFlight θ' none).inFlight θ = s.inFlight θ := inFlight_setFlight_of_ne h _
      unfold deliver
      dsimp only
      split
      · rw [inFlight_perform_of_ne h, hflight]
      · exact hflight
  | queueUser => exact inFlight_setFlight_of_ne h _
  | callback => exact inFlight_exec_of_ne h _ _
  | accept => exact inFlight_newConnection_of_ne h _
  | functor => exact inFlight_perform_of_ne h _ _
  | _ => rfl

/-- All that a member leaves in flight is the removal of its connection. -/
theorem flight_exec {s : Server τ υ} {θ : Thread τ} (h : s.inFlight θ = none) {c : Nat}
    {op : Op (Thread τ)} {j : Job τ υ} (hj : (s.exec θ c op).inFlight θ = some j) :
    j.task = .removeConnectionInLoop c := by
  unfold exec at hj
  split at hj
  · cases h.symm.trans hj
  · dsimp only at hj
    split at hj
    · rw [removeConnection, runInLoop, inFlight_setFlight_self] at hj
      cases hj
      rfl
    · cases h.symm.trans hj

theorem flight_perform {s : Server τ υ} {θ : Thread τ} (h : s.inFlight θ = none) {w : WriteResult}
    {k : Task τ υ} {j : Job τ υ} (hj : (s.perform θ w k).inFlight θ = some j) :
    ∃ c, j.task = .removeConnectionInLoop c ∨ j.task = .conn c .connectDestroyed := by
  cases k with
  | conn c f => exact ⟨c, .inl (flight_exec h hj)⟩
  | removeConnectionInLoop c =>
      simp only [perform, removeConnectionInLoop] at hj
      split at hj
      · split at hj
        · cases h.symm.trans hj
        · rw [queueInLoop, inFlight_setFlight_self] at hj
          cases hj
          exact ⟨c, .inr rfl⟩
      · cases h.symm.trans hj
  | stop => cases h.symm.trans hj
  | user x => cases h.symm.trans hj

/-- The member that `θ` is about to hand over is of a connection that is not removed,
unless it is `connectDestroyed`. -/
def Timely (s : Server τ υ) (θ : Thread τ) : Prop :=
  ∀ j c f, s.inFlight θ = some j → j.task = .conn c f → f ≠ .connectDestroyed →
    (s.conns c).removals = 0

omit [DecidableEq τ] in
theorem Timely.of_idle {s : Server τ υ} {θ : Thread τ} (h : s.inFlight θ = none) : s.Timely θ := by
  intro j c f hj
  rw [h] at hj
  cases hj

omit [DecidableEq τ] in
theorem Timely.congr {s t : Server τ υ} {θ : Thread τ} (h : s.Timely θ)
    (hflight : t.inFlight θ = s.inFlight θ)
    (hremovals : ∀ c, (t.conns c).removals = (s.conns c).removals) : t.Timely θ := by
  intro j c f hj
  rw [hremovals]
  rw [hflight] at hj
  exact h j c f hj

theorem timely_setFlight {s : Server τ υ} {θ : Thread τ} {j : Job τ υ}
    (h : ∀ c f, j.task = .conn c f → f ≠ .connectDestroyed → (s.conns c).removals = 0) :
    (s.setFlight θ (some j)).Timely θ := by
  intro k c f hk
  rw [inFlight_setFlight_self] at hk
  cases hk
  exact h c f

theorem timely_perform {s : Server τ υ} {θ : Thread τ} (h : s.inFlight θ = none) (w : WriteResult)
    (k : Task τ υ) : (s.perform θ w k).Timely θ := by
  intro j c f hj htask hf
  obtain ⟨d, hremoval | hdestroyed⟩ := flight_perform h hj
  · cases hremoval.symm.trans htask
  · cases hdestroyed.symm.trans htask
    exact (hf rfl).elim

theorem timely_call {s : Server τ υ} (h : s.Cycle []) {θ : Thread τ} {c : Nat}
    (hc : c < s.accepted) (hidle : s.inFlight θ = none) (k : Call) : (s.call θ c k).Timely θ := by
  cases k with
  | send data =>
      simp only [call]
      split
      · next hconnected =>
          apply timely_setFlight
          rintro d f ⟨⟩ -
          have hstate : s.state c = .connected := beq_iff_eq.1 hconnected
          exact (h.undestroyed hc (by simp [hstate])).1
      · exact .of_idle hidle
  | shutdown =>
      simp only [call]
      split
      · next hconnected =>
          apply timely_setFlight
          rintro d f ⟨⟩ -
          have hstate : s.state c = .connected := beq_iff_eq.1 hconnected
          rw [act, conns_setConn_self]
          exact (h.undestroyed hc (by simp [hstate])).1
      · exact .of_idle hidle
  | forceClose =>
      simp only [call]
      split
      · next hclosable =>
          apply timely_setFlight
          rintro d f ⟨⟩ -
          have hstate : s.state c ≠ .disconnected := by
            intro hstate
            simp [TcpConnection.closable, show (s.conns c).conn.state = _ from hstate] at hclosable
          rw [act, conns_setConn_self]
          exact (h.undestroyed hc hstate).1
      · exact .of_idle hidle

theorem step_timely {s t : Server τ υ} {i : ServerInput τ υ} (hplaced : s.Placed)
    (hcycle : s.Cycle []) (h : s.Timely i.thread) (hstep : s.step i = some t) :
    t.Timely i.thread := by
  cases (step_spec hstep).2 with
  | call hfree hc => exact timely_call hcycle hc hfree.1 _
  | stop => exact timely_setFlight nofun
  | @stopNext c stopping hstopping hidle =>
      have hrest : ({ s with stopping } : Server τ υ).Cycle [] :=
        hcycle.move rfl rfl (fun _ hk => hk) hcycle.base (fun _ _ hp => hp) fun _ _ _ => rfl
      have hc : c < s.accepted := loopOf_isSome.1 (hplaced.stopping c (by simp [hstopping]))
      exact timely_call hrest hc hidle .shutdown
  | @deliver θ w j hj =>
      have hidle : (s.setFlight θ none).inFlight θ = none := inFlight_setFlight_self s θ none
      unfold deliver
      dsimp only
      split
      · exact timely_perform hidle _ _
      · exact .of_idle hidle
  | queueUser => exact timely_setFlight nofun
  | poll => exact h.congr rfl fun _ => rfl
  | callback htodo hfree =>
      intro j c f hj htask
      cases (flight_exec (s := s.setTodo _ _) hfree.1 hj).symm.trans htask
  | @accept l r retrieved w sockfd kind todo htodo hfree =>
      have hbase : l = 0 := (hplaced.loops l).todo (none, kind) (by simp [htodo])
      subst hbase
      show ((s.setTodo 0 todo).newConnection (.loop 0) sockfd).Timely (.loop 0)
      unfold newConnection
      rw [if_pos rfl]
      apply timely_setFlight
      rintro d f ⟨⟩ -
      have hnumber : (s.setTodo 0 todo).accepted = (s.setTodo 0 todo).getNextLoop.2.accepted :=
        (accepted_getNextLoop _).symm
      rw [hnumber, conns_register_self]
  | functor hfunctors hfree => exact timely_perform (s := s.setLoop _ _) hfree.1 _ _
  | _ => exact h.congr rfl fun _ => rfl

end Server

end Hayai
