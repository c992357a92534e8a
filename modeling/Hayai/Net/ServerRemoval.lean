import Hayai.Net.ServerProgress

/-! # Closed connections go away

Whoever closes a connection has its removal in hand: the functor is on its way to the base
loop, or in the base loop's queue. So when the loops go on, the connection leaves the registry
and its `connectDestroyed` runs.
-/

namespace Hayai

variable {τ υ : Type}

/-- A member that closes an open connection calls `closeCallback_`. -/
theorem Op.closeCallback_mem {c : TcpConnection (List UInt8)} {op : Op τ} (hfits : op.Fits c)
    (hallowed : op.Allowed c.state) (hopen : c.state ≠ .disconnected)
    (hclosed : (op.run c).1.state = .disconnected) : .closeCallback ∈ (op.run c).2 := by
  cases op with
  | idle => exact absurd hclosed hopen
  | setRevents revt => exact absurd hclosed hopen
  | sendInLoop m w => exact absurd ((TcpConnection.sendInLoop_state hfits).symm.trans hclosed) hopen
  | shutdown =>
      simp only [run, TcpConnection.shutdown] at hclosed
      split at hclosed
      · cases hclosed
      · exact absurd hclosed hopen
  | shutdownNow =>
      simp only [run, TcpConnection.shutdown] at hclosed
      split at hclosed
      · cases hclosed
      · exact absurd hclosed hopen
  | shutdownInLoop => exact absurd hclosed hopen
  | forceClose =>
      simp only [run, TcpConnection.forceClose] at hclosed
      split at hclosed
      · cases hclosed
      · exact absurd hclosed hopen
  | forceCloseNow => simp [run, TcpConnection.handleClose]
  | handleClose => simp [run, TcpConnection.handleClose]
  | handleError => exact absurd hclosed hopen
  | handleRead r retrieved =>
      revert hclosed
      refine TcpConnection.handleRead_cases
        (P := fun p => p.1.state = .disconnected → .closeCallback ∈ p.2) ?_ ?_ ?_
      · intro _ _
        simp [TcpConnection.handleClose]
      · intro _ _ _ _ hclosed
        exact absurd hclosed hopen
      · intro _ _ hclosed
        exact absurd hclosed hopen
  | handleWrite w => exact absurd ((TcpConnection.handleWrite_state hfits).symm.trans hclosed) hopen
  | connectEstablished =>
      simp only [run, TcpConnection.connectEstablished] at hclosed
      split at hclosed
      · cases hclosed
      · exact absurd hclosed hopen
  | connectDestroyed => exact absurd hallowed hopen

namespace Server

variable [DecidableEq τ]

/-! ## Removals -/

theorem removals_removeConnectionInLoop (s : Server τ υ) (c : Nat) :
    ((s.removeConnectionInLoop (.loop 0) c).conns c).removals = (s.conns c).removals + 1 := by
  unfold removeConnectionInLoop
  rw [if_pos rfl]
  dsimp only
  split <;> simp [queueInLoop, erase, setFlight]

theorem removals_le_perform (s : Server τ υ) (θ : Thread τ) (w : WriteResult) (k : Task τ υ)
    (d : Nat) : (s.conns d).removals ≤ ((s.perform θ w k).conns d).removals := by
  by_cases hbase : θ = .loop 0
  · cases k with
    | conn c f => exact (removals_exec s θ c _ d).ge
    | removeConnectionInLoop c =>
        subst hbase
        by_cases hd : d = c
        · subst hd
          exact (Nat.le_add_right _ 1).trans (removals_removeConnectionInLoop s d).ge
        · simp only [perform, removeConnectionInLoop, if_true]
          split <;> simp [queueInLoop, erase, setFlight, conns_setConn_of_ne hd, note]
    | stop => exact le_rfl
    | user x => exact le_rfl
  · exact (removals_perform hbase w k d).ge

theorem removals_le_step {s t : Server τ υ} {i : ServerInput τ υ} (hstep : s.step i = some t)
    {d : Nat} (hd : d < s.accepted) : (s.conns d).removals ≤ (t.conns d).removals := by
  cases (step_spec hstep).2 with
  | call => exact (removals_call s _ _ _ d).ge
  | @stopNext c stopping =>
      exact (removals_call ({ s with stopping } : Server τ υ) (.loop 0) c .shutdown d).ge
  | deliver =>
      unfold deliver
      dsimp only
      split
      · exact removals_le_perform (s.setFlight _ none) _ _ _ d
      · exact le_rfl
  | @callback l _ _ _ _ _ _ todo => exact (removals_exec (s.setTodo l todo) _ _ _ d).ge
  | @accept l r retrieved w sockfd kind todo =>
      unfold newConnection
      split
      · have hne : d ≠ (s.setTodo l todo).getNextLoop.2.accepted := by
          rw [accepted_getNextLoop]
          exact Nat.ne_of_lt hd
        simp only [runInLoop, setFlight, conns_register_of_ne hne, conns_getNextLoop]
        exact le_rfl
      · exact le_rfl
  | functor => exact removals_le_perform (s.setLoop _ _) _ _ _ d
  | _ => exact le_rfl

/-! ## Closing -/

def removal (c : Nat) : Job τ υ := ⟨0, .removeConnectionInLoop c, true⟩

/-- The thread that closed connection `c` is about to hand over the removal, or the base loop
has it in its queue. -/
def Leaving (s : Server τ υ) (c : Nat) : Prop :=
  s.inFlight (.loop (s.conns c).loop) = some (removal c) ∨
    .removeConnectionInLoop c ∈ (s.loops 0).loop.queued

/-- A closed connection is removed, or its removal is under way. -/
def ClosedLeave (s : Server τ υ) : Prop :=
  ∀ c < s.accepted, s.state c = .disconnected → (s.conns c).removals ≠ 0 ∨ s.Leaving c

/-- The step that closes a connection leaves its removal with the thread of its loop. -/
theorem leaving_of_close {s t : Server τ υ} {i : ServerInput τ υ} (h : s.Steady)
    (hstep : s.step i = some t) {c : Nat} (hc : c < s.accepted) (hopen : s.state c ≠ .disconnected)
    (hclosed : t.state c = .disconnected) : t.Leaving c := by
  have hloop := loop_step h hstep hc
  cases step_connMoves h.placed h.cycle hstep c with
  | @ran θ op hmember _ hfits hallowed ht =>
      left
      obtain ⟨-, u, hu, rfl⟩ := exec_of_member h.placed hstep hmember
      rw [state, ht] at hclosed
      have hcloses := Op.closeCallback_mem hfits hallowed hopen hclosed
      rw [hloop]
      unfold exec
      simp only [hu, ne_eq, not_true_eq_false, decide_false, Bool.and_false, Bool.false_eq_true,
        if_false]
      rw [if_pos (List.contains_iff_mem.2 hcloses), removeConnection, runInLoop,
        inFlight_setFlight_self]
      rfl
  | fresh _ _ hnew => exact absurd hnew (Nat.ne_of_lt hc)
  | quiet _ _ hquiet =>
      have hshut := hquiet.isOpen
      have hconnecting := hquiet.connecting
      rw [show (t.conns c).conn.state = _ from hclosed] at hshut hconnecting
      revert hopen hshut hconnecting
      rw [state]
      cases (s.conns c).conn.state <;> simp [ConnState.isOpen]

/-- The base loop's thread removes the connection. -/
theorem removed_of_functor {s t : Server τ υ} {c : Nat} {w : WriteResult}
    (hstep : s.step (.functor 0 w) = some t)
    (hhead : (s.loops 0).loop.functors.head? = some (.removeConnectionInLoop c)) :
    (t.conns c).removals ≠ 0 := by
  cases (step_spec hstep).2 with
  | functor hfunctors =>
      rw [hfunctors] at hhead
      cases hhead
      rw [perform, removals_removeConnectionInLoop]
      exact Nat.succ_ne_zero _

theorem removed_or_queued {s t : Server τ υ} {c : Nat} {θ : Thread τ} {w : WriteResult}
    (hj : s.inFlight θ = some (removal c)) (hstep : s.step (.deliver θ w) = some t) :
    (t.conns c).removals ≠ 0 ∨ .removeConnectionInLoop c ∈ (t.loops 0).loop.queued := by
  by_cases hbase : θ = .loop 0
  · left
    cases (step_spec hstep).2 with
    | deliver hj' =>
        cases hj.symm.trans hj'
        subst hbase
        show (((s.setFlight (.loop 0) none).removeConnectionInLoop (.loop 0) c).conns c).removals ≠ 0
        rw [removals_removeConnectionInLoop]
        exact Nat.succ_ne_zero _
  · exact .inr (queued_of_deliver hj (fun hown => hbase hown.2) hstep)

/-- A functor stays in its loop's queue until it is run. -/
theorem queued_step {s t : Server τ υ} {i : ServerInput τ υ} (hstep : s.step i = some t) {l : Nat}
    {k : Task τ υ} (hk : k ∈ (s.loops l).loop.queued) :
    k ∈ (t.loops l).loop.queued ∨
      ∃ w, i = .functor l w ∧ (s.loops l).loop.functors.head? = some k := by
  cases step_batch hstep l with
  | kept _ hkeeps =>
      left
      rw [EventLoop.queued, hkeeps.functors]
      rcases List.mem_append.1 hk with hk | hk
      · exact List.mem_append_left _ hk
      · exact List.mem_append_right _ (hkeeps.pending.subset hk)
  | doPendingFunctors hbatch hfunctors hpending =>
      left
      simpa [EventLoop.queued, hfunctors, hpending, hbatch] using hk
  | @functor w k' hfunctors hpending =>
      rw [EventLoop.queued, hfunctors] at hk
      rw [EventLoop.queued, hpending]
      rcases List.mem_cons.1 hk with rfl | hk
      · exact .inr ⟨w, rfl, by rw [hfunctors]; rfl⟩
      · exact .inl hk
  | endPendingFunctors hbatch hfunctors hpending =>
      left
      simpa [EventLoop.queued, hfunctors, hpending, hbatch] using hk

theorem leaving_step {s t : Server τ υ} {i : ServerInput τ υ} (h : s.Steady)
    (hstep : s.step i = some t) {c : Nat} (hc : c < s.accepted) (hleaving : s.Leaving c) :
    (t.conns c).removals ≠ 0 ∨ t.Leaving c := by
  rcases hleaving with hflight | hqueued
  · by_cases hthread : i.thread = .loop (s.conns c).loop
    · rcases flight_of_step hstep with ⟨w, hi⟩ | hnone
      · rw [hthread] at hi
        subst hi
        exact (removed_or_queued hflight hstep).imp_right .inr
      · rw [hthread, hflight] at hnone
        cases hnone
    · refine .inr (.inl ?_)
      rw [loop_step h hstep hc, inFlight_step_of_ne (Ne.symm hthread) hstep]
      exact hflight
  · rcases queued_step hstep hqueued with hqueued | ⟨w, rfl, hhead⟩
    · exact .inr (.inr hqueued)
    · exact .inl (removed_of_functor hstep hhead)

theorem step_closedLeave {s t : Server τ υ} {i : ServerInput τ υ} (h : s.Steady)
    (hleave : s.ClosedLeave) (hstep : s.step i = some t) : t.ClosedLeave := by
  intro c hc hclosed
  by_cases hold : c < s.accepted
  · by_cases hopen : s.state c = .disconnected
    · rcases hleave c hold hopen with hremoved | hleaving
      · exact .inl fun hzero => hremoved (Nat.le_zero.1 (hzero ▸ removals_le_step hstep hold))
      · exact leaving_step h hstep hold hleaving
    · exact .inr (leaving_of_close h hstep hold hopen hclosed)
  · obtain ⟨sockfd, -, -, hconn, -⟩ := exists_accepts_of_new h.placed hstep
      (step_connMoves h.placed h.cycle hstep c) hc hold
    rw [state, hconn] at hclosed
    cases hclosed

/-! ## Removed connections -/

def Removed (s : Server τ υ) (c : Nat) : Prop :=
  (∀ name, (name, c) ∉ s.connections) ∧ (s.conns c).done .destroyed = 1

omit [DecidableEq τ] in
theorem Steady.removed {s : Server τ υ} (h : s.Steady) {c : Nat} (hc : c < s.accepted)
    (hdone : 1 ≤ (s.conns c).done .destroyed) : s.Removed c := by
  have hstages := h.cycle.stages .destroyed c hc
  have hremovals : (s.conns c).removals ≠ 0 := by
    intro hzero
    simp only [Stage.due, if_pos hzero] at hstages
    omega
  simp only [Stage.due, if_neg hremovals] at hstages
  refine ⟨fun name hentry => ?_, by omega⟩
  exact hremovals ((h.registered.entries name c).1 hentry).2.2

section Endless

variable {e : (machine τ υ).Execution} (hsteady : ∀ n, (e.state n).Steady)
include hsteady

theorem removed_of_queued {n : ℕ} {c : Nat} (hbase : GoesOn e 0)
    (hk : .removeConnectionInLoop c ∈ ((e.state n).loops 0).loop.queued) :
    ∃ m, n ≤ m ∧ ((e.state m).conns c).removals ≠ 0 := by
  obtain ⟨m, hm, w, hinput, hhead⟩ :=
    hbase.runs (fun n => (hsteady n).inPhase) (fun n => (hsteady n).batched) hk
  have hstep := e.step m
  rw [hinput] at hstep
  exact ⟨m + 1, by omega, removed_of_functor hstep hhead⟩

theorem removed_of_leaving {n : ℕ} {c : Nat} (hbase : GoesOn e 0)
    (hown : GoesOn e ((e.state n).conns c).loop) (hleaving : (e.state n).Leaving c) :
    ∃ m, n ≤ m ∧ ((e.state m).conns c).removals ≠ 0 := by
  rcases hleaving with hflight | hqueued
  · obtain ⟨m, hm, ⟨w, hinput⟩, hj⟩ := hown.delivers hflight
    have hstep := e.step m
    rw [hinput] at hstep
    rcases removed_or_queued hj hstep with hremoved | hqueued
    · exact ⟨m + 1, by omega, hremoved⟩
    · obtain ⟨m', hm', hremoved⟩ := removed_of_queued hsteady hbase hqueued
      exact ⟨m', by omega, hremoved⟩
  · exact removed_of_queued hsteady hbase hqueued

end Endless

/-- Once a connection has closed, whoever closed it, it leaves the registry for good and
`connectDestroyed` runs for it, as long as the base loop and its own loop go on. -/
theorem closed_gets_removed {e : (machine τ υ).Execution} {name : String} {numThreads : Nat}
    {cb mcb : Bool} (hstart : e.state 0 = start name numThreads cb mcb)
    (hbound : ∀ n, (e.state n).accepted ≤ 2 ^ 31 - 1) (hbase : GoesOn e 0) {n : ℕ} {c : Nat}
    (hc : c < (e.state n).accepted) (hclosed : (e.state n).state c = .disconnected)
    (hown : GoesOn e ((e.state n).conns c).loop) :
    ∃ m, n ≤ m ∧ ∀ k, m ≤ k → (e.state k).Removed c := by
  have hsteady := steady_of_start hstart hbound
  have hleave : ∀ n, (e.state n).ClosedLeave := by
    intro n
    induction n with
    | zero =>
        rw [hstart]
        nofun
    | succ n ih => exact step_closedLeave (hsteady n) ih (e.step n)
  -- First the registry lets go of it.
  obtain ⟨m, hm, hremoved⟩ : ∃ m, n ≤ m ∧ ((e.state m).conns c).removals ≠ 0 := by
    rcases hleave n c hc hclosed with hremoved | hleaving
    · exact ⟨n, le_rfl, hremoved⟩
    · exact removed_of_leaving hsteady hbase hown hleaving
  have hcm := hc.trans_le (accepted_later hm)
  -- Then its `connectDestroyed` is due.
  obtain ⟨m', hm', hdone⟩ : ∃ m', m ≤ m' ∧ 1 ≤ ((e.state m').conns c).done .destroyed := by
    by_cases hdone : 1 ≤ ((e.state m).conns c).done .destroyed
    · exact ⟨m, le_rfl, hdone⟩
    · refine stage_comes hsteady hcm hbase ?_ ?_
      · rw [loop_later hsteady hm hc]
        exact hown
      · have hstages := (hsteady m).cycle.stages .destroyed c hcm
        simp only [Stage.due, if_neg hremoved] at hstages
        omega
  refine ⟨m', hm.trans hm', fun k hk => (hsteady k).removed ?_ ?_⟩
  · exact hcm.trans_le (accepted_later (hm'.trans hk))
  · exact hdone.trans (done_later hsteady hk (hcm.trans_le (accepted_later hm')) .destroyed)

/-- A client of a server without a pool comes and goes. -/
theorem closed_gets_removed_alone : ∃ e : (machine Unit Unit).Execution,
    e.state 0 = start "echo" 0 true true ∧ ∃ m, ∀ k, m ≤ k → (e.state k).Removed 0 := by
  let is : List (ServerInput Unit Unit) := [.poll 0 [⟨3, .read, false, false, none⟩],
      .callback 0 (.bytes []) 0 (.wrote 0) (some 7), .deliver (.loop 0) (.wrote 0),
      .doPendingFunctors 0, .endPendingFunctors 0, .poll 0 [⟨7, .read, false, false, some 0⟩],
      .callback 0 (.bytes []) 0 (.wrote 0) none, .deliver (.loop 0) (.wrote 0),
      .deliver (.loop 0) (.wrote 0), .doPendingFunctors 0, .functor 0 (.wrote 0),
      .endPendingFunctors 0]
  obtain ⟨e, hstart, hlast, -, -, haccepted, hbase⟩ := exists_idling
    (show (machine Unit Unit).run (start "echo" 0 true true) is = some _ from rfl)
    (start_placed "echo" 0 true true) ⟨rfl, rfl, rfl, rfl, rfl, rfl⟩
  have hc : 0 < (e.state 12).accepted ∧ (e.state 12).state 0 = .disconnected ∧
      ((e.state 12).conns 0).loop = 0 := by
    rw [show e.state 12 = _ from hlast]
    exact ⟨Nat.one_pos, rfl, rfl⟩
  obtain ⟨m, -, hm⟩ := closed_gets_removed hstart (fun n => (haccepted n).trans (by decide))
    hbase hc.1 hc.2.1 (by rw [hc.2.2]; exact hbase)
  exact ⟨e, hstart, m, hm⟩

end Server

end Hayai
