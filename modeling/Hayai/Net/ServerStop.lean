import Hayai.Machine.Run
import Hayai.Net.Confinement
import Hayai.Net.ServerLifecycle
import Hayai.Net.TcpServer

/-! # Stopping a server

The functor of `stop()` drops the acceptor and calls `shutdown()` on a copy of the
registry. `shutdown()` does nothing on a connection that is still Connecting, and such
a connection is there whenever its `connectEstablished` waits on an I/O loop.
-/

namespace Hayai

namespace Server

variable {τ υ : Type}

def Stopped (s : Server τ υ) : Prop := s.acceptor = none ∧ s.stopping = []

def Drained (s : Server τ υ) : Prop :=
  (∀ l ≤ s.numThreads, (s.loops l).loop.queued = [] ∧ s.inFlight (.loop l) = none) ∧
    ∀ t, s.inFlight (.other t) = none

def NoneConnected (s : Server τ υ) : Prop := ∀ p ∈ s.connections, s.state p.2 ≠ .connected

instance (s : Server τ υ) : Decidable s.NoneConnected :=
  inferInstanceAs (Decidable (∀ p ∈ s.connections, _))

def runsStop [DecidableEq τ] (s : Server τ υ) : ServerInput τ υ → Bool
  | .deliver θ _ =>
      match s.inFlight θ with
      | some ⟨l, .stop, inline⟩ => inline && decide (θ = .loop l)
      | _ => false
  | .functor l _ =>
      match (s.loops l).loop.functors with
      | .stop :: _ => true
      | _ => false
  | _ => false

/-- Whenever the functor of `stop()` runs, every connection the server holds has been
established. -/
def StopsEstablished [DecidableEq τ] (s : Server τ υ) (i : ServerInput τ υ) : Prop :=
  s.runsStop i = true → ∀ p ∈ s.connections, s.state p.2 ≠ .connecting

instance [DecidableEq τ] (s : Server τ υ) (i : ServerInput τ υ) :
    Decidable (s.StopsEstablished i) :=
  inferInstanceAs (Decidable (_ → ∀ p ∈ s.connections, _))

/-! ## Steps -/

structure KeepsStop (s t : Server τ υ) : Prop where
  acceptor : t.acceptor = s.acceptor
  stopping : t.stopping = s.stopping
  connections : t.connections ⊆ s.connections

theorem KeepsStop.of_eq {s t : Server τ υ} (hacceptor : t.acceptor = s.acceptor)
    (hstopping : t.stopping = s.stopping) (hconnections : t.connections = s.connections) :
    s.KeepsStop t := by
  refine ⟨hacceptor, hstopping, ?_⟩
  rw [hconnections]
  exact List.Subset.refl _

theorem KeepsStop.trans {s t u : Server τ υ} (h : s.KeepsStop t) (h' : t.KeepsStop u) :
    s.KeepsStop u :=
  ⟨h'.acceptor.trans h.acceptor, h'.stopping.trans h.stopping,
    List.Subset.trans h'.connections h.connections⟩

variable [DecidableEq τ]

theorem keepsStop_exec (s : Server τ υ) (θ : Thread τ) (c : Nat) (op : Op (Thread τ)) :
    s.KeepsStop (s.exec θ c op) := by
  unfold Server.exec
  split
  · exact .of_eq rfl rfl rfl
  · dsimp only
    split <;> exact .of_eq rfl rfl rfl

theorem keepsStop_removeConnectionInLoop (s : Server τ υ) (θ : Thread τ) (c : Nat) :
    s.KeepsStop (s.removeConnectionInLoop θ c) := by
  unfold Server.removeConnectionInLoop
  split
  · dsimp only
    split
    · exact .of_eq rfl rfl rfl
    · exact ⟨rfl, rfl, List.filter_subset_self _⟩
  · exact .of_eq rfl rfl rfl

theorem keepsStop_call (s : Server τ υ) (θ : Thread τ) (c : Nat) (k : Call) :
    s.KeepsStop (s.call θ c k) := by
  cases k <;> simp only [Server.call] <;> split <;> exact .of_eq rfl rfl rfl

theorem keepsStop_perform {s : Server τ υ} {k : Task τ υ} (hk : k ≠ .stop) (θ : Thread τ)
    (w : WriteResult) : s.KeepsStop (s.perform θ w k) := by
  cases k with
  | conn c f => exact keepsStop_exec s θ c (f.op w)
  | removeConnectionInLoop c => exact keepsStop_removeConnectionInLoop s θ c
  | stop => exact absurd rfl hk
  | user x => exact .of_eq rfl rfl rfl

omit [DecidableEq τ] in
theorem acceptor_register (s : Server τ υ) (θ : Thread τ) (sockfd l : Nat) :
    (s.register θ sockfd l).acceptor = s.acceptor := rfl

theorem acceptor_runInLoop (s : Server τ υ) (θ : Thread τ) (l : Nat) (k : Task τ υ) :
    (s.runInLoop θ l k).acceptor = s.acceptor := rfl

theorem acceptor_newConnection (s : Server τ υ) (θ : Thread τ) (sockfd : Nat) :
    (s.newConnection θ sockfd).acceptor = s.acceptor := by
  unfold Server.newConnection
  split
  · dsimp only
    rw [acceptor_runInLoop, acceptor_register]
    unfold Server.getNextLoop
    split <;> rfl
  · rfl

/-- `shutdown()` leaves no connection Connected. -/
theorem state_call_shutdown (s : Server τ υ) (θ : Thread τ) (c : Nat) :
    (s.call θ c .shutdown).state c ≠ .connected := by
  simp only [Server.call]
  split
  · next hconnected =>
      have hstate : (s.conns c).conn.state = .connected := beq_iff_eq.1 hconnected
      show (s.act θ c .shutdown).state c ≠ _
      rw [state_act_self]
      simp [Op.run, TcpConnection.shutdown, hstate]
  · next hconnected =>
      intro hstate
      exact hconnected (beq_iff_eq.2 hstate)

/-- What a step does about stopping: it runs the functor of `stop()`, goes on in that
functor's loop, is a step of a server that still accepts, or leaves all of it alone. -/
theorem step_stop_cases {s t : Server τ υ} {i : ServerInput τ υ} (hstep : s.step i = some t) :
    (s.runsStop i = true ∧ t.acceptor = none ∧ t.stopping = s.connections.map Prod.snd ∧
        t.connections = s.connections ∧ t.conns = s.conns) ∨
      (∃ c, s.stopping = c :: t.stopping ∧ t.acceptor = s.acceptor ∧
        t.connections = s.connections ∧ t.state c ≠ .connected) ∨
      (s.acceptor.isSome = true ∧ t.acceptor = s.acceptor) ∨ s.KeepsStop t := by
  cases (step_spec hstep).2 with
  | call => exact .inr (.inr (.inr (keepsStop_call s _ _ _)))
  | @stopNext c stopping hstopping =>
      have hkeeps := keepsStop_call ({ s with stopping } : Server τ υ) (.loop 0) c .shutdown
      refine .inr (.inl ⟨c, ?_, hkeeps.acceptor, ?_, state_call_shutdown _ _ c⟩)
      · rw [hkeeps.stopping]
        exact hstopping
      · simp only [Server.call]
        split <;> rfl
  | @deliver θ w j hj =>
      have hflight : s.KeepsStop (s.setFlight θ none) := .of_eq rfl rfl rfl
      unfold Server.deliver
      dsimp only
      split
      · next hinline =>
          by_cases hstop : j.task = .stop
          · rcases j with ⟨l, k, inline⟩
            cases hstop
            refine .inl ⟨?_, rfl, rfl, rfl, rfl⟩
            simp only [runsStop, hj]
            simpa using hinline
          · exact .inr (.inr (.inr (hflight.trans (keepsStop_perform hstop θ w))))
      · exact .inr (.inr (.inr (.of_eq rfl rfl rfl)))
  | @callback l r retrieved w sockfd c kind todo =>
      have htodo : s.KeepsStop (s.setTodo l todo) := .of_eq rfl rfl rfl
      exact .inr (.inr (.inr (htodo.trans (keepsStop_exec _ _ _ _))))
  | accept htodo hfree hacceptor =>
      exact .inr (.inr (.inl ⟨hacceptor, acceptor_newConnection _ _ _⟩))
  | @functor l w k functors hfunctors =>
      have hpop : s.KeepsStop (s.setLoop l { (s.loops l).loop with functors }) :=
        .of_eq rfl rfl rfl
      by_cases hstop : k = .stop
      · subst hstop
        refine .inl ⟨?_, rfl, rfl, rfl, rfl⟩
        simp only [runsStop, hfunctors]
      · exact .inr (.inr (.inr (hpop.trans (keepsStop_perform hstop _ w))))
  | _ => exact .inr (.inr (.inr (.of_eq rfl rfl rfl)))

/-! ## Runs -/

omit [DecidableEq τ] in
/-- Once the acceptor is gone every connection in the registry was established, and one
that is Connected is still ahead of the loop in `stop()`. -/
def Halting (s : Server τ υ) : Prop :=
  s.acceptor = none → ∀ p ∈ s.connections,
    s.state p.2 ≠ .connecting ∧ (s.state p.2 = .connected → p.2 ∈ s.stopping)

omit [DecidableEq τ] in
structure Halted (s : Server τ υ) : Prop where
  acceptor : s.acceptor = none
  shut : ∀ p ∈ s.connections, ConnState.connected.rank < (s.state p.2).rank

/-- A connection of the registry that is Connected after a step and was established before
was Connected before. -/
theorem step_established {s t : Server τ υ} {i : ServerInput τ υ} (hplaced : s.Placed)
    (hstep : s.step i = some t) {p : String × Nat} (hp : p ∈ s.connections)
    (hs : s.state p.2 ≠ .connecting) :
    t.state p.2 ≠ .connecting ∧ (t.state p.2 = .connected → s.state p.2 = .connected) := by
  have hrank := step_forward hstep p.2 (loopOf_isSome.1 (hplaced.registered p hp))
  revert hrank hs
  cases s.state p.2 <;> cases t.state p.2 <;> decide

theorem step_halting {s t : Server τ υ} {i : ServerInput τ υ} (hplaced : s.Placed)
    (h : s.Halting) (hc : s.StopsEstablished i) (hstep : s.step i = some t) : t.Halting := by
  intro hacceptor p hp
  rcases step_stop_cases hstep with ⟨hruns, -, hstopping, hconnections, hconns⟩ |
    ⟨c, hstopping, hsame, hconnections, hc'⟩ | ⟨hsome, hsame⟩ | hkeeps
  · rw [hconnections] at hp
    rw [state, hconns, hstopping]
    exact ⟨hc hruns p hp, fun _ => List.mem_map_of_mem hp⟩
  · rw [hconnections] at hp
    have hbefore := h (hsame ▸ hacceptor) p hp
    have hafter := step_established hplaced hstep hp hbefore.1
    refine ⟨hafter.1, fun hconnected => ?_⟩
    have hmem := hbefore.2 (hafter.2 hconnected)
    rw [hstopping] at hmem
    -- The head of the vector has just been shut down.
    rcases List.mem_cons.1 hmem with rfl | hmem
    · exact absurd hconnected hc'
    · exact hmem
  · rw [← hsame, hacceptor] at hsome
    cases hsome
  · have hold := hkeeps.connections hp
    have hbefore := h (hkeeps.acceptor ▸ hacceptor) p hold
    have hafter := step_established hplaced hstep hold hbefore.1
    refine ⟨hafter.1, fun hconnected => ?_⟩
    rw [hkeeps.stopping]
    exact hbefore.2 (hafter.2 hconnected)

/-- A stopped server stays so under every step, further calls of `stop()` included. -/
theorem step_halted {s t : Server τ υ} {i : ServerInput τ υ} (hplaced : s.Placed)
    (h : s.Halted) (hstep : s.step i = some t) : t.Halted := by
  have hshut : ∀ p ∈ s.connections, ConnState.connected.rank < (t.state p.2).rank := by
    intro p hp
    have hrank := step_forward hstep p.2 (loopOf_isSome.1 (hplaced.registered p hp))
    exact lt_of_lt_of_le (h.shut p hp) hrank
  rcases step_stop_cases hstep with ⟨-, hacceptor, -, hconnections, -⟩ |
    ⟨-, -, hsame, hconnections, -⟩ | ⟨hsome, -⟩ | hkeeps
  · exact ⟨hacceptor, hconnections ▸ hshut⟩
  · exact ⟨hsame.trans h.acceptor, hconnections ▸ hshut⟩
  · rw [h.acceptor] at hsome
    cases hsome
  · exact ⟨hkeeps.acceptor.trans h.acceptor, fun p hp => hshut p (hkeeps.connections hp)⟩

omit [DecidableEq τ] in
/-- A stop that is over and met only established connections has shut them all. -/
theorem Halting.halted {s : Server τ υ} (h : s.Halting) (hstopped : s.Stopped) : s.Halted := by
  refine ⟨hstopped.1, fun p hp => ?_⟩
  rcases h hstopped.1 p hp with ⟨hestablished, hconnected⟩
  rw [hstopped.2] at hconnected
  revert hestablished hconnected
  cases s.state p.2 <;> simp [ConnState.rank]

omit [DecidableEq τ] in
theorem Halted.noneConnected {s : Server τ υ} (h : s.Halted) : s.NoneConnected := by
  intro p hp hconnected
  have hrank := h.shut p hp
  rw [hconnected] at hrank
  exact lt_irrefl _ hrank

/-- With every connection established when its functor runs, `stop()` misses none: from
the state where that functor has finished on, no connection of the registry is
Connected. -/
theorem stop_misses_none (name : String) (numThreads : Nat) (cb mcb : Bool)
    (before after : List (ServerInput τ υ)) {s : Server τ υ}
    (hmeets : (machine τ υ).Meets StopsEstablished (start name numThreads cb mcb) before)
    (hrun : (machine τ υ).run (start name numThreads cb mcb) before = some s)
    (hstopped : s.Stopped) : (machine τ υ).Always NoneConnected s after := by
  have hbefore : (machine τ υ).Always (fun s => s.Placed ∧ s.Halting)
      (start name numThreads cb mcb) before := by
    apply Machine.always_of_meets _ _ hmeets
    · intro s i t hs hc hstep
      exact ⟨step_placed hs.1 hstep, step_halting hs.1 hs.2 hc hstep⟩
    · exact ⟨start_placed name numThreads cb mcb, nofun⟩
  rcases hbefore.last hrun with ⟨hplaced, hhalting⟩
  apply Machine.Always.mono (P := fun s => s.Placed ∧ s.Halted)
  · intro s hs
    exact hs.2.noneConnected
  · apply Machine.always_of_invariant
    · intro s i t hs hstep
      exact ⟨step_placed hs.1 hstep, step_halted hs.1 hs.2 hstep⟩
    · exact ⟨hplaced, hhalting.halted hstopped⟩

def acceptThenStop : List (ServerInput Unit Unit) :=
  [.poll 0 [⟨3, .read, false, false, none⟩], .callback 0 (.bytes []) 0 (.wrote 0) (some 7),
    .deliver (.loop 0) (.wrote 0), .stop (.other ()), .deliver (.other ()) (.wrote 0),
    .doPendingFunctors 0, .functor 0 (.wrote 0), .stopNext]

/-- Without a pool the connection is established at once, and the stop reaches it. -/
theorem stop_misses_none_single_loop : ∃ s : Server Unit Unit,
    (machine Unit Unit).run (start "echo" 0 true true) acceptThenStop = some s ∧
      s.connections.length = 1 ∧ s.NoneConnected := by
  have hmeets : (machine Unit Unit).Meets StopsEstablished (start "echo" 0 true true)
      acceptThenStop := by decide +kernel
  exact ⟨_, rfl, by decide +kernel,
    (stop_misses_none "echo" 0 true true acceptThenStop [] hmeets rfl ⟨rfl, rfl⟩).head⟩

/-- With a loop in the pool `connectEstablished` may come after the functor of `stop()`,
whose `shutdown()` found the connection Connecting. Then all functors have run, the
acceptor is gone and the connection is Connected. -/
theorem stop_misses_connecting : ∃ s : Server Unit Unit,
    (machine Unit Unit).run (start "echo" 1 true true)
      (acceptThenStop ++ [.endPendingFunctors 0, .poll 1 [], .doPendingFunctors 1,
        .functor 1 (.wrote 0), .endPendingFunctors 1]) = some s ∧
      s.Stopped ∧ s.Drained ∧ ¬s.NoneConnected := by
  refine ⟨_, rfl, ⟨rfl, rfl⟩, ⟨?_, ?_⟩, ?_⟩
  · decide +kernel
  · intro t
    rfl
  · decide +kernel

end Server

end Hayai
