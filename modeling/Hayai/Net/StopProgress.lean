import Hayai.Net.ServerProgress
import Hayai.Net.ServerStop

/-! # `stop()` takes effect

The functor of `stop()` is handed over and run, and its loop over the connections comes to an
end, because the base loop cannot go on before that.
-/

namespace Hayai

namespace Server

variable {τ υ : Type} [DecidableEq τ]

theorem acceptor_step {s t : Server τ υ} {i : ServerInput τ υ} (h : s.acceptor = none)
    (hstep : s.step i = some t) : t.acceptor = none := by
  rcases step_stop_cases hstep with ⟨-, hacceptor, -⟩ | ⟨-, -, hsame, -⟩ | ⟨-, hsame⟩ | hkeeps
  · exact hacceptor
  · exact hsame.trans h
  · exact hsame.trans h
  · exact hkeeps.acceptor.trans h

/-- A server that has lost its acceptor accepts nothing. -/
theorem accepted_step_of_stopped {s t : Server τ υ} {i : ServerInput τ υ} (hplaced : s.Placed)
    (h : s.acceptor = none) (hstep : s.step i = some t) : t.accepted = s.accepted := by
  rw [accepted_step hplaced hstep]
  suffices hnone : s.accepts i = none by
    rw [hnone]
    rfl
  cases (step_spec hstep).2 with
  | @callback l r retrieved w sockfd c kind todo htodo => cases sockfd <;> simp [accepts, htodo]
  | accept htodo hfree hacceptor =>
      rw [h] at hacceptor
      cases hacceptor
  | _ => rfl

/-- While the functor of `stop()` is in its loop, the base loop takes no step of its pass. -/
theorem stopping_of_pass {s t : Server τ υ} {i : ServerInput τ υ} (hi : isPassOf 0 i = true)
    (hstep : s.step i = some t) : s.stopping = [] := by
  have hbase : ∀ {l : Nat}, (l == 0) = true → s.Free (.loop l) → s.stopping = [] := by
    intro l hl hfree
    rw [beq_iff_eq.1 hl] at hfree
    exact hfree.2 rfl
  cases i with
  | poll l events =>
      simp only [step, Option.ite_none_right_eq_some] at hstep
      exact hbase hi hstep.1.2.1
  | callback l r retrieved w sockfd =>
      simp only [step] at hstep
      split at hstep
      · exact hbase hi (Option.ite_none_right_eq_some.1 hstep).1.2.1
      · cases hstep
  | doPendingFunctors l =>
      simp only [step, Option.ite_none_right_eq_some] at hstep
      exact hbase hi hstep.1.2.1
  | functor l w =>
      simp only [step] at hstep
      split at hstep
      · exact hbase hi (Option.ite_none_right_eq_some.1 hstep).1.2.1
      · cases hstep
  | endPendingFunctors l =>
      simp only [step, Option.ite_none_right_eq_some] at hstep
      exact hbase hi hstep.1.2.1
  | _ => cases hi

theorem flight_of_stop {s t : Server τ υ} {θ : Thread τ} (hstep : s.step (.stop θ) = some t) :
    t.inFlight θ = some ⟨0, .stop, true⟩ := by
  cases (step_spec hstep).2 with
  | stop => exact inFlight_setFlight_self _ _ _

theorem acceptor_of_runsStop {s t : Server τ υ} {i : ServerInput τ υ} (hruns : s.runsStop i = true)
    (hstep : s.step i = some t) : t.acceptor = none := by
  cases (step_spec hstep).2 with
  | @deliver θ w j hj =>
      rcases j with ⟨l, k, inline⟩
      cases k with
      | stop =>
          simp only [runsStop, hj, Bool.and_eq_true, decide_eq_true_eq] at hruns
          unfold deliver
          dsimp only
          rw [if_pos hruns]
          rfl
      | _ => simp [runsStop, hj] at hruns
  | @functor l w k functors hfunctors =>
      cases k with
      | stop => rfl
      | _ => simp [runsStop, hfunctors] at hruns
  | _ => cases hruns

/-- The functor of a call of `stop()` is run, by the caller itself on the base loop's thread
and out of the base loop's queue otherwise. -/
theorem stop_runs {e : (machine τ υ).Execution} (hphase : ∀ n, (e.state n).InPhase)
    (hbatched : ∀ n, (e.state n).Batched) (hbase : GoesOn e 0) {n : ℕ} {θ : Thread τ}
    (hstop : e.input n = .stop θ) (hmoves : ∃ m, n < m ∧ (e.input m).thread = θ) :
    ∃ m, n < m ∧ (e.state m).runsStop (e.input m) = true := by
  obtain ⟨m, hm, ⟨w, hinput⟩, hj⟩ :=
    delivered_of_moves (flight_of_stop (hstop ▸ e.step n)) hmoves
  by_cases hown : θ = .loop 0
  · refine ⟨m, hm, ?_⟩
    rw [hinput]
    simp only [runsStop, hj]
    simpa using hown
  · have hqueued := queued_of_deliver hj (by simp [hown]) (hinput ▸ e.step m)
    obtain ⟨m', hm', w', hinput', hhead⟩ := hbase.runs hphase hbatched hqueued
    obtain ⟨functors, hfunctors⟩ := List.head?_eq_some_iff.1 hhead
    refine ⟨m', by omega, ?_⟩
    rw [hinput']
    simp only [runsStop, hfunctors]

/-- The server no longer accepts, and has shut down what it still holds. -/
structure StoppedFor (accepted : Nat) (s : Server τ υ) : Prop extends s.Halted where
  placed : s.Placed
  accepted : s.accepted = accepted

theorem step_stoppedFor {s t : Server τ υ} {i : ServerInput τ υ} {accepted : Nat}
    (h : s.StoppedFor accepted) (hstep : s.step i = some t) : t.StoppedFor accepted where
  toHalted := step_halted h.placed h.toHalted hstep
  placed := step_placed h.placed hstep
  accepted := (accepted_step_of_stopped h.placed h.acceptor hstep).trans h.accepted

/-- A call of `stop()` takes effect: if it finds every connection established, then from some
point on the server has no acceptor, accepts nothing and holds no Connected connection. -/
theorem stop_takes_effect {e : (machine τ υ).Execution} {name : String} {numThreads : Nat}
    {cb mcb : Bool} (hstart : e.state 0 = start name numThreads cb mcb)
    (hmeets : ∀ n, (e.state n).StopsEstablished (e.input n)) (hbase : GoesOn e 0) {n : ℕ}
    {θ : Thread τ} (hstop : e.input n = .stop θ)
    (hmoves : ∃ m, n < m ∧ (e.input m).thread = θ) :
    ∃ m, n < m ∧ ∀ k, m ≤ k → (e.state k).acceptor = none ∧
      (e.state k).accepted = (e.state m).accepted ∧ (e.state k).NoneConnected := by
  have hall : ∀ n, (e.state n).Placed ∧ (e.state n).Halting ∧ (e.state n).InPhase ∧
      (e.state n).Batched := by
    intro n
    induction n with
    | zero =>
        rw [hstart]
        exact ⟨start_placed name numThreads cb mcb, nofun, start_inPhase name numThreads cb mcb,
          fun _ hne => absurd rfl hne⟩
    | succ n ih =>
        rcases ih with ⟨hplaced, hhalting, hphase, hbatched⟩
        have hstep := e.step n
        exact ⟨step_placed hplaced hstep, step_halting hplaced hhalting (hmeets n) hstep,
          step_inPhase hphase hstep, step_batched hbatched hstep⟩
  obtain ⟨m, hm, hruns⟩ := stop_runs (fun n => (hall n).2.2.1) (fun n => (hall n).2.2.2) hbase
    hstop hmoves
  have hacceptor := acceptor_of_runsStop hruns (e.step m)
  obtain ⟨m', hm', hpass⟩ := hbase (m + 1)
  have hnone := Machine.Execution.holds_from
    (P := fun s : Server τ υ => s.acceptor = none) (fun k hk => acceptor_step hk (e.step k))
    hacceptor hm'
  have hhalted := (hall m').2.1.halted ⟨hnone, stopping_of_pass hpass (e.step m')⟩
  refine ⟨m', by omega, fun k hk => ?_⟩
  have hlater := Machine.Execution.holds_from
    (P := StoppedFor (e.state m').accepted) (fun k hk => step_stoppedFor hk (e.step k))
    ⟨hhalted, (hall m').1, rfl⟩ hk
  exact ⟨hlater.acceptor, hlater.accepted, hlater.noneConnected⟩

/-- Another thread stops a server without a pool that has one client. -/
theorem stop_takes_effect_alone : ∃ e : (machine Unit Unit).Execution,
    e.state 0 = start "echo" 0 true true ∧ e.input 5 = .stop (.other ()) ∧
      ∃ m, 5 < m ∧ ∀ k, m ≤ k → (e.state k).acceptor = none ∧ (e.state k).NoneConnected := by
  let is : List (ServerInput Unit Unit) := [.poll 0 [⟨3, .read, false, false, none⟩],
    .callback 0 (.bytes []) 0 (.wrote 0) (some 7), .deliver (.loop 0) (.wrote 0),
    .doPendingFunctors 0, .endPendingFunctors 0, .stop (.other ()), .deliver (.other ()) (.wrote 0),
    .poll 0 [], .doPendingFunctors 0, .functor 0 (.wrote 0), .stopNext,
    .deliver (.loop 0) (.wrote 0), .endPendingFunctors 0,
    .poll 0 [⟨7, .read, false, false, some 0⟩], .callback 0 (.bytes []) 0 (.wrote 0) none,
    .deliver (.loop 0) (.wrote 0), .deliver (.loop 0) (.wrote 0), .doPendingFunctors 0,
    .functor 0 (.wrote 0), .endPendingFunctors 0]
  obtain ⟨e, hstart, -, hbefore, hidling, -, hbase⟩ := exists_idling
    (show (machine Unit Unit).run (start "echo" 0 true true) is = some _ from rfl)
    (start_placed "echo" 0 true true) ⟨rfl, rfl, rfl, rfl, rfl, rfl⟩
  have hmeets : ∀ n, (e.state n).StopsEstablished (e.input n) := by
    apply Machine.Execution.meets_of_append (C := StopsEstablished) _ hbefore
    · intro n hruns
      have hidle := hidling n
      simp only [idlePass, List.mem_cons, List.not_mem_nil, or_false] at hidle
      rcases hidle with h | h | h <;> rw [h] at hruns <;> cases hruns
    · rw [hstart]
      decide +kernel
  have hstop : e.input 5 = .stop (.other ()) := hbefore 5 _ rfl
  obtain ⟨m, hm, heffect⟩ := stop_takes_effect hstart hmeets hbase hstop
    ⟨6, by decide, by rw [hbefore 6 _ rfl]; rfl⟩
  exact ⟨e, hstart, hstop, m, hm, fun k hk => ⟨(heffect k hk).1, (heffect k hk).2.2⟩⟩

end Server

end Hayai
