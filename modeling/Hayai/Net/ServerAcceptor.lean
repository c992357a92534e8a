import Hayai.Machine.Run
import Hayai.Net.Confinement
import Hayai.Net.ServerPass
import Hayai.Net.ServerStop
import Hayai.Net.TcpServer

/-! # The acceptor and the pass that it is part of

The functor of `stop()` destroys the acceptor with its channel. On the base loop's own
thread `runInLoop` runs it at once, which may be inside `Acceptor::handleRead`, where a
connection of the base loop is established and reported, or in a callback that the same
pass makes before it comes to the accept channel. The loop thread runs user code only
inside callbacks and functors, so a call that it makes is made inside the callback that it
was last in.
-/

namespace Hayai

variable {τ υ : Type}

/-- A server, and the callback that is on the call stack of its base loop. -/
structure BaseLoop (τ υ : Type) where
  server : Server τ υ
  current : Option (Option Nat × Callback)

namespace BaseLoop

def accepting (s : BaseLoop τ υ) : Bool := s.current.any (·.1.isNone)

def listed (s : BaseLoop τ υ) : Bool := (s.server.loops 0).todo.any (·.1.isNone)

def next (s : BaseLoop τ υ) : ServerInput τ υ → Option (Option Nat × Callback)
  | .callback l _ _ _ _ => if l = 0 then (s.server.loops 0).todo.head? else s.current
  | .doPendingFunctors l => if l = 0 then none else s.current
  | _ => s.current

variable [DecidableEq τ]

def step (s : BaseLoop τ υ) (i : ServerInput τ υ) : Option (BaseLoop τ υ) :=
  (s.server.step i).map fun t => ⟨t, s.next i⟩

def machine (τ υ : Type) [DecidableEq τ] : Machine (BaseLoop τ υ) (ServerInput τ υ) := ⟨step⟩

omit [DecidableEq τ] in
def start (name : String) (numThreads : Nat) (connectionCallback messageCallback : Bool) :
    BaseLoop τ υ :=
  ⟨.start name numThreads connectionCallback messageCallback, none⟩

/-! ## Destruction under the dispatcher -/

omit [DecidableEq τ] in
/-- The acceptor is not gone while the base loop is in it or has it still to handle. -/
def Kept (s : BaseLoop τ υ) : Prop :=
  s.server.acceptor = none → s.accepting = false ∧ s.listed = false

/-- When `runInLoop` itself runs the functor of `stop()`, the accept channel is neither
being handled nor still to be handled. -/
def SparesAcceptor (s : BaseLoop τ υ) : ServerInput τ υ → Prop
  | .deliver θ w => s.server.runsStop (.deliver θ w) = true →
      s.accepting = false ∧ s.listed = false
  | _ => True

/-- The invariant behind `Kept`: outside the handling of events the base loop is in no
callback. -/
structure Paced (s : BaseLoop τ υ) : Prop where
  placed : s.server.Placed
  inPhase : s.server.InPhase
  kept : s.Kept
  idle : (s.server.loops 0).loop.eventHandling = false → s.current = none

omit [DecidableEq τ] in
theorem listed_of_todo {s t : BaseLoop τ υ}
    (h : (t.server.loops 0).todo = (s.server.loops 0).todo) : t.listed = s.listed := by
  rw [listed, h]
  rfl

omit [DecidableEq τ] in
theorem Paced.clear {s : BaseLoop τ υ} (h : s.Paced)
    (hidle : (s.server.loops 0).loop.eventHandling = false) :
    s.accepting = false ∧ s.listed = false := by
  simp [accepting, listed, h.idle hidle, h.inPhase.idle 0 hidle]

omit [DecidableEq τ] in
theorem next_of_not_pass {s : BaseLoop τ υ} {i : ServerInput τ υ}
    (h : Server.isPassOf 0 i = false) : s.next i = s.current := by
  cases i with
  | callback l r retrieved w sockfd => exact if_neg (by simpa [Server.isPassOf] using h)
  | doPendingFunctors l => exact if_neg (by simpa [Server.isPassOf] using h)
  | _ => rfl

omit [DecidableEq τ] in
/-- A channel that is gone is not reported. -/
theorem listed_poll {s : Server τ υ} {events : List (KEvent (Option Nat))}
    {current : Option (Option Nat × Callback)} (hgone : s.acceptor = none)
    (hevents : ∀ e ∈ events, s.MayReport 0 e) :
    (⟨s.poll 0 events, current⟩ : BaseLoop τ υ).listed = false := by
  rw [listed, List.any_eq_false]
  intro p hp
  rcases Server.mem_todo_poll hp with ⟨e, he, hudata⟩
  have hreport := (hevents e he).1
  cases hp' : p.1 with
  | some c => simp
  | none =>
      rw [hudata, hp'] at hreport
      simp [hgone] at hreport

theorem acceptor_step {s t : Server τ υ} {i : ServerInput τ υ} (hstep : s.step i = some t) :
    t.acceptor = s.acceptor ∨ s.runsStop i = true ∧ t.acceptor = none := by
  rcases Server.step_stop_cases hstep with h | ⟨c, -, h, -⟩ | h | h
  · exact .inr ⟨h.1, h.2.1⟩
  · exact .inl h
  · exact .inl h.2
  · exact .inl h.acceptor

theorem acceptor_deliver_stop {s t : Server τ υ} {θ : Thread τ} {w : WriteResult}
    (hstep : s.step (.deliver θ w) = some t) (hruns : s.runsStop (.deliver θ w) = true) :
    t.acceptor = none := by
  cases (Server.step_spec hstep).2 with
  | @deliver _ _ j hj =>
      simp only [Server.runsStop, hj] at hruns
      split at hruns
      · next l inline heq =>
          cases heq
          have hinline : inline = true ∧ θ = .loop l := by simpa using hruns
          simp only [Server.deliver]
          rw [if_pos hinline]
          rfl
      · cases hruns

theorem functor_of_runsStop {s : Server τ υ} (h : s.Placed) {l : Nat} {w : WriteResult}
    (hstop : s.runsStop (.functor l w) = true) : l = 0 := by
  simp only [Server.runsStop] at hstop
  split at hstop
  · next rest hfunctors =>
      have hqueued := EventLoop.queued_of_functors hfunctors
      exact (h.loops l).queued .stop (by simp [hqueued])
  · cases hstop

/-- After a step that runs the functor of `stop()`, and only after such a step, the acceptor
is newly gone; the pass is then where it was. -/
theorem Kept.step {s t : BaseLoop τ υ} {i : ServerInput τ υ} (h : s.Kept)
    (hstep : s.server.step i = some t.server)
    (hrest : s.accepting = false ∧ s.listed = false → t.server.acceptor = none →
      t.accepting = false ∧ t.listed = false)
    (hstop : s.server.runsStop i = true → s.accepting = false ∧ s.listed = false) : t.Kept := by
  intro hgone
  rcases acceptor_step hstep with hsame | ⟨hruns, -⟩
  · exact hrest (h (hsame.symm.trans hgone)) hgone
  · exact hrest (hstop hruns) hgone

theorem step_paced {s t : BaseLoop τ υ} {i : ServerInput τ υ} (h : s.Paced)
    (hspares : s.SparesAcceptor i) (hstep : s.step i = some t) : t.Paced := by
  rcases Option.map_eq_some_iff.1 hstep with ⟨u, hu, rfl⟩
  have hplaced := Server.step_placed h.placed hu
  have hphase := Server.step_inPhase h.inPhase hu
  cases Server.step_pass hu 0 with
  | @poll events hhandling hcalling hevents ht =>
      subst ht
      refine ⟨hplaced, hphase, ?_, by simp [Server.poll]⟩
      intro hgone
      exact ⟨(h.clear hhandling).1, listed_poll hgone hevents⟩
  | @callback r retrieved w sockfd p hhandling htodo hloop =>
      refine ⟨hplaced, hphase, ?_, ?_⟩
      · apply Kept.step h.kept hu
        · intro hclear _
          have hlisted := hclear.2
          rw [listed, htodo, List.any_cons, Bool.or_eq_false_iff] at hlisted
          exact ⟨by simp [accepting, next, htodo, hlisted.1], hlisted.2⟩
        · intro hruns
          cases hruns
      · intro hidle
        rw [hloop, hhandling] at hidle
        cases hidle
  | doPendingFunctors hhandling htodo ht =>
      subst ht
      refine ⟨hplaced, hphase, fun _ => ?_, fun _ => rfl⟩
      exact ⟨rfl, by simp [listed, htodo]⟩
  | functor hcalling hsame =>
      have hidle := h.inPhase.calling 0 hcalling
      refine ⟨hplaced, hphase, ?_, fun _ => h.idle hidle⟩
      apply Kept.step h.kept hu
      · intro hclear _
        exact ⟨hclear.1, (listed_of_todo hsame.todo).trans hclear.2⟩
      · intro _
        exact h.clear hidle
  | endPendingFunctors hcalling ht =>
      subst ht
      have hidle := h.inPhase.calling 0 hcalling
      refine ⟨hplaced, hphase, fun _ => ?_, fun _ => h.idle hidle⟩
      have hclear := h.clear hidle
      exact ⟨hclear.1, by simp [listed, h.inPhase.idle 0 hidle]⟩
  | other hi hsame =>
      have hcurrent : s.next i = s.current := next_of_not_pass hi
      refine ⟨hplaced, hphase, ?_, ?_⟩
      · apply Kept.step h.kept hu
        · intro hclear _
          refine ⟨?_, (listed_of_todo hsame.todo).trans hclear.2⟩
          simpa [accepting, hcurrent] using hclear.1
        · intro hruns
          cases i with
          | deliver θ w => exact hspares hruns
          | functor l w =>
              have hbase := functor_of_runsStop h.placed hruns
              simp [Server.isPassOf, hbase] at hi
          | _ => cases hruns
      · intro hidle
        rw [hsame.handling] at hidle
        exact hcurrent.trans (h.idle hidle)

omit [DecidableEq τ] in
theorem start_paced (name : String) (numThreads : Nat) (cb mcb : Bool) :
    (start name numThreads cb mcb : BaseLoop τ υ).Paced :=
  ⟨Server.start_placed name numThreads cb mcb, Server.start_inPhase name numThreads cb mcb, nofun,
    fun _ => rfl⟩

/-- `stop()` on the base loop's thread is what decides: the step changes nothing else about
the pass. -/
theorem spares_of_kept {s t : BaseLoop τ υ} {i : ServerInput τ υ} (hstep : s.step i = some t)
    (ht : t.Kept) : s.SparesAcceptor i := by
  cases i with
  | deliver θ w =>
      intro hruns
      rcases Option.map_eq_some_iff.1 hstep with ⟨u, hu, rfl⟩
      have hgone := acceptor_deliver_stop hu hruns
      cases Server.step_pass hu 0 with
      | other hi hsame =>
          have hclear := ht hgone
          exact ⟨hclear.1, (listed_of_todo hsame.todo).symm.trans hclear.2⟩
  | _ => trivial

/-- In every run of a server in which `stop()` may be called at any time and on any thread,
the acceptor is never destroyed while the base loop handles it or has it to handle in the
current pass, if and only if `stop()` is never run inline at such a time. -/
theorem acceptor_kept_iff_spared (name : String) (numThreads : Nat) (cb mcb : Bool)
    (is : List (ServerInput τ υ)) :
    (machine τ υ).Always Kept (start name numThreads cb mcb) is ↔
      (machine τ υ).Meets SparesAcceptor (start name numThreads cb mcb) is := by
  apply Machine.always_iff_meets (I := Paced)
  · intro s hs
    exact hs.kept
  · intro s i t hs hspares hstep
    exact step_paced hs hspares hstep
  · intro s i t hs hstep ht
    exact spares_of_kept hstep ht
  · exact start_paced name numThreads cb mcb

/-- A client is accepted on a server without I/O loops; its connection is reported inside
`Acceptor::handleRead`, and the connection callback calls `stop()`. -/
theorem stop_in_connectionCallback :
    ¬(machine Unit Unit).Always Kept (start "echo" 0 true true)
      [.poll 0 [⟨3, .read, false, false, none⟩], .callback 0 (.bytes []) 0 (.wrote 0) (some 7),
        .deliver (.loop 0) (.wrote 0), .stop (.loop 0), .deliver (.loop 0) (.wrote 0)] := by
  intro h
  have hend := h.last rfl
  have hclear := hend rfl
  cases hclear.1

end BaseLoop

end Hayai
