import Hayai.Net.Lifecycle

/-! # How often a connection reports

`connectionCallback_` should tell once that the connection is up and once that it
is down, and `closeCallback_` should run once. `handleClose` does not look at
`state_`, so the reports repeat exactly when it is entered on a connection that
is already disconnected.
-/

namespace Hayai

/-! ## What has been reported -/

namespace TcpConnection

variable {β : Type}

def reported (c : TcpConnection β) : List Effect :=
  let up := if c.connectionCallback then [.connectionCallback true] else []
  match c.state with
  | .connecting => []
  | .connected => up
  | .disconnecting => up
  | .disconnected => up ++ c.closeReports

theorem reported_congr {c d : TcpConnection β} (hcb : d.connectionCallback = c.connectionCallback)
    (hstate : d.state = c.state ∨ c.closable = true ∧ d.state = .disconnecting) :
    d.reported = c.reported := by
  rcases hstate with hstate | ⟨hclosable, hstate⟩
  · simp only [reported, closeReports, hstate, hcb]
  · simp only [closable, Bool.or_eq_true, beq_iff_eq] at hclosable
    rcases hclosable with hc | hc <;> simp only [reported, hstate, hc, hcb]

theorem reports_connectEstablished {c : TcpConnection β} (h : c.state = .connecting) :
    reports c.connectEstablished.2 = c.connectEstablished.1.reported := by
  simp only [connectEstablished, h, if_true, reported, reports_append, notify, connected]
  cases c.connectionCallback <;> rfl

theorem reports_connectDestroyed {c : TcpConnection β} (h : c.state = .disconnected) :
    reports c.connectDestroyed.2 = [] := by
  simp only [connectDestroyed, h, reduceCtorEq, if_false, List.nil_append]
  split <;> rfl

end TcpConnection

theorem Op.run_connectionCallback {τ : Type} {c : TcpConnection (List UInt8)} {op : Op τ}
    (hfits : op.Fits c) : (op.run c).1.connectionCallback = c.connectionCallback := by
  cases op with
  | sendInLoop m w =>
      apply TcpConnection.sendInLoop_cases
        (P := fun p => p.1.connectionCallback = c.connectionCallback) hfits
      all_goals intros; rfl
  | handleWrite w =>
      apply TcpConnection.handleWrite_cases
        (P := fun p => p.1.connectionCallback = c.connectionCallback) hfits
      all_goals intros; rfl
  | handleRead r retrieved =>
      apply TcpConnection.handleRead_cases
        (P := fun p => p.1.connectionCallback = c.connectionCallback)
      all_goals intros; rfl
  | shutdown | shutdownNow =>
      simp only [run, TcpConnection.shutdown]
      split <;> rfl
  | forceClose | forceCloseNow =>
      simp only [run, TcpConnection.handleClose, TcpConnection.forceClose]
      split <;> rfl
  | connectEstablished =>
      simp only [run, TcpConnection.connectEstablished]
      split <;> rfl
  | connectDestroyed =>
      simp only [run, TcpConnection.connectDestroyed]
      split <;> rfl
  | _ => rfl

theorem Op.run_reported {τ : Type} {c : TcpConnection (List UInt8)} {op : Op τ}
    (hfits : op.Fits c) (hallowed : op.Allowed c.state)
    (honce : op.entersHandleClose = true → c.state ≠ .disconnected) :
    c.reported ++ reports (op.run c).2 = (op.run c).1.reported := by
  have hcb := Op.run_connectionCallback hfits
  cases henters : op.entersHandleClose with
  | true =>
      rcases Op.run_of_entersHandleClose (c := c) henters with ⟨hstate, -, hreports⟩
      have hopen := honce henters
      have hne : c.state ≠ .connecting := by
        cases op <;> first | exact hallowed | cases henters
      rw [hreports]
      simp only [TcpConnection.reported, TcpConnection.closeReports, hstate, hcb]
      cases hc : c.state with
      | connecting => exact (hne hc).elim
      | connected => rfl
      | disconnecting => rfl
      | disconnected => exact (hopen hc).elim
  | false =>
      cases hinner : op.isInner with
      | true =>
          rcases Op.run_of_isInner hfits hinner henters with ⟨hreports, hstate⟩
          rw [hreports, List.append_nil]
          exact (TcpConnection.reported_congr hcb hstate).symm
      | false =>
          cases op with
          | connectEstablished =>
              have hnone : c.reported = [] := by
                simp only [TcpConnection.reported, show c.state = .connecting from hallowed]
              rw [hnone, List.nil_append]
              exact TcpConnection.reports_connectEstablished hallowed
          | connectDestroyed =>
              rw [run, TcpConnection.reports_connectDestroyed hallowed, List.append_nil]
              exact (TcpConnection.reported_congr hcb (.inl (Eq.symm hallowed))).symm
          | _ => cases hinner

/-! ## Whole runs -/

namespace Endpoint

variable {τ υ : Type}

/-- Once up, once down and down after up; closed once. -/
structure NotifiedOnce (s : Endpoint τ υ) : Prop where
  up : s.log.count (.connectionCallback true) ≤ 1
  down : s.log.count (.connectionCallback false) ≤ 1
  down_after_up : ∀ before after, s.log = before ++ .connectionCallback false :: after →
    .connectionCallback true ∈ before
  close : s.log.count .closeCallback ≤ 1

/-- The step enters `handleClose`: by the close callback, by a read of zero bytes, by
the functor of `forceClose()` or by `forceClose()` on the loop thread. -/
def closes (s : Endpoint τ υ) : Input τ υ → Bool
  | .call .loopThread .forceClose _ => s.conn.closable
  | .callback r retrieved w =>
      s.control.todo.head?.any fun k => (k.op r retrieved w : Op τ).entersHandleClose
  | .functor w => s.control.loop.functors.head?.any fun f => (f.op w).entersHandleClose
  | _ => false

theorem count_reports {e : Effect} (he : e.isReport = true) (es : List Effect) :
    es.count e = (reports es).count e := by
  rw [reports, List.count_filter he]

theorem NotifiedOnce.of_reported {s : Endpoint τ υ} (h : reports s.log = s.conn.reported) :
    s.NotifiedOnce := by
  constructor
  · rw [count_reports rfl, h]
    cases hcb : s.conn.connectionCallback <;> cases hs : s.conn.state <;>
      simp [TcpConnection.reported, TcpConnection.closeReports, hcb, hs]
  · rw [count_reports rfl, h]
    cases hcb : s.conn.connectionCallback <;> cases hs : s.conn.state <;>
      simp [TcpConnection.reported, TcpConnection.closeReports, hcb, hs]
  · intro before after hlog
    have hdown : reports (.connectionCallback false :: after) =
        .connectionCallback false :: reports after := rfl
    rw [hlog, reports_append, hdown] at h
    rw [← mem_reports rfl]
    cases hbefore : reports before with
    | nil =>
        rw [hbefore] at h
        cases hcb : s.conn.connectionCallback <;> cases hs : s.conn.state <;>
          simp [TcpConnection.reported, TcpConnection.closeReports, hcb, hs] at h
    | cons e es =>
        rw [hbefore] at h
        cases hcb : s.conn.connectionCallback <;> cases hs : s.conn.state <;>
          simp [TcpConnection.reported, TcpConnection.closeReports, hcb, hs] at h
        all_goals simp [h.1]
  · rw [count_reports rfl, h]
    cases hcb : s.conn.connectionCallback <;> cases hs : s.conn.state <;>
      simp [TcpConnection.reported, TcpConnection.closeReports, hcb, hs]

variable [DecidableEq τ]

theorem Moves.entersHandleClose {s : Endpoint τ υ} {i : Input τ υ} {b : Control τ υ} {op : Op τ}
    (hmoves : Moves s i b op) : op.entersHandleClose = s.closes i := by
  cases hmoves with
  | callback htodo => simp [closes, htodo]
  | functor hf => simp [closes, hf]
  | forceCloseNow hc => exact hc.symm
  | @sendDropped caller data w _ _ => cases caller <;> rfl
  | @ignored caller c w hfree hc =>
      rcases hc with ⟨rfl, -⟩ | ⟨rfl, hc⟩
      · cases caller <;> rfl
      · cases caller with
        | loopThread => exact hc.symm
        | other t => rfl
  | _ => rfl

theorem reported_step {s t : Endpoint τ υ} {i : Input τ υ} (hlife : s.Lifecycle)
    (h : reports s.log = s.conn.reported)
    (honce : s.conn.state = .disconnected → s.closes i = false) (hstep : s.step i = some t) :
    reports t.log = t.conn.reported := by
  rcases step_spec hstep with ⟨b, op, hmoves, hfits, rfl⟩
  rw [perform_log, perform_conn, reports_append, h]
  apply Op.run_reported hfits (hmoves.allowed hlife)
  intro henters hclosed
  rw [hmoves.entersHandleClose, honce hclosed] at henters
  cases henters

/-- Entering `handleClose` on a disconnected connection calls `closeCallback_` again. -/
theorem closes_again {s t : Endpoint τ υ} {i : Input τ υ} (h : reports s.log = s.conn.reported)
    (hclosed : s.conn.state = .disconnected) (hcloses : s.closes i = true)
    (hstep : s.step i = some t) : 1 < t.log.count .closeCallback := by
  rcases step_spec hstep with ⟨b, op, hmoves, hfits, rfl⟩
  have hbefore : s.log.count .closeCallback = 1 := by
    rw [count_reports rfl, h]
    cases hcb : s.conn.connectionCallback <;>
      simp [TcpConnection.reported, TcpConnection.closeReports, hcb, hclosed]
  have hnow : 1 ≤ (op.run s.conn).2.count .closeCallback := by
    rw [← hmoves.entersHandleClose] at hcloses
    rw [count_reports rfl, (Op.run_of_entersHandleClose hcloses).2.2]
    simp [TcpConnection.closeReports]
  rw [perform_log, List.count_append, hbefore]
  omega

omit [DecidableEq τ] in
theorem accept_reported (inLoopThread : Bool) (l : EventLoop υ) (sockfd : Nat) (cb mcb : Bool) :
    reports (accept inLoopThread l sockfd cb mcb : Endpoint τ υ).log =
      (accept inLoopThread l sockfd cb mcb : Endpoint τ υ).conn.reported := by
  cases inLoopThread with
  | true => exact TcpConnection.reports_connectEstablished rfl
  | false => rfl

theorem notified_once_iff_closed_once (inLoopThread : Bool) (l : EventLoop υ) (sockfd : Nat)
    (cb mcb : Bool) (is : List (Input τ υ)) :
    (machine τ υ).Always NotifiedOnce (accept inLoopThread l sockfd cb mcb) is ↔
      (machine τ υ).Meets (fun s i => s.conn.state = .disconnected → s.closes i = false)
        (accept inLoopThread l sockfd cb mcb) is := by
  apply Machine.always_iff_meets (I := fun s => s.Lifecycle ∧ reports s.log = s.conn.reported)
  · intro s hs
    exact NotifiedOnce.of_reported hs.2
  · intro s i t hs honce hstep
    exact ⟨step_lifecycle hs.1 hstep, reported_step hs.1 hs.2 honce hstep⟩
  · intro s i t hs hstep ht hclosed
    cases hcloses : s.closes i with
    | false => rfl
    | true =>
        have htwice := closes_again hs.2 hclosed hcloses hstep
        have honce := ht.close
        omega
  · exact ⟨accept_lifecycle .., accept_reported ..⟩

/-- The peer closes an idle connection: the entry says both readable and EOF, the
close callback runs, and then the read callback reads zero bytes. -/
def eofRun : List (Input Unit Unit) :=
  [.poll [], .doPendingFunctors, .functor (.wrote 0), .endPendingFunctors,
    .poll [⟨7, .read, true, false, ()⟩],
    .callback (.bytes []) 0 (.wrote 0), .callback (.bytes []) 0 (.wrote 0)]

theorem eof_reports_twice :
    ¬ (machine Unit Unit).Always NotifiedOnce (accept false EventLoop.new 7 true true) eofRun := by
  intro h
  rw [Machine.always_iff_prefix] at h
  have hbad := (h eofRun [] _ (by simp) rfl).down
  revert hbad
  decide

end Endpoint

end Hayai
