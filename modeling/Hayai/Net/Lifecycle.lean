import Hayai.Net.Endpoint

/-! # The life cycle of a connection

`state_` only moves forward, and each functor in the queue belongs to the part of
the life cycle that is going on: `connectEstablished` before it has run,
`connectDestroyed` after a close, the functors of public calls in between or later.
-/

namespace Hayai

def ConnState.rank : ConnState → Nat
  | .connecting => 0
  | .connected => 1
  | .disconnecting => 2
  | .disconnected => 3

namespace Functor

variable {τ υ : Type}

def Allowed (state : ConnState) : Functor τ υ → Prop
  | .connectEstablished => state = .connecting
  | .connectDestroyed => state = .disconnected
  | .user _ => True
  | _ => state ≠ .connecting

def isConnectEstablished : Functor τ υ → Bool
  | .connectEstablished => true
  | _ => false

def isCall : Functor τ υ → Bool
  | .sendInLoop _ => true
  | .shutdownInLoop => true
  | .handleClose => true
  | _ => false

theorem allowed_of_isCall {f : Functor τ υ} {state : ConnState} (hf : f.isCall = true)
    (h : state ≠ .connecting) : f.Allowed state := by
  cases f <;> first | exact h | cases hf

theorem Allowed.mono {f : Functor τ υ} {state later : ConnState} (h : f.Allowed state)
    (hrank : state.rank ≤ later.rank) (hlater : f.isConnectEstablished = false) :
    f.Allowed later := by
  cases f with
  | connectEstablished => cases hlater
  | connectDestroyed =>
      cases h
      cases later <;> simp_all [ConnState.rank, Allowed]
  | user x => trivial
  | sendInLoop m | shutdownInLoop | handleClose =>
      rintro rfl
      apply h
      cases state <;> simp_all [ConnState.rank]

end Functor

namespace Op

variable {τ : Type}

theorem run_rank {c : TcpConnection (List UInt8)} {op : Op τ} (h : op.Fits c) :
    c.state.rank ≤ (op.run c).1.state.rank := by
  have hlast : ∀ state : ConnState, state.rank ≤ ConnState.disconnected.rank := by
    intro state
    cases state <;> decide
  cases op with
  | sendInLoop m w =>
      apply Nat.le_of_eq
      rw [run, TcpConnection.sendInLoop_state h]
  | handleWrite w =>
      apply Nat.le_of_eq
      rw [run, TcpConnection.handleWrite_state h]
  | handleRead r retrieved =>
      apply TcpConnection.handleRead_cases (P := fun p => c.state.rank ≤ p.1.state.rank)
      · intro _
        exact hlast _
      · intro data _ _ inputBuffer
        exact Nat.le_refl _
      · intro e _
        exact Nat.le_refl _
  | forceCloseNow | handleClose | connectDestroyed => exact hlast _
  | shutdown | shutdownNow | forceClose | connectEstablished =>
      cases hstate : c.state <;> simp [run, hstate, TcpConnection.shutdown,
        TcpConnection.forceClose, TcpConnection.closable, TcpConnection.connectEstablished,
        ConnState.rank]
  | _ => exact Nat.le_refl _

theorem run_open {c : TcpConnection (List UInt8)} {op : Op τ} (h : op.Fits c)
    (hopen : (op.run c).1.state ≠ .disconnected) : c.state ≠ .disconnected := by
  intro hclosed
  have hrank := run_rank h
  apply hopen
  rw [hclosed] at hrank
  revert hrank
  cases (op.run c).1.state <;> simp [ConnState.rank]

end Op

/-- A failed assertion, or the callback that no member calls. -/
def Effect.isRare : Effect → Bool
  | .assertFailed | .writeCompleteCallback => true
  | _ => false

/-- The assertion of `connectEstablished` is the only one a member makes. -/
theorem Op.not_rare_of_mem {τ : Type} {c : TcpConnection (List UInt8)} {op : Op τ}
    (hfits : op.Fits c) (hestablish : op = .connectEstablished → c.state = .connecting) :
    ∀ e ∈ (op.run c).2, e.isRare = false := by
  have hnotify : ∀ d : TcpConnection (List UInt8), ∀ e ∈ d.notify, e.isRare = false := by
    intro d
    unfold TcpConnection.notify
    split <;> simp [Effect.isRare]
  have hclose : ∀ d : TcpConnection (List UInt8), ∀ e ∈ d.handleClose.2, e.isRare = false := by
    intro d e he
    simp only [TcpConnection.handleClose, List.mem_append, List.mem_singleton] at he
    rcases he with (rfl | he) | rfl
    · rfl
    · exact hnotify _ e he
    · rfl
  cases op with
  | sendInLoop m w =>
      apply TcpConnection.sendInLoop_cases (P := fun p => ∀ e ∈ p.2, e.isRare = false) hfits
      · simp [Effect.isRare]
      · simp [Effect.isRare]
      · simp
      · intro _ _
        dsimp only
        split <;> simp [Effect.isRare]
  | handleWrite w =>
      apply TcpConnection.handleWrite_cases (P := fun p => ∀ e ∈ p.2, e.isRare = false) hfits
      · simp
      · simp [Effect.isRare]
      · simp [Effect.isRare]
      · intro _ _ _
        dsimp only
        split <;> simp [Effect.isRare]
  | handleRead r retrieved =>
      apply TcpConnection.handleRead_cases (P := fun p => ∀ e ∈ p.2, e.isRare = false)
      · exact fun _ => hclose _
      · intro data _ _ inputBuffer
        dsimp only
        split <;> simp [Effect.isRare]
      · simp
  | shutdownNow | shutdownInLoop =>
      simp only [run, TcpConnection.shutdownInLoop]
      split <;> simp [Effect.isRare]
  | forceCloseNow | handleClose => exact hclose _
  | connectEstablished =>
      intro e he
      simp only [run, TcpConnection.connectEstablished, hestablish rfl, if_true, List.mem_append,
        List.mem_singleton] at he
      rcases he with rfl | he
      · rfl
      · exact hnotify _ e he
  | connectDestroyed =>
      intro e he
      simp only [run, TcpConnection.connectDestroyed, List.mem_append] at he
      rcases he with he | he
      · split at he
        · rcases List.mem_append.1 he with he | he
          · rw [List.mem_singleton] at he
            subst he
            rfl
          · exact hnotify _ e he
        · cases he
      · split at he
        · rw [List.mem_singleton] at he
          subst he
          rfl
        · cases he
  | _ => simp [run, TcpConnection.handleError]

/-! ## Reports -/

def Effect.isReport : Effect → Bool
  | .connectionCallback _ => true
  | .closeCallback => true
  | _ => false

def reports (es : List Effect) : List Effect := es.filter Effect.isReport

@[simp] theorem reports_append (es fs : List Effect) :
    reports (es ++ fs) = reports es ++ reports fs := by
  simp [reports]

@[simp] theorem reports_nil : reports [] = [] := rfl

theorem mem_reports {e : Effect} (he : e.isReport = true) {es : List Effect} :
    e ∈ reports es ↔ e ∈ es := by
  simp [reports, he]

namespace TcpConnection

variable {β : Type}

@[simp] theorem reports_notify (c : TcpConnection β) : reports c.notify = c.notify := by
  unfold notify
  split <;> rfl

theorem reports_sendInLoop {c : TcpConnection β} {message : List UInt8} {w : WriteResult}
    (hfit : w.count ≤ message.length) : reports (c.sendInLoop message w).2 = [] := by
  apply sendInLoop_cases (P := fun p => reports p.2 = []) hfit
  · intro _ _
    rfl
  · intro _ _ _
    rfl
  · intro _ _
    rfl
  · intro _ _
    split <;> rfl

theorem reports_handleWrite {c : TcpConnection β} {w : WriteResult}
    (hfit : w.count ≤ c.outputBuffer.length) : reports (c.handleWrite w).2 = [] := by
  apply handleWrite_cases (P := fun p => reports p.2 = []) hfit
  · intro _
    rfl
  · intro _ _
    rfl
  · intro _ _ _
    rfl
  · intro _ _ _
    split <;> rfl

def closeReports (c : TcpConnection β) : List Effect :=
  (if c.connectionCallback then [.connectionCallback false] else []) ++ [.closeCallback]

theorem reports_handleClose (c : TcpConnection β) : reports c.handleClose.2 = c.closeReports := by
  simp only [handleClose, reports_append, reports_notify, closeReports]
  rfl

@[simp] theorem reports_shutdownInLoop (c : TcpConnection β) : reports c.shutdownInLoop = [] := by
  unfold shutdownInLoop
  split <;> rfl

theorem state_shutdown (c : TcpConnection β) :
    c.shutdown.state = c.state ∨ c.closable = true ∧ c.shutdown.state = .disconnecting := by
  unfold shutdown
  split
  · rename_i h
    right
    simp [closable, h]
  · exact .inl rfl

theorem state_forceClose (c : TcpConnection β) :
    c.forceClose.state = c.state ∨ c.closable = true ∧ c.forceClose.state = .disconnecting := by
  unfold forceClose
  split
  · rename_i h
    exact .inr ⟨h, rfl⟩
  · exact .inl rfl

end TcpConnection

namespace Op

variable {τ : Type}

def entersHandleClose : Op τ → Bool
  | .handleClose => true
  | .forceCloseNow => true
  | .handleRead (.bytes []) _ => true
  | _ => false

/-- The operation is neither the first nor the last of the life cycle. -/
def isInner : Op τ → Bool
  | .connectEstablished => false
  | .connectDestroyed => false
  | _ => true

theorem run_of_entersHandleClose {c : TcpConnection (List UInt8)} {op : Op τ}
    (h : op.entersHandleClose = true) :
    (op.run c).1.state = .disconnected ∧ (op.run c).1.channel.events = 0 ∧
      reports (op.run c).2 = c.closeReports := by
  cases op with
  | handleClose => exact ⟨rfl, rfl, c.reports_handleClose⟩
  | forceCloseNow =>
      refine ⟨rfl, rfl, (TcpConnection.reports_handleClose _).trans ?_⟩
      simp only [TcpConnection.closeReports, TcpConnection.forceClose]
      split <;> rfl
  | handleRead r retrieved =>
      cases r with
      | failed e => cases h
      | bytes data =>
          cases data with
          | nil => exact ⟨rfl, rfl, TcpConnection.reports_handleClose _⟩
          | cons x data => cases h
  | _ => cases h

/-- Between the two ends of the life cycle and apart from `handleClose`, nothing is
reported and the only new state is `disconnecting`. -/
theorem run_of_isInner {c : TcpConnection (List UInt8)} {op : Op τ} (hfits : op.Fits c)
    (hinner : op.isInner = true) (h : op.entersHandleClose = false) :
    reports (op.run c).2 = [] ∧ ((op.run c).1.state = c.state ∨
      c.closable = true ∧ (op.run c).1.state = .disconnecting) := by
  cases op with
  | sendInLoop m w =>
      exact ⟨TcpConnection.reports_sendInLoop hfits, .inl (TcpConnection.sendInLoop_state hfits)⟩
  | handleWrite w =>
      exact ⟨TcpConnection.reports_handleWrite hfits, .inl (TcpConnection.handleWrite_state hfits)⟩
  | handleRead r retrieved =>
      apply TcpConnection.handleRead_cases (P := fun p => reports p.2 = [] ∧
        (p.1.state = c.state ∨ c.closable = true ∧ p.1.state = .disconnecting))
      · rintro rfl
        cases h
      · intro data _ _ inputBuffer
        refine ⟨?_, .inl rfl⟩
        split <;> rfl
      · intro e _
        exact ⟨rfl, .inl rfl⟩
  | shutdown => exact ⟨rfl, c.state_shutdown⟩
  | shutdownNow => exact ⟨TcpConnection.reports_shutdownInLoop _, c.state_shutdown⟩
  | shutdownInLoop => exact ⟨c.reports_shutdownInLoop, .inl rfl⟩
  | forceClose => exact ⟨rfl, c.state_forceClose⟩
  | forceCloseNow | handleClose => cases h
  | connectEstablished | connectDestroyed => cases hinner
  | _ => exact ⟨rfl, .inl rfl⟩

def Allowed (state : ConnState) : Op τ → Prop
  | .connectEstablished => state = .connecting
  | .connectDestroyed => state = .disconnected
  | .idle => True
  | .setRevents _ => True
  | _ => state ≠ .connecting

theorem allowed_functor {υ : Type} {f : Functor τ υ} {state : ConnState} (h : f.Allowed state)
    (w : WriteResult) : (f.op w).Allowed state := by
  cases f <;> exact h

theorem allowed_callback {k : Callback} {state : ConnState} (h : state ≠ .connecting)
    (r : ReadResult) (retrieved : Nat) (w : WriteResult) :
    (k.op r retrieved w : Op τ).Allowed state := by
  cases k <;> exact h

/-- `closeCallback_` is called by `handleClose` only. -/
theorem closed_of_closeCallback {c : TcpConnection (List UInt8)} {op : Op τ} (hfits : op.Fits c)
    (h : .closeCallback ∈ (op.run c).2) : (op.run c).1.state = .disconnected := by
  cases henters : op.entersHandleClose with
  | true => exact (run_of_entersHandleClose henters).1
  | false =>
      cases hinner : op.isInner with
      | true =>
          rw [← mem_reports rfl, (run_of_isInner hfits hinner henters).1] at h
          cases h
      | false =>
          cases op with
          | connectDestroyed => rfl
          | connectEstablished =>
              simp only [run, TcpConnection.connectEstablished, TcpConnection.notify] at h
              split at h
              · split at h <;> simp at h
              · simp at h
          | _ => cases hinner

end Op

/-! ## The queues along the life cycle -/

namespace Endpoint

variable {τ υ : Type}

structure Lifecycle (s : Endpoint τ υ) : Prop where
  allowed : ∀ f ∈ s.control.loop.queued, f.Allowed s.conn.state
  once : s.control.loop.queued.countP Functor.isConnectEstablished ≤ 1
  calls : ∀ t f, s.control.inFlight t = some f → f.isCall = true ∧ s.conn.state ≠ .connecting
  connecting : s.conn.state = .connecting → .updateChannel ∉ s.log ∧ s.control.todo = []
  closed : .closeCallback ∈ s.log → s.conn.state = .disconnected

theorem Lifecycle.closed_perform {s : Endpoint τ υ} (h : s.Lifecycle) {op : Op τ}
    (hfits : op.Fits s.conn) (hclose : .closeCallback ∈ s.log ++ (op.run s.conn).2) :
    (op.run s.conn).1.state = .disconnected := by
  rcases List.mem_append.1 hclose with hbefore | hnow
  · by_contra hopen
    exact Op.run_open hfits hopen (h.closed hbefore)
  · exact Op.closed_of_closeCallback hfits hnow

theorem Lifecycle.perform {s : Endpoint τ υ} (h : s.Lifecycle) {b : Control τ υ} {op : Op τ}
    (hfits : op.Fits s.conn) (hstate : s.conn.state ≠ .connecting)
    (hqueued : ∀ f ∈ b.loop.queued, f.Allowed s.conn.state)
    (hcalls : ∀ t f, b.inFlight t = some f → f.isCall = true) : (s.perform b op).Lifecycle := by
  have hrank := Op.run_rank hfits
  have hlater : (op.run s.conn).1.state ≠ .connecting := by
    intro hbad
    apply hstate
    rw [hbad] at hrank
    revert hrank
    cases s.conn.state <;> simp [ConnState.rank]
  have hnone : ∀ f ∈ b.loop.queued, f.isConnectEstablished = false := by
    intro f hf
    have hallowed := hqueued f hf
    cases f with
    | connectEstablished => exact (hstate hallowed).elim
    | _ => rfl
  constructor
  · intro f hf
    exact (hqueued f hf).mono hrank (hnone f hf)
  · rw [perform_control, List.countP_eq_zero.2]
    · exact Nat.zero_le 1
    · intro f hf
      simp [hnone f hf]
  · intro t f hf
    exact ⟨hcalls t f hf, hlater⟩
  · intro hbad
    exact (hlater hbad).elim
  · exact h.closed_perform hfits

theorem Lifecycle.bookkeep {s : Endpoint τ υ} (h : s.Lifecycle) {b : Control τ υ} {op : Op τ}
    (hconn : (op.run s.conn).1.state = s.conn.state) (hlog : (op.run s.conn).2 = [])
    (hqueued : ∀ f ∈ b.loop.queued, f.Allowed s.conn.state)
    (honce : b.loop.queued.countP Functor.isConnectEstablished ≤ 1)
    (hcalls : ∀ t f, b.inFlight t = some f → f.isCall = true ∧ s.conn.state ≠ .connecting)
    (htodo : s.conn.state = .connecting → b.todo = []) : (s.perform b op).Lifecycle := by
  constructor
  · rw [perform_conn, hconn]
    exact hqueued
  · exact honce
  · rw [perform_conn, hconn]
    exact hcalls
  · rw [perform_conn, hconn, perform_log, hlog, List.append_nil]
    intro hstate
    exact ⟨(h.connecting hstate).1, htodo hstate⟩
  · rw [perform_conn, hconn, perform_log, hlog, List.append_nil]
    exact h.closed

theorem Lifecycle.connectEstablished {s : Endpoint τ υ} (h : s.Lifecycle) {b : Control τ υ}
    (hstate : s.conn.state = .connecting)
    (hqueued : ∀ f ∈ b.loop.queued, f.Allowed s.conn.state)
    (hrest : b.loop.queued.countP Functor.isConnectEstablished = 0)
    (hcalls : b.inFlight = s.control.inFlight) :
    (s.perform b .connectEstablished).Lifecycle := by
  have hconnected : s.conn.connectEstablished.1.state = .connected := by
    simp [TcpConnection.connectEstablished, hstate]
  constructor
  · intro f hf
    apply (hqueued f hf).mono
    · rw [hstate]
      exact Nat.zero_le _
    · simpa using List.countP_eq_zero.1 hrest f hf
  · rw [perform_control, hrest]
    exact Nat.zero_le 1
  · intro t f hf
    rw [perform_control, hcalls] at hf
    exact ((h.calls t f hf).2 hstate).elim
  · intro hbad
    rw [perform_conn, Op.run, hconnected] at hbad
    cases hbad
  · exact h.closed_perform (show Op.Fits s.conn (.connectEstablished : Op τ) from trivial)

variable [DecidableEq τ]

theorem Moves.lifecycle {s : Endpoint τ υ} {i : Input τ υ} {b : Control τ υ} {op : Op τ}
    (h : s.Lifecycle) (hmoves : Moves s i b op) (hfits : op.Fits s.conn) :
    (s.perform b op).Lifecycle := by
  have hcalls : ∀ u f, s.control.inFlight u = some f → f.isCall = true :=
    fun u f hf => (h.calls u f hf).1
  have htodo : s.conn.state = .connecting → s.control.todo = [] := fun hs => (h.connecting hs).2
  have hclosable : s.conn.closable = true → s.conn.state ≠ .connecting := by
    intro hc hs
    simp [TcpConnection.closable, hs] at hc
  have hremove : s.control.removals < s.log.count .closeCallback →
      s.conn.state = .disconnected :=
    fun hlt => h.closed (List.count_pos_iff.1 (Nat.zero_lt_of_lt hlt))
  cases hmoves with
  | sendDropped hfree hstate => exact h.bookkeep rfl rfl h.allowed h.once h.calls htodo
  | ignored hfree hstate => exact h.bookkeep rfl rfl h.allowed h.once h.calls htodo
  | sendNow hconn => exact Lifecycle.perform h hfits (by simp [hconn]) h.allowed hcalls
  | shutdownNow hconn => exact Lifecycle.perform h hfits (by simp [hconn]) h.allowed hcalls
  | forceCloseNow hc => exact Lifecycle.perform h hfits (hclosable hc) h.allowed hcalls
  | sendLater hfree hconn =>
      refine Lifecycle.perform h hfits (by simp [hconn]) h.allowed ?_
      exact Control.forall_setInFlight hcalls (by rintro g ⟨⟩; rfl)
  | shutdownLater hfree hconn =>
      refine Lifecycle.perform h hfits (by simp [hconn]) h.allowed ?_
      exact Control.forall_setInFlight hcalls (by rintro g ⟨⟩; rfl)
  | forceCloseLater hfree hc =>
      refine Lifecycle.perform h hfits (hclosable hc) h.allowed ?_
      exact Control.forall_setInFlight hcalls (by rintro g ⟨⟩; rfl)
  | @enqueue u f hf =>
      have hcall := h.calls u f hf
      refine Lifecycle.perform h hfits hcall.2 ?_ ?_
      · intro g hg
        simp only [Control.queued_queueInLoop, List.mem_append, List.mem_singleton] at hg
        rcases hg with hg | rfl
        · exact h.allowed g hg
        · exact Functor.allowed_of_isCall hcall.1 hcall.2
      · exact Control.forall_setInFlight hcalls (by rintro g ⟨⟩)
  | queueUser =>
      refine h.bookkeep rfl rfl ?_ ?_ h.calls htodo
      · intro g hg
        simp only [Control.queued_queueInLoop, List.mem_append, List.mem_singleton] at hg
        rcases hg with hg | rfl
        · exact h.allowed g hg
        · trivial
      · simpa [Functor.isConnectEstablished] using h.once
  | @poll events hhandling hcalling hevents =>
      refine h.bookkeep rfl rfl h.allowed h.once h.calls ?_
      intro hs
      rcases hevents with rfl | hlog
      · rfl
      · exact ((h.connecting hs).1 hlog).elim
  | callback hcallback hhandling =>
      refine Lifecycle.perform h hfits ?_ h.allowed hcalls
      intro hs
      rw [htodo hs] at hcallback
      cases hcallback
  | doPendingFunctors hhandling hempty hfunctors =>
      have hqueued := EventLoop.queued_beginPendingFunctors
        (l := { s.control.loop with eventHandling := false }) hfunctors
      refine h.bookkeep rfl rfl ?_ ?_ h.calls htodo
      · rw [hqueued]
        exact h.allowed
      · rw [hqueued]
        exact h.once
  | @functor w f functors hf hcalling =>
      have hqueued := EventLoop.queued_of_functors hf
      have hallowed : ∀ g ∈ f :: { s.control.loop with functors }.queued,
          g.Allowed s.conn.state := by
        rw [← hqueued]
        exact h.allowed
      have hrest : ∀ g ∈ { s.control.loop with functors }.queued, g.Allowed s.conn.state :=
        fun g hg => hallowed g (List.mem_cons_of_mem _ hg)
      have hfirst := hallowed f List.mem_cons_self
      cases f with
      | connectEstablished =>
          have honce := h.once
          rw [hqueued, List.countP_cons_of_pos rfl] at honce
          exact h.connectEstablished hfirst hrest (Nat.le_zero.1 (Nat.le_of_succ_le_succ honce)) rfl
      | user x =>
          refine h.bookkeep rfl rfl hrest ?_ h.calls htodo
          have honce := h.once
          rw [hqueued] at honce
          simpa [Functor.isConnectEstablished] using honce
      | connectDestroyed =>
          exact Lifecycle.perform h hfits (by rw [hfirst]; simp) hrest hcalls
      | sendInLoop m => exact Lifecycle.perform h hfits hfirst hrest hcalls
      | shutdownInLoop => exact Lifecycle.perform h hfits hfirst hrest hcalls
      | handleClose => exact Lifecycle.perform h hfits hfirst hrest hcalls
  | endPendingFunctors hfunctors hcalling =>
      exact h.bookkeep rfl rfl h.allowed h.once h.calls htodo
  | remove hregistered hlt =>
      have hclosed := hremove hlt
      refine Lifecycle.perform h hfits (by simp [hclosed]) ?_ hcalls
      intro g hg
      simp only [Control.queued_queueInLoop, List.mem_append, List.mem_singleton] at hg
      rcases hg with hg | rfl
      · exact h.allowed g hg
      · exact hclosed
  | removeAgain hregistered hlt => exact h.bookkeep rfl rfl h.allowed h.once h.calls htodo

/-- Every operation finds the connection in a state it is made for. -/
theorem Moves.allowed {s : Endpoint τ υ} {i : Input τ υ} {b : Control τ υ} {op : Op τ}
    (h : s.Lifecycle) (hmoves : Moves s i b op) : op.Allowed s.conn.state := by
  have hclosable : s.conn.closable = true → s.conn.state ≠ .connecting := by
    intro hc hs
    simp [TcpConnection.closable, hs] at hc
  cases hmoves with
  | sendNow hconn | shutdownNow hconn | shutdownLater _ hconn =>
      simp [Op.Allowed, hconn]
  | forceCloseNow hc | forceCloseLater _ hc => exact hclosable hc
  | callback htodo =>
      apply Op.allowed_callback
      intro hs
      rw [(h.connecting hs).2] at htodo
      cases htodo
  | functor hf =>
      apply Op.allowed_functor
      apply h.allowed
      rw [EventLoop.queued_of_functors hf]
      exact List.mem_cons_self
  | _ => trivial

theorem step_lifecycle {s t : Endpoint τ υ} {i : Input τ υ} (h : s.Lifecycle)
    (hstep : s.step i = some t) : t.Lifecycle := by
  rcases step_spec hstep with ⟨b, op, hmoves, hfits, rfl⟩
  exact hmoves.lifecycle h hfits

omit [DecidableEq τ] in
theorem registered_lifecycle (l : EventLoop υ) (sockfd : Nat) (cb mcb : Bool) :
    (registered l sockfd cb mcb : Endpoint τ υ).Lifecycle ∧
      (registered l sockfd cb mcb : Endpoint τ υ).control.loop.queued.countP
        Functor.isConnectEstablished = 0 := by
  have huser : ∀ f ∈ (registered l sockfd cb mcb : Endpoint τ υ).control.loop.queued,
      f.Allowed .connecting ∧ f.isConnectEstablished = false := by
    intro f hf
    simp only [registered, EventLoop.queued_map, List.mem_map] at hf
    rcases hf with ⟨x, -, rfl⟩
    exact ⟨trivial, rfl⟩
  have hcount : (registered l sockfd cb mcb : Endpoint τ υ).control.loop.queued.countP
      Functor.isConnectEstablished = 0 := by
    rw [List.countP_eq_zero]
    intro f hf
    simp [(huser f hf).2]
  refine ⟨⟨?_, ?_, ?_, ?_, ?_⟩, hcount⟩
  · intro f hf
    exact (huser f hf).1
  · rw [hcount]
    exact Nat.zero_le 1
  · intro t f hf
    cases hf
  · intro _
    exact ⟨List.not_mem_nil, rfl⟩
  · intro hclose
    cases hclose

omit [DecidableEq τ] in
theorem accept_lifecycle (inLoopThread : Bool) (l : EventLoop υ) (sockfd : Nat) (cb mcb : Bool) :
    (accept inLoopThread l sockfd cb mcb : Endpoint τ υ).Lifecycle := by
  obtain ⟨hnew, hcount⟩ := registered_lifecycle l sockfd cb mcb
  cases inLoopThread with
  | true => exact hnew.connectEstablished rfl hnew.allowed hcount rfl
  | false =>
      refine hnew.bookkeep rfl rfl ?_ ?_ hnew.calls fun _ => rfl
      · intro f hf
        simp only [Control.queued_queueInLoop, List.mem_append, List.mem_singleton] at hf
        rcases hf with hf | rfl
        · exact hnew.allowed f hf
        · rfl
      · rw [Control.queued_queueInLoop, List.countP_append, hcount]
        exact Nat.le_refl 1

end Endpoint

end Hayai
