import Hayai.Net.Lifecycle

/-! # A closed connection

`handleClose` clears the channel's mask, and every handler then finds nothing to
do. The one thing that wakes a closed connection is a `sendInLoop` functor that
was on its way: `send()` tested `state_` when it was called and the functor does
not test it again.
-/

namespace Hayai

def Effect.isWrite : Effect → Bool
  | .write _ => true
  | _ => false

def QuietAfter (c : TcpConnection (List UInt8)) (p : TcpConnection (List UInt8) × List Effect) :
    Prop :=
  p.2.countP Effect.isWrite = 0 ∧ p.1.outputBuffer = c.outputBuffer ∧ p.1.channel.events = 0

/-! ## One operation -/

theorem countP_isWrite_handleClose (c : TcpConnection (List UInt8)) :
    c.handleClose.2.countP Effect.isWrite = 0 := by
  simp only [TcpConnection.handleClose, TcpConnection.notify]
  split <;> rfl

theorem TcpConnection.shutdownInLoop_quiet (c : TcpConnection (List UInt8)) :
    c.shutdownInLoop.countP Effect.isWrite = 0 := by
  unfold shutdownInLoop
  split <;> rfl

namespace Op

variable {τ : Type}

def isSendInLoop : Op τ → Bool
  | .sendInLoop _ _ => true
  | _ => false

theorem run_quiet {c : TcpConnection (List UInt8)} {op : Op τ} (hallowed : op.Allowed c.state)
    (hsend : op.isSendInLoop = false) (hclosed : c.state = .disconnected)
    (hevents : c.channel.events = 0) : QuietAfter c (op.run c) := by
  have hclose : ∀ d : TcpConnection (List UInt8), d.outputBuffer = c.outputBuffer →
      QuietAfter c d.handleClose :=
    fun d hd => ⟨countP_isWrite_handleClose d, hd, rfl⟩
  cases op with
  | sendInLoop m w => cases hsend
  | handleClose => exact hclose c rfl
  | forceCloseNow => exact hclose c.forceClose c.outputBuffer_forceClose
  | handleRead r retrieved =>
      apply TcpConnection.handleRead_cases (P := QuietAfter c)
      · intro _
        exact hclose _ rfl
      · intro data _ _ inputBuffer
        refine ⟨?_, rfl, hevents⟩
        split <;> rfl
      · intro e _
        exact ⟨rfl, rfl, hevents⟩
  | handleWrite w =>
      rw [run, TcpConnection.handleWrite_idle w (Channel.isWriting_of_events_eq_zero hevents)]
      exact ⟨rfl, rfl, hevents⟩
  | shutdown =>
      exact ⟨rfl, c.outputBuffer_shutdown, c.channel_shutdown.symm ▸ hevents⟩
  | shutdownNow =>
      exact ⟨TcpConnection.shutdownInLoop_quiet _, c.outputBuffer_shutdown,
        c.channel_shutdown.symm ▸ hevents⟩
  | shutdownInLoop => exact ⟨c.shutdownInLoop_quiet, rfl, hevents⟩
  | forceClose => exact ⟨rfl, c.outputBuffer_forceClose, c.channel_forceClose.symm ▸ hevents⟩
  | connectEstablished =>
      rw [hclosed] at hallowed
      cases hallowed
  | connectDestroyed =>
      simp only [run, TcpConnection.connectDestroyed, hclosed, reduceCtorEq, if_false]
      refine ⟨?_, rfl, hevents⟩
      split <;> rfl
  | idle | setRevents revt | handleError => exact ⟨rfl, rfl, hevents⟩

/-- A queued message is quiet only if it is empty and finds older output buffered. -/
theorem sendInLoop_quiet_iff {c : TcpConnection (List UInt8)} {message : List UInt8}
    {w : WriteResult} (hfit : w.count ≤ message.length) (hevents : c.channel.events = 0) :
    QuietAfter c (c.sendInLoop message w) ↔ message = [] ∧ c.outputBuffer ≠ [] := by
  have hidle := Channel.isWriting_of_events_eq_zero hevents
  apply TcpConnection.sendInLoop_cases
    (P := fun p => QuietAfter c p ↔ message = [] ∧ c.outputBuffer ≠ []) hfit
  · intro hd _
    have hempty := (c.direct_iff.1 hd).2
    simp [QuietAfter, Effect.isWrite, hempty]
  · intro hd _ _
    have hempty := (c.direct_iff.1 hd).2
    simp [QuietAfter, Effect.isWrite, hempty]
  · intro hd hm
    have hbuffered : c.outputBuffer ≠ [] := by
      intro hempty
      rw [c.direct_iff.2 ⟨hidle, hempty⟩] at hd
      cases hd
    simp [QuietAfter, hm, hbuffered, hevents]
  · intro _ hm
    simp [QuietAfter, hm]

/-- The mask is empty whenever a connection gets disconnected. -/
theorem events_of_closing {c : TcpConnection (List UInt8)} {op : Op τ} (hfits : op.Fits c)
    (hallowed : op.Allowed c.state) (hopen : c.state ≠ .disconnected)
    (hclosed : (op.run c).1.state = .disconnected) : (op.run c).1.channel.events = 0 := by
  cases henters : op.entersHandleClose with
  | true => exact (run_of_entersHandleClose henters).2.1
  | false =>
      cases hinner : op.isInner with
      | true =>
          rcases (run_of_isInner hfits hinner henters).2 with hstate | ⟨-, hstate⟩
          · exact (hopen (hstate.symm.trans hclosed)).elim
          · rw [hclosed] at hstate
            cases hstate
      | false =>
          cases op with
          | connectEstablished =>
              simp only [run, TcpConnection.connectEstablished,
                show c.state = .connecting from hallowed, if_true] at hclosed
              cases hclosed
          | connectDestroyed => exact (hopen hallowed).elim
          | _ => cases hinner

end Op

/-! ## Whole runs -/

namespace Endpoint

variable {τ υ : Type}

/-- A step from a closed connection writes nothing, buffers nothing and asks for no event. -/
def QuietStep (s : Endpoint τ υ) (_ : Input τ υ) (t : Endpoint τ υ) : Prop :=
  s.conn.state = .disconnected →
    t.log.countP Effect.isWrite = s.log.countP Effect.isWrite ∧
      t.conn.outputBuffer = s.conn.outputBuffer ∧ t.conn.channel.events = 0

/-- The step does not run a queued message on a closed connection, save an empty one
behind output that was never written. -/
def NoLateSend (s : Endpoint τ υ) : Input τ υ → Prop
  | .functor _ => s.conn.state = .disconnected →
      ∀ m, s.control.loop.functors.head? = some (.sendInLoop m) →
        m.data = [] ∧ s.conn.outputBuffer ≠ []
  | _ => True

structure Muted (s : Endpoint τ υ) : Prop extends s.Lifecycle where
  muted : s.conn.state = .disconnected → s.conn.channel.events = 0

theorem quietStep_perform {s : Endpoint τ υ} {i : Input τ υ} {b : Control τ υ} {op : Op τ} :
    QuietStep s i (s.perform b op) ↔
      (s.conn.state = .disconnected → QuietAfter s.conn (op.run s.conn)) := by
  simp [QuietStep, QuietAfter]

variable [DecidableEq τ]

theorem quiet_iff {s t : Endpoint τ υ} {i : Input τ υ} (h : s.Muted) (hstep : s.step i = some t) :
    QuietStep s i t ↔ s.NoLateSend i := by
  rcases step_spec hstep with ⟨b, op, hmoves, hfits, rfl⟩
  rw [quietStep_perform]
  have hallowed := hmoves.allowed h.toLifecycle
  have hquiet : op.isSendInLoop = false → s.conn.state = .disconnected →
      QuietAfter s.conn (op.run s.conn) :=
    fun hsend hclosed => Op.run_quiet hallowed hsend hclosed (h.muted hclosed)
  cases hmoves with
  | @functor w f functors hf hcalling =>
      cases f with
      | sendInLoop m =>
          simp only [NoLateSend, hf, List.head?_cons, Option.some.injEq, Functor.sendInLoop.injEq,
            forall_eq']
          apply forall_congr'
          intro hclosed
          exact Op.sendInLoop_quiet_iff hfits (h.muted hclosed)
      | _ => exact ⟨fun _ _ m hm => by simp [hf] at hm, fun _ => hquiet rfl⟩
  | callback htodo =>
      refine ⟨fun _ => trivial, fun _ => hquiet ?_⟩
      rename_i kind _ _ _
      cases kind <;> rfl
  | sendNow hconn =>
      refine ⟨fun _ => trivial, fun _ hclosed => ?_⟩
      rw [hconn] at hclosed
      cases hclosed
  | _ => exact ⟨fun _ => trivial, fun _ => hquiet rfl⟩

theorem step_muted {s t : Endpoint τ υ} {i : Input τ υ} (h : s.Muted) (hlate : s.NoLateSend i)
    (hstep : s.step i = some t) : t.Muted := by
  refine ⟨step_lifecycle h.toLifecycle hstep, ?_⟩
  intro hclosed
  by_cases hbefore : s.conn.state = .disconnected
  · exact ((quiet_iff h hstep).2 hlate hbefore).2.2
  · rcases step_spec hstep with ⟨b, op, hmoves, hfits, rfl⟩
    exact Op.events_of_closing hfits (hmoves.allowed h.toLifecycle) hbefore hclosed

theorem closed_quiet_iff_no_late_send (inLoopThread : Bool) (l : EventLoop υ) (sockfd : Nat)
    (cb mcb : Bool) (is : List (Input τ υ)) :
    (machine τ υ).AlwaysStep QuietStep (accept inLoopThread l sockfd cb mcb) is ↔
      (machine τ υ).Meets NoLateSend (accept inLoopThread l sockfd cb mcb) is := by
  apply Machine.alwaysStep_iff_meets (I := Muted)
  · intro s i t hs hlate hstep
    exact step_muted hs hlate hstep
  · intro s i t hs hstep
    exact quiet_iff hs hstep
  · refine ⟨accept_lifecycle .., ?_⟩
    intro hclosed
    cases inLoopThread <;> cases hclosed

/-- Another thread's message is enqueued when the loop thread closes the connection. -/
def lateSendRun : List (Input Unit Unit) :=
  [.poll [], .doPendingFunctors, .functor (.wrote 0), .endPendingFunctors,
    .call (.other ()) (.send [1]) (.wrote 0), .enqueue (),
    .call .loopThread .forceClose (.wrote 0), .poll [], .doPendingFunctors]

theorem late_send_writes : ¬ (machine Unit Unit).AlwaysStep QuietStep
    (accept false EventLoop.new 7 true true) (lateSendRun ++ [.functor (.wrote 1)]) := by
  intro h
  have hbad := (h.read rfl rfl rfl).1
  revert hbad
  decide

end Endpoint

end Hayai
