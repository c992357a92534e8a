import Hayai.Coro.AsyncEndpoint
import Hayai.Machine.Run

/-! # Awaited receives

A coroutine in `recv()` is resumed by `onMessage()` only. `AsyncServer` gives its connections
a connection callback that does nothing when the connection closes, so nobody tells the
wrapper, and a `recv()` that is awaited afterwards suspends like any other. Who is left behind
is decided by the reads of the run: the coroutine that suspended last has to see one.
-/

namespace Hayai

variable {τ υ : Type}

/-! ## Reads -/

namespace Op

def brings : Op τ → Bool
  | .handleRead (.bytes (_ :: _)) _ => true
  | _ => false

theorem messages_run {c : TcpConnection (List UInt8)} {op : Op τ} (hfits : op.Fits c) :
    (op.run c).2.any Effect.isMessage = (op.brings && c.messageCallback) := by
  have hnotify : ∀ d : TcpConnection (List UInt8), d.notify.any Effect.isMessage = false := by
    intro d
    unfold TcpConnection.notify
    split <;> rfl
  cases op with
  | sendInLoop m w =>
      apply TcpConnection.sendInLoop_cases
        (P := fun p => p.2.any Effect.isMessage = false) hfits
      · intro _ _
        rfl
      · intro _ _ _
        rfl
      · intro _ _
        rfl
      · intro _ _
        dsimp only
        split <;> rfl
  | handleWrite w =>
      apply TcpConnection.handleWrite_cases
        (P := fun p => p.2.any Effect.isMessage = false) hfits
      · intro _
        rfl
      · intro _ _
        rfl
      · intro _ _ _
        rfl
      · intro _ _ _
        dsimp only
        split <;> rfl
  | handleRead r retrieved =>
      apply TcpConnection.handleRead_cases (P := fun p => p.2.any Effect.isMessage =
        ((handleRead r retrieved : Op τ).brings && c.messageCallback))
      · rintro rfl
        simp [brings, TcpConnection.handleClose, hnotify, Effect.isMessage]
      · intro data hr hdata inputBuffer
        obtain ⟨b, rest, rfl⟩ := List.exists_cons_of_ne_nil hdata
        cases hm : c.messageCallback <;> simp [hr, brings, Effect.isMessage]
      · rintro e rfl
        rfl
  | shutdownNow | shutdownInLoop =>
      simp only [run, TcpConnection.shutdownInLoop, brings]
      split <;> rfl
  | forceCloseNow | handleClose =>
      simp [run, brings, TcpConnection.handleClose, hnotify, Effect.isMessage]
  | connectEstablished =>
      simp only [run, TcpConnection.connectEstablished, brings]
      split <;> simp [hnotify, Effect.isMessage]
  | connectDestroyed =>
      simp only [run, TcpConnection.connectDestroyed, brings]
      split <;> split <;> simp [hnotify, Effect.isMessage]
  | _ => rfl

theorem messageCallback_run {c : TcpConnection (List UInt8)} {op : Op τ} (hfits : op.Fits c) :
    (op.run c).1.messageCallback = c.messageCallback := by
  cases op with
  | sendInLoop m w =>
      apply TcpConnection.sendInLoop_cases
        (P := fun p => p.1.messageCallback = c.messageCallback) hfits
      · intro _ _
        rfl
      · intro _ _ _
        rfl
      · intro _ _
        rfl
      · intro _ _
        rfl
  | handleWrite w =>
      apply TcpConnection.handleWrite_cases
        (P := fun p => p.1.messageCallback = c.messageCallback) hfits
      · intro _
        rfl
      · intro _ _
        rfl
      · intro _ _ _
        rfl
      · intro _ _ _
        rfl
  | handleRead r retrieved =>
      apply TcpConnection.handleRead_cases
        (P := fun p => p.1.messageCallback = c.messageCallback)
      · intro _
        rfl
      · intro data _ _ inputBuffer
        rfl
      · intro e _
        rfl
  | shutdown | shutdownNow | forceClose | forceCloseNow | connectEstablished | connectDestroyed =>
      simp only [run, TcpConnection.shutdown, TcpConnection.forceClose,
        TcpConnection.connectEstablished, TcpConnection.connectDestroyed]
      split <;> rfl
  | _ => rfl

end Op

namespace AsyncEndpoint

def brings [DecidableEq τ] (s : AsyncEndpoint τ υ) : AsyncInput τ υ → Bool
  | .run i => (s.endpoint.plan (s.lift i)).any (·.2.brings)
  | _ => false

/-- The step is an `await_suspend()` of a `recv()` that finds no bytes. -/
def suspends (s : AsyncEndpoint τ υ) : AsyncInput τ υ → Bool
  | .recvSuspend _ _ => s.wrapper.receivedData.isEmpty
  | _ => false

/-- A `recv()` has suspended and no read has brought bytes since. -/
def unmet [DecidableEq τ] (s : AsyncEndpoint τ υ) (i : AsyncInput τ υ) (before : Bool) : Bool :=
  s.suspends i || (before && !s.brings i)

structure Drained (s : AsyncEndpoint τ υ) : Prop where
  queued : s.endpoint.control.loop.queued = []
  todo : s.endpoint.control.todo = []
  inFlight : ∀ t, s.endpoint.control.inFlight t = none

/-- Nobody is left suspended in `recv()` on a closed connection. -/
def Woken (s : AsyncEndpoint τ υ) : Prop :=
  s.endpoint.conn.state = .disconnected → s.Drained → s.wrapper.recvCoroutine = none

/-- A `recv()` that finds the connection closed and no bytes left, when it is awaited or
when it is resumed, returns an empty buffer. -/
def ReturnsEmpty (s : AsyncEndpoint τ υ) (i : AsyncInput τ υ) (t : AsyncEndpoint τ υ) : Prop :=
  s.endpoint.conn.state = .disconnected → s.wrapper.receivedData = [] →
    match i with
    | .recvSuspend n _ =>
        t.received = s.received ++ [(n, [])] ∨ t.resumes = s.resumes ++ [.recv n]
    | .recvReturn n => t.received = s.received ++ [(n, [])]
    | .run i => ∀ n, s.resumed i = some (.recv n) → t.received = s.received ++ [(n, [])]
    | _ => True

/-- Where the connection is closed and all has run, no `recv()` is left that saw no read. -/
def Met (p : AsyncEndpoint τ υ × Bool) : Prop :=
  p.1.endpoint.conn.state = .disconnected → p.1.Drained → p.2 = false

def SuspendsOpen (s : AsyncEndpoint τ υ) (i : AsyncInput τ υ) : Prop :=
  s.endpoint.conn.state = .disconnected → s.suspends i = false

instance (s : AsyncEndpoint τ υ) (i : AsyncInput τ υ) : Decidable (s.SuspendsOpen i) :=
  inferInstanceAs (Decidable (_ → _))

/-! ## Steps -/

/-- `unmet` says whether `recvCoroutine_` is engaged. -/
structure Tracked (p : AsyncEndpoint τ υ × Bool) : Prop where
  messageCallback : p.1.endpoint.conn.messageCallback = true
  waits : p.1.wrapper.recvCoroutine.isSome = p.2

theorem Tracked.woken_iff {p : AsyncEndpoint τ υ × Bool} (h : Tracked p) : p.1.Woken ↔ Met p := by
  unfold Woken Met
  rw [← h.waits, Option.isSome_eq_false_iff, Option.isNone_iff_eq_none]

theorem wrapper_queueResume (s : AsyncEndpoint τ υ) (inLoopThread : Bool)
    (r : Option Suspension) : (s.queueResume inLoopThread r).wrapper = s.wrapper := by
  cases r <;> rfl

theorem conn_queueResume (s : AsyncEndpoint τ υ) (inLoopThread : Bool) (r : Option Suspension) :
    (s.queueResume inLoopThread r).endpoint.conn = s.endpoint.conn := by
  cases r <;> rfl

theorem conn_react (input : List UInt8) (s : AsyncEndpoint τ υ) (e : Effect) :
    (react input s e).endpoint.conn = s.endpoint.conn := by
  cases e with
  | messageCallback data => exact conn_queueResume _ true _
  | writeCompleteCallback => exact conn_queueResume _ true _
  | _ => rfl

/-- `onMessage()` takes the handle out, whoever waits. -/
theorem recvCoroutine_react (input : List UInt8) (s : AsyncEndpoint τ υ) (e : Effect) :
    (react input s e).wrapper.recvCoroutine =
      if e.isMessage then none else s.wrapper.recvCoroutine := by
  cases e with
  | messageCallback data =>
      exact congrArg AsyncConnection.recvCoroutine (wrapper_queueResume _ true _)
  | writeCompleteCallback =>
      exact (congrArg AsyncConnection.recvCoroutine (wrapper_queueResume _ true _)).trans rfl
  | _ => rfl

theorem reactAll_recvCoroutine (input : List UInt8) (s : AsyncEndpoint τ υ)
    (effects : List Effect) :
    (s.reactAll input effects).endpoint.conn = s.endpoint.conn ∧
      (s.reactAll input effects).wrapper.recvCoroutine =
        if effects.any Effect.isMessage then none else s.wrapper.recvCoroutine := by
  induction effects generalizing s with
  | nil => exact ⟨rfl, rfl⟩
  | cons e effects ih =>
      rcases ih (react input s e) with ⟨hconn, hcoroutine⟩
      refine ⟨hconn.trans (conn_react input s e), hcoroutine.trans ?_⟩
      rw [recvCoroutine_react, List.any_cons]
      cases e.isMessage <;> cases effects.any Effect.isMessage <;> rfl

theorem received_recvResume {s : AsyncEndpoint τ υ} (h : s.wrapper.receivedData = []) (n : Nat) :
    (s.recvResume n).received = s.received ++ [(n, [])] := by
  simp [AsyncEndpoint.recvResume, AsyncConnection.recvResume, h]

variable [DecidableEq τ]

theorem tracked_advance {s t : AsyncEndpoint τ υ} {i : Input τ (Posted υ)} {waits : Bool}
    (h : Tracked (s, waits)) (hstep : s.advance i = some t) :
    Tracked (t, waits && !(s.endpoint.plan i).any (·.2.brings)) := by
  rcases advance_spec hstep with ⟨b, op, hplan, hfits, rfl⟩
  rcases reactAll_recvCoroutine s.endpoint.conn.inputBuffer
    { s with endpoint := s.endpoint.perform b op } (op.run s.endpoint.conn).2 with
    ⟨hconn, hcoroutine⟩
  have hinstalled : s.endpoint.conn.messageCallback = true := h.messageCallback
  constructor
  · rw [hconn]
    exact (Op.messageCallback_run hfits).trans hinstalled
  · show Option.isSome _ = (waits && !(s.endpoint.plan i).any (·.2.brings))
    have hwaits : s.wrapper.recvCoroutine.isSome = waits := h.waits
    rw [hcoroutine, Op.messages_run hfits, hinstalled, hplan]
    cases hbrings : op.brings <;> simp [hbrings, hwaits]

theorem brings_send (s : Endpoint τ υ) (caller : Caller τ) (data : List UInt8)
    (w : WriteResult) : (s.plan (.call caller (.send data) w)).any (·.2.brings) = false := by
  cases hplan : s.plan (.call caller (.send data) w) with
  | none => rfl
  | some p =>
      rcases p with ⟨b, op⟩
      cases Endpoint.plan_moves hplan <;> rfl

theorem tracked_step {p q : AsyncEndpoint τ υ × Bool} {i : AsyncInput τ υ} (h : Tracked p)
    (hstep : ((machine τ υ).remember unmet).step p i = some q) : Tracked q := by
  rcases p with ⟨s, waits⟩
  rcases Option.map_eq_some_iff.1 hstep with ⟨t, ht, rfl⟩
  cases i with
  | run i =>
      rcases Option.map_eq_some_iff.1 ht with ⟨u, hu, rfl⟩
      have htracked := tracked_advance h hu
      rcases u.resume_cases (s.resumed i) with heq | ⟨n, -, heq⟩
      · rw [heq]
        exact ⟨htracked.messageCallback, htracked.waits⟩
      · rw [heq]
        exact ⟨htracked.messageCallback, htracked.waits⟩
  | send caller data w =>
      have hsuspended : Tracked
          (({ s with wrapper := s.wrapper.sendSuspend (.send s.endpoint.control.sends) } :
            AsyncEndpoint τ υ), waits) := ⟨h.messageCallback, h.waits⟩
      have htracked := tracked_advance hsuspended ht
      rw [brings_send] at htracked
      exact ⟨htracked.messageCallback, htracked.waits⟩
  | recvReady =>
      cases ht
      refine ⟨h.messageCallback, h.waits.trans ?_⟩
      simp [unmet, suspends, brings]
  | recvSuspend n inLoopThread =>
      rcases Option.ite_none_right_eq_some.1 ht with ⟨-, ⟨⟩⟩
      constructor
      · rw [conn_queueResume]
        exact h.messageCallback
      · rw [wrapper_queueResume]
        show (s.wrapper.recvSuspend (.recv n)).1.recvCoroutine.isSome = _
        have hwaits : s.wrapper.recvCoroutine.isSome = waits := h.waits
        cases hdata : s.wrapper.receivedData <;>
          simp [AsyncConnection.recvSuspend, unmet, suspends, brings, hdata, hwaits]
  | recvReturn n =>
      rcases Option.ite_none_right_eq_some.1 ht with ⟨-, ⟨⟩⟩
      refine ⟨h.messageCallback, h.waits.trans ?_⟩
      simp [unmet, suspends, brings]

/-- The functor of a resume does nothing to the wrapper before the coroutine goes on. -/
theorem advance_resumed {s t : AsyncEndpoint τ υ} {i : Input τ υ} {h : Suspension}
    (hresumed : s.resumed i = some h) (hstep : s.advance (s.lift i) = some t) :
    t.wrapper = s.wrapper ∧ t.received = s.received := by
  cases i with
  | functor w =>
      simp only [resumed] at hresumed
      split at hresumed
      · next h' rest hfunctors =>
          rcases advance_spec hstep with ⟨b, op, hplan, hfits, rfl⟩
          cases Endpoint.plan_moves hplan with
          | functor hhead =>
              rw [hfunctors] at hhead
              cases hhead
              exact ⟨rfl, rfl⟩
      · cases hresumed
  | _ => cases hresumed

/-- Only `await_suspend()` on a closed connection fails to return the empty buffer. -/
theorem returnsEmpty_iff {s t : AsyncEndpoint τ υ} {i : AsyncInput τ υ}
    (hstep : s.step i = some t) : s.ReturnsEmpty i t ↔ s.SuspendsOpen i := by
  cases i with
  | run i =>
      refine iff_of_true ?_ (fun _ => rfl)
      intro _ hempty n hresumed
      rcases Option.map_eq_some_iff.1 hstep with ⟨u, hu, rfl⟩
      rcases advance_resumed hresumed hu with ⟨hwrapper, hreceived⟩
      rw [hresumed, ← hreceived]
      apply received_recvResume
      rw [hwrapper]
      exact hempty
  | recvSuspend n inLoopThread =>
      rcases Option.ite_none_right_eq_some.1 hstep with ⟨-, ⟨⟩⟩
      constructor
      · intro h hclosed
        cases hdata : s.wrapper.receivedData with
        | cons b rest => simp [suspends, hdata]
        | nil =>
            rcases h hclosed hdata with hreceived | hresumes
            · simp [AsyncConnection.recvSuspend, hdata, queueResume, setChecked] at hreceived
            · simp [AsyncConnection.recvSuspend, hdata, queueResume, setChecked] at hresumes
      · intro h hclosed hempty
        have hsuspends := h hclosed
        simp [suspends, hempty] at hsuspends
  | recvReturn n =>
      rcases Option.ite_none_right_eq_some.1 hstep with ⟨-, ⟨⟩⟩
      exact iff_of_true (fun _ hempty => received_recvResume hempty n) (fun _ => rfl)
  | _ => exact iff_of_true (fun _ _ => trivial) (fun _ => rfl)

/-! ## Runs -/

/-- Receivers are woken in exactly the runs where a read comes between the last `recv()` that
suspends and the close, and none suspends on the closed connection. -/
theorem receivers_woken_iff (inLoopThread : Bool) (l : EventLoop υ) (sockfd : Nat)
    (is : List (AsyncInput τ υ)) :
    ((machine τ υ).Always Woken (accept inLoopThread l sockfd) is ∧
        (machine τ υ).AlwaysStep ReturnsEmpty (accept inLoopThread l sockfd) is) ↔
      ((machine τ υ).remember unmet).Always Met (accept inLoopThread l sockfd, false) is ∧
        (machine τ υ).Meets SuspendsOpen (accept inLoopThread l sockfd) is := by
  have htracked : ((machine τ υ).remember unmet).Always Tracked
      (accept inLoopThread l sockfd, false) is := by
    apply Machine.always_of_invariant
    · intro p i q hp hstep
      exact tracked_step hp hstep
    · exact ⟨by cases inLoopThread <;> rfl, rfl⟩
  have hwoken := Machine.always_congr (fun p hp => hp.woken_iff) htracked
  rw [Machine.always_remember] at hwoken
  have hreturns : (machine τ υ).AlwaysStep ReturnsEmpty (accept inLoopThread l sockfd) is ↔
      (machine τ υ).Meets SuspendsOpen (accept inLoopThread l sockfd) is := by
    apply Machine.alwaysStep_iff_meets (I := fun _ => True)
    · intro _ _ _ _ _ _
      trivial
    · intro s i t _ hstep
      exact returnsEmpty_iff hstep
    · trivial
  rw [hwoken, hreturns]

/-- The connection closes while its coroutine does something else, and the loop runs what
is left. -/
def closing : List (AsyncInput Unit Unit) :=
  [.run (.call .loopThread .forceClose (.wrote 0)), .run (.removeConnectionInLoop true),
    .run (.poll []), .run .doPendingFunctors, .run (.functor (.wrote 0)),
    .run .endPendingFunctors]

/-- A `recv()` suspends, a read wakes it, and what a second read brings is there for a `recv()`
that is awaited after the close. -/
def wokenBefore : List (AsyncInput Unit Unit) :=
  [.recvReady, .recvSuspend 0 true, .run (.poll [⟨7, .read, false, false, ()⟩]),
    .run (.callback (.bytes [65]) 0 (.wrote 0)), .run .doPendingFunctors,
    .run (.functor (.wrote 0)), .run .endPendingFunctors,
    .run (.poll [⟨7, .read, false, false, ()⟩]), .run (.callback (.bytes [66]) 0 (.wrote 0)),
    .run .doPendingFunctors, .run .endPendingFunctors] ++ closing ++ [.recvReady, .recvReturn 1]

theorem recv_after_close_returns : ∃ t : AsyncEndpoint Unit Unit,
    (machine Unit Unit).run (accept true .new 7) wokenBefore = some t ∧
      t.endpoint.conn.state = .disconnected ∧ t.received = [(0, [65]), (1, [66])] ∧ t.Woken := by
  have hmet : ((machine Unit Unit).remember unmet).Always Met (accept true .new 7, false)
      wokenBefore := by
    have hunmet : ((machine Unit Unit).remember unmet).Always
        (fun p => p.1.endpoint.conn.state = .disconnected → p.2 = false)
        (accept true .new 7, false) wokenBefore := by decide
    exact hunmet.mono fun p hp hclosed _ => hp hclosed
  have hopen : (machine Unit Unit).Meets SuspendsOpen (accept true .new 7) wokenBefore := by decide
  have hwoken := ((receivers_woken_iff true .new 7 wokenBefore).2 ⟨hmet, hopen⟩).1
  exact ⟨_, rfl, rfl, rfl, hwoken.last rfl⟩

/-- A coroutine is suspended in `recv()` when the connection closes: everything has run and it
waits on. -/
theorem close_strands_receiver :
    ¬(machine Unit Unit).Always Woken (accept true .new 7)
      ([.recvReady, .recvSuspend 0 true] ++ closing) := by
  intro h
  have hend := h.last rfl
  have hwoken := hend rfl ⟨rfl, rfl, fun _ => rfl⟩
  cases hwoken

end AsyncEndpoint

end Hayai
