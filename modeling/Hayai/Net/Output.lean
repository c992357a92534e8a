import Hayai.Net.Lifecycle

/-! # The output stream of a connection

Whatever the kernel takes and whichever threads call `send`, the socket receives
the messages whose `sendInLoop` has run, whole and in that order. The order is
the call order of each thread, because a thread's functors pass through one queue.
-/

namespace Hayai

variable {τ υ : Type}

/-! ## One operation -/

def kept (r : Message τ × Bool) : List UInt8 := if r.2 then [] else r.1.data

namespace Op

theorem run_stream {c : TcpConnection (List UInt8)} {op : Op τ} (h : op.Fits c) :
    sentBytes (op.run c).2 ++ (op.run c).1.outputBuffer =
      c.outputBuffer ++ (op.record c).flatMap kept := by
  cases op with
  | sendInLoop m w => simpa [run, record, kept] using TcpConnection.sendInLoop_stream h
  | handleWrite w => simpa [run, record] using TcpConnection.handleWrite_stream h
  | handleRead r retrieved =>
      apply TcpConnection.handleRead_cases
        (P := fun p => sentBytes p.2 ++ p.1.outputBuffer = c.outputBuffer ++ [].flatMap kept)
      · intro _
        simp
      · intro data _ _ inputBuffer
        split <;> simp [Effect.bytes]
      · intro e _
        simp
  | _ => simp [run, record, TcpConnection.setRevents, TcpConnection.handleError]

theorem run_writing {c : TcpConnection (List UInt8)} {op : Op τ} (h : op.Fits c)
    (hopen : (op.run c).1.state ≠ .disconnected) (hc : c.WritingIffBuffered) :
    (op.run c).1.WritingIffBuffered := by
  cases op with
  | sendInLoop m w => exact TcpConnection.sendInLoop_writing h hc
  | handleWrite w => exact TcpConnection.handleWrite_writing h hc
  | handleRead r retrieved =>
      revert hopen
      apply TcpConnection.handleRead_cases
        (P := fun p => p.1.state ≠ .disconnected → p.1.WritingIffBuffered)
      · intro _ hopen
        exact (hopen rfl).elim
      · intro data _ _ inputBuffer _
        exact hc
      · intro e _ _
        exact hc
  | forceCloseNow | handleClose | connectDestroyed => exact (hopen rfl).elim
  | shutdown | shutdownNow | forceClose | connectEstablished =>
      simpa [run, TcpConnection.WritingIffBuffered] using hc
  | _ => exact hc

end Op

/-! ## Messages on their way -/

theorem Functor.record_op (f : Functor τ υ) (w : WriteResult) (c : TcpConnection (List UInt8)) :
    (f.op w).record c = f.message?.toList.map (·, c.faulted w) := by
  cases f <;> rfl

theorem Callback.record_op (k : Callback) (r : ReadResult) (retrieved : Nat) (w : WriteResult)
    (c : TcpConnection (List UInt8)) : (k.op r retrieved w : Op τ).record c = [] := by
  cases k <;> rfl

namespace Control

def enqueued (b : Control τ υ) : List (Message τ) := b.loop.queued.filterMap Functor.message?

@[simp] theorem enqueued_noteSend (b : Control τ υ) (m : Message τ) :
    (b.noteSend m).enqueued = b.enqueued := rfl

@[simp] theorem enqueued_queueInLoop (b : Control τ υ) (inLoopThread : Bool) (f : Functor τ υ) :
    (b.queueInLoop inLoopThread f).enqueued = b.enqueued ++ f.message?.toList := by
  cases h : f.message? <;> simp [enqueued, h]

theorem enqueued_foreign {b : Control τ υ} {l : EventLoop υ} (h : b.loop = l.map .user) :
    b.enqueued = [] := by
  simp [enqueued, h, List.filterMap_eq_nil_iff, Functor.message?]

end Control

section Order

variable [DecidableEq τ]

def ofCaller (c : Caller τ) (ms : List (Message τ)) : List (Message τ) :=
  ms.filter (·.caller = c)

@[simp] theorem ofCaller_append (c : Caller τ) (ms ns : List (Message τ)) :
    ofCaller c (ms ++ ns) = ofCaller c ms ++ ofCaller c ns := by
  simp [ofCaller]

@[simp] theorem ofCaller_singleton (c : Caller τ) (m : Message τ) :
    ofCaller c [m] = if m.caller = c then [m] else [] := by
  by_cases h : m.caller = c <;> simp [ofCaller, h]

@[simp] theorem ofCaller_nil (c : Caller τ) : ofCaller c ([] : List (Message τ)) = [] := rfl

namespace Control

/-- The message of a caller that has tested `state_` and not yet enqueued. -/
def held (b : Control τ υ) : Caller τ → List (Message τ)
  | .loopThread => []
  | .other t => ((b.inFlight t).bind Functor.message?).toList

omit [DecidableEq τ] in
@[simp] theorem held_noteSend (b : Control τ υ) (m : Message τ) : (b.noteSend m).held = b.held := rfl

omit [DecidableEq τ] in
@[simp] theorem held_queueInLoop (b : Control τ υ) (inLoopThread : Bool) (f : Functor τ υ) :
    (b.queueInLoop inLoopThread f).held = b.held := rfl

@[simp] theorem enqueued_setInFlight (b : Control τ υ) (t : τ) (f : Option (Functor τ υ)) :
    (b.setInFlight t f).enqueued = b.enqueued := rfl

theorem held_setInFlight (b : Control τ υ) (t : τ) (f : Option (Functor τ υ)) (c : Caller τ) :
    (b.setInFlight t f).held c =
      if c = .other t then (f.bind Functor.message?).toList else b.held c := by
  cases c with
  | loopThread => simp [held]
  | other u =>
      by_cases hu : u = t
      · simp [held, setInFlight, hu]
      · simp [held, setInFlight, hu]

end Control

namespace Endpoint

/-- Every accepted message has run, is enqueued or is about to be, and in this order
for each caller. The loop thread runs its messages at once. -/
structure Ordered (s : Endpoint τ υ) : Prop where
  calls : ∀ c, ofCaller c s.control.accepted =
    ofCaller c (s.ran.map Prod.fst) ++ ofCaller c s.control.enqueued ++ s.control.held c
  local_none : ofCaller .loopThread s.control.enqueued = []
  held_own : ∀ c, ∀ m ∈ s.control.held c, m.caller = c

theorem Ordered.of_same {s : Endpoint τ υ} (h : s.Ordered) {b : Control τ υ} {op : Op τ}
    (hrecord : op.record s.conn = []) (haccepted : b.accepted = s.control.accepted)
    (henqueued : b.enqueued = s.control.enqueued) (hheld : ∀ c, b.held c = s.control.held c) :
    (s.perform b op).Ordered := by
  constructor
  · intro c
    simpa [haccepted, hrecord, henqueued, hheld] using h.calls c
  · simpa [henqueued] using h.local_none
  · intro c m hm
    rw [perform_control, hheld] at hm
    exact h.held_own c m hm

theorem Ordered.sendNow {s : Endpoint τ υ} (h : s.Ordered) (data : List UInt8) (w : WriteResult) :
    (s.perform (s.control.noteSend (s.message .loopThread data))
      (.sendInLoop (s.message .loopThread data) w)).Ordered := by
  constructor
  · intro c
    have hcalls := h.calls c
    by_cases hc : c = .loopThread
    · subst hc
      simp [hcalls, h.local_none, message, Control.held, Op.record]
    · simp [hcalls, message, Ne.symm hc, Op.record]
  · exact h.local_none
  · exact h.held_own

theorem Ordered.sendLater {s : Endpoint τ υ} (h : s.Ordered) {t : τ} (data : List UInt8)
    (hfree : s.control.inFlight t = none) :
    (s.perform ((s.control.noteSend (s.message (.other t) data)).setInFlight t
      (some (.sendInLoop (s.message (.other t) data)))) .idle).Ordered := by
  have hheld : s.control.held (.other t) = [] := by simp [Control.held, hfree]
  constructor
  · intro c
    have hcalls := h.calls c
    by_cases hc : c = .other t
    · subst hc
      simp [hcalls, hheld, message, Functor.message?, Control.held_setInFlight, Op.record]
    · simp [hcalls, hc, Ne.symm hc, message, Control.held_setInFlight, Op.record]
  · exact h.local_none
  · intro c m hm
    rw [perform_control, Control.held_setInFlight] at hm
    split at hm
    · rename_i hc
      simp [Functor.message?] at hm
      rw [hm, hc]
      rfl
    · exact h.held_own c m hm

theorem Ordered.enqueue {s : Endpoint τ υ} (h : s.Ordered) {t : τ} {f : Functor τ υ}
    (hf : s.control.inFlight t = some f) :
    (s.perform ((s.control.setInFlight t none).queueInLoop false f) .idle).Ordered := by
  have hheld : s.control.held (.other t) = f.message?.toList := by simp [Control.held, hf]
  have hown : ∀ m ∈ f.message?.toList, m.caller = .other t := by
    rw [← hheld]
    exact h.held_own _
  constructor
  · intro c
    have hcalls := h.calls c
    by_cases hc : c = .other t
    · subst hc
      have hall : ofCaller (.other t) f.message?.toList = f.message?.toList := by
        simpa [ofCaller, List.filter_eq_self] using hown
      simp [hcalls, hheld, hall, Control.held_setInFlight, Op.record]
    · have hnone : ofCaller c f.message?.toList = [] := by
        rw [ofCaller, List.filter_eq_nil_iff]
        intro m hm
        simp [hown m hm, Ne.symm hc]
      simp [hcalls, hc, hnone, Control.held_setInFlight, Op.record]
  · have hnone : ofCaller .loopThread f.message?.toList = [] := by
      rw [ofCaller, List.filter_eq_nil_iff]
      intro m hm
      simp [hown m hm]
    simp [h.local_none, hnone]
  · intro c m hm
    simp only [perform_control, Control.held_queueInLoop, Control.held_setInFlight] at hm
    split at hm
    · simp at hm
    · exact h.held_own c m hm

theorem Ordered.functor {s : Endpoint τ υ} (h : s.Ordered) {b : Control τ υ} {f : Functor τ υ}
    (w : WriteResult) (haccepted : b.accepted = s.control.accepted)
    (henqueued : s.control.enqueued = f.message?.toList ++ b.enqueued)
    (hheld : ∀ c, b.held c = s.control.held c) : (s.perform b (f.op w)).Ordered := by
  have hrecord : ((f.op w).record s.conn).map Prod.fst = f.message?.toList := by
    rw [Functor.record_op, List.map_map]
    exact List.map_id _
  have hlocal := h.local_none
  rw [henqueued, ofCaller_append, List.append_eq_nil_iff] at hlocal
  constructor
  · intro c
    have hcalls := h.calls c
    rw [henqueued] at hcalls
    simpa [haccepted, hrecord, hheld] using hcalls
  · exact hlocal.2
  · intro c m hm
    rw [perform_control, hheld] at hm
    exact h.held_own c m hm

theorem step_ordered {s t : Endpoint τ υ} {i : Input τ υ} (h : s.Ordered)
    (hstep : s.step i = some t) : t.Ordered := by
  obtain ⟨b, op, hmoves, hfits, rfl⟩ := step_spec hstep
  cases hmoves with
  | sendNow hconn => exact h.sendNow _ _
  | sendLater hfree hconn => exact h.sendLater _ hfree
  | enqueue hf => exact h.enqueue hf
  | @functor w f functors hf hcalling =>
      refine Ordered.functor h w rfl ?_ ?_
      · cases hm : f.message? <;> simp [Control.enqueued, EventLoop.queued_of_functors hf, hm]
      · intro c
        rfl
  | callback htodo => exact Ordered.of_same h (Callback.record_op ..) rfl rfl fun _ => rfl
  | shutdownLater hfree | forceCloseLater hfree =>
      refine Ordered.of_same h rfl rfl rfl ?_
      intro c
      rw [Control.held_setInFlight]
      split
      · rename_i hc
        simp [hc, Control.held, hfree, Functor.message?]
      · rfl
  | queueUser | remove =>
      refine Ordered.of_same h rfl rfl ?_ ?_
      · rw [Control.enqueued_queueInLoop]
        exact List.append_nil _
      · intro c
        rfl
  | doPendingFunctors hhandling htodo hfunctors =>
      refine Ordered.of_same h rfl rfl ?_ ?_
      · simp [Control.enqueued, EventLoop.queued, EventLoop.beginPendingFunctors, hfunctors]
      · intro c
        rfl
  | _ => exact Ordered.of_same h rfl rfl rfl fun _ => rfl

/-! ## Whole runs -/

/-- What the socket took and what is buffered make up what was buffered at first and
the messages that have run, and an open connection waits for write events exactly
while something is buffered. -/
structure Streaming (initial : List UInt8) (s : Endpoint τ υ) : Prop where
  stream : sentBytes s.log ++ s.conn.outputBuffer = initial ++ s.ran.flatMap kept
  writing : s.conn.state ≠ .disconnected → s.conn.WritingIffBuffered

omit [DecidableEq τ] in
theorem Streaming.perform {initial : List UInt8} {s : Endpoint τ υ} (h : s.Streaming initial)
    (b : Control τ υ) {op : Op τ} (hfits : op.Fits s.conn) :
    (s.perform b op).Streaming initial := by
  constructor
  · have hop := Op.run_stream hfits
    calc
      sentBytes (s.perform b op).log ++ (s.perform b op).conn.outputBuffer
          = sentBytes s.log ++ (sentBytes (op.run s.conn).2 ++ (op.run s.conn).1.outputBuffer) := by
            simp
      _ = sentBytes s.log ++ s.conn.outputBuffer ++ (op.record s.conn).flatMap kept := by
            rw [hop, List.append_assoc]
      _ = initial ++ (s.perform b op).ran.flatMap kept := by
            rw [h.stream, perform_ran, List.flatMap_append, List.append_assoc]
  · intro hopen
    exact Op.run_writing hfits hopen (h.writing (Op.run_open hfits hopen))

theorem step_streaming {initial : List UInt8} {s t : Endpoint τ υ} {i : Input τ υ}
    (h : s.Streaming initial) (hstep : s.step i = some t) : t.Streaming initial := by
  rcases step_spec hstep with ⟨b, op, -, hfits, rfl⟩
  exact h.perform b hfits

omit [DecidableEq τ] in
theorem accept_streaming (inLoopThread : Bool) (l : EventLoop υ) (sockfd : Nat) (cb mcb : Bool) :
    (accept inLoopThread l sockfd cb mcb : Endpoint τ υ).Streaming [] := by
  have hnew : (registered l sockfd cb mcb : Endpoint τ υ).Streaming [] := by
    constructor
    · rfl
    · intro _
      simp [TcpConnection.WritingIffBuffered, registered, TcpConnection.new, Channel.new,
        Channel.isWriting]
  cases inLoopThread with
  | false => exact hnew.perform _ trivial
  | true => exact hnew.perform _ trivial

theorem accept_ordered (inLoopThread : Bool) (l : EventLoop υ) (sockfd : Nat) (cb mcb : Bool) :
    (accept inLoopThread l sockfd cb mcb : Endpoint τ υ).Ordered := by
  have huser : (registered l sockfd cb mcb : Endpoint τ υ).control.enqueued = [] :=
    Control.enqueued_foreign rfl
  have hnew : (registered l sockfd cb mcb : Endpoint τ υ).Ordered := by
    constructor
    · intro c
      rw [huser]
      cases c <;> rfl
    · rw [huser]
      rfl
    · intro c m hm
      cases c <;> simp [registered, Control.held] at hm
  cases inLoopThread with
  | true => exact hnew.of_same rfl rfl rfl fun _ => rfl
  | false =>
      refine hnew.of_same rfl rfl ?_ fun _ => rfl
      rw [Control.enqueued_queueInLoop]
      exact List.append_nil _

/-- The socket has received the messages that have run, save for what is buffered,
and the messages of each caller have run in its call order. -/
structure OutputIntact (s : Endpoint τ υ) : Prop where
  stream : sentBytes s.log ++ s.conn.outputBuffer = s.ran.flatMap kept
  order : ∀ c, ofCaller c (s.ran.map Prod.fst) <+: ofCaller c s.control.accepted
  writing : s.conn.state ≠ .disconnected → s.conn.WritingIffBuffered

theorem output_stream_intact (inLoopThread : Bool) (l : EventLoop υ) (sockfd : Nat) (cb mcb : Bool)
    (is : List (Input τ υ)) :
    (machine τ υ).Always OutputIntact (accept inLoopThread l sockfd cb mcb) is := by
  have hruns : (machine τ υ).Always (fun s => s.Streaming [] ∧ s.Ordered)
      (accept inLoopThread l sockfd cb mcb) is := by
    apply Machine.always_of_invariant
    · intro s i t hs hstep
      exact ⟨step_streaming hs.1 hstep, step_ordered hs.2 hstep⟩
    · exact ⟨accept_streaming .., accept_ordered ..⟩
  apply hruns.mono
  intro s hs
  constructor
  · exact hs.1.stream
  · intro c
    rw [hs.2.calls c, List.append_assoc]
    exact List.prefix_append _ _
  · exact hs.1.writing

end Endpoint

end Order

end Hayai
