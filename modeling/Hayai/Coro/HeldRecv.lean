import Hayai.Coro.HeldEndpoint
import Hayai.Net.Notifications

/-! # Receiving from a connection that was handed on

The callbacks of an open connection point to the one wrapper that has it, so the bytes that
the connection reads and the coroutine's awaits meet in one place: the wrapper hands bytes to
its only consumer.
-/

namespace Hayai

/-! ## One operation -/

def Effect.isHeard : Effect → Bool
  | .connectionCallback connected => connected
  | .messageCallback _ | .badFunctionCall => true
  | _ => false

namespace Op

variable {τ : Type}

def hears : Op τ → Bool
  | .connectEstablished => true
  | .handleRead r _ => !r.data.isEmpty
  | _ => false

structure Silent (c : TcpConnection (List UInt8))
    (p : TcpConnection (List UInt8) × List Effect) : Prop where
  inputBuffer : p.1.inputBuffer = c.inputBuffer
  messageCallback : p.1.messageCallback = c.messageCallback
  effects : ∀ e ∈ p.2, e.isHeard = false

theorem silent_handleClose (c : TcpConnection (List UInt8)) : Silent c c.handleClose := by
  refine ⟨rfl, rfl, ?_⟩
  intro e he
  simp only [TcpConnection.handleClose, TcpConnection.notify, List.mem_append,
    List.mem_singleton] at he
  rcases he with (rfl | he) | rfl
  · rfl
  · split at he
    · rw [List.mem_singleton] at he
      subst he
      rfl
    · cases he
  · rfl

theorem silent_shutdownInLoop (c : TcpConnection (List UInt8)) :
    ∀ e ∈ c.shutdownInLoop, e.isHeard = false := by
  unfold TcpConnection.shutdownInLoop
  split <;> simp [Effect.isHeard]

/-- Only `connectEstablished` and a read that finds bytes call back. -/
theorem silent_run {c : TcpConnection (List UInt8)} {op : Op τ} (hfits : op.Fits c)
    (hallowed : op.Allowed c.state) (h : op.hears = false) : Silent c (op.run c) := by
  cases op with
  | sendInLoop m w =>
      apply TcpConnection.sendInLoop_cases (P := Silent c) hfits
      · exact fun _ _ => ⟨rfl, rfl, by simp [Effect.isHeard]⟩
      · exact fun _ _ _ => ⟨rfl, rfl, by simp [Effect.isHeard]⟩
      · exact fun _ _ => ⟨rfl, rfl, by simp⟩
      · intro _ _
        refine ⟨rfl, rfl, ?_⟩
        dsimp only
        split <;> simp [Effect.isHeard]
  | handleWrite w =>
      apply TcpConnection.handleWrite_cases (P := Silent c) hfits
      · exact fun _ => ⟨rfl, rfl, by simp⟩
      · exact fun _ _ => ⟨rfl, rfl, by simp [Effect.isHeard]⟩
      · exact fun _ _ _ => ⟨rfl, rfl, by simp [Effect.isHeard]⟩
      · intro _ _ _
        refine ⟨rfl, rfl, ?_⟩
        dsimp only
        split <;> simp [Effect.isHeard]
  | handleRead r retrieved =>
      have hdata : r.data = [] := by simpa [hears] using h
      have hinput : c.inputBuffer ++ r.data = c.inputBuffer := by rw [hdata, List.append_nil]
      rw [run]
      apply TcpConnection.handleRead_cases (P := Silent c)
      · intro _
        rw [hinput]
        exact silent_handleClose c
      · rintro data rfl hne inputBuffer
        exact (hne hdata).elim
      · intro e _
        exact ⟨hinput, rfl, by simp⟩
  | shutdownNow =>
      refine ⟨?_, ?_, silent_shutdownInLoop _⟩ <;>
        simp only [run, TcpConnection.shutdown] <;> split <;> rfl
  | shutdownInLoop => exact ⟨rfl, rfl, silent_shutdownInLoop c⟩
  | shutdown =>
      refine ⟨?_, ?_, by simp [run]⟩ <;>
        simp only [run, TcpConnection.shutdown] <;> split <;> rfl
  | forceClose =>
      refine ⟨?_, ?_, by simp [run]⟩ <;>
        simp only [run, TcpConnection.forceClose] <;> split <;> rfl
  | forceCloseNow =>
      have hclose := silent_handleClose c.forceClose
      refine ⟨hclose.inputBuffer.trans ?_, hclose.messageCallback.trans ?_, hclose.effects⟩ <;>
        simp only [TcpConnection.forceClose] <;> split <;> rfl
  | handleClose => exact silent_handleClose c
  | connectEstablished => cases h
  | connectDestroyed =>
      have hclosed : c.state = .disconnected := hallowed
      simp only [run, TcpConnection.connectDestroyed, hclosed, reduceCtorEq, if_false]
      refine ⟨rfl, rfl, ?_⟩
      split <;> simp [Effect.isHeard]
  | idle | setRevents revt | handleError => exact ⟨rfl, rfl, by simp [run, TcpConnection.handleError]⟩

theorem received_of_silent {effects : List Effect} (h : ∀ e ∈ effects, e.isHeard = false) :
    effects.flatMap Effect.received = [] := by
  rw [List.flatMap_eq_nil_iff]
  intro e he
  have hsilent := h e he
  cases e <;> first | rfl | cases hsilent

theorem connecting_iff {c : TcpConnection (List UInt8)} {op : Op τ} (hfits : op.Fits c)
    (hallowed : op.Allowed c.state) (h : op.hears = false) :
    (op.run c).1.state ≠ .connecting ↔ c.state ≠ .connecting := by
  have hrank := run_rank hfits
  constructor
  · intro hafter hbefore
    rw [hbefore] at hallowed
    apply hafter
    cases op with
    | idle | setRevents revt => exact hbefore
    | connectEstablished => cases h
    | connectDestroyed => cases hallowed
    | _ => exact (hallowed rfl).elim
  · intro hbefore hafter
    apply hbefore
    rw [hafter] at hrank
    revert hrank
    cases c.state <;> simp [ConnState.rank]

end Op

/-! ## Where the wrapper is -/

namespace Wrappers

variable {ω κ β : Type}

/-- The wrappers that have the connection are the one its callbacks point to. -/
def Bound (v : Wrappers ω Unit κ β) : Prop :=
  ∀ w, v.Holds w () ↔ v.messageCallback () = some w

def held (v : Wrappers ω Unit κ β) : Option (AsyncConnection Unit κ β) :=
  (v.messageCallback ()).bind v.wrapper

theorem Bound.held_eq {v : Wrappers ω Unit κ β} (h : v.Bound) {w : ω}
    (hw : v.messageCallback () = some w) :
    ∃ a, v.wrapper w = some a ∧ a.conn = some () ∧ v.held = some a := by
  obtain ⟨a, ha, hconn⟩ := (h w).2 hw
  exact ⟨a, ha, hconn, by rw [held, hw, Option.bind_some, ha]⟩

theorem held_none {v : Wrappers ω Unit κ β} (h : v.messageCallback () = none) : v.held = none := by
  rw [held, h, Option.bind_none]

variable [DecidableEq ω]

theorem held_setWrapper {v : Wrappers ω Unit κ β} {w : ω} (hw : v.messageCallback () = some w)
    (a : AsyncConnection Unit κ β) : (v.setWrapper w (some a)).held = some a := by
  simp [held, setWrapper, hw]

theorem Bound.setWrapper {v : Wrappers ω Unit κ β} (h : v.Bound) {w : ω}
    (hw : v.messageCallback () = some w) {a : AsyncConnection Unit κ β} (ha : a.conn = some ()) :
    (v.setWrapper w (some a)).Bound := by
  intro w'
  by_cases hne : w' = w
  · subst hne
    exact iff_of_true (holds_setWrapper_self.2 ha) hw
  · rw [holds_setWrapper_of_ne hne]
    exact h w'

theorem Bound.construct {v : Wrappers ω Unit κ} (h : v.Bound) (hnone : v.messageCallback () = none)
    (w : ω) : (v.construct w (some ())).Bound := by
  intro w'
  rw [Wrappers.construct, holds_bindCallbacks]
  by_cases hne : w' = w
  · subst hne
    exact iff_of_true (holds_setWrapper_self.2 rfl) (by simp [bindCallbacks])
  · rw [holds_setWrapper_of_ne hne, h w', hnone]
    simp [bindCallbacks, Ne.symm hne]

theorem messageCallback_transfer (v : Wrappers ω Unit κ β) (w other : ω)
    (a left : AsyncConnection Unit κ β) :
    (v.transfer w other a left).messageCallback () =
      if a.conn = some () then some w else v.messageCallback () := by
  unfold transfer bindCallbacks
  cases a.conn <;> simp [Wrappers.setWrapper]

theorem Bound.transfer {v : Wrappers ω Unit κ β} (h : v.Bound) {w other : ω}
    {a : AsyncConnection Unit κ β} (left : AsyncConnection Unit κ β) (hleft : left.conn = none)
    (ha : v.wrapper other = some a) (hw : ¬v.Holds w ()) : (v.transfer w other a left).Bound := by
  have hgone : left.conn ≠ some () := by
    rw [hleft]
    nofun
  intro w'
  rw [messageCallback_transfer]
  by_cases hconn : a.conn = some ()
  · have hother : v.messageCallback () = some other := (h other).1 ⟨a, ha, hconn⟩
    rw [if_pos hconn, Option.some.injEq, Wrappers.transfer, holds_bindCallbacks]
    by_cases hne : w' = w
    · subst hne
      exact iff_of_true (holds_setWrapper_self.2 hconn) rfl
    · rw [holds_setWrapper_of_ne hne]
      refine iff_of_false ?_ (Ne.symm hne)
      by_cases hne' : w' = other
      · subst hne'
        exact fun hholds => hgone (holds_setWrapper_self.1 hholds)
      · rw [holds_setWrapper_of_ne hne', h w', hother, Option.some.injEq]
        exact Ne.symm hne'
  · rw [if_neg hconn, ← h w', Wrappers.transfer, holds_bindCallbacks]
    by_cases hne : w' = w
    · subst hne
      exact iff_of_false (fun hholds => hconn (holds_setWrapper_self.1 hholds)) hw
    · rw [holds_setWrapper_of_ne hne]
      by_cases hne' : w' = other
      · subst hne'
        refine iff_of_false (fun hholds => hgone (holds_setWrapper_self.1 hholds)) ?_
        rintro ⟨b, hb, hbconn⟩
        rw [ha] at hb
        cases hb
        exact hconn hbconn
      · exact holds_setWrapper_of_ne hne'

/-- A move takes the wrapper's content along. -/
theorem Bound.held_transfer {v : Wrappers ω Unit κ β} (h : v.Bound) {w other : ω}
    {a : AsyncConnection Unit κ β} (left : AsyncConnection Unit κ β)
    (ha : v.wrapper other = some a) (hw : ¬v.Holds w ()) :
    (v.transfer w other a left).held = v.held := by
  by_cases hconn : a.conn = some ()
  · have hother : v.messageCallback () = some other := (h other).1 ⟨a, ha, hconn⟩
    have hbound : (v.transfer w other a left).messageCallback () = some w := by
      rw [messageCallback_transfer, if_pos hconn]
    have hnow : (v.transfer w other a left).wrapper w = some a := by
      unfold Wrappers.transfer bindCallbacks
      split <;> simp [Wrappers.setWrapper]
    rw [held, hbound, Option.bind_some, hnow, held, hother, Option.bind_some, ha]
  · have hsame : (v.transfer w other a left).messageCallback () = v.messageCallback () := by
      rw [messageCallback_transfer, if_neg hconn]
    rw [held, held, hsame]
    cases hcallback : v.messageCallback () with
    | none => rfl
    | some w' =>
        have hholds := (h w').2 hcallback
        have hne : w' ≠ w := by
          rintro rfl
          exact hw hholds
        have hne' : w' ≠ other := by
          rintro rfl
          obtain ⟨b, hb, hbconn⟩ := hholds
          rw [ha] at hb
          cases hb
          exact hconn hbconn
        unfold Wrappers.transfer bindCallbacks
        split <;> simp [Wrappers.setWrapper, hne, hne']

theorem messageCallback_move (v : Wrappers ω Unit κ) (w other : ω) (a : AsyncConnection Unit κ) :
    (v.move w other a).messageCallback () =
      if a.conn = some () then some w else v.messageCallback () :=
  v.messageCallback_transfer w other a a.moved

theorem Bound.move {v : Wrappers ω Unit κ} (h : v.Bound) {w other : ω}
    {a : AsyncConnection Unit κ} (ha : v.wrapper other = some a) (hw : ¬v.Holds w ()) :
    (v.move w other a).Bound :=
  h.transfer a.moved rfl ha hw

theorem Bound.held_move {v : Wrappers ω Unit κ} (h : v.Bound) {w other : ω}
    {a : AsyncConnection Unit κ} (ha : v.wrapper other = some a) (hw : ¬v.Holds w ()) :
    (v.move w other a).held = v.held :=
  h.held_transfer a.moved ha hw

theorem Bound.destroy {v : Wrappers ω Unit κ} (h : v.Bound) {w : ω} (hw : ¬v.Holds w ()) :
    (v.setWrapper w none).Bound ∧ (v.setWrapper w none).held = v.held := by
  constructor
  · intro w'
    by_cases hne : w' = w
    · subst hne
      exact iff_of_false not_holds_setWrapper_none fun hcallback => hw ((h w').2 hcallback)
    · rw [holds_setWrapper_of_ne hne]
      exact h w'
  · unfold held
    cases hcallback : v.messageCallback () with
    | none => simp [Wrappers.setWrapper, hcallback]
    | some w' =>
        have hne : w' ≠ w := by
          rintro rfl
          exact hw ((h w').2 hcallback)
        simp [Wrappers.setWrapper, hcallback, hne]

end Wrappers

/-! ## As a store of bytes -/

namespace HeldEndpoint

variable {ω τ υ : Type}

def handoff (s : HeldEndpoint ω τ υ) : Handoff UInt8 Unit where
  items := s.wrappers.held.elim [] AsyncConnection.receivedData
  waiter := s.wrappers.held.bind AsyncConnection.recvCoroutine
  resumes := s.endpoint.control.resumes
  phase := fun _ => s.phase
  suspensions := fun _ => s.suspensions
  promised := []
  delivered := s.endpoint.log.flatMap Effect.received
  taken := s.results.map fun data => ((), data)
  resumed := s.resumed
  misresumed := s.misresumed

def Shows (s t : HeldEndpoint ω τ υ) : Prop :=
  t.handoff = s.handoff ∨ ∃ j u, s.handoff.step .all j = some u ∧ t.handoff = u.forget

theorem handle?_of_isCall {f : Functor τ (Wake Unit υ)} (h : f.isCall = true) :
    f.handle? = none := by
  cases f <;> first | rfl | cases h

@[simp] theorem resumes_queueInLoop (b : Control τ (Wake Unit υ)) (inLoopThread : Bool)
    (f : Functor τ (Wake Unit υ)) :
    (b.queueInLoop inLoopThread f).resumes = b.resumes ++ f.handle?.toList := by
  rw [Control.resumes, Control.queued_queueInLoop, List.filterMap_append]
  cases h : f.handle? <;> simp [Control.resumes, h]

variable [DecidableEq τ]

/-- A step of the connection takes the resume it runs from the queue, and adds none. -/
theorem resumes_moves {s : HeldEndpoint ω τ υ} {i : Input τ υ} {b : Control τ (Wake Unit υ)}
    {op : Op τ} (hlife : s.endpoint.Lifecycle) (hmoves : s.endpoint.Moves (s.lift i) b op) :
    s.endpoint.control.resumes = (s.resumes? i).toList ++ b.resumes ∧
      (op.hears = true → s.resumes? i = none) := by
  cases i with
  | functor w =>
      cases hmoves with
      | @functor w f functors hf hcalling =>
          have hhead : s.resumes? (.functor w) = f.handle? := by
            simp [resumes?, hf]
          rw [hhead]
          constructor
          · rw [Control.resumes, EventLoop.queued_of_functors hf, List.filterMap_cons]
            cases h : f.handle? <;> rfl
          · intro hhears
            cases f <;> first | rfl | cases hhears
  | enqueue t =>
      cases hmoves with
      | enqueue hf =>
          have hnone := handle?_of_isCall (hlife.calls _ _ hf).1
          refine ⟨?_, nofun⟩
          rw [resumes_queueInLoop, hnone]
          exact (List.append_nil _).symm
  | queueUser inLoopThread x =>
      cases hmoves with
      | queueUser =>
          refine ⟨?_, nofun⟩
          rw [resumes_queueInLoop]
          exact (List.append_nil _).symm
  | doPendingFunctors =>
      cases hmoves with
      | doPendingFunctors hhandling htodo hfunctors =>
          have hqueued := EventLoop.queued_beginPendingFunctors
            (l := { s.endpoint.control.loop with eventHandling := false }) hfunctors
          refine ⟨?_, nofun⟩
          show _ = List.filterMap _ (EventLoop.queued _)
          rw [hqueued]
          rfl
  | removeConnectionInLoop inLoopThread =>
      cases hmoves with
      | remove =>
          refine ⟨?_, nofun⟩
          rw [resumes_queueInLoop]
          exact (List.append_nil _).symm
      | removeAgain => exact ⟨rfl, nofun⟩
  | call caller c w => cases hmoves <;> exact ⟨rfl, fun _ => rfl⟩
  | poll events => cases hmoves with | poll => exact ⟨rfl, nofun⟩
  | callback r retrieved w => cases hmoves with | callback => exact ⟨rfl, fun _ => rfl⟩
  | endPendingFunctors => cases hmoves with | endPendingFunctors => exact ⟨rfl, nofun⟩

theorem retrieved_moves {s : HeldEndpoint ω τ υ} {i : Input τ υ} {b : Control τ (Wake Unit υ)}
    {r : ReadResult} {n : Nat} (hmoves : s.endpoint.Moves (s.lift i) b (.handleRead r n)) :
    n = (s.endpoint.conn.inputBuffer ++ r.data).length := by
  generalize hop : (.handleRead r n : Op τ) = op at hmoves
  cases i with
  | callback r' retrieved w =>
      cases hmoves with
      | @callback _ _ _ kind =>
          cases kind <;> cases hop
          rfl
  | functor w =>
      cases hmoves with
      | @functor _ f => cases f <;> cases hop
  | _ => cases hmoves <;> cases hop

/-! ## Members of the wrapper -/

section Members

variable [DecidableEq ω]

omit [DecidableEq τ] [DecidableEq ω] in
/-- What one member does to the wrapper that the callbacks point to. -/
theorem handoff_of_held {s : HeldEndpoint ω τ υ} {a : AsyncConnection Unit (Unit × Nat)}
    (ha : s.wrappers.held = some a) :
    s.handoff.items = a.receivedData ∧ s.handoff.waiter = a.recvCoroutine := by
  simp [handoff, ha]

theorem update_unit {α : Type} (x y : α) : Function.update (fun _ : Unit => x) () y = fun _ => y := by
  funext u
  exact Function.update_self _ _ _

omit [DecidableEq τ] [DecidableEq ω] in
theorem handoff_queueResume (s : HeldEndpoint ω τ υ) (inLoopThread : Bool)
    (h : Option (Unit × Nat)) : (s.queueResume inLoopThread h).handoff =
      { s.handoff with resumes := s.handoff.resumes ++ h.toList } := by
  cases h with
  | none => simp [queueResume, handoff]
  | some h =>
      have hresumes := resumes_queueInLoop s.endpoint.control inLoopThread (.user (.resume h))
      simp only [queueResume, handoff, hresumes]
      rfl

omit [DecidableEq τ] [DecidableEq ω] in
theorem handoff_recvReady {s : HeldEndpoint ω τ υ} {w : ω}
    {a : AsyncConnection Unit (Unit × Nat)} (ha : s.wrappers.wrapper w = some a)
    (hheld : s.wrappers.held = some a) :
    (s.recvReady w).handoff = (s.handoff.check ()).forget := by
  have hitems := (handoff_of_held hheld).1
  unfold recvReady Handoff.check
  rw [ha, hitems]
  dsimp only
  cases hdata : a.receivedData <;>
    simp [handoff, hheld, hdata, AsyncConnection.recvReady, Handoff.setPhase, Handoff.forget,
      update_unit]

omit [DecidableEq τ] in
theorem handoff_member {s : HeldEndpoint ω τ υ} {w : ω} {a : AsyncConnection Unit (Unit × Nat)}
    (hw : s.wrappers.messageCallback () = some w) (ha : s.wrappers.wrapper w = some a)
    (inLoopThread : Bool)
    (f : AsyncConnection Unit (Unit × Nat) →
      AsyncConnection Unit (Unit × Nat) × Option (Unit × Nat)) :
    (s.member w inLoopThread f).handoff =
      { s.handoff with
        items := (f a).1.receivedData
        waiter := (f a).1.recvCoroutine
        resumes := s.handoff.resumes ++ (f a).2.toList } := by
  have hheld := Wrappers.held_setWrapper hw (f a).1
  simp only [member, ha, handoff_queueResume]
  simp only [handoff, hheld]
  rfl

omit [DecidableEq τ] in
theorem recvSuspend_eq {s : HeldEndpoint ω τ υ} {w : ω} (hself : s.self = some w)
    (inLoopThread : Bool) : s.recvSuspend inLoopThread = HeldEndpoint.member { s with
      phase := .suspended, suspensions := s.suspensions + 1 } w inLoopThread
      (·.recvSuspend ((), s.suspensions)) := by
  unfold recvSuspend
  split
  · next hnone =>
      rw [hself] at hnone
      cases hnone
  · next w' hself' =>
      rw [hself] at hself'
      cases hself'
      rfl

omit [DecidableEq τ] in
theorem handoff_recvSuspend {s : HeldEndpoint ω τ υ} {w : ω}
    {a : AsyncConnection Unit (Unit × Nat)} (hself : s.self = some w)
    (hw : s.wrappers.messageCallback () = some w) (ha : s.wrappers.wrapper w = some a)
    (hheld : s.wrappers.held = some a) (inLoopThread : Bool) :
    (s.recvSuspend inLoopThread).handoff = (s.handoff.suspend ()).forget := by
  have hmember := handoff_member (s := { s with
    phase := .suspended, suspensions := s.suspensions + 1 }) hw ha inLoopThread
    (·.recvSuspend ((), s.suspensions))
  have hitems := (handoff_of_held hheld).1
  rw [recvSuspend_eq hself, hmember]
  unfold Handoff.suspend
  rw [hitems]
  dsimp only
  cases hdata : a.receivedData with
  | nil =>
      simp [handoff, hheld, hdata, AsyncConnection.recvSuspend, Handoff.setPhase, Handoff.forget,
        update_unit]
  | cons x data =>
      simp [handoff, hdata, hheld, AsyncConnection.recvSuspend, Handoff.setPhase, Handoff.forget,
        Handoff.tell, update_unit]

omit [DecidableEq τ] in
theorem handoff_recvResume {s : HeldEndpoint ω τ υ} {w : ω}
    {a : AsyncConnection Unit (Unit × Nat)} (hself : s.self = some w)
    (hw : s.wrappers.messageCallback () = some w) (ha : s.wrappers.wrapper w = some a)
    (hheld : s.wrappers.held = some a) :
    s.recvResume.handoff = (s.handoff.take .all ()).forget := by
  unfold recvResume Handoff.take
  simp only [hself, ha]
  simp [handoff, hheld, Wrappers.held_setWrapper hw, AsyncConnection.recvResume, Handoff.setPhase,
    Handoff.forget, Take.all, update_unit]

omit [DecidableEq τ] in
theorem handoff_onMessage {s : HeldEndpoint ω τ υ} {w : ω}
    {a : AsyncConnection Unit (Unit × Nat)} (hw : s.wrappers.messageCallback () = some w)
    (ha : s.wrappers.wrapper w = some a) (hheld : s.wrappers.held = some a)
    {data before : List UInt8} (hdelivered : s.handoff.delivered = before ++ data) :
    (s.onMessage data).handoff =
      (({ s.handoff with delivered := before } : Handoff UInt8 Unit).deliver data).forget := by
  have hmember := handoff_member hw ha true (·.onMessage data)
  obtain ⟨hitems, hwaiter⟩ := handoff_of_held hheld
  unfold onMessage Handoff.deliver
  rw [hw, hitems, hwaiter]
  dsimp only
  rw [hmember]
  cases hcoroutine : a.recvCoroutine <;>
    simp [AsyncConnection.onMessage, hcoroutine, Handoff.forget, Handoff.tell, hdelivered] <;> rfl

end Members

/-! ## Steps -/

/-- The callbacks are bound once the connection is established, and point to the wrapper that
the coroutine awaits on. -/
structure Placed (s : HeldEndpoint ω τ υ) : Prop where
  lifecycle : s.endpoint.Lifecycle
  notifies : s.endpoint.conn.connectionCallback = true
  input : s.endpoint.conn.inputBuffer = []
  callback : s.endpoint.conn.messageCallback = (s.wrappers.messageCallback ()).isSome
  established : (s.wrappers.messageCallback ()).isSome = true ↔
    s.endpoint.conn.state ≠ .connecting
  bound : s.wrappers.Bound
  self : s.phase ≠ .away → ∃ w, s.self = some w ∧ s.wrappers.messageCallback () = some w
  called : .badFunctionCall ∉ s.endpoint.log
  delivered : s.wrappers.misdelivered = false

namespace Placed

variable {s t : HeldEndpoint ω τ υ}

omit [DecidableEq τ] in
theorem of_eq (h : s.Placed) (hendpoint : t.endpoint = s.endpoint)
    (hwrappers : t.wrappers = s.wrappers)
    (hself : t.phase ≠ .away → ∃ w, t.self = some w ∧ s.wrappers.messageCallback () = some w) :
    t.Placed := by
  constructor
  all_goals simp only [hendpoint, hwrappers]
  · exact h.lifecycle
  · exact h.notifies
  · exact h.input
  · exact h.callback
  · exact h.established
  · exact h.bound
  · exact hself
  · exact h.called
  · exact h.delivered

omit [DecidableEq τ] in
theorem of_wrappers (h : s.Placed) {v : Wrappers ω Unit (Unit × Nat)} (hbound : v.Bound)
    (hsome : (v.messageCallback ()).isSome = (s.wrappers.messageCallback ()).isSome)
    (hself : ∀ w, s.self = some w → s.wrappers.messageCallback () = some w →
      v.messageCallback () = some w) (hdelivered : v.misdelivered = false) :
    ({ s with wrappers := v } : HeldEndpoint ω τ υ).Placed where
  lifecycle := h.lifecycle
  notifies := h.notifies
  input := h.input
  callback := h.callback.trans hsome.symm
  established := by
    rw [hsome]
    exact h.established
  bound := hbound
  self hphase := by
    obtain ⟨w, hw, hcallback⟩ := h.self hphase
    exact ⟨w, hw, hself w hw hcallback⟩
  called := h.called
  delivered := hdelivered

theorem queueResume (h : s.Placed) (inLoopThread : Bool) (r : Option (Unit × Nat)) :
    (s.queueResume inLoopThread r).Placed := by
  cases r with
  | none => exact h
  | some w =>
      have hmoves : Endpoint.Moves s.endpoint (.queueUser inLoopThread (.resume w)) _ _ :=
        .queueUser
      have hqueued := hmoves.lifecycle h.lifecycle trivial
      refine ⟨⟨hqueued.allowed, hqueued.once, hqueued.calls, ?_, h.lifecycle.closed⟩, h.notifies,
        h.input, h.callback, h.established, h.bound, h.self, h.called, h.delivered⟩
      exact h.lifecycle.connecting

variable [DecidableEq ω]

omit [DecidableEq τ] in
theorem setWrapper (h : s.Placed) {w : ω} (hw : s.wrappers.messageCallback () = some w)
    {a : AsyncConnection Unit (Unit × Nat)} (ha : a.conn = some ()) :
    ({ s with wrappers := s.wrappers.setWrapper w (some a) } : HeldEndpoint ω τ υ).Placed :=
  h.of_wrappers (h.bound.setWrapper hw ha) rfl (fun _ _ hcallback => hcallback) h.delivered

theorem member (h : s.Placed) {w : ω} (hw : s.wrappers.messageCallback () = some w)
    (inLoopThread : Bool)
    {f : AsyncConnection Unit (Unit × Nat) →
      AsyncConnection Unit (Unit × Nat) × Option (Unit × Nat)}
    (hf : ∀ a, (f a).1.conn = a.conn) : (s.member w inLoopThread f).Placed := by
  obtain ⟨a, ha, hconn, -⟩ := h.bound.held_eq hw
  simp only [HeldEndpoint.member, ha]
  exact (h.setWrapper hw ((hf a).trans hconn)).queueResume inLoopThread _

omit [DecidableEq τ] in
theorem recvResume (h : s.Placed) (hphase : s.phase ≠ .away) : s.recvResume.Placed := by
  obtain ⟨w, hself, hw⟩ := h.self hphase
  obtain ⟨a, ha, hconn, -⟩ := h.bound.held_eq hw
  simp only [HeldEndpoint.recvResume, hself, ha]
  have hset := h.setWrapper hw (a := a.recvResume.1) hconn
  exact hset.of_eq rfl rfl fun hne => (hne rfl).elim

omit [DecidableEq τ] in
theorem own (h : s.Placed) {i : WrapperInput ω Unit} (howns : s.Owns i)
    {v : Wrappers ω Unit (Unit × Nat)} (hstep : s.wrappers.step i = some v) :
    ({ s with wrappers := v } : HeldEndpoint ω τ υ).Placed ∧ v.held = s.wrappers.held := by
  have hmove : ∀ {w other : ω} {a : AsyncConnection Unit (Unit × Nat)},
      s.wrappers.wrapper other = some a → s.self ≠ some other → ¬s.wrappers.Holds w () →
      ({ s with wrappers := s.wrappers.move w other a } : HeldEndpoint ω τ υ).Placed ∧
        (s.wrappers.move w other a).held = s.wrappers.held := by
    intro w other a ha hself hw
    refine ⟨h.of_wrappers (h.bound.move ha hw) ?_ ?_ ?_, h.bound.held_move ha hw⟩
    · rw [Wrappers.messageCallback_move]
      split
      · next hconn => rw [(h.bound other).1 ⟨a, ha, hconn⟩]; rfl
      · rfl
    · intro w' hw' hcallback
      rw [Wrappers.messageCallback_move, if_neg]
      · exact hcallback
      · intro hconn
        rw [(h.bound other).1 ⟨a, ha, hconn⟩] at hcallback
        cases hcallback
        exact hself hw'
    · rw [Wrappers.move, Wrappers.misdelivered_bindCallbacks]
      exact h.delivered
  cases i with
  | moveConstruct w other =>
      simp only [Wrappers.step] at hstep
      split at hstep
      · next a ha =>
          rcases Option.ite_none_right_eq_some.1 hstep with ⟨hw, ⟨⟩⟩
          exact hmove ha howns (Wrappers.not_holds_of_dead hw ())
      · cases hstep
  | moveAssign w other =>
      simp only [Wrappers.step] at hstep
      split at hstep
      · next a ha =>
          rcases Option.ite_none_right_eq_some.1 hstep with ⟨-, hstep⟩
          split at hstep
          · cases hstep
            exact ⟨h, rfl⟩
          · next hne =>
              cases hstep
              exact hmove ha howns.1 (howns.2.resolve_left hne)
      · cases hstep
  | destroy w =>
      rcases Option.ite_none_right_eq_some.1 hstep with ⟨-, ⟨⟩⟩
      obtain ⟨hbound, hheld⟩ := h.bound.destroy howns
      exact ⟨h.of_wrappers hbound rfl (fun _ _ hcallback => hcallback) h.delivered, hheld⟩
  | _ => exact howns.elim

omit [DecidableEq ω] in
theorem silent (h : s.Placed) {i : Input τ (Wake Unit υ)} {b : Control τ (Wake Unit υ)} {op : Op τ}
    (hmoves : s.endpoint.Moves i b op) (hfits : op.Fits s.endpoint.conn)
    (hhears : op.hears = false) :
    ({ s with endpoint := s.endpoint.perform b op } : HeldEndpoint ω τ υ).Placed := by
  have hallowed := hmoves.allowed h.lifecycle
  have hsilent := Op.silent_run hfits hallowed hhears
  refine ⟨hmoves.lifecycle h.lifecycle hfits, ?_, hsilent.inputBuffer.trans h.input,
    hsilent.messageCallback.trans h.callback, ?_, h.bound, h.self, ?_, h.delivered⟩
  · exact (Op.run_connectionCallback hfits).trans h.notifies
  · exact h.established.trans (Op.connecting_iff hfits hallowed hhears).symm
  · intro hmem
    rcases List.mem_append.1 hmem with hbefore | hnow
    · exact h.called hbefore
    · cases hsilent.effects _ hnow

end Placed

omit [DecidableEq τ] in
theorem reactAll_silent [DecidableEq ω] {s : HeldEndpoint ω τ υ} {w : ω} {input : List UInt8}
    {effects : List Effect} (h : ∀ e ∈ effects, e.isHeard = false) :
    s.reactAll w input effects = s := by
  induction effects with
  | nil => rfl
  | cons e effects ih =>
      have he := h e List.mem_cons_self
      have hreact : s.react w input e = s := by
        cases e with
        | connectionCallback connected =>
            cases connected
            · rfl
            · cases he
        | messageCallback data => cases he
        | _ => rfl
      show (s.react w input e).reactAll w input effects = s
      rw [hreact]
      exact ih fun e he => h e (List.mem_cons_of_mem _ he)

variable [DecidableEq ω]

omit [DecidableEq τ] in
/-- The functor of a resume, taken from the queue before it runs. -/
theorem handoff_resume {s : HeldEndpoint ω τ υ} {e : Endpoint τ (Wake Unit υ)} {h : Unit × Nat}
    (hplaced : s.Placed)
    (hresumes : s.endpoint.control.resumes = h :: e.control.resumes)
    (hlog : e.log.flatMap Effect.received = s.endpoint.log.flatMap Effect.received) :
    ({ s with endpoint := e }.resume (some h)).handoff = (s.handoff.resume .all h).forget := by
  have herase : s.handoff.resumes.erase h = e.control.resumes := by
    rw [handoff, hresumes, List.erase_cons_head]
  have hbefore : ({ s with endpoint := e, resumed := s.resumed ++ [h] } :
      HeldEndpoint ω τ υ).handoff = { s.handoff with
        resumes := s.handoff.resumes.erase h
        resumed := s.handoff.resumed ++ [h] } := by
    rw [herase]
    simp [handoff, hlog]
  unfold resume Handoff.resume
  dsimp only
  rw [← hbefore]
  by_cases hcurrent : s.phase = .suspended ∧ s.suspensions = h.2 + 1
  · rw [if_pos hcurrent, if_pos (show s.handoff.phase h.1 = .suspended ∧
      s.handoff.suspensions h.1 = h.2 + 1 from hcurrent)]
    obtain ⟨w, hself, hw⟩ := hplaced.self (by rw [hcurrent.1]; nofun)
    obtain ⟨a, ha, -, hheld⟩ := hplaced.bound.held_eq hw
    exact handoff_recvResume (s := { s with endpoint := e, resumed := s.resumed ++ [h] })
      hself hw ha hheld
  · rw [if_neg hcurrent, if_neg (show ¬(s.handoff.phase h.1 = .suspended ∧
      s.handoff.suspensions h.1 = h.2 + 1) from hcurrent)]
    simp [handoff, hlog, Handoff.forget, hresumes]

omit [DecidableEq τ] in
theorem Placed.resume {s : HeldEndpoint ω τ υ} (h : s.Placed) (r : Option (Unit × Nat)) :
    (s.resume r).Placed := by
  cases r with
  | none => exact h
  | some r =>
      have hnoted : ({ s with resumed := s.resumed ++ [r] } : HeldEndpoint ω τ υ).Placed :=
        h.of_eq rfl rfl h.self
      unfold HeldEndpoint.resume
      dsimp only
      split
      · next hcurrent =>
          apply hnoted.recvResume
          rw [hcurrent.1]
          nofun
      · exact h.of_eq rfl rfl h.self

omit [DecidableEq τ] in
theorem Placed.connectEstablished {s : HeldEndpoint ω τ υ} (h : s.Placed)
    (hstate : s.endpoint.conn.state = .connecting) {b : Control τ (Wake Unit υ)}
    (hlife : (s.endpoint.perform b .connectEstablished).Lifecycle)
    (hresumes : b.resumes = s.endpoint.control.resumes) (w : ω) {t : HeldEndpoint ω τ υ}
    (ht : t = ({ s with endpoint := s.endpoint.perform b .connectEstablished } :
      HeldEndpoint ω τ υ).reactAll w s.endpoint.conn.inputBuffer
        s.endpoint.conn.connectEstablished.2) :
    t.Placed ∧ t.handoff = s.handoff := by
  have hnone : s.wrappers.messageCallback () = none := by
    cases hcallback : s.wrappers.messageCallback () with
    | none => rfl
    | some w =>
        have hsome := h.established.1 (by rw [hcallback]; rfl)
        exact (hsome hstate).elim
  have heffects : s.endpoint.conn.connectEstablished.2 =
      [.updateChannel, .connectionCallback true] := by
    simp [TcpConnection.connectEstablished, hstate, TcpConnection.notify, h.notifies,
      TcpConnection.connected]
  have hconn : s.endpoint.conn.connectEstablished.1 = { s.endpoint.conn with
      state := .connected, channel := s.endpoint.conn.channel.tie.enableReading } := by
    simp [TcpConnection.connectEstablished, hstate]
  have hbound := h.bound.construct hnone w
  have hcallback : (s.wrappers.construct w (some ())).messageCallback () = some w := by
    simp [Wrappers.construct, Wrappers.bindCallbacks]
  rw [heffects] at ht
  subst ht
  constructor
  · refine ⟨⟨hlife.allowed, hlife.once, hlife.calls, hlife.connecting, hlife.closed⟩,
      ?_, ?_, ?_, ?_, hbound, ?_, ?_, ?_⟩
    · show s.endpoint.conn.connectEstablished.1.connectionCallback = true
      rw [hconn]
      exact h.notifies
    · show s.endpoint.conn.connectEstablished.1.inputBuffer = []
      rw [hconn]
      exact h.input
    · exact (congrArg Option.isSome hcallback).symm
    · refine iff_of_true (congrArg Option.isSome hcallback) ?_
      show s.endpoint.conn.connectEstablished.1.state ≠ .connecting
      simp [hconn]
    · intro hphase
      obtain ⟨w', -, hw'⟩ := h.self hphase
      rw [hnone] at hw'
      cases hw'
    · show Effect.badFunctionCall ∉ s.endpoint.log ++ s.endpoint.conn.connectEstablished.2
      rw [heffects]
      simpa using h.called
    · exact (Wrappers.misdelivered_bindCallbacks _ w _).trans h.delivered
  · have hheld : (s.wrappers.construct w (some ())).held = some (.new (some ())) := by
      obtain ⟨a, ha, -, hheld⟩ := hbound.held_eq hcallback
      have hnew : (s.wrappers.construct w (some ())).wrapper w = some (.new (some ())) := by
        simp [Wrappers.construct, Wrappers.bindCallbacks, Wrappers.setWrapper]
      rw [hheld, ← ha, hnew]
    have hbefore := Wrappers.held_none hnone
    have hlog : (s.endpoint.perform b .connectEstablished).log.flatMap Effect.received =
        s.endpoint.log.flatMap Effect.received := by
      rw [Endpoint.perform_log, Op.run, heffects]
      simp [Effect.received]
    show ({ s with
        wrappers := s.wrappers.construct w (some ())
        endpoint := { s.endpoint.perform b .connectEstablished with
          conn := { (s.endpoint.perform b .connectEstablished).conn with
            messageCallback := true, writeCompleteCallback := true } } } :
        HeldEndpoint ω τ υ).handoff = _
    simp only [handoff, hheld, hbefore, hlog, Endpoint.perform_control, hresumes]
    rfl

omit [DecidableEq ω] [DecidableEq τ] in
theorem run_handleRead {c : TcpConnection (List UInt8)} {r : ReadResult} {n : Nat}
    (hinput : c.inputBuffer = []) (hmessage : c.messageCallback = true) (hdata : r.data ≠ [])
    (hn : n = r.data.length) :
    (Op.handleRead r n : Op τ).run c = (c, [.messageCallback r.data]) := by
  cases r with
  | failed e => exact (hdata rfl).elim
  | bytes data =>
      cases data with
      | nil => exact (hdata rfl).elim
      | cons x data =>
          have hempty : { c with inputBuffer := [] } = c := by
            rw [← hinput]
          simpa [Op.run, TcpConnection.handleRead, hmessage, hinput, hn, ReadResult.data] using
            hempty

/-- A read that finds bytes hands them to the wrapper. -/
theorem Placed.handleRead {s : HeldEndpoint ω τ υ} (h : s.Placed) {b : Control τ (Wake Unit υ)}
    {r : ReadResult} {n : Nat} (hstate : s.endpoint.conn.state ≠ .connecting)
    (hdata : r.data ≠ []) (hn : n = (s.endpoint.conn.inputBuffer ++ r.data).length)
    (hlife : (s.endpoint.perform b (.handleRead r n)).Lifecycle)
    (hresumes : b.resumes = s.endpoint.control.resumes) (w : ω) {t : HeldEndpoint ω τ υ}
    (ht : t = ({ s with endpoint := s.endpoint.perform b (.handleRead r n) } :
      HeldEndpoint ω τ υ).reactAll w s.endpoint.conn.inputBuffer
        ((Op.handleRead r n : Op τ).run s.endpoint.conn).2) :
    t.Placed ∧ t.handoff = (s.handoff.deliver r.data).forget := by
  obtain ⟨w', hw'⟩ := Option.isSome_iff_exists.1 (h.established.2 hstate)
  obtain ⟨a, ha, hconn, hheld⟩ := h.bound.held_eq hw'
  have hmessage : s.endpoint.conn.messageCallback = true := by
    rw [h.callback, hw']
    rfl
  have hinput : s.endpoint.conn.inputBuffer = [] := h.input
  rw [hinput, List.nil_append] at hn
  have hrun := run_handleRead (τ := τ) hinput hmessage hdata hn
  rw [hrun] at ht
  have hperform : s.endpoint.perform b (.handleRead r n) =
      { s.endpoint with control := b, log := s.endpoint.log ++ [.messageCallback r.data] } := by
    simp only [Endpoint.perform, hrun]
    simp [Op.record]
  rw [hperform] at ht hlife
  let e : Endpoint τ (Wake Unit υ) :=
    { s.endpoint with control := b, log := s.endpoint.log ++ [.messageCallback r.data] }
  let u : HeldEndpoint ω τ υ := { s with endpoint := e }
  have hu : u.Placed := by
    refine ⟨hlife, h.notifies, h.input, h.callback, h.established, h.bound, h.self, ?_, h.delivered⟩
    simpa [u, e] using h.called
  have htu : t = u.onMessage r.data := by
    rw [ht, h.input]
    rfl
  subst htu
  constructor
  · simp only [onMessage, show u.wrappers.messageCallback () = some w' from hw']
    exact hu.member hw' true fun _ => rfl
  · have hdelivered : u.handoff.delivered = s.handoff.delivered ++ r.data := by
      simp [u, e, handoff, Effect.received]
    rw [handoff_onMessage (s := u) hw' ha hheld hdelivered]
    have hbefore : ({ u.handoff with delivered := s.handoff.delivered } : Handoff UInt8 Unit) =
        s.handoff := by
      simp [u, e, handoff, hresumes]
    rw [hbefore]

theorem advance_spec {s t : HeldEndpoint ω τ υ} {w : ω} {i : Input τ (Wake Unit υ)}
    (h : s.advance w i = some t) :
    ∃ b op, s.endpoint.Moves i b op ∧ op.Fits s.endpoint.conn ∧
      t = ({ s with endpoint := s.endpoint.perform b op } : HeldEndpoint ω τ υ).reactAll w
        s.endpoint.conn.inputBuffer (op.run s.endpoint.conn).2 := by
  rcases Option.map_eq_some_iff.1 h with ⟨e, he, rfl⟩
  obtain ⟨b, op, hmoves, hfits, rfl⟩ := Endpoint.step_spec he
  refine ⟨b, op, hmoves, hfits, ?_⟩
  rw [Endpoint.perform_log, List.drop_left]

/-- The connection's own steps. -/
theorem run_shows {s t : HeldEndpoint ω τ υ} {w : ω} {i : Input τ υ} (h : s.Placed)
    (hstep : s.step (.run w i) = some t) : t.Placed ∧ s.Shows t := by
  rcases Option.map_eq_some_iff.1 hstep with ⟨u, hu, rfl⟩
  obtain ⟨b, op, hmoves, hfits, hreact⟩ := advance_spec hu
  obtain ⟨hresumes, hquiet⟩ := resumes_moves h.lifecycle hmoves
  have hallowed := hmoves.allowed h.lifecycle
  have hlife := hmoves.lifecycle h.lifecycle hfits
  cases hhears : op.hears with
  | false =>
      have hsilent := Op.silent_run hfits hallowed hhears
      have hplaced := h.silent hmoves hfits hhears
      rw [reactAll_silent hsilent.effects] at hreact
      subst hreact
      refine ⟨hplaced.resume _, ?_⟩
      have hlog : (s.endpoint.perform b op).log.flatMap Effect.received =
          s.endpoint.log.flatMap Effect.received := by
        rw [Endpoint.perform_log, List.flatMap_append, Op.received_of_silent hsilent.effects,
          List.append_nil]
      cases hwoken : s.resumes? i with
      | none =>
          rw [hwoken] at hresumes
          have hsame : s.endpoint.control.resumes = b.resumes := hresumes
          left
          simp only [resume, handoff, hlog, Endpoint.perform_control, hsame]
      | some r =>
          rw [hwoken] at hresumes
          right
          have hmem : r ∈ s.handoff.resumes := by
            rw [handoff, hresumes]
            exact List.mem_cons_self
          exact ⟨.resume r, _, if_pos hmem, handoff_resume h hresumes hlog⟩
  | true =>
      have hnone := hquiet hhears
      rw [hnone] at hresumes ⊢
      have hsame : b.resumes = s.endpoint.control.resumes := hresumes.symm
      cases op with
      | connectEstablished =>
          have hnext := h.connectEstablished hallowed hlife hsame w hreact
          exact ⟨hnext.1, .inl hnext.2⟩
      | handleRead r n =>
          have hdata : r.data ≠ [] := by simpa [Op.hears] using hhears
          have hnext := h.handleRead hallowed hdata (retrieved_moves hmoves) hlife hsame w hreact
          refine ⟨hnext.1, .inr ⟨.deliver r.data, _, if_neg ?_, hnext.2⟩⟩
          simpa using hdata
      | _ => cases hhears

/-- Everything that happens shows in the store, or leaves it as it is. -/
theorem step_shows {s t : HeldEndpoint ω τ υ} {i : HeldInput ω τ υ} (h : s.Placed)
    (hstep : s.step i = some t) : t.Placed ∧ s.Shows t := by
  cases i with
  | run w i => exact run_shows h hstep
  | own i =>
      rcases Option.ite_none_right_eq_some.1 hstep with ⟨howns, hstep⟩
      rcases Option.map_eq_some_iff.1 hstep with ⟨v, hv, rfl⟩
      obtain ⟨hplaced, hheld⟩ := h.own howns hv
      refine ⟨hplaced, .inl ?_⟩
      simp [handoff, hheld]
  | recvReady w =>
      rcases Option.ite_none_right_eq_some.1 hstep with ⟨⟨hphase, hholds⟩, ⟨⟩⟩
      have hw := (h.bound w).1 hholds
      obtain ⟨a, ha, -, hheld⟩ := h.bound.held_eq hw
      constructor
      · simp only [HeldEndpoint.recvReady, ha]
        exact h.of_eq rfl rfl fun _ => ⟨w, rfl, hw⟩
      · exact .inr ⟨.check (), _, if_pos hphase, handoff_recvReady ha hheld⟩
  | recvSuspend inLoopThread =>
      rcases Option.ite_none_right_eq_some.1 hstep with ⟨hphase, ⟨⟩⟩
      obtain ⟨w, hself, hw⟩ := h.self (by rw [hphase]; nofun)
      obtain ⟨a, ha, -, hheld⟩ := h.bound.held_eq hw
      constructor
      · have hasleep : ({ s with phase := .suspended, suspensions := s.suspensions + 1 } :
            HeldEndpoint ω τ υ).Placed := h.of_eq rfl rfl fun _ => ⟨w, hself, hw⟩
        rw [recvSuspend_eq hself]
        refine hasleep.member hw inLoopThread ?_
        intro a
        unfold AsyncConnection.recvSuspend
        split <;> rfl
      · exact .inr ⟨.suspend (), _, if_pos hphase, handoff_recvSuspend hself hw ha hheld _⟩
  | recvReturn =>
      rcases Option.ite_none_right_eq_some.1 hstep with ⟨hphase, ⟨⟩⟩
      have hphase' : s.phase ≠ .away := by
        rw [hphase]
        nofun
      obtain ⟨w, hself, hw⟩ := h.self hphase'
      obtain ⟨a, ha, -, hheld⟩ := h.bound.held_eq hw
      exact ⟨h.recvResume hphase', .inr ⟨.take (), _, if_pos hphase,
        handoff_recvResume hself hw ha hheld⟩⟩

/-! ## Runs -/

def delivered (s : HeldEndpoint ω τ υ) : List UInt8 := s.endpoint.log.flatMap Effect.received

def handles (s : HeldEndpoint ω τ υ) : List (Unit × Nat) :=
  s.resumed ++ s.endpoint.control.resumes ++
    (s.wrappers.held.bind AsyncConnection.recvCoroutine).toList

/-- What the coroutine can rely on. An established connection has one wrapper, and its
callbacks point there. -/
structure DeliversOnce (s : HeldEndpoint ω τ υ) : Prop where
  called : .badFunctionCall ∉ s.endpoint.log
  delivered : s.wrappers.misdelivered = false
  bound : s.wrappers.Bound
  established : s.endpoint.conn.state ≠ .connecting → ∃ w, s.wrappers.Holds w ()
  order : ∀ w a, s.wrappers.wrapper w = some a → a.conn = some () →
    s.results.flatten ++ a.receivedData = s.delivered
  nonempty : ∀ data ∈ s.results, data ≠ []
  once : ∀ n, s.handles.count ((), n) = if n < s.suspensions then 1 else 0
  ended : ∀ n < s.suspensions, ¬(s.phase = .suspended ∧ s.suspensions = n + 1) →
    s.resumed.count ((), n) = 1
  resumed : s.misresumed = false
  awake : ∀ w a, s.wrappers.wrapper w = some a → a.conn = some () → a.receivedData ≠ [] →
    s.phase = .suspended → s.endpoint.control.resumes ≠ []

omit [DecidableEq τ] [DecidableEq ω] in
theorem DeliversOnce.of_handoff {s : HeldEndpoint ω τ υ} (h : s.Placed)
    (haccounted : s.handoff.Accounted) (hfed : s.handoff.Fed) : s.DeliversOnce := by
  have hitems : ∀ w a, s.wrappers.wrapper w = some a → a.conn = some () →
      s.handoff.items = a.receivedData := by
    intro w a ha hconn
    obtain ⟨a', ha', -, hheld⟩ := h.bound.held_eq ((h.bound w).1 ⟨a, ha, hconn⟩)
    rw [ha] at ha'
    cases ha'
    exact (handoff_of_held hheld).1
  refine ⟨h.called, h.delivered, h.bound, ?_, ?_, ?_, haccounted.once (), ?_, haccounted.resumed, ?_⟩
  · intro hstate
    obtain ⟨w, hw⟩ := Option.isSome_iff_exists.1 (h.established.2 hstate)
    exact ⟨w, (h.bound w).2 hw⟩
  · intro w a ha hconn
    have hflows : s.handoff.taken.flatMap Prod.snd ++ s.handoff.items = s.delivered :=
      haccounted.flows
    rw [hitems w a ha hconn] at hflows
    rw [← hflows, handoff, List.flatMap_map, List.flatten_eq_flatMap]
    rfl
  · intro data hdata
    exact hfed.full ((), data) (List.mem_map_of_mem hdata)
  · intro n hn hover
    exact haccounted.ended hn hover
  · intro w a ha hconn hdata hphase
    rw [← hitems w a ha hconn] at hdata
    exact haccounted.resumes_ne_nil (k := ()) hdata hphase

omit [DecidableEq τ] [DecidableEq ω] in
theorem fresh_placed {e : Endpoint τ (Wake Unit υ)} (hlife : e.Lifecycle) {sockfd : Nat}
    (hconn : e.conn = .new sockfd [] true false) (hlog : e.log = []) :
    (fresh e : HeldEndpoint ω τ υ).Placed where
  lifecycle := hlife
  notifies := by
    show e.conn.connectionCallback = true
    rw [hconn]
    rfl
  input := by
    show e.conn.inputBuffer = []
    rw [hconn]
    rfl
  callback := by
    show e.conn.messageCallback = false
    rw [hconn]
    rfl
  established := by
    refine iff_of_false nofun fun hstate => hstate ?_
    show e.conn.state = .connecting
    rw [hconn]
    rfl
  bound _ := iff_of_false (fun ⟨_, ha, _⟩ => nomatch ha) nofun
  self h := (h rfl).elim
  called := by
    show Effect.badFunctionCall ∉ e.log
    rw [hlog]
    exact List.not_mem_nil
  delivered := rfl

omit [DecidableEq τ] [DecidableEq ω] in
theorem handoff_fresh {e : Endpoint τ (Wake Unit υ)} (hresumes : e.control.resumes = [])
    (hlog : e.log = []) : (fresh e : HeldEndpoint ω τ υ).handoff = Handoff.new := by
  simp only [handoff, fresh, hresumes, hlog]
  rfl

omit [DecidableEq τ] in
theorem accept_shows (w : ω) (inLoopThread : Bool) (l : EventLoop υ) (sockfd : Nat) :
    (accept w inLoopThread l sockfd : HeldEndpoint ω τ υ).Placed ∧
      (accept w inLoopThread l sockfd : HeldEndpoint ω τ υ).handoff = Handoff.new := by
  let e : Endpoint τ (Wake Unit υ) := .registered (l.map .other) sockfd true false
  have hlife : (Endpoint.accept inLoopThread (l.map .other) sockfd true false :
      Endpoint τ (Wake Unit υ)).Lifecycle := Endpoint.accept_lifecycle _ _ _ _ _
  have hresumes : e.control.resumes = [] := by
    simp only [e, Control.resumes, Endpoint.registered, EventLoop.queued_map, List.filterMap_map]
    exact List.filterMap_none _
  cases inLoopThread with
  | true =>
      have hfresh : (fresh e : HeldEndpoint ω τ υ).Placed :=
        fresh_placed (Endpoint.registered_lifecycle _ _ _ _).1 rfl rfl
      obtain ⟨hplaced, hsame⟩ := hfresh.connectEstablished rfl hlife rfl w
        (t := accept w true l sockfd) rfl
      exact ⟨hplaced, hsame.trans (handoff_fresh hresumes rfl)⟩
  | false =>
      refine ⟨fresh_placed hlife rfl rfl, handoff_fresh ?_ rfl⟩
      refine (resumes_queueInLoop e.control false .connectEstablished).trans ?_
      rw [hresumes]
      rfl

/-- Wherever the wrapper is moved, the coroutine gets the bytes once and in order, each of its
suspensions is resumed once, and it does not sleep on bytes that are there. -/
theorem recv_delivers_once (w : ω) (inLoopThread : Bool) (l : EventLoop υ) (sockfd : Nat)
    (is : List (HeldInput ω τ υ)) :
    (machine ω τ υ).Always DeliversOnce (accept w inLoopThread l sockfd) is := by
  apply Machine.Always.mono (P := fun s => s.Placed ∧ s.handoff.Accounted ∧ s.handoff.Fed)
  · exact fun s hs => .of_handoff hs.1 hs.2.1 hs.2.2
  · apply Machine.always_of_invariant
    · rintro s i t ⟨hplaced, hstore⟩ hstep
      obtain ⟨hplaced', hsame | ⟨j, u, hj, hu⟩⟩ := step_shows hplaced hstep
      · exact ⟨hplaced', hsame ▸ hstore⟩
      · have hnext := Handoff.step_fed hstore hj
        rw [hu]
        exact ⟨hplaced', hnext.1.forget, hnext.2.forget⟩
    · obtain ⟨hplaced, hnew⟩ := accept_shows w inLoopThread l sockfd
      exact ⟨hplaced, hnew ▸ Handoff.new_fed⟩

end HeldEndpoint

end Hayai
