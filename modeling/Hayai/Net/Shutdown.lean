import Hayai.Net.Output

/-! # Graceful shutdown

One thread sends on an open connection and then calls `shutdown()`. The write side
of the socket should be shut down after every accepted byte. `shutdown()` changes
`state_` at once, while the messages of another thread are still queued; from then
on a `handleWrite` that empties the output buffer shuts the write side down and
does not know of the queued messages.
-/

namespace Hayai

variable {τ υ : Type}

/-! ## The situation -/

def Control.Awaits (b : Control τ υ) (m : Message τ) : Prop :=
  .sendInLoop m ∈ b.loop.queued ∨ ∃ t, b.inFlight t = some (.sendInLoop m)

/-- The calls are `send()` and `shutdown()` by one thread, and no write faults. -/
def Graceful (u : Caller τ) : Input τ υ → Prop
  | .call caller c w => caller = u ∧ c ≠ .forceClose ∧ w.fault = false
  | .callback _ _ w => w.fault = false
  | .functor w => w.fault = false
  | _ => True

namespace Endpoint

def established (l : EventLoop υ) (todo : List Callback) (registered : Bool)
    (c : TcpConnection (List UInt8)) : Endpoint τ υ where
  control :=
    { loop := l.map .user
      todo
      inFlight := fun _ => none
      registered
      removals := 0
      sends := 0
      accepted := [] }
  conn := c
  log := [.updateChannel]
  ran := []

/-- The write side is shut down after everything that was buffered or accepted, and
nothing is written after that. -/
def ShutAfterAll (initial : List UInt8) (s : Endpoint τ υ) : Prop :=
  ∀ before after, s.log = before ++ .shutdownWrite :: after →
    sentBytes before = initial ++ s.control.accepted.flatMap Message.data ∧ sentBytes after = []

/-- A write that empties the output buffer of a disconnecting connection finds no
message with bytes on its way, and a queued `shutdownInLoop` does not find output
that a close left behind. -/
def Orderly (s : Endpoint τ υ) : Input τ υ → Prop
  | .callback _ _ w => s.control.todo.head? = some .write → s.conn.state = .disconnecting →
      s.conn.channel.isWriting = true → 0 < w.count → w.count = s.conn.outputBuffer.length →
      ∀ m, s.control.Awaits m → m.data = []
  | .functor _ => s.control.loop.functors.head? = some .shutdownInLoop →
      s.conn.channel.isWriting = false → s.conn.outputBuffer = []
  | _ => True

end Endpoint

/-! ## Which operations shut the write side down -/

inductive ShutsDown (c : TcpConnection (List UInt8)) : Op τ → Prop
  | drain {w : WriteResult} :
      c.state = .disconnecting → c.channel.isWriting = true → 0 < w.count →
      w.count = c.outputBuffer.length → ShutsDown c (.handleWrite w)
  | functor : c.channel.isWriting = false → ShutsDown c .shutdownInLoop
  | inline : c.channel.isWriting = false → ShutsDown c .shutdownNow

namespace Op

theorem shutsDown_of_mem {c : TcpConnection (List UInt8)} {op : Op τ} (hfits : op.Fits c)
    (h : .shutdownWrite ∈ (op.run c).2) : ShutsDown c op := by
  have hclose : ∀ d : TcpConnection (List UInt8), .shutdownWrite ∉ d.handleClose.2 := by
    intro d
    simp only [TcpConnection.handleClose, TcpConnection.notify]
    split <;> simp
  have hshut : ∀ d : TcpConnection (List UInt8), .shutdownWrite ∈ d.shutdownInLoop →
      d.channel.isWriting = false := by
    intro d hd
    unfold TcpConnection.shutdownInLoop at hd
    split at hd
    · rename_i hwriting
      simpa using hwriting
    · cases hd
  cases op with
  | handleWrite w =>
      revert h
      apply TcpConnection.handleWrite_cases
        (P := fun p => .shutdownWrite ∈ p.2 → ShutsDown c (.handleWrite w : Op τ)) hfits
      · intro _ h
        cases h
      · intro _ _ h
        simp at h
      · intro _ _ _ h
        simp at h
      · intro hwriting hpos hall h
        by_cases hstate : c.state = .disconnecting
        · exact .drain hstate hwriting hpos hall
        · simp [hstate] at h
  | shutdownInLoop => exact .functor (hshut c h)
  | shutdownNow => exact .inline (c.channel_shutdown ▸ hshut c.shutdown h)
  | sendInLoop m w =>
      revert h
      apply TcpConnection.sendInLoop_cases
        (P := fun p => .shutdownWrite ∈ p.2 → ShutsDown c (.sendInLoop m w)) hfits
      · intro _ _ h
        simp at h
      · intro _ _ _ h
        simp at h
      · intro _ _ h
        cases h
      · intro _ _ h
        split at h <;> simp at h
  | handleRead r retrieved =>
      revert h
      apply TcpConnection.handleRead_cases
        (P := fun p => .shutdownWrite ∈ p.2 → ShutsDown c (.handleRead r retrieved : Op τ))
      · intro _ h
        exact (hclose _ h).elim
      · intro data _ _ inputBuffer h
        split at h <;> simp at h
      · intro e _ h
        cases h
  | handleClose => exact (hclose c h).elim
  | forceCloseNow => exact (hclose c.forceClose h).elim
  | connectEstablished =>
      simp only [run, TcpConnection.connectEstablished, TcpConnection.notify] at h
      split at h
      · split at h <;> simp at h
      · simp at h
  | connectDestroyed =>
      simp only [run, TcpConnection.connectDestroyed, TcpConnection.notify] at h
      split at h <;> split at h <;> try split at h
      all_goals simp at h
  | idle | setRevents revt | shutdown | forceClose | handleError => cases h

/-- `shutdownWrite()` is the last thing an operation does. -/
theorem effects_of_shutsDown {c : TcpConnection (List UInt8)} {op : Op τ} (h : ShutsDown c op) :
    ∃ es, (op.run c).2 = es ++ [.shutdownWrite] ∧ .shutdownWrite ∉ es := by
  cases h with
  | drain hstate hwriting hpos hall =>
      refine ⟨[.write c.outputBuffer, .updateChannel], ?_, by simp⟩
      rw [run, TcpConnection.handleWrite_all hwriting hpos hall, hstate]
      rfl
  | functor hwriting =>
      exact ⟨[], by simp [run, TcpConnection.shutdownInLoop, hwriting], by simp⟩
  | inline hwriting =>
      exact ⟨[], by simp [run, TcpConnection.shutdownInLoop, hwriting], by simp⟩

end Op

/-! ## One caller -/

namespace Endpoint

variable [DecidableEq τ]

structure OneCaller (u : Caller τ) (s : Endpoint τ υ) : Prop extends s.Ordered where
  accepted_own : ∀ m ∈ s.control.accepted, m.caller = u
  inFlight_own : ∀ t f, s.control.inFlight t = some f → u = .other t
  clean : ∀ r ∈ s.ran, r.2 = false

omit [DecidableEq τ] in
theorem record_clean {c : TcpConnection (List UInt8)} {m : Message τ} {w : WriteResult}
    (hw : w.fault = false) : ∀ r ∈ (Op.sendInLoop m w).record c, r.2 = false := by
  simp [Op.record, TcpConnection.faulted, hw]

theorem step_oneCaller {u : Caller τ} {s t : Endpoint τ υ} {i : Input τ υ} (h : s.OneCaller u)
    (hi : Graceful u i) (hstep : s.step i = some t) : t.OneCaller u := by
  have hordered := step_ordered h.toOrdered hstep
  rcases step_spec hstep with ⟨b, op, hmoves, hfits, rfl⟩
  -- The three facts for a step that leaves `accepted` alone and runs no message.
  have hsame : b.accepted = s.control.accepted → op.record s.conn = [] →
      (∀ t f, b.inFlight t = some f → u = .other t) → (s.perform b op).OneCaller u := by
    intro haccepted hrecord hinFlight
    refine ⟨hordered, ?_, hinFlight, ?_⟩
    · rw [perform_control, haccepted]
      exact h.accepted_own
    · rw [perform_ran, hrecord, List.append_nil]
      exact h.clean
  cases hmoves with
  | sendNow hconn =>
      rcases hi with ⟨hu, -, hw⟩
      refine ⟨hordered, ?_, h.inFlight_own, ?_⟩
      · intro m hm
        rcases List.mem_append.1 hm with hm | hm
        · exact h.accepted_own m hm
        · rw [List.mem_singleton.1 hm]
          exact hu
      · intro r hr
        rcases List.mem_append.1 hr with hr | hr
        · exact h.clean r hr
        · exact record_clean hw r hr
  | sendLater hfree hconn =>
      rcases hi with ⟨hu, -, -⟩
      refine ⟨hordered, ?_, ?_, ?_⟩
      · intro m hm
        rcases List.mem_append.1 hm with hm | hm
        · exact h.accepted_own m hm
        · rw [List.mem_singleton.1 hm]
          exact hu
      · exact Control.forall_setInFlight h.inFlight_own fun _ _ => hu.symm
      · intro r hr
        exact h.clean r (by simpa [Op.record] using hr)
  | shutdownLater hfree hconn =>
      exact hsame rfl rfl (Control.forall_setInFlight h.inFlight_own fun _ _ => hi.1.symm)
  | forceCloseNow hc => exact (hi.2.1 rfl).elim
  | forceCloseLater hfree hc => exact (hi.2.1 rfl).elim
  | enqueue hf =>
      exact hsame rfl rfl (Control.forall_setInFlight h.inFlight_own fun _ hg => by cases hg)
  | callback htodo => exact hsame rfl (Callback.record_op ..) h.inFlight_own
  | @functor w f functors hf hcalling =>
      have hw : w.fault = false := hi
      refine ⟨hordered, h.accepted_own, h.inFlight_own, ?_⟩
      intro r hr
      rcases List.mem_append.1 hr with hr | hr
      · exact h.clean r hr
      · cases f with
        | sendInLoop m => exact record_clean hw r hr
        | _ => cases hr
  | _ => exact hsame rfl rfl h.inFlight_own

/-- Every accepted message has run, is enqueued or is about to be. -/
theorem OneCaller.accepted_eq {u : Caller τ} {s : Endpoint τ υ} (h : s.OneCaller u) :
    s.control.accepted = s.ran.map Prod.fst ++ s.control.enqueued ++ s.control.held u := by
  have hall : ∀ ms : List (Message τ), (∀ m ∈ ms, m.caller = u) → ofCaller u ms = ms := by
    intro ms hms
    simpa [ofCaller, List.filter_eq_self] using hms
  have hsub : ∀ m, m ∈ s.ran.map Prod.fst ++ s.control.enqueued → m.caller = u := by
    intro m hm
    apply h.accepted_own
    have hmem : m ∈ ofCaller m.caller (s.ran.map Prod.fst ++ s.control.enqueued) := by
      simpa [ofCaller] using hm
    have haccepted : m ∈ ofCaller m.caller s.control.accepted := by
      rw [h.calls m.caller, ← ofCaller_append]
      exact List.mem_append_left _ hmem
    exact List.mem_of_mem_filter haccepted
  calc
    s.control.accepted = ofCaller u s.control.accepted := (hall _ h.accepted_own).symm
    _ = ofCaller u (s.ran.map Prod.fst ++ s.control.enqueued) ++ s.control.held u := by
          rw [h.calls u, ofCaller_append]
    _ = s.ran.map Prod.fst ++ s.control.enqueued ++ s.control.held u := by rw [hall _ hsub]

/-! ## The queue behind `shutdownInLoop` -/

/-- No message is behind a `shutdownInLoop`, and there is none before `shutdown()`. -/
structure Sealed (u : Caller τ) (s : Endpoint τ υ) : Prop where
  started : s.conn.state ≠ .connecting
  early : s.conn.state = .connected → .shutdownInLoop ∉ s.control.loop.queued ∧
    ∀ t f, s.control.inFlight t = some f → f ≠ .shutdownInLoop
  last : s.control.loop.queued.Pairwise fun f g => f = .shutdownInLoop → g.message? = none
  held_none : .shutdownInLoop ∈ s.control.loop.queued → s.control.held u = []

omit [DecidableEq τ] in
theorem Sealed.started_perform {u : Caller τ} {s : Endpoint τ υ} (h : s.Sealed u) {op : Op τ}
    (hfits : op.Fits s.conn) : (op.run s.conn).1.state ≠ .connecting := by
  have hrank := Op.run_rank hfits
  intro hbad
  apply h.started
  rw [hbad] at hrank
  revert hrank
  cases s.conn.state <;> simp [ConnState.rank]

omit [DecidableEq τ] in
theorem Sealed.connected_before {u : Caller τ} {s : Endpoint τ υ} (h : s.Sealed u) {op : Op τ}
    (hfits : op.Fits s.conn) (hconn : (op.run s.conn).1.state = .connected) :
    s.conn.state = .connected := by
  have hrank := Op.run_rank hfits
  have hstarted := h.started
  rw [hconn] at hrank
  revert hrank hstarted
  cases s.conn.state <;> simp [ConnState.rank]

omit [DecidableEq τ] in
theorem Sealed.of_sublist {u : Caller τ} {s : Endpoint τ υ} (h : s.Sealed u) {b : Control τ υ}
    {op : Op τ} (hfits : op.Fits s.conn)
    (hqueued : b.loop.queued.Sublist s.control.loop.queued)
    (hinFlight : b.inFlight = s.control.inFlight) : (s.perform b op).Sealed u := by
  have hheld : b.held u = s.control.held u := by
    cases u <;> simp [Control.held, hinFlight]
  constructor
  · exact h.started_perform hfits
  · intro hconn
    rcases h.early (h.connected_before hfits hconn) with ⟨hnot, hnone⟩
    rw [perform_control, hinFlight]
    exact ⟨fun hmem => hnot (hqueued.subset hmem), hnone⟩
  · exact h.last.sublist hqueued
  · intro hmem
    rw [perform_control, hheld]
    exact h.held_none (hqueued.subset hmem)

omit [DecidableEq τ] in
theorem Sealed.of_foreign {u : Caller τ} {s : Endpoint τ υ} (h : s.Sealed u) {b : Control τ υ}
    {op : Op τ} {f : Functor τ υ} (hfits : op.Fits s.conn)
    (hqueued : b.loop.queued = s.control.loop.queued ++ [f]) (hf : f.isCall = false)
    (hinFlight : b.inFlight = s.control.inFlight) : (s.perform b op).Sealed u := by
  have hheld : b.held u = s.control.held u := by
    cases u <;> simp [Control.held, hinFlight]
  have hmem : .shutdownInLoop ∈ b.loop.queued ↔ .shutdownInLoop ∈ s.control.loop.queued := by
    rw [hqueued]
    cases f <;> first | (simp [Functor.isCall] at hf; done) | simp
  have hmessage : f.message? = none := by
    cases f <;> first | rfl | cases hf
  constructor
  · exact h.started_perform hfits
  · intro hconn
    rcases h.early (h.connected_before hfits hconn) with ⟨hnot, hnone⟩
    rw [perform_control, hinFlight, hmem]
    exact ⟨hnot, hnone⟩
  · rw [perform_control, hqueued, List.pairwise_append]
    refine ⟨h.last, List.pairwise_singleton _ _, ?_⟩
    intro g _ k hk _
    rw [List.mem_singleton.1 hk]
    exact hmessage
  · rw [perform_control, hmem, hheld]
    exact h.held_none

theorem Sealed.enqueue {u : Caller τ} {s : Endpoint τ υ} (h : s.Sealed u) (hown : s.OneCaller u)
    {t : τ} {f : Functor τ υ} (hf : s.control.inFlight t = some f) :
    (s.perform ((s.control.setInFlight t none).queueInLoop false f) .idle).Sealed u := by
  have hu : u = .other t := hown.inFlight_own t f hf
  constructor
  · exact h.started
  · intro hconn
    rcases h.early hconn with ⟨hnot, hnone⟩
    refine ⟨?_, Control.forall_setInFlight hnone fun _ hg => by cases hg⟩
    rw [perform_control, Control.queued_queueInLoop, List.mem_append, List.mem_singleton]
    intro hmem
    rcases hmem with hmem | rfl
    · exact hnot hmem
    · exact hnone t _ hf rfl
  · rw [perform_control, Control.queued_queueInLoop, List.pairwise_append]
    refine ⟨h.last, List.pairwise_singleton _ _, ?_⟩
    intro g hg k hk hshut
    rw [List.mem_singleton.1 hk]
    have hheld := h.held_none (hshut ▸ hg)
    simpa [hu, Control.held, hf] using hheld
  · intro _
    simp [hu, Control.held_setInFlight]

theorem step_sealed {u : Caller τ} {s t : Endpoint τ υ} {i : Input τ υ} (h : s.Sealed u)
    (hown : s.OneCaller u) (hi : Graceful u i) (hstep : s.step i = some t) : t.Sealed u := by
  rcases step_spec hstep with ⟨b, op, hmoves, hfits, rfl⟩
  cases hmoves with
  | sendLater hfree hconn =>
      rcases h.early hconn with ⟨hnot, hnone⟩
      constructor
      · exact h.started
      · intro _
        exact ⟨hnot, Control.forall_setInFlight hnone (by rintro g ⟨⟩; simp)⟩
      · exact h.last
      · intro hmem
        exact (hnot hmem).elim
  | shutdownLater hfree hconn =>
      have hnot := (h.early hconn).1
      constructor
      · exact h.started_perform hfits
      · intro hbad
        simp [Op.run, TcpConnection.shutdown, hconn] at hbad
      · exact h.last
      · intro hmem
        exact (hnot hmem).elim
  | forceCloseNow hc => exact (hi.2.1 rfl).elim
  | forceCloseLater hfree hc => exact (hi.2.1 rfl).elim
  | enqueue hf => exact h.enqueue hown hf
  | queueUser => exact h.of_foreign hfits (Control.queued_queueInLoop ..) rfl rfl
  | remove hregistered hlt => exact h.of_foreign hfits (Control.queued_queueInLoop ..) rfl rfl
  | doPendingFunctors hhandling htodo hfunctors =>
      refine h.of_sublist hfits ?_ rfl
      have hqueued := EventLoop.queued_beginPendingFunctors
        (l := { s.control.loop with eventHandling := false }) hfunctors
      rw [hqueued]
      exact List.Sublist.refl _
  | functor hf hcalling =>
      refine h.of_sublist hfits ?_ rfl
      rw [EventLoop.queued_of_functors hf]
      exact List.sublist_cons_self _ _
  | _ => exact h.of_sublist hfits (List.Sublist.refl _) rfl

/-! ## Everything written -/

def unwritten (u : Caller τ) (s : Endpoint τ υ) : List UInt8 :=
  s.conn.outputBuffer ++ (s.control.enqueued ++ s.control.held u).flatMap Message.data

theorem OneCaller.balance {u : Caller τ} {initial : List UInt8} {s : Endpoint τ υ}
    (h : s.OneCaller u) (hstream : s.Streaming initial) :
    sentBytes s.log ++ s.unwritten u =
      initial ++ s.control.accepted.flatMap Message.data := by
  have hran : s.ran.flatMap kept = (s.ran.map Prod.fst).flatMap Message.data := by
    rw [List.flatMap_map]
    apply List.flatMap_congr
    intro r hr
    simp [kept, h.clean r hr]
  rw [h.accepted_eq, unwritten, ← List.append_assoc, hstream.stream, hran]
  simp [List.append_assoc]

theorem OneCaller.written_iff {u : Caller τ} {initial : List UInt8} {s : Endpoint τ υ}
    (h : s.OneCaller u) (hstream : s.Streaming initial) :
    sentBytes s.log = initial ++ s.control.accepted.flatMap Message.data ↔
      s.unwritten u = [] := by
  rw [← h.balance hstream]
  simp

theorem OneCaller.awaits_iff {u : Caller τ} {s : Endpoint τ υ} (h : s.OneCaller u)
    (m : Message τ) : s.control.Awaits m ↔ m ∈ s.control.enqueued ++ s.control.held u := by
  have hmessage : ∀ f : Functor τ υ, f.message? = some m ↔ f = .sendInLoop m := by
    intro f
    cases f <;> simp [Functor.message?]
  rw [Control.Awaits, List.mem_append]
  apply or_congr
  · simp [Control.enqueued, hmessage]
  · constructor
    · intro ht
      rcases ht with ⟨t, ht⟩
      simp [h.inFlight_own t _ ht, Control.held, ht, Functor.message?]
    · intro hm
      cases u with
      | loopThread => cases hm
      | other t =>
          refine ⟨t, ?_⟩
          simpa [Control.held, Option.bind_eq_some_iff, hmessage] using hm

theorem OneCaller.unwritten_nil_iff {u : Caller τ} {s : Endpoint τ υ} (h : s.OneCaller u) :
    s.unwritten u = [] ↔
      s.conn.outputBuffer = [] ∧ ∀ m, s.control.Awaits m → m.data = [] := by
  simp only [unwritten, List.append_eq_nil_iff, List.flatMap_eq_nil_iff, h.awaits_iff]

omit [DecidableEq τ] in
theorem ShutAfterAll.written {initial : List UInt8} {s : Endpoint τ υ}
    (h : s.ShutAfterAll initial) (hshut : .shutdownWrite ∈ s.log) :
    sentBytes s.log = initial ++ s.control.accepted.flatMap Message.data := by
  rcases List.append_of_mem hshut with ⟨before, after, hlog⟩
  rcases h before after hlog with ⟨hbefore, hafter⟩
  simp [hlog, hbefore, hafter, Effect.bytes]

/-! ## One step -/

structure Shutting (u : Caller τ) (initial : List UInt8) (s : Endpoint τ υ) : Prop where
  streaming : s.Streaming initial
  own : s.OneCaller u
  queue : s.Sealed u
  unshut : s.conn.state = .connected → .shutdownWrite ∉ s.log
  shut : s.ShutAfterAll initial

theorem Moves.accepted_eq {s : Endpoint τ υ} {i : Input τ υ} {b : Control τ υ} {op : Op τ}
    (hmoves : Moves s i b op) (h : s.conn.state ≠ .connected) :
    b.accepted = s.control.accepted := by
  cases hmoves with
  | sendNow hconn => exact (h hconn).elim
  | sendLater hfree hconn => exact (h hconn).elim
  | _ => rfl

theorem Moves.orderly_of_not_shutsDown {s : Endpoint τ υ} {i : Input τ υ} {b : Control τ υ}
    {op : Op τ} (hmoves : Moves s i b op) (h : ¬ ShutsDown s.conn op) : s.Orderly i := by
  cases hmoves with
  | @callback r retrieved w kind todo htodo =>
      intro hhead hstate hwriting hpos hall
      rw [htodo, List.head?_cons, Option.some.injEq] at hhead
      subst hhead
      exact (h (.drain hstate hwriting hpos hall)).elim
  | @functor w f functors hf =>
      intro hhead hwriting
      rw [hf, List.head?_cons, Option.some.injEq] at hhead
      subst hhead
      exact (h (.functor hwriting)).elim
  | _ => trivial

/-- Once everything is written, a step writes nothing more. -/
theorem Shutting.after {u : Caller τ} {initial : List UInt8} {s : Endpoint τ υ}
    (h : s.Shutting u initial) {i : Input τ υ} {b : Control τ υ} {op : Op τ}
    (hmoves : Moves s i b op) (hstream : (s.perform b op).Streaming initial)
    (hown : (s.perform b op).OneCaller u) (hshut : .shutdownWrite ∈ s.log) :
    s.Orderly i ∧ (s.perform b op).ShutAfterAll initial := by
  have hwritten := h.shut.written hshut
  have hstate : s.conn.state ≠ .connected := fun hconn => h.unshut hconn hshut
  have haccepted := hmoves.accepted_eq hstate
  have hunwritten := (h.own.written_iff h.streaming).1 hwritten
  have hnone := h.own.unwritten_nil_iff.1 hunwritten
  constructor
  · cases hmoves with
    | callback => exact fun _ _ _ _ _ => hnone.2
    | functor => exact fun _ _ => hnone.1
    | _ => trivial
  · have hbalance := hown.balance hstream
    have hquiet : sentBytes (op.run s.conn).2 = [] := by
      rw [perform_log, perform_control, haccepted, ← hwritten, sentBytes_append,
        List.append_assoc] at hbalance
      have hnil := List.append_right_eq_self.1 hbalance
      exact (List.append_eq_nil_iff.1 hnil).1
    intro before after hlog
    rw [perform_control, haccepted]
    rcases Machine.log_split hlog with ⟨rest, hbefore, rfl⟩ | ⟨rest, rfl, hafter⟩
    · rcases h.shut before rest hbefore with ⟨hall, hrest⟩
      exact ⟨hall, by simp [hrest, hquiet]⟩
    · rw [hafter] at hquiet
      simp only [sentBytes_append, sentBytes_cons, List.append_eq_nil_iff] at hquiet
      exact ⟨by simp [hquiet.1, hwritten], hquiet.2.2⟩

omit [DecidableEq τ] in
/-- The first `shutdownWrite()` comes in time iff everything has been written by then. -/
theorem shutAfterAll_first {initial : List UInt8} {s : Endpoint τ υ} {b : Control τ υ} {op : Op τ}
    (hshut : .shutdownWrite ∉ s.log) (hop : ShutsDown s.conn op) :
    (s.perform b op).ShutAfterAll initial ↔
      sentBytes (s.perform b op).log = initial ++ b.accepted.flatMap Message.data := by
  rcases Op.effects_of_shutsDown hop with ⟨es, hes, hnot⟩
  constructor
  · intro h
    exact h.written (by simp [hes])
  · intro hwritten before after hlog
    rw [perform_log, hes, ← List.append_assoc] at hlog
    have hafter : after = [] := by
      rcases Machine.log_split hlog with ⟨rest, hbefore, rfl⟩ | ⟨rest, -, htail⟩
      · have hmem : .shutdownWrite ∈ s.log ++ es := by simp [hbefore]
        rcases List.mem_append.1 hmem with hmem | hmem
        · exact (hshut hmem).elim
        · exact (hnot hmem).elim
      · cases rest with
        | nil => exact (List.cons.inj htail).2.symm
        | cons x rest => simp at htail
    subst hafter
    have hbefore : before = s.log ++ es := (List.append_inj_left' hlog rfl).symm
    refine ⟨?_, rfl⟩
    rw [hbefore]
    simpa [hes, Effect.bytes] using hwritten

theorem Shutting.first {u : Caller τ} {initial : List UInt8} {s : Endpoint τ υ}
    (h : s.Shutting u initial) {i : Input τ υ} {b : Control τ υ} {op : Op τ}
    (hmoves : Moves s i b op) (hi : Graceful u i) (hown : (s.perform b op).OneCaller u)
    (hop : ShutsDown s.conn op) : (s.perform b op).unwritten u = [] ↔ s.Orderly i := by
  rw [hown.unwritten_nil_iff]
  cases hmoves with
  | @callback r retrieved w kind todo htodo =>
      cases kind with
      | write =>
          rcases hop with ⟨hstate, hwriting, hpos, hall⟩
          have hempty : (s.conn.handleWrite w).1.outputBuffer = [] := by
            rw [TcpConnection.handleWrite_all hwriting hpos hall]
          have hhead : s.control.todo.head? = some .write := by rw [htodo]; rfl
          exact ⟨fun hdone _ _ _ _ _ => hdone.2,
            fun horderly => ⟨hempty, horderly hhead hstate hwriting hpos hall⟩⟩
      | _ => cases hop
  | @functor w f functors hf =>
      cases f with
      | shutdownInLoop =>
          rcases hop with ⟨⟩ | hwriting | ⟨⟩
          have hqueued := EventLoop.queued_of_functors hf
          have hlast := h.queue.last
          have hheld := h.queue.held_none (by rw [hqueued]; exact List.mem_cons_self)
          rw [hqueued, List.pairwise_cons] at hlast
          have hhead : s.control.loop.functors.head? = some .shutdownInLoop := by rw [hf]; rfl
          refine ⟨fun hdone _ _ => hdone.1, fun horderly => ⟨horderly hhead hwriting, ?_⟩⟩
          intro m hm
          rcases hm with hm | ⟨t, ht⟩
          · cases hlast.1 _ hm rfl
          · rw [h.own.inFlight_own t _ ht] at hheld
            simp [Control.held, show s.control.inFlight t = _ from ht, Functor.message?] at hheld
      | _ => cases hop
  | shutdownNow hconn =>
      rcases hop with ⟨⟩ | ⟨⟩ | hwriting
      have hu : Caller.loopThread = u := hi.1
      subst hu
      have hwriting' := h.streaming.writing (by rw [hconn]; simp)
      refine ⟨fun _ => trivial, fun _ => ⟨?_, ?_⟩⟩
      · rw [perform_conn, Op.run, TcpConnection.outputBuffer_shutdown]
        by_contra hbuffered
        rw [hwriting'.2 hbuffered] at hwriting
        cases hwriting
      · intro m hm
        have hmem := (h.own.awaits_iff m).1 hm
        have hcaller : m.caller = .loopThread := by
          apply h.own.accepted_own
          rw [h.own.accepted_eq, List.append_assoc]
          exact List.mem_append_right _ hmem
        have hnone : m ∈ ofCaller .loopThread s.control.enqueued := by
          simpa [ofCaller, hcaller, Control.held] using hmem
        rw [h.own.local_none] at hnone
        cases hnone
  | _ => cases hop

theorem Shutting.shutAfterAll_iff {u : Caller τ} {initial : List UInt8} {s t : Endpoint τ υ}
    {i : Input τ υ} (h : s.Shutting u initial) (hi : Graceful u i) (hstep : s.step i = some t) :
    t.ShutAfterAll initial ↔ s.Orderly i := by
  have hstream := step_streaming h.streaming hstep
  have hown := step_oneCaller h.own hi hstep
  rcases step_spec hstep with ⟨b, op, hmoves, hfits, rfl⟩
  by_cases hshut : .shutdownWrite ∈ s.log
  · rcases h.after hmoves hstream hown hshut with ⟨horderly, hafter⟩
    exact iff_of_true hafter horderly
  · by_cases hop : ShutsDown s.conn op
    · rw [shutAfterAll_first hshut hop, ← h.first hmoves hi hown hop]
      exact hown.written_iff hstream
    · refine iff_of_true ?_ (hmoves.orderly_of_not_shutsDown hop)
      intro before after hlog
      have hmem : .shutdownWrite ∈ s.log ++ (op.run s.conn).2 := by
        rw [← perform_log s b op, hlog]
        simp
      rcases List.mem_append.1 hmem with hmem | hmem
      · exact (hshut hmem).elim
      · exact (hop (Op.shutsDown_of_mem hfits hmem)).elim

theorem Shutting.step {u : Caller τ} {initial : List UInt8} {s t : Endpoint τ υ}
    {i : Input τ υ} (h : s.Shutting u initial) (hi : Graceful u i) (horderly : s.Orderly i)
    (hstep : s.step i = some t) : t.Shutting u initial := by
  refine ⟨step_streaming h.streaming hstep, step_oneCaller h.own hi hstep,
    step_sealed h.queue h.own hi hstep, ?_, (h.shutAfterAll_iff hi hstep).2 horderly⟩
  rcases step_spec hstep with ⟨b, op, hmoves, hfits, rfl⟩
  intro hconn hmem
  have hbefore := h.queue.connected_before hfits hconn
  rcases List.mem_append.1 hmem with hmem | hmem
  · exact h.unshut hbefore hmem
  · have hop := Op.shutsDown_of_mem hfits hmem
    cases hmoves with
    | @callback r retrieved w kind todo htodo =>
        cases kind with
        | write =>
            rcases hop with ⟨hstate, -⟩
            rw [hbefore] at hstate
            cases hstate
        | _ => cases hop
    | @functor w f functors hf =>
        cases f with
        | shutdownInLoop =>
            apply (h.queue.early hbefore).1
            rw [EventLoop.queued_of_functors hf]
            exact List.mem_cons_self
        | _ => cases hop
    | shutdownNow _ => simp [Op.run, TcpConnection.shutdown, hbefore] at hconn
    | _ => cases hop

theorem established_shutting (u : Caller τ) (l : EventLoop υ) (todo : List Callback)
    (registered : Bool) {c : TcpConnection (List UInt8)} (hconn : c.state = .connected)
    (hwriting : c.WritingIffBuffered) :
    (established l todo registered c : Endpoint τ υ).Shutting u c.outputBuffer := by
  have henqueued : (established l todo registered c : Endpoint τ υ).control.enqueued = [] :=
    Control.enqueued_foreign rfl
  have huser : ∀ f ∈ (established l todo registered c : Endpoint τ υ).control.loop.queued,
      f.isCall = false := by
    intro f hf
    simp only [established, EventLoop.queued_map, List.mem_map] at hf
    rcases hf with ⟨x, -, rfl⟩
    rfl
  have hnot : .shutdownInLoop ∉
      (established l todo registered c : Endpoint τ υ).control.loop.queued := by
    intro hmem
    cases huser _ hmem
  have hordered : (established l todo registered c : Endpoint τ υ).Ordered := by
    constructor
    · intro d
      rw [henqueued]
      cases d <;> rfl
    · rw [henqueued]
      rfl
    · intro d m hm
      cases d <;> cases hm
  constructor
  · exact ⟨(List.append_nil _).symm, fun _ => hwriting⟩
  · refine ⟨hordered, ?_, ?_, ?_⟩
    · intro m hm
      cases hm
    · intro t f hf
      cases hf
    · intro r hr
      cases hr
  · constructor
    · show c.state ≠ .connecting
      simp [hconn]
    · intro _
      exact ⟨hnot, fun t f hf => by cases hf⟩
    · apply List.pairwise_of_forall_mem_list
      intro f hf g _ hshut
      exact (hnot (hshut ▸ hf)).elim
    · intro hmem
      exact (hnot hmem).elim
  · intro _
    simp [established]
  · intro before after hlog
    have hmem : Effect.shutdownWrite ∈ [Effect.updateChannel] := by
      rw [show [Effect.updateChannel] = _ from hlog]
      simp
    simp at hmem

theorem shut_after_all_iff_orderly (u : Caller τ) (l : EventLoop υ) (todo : List Callback)
    (registered : Bool) (c : TcpConnection (List UInt8)) (hconn : c.state = .connected)
    (hwriting : c.WritingIffBuffered) (is : List (Input τ υ)) (hcalls : ∀ i ∈ is, Graceful u i) :
    (machine τ υ).Always (ShutAfterAll c.outputBuffer) (established l todo registered c) is ↔
      (machine τ υ).Meets Orderly (established l todo registered c) is := by
  apply Machine.always_iff_meets_within (I := Shutting u c.outputBuffer)
    (G := fun _ i => Graceful u i)
  · intro s hs
    exact hs.shut
  · intro s i t hs hi horderly hstep
    exact hs.step hi horderly hstep
  · intro s i t hs hi hstep ht
    exact (hs.shutAfterAll_iff hi hstep).1 ht
  · exact established_shutting u l todo registered hconn hwriting
  · exact Machine.meets_of_forall_mem hcalls

def busyConnection : TcpConnection (List UInt8) :=
  let c := (TcpConnection.new 7 [] true true : TcpConnection (List UInt8)).connectEstablished.1
  { c with outputBuffer := [9], channel := c.channel.enableWriting }

/-- The loop thread sends behind the buffered byte and shuts down; two write events
drain the buffer. -/
theorem loop_thread_shuts_after_all :
    (machine Unit Unit).Always (ShutAfterAll [9]) (established EventLoop.new [] true busyConnection)
      [.call .loopThread (.send [1]) (.wrote 0), .call .loopThread .shutdown (.wrote 0),
        .poll [⟨7, .write, false, false, ()⟩], .callback (.bytes []) 0 (.wrote 2)] := by
  apply (shut_after_all_iff_orderly .loopThread EventLoop.new [] true busyConnection rfl
    (by simp [TcpConnection.WritingIffBuffered, busyConnection]) _ ?_).2
  · intro s hs
    refine ⟨trivial, fun t ht => ⟨trivial, fun v hv => ⟨trivial, fun w hw => ⟨?_, trivial⟩⟩⟩⟩
    cases hs
    cases ht
    cases hv
    intro _ _ _ _ _ m hm
    rcases hm with hm | ⟨x, hx⟩
    · cases hm
    · cases hx
  · intro i hi
    simp only [List.mem_cons, List.not_mem_nil, or_false] at hi
    rcases hi with rfl | rfl | rfl | rfl <;> simp [Graceful, WriteResult.fault]

/-- Another thread's message and shutdown are queued when a write event drains what
was buffered before. -/
def overtakenRun : List (Input Unit Unit) :=
  [.call (.other ()) (.send [1]) (.wrote 0), .enqueue (),
    .call (.other ()) .shutdown (.wrote 0), .enqueue (),
    .poll [⟨7, .write, false, false, ()⟩], .callback (.bytes []) 0 (.wrote 1)]

theorem drain_overtakes_queued_send :
    busyConnection.state = .connected ∧ busyConnection.WritingIffBuffered ∧
      (∀ i ∈ overtakenRun, Graceful (.other ()) i) ∧
      ¬ (machine Unit Unit).Always (ShutAfterAll busyConnection.outputBuffer)
        (established EventLoop.new [] true busyConnection) overtakenRun := by
  refine ⟨rfl, by simp [TcpConnection.WritingIffBuffered, busyConnection], ?_, ?_⟩
  · intro i hi
    simp only [overtakenRun, List.mem_cons, List.not_mem_nil, or_false] at hi
    rcases hi with rfl | rfl | rfl | rfl | rfl | rfl <;> simp [Graceful, WriteResult.fault]
  · intro h
    rw [Machine.always_iff_prefix] at h
    have hbad := h overtakenRun [] _ (by simp) rfl [.updateChannel, .write [9], .updateChannel] []
      rfl
    revert hbad
    decide

end Endpoint

end Hayai
