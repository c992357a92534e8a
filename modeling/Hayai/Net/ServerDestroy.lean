import Hayai.Machine.Run
import Hayai.Net.Confinement
import Hayai.Net.ServerLifecycle
import Hayai.Net.ServerTasks
import Hayai.Net.TcpServer

/-! # Destroying a server

`~TcpServer` on the base loop's thread: it calls `connectDestroyed()` on every connection
of the registry, one after the other, and its members go with it. The other threads go on
meanwhile, and the base loop goes on afterwards. A close callback holds a plain pointer to
the server, so a connection whose channel stays on, or that has closing work queued, calls
into it when it is gone. `connectDestroyed()` makes the connection callback before it sets the
state, so what that callback calls finds the connection still Connected.
-/

namespace Hayai

variable {τ υ : Type}

def ServerInput.isStop : ServerInput τ υ → Bool
  | .stop _ => true
  | _ => false

def ServerInput.isCall : ServerInput τ υ → Bool
  | .call _ _ _ | .deliver _ _ | .queueUser _ _ _ => true
  | _ => false

/-- How far the destructor is; `found` is the server it was called on and `rest` the
connections it has still to go through. In `notifying` it is inside the connection callback
that `connectDestroyed()` makes for `c`. -/
inductive TeardownPhase (τ υ : Type) where
  | alive
  | destroying (found : Server τ υ) (rest : List Nat)
  | notifying (found : Server τ υ) (c : Nat) (rest : List Nat)
  | destroyed (found : Server τ υ)

structure Teardown (τ υ : Type) where
  server : Server τ υ
  phase : TeardownPhase τ υ

inductive TeardownInput (τ υ : Type) where
  | server (i : ServerInput τ υ)
  | destroy
  | destroyNext
  | destroyReturn
  | destroyMembers

def Connection.destroy (x : Connection τ) (p : TcpConnection (List UInt8) × List Effect) :
    Connection τ :=
  { x with
    conn := p.1
    history := x.history ++ [⟨.loop 0, x.conn.state, .connectDestroyed, p.2⟩] }

namespace Server

def beginDestroyed (s : Server τ υ) (c : Nat) : Server τ υ :=
  s.setConn c ((s.conns c).destroy (s.conns c).conn.beginDestroyed)

def endDestroyed (s : Server τ υ) (c : Nat) : Server τ υ :=
  s.setConn c ((s.conns c).destroy (s.conns c).conn.endDestroyed)

end Server

namespace Teardown

/-- The base loop's thread is in the destructor, and nobody calls a member of a server
that is being destroyed. A connection callback may call members of connections. -/
def Enabled (s : Teardown τ υ) (i : ServerInput τ υ) : Prop :=
  match s.phase with
  | .alive => True
  | .destroying _ _ => i.thread ≠ .loop 0 ∧ i.isStop = false
  | .notifying _ c _ => i.isStop = false ∧
      (i.thread = .loop 0 → i.isCall = true ∧ (s.server.conns c).conn.connectionCallback = true)
  | .destroyed _ => i.isStop = false

instance [DecidableEq τ] (s : Teardown τ υ) (i : ServerInput τ υ) : Decidable (s.Enabled i) := by
  unfold Enabled
  split <;> infer_instance

variable [DecidableEq τ]

def step (s : Teardown τ υ) : TeardownInput τ υ → Option (Teardown τ υ)
  | .server i =>
      if s.Enabled i then (s.server.step i).map fun t => { s with server := t } else none
  | .destroy =>
      match s.phase with
      | .alive =>
          if s.server.aborted = false ∧ s.server.Free (.loop 0) then
            some { s with phase := .destroying s.server (s.server.connections.map Prod.snd) }
          else none
      | _ => none
  | .destroyNext =>
      match s.phase with
      | .destroying found (c :: rest) =>
          if s.server.aborted = false then
            if (s.server.conns c).loop = 0 ∧ s.server.state c = .connected then
              some ⟨s.server.beginDestroyed c, .notifying found c rest⟩
            else some ⟨s.server.exec (.loop 0) c .connectDestroyed, .destroying found rest⟩
          else none
      | _ => none
  | .destroyReturn =>
      match s.phase with
      | .notifying found c rest =>
          if s.server.aborted = false ∧ s.server.inFlight (.loop 0) = none then
            some ⟨s.server.endDestroyed c, .destroying found rest⟩
          else none
      | _ => none
  | .destroyMembers =>
      match s.phase with
      | .destroying found [] =>
          if s.server.aborted = false then
            some ⟨{ s.server with connections := [], acceptor := none }, .destroyed found⟩
          else none
      | _ => none

def machine (τ υ : Type) [DecidableEq τ] : Machine (Teardown τ υ) (TeardownInput τ υ) := ⟨step⟩

omit [DecidableEq τ] in
def start (name : String) (numThreads : Nat) (connectionCallback messageCallback : Bool) :
    Teardown τ υ :=
  ⟨.start name numThreads connectionCallback messageCallback, .alive⟩

end Teardown

/-! ## Safe destruction -/

def Connection.failures (x : Connection τ) : Nat :=
  x.history.countP (·.effects.contains .assertFailed)

/-- Nothing has entered the server since `found`, and no member has aborted or failed an
assertion. -/
structure Server.SafeSince (found s : Server τ υ) : Prop where
  alive : s.aborted = false
  accesses : s.accesses = found.accesses
  failures : ∀ c, (s.conns c).failures = (found.conns c).failures

def Teardown.Safe (s : Teardown τ υ) : Prop :=
  match s.phase with
  | .alive => True
  | .destroying found rest => found.SafeSince s.server ∧
      ∀ p ∈ found.connections, p.2 ∈ rest ∨ s.server.state p.2 = .disconnected
  | .notifying found c rest => found.SafeSince s.server ∧
      ∀ p ∈ found.connections, p.2 ∈ c :: rest ∨ s.server.state p.2 = .disconnected
  | .destroyed found => found.SafeSince s.server ∧
      ∀ p ∈ found.connections, s.server.state p.2 = .disconnected

def Callback.mayClose : Callback → Bool
  | .read | .close => true
  | .write | .error => false

/-- The functor is of a connection in `rest`, or does nothing to a connection that is
Disconnected, its channel off. -/
def Task.Inert (rest : List Nat) : Task τ υ → Prop
  | .conn c f => c ∈ rest ∨ f = .connectDestroyed ∨ f = .shutdownInLoop
  | .user _ => True
  | _ => False

/-- What `send()` and `shutdown()` hand over, or foreign work. -/
def Task.Mild : Task τ υ → Prop
  | .conn _ (.sendInLoop _) | .conn _ .shutdownInLoop | .user _ => True
  | _ => False

theorem Task.inert_conn {rest : List Nat} {c : Nat} (hc : c ∈ rest)
    (f : Functor (Thread τ) Empty) : (Task.conn c f : Task τ υ).Inert rest :=
  .inl hc

/-- The connections in `rest` are on the base loop. All others are Disconnected with their
channels off, and no work is left that could close them or call into the server. -/
structure Server.Quiet (s : Server τ υ) (rest : List Nat) : Prop where
  base : ∀ c ∈ rest, s.loopOf c = some 0
  others : ∀ c < s.accepted,
    c ∈ rest ∨ s.state c = .disconnected ∧ (s.conns c).conn.channel.events = 0
  todo : ∀ l, ∀ p ∈ (s.loops l).todo, l ≠ 0 ∧ p.2.mayClose = false
  functors : ∀ k, s.Pending [] k → k.Inert rest
  stopping : s.stopping = []

/-- The destructor starts on a quiet server, and each connection it comes to is Connected.
The callback made there closes no connection, and when it has returned, the connection's
channel is off and no functor of it is queued or on its way. -/
def Teardown.DestroysQuiet (s : Teardown τ υ) (i : TeardownInput τ υ) : Prop :=
  match s.phase, i with
  | _, .destroy => s.server.Quiet (s.server.connections.map Prod.snd)
  | .destroying _ (c :: _), .destroyNext => s.server.state c = .connected
  | .notifying _ _ _, .server (.call (.loop 0) c .forceClose) =>
      (s.server.conns c).conn.closable = false
  | .notifying _ c _, .destroyReturn => (s.server.conns c).conn.channel.events = 0 ∧
      ∀ f, ¬s.server.Pending [] (.conn c f)
  | _, _ => True

/-! ## Members on a connection that is closed -/

namespace Op

structure Still (c : TcpConnection (List UInt8)) (op : Op τ) : Prop where
  state : (op.run c).1.state = .disconnected
  events : (op.run c).1.channel.events = 0
  closes : (op.run c).2.contains .closeCallback = false
  asserts : (op.run c).2.contains .assertFailed = false

variable {c : TcpConnection (List UInt8)}

theorem contains_connectDestroyed {e : Effect} (hupdate : e ≠ .updateChannel)
    (hremove : e ≠ .removeChannel) (hnotify : ∀ b, e ≠ .connectionCallback b) :
    c.connectDestroyed.2.contains e = false := by
  have hcallback : e ∉ c.notify := by
    unfold TcpConnection.notify
    split <;> simp [hnotify]
  rw [List.contains_eq_mem, decide_eq_false_iff_not]
  unfold TcpConnection.connectDestroyed
  split <;> dsimp only <;> split <;> simp [hupdate, hremove, hcallback]

theorem still_connectDestroyed (h : c.state = .connected ∨ c.channel.events = 0) :
    (connectDestroyed : Op τ).Still c := by
  refine ⟨rfl, ?_, contains_connectDestroyed nofun nofun nofun,
    contains_connectDestroyed nofun nofun nofun⟩
  by_cases hstate : c.state = .connected
  · simp [run, TcpConnection.connectDestroyed, hstate, Channel.disableAll, Channel.kNoneEvent]
  · simpa [run, TcpConnection.connectDestroyed, hstate] using h

theorem contains_sendInLoop {m : Message τ} {w : WriteResult} (hfit : w.count ≤ m.data.length)
    {e : Effect} (hwrite : ∀ data, e ≠ .write data) (hupdate : e ≠ .updateChannel) :
    ((sendInLoop m w : Op τ).run c).2.contains e = false := by
  rw [List.contains_eq_mem, decide_eq_false_iff_not]
  apply TcpConnection.sendInLoop_cases (P := fun p => e ∉ p.2) hfit
  · intro _ _
    simp [hwrite]
  · intro _ _ _
    simp [hwrite, hupdate]
  · intro _ _
    simp
  · intro _ _
    dsimp only
    split <;> simp [hupdate]

theorem contains_shutdownInLoop {e : Effect} (hshut : e ≠ .shutdownWrite) :
    ((shutdownInLoop : Op τ).run c).2.contains e = false := by
  rw [List.contains_eq_mem, decide_eq_false_iff_not]
  simp only [run, TcpConnection.shutdownInLoop]
  split <;> simp [hshut]

theorem still_shutdownInLoop (hstate : c.state = .disconnected)
    (hevents : c.channel.events = 0) : (shutdownInLoop : Op τ).Still c := by
  exact ⟨hstate, hevents, contains_shutdownInLoop nofun, contains_shutdownInLoop nofun⟩

/-- Neither `handleError` nor, with the channel off, `handleWrite` does anything. -/
theorem still_callback (hstate : c.state = .disconnected) (hevents : c.channel.events = 0)
    {kind : Callback} (hkind : kind.mayClose = false) (r : ReadResult) (retrieved : Nat)
    (w : WriteResult) : (kind.op r retrieved w : Op τ).Still c := by
  cases kind with
  | read => cases hkind
  | close => cases hkind
  | error => exact ⟨hstate, hevents, rfl, rfl⟩
  | write =>
      have hwriting := Channel.isWriting_of_events_eq_zero hevents
      have hrun : (handleWrite w : Op τ).run c = (c, []) := by
        simp [run, TcpConnection.handleWrite, hwriting]
      constructor <;> rw [Callback.op, hrun]
      · exact hstate
      · exact hevents
      · rfl
      · rfl

end Op

theorem Connection.failures_act (x : Connection τ) (θ : Thread τ) {op : Op (Thread τ)}
    (h : (op.run x.conn).2.contains .assertFailed = false) :
    (x.act θ op).failures = x.failures := by
  have hmem : Effect.assertFailed ∉ (op.run x.conn).2 := by simpa using h
  simp [failures, Connection.act, List.countP_append, hmem]

theorem Connection.failures_destroy (x : Connection τ)
    {p : TcpConnection (List UInt8) × List Effect} (hp : p.2.contains .assertFailed = false) :
    (x.destroy p).failures = x.failures := by
  have hmem : Effect.assertFailed ∉ p.2 := by simpa using hp
  simp [failures, Connection.destroy, List.countP_append, hmem]

namespace Server

structure LeftAlone (s t : Server τ υ) : Prop where
  accesses : t.accesses = s.accesses
  acceptor : t.acceptor = s.acceptor
  accepted : t.accepted = s.accepted
  failures : ∀ c, (t.conns c).failures = (s.conns c).failures

theorem LeftAlone.trans {s t u : Server τ υ} (h : s.LeftAlone t) (h' : t.LeftAlone u) :
    s.LeftAlone u :=
  ⟨h'.accesses.trans h.accesses, h'.acceptor.trans h.acceptor, h'.accepted.trans h.accepted,
    fun c => (h'.failures c).trans (h.failures c)⟩

theorem LeftAlone.of_conns {s t : Server τ υ} (haccesses : t.accesses = s.accesses)
    (hacceptor : t.acceptor = s.acceptor) (haccepted : t.accepted = s.accepted)
    (hconns : t.conns = s.conns) : s.LeftAlone t :=
  ⟨haccesses, hacceptor, haccepted, fun c => by rw [hconns]⟩

theorem leftAlone_setConn {s : Server τ υ} {c : Nat} {x : Connection τ}
    (hx : x.failures = (s.conns c).failures) : s.LeftAlone (s.setConn c x) := by
  refine ⟨rfl, rfl, rfl, fun d => ?_⟩
  by_cases hd : d = c
  · subst hd
    rw [conns_setConn_self]
    exact hx
  · rw [conns_setConn_of_ne hd]

theorem leftAlone_act {s : Server τ υ} {c : Nat} {op : Op (Thread τ)}
    (h : (op.run (s.conns c).conn).2.contains .assertFailed = false) (θ : Thread τ) :
    s.LeftAlone (s.act θ c op) :=
  leftAlone_setConn (Connection.failures_act _ θ h)

theorem leftAlone_destroy {s : Server τ υ} {c : Nat}
    {p : TcpConnection (List UInt8) × List Effect} (hp : p.2.contains .assertFailed = false) :
    s.LeftAlone (s.setConn c ((s.conns c).destroy p)) :=
  leftAlone_setConn (Connection.failures_destroy _ hp)

/-! ## Parts of the state -/

variable {rest : List Nat}

theorem Quiet.setIo {s : Server τ υ} (h : s.Quiet rest) {l : Nat} {io : IoLoop τ υ}
    (htodo : ∀ p ∈ io.todo, l ≠ 0 ∧ p.2.mayClose = false)
    (hqueued : ∀ k ∈ io.loop.queued, k.Inert rest) : (s.setIo l io).Quiet rest := by
  refine ⟨h.base, h.others, ?_, ?_, h.stopping⟩
  · show ∀ m, ∀ p ∈ (Function.update s.loops l io m).todo, m ≠ 0 ∧ p.2.mayClose = false
    rw [Function.forall_update_iff s.loops fun m io => ∀ p ∈ io.todo, m ≠ 0 ∧ p.2.mayClose = false]
    exact ⟨htodo, fun m _ => h.todo m⟩
  · intro k hk
    rcases hk with ⟨m, hm⟩ | hk
    · by_cases hml : m = l
      · subst hml
        rw [loops_setIo_self] at hm
        exact hqueued k hm
      · rw [loops_setIo_of_ne hml] at hm
        exact h.functors k (.inl ⟨m, hm⟩)
    · exact h.functors k (.inr hk)

theorem Quiet.setLoop {s : Server τ υ} (h : s.Quiet rest) {l : Nat}
    {loop : EventLoop (Task τ υ)} (hqueued : ∀ k ∈ loop.queued, k.Inert rest) :
    (s.setLoop l loop).Quiet rest :=
  h.setIo (h.todo l) hqueued

theorem Quiet.inert_of_queued {s : Server τ υ} (h : s.Quiet rest) {l : Nat} {k : Task τ υ}
    (hk : k ∈ (s.loops l).loop.queued) : k.Inert rest :=
  h.functors k (.inl ⟨l, hk⟩)

theorem Quiet.setTodo {s : Server τ υ} (h : s.Quiet rest) {l : Nat}
    {p : Option Nat × Callback} {todo : List (Option Nat × Callback)}
    (htodo : (s.loops l).todo = p :: todo) : (s.setTodo l todo).Quiet rest := by
  apply h.setIo
  · intro q hq
    apply h.todo l
    rw [htodo]
    exact List.mem_cons_of_mem p hq
  · intro k hk
    exact h.inert_of_queued hk

theorem Quiet.setConn {s : Server τ υ} (h : s.Quiet rest) {c : Nat} {x : Connection τ}
    (hloop : x.loop = (s.conns c).loop)
    (hx : c ∈ rest ∨ x.conn.state = .disconnected ∧ x.conn.channel.events = 0) :
    (s.setConn c x).Quiet rest := by
  refine ⟨?_, ?_, h.todo, h.functors, h.stopping⟩
  · rw [loopOf_setConn hloop]
    exact h.base
  · intro d hd
    by_cases hdc : d = c
    · subst hdc
      rw [state, conns_setConn_self]
      exact hx
    · rw [state, conns_setConn_of_ne hdc]
      exact h.others d hd

theorem Quiet.act {s : Server τ υ} (h : s.Quiet rest) {c : Nat} (hc : c ∈ rest) (θ : Thread τ)
    (op : Op (Thread τ)) : (s.act θ c op).Quiet rest :=
  h.setConn rfl (.inl hc)

theorem Quiet.act_still {s : Server τ υ} (h : s.Quiet rest) {c : Nat} {op : Op (Thread τ)}
    (hop : op.Still (s.conns c).conn) (θ : Thread τ) : (s.act θ c op).Quiet rest :=
  h.setConn rfl (.inr ⟨hop.state, hop.events⟩)

/-- A connection on a loop whose thread is not in the destructor has been dealt with. -/
theorem Quiet.closed {s : Server τ υ} (h : s.Quiet rest) {c l : Nat} (hc : s.loopOf c = some l)
    (hl : l = 0 → rest = []) :
    s.state c = .disconnected ∧ (s.conns c).conn.channel.events = 0 := by
  rcases h.others c (loopOf_eq_some.1 hc).1 with hmem | hclosed
  · have hbase := h.base c hmem
    rw [hc, Option.some_inj] at hbase
    rw [hl hbase] at hmem
    cases hmem
  · exact hclosed

/-- An empty poll is all that can happen when every channel of the loop is off. -/
theorem Quiet.no_events {s : Server τ υ} (h : s.Quiet rest) {l : Nat}
    (hl : l = 0 → rest = [] ∧ s.acceptor = none) {events : List (KEvent (Option Nat))}
    (hevents : ∀ e ∈ events, s.MayReport l e) : events = [] := by
  apply List.eq_nil_iff_forall_not_mem.2
  intro e he
  rcases hevents e he with ⟨hloop, hfilter⟩
  cases hudata : e.udata with
  | none =>
      rw [hudata] at hloop
      have hacceptor := (hl hloop.1).2
      simp [hacceptor] at hloop
  | some c =>
      rw [hudata] at hloop hfilter
      have hoff := (h.closed (loopOf_eq_some.2 hloop) fun h0 => (hl h0).1).2
      have hread : (s.channels (some c)).isReading = false := isReading_of_events_eq_zero hoff
      have hwrite : (s.channels (some c)).isWriting = false :=
        Channel.isWriting_of_events_eq_zero hoff
      cases hkind : e.filter with
      | read =>
          rw [hkind, hread] at hfilter
          cases hfilter
      | write =>
          rw [hkind, hwrite] at hfilter
          cases hfilter

theorem Quiet.poll_nil {s : Server τ υ} (h : s.Quiet rest) (l : Nat) : (s.poll l []).Quiet rest := by
  have hio : (s.setIo l ⟨{ (s.loops l).loop with eventHandling := true }, []⟩).Quiet rest := by
    apply h.setIo
    · nofun
    · exact fun k hk => h.inert_of_queued hk
  exact ⟨h.base, h.others, hio.todo, hio.functors, h.stopping⟩

variable [DecidableEq τ]

theorem Quiet.setFlight {s : Server τ υ} (h : s.Quiet rest) {θ : Thread τ} {j : Option (Job τ υ)}
    (hj : ∀ k, j = some k → k.task.Inert rest) : (s.setFlight θ j).Quiet rest := by
  refine ⟨h.base, h.others, h.todo, ?_, h.stopping⟩
  intro k hk
  rcases hk with hk | ⟨θ', j', hj', rfl⟩ | hk
  · exact h.functors k (.inl hk)
  · by_cases hθ : θ' = θ
    · subst hθ
      rw [inFlight_setFlight_self] at hj'
      exact hj j' hj'
    · rw [inFlight_setFlight_of_ne hθ] at hj'
      exact h.functors _ (.inr (.inl ⟨θ', j', hj', rfl⟩))
  · cases hk

theorem Quiet.runInLoop {s : Server τ υ} (h : s.Quiet rest) {k : Task τ υ} (hk : k.Inert rest)
    (θ : Thread τ) (l : Nat) : (s.runInLoop θ l k).Quiet rest := by
  apply h.setFlight
  intro j hj
  cases hj
  exact hk

theorem Quiet.push {s : Server τ υ} (h : s.Quiet rest) {k : Task τ υ} (hk : k.Inert rest)
    (θ : Thread τ) (l : Nat) : (s.push θ l k).Quiet rest := by
  have hpushed : (s.setLoop l ((s.loops l).loop.queueInLoop (θ = .loop l) k)).Quiet rest := by
    apply h.setLoop
    intro k' hk'
    rw [EventLoop.queued_queueInLoop, List.mem_append, List.mem_singleton] at hk'
    rcases hk' with hk' | rfl
    · exact h.inert_of_queued hk'
    · exact hk
  exact ⟨hpushed.base, hpushed.others, hpushed.todo, hpushed.functors, hpushed.stopping⟩

/-! ## Steps -/

/-- A member that does not make the close callback does not call into the server. -/
theorem exec_of_not_closes {s : Server τ υ} {c l : Nat} {op : Op (Thread τ)}
    (hc : s.loopOf c = some l)
    (hcloses : (op.run (s.conns c).conn).2.contains .closeCallback = false) :
    s.exec (.loop l) c op = s.act (.loop l) c op := by
  have hloop := (loopOf_eq_some.1 hc).2
  unfold Server.exec
  simp only [hloop, hcloses]
  simp

/-- What a step of another thread, or of any thread once the destructor is over, keeps. -/
structure StaysQuiet (rest : List Nat) (s t : Server τ υ) : Prop where
  quiet : t.Quiet rest
  alone : s.LeftAlone t

theorem Quiet.exec {s : Server τ υ} (h : s.Quiet rest) {c l : Nat} {op : Op (Thread τ)}
    (hc : s.loopOf c = some l) (hop : op.Still (s.conns c).conn) :
    s.StaysQuiet rest (s.exec (.loop l) c op) := by
  rw [exec_of_not_closes hc hop.closes]
  exact ⟨h.act_still hop _, leftAlone_act hop.asserts _⟩

theorem Quiet.perform {s : Server τ υ} (h : s.Quiet rest) {l : Nat} {k : Task τ υ}
    (hl : l = 0 → rest = []) (hk : k.Inert rest) (hon : k.On s.loopOf l) (w : WriteResult) :
    s.StaysQuiet rest (s.perform (.loop l) w k) := by
  cases k with
  | conn c f =>
      rcases h.closed hon hl with ⟨hstate, hevents⟩
      rcases hk with hmem | rfl | rfl
      · have hbase := h.base c hmem
        rw [show s.loopOf c = some l from hon, Option.some_inj] at hbase
        rw [hl hbase] at hmem
        cases hmem
      · exact h.exec hon (Op.still_connectDestroyed (.inr hevents))
      · exact h.exec hon (Op.still_shutdownInLoop hstate hevents)
  | user x => exact ⟨h, .of_conns rfl rfl rfl rfl⟩
  | removeConnectionInLoop c => cases hk
  | stop => cases hk

theorem Quiet.deliver {s : Server τ υ} (h : s.Quiet rest) {θ : Thread τ} {j : Job τ υ}
    (hθ : θ = .loop 0 → rest = []) (hj : j.task.Inert rest) (hon : j.task.On s.loopOf j.loop)
    (w : WriteResult) : s.StaysQuiet rest (s.deliver θ w j) := by
  have hidle : (s.setFlight θ none).Quiet rest := h.setFlight nofun
  unfold Server.deliver
  dsimp only
  split
  · next hinline =>
      rcases hinline with ⟨-, rfl⟩
      have hperform := hidle.perform (fun h0 => hθ (by rw [h0])) hj hon w
      have halone : s.LeftAlone (s.setFlight (.loop j.loop) none) := .of_conns rfl rfl rfl rfl
      exact ⟨hperform.quiet, halone.trans hperform.alone⟩
  · exact ⟨hidle.push hj θ j.loop, .of_conns rfl rfl rfl rfl⟩

theorem Quiet.call {s : Server τ υ} (h : s.Quiet rest) {c : Nat} (hc : c < s.accepted)
    (θ : Thread τ) (k : Call) : s.StaysQuiet rest (s.call θ c k) := by
  -- A connection the destructor has dealt with passes none of the state tests.
  have hmem : s.state c ≠ .disconnected → c ∈ rest := by
    intro hopen
    rcases h.others c hc with hmem | hclosed
    · exact hmem
    · exact absurd hclosed.1 hopen
  cases k with
  | send data =>
      have hsent : ({ s with sends := s.sends + 1 } : Server τ υ).Quiet rest :=
        ⟨h.base, h.others, h.todo, h.functors, h.stopping⟩
      simp only [Server.call]
      split
      · next hconnected =>
          have hstate : s.state c = .connected := beq_iff_eq.1 hconnected
          have hrest := hmem (by simp [hstate])
          exact ⟨hsent.runInLoop (Task.inert_conn hrest _) θ _, .of_conns rfl rfl rfl rfl⟩
      · exact ⟨hsent, .of_conns rfl rfl rfl rfl⟩
  | shutdown =>
      simp only [Server.call]
      split
      · next hconnected =>
          have hstate : s.state c = .connected := beq_iff_eq.1 hconnected
          have hrest := hmem (by simp [hstate])
          exact ⟨(h.act hrest θ .shutdown).runInLoop (Task.inert_conn hrest _) θ _,
            (leftAlone_act (by rfl) θ).trans (.of_conns rfl rfl rfl rfl)⟩
      · exact ⟨h, .of_conns rfl rfl rfl rfl⟩
  | forceClose =>
      simp only [Server.call]
      split
      · next hclosable =>
          have hopen : s.state c ≠ .disconnected := by
            intro hstate
            rw [TcpConnection.closable, show (s.conns c).conn.state = _ from hstate] at hclosable
            cases hclosable
          have hrest := hmem hopen
          exact ⟨(h.act hrest θ .forceClose).runInLoop (Task.inert_conn hrest _) θ _,
            (leftAlone_act (by rfl) θ).trans (.of_conns rfl rfl rfl rfl)⟩
      · exact ⟨h, .of_conns rfl rfl rfl rfl⟩

/-- A quiet server stays so under every step of a thread that is not in the destructor. -/
theorem step_quiet {s t : Server τ υ} {i : ServerInput τ υ} (h : s.Quiet rest)
    (hplaced : s.Placed) (hbase : i.thread = .loop 0 → rest = [] ∧ s.acceptor = none)
    (hstop : i.isStop = false) (hstep : s.step i = some t) : s.StaysQuiet rest t := by
  have hloop : ∀ l, i.thread = .loop l → l = 0 → rest = [] ∧ s.acceptor = none :=
    fun l hl h0 => hbase (by rw [hl, h0])
  cases (step_spec hstep).2 with
  | call hfree hc => exact h.call hc _ _
  | stop => cases hstop
  | stopNext hstopping =>
      rw [h.stopping] at hstopping
      cases hstopping
  | @deliver θ w j hj =>
      apply h.deliver (fun hθ => (hbase hθ).1)
      · exact h.functors _ (.inr (.inl ⟨θ, j, hj, rfl⟩))
      · exact hplaced.flight θ j hj
  | queueUser => exact ⟨h.setFlight (by rintro j ⟨⟩; trivial), .of_conns rfl rfl rfl rfl⟩
  | @poll l events hfree hevents =>
      rw [h.no_events (hloop l rfl) hevents]
      exact ⟨h.poll_nil l, rfl, rfl, rfl, fun c => rfl⟩
  | @callback l r retrieved w sockfd c kind todo htodo =>
      have hmem : (some c, kind) ∈ (s.loops l).todo := by simp [htodo]
      have hon : s.loopOf c = some l := (hplaced.loops l).todo _ hmem
      rcases h.todo l _ hmem with ⟨hl, hkind⟩
      rcases h.closed hon (fun h0 => absurd h0 hl) with ⟨hstate, hevents⟩
      have hrest := (h.setTodo htodo).exec hon (Op.still_callback hstate hevents hkind r retrieved w)
      have halone : s.LeftAlone (s.setTodo l todo) := .of_conns rfl rfl rfl rfl
      exact ⟨hrest.quiet, halone.trans hrest.alone⟩
  | @accept l r retrieved w sockfd kind todo htodo =>
      have hmem : (none, kind) ∈ (s.loops l).todo := by simp [htodo]
      exact absurd ((hplaced.loops l).todo _ hmem) (h.todo l _ hmem).1
  | acceptFailed htodo => exact ⟨h.setTodo htodo, .of_conns rfl rfl rfl rfl⟩
  | @doPendingFunctors l htodo hfunctors =>
      refine ⟨h.setLoop ?_, .of_conns rfl rfl rfl rfl⟩
      intro k hk
      rw [EventLoop.queued_beginPendingFunctors (by exact hfunctors)] at hk
      exact h.inert_of_queued hk
  | @functor l w k functors hfunctors =>
      have hqueued := EventLoop.queued_of_functors hfunctors
      have hmem : k ∈ (s.loops l).loop.queued := by simp [hqueued]
      have hpop : (s.setLoop l { (s.loops l).loop with functors }).Quiet rest := by
        apply h.setLoop
        intro k' hk'
        apply h.inert_of_queued (l := l)
        rw [hqueued]
        exact List.mem_cons_of_mem k hk'
      have hperform := hpop.perform (fun h0 => (hloop l rfl h0).1) (h.inert_of_queued hmem)
        ((hplaced.loops l).queued k hmem) w
      have halone : s.LeftAlone (s.setLoop l { (s.loops l).loop with functors }) :=
        .of_conns rfl rfl rfl rfl
      exact ⟨hperform.quiet, halone.trans hperform.alone⟩
  | endPendingFunctors =>
      exact ⟨h.setLoop fun k hk => h.inert_of_queued hk, .of_conns rfl rfl rfl rfl⟩

/-! ## The callback inside the destructor -/

omit [DecidableEq τ] in
theorem Placed.destroy {s : Server τ υ} (h : s.Placed) {c : Nat} (hc : s.loopOf c = some 0)
    (p : TcpConnection (List UInt8) × List Effect) :
    (s.setConn c ((s.conns c).destroy p)).Placed := by
  refine h.setConn rfl ?_
  intro e he _
  rcases List.mem_append.1 he with he | he
  · exact h.members c e he ‹_›
  · rw [List.mem_singleton.1 he]
    exact congrArg Thread.loop (loopOf_eq_some.1 hc).2.symm

omit [DecidableEq τ] in
theorem Quiet.beginDestroyed {s : Server τ υ} {c : Nat} (h : s.Quiet (c :: rest)) :
    s.StaysQuiet (c :: rest) (s.beginDestroyed c) := by
  refine ⟨h.setConn rfl (.inl List.mem_cons_self), leftAlone_destroy ?_⟩
  unfold TcpConnection.beginDestroyed TcpConnection.notify
  split <;> rfl

omit [DecidableEq τ] in
/-- Nothing is left of a connection whose callback has left the channel off and queued
nothing. -/
theorem Quiet.endDestroyed {s : Server τ υ} {c : Nat} (h : s.Quiet (c :: rest))
    (hevents : (s.conns c).conn.channel.events = 0) (hidle : ∀ f, ¬s.Pending [] (.conn c f)) :
    s.StaysQuiet rest (s.endDestroyed c) := by
  refine ⟨⟨?_, ?_, h.todo, ?_, h.stopping⟩, leftAlone_destroy ?_⟩
  · have hsame : (s.endDestroyed c).loopOf = s.loopOf := loopOf_setConn rfl
    intro d hd
    rw [hsame]
    exact h.base d (List.mem_cons_of_mem c hd)
  · intro d hd
    by_cases hdc : d = c
    · subst hdc
      rw [state, Server.endDestroyed, conns_setConn_self]
      exact .inr ⟨rfl, hevents⟩
    · rw [state, Server.endDestroyed, conns_setConn_of_ne hdc]
      rcases h.others d hd with hmem | hclosed
      · exact .inl (List.mem_of_ne_of_mem hdc hmem)
      · exact .inr hclosed
  · intro k hk
    have hinert := h.functors k hk
    cases k with
    | conn d f =>
        rcases hinert with hmem | hf
        · have hdc : d ≠ c := by
            intro heq
            subst heq
            exact hidle f hk
          exact .inl (List.mem_of_ne_of_mem hdc hmem)
        · exact .inr hf
    | user x => trivial
    | removeConnectionInLoop d => cases hinert
    | stop => cases hinert
  · unfold TcpConnection.endDestroyed
    dsimp only
    split <;> rfl

theorem mild_call {s : Server τ υ} {θ : Thread τ} {c : Nat} {k : Call} (hidle : s.inFlight θ = none)
    (hk : k = .forceClose → (s.conns c).conn.closable = false) {j : Job τ υ}
    (hj : (s.call θ c k).inFlight θ = some j) : j.task.Mild := by
  cases k with
  | send data | shutdown =>
      simp only [Server.call] at hj
      split at hj
      · rw [Server.runInLoop, inFlight_setFlight_self] at hj
        cases hj
        trivial
      · cases hidle.symm.trans hj
  | forceClose =>
      simp only [Server.call, hk rfl] at hj
      cases hidle.symm.trans hj

theorem Quiet.exec_mild {s : Server τ υ} (h : s.Quiet rest) {c : Nat} {op : Op (Thread τ)}
    (hc : s.loopOf c = some 0) (hrest : c ∈ rest)
    (hcloses : (op.run (s.conns c).conn).2.contains .closeCallback = false)
    (hasserts : (op.run (s.conns c).conn).2.contains .assertFailed = false) :
    s.StaysQuiet rest (s.exec (.loop 0) c op) ∧
      (s.exec (.loop 0) c op).inFlight = s.inFlight := by
  rw [exec_of_not_closes hc hcloses]
  exact ⟨⟨h.act hrest _ _, leftAlone_act hasserts _⟩, rfl⟩

/-- On the base loop's thread, a mild functor calls nobody. -/
theorem Quiet.perform_mild {s : Server τ υ} (h : s.Quiet rest) {k : Task τ υ} {w : WriteResult}
    (hk : k.Inert rest) (hmild : k.Mild) (hon : k.On s.loopOf 0) (hfits : k.Fits w) :
    s.StaysQuiet rest (s.perform (.loop 0) w k) ∧
      (s.perform (.loop 0) w k).inFlight = s.inFlight := by
  cases k with
  | user x => exact ⟨⟨h, .of_conns rfl rfl rfl rfl⟩, rfl⟩
  | removeConnectionInLoop c => cases hk
  | stop => cases hk
  | conn c f =>
      cases f with
      | sendInLoop m =>
          have hrest : c ∈ rest := by
            rcases hk with hrest | hf | hf
            · exact hrest
            · cases hf
            · cases hf
          exact h.exec_mild hon hrest (Op.contains_sendInLoop hfits nofun nofun)
            (Op.contains_sendInLoop hfits nofun nofun)
      | shutdownInLoop =>
          rcases h.others c (loopOf_eq_some.1 hon).1 with hrest | ⟨hstate, hevents⟩
          · exact h.exec_mild hon hrest (Op.contains_shutdownInLoop nofun)
              (Op.contains_shutdownInLoop nofun)
          · have hstill : (Op.shutdownInLoop : Op (Thread τ)).Still (s.conns c).conn :=
              Op.still_shutdownInLoop hstate hevents
            refine ⟨h.exec hon hstill, ?_⟩
            show (s.exec (.loop 0) c .shutdownInLoop).inFlight = s.inFlight
            rw [exec_of_not_closes hon hstill.closes]
            rfl
      | _ => cases hmild

theorem Quiet.step_calls {s t : Server τ υ} {i : ServerInput τ υ} (h : s.Quiet rest)
    (hplaced : s.Placed) (hmild : ∀ j, s.inFlight (.loop 0) = some j → j.task.Mild)
    (hthread : i.thread = .loop 0) (hcall : i.isCall = true)
    (hcloses : ∀ c, i = .call (.loop 0) c .forceClose → (s.conns c).conn.closable = false)
    (hstep : s.step i = some t) :
    s.StaysQuiet rest t ∧ ∀ j, t.inFlight (.loop 0) = some j → j.task.Mild := by
  cases (step_spec hstep).2 with
  | @call θ c k hfree hc =>
      obtain rfl : θ = .loop 0 := hthread
      refine ⟨h.call hc _ k, fun j hj => mild_call hfree.1 ?_ hj⟩
      rintro rfl
      exact hcloses c rfl
  | @deliver θ w j hj hfits =>
      obtain rfl : θ = .loop 0 := hthread
      have hidle : (s.setFlight (.loop 0) none).Quiet rest := h.setFlight nofun
      have hinert : j.task.Inert rest := h.functors _ (.inr (.inl ⟨_, j, hj, rfl⟩))
      have halone : s.LeftAlone (s.setFlight (.loop 0) none) := .of_conns rfl rfl rfl rfl
      have hflight : (s.setFlight (.loop 0) none).inFlight (.loop 0) = none :=
        inFlight_setFlight_self s (.loop 0) none
      unfold Server.deliver
      dsimp only
      split
      · next hinline =>
          have hloop : j.loop = 0 := (Thread.loop.inj hinline.2).symm
          have hon : j.task.On s.loopOf 0 := hloop ▸ hplaced.flight _ j hj
          rcases hidle.perform_mild hinert (hmild j hj) hon hfits with ⟨hperform, hsame⟩
          refine ⟨⟨hperform.quiet, halone.trans hperform.alone⟩, fun j' hj' => ?_⟩
          rw [hsame, hflight] at hj'
          cases hj'
      · refine ⟨⟨hidle.push hinert _ _, .of_conns rfl rfl rfl rfl⟩, fun j' hj' => ?_⟩
        cases hflight.symm.trans hj'
  | @queueUser θ l x hfree =>
      obtain rfl : θ = .loop 0 := hthread
      refine ⟨⟨h.setFlight (by rintro j ⟨⟩; trivial), .of_conns rfl rfl rfl rfl⟩, ?_⟩
      intro j hj
      rw [Server.queueInLoop, inFlight_setFlight_self] at hj
      cases hj
      trivial
  | _ => cases hcall

omit [DecidableEq τ] in
theorem not_pending_of_idle {s : Server τ υ} (hloops : ∀ l, (s.loops l).loop.queued = [])
    (hflight : ∀ θ, s.inFlight θ = none) (k : Task τ υ) : ¬s.Pending [] k := by
  intro hk
  rcases hk with ⟨l, hl⟩ | ⟨θ, j, hj, -⟩ | hk
  · rw [hloops l] at hl
    cases hl
  · rw [hflight θ] at hj
    cases hj
  · cases hk

omit [DecidableEq τ] in
theorem SafeSince.trans {found s t : Server τ υ} (h : found.SafeSince s) (halone : s.LeftAlone t)
    (halive : t.aborted = false) : found.SafeSince t :=
  ⟨halive, halone.accesses.trans h.accesses, fun c => (halone.failures c).trans (h.failures c)⟩

omit [DecidableEq τ] in
structure Ruined (found s : Server τ υ) (rest : List Nat) : Prop where
  placed : s.Placed
  quiet : s.Quiet rest
  since : found.SafeSince s
  held : ∀ p ∈ found.connections, p.2 < s.accepted

omit [DecidableEq τ] in
theorem Ruined.closed {found s : Server τ υ} (h : found.Ruined s rest) :
    ∀ p ∈ found.connections, p.2 ∈ rest ∨ s.state p.2 = .disconnected := by
  intro p hp
  rcases h.quiet.others p.2 (h.held p hp) with hmem | hclosed
  · exact .inl hmem
  · exact .inr hclosed.1

omit [DecidableEq τ] in
theorem Ruined.stays {found s t : Server τ υ} {before : List Nat} (h : found.Ruined s before)
    (hplaced : t.Placed) (hquiet : s.StaysQuiet rest t) : found.Ruined t rest := by
  refine ⟨hplaced, hquiet.quiet, h.since.trans hquiet.alone hplaced.alive, ?_⟩
  rw [hquiet.alone.accepted]
  exact h.held

end Server

/-! ## Runs -/

namespace Teardown

def Steady (s : Teardown τ υ) : Prop :=
  match s.phase with
  | .alive => s.server.Placed
  | .destroying found rest =>
      found.Ruined s.server rest ∧ s.server.inFlight (.loop 0) = none
  | .notifying found c rest => found.Ruined s.server (c :: rest) ∧
      ∀ j, s.server.inFlight (.loop 0) = some j → j.task.Mild
  | .destroyed found => found.Ruined s.server [] ∧ s.server.acceptor = none

theorem Steady.safe {s : Teardown τ υ} (h : s.Steady) : s.Safe := by
  rcases s with ⟨server, _ | ⟨found, rest⟩ | ⟨found, c, rest⟩ | found⟩
  · trivial
  · exact ⟨h.1.since, h.1.closed⟩
  · exact ⟨h.1.since, h.1.closed⟩
  · refine ⟨h.1.since, fun p hp => ?_⟩
    rcases h.1.closed p hp with hmem | hclosed
    · cases hmem
    · exact hclosed

variable [DecidableEq τ]

theorem steady_server {s t : Teardown τ υ} {i : ServerInput τ υ} (h : s.Steady)
    (hc : s.DestroysQuiet (.server i)) (hstep : s.step (.server i) = some t) : t.Steady := by
  simp only [step] at hstep
  split at hstep
  · next henabled =>
      rcases Option.map_eq_some_iff.1 hstep with ⟨u, hu, rfl⟩
      rcases s with ⟨server, _ | ⟨found, rest⟩ | ⟨found, c, rest⟩ | found⟩
      · exact Server.step_placed h hu
      · have hquiet := Server.step_quiet h.1.quiet h.1.placed
          (fun hbase => absurd hbase henabled.1) henabled.2 hu
        refine ⟨h.1.stays (Server.step_placed h.1.placed hu) hquiet, ?_⟩
        exact (Server.inFlight_step_of_ne (Ne.symm henabled.1) hu).trans h.2
      · have hplaced := Server.step_placed h.1.placed hu
        by_cases hthread : i.thread = .loop 0
        · have hcloses : ∀ d, i = .call (.loop 0) d .forceClose →
              (server.conns d).conn.closable = false := by
            rintro d rfl
            exact hc
          rcases h.1.quiet.step_calls h.1.placed h.2 hthread (henabled.2 hthread).1 hcloses hu with
            ⟨hquiet, hmild⟩
          exact ⟨h.1.stays hplaced hquiet, hmild⟩
        · have hquiet := Server.step_quiet h.1.quiet h.1.placed
            (fun hbase => absurd hbase hthread) henabled.1 hu
          refine ⟨h.1.stays hplaced hquiet, ?_⟩
          rw [Server.inFlight_step_of_ne (Ne.symm hthread) hu]
          exact h.2
      · have hquiet := Server.step_quiet h.1.quiet h.1.placed (fun _ => ⟨rfl, h.2⟩) henabled hu
        exact ⟨h.1.stays (Server.step_placed h.1.placed hu) hquiet,
          hquiet.alone.acceptor.trans h.2⟩
  · cases hstep

theorem steady_destroy {s t : Teardown τ υ} (h : s.Steady) (hc : s.DestroysQuiet .destroy)
    (hstep : s.step .destroy = some t) : t.Steady := by
  rcases s with ⟨server, _ | ⟨found, rest⟩ | ⟨found, c, rest⟩ | found⟩
  · rcases Option.ite_none_right_eq_some.1 hstep with ⟨hguard, ⟨⟩⟩
    have hplaced : server.Placed := h
    refine ⟨⟨hplaced, hc, ⟨hplaced.alive, rfl, fun _ => rfl⟩, ?_⟩, hguard.2.1⟩
    exact fun p hp => Server.loopOf_isSome.1 (hplaced.registered p hp)
  · cases hstep
  · cases hstep
  · cases hstep

theorem steady_destroyNext {s t : Teardown τ υ} (h : s.Steady)
    (hc : s.DestroysQuiet .destroyNext) (hstep : s.step .destroyNext = some t) : t.Steady := by
  rcases s with ⟨server, _ | ⟨found, _ | ⟨c, rest⟩⟩ | ⟨found, c, rest⟩ | found⟩
  · cases hstep
  · cases hstep
  · have hbase := h.1.quiet.base c List.mem_cons_self
    have hfound : (server.conns c).loop = 0 ∧ server.state c = .connected :=
      ⟨(Server.loopOf_eq_some.1 hbase).2, hc⟩
    rcases Option.ite_none_right_eq_some.1 hstep with ⟨-, hbegin⟩
    rw [if_pos hfound] at hbegin
    cases hbegin
    refine ⟨h.1.stays (h.1.placed.destroy hbase _) h.1.quiet.beginDestroyed, ?_⟩
    intro j hj
    cases h.2.symm.trans hj
  · cases hstep
  · cases hstep

theorem steady_destroyReturn {s t : Teardown τ υ} (h : s.Steady)
    (hc : s.DestroysQuiet .destroyReturn) (hstep : s.step .destroyReturn = some t) :
    t.Steady := by
  rcases s with ⟨server, _ | ⟨found, rest⟩ | ⟨found, c, rest⟩ | found⟩
  · cases hstep
  · cases hstep
  · have hbase := h.1.quiet.base c List.mem_cons_self
    rcases Option.ite_none_right_eq_some.1 hstep with ⟨hguard, ⟨⟩⟩
    exact ⟨h.1.stays (h.1.placed.destroy hbase _) (h.1.quiet.endDestroyed hc.1 hc.2), hguard.2⟩
  · cases hstep

theorem steady_destroyMembers {s t : Teardown τ υ} (h : s.Steady)
    (hstep : s.step .destroyMembers = some t) : t.Steady := by
  simp only [step] at hstep
  split at hstep
  · next found hphase =>
      split at hstep
      · cases hstep
        have hruined : found.Ruined s.server [] := by
          simp only [Steady, hphase] at h
          exact h.1
        rcases hruined with ⟨hplaced, hquiet, hsince, hheld⟩
        refine ⟨⟨?_, ?_, ⟨hsince.alive, hsince.accesses, hsince.failures⟩, hheld⟩, rfl⟩
        · exact ⟨⟨hplaced.members, hplaced.accesses, hplaced.alive⟩, hplaced.loops, hplaced.flight,
            hplaced.stopping, nofun, hplaced.posted⟩
        · exact ⟨hquiet.base, hquiet.others, hquiet.todo, hquiet.functors, hquiet.stopping⟩
      · cases hstep
  · cases hstep

theorem step_steady {s t : Teardown τ υ} {i : TeardownInput τ υ} (h : s.Steady)
    (hc : s.DestroysQuiet i) (hstep : s.step i = some t) : t.Steady := by
  cases i with
  | server i => exact steady_server h hc hstep
  | destroy => exact steady_destroy h hc hstep
  | destroyNext => exact steady_destroyNext h hc hstep
  | destroyReturn => exact steady_destroyReturn h hc hstep
  | destroyMembers => exact steady_destroyMembers h hstep

/-- A server that is destroyed quietly is destroyed safely: its destructor does not abort,
leaves the connections it held Disconnected, and nothing on any loop enters the server or
fails an assertion from then on. -/
theorem destroy_safe_of_quiet (name : String) (numThreads : Nat) (cb mcb : Bool)
    (is : List (TeardownInput τ υ))
    (hmeets : (machine τ υ).Meets DestroysQuiet (start name numThreads cb mcb) is) :
    (machine τ υ).Always Safe (start name numThreads cb mcb) is := by
  apply Machine.Always.mono (P := Steady)
  · intro s hs
    exact hs.safe
  · apply Machine.always_of_meets _ _ hmeets
    · intro s i t hs hc hstep
      exact step_steady hs hc hstep
    · exact Server.start_placed name numThreads cb mcb

def accept (l : Nat) : List (TeardownInput Unit Unit) :=
  [.server (.poll 0 [⟨3, .read, false, false, none⟩]),
    .server (.callback 0 (.bytes []) 0 (.wrote 0) (some 7)),
    .server (.deliver (.loop 0) (.wrote 0))] ++
  if l = 0 then [] else
    [.server (.poll l []), .server (.doPendingFunctors l), .server (.functor l (.wrote 0))]

/-- The connection callback sends a byte when the connection is destroyed. -/
def destroy : List (TeardownInput Unit Unit) :=
  [.destroy, .destroyNext, .server (.call (.loop 0) 0 (.send [98])),
    .server (.deliver (.loop 0) (.wrote 1)), .destroyReturn, .destroyMembers]

/-- On the base loop the connection is destroyed quietly. -/
theorem destroy_base_connection : ∃ s : Teardown Unit Unit,
    (machine Unit Unit).run (start "echo" 0 true true) (accept 0 ++ destroy) = some s ∧
      s.server.connections = [] ∧ s.server.state 0 = .disconnected ∧ s.Safe := by
  have hmeets : (machine Unit Unit).Meets DestroysQuiet (start "echo" 0 true true)
      (accept 0 ++ destroy) := by
    refine fun t ht => ⟨trivial, ?_⟩
    cases ht
    refine fun t ht => ⟨trivial, ?_⟩
    cases ht
    refine fun t ht => ⟨trivial, ?_⟩
    cases ht
    refine fun t ht => ⟨?_, ?_⟩
    · refine ⟨by decide +kernel, by decide +kernel, ?_, ?_, rfl⟩
      · intro l p hp
        cases l <;> cases hp
      · intro k hk
        refine absurd hk (Server.not_pending_of_idle ?_ ?_ k)
        · intro l
          cases l <;> rfl
        · rintro ((_ | l) | t) <;> rfl
    cases ht
    refine fun t ht => ⟨rfl, ?_⟩
    cases ht
    refine fun t ht => ⟨trivial, ?_⟩
    cases ht
    refine fun t ht => ⟨trivial, ?_⟩
    cases ht
    refine fun t ht => ⟨⟨rfl, fun f => Server.not_pending_of_idle ?_ ?_ _⟩, ?_⟩
    · intro l
      cases l <;> rfl
    · rintro ((_ | l) | t) <;> rfl
    cases ht
    exact fun t ht => ⟨trivial, trivial⟩
  have hsafe := destroy_safe_of_quiet "echo" 0 true true _ hmeets
  exact ⟨_, rfl, rfl, rfl, hsafe.last rfl⟩

/-- The connection is on a loop of the pool, and the destructor, on the base loop's thread,
aborts in `connectDestroyed()`. -/
theorem destroy_pool_connection_aborts :
    ¬(machine Unit Unit).Always Safe (start "echo" 1 true true)
      (accept 1 ++ [.destroy, .destroyNext]) := by
  intro h
  have hend := h.last rfl
  have halive := hend.1.alive
  cases halive

end Teardown

end Hayai
