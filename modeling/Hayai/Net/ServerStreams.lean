import Hayai.Net.Closed
import Hayai.Net.Output
import Hayai.Net.ServerProgress

/-! # The output streams of a server

Threads send to any connections they like, through the queues of the loops. Each connection
still gets its own stream: the messages sent to it and no others, each thread's in its call
order, and what the socket has not taken yet waits in `outputBuffer_`.
-/

namespace Hayai

variable {τ υ : Type}

def Task.message? (c : Nat) : Task τ υ → Option (Message (Thread τ))
  | .conn d f => if d = c then f.message? else none
  | _ => none

/-! ## One connection -/

theorem TcpConnection.any_isWrite_sendInLoop {c : TcpConnection (List UInt8)}
    {message : List UInt8} {w : WriteResult} (hfit : w.count ≤ message.length) :
    (c.sendInLoop message w).2.any Effect.isWrite = c.direct := by
  refine sendInLoop_cases (P := fun p => p.2.any Effect.isWrite = c.direct) hfit ?_ ?_ ?_ ?_
  · intro hdirect _
    simp [hdirect, Effect.isWrite]
  · intro hdirect _ _
    simp [hdirect, Effect.isWrite]
  · intro hdirect _
    simp [hdirect]
  · intro hdirect _
    cases c.channel.isWriting <;> simp [hdirect, Effect.isWrite]

/-- The `sendInLoop` execution, with whether its message was dropped: the direct write has
failed for good. -/
def Entry.record (e : Entry τ) : List (Message (Thread τ) × Bool) :=
  match e.op with
  | .sendInLoop m w => [(m, e.effects.any Effect.isWrite && w.fault)]
  | _ => []

theorem Entry.record_run {c : TcpConnection (List UInt8)} {op : Op (Thread τ)} (h : op.Fits c)
    (θ : Thread τ) (found : ConnState) :
    (⟨θ, found, op, (op.run c).2⟩ : Entry τ).record = op.record c := by
  cases op with
  | sendInLoop m w =>
      simp only [record, Op.run, Op.record, TcpConnection.faulted,
        TcpConnection.any_isWrite_sendInLoop h]
  | _ => rfl

namespace Connection

def log (x : Connection τ) : List Effect := x.history.flatMap Entry.effects

def ran (x : Connection τ) : List (Message (Thread τ) × Bool) := x.history.flatMap Entry.record

theorem log_act (x : Connection τ) (θ : Thread τ) (op : Op (Thread τ)) :
    (x.act θ op).log = x.log ++ (op.run x.conn).2 := by
  simp [log, act]

theorem ran_act {x : Connection τ} {op : Op (Thread τ)} (h : op.Fits x.conn) (θ : Thread τ) :
    (x.act θ op).ran = x.ran ++ op.record x.conn := by
  simp only [ran, act, List.flatMap_append, List.flatMap_singleton, Entry.record_run h]

/-- What the socket took and what is buffered make up the messages that have run, and the
connection waits for write events exactly while something is buffered. -/
structure Streams (x : Connection τ) : Prop where
  stream : sentBytes x.log ++ x.conn.outputBuffer = x.ran.flatMap kept
  writing : x.conn.state ≠ .disconnected → x.conn.WritingIffBuffered

theorem Streams.act {x : Connection τ} (h : x.Streams) (θ : Thread τ) {op : Op (Thread τ)}
    (hfits : op.Fits x.conn) : (x.act θ op).Streams where
  stream :=
    calc
      sentBytes (x.act θ op).log ++ (x.act θ op).conn.outputBuffer
          = sentBytes x.log ++ (sentBytes (op.run x.conn).2 ++ (op.run x.conn).1.outputBuffer) := by
            rw [log_act, sentBytes_append, List.append_assoc]
            rfl
      _ = sentBytes x.log ++ x.conn.outputBuffer ++ (op.record x.conn).flatMap kept := by
            rw [Op.run_stream hfits, List.append_assoc]
      _ = (x.act θ op).ran.flatMap kept := by
            rw [h.stream, ran_act hfits, List.flatMap_append]
  writing hopen := Op.run_writing hfits hopen (h.writing (Op.run_open hfits hopen))

theorem Streams.new {x : Connection τ} {sockfd : Nat} {cb mcb : Bool}
    (hconn : x.conn = TcpConnection.new sockfd [] cb mcb) (hhistory : x.history = []) :
    x.Streams := by
  constructor
  · simp [log, ran, hhistory, hconn, TcpConnection.new]
  · intro _
    simp [hconn, TcpConnection.WritingIffBuffered, TcpConnection.new, Channel.new,
      Channel.isWriting]

/-- A step runs at most one member of the connection; it may set `revents_` or count a
removal. -/
inductive Steps (x : Connection τ) : Connection τ → Prop
  | act (θ : Thread τ) {op : Op (Thread τ)} (hfits : op.Fits x.conn) : Steps x (x.act θ op)
  | setRevents (revt : BitVec 32) : Steps x { x with conn := x.conn.setRevents revt }
  | removals (n : Nat) : Steps x { x with removals := n }
  | same : Steps x x

theorem Steps.loop {x y : Connection τ} (hsteps : x.Steps y) : y.loop = x.loop := by
  cases hsteps <;> rfl

theorem Steps.streams {x y : Connection τ} (hsteps : x.Steps y) (h : x.Streams) : y.Streams := by
  cases hsteps with
  | act θ hfits => exact h.act θ hfits
  | setRevents revt => exact ⟨h.stream, h.writing⟩
  | removals n => exact ⟨h.stream, h.writing⟩
  | same => exact h

end Connection

namespace Server

variable [DecidableEq τ]

omit [DecidableEq τ] in
theorem steps_act {s : Server τ υ} {c : Nat} {op : Op (Thread τ)}
    (hfits : op.Fits (s.conns c).conn) (θ : Thread τ) (d : Nat) :
    (s.conns d).Steps ((s.act θ c op).conns d) := by
  by_cases hd : d = c
  · subst hd
    rw [act, conns_setConn_self]
    exact .act θ hfits
  · rw [conns_act_of_ne hd]
    exact .same

theorem steps_exec {s : Server τ υ} {c : Nat} {op : Op (Thread τ)}
    (hfits : op.Fits (s.conns c).conn) (θ : Thread τ) (d : Nat) :
    (s.conns d).Steps ((s.exec θ c op).conns d) := by
  unfold exec
  split
  · exact .same
  · dsimp only
    split <;> exact steps_act hfits θ d

theorem steps_perform {s : Server τ υ} {k : Task τ υ} {w : WriteResult} (hfits : k.Fits w)
    (θ : Thread τ) (d : Nat) : (s.conns d).Steps ((s.perform θ w k).conns d) := by
  cases k with
  | conn c f => exact steps_exec (fits_op rfl hfits _) θ d
  | removeConnectionInLoop c =>
      simp only [perform, removeConnectionInLoop]
      split
      · by_cases hd : d = c
        · subst hd
          split <;> simp [queueInLoop, setFlight, erase, note] <;> exact .removals _
        · split <;> simp [queueInLoop, setFlight, erase, note, conns_setConn_of_ne hd] <;>
            exact .same
      · exact .same
  | stop => exact .same
  | user x => exact .same

theorem steps_call (s : Server τ υ) (θ : Thread τ) (c : Nat) (k : Call) (d : Nat) :
    (s.conns d).Steps ((s.call θ c k).conns d) := by
  cases k with
  | send data =>
      simp only [call]
      split <;> exact .same
  | shutdown =>
      simp only [call]
      split
      · exact steps_act (show Op.Fits _ .shutdown from trivial) θ d
      · exact .same
  | forceClose =>
      simp only [call]
      split
      · exact steps_act (show Op.Fits _ .forceClose from trivial) θ d
      · exact .same

theorem step_steps {s t : Server τ υ} {i : ServerInput τ υ} (hstep : s.step i = some t) {d : Nat}
    (hd : d < s.accepted) : (s.conns d).Steps (t.conns d) := by
  cases (step_spec hstep).2 with
  | call => exact steps_call s _ _ _ d
  | @stopNext c stopping => exact steps_call ({ s with stopping } : Server τ υ) _ c _ d
  | @deliver θ w j hj hfits =>
      unfold deliver
      dsimp only
      split
      · exact steps_perform (s := s.setFlight θ none) hfits θ d
      · exact .same
  | poll => exact .setRevents _
  | @callback l r retrieved w sockfd c kind todo htodo hfree hfits =>
      exact steps_exec (s := s.setTodo l todo) hfits _ d
  | @accept l r retrieved w sockfd kind todo =>
      unfold newConnection
      split
      · have hne : d ≠ (s.setTodo l todo).getNextLoop.2.accepted := by
          rw [accepted_getNextLoop]
          exact Nat.ne_of_lt hd
        simp only [runInLoop, setFlight, conns_register_of_ne hne, conns_getNextLoop]
        exact .same
      · exact .same
  | functor hfunctors hfree hfits => exact steps_perform (s := s.setLoop _ _) hfits _ d
  | _ => exact .same

/-! ## Messages on their way -/

def queuedTo (s : Server τ υ) (c : Nat) : List (Message (Thread τ)) :=
  (s.loops (s.conns c).loop).loop.queued.filterMap (Task.message? c)

def heldBy (s : Server τ υ) (θ : Thread τ) (c : Nat) : List (Message (Thread τ)) :=
  ((s.inFlight θ).bind fun j => j.task.message? c).toList

/-- The message that the step sends to connection `c`: a `send()` that finds it connected. -/
def sends? (s : Server τ υ) (c : Nat) : ServerInput τ υ → Option (Message (Thread τ))
  | .call θ d (.send data) =>
      if d = c ∧ (s.conns c).conn.connected = true then some ⟨s.sends, .other θ, data⟩ else none
  | _ => none

def sentTo (c : Nat) : Server τ υ → List (ServerInput τ υ) → List (Message (Thread τ))
  | _, [] => []
  | s, i :: is =>
      match s.step i with
      | some t => (s.sends? c i).toList ++ sentTo c t is
      | none => []

/-- What thread `θ` has sent to connection `c`, wherever it is now. -/
def track (s : Server τ υ) (c : Nat) (θ : Thread τ) : List (Message (Thread τ)) :=
  ofCaller (.other θ) ((s.conns c).ran.map Prod.fst) ++ ofCaller (.other θ) (s.queuedTo c) ++
    s.heldBy θ c

/-- Messages in a hand are their thread's and go by `runInLoop`, so the thread of a
connection's loop has none in the queue. -/
structure Sending (s : Server τ υ) : Prop where
  own : ∀ c < s.accepted,
    ofCaller (.other (.loop (s.conns c).loop)) (s.queuedTo c) = []
  held : ∀ θ j c m, s.inFlight θ = some j → j.task.message? c = some m →
    j.inline = true ∧ m.caller = .other θ
  named : ∀ c < s.accepted, ∀ m ∈ (s.conns c).ran.map Prod.fst ++ s.queuedTo c,
    ∃ θ, m.caller = .other θ

omit [DecidableEq τ] in
theorem heldBy_of_idle {s : Server τ υ} {θ : Thread τ} (h : s.inFlight θ = none) (c : Nat) :
    s.heldBy θ c = [] := by
  simp [heldBy, h]

omit [DecidableEq τ] in
theorem heldBy_of_flight {s : Server τ υ} {θ : Thread τ} {j : Job τ υ}
    (h : s.inFlight θ = some j) (c : Nat) : s.heldBy θ c = (j.task.message? c).toList := by
  simp [heldBy, h]

theorem heldBy_setFlight (s : Server τ υ) (θ : Thread τ) (j : Job τ υ) (c : Nat) :
    (s.setFlight θ (some j)).heldBy θ c = (j.task.message? c).toList :=
  heldBy_of_flight (inFlight_setFlight_self s θ (some j)) c

theorem heldBy_perform {s : Server τ υ} {θ : Thread τ} (h : s.inFlight θ = none)
    (w : WriteResult) (k : Task τ υ) (c : Nat) : (s.perform θ w k).heldBy θ c = [] := by
  cases hflight : (s.perform θ w k).inFlight θ with
  | none => exact heldBy_of_idle hflight c
  | some j =>
      rw [heldBy_of_flight hflight]
      obtain ⟨d, hremoval | hdestroyed⟩ := flight_perform h hflight
      · rw [hremoval]
        rfl
      · rw [hdestroyed]
        simp [Task.message?, Functor.message?]

theorem heldBy_call {s : Server τ υ} {θ : Thread τ} (h : s.inFlight θ = none) (d : Nat) (k : Call)
    (c : Nat) : (s.call θ d k).heldBy θ c = (s.sends? c (.call θ d k)).toList := by
  cases k with
  | send data =>
      by_cases hd : d = c
      · subst hd
        simp only [call, sends?, true_and]
        split
        · rw [runInLoop, heldBy_setFlight]
          simp [Task.message?, Functor.message?]
        · exact heldBy_of_idle h d
      · simp only [call, sends?, hd, false_and, if_false]
        split
        · rw [runInLoop, heldBy_setFlight]
          simp [Task.message?, hd]
        · exact heldBy_of_idle h c
  | shutdown =>
      simp only [call, sends?]
      split
      · rw [runInLoop, heldBy_setFlight]
        simp [Task.message?, Functor.message?]
      · exact heldBy_of_idle h c
  | forceClose =>
      simp only [call, sends?]
      split
      · rw [runInLoop, heldBy_setFlight]
        simp [Task.message?, Functor.message?]
      · exact heldBy_of_idle h c

/-- What a thread holds after its step is what it has just sent. -/
theorem heldBy_step {s t : Server τ υ} {i : ServerInput τ υ} (hstep : s.step i = some t)
    (c : Nat) : t.heldBy i.thread c = (s.sends? c i).toList := by
  rcases flight_of_step hstep with ⟨w, hi⟩ | hidle
  · generalize i.thread = θ at hi ⊢
    subst hi
    cases (step_spec hstep).2 with
    | deliver =>
        have hnone : (s.setFlight θ none).inFlight θ = none := inFlight_setFlight_self s θ none
        unfold deliver
        dsimp only
        split
        · exact heldBy_perform hnone _ _ c
        · exact heldBy_of_idle hnone c
  · cases (step_spec hstep).2 with
    | call hfree => exact heldBy_call hfree.1 _ _ c
    | stop hfree => exact heldBy_setFlight _ _ _ c
    | @stopNext d stopping _ hnone =>
        exact heldBy_call (s := { s with stopping }) hnone d .shutdown c
    | deliver hj => cases hj.symm.trans hidle
    | queueUser hfree => exact heldBy_setFlight _ _ _ c
    | @callback l r retrieved w sockfd d kind todo htodo hfree =>
        cases hflight : ((s.setTodo l todo).exec (.loop l) d (kind.op r retrieved w)).inFlight
          (.loop l) with
        | none => exact heldBy_of_idle hflight c
        | some j =>
            have hremoval := flight_exec (s := s.setTodo l todo) hfree.1 hflight
            show Server.heldBy _ (.loop l) c = []
            rw [heldBy_of_flight hflight, hremoval]
            rfl
    | @accept l r retrieved w sockfd kind todo =>
        show Server.heldBy _ (.loop l) c = []
        unfold newConnection
        split
        · rw [runInLoop, ‹Thread.loop l = .loop 0›, heldBy_setFlight]
          simp [Task.message?, Functor.message?]
        · exact heldBy_of_idle hidle c
    | functor hfunctors hfree => exact heldBy_perform (s := s.setLoop _ _) hfree.1 _ _ c
    | _ => exact heldBy_of_idle hidle c

/-- A queue is changed by its loop, which runs its first functor, and by threads that hand
one over. -/
theorem queued_kept {s t : Server τ υ} {i : ServerInput τ υ} (hstep : s.step i = some t)
    (hdeliver : ∀ w, i ≠ .deliver i.thread w) {l : Nat} (hfunctor : ∀ w, i ≠ .functor l w) :
    (t.loops l).loop.queued = (s.loops l).loop.queued := by
  cases step_queued hstep l with
  | kept hqueue => exact hqueue
  | pushed hj =>
      rcases flight_of_step hstep with ⟨w, hi⟩ | hidle
      · exact absurd hi (hdeliver w)
      · cases hj.symm.trans hidle
  | @popped k hqueue =>
      exfalso
      have hlength := congrArg List.length hqueue
      cases step_batch hstep l with
      | kept _ hkeeps =>
          have hle := hkeeps.pending.length_le
          simp only [EventLoop.queued, hkeeps.functors, List.length_append,
            List.length_cons] at hlength
          omega
      | doPendingFunctors hbatch hfunctors hpending =>
          simp [EventLoop.queued, hbatch, hfunctors, hpending] at hlength
      | @functor w => exact hfunctor w rfl
      | endPendingFunctors hbatch hfunctors hpending =>
          simp [EventLoop.queued, hbatch, hfunctors, hpending] at hlength

theorem flight_of_sends {s t : Server τ υ} {i : ServerInput τ υ} (hstep : s.step i = some t)
    {c : Nat} {m : Message (Thread τ)} (hsends : s.sends? c i = some m) :
    t.inFlight i.thread = some ⟨(s.conns c).loop, .conn c (.sendInLoop m), true⟩ ∧
      m.caller = .other i.thread := by
  cases (step_spec hstep).2 with
  | @call θ d k =>
      cases k with
      | send data =>
          rcases Option.ite_none_right_eq_some.1 hsends with ⟨⟨rfl, hconnected⟩, ⟨⟩⟩
          simp only [call, hconnected, if_true]
          exact ⟨inFlight_setFlight_self _ _ _, rfl⟩
      | _ => cases hsends
  | _ => cases hsends

/-! ## Messages that run -/

theorem history_removeConnectionInLoop (s : Server τ υ) (θ : Thread τ) (c d : Nat) :
    ((s.removeConnectionInLoop θ c).conns d).history = (s.conns d).history := by
  unfold removeConnectionInLoop
  split
  · by_cases hd : d = c
    · subst hd
      dsimp only
      split <;> simp [queueInLoop, setFlight, erase, note]
    · dsimp only
      split <;> simp [queueInLoop, setFlight, erase, note, conns_setConn_of_ne hd]
  · rfl

/-- A functor that a loop's thread performs runs its message, if it carries one. -/
theorem ran_perform {u : Server τ υ} {l : Nat} {w : WriteResult} {k : Task τ υ}
    (hon : k.On u.loopOf l) (hfits : k.Fits w) (c : Nat) :
    ((u.perform (.loop l) w k).conns c).ran.map Prod.fst =
      (u.conns c).ran.map Prod.fst ++ (k.message? c).toList := by
  cases k with
  | conn d f =>
      have hl : (u.conns d).loop = l := (loopOf_eq_some.1 hon).2
      have hop : (f.op w).Fits (u.conns d).conn := fits_op rfl hfits _
      by_cases hd : c = d
      · subst hd
        rw [perform, conns_exec_self hl, Connection.ran_act hop, Functor.record_op,
          List.map_append, List.map_map]
        simp only [Task.message?, if_true]
        exact congrArg _ (List.map_id _)
      · rw [perform, conns_exec_of_ne hl hd]
        simp [Task.message?, Ne.symm hd]
  | removeConnectionInLoop d =>
      rw [perform, Connection.ran, history_removeConnectionInLoop]
      simp [Task.message?, Connection.ran]
  | stop => simp [perform, stopInLoop, note, Task.message?]
  | user x => simp [perform, Task.message?]

theorem ran_call (s : Server τ υ) (θ : Thread τ) (c : Nat) (k : Call) (d : Nat) :
    ((s.call θ c k).conns d).ran = (s.conns d).ran := by
  have hact : ∀ op : Op (Thread τ), op.Fits (s.conns c).conn → op.record (s.conns c).conn = [] →
      ((s.act θ c op).conns d).ran = (s.conns d).ran := by
    intro op hfits hrecord
    by_cases hd : d = c
    · subst hd
      rw [act, conns_setConn_self, Connection.ran_act hfits, hrecord, List.append_nil]
    · rw [conns_act_of_ne hd]
  cases k with
  | send data =>
      simp only [call]
      split <;> rfl
  | shutdown =>
      simp only [call]
      split
      · exact hact .shutdown trivial rfl
      · rfl
  | forceClose =>
      simp only [call]
      split
      · exact hact .forceClose trivial rfl
      · rfl

theorem ran_kept {s t : Server τ υ} {i : ServerInput τ υ} (hplaced : s.Placed)
    (hstep : s.step i = some t) (hrunning : s.running i = none) {c : Nat} (hc : c < s.accepted) :
    (t.conns c).ran = (s.conns c).ran := by
  cases (step_spec hstep).2 with
  | call => exact ran_call s _ _ _ c
  | @stopNext d stopping => exact ran_call ({ s with stopping } : Server τ υ) _ d _ c
  | @deliver θ w j hj =>
      unfold deliver
      dsimp only
      split
      · next hown =>
          simp only [running, hj] at hrunning
          rw [if_pos hown] at hrunning
          cases hrunning
      · rfl
  | @callback l r retrieved w sockfd d kind todo htodo hfree hfits =>
      have hon := loopOf_eq_some.1 ((hplaced.loops l).todo (some d, kind) (by simp [htodo]))
      have hl : ((s.setTodo l todo).conns d).loop = l := hon.2
      by_cases hd : c = d
      · subst hd
        have hfits' : (kind.op r retrieved w).Fits ((s.setTodo l todo).conns c).conn := hfits
        rw [conns_exec_self hl, Connection.ran_act hfits', Callback.record_op, List.append_nil]
        rfl
      · rw [conns_exec_of_ne hl hd]
        rfl
  | @accept l r retrieved w sockfd kind todo =>
      unfold newConnection
      split
      · have hne : c ≠ (s.setTodo l todo).getNextLoop.2.accepted := by
          rw [accepted_getNextLoop]
          exact Nat.ne_of_lt hc
        simp only [runInLoop, setFlight, conns_register_of_ne hne, conns_getNextLoop]
        rfl
      · rfl
  | functor hfunctors => simp [running, hfunctors] at hrunning
  | _ => rfl

/-! ## One step -/

omit [DecidableEq τ] in
/-- A functor that carries a message belongs on the loop of its connection. -/
theorem loop_of_message {s : Server τ υ} {k : Task τ υ} {l c : Nat} (hon : k.On s.loopOf l)
    {m : Message (Thread τ)} (hm : k.message? c = some m) :
    c < s.accepted ∧ (s.conns c).loop = l := by
  cases k with
  | conn d f =>
      simp only [Task.message?, Option.ite_none_right_eq_some] at hm
      rcases hm with ⟨rfl, -⟩
      exact loopOf_eq_some.1 hon
  | _ => cases hm

omit [DecidableEq τ] in
theorem message_of_loop_ne {s : Server τ υ} {k : Task τ υ} {l c : Nat} (hon : k.On s.loopOf l)
    (hl : (s.conns c).loop ≠ l) : k.message? c = none := by
  cases hm : k.message? c with
  | none => rfl
  | some m => exact absurd (loop_of_message hon hm).2 hl

/-- How a step moves the messages for connection `c`: a functor in flight is run or pushed,
or the first one of a queue is run. -/
inductive MessageMoves (s t : Server τ υ) (c : Nat) (i : ServerInput τ υ) : Prop
  | others (hdeliver : ∀ w, i ≠ .deliver i.thread w) (hfunctor : ∀ l w, i ≠ .functor l w)
      (hran : (t.conns c).ran.map Prod.fst = (s.conns c).ran.map Prod.fst)
      (hqueued : t.queuedTo c = s.queuedTo c)
  | ran {θ : Thread τ} {w : WriteResult} {j : Job τ υ} (hi : i = .deliver θ w)
      (hj : s.inFlight θ = some j) (hown : j.inline = true ∧ θ = .loop j.loop)
      (hran : (t.conns c).ran.map Prod.fst =
        (s.conns c).ran.map Prod.fst ++ (j.task.message? c).toList)
      (hqueued : t.queuedTo c = s.queuedTo c)
  | pushed {θ : Thread τ} {w : WriteResult} {j : Job τ υ} (hi : i = .deliver θ w)
      (hj : s.inFlight θ = some j) (hown : ¬(j.inline = true ∧ θ = .loop j.loop))
      (hran : (t.conns c).ran.map Prod.fst = (s.conns c).ran.map Prod.fst)
      (hqueued : t.queuedTo c = s.queuedTo c ++ (j.task.message? c).toList)
  | popped {l : Nat} {w : WriteResult} {k : Task τ υ} (hi : i = .functor l w)
      (hhead : (s.loops l).loop.functors.head? = some k)
      (hran : (t.conns c).ran.map Prod.fst =
        (s.conns c).ran.map Prod.fst ++ (k.message? c).toList)
      (hqueued : s.queuedTo c = (k.message? c).toList ++ t.queuedTo c)

omit [DecidableEq τ] in
theorem queuedTo_congr {s t : Server τ υ} {c : Nat} (hloop : (t.conns c).loop = (s.conns c).loop)
    (hqueued : (t.loops (s.conns c).loop).loop.queued = (s.loops (s.conns c).loop).loop.queued) :
    t.queuedTo c = s.queuedTo c := by
  rw [queuedTo, hloop, hqueued, queuedTo]

theorem step_messages {s t : Server τ υ} {i : ServerInput τ υ} (hplaced : s.Placed)
    (hstep : s.step i = some t) {c : Nat} (hc : c < s.accepted) : s.MessageMoves t c i := by
  have hloop := (step_steps hstep hc).loop
  have hothers : s.running i = none → (∀ w, i ≠ .deliver i.thread w) → (∀ l w, i ≠ .functor l w) →
      s.MessageMoves t c i := by
    intro hrunning hdeliver hfunctor
    have hqueued := queued_kept hstep hdeliver (hfunctor (s.conns c).loop)
    exact .others hdeliver hfunctor (congrArg _ (ran_kept hplaced hstep hrunning hc))
      (queuedTo_congr hloop hqueued)
  cases (step_spec hstep).2 with
  | @deliver θ w j hj hfits =>
      have hon := hplaced.flight θ j hj
      by_cases hown : j.inline = true ∧ θ = .loop j.loop
      · have ht : s.deliver θ w j = (s.setFlight θ none).perform θ w j.task := by
          unfold deliver
          exact if_pos hown
        rw [ht] at hloop ⊢
        refine .ran rfl hj hown ?_ (queuedTo_congr hloop (by rw [loops_perform]; rfl))
        rw [hown.2]
        exact ran_perform (u := s.setFlight (.loop j.loop) none) hon hfits c
      · have ht : s.deliver θ w j = (s.setFlight θ none).push θ j.loop j.task := by
          unfold deliver
          exact if_neg hown
        rw [ht] at hloop ⊢
        refine .pushed rfl hj hown rfl ?_
        rw [queuedTo, hloop, queuedTo]
        by_cases hl : (s.conns c).loop = j.loop
        · rw [hl]
          cases hm : j.task.message? c <;> simp [push, setFlight, hm]
        · have hnone : j.task.message? c = none := message_of_loop_ne hon hl
          simp only [push, setFlight, setLoop, loops_setIo_of_ne hl, hnone, Option.toList_none,
            List.append_nil]
  | @functor l w k functors hfunctors hfree hfits =>
      have hqueue := EventLoop.queued_of_functors hfunctors
      have hon := (hplaced.loops l).queued k (by simp [hqueue])
      refine .popped rfl (by rw [hfunctors]; rfl) (ran_perform (u := s.setLoop l _) hon hfits c) ?_
      rw [queuedTo, queuedTo, hloop, loops_perform]
      by_cases hl : (s.conns c).loop = l
      · rw [hl, hqueue, loops_setLoop_self]
        cases hm : k.message? c <;> simp [hm]
      · have hnone : k.message? c = none := message_of_loop_ne hon hl
        simp only [setLoop, loops_setIo_of_ne hl, hnone, Option.toList_none, List.nil_append]
  | _ => exact hothers rfl (by simp) (by simp)

theorem Sending.ofCaller_flight {s : Server τ υ} (h : s.Sending) {θ' : Thread τ} {j : Job τ υ}
    (hj : s.inFlight θ' = some j) (c : Nat) (θ : Thread τ) :
    ofCaller (.other θ) (j.task.message? c).toList =
      if θ = θ' then (j.task.message? c).toList else [] := by
  cases hm : j.task.message? c with
  | none => simp
  | some m =>
      have hcaller := (h.held θ' j c m hj hm).2
      by_cases hθ : θ = θ'
      · simp [hcaller, hθ]
      · simp [hcaller, hθ, Ne.symm hθ]

theorem heldBy_step_of_ne {s t : Server τ υ} {i : ServerInput τ υ} (hstep : s.step i = some t)
    {θ : Thread τ} (h : θ ≠ i.thread) (c : Nat) : t.heldBy θ c = s.heldBy θ c := by
  rw [heldBy, inFlight_step_of_ne h hstep, heldBy]

/-- What a thread has sent to a connection keeps its order; a step adds what it sends. -/
theorem step_track {s t : Server τ υ} {i : ServerInput τ υ} (hplaced : s.Placed) (h : s.Sending)
    (hstep : s.step i = some t) {c : Nat} (hc : c < s.accepted) (θ : Thread τ) :
    t.track c θ = s.track c θ ++ ofCaller (.other θ) (s.sends? c i).toList := by
  cases step_messages hplaced hstep hc with
  | others hdeliver _ hran hqueued =>
      have hheld : t.heldBy θ c = s.heldBy θ c ++ ofCaller (.other θ) (s.sends? c i).toList := by
        by_cases hθ : θ = i.thread
        · subst hθ
          have hidle := (flight_of_step hstep).resolve_left fun ⟨w, hi⟩ => hdeliver w hi
          rw [heldBy_step hstep, heldBy_of_idle hidle, List.nil_append]
          cases hm : s.sends? c i with
          | none => rfl
          | some m => simp [(flight_of_sends hstep hm).2]
        · rw [heldBy_step_of_ne hstep hθ]
          cases hm : s.sends? c i with
          | none => simp
          | some m => simp [(flight_of_sends hstep hm).2, Ne.symm hθ]
      rw [track, hran, hqueued, hheld, track, ← List.append_assoc]
  | @ran θ' w j hi hj hown hran hqueued =>
      subst hi
      rw [track, hran, hqueued, track, ofCaller_append, h.ofCaller_flight hj]
      by_cases hθ : θ = θ'
      · subst hθ
        have hnext : t.heldBy θ c = [] := heldBy_step hstep c
        rw [hnext, heldBy_of_flight hj]
        cases hm : j.task.message? c with
        | none => simp [sends?]
        | some m =>
            -- A loop's thread has no message of its own in the queue to overtake.
            have hempty := h.own c hc
            rw [(loop_of_message (hplaced.flight θ j hj) hm).2, ← hown.2] at hempty
            simp [hempty, sends?]
      · have hsame := heldBy_step_of_ne hstep (θ := θ) hθ c
        simp [hθ, hsame, sends?]
  | @pushed θ' w j hi hj hown hran hqueued =>
      subst hi
      rw [track, hran, hqueued, track, ofCaller_append, h.ofCaller_flight hj]
      by_cases hθ : θ = θ'
      · subst hθ
        have hnext : t.heldBy θ c = [] := heldBy_step hstep c
        simp [hnext, heldBy_of_flight hj, sends?]
      · have hsame := heldBy_step_of_ne hstep (θ := θ) hθ c
        simp [hθ, hsame, sends?]
  | @popped l w k hi hhead hran hqueued =>
      subst hi
      have hheld : t.heldBy θ c = s.heldBy θ c := by
        by_cases hθ : θ = .loop l
        · subst hθ
          have hidle := (flight_of_step hstep).resolve_left fun ⟨w, hi⟩ => nomatch hi
          have hnext : t.heldBy (.loop l) c = [] := heldBy_step hstep c
          rw [hnext]
          exact (heldBy_of_idle hidle c).symm
        · exact heldBy_step_of_ne hstep hθ c
      rw [track, hran, track, hqueued, hheld]
      simp [sends?]

/-! ## Whole runs -/

theorem queued_of_new {s t : Server τ υ} {i : ServerInput τ υ} (hplaced : s.Placed)
    (hstep : s.step i = some t) {c : Nat} (hc : c < t.accepted) (hold : ¬c < s.accepted) (l : Nat) :
    (t.loops l).loop.queued = (s.loops l).loop.queued := by
  have haccepted := accepted_step hplaced hstep
  cases haccepts : s.accepts i with
  | none =>
      simp only [haccepts, Option.isSome_none, Bool.false_eq_true, if_false] at haccepted
      omega
  | some sockfd =>
      cases i with
      | callback => exact queued_kept hstep (by simp) (by simp)
      | _ => cases haccepts

theorem conn_of_new {s t : Server τ υ} {i : ServerInput τ υ} (hplaced : s.Placed)
    (hstep : s.step i = some t) {c : Nat} (hc : c < t.accepted) (hold : ¬c < s.accepted) :
    ∃ sockfd, (t.conns c).conn =
      TcpConnection.new sockfd [] s.connectionCallback s.messageCallback ∧
        (t.conns c).history = [] := by
  have hnone : s.accepts i = none → False := by
    intro hnone
    have haccepted := accepted_step hplaced hstep
    simp only [hnone, Option.isSome_none, Bool.false_eq_true, if_false] at haccepted
    omega
  cases (step_spec hstep).2 with
  | @accept l r retrieved w sockfd kind todo htodo =>
      have hbase : l = 0 := (hplaced.loops l).todo (none, kind) (by simp [htodo])
      subst hbase
      have hmoves : s.ConnMoves ((s.setTodo 0 todo).newConnection (.loop 0) sockfd) c
          (.callback 0 r retrieved w (some sockfd)) :=
        connMoves_newConnection (by simp [member, htodo]) (by simp [accepts, htodo]) c
      obtain ⟨sockfd', -, -, hconn, hhistory⟩ := exists_accepts_of_new hplaced hstep hmoves hc hold
      exact ⟨sockfd', hconn, hhistory⟩
  | @callback l r retrieved w sockfd d kind todo htodo =>
      exact (hnone (by cases sockfd <;> simp [accepts, htodo])).elim
  | _ => exact (hnone rfl).elim

theorem track_of_new {s t : Server τ υ} {i : ServerInput τ υ} (hplaced : s.Placed)
    (hstep : s.step i = some t) {c : Nat} (hc : c < t.accepted) (hold : ¬c < s.accepted) :
    (t.conns c).ran = [] ∧ t.queuedTo c = [] := by
  obtain ⟨sockfd, -, hhistory⟩ := conn_of_new hplaced hstep hc hold
  refine ⟨by simp [Connection.ran, hhistory], ?_⟩
  rw [queuedTo, queued_of_new hplaced hstep hc hold, List.filterMap_eq_nil_iff]
  intro k hk
  cases hm : k.message? c with
  | none => rfl
  | some m => exact absurd (loop_of_message ((hplaced.loops _).queued k hk) hm).1 hold

theorem step_sending {s t : Server τ υ} {i : ServerInput τ υ} (hplaced : s.Placed) (h : s.Sending)
    (hstep : s.step i = some t) : t.Sending := by
  constructor
  · intro c hc
    by_cases hold : c < s.accepted
    · have hown := h.own c hold
      rw [(step_steps hstep hold).loop]
      cases step_messages hplaced hstep hold with
      | others _ _ _ hqueued => rwa [hqueued]
      | ran _ _ _ _ hqueued => rwa [hqueued]
      | @pushed θ w j hi hj hnot hran hqueued =>
          rw [hqueued, ofCaller_append, hown, List.nil_append, h.ofCaller_flight hj]
          cases hm : j.task.message? c with
          | none => simp
          | some m =>
              have hloop := (loop_of_message (hplaced.flight θ j hj) hm).2
              rw [hloop, if_neg]
              rintro rfl
              exact hnot ⟨(h.held _ j c m hj hm).1, rfl⟩
      | popped _ _ _ hqueued =>
          rw [hqueued, ofCaller_append, List.append_eq_nil_iff] at hown
          exact hown.2
    · rw [(track_of_new hplaced hstep hc hold).2, ofCaller_nil]
  · intro θ j c m hj hm
    by_cases hθ : θ = i.thread
    · subst hθ
      have hheld := heldBy_step hstep c
      rw [heldBy_of_flight hj, hm] at hheld
      cases hsends : s.sends? c i with
      | none => simp [hsends] at hheld
      | some m' =>
          simp only [hsends, Option.toList_some, List.cons.injEq, and_true] at hheld
          subst hheld
          have hflight := flight_of_sends hstep hsends
          rw [hflight.1] at hj
          cases hj
          exact ⟨rfl, hflight.2⟩
    · rw [inFlight_step_of_ne hθ hstep] at hj
      exact h.held θ j c m hj hm
  · intro c hc m hm
    by_cases hold : c < s.accepted
    · have hnamed := h.named c hold m
      cases step_messages hplaced hstep hold with
      | others _ _ hran hqueued => exact hnamed (by rwa [hran, hqueued] at hm)
      | @ran θ w j hi hj hown hran hqueued =>
          rw [hran, hqueued, List.append_assoc, List.mem_append, List.mem_append] at hm
          rcases hm with hm | hm | hm
          · exact hnamed (List.mem_append_left _ hm)
          · exact ⟨θ, (h.held θ j c m hj (Option.mem_toList.1 hm)).2⟩
          · exact hnamed (List.mem_append_right _ hm)
      | @pushed θ w j hi hj hown hran hqueued =>
          rw [hran, hqueued, ← List.append_assoc, List.mem_append] at hm
          rcases hm with hm | hm
          · exact hnamed hm
          · exact ⟨θ, (h.held θ j c m hj (Option.mem_toList.1 hm)).2⟩
      | popped _ _ hran hqueued =>
          apply hnamed
          rwa [hran, List.append_assoc, ← hqueued] at hm
    · obtain ⟨hran, hqueued⟩ := track_of_new hplaced hstep hc hold
      rw [hran, hqueued] at hm
      cases hm

/-! ## Whole runs -/

/-- The invariant: every connection has its own stream. -/
structure Flows (s : Server τ υ) : Prop where
  placed : s.Placed
  sending : s.Sending
  streams : ∀ c < s.accepted, (s.conns c).Streams

theorem step_flows {s t : Server τ υ} {i : ServerInput τ υ} (h : s.Flows)
    (hstep : s.step i = some t) : t.Flows := by
  refine ⟨step_placed h.placed hstep, step_sending h.placed h.sending hstep, fun c hc => ?_⟩
  by_cases hold : c < s.accepted
  · exact (step_steps hstep hold).streams (h.streams c hold)
  · obtain ⟨sockfd, hconn, hhistory⟩ := conn_of_new h.placed hstep hc hold
    exact .new hconn hhistory

theorem start_flows (name : String) (numThreads : Nat) (cb mcb : Bool) :
    (start name numThreads cb mcb : Server τ υ).Flows :=
  ⟨start_placed name numThreads cb mcb, ⟨nofun, nofun, nofun⟩, nofun⟩

theorem sends_of_not_accepted {s t : Server τ υ} {i : ServerInput τ υ}
    (hstep : s.step i = some t) {c : Nat} (hold : ¬c < s.accepted) : s.sends? c i = none := by
  cases (step_spec hstep).2 with
  | @call θ d k hfree hd =>
      cases k with
      | send data =>
          refine if_neg ?_
          rintro ⟨rfl, -⟩
          exact hold hd
      | _ => rfl
  | _ => rfl

omit [DecidableEq τ] in
theorem heldBy_of_not_accepted {s : Server τ υ} (hplaced : s.Placed) {c : Nat}
    (hold : ¬c < s.accepted) (θ : Thread τ) : s.heldBy θ c = [] := by
  cases hj : s.inFlight θ with
  | none => exact heldBy_of_idle hj c
  | some j =>
      rw [heldBy_of_flight hj]
      cases hm : j.task.message? c with
      | none => rfl
      | some m => exact absurd (loop_of_message (hplaced.flight θ j hj) hm).1 hold

theorem sentTo_cons {s t : Server τ υ} {i : ServerInput τ υ} {is : List (ServerInput τ υ)}
    (hstep : s.step i = some t) (c : Nat) :
    sentTo c s (i :: is) = (s.sends? c i).toList ++ sentTo c t is := by
  simp [sentTo, hstep]

/-- Along a run, what a thread has sent to a connection grows by what it sends to it. -/
theorem run_track {s t : Server τ υ} {is : List (ServerInput τ υ)} (h : s.Flows)
    (hrun : (machine τ υ).run s is = some t) {c : Nat} (hc : c < t.accepted) (θ : Thread τ) :
    t.track c θ = (if c < s.accepted then s.track c θ else []) ++
      ofCaller (.other θ) (sentTo c s is) := by
  induction is generalizing s with
  | nil =>
      cases hrun
      simp [hc, sentTo]
  | cons i is ih =>
      obtain ⟨u, hstep, hrest⟩ := Option.bind_eq_some_iff.1 hrun
      rw [ih (step_flows h hstep) hrest, sentTo_cons hstep, ofCaller_append, ← List.append_assoc]
      congr 1
      by_cases hold : c < s.accepted
      · rw [if_pos hold, if_pos (hold.trans_le (accepted_le_step hstep)),
          step_track h.placed h.sending hstep hold]
      · rw [if_neg hold, sends_of_not_accepted hstep hold]
        split
        · next hnew =>
            obtain ⟨hran, hqueued⟩ := track_of_new h.placed hstep hnew hold
            have hheld : u.heldBy θ c = [] := by
              by_cases hθ : θ = i.thread
              · rw [hθ, heldBy_step hstep, sends_of_not_accepted hstep hold, Option.toList_none]
              · rw [heldBy_step_of_ne hstep hθ, heldBy_of_not_accepted h.placed hold]
            rw [track, hran, hqueued, hheld]
            rfl
        · rfl

theorem run_flows {s t : Server τ υ} {is : List (ServerInput τ υ)} (h : s.Flows)
    (hrun : (machine τ υ).run s is = some t) : t.Flows := by
  have hall : (machine τ υ).Always Flows s is := by
    apply Machine.always_of_invariant
    · exact fun s i t hs hstep => step_flows hs hstep
    · exact h
  exact hall.last hrun

/-- What was sent to a connection and what became of it: each thread's messages have run, wait
in the loop's queue or are in its hand, in its call order, and no others have run. The socket
has got those that have run, save for what waits in `outputBuffer_`. -/
structure StreamIntact (s : Server τ υ) (sent : List (Message (Thread τ))) (c : Nat) : Prop where
  calls : ∀ θ, ofCaller (.other θ) sent = ofCaller (.other θ) ((s.conns c).ran.map Prod.fst) ++
    ofCaller (.other θ) (s.queuedTo c) ++ s.heldBy θ c
  source : ∀ m ∈ (s.conns c).ran.map Prod.fst, m ∈ sent
  stream : sentBytes (s.conns c).log ++ (s.conns c).conn.outputBuffer =
    (s.conns c).ran.flatMap kept
  writing : s.state c ≠ .disconnected → (s.conns c).conn.WritingIffBuffered

/-- In every run of a server, with any loops, threads and connections, every connection gets its
own stream. -/
theorem server_streams_intact (name : String) (numThreads : Nat) (cb mcb : Bool)
    (is : List (ServerInput τ υ)) {s : Server τ υ}
    (hrun : (machine τ υ).run (start name numThreads cb mcb) is = some s) {c : Nat}
    (hc : c < s.accepted) : s.StreamIntact (sentTo c (start name numThreads cb mcb) is) c := by
  have hstart := start_flows (τ := τ) (υ := υ) name numThreads cb mcb
  have hflows := run_flows hstart hrun
  have hcalls : ∀ θ, s.track c θ =
      ofCaller (.other θ) (sentTo c (start name numThreads cb mcb) is) :=
    fun θ => run_track hstart hrun hc θ
  refine ⟨fun θ => (hcalls θ).symm, fun m hm => ?_, (hflows.streams c hc).stream,
    (hflows.streams c hc).writing⟩
  obtain ⟨θ, hθ⟩ := hflows.sending.named c hc m (List.mem_append_left _ hm)
  have hmem : m ∈ ofCaller (.other θ) ((s.conns c).ran.map Prod.fst) :=
    List.mem_filter.2 ⟨hm, decide_eq_true hθ⟩
  have hsent : m ∈ s.track c θ := List.mem_append_left _ (List.mem_append_left _ hmem)
  rw [hcalls] at hsent
  exact List.mem_of_mem_filter hsent

/-- Two clients on one loop of a pool; the base loop's thread and another one send to both. -/
def sendToTwo : List (ServerInput Unit Unit) :=
  [.poll 0 [⟨3, .read, false, false, none⟩], .callback 0 (.bytes []) 0 (.wrote 0) (some 7),
    .deliver (.loop 0) (.wrote 0), .doPendingFunctors 0, .endPendingFunctors 0,
    .poll 0 [⟨3, .read, false, false, none⟩], .callback 0 (.bytes []) 0 (.wrote 0) (some 8),
    .deliver (.loop 0) (.wrote 0), .poll 1 [], .doPendingFunctors 1, .functor 1 (.wrote 0),
    .functor 1 (.wrote 0), .endPendingFunctors 1, .call (.loop 0) 0 (.send [65]),
    .call (.other ()) 1 (.send [66]), .deliver (.other ()) (.wrote 0),
    .deliver (.loop 0) (.wrote 0), .call (.other ()) 0 (.send [67, 68]),
    .deliver (.other ()) (.wrote 0), .call (.loop 0) 0 (.send [69]), .poll 1 [],
    .doPendingFunctors 1, .functor 1 (.wrote 1), .functor 1 (.wrote 1), .functor 1 (.wrote 1)]

theorem server_streams_intact_two : ∃ s : Server Unit Unit,
    (machine Unit Unit).run (start "echo" 1 true true) sendToTwo = some s ∧
      sentBytes (s.conns 0).log = [65, 67] ∧ (s.conns 0).conn.outputBuffer = [68] ∧
      s.StreamIntact (sentTo 0 (start "echo" 1 true true) sendToTwo) 0 :=
  ⟨_, rfl, by decide +kernel, by decide +kernel,
    server_streams_intact "echo" 1 true true sendToTwo rfl (by decide +kernel)⟩

end Server

end Hayai
