import Hayai.Machine.Run
import Hayai.Net.Lifecycle
import Hayai.Net.TcpServer

/-! # Thread confinement

Members of a connection run on the thread of its loop and the registry is used on the
base loop's thread, because every functor is in the queue of the loop it belongs to and
every callback comes from the poller of its channel's loop.
-/

namespace Hayai

variable {τ υ : Type}

def Task.On (loopOf : Nat → Option Nat) (l : Nat) : Task τ υ → Prop
  | .conn c _ => loopOf c = some l
  | .removeConnectionInLoop c => l = 0 ∧ (loopOf c).isSome = true
  | .stop => l = 0
  | .user _ => True

def Dispatched (loopOf : Nat → Option Nat) (l : Nat) (p : Option Nat × Callback) : Prop :=
  match p.1 with
  | some c => loopOf c = some l
  | none => l = 0

structure IoLoop.Holds (loopOf : Nat → Option Nat) (l : Nat) (io : IoLoop τ υ) : Prop where
  queued : ∀ k ∈ io.loop.queued, k.On loopOf l
  todo : ∀ p ∈ io.todo, Dispatched loopOf l p

def Connection.Confined (x : Connection τ) : Prop :=
  ∀ e ∈ x.history, e.op.asserts = true ∨ e.effects ≠ [] → e.thread = .loop x.loop

def Access.isBase : Access → Bool
  | .removeConnection _ => false
  | _ => true

namespace Op

/-- Members without `assertInLoopThread` do nothing outside their object. -/
theorem run_of_not_asserts {c : TcpConnection (List UInt8)} {op : Op τ}
    (h : op.asserts = false) : (op.run c).2 = [] := by
  cases op <;> first | rfl | cases h

end Op

namespace Server

/-- What the threads have done: members on their connection's loop, the server's own
members on the base loop, and no `assertInLoopThread` has aborted. -/
structure Confined (s : Server τ υ) : Prop where
  members : ∀ c, (s.conns c).Confined
  accesses : ∀ p ∈ s.accesses, p.2.isBase = true → p.1 = .loop 0
  alive : s.aborted = false

/-- All work is where it belongs, and has been so far. -/
structure Placed (s : Server τ υ) : Prop extends s.Confined where
  loops : ∀ l, (s.loops l).Holds s.loopOf l
  flight : ∀ θ j, s.inFlight θ = some j → j.task.On s.loopOf j.loop
  stopping : ∀ c ∈ s.stopping, (s.loopOf c).isSome = true
  registered : ∀ p ∈ s.connections, (s.loopOf p.2).isSome = true
  posted : ∀ p ∈ s.posted, p.2.On s.loopOf p.1

theorem loopOf_eq_some {s : Server τ υ} {c l : Nat} :
    s.loopOf c = some l ↔ c < s.accepted ∧ (s.conns c).loop = l := by
  simp [loopOf]

theorem loopOf_isSome {s : Server τ υ} {c : Nat} :
    (s.loopOf c).isSome = true ↔ c < s.accepted := by
  simp [loopOf]

/-! ## Parts of the state -/

theorem Placed.setIo {s : Server τ υ} (h : s.Placed) {l : Nat} {io : IoLoop τ υ}
    (hio : io.Holds s.loopOf l) : (s.setIo l io).Placed := by
  refine ⟨⟨h.members, h.accesses, h.alive⟩, ?_, h.flight, h.stopping, h.registered,
    h.posted⟩
  show ∀ m, (Function.update s.loops l io m).Holds s.loopOf m
  rw [Function.forall_update_iff s.loops fun m io => io.Holds s.loopOf m]
  exact ⟨hio, fun m _ => h.loops m⟩

theorem Placed.setLoop {s : Server τ υ} (h : s.Placed) {l : Nat} {loop : EventLoop (Task τ υ)}
    (hqueued : ∀ k ∈ loop.queued, k ∈ (s.loops l).loop.queued) : (s.setLoop l loop).Placed := by
  apply h.setIo
  exact ⟨fun k hk => (h.loops l).queued k (hqueued k hk), (h.loops l).todo⟩

theorem Placed.setTodo {s : Server τ υ} (h : s.Placed) {l : Nat}
    {p : Option Nat × Callback} {todo : List (Option Nat × Callback)}
    (htodo : (s.loops l).todo = p :: todo) : (s.setTodo l todo).Placed := by
  apply h.setIo
  refine ⟨(h.loops l).queued, ?_⟩
  intro q hq
  apply (h.loops l).todo
  rw [htodo]
  exact List.mem_cons_of_mem p hq

theorem Placed.note {s : Server τ υ} (h : s.Placed) {θ : Thread τ} {a : Access}
    (ha : a.isBase = true → θ = .loop 0) : (s.note θ a).Placed := by
  refine ⟨⟨h.members, ?_, h.alive⟩, h.loops, h.flight, h.stopping, h.registered,
    h.posted⟩
  intro p hp
  rcases List.mem_append.1 hp with hp | hp
  · exact h.accesses p hp
  · rw [List.mem_singleton] at hp
    subst hp
    exact ha

theorem Placed.erase {s : Server τ υ} (h : s.Placed) (name : String) : (s.erase name).Placed :=
  ⟨⟨h.members, h.accesses, h.alive⟩, h.loops, h.flight, h.stopping,
    fun p hp => h.registered p (List.mem_filter.1 hp).1, h.posted⟩

theorem Placed.popStopping {s : Server τ υ} (h : s.Placed) {c : Nat} {stopping : List Nat}
    (hstopping : s.stopping = c :: stopping) : ({ s with stopping } : Server τ υ).Placed := by
  refine ⟨⟨h.members, h.accesses, h.alive⟩, h.loops, h.flight, ?_, h.registered, h.posted⟩
  intro d hd
  apply h.stopping
  rw [hstopping]
  exact List.mem_cons_of_mem c hd

theorem loopOf_setConn {s : Server τ υ} {c : Nat} {x : Connection τ}
    (hloop : x.loop = (s.conns c).loop) : (s.setConn c x).loopOf = s.loopOf := by
  funext d
  by_cases hd : d = c
  · subst hd
    simp [loopOf, Server.setConn, hloop]
  · simp [loopOf, Server.setConn, hd]

theorem Placed.setConn {s : Server τ υ} (h : s.Placed) {c : Nat} {x : Connection τ}
    (hloop : x.loop = (s.conns c).loop) (hx : x.Confined) : (s.setConn c x).Placed := by
  have hsame := loopOf_setConn hloop
  constructor
  · refine ⟨?_, h.accesses, h.alive⟩
    show ∀ d, (Function.update s.conns c x d).Confined
    rw [Function.forall_update_iff s.conns fun _ x => x.Confined]
    exact ⟨hx, fun d _ => h.members d⟩
  · rw [hsame]
    exact h.loops
  · rw [hsame]
    exact h.flight
  · rw [hsame]
    exact h.stopping
  · rw [hsame]
    exact h.registered
  · rw [hsame]
    exact h.posted

/-! ## Members -/

theorem loopOf_act (s : Server τ υ) (θ : Thread τ) (c : Nat) (op : Op (Thread τ)) :
    (s.act θ c op).loopOf = s.loopOf :=
  loopOf_setConn rfl

theorem Placed.act {s : Server τ υ} (h : s.Placed) {θ : Thread τ} {c : Nat} {op : Op (Thread τ)}
    (hθ : op.asserts = true → θ = .loop (s.conns c).loop) : (s.act θ c op).Placed := by
  refine h.setConn (c := c) rfl ?_
  intro e he
  rcases List.mem_append.1 he with he | he
  · exact h.members c e he
  · rw [List.mem_singleton] at he
    subst he
    intro hasserts
    rcases hasserts with hasserts | heffects
    · exact hθ hasserts
    · cases hasserts : op.asserts with
      | true => exact hθ hasserts
      | false => exact absurd (Op.run_of_not_asserts hasserts) heffects

theorem Placed.stopInLoop {s : Server τ υ} (h : s.Placed) : (s.stopInLoop (.loop 0)).Placed := by
  have hnote := h.note (θ := .loop 0) (a := .stop) fun _ => rfl
  refine ⟨⟨hnote.members, hnote.accesses, hnote.alive⟩, hnote.loops, hnote.flight, ?_,
    hnote.registered, hnote.posted⟩
  intro c hc
  rcases List.mem_map.1 hc with ⟨p, hp, rfl⟩
  exact h.registered p hp

/-! ## Accepting and polling -/

/-- Accepting leaves the earlier connections on their loops. -/
theorem loopOf_register {s : Server τ υ} {θ : Thread τ} {sockfd l c : Nat}
    (hc : c < s.accepted) : (s.register θ sockfd l).loopOf c = s.loopOf c := by
  have hne : c ≠ s.accepted := by omega
  simp [loopOf, register, Server.erase, Server.setConn, Server.note, hne, hc, Nat.lt_succ_of_lt hc]

theorem loopOf_register_self (s : Server τ υ) (θ : Thread τ) (sockfd l : Nat) :
    (s.register θ sockfd l).loopOf s.accepted = some l := by
  simp [loopOf, register, Server.erase, Server.setConn, Server.note]

theorem On.register {s : Server τ υ} {θ : Thread τ} {sockfd l m : Nat} {k : Task τ υ}
    (h : k.On s.loopOf m) : k.On (s.register θ sockfd l).loopOf m := by
  cases k with
  | conn c f => exact (loopOf_register (loopOf_eq_some.1 h).1).trans h
  | removeConnectionInLoop c =>
      refine ⟨h.1, ?_⟩
      rw [loopOf_register (loopOf_isSome.1 h.2)]
      exact h.2
  | stop => exact h
  | user x => trivial

theorem Placed.register {s : Server τ υ} (h : s.Placed) (sockfd l : Nat) :
    (s.register (.loop 0) sockfd l).Placed := by
  have hnote := h.note (θ := .loop 0) (a := .newConnection s.accepted) fun _ => rfl
  have hisSome : ∀ c, (s.loopOf c).isSome = true →
      ((s.register (.loop 0) sockfd l).loopOf c).isSome = true := by
    intro c hc
    rw [loopOf_register (loopOf_isSome.1 hc)]
    exact hc
  constructor
  · refine ⟨?_, hnote.accesses, h.alive⟩
    show ∀ d, (Function.update s.conns s.accepted _ d).Confined
    rw [Function.forall_update_iff s.conns fun _ x => x.Confined]
    exact ⟨by simp [Connection.Confined], fun d _ => h.members d⟩
  · intro m
    refine ⟨fun k hk => On.register ((h.loops m).queued k hk), ?_⟩
    rintro ⟨c | c, kind⟩ hp
    · exact (h.loops m).todo _ hp
    · have hon : s.loopOf c = some m := (h.loops m).todo _ hp
      exact (loopOf_register (loopOf_eq_some.1 hon).1).trans hon
  · intro θ j hj
    exact On.register (h.flight θ j hj)
  · intro c hc
    exact hisSome c (h.stopping c hc)
  · intro p hp
    simp only [Server.register, Server.erase, List.mem_orderedInsert, List.mem_filter] at hp
    rcases hp with rfl | hp
    · show ((s.register (.loop 0) sockfd l).loopOf s.accepted).isSome = true
      rw [loopOf_register_self]
      rfl
    · exact hisSome p.2 (h.registered p hp.1)
  · intro p hp
    exact On.register (h.posted p hp)

theorem Placed.getNextLoop {s : Server τ υ} (h : s.Placed) : s.getNextLoop.2.Placed := by
  unfold Server.getNextLoop
  split
  · exact h
  · exact ⟨⟨h.members, h.accesses, h.alive⟩, h.loops, h.flight, h.stopping, h.registered,
    h.posted⟩

@[simp] theorem accepted_getNextLoop (s : Server τ υ) :
    s.getNextLoop.2.accepted = s.accepted := by
  unfold Server.getNextLoop
  split <;> rfl

theorem loopOf_poll (s : Server τ υ) (l : Nat) (events : List (KEvent (Option Nat))) :
    (s.poll l events).loopOf = s.loopOf := rfl

theorem Placed.poll {s : Server τ υ} (h : s.Placed) {l : Nat} {events : List (KEvent (Option Nat))}
    (hevents : ∀ e ∈ events, s.MayReport l e) : (s.poll l events).Placed := by
  refine ⟨⟨h.members, h.accesses, h.alive⟩, ?_, h.flight, h.stopping, h.registered,
    h.posted⟩
  rw [loopOf_poll]
  show ∀ m, (Function.update s.loops l _ m).Holds s.loopOf m
  rw [Function.forall_update_iff s.loops fun m io => io.Holds s.loopOf m]
  refine ⟨⟨(h.loops l).queued, ?_⟩, fun m _ => h.loops m⟩
  rintro p hp
  rcases List.mem_flatMap.1 hp with ⟨k, hk, hkind⟩
  rcases List.mem_map.1 hkind with ⟨kind, -, rfl⟩
  rw [Poller.fillActiveChannels_active] at hk
  rcases List.mem_map.1 hk with ⟨e, he, rfl⟩
  have hreport := (hevents e he).1
  cases hudata : e.udata with
  | none =>
      rw [hudata] at hreport
      simpa [Dispatched] using hreport.1
  | some c =>
      rw [hudata] at hreport
      simpa [Dispatched] using loopOf_eq_some.2 hreport

/-! ## Functors -/

variable [DecidableEq τ]

theorem Placed.setFlight {s : Server τ υ} (h : s.Placed) {θ : Thread τ} {j : Option (Job τ υ)}
    (hj : ∀ k, j = some k → k.task.On s.loopOf k.loop) : (s.setFlight θ j).Placed := by
  refine ⟨⟨h.members, h.accesses, h.alive⟩, h.loops, ?_, h.stopping, h.registered, h.posted⟩
  intro θ' k hk
  by_cases hθ : θ' = θ
  · subst hθ
    exact hj k (by simpa [Server.setFlight] using hk)
  · exact h.flight θ' k (by simpa [Server.setFlight, hθ] using hk)

theorem Placed.runInLoop {s : Server τ υ} (h : s.Placed) {θ : Thread τ} {l : Nat} {k : Task τ υ}
    (hk : k.On s.loopOf l) : (s.runInLoop θ l k).Placed := by
  apply h.setFlight
  rintro j ⟨⟩
  exact hk

theorem Placed.queueInLoop {s : Server τ υ} (h : s.Placed) {θ : Thread τ} {l : Nat}
    {k : Task τ υ} (hk : k.On s.loopOf l) : (s.queueInLoop θ l k).Placed := by
  apply h.setFlight
  rintro j ⟨⟩
  exact hk

theorem Placed.push {s : Server τ υ} (h : s.Placed) {θ : Thread τ} {l : Nat} {k : Task τ υ}
    (hk : k.On s.loopOf l) : (s.push θ l k).Placed := by
  have hpushed : (s.setLoop l ((s.loops l).loop.queueInLoop (θ = .loop l) k)).Placed := by
    apply h.setIo
    refine ⟨?_, (h.loops l).todo⟩
    intro k' hk'
    rw [EventLoop.queued_queueInLoop, List.mem_append, List.mem_singleton] at hk'
    rcases hk' with hk' | rfl
    · exact (h.loops l).queued k' hk'
    · exact hk
  refine ⟨⟨hpushed.members, hpushed.accesses, hpushed.alive⟩, hpushed.loops, hpushed.flight,
    hpushed.stopping, hpushed.registered, ?_⟩
  intro p hp
  rcases List.mem_append.1 hp with hp | hp
  · exact h.posted p hp
  · rw [List.mem_singleton] at hp
    subst hp
    exact hk

theorem Placed.removeConnectionInLoop {s : Server τ υ} (h : s.Placed) {c : Nat}
    (hc : (s.loopOf c).isSome = true) : (s.removeConnectionInLoop (.loop 0) c).Placed := by
  have hremoved := (h.note (θ := .loop 0) (a := .removeConnectionInLoop c) fun _ => rfl).setConn
    (c := c) (x := { s.conns c with removals := (s.conns c).removals + 1 }) rfl (h.members c)
  unfold Server.removeConnectionInLoop
  rw [if_pos rfl]
  dsimp only
  split
  · exact hremoved
  · apply (hremoved.erase _).queueInLoop
    have haccepted : c < s.accepted := loopOf_isSome.1 hc
    exact loopOf_eq_some.2 ⟨haccepted, by simp [Server.erase, Server.setConn]⟩

theorem Placed.removeConnection {s : Server τ υ} (h : s.Placed) {θ : Thread τ} {c : Nat}
    (hc : (s.loopOf c).isSome = true) : (s.removeConnection θ c).Placed := by
  apply (h.note (a := .removeConnection c) nofun).runInLoop
  exact ⟨rfl, hc⟩

theorem Placed.exec {s : Server τ υ} (h : s.Placed) {l c : Nat} {op : Op (Thread τ)}
    (hc : s.loopOf c = some l) : (s.exec (.loop l) c op).Placed := by
  have hloop := (loopOf_eq_some.1 hc).2
  have hact : (s.act (.loop l) c op).Placed := h.act fun _ => by rw [hloop]
  unfold Server.exec
  simp only [hloop, ne_eq, not_true_eq_false, decide_false, Bool.and_false, Bool.false_eq_true,
    if_false]
  split
  · apply hact.removeConnection
    rw [loopOf_act, hc]
    rfl
  · exact hact

theorem Placed.perform {s : Server τ υ} (h : s.Placed) {l : Nat} {w : WriteResult}
    {k : Task τ υ} (hk : k.On s.loopOf l) : (s.perform (.loop l) w k).Placed := by
  cases k with
  | conn c f => exact h.exec hk
  | removeConnectionInLoop c =>
      rcases hk with ⟨rfl, hc⟩
      exact h.removeConnectionInLoop hc
  | stop =>
      cases hk
      exact h.stopInLoop
  | user x => exact h

theorem Placed.deliver {s : Server τ υ} (h : s.Placed) {θ : Thread τ} {w : WriteResult}
    {j : Job τ υ} (hj : j.task.On s.loopOf j.loop) : (s.deliver θ w j).Placed := by
  have hidle : (s.setFlight θ none).Placed := h.setFlight nofun
  unfold Server.deliver
  dsimp only
  split
  · next hinline =>
      rw [hinline.2]
      rw [hinline.2] at hidle
      exact hidle.perform hj
  · exact hidle.push hj

theorem Placed.call {s : Server τ υ} (h : s.Placed) {θ : Thread τ} {c : Nat}
    (hc : c < s.accepted) (k : Call) : (s.call θ c k).Placed := by
  have hloop : s.loopOf c = some (s.conns c).loop := loopOf_eq_some.2 ⟨hc, rfl⟩
  cases k with
  | send data =>
      have hsent : ({ s with sends := s.sends + 1 } : Server τ υ).Placed :=
        ⟨⟨h.members, h.accesses, h.alive⟩, h.loops, h.flight, h.stopping, h.registered,
    h.posted⟩
      simp only [Server.call]
      split
      · exact hsent.runInLoop hloop
      · exact hsent
  | shutdown =>
      simp only [Server.call]
      split
      · have hact : (s.act θ c .shutdown).Placed := h.act nofun
        apply hact.runInLoop
        rw [loopOf_act]
        exact hloop
      · exact h
  | forceClose =>
      simp only [Server.call]
      split
      · have hact : (s.act θ c .forceClose).Placed := h.act nofun
        apply hact.runInLoop
        rw [loopOf_act]
        exact hloop
      · exact h

theorem Placed.newConnection {s : Server τ υ} (h : s.Placed) (sockfd : Nat) :
    (s.newConnection (.loop 0) sockfd).Placed := by
  simp only [Server.newConnection, if_true]
  apply (h.getNextLoop.register sockfd _).runInLoop
  show (s.getNextLoop.2.register _ sockfd s.getNextLoop.1).loopOf s.accepted = _
  rw [← accepted_getNextLoop]
  exact loopOf_register_self _ _ _ _

theorem step_placed {s t : Server τ υ} {i : ServerInput τ υ} (h : s.Placed)
    (hstep : s.step i = some t) : t.Placed := by
  cases (step_spec hstep).2 with
  | call hfree hc => exact h.call hc _
  | stop hfree => exact h.runInLoop rfl
  | @stopNext c stopping hstopping hidle =>
      apply (h.popStopping hstopping).call
      apply loopOf_isSome.1
      apply h.stopping
      rw [hstopping]
      exact List.mem_cons_self
  | deliver hj => exact h.deliver (h.flight _ _ hj)
  | queueUser => exact h.queueInLoop trivial
  | poll hfree hevents => exact h.poll hevents
  | @callback l r retrieved w sockfd c kind todo htodo =>
      apply (h.setTodo htodo).exec
      exact (h.loops l).todo (some c, kind) (by simp [htodo])
  | @accept l r retrieved w sockfd kind todo htodo =>
      have hbase : l = 0 := (h.loops l).todo (none, kind) (by simp [htodo])
      subst hbase
      exact (h.setTodo htodo).newConnection sockfd
  | acceptFailed htodo => exact h.setTodo htodo
  | @doPendingFunctors l htodo hfunctors =>
      apply h.setLoop
      rw [EventLoop.queued_beginPendingFunctors (by exact hfunctors)]
      exact fun k hk => hk
  | @functor l w k functors hfunctors =>
      have hqueued := EventLoop.queued_of_functors hfunctors
      have hon : k.On s.loopOf l := (h.loops l).queued k (by simp [hqueued])
      refine (h.setLoop ?_).perform hon
      intro k' hk'
      rw [hqueued]
      exact List.mem_cons_of_mem k hk'
  | endPendingFunctors => exact h.setLoop fun k hk => hk

omit [DecidableEq τ] in
theorem start_placed (name : String) (numThreads : Nat) (cb mcb : Bool) :
    (start name numThreads cb mcb : Server τ υ).Placed := by
  constructor
  · exact ⟨fun c => by simp [start, Connection.Confined], by simp [start], rfl⟩
  · intro l
    exact ⟨by simp [start, EventLoop.new, EventLoop.queued], by simp [start]⟩
  · simp [start]
  · simp [start]
  · simp [start]
  · simp [start]

/-- In every run of a server, with any number of I/O loops, every member of a connection
runs on the thread of the connection's loop and every use of the registry on the base
loop's thread; no `assertInLoopThread` aborts. -/
theorem server_confined (name : String) (numThreads : Nat) (cb mcb : Bool)
    (is : List (ServerInput τ υ)) :
    (machine τ υ).Always Confined (start name numThreads cb mcb) is := by
  apply Machine.Always.mono (P := Placed)
  · intro s hs
    exact hs.toConfined
  · apply Machine.always_of_invariant
    · intro s i t hs hstep
      exact step_placed hs hstep
    · exact start_placed name numThreads cb mcb

end Server

end Hayai
