import Hayai.Machine.Run
import Hayai.Net.TcpServer

/-! # Control calls

`setIoLoopNum()`, `start()` and `stop()` of a server in any order, with clients that come
and go in between. `started_` of the server, `started_` of its pool, the acceptor and the
pool itself are changed by different calls. Of a connection only its loop matters here, so
the registry keeps no more of it. Each call is one step; the functor of a call made on
another thread waits in the queue of the base loop.
-/

namespace Hayai

/-- A loop: the base loop, or one of the pool that was made as number `generation`. -/
inductive LoopId where
  | base
  | pool (generation index : Nat)
  deriving DecidableEq, Repr

inductive ControlThread (τ : Type) where
  | loop (l : LoopId)
  | other (t : τ)
  deriving DecidableEq, Repr

/-- The assertions of `EventLoopThreadPool`, the abort of `assertInLoopThread`, the use of
a null `acceptor_`, and the exception of a thread that joins itself, which leaves a
destructor. -/
inductive ControlFault where
  | poolStarted
  | poolNotStarted
  | notInLoopThread
  | nullAcceptor
  | selfJoin
  deriving DecidableEq, Repr

/-! ## The pool -/

structure EventLoopThreadPool where
  generation : Nat
  numThreads : Nat
  loops : List LoopId
  next : Nat
  started : Bool
  deriving DecidableEq, Repr

namespace EventLoopThreadPool

def new (generation numThreads : Nat) : EventLoopThreadPool :=
  ⟨generation, numThreads, [], 0, false⟩

def start (p : EventLoopThreadPool) (inLoopThread : Bool) :
    Except ControlFault EventLoopThreadPool :=
  if p.started then .error .poolStarted
  else if inLoopThread then
    .ok { p with started := true, loops := (List.range p.numThreads).map (.pool p.generation) }
  else .error .notInLoopThread

def getNextLoop (p : EventLoopThreadPool) : Except ControlFault (LoopId × EventLoopThreadPool) :=
  if p.started then
    if h : p.loops.length = 0 then .ok (.base, p)
    else
      let index : Fin p.loops.length := ⟨p.next % p.loops.length, Nat.mod_lt _ (by omega)⟩
      .ok (p.loops.get index, { p with next := (p.next + 1) % 2 ^ 64 })
  else .error .poolNotStarted

end EventLoopThreadPool

/-! ## The server's calls -/

inductive ControlTask where
  | listen
  | stop
  deriving DecidableEq, Repr

/-- `acceptor` has `listening_` of the acceptor; `pools` is how many pools were made and
`pending` the queue of the base loop. -/
structure ServerControl where
  started : Bool
  threadPool : EventLoopThreadPool
  pools : Nat
  acceptor : Option Bool
  connections : List (Nat × LoopId)
  accepted : Nat
  pending : List ControlTask
  fault : Option ControlFault
  deriving DecidableEq, Repr

inductive ControlInput (τ : Type) where
  | setIoLoopNum (θ : ControlThread τ) (num : Nat)
  | start (θ : ControlThread τ)
  | stop (θ : ControlThread τ)
  | functor
  | accept
  | close (c : Nat)

namespace ServerControl

def new : ServerControl where
  started := false
  threadPool := .new 0 0
  pools := 1
  acceptor := some false
  connections := []
  accepted := 0
  pending := []
  fault := none

def fail (s : ServerControl) (f : ControlFault) : ServerControl := { s with fault := some f }

def perform (s : ServerControl) : ControlTask → ServerControl
  | .listen =>
      if s.acceptor.isSome then { s with acceptor := some true } else s.fail .nullAcceptor
  | .stop => { s with acceptor := none }

variable {τ : Type} [DecidableEq τ]

def runInLoop (s : ServerControl) (θ : ControlThread τ) (k : ControlTask) : ServerControl :=
  if θ = .loop .base then s.perform k else { s with pending := s.pending ++ [k] }

/-- The old pool goes, and its destructor joins the threads of its loops. -/
def setIoLoopNum (s : ServerControl) (θ : ControlThread τ) (num : Nat) : ServerControl :=
  if ∃ l ∈ s.threadPool.loops, θ = .loop l then s.fail .selfJoin
  else { s with threadPool := .new s.pools num, pools := s.pools + 1 }

def start (s : ServerControl) (θ : ControlThread τ) : ServerControl :=
  if s.started then s
  else
    let t := { s with started := true }
    match s.threadPool.start (θ = .loop .base) with
    | .error f => t.fail f
    | .ok threadPool => { t with threadPool }.runInLoop θ .listen

def stop (s : ServerControl) (θ : ControlThread τ) : ServerControl :=
  { s with started := false }.runInLoop θ .stop

def newConnection (s : ServerControl) : ServerControl :=
  match s.threadPool.getNextLoop with
  | .error f => s.fail f
  | .ok (ioLoop, threadPool) =>
      { s with
        threadPool
        connections := s.connections ++ [(s.accepted, ioLoop)]
        accepted := s.accepted + 1 }

def step (s : ServerControl) : ControlInput τ → Option ServerControl
  | .setIoLoopNum θ num =>
      if s.fault = none ∧ s.started = false then some (s.setIoLoopNum θ num) else none
  | .start θ => if s.fault = none then some (s.start θ) else none
  | .stop θ => if s.fault = none then some (s.stop θ) else none
  | .functor =>
      match s.pending with
      | k :: pending =>
          if s.fault = none then some (({ s with pending } : ServerControl).perform k) else none
      | [] => none
  | .accept =>
      if s.fault = none ∧ s.acceptor = some true then some s.newConnection else none
  | .close c =>
      if s.fault = none then
        some { s with connections := s.connections.filter (·.1 ≠ c) }
      else none

def machine (τ : Type) [DecidableEq τ] : Machine ServerControl (ControlInput τ) := ⟨step⟩

/-! ## Safe orders of calls -/

/-- No call has failed, and every connection is on the base loop or on a loop of the
current pool. -/
structure Safe (s : ServerControl) : Prop where
  fault : s.fault = none
  assigned : ∀ p ∈ s.connections, p.2 = .base ∨ p.2 ∈ s.threadPool.loops

/-- A pool is replaced when all connections are on the base loop, not from one of its own
threads; the call of `start()` that starts the server is made on the base loop's thread,
on a new pool and with the acceptor still there; clients come when the pool is started. -/
def InOrder (s : ServerControl) : ControlInput τ → Prop
  | .setIoLoopNum θ _ =>
      (∀ l ∈ s.threadPool.loops, θ ≠ .loop l) ∧ ∀ p ∈ s.connections, p.2 = .base
  | .start θ =>
      s.started = false →
        s.threadPool.started = false ∧ θ = .loop .base ∧ s.acceptor.isSome = true
  | .accept => s.threadPool.started = true
  | _ => True

/-- Beside `Safe`, a pool has its loops from its start on, and only functors of `stop()`
wait on the base loop. -/
structure Steady (s : ServerControl) : Prop extends s.Safe where
  loops : s.threadPool.started = false → s.threadPool.loops = []
  pending : ∀ k ∈ s.pending, k = .stop

omit [DecidableEq τ] in
theorem new_steady : new.Steady := by
  refine ⟨⟨rfl, ?_⟩, fun _ => rfl, ?_⟩
  · simp [new]
  · simp [new]

/-! ## Each call -/

omit [DecidableEq τ] in
theorem Steady.performStop {s : ServerControl} (h : s.Steady) : (s.perform .stop).Steady :=
  ⟨⟨h.fault, h.assigned⟩, h.loops, h.pending⟩

theorem Steady.stop {s : ServerControl} (h : s.Steady) (θ : ControlThread τ) :
    (s.stop θ).Steady := by
  have hstopped : ({ s with started := false } : ServerControl).Steady :=
    ⟨⟨h.fault, h.assigned⟩, h.loops, h.pending⟩
  unfold ServerControl.stop ServerControl.runInLoop
  split
  · exact hstopped.performStop
  · refine ⟨⟨h.fault, h.assigned⟩, h.loops, ?_⟩
    intro k hk
    rcases List.mem_append.1 hk with hk | hk
    · exact h.pending k hk
    · exact List.mem_singleton.1 hk

/-- Exactly in order a new pool is free of faults and has all connections. -/
theorem Steady.setIoLoopNum {s : ServerControl} (h : s.Steady) {θ : ControlThread τ} {num : Nat}
    (hc : s.InOrder (.setIoLoopNum θ num)) : (s.setIoLoopNum θ num).Steady := by
  have hθ : ¬∃ l ∈ s.threadPool.loops, θ = .loop l := by
    intro hl
    rcases hl with ⟨l, hl, hθ⟩
    exact hc.1 l hl hθ
  rw [ServerControl.setIoLoopNum, if_neg hθ]
  exact ⟨⟨h.fault, fun p hp => .inl (hc.2 p hp)⟩, fun _ => rfl, h.pending⟩

theorem Safe.inOrder_setIoLoopNum {s : ServerControl} {θ : ControlThread τ} {num : Nat}
    (h : (s.setIoLoopNum θ num).Safe) : s.InOrder (.setIoLoopNum θ num) := by
  by_cases hθ : ∃ l ∈ s.threadPool.loops, θ = .loop l
  · rw [ServerControl.setIoLoopNum, if_pos hθ] at h
    cases h.fault
  · rw [ServerControl.setIoLoopNum, if_neg hθ] at h
    constructor
    · intro l hl heq
      exact hθ ⟨l, hl, heq⟩
    · intro p hp
      rcases h.assigned p hp with hbase | hmem
      · exact hbase
      · cases hmem

theorem start_of_not_started {s : ServerControl} (hs : s.started = false) (θ : ControlThread τ) :
    s.start θ =
      if s.threadPool.started then ({ s with started := true } : ServerControl).fail .poolStarted
      else if θ = .loop .base then
        ({ s with
          started := true
          threadPool := { s.threadPool with
            started := true
            loops := (List.range s.threadPool.numThreads).map
              (.pool s.threadPool.generation) } } : ServerControl).perform .listen
      else ({ s with started := true } : ServerControl).fail .notInLoopThread := by
  unfold ServerControl.start EventLoopThreadPool.start
  by_cases hpool : s.threadPool.started = true
  · simp [hs, hpool]
  · by_cases hθ : θ = .loop .base
    · simp [hs, hpool, hθ, ServerControl.runInLoop]
    · simp [hs, hpool, hθ]

theorem Steady.start {s : ServerControl} (h : s.Steady) {θ : ControlThread τ}
    (hc : s.InOrder (.start θ)) : (s.start θ).Steady := by
  cases hs : s.started with
  | true =>
      rw [ServerControl.start, if_pos hs]
      exact h
  | false =>
      rcases hc hs with ⟨hpool, hθ, hacceptor⟩
      have hloops := h.loops hpool
      rw [start_of_not_started hs, hpool, if_neg (by decide), if_pos hθ, ServerControl.perform,
        if_pos hacceptor]
      refine ⟨⟨h.fault, ?_⟩, nofun, h.pending⟩
      intro p hp
      rcases h.assigned p hp with hbase | hmem
      · exact .inl hbase
      · rw [hloops] at hmem
        cases hmem

theorem Safe.inOrder_start {s : ServerControl} {θ : ControlThread τ}
    (h : (s.start θ).Safe) : s.InOrder (.start θ) := by
  intro hs
  rw [start_of_not_started hs] at h
  split at h
  · cases h.fault
  · next hpool =>
      split at h
      · next hθ =>
          rw [ServerControl.perform] at h
          split at h
          · next hacceptor => exact ⟨by simpa using hpool, hθ, hacceptor⟩
          · cases h.fault
      · cases h.fault

omit [DecidableEq τ] in
/-- A started pool gives out the base loop or one of its own, and stays as it is. -/
theorem getNextLoop_spec {p : EventLoopThreadPool} (hp : p.started = true) :
    ∃ l n, p.getNextLoop = .ok (l, { p with next := n }) ∧ (l = .base ∨ l ∈ p.loops) := by
  unfold EventLoopThreadPool.getNextLoop
  rw [if_pos hp]
  split
  · exact ⟨.base, p.next, rfl, .inl rfl⟩
  · exact ⟨_, _, rfl, .inr (List.get_mem _ _)⟩

omit [DecidableEq τ] in
theorem Steady.newConnection {s : ServerControl} (h : s.Steady)
    (hc : s.threadPool.started = true) : s.newConnection.Steady := by
  rcases getNextLoop_spec hc with ⟨l, n, hnext, hl⟩
  rw [ServerControl.newConnection, hnext]
  refine ⟨⟨h.fault, ?_⟩, h.loops, h.pending⟩
  intro p hp
  rcases List.mem_append.1 hp with hp | hp
  · exact h.assigned p hp
  · rw [List.mem_singleton] at hp
    subst hp
    exact hl

omit [DecidableEq τ] in
theorem Safe.started_of_newConnection {s : ServerControl} (h : s.newConnection.Safe) :
    s.threadPool.started = true := by
  cases hp : s.threadPool.started with
  | true => rfl
  | false =>
      rw [ServerControl.newConnection, EventLoopThreadPool.getNextLoop, hp] at h
      cases h.fault

/-! ## Runs -/

theorem step_steady {s t : ServerControl} {i : ControlInput τ} (h : s.Steady)
    (hc : s.InOrder i) (hstep : s.step i = some t) : t.Steady := by
  cases i with
  | setIoLoopNum θ num =>
      rcases Option.ite_none_right_eq_some.1 hstep with ⟨-, ⟨⟩⟩
      exact h.setIoLoopNum hc
  | start θ =>
      rcases Option.ite_none_right_eq_some.1 hstep with ⟨-, ⟨⟩⟩
      exact h.start hc
  | stop θ =>
      rcases Option.ite_none_right_eq_some.1 hstep with ⟨-, ⟨⟩⟩
      exact h.stop θ
  | functor =>
      simp only [step] at hstep
      split at hstep
      · next k pending hpending =>
          rcases Option.ite_none_right_eq_some.1 hstep with ⟨-, ⟨⟩⟩
          have hk : k = .stop := h.pending k (by simp [hpending])
          have hrest : ({ s with pending } : ServerControl).Steady := by
            refine ⟨⟨h.fault, h.assigned⟩, h.loops, fun k' hk' => ?_⟩
            apply h.pending
            rw [hpending]
            exact List.mem_cons_of_mem k hk'
          rw [hk]
          exact hrest.performStop
      · cases hstep
  | accept =>
      rcases Option.ite_none_right_eq_some.1 hstep with ⟨-, ⟨⟩⟩
      exact h.newConnection hc
  | close c =>
      rcases Option.ite_none_right_eq_some.1 hstep with ⟨-, ⟨⟩⟩
      exact ⟨⟨h.fault, fun p hp => h.assigned p (List.mem_filter.1 hp).1⟩, h.loops, h.pending⟩

theorem inOrder_of_safe {s t : ServerControl} {i : ControlInput τ} (hstep : s.step i = some t)
    (ht : t.Safe) : s.InOrder i := by
  cases i with
  | setIoLoopNum θ num =>
      rcases Option.ite_none_right_eq_some.1 hstep with ⟨-, ⟨⟩⟩
      exact ht.inOrder_setIoLoopNum
  | start θ =>
      rcases Option.ite_none_right_eq_some.1 hstep with ⟨-, ⟨⟩⟩
      exact ht.inOrder_start
  | accept =>
      rcases Option.ite_none_right_eq_some.1 hstep with ⟨-, ⟨⟩⟩
      exact ht.started_of_newConnection
  | _ => trivial

/-- The control calls are safe in every state of a run exactly when the run keeps to the
order. -/
theorem control_safe_iff_inOrder (is : List (ControlInput τ)) :
    (machine τ).Always Safe new is ↔ (machine τ).Meets InOrder new is := by
  apply Machine.always_iff_meets (I := Steady)
  · intro s hs
    exact hs.toSafe
  · intro s i t hs hc hstep
    exact step_steady hs hc hstep
  · intro s i t _ hstep ht
    exact inOrder_of_safe hstep ht
  · exact new_steady

/-- `start()` on any thread but the base loop's aborts in `EventLoopThreadPool::start`. -/
theorem start_off_base_aborts :
    ¬(machine Unit).Always Safe new [.start (.other ())] := by
  intro h
  have hend := h.last rfl
  cases hend.fault

end ServerControl

/-! ## The pool of a running server -/

def LoopId.number : LoopId → Nat
  | .base => 0
  | .pool _ index => index + 1

/-- The pool is started and the server's part of it is the same. -/
structure EventLoopThreadPool.Serves {τ υ : Type} (p : EventLoopThreadPool) (s : Server τ υ) :
    Prop where
  started : p.started = true
  loops : p.loops = (List.range s.numThreads).map (.pool p.generation)
  next : p.next = s.next

namespace ServerControl

variable {τ υ : Type} [DecidableEq τ]

/-- A new server that is given `num` loops and started on the base loop's thread has the
pool with which the running server begins. -/
theorem serves_start (name : String) (num : Nat) (cb mcb : Bool) : ∃ s,
    (machine τ).run new [.setIoLoopNum (.loop .base) num, .start (.loop .base)] = some s ∧
      s.acceptor = some true ∧
      s.threadPool.Serves (.start name num cb mcb : Server τ υ) :=
  ⟨_, rfl, rfl, rfl, rfl, rfl⟩

omit [DecidableEq τ] in
/-- The running server takes its loops from the pool. -/
theorem serves_getNextLoop {p : EventLoopThreadPool} {s : Server τ υ} (h : p.Serves s) :
    ∃ l q, p.getNextLoop = .ok (l, q) ∧ l.number = s.getNextLoop.1 ∧
      q.Serves s.getNextLoop.2 := by
  have hlength : p.loops.length = s.numThreads := by simp [h.loops]
  unfold EventLoopThreadPool.getNextLoop Server.getNextLoop
  rw [if_pos h.started]
  by_cases hzero : s.numThreads = 0
  · rw [dif_pos (hlength.trans hzero), if_pos hzero]
    exact ⟨.base, p, rfl, rfl, h⟩
  · rw [dif_neg (by rw [hlength]; exact hzero), if_neg hzero]
    refine ⟨_, _, rfl, ?_, h.started, h.loops, ?_⟩
    · have hget : ∀ i : Fin p.loops.length, (p.loops.get i).number = i + 1 := by
        simp [h.loops, LoopId.number]
      rw [hget]
      simp only [hlength, h.next]
    · show (p.next + 1) % 2 ^ 64 = (s.next + 1) % 2 ^ 64
      rw [h.next]

end ServerControl

end Hayai
