import Hayai.Net.ServerControl
import Mathlib.Logic.Function.Basic

/-! # The threads of a pool

`EventLoopThreadPool::start` with the handshake of each `EventLoopThread`, and the
destructor of the pool. `start` makes one thread after the other and sleeps on a condition
variable until the thread has stored its loop; it may wake up for no reason. A mutex is
held between its lock and its unlock. The destructor quits, joins and destroys the workers
in any order, on the thread of the base loop.
-/

namespace Hayai

/-! ## The model -/

/-- Where a worker's thread is in `threadFunc`, the last part of which is `loop()`. -/
inductive WorkerPhase where
  | absent
  | constructing
  | locking
  | storing
  | notifying
  | unlocking
  | entering
  | testing
  | polling
  | returned
  | destroyed
  deriving DecidableEq, Repr

namespace WorkerPhase

def constructed : WorkerPhase → Bool
  | .absent | .constructing => false
  | _ => true

def holds : WorkerPhase → Bool
  | .storing | .notifying | .unlocking => true
  | _ => false

def stored : WorkerPhase → Bool
  | .absent | .constructing | .locking | .storing | .destroyed => false
  | _ => true

def shaken : WorkerPhase → Bool
  | .entering | .testing | .polling | .returned | .destroyed => true
  | _ => false

def inLoop : WorkerPhase → Bool
  | .testing | .polling => true
  | _ => false

inductive Next : WorkerPhase → WorkerPhase → Prop
  | construct : Next .constructing .locking
  | lock : Next .locking .storing
  | store : Next .storing .notifying
  | notify : Next .notifying .unlocking
  | unlock : Next .unlocking .entering
  | enter : Next .entering .testing
  | test (quit : Bool) : Next .testing (if quit then .returned else .polling)
  | poll : Next .polling .testing

theorem Next.spec {p q : WorkerPhase} (h : Next p q) :
    (p ≠ .absent ∧ p ≠ .returned ∧ p ≠ .destroyed) ∧ (q ≠ .absent ∧ q ≠ .destroyed) ∧
      (p.shaken = true → q.shaken = true) ∧ (p.stored = true → q.stored = true) ∧
      (q.holds = true → p.holds = true ∨ p = .locking) ∧
      (q.stored = true → p.stored = true ∨ q = .notifying) := by
  cases h with
  | test quit => cases quit <;> decide
  | _ => decide

end WorkerPhase

/-- Where the thread of the base loop is: in `start()` up to `leaving`, then outside, then
in the destructor. -/
inductive OwnerPhase where
  | creating
  | locking
  | predicate
  | waiting
  | leaving
  | running
  | closing
  | joining (i : Nat)
  | destroying (i : Nat)
  | gone
  deriving DecidableEq, Repr

namespace OwnerPhase

def inStartLoop : OwnerPhase → Bool
  | .locking | .predicate | .waiting | .leaving => true
  | _ => false

def inStart (o : OwnerPhase) : Bool := o == .creating || o.inStartLoop

def holds : OwnerPhase → Bool
  | .predicate | .leaving => true
  | _ => false

end OwnerPhase

/-- A pool and its threads. `loop` is `loop_` of each `EventLoopThread`, `quit` is `quit_`
of its loop. `loopInThisThread` is the thread-local pointer, of the base loop's thread
under `none`. -/
structure ThreadPool where
  pool : EventLoopThreadPool
  owner : OwnerPhase
  worker : Nat → WorkerPhase
  loop : Nat → Option LoopId
  quit : Nat → Bool
  loopInThisThread : Option Nat → Option LoopId

inductive PoolInput where
  | owner
  | spurious
  | worker (i : Nat)
  | destroy
  | quit (i : Nat)
  | elsewhere
  deriving DecidableEq, Repr

def PoolInput.ofOwner : PoolInput → Prop
  | .owner | .quit _ => True
  | _ => False

namespace ThreadPool

def current (s : ThreadPool) : Nat := s.pool.loops.length

def moveWorker (s : ThreadPool) (i : Nat) (p : WorkerPhase) : ThreadPool :=
  { s with worker := Function.update s.worker i p }

theorem worker_moveWorker (s : ThreadPool) (i : Nat) (p : WorkerPhase) (j : Nat) :
    (s.moveWorker i p).worker j = if j = i then p else s.worker j := by
  simp [moveWorker, Function.update_apply]

def ownerStep (s : ThreadPool) : Option ThreadPool :=
  match s.owner with
  | .creating =>
      if s.current < s.pool.numThreads then
        some { s.moveWorker s.current .constructing with owner := .locking }
      else some { s with owner := .running }
  | .locking => if (s.worker s.current).holds then none else some { s with owner := .predicate }
  | .predicate =>
      some { s with owner := if (s.loop s.current).isSome then .leaving else .waiting }
  | .leaving =>
      some { s with
        owner := .creating
        pool := { s.pool with loops := s.pool.loops ++ (s.loop s.current).toList } }
  | .closing =>
      if ∀ i < s.pool.numThreads, s.worker i = .destroyed then some { s with owner := .gone }
      else none
  | .joining i => if s.worker i = .returned then some { s with owner := .destroying i } else none
  | .destroying i =>
      some { s.moveWorker i .destroyed with
        owner := .closing
        loop := Function.update s.loop i none
        loopInThisThread := Function.update s.loopInThisThread none none }
  | .waiting | .running | .gone => none

/-- A thread that finds a loop of its own aborts. -/
def workerStep (s : ThreadPool) (i : Nat) : Option ThreadPool :=
  match s.worker i with
  | .constructing =>
      if (s.loopInThisThread (some i)).isSome then none
      else some { s.moveWorker i .locking with
        loopInThisThread :=
          Function.update s.loopInThisThread (some i) (some (.pool s.pool.generation i)) }
  | .locking =>
      if s.current = i ∧ s.owner.holds = true then none else some (s.moveWorker i .storing)
  | .storing =>
      some { s.moveWorker i .notifying with
        loop := Function.update s.loop i (some (.pool s.pool.generation i)) }
  | .notifying =>
      some { s.moveWorker i .unlocking with
        owner := if s.current = i ∧ s.owner = .waiting then .locking else s.owner }
  | .unlocking => some (s.moveWorker i .entering)
  | .entering => some { s.moveWorker i .testing with quit := Function.update s.quit i false }
  | .testing => some (s.moveWorker i (if s.quit i then .returned else .polling))
  | .polling => some (s.moveWorker i .testing)
  | .absent | .returned | .destroyed => none

/-- `poll` returns after ten seconds at the latest, so the token that `quit()` writes is
left out. `elsewhere` is a step of the rest of the program. -/
def step (s : ThreadPool) : PoolInput → Option ThreadPool
  | .owner => s.ownerStep
  | .spurious => if s.owner = .waiting then some { s with owner := .locking } else none
  | .worker i => s.workerStep i
  | .destroy => if s.owner = .running then some { s with owner := .closing } else none
  | .quit i =>
      if s.owner = .closing ∧ (s.loop i).isSome then
        some { s with owner := .joining i, quit := Function.update s.quit i true }
      else none
  | .elsewhere => some s

def machine : Machine ThreadPool PoolInput := ⟨step⟩

/-- `start()` on the thread of the base loop, once it has set `started_`. -/
def start (generation numThreads : Nat) : ThreadPool where
  pool := { EventLoopThreadPool.new generation numThreads with started := true }
  owner := .creating
  worker _ := .absent
  loop _ := none
  quit _ := false
  loopInThisThread := Function.update (fun _ => none) none (some .base)

/-- `start()` has returned, and left the pool as its plain reading says. -/
structure Started (generation numThreads : Nat) (s : ThreadPool) : Prop where
  returned : s.owner.inStart = false
  pool : (EventLoopThreadPool.new generation numThreads).start true = .ok s.pool

/-! ## What one step can do -/

inductive Moves (s : ThreadPool) : PoolInput → ThreadPool → Prop
  | create (howner : s.owner = .creating) (hlt : s.current < s.pool.numThreads) :
      Moves s .owner { s.moveWorker s.current .constructing with owner := .locking }
  | returnStart (howner : s.owner = .creating) (hge : s.pool.numThreads ≤ s.current) :
      Moves s .owner { s with owner := .running }
  | lock (howner : s.owner = .locking) (hfree : (s.worker s.current).holds = false) :
      Moves s .owner { s with owner := .predicate }
  | predicate (howner : s.owner = .predicate) :
      Moves s .owner { s with owner := if (s.loop s.current).isSome then .leaving else .waiting }
  | leave (howner : s.owner = .leaving) :
      Moves s .owner { s with
        owner := .creating
        pool := { s.pool with loops := s.pool.loops ++ (s.loop s.current).toList } }
  | close (howner : s.owner = .closing)
      (hall : ∀ i < s.pool.numThreads, s.worker i = .destroyed) :
      Moves s .owner { s with owner := .gone }
  | join {i : Nat} (howner : s.owner = .joining i) (hworker : s.worker i = .returned) :
      Moves s .owner { s with owner := .destroying i }
  | destroyWorker {i : Nat} (howner : s.owner = .destroying i) :
      Moves s .owner { s.moveWorker i .destroyed with
        owner := .closing
        loop := Function.update s.loop i none
        loopInThisThread := Function.update s.loopInThisThread none none }
  | construct {i : Nat} (hworker : s.worker i = .constructing)
      (hfree : s.loopInThisThread (some i) = none) :
      Moves s (.worker i) { s.moveWorker i .locking with
        loopInThisThread :=
          Function.update s.loopInThisThread (some i) (some (.pool s.pool.generation i)) }
  | lockWorker {i : Nat} (hworker : s.worker i = .locking)
      (hfree : s.current = i → s.owner.holds = false) :
      Moves s (.worker i) (s.moveWorker i .storing)
  | store {i : Nat} (hworker : s.worker i = .storing) :
      Moves s (.worker i) { s.moveWorker i .notifying with
        loop := Function.update s.loop i (some (.pool s.pool.generation i)) }
  | notify {i : Nat} (hworker : s.worker i = .notifying) :
      Moves s (.worker i) { s.moveWorker i .unlocking with
        owner := if s.current = i ∧ s.owner = .waiting then .locking else s.owner }
  | unlock {i : Nat} (hworker : s.worker i = .unlocking) :
      Moves s (.worker i) (s.moveWorker i .entering)
  | enter {i : Nat} (hworker : s.worker i = .entering) :
      Moves s (.worker i) { s.moveWorker i .testing with quit := Function.update s.quit i false }
  | test {i : Nat} (hworker : s.worker i = .testing) :
      Moves s (.worker i) (s.moveWorker i (if s.quit i then .returned else .polling))
  | poll {i : Nat} (hworker : s.worker i = .polling) :
      Moves s (.worker i) (s.moveWorker i .testing)
  | spurious (howner : s.owner = .waiting) : Moves s .spurious { s with owner := .locking }
  | destroy (howner : s.owner = .running) : Moves s .destroy { s with owner := .closing }
  | quit {i : Nat} (howner : s.owner = .closing) (hloop : (s.loop i).isSome) :
      Moves s (.quit i) { s with owner := .joining i, quit := Function.update s.quit i true }
  | elsewhere : Moves s .elsewhere s

theorem step_spec {s t : ThreadPool} {i : PoolInput} (hstep : s.step i = some t) : Moves s i t := by
  cases i with
  | owner =>
      simp only [step, ownerStep] at hstep
      split at hstep
      · rename_i howner
        split at hstep
        · rename_i hlt
          cases hstep
          exact .create howner hlt
        · rename_i hge
          cases hstep
          exact .returnStart howner (Nat.le_of_not_lt hge)
      · rename_i howner
        split at hstep
        · cases hstep
        · rename_i hfree
          cases hstep
          exact .lock howner (by simpa using hfree)
      · rename_i howner
        cases hstep
        exact .predicate howner
      · rename_i howner
        cases hstep
        exact .leave howner
      · rename_i howner
        split at hstep
        · rename_i hall
          cases hstep
          exact .close howner hall
        · cases hstep
      · rename_i howner
        split at hstep
        · rename_i hworker
          cases hstep
          exact .join howner hworker
        · cases hstep
      · rename_i howner
        cases hstep
        exact .destroyWorker howner
      all_goals cases hstep
  | spurious =>
      simp only [step] at hstep
      split at hstep
      · rename_i howner
        cases hstep
        exact .spurious howner
      · cases hstep
  | worker i =>
      simp only [step, workerStep] at hstep
      split at hstep
      · rename_i hworker
        split at hstep
        · cases hstep
        · rename_i hfree
          cases hstep
          exact .construct hworker (by simpa using hfree)
      · rename_i hworker
        split at hstep
        · cases hstep
        · rename_i hfree
          cases hstep
          exact .lockWorker hworker (by simpa using hfree)
      · rename_i hworker
        cases hstep
        exact .store hworker
      · rename_i hworker
        cases hstep
        exact .notify hworker
      · rename_i hworker
        cases hstep
        exact .unlock hworker
      · rename_i hworker
        cases hstep
        exact .enter hworker
      · rename_i hworker
        cases hstep
        exact .test hworker
      · rename_i hworker
        cases hstep
        exact .poll hworker
      all_goals cases hstep
  | destroy =>
      simp only [step] at hstep
      split at hstep
      · rename_i howner
        cases hstep
        exact .destroy howner
      · cases hstep
  | quit i =>
      simp only [step] at hstep
      split at hstep
      · rename_i hguard
        cases hstep
        exact .quit hguard.1 hguard.2
      · cases hstep
  | elsewhere =>
      cases hstep
      exact .elsewhere

/-! ## The invariant -/

structure Counted (generation numThreads : Nat) (s : ThreadPool) : Prop where
  pool : s.pool = { EventLoopThreadPool.new generation numThreads with
    started := true
    loops := (List.range s.current).map (.pool generation) }
  le : s.current ≤ numThreads
  full : s.owner.inStart = false → s.current = numThreads
  busy : s.owner.inStartLoop = true → s.current < numThreads ∧ s.worker s.current ≠ .absent
  earlier : ∀ i < s.current, (s.worker i).shaken = true
  later : ∀ i, s.current < i ∨ s.current = i ∧ s.owner.inStartLoop = false → s.worker i = .absent

structure Stored (generation : Nat) (s : ThreadPool) : Prop where
  loop : ∀ i, s.loop i = if (s.worker i).stored then some (.pool generation i) else none
  thread : ∀ i, s.loopInThisThread (some i) =
    if (s.worker i).constructed then some (.pool generation i) else none

/-- The mutex excludes, and no notification is lost: the loop is stored and the starter
notified under one lock. -/
structure Handshake (s : ThreadPool) : Prop where
  exclusive : s.owner.holds = true → (s.worker s.current).holds = false
  leaving : s.owner = .leaving → (s.worker s.current).stored = true
  asleep : s.owner = .waiting → (s.worker s.current).stored = true →
    s.worker s.current = .notifying

/-- A loop is asked to quit by the destructor only, and returns for no other reason. -/
structure Closing (s : ThreadPool) : Prop where
  joining : ∀ i, s.owner = .joining i → (s.worker i).shaken = true ∧ s.worker i ≠ .destroyed
  destroying : ∀ i, s.owner = .destroying i → s.worker i = .returned
  quit : ∀ i, s.quit i = true →
    s.owner = .joining i ∨ s.owner = .destroying i ∨ s.worker i = .destroyed
  returned : ∀ i, s.worker i = .returned → s.quit i = true
  gone : ∀ i, s.worker i = .destroyed → s.owner.inStart = false

structure Sound (generation numThreads : Nat) (s : ThreadPool) : Prop extends
  s.Counted generation numThreads, s.Stored generation, s.Handshake, s.Closing

/-! ## How it is kept -/

theorem shaken_of_stored {p : WorkerPhase} (hstored : p.stored = true) (hholds : p.holds = false) :
    p.shaken = true := by
  cases p with
  | absent | constructing | locking | storing | destroyed => cases hstored
  | notifying | unlocking => cases hholds
  | entering | testing | polling | returned => rfl

theorem Counted.of_same {generation numThreads : Nat} {s t : ThreadPool}
    (h : s.Counted generation numThreads) (hpool : t.pool = s.pool)
    (hstart : t.owner.inStart = s.owner.inStart)
    (hloop : t.owner.inStartLoop = s.owner.inStartLoop)
    (habsent : ∀ i, t.worker i = .absent ↔ s.worker i = .absent)
    (hshaken : ∀ i, (s.worker i).shaken = true → (t.worker i).shaken = true) :
    t.Counted generation numThreads := by
  have hcurrent : t.current = s.current := by rw [current, hpool, current]
  refine ⟨?_, ?_, ?_, ?_, ?_, ?_⟩ <;> rw [hcurrent]
  · rw [hpool]
    exact h.pool
  · exact h.le
  · rw [hstart]
    exact h.full
  · rw [hloop, Ne, habsent]
    exact h.busy
  · intro i hi
    exact hshaken i (h.earlier i hi)
  · intro i hi
    rw [hloop] at hi
    exact (habsent i).2 (h.later i hi)

theorem Counted.moveWorker {generation numThreads : Nat} {s t : ThreadPool}
    (h : s.Counted generation numThreads) {i : Nat} {q : WorkerPhase}
    (hworker : t.worker = (s.moveWorker i q).worker) (hpool : t.pool = s.pool)
    (hstart : t.owner.inStart = s.owner.inStart)
    (hloop : t.owner.inStartLoop = s.owner.inStartLoop) (hp : s.worker i ≠ .absent)
    (hq : q ≠ .absent) (hshaken : (s.worker i).shaken = true → q.shaken = true) :
    t.Counted generation numThreads := by
  refine h.of_same hpool hstart hloop ?_ ?_ <;> intro j <;> rw [hworker, worker_moveWorker]
  · split
    · rename_i hj
      subst hj
      exact ⟨fun hnone => (hq hnone).elim, fun hnone => (hp hnone).elim⟩
    · rfl
  · split
    · rename_i hj
      subst hj
      exact hshaken
    · exact id

theorem Stored.moveWorker {generation : Nat} {s t : ThreadPool} (h : s.Stored generation) {i : Nat}
    {q : WorkerPhase} (hworker : t.worker = (s.moveWorker i q).worker)
    (hloop : ∀ j, t.loop j = if j = i then if q.stored then some (.pool generation i) else none
      else s.loop j)
    (hthread : ∀ j, t.loopInThisThread (some j) =
      if j = i then if q.constructed then some (.pool generation i) else none
      else s.loopInThisThread (some j)) : t.Stored generation := by
  constructor
  · intro j
    rw [hloop, hworker, worker_moveWorker]
    split
    · rename_i hj
      rw [hj]
    · exact h.loop j
  · intro j
    rw [hthread, hworker, worker_moveWorker]
    split
    · rename_i hj
      rw [hj]
    · exact h.thread j

theorem Stored.passWorker {generation : Nat} {s t : ThreadPool} (h : s.Stored generation) {i : Nat}
    {q : WorkerPhase} (hworker : t.worker = (s.moveWorker i q).worker) (hloop : t.loop = s.loop)
    (hthread : t.loopInThisThread = s.loopInThisThread) (hstored : q.stored = (s.worker i).stored)
    (hconstructed : q.constructed = (s.worker i).constructed) : t.Stored generation := by
  apply h.moveWorker hworker
  · intro j
    rw [hloop, hstored, ← h.loop i]
    split
    · rename_i hj
      rw [hj]
    · rfl
  · intro j
    rw [hthread, hconstructed, ← h.thread i]
    split
    · rename_i hj
      rw [hj]
    · rfl

theorem Handshake.idle {t : ThreadPool} (hholds : t.owner.holds = false)
    (hwaiting : t.owner ≠ .waiting) : t.Handshake := by
  refine ⟨?_, ?_, ?_⟩
  · rw [hholds]
    intro h
    cases h
  · intro h
    rw [h] at hholds
    cases hholds
  · intro h
    exact (hwaiting h).elim

theorem Handshake.moveWorker {s t : ThreadPool} (h : s.Handshake) {i : Nat} {q : WorkerPhase}
    (hworker : t.worker = (s.moveWorker i q).worker) (hpool : t.pool = s.pool)
    (howner : t.owner = s.owner)
    (hfree : s.current = i → s.owner.holds = true → q.holds = false)
    (hstored : (s.worker i).stored = true → q.stored = true)
    (hasleep : s.current = i → s.owner = .waiting → q.stored = true → q = .notifying) :
    t.Handshake := by
  have hcurrent : t.current = s.current := by rw [current, hpool, current]
  refine ⟨?_, ?_, ?_⟩ <;> rw [howner, hworker, hcurrent, worker_moveWorker] <;> split
  · rename_i hi
    exact hfree hi
  · exact h.exclusive
  · rename_i hi
    intro hleaving
    exact hstored (hi ▸ h.leaving hleaving)
  · exact h.leaving
  · rename_i hi
    exact hasleep hi
  · exact h.asleep

theorem Closing.away {s t : ThreadPool} (h : s.Closing)
    (hs : ∀ i, s.owner ≠ .joining i ∧ s.owner ≠ .destroying i)
    (ht : ∀ i, t.owner ≠ .joining i ∧ t.owner ≠ .destroying i)
    (hstart : s.owner.inStart = false → t.owner.inStart = false) (hquit : t.quit = s.quit)
    (hreturned : ∀ i, t.worker i = .returned → s.worker i = .returned)
    (hdestroyed : ∀ i, t.worker i = .destroyed ↔ s.worker i = .destroyed) : t.Closing := by
  refine ⟨?_, ?_, ?_, ?_, ?_⟩ <;> intro i hi
  · exact ((ht i).1 hi).elim
  · exact ((ht i).2 hi).elim
  · rw [hquit] at hi
    rcases h.quit i hi with hjoin | hdestroy | hgone
    · exact ((hs i).1 hjoin).elim
    · exact ((hs i).2 hdestroy).elim
    · exact .inr (.inr ((hdestroyed i).2 hgone))
  · rw [hquit]
    exact h.returned i (hreturned i hi)
  · exact hstart (h.gone i ((hdestroyed i).1 hi))

theorem Closing.moveWorker {s t : ThreadPool} (h : s.Closing) {i : Nat} {q : WorkerPhase}
    (hworker : t.worker = (s.moveWorker i q).worker) (howner : t.owner = s.owner)
    (hquit : ∀ j, t.quit j = true → s.quit j = true) (hkept : ∀ j, j ≠ i → t.quit j = s.quit j)
    (hreturned : q = .returned → t.quit i = true)
    (hp : s.worker i ≠ .returned ∧ s.worker i ≠ .destroyed) (hq : q ≠ .destroyed)
    (hshaken : (s.worker i).shaken = true → q.shaken = true) : t.Closing := by
  refine ⟨?_, ?_, ?_, ?_, ?_⟩ <;> intro j hj <;> rw [hworker, worker_moveWorker] at *
  · rw [howner] at hj
    split
    · rename_i hi
      exact ⟨hshaken (hi ▸ (h.joining j hj).1), hq⟩
    · exact h.joining j hj
  · rw [howner] at hj
    split
    · rename_i hi
      exact (hp.1 (hi ▸ h.destroying j hj)).elim
    · exact h.destroying j hj
  · rw [howner]
    rcases h.quit j (hquit j hj) with hjoin | hdestroy | hgone
    · exact .inl hjoin
    · exact .inr (.inl hdestroy)
    · split
      · rename_i hi
        exact (hp.2 (hi ▸ hgone)).elim
      · exact .inr (.inr hgone)
  · split at hj
    · rename_i hi
      rw [hi]
      exact hreturned hj
    · rename_i hi
      rw [hkept j hi]
      exact h.returned j hj
  · rw [howner]
    split at hj
    · exact (hq hj).elim
    · exact h.gone j hj

/-! ## One step -/

variable {generation numThreads : Nat} {s t : ThreadPool}

/-- The starter does not sleep while the worker whose turn it is has stored its loop and is
past the notification. -/
theorem Sound.awake (h : s.Sound generation numThreads) {i : Nat}
    (hstored : (s.worker i).stored = true) (hpast : s.worker i ≠ .notifying)
    (hcurrent : s.current = i) : s.owner ≠ .waiting := by
  subst hcurrent
  intro hwaiting
  exact hpast (h.asleep hwaiting hstored)

theorem Sound.moveWorker (h : s.Sound generation numThreads) {i : Nat} {q : WorkerPhase}
    (hnext : (s.worker i).Next q) (hstore : t.Stored generation)
    (hworker : t.worker = (s.moveWorker i q).worker) (hpool : t.pool = s.pool)
    (howner : t.owner = s.owner) (hquit : ∀ j, t.quit j = true → s.quit j = true)
    (hkept : ∀ j, j ≠ i → t.quit j = s.quit j) (hreturned : q = .returned → t.quit i = true)
    (hlock : s.worker i = .locking → s.current = i → s.owner.holds = false)
    (hnotify : s.worker i = .notifying → s.current = i → s.owner ≠ .waiting) :
    t.Sound generation numThreads := by
  rcases hnext.spec with ⟨hp, hq, hshaken, hstored, hholds, hnew⟩
  refine ⟨?_, hstore, ?_, ?_⟩
  · exact h.toCounted.moveWorker hworker hpool (by rw [howner]) (by rw [howner]) hp.1 hq.1 hshaken
  · refine h.toHandshake.moveWorker hworker hpool howner ?_ hstored ?_
    · intro hcurrent howns
      by_contra hboth
      rcases hholds (by simpa using hboth) with hold | hlocking
      · rw [← hcurrent, h.exclusive howns] at hold
        cases hold
      · rw [hlock hlocking hcurrent] at howns
        cases howns
    · intro hcurrent hwaiting hlater
      rcases hnew hlater with hbefore | hnow
      · by_cases hnotifying : s.worker i = .notifying
        · exact (hnotify hnotifying hcurrent hwaiting).elim
        · exact (h.awake hbefore hnotifying hcurrent hwaiting).elim
      · exact hnow
  · exact h.toClosing.moveWorker hworker howner hquit hkept hreturned hp.2 hq.2 hshaken

theorem Sound.generation_eq (h : s.Sound generation numThreads) :
    s.pool.generation = generation := by
  rw [h.pool]
  rfl

theorem Sound.numThreads_eq (h : s.Sound generation numThreads) :
    s.pool.numThreads = numThreads := by
  rw [h.pool]
  rfl

theorem Sound.wake (h : s.Sound generation numThreads) (howner : s.owner = .waiting) :
    Sound generation numThreads { s with owner := .locking } where
  toCounted := h.toCounted.of_same rfl (by rw [howner]; rfl) (by rw [howner]; rfl)
    (fun _ => Iff.rfl) fun _ => id
  toStored := ⟨h.loop, h.thread⟩
  toHandshake := .idle rfl (by simp)
  toClosing := h.toClosing.away (by simp [howner]) (by simp) (by rw [howner]; exact id) rfl
    (fun _ => id) fun _ => Iff.rfl

theorem Sound.passWorker (h : s.Sound generation numThreads) {i : Nat} {q : WorkerPhase}
    (hnext : (s.worker i).Next q) (hstored : q.stored = (s.worker i).stored)
    (hconstructed : q.constructed = (s.worker i).constructed)
    (hreturned : q = .returned → s.quit i = true)
    (hlock : s.worker i = .locking → s.current = i → s.owner.holds = false)
    (hnotify : s.worker i = .notifying → s.current = i → s.owner ≠ .waiting) :
    (s.moveWorker i q).Sound generation numThreads :=
  h.moveWorker hnext (h.toStored.passWorker rfl rfl rfl hstored hconstructed) rfl rfl rfl
    (fun _ => id) (fun _ _ => rfl) hreturned hlock hnotify

theorem worker_sound {i : Nat} (h : s.Sound generation numThreads)
    (hmoves : Moves s (.worker i) t) : t.Sound generation numThreads := by
  have hgeneration := h.generation_eq
  have hloop := h.loop i
  have hthread := h.thread i
  cases hmoves with
  | construct hworker hfree =>
      rw [hworker] at hloop
      refine h.moveWorker (hworker ▸ .construct) (h.toStored.moveWorker rfl ?_ ?_) rfl rfl rfl
        (fun _ => id) (fun _ _ => rfl) (by simp) (by simp [hworker]) (by simp [hworker])
      · intro j
        split
        · rename_i hj
          exact hj ▸ hloop
        · rfl
      · intro j
        simp [Function.update_apply, hgeneration, WorkerPhase.constructed]
  | lockWorker hworker hfree =>
      exact h.passWorker (hworker ▸ .lock) (by rw [hworker]; rfl) (by rw [hworker]; rfl) (by simp)
        (fun _ => hfree) (by simp [hworker])
  | store hworker =>
      rw [hworker] at hthread
      refine h.moveWorker (hworker ▸ .store) (h.toStored.moveWorker rfl ?_ ?_) rfl rfl rfl
        (fun _ => id) (fun _ _ => rfl) (by simp) (by simp [hworker]) (by simp [hworker])
      · intro j
        simp [Function.update_apply, hgeneration, WorkerPhase.stored]
      · intro j
        split
        · rename_i hj
          exact hj ▸ hthread
        · rfl
  | notify hworker =>
      by_cases hsleeper : s.current = i ∧ s.owner = .waiting
      · -- The starter wakes up and the worker goes on to its unlock.
        rw [if_pos hsleeper]
        exact (h.wake hsleeper.2).passWorker (i := i) (hworker ▸ .notify) (by simp only [hworker]; rfl)
          (by simp only [hworker]; rfl) (by simp) (by simp [hworker]) (by simp)
      · rw [if_neg hsleeper]
        exact h.passWorker (hworker ▸ .notify) (by rw [hworker]; rfl) (by rw [hworker]; rfl) (by simp)
          (by simp [hworker]) fun _ hcurrent hwaiting => hsleeper ⟨hcurrent, hwaiting⟩
  | unlock hworker =>
      exact h.passWorker (hworker ▸ .unlock) (by rw [hworker]; rfl) (by rw [hworker]; rfl) (by simp)
        (by simp [hworker]) (by simp [hworker])
  | enter hworker =>
      refine h.moveWorker (hworker ▸ .enter)
        (h.toStored.passWorker rfl rfl rfl (by rw [hworker]; rfl) (by rw [hworker]; rfl)) rfl rfl rfl
        ?_ ?_ (by simp) (by simp [hworker]) (by simp [hworker])
      · intro j hj
        by_cases hji : j = i <;> simp_all
      · intro j hj
        simp [hj]
  | test hworker =>
      cases hquit : s.quit i with
      | false =>
          exact h.passWorker (hworker ▸ .test false) (by rw [hworker]; rfl) (by rw [hworker]; rfl)
            (by simp) (by simp [hworker]) (by simp [hworker])
      | true =>
          exact h.passWorker (hworker ▸ .test true) (by rw [hworker]; rfl) (by rw [hworker]; rfl)
            (fun _ => hquit) (by simp [hworker]) (by simp [hworker])
  | poll hworker =>
      exact h.passWorker (hworker ▸ .poll) (by rw [hworker]; rfl) (by rw [hworker]; rfl) (by simp)
        (by simp [hworker]) (by simp [hworker])

theorem Sound.leave (h : s.Sound generation numThreads) (howner : s.owner = .leaving) :
    Counted generation numThreads { s with
      owner := .creating
      pool := { s.pool with loops := s.pool.loops ++ (s.loop s.current).toList } } := by
  have hbusy := h.busy (by rw [howner]; rfl)
  have hstored := h.leaving howner
  have hshaken := shaken_of_stored hstored (h.exclusive (by rw [howner]; rfl))
  have hloop : s.loop s.current = some (.pool generation s.current) := by
    rw [h.loop, if_pos hstored]
  have hnext : ({ s with
      owner := .creating
      pool := { s.pool with loops := s.pool.loops ++ (s.loop s.current).toList } } :
        ThreadPool).current = s.current + 1 := by
    rw [hloop]
    exact List.length_append
  refine ⟨?_, ?_, ?_, ?_, ?_, ?_⟩ <;> try rw [hnext]
  · have hpool := h.pool
    have hloops : s.pool.loops = (List.range s.current).map (.pool generation) := by
      rw [hpool]
    rw [List.range_succ, List.map_append]
    simp only [hloop, hloops, Option.toList, List.map_cons, List.map_nil]
    rw [hpool]
  · exact hbusy.1
  · simp [OwnerPhase.inStart]
  · simp [OwnerPhase.inStartLoop]
  · intro i hi
    rcases Nat.lt_succ_iff_lt_or_eq.1 hi with hlt | rfl
    · exact h.earlier i hlt
    · exact hshaken
  · intro i hi
    exact h.later i (.inl (by omega))

theorem Sound.create (h : s.Sound generation numThreads) (howner : s.owner = .creating)
    (hlt : s.current < numThreads) :
    Sound generation numThreads { s.moveWorker s.current .constructing with owner := .locking } := by
  have habsent := h.later s.current (.inr ⟨rfl, by rw [howner]; rfl⟩)
  have hnew : (s.moveWorker s.current .constructing).worker s.current = .constructing := by
    rw [worker_moveWorker, if_pos rfl]
  have hold : ∀ j, j ≠ s.current →
      (s.moveWorker s.current .constructing).worker j = s.worker j := by
    intro j hj
    rw [worker_moveWorker, if_neg hj]
  refine ⟨⟨h.pool, h.le, ?_, ?_, ?_, ?_⟩, ?_, .idle rfl (by simp), ?_⟩
  · simp [OwnerPhase.inStart, OwnerPhase.inStartLoop]
  · intro _
    refine ⟨hlt, ?_⟩
    show (s.moveWorker s.current .constructing).worker s.current ≠ .absent
    simp [hnew]
  · intro i hi
    show ((s.moveWorker s.current .constructing).worker i).shaken = true
    rw [hold i (Nat.ne_of_lt hi)]
    exact h.earlier i hi
  · intro i hi
    show (s.moveWorker s.current .constructing).worker i = .absent
    rcases hi with hi | ⟨-, hi⟩
    · rw [hold i (Nat.ne_of_gt hi)]
      exact h.later i (.inl hi)
    · cases hi
  · exact h.toStored.passWorker rfl rfl rfl (by rw [habsent]; rfl) (by rw [habsent]; rfl)
  · have hother : ∀ p : WorkerPhase, p ≠ .absent → p ≠ .constructing → ∀ i,
        (s.moveWorker s.current .constructing).worker i = p ↔ s.worker i = p := by
      intro p hp hq i
      by_cases hi : i = s.current
      · rw [hi, hnew, habsent]
        exact ⟨fun h => (hq h.symm).elim, fun h => (hp h.symm).elim⟩
      · rw [hold i hi]
    exact h.toClosing.away (by simp [howner]) (by simp) (by rw [howner]; exact id) rfl
      (fun i => (hother _ (by simp) (by simp) i).1) (hother _ (by simp) (by simp))

theorem Sound.shaken_of_loop (h : s.Sound generation numThreads)
    (howner : s.owner.inStartLoop = false) {i : Nat} (hloop : (s.loop i).isSome) :
    (s.worker i).shaken = true ∧ s.worker i ≠ .destroyed := by
  have hstored : (s.worker i).stored = true := by
    by_contra hnot
    rw [h.loop, if_neg hnot] at hloop
    cases hloop
  have hlt : i < s.current := by
    by_contra hge
    have habsent : s.worker i = .absent := by
      rcases Nat.lt_or_eq_of_le (Nat.le_of_not_lt hge) with hlater | hnow
      · exact h.later i (.inl hlater)
      · exact h.later i (.inr ⟨hnow, howner⟩)
    rw [habsent] at hstored
    cases hstored
  refine ⟨h.earlier i hlt, fun hdestroyed => ?_⟩
  rw [hdestroyed] at hstored
  cases hstored

theorem Sound.moveOwner (h : s.Sound generation numThreads) {o : OwnerPhase}
    (hcounted : Counted generation numThreads { s with owner := o })
    (hshake : Handshake { s with owner := o })
    (hs : ∀ i, s.owner ≠ .joining i ∧ s.owner ≠ .destroying i)
    (ho : ∀ i, o ≠ .joining i ∧ o ≠ .destroying i)
    (hstart : s.owner.inStart = false → o.inStart = false) :
    Sound generation numThreads { s with owner := o } :=
  ⟨hcounted, ⟨h.loop, h.thread⟩, hshake,
    h.toClosing.away hs ho hstart rfl (fun _ => id) fun _ => Iff.rfl⟩

theorem owner_sound {i : PoolInput} (h : s.Sound generation numThreads) (hmoves : Moves s i t)
    (hi : ∀ j, i ≠ .worker j) : t.Sound generation numThreads := by
  have hnum := h.numThreads_eq
  -- Outside `start()` the numbers stay as they are.
  have houtside : ∀ o : OwnerPhase, s.owner.inStart = false → o.inStart = false →
      Counted generation numThreads { s with owner := o } := by
    intro o hs ho
    have hloop : ∀ o : OwnerPhase, o.inStart = false → o.inStartLoop = false := by
      intro o ho
      exact (Bool.or_eq_false_iff.1 ho).2
    exact h.toCounted.of_same rfl (by rw [hs, ho]) (by rw [hloop _ hs, hloop _ ho])
      (fun _ => Iff.rfl) fun _ => id
  cases hmoves with
  | create howner hlt => exact h.create howner (hnum ▸ hlt)
  | returnStart howner hge =>
      rw [hnum] at hge
      refine h.moveOwner ⟨h.pool, h.le, fun _ => Nat.le_antisymm h.le hge,
        by simp [OwnerPhase.inStartLoop], h.earlier, ?_⟩ (.idle rfl (by simp)) (by simp [howner]) (by simp) (fun _ => rfl)
      intro i hi
      exact h.later i (hi.imp_right fun hi => ⟨hi.1, by rw [howner]; rfl⟩)
  | lock howner hfree =>
      refine h.moveOwner (h.toCounted.of_same rfl (by rw [howner]; rfl) (by rw [howner]; rfl)
        (fun _ => Iff.rfl) fun _ => id) ⟨fun _ => hfree, by simp, by simp⟩ (by simp [howner]) (by simp)
        (by rw [howner]; exact id)
  | predicate howner =>
      have hstored := h.loop s.current
      cases hcase : (s.worker s.current).stored with
      | true =>
          rw [hcase, if_pos rfl] at hstored
          rw [hstored]
          refine h.moveOwner (h.toCounted.of_same rfl (by rw [howner]; rfl) (by rw [howner]; rfl)
            (fun _ => Iff.rfl) fun _ => id) ⟨fun _ => h.exclusive (by rw [howner]; rfl),
            fun _ => hcase, by simp⟩ (by simp [howner]) (by simp) (by rw [howner]; exact id)
      | false =>
          rw [hcase, if_neg (by simp)] at hstored
          rw [hstored]
          refine h.moveOwner (h.toCounted.of_same rfl (by rw [howner]; rfl) (by rw [howner]; rfl)
            (fun _ => Iff.rfl) fun _ => id) ⟨by simp [OwnerPhase.holds], by simp, fun _ hnow => ?_⟩
            (by simp [howner]) (by simp) (by rw [howner]; exact id)
          have hnow : (s.worker s.current).stored = true := hnow
          rw [hcase] at hnow
          cases hnow
  | leave howner =>
      exact ⟨h.leave howner, ⟨h.loop, h.thread⟩, .idle rfl (by simp), h.toClosing.away
        (by simp [howner]) (by simp) (by rw [howner]; exact id) rfl (fun _ => id) fun _ => Iff.rfl⟩
  | close howner hall =>
      exact h.moveOwner (houtside _ (by rw [howner]; rfl) rfl) (.idle rfl (by simp)) (by simp [howner])
        (by simp) fun _ => rfl
  | destroy howner =>
      exact h.moveOwner (houtside _ (by rw [howner]; rfl) rfl) (.idle rfl (by simp)) (by simp [howner])
        (by simp) fun _ => rfl
  | spurious howner => exact h.wake howner
  | elsewhere => exact h
  | @quit i howner hloop =>
      have hcounted := houtside (.joining i) (by rw [howner]; rfl) rfl
      refine ⟨⟨hcounted.pool, hcounted.le, hcounted.full, hcounted.busy, hcounted.earlier,
        hcounted.later⟩, ⟨h.loop, h.thread⟩, .idle rfl (by simp), ?_, by simp, ?_, ?_, fun _ _ => rfl⟩
      · rintro j ⟨⟩
        exact h.shaken_of_loop (by rw [howner]; rfl) hloop
      · intro j hj
        by_cases hji : j = i
        · exact .inl (hji ▸ rfl)
        · have hold : s.quit j = true := by simpa [hji] using hj
          rcases h.quit j hold with hjoin | hdestroy | hgone
          · simp [howner] at hjoin
          · simp [howner] at hdestroy
          · exact .inr (.inr hgone)
      · intro j hj
        show Function.update s.quit i true j = true
        by_cases hji : j = i
        · rw [hji, Function.update_self]
        · rw [Function.update_of_ne hji]
          exact h.returned j hj
  | @join i howner hworker =>
      refine ⟨houtside _ (by rw [howner]; rfl) rfl, ⟨h.loop, h.thread⟩, .idle rfl (by simp), by simp,
        ?_, ?_, h.returned, fun _ _ => rfl⟩
      · rintro j ⟨⟩
        exact hworker
      · intro j hj
        rcases h.quit j hj with hjoin | hdestroy | hgone
        · rw [howner] at hjoin
          cases hjoin
          exact .inr (.inl rfl)
        · simp [howner] at hdestroy
        · exact .inr (.inr hgone)
  | @destroyWorker i howner =>
      have hworker := h.destroying i howner
      have hmoved : ∀ j, (s.moveWorker i .destroyed).worker j =
          if j = i then .destroyed else s.worker j := s.worker_moveWorker i .destroyed
      refine ⟨h.toCounted.moveWorker rfl rfl (by rw [howner]; rfl) (by rw [howner]; rfl)
        (by simp [hworker]) (by simp) (fun _ => rfl), h.toStored.moveWorker rfl ?_ ?_,
        .idle rfl (by simp), by simp, by simp, ?_, ?_, fun _ _ => rfl⟩
      · intro j
        simp [Function.update_apply, WorkerPhase.stored]
      · intro j
        show Function.update s.loopInThisThread none none (some j) = _
        rw [Function.update_of_ne (by simp)]
        split
        · rename_i hji
          rw [hji, h.thread i, hworker]
          rfl
        · rfl
      · intro j hj
        show _ ∨ _ ∨ (s.moveWorker i .destroyed).worker j = .destroyed
        rw [hmoved]
        by_cases hji : j = i
        · exact .inr (.inr (if_pos hji))
        · rw [if_neg hji]
          rcases h.quit j hj with hjoin | hdestroy | hgone
          · simp [howner] at hjoin
          · rw [howner] at hdestroy
            cases hdestroy
            exact (hji rfl).elim
          · exact .inr (.inr hgone)
      · intro j hj
        have hj : (s.moveWorker i .destroyed).worker j = .returned := hj
        rw [hmoved] at hj
        split at hj
        · cases hj
        · exact h.returned j hj
  | construct | lockWorker | store | notify | unlock | enter | test | poll => exact (hi _ rfl).elim

theorem step_sound {i : PoolInput} (h : s.Sound generation numThreads)
    (hstep : s.step i = some t) : t.Sound generation numThreads := by
  have hmoves := step_spec hstep
  cases i with
  | worker i => exact worker_sound h hmoves
  | _ => exact owner_sound h hmoves (by simp)

theorem start_sound (generation numThreads : Nat) :
    (start generation numThreads).Sound generation numThreads := by
  refine ⟨⟨rfl, Nat.zero_le _, ?_, ?_, ?_, fun _ _ => rfl⟩, ⟨fun _ => rfl, fun _ => rfl⟩,
    .idle rfl (by simp [start]), ?_, ?_, ?_, ?_, ?_⟩
  all_goals simp [start, current, EventLoopThreadPool.new, OwnerPhase.inStart,
    OwnerPhase.inStartLoop]

/-- What `start()` leaves when it returns is what it leaves on one thread alone. -/
theorem Sound.started (h : s.Sound generation numThreads) (howner : s.owner.inStart = false) :
    s.Started generation numThreads := by
  refine ⟨howner, ?_⟩
  rw [h.pool, h.full howner]
  rfl

end ThreadPool

end Hayai
