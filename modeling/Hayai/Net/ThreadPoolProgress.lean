import Hayai.Machine.Progress
import Hayai.Net.ThreadPool

/-! # Starting a pool takes finitely many steps

Every thread is treated fairly. `start()` returns as soon as the condition variable stops
waking it up for nothing.
-/

namespace Hayai

def PoolInput.of : Option Nat → PoolInput → Prop
  | none => PoolInput.ofOwner
  | some i => (· = .worker i)

/-! ## Ranks of the handshake -/

/-- Steps of a worker up to the end of its handshake. -/
def WorkerPhase.left : WorkerPhase → Nat
  | .absent => 6
  | .constructing => 5
  | .locking => 4
  | .storing => 3
  | .notifying => 2
  | .unlocking => 1
  | _ => 0

/-- Steps of the owner until it sleeps or returns; a notification gives it some back. -/
def OwnerPhase.left : OwnerPhase → Nat
  | .creating => 4
  | .locking => 3
  | .predicate => 2
  | .waiting | .leaving => 1
  | _ => 0

namespace ThreadPool

variable {generation numThreads : Nat} {e : machine.Execution}

theorem execution_sound (hstart : e.state 0 = start generation numThreads) (n : Nat) :
    (e.state n).Sound generation numThreads := by
  apply Machine.Execution.always_of_keeps (e := e) (I := Sound generation numThreads)
  · intro n hn
    exact step_sound hn (e.step n)
  · rw [hstart]
    exact start_sound generation numThreads

/-! ## One worker's handshake -/

def At (i : Nat) (s : ThreadPool) : Prop := s.owner.inStart = true ∧ s.current = i

def Shaking (i : Nat) (s : ThreadPool) : Prop := s.At i ∧ (s.worker i).shaken = false

def rank (i : Nat) (s : ThreadPool) : Nat := 4 * (s.worker i).left + s.owner.left

variable {s t : ThreadPool}

theorem Moves.other {i j : Nat} (hmoves : Moves s (.worker j) t) (hij : i ≠ j)
    (hcurrent : s.current ≠ j ∨ s.owner ≠ .waiting) :
    t.owner = s.owner ∧ t.pool = s.pool ∧ t.worker i = s.worker i ∧ t.loop i = s.loop i ∧
      t.quit i = s.quit i ∧ t.loopInThisThread (some i) = s.loopInThisThread (some i) := by
  have hsleeper : ¬(s.current = j ∧ s.owner = .waiting) := by
    rintro ⟨hc, hw⟩
    exact hcurrent.elim (· hc) (· hw)
  cases hmoves <;> simp [moveWorker, hij, hsleeper]

theorem At.not_outside {i : Nat} (hs : s.At i) {o : OwnerPhase} (howner : s.owner = o)
    (ho : o.inStart = false) : False := by
  have hstart := hs.1
  rw [howner, ho] at hstart
  cases hstart

def Advances (i : Nat) (s t : ThreadPool) : Prop :=
  t.At i ∧ (t.worker i).shaken = true ∨ t.Shaking i ∧ t.rank i < s.rank i

theorem Shaking.owner {i : Nat} {x : PoolInput} (hs : s.Shaking i)
    (h : s.Sound generation numThreads) (hi : i < numThreads) (hx : x.ofOwner)
    (hmoves : Moves s x t) : Advances i s t := by
  have hnum := h.numThreads_eq
  rcases hs with ⟨hat, hshaken⟩
  have hcurrent := hat.2
  cases hmoves with
  | create howner hlt =>
      have habsent := h.later s.current (.inr ⟨rfl, by rw [howner]; rfl⟩)
      subst hcurrent
      have hworker : (s.moveWorker s.current .constructing).worker s.current = .constructing := by
        rw [worker_moveWorker, if_pos rfl]
      refine .inr ⟨⟨⟨rfl, rfl⟩, ?_⟩, ?_⟩
      · show ((s.moveWorker s.current .constructing).worker s.current).shaken = false
        rw [hworker]
        rfl
      · show 4 * ((s.moveWorker s.current .constructing).worker s.current).left + _ < _
        simp [hworker, rank, howner, habsent, OwnerPhase.left, WorkerPhase.left]
  | returnStart howner hge => omega
  | lock howner hfree =>
      exact .inr ⟨⟨⟨rfl, hcurrent⟩, hshaken⟩, by simp [rank, howner, OwnerPhase.left]⟩
  | predicate howner =>
      refine .inr ⟨⟨⟨?_, hcurrent⟩, hshaken⟩, ?_⟩
      · show OwnerPhase.inStart (if _ then _ else _) = true
        split <;> rfl
      · simp only [rank, howner]
        split <;> simp [OwnerPhase.left]
  | leave howner =>
      have hstored := h.leaving howner
      have hholds := h.exclusive (by rw [howner]; rfl)
      rw [hcurrent] at hstored hholds
      rw [shaken_of_stored hstored hholds] at hshaken
      cases hshaken
  | close howner | join howner | destroyWorker howner | quit howner =>
      exact (hat.not_outside howner rfl).elim
  | _ => cases hx

theorem next_of_move {i : Nat} {p q : WorkerPhase} (hworker : s.worker i = p) (hnext : p.Next q) :
    (s.worker i).Next ((s.moveWorker i q).worker i) := by
  rw [worker_moveWorker, if_pos rfl, hworker]
  exact hnext

theorem Moves.next {i : Nat} (hmoves : Moves s (.worker i) t) :
    (s.worker i).Next (t.worker i) ∧ t.pool = s.pool ∧
      (t.owner = s.owner ∨ s.owner = .waiting ∧ t.owner = .locking) := by
  cases hmoves with
  | construct hworker hfree => exact ⟨next_of_move hworker .construct, rfl, .inl rfl⟩
  | lockWorker hworker hfree => exact ⟨next_of_move hworker .lock, rfl, .inl rfl⟩
  | store hworker => exact ⟨next_of_move hworker .store, rfl, .inl rfl⟩
  | notify hworker =>
      refine ⟨next_of_move hworker .notify, rfl, ?_⟩
      by_cases hsleeper : s.current = i ∧ s.owner = .waiting
      · exact .inr ⟨hsleeper.2, if_pos hsleeper⟩
      · exact .inl (if_neg hsleeper)
  | unlock hworker => exact ⟨next_of_move hworker .unlock, rfl, .inl rfl⟩
  | enter hworker => exact ⟨next_of_move hworker .enter, rfl, .inl rfl⟩
  | test hworker => exact ⟨next_of_move hworker (.test (s.quit i)), rfl, .inl rfl⟩
  | poll hworker => exact ⟨next_of_move hworker .poll, rfl, .inl rfl⟩

/-- In its handshake a worker has one step less to go after each. -/
theorem left_of_next {p q : WorkerPhase} (h : p.Next q) (hp : p.shaken = false) :
    q.left + 1 = p.left := by
  cases h with
  | test quit => cases hp
  | enter | poll => cases hp
  | _ => rfl

theorem Shaking.worker {i : Nat} (hs : s.Shaking i) (hmoves : Moves s (.worker i) t) :
    Advances i s t := by
  rcases hs with ⟨hat, hshaken⟩
  rcases hmoves.next with ⟨hnext, hpool, howner⟩
  have hleft := left_of_next hnext hshaken
  have hnow : t.At i := by
    refine ⟨?_, ?_⟩
    · rcases howner with howner | ⟨-, howner⟩
      · rw [howner]
        exact hat.1
      · rw [howner]
        rfl
    · rw [current, hpool]
      exact hat.2
  cases hq : (t.worker i).shaken with
  | true => exact .inl ⟨hnow, hq⟩
  | false =>
      refine .inr ⟨⟨hnow, hq⟩, ?_⟩
      have hless : t.owner.left < s.owner.left + 4 := by
        rcases howner with howner | ⟨hwaiting, howner⟩
        · rw [howner]
          omega
        · rw [howner, hwaiting]
          decide
      simp only [rank]
      omega

/-! ## Who can move -/

theorem owner_able {i : Nat} (hs : s.At i) (hwaiting : s.owner ≠ .waiting)
    (hfree : s.owner = .locking → (s.worker i).holds = false) : ∃ t, s.step .owner = some t := by
  cases howner : s.owner with
  | creating =>
      simp only [step, ownerStep, howner]
      split <;> exact ⟨_, rfl⟩
  | locking =>
      simp only [step, ownerStep, howner, hs.2, hfree howner]
      exact ⟨_, rfl⟩
  | predicate | leaving =>
      simp only [step, ownerStep, howner]
      exact ⟨_, rfl⟩
  | waiting => exact (hwaiting howner).elim
  | running | closing | joining | destroying | gone => exact (hs.not_outside howner rfl).elim

theorem owner_of_able {i : Nat} {x : PoolInput} (hs : s.At i) (hx : x.ofOwner)
    (hstep : s.step x = some t) :
    s.owner ≠ .waiting ∧ (s.owner = .locking → (s.worker i).holds = false) := by
  have hcurrent := hs.2
  subst hcurrent
  cases step_spec hstep with
  | create howner | returnStart howner | predicate howner | leave howner => simp [howner]
  | lock howner hfree => exact ⟨by simp [howner], fun _ => hfree⟩
  | close howner | join howner | destroyWorker howner | quit howner =>
      exact (hs.not_outside howner rfl).elim
  | _ => cases hx

/-- A worker that exists is stopped by a held lock only. -/
theorem worker_able {i : Nat} (h : s.Sound generation numThreads)
    (hworker : ∃ q, (s.worker i).Next q)
    (hfree : s.worker i = .locking → s.current = i → s.owner.holds = false) :
    ∃ t, s.step (.worker i) = some t := by
  have hthread := h.thread i
  rcases hworker with ⟨q, hnext⟩
  cases hphase : s.worker i with
  | absent | returned | destroyed =>
      rw [hphase] at hnext
      cases hnext
  | constructing =>
      rw [hphase] at hthread
      simp only [step, workerStep, hphase, hthread]
      exact ⟨_, rfl⟩
  | locking =>
      have hnot : ¬(s.current = i ∧ s.owner.holds = true) := by
        rintro ⟨hcurrent, hholds⟩
        rw [hfree hphase hcurrent] at hholds
        cases hholds
      simp only [step, workerStep, hphase, if_neg hnot]
      exact ⟨_, rfl⟩
  | storing | notifying | unlocking | entering | testing | polling =>
      simp only [step, workerStep, hphase]
      exact ⟨_, rfl⟩

theorem worker_of_able {i : Nat} (hstep : s.step (.worker i) = some t) :
    (∃ q, (s.worker i).Next q) ∧
      (s.worker i = .locking → s.current = i → s.owner.holds = false) := by
  have hmoves := step_spec hstep
  refine ⟨⟨_, hmoves.next.1⟩, fun hlocking => ?_⟩
  cases hmoves with
  | lockWorker hworker hfree => exact hfree
  | construct hworker | store hworker | notify hworker | unlock hworker | enter hworker
  | test hworker | poll hworker =>
      rw [hlocking] at hworker
      cases hworker

/-- In a handshake the owner or the worker can move: the one that does not hold the lock
waits for the other only. -/
theorem Shaking.able {i : Nat} (hs : s.Shaking i) (h : s.Sound generation numThreads) :
    (∃ t, s.step .owner = some t) ∨ ∃ t, s.step (.worker i) = some t := by
  rcases hs with ⟨hat, hshaken⟩
  by_cases hstopped : s.owner = .waiting ∨ s.owner = .locking ∧ (s.worker i).holds = true
  · right
    have hloop : s.owner.inStartLoop = true := by
      rcases hstopped with howner | ⟨howner, -⟩ <;> rw [howner] <;> rfl
    have hholds : s.owner.holds = false := by
      rcases hstopped with howner | ⟨howner, -⟩ <;> rw [howner] <;> rfl
    have hpresent := (h.busy hloop).2
    rw [hat.2] at hpresent
    apply worker_able h _ fun _ _ => hholds
    cases hphase : s.worker i with
    | absent => exact (hpresent hphase).elim
    | constructing => exact ⟨_, .construct⟩
    | locking => exact ⟨_, .lock⟩
    | storing => exact ⟨_, .store⟩
    | notifying => exact ⟨_, .notify⟩
    | unlocking => exact ⟨_, .unlock⟩
    | entering | testing | polling | returned | destroyed =>
        rw [hphase] at hshaken
        cases hshaken
  · left
    rw [not_or, not_and] at hstopped
    exact owner_able hat hstopped.1 fun howner => by simpa using hstopped.2 howner

/-! ## From one worker to the next -/

theorem At.other {i : Nat} {x : PoolInput} (hs : s.At i) (howner : ¬x.ofOwner)
    (hworker : x ≠ .worker i) (hquiet : x ≠ .spurious) (hmoves : Moves s x t) :
    t.owner = s.owner ∧ t.pool = s.pool ∧ t.worker i = s.worker i := by
  cases x with
  | owner | quit => exact (howner trivial).elim
  | spurious => exact (hquiet rfl).elim
  | destroy =>
      cases hmoves with
      | destroy howner => exact (hs.not_outside howner rfl).elim
  | elsewhere =>
      cases hmoves
      exact ⟨rfl, rfl, rfl⟩
  | worker j =>
      have hij : i ≠ j := fun h => hworker (h ▸ rfl)
      have hsame := hmoves.other hij (.inl fun hcurrent => hij (hs.2.symm.trans hcurrent))
      exact ⟨hsame.1, hsame.2.1, hsame.2.2.1⟩

theorem At.of_other {i : Nat} (hs : s.At i) (howner : t.owner = s.owner) (hpool : t.pool = s.pool) :
    t.At i :=
  ⟨by rw [howner]; exact hs.1, by rw [current, hpool]; exact hs.2⟩

theorem handshake_ends (hsound : ∀ n, (e.state n).Sound generation numThreads)
    (fair : ∀ p, e.Fair (PoolInput.of p)) (quiet : ∀ n, e.input n ≠ .spurious) {i n : Nat}
    (hi : i < numThreads) (hn : (e.state n).Shaking i) :
    ∃ m, n ≤ m ∧ (e.state m).At i ∧ ((e.state m).worker i).shaken = true := by
  let own : Bool → PoolInput → Prop := fun b => PoolInput.of (bif b then none else some i)
  have hothers : ∀ n, (e.state n).Shaking i → (∀ b, ¬own b (e.input n)) →
      (e.state (n + 1)).Shaking i ∧ (e.state (n + 1)).owner = (e.state n).owner ∧
        (e.state (n + 1)).worker i = (e.state n).worker i := by
    intro n hs hnone
    rcases hs.1.other (hnone true) (hnone false) (quiet n) (step_spec (e.step n)) with
      ⟨howner, hpool, hworker⟩
    exact ⟨⟨hs.1.of_other howner hpool, by rw [hworker]; exact hs.2⟩, howner, hworker⟩
  have hturns : e.Turns (fun x => ∃ b, own b x) (Shaking i) := by
    apply Machine.Execution.turns_of_parties fun b => fair _
    · intro n hs
      rcases hs.able (hsound n) with ⟨t, ht⟩ | ⟨t, ht⟩
      · exact ⟨true, .owner, t, trivial, ht⟩
      · exact ⟨false, .worker i, t, rfl, ht⟩
    · intro n b x t hs hnone hx ht
      rcases hothers n hs hnone with ⟨hnext, howner, hworker⟩
      cases b with
      | true =>
          have hable := owner_of_able hs.1 hx ht
          rw [← howner, ← hworker] at hable
          rcases owner_able hnext.1 hable.1 hable.2 with ⟨u, hu⟩
          exact ⟨.owner, u, trivial, hu⟩
      | false =>
          cases (show x = .worker i from hx)
          have hable := worker_of_able ht
          rw [← howner, ← hworker] at hable
          rcases worker_able (hsound (n + 1)) hable.1 fun hlocking _ =>
            hable.2 hlocking hs.1.2 with ⟨u, hu⟩
          exact ⟨.worker i, u, rfl, hu⟩
  have hgoal := Machine.Execution.eventually (rank i)
    (fun n => (e.state (n + 1)).At i ∧ ((e.state (n + 1)).worker i).shaken = true) hturns
    (fun n hs hnone => ?_) (fun n hs hown => ?_) hn
  · rcases hgoal with ⟨m, hm, hdone⟩
    exact ⟨m + 1, by omega, hdone⟩
  · rcases hothers n hs fun b hb => hnone ⟨b, hb⟩ with ⟨hnext, howner, hworker⟩
    exact .inr ⟨hnext, by simp only [rank, howner, hworker]⟩
  · have hmoves := step_spec (e.step n)
    rcases hown with ⟨b, hb⟩
    cases b with
    | true => exact hs.owner (hsound n) hi hb hmoves
    | false =>
        rw [show e.input n = .worker i from hb] at hmoves
        exact hs.worker hmoves

def Shaken (generation numThreads i : Nat) (s : ThreadPool) : Prop :=
  s.Sound generation numThreads ∧ s.At i ∧ (s.worker i).shaken = true

theorem Shaken.awake {i : Nat} (h : s.Shaken generation numThreads i) : s.owner ≠ .waiting := by
  rcases h with ⟨h, hat, hshaken⟩
  rcases hat with ⟨hstart, rfl⟩
  cases hphase : s.worker s.current with
  | destroyed =>
      rw [h.gone _ hphase] at hstart
      cases hstart
  | entering | testing | polling | returned =>
      exact h.awake (by rw [hphase]; rfl) (by simp [hphase]) rfl
  | _ =>
      rw [hphase] at hshaken
      cases hshaken

theorem Shaken.free {i : Nat} (h : s.Shaken generation numThreads i) :
    (s.worker i).holds = false := by
  have hshaken := h.2.2
  cases hphase : s.worker i with
  | entering | testing | polling | returned | destroyed => rfl
  | _ =>
      rw [hphase] at hshaken
      cases hshaken

theorem Shaken.owner {i : Nat} {x : PoolInput} (h : s.Shaken generation numThreads i)
    (hx : x.ofOwner) (hmoves : Moves s x t) (ht : t.Sound generation numThreads) :
    t.At (i + 1) ∨ t.Shaken generation numThreads i ∧ t.owner.left < s.owner.left := by
  rcases h with ⟨h, hat, hshaken⟩
  have hcurrent := hat.2
  have hcreating : s.owner ≠ .creating := by
    intro howner
    rw [h.later i (.inr ⟨hcurrent, by rw [howner]; rfl⟩)] at hshaken
    cases hshaken
  cases hmoves with
  | create howner | returnStart howner => exact (hcreating howner).elim
  | lock howner hfree =>
      refine .inr ⟨⟨ht, ⟨rfl, hcurrent⟩, hshaken⟩, ?_⟩
      rw [howner]
      exact Nat.lt_succ_self 2
  | predicate howner =>
      refine .inr ⟨⟨ht, ⟨?_, hcurrent⟩, hshaken⟩, ?_⟩
      · show OwnerPhase.inStart (if _ then _ else _) = true
        split <;> rfl
      · rw [howner]
        show OwnerPhase.left (if _ then _ else _) < _
        split <;> decide
  | leave howner =>
      refine .inl ⟨rfl, ?_⟩
      have hloop : s.loop s.current = some (.pool generation s.current) := by
        rw [h.loop, if_pos (h.leaving howner)]
      show (s.pool.loops ++ (s.loop s.current).toList).length = i + 1
      rw [hloop, List.length_append, ← hcurrent]
      rfl
  | close howner | join howner | destroyWorker howner | quit howner =>
      exact (hat.not_outside howner rfl).elim
  | _ => cases hx

theorem Shaken.other {i : Nat} {x : PoolInput} (h : s.Shaken generation numThreads i)
    (hx : ¬x.ofOwner) (hmoves : Moves s x t) (ht : t.Sound generation numThreads) :
    t.Shaken generation numThreads i ∧ t.owner = s.owner := by
  have hawake := h.awake
  rcases h with ⟨-, hat, hshaken⟩
  cases x with
  | owner | quit => exact (hx trivial).elim
  | spurious =>
      cases hmoves with
      | spurious howner => exact (hawake howner).elim
  | destroy =>
      cases hmoves with
      | destroy howner => exact (hat.not_outside howner rfl).elim
  | elsewhere =>
      cases hmoves
      exact ⟨⟨ht, hat, hshaken⟩, rfl⟩
  | worker j =>
      rcases hmoves.next with ⟨hnext, hpool, howner | ⟨hwaiting, -⟩⟩
      · refine ⟨⟨ht, hat.of_other howner hpool, ?_⟩, howner⟩
        by_cases hij : i = j
        · subst hij
          exact hnext.spec.2.2.1 hshaken
        · rw [(hmoves.other hij (.inr hawake)).2.2.1]
          exact hshaken
      · exact (hawake hwaiting).elim

theorem startLoop_returns (hsound : ∀ n, (e.state n).Sound generation numThreads)
    (fair : ∀ p, e.Fair (PoolInput.of p)) {i n : Nat} (hat : (e.state n).At i)
    (hshaken : ((e.state n).worker i).shaken = true) : ∃ m, n ≤ m ∧ (e.state m).At (i + 1) := by
  have hturns : e.Turns PoolInput.ofOwner (Shaken generation numThreads i) := by
    apply (fair none).turns
    intro s hs
    rcases owner_able hs.2.1 hs.awake fun _ => hs.free with ⟨t, ht⟩
    exact ⟨.owner, t, trivial, ht⟩
  have hgoal := Machine.Execution.eventually (fun s => s.owner.left)
    (fun n => (e.state (n + 1)).At (i + 1)) hturns (fun n hs hnone => ?_) (fun n hs hown => ?_)
    (show (e.state n).Shaken generation numThreads i from ⟨hsound n, hat, hshaken⟩)
  · rcases hgoal with ⟨m, hm, hdone⟩
    exact ⟨m + 1, by omega, hdone⟩
  · rcases hs.other hnone (step_spec (e.step n)) (hsound (n + 1)) with ⟨hnext, howner⟩
    exact .inr ⟨hnext, by rw [howner]⟩
  · exact hs.owner hown (step_spec (e.step n)) (hsound (n + 1))

/-- Without a worker to start, `start()` is at the head of its loop. -/
theorem At.creating (hat : s.At numThreads) (h : s.Sound generation numThreads) :
    s.owner = .creating := by
  by_contra howner
  have hloop : s.owner.inStartLoop = true := by
    rcases Bool.or_eq_true_iff.1 hat.1 with hcreating | hloop
    · exact (howner (by simpa using hcreating)).elim
    · exact hloop
  have hlt := (h.busy hloop).1
  rw [hat.2] at hlt
  exact Nat.lt_irrefl _ hlt

theorem At.last_owner {x : PoolInput} (hat : s.At numThreads) (h : s.Sound generation numThreads)
    (hx : x.ofOwner) (hmoves : Moves s x t) : t.owner.inStart = false := by
  have howner := hat.creating h
  have hnum := h.numThreads_eq
  have hcurrent := hat.2
  cases hmoves with
  | create howner hlt => omega
  | returnStart howner hge => rfl
  | lock hother | predicate hother | leave hother | close hother | join hother
  | destroyWorker hother | quit hother =>
      rw [howner] at hother
      cases hother
  | _ => cases hx

theorem At.last_other {x : PoolInput} (hat : s.At numThreads) (h : s.Sound generation numThreads)
    (hx : ¬x.ofOwner) (hmoves : Moves s x t) : t.At numThreads := by
  have howner := hat.creating h
  cases x with
  | owner | quit => exact (hx trivial).elim
  | spurious =>
      cases hmoves with
      | spurious hother =>
          rw [howner] at hother
          cases hother
  | destroy =>
      cases hmoves with
      | destroy hother => exact (hat.not_outside hother rfl).elim
  | elsewhere =>
      cases hmoves
      exact hat
  | worker j =>
      rcases hmoves.next with ⟨-, hpool, hsame | ⟨hwaiting, -⟩⟩
      · exact hat.of_other hsame hpool
      · rw [howner] at hwaiting
        cases hwaiting

theorem last_step (hsound : ∀ n, (e.state n).Sound generation numThreads)
    (fair : ∀ p, e.Fair (PoolInput.of p)) {n : Nat} (hat : (e.state n).At numThreads) :
    ∃ m, n ≤ m ∧ (e.state m).owner.inStart = false := by
  let Q : ThreadPool → Prop := fun s => s.owner.inStart = false
  have hleads : e.LeadsTo (fun s => s.Sound generation numThreads ∧ s.At numThreads) Q := by
    refine Machine.Execution.LeadsTo.of_turn (?_ : e.Turns PoolInput.ofOwner _) ?_ ?_
    · apply (fair none).turns
      rintro s ⟨h, hat⟩
      have howner := hat.creating h
      rcases owner_able hat (by simp [howner]) (by simp [howner]) with ⟨t, ht⟩
      exact ⟨.owner, t, trivial, ht⟩
    · rintro n ⟨h, hat⟩ hnone
      exact .inl ⟨hsound (n + 1), hat.last_other h hnone (step_spec (e.step n))⟩
    · rintro n ⟨h, hat⟩ hown
      exact hat.last_owner h hown (step_spec (e.step n))
  exact hleads n ⟨hsound n, hat⟩

theorem start_leaves (hsound : ∀ n, (e.state n).Sound generation numThreads)
    (fair : ∀ p, e.Fair (PoolInput.of p)) (quiet : ∀ n, e.input n ≠ .spurious) {i k n : Nat}
    (hik : i + k = numThreads) (hat : (e.state n).At i) :
    ∃ m, n ≤ m ∧ (e.state m).owner.inStart = false := by
  induction k generalizing i n with
  | zero => exact last_step hsound fair (hik ▸ hat)
  | succ k ih =>
      have hshaken : ∃ m, n ≤ m ∧ (e.state m).At i ∧ ((e.state m).worker i).shaken = true := by
        cases hphase : ((e.state n).worker i).shaken with
        | true => exact ⟨n, le_rfl, hat, hphase⟩
        | false => exact handshake_ends hsound fair quiet (by omega) ⟨hat, hphase⟩
      rcases hshaken with ⟨m, hm, hat, hdone⟩
      rcases startLoop_returns hsound fair hat hdone with ⟨l, hl, hnext⟩
      rcases ih (by omega) hnext with ⟨r, hr, hleft⟩
      exact ⟨r, by omega, hleft⟩

theorem Moves.outside {x : PoolInput} (hmoves : Moves s x t) (hs : s.owner.inStart = false) :
    t.owner.inStart = false := by
  cases hmoves with
  | create howner | returnStart howner | lock howner | predicate howner | leave howner
  | spurious howner =>
      rw [howner] at hs
      cases hs
  | notify hworker =>
      show OwnerPhase.inStart (if _ then _ else _) = false
      split
      · rename_i hsleeper
        rw [hsleeper.2] at hs
        cases hs
      · exact hs
  | close | join | destroyWorker | destroy | quit => rfl
  | _ => exact hs

/-- `start()` returns, and from then on every worker's thread has its own loop. -/
theorem start_returns (hstart : e.state 0 = start generation numThreads)
    (fair : ∀ p, e.Fair (PoolInput.of p)) (quiet : ∃ k, ∀ n, k ≤ n → e.input n ≠ .spurious) :
    ∃ m, ∀ n, m ≤ n → (e.state n).Started generation numThreads ∧
      ∀ i < numThreads, (e.state n).loopInThisThread (some i) = some (.pool generation i) := by
  have hsound := execution_sound hstart
  rcases quiet with ⟨k, quiet⟩
  have hout : ∃ m, (e.state m).owner.inStart = false := by
    cases hphase : (e.state k).owner.inStart with
    | false => exact ⟨k, hphase⟩
    | true =>
        have hle := (hsound k).le
        rcases start_leaves (e := e.drop k) (fun n => hsound (k + n)) (fun p => (fair p).drop k)
          (fun n => quiet (k + n) (by omega)) (i := (e.state k).current)
          (k := numThreads - (e.state k).current) (n := 0) (by omega) ⟨hphase, rfl⟩ with
          ⟨m, -, hm⟩
        exact ⟨k + m, hm⟩
  rcases hout with ⟨m, hm⟩
  refine ⟨m, fun n hn => ?_⟩
  have howner : (e.state n).owner.inStart = false :=
    Machine.Execution.holds_from (P := fun s : ThreadPool => s.owner.inStart = false)
      (fun n h => (step_spec (e.step n)).outside h) hm hn
  refine ⟨(hsound n).started howner, fun i hi => ?_⟩
  have hshaken := (hsound n).earlier i (by rw [(hsound n).full howner]; exact hi)
  rw [(hsound n).thread]
  cases hphase : ((e.state n).worker i) with
  | entering | testing | polling | returned | destroyed => rfl
  | _ =>
      rw [hphase] at hshaken
      cases hshaken

/-- One worker; the starter sleeps twice, once woken up for nothing, and the notification
comes while it sleeps. -/
def startRun : List PoolInput :=
  [.owner, .worker 0, .owner, .owner, .spurious, .owner, .owner, .worker 0, .worker 0, .worker 0,
    .worker 0, .owner, .owner, .owner, .owner, .worker 0]

structure Serving (s : ThreadPool) : Prop where
  owner : s.owner = .running
  others : ∀ i, i ≠ 0 → s.worker i = .absent

theorem run_sound {is : List PoolInput}
    (hrun : machine.run (start generation numThreads) is = some s) :
    s.Sound generation numThreads :=
  (Machine.always_of_invariant (M := machine) (I := Sound generation numThreads)
    (fun _ _ _ h hstep => step_sound h hstep) (start_sound generation numThreads) is).last hrun

theorem startRun_serves : ∃ s, machine.run (start 0 1) startRun = some s ∧ s.Serving ∧
    s.worker 0 = .testing ∧ s.quit 0 = false := by
  have hrun : ∃ s, machine.run (start 0 1) startRun = some s ∧ s.owner = .running ∧
      s.worker 0 = .testing ∧ s.quit 0 = false := ⟨_, rfl, rfl, rfl, rfl⟩
  rcases hrun with ⟨s, hrun, howner, hworker, hquit⟩
  have hsound := run_sound hrun
  have hcurrent : s.current = 1 := hsound.full (by rw [howner]; rfl)
  refine ⟨s, hrun, ⟨howner, fun i hi => hsound.later i ?_⟩, hworker, hquit⟩
  rcases Nat.lt_or_eq_of_le (Nat.pos_of_ne_zero hi) with hlt | heq
  · exact .inl (hcurrent ▸ hlt)
  · exact .inr ⟨hcurrent.trans heq, by rw [howner]; rfl⟩

theorem Serving.worker (h : s.Serving) (hmoves : Moves s (.worker 0) t) : t.Serving := by
  rcases hmoves.next with ⟨-, -, howner | ⟨hwaiting, -⟩⟩
  · refine ⟨howner.trans h.owner, fun i hi => ?_⟩
    rw [(hmoves.other hi (.inr (by simp [h.owner]))).2.2.1]
    exact h.others i hi
  · rw [h.owner] at hwaiting
    cases hwaiting

theorem exists_serving (hs : s.Serving) (hworker : s.worker 0 = .testing) (hquit : s.quit 0 = false) :
    ∃ e : machine.Execution, e.state 0 = s ∧ (∀ n, e.input n = .worker 0) ∧
      ∀ n, (e.state n).Serving := by
  have hcycle : ∀ s : ThreadPool, s.Serving ∧ s.worker 0 = .testing ∧ s.quit 0 = false →
      ∃ t, machine.run s [.worker 0, .worker 0] = some t ∧
        t.Serving ∧ t.worker 0 = .testing ∧ t.quit 0 = false := by
    rintro s ⟨hs, hworker, hquit⟩
    have htest : s.step (.worker 0) = some (s.moveWorker 0 .polling) := by
      simp [step, workerStep, hworker, hquit]
    have hpoll : (s.moveWorker 0 .polling).step (.worker 0) =
        some ((s.moveWorker 0 .polling).moveWorker 0 .testing) := by
      simp [step, workerStep, worker_moveWorker]
    refine ⟨(s.moveWorker 0 .polling).moveWorker 0 .testing, ?_,
      (hs.worker (step_spec htest)).worker (step_spec hpoll), ?_, hquit⟩
    · rw [Machine.run_cons htest, Machine.run_cons hpoll]
      rfl
    · rw [worker_moveWorker, if_pos rfl]
  rcases Machine.exists_cycling (by simp) hcycle ⟨hs, hworker, hquit⟩ with ⟨e, hstart, hinput, -⟩
  have hinput : ∀ n, e.input n = .worker 0 := by
    intro n
    simpa using hinput n
  refine ⟨e, hstart, hinput, fun n => ?_⟩
  apply Machine.Execution.always_of_keeps (e := e) (I := Serving) _ (hstart ▸ hs)
  intro n hn
  have hstep := e.step n
  rw [hinput n] at hstep
  exact hn.worker (step_spec hstep)

/-- A start in which the owner sleeps, is woken up for nothing and then notified, in an
execution that is fair to every thread. -/
theorem start_of_one_returns : ∃ e : machine.Execution, e.state 0 = start 0 1 ∧
    ∃ m, ∀ n, m ≤ n → (e.state n).Started 0 1 ∧
      ∀ i < 1, (e.state n).loopInThisThread (some i) = some (.pool 0 i) := by
  rcases startRun_serves with ⟨s, hrun, hs, hworker, hquit⟩
  rcases exists_serving hs hworker hquit with ⟨after, hafter, hinput, hserving⟩
  rcases Machine.Execution.exists_append (e := after) (hafter ▸ hrun) with
    ⟨e, hstart, hstate, hinputs, -⟩
  have hlate : ∀ n, e.input (startRun.length + n) = .worker 0 := fun n => (hinputs n).trans (hinput n)
  have hidle : ∀ n, (e.state (startRun.length + n)).Serving := fun n => by
    rw [hstate]
    exact hserving n
  refine ⟨e, hstart, start_returns hstart ?_ ⟨startRun.length, ?_⟩⟩
  · intro p n
    refine ⟨startRun.length + n, by omega, ?_⟩
    have howner := (hidle n).owner
    match p with
    | none =>
        right
        intro x hx
        cases x with
        | owner => simp [machine, step, ownerStep, howner]
        | quit i => simp [machine, step, howner]
        | spurious | worker | destroy | elsewhere => cases hx
    | some 0 => exact .inl (hlate n)
    | some (i + 1) =>
        right
        intro x hx
        cases (show x = .worker (i + 1) from hx)
        simp [machine, step, workerStep, (hidle n).others (i + 1) (by simp)]
  · intro n hn
    obtain ⟨k, rfl⟩ := Nat.exists_eq_add_of_le hn
    simp [hlate k]

end ThreadPool

end Hayai
