import Hayai.Net.ThreadPoolProgress
import Mathlib.Data.Finset.Card
import Mathlib.Data.Finset.Range

/-! # When the destructor of a pool returns

`~EventLoopThread` stores `quit_` and joins. A worker whose `loop()` has begun sees the
store at its next test. A worker that is still on its way from the notification to
`loop()` resets `quit_` there, and nobody stores it again.
-/

namespace Hayai

namespace ThreadPool

def AsksInTime (s : ThreadPool) : PoolInput → Prop
  | .quit i => (s.worker i).inLoop = true
  | _ => True

instance (s : ThreadPool) (x : PoolInput) : Decidable (s.AsksInTime x) := by
  cases x <;> unfold AsksInTime <;> infer_instance

variable {generation numThreads : Nat} {e : machine.Execution} {s t : ThreadPool}

/-! ## A join that never ends -/

/-- The owner joins a worker that has not seen, and will not see, the request to quit. -/
def Deaf (i : Nat) (s : ThreadPool) : Prop :=
  s.owner = .joining i ∧
    (s.worker i = .entering ∨ (s.worker i).inLoop = true ∧ s.quit i = false)

theorem Deaf.worker {i : Nat} (h : s.Deaf i) (hmoves : Moves s (.worker i) t) :
    t.worker i = .entering ∨ (t.worker i).inLoop = true ∧ t.quit i = false := by
  rcases h with ⟨-, hworker⟩
  cases hmoves with
  | enter hphase =>
      refine .inr ⟨?_, Function.update_self ..⟩
      show ((s.moveWorker i .testing).worker i).inLoop = true
      rw [worker_moveWorker, if_pos rfl]
      rfl
  | test hphase =>
      have hquit : s.quit i = false := by
        rcases hworker with hentering | ⟨-, hquit⟩
        · rw [hphase] at hentering
          cases hentering
        · exact hquit
      refine .inr ⟨?_, hquit⟩
      rw [worker_moveWorker, if_pos rfl, hquit]
      rfl
  | poll hphase =>
      have hquit : s.quit i = false := by
        rcases hworker with hentering | ⟨-, hquit⟩
        · rw [hphase] at hentering
          cases hentering
        · exact hquit
      refine .inr ⟨?_, hquit⟩
      rw [worker_moveWorker, if_pos rfl]
      rfl
  | construct hphase | lockWorker hphase | store hphase | notify hphase | unlock hphase =>
      rw [hphase] at hworker
      simp [WorkerPhase.inLoop] at hworker

theorem Deaf.step {i : Nat} {x : PoolInput} (h : s.Deaf i) (hmoves : Moves s x t) : t.Deaf i := by
  have howner := h.1
  by_cases hx : ∃ j, x = .worker j
  · rcases hx with ⟨j, rfl⟩
    have hsame : t.owner = .joining i := by
      rcases hmoves.next with ⟨-, -, hsame | ⟨hwaiting, -⟩⟩
      · exact hsame.trans howner
      · rw [howner] at hwaiting
        cases hwaiting
    refine ⟨hsame, ?_⟩
    by_cases hij : i = j
    · subst hij
      exact h.worker hmoves
    · have hother := hmoves.other hij (.inr (by simp [howner]))
      rw [hother.2.2.1, hother.2.2.2.2.1]
      exact h.2
  · cases hmoves with
    | @join j hjoin hdone =>
        rw [howner] at hjoin
        cases hjoin
        have hworker := h.2
        rw [hdone] at hworker
        simp [WorkerPhase.inLoop] at hworker
    | elsewhere => exact h
    | create hother | returnStart hother | lock hother | predicate hother | leave hother
    | close hother | destroyWorker hother | spurious hother | destroy hother | quit hother =>
        rw [howner] at hother
        cases hother
    | _ => exact (hx ⟨_, rfl⟩).elim

theorem closing_of_quit {i : Nat} (hmoves : Moves s (.quit i) t) : s.owner = .closing := by
  cases hmoves with
  | quit howner hloop => exact howner

theorem deaf_of_quit {i : Nat} (h : s.Sound generation numThreads)
    (hearly : ¬s.AsksInTime (.quit i)) (hmoves : Moves s (.quit i) t) : t.Deaf i := by
  cases hmoves with
  | quit howner hloop =>
      refine ⟨rfl, .inl ?_⟩
      have hshaken := h.shaken_of_loop (by rw [howner]; rfl) hloop
      cases hphase : s.worker i with
      | entering => rfl
      | destroyed => exact (hshaken.2 hphase).elim
      | returned =>
          -- It would have been asked before, and the owner would be at its join.
          rcases h.quit i (h.returned i hphase) with hjoin | hdestroy | hgone
          · simp [howner] at hjoin
          · simp [howner] at hdestroy
          · simp [hphase] at hgone
      | testing | polling => exact (hearly (by rw [AsksInTime, hphase]; rfl)).elim
      | absent | constructing | locking | storing | notifying | unlocking =>
          have hfirst := hshaken.1
          rw [hphase] at hfirst
          cases hfirst

theorem gone_stays {x : PoolInput} (howner : s.owner = .gone) (hmoves : Moves s x t) :
    t.owner = .gone := by
  by_cases hx : ∃ j, x = .worker j
  · rcases hx with ⟨j, rfl⟩
    rcases hmoves.next with ⟨-, -, hsame | ⟨hwaiting, -⟩⟩
    · exact hsame.trans howner
    · rw [howner] at hwaiting
      cases hwaiting
  · cases hmoves with
    | elsewhere => exact howner
    | close => rfl
    | create hother | returnStart hother | lock hother | predicate hother | leave hother
    | destroyWorker hother | spurious hother | destroy hother | quit hother | join hother =>
        rw [howner] at hother
        cases hother
    | _ => exact (hx ⟨_, rfl⟩).elim

/-- One early request is enough: the destructor does not return. -/
theorem never_gone (hstart : e.state 0 = start generation numThreads) {m : Nat}
    (hearly : ¬(e.state m).AsksInTime (e.input m)) (n : Nat) : (e.state n).owner ≠ .gone := by
  have hmoves := step_spec (e.step m)
  cases hinput : e.input m with
  | quit i =>
      rw [hinput] at hmoves hearly
      have hclosing := closing_of_quit hmoves
      have hdeaf := deaf_of_quit (execution_sound hstart m) hearly hmoves
      intro hgone
      by_cases hnm : n ≤ m
      · have hstill := Machine.Execution.holds_from (P := fun s : ThreadPool => s.owner = .gone)
          (fun n h => gone_stays h (step_spec (e.step n))) hgone hnm
        rw [hclosing] at hstill
        cases hstill
      · have hjoin := Machine.Execution.holds_from (P := Deaf i)
          (fun n h => h.step (step_spec (e.step n))) hdeaf (show m + 1 ≤ n by omega)
        rw [hjoin.1] at hgone
        cases hgone
  | _ =>
      rw [hinput] at hearly
      exact (hearly trivial).elim

/-! ## One worker after the other -/

def remaining (s : ThreadPool) : Finset Nat :=
  (Finset.range s.pool.numThreads).filter fun i => s.worker i ≠ .destroyed

theorem remaining_of_same (hpool : t.pool = s.pool)
    (hworker : ∀ i, t.worker i = .destroyed ↔ s.worker i = .destroyed) :
    t.remaining = s.remaining := by
  unfold remaining
  rw [hpool]
  apply Finset.filter_congr
  intro i _
  rw [Ne, hworker]

theorem Moves.among {j : Nat} (hmoves : Moves s (.worker j) t) (howner : s.owner ≠ .waiting) :
    t.owner = s.owner ∧ t.remaining = s.remaining := by
  rcases hmoves.next with ⟨hnext, hpool, hsame | ⟨hwaiting, -⟩⟩
  · refine ⟨hsame, remaining_of_same hpool fun i => ?_⟩
    by_cases hij : i = j
    · subst hij
      have hspec := hnext.spec
      exact ⟨fun h => (hspec.2.1.2 h).elim, fun h => (hspec.1.2.2 h).elim⟩
    · rw [(hmoves.other hij (.inr howner)).2.2.1]
  · exact (howner hwaiting).elim

def Ending (generation numThreads : Nat) (o : OwnerPhase) (k : Nat) (s : ThreadPool) : Prop :=
  s.Sound generation numThreads ∧ s.owner = o ∧ s.remaining.card = k

theorem Ending.other {o : OwnerPhase} {k : Nat} {x : PoolInput}
    (h : s.Ending generation numThreads o k) (ho : o.inStart = false) (hrunning : o ≠ .running)
    (hx : ¬x.ofOwner) (hmoves : Moves s x t) (ht : t.Sound generation numThreads) :
    t.Ending generation numThreads o k := by
  rcases h with ⟨-, howner, hcard⟩
  cases x with
  | owner | quit => exact (hx trivial).elim
  | spurious =>
      cases hmoves with
      | spurious hother =>
          rw [← howner, hother] at ho
          cases ho
  | destroy =>
      cases hmoves with
      | destroy hother => exact (hrunning (howner.symm.trans hother)).elim
  | elsewhere =>
      cases hmoves
      exact ⟨ht, howner, hcard⟩
  | worker j =>
      have hwaiting : s.owner ≠ .waiting := by
        intro hwaiting
        rw [← howner, hwaiting] at ho
        cases ho
      have hamong := hmoves.among hwaiting
      exact ⟨ht, hamong.1.trans howner, by rw [hamong.2, hcard]⟩

theorem mem_remaining (h : s.Sound generation numThreads) (howner : s.owner.inStart = false) {i : Nat}
    (hworker : s.worker i ≠ .absent ∧ s.worker i ≠ .destroyed) : i ∈ s.remaining := by
  have hloop : s.owner.inStartLoop = false := (Bool.or_eq_false_iff.1 howner).2
  have hlt : i < s.current := by
    by_contra hge
    rcases Nat.lt_or_eq_of_le (Nat.le_of_not_lt hge) with hlater | hnow
    · exact hworker.1 (h.later i (.inl hlater))
    · exact hworker.1 (h.later i (.inr ⟨hnow, hloop⟩))
  rw [remaining, Finset.mem_filter, Finset.mem_range, h.numThreads_eq, ← h.full howner]
  exact ⟨hlt, hworker.2⟩

theorem worker_of_loop (h : s.Sound generation numThreads) {i : Nat} (hloop : (s.loop i).isSome) :
    s.worker i ≠ .absent ∧ s.worker i ≠ .destroyed := by
  rw [h.loop] at hloop
  constructor <;> intro hphase <;> rw [hphase] at hloop <;> cases hloop

/-- The owner's step at the head of the destructor: it is done, or it asks a worker to quit. -/
theorem Ending.closing {k : Nat} {x : PoolInput} (h : s.Ending generation numThreads .closing k)
    (hx : x.ofOwner) (hmoves : Moves s x t) :
    k = 0 ∧ t.owner = .gone ∨ ∃ i, x = .quit i ∧ i ∈ s.remaining ∧ t.owner = .joining i ∧
      t.remaining = s.remaining ∧ t.worker i = s.worker i ∧ t.quit i = true := by
  rcases h with ⟨h, howner, hcard⟩
  cases hmoves with
  | close hclosing hall =>
      refine .inl ⟨?_, rfl⟩
      rw [← hcard, Finset.card_eq_zero, remaining, Finset.filter_eq_empty_iff]
      intro i hi hleft
      exact hleft (hall i (Finset.mem_range.1 hi))
  | @quit i hclosing hloop =>
      exact .inr ⟨i, rfl, mem_remaining h (by rw [howner]; rfl) (worker_of_loop h hloop), rfl,
        rfl, rfl, Function.update_self ..⟩
  | create hother | returnStart hother | lock hother | predicate hother | leave hother
  | destroyWorker hother | join hother =>
      rw [howner] at hother
      cases hother
  | _ => cases hx

/-- With no worker left, the owner's next step ends the destructor. -/
theorem last_gone (hsound : ∀ n, (e.state n).Sound generation numThreads)
    (fair : ∀ p, e.Fair (PoolInput.of p)) :
    e.LeadsTo (Ending generation numThreads .closing 0) fun s => s.owner = .gone := by
  have hempty : ∀ {s : ThreadPool}, s.Ending generation numThreads .closing 0 →
      ∀ i < s.pool.numThreads, s.worker i = .destroyed := by
    intro s h i hi
    by_contra hleft
    have hmem : i ∈ s.remaining := Finset.mem_filter.2 ⟨Finset.mem_range.2 hi, hleft⟩
    rw [Finset.card_eq_zero.1 h.2.2] at hmem
    cases hmem
  refine Machine.Execution.LeadsTo.of_turn (?_ : e.Turns PoolInput.ofOwner _) ?_ ?_
  · apply (fair none).turns
    intro s h
    exact ⟨.owner, { s with owner := .gone }, trivial, by
      simp only [machine, step, ownerStep, h.2.1, if_pos (hempty h)]⟩
  · intro n h hnone
    exact .inl (h.other rfl (by simp) hnone (step_spec (e.step n)) (hsound (n + 1)))
  · intro n h hown
    rcases h.closing hown (step_spec (e.step n)) with ⟨-, hgone⟩ | ⟨i, -, hmem, -⟩
    · exact hgone
    · rw [Finset.card_eq_zero.1 h.2.2] at hmem
      cases hmem

/-- The owner joins worker `i`, which is in its loop and will see the request to quit. -/
def Leaving (generation numThreads i k : Nat) (s : ThreadPool) : Prop :=
  s.Ending generation numThreads (.joining i) k ∧ (s.worker i).inLoop = true ∧ s.quit i = true

theorem next_quit (hsound : ∀ n, (e.state n).Sound generation numThreads)
    (fair : ∀ p, e.Fair (PoolInput.of p)) (hasks : ∀ n, (e.state n).AsksInTime (e.input n))
    (k : Nat) :
    e.LeadsTo (Ending generation numThreads .closing (k + 1))
      fun s => ∃ i, s.Leaving generation numThreads i (k + 1) := by
  refine Machine.Execution.LeadsTo.of_turn (?_ : e.Turns PoolInput.ofOwner _) ?_ ?_
  · apply (fair none).turns
    intro s h
    have hleft : s.remaining.Nonempty := Finset.card_pos.1 (by rw [h.2.2]; exact Nat.succ_pos k)
    rcases hleft with ⟨i, hi⟩
    rw [remaining, Finset.mem_filter, Finset.mem_range, h.1.numThreads_eq] at hi
    have hshaken := h.1.earlier i (by rw [h.1.full (by rw [h.2.1]; rfl)]; exact hi.1)
    have hloop : (s.loop i).isSome = true := by
      rw [h.1.loop]
      cases hphase : s.worker i with
      | entering | testing | polling | returned => rfl
      | destroyed => exact (hi.2 hphase).elim
      | _ =>
          rw [hphase] at hshaken
          cases hshaken
    exact ⟨.quit i, _, trivial, if_pos ⟨h.2.1, hloop⟩⟩
  · intro n h hnone
    exact .inl (h.other rfl (by simp) hnone (step_spec (e.step n)) (hsound (n + 1)))
  · intro n h hown
    rcases h.closing hown (step_spec (e.step n)) with
      ⟨hzero, -⟩ | ⟨i, hx, -, howner, hleft, hworker, hquit⟩
    · cases hzero
    · have hintime := hasks n
      rw [hx] at hintime
      have hloop : ((e.state (n + 1)).worker i).inLoop = true := by
        rw [hworker]
        exact hintime
      exact ⟨i, ⟨hsound (n + 1), howner, by rw [hleft, h.2.2]⟩, hloop, hquit⟩

def loopRank (i : Nat) (s : ThreadPool) : Nat := if s.worker i = .polling then 1 else 0

theorem Leaving.worker {i k : Nat} (h : s.Leaving generation numThreads i k)
    (hmoves : Moves s (.worker i) t) (ht : t.Sound generation numThreads) :
    t.Ending generation numThreads (.joining i) k ∧ t.worker i = .returned ∨
      t.Leaving generation numThreads i k ∧ t.loopRank i < s.loopRank i := by
  rcases h with ⟨hending, hloop, hquit⟩
  have hnext := hending.other rfl (by simp) (show ¬PoolInput.ofOwner (.worker i) from id) hmoves ht
  cases hmoves with
  | test hphase =>
      refine .inl ⟨hnext, ?_⟩
      rw [worker_moveWorker, if_pos rfl, hquit]
      rfl
  | poll hphase =>
      have hworker : (s.moveWorker i .testing).worker i = .testing := by
        rw [worker_moveWorker, if_pos rfl]
      exact .inr ⟨⟨hnext, by rw [hworker]; rfl, hquit⟩, by simp [loopRank, hphase, hworker]⟩
  | construct hphase | lockWorker hphase | store hphase | notify hphase | unlock hphase
  | enter hphase =>
      rw [hphase] at hloop
      cases hloop

/-- The others leave the two alone: `join` does not return before the worker has. -/
theorem Leaving.other {i k : Nat} {x : PoolInput} (h : s.Leaving generation numThreads i k)
    (hx : x ≠ .worker i) (hmoves : Moves s x t) (ht : t.Sound generation numThreads) :
    t.Leaving generation numThreads i k ∧ t.loopRank i = s.loopRank i := by
  rcases h with ⟨hending, hloop, hquit⟩
  have howner := hending.2.1
  by_cases hown : x.ofOwner
  · cases hmoves with
    | @join j hjoin hdone =>
        rw [howner] at hjoin
        cases hjoin
        rw [hdone] at hloop
        cases hloop
    | create hother | returnStart hother | lock hother | predicate hother | leave hother
    | close hother | destroyWorker hother | quit hother =>
        rw [howner] at hother
        cases hother
    | _ => cases hown
  · have hnext := hending.other rfl (by simp) hown hmoves ht
    cases x with
    | owner | quit => exact (hown trivial).elim
    | spurious =>
        cases hmoves with
        | spurious hother =>
            rw [howner] at hother
            cases hother
    | destroy =>
        cases hmoves with
        | destroy hother =>
            rw [howner] at hother
            cases hother
    | elsewhere =>
        cases hmoves
        exact ⟨⟨hnext, hloop, hquit⟩, rfl⟩
    | worker j =>
        have hij : i ≠ j := fun h => hx (h ▸ rfl)
        have hsame := hmoves.other hij (.inr (by simp [howner]))
        exact ⟨⟨hnext, by rw [hsame.2.2.1]; exact hloop, by rw [hsame.2.2.2.2.1]; exact hquit⟩,
          by simp only [loopRank, hsame.2.2.1]⟩

/-- A worker that has been asked in time leaves its loop. -/
theorem leaves (hsound : ∀ n, (e.state n).Sound generation numThreads)
    (fair : ∀ p, e.Fair (PoolInput.of p)) (i k : Nat) :
    e.LeadsTo (Leaving generation numThreads i k)
      fun s => s.Ending generation numThreads (.joining i) k ∧ s.worker i = .returned := by
  intro n hn
  have hturns : e.Turns (PoolInput.of (some i)) (Leaving generation numThreads i k) := by
    apply (fair (some i)).turns
    intro s h
    have hnext : ∃ q, (s.worker i).Next q := by
      have hloop := h.2.1
      cases hphase : s.worker i with
      | testing => exact ⟨_, .test true⟩
      | polling => exact ⟨_, .poll⟩
      | _ =>
          rw [hphase] at hloop
          cases hloop
    rcases worker_able h.1.1 hnext fun _ _ => by rw [h.1.2.1]; rfl with ⟨t, ht⟩
    exact ⟨.worker i, t, rfl, ht⟩
  have hgoal := Machine.Execution.eventually (loopRank i)
    (fun n => (e.state (n + 1)).Ending generation numThreads (.joining i) k ∧
      (e.state (n + 1)).worker i = .returned) hturns
    (fun n h hnone => .inr (h.other hnone (step_spec (e.step n)) (hsound (n + 1))))
    (fun n h hown => ?_) hn
  · rcases hgoal with ⟨m, hm, hdone⟩
    exact ⟨m + 1, by omega, hdone⟩
  · have hmoves := step_spec (e.step n)
    rw [show e.input n = .worker i from hown] at hmoves
    exact h.worker hmoves (hsound (n + 1))

theorem Ending.join {i k : Nat} {x : PoolInput} (h : s.Ending generation numThreads (.joining i) k)
    (hx : x.ofOwner) (hmoves : Moves s x t) (ht : t.Sound generation numThreads) :
    t.Ending generation numThreads (.destroying i) k := by
  rcases h with ⟨-, howner, hcard⟩
  cases hmoves with
  | @join j hjoin hdone =>
      rw [howner] at hjoin
      cases hjoin
      exact ⟨ht, rfl, hcard⟩
  | create hother | returnStart hother | lock hother | predicate hother | leave hother
  | close hother | destroyWorker hother | quit hother =>
      rw [howner] at hother
      cases hother
  | _ => cases hx

theorem Ending.destroy {i k : Nat} {x : PoolInput}
    (h : s.Ending generation numThreads (.destroying i) (k + 1)) (hx : x.ofOwner)
    (hmoves : Moves s x t) (ht : t.Sound generation numThreads) :
    t.Ending generation numThreads .closing k := by
  rcases h with ⟨h, howner, hcard⟩
  have hworker := h.destroying i howner
  have hmem : i ∈ s.remaining :=
    mem_remaining h (by rw [howner]; rfl) (by rw [hworker]; exact ⟨by simp, by simp⟩)
  cases hmoves with
  | @destroyWorker j hdestroy =>
      rw [howner] at hdestroy
      cases hdestroy
      refine ⟨ht, rfl, ?_⟩
      have herase : (s.moveWorker i .destroyed).remaining = s.remaining.erase i := by
        ext j
        simp only [remaining, Finset.mem_filter, Finset.mem_range, Finset.mem_erase,
          worker_moveWorker]
        by_cases hji : j = i <;> simp [hji, moveWorker]
      show (s.moveWorker i .destroyed).remaining.card = k
      rw [herase, Finset.card_erase_of_mem hmem, hcard, Nat.add_sub_cancel]
  | create hother | returnStart hother | lock hother | predicate hother | leave hother
  | close hother | join hother | quit hother =>
      rw [howner] at hother
      cases hother
  | _ => cases hx

/-- A worker whose thread has ended has no step left. -/
theorem returned_stays {i : Nat} {x : PoolInput} (hworker : s.worker i = .returned)
    (hwaiting : s.owner ≠ .waiting) (hx : ¬x.ofOwner) (hmoves : Moves s x t) :
    t.worker i = .returned := by
  cases x with
  | owner | quit => exact (hx trivial).elim
  | spurious | destroy =>
      cases hmoves
      exact hworker
  | elsewhere =>
      cases hmoves
      exact hworker
  | worker j =>
      by_cases hij : i = j
      · subst hij
        have hnext := hmoves.next.1
        rw [hworker] at hnext
        cases hnext
      · rw [(hmoves.other hij (.inr hwaiting)).2.2.1]
        exact hworker

theorem destroys (hsound : ∀ n, (e.state n).Sound generation numThreads)
    (fair : ∀ p, e.Fair (PoolInput.of p)) (i k : Nat) :
    e.LeadsTo
      (fun s => s.Ending generation numThreads (.joining i) (k + 1) ∧ s.worker i = .returned)
      (Ending generation numThreads .closing k) := by
  have hjoin : e.LeadsTo
      (fun s => s.Ending generation numThreads (.joining i) (k + 1) ∧ s.worker i = .returned)
      (Ending generation numThreads (.destroying i) (k + 1)) := by
    refine Machine.Execution.LeadsTo.of_turn (?_ : e.Turns PoolInput.ofOwner _) ?_ ?_
    · apply (fair none).turns
      rintro s ⟨h, hworker⟩
      exact ⟨.owner, { s with owner := .destroying i }, trivial, by
        simp only [machine, step, ownerStep, h.2.1, if_pos hworker]⟩
    · rintro n ⟨h, hworker⟩ hnone
      have hmoves := step_spec (e.step n)
      exact .inl ⟨h.other rfl (by simp) hnone hmoves (hsound (n + 1)),
        returned_stays hworker (by rw [h.2.1]; simp) hnone hmoves⟩
    · rintro n ⟨h, hworker⟩ hown
      exact h.join hown (step_spec (e.step n)) (hsound (n + 1))
  have hdestroy : e.LeadsTo (Ending generation numThreads (.destroying i) (k + 1))
      (Ending generation numThreads .closing k) := by
    refine Machine.Execution.LeadsTo.of_turn (?_ : e.Turns PoolInput.ofOwner _) ?_ ?_
    · apply (fair none).turns
      intro s h
      exact ⟨.owner, _, trivial, by simp only [machine, step, ownerStep, h.2.1]; rfl⟩
    · intro n h hnone
      exact .inl (h.other rfl (by simp) hnone (step_spec (e.step n)) (hsound (n + 1)))
    · intro n h hown
      exact h.destroy hown (step_spec (e.step n)) (hsound (n + 1))
  exact hjoin.trans hdestroy

theorem ends (hsound : ∀ n, (e.state n).Sound generation numThreads)
    (fair : ∀ p, e.Fair (PoolInput.of p)) (hasks : ∀ n, (e.state n).AsksInTime (e.input n))
    (k : Nat) : e.LeadsTo (Ending generation numThreads .closing k) fun s => s.owner = .gone := by
  induction k with
  | zero => exact last_gone hsound fair
  | succ k ih =>
      apply (next_quit hsound fair hasks k).trans
      rintro n ⟨i, hleaving⟩
      exact ((leaves hsound fair i (k + 1)).trans ((destroys hsound fair i k).trans ih)) n hleaving

theorem closing_of_destroy (hmoves : Moves s .destroy t) : t.owner = .closing := by
  cases hmoves with
  | destroy howner => rfl

/-- Once called, the destructor returns if and only if it asks no worker too early. -/
theorem destructor_returns_iff (hstart : e.state 0 = start generation numThreads)
    (fair : ∀ p, e.Fair (PoolInput.of p)) {d : Nat} (hdestroy : e.input d = .destroy) :
    (∃ m, (e.state m).owner = .gone) ↔ ∀ n, (e.state n).AsksInTime (e.input n) := by
  have hsound := execution_sound hstart
  constructor
  · rintro ⟨m, hgone⟩ n
    by_contra hearly
    exact never_gone hstart hearly m hgone
  · intro hasks
    have hmoves := step_spec (e.step d)
    rw [hdestroy] at hmoves
    rcases ends hsound fair hasks _ (d + 1) ⟨hsound (d + 1), closing_of_destroy hmoves, rfl⟩ with
      ⟨m, -, hgone⟩
    exact ⟨m, hgone⟩

/-- The worker of `startRun` goes round its loop, and is then asked to quit. -/
def closeRun : List PoolInput :=
  startRun ++ [.worker 0, .destroy, .quit 0, .worker 0, .worker 0, .owner, .owner, .owner]

structure Ended (s : ThreadPool) : Prop where
  owner : s.owner = .gone
  worker : ∀ i, s.worker i = .absent ∨ s.worker i = .destroyed

theorem Ended.stuck (h : s.Ended) (p : Option Nat) {x : PoolInput} (hx : PoolInput.of p x) :
    s.step x = none := by
  match p with
  | none =>
      cases x with
      | owner => simp only [step, ownerStep, h.owner]
      | quit i => simp [step, h.owner]
      | spurious | worker | destroy | elsewhere => cases hx
  | some i =>
      cases (show x = .worker i from hx)
      rcases h.worker i with hphase | hphase <;> simp only [step, workerStep, hphase]

theorem closeRun_ends : ∃ s, machine.run (start 0 1) closeRun = some s ∧ s.Ended := by
  have hrun : ∃ s, machine.run (start 0 1) closeRun = some s ∧ s.owner = .gone ∧
      s.worker 0 = .destroyed := ⟨_, rfl, rfl, rfl⟩
  rcases hrun with ⟨s, hrun, howner, hworker⟩
  have hsound := run_sound hrun
  have hcurrent : s.current = 1 := hsound.full (by rw [howner]; rfl)
  refine ⟨s, hrun, howner, fun i => ?_⟩
  match i with
  | 0 => exact .inr hworker
  | i + 1 =>
      refine .inl (hsound.later (i + 1) ?_)
      rcases Nat.eq_zero_or_pos i with rfl | hpos
      · exact .inr ⟨hcurrent, by rw [howner]; rfl⟩
      · exact .inl (by omega)

/-- A pool of one worker is started, asks it in time and is gone. -/
theorem destructor_of_one_returns : ∃ e : machine.Execution, e.state 0 = start 0 1 ∧
    (∃ d, e.input d = .destroy) ∧ ∃ m, (e.state m).owner = .gone := by
  rcases closeRun_ends with ⟨s, hrun, hs⟩
  have hround : ∀ t : ThreadPool, t = s → ∃ u, machine.run t [.elsewhere] = some u ∧ u = s := by
    intro t ht
    exact ⟨t, rfl, ht⟩
  rcases Machine.exists_cycling (by simp) hround rfl with ⟨after, hafter, hinput, -⟩
  have hinput : ∀ n, after.input n = .elsewhere := fun n => by simpa using hinput n
  have hidle : ∀ n, after.state n = s := by
    intro n
    induction n with
    | zero => exact hafter
    | succ n ih =>
        have hstep := after.step n
        rw [hinput n, ih] at hstep
        exact (Option.some.inj hstep).symm
  rcases Machine.Execution.exists_append (e := after) (hafter ▸ hrun) with
    ⟨e, hstart, hstate, hinputs, hbefore⟩
  have hdestroy : e.input 17 = .destroy := hbefore 17 _ rfl
  have hfair : ∀ p, e.Fair (PoolInput.of p) := by
    intro p n
    refine ⟨closeRun.length + n, by omega, .inr fun x hx => ?_⟩
    rw [hstate, hidle]
    exact hs.stuck p hx
  refine ⟨e, hstart, ⟨17, hdestroy⟩, (destructor_returns_iff hstart hfair hdestroy).2 ?_⟩
  have hintime : machine.Meets AsksInTime (e.state 0) closeRun := by
    rw [hstart]
    decide
  apply Machine.Execution.meets_of_append hintime hbefore
  intro n
  rw [hinputs, hinput]
  trivial

end ThreadPool

end Hayai
