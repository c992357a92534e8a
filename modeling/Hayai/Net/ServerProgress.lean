import Hayai.Machine.Progress
import Hayai.Net.LateFunctors
import Hayai.Net.ServerMembers
import Hayai.Net.ServerTasks
import Mathlib.Data.Prod.Lex

/-! # The loops of a server get things done

A loop that goes on runs every functor that is queued at it, and its thread hands over
every functor it has picked up. So a connection that was accepted gets established, and
one that has closed is taken out of the registry and destroyed.
-/

namespace Hayai

namespace Server

variable {τ υ : Type}

/-! ## Queue and batch of one loop -/

def Batched (s : Server τ υ) : Prop :=
  ∀ l, (s.loops l).loop.functors ≠ [] → (s.loops l).loop.callingPendingFunctors = true

/-- Nothing queued at loop `l` is taken, into its batch or out of it. -/
structure KeepsBatch (s t : Server τ υ) (l : Nat) : Prop where
  functors : (t.loops l).loop.functors = (s.loops l).loop.functors
  pending : (s.loops l).loop.pendingFunctors <+: (t.loops l).loop.pendingFunctors
  calling : (t.loops l).loop.callingPendingFunctors = (s.loops l).loop.callingPendingFunctors

theorem KeepsBatch.of_loop {s t : Server τ υ} {l : Nat}
    (h : (t.loops l).loop = (s.loops l).loop) : s.KeepsBatch t l := by
  constructor <;> rw [h]

def isBatchOf (l : Nat) : ServerInput τ υ → Bool
  | .doPendingFunctors m | .functor m _ | .endPendingFunctors m => m == l
  | _ => false

/-- What one step does to the queue of loop `l` and to its batch. -/
inductive BatchMoves (s t : Server τ υ) (l : Nat) : ServerInput τ υ → Prop
  | kept {i : ServerInput τ υ} (hi : isBatchOf l i = false) (hkeeps : s.KeepsBatch t l) :
      BatchMoves s t l i
  | doPendingFunctors (hbatch : (s.loops l).loop.functors = [])
      (hfunctors : (t.loops l).loop.functors = (s.loops l).loop.pendingFunctors)
      (hpending : (t.loops l).loop.pendingFunctors = [])
      (hcalling : (t.loops l).loop.callingPendingFunctors = true) :
      BatchMoves s t l (.doPendingFunctors l)
  | functor {w : WriteResult} {k : Task τ υ}
      (hfunctors : (s.loops l).loop.functors = k :: (t.loops l).loop.functors)
      (hpending : (t.loops l).loop.pendingFunctors = (s.loops l).loop.pendingFunctors)
      (hcalling : (t.loops l).loop.callingPendingFunctors =
        (s.loops l).loop.callingPendingFunctors) : BatchMoves s t l (.functor l w)
  | endPendingFunctors (hbatch : (s.loops l).loop.functors = [])
      (hfunctors : (t.loops l).loop.functors = [])
      (hpending : (t.loops l).loop.pendingFunctors = (s.loops l).loop.pendingFunctors)
      (hcalling : (t.loops l).loop.callingPendingFunctors = false) :
      BatchMoves s t l (.endPendingFunctors l)

theorem keepsBatch_setIo_of_ne {s : Server τ υ} {l m : Nat} (h : l ≠ m) (io : IoLoop τ υ) :
    s.KeepsBatch (s.setIo m io) l := by
  apply KeepsBatch.of_loop
  rw [loops_setIo_of_ne h]

variable [DecidableEq τ]

theorem keepsBatch_push (s : Server τ υ) (θ : Thread τ) (m : Nat) (k : Task τ υ) (l : Nat) :
    s.KeepsBatch (s.push θ m k) l := by
  by_cases hl : l = m
  · subst hl
    constructor
    · simp [push]
    · simp only [push, loops_setLoop_self, EventLoop.queueInLoop_eq_push]
      split <;> exact List.prefix_append _ _
    · simp only [push, loops_setLoop_self, EventLoop.queueInLoop_eq_push]
      split <;> rfl
  · apply KeepsBatch.of_loop
    simp only [push, setLoop]
    rw [loops_setIo_of_ne hl]

theorem step_batch {s t : Server τ υ} {i : ServerInput τ υ} (hstep : s.step i = some t)
    (l : Nat) : s.BatchMoves t l i := by
  have hkept : ∀ {j : ServerInput τ υ} {u : Server τ υ}, isBatchOf l j = false →
      (u.loops l).loop = (s.loops l).loop → s.BatchMoves u l j := fun hj h => .kept hj (.of_loop h)
  have hother : ∀ {m : Nat}, l ≠ m → (m == l) = false := fun hm => by simpa using hm.symm
  have htodo : ∀ (m : Nat) (todo : List (Option Nat × Callback)),
      ((s.setTodo m todo).loops l).loop = (s.loops l).loop := by
    intro m todo
    by_cases hl : l = m
    · subst hl
      rw [setTodo, loops_setIo_self]
    · rw [setTodo, loops_setIo_of_ne hl]
  cases (step_spec hstep).2 with
  | call => exact hkept rfl (by rw [loops_call])
  | stop => exact hkept rfl rfl
  | stopNext => exact hkept rfl (by rw [loops_call])
  | @deliver θ w j hj =>
      unfold deliver
      dsimp only
      split
      · exact hkept rfl (by rw [loops_perform]; rfl)
      · have hpush := keepsBatch_push (s.setFlight θ none) θ j.loop j.task l
        exact .kept rfl ⟨hpush.functors, hpush.pending, hpush.calling⟩
  | queueUser => exact hkept rfl rfl
  | @poll m events =>
      by_cases hl : l = m
      · subst hl
        apply BatchMoves.kept rfl
        constructor <;> simp [Server.poll]
      · apply hkept rfl
        simp [Server.poll, loops_setIo_of_ne hl]
  | callback => exact hkept rfl (by rw [loops_exec, htodo])
  | accept => exact hkept rfl (by rw [loops_newConnection, htodo])
  | acceptFailed => exact hkept rfl (htodo _ _)
  | @doPendingFunctors m _ hfunctors =>
      by_cases hl : l = m
      · subst hl
        refine .doPendingFunctors hfunctors ?_ ?_ ?_ <;> rw [loops_setLoop_self] <;> rfl
      · exact .kept (hother hl) (keepsBatch_setIo_of_ne hl _)
  | @functor m w k functors hfunctors =>
      by_cases hl : l = m
      · subst hl
        refine .functor (k := k) ?_ ?_ ?_ <;> rw [loops_perform, loops_setLoop_self]
        exact hfunctors
      · apply hkept (j := .functor m w) (hother hl)
        rw [loops_perform, setLoop, loops_setIo_of_ne hl]
  | @endPendingFunctors m =>
      by_cases hl : l = m
      · subst hl
        simp only [step] at hstep
        rcases Option.ite_none_right_eq_some.1 hstep with ⟨hguard, -⟩
        refine .endPendingFunctors hguard.2.2.2 ?_ ?_ ?_ <;> rw [loops_setLoop_self]
        · exact hguard.2.2.2
        · rfl
        · rfl
      · exact .kept (hother hl) (keepsBatch_setIo_of_ne hl _)

theorem step_batched {s t : Server τ υ} {i : ServerInput τ υ} (h : s.Batched)
    (hstep : s.step i = some t) : t.Batched := by
  intro l hne
  cases step_batch hstep l with
  | kept _ hkeeps =>
      rw [hkeeps.functors] at hne
      rw [hkeeps.calling]
      exact h l hne
  | doPendingFunctors _ _ _ hcalling => exact hcalling
  | functor hfunctors _ hcalling =>
      rw [hcalling]
      exact h l (by rw [hfunctors]; nofun)
  | endPendingFunctors _ hfunctors => exact absurd hfunctors hne

/-! ## A loop that goes on -/

/-- Loop `l` takes steps of its pass again and again: its callbacks and functors return. -/
def GoesOn (e : (machine τ υ).Execution) (l : Nat) : Prop :=
  e.Recurs fun i => isPassOf l i = true

omit [DecidableEq τ] in
/-- How far loop `l` is from its next swap: the rest of the batch, the poll, the callbacks. -/
def toSwap (l : Nat) (s : Server τ υ) : ℕ ×ₗ ℕ :=
  if (s.loops l).loop.callingPendingFunctors then toLex (2, (s.loops l).loop.functors.length)
  else if (s.loops l).loop.eventHandling then toLex (0, (s.loops l).todo.length)
  else toLex (1, 0)

theorem toSwap_other {s t : Server τ υ} {i : ServerInput τ υ} {l : Nat}
    (hi : isPassOf l i = false) (hstep : s.step i = some t) : t.toSwap l = s.toSwap l := by
  have hfunctors : (t.loops l).loop.functors = (s.loops l).loop.functors := by
    cases step_batch hstep l with
    | kept _ hkeeps => exact hkeeps.functors
    | doPendingFunctors => simp [isPassOf] at hi
    | functor => simp [isPassOf] at hi
    | endPendingFunctors => simp [isPassOf] at hi
  cases step_pass hstep l with
  | other _ hsame =>
      unfold toSwap
      rw [hsame.calling, hsame.handling, hsame.todo, hfunctors]
  | poll => simp [isPassOf] at hi
  | callback => simp [isPassOf] at hi
  | doPendingFunctors => simp [isPassOf] at hi
  | functor => simp [isPassOf] at hi
  | endPendingFunctors => simp [isPassOf] at hi

theorem toSwap_pass {s t : Server τ υ} {i : ServerInput τ υ} {l : Nat} (h : s.InPhase)
    (hi : isPassOf l i = true) (hstep : s.step i = some t) :
    i = .doPendingFunctors l ∨ t.toSwap l < s.toSwap l := by
  cases step_pass hstep l with
  | poll hhandling hcalling _ ht =>
      right
      have hlater : t.toSwap l = toLex (0, (t.loops l).todo.length) := by
        subst ht
        simp [toSwap, Server.poll, hcalling]
      rw [hlater]
      simp [toSwap, hcalling, hhandling, Prod.Lex.toLex_lt_toLex]
  | callback hhandling htodo hloop =>
      right
      have hcalling : (s.loops l).loop.callingPendingFunctors = false := by
        rw [Bool.eq_false_iff]
        intro hcalling
        rw [h.calling l hcalling] at hhandling
        cases hhandling
      simp [toSwap, hloop, hcalling, hhandling, htodo, Prod.Lex.toLex_lt_toLex]
  | doPendingFunctors => exact .inl rfl
  | functor hcalling hsame =>
      right
      have hlater : (t.loops l).loop.callingPendingFunctors = true := hsame.calling.trans hcalling
      cases step_batch hstep l with
      | kept hnot => simp [isBatchOf] at hnot
      | functor hfunctors =>
          simp [toSwap, hcalling, hlater, hfunctors, Prod.Lex.toLex_lt_toLex]
  | endPendingFunctors hcalling ht =>
      right
      have hhandling := h.calling l hcalling
      have hlater : t.toSwap l = toLex (1, 0) := by
        subst ht
        simp [toSwap, EventLoop.endPendingFunctors, hhandling]
      rw [hlater]
      simp [toSwap, hcalling, Prod.Lex.toLex_lt_toLex]
  | other hother => rw [hi] at hother; cases hother

/-- A loop that goes on swaps its queue out again and again. -/
theorem GoesOn.swaps {e : (machine τ υ).Execution} {l : Nat} (h : GoesOn e l)
    (hphase : ∀ n, (e.state n).InPhase) (n : ℕ) :
    ∃ m, n ≤ m ∧ e.input m = .doPendingFunctors l := by
  apply Machine.Execution.eventually (I := InPhase) (toSwap l)
    (fun m => e.input m = .doPendingFunctors l) (h.turns InPhase) _ _ (hphase n)
  · intro m _ hother
    exact .inr ⟨hphase (m + 1), toSwap_other (Bool.eq_false_iff.2 hother) (e.step m)⟩
  · intro m hm hown
    exact (toSwap_pass hm hown (e.step m)).imp_right fun hless => ⟨hphase (m + 1), hless⟩

theorem mem_pending_step {s t : Server τ υ} {i : ServerInput τ υ} {l : Nat} {k : Task τ υ}
    (hk : k ∈ (s.loops l).loop.pendingFunctors) (hstep : s.step i = some t) :
    (i = .doPendingFunctors l → k ∈ (t.loops l).loop.functors) ∧
      (i ≠ .doPendingFunctors l → k ∈ (t.loops l).loop.pendingFunctors) := by
  cases step_batch hstep l with
  | kept hi hkeeps =>
      refine ⟨fun hswap => ?_, fun _ => hkeeps.pending.subset hk⟩
      subst hswap
      simp [isBatchOf] at hi
  | doPendingFunctors _ hfunctors => exact ⟨fun _ => hfunctors ▸ hk, fun hnot => absurd rfl hnot⟩
  | functor _ hpending => exact ⟨nofun, fun _ => hpending ▸ hk⟩
  | endPendingFunctors _ _ hpending => exact ⟨nofun, fun _ => hpending ▸ hk⟩

theorem mem_functors_step {s t : Server τ υ} {i : ServerInput τ υ} {l : Nat} {k : Task τ υ}
    (hphase : s.InPhase) (hbatched : s.Batched) (hk : k ∈ (s.loops l).loop.functors)
    (hstep : s.step i = some t) :
    (∃ w, i = .functor l w ∧ (s.loops l).loop.functors.head? = some k) ∨
      k ∈ (t.loops l).loop.functors ∧
        if isPassOf l i then (t.loops l).loop.functors.length < (s.loops l).loop.functors.length
        else (t.loops l).loop.functors.length = (s.loops l).loop.functors.length := by
  have hcalling := hbatched l (List.ne_nil_of_mem hk)
  cases step_batch hstep l with
  | kept hi hkeeps =>
      -- While functors run the loop neither polls nor calls back.
      have hnot : isPassOf l i = false := by
        cases step_pass hstep l with
        | poll _ hidle => rw [hcalling] at hidle; cases hidle
        | callback hhandling => rw [hphase.calling l hcalling] at hhandling; cases hhandling
        | other hnot => exact hnot
        | _ => simp [isBatchOf] at hi
      rw [hkeeps.functors, hnot]
      exact .inr ⟨hk, rfl⟩
  | doPendingFunctors hbatch => rw [hbatch] at hk; cases hk
  | @functor w k' hfunctors =>
      rw [hfunctors] at hk ⊢
      rcases List.mem_cons.1 hk with rfl | hk
      · exact .inl ⟨w, rfl, rfl⟩
      · exact .inr ⟨hk, by simp [isPassOf]⟩
  | endPendingFunctors hbatch => rw [hbatch] at hk; cases hk

/-- Every functor queued at a loop that goes on is run. -/
theorem GoesOn.runs {e : (machine τ υ).Execution} {l : Nat} (h : GoesOn e l)
    (hphase : ∀ n, (e.state n).InPhase) (hbatched : ∀ n, (e.state n).Batched) {n : ℕ}
    {k : Task τ υ} (hk : k ∈ ((e.state n).loops l).loop.queued) :
    ∃ m, n ≤ m ∧ ∃ w, e.input m = .functor l w ∧
      ((e.state m).loops l).loop.functors.head? = some k := by
  have hbatch : ∀ {n}, k ∈ ((e.state n).loops l).loop.functors → ∃ m, n ≤ m ∧
      ∃ w, e.input m = .functor l w ∧ ((e.state m).loops l).loop.functors.head? = some k := by
    intro n hk
    apply Machine.Execution.eventually (I := fun s => k ∈ (s.loops l).loop.functors)
      (fun s => (s.loops l).loop.functors.length)
      (fun m => ∃ w, e.input m = .functor l w ∧
        ((e.state m).loops l).loop.functors.head? = some k) (h.turns _) _ _ hk
    · intro m hm hother
      simpa [hother] using mem_functors_step (hphase m) (hbatched m) hm (e.step m)
    · intro m hm hown
      simpa [hown] using mem_functors_step (hphase m) (hbatched m) hm (e.step m)
  rcases List.mem_append.1 hk with hfunctors | hpending
  · exact hbatch hfunctors
  · have hrecurs : e.Recurs (· = .doPendingFunctors l) := h.swaps hphase
    obtain ⟨m, hm, hbegun⟩ := Machine.Execution.eventually
      (I := fun s => k ∈ (s.loops l).loop.pendingFunctors) (fun _ => 0)
      (fun m => k ∈ ((e.state (m + 1)).loops l).loop.functors) (hrecurs.turns _)
      (fun m hm hother => .inr ⟨(mem_pending_step hm (e.step m)).2 hother, rfl⟩)
      (fun m hm hown => .inl ((mem_pending_step hm (e.step m)).1 hown)) hpending
    obtain ⟨j, hj, hrun⟩ := hbatch hbegun
    exact ⟨j, by omega, hrun⟩

/-! ## Functors in flight -/

theorem flight_of_step {s t : Server τ υ} {i : ServerInput τ υ} (hstep : s.step i = some t) :
    (∃ w, i = .deliver i.thread w) ∨ s.inFlight i.thread = none := by
  cases (step_spec hstep).2 with
  | @deliver θ w => exact .inl ⟨w, rfl⟩
  | stopNext _ hidle => exact .inr hidle
  | doPendingFunctors =>
      simp only [step] at hstep
      exact .inr (Option.ite_none_right_eq_some.1 hstep).1.2.1.1
  | endPendingFunctors =>
      simp only [step] at hstep
      exact .inr (Option.ite_none_right_eq_some.1 hstep).1.2.1.1
  | call hfree => exact .inr hfree.1
  | stop hfree => exact .inr hfree.1
  | queueUser hfree => exact .inr hfree.1
  | poll hfree => exact .inr hfree.1
  | callback _ hfree => exact .inr hfree.1
  | accept _ hfree => exact .inr hfree.1
  | acceptFailed _ hfree => exact .inr hfree.1
  | functor _ hfree => exact .inr hfree.1

theorem delivered_of_moves {e : (machine τ υ).Execution} {θ : Thread τ} {n : ℕ} {j : Job τ υ}
    (hj : (e.state n).inFlight θ = some j) (hmoves : ∃ m, n ≤ m ∧ (e.input m).thread = θ) :
    ∃ m, n ≤ m ∧ (∃ w, e.input m = .deliver θ w) ∧ (e.state m).inFlight θ = some j := by
  obtain ⟨m, hm, hthread⟩ := hmoves
  obtain ⟨k, rfl⟩ := Nat.exists_eq_add_of_le hm
  clear hm
  induction k generalizing n with
  | zero =>
      refine ⟨n, le_rfl, ?_, hj⟩
      rcases flight_of_step (e.step n) with hdeliver | hnone
      · exact hthread ▸ hdeliver
      · rw [show (e.input n).thread = θ from hthread, hj] at hnone
        cases hnone
  | succ k ih =>
      by_cases hnow : (e.input n).thread = θ
      · rcases flight_of_step (e.step n) with hdeliver | hnone
        · exact ⟨n, le_rfl, hnow ▸ hdeliver, hj⟩
        · rw [hnow, hj] at hnone
          cases hnone
      · have hnext := inFlight_step_of_ne (Ne.symm hnow) (e.step n)
        obtain ⟨m, hm, hdelivered⟩ := ih (n := n + 1) (hnext.trans hj)
          (by rwa [Nat.add_assoc, Nat.add_comm 1 k])
        exact ⟨m, by omega, hdelivered⟩

omit [DecidableEq τ] in
theorem thread_of_isPassOf {i : ServerInput τ υ} {l : Nat} (h : isPassOf l i = true) :
    i.thread = .loop l := by
  cases i <;> simp [isPassOf, ServerInput.thread] at h ⊢
  all_goals exact h

/-- A functor that the thread of a loop that goes on has picked up is handed over. -/
theorem GoesOn.delivers {e : (machine τ υ).Execution} {l : Nat} (h : GoesOn e l) {n : ℕ}
    {j : Job τ υ} (hj : (e.state n).inFlight (.loop l) = some j) :
    ∃ m, n ≤ m ∧ (∃ w, e.input m = .deliver (.loop l) w) ∧
      (e.state m).inFlight (.loop l) = some j := by
  obtain ⟨m, hm, hpass⟩ := h n
  exact delivered_of_moves hj ⟨m, hm, thread_of_isPassOf hpass⟩

/-! ## Stages -/

/-- All that is known of every state of a server that accepts at most `2^31 - 1`
connections. -/
structure Steady (s : Server τ υ) : Prop where
  placed : s.Placed
  registered : s.Registered
  cycle : s.Cycle []
  inPhase : s.InPhase
  batched : s.Batched

theorem steady_of_start {e : (machine τ υ).Execution} {name : String} {numThreads : Nat}
    {cb mcb : Bool} (hstart : e.state 0 = start name numThreads cb mcb)
    (hbound : ∀ n, (e.state n).accepted ≤ 2 ^ 31 - 1) (n : ℕ) : (e.state n).Steady := by
  induction n with
  | zero =>
      rw [hstart]
      exact ⟨start_placed name numThreads cb mcb, start_registered name numThreads cb mcb,
        start_cycle name numThreads cb mcb, start_inPhase name numThreads cb mcb,
        fun _ hne => absurd rfl hne⟩
  | succ n ih =>
      have hstep := e.step n
      exact ⟨step_placed ih.placed hstep,
        step_registered ih.placed ih.registered (hbound (n + 1)) hstep,
        step_cycle ih.placed ih.registered ih.cycle hstep, step_inPhase ih.inPhase hstep,
        step_batched ih.batched hstep⟩

theorem exec_of_member {s t : Server τ υ} {i : ServerInput τ υ} (hplaced : s.Placed)
    (hstep : s.step i = some t) {c : Nat} {op : Op (Thread τ)}
    (hmember : s.member i = some (c, op)) :
    op.Fits (s.conns c).conn ∧
      ∃ u : Server τ υ, u.conns = s.conns ∧ t = u.exec (.loop (s.conns c).loop) c op := by
  cases (step_spec hstep).2 with
  | @deliver θ w j hj hfits =>
      rcases j with ⟨l, k, inline⟩
      cases k with
      | conn d f =>
          simp only [member, hj, Option.ite_none_right_eq_some] at hmember
          rcases hmember with ⟨⟨rfl, rfl⟩, ⟨⟩⟩
          have hon := (loopOf_eq_some.1 (hplaced.flight _ _ hj)).2
          refine ⟨fits_op rfl hfits _, s.setFlight (.loop l) none, rfl, ?_⟩
          rw [hon]
          simp [deliver, perform]
      | _ => simp [member, hj] at hmember
  | @callback l r retrieved w sockfd d kind todo htodo hfree hfits =>
      simp only [member, htodo, Option.some.injEq, Prod.mk.injEq] at hmember
      rcases hmember with ⟨rfl, rfl⟩
      have hon := loopOf_eq_some.1 ((hplaced.loops l).todo (some d, kind) (by simp [htodo]))
      exact ⟨hfits, s.setTodo l todo, rfl, by rw [hon.2]⟩
  | accept htodo => simp [member, htodo] at hmember
  | acceptFailed htodo => simp [member, htodo] at hmember
  | @functor l w k functors hfunctors hfree hfits =>
      cases k with
      | conn d f =>
          simp only [member, hfunctors, Option.some.injEq, Prod.mk.injEq] at hmember
          rcases hmember with ⟨rfl, rfl⟩
          have hqueued := EventLoop.queued_of_functors hfunctors
          have hon := loopOf_eq_some.1 ((hplaced.loops l).queued (.conn d f) (by simp [hqueued]))
          exact ⟨fits_op rfl hfits _, s.setLoop l _, rfl, by rw [hon.2]; rfl⟩
      | _ => simp [member, hfunctors] at hmember
  | _ => cases hmember

/-- The step runs the member of connection `c` that the functor is made of. -/
theorem done_of_member {s t : Server τ υ} {i : ServerInput τ υ} (h : s.Steady)
    (hstep : s.step i = some t) {c : Nat} {op : Op (Thread τ)} {g : Stage}
    (hmember : s.member i = some (c, op)) (hstage : op.stage? = some g) :
    1 ≤ (t.conns c).done g := by
  cases step_connMoves h.placed h.cycle hstep c with
  | ran hran _ _ _ ht =>
      cases hmember.symm.trans hran
      rw [ht, Connection.done_act, if_pos hstage]
      exact Nat.le_add_left _ _
  | fresh hnone => cases hmember.symm.trans hnone
  | quiet _ hnot => exact absurd hmember (hnot op)

omit [DecidableEq τ] in
theorem exists_functor_of_brings {k : Task τ υ} {g : Stage} {c : Nat}
    (hk : k.brings g c = true) (w : WriteResult) :
    ∃ f : Functor (Thread τ) Empty, k = .conn c f ∧ (f.op w).stage? = some g := by
  have hstage : k.stage? = some (g, c) := by simpa [Task.brings] using hk
  unfold Task.stage? at hstage
  split at hstage
  · cases hstage
    exact ⟨_, rfl, rfl⟩
  · cases hstage
    exact ⟨_, rfl, rfl⟩
  · cases hstage

theorem loop_step {s t : Server τ υ} {i : ServerInput τ υ} (h : s.Steady)
    (hstep : s.step i = some t) {c : Nat} (hc : c < s.accepted) :
    (t.conns c).loop = (s.conns c).loop := by
  cases step_connMoves h.placed h.cycle hstep c with
  | ran _ _ _ _ ht =>
      rw [ht]
      rfl
  | fresh _ _ hnew => exact absurd hnew (Nat.ne_of_lt hc)
  | quiet _ _ hquiet => exact hquiet.loop

theorem done_step {s t : Server τ υ} {i : ServerInput τ υ} (h : s.Steady)
    (hstep : s.step i = some t) {c : Nat} (hc : c < s.accepted) (g : Stage) :
    (s.conns c).done g ≤ (t.conns c).done g := by
  cases step_connMoves h.placed h.cycle hstep c with
  | ran _ _ _ _ ht =>
      rw [ht, Connection.done_act]
      exact Nat.le_add_right _ _
  | fresh _ _ hnew => exact absurd hnew (Nat.ne_of_lt hc)
  | quiet _ _ hquiet => exact (hquiet.done g).ge

/-- A functor that is not run at once goes into the queue. -/
theorem queued_of_deliver {s t : Server τ υ} {θ : Thread τ} {w : WriteResult} {j : Job τ υ}
    (hj : s.inFlight θ = some j) (hown : ¬(j.inline = true ∧ θ = .loop j.loop))
    (hstep : s.step (.deliver θ w) = some t) : j.task ∈ (t.loops j.loop).loop.queued := by
  cases (step_spec hstep).2 with
  | deliver hj' =>
      cases hj.symm.trans hj'
      unfold deliver
      dsimp only
      rw [if_neg hown]
      simp [push, setFlight]

theorem stage_of_deliver {s t : Server τ υ} (h : s.Steady) {θ : Thread τ} {w : WriteResult}
    {j : Job τ υ} (hj : s.inFlight θ = some j) (hstep : s.step (.deliver θ w) = some t)
    {g : Stage} {c : Nat} (hk : j.task.brings g c = true) :
    1 ≤ (t.conns c).done g ∨ j.task ∈ (t.loops (s.conns c).loop).loop.queued := by
  have hloop : (s.conns c).loop = j.loop := loop_of_brings hk (h.placed.flight θ j hj)
  obtain ⟨f, htask, hstage⟩ := exists_functor_of_brings hk w
  by_cases hown : j.inline = true ∧ θ = .loop j.loop
  · refine .inl (done_of_member h hstep ?_ hstage)
    rcases j with ⟨l, k, inline⟩
    cases htask
    simp only [member, hj]
    rw [if_pos hown]
  · rw [hloop]
    exact .inr (queued_of_deliver hj hown hstep)

theorem accepted_later {e : (machine τ υ).Execution} {n m : ℕ} (hm : n ≤ m) :
    (e.state n).accepted ≤ (e.state m).accepted := by
  induction m, hm using Nat.le_induction with
  | base => exact le_rfl
  | succ m hm ih => exact ih.trans (accepted_le_step (e.step m))

section Endless

variable {e : (machine τ υ).Execution} (hsteady : ∀ n, (e.state n).Steady)
include hsteady

theorem loop_later {n m : ℕ} (hm : n ≤ m) {c : Nat} (hc : c < (e.state n).accepted) :
    ((e.state m).conns c).loop = ((e.state n).conns c).loop := by
  induction m, hm using Nat.le_induction with
  | base => rfl
  | succ m hm ih =>
      rw [loop_step (hsteady m) (e.step m) (hc.trans_le (accepted_later hm)), ih]

theorem done_later {n m : ℕ} (hm : n ≤ m) {c : Nat} (hc : c < (e.state n).accepted) (g : Stage) :
    ((e.state n).conns c).done g ≤ ((e.state m).conns c).done g := by
  induction m, hm using Nat.le_induction with
  | base => exact le_rfl
  | succ m hm ih =>
      exact ih.trans (done_step (hsteady m) (e.step m) (hc.trans_le (accepted_later hm)) g)

/-- A functor for a stage in the queue of its loop is run. -/
theorem stage_of_queued {n : ℕ} {c : Nat} {l : Nat} (hgoes : GoesOn e l) {g : Stage}
    {k : Task τ υ} (hk : k ∈ ((e.state n).loops l).loop.queued) (hbrings : k.brings g c = true) :
    ∃ m, n ≤ m ∧ 1 ≤ ((e.state m).conns c).done g := by
  obtain ⟨m, hm, w, hinput, hhead⟩ :=
    hgoes.runs (fun n => (hsteady n).inPhase) (fun n => (hsteady n).batched) hk
  obtain ⟨functors, hfunctors⟩ := List.head?_eq_some_iff.1 hhead
  obtain ⟨f, rfl, hstage⟩ := exists_functor_of_brings hbrings w
  refine ⟨m + 1, by omega, done_of_member (hsteady m) (e.step m) ?_ hstage⟩
  rw [hinput]
  simp only [member, hfunctors]

/-- A stage that is still to come is gone through, if the base loop and the connection's own
loop go on. -/
theorem stage_comes {n : ℕ} {c : Nat} (hc : c < (e.state n).accepted) (hbase : GoesOn e 0)
    (hown : GoesOn e ((e.state n).conns c).loop) {g : Stage}
    (hwaiting : 0 < (e.state n).waiting [] g c) :
    ∃ m, n ≤ m ∧ 1 ≤ ((e.state m).conns c).done g := by
  by_cases hqueue :
      0 < ((e.state n).loops ((e.state n).conns c).loop).loop.queued.countP (Task.brings g c)
  · obtain ⟨k, hk, hbrings⟩ := List.countP_pos_iff.1 hqueue
    exact stage_of_queued hsteady hown hk hbrings
  · have hflight : 0 < ((e.state n).inFlight (.loop 0)).toList.countP (·.task.brings g c) := by
      simp only [waiting, List.countP_nil] at hwaiting
      omega
    obtain ⟨j, hj, hbrings⟩ := List.countP_pos_iff.1 hflight
    rw [Option.mem_toList] at hj
    obtain ⟨m, hm, ⟨w, hinput⟩, hj⟩ := hbase.delivers hj
    have hstep := e.step m
    rw [hinput] at hstep
    have hloop := loop_later hsteady hm hc
    rcases stage_of_deliver (hsteady m) hj hstep hbrings with hdone | hqueued
    · exact ⟨m + 1, by omega, hdone⟩
    · rw [hloop] at hqueued
      obtain ⟨m', hm', hdone⟩ := stage_of_queued hsteady hown hqueued hbrings
      exact ⟨m', by omega, hdone⟩

end Endless

/-! ## Accepted connections -/

def Established (s : Server τ υ) (c : Nat) : Prop :=
  s.state c ≠ .connecting ∧ (s.conns c).done .established = 1

omit [DecidableEq τ] in
theorem Steady.established {s : Server τ υ} (h : s.Steady) {c : Nat} (hc : c < s.accepted)
    (hdone : 1 ≤ (s.conns c).done .established) : s.Established c := by
  have hstages := h.cycle.stages .established c hc
  refine ⟨fun hconnecting => ?_, ?_⟩
  · have hnone : (s.conns c).history = [] := ((h.cycle.conns c hc).fresh hconnecting).1
    simp [Connection.done, hnone] at hdone
  · simp only [Stage.due] at hstages
    omega

/-- Whatever clients and other threads do, a connection that was accepted gets established,
exactly once, as long as the base loop and its own loop go on. -/
theorem accepted_gets_established {e : (machine τ υ).Execution} {name : String}
    {numThreads : Nat} {cb mcb : Bool} (hstart : e.state 0 = start name numThreads cb mcb)
    (hbound : ∀ n, (e.state n).accepted ≤ 2 ^ 31 - 1) (hbase : GoesOn e 0) {n : ℕ} {c : Nat}
    (hc : c < (e.state n).accepted) (hown : GoesOn e ((e.state n).conns c).loop) :
    ∃ m, n ≤ m ∧ ∀ k, m ≤ k → (e.state k).Established c := by
  have hsteady := steady_of_start hstart hbound
  obtain ⟨m, hm, hdone⟩ : ∃ m, n ≤ m ∧ 1 ≤ ((e.state m).conns c).done .established := by
    by_cases hdone : 1 ≤ ((e.state n).conns c).done .established
    · exact ⟨n, le_rfl, hdone⟩
    · apply stage_comes hsteady hc hbase hown
      have hstages := (hsteady n).cycle.stages .established c hc
      simp only [Stage.due] at hstages
      omega
  refine ⟨m, hm, fun k hk => (hsteady k).established ?_ ?_⟩
  · exact hc.trans_le (accepted_later (hm.trans hk))
  · have hc' := hc.trans_le (accepted_later hm)
    exact hdone.trans (done_later hsteady hk hc' .established)

/-! ## A server that has nothing to do -/

omit [DecidableEq τ] in
structure Idle (s : Server τ υ) : Prop where
  alive : s.aborted = false
  flight : s.inFlight (.loop 0) = none
  stopping : s.stopping = []
  handling : (s.loops 0).loop.eventHandling = false
  calling : (s.loops 0).loop.callingPendingFunctors = false
  queued : (s.loops 0).loop.queued = []

omit [DecidableEq τ] in
def idlePass : List (ServerInput τ υ) := [.poll 0 [], .doPendingFunctors 0, .endPendingFunctors 0]

theorem idlePass_again {s : Server τ υ} (h : s.Idle) :
    ∃ t, (machine τ υ).run s idlePass = some t ∧ t.Idle := by
  have hempty : (s.loops 0).loop.functors = [] ∧ (s.loops 0).loop.pendingFunctors = [] := by
    simpa [EventLoop.queued] using h.queued
  simp [machine, Machine.run, idlePass, step, h.alive, Free, h.flight, h.stopping, h.handling,
    h.calling, Server.poll, hempty, Poller.fillActiveChannels, setLoop, setIo,
    EventLoop.beginPendingFunctors, EventLoop.endPendingFunctors]
  constructor <;> simp [h.flight, EventLoop.queued]

omit [DecidableEq τ] in
theorem not_accepts_of_idlePass {s : Server τ υ} {i : ServerInput τ υ} (hi : i ∈ idlePass) :
    s.accepts i = none := by
  simp only [idlePass, List.mem_cons, List.not_mem_nil, or_false] at hi
  rcases hi with rfl | rfl | rfl <;> rfl

theorem exists_idling {s t : Server τ υ} {is : List (ServerInput τ υ)}
    (hrun : (machine τ υ).run s is = some t) (hplaced : s.Placed) (hidle : t.Idle) :
    ∃ e : (machine τ υ).Execution, e.state 0 = s ∧ e.state is.length = t ∧
      (∀ n i, is[n]? = some i → e.input n = i) ∧ (∀ n, e.input (is.length + n) ∈ idlePass) ∧
      (∀ n, (e.state n).accepted ≤ t.accepted) ∧ GoesOn e 0 := by
  obtain ⟨idle, hzero, hpass, hrecurs⟩ :=
    Machine.exists_cycling (P := Idle) (show idlePass ≠ [] by nofun) (fun _ => idlePass_again)
      hidle
  obtain ⟨e, hstart, hstate, hinput, hbefore⟩ := Machine.Execution.exists_append (e := idle)
    (hzero ▸ hrun)
  have hlast : e.state is.length = t := (hstate 0).trans hzero
  have hidling : ∀ n, e.input (is.length + n) ∈ idlePass := by
    intro n
    rw [hinput]
    exact hpass n
  have hall : ∀ n, (e.state n).Placed := by
    intro n
    induction n with
    | zero => exact hstart ▸ hplaced
    | succ n ih => exact step_placed ih (e.step n)
  have hafter : ∀ n, (e.state (is.length + n)).accepted = t.accepted := by
    intro n
    induction n with
    | zero => rw [Nat.add_zero, hlast]
    | succ n ih =>
        have hnone : (e.state (is.length + n)).accepts (e.input (is.length + n)) = none := by
          exact not_accepts_of_idlePass (hidling n)
        rw [← Nat.add_assoc, accepted_step (hall _) (e.step _), hnone, ih]
        rfl
  refine ⟨e, hstart, hlast, hbefore, hidling, fun n => ?_, ?_⟩
  · exact (accepted_later (Nat.le_add_left n is.length)).trans_eq (hafter n)
  · apply Machine.Execution.Recurs.of_append _ hinput
    intro n
    obtain ⟨m, hm, hpoll⟩ := hrecurs (.poll 0 []) (by simp [idlePass]) n
    exact ⟨m, hm, by rw [hpoll]; rfl⟩

/-- A client of a server without a pool. -/
theorem accepted_gets_established_alone : ∃ e : (machine Unit Unit).Execution,
    e.state 0 = start "echo" 0 true true ∧ ∃ m, ∀ k, m ≤ k → (e.state k).Established 0 := by
  let is : List (ServerInput Unit Unit) := [.poll 0 [⟨3, .read, false, false, none⟩],
      .callback 0 (.bytes []) 0 (.wrote 0) (some 7), .deliver (.loop 0) (.wrote 0),
      .doPendingFunctors 0, .endPendingFunctors 0]
  obtain ⟨e, hstart, hlast, -, -, haccepted, hbase⟩ := exists_idling
    (show (machine Unit Unit).run (start "echo" 0 true true) is = some _ from rfl)
    (start_placed "echo" 0 true true) ⟨rfl, rfl, rfl, rfl, rfl, rfl⟩
  have hc : 0 < (e.state 5).accepted ∧ ((e.state 5).conns 0).loop = 0 := by
    rw [show e.state 5 = _ from hlast]
    exact ⟨Nat.one_pos, rfl⟩
  obtain ⟨m, -, hm⟩ := accepted_gets_established hstart
    (fun n => (haccepted n).trans (by decide)) hbase hc.1 (by rw [hc.2]; exact hbase)
  exact ⟨e, hstart, m, hm⟩

end Server

end Hayai
