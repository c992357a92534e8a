import Hayai.Coro.Spawn

/-! # Spawned coroutines when their loop ends

`EventLoop::quit()` can come at any moment; `loop()` then finishes its pass and returns, and
the loop can be destroyed. `~EventLoop` drops the queued functors and the set
`spawnedTasks_`, which has handles only: no frame is destroyed with them.
-/

namespace Hayai

/-! ## The model -/

inductive LoopStage where
  | outside
  | testing
  | passing
  | destroyed
  deriving DecidableEq, Repr

structure LoopLife (α τ υ : Type) where
  tasks : SpawnLoop α τ υ
  stage : LoopStage
  quit : Bool

inductive LifeInput (α τ υ : Type) where
  | loop
  | quit
  | test
  | tasks (i : SpawnInput α τ υ)
  | destroy

/-- Functors run inside `loop()`, one `doPendingFunctors` in a pass. The rest happens at any
time before the loop is destroyed. -/
def LoopStage.after {α τ υ : Type} (g : LoopStage) : SpawnInput α τ υ → Option LoopStage
  | .doPendingFunctors | .functor => if g = .passing then some .passing else none
  | .endPendingFunctors => if g = .passing then some .testing else none
  | _ => if g = .destroyed then none else some g

def SpawnLoop.dispose {α τ υ : Type} (s : SpawnLoop α τ υ) : SpawnLoop α τ υ :=
  { s with spawnedTasks := ∅, loop := { s.loop with functors := [], pendingFunctors := [] } }

namespace LoopLife

variable {α τ υ : Type} [DecidableEq α]

def step (s : LoopLife α τ υ) : LifeInput α τ υ → Option (LoopLife α τ υ)
  | .loop => if s.stage = .outside then some { s with stage := .testing, quit := false } else none
  | .quit => if s.stage = .destroyed then none else some { s with quit := true }
  | .test =>
      if s.stage = .testing then
        some { s with stage := if s.quit then .outside else .passing }
      else none
  | .tasks i =>
      match s.stage.after i, s.tasks.step i with
      | some stage, some tasks => some { s with stage, tasks }
      | _, _ => none
  | .destroy =>
      if s.stage = .outside then some { s with stage := .destroyed, tasks := s.tasks.dispose }
      else none

def machine (α τ υ : Type) [DecidableEq α] : Machine (LoopLife α τ υ) (LifeInput α τ υ) := ⟨step⟩

omit [DecidableEq α] in
def new (l : EventLoop υ) : LoopLife α τ υ := ⟨.new l, .outside, false⟩

omit [DecidableEq α] in
/-- Every frame that was spawned has been destroyed, and once. -/
def NoneLeaked (s : LoopLife α τ υ) : Prop :=
  ∀ n < s.tasks.created, (s.tasks.destroyed.map fun d => d.2.id).count n = 1

end LoopLife

/-! ## Every frame is there or destroyed -/

namespace SpawnLoop

variable {α τ υ : Type}

def Accounted (s : SpawnLoop α τ υ) : Prop :=
  ∀ n < s.created, (∃ a f, s.frames a = some f ∧ f.id = n) ∨
    n ∈ s.destroyed.map fun d => d.2.id

variable [DecidableEq α]

/-- A frame changes its status. -/
theorem Accounted.setStatus {s : SpawnLoop α τ υ} (h : s.Accounted) {a : α} {f g : Frame}
    (hf : s.frames a = some f) (hid : g.id = f.id) : (s.setFrame a (some g)).Accounted := by
  intro n hn
  rcases h n hn with ⟨b, k, hk, rfl⟩ | hgone
  · left
    by_cases hb : b = a
    · subst hb
      rw [hf] at hk
      cases hk
      exact ⟨b, g, Function.update_self .., hid⟩
    · exact ⟨b, k, (Function.update_of_ne hb ..).trans hk, rfl⟩
  · exact .inr hgone

theorem Accounted.startTask {s : SpawnLoop α τ υ} (h : s.Accounted) (c : Caller τ) (a : α)
    (n : Nat) : (s.startTask c a n).Accounted := by
  unfold SpawnLoop.startTask
  dsimp only
  split
  · next f hf =>
      split
      · exact h.setStatus (g := { f with status := .running }) hf rfl
      · exact h
  · exact h

theorem Accounted.spawn {s : SpawnLoop α τ υ} (h : s.Accounted) {a : α} (ha : s.frames a = none)
    (c : Caller τ) : (s.spawn c a).Accounted := by
  have hcreated : Accounted ({ s.setFrame a (some ⟨s.created, .created, true⟩) with
      created := s.created + 1 } : SpawnLoop α τ υ) := by
    intro n hn
    rcases Nat.lt_succ_iff_lt_or_eq.1 hn with hold | rfl
    · rcases h n hold with ⟨b, f, hf, hid⟩ | hgone
      · left
        have hb : b ≠ a := by
          rintro rfl
          rw [ha] at hf
          cases hf
        exact ⟨b, f, (Function.update_of_ne hb ..).trans hf, hid⟩
      · exact .inr hgone
    · exact .inl ⟨a, _, Function.update_self .., rfl⟩
  unfold SpawnLoop.spawn
  dsimp only
  split
  · exact hcreated.startTask c a s.created
  · exact hcreated

theorem Accounted.cleanupSpawnedTask {s : SpawnLoop α τ υ} (h : s.Accounted) (c : Caller τ)
    (a : α) (n : Nat) : (s.cleanupSpawnedTask c a n).Accounted := by
  unfold SpawnLoop.cleanupSpawnedTask
  dsimp only
  split
  · split
    · next f hf =>
        intro m hm
        rcases h m hm with ⟨b, g, hg, hid⟩ | hgone
        · by_cases hb : b = a
          · subst hb
            rw [hf] at hg
            cases hg
            exact .inr (by simp [hid])
          · exact .inl ⟨b, g, (Function.update_of_ne hb ..).trans hg, hid⟩
        · right
          rw [List.map_append]
          exact List.mem_append_left _ hgone
    · exact h
  · exact h

theorem step_accounted {s t : SpawnLoop α τ υ} {i : SpawnInput α τ υ} (h : s.Accounted)
    (hstep : s.step i = some t) : t.Accounted := by
  cases i with
  | spawn c a =>
      rcases Option.ite_none_right_eq_some.1 hstep with ⟨ha, ⟨⟩⟩
      exact h.spawn ha c
  | suspend a =>
      rcases of_frame_step hstep with ⟨f, hf, -, rfl⟩
      exact h.setStatus hf rfl
  | resume a =>
      rcases of_frame_step hstep with ⟨f, hf, -, rfl⟩
      exact h.setStatus hf rfl
  | finish c a =>
      rcases of_frame_step hstep with ⟨f, hf, -, rfl⟩
      have hdone := h.setStatus (g := { f with status := .final }) hf rfl
      unfold SpawnLoop.finish
      dsimp only
      split
      · exact hdone
      · exact hdone
  | queueOther inLoopThread x =>
      cases hstep
      exact h
  | doPendingFunctors =>
      rcases Option.ite_none_right_eq_some.1 hstep with ⟨-, ⟨⟩⟩
      exact h
  | functor =>
      simp only [step] at hstep
      split at hstep
      · next k functors hfunctors =>
          rcases Option.ite_none_right_eq_some.1 hstep with ⟨-, hstep⟩
          have htaken : Accounted ({ s with loop := { s.loop with functors } } :
            SpawnLoop α τ υ) := h
          cases k with
          | start a n =>
              cases hstep
              exact htaken.startTask .loopThread a n
          | cleanup a n =>
              cases hstep
              exact htaken.cleanupSpawnedTask .loopThread a n
          | other x =>
              cases hstep
              exact h
      · cases hstep
  | endPendingFunctors =>
      rcases Option.ite_none_right_eq_some.1 hstep with ⟨-, ⟨⟩⟩
      exact h

omit [DecidableEq α] in
/-- All frames are destroyed as soon as none is in `spawnedTasks_` and none is still to be
started. -/
theorem Kept.noneLeft_iff {s : SpawnLoop α τ υ} (h : s.Kept [] []) (hacc : s.Accounted) :
    (∀ n < s.created, (s.destroyed.map fun d => d.2.id).count n = 1) ↔
      s.spawnedTasks = ∅ ∧ s.starts = [] := by
  constructor
  · intro hall
    have hnone : ∀ a, s.frames a = none := by
      intro a
      refine Option.eq_none_iff_forall_ne_some.2 fun f hf => ?_
      have hone := hall f.id (h.numbered.below a f hf)
      obtain ⟨d, hd, hid⟩ := List.mem_map.1 (List.count_pos_iff.1 (hone ▸ Nat.one_pos))
      exact h.numbered.gone d hd a f hf hid.symm
    constructor
    · refine Finset.eq_empty_of_forall_notMem fun a ha => ?_
      obtain ⟨f, hf, -⟩ := (h.tasks a).1 ha
      rw [hnone a] at hf
      cases hf
    · refine List.eq_nil_iff_forall_not_mem.2 fun p hp => ?_
      obtain ⟨f, hf, -⟩ := (h.starts.mem p.1 p.2).1 hp
      rw [hnone p.1] at hf
      cases hf
  · rintro ⟨htasks, hstarts⟩ n hn
    rcases hacc n hn with ⟨a, f, hf, rfl⟩ | hgone
    · by_cases hstatus : f.status = .created
      · have hmem : (a, f.id) ∈ s.starts := (h.starts.mem a f.id).2 ⟨f, hf, rfl, hstatus⟩
        rw [hstarts] at hmem
        cases hmem
      · have hmem : a ∈ s.spawnedTasks := (h.tasks a).2 ⟨f, hf, hstatus⟩
        rw [htasks] at hmem
        exact (Finset.notMem_empty a hmem).elim
    · exact List.count_eq_one_of_mem h.numbered.once hgone

end SpawnLoop

/-! ## Runs -/

namespace LoopLife

variable {α τ υ : Type} [DecidableEq α]

theorem step_kept {s t : LoopLife α τ υ} {i : LifeInput α τ υ}
    (h : s.stage ≠ .destroyed → s.tasks.Kept [] [] ∧ s.tasks.Accounted)
    (hstep : s.step i = some t) :
    t.stage ≠ .destroyed → t.tasks.Kept [] [] ∧ t.tasks.Accounted := by
  cases i with
  | loop =>
      rcases Option.ite_none_right_eq_some.1 hstep with ⟨hstage, ⟨⟩⟩
      intro _
      exact h (by rw [hstage]; simp)
  | quit =>
      rcases Option.ite_none_left_eq_some.1 hstep with ⟨hstage, ⟨⟩⟩
      intro _
      exact h hstage
  | test =>
      rcases Option.ite_none_right_eq_some.1 hstep with ⟨hstage, ⟨⟩⟩
      intro _
      exact h (by rw [hstage]; simp)
  | tasks i =>
      simp only [step] at hstep
      split at hstep
      · next stage tasks hstage htasks =>
          cases hstep
          intro _
          have hlive : s.stage ≠ .destroyed := by
            intro heq
            rw [heq] at hstage
            cases i <;> cases hstage
          rcases h hlive with ⟨hkept, hacc⟩
          exact ⟨SpawnLoop.step_kept hkept htasks, SpawnLoop.step_accounted hacc htasks⟩
      · cases hstep
  | destroy =>
      rcases Option.ite_none_right_eq_some.1 hstep with ⟨-, ⟨⟩⟩
      exact fun hlive => (hlive rfl).elim

/-- Whenever a loop is destroyed, no frame is leaked if and only if `spawnedTasks_` is empty
and no start is queued. -/
theorem noneLeaked_iff (l : EventLoop υ) {is : List (LifeInput α τ υ)} {s t : LoopLife α τ υ}
    (hrun : (machine α τ υ).run (new l) is = some s) (hend : s.step .destroy = some t) :
    t.NoneLeaked ↔ s.tasks.spawnedTasks = ∅ ∧ s.tasks.starts = [] := by
  have hstart : (new l : LoopLife α τ υ).stage ≠ .destroyed →
      (new l : LoopLife α τ υ).tasks.Kept [] [] ∧ (new l : LoopLife α τ υ).tasks.Accounted :=
    fun _ => ⟨SpawnLoop.new_kept l, fun n hn => (Nat.not_lt_zero n hn).elim⟩
  have hinv := (Machine.always_of_invariant (M := machine α τ υ)
    (fun s i t hs hstep => step_kept hs hstep) hstart is).last hrun
  rcases Option.ite_none_right_eq_some.1 hend with ⟨hstage, ⟨⟩⟩
  rcases hinv (by rw [hstage]; simp) with ⟨hkept, hacc⟩
  exact hkept.noneLeft_iff hacc

/-- A pass of `loop()` in which `before` happens at the poll and `after` during the
functors. -/
def passed (before after : List (LifeInput α τ υ)) : List (LifeInput α τ υ) :=
  .test :: before ++ .tasks .doPendingFunctors :: after ++ [.tasks .endPendingFunctors]

def finishedEarly : List (LifeInput Nat Unit Unit) :=
  .tasks (.spawn .loopThread 0) :: .tasks (.finish .loopThread 0) :: .loop ::
    passed [.quit] [.tasks .functor] ++ [.test]

theorem finished_frame_not_leaked : ∃ s t : LoopLife Nat Unit Unit,
    (machine Nat Unit Unit).run (new .new) finishedEarly = some s ∧
      s.step .destroy = some t ∧ t.NoneLeaked := by
  refine ⟨_, _, rfl, rfl, ?_⟩
  have hrun : (machine Nat Unit Unit).run (new .new) finishedEarly = some _ := rfl
  exact (noneLeaked_iff .new hrun rfl).2 ⟨rfl, rfl⟩

/-- The loop quits while two frames are suspended; during its last pass another thread resumes
one of them, which finishes there, and spawns a third. None of the three is ever destroyed. -/
theorem three_frames_leaked : ∃ s t : LoopLife Nat Unit Unit,
    (machine Nat Unit Unit).run (new .new) (.tasks (.spawn .loopThread 0) ::
      .tasks (.suspend 0) :: .tasks (.spawn .loopThread 1) :: .tasks (.suspend 1) :: .loop ::
      passed [.quit] [.tasks (.resume 1), .tasks (.finish (.other ()) 1),
        .tasks (.spawn (.other ()) 2)] ++ [.test]) = some s ∧
      s.step .destroy = some t ∧ t.tasks.created = 3 ∧ t.tasks.destroyed = [] ∧
      ¬ t.NoneLeaked := by
  refine ⟨_, _, rfl, rfl, rfl, rfl, fun h => ?_⟩
  have hzero := h 0 (by decide)
  cases hzero

end LoopLife

end Hayai
