import Hayai.Coro.Task

/-! # Running a task to its end

`Task::get` resumes the handle of its own frame until that frame is done, whichever frame of
the tree is suspended. While a child is suspended the frame of the root is at a `co_await`,
and resuming it there reads the child's result.
-/

namespace Hayai.Tasks

variable {σ ε υ : Type}

/-! ## The model -/

/-- `SuspendAlways`: its `await_resume` returns nothing, and nothing happens meanwhile. -/
def suspendAlways : Nat → σ → Unit × σ := Calls.atOnce ()

/-- A step inside `get()` on the root: the frames go on until none of them runs, and unless
`handle_.done()` the handle is resumed. -/
def getStep (s : Tasks σ Unit ε υ) : Option (Tasks σ Unit ε υ) :=
  match s.control with
  | .running h c => some (s.exec h c)
  | .transfer h => some (s.transferTo h)
  | .idle =>
      match s.frames 0 with
      | some ⟨_, .initial _⟩ => some { s with control := .transfer 0 }
      | some ⟨_, .awaiting _ _⟩ => some { s with control := .transfer 0 }
      | some ⟨_, .leaf k⟩ => some (s.resumeLeaf suspendAlways 0 k)
      | _ => none

def getMachine (σ ε υ : Type) : Machine (Tasks σ Unit ε υ) Unit where
  step s _ := s.getStep

/-- `get()` comes to its end, with the result that the tree has without its suspensions, and
no result was read before it was there. -/
def GetComputes (body : TaskBody σ Unit ε υ) (mem : σ) : Prop :=
  ∃ t, (getMachine σ ε υ).Reaches (new body mem) t ∧ t.getStep = none ∧
    t.result = some (Calls.eval suspendAlways (Calls.answered () body) 0 mem).result ∧
    t.mem = (Calls.eval suspendAlways (Calls.answered () body) 0 mem).mem ∧
    t.premature = false

/-! ## Premature reads are not forgotten -/

variable {s t : Tasks σ Unit ε υ} {cur : Nat} {ls : List (Nat × Nat)}

theorem premature_awaitResume (h child : Nat)
    (k : Except ε (Option υ) → TaskBody σ Unit ε υ) (hs : s.premature = true) :
    (s.awaitResume h child k).premature = true := by
  unfold awaitResume
  split
  · dsimp only
    rw [hs, Bool.true_or]
  · rfl

theorem premature_transferTo (h : Nat) (hs : s.premature = true) :
    (s.transferTo h).premature = true := by
  unfold transferTo
  split
  · exact hs
  · exact premature_awaitResume _ _ _ hs
  · exact hs

theorem premature_exec (h : Nat) (c : TaskBody σ Unit ε υ) (hs : s.premature = true) :
    (s.exec h c).premature = true := by
  cases c <;> exact hs

theorem premature_getStep (hs : s.premature = true) (hstep : s.getStep = some t) :
    t.premature = true := by
  unfold getStep at hstep
  split at hstep
  · cases hstep
    exact premature_exec _ _ hs
  · cases hstep
    exact premature_transferTo _ hs
  · split at hstep
    · cases hstep
      exact hs
    · cases hstep
      exact hs
    · cases hstep
      exact hs
    · cases hstep

theorem premature_reaches (hs : s.premature = true) (h : (getMachine σ ε υ).Reaches s t) :
    t.premature = true := by
  rcases h with ⟨is, his⟩
  have hkept := Machine.always_of_invariant (I := fun s : Tasks σ Unit ε υ => s.premature = true)
    (M := getMachine σ ε υ) (fun _ _ _ hs hstep => premature_getStep hs hstep) hs is
  exact hkept.last his

/-! ## The loop of `get()` goes through the calls -/

/-- What the step of the tree does, a step of `get()` does too: a leaf is resumed only in the
root. -/
theorem getStep_of_step {i : TaskInput} (hstep : s.step suspendAlways i = some t)
    (hroot : ∀ h, i = .resume h → h = 0) : s.getStep = some t := by
  cases i with
  | start =>
      rcases of_step_start hstep with ⟨hidle, p, c, hframe⟩
      simp only [step, hidle, hframe] at hstep
      simp only [getStep, hidle, hframe]
      exact hstep
  | step =>
      simp only [step] at hstep
      unfold getStep
      split at hstep
      · next h c hrunning => rw [hrunning]; exact hstep
      · next h htransfer => rw [htransfer]; exact hstep
      · cases hstep
  | resume h =>
      obtain rfl := hroot h rfl
      rcases of_step_resume hstep with ⟨hidle, p, k, hframe⟩
      simp only [step, hidle, hframe] at hstep
      simp only [getStep, hidle, hframe]
      exact hstep

theorem Rel.leaf_root {a b : Calls.State σ Unit ε (Option υ)} (h : s.Rel a)
    (hnext : Calls.ownStep suspendAlways a = some b) {x : Nat} {p : TaskPromise ε υ}
    {k : Unit → TaskBody σ Unit ε υ} (hleaf : s.frames x = some ⟨p, .leaf k⟩) : x = 0 := by
  rcases a with ⟨control, asked, mem⟩
  rcases h with ⟨cur, ls, kept, shows, -, -⟩
  obtain rfl := kept.eq_cur hleaf nofun
  cases control with
  | ready c => exact shows.2.1
  | enter c ks => cases shows.2.point_eq hleaf
  | run c ks => cases shows.2.point_eq hleaf
  | wait k ks =>
      cases ks with
      | nil =>
          rcases shows with ⟨-, continuation, -, hlinks⟩
          cases hlinks
          rfl
      | cons k' ks => cases hnext
  | leave r k ks =>
      rcases shows with ⟨q, f, -, hframe, hfinal, -⟩
      rw [hleaf] at hframe
      cases hframe
      cases hfinal
  | done r => cases hnext

theorem Rel.getStep {a b : Calls.State σ Unit ε (Option υ)} (h : s.Rel a)
    (hnext : Calls.ownStep suspendAlways a = some b) : ∃ t, s.getStep = some t ∧ t.Rel b := by
  have hstep : Calls.step suspendAlways a = some b := by
    unfold Calls.ownStep at hnext
    split at hnext
    · cases hnext
    · exact hnext
  rcases h.next hstep with ⟨i, t, ht, hrel⟩
  refine ⟨t, getStep_of_step ht ?_, hrel⟩
  rintro x rfl
  rcases of_step_resume ht with ⟨-, p, k, hleaf⟩
  exact h.leaf_root hnext hleaf

theorem Rel.getReaches {a b : Calls.State σ Unit ε (Option υ)} (h : s.Rel a)
    (hreach : (Calls.ownMachine suspendAlways).Reaches a b) :
    ∃ t, (getMachine σ ε υ).Reaches s t ∧ t.Rel b := by
  rcases hreach with ⟨is, his⟩
  induction is generalizing s a with
  | nil =>
      cases his
      exact ⟨s, .refl s, h⟩
  | cons i is ih =>
      rcases Option.bind_eq_some_iff.1 his with ⟨c, hc, hrest⟩
      rcases h.getStep hc with ⟨u, hu, hrel⟩
      rcases ih hrel hrest with ⟨t, hut, ht⟩
      exact ⟨t, .head (i := ()) hu hut, ht⟩

/-! ## A child that waits is read at once -/

/-- The last of the parents is the root. -/
theorem Links.root_awaits {frames : Nat → Option (TaskFrame σ Unit ε υ)} {child : Nat}
    {continuation : Option Nat} {ks : List (Calls.Cont σ Unit ε (Option υ))}
    (h : Links frames child continuation ks ls) (hks : ks ≠ []) :
    ∃ c k, frames 0 = some ⟨.empty none, .awaiting c k⟩ := by
  induction h with
  | root => exact absurd rfl hks
  | @parent child p _ k _ _ less frame rest ih =>
      cases rest with
      | root => exact ⟨child, k, frame⟩
      | parent less' frame' rest' => exact ih (List.cons_ne_nil _ _)

/-- While called code waits, `get()` resumes the root at its `co_await`, and the result that
it reads there is not there yet. -/
theorem Rel.get_premature {a : Calls.State σ Unit ε (Option υ)} (h : s.Rel a)
    (hwaits : a.WaitsBelow) : ∃ u, (getMachine σ ε υ).Reaches s u ∧ u.premature = true := by
  rcases a with ⟨control, asked, mem⟩
  rcases hwaits with ⟨k, k', ks, rfl⟩
  rcases h with ⟨cur, ls, kept, ⟨hidle, continuation, hleaf, hlinks⟩, -, -⟩
  rcases hlinks.root_awaits (List.cons_ne_nil _ _) with ⟨child, kroot, hroot⟩
  have hresume : s.getStep = some { s with control := .transfer 0 } := by
    simp only [Tasks.getStep, hidle, hroot]
  have hread : Tasks.getStep { s with control := .transfer 0 } =
      some (awaitResume { s with control := .transfer 0 } 0 child kroot) := by
    simp only [Tasks.getStep, transferTo, hroot]
  refine ⟨_, .head (i := ()) hresume (.head (i := ()) hread (.refl _)), ?_⟩
  unfold awaitResume
  dsimp only
  split
  · next f hf =>
      have hnot : f.point.isFinal = false := by
        by_cases hcur : child = cur
        · subst hcur
          rw [hleaf] at hf
          cases hf
          rfl
        · rcases kept.others child f hf hcur with ⟨c, kc, hawaiting⟩
          rw [hawaiting]
          rfl
      dsimp only
      rw [hnot, Bool.not_false, Bool.or_true]
  · rfl

/-! ## The result of `get()` -/

theorem enter_reaches {a : Calls.State σ Unit ε (Option υ)} {body : TaskBody σ Unit ε υ}
    {mem : σ} (h : (Calls.ownMachine suspendAlways).Reaches ⟨.run body [], 0, mem⟩ a) :
    (Calls.ownMachine suspendAlways).Reaches ⟨.ready body, 0, mem⟩ a :=
  .head (i := ()) rfl (.head (i := ()) rfl h)

/-- Where a frame other than the root waits, some result is read too early. -/
theorem premature_of_not_asksItself {body : TaskBody σ Unit ε υ} {mem : σ}
    (hnot : ¬ Calls.AsksItself () body mem) :
    ∃ u, (getMachine σ ε υ).Reaches (new body mem) u ∧ u.premature = true := by
  rcases Calls.not_own_reaches () body 0 mem hnot with ⟨a, hreach, hwaits⟩
  rcases (new_rel body mem).getReaches (enter_reaches hreach) with ⟨s, hs, hrel⟩
  rcases hrel.get_premature hwaits with ⟨u, hu, hpremature⟩
  exact ⟨u, hs.trans hu, hpremature⟩

theorem not_getComputes {body : TaskBody σ Unit ε υ} {mem : σ}
    (hnot : ¬ Calls.AsksItself () body mem) : ¬ GetComputes body mem := by
  rintro ⟨t, ht, hstuck, -, -, hgood⟩
  rcases premature_of_not_asksItself hnot with ⟨u, hu, hpremature⟩
  have hbad := premature_reaches hpremature (ht.of_stuck (fun _ => hstuck) hu)
  rw [hgood] at hbad
  cases hbad

/-- `get()` gives what the tree computes without its suspensions if and only if none but the
root suspends on the way. -/
theorem getComputes_iff_asksItself (body : TaskBody σ Unit ε υ) (mem : σ) :
    GetComputes body mem ↔ Calls.AsksItself () body mem := by
  constructor
  · intro h
    by_contra hnot
    exact not_getComputes hnot h
  · intro hown
    have hreach := enter_reaches (Calls.own_reaches () body 0 mem hown)
    rcases (new_rel body mem).getReaches hreach with ⟨t, ht, cur, ls, kept, shows, -, hmem⟩
    rcases shows with ⟨hidle, -, -, hresult⟩
    have hanswered := Calls.eval_answered () body 0 0 mem
    refine ⟨t, ht, ?_, ?_, ?_, kept.stored⟩
    · rcases result_eq_some hresult with ⟨p, hroot, -⟩
      simp only [Tasks.getStep, hidle, hroot]
    · rw [hresult]
      exact congrArg (fun o => some o.result) hanswered.symm
    · rw [hmem]
      exact (congrArg Calls.Outcome.mem hanswered).symm

def slowChild : TaskBody Unit Unit Unit Nat :=
  .call (.ask fun _ => .ret (some 7)) fun
    | .ok value => .ret value
    | .error e => .raise e

/-- The parent returns the value that the child has not stored yet. -/
theorem slow_child_not_computed :
    (∃ t, (getMachine Unit Unit Nat).run (new slowChild ()) (List.replicate 8 ()) = some t ∧
      t.getStep = none ∧ t.premature = true ∧ t.result = some (.ok none)) ∧
      (Calls.eval suspendAlways (Calls.answered () slowChild) 0 ()).result = .ok (some 7) ∧
      ¬ GetComputes slowChild () := by
  refine ⟨⟨_, rfl, rfl, rfl, rfl⟩, rfl, not_getComputes ?_⟩
  rintro ⟨hzero, -⟩
  cases hzero

end Hayai.Tasks
