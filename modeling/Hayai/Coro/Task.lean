import Hayai.Machine.Calls
import Hayai.Machine.Refinement
import Mathlib.Data.List.Nodup
import Mathlib.Data.Nat.Basic
import Mathlib.Logic.Function.Basic

/-! # Tasks

`coro/Task.h`. A `Task` is started when it is awaited. The awaiting frame is the continuation
of the promise, and control goes to it when the task is at its final suspension point. With a
leaf awaiter nothing of the tree runs, until its answer resumes the frame that awaits it.
-/

namespace Hayai

/-- The code of a `Task` coroutine. A `Task<void>` has the value `none`. -/
abbrev TaskBody (σ ρ ε υ : Type) := Code σ ρ ε (Option υ)

/-- `promise_type`. `value_` has no value before `return_value`, and `Task<void>` has none. -/
structure TaskPromise (ε υ : Type) where
  value : Option υ
  exception : Option ε
  continuation : Option Nat

/-- Where a frame is: not started, running, at a leaf awaiter, at the `co_await` of a task, or
done. -/
inductive TaskPoint (σ ρ ε υ : Type) where
  | initial (body : TaskBody σ ρ ε υ)
  | running
  | leaf (k : ρ → TaskBody σ ρ ε υ)
  | awaiting (child : Nat) (k : Except ε (Option υ) → TaskBody σ ρ ε υ)
  | final

structure TaskFrame (σ ρ ε υ : Type) where
  promise : TaskPromise ε υ
  point : TaskPoint σ ρ ε υ

/-- `transfer h` is a handle that `await_suspend` has returned, or that the root was started
with. -/
inductive TaskControl (σ ρ ε υ : Type) where
  | idle
  | running (h : Nat) (c : TaskBody σ ρ ε υ)
  | transfer (h : Nat)

/-- Handles number the frames as they are created, and the root has 0. `awaits` has the
parent and the child of every `co_await` of a task, `continued` the same of every parent
resumed there. `misresumed` is set when control goes to a frame that is not at its
beginning or at the `co_await` of a task, `premature` when the child of that `co_await` is not
done. -/
structure Tasks (σ ρ ε υ : Type) where
  frames : Nat → Option (TaskFrame σ ρ ε υ)
  next : Nat
  control : TaskControl σ ρ ε υ
  mem : σ
  asked : Nat
  awaits : List (Nat × Nat)
  continued : List (Nat × Nat)
  misresumed : Bool
  premature : Bool

/-- `resume h` is the answer to the leaf awaiter that `h` waits for. -/
inductive TaskInput where
  | start
  | step
  | resume (h : Nat)
  deriving DecidableEq, Repr

namespace TaskPromise

variable {ε υ : Type}

def returnValue (p : TaskPromise ε υ) (value : υ) : TaskPromise ε υ := { p with value := some value }

def returnVoid (p : TaskPromise ε υ) : TaskPromise ε υ := p

def coReturn (p : TaskPromise ε υ) : Option υ → TaskPromise ε υ
  | some value => p.returnValue value
  | none => p.returnVoid

def unhandledException (p : TaskPromise ε υ) (e : ε) : TaskPromise ε υ :=
  { p with exception := some e }

def awaitResume (p : TaskPromise ε υ) : Except ε (Option υ) :=
  match p.exception with
  | some e => .error e
  | none => .ok p.value

def empty (continuation : Option Nat) : TaskPromise ε υ := ⟨none, none, continuation⟩

end TaskPromise

namespace TaskPoint

variable {σ ρ ε υ : Type}

def isFinal : TaskPoint σ ρ ε υ → Bool
  | .final => true
  | _ => false

end TaskPoint

namespace Tasks

variable {σ ρ ε υ : Type}

def modify (s : Tasks σ ρ ε υ) (h : Nat) (g : TaskFrame σ ρ ε υ → TaskFrame σ ρ ε υ) :
    Tasks σ ρ ε υ :=
  { s with frames := Function.update s.frames h ((s.frames h).map g) }

def setPoint (s : Tasks σ ρ ε υ) (h : Nat) (point : TaskPoint σ ρ ε υ) : Tasks σ ρ ε υ :=
  s.modify h fun f => { f with point }

def new (body : TaskBody σ ρ ε υ) (mem : σ) : Tasks σ ρ ε υ where
  frames := Function.update (fun _ => none) 0 (some ⟨.empty none, .initial body⟩)
  next := 1
  control := .idle
  mem := mem
  asked := 0
  awaits := []
  continued := []
  misresumed := false
  premature := false

def create (s : Tasks σ ρ ε υ) (body : TaskBody σ ρ ε υ) : Tasks σ ρ ε υ :=
  { s with
    frames := Function.update s.frames s.next (some ⟨.empty none, .initial body⟩)
    next := s.next + 1 }

def awaitSuspend (s : Tasks σ ρ ε υ) (child continuation : Nat) : Tasks σ ρ ε υ :=
  { s.modify child fun f =>
      { f with promise := { f.promise with continuation := some continuation } } with
    control := .transfer child
    awaits := s.awaits ++ [(continuation, child)] }

def coAwait (s : Tasks σ ρ ε υ) (h : Nat) (body : TaskBody σ ρ ε υ)
    (k : Except ε (Option υ) → TaskBody σ ρ ε υ) : Tasks σ ρ ε υ :=
  ((s.create body).setPoint h (.awaiting s.next k)).awaitSuspend s.next h

/-- `FinalAwaiter::await_suspend`; without a continuation it is the no-op coroutine that is
resumed. -/
def finalSuspend (s : Tasks σ ρ ε υ) (h : Nat) : Tasks σ ρ ε υ :=
  { s.setPoint h .final with
    control :=
      match (s.frames h).bind fun f => f.promise.continuation with
      | some continuation => .transfer continuation
      | none => .idle }

def exec (s : Tasks σ ρ ε υ) (h : Nat) : TaskBody σ ρ ε υ → Tasks σ ρ ε υ
  | .ret value =>
      (s.modify h fun f => { f with promise := f.promise.coReturn value }).finalSuspend h
  | .raise e =>
      (s.modify h fun f => { f with promise := f.promise.unhandledException e }).finalSuspend h
  | .act f k => { s with control := .running h (k s.mem), mem := f s.mem }
  | .ask k => { s.setPoint h (.leaf k) with control := .idle }
  | .call body k => s.coAwait h body k

/-- The parent goes on at its `co_await`. The temporary `Task` is destroyed with the child's
frame once it has given its result. -/
def awaitResume (s : Tasks σ ρ ε υ) (h child : Nat)
    (k : Except ε (Option υ) → TaskBody σ ρ ε υ) : Tasks σ ρ ε υ :=
  match s.frames child with
  | some f =>
      let t := s.setPoint h .running
      { t with
        frames := Function.update t.frames child none
        control := .running h (k f.promise.awaitResume)
        continued := s.continued ++ [(h, child)]
        premature := s.premature || !f.point.isFinal }
  | none => { s with control := .idle, premature := true }

def transferTo (s : Tasks σ ρ ε υ) (h : Nat) : Tasks σ ρ ε υ :=
  match s.frames h with
  | some ⟨_, .initial body⟩ => { s.setPoint h .running with control := .running h body }
  | some ⟨_, .awaiting child k⟩ => s.awaitResume h child k
  | _ => { s with control := .idle, misresumed := true }

/-- The leaf awaiter's `await_resume` returns what `answer` gives, in the memory that the
outside leaves. -/
def resumeLeaf (answer : Nat → σ → ρ × σ) (s : Tasks σ ρ ε υ) (h : Nat)
    (k : ρ → TaskBody σ ρ ε υ) : Tasks σ ρ ε υ :=
  { s.setPoint h .running with
    control := .running h (k (answer s.asked s.mem).1)
    mem := (answer s.asked s.mem).2
    asked := s.asked + 1 }

/-- The root is started once. A leaf suspension is resumed through the handle of the frame
that is suspended there. -/
def step (answer : Nat → σ → ρ × σ) (s : Tasks σ ρ ε υ) : TaskInput → Option (Tasks σ ρ ε υ)
  | .start =>
      match s.control, s.frames 0 with
      | .idle, some ⟨_, .initial _⟩ => some { s with control := .transfer 0 }
      | _, _ => none
  | .step =>
      match s.control with
      | .running h c => some (s.exec h c)
      | .transfer h => some (s.transferTo h)
      | .idle => none
  | .resume h =>
      match s.control, s.frames h with
      | .idle, some ⟨_, .leaf k⟩ => some (s.resumeLeaf answer h k)
      | _, _ => none

def machine (answer : Nat → σ → ρ × σ) : Machine (Tasks σ ρ ε υ) TaskInput where
  step s i := s.step answer i

def result (s : Tasks σ ρ ε υ) : Option (Except ε (Option υ)) :=
  match s.frames 0 with
  | some ⟨p, .final⟩ => some p.awaitResume
  | _ => none

structure Finished (o : Calls.Outcome σ ε (Option υ)) (s : Tasks σ ρ ε υ) : Prop where
  result : s.result = some o.result
  asked : s.asked = o.asked
  mem : s.mem = o.mem
  continued : ∀ l ∈ s.awaits, l ∈ s.continued

/-- What holds at any time: frames are resumed only where they wait, and at a `co_await` once,
when the child has its result; where a frame is at a leaf, no other one runs; and the root's
result is that of `o`. -/
structure Sound (o : Calls.Outcome σ ε (Option υ)) (s : Tasks σ ρ ε υ) : Prop where
  resumed : s.misresumed = false
  stored : s.premature = false
  once : s.continued.Nodup
  awaited : ∀ l ∈ s.continued, l ∈ s.awaits
  quiet : ∀ h p k, s.frames h = some ⟨p, .leaf k⟩ → s.control = .idle
  result : s.result.isSome → s.Finished o

/-! ## Frames -/

@[simp] theorem modify_frames_self (s : Tasks σ ρ ε υ) (h : Nat)
    (g : TaskFrame σ ρ ε υ → TaskFrame σ ρ ε υ) :
    (s.modify h g).frames h = (s.frames h).map g := by
  simp [modify]

theorem modify_frames_of_ne (s : Tasks σ ρ ε υ) {h x : Nat} (hx : x ≠ h)
    (g : TaskFrame σ ρ ε υ → TaskFrame σ ρ ε υ) : (s.modify h g).frames x = s.frames x := by
  simp [modify, hx]

theorem setPoint_frames_self {s : Tasks σ ρ ε υ} {h : Nat} {f : TaskFrame σ ρ ε υ}
    (hf : s.frames h = some f) (point : TaskPoint σ ρ ε υ) :
    (s.setPoint h point).frames h = some { f with point } := by
  simp [setPoint, hf]

theorem setPoint_frames_of_ne (s : Tasks σ ρ ε υ) {h x : Nat} (hx : x ≠ h)
    (point : TaskPoint σ ρ ε υ) : (s.setPoint h point).frames x = s.frames x :=
  modify_frames_of_ne s hx _

theorem coAwait_frames_next (s : Tasks σ ρ ε υ) {h : Nat} (hh : h < s.next)
    (body : TaskBody σ ρ ε υ) (k : Except ε (Option υ) → TaskBody σ ρ ε υ) :
    (s.coAwait h body k).frames s.next = some ⟨.empty (some h), .initial body⟩ := by
  simp [coAwait, awaitSuspend, setPoint, modify, create, (Nat.ne_of_lt hh).symm,
    TaskPromise.empty]

theorem coAwait_frames_self {s : Tasks σ ρ ε υ} {h : Nat} {f : TaskFrame σ ρ ε υ}
    (hh : h < s.next) (hf : s.frames h = some f) (body : TaskBody σ ρ ε υ)
    (k : Except ε (Option υ) → TaskBody σ ρ ε υ) :
    (s.coAwait h body k).frames h = some { f with point := .awaiting s.next k } := by
  simp [coAwait, awaitSuspend, setPoint, modify, create, Nat.ne_of_lt hh, hf]

theorem coAwait_frames_of_ne (s : Tasks σ ρ ε υ) {h x : Nat} (hx : x ≠ h) (hnext : x ≠ s.next)
    (body : TaskBody σ ρ ε υ) (k : Except ε (Option υ) → TaskBody σ ρ ε υ) :
    (s.coAwait h body k).frames x = s.frames x := by
  simp [coAwait, awaitSuspend, setPoint, modify, create, hx, hnext]

section Child

variable {s : Tasks σ ρ ε υ} {child : Nat} {f : TaskFrame σ ρ ε υ}

theorem awaitResume_frames_child (hf : s.frames child = some f) (h : Nat)
    (k : Except ε (Option υ) → TaskBody σ ρ ε υ) :
    (s.awaitResume h child k).frames child = none := by
  simp [awaitResume, hf]

theorem awaitResume_frames_self (hf : s.frames child = some f) {h : Nat} (hh : h ≠ child)
    {g : TaskFrame σ ρ ε υ} (hg : s.frames h = some g)
    (k : Except ε (Option υ) → TaskBody σ ρ ε υ) :
    (s.awaitResume h child k).frames h = some { g with point := .running } := by
  simp only [awaitResume, hf, Function.update_of_ne hh]
  exact setPoint_frames_self hg .running

theorem awaitResume_frames_of_ne (hf : s.frames child = some f) {h x : Nat} (hx : x ≠ child)
    (hxh : x ≠ h) (k : Except ε (Option υ) → TaskBody σ ρ ε υ) :
    (s.awaitResume h child k).frames x = s.frames x := by
  simp only [awaitResume, hf, Function.update_of_ne hx]
  exact setPoint_frames_of_ne s hxh .running

end Child

/-! ## The stack of parents -/

/-- The frame `child` has the continuation given. From it the parents go on as the list of
continuations says, each awaiting the one before; the pairs are those of the `co_await`s. -/
inductive Links (frames : Nat → Option (TaskFrame σ ρ ε υ)) :
    Nat → Option Nat → List (Calls.Cont σ ρ ε (Option υ)) → List (Nat × Nat) → Prop where
  | root : Links frames 0 none [] []
  | parent {child p : Nat} {continuation : Option Nat} {k : Calls.Cont σ ρ ε (Option υ)}
      {ks : List (Calls.Cont σ ρ ε (Option υ))} {ls : List (Nat × Nat)} (less : p < child)
      (frame : frames p = some ⟨.empty continuation, .awaiting child k⟩)
      (rest : Links frames p continuation ks ls) :
      Links frames child (some p) (k :: ks) ((p, child) :: ls)

/-- Parents are older than their children, and what happens to younger frames does not
concern them. -/
theorem Links.congr {frames frames' : Nat → Option (TaskFrame σ ρ ε υ)} {child : Nat}
    {continuation : Option Nat} {ks : List (Calls.Cont σ ρ ε (Option υ))}
    {ls : List (Nat × Nat)} (h : Links frames child continuation ks ls)
    (same : ∀ p < child, frames' p = frames p) : Links frames' child continuation ks ls := by
  induction h with
  | root => exact .root
  | @parent child p _ _ _ _ less frame rest ih =>
      exact .parent less ((same p less).trans frame) (ih fun q hq => same q (Nat.lt_trans hq less))

def Up (s : Tasks σ ρ ε υ) (h : Nat) (point : TaskPoint σ ρ ε υ)
    (ks : List (Calls.Cont σ ρ ε (Option υ))) (ls : List (Nat × Nat)) : Prop :=
  ∃ continuation, s.frames h = some ⟨.empty continuation, point⟩ ∧
    Links s.frames h continuation ks ls

theorem Up.congr {s t : Tasks σ ρ ε υ} {h : Nat} {point point' : TaskPoint σ ρ ε υ}
    {ks : List (Calls.Cont σ ρ ε (Option υ))} {ls : List (Nat × Nat)} (up : s.Up h point ks ls)
    (hself : ∀ f, s.frames h = some f → t.frames h = some { f with point := point' })
    (hothers : ∀ x < h, t.frames x = s.frames x) : t.Up h point' ks ls := by
  rcases up with ⟨continuation, hframe, hlinks⟩
  exact ⟨continuation, hself _ hframe, hlinks.congr hothers⟩

theorem Up.setPoint {s : Tasks σ ρ ε υ} {h : Nat} {point : TaskPoint σ ρ ε υ}
    {ks : List (Calls.Cont σ ρ ε (Option υ))} {ls : List (Nat × Nat)} (up : s.Up h point ks ls)
    (point' : TaskPoint σ ρ ε υ) : (s.setPoint h point').Up h point' ks ls :=
  up.congr (fun _ hf => setPoint_frames_self hf point')
    fun _ hx => setPoint_frames_of_ne s (Nat.ne_of_lt hx) point'

/-- Beside the frame `cur`, on which it depends what comes next, there are only frames that
await a child. -/
structure Kept (s : Tasks σ ρ ε υ) (cur : Nat) (ls : List (Nat × Nat)) : Prop where
  others : ∀ h f, s.frames h = some f → h ≠ cur → ∃ child k, f.point = .awaiting child k
  below : ∀ h f, s.frames h = some f → h < s.next
  awaited : ∀ l ∈ s.awaits, l.2 < s.next
  nodup : s.awaits.Nodup
  links : s.awaits.Perm (s.continued ++ ls)
  resumed : s.misresumed = false
  stored : s.premature = false

def Shows (s : Tasks σ ρ ε υ) (cur : Nat) (ls : List (Nat × Nat)) :
    Calls.Control σ ρ ε (Option υ) → Prop
  | .ready c => s.control = .idle ∧ cur = 0 ∧ s.Up cur (.initial c) [] ls
  | .enter c ks => s.control = .transfer cur ∧ s.Up cur (.initial c) ks ls
  | .run c ks => s.control = .running cur c ∧ s.Up cur .running ks ls
  | .wait k ks => s.control = .idle ∧ s.Up cur (.leaf k) ks ls
  | .leave r k ks => ∃ p f, s.control = .transfer p ∧ s.frames cur = some f ∧
      f.point = .final ∧ f.promise.awaitResume = r ∧
        Links s.frames cur (some p) (k :: ks) ls
  | .done r => s.control = .idle ∧ cur = 0 ∧ ls = [] ∧ s.result = some r

def Rel (s : Tasks σ ρ ε υ) (a : Calls.State σ ρ ε (Option υ)) : Prop :=
  ∃ cur ls, s.Kept cur ls ∧ s.Shows cur ls a.control ∧ s.asked = a.asked ∧ s.mem = a.mem

variable {s t : Tasks σ ρ ε υ} {cur : Nat} {ls : List (Nat × Nat)} {answer : Nat → σ → ρ × σ}

theorem Kept.control (kept : s.Kept cur ls) (control : TaskControl σ ρ ε υ) (mem : σ)
    (asked : Nat) : Kept { s with control, mem, asked } cur ls :=
  { kept with }

theorem Kept.modify (kept : s.Kept cur ls) (g : TaskFrame σ ρ ε υ → TaskFrame σ ρ ε υ) :
    (s.modify cur g).Kept cur ls where
  others := by
    intro h f hf hne
    rw [modify_frames_of_ne s hne] at hf
    exact kept.others h f hf hne
  below := by
    intro h f hf
    by_cases hh : h = cur
    · subst hh
      rw [modify_frames_self, Option.map_eq_some_iff] at hf
      rcases hf with ⟨f', hf', -⟩
      exact kept.below h f' hf'
    · rw [modify_frames_of_ne s hh] at hf
      exact kept.below h f hf
  awaited := kept.awaited
  nodup := kept.nodup
  links := kept.links
  resumed := kept.resumed
  stored := kept.stored

theorem Kept.setPoint (kept : s.Kept cur ls) (point : TaskPoint σ ρ ε υ) :
    (s.setPoint cur point).Kept cur ls :=
  kept.modify _

/-- A child that is created and awaited is the current frame; its parent awaits it. -/
theorem Kept.coAwait (kept : s.Kept cur ls) {f : TaskFrame σ ρ ε υ} (hf : s.frames cur = some f)
    (body : TaskBody σ ρ ε υ) (k : Except ε (Option υ) → TaskBody σ ρ ε υ) :
    (s.coAwait cur body k).Kept s.next ((cur, s.next) :: ls) where
  others := by
    intro h g hg hne
    by_cases hh : h = cur
    · subst hh
      rw [coAwait_frames_self (kept.below h f hf) hf] at hg
      cases hg
      exact ⟨s.next, k, rfl⟩
    · rw [coAwait_frames_of_ne s hh hne] at hg
      exact kept.others h g hg hh
  below := by
    intro h g hg
    show h < s.next + 1
    by_cases hnext : h = s.next
    · omega
    · by_cases hh : h = cur
      · have := kept.below cur f hf
        omega
      · rw [coAwait_frames_of_ne s hh hnext] at hg
        have := kept.below h g hg
        omega
  awaited := by
    intro l hl
    show l.2 < s.next + 1
    rcases List.mem_append.1 hl with hold | hnew
    · have := kept.awaited l hold
      omega
    · rw [List.mem_singleton.1 hnew]
      exact Nat.lt_succ_self _
  nodup := by
    have hfresh : (cur, s.next) ∉ s.awaits := fun hmem => Nat.lt_irrefl _ (kept.awaited _ hmem)
    have hconcat := kept.nodup.concat hfresh
    rwa [List.concat_eq_append] at hconcat
  links := by
    have hmoved : (ls ++ [(cur, s.next)]).Perm ((cur, s.next) :: ls) :=
      List.perm_append_singleton _ ls
    have hlinks := kept.links.append_right [(cur, s.next)]
    rw [List.append_assoc] at hlinks
    exact hlinks.trans (hmoved.append_left s.continued)
  resumed := kept.resumed
  stored := kept.stored

/-- A parent that goes on is the current frame, and its child is gone. -/
theorem Kept.awaitResume {p : Nat} (kept : s.Kept cur ((p, cur) :: ls)) {f g : TaskFrame σ ρ ε υ}
    (hf : s.frames cur = some f) (hfinal : f.point = .final) (hg : s.frames p = some g)
    (k : Except ε (Option υ) → TaskBody σ ρ ε υ) : (s.awaitResume p cur k).Kept p ls where
  others := by
    intro h g hg hp
    by_cases hh : h = cur
    · subst hh
      rw [awaitResume_frames_child hf] at hg
      cases hg
    · rw [awaitResume_frames_of_ne hf hh hp] at hg
      exact kept.others h g hg hh
  below := by
    intro h g' hg'
    have hnext : (s.awaitResume p cur k).next = s.next := by
      simp [Tasks.awaitResume, hf, Tasks.setPoint, Tasks.modify]
    rw [hnext]
    by_cases hh : h = cur
    · subst hh
      exact kept.below h f hf
    · by_cases hp : h = p
      · subst hp
        exact kept.below h g hg
      · rw [awaitResume_frames_of_ne hf hh hp] at hg'
        exact kept.below h g' hg'
  awaited := by
    simpa [Tasks.awaitResume, hf, Tasks.setPoint, Tasks.modify] using kept.awaited
  nodup := by
    simpa [Tasks.awaitResume, hf, Tasks.setPoint, Tasks.modify] using kept.nodup
  links := by
    have hlinks := kept.links
    rw [List.append_cons] at hlinks
    simpa [Tasks.awaitResume, hf, Tasks.setPoint, Tasks.modify] using hlinks
  resumed := by
    simpa [Tasks.awaitResume, hf, Tasks.setPoint, Tasks.modify] using kept.resumed
  stored := by
    simp [Tasks.awaitResume, hf, Tasks.setPoint, Tasks.modify, kept.stored, hfinal,
      TaskPoint.isFinal]

/-- Whichever frame does not await a child is the current one. -/
theorem Kept.eq_cur (kept : s.Kept cur ls) {h : Nat} {f : TaskFrame σ ρ ε υ}
    (hf : s.frames h = some f) (hpoint : ∀ child k, f.point ≠ .awaiting child k) : h = cur := by
  by_contra hne
  rcases kept.others h f hf hne with ⟨child, k, hawaiting⟩
  exact hpoint child k hawaiting

/-! ## Each step is one of the calls -/

/-- What a frame does at its end, its promise once having the result `r`: control goes to the
parent, or to nobody when there is none. -/
theorem finish_rel {r : Except ε (Option υ)} {ks : List (Calls.Cont σ ρ ε (Option υ))}
    {g : TaskPromise ε υ → TaskPromise ε υ} (kept : s.Kept cur ls) (up : s.Up cur .running ks ls)
    (hresult : ∀ continuation, (g (.empty continuation)).awaitResume = r)
    (hsame : ∀ p, (g p).continuation = p.continuation) :
    Rel ((s.modify cur fun f => { f with promise := g f.promise }).finalSuspend cur)
      ⟨Calls.returned r ks, s.asked, s.mem⟩ := by
  rcases up with ⟨continuation, hframe, hlinks⟩
  set u := s.modify cur fun f => { f with promise := g f.promise } with hu
  have hfinished : u.frames cur = some ⟨g (.empty continuation), .running⟩ := by
    rw [hu, modify_frames_self, hframe, Option.map_some]
  have hfinal : (u.finalSuspend cur).frames cur = some ⟨g (.empty continuation), .final⟩ :=
    setPoint_frames_self hfinished .final
  have hkept : (u.finalSuspend cur).Kept cur ls :=
    ((kept.modify _).setPoint .final).control _ _ _
  have hcontinuation : (u.frames cur).bind (fun f => f.promise.continuation) = continuation := by
    rw [hfinished]
    exact hsame _
  refine ⟨cur, ls, hkept, ?_, rfl, rfl⟩
  cases hlinks with
  | root =>
      refine ⟨?_, rfl, rfl, ?_⟩
      · simp only [finalSuspend, hcontinuation]
      · simp only [result, hfinal, hresult]
  | @parent _ p _ _ _ _ less frame rest =>
      refine ⟨p, _, ?_, hfinal, rfl, hresult _, ?_⟩
      · simp only [finalSuspend, hcontinuation]
      · apply Links.congr (.parent less frame rest)
        intro q hq
        have hne : q ≠ cur := Nat.ne_of_lt hq
        exact (setPoint_frames_of_ne u hne .final).trans (modify_frames_of_ne s hne _)

theorem coAwait_rel {ks : List (Calls.Cont σ ρ ε (Option υ))} (kept : s.Kept cur ls)
    (up : s.Up cur .running ks ls) (body : TaskBody σ ρ ε υ)
    (k : Calls.Cont σ ρ ε (Option υ)) :
    Rel (s.coAwait cur body k) ⟨.enter body (k :: ks), s.asked, s.mem⟩ := by
  rcases up with ⟨continuation, hframe, hlinks⟩
  have hlt : cur < s.next := kept.below cur _ hframe
  have hself := coAwait_frames_self hlt hframe body k
  have hsame : ∀ q < cur, (s.coAwait cur body k).frames q = s.frames q := by
    intro q hq
    exact coAwait_frames_of_ne s (Nat.ne_of_lt hq) (Nat.ne_of_lt (Nat.lt_trans hq hlt)) body k
  refine ⟨s.next, (cur, s.next) :: ls, kept.coAwait hframe body k, ⟨rfl, some cur, ?_, ?_⟩,
    rfl, rfl⟩
  · exact coAwait_frames_next s hlt body k
  · exact .parent hlt hself (hlinks.congr hsame)

theorem awaitResume_rel {p : Nat} {f : TaskFrame σ ρ ε υ} {k : Calls.Cont σ ρ ε (Option υ)}
    {ks : List (Calls.Cont σ ρ ε (Option υ))} (kept : s.Kept cur ls)
    (hframe : s.frames cur = some f) (hfinal : f.point = .final)
    (hlinks : Links s.frames cur (some p) (k :: ks) ls) :
    Rel (s.transferTo p) ⟨.run (k f.promise.awaitResume) ks, s.asked, s.mem⟩ := by
  cases hlinks with
  | @parent _ _ continuation _ _ ls hless hparent hrest =>
      have htransfer : s.transferTo p = s.awaitResume p cur k := by
        simp only [transferTo, hparent]
      rw [htransfer]
      have hself := awaitResume_frames_self hframe (Nat.ne_of_lt hless) hparent k
      have hsame : ∀ q < p, (s.awaitResume p cur k).frames q = s.frames q := by
        intro q hq
        exact awaitResume_frames_of_ne hframe (Nat.ne_of_lt (Nat.lt_trans hq hless))
          (Nat.ne_of_lt hq) k
      refine ⟨p, ls, kept.awaitResume hframe hfinal hparent k,
        ⟨?_, continuation, hself, hrest.congr hsame⟩, ?_, ?_⟩
      · simp [awaitResume, hframe]
      · simp [awaitResume, hframe, setPoint, modify]
      · simp [awaitResume, hframe, setPoint, modify]

theorem exec_rel {ks : List (Calls.Cont σ ρ ε (Option υ))} (kept : s.Kept cur ls)
    (up : s.Up cur .running ks ls) (c : TaskBody σ ρ ε υ) :
    Rel (s.exec cur c) (Calls.exec ⟨.run c ks, s.asked, s.mem⟩ ks c) := by
  cases c with
  | ret value =>
      apply finish_rel (r := .ok value) (g := fun p => p.coReturn value) kept up
      · intro continuation
        cases value <;> rfl
      · intro p
        cases value <;> rfl
  | raise e =>
      exact finish_rel (r := .error e) (g := fun p => p.unhandledException e) kept up
        (fun _ => rfl) fun _ => rfl
  | act f k => exact ⟨cur, ls, kept.control _ _ _, ⟨rfl, up⟩, rfl, rfl⟩
  | ask k =>
      exact ⟨cur, ls, (kept.setPoint _).control _ _ _, ⟨rfl, up.setPoint _⟩, rfl, rfl⟩
  | call body k => exact coAwait_rel kept up body k

/-- The step of the calls is a step of the frames. -/
theorem Rel.next {a b : Calls.State σ ρ ε (Option υ)} (h : s.Rel a)
    (hnext : Calls.step answer a = some b) : ∃ i t, s.step answer i = some t ∧ t.Rel b := by
  rcases a with ⟨control, asked, mem⟩
  rcases h with ⟨cur, ls, kept, shows, rfl, rfl⟩
  cases control with
  | ready c =>
      cases hnext
      rcases shows with ⟨hidle, rfl, up⟩
      rcases up with ⟨continuation, hframe, hlinks⟩
      refine ⟨.start, { s with control := .transfer 0 }, ?_, 0, ls, kept.control _ _ _, ?_, rfl, rfl⟩
      · simp only [step, hidle, hframe]
      · exact ⟨rfl, continuation, hframe, hlinks⟩
  | enter c ks =>
      cases hnext
      rcases shows with ⟨htransfer, up⟩
      have hstep : s.step answer .step = some (s.transferTo cur) := by
        simp only [step, htransfer]
      refine ⟨.step, s.transferTo cur, hstep, ?_⟩
      have hstart : s.transferTo cur =
          { s.setPoint cur .running with control := .running cur c } := by
        rcases up with ⟨continuation, hframe, -⟩
        simp only [transferTo, hframe]
      rw [hstart]
      exact ⟨cur, ls, (kept.setPoint _).control _ _ _, ⟨rfl, up.setPoint _⟩, rfl, rfl⟩
  | run c ks =>
      cases hnext
      rcases shows with ⟨hrunning, up⟩
      refine ⟨.step, s.exec cur c, ?_, exec_rel kept up c⟩
      simp only [step, hrunning]
  | wait k ks =>
      cases hnext
      rcases shows with ⟨hidle, up⟩
      refine ⟨.resume cur, s.resumeLeaf answer cur k, ?_, ?_⟩
      · rcases up with ⟨continuation, hframe, -⟩
        simp only [step, hidle, hframe]
      · exact ⟨cur, ls, (kept.setPoint _).control _ _ _, ⟨rfl, up.setPoint _⟩, rfl, rfl⟩
  | leave r k ks =>
      cases hnext
      rcases shows with ⟨p, f, htransfer, hframe, hfinal, rfl, hlinks⟩
      refine ⟨.step, s.transferTo p, ?_, awaitResume_rel kept hframe hfinal hlinks⟩
      simp only [step, htransfer]
  | done r => cases hnext

theorem of_step_start (hstep : s.step answer .start = some t) :
    s.control = .idle ∧ ∃ p c, s.frames 0 = some ⟨p, .initial c⟩ := by
  simp only [step] at hstep
  split at hstep
  · next p c hidle hframe => exact ⟨hidle, p, c, hframe⟩
  · cases hstep

theorem of_step_resume {h : Nat} (hstep : s.step answer (.resume h) = some t) :
    s.control = .idle ∧ ∃ p k, s.frames h = some ⟨p, .leaf k⟩ := by
  simp only [step] at hstep
  split at hstep
  · next p k hidle hframe => exact ⟨hidle, p, k, hframe⟩
  · cases hstep

theorem of_step_step (hstep : s.step answer .step = some t) : s.control ≠ .idle := by
  intro hidle
  simp [step, hidle] at hstep

theorem Kept.unique {i j : TaskInput} {u : Tasks σ ρ ε υ} (kept : s.Kept cur ls)
    (hi : s.step answer i = some t) (hj : s.step answer j = some u) : i = j := by
  have hleaf : ∀ h v, s.step answer (.resume h) = some v → h = cur := by
    intro h v hstep
    rcases of_step_resume hstep with ⟨-, p, k, hframe⟩
    exact kept.eq_cur hframe nofun
  have hapart : ∀ h v w, s.step answer .start = some v → s.step answer (.resume h) = some w →
      False := by
    intro h v w hstart hresume
    rcases of_step_start hstart with ⟨-, p, c, hroot⟩
    rcases of_step_resume hresume with ⟨-, q, k, hframe⟩
    obtain rfl := kept.eq_cur hroot nofun
    obtain rfl := kept.eq_cur hframe nofun
    rw [hroot] at hframe
    cases hframe
  cases i with
  | start =>
      cases j with
      | start => rfl
      | step => exact absurd (of_step_start hi).1 (of_step_step hj)
      | resume h => exact (hapart h t u hi hj).elim
  | step =>
      cases j with
      | start => exact absurd (of_step_start hj).1 (of_step_step hi)
      | step => rfl
      | resume h => exact absurd (of_step_resume hj).1 (of_step_step hi)
  | resume h =>
      cases j with
      | start => exact (hapart h u t hj hi).elim
      | step => exact absurd (of_step_resume hi).1 (of_step_step hj)
      | resume h' => rw [hleaf h t hi, hleaf h' u hj]

theorem result_eq_some {r : Except ε (Option υ)} (h : s.result = some r) :
    ∃ p, s.frames 0 = some ⟨p, .final⟩ ∧ p.awaitResume = r := by
  simp only [result] at h
  split at h
  · next p hframe => exact ⟨p, hframe, Option.some.inj h⟩
  · cases h

/-- Once the calls are through, nothing goes on in the frames. -/
theorem Rel.stuck {a : Calls.State σ ρ ε (Option υ)} (h : s.Rel a)
    (hdone : Calls.step answer a = none) (i : TaskInput) : s.step answer i = none := by
  rcases a with ⟨control, asked, mem⟩
  rcases h with ⟨cur, ls, kept, shows, -, -⟩
  cases control with
  | done r =>
      rcases shows with ⟨hidle, rfl, -, hresult⟩
      rcases result_eq_some hresult with ⟨p, hroot, -⟩
      rw [Option.eq_none_iff_forall_ne_some]
      intro t hstep
      cases i with
      | start =>
          rcases of_step_start hstep with ⟨-, q, c, hframe⟩
          rw [hroot] at hframe
          cases hframe
      | step => exact of_step_step hstep hidle
      | resume h =>
          rcases of_step_resume hstep with ⟨-, q, k, hframe⟩
          obtain rfl := kept.eq_cur hframe nofun
          rw [hroot] at hframe
          cases hframe
  | _ => cases hdone

variable (answer) in
def calls : Machine.Bisimulation (machine answer : Machine (Tasks σ ρ ε υ) TaskInput)
    (Calls.machine answer : Machine (Calls.State σ ρ ε (Option υ)) Unit) where
  rel := Rel
  forward := by
    intro s a i t hrel hstep
    cases hnext : Calls.step answer a with
    | none =>
        have hnone := hrel.stuck hnext i
        cases hnone.symm.trans hstep
    | some b =>
        rcases hrel.next hnext with ⟨j, u, hu, hrelu⟩
        rcases hrel with ⟨cur, ls, kept, -⟩
        obtain rfl := kept.unique hstep hu
        cases hu.symm.trans hstep
        exact ⟨(), b, hnext, hrelu⟩
  backward := by
    intro s a j b hrel hstep
    exact hrel.next hstep

/-! ## Awaiting is calling -/

theorem Up.point_eq {h : Nat} {point : TaskPoint σ ρ ε υ} {f : TaskFrame σ ρ ε υ}
    {ks : List (Calls.Cont σ ρ ε (Option υ))} (up : s.Up h point ks ls)
    (hf : s.frames h = some f) : f.point = point := by
  rcases up with ⟨continuation, hframe, -⟩
  rw [hframe] at hf
  cases hf
  rfl

/-- A frame at a leaf is the current one, and then the calls wait. -/
theorem Rel.quiet {a : Calls.State σ ρ ε (Option υ)} (h : s.Rel a) {x : Nat}
    {p : TaskPromise ε υ} {k : ρ → TaskBody σ ρ ε υ} (hleaf : s.frames x = some ⟨p, .leaf k⟩) :
    s.control = .idle := by
  rcases a with ⟨control, asked, mem⟩
  rcases h with ⟨cur, ls, kept, shows, -, -⟩
  obtain rfl := kept.eq_cur hleaf nofun
  cases control with
  | ready c => exact shows.1
  | enter c ks => cases shows.2.point_eq hleaf
  | run c ks => cases shows.2.point_eq hleaf
  | wait k ks => exact shows.1
  | leave r k ks =>
      rcases shows with ⟨p, f, -, hframe, hfinal, -⟩
      rw [hleaf] at hframe
      cases hframe
      cases hfinal
  | done r => exact shows.1

theorem Rel.done {a : Calls.State σ ρ ε (Option υ)} (h : s.Rel a) {r : Except ε (Option υ)}
    (hresult : s.result = some r) :
    a = ⟨.done r, s.asked, s.mem⟩ ∧ ∀ l ∈ s.awaits, l ∈ s.continued := by
  rcases a with ⟨control, asked, mem⟩
  rcases h with ⟨cur, ls, kept, shows, rfl, rfl⟩
  rcases result_eq_some hresult with ⟨p, hroot, -⟩
  obtain rfl := kept.eq_cur hroot nofun
  cases control with
  | ready c => cases shows.2.2.point_eq hroot
  | enter c ks => cases shows.2.point_eq hroot
  | run c ks => cases shows.2.point_eq hroot
  | wait k ks => cases shows.2.point_eq hroot
  | leave r' k ks =>
      rcases shows with ⟨q, f, -, -, -, -, hlinks⟩
      cases hlinks with
      | parent less frame rest => exact absurd less (Nat.not_lt_zero q)
  | done r' =>
      rcases shows with ⟨-, -, rfl, hr'⟩
      rw [hresult] at hr'
      cases hr'
      refine ⟨rfl, fun l hl => ?_⟩
      simpa using kept.links.mem_iff.1 hl

variable (answer) in
theorem Rel.sound {a : Calls.State σ ρ ε (Option υ)} {o : Calls.Outcome σ ε (Option υ)}
    (h : s.Rel a) (houtcome : a.outcome answer = o) : s.Sound o := by
  have hrel := h
  rcases h with ⟨cur, ls, kept, -⟩
  constructor
  · exact kept.resumed
  · exact kept.stored
  · exact (List.nodup_append.1 (kept.links.nodup_iff.1 kept.nodup)).1
  · exact fun l hl => kept.links.mem_iff.2 (List.mem_append_left ls hl)
  · exact fun x p k hleaf => hrel.quiet hleaf
  · intro hsome
    rcases Option.isSome_iff_exists.1 hsome with ⟨r, hr⟩
    rcases hrel.done hr with ⟨rfl, hcontinued⟩
    subst houtcome
    exact ⟨hr, rfl, rfl, hcontinued⟩

theorem new_rel (body : TaskBody σ ρ ε υ) (mem : σ) : (new body mem).Rel ⟨.ready body, 0, mem⟩ := by
  have honly : ∀ h f, (new body mem).frames h = some f → h = 0 := by
    intro h f hf
    by_contra hne
    have hnone : (new body mem).frames h = none := by simp [new, hne]
    cases hnone.symm.trans hf
  refine ⟨0, [], ?_, ⟨rfl, rfl, none, ?_, .root⟩, rfl, rfl⟩
  · constructor
    · exact fun h f hf hne => absurd (honly h f hf) hne
    · intro h f hf
      rw [honly h f hf]
      exact Nat.zero_lt_one
    · exact nofun
    · exact .nil
    · exact .nil
    · rfl
    · rfl
  · simp [new]

/-- Along any run the frames keep to their protocol. The run is part of one that ends, with the
root's result, its memory and its answers as when the root is called and evaluated. -/
theorem await_is_call (answer : Nat → σ → ρ × σ) (body : TaskBody σ ρ ε υ) (mem : σ) :
    (∀ is, (machine answer).Always (Sound (Calls.eval answer body 0 mem)) (new body mem) is) ∧
      ∃ whole last, (machine answer).run (new body mem) whole = some last ∧
        last.Finished (Calls.eval answer body 0 mem) ∧
        ∀ is t, (machine answer).run (new body mem) is = some t → is <+: whole := by
  have hnew := new_rel body mem
  constructor
  · intro is
    apply Machine.Always.mono _ ((calls answer).always hnew is)
    rintro t ⟨b, hreach, hrel⟩
    exact hrel.sound answer (Calls.reaches_outcome hreach)
  · rcases (calls answer).reaches hnew (Calls.ready_reaches body mem) with
      ⟨last, ⟨whole, hwhole⟩, hrel⟩
    have hsound := hrel.sound answer rfl
    have hdone : last.result.isSome := by
      rcases hrel with ⟨cur, ls, kept, ⟨-, -, -, hresult⟩, -⟩
      rw [hresult]
      rfl
    refine ⟨whole, last, hwhole, hsound.result hdone, fun is t hrun => ?_⟩
    apply Machine.run_prefix (I := fun s => ∃ a, s.Rel a) _ _ ⟨_, hnew⟩ hwhole _ hrun
    · rintro s i t ⟨a, hrela⟩ hstep
      rcases (calls answer).forward hrela hstep with ⟨-, b, -, hrelb⟩
      exact ⟨b, hrelb⟩
    · rintro s i j t u ⟨a, cur, ls, kept, -⟩ hi hj
      exact kept.unique hi hj
    · exact hrel.stuck rfl

/-- A parent that doubles what its child returns, after it has caught the exception of another
child, which waits at a leaf. -/
example :
    let thrower : TaskBody Unit Nat String Nat := .ask fun n => .raise (toString n)
    let body : TaskBody Unit Nat String Nat :=
      .call thrower fun _ => .call (.ret (some 10)) fun
        | .ok value => .ret (value.map (2 * ·))
        | .error e => .raise e
    ((machine fun n _ => (n, ())).run (new body ())
      [.start, .step, .step, .step, .step, .resume 1, .step, .step, .step, .step, .step, .step,
        .step]).bind result =
      some (.ok (some 20)) := rfl

end Tasks

end Hayai
