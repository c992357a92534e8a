import Hayai.Machine.Run
import Hayai.Net.Endpoint
import Mathlib.Data.Finset.Erase
import Mathlib.Data.Finset.Insert

/-! # Spawned coroutines

`coro/spawn.h` and the two members of `EventLoop` behind it. A frame is started on its loop's
thread, inline or by a functor. It goes on and finishes on any thread, and a functor that
knows its address only destroys it. The address can then be used again.
-/

namespace Hayai

inductive FrameStatus where
  | created
  | running
  | suspended
  | final
  deriving DecidableEq, Repr

/-- The frame of a `SpawnTask`: its number among all frames, and whether its promise has
`loop_`. -/
structure Frame where
  id : Nat
  status : FrameStatus
  loop : Bool
  deriving DecidableEq, Repr

/-- A handle is an address. The number is that of the frame the functor was queued for; the
code does not know it. -/
inductive SpawnFunctor (α υ : Type) where
  | start (a : α) (n : Nat)
  | cleanup (a : α) (n : Nat)
  | other (x : υ)
  deriving DecidableEq, Repr

/-- `touched` has the thread of every access to `spawnedTasks_`, `started` every frame that was
started and whether `spawnedTasks_` had it then, `destroyed` every frame that was destroyed
with the number it was destroyed for. `missed` is set when a cleanup does not
find its frame, `dangling` when a handle is resumed or destroyed that does not stand for the
frame meant. -/
structure SpawnLoop (α τ υ : Type) where
  loop : EventLoop (SpawnFunctor α υ)
  frames : α → Option Frame
  spawnedTasks : Finset α
  created : Nat
  touched : List (Caller τ)
  started : List (Frame × Bool)
  destroyed : List (Nat × Frame)
  missed : Bool
  dangling : Bool

inductive SpawnInput (α τ υ : Type) where
  | spawn (c : Caller τ) (a : α)
  | suspend (a : α)
  | resume (a : α)
  | finish (c : Caller τ) (a : α)
  | queueOther (inLoopThread : Bool) (x : υ)
  | doPendingFunctors
  | functor
  | endPendingFunctors

def Caller.inLoopThread {τ : Type} : Caller τ → Bool
  | .loopThread => true
  | .other _ => false

namespace SpawnFunctor

variable {α υ : Type}

def start? : SpawnFunctor α υ → Option (α × Nat)
  | .start a n => some (a, n)
  | _ => none

def cleanup? : SpawnFunctor α υ → Option (α × Nat)
  | .cleanup a n => some (a, n)
  | _ => none

end SpawnFunctor

namespace SpawnLoop

variable {α τ υ : Type} [DecidableEq α]

def setFrame (s : SpawnLoop α τ υ) (a : α) (f : Option Frame) : SpawnLoop α τ υ :=
  { s with frames := Function.update s.frames a f }

def startTask (s : SpawnLoop α τ υ) (c : Caller τ) (a : α) (n : Nat) : SpawnLoop α τ υ :=
  let t := { s with spawnedTasks := insert a s.spawnedTasks, touched := s.touched ++ [c] }
  match s.frames a with
  | some f =>
      if f.id = n ∧ f.status = .created then
        { t.setFrame a (some { f with status := .running }) with
          started := s.started ++ [(f, decide (a ∈ t.spawnedTasks))] }
      else { t with dangling := true }
  | none => { t with dangling := true }

/-- `spawn()`: the frame is allocated at `a`, and `EventLoop::spawn` runs or queues its
functor. -/
def spawn (s : SpawnLoop α τ υ) (c : Caller τ) (a : α) : SpawnLoop α τ υ :=
  let n := s.created
  let t := { s.setFrame a (some ⟨n, .created, true⟩) with created := n + 1 }
  if c.inLoopThread then t.startTask c a n
  else { t with loop := t.loop.queueInLoop c.inLoopThread (.start a n) }

def cleanupSpawnedTask (s : SpawnLoop α τ υ) (c : Caller τ) (a : α) (n : Nat) :
    SpawnLoop α τ υ :=
  let t := { s with touched := s.touched ++ [c] }
  if a ∈ s.spawnedTasks then
    match s.frames a with
    | some f => { t.setFrame a none with
        spawnedTasks := s.spawnedTasks.erase a
        destroyed := s.destroyed ++ [(n, f)] }
    | none => { t with spawnedTasks := s.spawnedTasks.erase a, dangling := true }
  else { t with missed := true }

def finish (s : SpawnLoop α τ υ) (c : Caller τ) (a : α) (f : Frame) : SpawnLoop α τ υ :=
  let t := s.setFrame a (some { f with status := .final })
  if f.loop then { t with loop := t.loop.queueInLoop c.inLoopThread (.cleanup a f.id) } else t

/-- A frame is allocated where there is none. A frame that runs can suspend or finish, and one
that is suspended can be resumed, each on whatever thread. -/
def step (s : SpawnLoop α τ υ) : SpawnInput α τ υ → Option (SpawnLoop α τ υ)
  | .spawn c a => if s.frames a = none then some (s.spawn c a) else none
  | .suspend a =>
      match s.frames a with
      | some f =>
          if f.status = .running then some (s.setFrame a (some { f with status := .suspended }))
          else none
      | none => none
  | .resume a =>
      match s.frames a with
      | some f =>
          if f.status = .suspended then some (s.setFrame a (some { f with status := .running }))
          else none
      | none => none
  | .finish c a =>
      match s.frames a with
      | some f => if f.status = .running then some (s.finish c a f) else none
      | none => none
  | .queueOther inLoopThread x =>
      some { s with loop := s.loop.queueInLoop inLoopThread (.other x) }
  | .doPendingFunctors =>
      if s.loop.callingPendingFunctors = false ∧ s.loop.functors = [] then
        some { s with loop := s.loop.beginPendingFunctors }
      else none
  | .functor =>
      match s.loop.functors with
      | k :: functors =>
          if s.loop.callingPendingFunctors = true then
            let t := { s with loop := { s.loop with functors } }
            match k with
            | .start a n => some (t.startTask .loopThread a n)
            | .cleanup a n => some (t.cleanupSpawnedTask .loopThread a n)
            | .other _ => some t
          else none
      | [] => none
  | .endPendingFunctors =>
      if s.loop.callingPendingFunctors = true ∧ s.loop.functors = [] then
        some { s with loop := s.loop.endPendingFunctors }
      else none

def machine (α τ υ : Type) [DecidableEq α] : Machine (SpawnLoop α τ υ) (SpawnInput α τ υ) :=
  ⟨step⟩

omit [DecidableEq α] in
def new (l : EventLoop υ) : SpawnLoop α τ υ where
  loop := l.map .other
  frames := fun _ => none
  spawnedTasks := ∅
  created := 0
  touched := []
  started := []
  destroyed := []
  missed := false
  dangling := false

/-! ## What is asked -/

omit [DecidableEq α] in
def starts (s : SpawnLoop α τ υ) : List (α × Nat) := s.loop.queued.filterMap SpawnFunctor.start?

omit [DecidableEq α] in
def cleanups (s : SpawnLoop α τ υ) : List (α × Nat) :=
  s.loop.queued.filterMap SpawnFunctor.cleanup?

omit [DecidableEq α] in
/-- `spawnedTasks_` has the frames that were started and are still there, each since before
it was started. A cleanup that is queued is for a finished frame that is there, and each frame
was destroyed at most once, finished, and for itself. -/
structure Tended (s : SpawnLoop α τ υ) : Prop where
  tasks : ∀ a, a ∈ s.spawnedTasks ↔ ∃ f, s.frames a = some f ∧ f.status ≠ .created
  touched : ∀ c ∈ s.touched, c = .loopThread
  started : ∀ p ∈ s.started, p.2 = true
  cleanup : ∀ a n, (a, n) ∈ s.cleanups →
    a ∈ s.spawnedTasks ∧ ∃ f, s.frames a = some f ∧ f.id = n ∧ f.status = .final
  found : s.missed = false
  meant : s.dangling = false
  once : (s.destroyed.map fun d => d.2.id).Nodup
  final : ∀ d ∈ s.destroyed, d.2.status = .final ∧ d.2.id = d.1
  gone : ∀ d ∈ s.destroyed, ∀ a f, s.frames a = some f → f.id ≠ d.2.id

end SpawnLoop

/-! ## Frames by their status -/

section Frames

variable {α : Type}

structure Tracks (l : List (α × Nat)) (frames : α → Option Frame) (status : FrameStatus) :
    Prop where
  nodup : l.Nodup
  mem : ∀ a n, (a, n) ∈ l ↔ ∃ f, frames a = some f ∧ f.id = n ∧ f.status = status

def HasStarted (tasks : Finset α) (frames : α → Option Frame) : Prop :=
  ∀ a, a ∈ tasks ↔ ∃ f, frames a = some f ∧ f.status ≠ .created

structure Numbered (frames : α → Option Frame) (created : Nat) (destroyed : List (Nat × Frame)) :
    Prop where
  loop : ∀ a f, frames a = some f → f.loop = true
  below : ∀ a f, frames a = some f → f.id < created
  own : ∀ a b f g, frames a = some f → frames b = some g → f.id = g.id → a = b
  past : ∀ d ∈ destroyed, d.2.id < created
  once : (destroyed.map fun d => d.2.id).Nodup
  gone : ∀ d ∈ destroyed, ∀ a f, frames a = some f → f.id ≠ d.2.id

namespace Tracks

variable {l l' : List (α × Nat)} {frames : α → Option Frame} {status : FrameStatus}

theorem perm (h : Tracks l frames status) (hperm : l.Perm l') : Tracks l' frames status := by
  refine ⟨hperm.nodup_iff.1 h.nodup, fun a n => ?_⟩
  rw [← hperm.mem_iff]
  exact h.mem a n

variable [DecidableEq α]

theorem stay (h : Tracks l frames status) {a : α} {x : Option Frame}
    (hbefore : ∀ f, frames a = some f → f.status ≠ status)
    (hafter : ∀ f, x = some f → f.status ≠ status) :
    Tracks l (Function.update frames a x) status := by
  refine ⟨h.nodup, fun b n => ?_⟩
  rw [h.mem]
  by_cases hb : b = a
  · subst hb
    rw [Function.update_self]
    constructor
    · rintro ⟨f, hf, -, hstatus⟩
      exact (hbefore f hf hstatus).elim
    · rintro ⟨f, hf, -, hstatus⟩
      exact (hafter f hf hstatus).elim
  · rw [Function.update_of_ne hb]

theorem enter (h : Tracks l frames status) {a : α} {f : Frame}
    (hbefore : ∀ g, frames a = some g → g.status ≠ status) (hf : f.status = status) :
    Tracks ((a, f.id) :: l) (Function.update frames a (some f)) status := by
  constructor
  · rw [List.nodup_cons]
    refine ⟨fun hmem => ?_, h.nodup⟩
    obtain ⟨g, hg, -, hstatus⟩ := (h.mem a f.id).1 hmem
    exact hbefore g hg hstatus
  · intro b n
    rw [List.mem_cons, h.mem]
    by_cases hb : b = a
    · subst hb
      rw [Function.update_self]
      constructor
      · rintro (heq | ⟨g, hg, -, hstatus⟩)
        · cases heq
          exact ⟨f, rfl, rfl, hf⟩
        · exact (hbefore g hg hstatus).elim
      · rintro ⟨g, ⟨⟩, rfl, -⟩
        exact .inl rfl
    · rw [Function.update_of_ne hb]
      constructor
      · rintro (heq | hold)
        · cases heq
          exact (hb rfl).elim
        · exact hold
      · exact .inr

theorem leave {a : α} {n : Nat} (h : Tracks ((a, n) :: l) frames status) {x : Option Frame}
    (hafter : ∀ f, x = some f → f.status ≠ status) :
    Tracks l (Function.update frames a x) status := by
  obtain ⟨hnot, hnodup⟩ := List.nodup_cons.1 h.nodup
  obtain ⟨f, hf, hid, -⟩ := (h.mem a n).1 List.mem_cons_self
  refine ⟨hnodup, fun b m => ?_⟩
  by_cases hb : b = a
  · subst hb
    rw [Function.update_self]
    refine iff_of_false (fun hmem => ?_) ?_
    · obtain ⟨g, hg, hid', -⟩ := (h.mem b m).1 (List.mem_cons_of_mem _ hmem)
      rw [hf] at hg
      cases hg
      rw [← hid', hid] at hmem
      exact hnot hmem
    · rintro ⟨g, hg, -, hstatus⟩
      exact hafter g hg hstatus
  · rw [Function.update_of_ne hb, ← h.mem b m, List.mem_cons]
    constructor
    · exact .inr
    · rintro (heq | hmem)
      · cases heq
        exact (hb rfl).elim
      · exact hmem

end Tracks

variable [DecidableEq α] {frames : α → Option Frame}

theorem HasStarted.stay {tasks : Finset α} (h : HasStarted tasks frames) {a : α} {f g : Frame}
    (hf : frames a = some f) (hsame : f.status ≠ .created ↔ g.status ≠ .created) :
    HasStarted tasks (Function.update frames a (some g)) := by
  intro b
  rw [h b]
  by_cases hb : b = a
  · subst hb
    rw [Function.update_self]
    constructor
    · rintro ⟨f', hf', hstatus⟩
      rw [hf] at hf'
      cases hf'
      exact ⟨g, rfl, hsame.1 hstatus⟩
    · rintro ⟨g', ⟨⟩, hstatus⟩
      exact ⟨f, hf, hsame.2 hstatus⟩
  · rw [Function.update_of_ne hb]

theorem HasStarted.create {tasks : Finset α} (h : HasStarted tasks frames) {a : α} {g : Frame}
    (ha : frames a = none) (hg : g.status = .created) :
    HasStarted tasks (Function.update frames a (some g)) := by
  intro b
  rw [h b]
  by_cases hb : b = a
  · subst hb
    rw [Function.update_self]
    refine iff_of_false ?_ ?_
    · rintro ⟨f, hf, -⟩
      rw [ha] at hf
      cases hf
    · rintro ⟨f, ⟨⟩, hstatus⟩
      exact hstatus hg
  · rw [Function.update_of_ne hb]

theorem HasStarted.insert {tasks : Finset α} (h : HasStarted tasks frames) (a : α) {g : Frame}
    (hg : g.status ≠ .created) :
    HasStarted (Insert.insert a tasks) (Function.update frames a (some g)) := by
  intro b
  rw [Finset.mem_insert, h b]
  by_cases hb : b = a
  · subst hb
    rw [Function.update_self]
    exact iff_of_true (.inl rfl) ⟨g, rfl, hg⟩
  · rw [Function.update_of_ne hb]
    simp [hb]

theorem HasStarted.erase {tasks : Finset α} (h : HasStarted tasks frames) (a : α) :
    HasStarted (tasks.erase a) (Function.update frames a none) := by
  intro b
  rw [Finset.mem_erase, h b]
  by_cases hb : b = a
  · subst hb
    simp
  · rw [Function.update_of_ne hb]
    simp [hb]

namespace Numbered

variable {created : Nat} {destroyed : List (Nat × Frame)}

/-- A frame changes its status. -/
theorem setStatus (h : Numbered frames created destroyed) {a : α} {f : Frame}
    (hf : frames a = some f) (status : FrameStatus) :
    Numbered (Function.update frames a (some { f with status })) created destroyed := by
  have hold : ∀ b g, Function.update frames a (some { f with status }) b = some g →
      ∃ g', frames b = some g' ∧ g'.id = g.id ∧ g'.loop = g.loop := by
    intro b g hg
    by_cases hb : b = a
    · subst hb
      rw [Function.update_self] at hg
      cases hg
      exact ⟨f, hf, rfl, rfl⟩
    · rw [Function.update_of_ne hb] at hg
      exact ⟨g, hg, rfl, rfl⟩
  refine ⟨?_, ?_, ?_, h.past, h.once, ?_⟩
  · intro b g hg
    obtain ⟨g', hg', -, hloop⟩ := hold b g hg
    rw [← hloop]
    exact h.loop b g' hg'
  · intro b g hg
    obtain ⟨g', hg', hid, -⟩ := hold b g hg
    rw [← hid]
    exact h.below b g' hg'
  · intro b b' g g' hg hg' heq
    obtain ⟨k, hk, hid, -⟩ := hold b g hg
    obtain ⟨k', hk', hid', -⟩ := hold b' g' hg'
    exact h.own b b' k k' hk hk' (by rw [hid, hid', heq])
  · intro d hd b g hg
    obtain ⟨g', hg', hid, -⟩ := hold b g hg
    rw [← hid]
    exact h.gone d hd b g' hg'

theorem create (h : Numbered frames created destroyed) (a : α) :
    Numbered (Function.update frames a (some ⟨created, .created, true⟩)) (created + 1)
      destroyed := by
  have hcases : ∀ b g, Function.update frames a (some ⟨created, .created, true⟩) b = some g →
      (b = a ∧ g = ⟨created, .created, true⟩) ∨ (b ≠ a ∧ frames b = some g) := by
    intro b g hg
    by_cases hb : b = a
    · subst hb
      rw [Function.update_self] at hg
      cases hg
      exact .inl ⟨rfl, rfl⟩
    · rw [Function.update_of_ne hb] at hg
      exact .inr ⟨hb, hg⟩
  refine ⟨?_, ?_, ?_, fun d hd => Nat.lt_succ_of_lt (h.past d hd), h.once, ?_⟩
  · intro b g hg
    rcases hcases b g hg with ⟨-, rfl⟩ | ⟨-, hg⟩
    · rfl
    · exact h.loop b g hg
  · intro b g hg
    rcases hcases b g hg with ⟨-, rfl⟩ | ⟨-, hg⟩
    · exact Nat.lt_succ_self created
    · exact Nat.lt_succ_of_lt (h.below b g hg)
  · intro b b' g g' hg hg' heq
    rcases hcases b g hg with ⟨rfl, rfl⟩ | ⟨-, hold⟩ <;>
      rcases hcases b' g' hg' with ⟨rfl, rfl⟩ | ⟨-, hold'⟩
    · rfl
    · exact absurd heq (Nat.ne_of_gt (h.below b' g' hold'))
    · exact absurd heq (Nat.ne_of_lt (h.below b g hold))
    · exact h.own b b' g g' hold hold' heq
  · intro d hd b g hg
    rcases hcases b g hg with ⟨-, rfl⟩ | ⟨-, hg⟩
    · exact Nat.ne_of_gt (h.past d hd)
    · exact h.gone d hd b g hg

theorem destroy (h : Numbered frames created destroyed) {a : α} {f : Frame}
    (hf : frames a = some f) (n : Nat) :
    Numbered (Function.update frames a none) created (destroyed ++ [(n, f)]) := by
  have hold : ∀ b g, Function.update frames a none b = some g → b ≠ a ∧ frames b = some g := by
    intro b g hg
    by_cases hb : b = a
    · subst hb
      rw [Function.update_self] at hg
      cases hg
    · rw [Function.update_of_ne hb] at hg
      exact ⟨hb, hg⟩
  refine ⟨fun b g hg => h.loop b g (hold b g hg).2, fun b g hg => h.below b g (hold b g hg).2,
    fun b b' g g' hg hg' => h.own b b' g g' (hold b g hg).2 (hold b' g' hg').2, ?_, ?_, ?_⟩
  · intro d hd
    rcases List.mem_append.1 hd with hd | hd
    · exact h.past d hd
    · rw [List.mem_singleton.1 hd]
      exact h.below a f hf
  · rw [List.map_append, List.nodup_append]
    refine ⟨h.once, by simp, ?_⟩
    rintro i hi j hj rfl
    obtain ⟨d, hd, hid⟩ := List.mem_map.1 hi
    have hj : i = f.id := by simpa using hj
    exact h.gone d hd a f hf (hj.symm.trans hid.symm)
  · intro d hd b g hg heq
    obtain ⟨hb, hg⟩ := hold b g hg
    rcases List.mem_append.1 hd with hd | hd
    · exact h.gone d hd b g hg heq
    · rw [List.mem_singleton.1 hd] at heq
      exact hb (h.own b a g f hg hf heq)

end Numbered

end Frames

namespace SpawnLoop

variable {α τ υ : Type}

/-! ## Steps -/

/-- What holds while the starts `p` and the cleanups `q` have left the queue and not run. -/
structure Kept (s : SpawnLoop α τ υ) (p q : List (α × Nat)) : Prop where
  numbered : Numbered s.frames s.created s.destroyed
  starts : Tracks (p ++ s.starts) s.frames .created
  cleanups : Tracks (q ++ s.cleanups) s.frames .final
  tasks : HasStarted s.spawnedTasks s.frames
  touched : ∀ c ∈ s.touched, c = .loopThread
  started : ∀ d ∈ s.started, d.2 = true
  found : s.missed = false
  meant : s.dangling = false
  final : ∀ d ∈ s.destroyed, d.2.status = .final ∧ d.2.id = d.1

namespace Kept

variable {s : SpawnLoop α τ υ} {p q : List (α × Nat)}

theorem tended (h : s.Kept [] []) : s.Tended where
  tasks := h.tasks
  touched := h.touched
  started := h.started
  cleanup a n hmem := by
    obtain ⟨f, hf, hid, hstatus⟩ := (h.cleanups.mem a n).1 hmem
    refine ⟨(h.tasks a).2 ⟨f, hf, ?_⟩, f, hf, hid, hstatus⟩
    rw [hstatus]
    nofun
  found := h.found
  meant := h.meant
  once := h.numbered.once
  final := h.final
  gone := h.numbered.gone

theorem requeue (h : s.Kept p q) {l : EventLoop (SpawnFunctor α υ)} {p' q' : List (α × Nat)}
    (hstarts : (p ++ s.starts).Perm (p' ++ l.queued.filterMap SpawnFunctor.start?))
    (hcleanups : (q ++ s.cleanups).Perm (q' ++ l.queued.filterMap SpawnFunctor.cleanup?)) :
    ({ s with loop := l } : SpawnLoop α τ υ).Kept p' q' :=
  ⟨h.numbered, h.starts.perm hstarts, h.cleanups.perm hcleanups, h.tasks, h.touched, h.started,
    h.found, h.meant, h.final⟩

/-- Something is queued that was taken before, or is neither a start nor a cleanup. -/
theorem queueInLoop {k : SpawnFunctor α υ}
    (h : s.Kept k.start?.toList k.cleanup?.toList) (inLoopThread : Bool) :
    ({ s with loop := s.loop.queueInLoop inLoopThread k } : SpawnLoop α τ υ).Kept [] [] := by
  apply h.requeue
  · rw [EventLoop.queued_queueInLoop, List.filterMap_append]
    cases k <;> exact List.perm_append_comm
  · rw [EventLoop.queued_queueInLoop, List.filterMap_append]
    cases k <;> exact List.perm_append_comm

theorem take (h : s.Kept [] []) {k : SpawnFunctor α υ} {functors : List (SpawnFunctor α υ)}
    (hfunctors : s.loop.functors = k :: functors) :
    ({ s with loop := { s.loop with functors } } : SpawnLoop α τ υ).Kept k.start?.toList
      k.cleanup?.toList := by
  apply h.requeue
  · rw [SpawnLoop.starts, EventLoop.queued_of_functors hfunctors]
    cases k <;> exact List.Perm.refl _
  · rw [SpawnLoop.cleanups, EventLoop.queued_of_functors hfunctors]
    cases k <;> exact List.Perm.refl _

variable [DecidableEq α]

theorem create (h : s.Kept [] []) {a : α} (ha : s.frames a = none) :
    ({ s.setFrame a (some ⟨s.created, .created, true⟩) with created := s.created + 1 } :
      SpawnLoop α τ υ).Kept [(a, s.created)] [] := by
  have hnone : ∀ {status : FrameStatus} (f : Frame), s.frames a = some f → f.status ≠ status := by
    intro status f hf
    rw [ha] at hf
    cases hf
  refine ⟨h.numbered.create a, ?_, ?_, h.tasks.create ha rfl, h.touched, h.started, h.found,
    h.meant, h.final⟩
  · exact h.starts.enter (f := ⟨s.created, .created, true⟩) hnone rfl
  · apply h.cleanups.stay hnone
    rintro f ⟨⟩
    nofun

theorem startTask {a : α} {n : Nat} (h : s.Kept [(a, n)] []) :
    (s.startTask .loopThread a n).Kept [] [] := by
  obtain ⟨f, hf, rfl, hstatus⟩ := (h.starts.mem a n).1 List.mem_cons_self
  simp only [SpawnLoop.startTask, hf, hstatus, and_self, if_true]
  refine ⟨h.numbered.setStatus hf .running, ?_, ?_, ?_, ?_, ?_, h.found, h.meant, h.final⟩
  · apply h.starts.leave
    rintro g ⟨⟩
    nofun
  · apply h.cleanups.stay
    · intro g hg
      rw [hf] at hg
      cases hg
      rw [hstatus]
      nofun
    · rintro g ⟨⟩
      nofun
  · exact h.tasks.insert a nofun
  · intro c hc
    rcases List.mem_append.1 hc with hc | hc
    · exact h.touched c hc
    · exact List.mem_singleton.1 hc
  · intro d hd
    rcases List.mem_append.1 hd with hd | hd
    · exact h.started d hd
    · rw [List.mem_singleton.1 hd]
      exact decide_eq_true (Finset.mem_insert_self a _)

theorem cleanupSpawnedTask {a : α} {n : Nat} (h : s.Kept [] [(a, n)]) :
    (s.cleanupSpawnedTask .loopThread a n).Kept [] [] := by
  obtain ⟨f, hf, hid, hstatus⟩ := (h.cleanups.mem a n).1 List.mem_cons_self
  have hmem : a ∈ s.spawnedTasks := by
    refine (h.tasks a).2 ⟨f, hf, ?_⟩
    rw [hstatus]
    nofun
  simp only [SpawnLoop.cleanupSpawnedTask, if_pos hmem, hf]
  refine ⟨h.numbered.destroy hf n, ?_, ?_, h.tasks.erase a, ?_, h.started, h.found, h.meant, ?_⟩
  · apply h.starts.stay
    · intro g hg
      rw [hf] at hg
      cases hg
      rw [hstatus]
      nofun
    · nofun
  · apply h.cleanups.leave
    nofun
  · intro c hc
    rcases List.mem_append.1 hc with hc | hc
    · exact h.touched c hc
    · exact List.mem_singleton.1 hc
  · intro d hd
    rcases List.mem_append.1 hd with hd | hd
    · exact h.final d hd
    · rw [List.mem_singleton.1 hd]
      exact ⟨hstatus, hid⟩

theorem setStatus (h : s.Kept [] []) {a : α} {f : Frame} (hf : s.frames a = some f)
    {status : FrameStatus} (hbefore : f.status ≠ .created ∧ f.status ≠ .final)
    (hafter : status ≠ .created ∧ status ≠ .final) :
    (s.setFrame a (some { f with status })).Kept [] [] := by
  have hold : ∀ {status : FrameStatus}, f.status ≠ status → ∀ g, s.frames a = some g →
      g.status ≠ status := by
    intro status hne g hg
    rw [hf] at hg
    cases hg
    exact hne
  refine ⟨h.numbered.setStatus hf status, ?_, ?_, ?_, h.touched, h.started, h.found, h.meant,
    h.final⟩
  · apply h.starts.stay (hold hbefore.1)
    rintro g ⟨⟩
    exact hafter.1
  · apply h.cleanups.stay (hold hbefore.2)
    rintro g ⟨⟩
    exact hafter.2
  · exact h.tasks.stay hf (iff_of_true hbefore.1 hafter.1)

theorem finish (h : s.Kept [] []) {a : α} {f : Frame} (hf : s.frames a = some f)
    (hstatus : f.status = .running) (c : Caller τ) : (s.finish c a f).Kept [] [] := by
  have hold : ∀ {status : FrameStatus}, status ≠ .running → ∀ g, s.frames a = some g →
      g.status ≠ status := by
    intro status hne g hg heq
    rw [hf] at hg
    cases hg
    exact hne (heq.symm.trans hstatus)
  have hdone : (s.setFrame a (some { f with status := .final })).Kept [] [(a, f.id)] := by
    refine ⟨h.numbered.setStatus hf .final, ?_, ?_, ?_, h.touched, h.started, h.found, h.meant,
      h.final⟩
    · apply h.starts.stay (hold nofun)
      rintro g ⟨⟩
      nofun
    · exact h.cleanups.enter (f := { f with status := .final }) (hold nofun) rfl
    · exact h.tasks.stay hf (iff_of_true (by rw [hstatus]; nofun) nofun)
  unfold SpawnLoop.finish
  dsimp only
  rw [if_pos (h.numbered.loop a f hf)]
  exact hdone.queueInLoop (k := .cleanup a f.id) c.inLoopThread

end Kept

/-- A step of the frame at `a`, which has to have the status given. -/
theorem of_frame_step {s t : SpawnLoop α τ υ} {a : α} {status : FrameStatus}
    {g : Frame → SpawnLoop α τ υ}
    (h : (match s.frames a with
      | some f => if f.status = status then some (g f) else none
      | none => none) = some t) :
    ∃ f, s.frames a = some f ∧ f.status = status ∧ g f = t := by
  split at h
  · next f hf =>
      rcases Option.ite_none_right_eq_some.1 h with ⟨hstatus, ht⟩
      exact ⟨f, hf, hstatus, Option.some.inj ht⟩
  · cases h

variable [DecidableEq α]

theorem step_kept {s t : SpawnLoop α τ υ} {i : SpawnInput α τ υ} (h : s.Kept [] [])
    (hstep : s.step i = some t) : t.Kept [] [] := by
  cases i with
  | spawn c a =>
      rcases Option.ite_none_right_eq_some.1 hstep with ⟨ha, ⟨⟩⟩
      have hcreated := h.create ha
      cases c with
      | loopThread => exact hcreated.startTask
      | other t => exact hcreated.queueInLoop (k := .start a s.created) false
  | suspend a =>
      rcases of_frame_step hstep with ⟨f, hf, hstatus, rfl⟩
      apply h.setStatus hf
      · rw [hstatus]
        exact ⟨nofun, nofun⟩
      · exact ⟨nofun, nofun⟩
  | resume a =>
      rcases of_frame_step hstep with ⟨f, hf, hstatus, rfl⟩
      apply h.setStatus hf
      · rw [hstatus]
        exact ⟨nofun, nofun⟩
      · exact ⟨nofun, nofun⟩
  | finish c a =>
      rcases of_frame_step hstep with ⟨f, hf, hstatus, rfl⟩
      exact h.finish hf hstatus c
  | queueOther inLoopThread x =>
      cases hstep
      exact Kept.queueInLoop (k := .other x) h inLoopThread
  | doPendingFunctors =>
      rcases Option.ite_none_right_eq_some.1 hstep with ⟨⟨-, hfunctors⟩, ⟨⟩⟩
      have hqueued := EventLoop.queued_beginPendingFunctors hfunctors
      apply h.requeue
      · rw [hqueued]
        exact List.Perm.refl _
      · rw [hqueued]
        exact List.Perm.refl _
  | functor =>
      simp only [step] at hstep
      split at hstep
      · next k functors hfunctors =>
          rcases Option.ite_none_right_eq_some.1 hstep with ⟨-, hstep⟩
          have htaken := h.take hfunctors
          cases k with
          | start a n =>
              cases hstep
              exact htaken.startTask
          | cleanup a n =>
              cases hstep
              exact htaken.cleanupSpawnedTask
          | other x =>
              cases hstep
              exact htaken
      · cases hstep
  | endPendingFunctors =>
      rcases Option.ite_none_right_eq_some.1 hstep with ⟨-, ⟨⟩⟩
      exact h.requeue (List.Perm.refl _) (List.Perm.refl _)

omit [DecidableEq α] in
theorem new_kept (l : EventLoop υ) : (new l : SpawnLoop α τ υ).Kept [] [] := by
  have hstarts : (new l : SpawnLoop α τ υ).starts = [] := by
    rw [starts, new, EventLoop.queued_map, List.filterMap_map]
    exact List.filterMap_none _
  have hcleanups : (new l : SpawnLoop α τ υ).cleanups = [] := by
    rw [cleanups, new, EventLoop.queued_map, List.filterMap_map]
    exact List.filterMap_none _
  have hnone : ∀ status, Tracks ([] : List (α × Nat)) (fun _ => none) status := by
    intro status
    exact ⟨List.nodup_nil, fun a n => iff_of_false List.not_mem_nil fun ⟨f, hf, _⟩ => nomatch hf⟩
  refine ⟨⟨nofun, nofun, nofun, nofun, List.nodup_nil, nofun⟩, ?_, ?_, ?_, nofun, nofun, rfl, rfl,
    nofun⟩
  · rw [hstarts]
    exact hnone .created
  · rw [hcleanups]
    exact hnone .final
  · exact fun a => iff_of_false (Finset.notMem_empty a) fun ⟨f, hf, _⟩ => nomatch hf

/-- Spawned frames are neither lost nor destroyed early or twice, on whatever threads they are
spawned, go on and finish, and however their addresses are used again. -/
theorem spawned_tended (l : EventLoop υ) (is : List (SpawnInput α τ υ)) :
    (machine α τ υ).Always Tended (new l) is := by
  apply Machine.Always.mono (P := fun s => s.Kept [] [])
  · exact fun s hs => hs.tended
  · apply Machine.always_of_invariant
    · exact fun s i t hs hstep => step_kept hs hstep
    · exact new_kept l

end SpawnLoop

end Hayai
