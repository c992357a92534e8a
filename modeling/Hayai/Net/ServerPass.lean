import Hayai.Machine.Run
import Hayai.Net.TcpServer

/-! # The pass of one loop

What the steps of a server do to the part of a loop that belongs to its current pass: the
callbacks still to run, and the two flags that tell handling from running functors.
-/

namespace Hayai

namespace Server

variable {τ υ : Type}

structure SamePass (s t : Server τ υ) (l : Nat) : Prop where
  todo : (t.loops l).todo = (s.loops l).todo
  handling : (t.loops l).loop.eventHandling = (s.loops l).loop.eventHandling
  calling : (t.loops l).loop.callingPendingFunctors = (s.loops l).loop.callingPendingFunctors

theorem SamePass.of_loops {s t : Server τ υ} {l : Nat} (h : t.loops = s.loops) :
    s.SamePass t l := by
  constructor <;> rw [h]

theorem SamePass.trans {s t u : Server τ υ} {l : Nat} (h : s.SamePass t l)
    (h' : t.SamePass u l) : s.SamePass u l :=
  ⟨h'.todo.trans h.todo, h'.handling.trans h.handling, h'.calling.trans h.calling⟩

@[simp] theorem loops_setLoop_self (s : Server τ υ) (l : Nat) (loop : EventLoop (Task τ υ)) :
    (s.setLoop l loop).loops l = ⟨loop, (s.loops l).todo⟩ := by
  simp [setLoop]

/-- What changes a loop's queues and nothing else keeps every pass. -/
theorem SamePass.setLoop {s : Server τ υ} {l m : Nat} {loop : EventLoop (Task τ υ)}
    (hhandling : loop.eventHandling = (s.loops m).loop.eventHandling)
    (hcalling : loop.callingPendingFunctors = (s.loops m).loop.callingPendingFunctors) :
    s.SamePass (s.setLoop m loop) l := by
  by_cases hl : l = m
  · subst hl
    constructor
    · simp [Server.setLoop]
    · simpa [Server.setLoop] using hhandling
    · simpa [Server.setLoop] using hcalling
  · constructor <;> simp [Server.setLoop, loops_setIo_of_ne hl]

/-- A step of loop `m` that only works on its own loop leaves the pass of `l` alone. -/
theorem SamePass.setIo_of_ne {s : Server τ υ} {l m : Nat} (h : l ≠ m) (io : IoLoop τ υ) :
    s.SamePass (s.setIo m io) l := by
  constructor <;> simp [loops_setIo_of_ne h]

/-- The callbacks of a pass come from channels that were reported. -/
theorem mem_todo_poll {s : Server τ υ} {l : Nat} {events : List (KEvent (Option Nat))}
    {p : Option Nat × Callback} (hp : p ∈ ((s.poll l events).loops l).todo) :
    ∃ e ∈ events, e.udata = p.1 := by
  have htodo : p ∈ (Poller.fillActiveChannels s.channels events).2.flatMap fun k =>
      (((Poller.fillActiveChannels s.channels events).1 k).handleEvent true).map (Prod.mk k) := by
    simpa [Server.poll] using hp
  rcases List.mem_flatMap.1 htodo with ⟨k, hk, hkind⟩
  rcases List.mem_map.1 hkind with ⟨kind, -, rfl⟩
  rw [Poller.fillActiveChannels_active] at hk
  exact List.mem_map.1 hk

/-! ## Members -/

variable [DecidableEq τ]

theorem loops_exec (s : Server τ υ) (θ : Thread τ) (c : Nat) (op : Op (Thread τ)) :
    (s.exec θ c op).loops = s.loops := by
  unfold exec
  split
  · rfl
  · dsimp only
    split <;> rfl

theorem loops_removeConnectionInLoop (s : Server τ υ) (θ : Thread τ) (c : Nat) :
    (s.removeConnectionInLoop θ c).loops = s.loops := by
  unfold removeConnectionInLoop
  split
  · dsimp only
    split <;> rfl
  · rfl

theorem loops_perform (s : Server τ υ) (θ : Thread τ) (w : WriteResult) (k : Task τ υ) :
    (s.perform θ w k).loops = s.loops := by
  cases k with
  | conn c f => exact loops_exec s θ c (f.op w)
  | removeConnectionInLoop c => exact loops_removeConnectionInLoop s θ c
  | stop => rfl
  | user x => rfl

theorem loops_call (s : Server τ υ) (θ : Thread τ) (c : Nat) (k : Call) :
    (s.call θ c k).loops = s.loops := by
  cases k <;> simp only [call] <;> split <;> rfl

omit [DecidableEq τ] in
theorem loops_getNextLoop (s : Server τ υ) : s.getNextLoop.2.loops = s.loops := by
  unfold getNextLoop
  split <;> rfl

omit [DecidableEq τ] in
theorem loops_register (s : Server τ υ) (θ : Thread τ) (sockfd l : Nat) :
    (s.register θ sockfd l).loops = s.loops := rfl

theorem loops_runInLoop (s : Server τ υ) (θ : Thread τ) (l : Nat) (k : Task τ υ) :
    (s.runInLoop θ l k).loops = s.loops := rfl

theorem loops_newConnection (s : Server τ υ) (θ : Thread τ) (sockfd : Nat) :
    (s.newConnection θ sockfd).loops = s.loops := by
  unfold newConnection
  split
  · dsimp only
    rw [loops_runInLoop, loops_register, loops_getNextLoop]
  · rfl

theorem samePass_push (s : Server τ υ) (θ : Thread τ) (m : Nat) (k : Task τ υ) (l : Nat) :
    s.SamePass (s.push θ m k) l := by
  have hloop : s.SamePass (s.setLoop m ((s.loops m).loop.queueInLoop (θ = .loop m) k)) l := by
    apply SamePass.setLoop <;> rw [EventLoop.queueInLoop_eq_push] <;> split <;> rfl
  exact hloop.trans (.of_loops rfl)

theorem samePass_deliver (s : Server τ υ) (θ : Thread τ) (w : WriteResult) (j : Job τ υ)
    (l : Nat) : s.SamePass (s.deliver θ w j) l := by
  have hflight : s.SamePass (s.setFlight θ none) l := .of_loops rfl
  unfold deliver
  dsimp only
  split
  · exact hflight.trans (.of_loops (loops_perform _ θ w j.task))
  · exact hflight.trans (samePass_push _ θ j.loop j.task l)

omit [DecidableEq τ] in
theorem todo_callback {s t u : Server τ υ} {l : Nat} {todo : List (Option Nat × Callback)}
    (ht : t = s.setTodo l todo) (hu : u.loops = t.loops) :
    (u.loops l).todo = todo ∧
      (u.loops l).loop = (s.loops l).loop := by
  subst ht
  rw [hu]
  simp [Server.setTodo]

/-! ## Inversion -/

omit [DecidableEq τ] in
def isPassOf (l : Nat) : ServerInput τ υ → Bool
  | .poll m _ | .callback m _ _ _ _ | .doPendingFunctors m | .functor m _
  | .endPendingFunctors m => m == l
  | _ => false

/-- What one step does to the pass of loop `l`. -/
inductive PassMoves (s t : Server τ υ) (l : Nat) : ServerInput τ υ → Prop
  | poll {events : List (KEvent (Option Nat))}
      (hhandling : (s.loops l).loop.eventHandling = false)
      (hcalling : (s.loops l).loop.callingPendingFunctors = false)
      (hevents : ∀ e ∈ events, s.MayReport l e) (ht : t = s.poll l events) :
      PassMoves s t l (.poll l events)
  | callback {r : ReadResult} {retrieved : Nat} {w : WriteResult} {sockfd : Option Nat}
      {p : Option Nat × Callback} (hhandling : (s.loops l).loop.eventHandling = true)
      (htodo : (s.loops l).todo = p :: (t.loops l).todo)
      (hloop : (t.loops l).loop = (s.loops l).loop) :
      PassMoves s t l (.callback l r retrieved w sockfd)
  | doPendingFunctors (hhandling : (s.loops l).loop.eventHandling = true)
      (htodo : (s.loops l).todo = [])
      (ht : t = s.setLoop l { (s.loops l).loop with eventHandling := false }.beginPendingFunctors) :
      PassMoves s t l (.doPendingFunctors l)
  | functor {w : WriteResult} (hcalling : (s.loops l).loop.callingPendingFunctors = true)
      (hsame : s.SamePass t l) : PassMoves s t l (.functor l w)
  | endPendingFunctors (hcalling : (s.loops l).loop.callingPendingFunctors = true)
      (ht : t = s.setLoop l (s.loops l).loop.endPendingFunctors) :
      PassMoves s t l (.endPendingFunctors l)
  | other {i : ServerInput τ υ} (hi : isPassOf l i = false) (hsame : s.SamePass t l) :
      PassMoves s t l i

/-- A callback step of loop `l`, with what its guard found. -/
theorem todo_step_callback {s t : Server τ υ} {l : Nat} {r : ReadResult} {retrieved : Nat}
    {w : WriteResult} {sockfd : Option Nat}
    (h : s.step (.callback l r retrieved w sockfd) = some t) :
    (s.loops l).loop.eventHandling = true ∧ ∃ p, (s.loops l).todo = p :: (t.loops l).todo ∧
      (t.loops l).loop = (s.loops l).loop ∧ ∀ m, m ≠ l → t.loops m = s.loops m := by
  have hmoves := (step_spec h).2
  have hhandling : (s.loops l).loop.eventHandling = true := by
    simp only [step] at h
    split at h
    · rcases Option.ite_none_right_eq_some.1 h with ⟨hguard, -⟩
      exact hguard.2.2
    · cases h
  have htail : ∀ {u : Server τ υ} {p todo}, (s.loops l).todo = p :: todo →
      u.loops = (s.setTodo l todo).loops → ∃ q, (s.loops l).todo = q :: (u.loops l).todo ∧
        (u.loops l).loop = (s.loops l).loop ∧ ∀ m, m ≠ l → u.loops m = s.loops m := by
    intro u p todo htodo hu
    have hhead := todo_callback (t := s.setTodo l todo) rfl hu
    refine ⟨p, ?_, hhead.2, ?_⟩
    · rw [hhead.1]
      exact htodo
    · intro m hm
      rw [hu]
      exact loops_setIo_of_ne hm _
  refine ⟨hhandling, ?_⟩
  cases hmoves with
  | callback htodo => exact htail htodo (loops_exec _ _ _ _)
  | accept htodo => exact htail htodo (loops_newConnection _ _ _)
  | acceptFailed htodo => exact htail htodo rfl

theorem step_pass {s t : Server τ υ} {i : ServerInput τ υ} (h : s.step i = some t) (l : Nat) :
    s.PassMoves t l i := by
  have hmoves := (step_spec h).2
  have hother : ∀ {m : Nat}, l ≠ m → (m == l) = false := fun hm => by simpa using hm.symm
  cases i with
  | call θ c k =>
      cases hmoves
      exact .other rfl (.of_loops (loops_call s θ c k))
  | stop θ =>
      cases hmoves
      exact .other rfl (.of_loops rfl)
  | stopNext =>
      cases hmoves
      exact .other rfl (.of_loops ((loops_call _ _ _ _).trans rfl))
  | deliver θ w =>
      cases hmoves
      exact .other rfl (samePass_deliver s θ w _ l)
  | queueUser θ m x =>
      cases hmoves
      exact .other rfl (.of_loops rfl)
  | poll m events =>
      simp only [step] at h
      rcases Option.ite_none_right_eq_some.1 h with ⟨hguard, ⟨⟩⟩
      by_cases hm : l = m
      · subst hm
        exact .poll hguard.2.2.1 hguard.2.2.2.1 hguard.2.2.2.2 rfl
      · exact .other (hother hm) ((SamePass.setIo_of_ne hm _).trans (.of_loops rfl))
  | callback m r retrieved w sockfd =>
      rcases todo_step_callback h with ⟨hhandling, p, htodo, hloop, hrest⟩
      by_cases hm : l = m
      · subst hm
        exact .callback hhandling htodo hloop
      · refine .other (hother hm) ?_
        constructor <;> rw [hrest l hm]
  | doPendingFunctors m =>
      simp only [step] at h
      rcases Option.ite_none_right_eq_some.1 h with ⟨hguard, ⟨⟩⟩
      by_cases hm : l = m
      · subst hm
        exact .doPendingFunctors hguard.2.2.1 hguard.2.2.2.1 rfl
      · exact .other (hother hm) (SamePass.setIo_of_ne hm _)
  | functor m w =>
      simp only [step] at h
      split at h
      · next k functors hfunctors =>
          rcases Option.ite_none_right_eq_some.1 h with ⟨hguard, ⟨⟩⟩
          have hpop : s.SamePass (s.setLoop m { (s.loops m).loop with functors }) l :=
            .setLoop rfl rfl
          have hsame := hpop.trans (.of_loops (loops_perform _ (.loop m) w k))
          by_cases hm : l = m
          · subst hm
            exact .functor hguard.2.2.1 hsame
          · exact .other (hother hm) hsame
      · cases h
  | endPendingFunctors m =>
      simp only [step] at h
      rcases Option.ite_none_right_eq_some.1 h with ⟨hguard, ⟨⟩⟩
      by_cases hm : l = m
      · subst hm
        exact .endPendingFunctors hguard.2.2.1 rfl
      · exact .other (hother hm) (SamePass.setIo_of_ne hm _)

/-! ## Handling events and running functors -/

omit [DecidableEq τ] in
/-- A loop that runs functors does not handle events, and one that handles none has no
callback left of its pass. -/
structure InPhase (s : Server τ υ) : Prop where
  calling : ∀ l, (s.loops l).loop.callingPendingFunctors = true →
    (s.loops l).loop.eventHandling = false
  idle : ∀ l, (s.loops l).loop.eventHandling = false → (s.loops l).todo = []

theorem step_inPhase {s t : Server τ υ} {i : ServerInput τ υ} (h : s.InPhase)
    (hstep : s.step i = some t) : t.InPhase := by
  have hboth : ∀ l, ((t.loops l).loop.callingPendingFunctors = true →
      (t.loops l).loop.eventHandling = false) ∧
      ((t.loops l).loop.eventHandling = false → (t.loops l).todo = []) := by
    intro l
    cases step_pass hstep l with
    | poll hhandling hcalling hevents ht =>
        subst ht
        simp [Server.poll, hcalling]
    | callback hhandling htodo hloop =>
        rw [hloop]
        refine ⟨h.calling l, fun hidle => ?_⟩
        rw [hhandling] at hidle
        cases hidle
    | doPendingFunctors hhandling htodo ht =>
        subst ht
        rw [loops_setLoop_self]
        exact ⟨fun _ => rfl, fun _ => htodo⟩
    | endPendingFunctors hcalling ht =>
        subst ht
        rw [loops_setLoop_self]
        exact ⟨nofun, fun _ => h.idle l (h.calling l hcalling)⟩
    | functor hcalling hsame =>
        rw [hsame.calling, hsame.handling, hsame.todo]
        exact ⟨h.calling l, h.idle l⟩
    | other hi hsame =>
        rw [hsame.calling, hsame.handling, hsame.todo]
        exact ⟨h.calling l, h.idle l⟩
  exact ⟨fun l => (hboth l).1, fun l => (hboth l).2⟩

omit [DecidableEq τ] in
theorem start_inPhase (name : String) (numThreads : Nat) (cb mcb : Bool) :
    (start name numThreads cb mcb : Server τ υ).InPhase :=
  ⟨fun _ => nofun, fun _ _ => rfl⟩

end Server

end Hayai
