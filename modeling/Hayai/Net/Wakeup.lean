import Hayai.Machine.Run
import Hayai.Net.LoopThread

/-! # Wakeups

No request waits for a loop that sleeps: while the loop runs, whoever pushes a functor or
stores `quit_` behind its back puts a token into the pipe or is about to. Requests made
before `loop()` has set its flags are another matter, and so is a full pipe, which holds
up the loop thread like any other writer.
-/

namespace Hayai

namespace LoopThread

variable {φ τ : Type}

def Alarmed (s : LoopThread φ τ) : Prop := 0 < s.loop.wakeups ∨ ∃ t, s.mid t = true

/-! ## While the loop runs -/

/-- The loop thread sleeps on requests that nobody will tell it about. -/
def Lost (s : LoopThread φ τ) : Prop :=
  s.phase = .polling ∧ s.loop.wakeups = 0 ∧
    (s.loop.pendingFunctors ≠ [] ∨ s.quit = true) ∧ ∀ t, s.mid t = false

/-- `loop()` is not entered with a functor that its own thread has queued. -/
def EntersClean (s : LoopThread φ τ) : LoopInput φ τ → Prop
  | .enter => s.past.ownQueued = false
  | _ => True

/-- Between a swap and the next poll every pending functor has its token, on the way at
least; only a functor queued by the loop thread outside `loop()` has none. -/
structure Watched (s : LoopThread φ τ) : Prop where
  pending : (s.phase = .outside ∧ s.past.ownQueued = false) ∨ s.phase = .testing ∨
      s.phase = .polling ∨ s.phase = .functors →
    s.loop.pendingFunctors ≠ [] → s.owes = true ∨ s.Alarmed
  quit : s.phase = .polling → s.quit = true → s.Alarmed

theorem call_watched {s : LoopThread φ τ} {c : Request φ} (hs : s.Watched)
    (hphase : s.phase = .outside ∨ ∃ wakeup, s.phase = .handling wakeup) :
    (s.call c).Watched := by
  cases c with
  | queueInLoop cb =>
      constructor
      · rcases hphase with hphase | ⟨wakeup, hphase⟩ <;>
          simp [call, ask, hphase]
      · rcases hphase with hphase | ⟨wakeup, hphase⟩ <;>
          simp [call, ask, hphase]
  | quit =>
      refine ⟨hs.pending, fun hpolling => ?_⟩
      change s.phase = .polling at hpolling
      rcases hphase with hphase | ⟨wakeup, hphase⟩ <;> simp [hphase] at hpolling

theorem step_watched [DecidableEq τ] {capacity : Nat} {s t : LoopThread φ τ}
    {i : LoopInput φ τ} (hwf : s.Wf) (hs : s.Watched) (hclean : s.EntersClean i)
    (h : Moves capacity s i t) : t.Watched := by
  cases h with
  | enter hphase =>
      exact ⟨fun _ => hs.pending (.inl ⟨hphase, hclean⟩), by rintro ⟨⟩⟩
  | test hphase =>
      have hpending := hs.pending (.inr (.inl hphase))
      unfold test
      split
      · exact ⟨fun _ => hpending, by rintro ⟨⟩⟩
      · next hquit => exact ⟨fun _ => hpending, fun _ h => absurd h hquit⟩
  | poll => exact ⟨by simp [poll], by rintro ⟨⟩⟩
  | handleWakeup => exact ⟨by simp [handleWakeup], by rintro ⟨⟩⟩
  | call hphase => exact call_watched hs hphase
  | swap => exact ⟨fun _ h => absurd rfl h, by rintro ⟨⟩⟩
  | runFunctor => exact ⟨hs.pending, hs.quit⟩
  | @next c body hidle hbody =>
      have hpolling : s.phase ≠ .polling := by simp [hidle.1]
      cases c with
      | queueInLoop cb =>
          -- The test of `callingPendingFunctors_` makes the functor write a token.
          exact ⟨fun _ _ => .inl (hwf.calling.2 hidle.1), fun h => absurd h hpolling⟩
      | quit => exact ⟨hs.pending, fun h => absurd h hpolling⟩
  | wakeup => exact ⟨fun _ _ => .inr (.inl (Nat.succ_pos _)), fun _ _ => .inl (Nat.succ_pos _)⟩
  | finish hidle =>
      exact ⟨fun _ => hs.pending (.inr (.inr (.inr hidle.1))), by rintro ⟨⟩⟩
  | @other u c =>
      have halarm : (s.callFrom u c).Alarmed := .inr ⟨u, by simp [callFrom]⟩
      exact ⟨fun _ _ => .inr halarm, fun _ _ => halarm⟩
  | otherWakeup =>
      exact ⟨fun _ _ => .inr (.inl (Nat.succ_pos _)), fun _ _ => .inl (Nat.succ_pos _)⟩

theorem Watched.not_lost {s : LoopThread φ τ} (hwf : s.Wf) (hs : s.Watched) : ¬s.Lost := by
  intro hphase
  rcases hphase with ⟨hphase, htokens, hrequest, hmid⟩
  have halarm : s.Alarmed := by
    rcases hrequest with hpending | hquit
    · rcases hs.pending (.inr (.inr (.inl hphase))) hpending with howes | halarm
      · have hfunctors := hwf.owes howes
        simp [hphase] at hfunctors
      · exact halarm
    · exact hs.quit hphase hquit
  rcases halarm with htoken | ⟨t, ht⟩
  · omega
  · simp [hmid t] at ht

/-- Over every interleaving and every pipe, a loop that is entered with no functor queued
by its own thread never sleeps on a request that nobody will tell it about. -/
theorem no_lost_wakeup [DecidableEq τ] (capacity : Nat) (is : List (LoopInput φ τ))
    (hclean : (machine capacity).Meets EntersClean new is) :
    (machine capacity).Always (fun s => ¬s.Lost) new is := by
  apply Machine.Always.mono (P := fun s => s.Wf ∧ s.Watched)
  · intro s hs
    exact hs.2.not_lost hs.1
  · apply Machine.always_of_meets _ _ hclean
    · intro s i t hs hi hstep
      have hmoves := step_moves hstep
      exact ⟨step_wf hs.1 hmoves, step_watched hs.1 hs.2 hi hmoves⟩
    · exact ⟨new_wf, by simp [new, EventLoop.new], nofun⟩

/-- A thread pushes while the loop is blocked in its poll. -/
theorem push_into_poll_not_lost : ∃ t : LoopThread Nat Unit,
    (machine 1).run new [.enter, .test, .other () (.queueInLoop 7)] = some t ∧
      t.phase = .polling ∧ t.loop.pendingFunctors = [7] ∧ ¬t.Lost := by
  have hclean : (machine 1).Meets EntersClean (new : LoopThread Nat Unit)
      [.enter, .test, .other () (.queueInLoop 7)] := by
    simp [Machine.Meets, Machine.AlwaysStep, machine, step, EntersClean, new, Past.new]
  have hrun := no_lost_wakeup 1 _ hclean
  exact ⟨_, rfl, rfl, rfl, hrun.last rfl⟩

/-! ## Before the loop runs -/

/-- A `quit()` call that the present `loop()` has to obey is seen by every test, and the
first poll does not sleep on functors that nobody will tell the loop about. -/
structure Honoured (s : LoopThread φ τ) : Prop where
  quit : s.phase = .testing → s.past.quitCalled = true → s.quit = true
  pending : s.phase = .polling → s.past.first = true → s.loop.pendingFunctors ≠ [] → s.Alarmed

/-- `loop()` is entered when `quit()` has not been called, and with pending functors only
when a token for them is in the pipe or on its way. -/
def EntersFresh (s : LoopThread φ τ) : LoopInput φ τ → Prop
  | .enter => s.past.quitCalled = false ∧ (s.loop.pendingFunctors ≠ [] → s.Alarmed)
  | _ => True

/-- The invariant behind `Honoured`: it also speaks of the test before the first poll, and
knows that the first poll is over in the later phases. -/
structure Fresh (s : LoopThread φ τ) : Prop where
  quit : s.past.quitCalled = true → s.quit = true
  pending : s.phase = .testing ∨ s.phase = .polling → s.past.first = true →
    s.loop.pendingFunctors ≠ [] → s.Alarmed
  past : s.phase = .functors ∨ (∃ wakeup, s.phase = .handling wakeup) → s.past.first = false

theorem call_fresh {s : LoopThread φ τ} (c : Request φ) (hs : s.Fresh)
    (hphase : s.phase ≠ .testing ∧ s.phase ≠ .polling) : (s.call c).Fresh := by
  cases c with
  | queueInLoop cb =>
      exact ⟨hs.quit, fun h => by rcases h with h | h <;> simp_all [call, ask], hs.past⟩
  | quit => exact ⟨fun _ => rfl, hs.pending, hs.past⟩

theorem callFrom_fresh [DecidableEq τ] {s : LoopThread φ τ} (t : τ) (c : Request φ)
    (hs : s.Fresh) : (s.callFrom t c).Fresh := by
  have halarm : (s.callFrom t c).Alarmed := .inr ⟨t, by simp [callFrom]⟩
  cases c with
  | queueInLoop cb => exact ⟨hs.quit, fun _ _ _ => halarm, hs.past⟩
  | quit => exact ⟨fun _ => rfl, fun _ _ _ => halarm, hs.past⟩

theorem step_fresh [DecidableEq τ] {capacity : Nat} {s t : LoopThread φ τ}
    {i : LoopInput φ τ} (hs : s.Fresh) (hfresh : s.EntersFresh i)
    (h : Moves capacity s i t) : t.Fresh := by
  cases h with
  | enter hphase =>
      refine ⟨fun hquit => ?_, fun _ _ => hfresh.2, by simp [enter]⟩
      have hcalled : s.past.quitCalled = true := hquit
      simp [hfresh.1] at hcalled
  | test hphase =>
      have hpending := hs.pending (.inl hphase)
      unfold test
      split
      · exact ⟨by rintro ⟨⟩, by simp, by simp⟩
      · exact ⟨hs.quit, fun _ => hpending, by simp⟩
  | poll hphase => exact ⟨hs.quit, by simp [poll], fun _ => rfl⟩
  | handleWakeup hphase => exact ⟨hs.quit, by simp [handleWakeup], fun _ => hs.past (.inr ⟨_, hphase⟩)⟩
  | call hphase =>
      apply call_fresh _ hs
      rcases hphase with hphase | ⟨wakeup, hphase⟩ <;> simp [hphase]
  | swap hphase => exact ⟨hs.quit, by simp [swap], fun _ => hs.past (.inr ⟨_, hphase⟩)⟩
  | runFunctor => exact ⟨hs.quit, hs.pending, hs.past⟩
  | next hidle =>
      apply call_fresh
      · exact ⟨hs.quit, hs.pending, hs.past⟩
      · simp [hidle.1]
  | wakeup =>
      exact ⟨hs.quit, fun _ _ _ => .inl (Nat.succ_pos _), hs.past⟩
  | finish hidle =>
      have hfirst := hs.past (.inl hidle.1)
      exact ⟨hs.quit, fun _ h => by simp [finish, hfirst] at h, by simp [finish]⟩
  | other => exact callFrom_fresh _ _ hs
  | otherWakeup => exact ⟨hs.quit, fun _ _ _ => .inl (Nat.succ_pos _), hs.past⟩

/-- Requests made before the loop runs are honoured in every run that enters `loop()` with
neither a `quit()` call behind it nor functors without a token. -/
theorem early_requests_honoured_of_fresh [DecidableEq τ] (capacity : Nat)
    (is : List (LoopInput φ τ)) (hfresh : (machine capacity).Meets EntersFresh new is) :
    (machine capacity).Always Honoured new is := by
  apply Machine.Always.mono (P := Fresh)
  · intro s hs
    exact ⟨fun _ => hs.quit, fun h => hs.pending (.inr h)⟩
  · apply Machine.always_of_meets _ _ hfresh
    · intro s i t hs hi hstep
      exact step_fresh hs hi (step_moves hstep)
    · exact ⟨nofun, by simp [new], by simp [new]⟩

/-- Another thread queues a functor before the loop is entered, and quits it while the functor
waits for its turn. -/
theorem functor_before_enter_honoured :
    let early : List (LoopInput Nat Unit) :=
      [.other () (.queueInLoop 7), .otherWakeup (), .enter, .test]
    let late : List (LoopInput Nat Unit) :=
      [.poll true, .handleWakeup, .swap, .other () .quit, .runFunctor [], .finish]
    (∃ t : LoopThread Nat Unit, (machine 1).run new early = some t ∧ t.phase = .polling ∧
      t.loop.pendingFunctors = [7] ∧ t.Alarmed) ∧
    ∃ t : LoopThread Nat Unit, (machine 1).run new (early ++ late) = some t ∧
      t.phase = .testing ∧ t.past.executed = [7] ∧ t.quit = true := by
  intro early late
  have hfresh : (machine 1).Meets EntersFresh (new : LoopThread Nat Unit) (early ++ late) := by
    simp [early, late, Machine.Meets, Machine.AlwaysStep, machine, step, EntersFresh, new,
      Past.new, EventLoop.new, callFrom, ask, EventLoop.push, write, EventLoop.wakeup, Alarmed]
  have hrun := early_requests_honoured_of_fresh 1 _ hfresh
  have hwaiting := Machine.always_iff_prefix.1 hrun early late _ rfl rfl
  have hend := hrun.last rfl
  exact ⟨⟨_, rfl, rfl, rfl, hwaiting.pending rfl rfl (by decide)⟩, _, rfl, rfl, rfl,
    hend.quit rfl rfl⟩

/-- `quit()` comes right after `startLoop()` has returned, and `loop()` resets `quit_`:
the test is passed and the loop thread blocks in its poll, its request forgotten. -/
theorem early_quit_forgotten :
    ¬(machine 8192).Always Honoured (new : LoopThread Nat Unit)
      [.other () .quit, .otherWakeup (), .enter] := by
  intro h
  have hend := h.last rfl
  have hquit := hend.quit rfl rfl
  cases hquit

/-! ## A full pipe -/

/-- The loop thread calls `wakeup()` and the pipe, which only it reads, is full. -/
def Blocked (capacity : Nat) (s : LoopThread φ τ) : Prop :=
  s.owes = true ∧ capacity ≤ s.loop.wakeups

/-- Over the whole history, fewer tokens than the pipe holds are ahead of every functor
that a functor queues, and a thread that writes in between leaves room for one more. -/
def Roomy (capacity : Nat) (s : LoopThread φ τ) : LoopInput φ τ → Prop
  | .next => (∃ cb, s.body.head? = some (.queueInLoop cb)) →
      s.past.writes < s.past.reads + capacity
  | .otherWakeup _ => s.owes = true → s.past.writes + 1 < s.past.reads + capacity
  | _ => True

theorem step_not_blocked_iff [DecidableEq τ] {capacity : Nat} {s t : LoopThread φ τ}
    {i : LoopInput φ τ} (hwf : s.Wf) (hs : ¬s.Blocked capacity) (h : Moves capacity s i t) :
    ¬t.Blocked capacity ↔ s.Roomy capacity i := by
  have htokens := hwf.tokens
  have howes := hwf.owes
  cases h with
  | enter => exact iff_of_true hs trivial
  | test =>
      apply iff_of_true _ trivial
      unfold test
      split <;> exact hs
  | poll => exact iff_of_true hs trivial
  | handleWakeup hphase =>
      apply iff_of_true _ trivial
      intro hblocked
      have hfunctors := howes hblocked.1
      simp [hphase] at hfunctors
  | @call c hphase =>
      apply iff_of_true _ trivial
      cases c with
      | quit => exact hs
      | queueInLoop cb =>
          intro hblocked
          have hfunctors := hwf.calling.1 hblocked.1
          rcases hphase with hphase | ⟨wakeup, hphase⟩ <;> simp [hphase] at hfunctors
  | swap => exact iff_of_true hs trivial
  | runFunctor => exact iff_of_true hs trivial
  | @next c body hidle hbody =>
      cases c with
      | quit => exact iff_of_true hs (by simp [Roomy, hbody])
      | queueInLoop cb =>
          have hcalling := hwf.calling.2 hidle.1
          simp only [Blocked, call, ask, EventLoop.push, hcalling, Roomy, hbody]
          simp
          omega
  | wakeup => exact iff_of_true (fun hblocked => nomatch hblocked.1) trivial
  | finish => exact iff_of_true hs trivial
  | @other u c =>
      apply iff_of_true _ trivial
      cases c <;> exact hs
  | otherWakeup =>
      simp only [Blocked, write, EventLoop.wakeup, Roomy, not_and]
      exact ⟨fun h hw => by have := h hw; omega, fun h hw => by have := h hw; omega⟩

/-- The tokens in the pipe and those that the running functor is still going to write. -/
def demand (s : LoopThread φ τ) : Nat :=
  s.loop.wakeups + s.owes.toNat + s.body.countP Request.isQueueInLoop

/-- A functor that starts calls `queueInLoop` at most as often as the pipe has room for tokens,
and a token that another thread writes beside it leaves room for those calls. -/
def TokensFit (capacity : Nat) (s : LoopThread φ τ) : LoopInput φ τ → Prop
  | .runFunctor body => s.loop.wakeups + body.countP Request.isQueueInLoop ≤ capacity
  | .otherWakeup _ => s.phase = .functors → s.demand < capacity
  | _ => True

def RunsThrough [DecidableEq τ] (capacity : Nat) (s : LoopThread φ τ) : Prop :=
  ∀ js, (∀ j ∈ js, j.goesOn = true) →
    (machine capacity).Always (fun s => ¬s.Blocked capacity) s js

structure Provided (capacity : Nat) (s : LoopThread φ τ) : Prop where
  wf : s.Wf
  tokens : s.loop.wakeups ≤ capacity
  demand : s.phase = .functors → s.demand ≤ capacity

theorem Provided.not_blocked {capacity : Nat} {s : LoopThread φ τ} (h : s.Provided capacity) :
    ¬s.Blocked capacity := by
  intro hblocked
  have hdemand := h.demand (h.wf.owes hblocked.1)
  have hfull := hblocked.2
  simp only [LoopThread.demand, hblocked.1, Bool.toNat_true] at hdemand
  omega

/-- The call takes its token out of the functor's calls and makes it the one owed. -/
theorem demand_call {s : LoopThread φ τ} {c : Request φ} {body : List (Request φ)}
    (hcalling : s.loop.callingPendingFunctors = true) (howes : s.owes = false)
    (hbody : s.body = c :: body) : ({ s with body }.call c).demand = s.demand := by
  cases c with
  | queueInLoop cb =>
      simp only [demand, call, ask, EventLoop.push, hcalling, howes, hbody, List.countP_cons,
        Request.isQueueInLoop, Bool.toNat_true, Bool.toNat_false, if_true]
      omega
  | quit => simp [demand, call, ask, howes, hbody, Request.isQueueInLoop]

theorem step_provided [DecidableEq τ] {capacity : Nat} {s t : LoopThread φ τ}
    {i : LoopInput φ τ} (h : s.Provided capacity) (hfit : s.TokensFit capacity i)
    (hmoves : Moves capacity s i t) : t.Provided capacity := by
  have hwf := step_wf h.wf hmoves
  have htokens := h.tokens
  have hdemand := h.demand
  cases hmoves with
  | enter => exact ⟨hwf, htokens, fun hphase => by cases hphase⟩
  | test =>
      revert hwf
      unfold test
      split
      · exact fun hwf => ⟨hwf, htokens, fun hphase => by cases hphase⟩
      · exact fun hwf => ⟨hwf, htokens, fun hphase => by cases hphase⟩
  | poll => exact ⟨hwf, htokens, fun hphase => by cases hphase⟩
  | handleWakeup =>
      refine ⟨hwf, ?_, fun hphase => by cases hphase⟩
      simp only [handleWakeup, EventLoop.handleWakeup]
      omega
  | @call c hphase =>
      have houtside : s.phase ≠ .functors := by
        rcases hphase with hphase | ⟨wakeup, hphase⟩ <;> simp [hphase]
      cases c <;> exact ⟨hwf, htokens, fun hnow => absurd hnow houtside⟩
  | swap hphase =>
      refine ⟨hwf, htokens, fun _ => ?_⟩
      have hbody := (h.wf.idle (by simp [hphase])).2
      have howes : s.owes = false := by
        by_contra howes
        have hfunctors := h.wf.owes (by simpa using howes)
        simp [hphase] at hfunctors
      simpa [demand, swap, EventLoop.beginPendingFunctors, hbody, howes] using htokens
  | runFunctor hidle =>
      refine ⟨hwf, htokens, fun _ => ?_⟩
      have hbody : s.loop.wakeups + _ ≤ capacity := hfit
      simpa [LoopThread.demand, runFunctor, hidle.2] using hbody
  | @next c body hidle hbody =>
      have hsame := demand_call (h.wf.calling.2 hidle.1) hidle.2 hbody
      refine ⟨hwf, ?_, fun _ => hsame ▸ hdemand hidle.1⟩
      cases c <;> exact htokens
  | wakeup howes hroom =>
      refine ⟨hwf, hroom, fun _ => ?_⟩
      have hbefore := hdemand (h.wf.owes howes)
      simp only [LoopThread.demand, howes, Bool.toNat_true] at hbefore
      simp only [LoopThread.demand, write, EventLoop.wakeup, Bool.toNat_false]
      omega
  | finish => exact ⟨hwf, htokens, fun hphase => by cases hphase⟩
  | @other u c => cases c <;> exact ⟨hwf, htokens, hdemand⟩
  | otherWakeup hmid hroom =>
      refine ⟨hwf, hroom, fun hphase => ?_⟩
      have hlt : s.demand < capacity := hfit hphase
      simp only [LoopThread.demand] at hlt
      simp only [LoopThread.demand, write, EventLoop.wakeup]
      omega

theorem Provided.runsThrough [DecidableEq τ] {capacity : Nat} {s : LoopThread φ τ}
    (h : s.Provided capacity) : s.RunsThrough capacity := by
  intro js hjs
  apply Machine.Always.mono (P := Provided capacity)
  · exact fun t ht => ht.not_blocked
  · apply Machine.always_of_meets _ h (Machine.meets_of_forall_mem hjs)
    intro t j u ht hj hstep
    apply step_provided ht _ (step_moves hstep)
    cases j <;> trivial

theorem RunsThrough.step [DecidableEq τ] {capacity : Nat} {s t : LoopThread φ τ}
    {j : LoopInput φ τ} (h : s.RunsThrough capacity) (hj : j.goesOn = true)
    (hstep : LoopThread.step capacity s j = some t) : t.RunsThrough capacity := by
  intro js hjs
  have hcons : ∀ k ∈ j :: js, k.goesOn = true := by simpa [hj] using hjs
  exact (h (j :: js) hcons).2 t hstep

/-- A functor that is never blocked makes all of its calls, so its tokens have a place. -/
theorem RunsThrough.demand_le [DecidableEq τ] {capacity : Nat} {s : LoopThread φ τ}
    (h : s.RunsThrough capacity) (hwf : s.Wf) (hphase : s.phase = .functors)
    (htokens : s.loop.wakeups ≤ capacity) : s.demand ≤ capacity := by
  -- By induction on the calls and the token that are still to come.
  induction hn : 2 * s.body.length + s.owes.toNat using Nat.strongRecOn generalizing s with
  | ind n ih =>
      cases howes : s.owes with
      | true =>
          have hroom : s.loop.wakeups < capacity := by
            refine Nat.lt_of_not_le fun hfull => ?_
            exact (h [] (List.forall_mem_nil _)).head ⟨howes, hfull⟩
          have hstep : LoopThread.step capacity s .wakeup = some { s.write with owes := false } := by
            simp [LoopThread.step, howes, hroom]
          have hrest := ih (2 * s.body.length) (by simp [← hn, howes]) (h.step rfl hstep)
            (step_wf hwf (step_moves hstep)) hphase hroom rfl
          simp only [LoopThread.demand, write, EventLoop.wakeup, Bool.toNat_false] at hrest
          simp only [LoopThread.demand, howes, Bool.toNat_true]
          omega
      | false =>
          cases hbody : s.body with
          | nil => simpa [LoopThread.demand, howes, hbody] using htokens
          | cons c body =>
              have hidle : s.Idle := ⟨hphase, howes⟩
              have hstep : LoopThread.step capacity s .next = some ({ s with body }.call c) := by
                simp [LoopThread.step, hbody, hidle]
              have hmoves := step_moves hstep
              rw [← demand_call (hwf.calling.2 hphase) howes hbody]
              refine ih _ ?_ (h.step rfl hstep) (step_wf hwf hmoves) ?_ ?_ rfl
              · have hlast := Bool.toNat_le (({ s with body }.call c).owes)
                have hlength : ({ s with body }.call c).body.length = body.length := by
                  cases c <;> rfl
                rw [hlength, ← hn, hbody, List.length_cons]
                omega
              · cases c <;> exact hphase
              · cases c <;> exact htokens

/-- In every run and for every capacity, the loop thread never waits for itself to read the
pipe exactly when every functor finds room there for as many tokens as it makes calls. -/
theorem wakeup_never_blocks_iff_tokens_fit [DecidableEq τ] (capacity : Nat)
    (is : List (LoopInput φ τ)) :
    (machine capacity).Always (RunsThrough capacity) new is ↔
      (machine capacity).Meets (TokensFit capacity) new is := by
  apply Machine.always_iff_meets (I := Provided capacity)
  · exact fun s hs => hs.runsThrough
  · intro s i t hs hfit hstep
    exact step_provided hs hfit (step_moves hstep)
  · intro s i t hs hstep hthrough
    have hmoves := step_moves hstep
    have hwf := step_wf hs.wf hmoves
    cases hmoves with
    | runFunctor hidle =>
        have hdemand := hthrough.demand_le hwf hidle.1 hs.tokens
        simpa [TokensFit, LoopThread.demand, runFunctor, hidle.2] using hdemand
    | otherWakeup hmid hroom =>
        intro hphase
        have hdemand := hthrough.demand_le hwf hphase hroom
        simp only [LoopThread.demand, write, EventLoop.wakeup] at hdemand
        simp only [LoopThread.demand]
        omega
    | _ => trivial
  · exact ⟨new_wf, Nat.zero_le _, fun hphase => by cases hphase⟩

def pushes : Nat → List (LoopInput Nat Unit)
  | 0 => [.next]
  | k + 1 => .next :: .wakeup :: pushes k

theorem step_next_queueInLoop (capacity : Nat) {s : LoopThread Nat Unit}
    {rest : List (Request Nat)} (hwf : s.Wf) (hidle : s.Idle)
    (hbody : s.body = .queueInLoop 0 :: rest) :
    ∃ t, step capacity s .next = some t ∧ t.Wf ∧ t.owes = true ∧ t.body = rest ∧
      t.loop.wakeups = s.loop.wakeups := by
  have hstep : step capacity s .next = some ({ s with body := rest }.call (.queueInLoop 0)) := by
    simp [step, hbody, hidle]
  exact ⟨_, hstep, step_wf hwf (step_moves hstep), hwf.calling.2 hidle.1, rfl, rfl⟩

theorem step_wakeup (capacity : Nat) {s : LoopThread Nat Unit} (hwf : s.Wf)
    (howes : s.owes = true) (hroom : s.loop.wakeups < capacity) :
    ∃ t, step capacity s .wakeup = some t ∧ t.Wf ∧ t.Idle ∧ t.body = s.body ∧
      t.loop.wakeups = s.loop.wakeups + 1 := by
  have hstep : step capacity s .wakeup = some { s.write with owes := false } := by
    simp [step, howes, hroom]
  exact ⟨_, hstep, step_wf hwf (step_moves hstep), ⟨hwf.owes howes, rfl⟩, rfl, rfl⟩

theorem run_pushes {capacity k : Nat} {s : LoopThread Nat Unit} (hwf : s.Wf) (hidle : s.Idle)
    (hbody : s.body = List.replicate (k + 1) (.queueInLoop 0))
    (hwakeups : s.loop.wakeups + k = capacity) :
    ∃ t, (machine capacity).run s (pushes k) = some t ∧ t.Wf ∧ t.Blocked capacity := by
  induction k generalizing s with
  | zero =>
      rcases step_next_queueInLoop capacity hwf hidle hbody with
        ⟨t, hnext, ht, howes, -, htokens⟩
      exact ⟨t, (Machine.run_cons hnext).trans rfl, ht, howes, by omega⟩
  | succ k ih =>
      rw [List.replicate_succ] at hbody
      rcases step_next_queueInLoop capacity hwf hidle hbody with
        ⟨t, hnext, ht, howes, htbody, htokens⟩
      rcases step_wakeup capacity ht howes (by omega) with
        ⟨u, hwakeup, hu, huidle, hubody, hutokens⟩
      rcases ih hu huidle (hubody.trans htbody) (by omega) with ⟨v, hrun, hv⟩
      exact ⟨v, (Machine.run_cons hnext).trans ((Machine.run_cons hwakeup).trans hrun), hv⟩

def overfull (capacity : Nat) : List (LoopInput Nat Unit) :=
  [.call (.queueInLoop 0), .enter, .test, .poll false, .swap,
    .runFunctor (List.replicate (capacity + 1) (.queueInLoop 0))] ++ pushes capacity

theorem run_overfull (capacity : Nat) :
    ∃ t, (machine capacity).run new (overfull capacity) = some t ∧ t.Wf ∧ t.Blocked capacity := by
  let start : LoopThread Nat Unit :=
    ((((new.call (.queueInLoop 0)).enter.test.poll false).swap).runFunctor 0 []
      (List.replicate (capacity + 1) (.queueInLoop 0)))
  have hwf : start.Wf := by
    constructor <;> simp [start, runFunctor, swap, poll, test, enter, call, ask, new,
      EventLoop.new, EventLoop.push, EventLoop.beginPendingFunctors, Past.new]
  rcases run_pushes (s := start) hwf ⟨rfl, rfl⟩ rfl (Nat.zero_add capacity) with ⟨t, hrun, ht⟩
  exact ⟨t, hrun, ht⟩

/-- A pipe of 64 KiB holds 8192 tokens. -/
theorem overfull_batch_blocks :
    ¬(machine 8192).Always (fun s => ¬s.Blocked 8192) new (overfull 8192) := by
  intro h
  rcases run_overfull 8192 with ⟨t, hrun, -, hblocked⟩
  exact h.last hrun hblocked

end LoopThread

end Hayai
