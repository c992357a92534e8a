import Hayai.Coro.Wake
import Hayai.Machine.Handoff
import Hayai.Machine.Refinement

/-! # Accepting coroutines

`coro/AsyncServer.cc`: the I/O loops push established connections, any number of coroutines
await `accept()`, and resumes run as functors of the base loop. Each of `onConnection`,
`await_ready`, `await_suspend` and `await_resume` holds `acceptMutex_` from start to end, so
each is one step; the coroutines' steps may be taken on any thread.
-/

namespace Hayai

/-- `pushed` has every connection that came in, `results` what each `accept()` gave.
`promised` are the coroutines that were told of a connection, by `await_ready` or by a
resume, and have not taken one yet. -/
structure AsyncServer (χ κ υ : Type) where
  loop : EventLoop (Wake κ υ)
  pendingConnections : List χ
  acceptCoroutine : Option (κ × Nat)
  phase : κ → Handoff.Phase
  suspensions : κ → Nat
  promised : List κ
  pushed : List χ
  results : List (κ × Except String χ)
  resumed : List (κ × Nat)
  misresumed : Bool

inductive AcceptInput (χ κ υ : Type) where
  | onConnection (inLoopThread : Bool) (conn : χ)
  | acceptReady (k : κ)
  | acceptSuspend (k : κ) (inLoopThread : Bool)
  | acceptReturn (k : κ)
  | loop (i : TurnInput υ)

namespace AsyncServer

variable {χ κ υ : Type}

/-! ## Members -/

def queueResume (s : AsyncServer χ κ υ) (inLoopThread : Bool) (h : κ × Nat) :
    AsyncServer χ κ υ :=
  { s with
    loop := s.loop.queueInLoop inLoopThread (.resume h)
    promised := s.promised ++ [h.1] }

/-- `onConnection`, from its lock on. -/
def onConnection (s : AsyncServer χ κ υ) (inLoopThread : Bool) (conn : χ) : AsyncServer χ κ υ :=
  let t := { s with
    pendingConnections := s.pendingConnections ++ [conn]
    pushed := s.pushed ++ [conn] }
  match s.acceptCoroutine with
  | some h => { t with acceptCoroutine := none }.queueResume inLoopThread h
  | none => t

variable [DecidableEq κ]

def setPhase (s : AsyncServer χ κ υ) (k : κ) (p : Handoff.Phase) : AsyncServer χ κ υ :=
  { s with phase := Function.update s.phase k p }

def acceptReady (s : AsyncServer χ κ υ) (k : κ) : AsyncServer χ κ υ :=
  if s.pendingConnections.isEmpty then s.setPhase k .unready
  else { s.setPhase k .ready with promised := s.promised ++ [k] }

def acceptSuspend (s : AsyncServer χ κ υ) (k : κ) (inLoopThread : Bool) : AsyncServer χ κ υ :=
  let h := (k, s.suspensions k)
  let t := { s.setPhase k .suspended with
    suspensions := Function.update s.suspensions k (s.suspensions k + 1) }
  if s.pendingConnections.isEmpty then { t with acceptCoroutine := some h }
  else t.queueResume inLoopThread h

def acceptResume (s : AsyncServer χ κ υ) (k : κ) : AsyncServer χ κ υ :=
  let t := { s.setPhase k .away with promised := s.promised.erase k }
  match s.pendingConnections with
  | [] => { t with
      results := s.results ++ [(k, .error "No pending connection (shouldn't happen)")] }
  | conn :: pendingConnections => { t with
      pendingConnections
      results := s.results ++ [(k, .ok conn)] }

def resume (s : AsyncServer χ κ υ) (h : κ × Nat) : AsyncServer χ κ υ :=
  let t := { s with resumed := s.resumed ++ [h] }
  if s.phase h.1 = .suspended ∧ s.suspensions h.1 = h.2 + 1 then t.acceptResume h.1
  else { t with misresumed := true }

def step (s : AsyncServer χ κ υ) : AcceptInput χ κ υ → Option (AsyncServer χ κ υ)
  | .onConnection inLoopThread conn => some (s.onConnection inLoopThread conn)
  | .acceptReady k => if s.phase k = .away then some (s.acceptReady k) else none
  | .acceptSuspend k inLoopThread =>
      if s.phase k = .unready then some (s.acceptSuspend k inLoopThread) else none
  | .acceptReturn k => if s.phase k = .ready then some (s.acceptResume k) else none
  | .loop i =>
      (s.loop.turn i).map fun p =>
        let t := { s with loop := p.1 }
        p.2.elim t t.resume

def machine (χ κ υ : Type) [DecidableEq κ] :
    Machine (AsyncServer χ κ υ) (AcceptInput χ κ υ) := ⟨step⟩

omit [DecidableEq κ] in
def new (l : EventLoop υ) : AsyncServer χ κ υ where
  loop := l.map .other
  pendingConnections := []
  acceptCoroutine := none
  phase := fun _ => .away
  suspensions := fun _ => 0
  promised := []
  pushed := []
  results := []
  resumed := []
  misresumed := false

/-! ## As a store of connections -/

omit [DecidableEq κ] in
def accepted (s : AsyncServer χ κ υ) : List χ := s.results.filterMap (·.2.toOption)

omit [DecidableEq κ] in
def handoff (s : AsyncServer χ κ υ) : Handoff χ κ where
  items := s.pendingConnections
  waiter := s.acceptCoroutine
  resumes := s.loop.resumes
  phase := s.phase
  suspensions := s.suspensions
  promised := s.promised
  delivered := s.pushed
  taken := s.results.map fun p => (p.1, p.2.toOption.toList)
  resumed := s.resumed
  misresumed := s.misresumed

omit [DecidableEq κ] in
def handoffInput (s : AsyncServer χ κ υ) : AcceptInput χ κ υ → Option (Handoff.Input χ κ)
  | .onConnection _ conn => some (.deliver [conn])
  | .acceptReady k => some (.check k)
  | .acceptSuspend k _ => some (.suspend k)
  | .acceptReturn k => some (.take k)
  | .loop i => ((s.loop.turn i).bind Prod.snd).map .resume

omit [DecidableEq κ] in
theorem handoff_queueResume (s : AsyncServer χ κ υ) (inLoopThread : Bool) (h : κ × Nat) :
    (s.queueResume inLoopThread h).handoff = s.handoff.tell h := by
  simp [queueResume, handoff, Handoff.tell, Wake.handle?]

omit [DecidableEq κ] in
theorem handoff_onConnection (s : AsyncServer χ κ υ) (inLoopThread : Bool) (conn : χ) :
    (s.onConnection inLoopThread conn).handoff = s.handoff.deliver [conn] := by
  unfold onConnection Handoff.deliver
  cases hwaiter : s.acceptCoroutine with
  | none => simp [handoff, hwaiter]
  | some h =>
      simp only [handoff_queueResume]
      simp [handoff, hwaiter]

theorem handoff_acceptReady (s : AsyncServer χ κ υ) (k : κ) :
    (s.acceptReady k).handoff = s.handoff.check k := by
  unfold acceptReady Handoff.check
  by_cases hempty : s.pendingConnections.isEmpty = true
  · simp [handoff, hempty, setPhase, Handoff.setPhase]
  · simp [handoff, hempty, setPhase, Handoff.setPhase]

theorem handoff_acceptSuspend (s : AsyncServer χ κ υ) (k : κ) (inLoopThread : Bool) :
    (s.acceptSuspend k inLoopThread).handoff = s.handoff.suspend k := by
  unfold acceptSuspend Handoff.suspend
  dsimp only
  by_cases hempty : s.pendingConnections.isEmpty = true
  · simp [handoff, hempty, setPhase, Handoff.setPhase]
  · rw [if_neg hempty, handoff_queueResume]
    simp [handoff, hempty, setPhase, Handoff.setPhase]

theorem handoff_acceptResume (s : AsyncServer χ κ υ) (k : κ) :
    (s.acceptResume k).handoff = s.handoff.take .one k := by
  unfold acceptResume Handoff.take
  cases hpending : s.pendingConnections <;>
    simp [handoff, hpending, setPhase, Handoff.setPhase, Take.one, Except.toOption]

theorem handoff_resume {s : AsyncServer χ κ υ} {h : κ × Nat} {loop : EventLoop (Wake κ υ)}
    (hresumes : s.loop.resumes = h :: loop.resumes) :
    ({ s with loop }.resume h).handoff = s.handoff.resume .one h := by
  have herase : s.handoff.resumes.erase h = loop.resumes := by
    rw [handoff, hresumes, List.erase_cons_head]
  have hbefore : ({ s with loop, resumed := s.resumed ++ [h] } : AsyncServer χ κ υ).handoff =
      { s.handoff with
        resumes := s.handoff.resumes.erase h
        resumed := s.handoff.resumed ++ [h] } := by
    rw [herase]
    rfl
  unfold resume Handoff.resume
  dsimp only
  rw [← hbefore]
  by_cases hcurrent : s.phase h.1 = .suspended ∧ s.suspensions h.1 = h.2 + 1
  · rw [if_pos hcurrent, if_pos (show s.handoff.phase h.1 = .suspended ∧
      s.handoff.suspensions h.1 = h.2 + 1 from hcurrent), handoff_acceptResume]
  · rw [if_neg hcurrent, if_neg (show ¬(s.handoff.phase h.1 = .suspended ∧
      s.handoff.suspensions h.1 = h.2 + 1) from hcurrent), herase]
    rfl

/-- The server hands connections to its coroutines. -/
def refinement (χ κ υ : Type) [DecidableEq κ] :
    (machine χ κ υ).Refinement (Handoff.machine χ κ .one) where
  state := handoff
  input := handoffInput
  stutter := by
    intro s i t hstep hinput
    cases i with
    | loop i =>
        rcases Option.map_eq_some_iff.1 hstep with ⟨⟨loop, h⟩, hturn, rfl⟩
        have hresumes := EventLoop.resumes_turn hturn
        simp only [handoffInput, hturn, Option.bind_some, Option.map_eq_none_iff] at hinput
        subst hinput
        simp [handoff, hresumes]
    | _ => cases hinput
  step := by
    intro s i t j hstep hinput
    cases i with
    | onConnection inLoopThread conn =>
        cases hstep
        cases hinput
        exact congrArg some (handoff_onConnection s inLoopThread conn).symm
    | acceptReady k =>
        rcases Option.ite_none_right_eq_some.1 hstep with ⟨hphase, ⟨⟩⟩
        cases hinput
        exact (if_pos hphase).trans (congrArg some (handoff_acceptReady s k).symm)
    | acceptSuspend k inLoopThread =>
        rcases Option.ite_none_right_eq_some.1 hstep with ⟨hphase, ⟨⟩⟩
        cases hinput
        exact (if_pos hphase).trans (congrArg some (handoff_acceptSuspend s k inLoopThread).symm)
    | acceptReturn k =>
        rcases Option.ite_none_right_eq_some.1 hstep with ⟨hphase, ⟨⟩⟩
        cases hinput
        exact (if_pos hphase).trans (congrArg some (handoff_acceptResume s k).symm)
    | loop i =>
        rcases Option.map_eq_some_iff.1 hstep with ⟨⟨loop, h⟩, hturn, rfl⟩
        have hresumes := EventLoop.resumes_turn hturn
        simp only [handoffInput, hturn, Option.bind_some] at hinput
        rcases Option.map_eq_some_iff.1 hinput with ⟨h, rfl, rfl⟩
        have hmem : h ∈ s.handoff.resumes := by
          rw [handoff, hresumes]
          exact List.mem_cons_self
        exact (if_pos hmem).trans (congrArg some (handoff_resume hresumes).symm)

omit [DecidableEq κ] in
theorem handoff_new (l : EventLoop υ) :
    (new l : AsyncServer χ κ υ).handoff = Handoff.new := by
  simp [new, handoff, Handoff.new]

/-! ## One coroutine -/

omit [DecidableEq κ] in
def handles (s : AsyncServer χ κ υ) : List (κ × Nat) :=
  s.resumed ++ s.loop.resumes ++ s.acceptCoroutine.toList

/-- What one coroutine that awaits `accept()` again and again can rely on. A suspension's
handle is in one place, and it was resumed when the suspension is over. -/
structure DeliversOnce (s : AsyncServer χ Unit υ) : Prop where
  order : s.accepted ++ s.pendingConnections = s.pushed
  noThrow : ∀ p ∈ s.results, ∃ conn, p.2 = .ok conn
  once : ∀ n, s.handles.count ((), n) = if n < s.suspensions () then 1 else 0
  ended : ∀ n < s.suspensions (), ¬(s.phase () = .suspended ∧ s.suspensions () = n + 1) →
    s.resumed.count ((), n) = 1
  resumed : s.misresumed = false
  awake : s.pendingConnections ≠ [] → s.phase () = .suspended → s.loop.resumes ≠ []

omit [DecidableEq κ] in
theorem accepted_eq (s : AsyncServer χ κ υ) :
    s.handoff.taken.flatMap Prod.snd = s.accepted := by
  simp only [handoff, accepted, List.flatMap_map]
  induction s.results with
  | nil => rfl
  | cons p results ih =>
      rw [List.flatMap_cons, ih]
      cases h : p.2.toOption <;> simp [h]

omit [DecidableEq κ] in
theorem ok_of_taken {s : AsyncServer χ κ υ} (h : ∀ p ∈ s.handoff.taken, p.2 ≠ []) :
    ∀ p ∈ s.results, ∃ conn, p.2 = .ok conn := by
  intro p hp
  have hfull := h _ (List.mem_map_of_mem hp)
  cases hresult : p.2 with
  | ok conn => exact ⟨conn, rfl⟩
  | error e =>
      rw [hresult] at hfull
      exact (hfull rfl).elim

theorem DeliversOnce.of_handoff {s : AsyncServer χ Unit υ} (h : s.handoff.Accounted)
    (hfed : s.handoff.Fed) : s.DeliversOnce where
  order := by
    rw [← accepted_eq]
    exact h.flows
  noThrow := ok_of_taken hfed.full
  once n := h.once () n
  ended n hn hover := h.ended hn hover
  resumed := h.resumed
  awake hpending hphase := h.resumes_ne_nil hpending hphase

/-- In every interleaving the coroutine gets each connection once and in order, each of its
suspensions is resumed once, and it does not sleep on a pending connection. -/
theorem accept_delivers_once (l : EventLoop υ) (is : List (AcceptInput χ Unit υ)) :
    (machine χ Unit υ).Always DeliversOnce (new l) is := by
  apply Machine.Always.mono (P := fun s => s.handoff.Accounted ∧ s.handoff.Fed)
  · exact fun s hs => .of_handoff hs.1 hs.2
  · have hnew : (refinement χ Unit υ).state (new l) = Handoff.new := handoff_new l
    exact (Machine.Refinement.always_iff hnew).2 (Handoff.always_fed _ _)

end AsyncServer

end Hayai
