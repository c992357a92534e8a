import Hayai.Coro.AsyncConnection
import Hayai.Coro.Wake
import Hayai.Machine.Handoff
import Hayai.Machine.Refinement

/-! # Receiving coroutines

One `AsyncConnection` with any number of coroutines that await `recv()` on it. The loop's
thread delivers what `handleRead` read, and resumes run as functors of that loop; the
coroutines' own steps may be taken on any thread. Each member holds `recvMutex_` from start
to end, so each is one step.
-/

namespace Hayai

/-- `delivered` has every byte that came in, `results` what each `recv()` returned.
`promised` are the coroutines that were told of data, by `await_ready` or by a resume, and
have not taken any yet. -/
structure Receivers (κ υ : Type) where
  loop : EventLoop (Wake κ υ)
  wrapper : AsyncConnection Unit (κ × Nat)
  phase : κ → Handoff.Phase
  suspensions : κ → Nat
  promised : List κ
  delivered : List UInt8
  results : List (κ × List UInt8)
  resumed : List (κ × Nat)
  misresumed : Bool

inductive ReceiveInput (κ υ : Type) where
  | onMessage (data : List UInt8)
  | recvReady (k : κ)
  | recvSuspend (k : κ) (inLoopThread : Bool)
  | recvReturn (k : κ)
  | loop (i : TurnInput υ)

namespace Receivers

variable {κ υ : Type}

/-! ## Members -/

def queueResume (s : Receivers κ υ) (inLoopThread : Bool) : Option (κ × Nat) → Receivers κ υ
  | none => s
  | some h =>
      { s with
        loop := s.loop.queueInLoop inLoopThread (.resume h)
        promised := s.promised ++ [h.1] }

def onMessage (s : Receivers κ υ) (data : List UInt8) : Receivers κ υ :=
  let p := s.wrapper.onMessage data
  { s with wrapper := p.1, delivered := s.delivered ++ data }.queueResume true p.2

variable [DecidableEq κ]

def setPhase (s : Receivers κ υ) (k : κ) (p : Handoff.Phase) : Receivers κ υ :=
  { s with phase := Function.update s.phase k p }

def recvReady (s : Receivers κ υ) (k : κ) : Receivers κ υ :=
  if s.wrapper.recvReady then { s.setPhase k .ready with promised := s.promised ++ [k] }
  else s.setPhase k .unready

def recvSuspend (s : Receivers κ υ) (k : κ) (inLoopThread : Bool) : Receivers κ υ :=
  let p := s.wrapper.recvSuspend (k, s.suspensions k)
  { s.setPhase k .suspended with
    suspensions := Function.update s.suspensions k (s.suspensions k + 1)
    wrapper := p.1 }.queueResume inLoopThread p.2

def recvResume (s : Receivers κ υ) (k : κ) : Receivers κ υ :=
  let p := s.wrapper.recvResume
  { s.setPhase k .away with
    promised := s.promised.erase k
    wrapper := p.1
    results := s.results ++ [(k, p.2)] }

/-- `h.resume()`: the coroutine goes on if it is in the suspension that the resume is of. -/
def resume (s : Receivers κ υ) (h : κ × Nat) : Receivers κ υ :=
  let t := { s with resumed := s.resumed ++ [h] }
  if s.phase h.1 = .suspended ∧ s.suspensions h.1 = h.2 + 1 then t.recvResume h.1
  else { t with misresumed := true }

/-- `handleRead` calls `onMessage` only with something in the input buffer. -/
def step (s : Receivers κ υ) : ReceiveInput κ υ → Option (Receivers κ υ)
  | .onMessage data => if data.isEmpty then none else some (s.onMessage data)
  | .recvReady k => if s.phase k = .away then some (s.recvReady k) else none
  | .recvSuspend k inLoopThread =>
      if s.phase k = .unready then some (s.recvSuspend k inLoopThread) else none
  | .recvReturn k => if s.phase k = .ready then some (s.recvResume k) else none
  | .loop i =>
      (s.loop.turn i).map fun p =>
        let t := { s with loop := p.1 }
        p.2.elim t t.resume

def machine (κ υ : Type) [DecidableEq κ] : Machine (Receivers κ υ) (ReceiveInput κ υ) := ⟨step⟩

omit [DecidableEq κ] in
def new (l : EventLoop υ) : Receivers κ υ where
  loop := l.map .other
  wrapper := .new (some ())
  phase := fun _ => .away
  suspensions := fun _ => 0
  promised := []
  delivered := []
  results := []
  resumed := []
  misresumed := false

/-! ## As a store of bytes -/

omit [DecidableEq κ] in
def handoff (s : Receivers κ υ) : Handoff UInt8 κ where
  items := s.wrapper.receivedData
  waiter := s.wrapper.recvCoroutine
  resumes := s.loop.resumes
  phase := s.phase
  suspensions := s.suspensions
  promised := s.promised
  delivered := s.delivered
  taken := s.results
  resumed := s.resumed
  misresumed := s.misresumed

omit [DecidableEq κ] in
def handoffInput (s : Receivers κ υ) : ReceiveInput κ υ → Option (Handoff.Input UInt8 κ)
  | .onMessage data => some (.deliver data)
  | .recvReady k => some (.check k)
  | .recvSuspend k _ => some (.suspend k)
  | .recvReturn k => some (.take k)
  | .loop i => ((s.loop.turn i).bind Prod.snd).map .resume

omit [DecidableEq κ] in
theorem handoff_queueResume (s : Receivers κ υ) (inLoopThread : Bool) (h : κ × Nat) :
    (s.queueResume inLoopThread (some h)).handoff = s.handoff.tell h := by
  simp [queueResume, handoff, Handoff.tell, Wake.handle?]

omit [DecidableEq κ] in
theorem handoff_onMessage (s : Receivers κ υ) (data : List UInt8) :
    (s.onMessage data).handoff = s.handoff.deliver data := by
  unfold onMessage Handoff.deliver
  cases hwaiter : s.wrapper.recvCoroutine with
  | none => simp [handoff, hwaiter, AsyncConnection.onMessage, queueResume]
  | some h =>
      simp only [AsyncConnection.onMessage, hwaiter, handoff_queueResume]
      simp [handoff, hwaiter]

theorem handoff_recvReady (s : Receivers κ υ) (k : κ) :
    (s.recvReady k).handoff = s.handoff.check k := by
  unfold recvReady Handoff.check AsyncConnection.recvReady
  cases hdata : s.wrapper.receivedData <;>
    simp [handoff, hdata, setPhase, Handoff.setPhase]

theorem handoff_recvSuspend (s : Receivers κ υ) (k : κ) (inLoopThread : Bool) :
    (s.recvSuspend k inLoopThread).handoff = s.handoff.suspend k := by
  unfold recvSuspend Handoff.suspend AsyncConnection.recvSuspend
  cases hdata : s.wrapper.receivedData with
  | nil => simp [handoff, hdata, setPhase, Handoff.setPhase, queueResume]
  | cons x data =>
      simp only [List.length_cons, Nat.zero_lt_succ, if_true, handoff_queueResume]
      simp [handoff, hdata, setPhase, Handoff.setPhase]

theorem handoff_recvResume (s : Receivers κ υ) (k : κ) :
    (s.recvResume k).handoff = s.handoff.take .all k := rfl

theorem handoff_resume {s : Receivers κ υ} {h : κ × Nat} {loop : EventLoop (Wake κ υ)}
    (hresumes : s.loop.resumes = h :: loop.resumes) :
    ({ s with loop }.resume h).handoff = s.handoff.resume .all h := by
  have herase : s.handoff.resumes.erase h = loop.resumes := by
    rw [handoff, hresumes, List.erase_cons_head]
  unfold resume Handoff.resume
  rw [herase]
  dsimp only
  by_cases hcurrent : s.phase h.1 = .suspended ∧ s.suspensions h.1 = h.2 + 1
  · rw [if_pos hcurrent, if_pos (show s.handoff.phase h.1 = .suspended ∧
      s.handoff.suspensions h.1 = h.2 + 1 from hcurrent), handoff_recvResume]
    rfl
  · rw [if_neg hcurrent, if_neg (show ¬(s.handoff.phase h.1 = .suspended ∧
      s.handoff.suspensions h.1 = h.2 + 1) from hcurrent)]
    rfl

/-- The connection hands bytes to its coroutines. -/
def refinement (κ υ : Type) [DecidableEq κ] :
    (machine κ υ).Refinement (Handoff.machine UInt8 κ .all) where
  state := handoff
  input := handoffInput
  stutter := by
    intro s i t hstep hinput
    cases i with
    | loop i =>
        rcases Option.map_eq_some_iff.1 hstep with ⟨⟨loop, h⟩, hturn, rfl⟩
        have hresumes := EventLoop.resumes_turn hturn
        simp only [handoffInput, hturn, Option.bind_some, Option.map_eq_none_iff] at hinput
        subst hinput
        simp [handoff, hresumes]
    | _ => cases hinput
  step := by
    intro s i t j hstep hinput
    cases i with
    | onMessage data =>
        rcases Option.ite_none_left_eq_some.1 hstep with ⟨hdata, ⟨⟩⟩
        cases hinput
        exact (if_neg hdata).trans (congrArg some (handoff_onMessage s data).symm)
    | recvReady k =>
        rcases Option.ite_none_right_eq_some.1 hstep with ⟨hphase, ⟨⟩⟩
        cases hinput
        exact (if_pos hphase).trans (congrArg some (handoff_recvReady s k).symm)
    | recvSuspend k inLoopThread =>
        rcases Option.ite_none_right_eq_some.1 hstep with ⟨hphase, ⟨⟩⟩
        cases hinput
        exact (if_pos hphase).trans (congrArg some (handoff_recvSuspend s k inLoopThread).symm)
    | recvReturn k =>
        rcases Option.ite_none_right_eq_some.1 hstep with ⟨hphase, ⟨⟩⟩
        cases hinput
        exact (if_pos hphase).trans (congrArg some (handoff_recvResume s k).symm)
    | loop i =>
        rcases Option.map_eq_some_iff.1 hstep with ⟨⟨loop, h⟩, hturn, rfl⟩
        have hresumes := EventLoop.resumes_turn hturn
        simp only [handoffInput, hturn, Option.bind_some] at hinput
        rcases Option.map_eq_some_iff.1 hinput with ⟨h, rfl, rfl⟩
        have hmem : h ∈ s.handoff.resumes := by
          rw [handoff, hresumes]
          exact List.mem_cons_self
        exact (if_pos hmem).trans (congrArg some (handoff_resume hresumes).symm)

omit [DecidableEq κ] in
theorem handoff_new (l : EventLoop υ) : (new l : Receivers κ υ).handoff = Handoff.new := by
  simp [new, handoff, Handoff.new, AsyncConnection.new]

end Receivers

end Hayai
