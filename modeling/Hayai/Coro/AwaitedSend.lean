import Hayai.Coro.AsyncEndpoint
import Hayai.Machine.Run
import Hayai.Net.Output
import Mathlib.Data.List.TakeWhile

/-! # Awaited sends

`co_await conn.send(data)` suspends always and is resumed by `onWriteComplete()`, the
connection's write-complete callback. No member of the connection calls that callback, so
a coroutine stays suspended whatever becomes of its bytes.
-/

namespace Hayai

namespace Endpoint

variable {τ υ : Type}

def ranFrom (s : Endpoint τ υ) (id : Nat) : List (Message τ × Bool) :=
  s.ran.dropWhile (·.1.id ≠ id)

/-- The outcome of a `send()` call is known: the call or its `sendInLoop` dropped the data,
or all of it has left the output buffer. -/
def Known (s : Endpoint τ υ) (id : Nat) : Prop :=
  (∀ m ∈ s.control.accepted, m.id ≠ id) ∨
    match s.ranFrom id with
    | [] => False
    | (m, dropped) :: after =>
        dropped = true ∨ m.data = [] ∨
          s.conn.outputBuffer.length ≤ (after.flatMap kept).length

end Endpoint

variable {τ υ : Type}

namespace Op

/-- No member of the connection calls `writeCompleteCallback_`. -/
theorem writeComplete_not_mem {c : TcpConnection (List UInt8)} {op : Op τ} (hfits : op.Fits c) :
    .writeCompleteCallback ∉ (op.run c).2 := by
  intro hmem
  by_cases hfails : op = .connectEstablished ∧ c.state ≠ .connecting
  · rcases hfails with ⟨rfl, hstate⟩
    simp [run, TcpConnection.connectEstablished, hstate] at hmem
  · have hestablish : op = .connectEstablished → c.state = .connecting := by
      intro hop
      by_contra hstate
      exact hfails ⟨hop, hstate⟩
    cases not_rare_of_mem hfits hestablish _ hmem

end Op

namespace Endpoint

variable [DecidableEq τ]

theorem sends_of_moves {s : Endpoint τ υ} {i : Input τ υ} {b : Control τ υ} {op : Op τ}
    (h : s.Moves i b op) : s.control.sends ≤ b.sends := by
  cases h with
  | sendDropped | sendNow | sendLater => exact Nat.le_succ _
  | _ => exact Nat.le_refl _

theorem sends_of_send {s : Endpoint τ υ} {caller : Caller τ} {data : List UInt8}
    {w : WriteResult} {b : Control τ υ} {op : Op τ}
    (h : s.Moves (.call caller (.send data) w) b op) : b.sends = s.control.sends + 1 := by
  cases h with
  | sendDropped | sendNow | sendLater => rfl
  | ignored _ hcall => rcases hcall with ⟨hcall, -⟩ | ⟨hcall, -⟩ <;> cases hcall

end Endpoint

/-! ## The wrapper -/

namespace AsyncEndpoint

/-- What is asked for an awaited `send()`: once its outcome is known, its coroutine has been
given one resume. -/
def Answered (s : AsyncEndpoint τ υ) (id : Nat) : Prop :=
  s.endpoint.Known id → s.resumes.count (.send id) = 1

/-- No coroutine in a `send()` has been given a resume, or will be given one by a read. -/
structure Unresumed (s : AsyncEndpoint τ υ) : Prop where
  receiver : ∀ id, s.wrapper.recvCoroutine ≠ some (.send id)
  resumes : ∀ id, .send id ∉ s.resumes

/-- `sendCoroutine_` holds the handle of the call, or of a later one. -/
def HeldFrom (id : Nat) (s : AsyncEndpoint τ υ) : Prop :=
  ∃ later, id ≤ later ∧ later < s.endpoint.control.sends ∧
    s.wrapper.sendCoroutine = some (.send later)

theorem Unresumed.queueResume {s : AsyncEndpoint τ υ} (h : s.Unresumed) (inLoopThread : Bool)
    {r : Option Suspension} (hr : ∀ id, r ≠ some (.send id)) :
    (s.queueResume inLoopThread r).Unresumed := by
  cases r with
  | none => exact h
  | some r =>
      refine ⟨h.receiver, ?_⟩
      intro id hmem
      rcases List.mem_append.1 hmem with hmem | hmem
      · exact h.resumes id hmem
      · exact hr id (by rw [List.mem_singleton.1 hmem])

theorem Unresumed.react {s : AsyncEndpoint τ υ} (h : s.Unresumed) {input : List UInt8} {e : Effect}
    (he : e ≠ .writeCompleteCallback) : (react input s e).Unresumed := by
  cases e with
  | messageCallback data =>
      apply Unresumed.queueResume
      · exact ⟨nofun, h.resumes⟩
      · exact h.receiver
  | writeCompleteCallback => exact absurd rfl he
  | _ => exact h

theorem HeldFrom.queueResume {id : Nat} {s : AsyncEndpoint τ υ} (h : s.HeldFrom id)
    (inLoopThread : Bool) (r : Option Suspension) : (s.queueResume inLoopThread r).HeldFrom id := by
  cases r <;> exact h

theorem HeldFrom.react {id : Nat} {s : AsyncEndpoint τ υ} (h : s.HeldFrom id)
    {input : List UInt8} {e : Effect} (he : e ≠ .writeCompleteCallback) :
    (react input s e).HeldFrom id := by
  cases e with
  | messageCallback data =>
      apply HeldFrom.queueResume
      exact h
  | writeCompleteCallback => exact absurd rfl he
  | _ => exact h

variable [DecidableEq τ]

theorem advance_keeps {P : AsyncEndpoint τ υ → Prop} {s t : AsyncEndpoint τ υ}
    {i : Input τ (Posted υ)}
    (hreact : ∀ input u e, e ≠ .writeCompleteCallback → P u → P (react input u e))
    (hstart : ∀ b op, s.endpoint.Moves i b op → P { s with endpoint := s.endpoint.perform b op })
    (hstep : s.advance i = some t) : P t := by
  rcases advance_spec hstep with ⟨b, op, hplan, hfits, rfl⟩
  apply reactAll_keeps _ (hstart b op (Endpoint.plan_moves hplan))
  intro u e he hu
  apply hreact _ _ _ _ hu
  intro heq
  rw [heq] at he
  exact Op.writeComplete_not_mem hfits he

theorem step_send (s : AsyncEndpoint τ υ) (caller : Caller τ) (data : List UInt8)
    (w : WriteResult) :
    s.step (.send caller data w) =
      ({ s with wrapper := s.wrapper.sendSuspend (.send s.endpoint.control.sends) } :
        AsyncEndpoint τ υ).advance (.call caller (.send data) w) :=
  rfl

theorem step_unresumed {s t : AsyncEndpoint τ υ} {i : AsyncInput τ υ} (h : s.Unresumed)
    (hstep : s.step i = some t) : t.Unresumed := by
  have hreact : ∀ (input : List UInt8) (u : AsyncEndpoint τ υ) (e : Effect),
      e ≠ .writeCompleteCallback → u.Unresumed → (react input u e).Unresumed :=
    fun _ _ _ he hu => hu.react he
  cases i with
  | run i =>
      rcases Option.map_eq_some_iff.1 hstep with ⟨u, hu, rfl⟩
      have hunresumed : u.Unresumed :=
        advance_keeps hreact (fun _ _ _ => ⟨h.receiver, h.resumes⟩) hu
      rcases u.resume_cases (s.resumed i) with heq | ⟨n, -, heq⟩
      · rw [heq]
        exact hunresumed
      · rw [heq]
        exact ⟨hunresumed.receiver, hunresumed.resumes⟩
  | send caller data w =>
      rw [step_send] at hstep
      apply advance_keeps hreact _ hstep
      intro b op _
      exact ⟨h.receiver, h.resumes⟩
  | recvReady =>
      cases hstep
      exact ⟨h.receiver, h.resumes⟩
  | recvSuspend n inLoopThread =>
      rcases Option.ite_none_right_eq_some.1 hstep with ⟨-, ⟨⟩⟩
      apply Unresumed.queueResume
      · refine ⟨?_, h.resumes⟩
        intro id
        show (s.wrapper.recvSuspend (.recv n)).1.recvCoroutine ≠ _
        unfold AsyncConnection.recvSuspend
        split
        · exact h.receiver id
        · nofun
      · intro id
        unfold AsyncConnection.recvSuspend
        split <;> nofun
  | recvReturn n =>
      rcases Option.ite_none_right_eq_some.1 hstep with ⟨-, ⟨⟩⟩
      exact ⟨h.receiver, h.resumes⟩

theorem heldFrom_send {id : Nat} {s t : AsyncEndpoint τ υ} {caller : Caller τ}
    {data : List UInt8} {w : WriteResult} (hid : id ≤ s.endpoint.control.sends)
    (hstep : s.step (.send caller data w) = some t) : t.HeldFrom id := by
  rw [step_send] at hstep
  apply advance_keeps (fun _ _ _ he hu => hu.react he) _ hstep
  intro b op hmoves
  refine ⟨s.endpoint.control.sends, hid, ?_, rfl⟩
  show _ < b.sends
  rw [Endpoint.sends_of_send hmoves]
  exact Nat.lt_succ_self _

theorem step_heldFrom {id : Nat} {s t : AsyncEndpoint τ υ} {i : AsyncInput τ υ}
    (h : s.HeldFrom id) (hstep : s.step i = some t) : t.HeldFrom id := by
  rcases h with ⟨later, hle, hlt, hheld⟩
  cases i with
  | run i =>
      rcases Option.map_eq_some_iff.1 hstep with ⟨u, hu, rfl⟩
      have hafter : u.HeldFrom id := by
        apply advance_keeps (fun _ _ _ he hu => hu.react he) _ hu
        intro b op hmoves
        exact ⟨later, hle, Nat.lt_of_lt_of_le hlt (Endpoint.sends_of_moves hmoves), hheld⟩
      rcases u.resume_cases (s.resumed i) with heq | ⟨n, -, heq⟩
      · rw [heq]
        exact hafter
      · rw [heq]
        exact hafter
  | send caller data w =>
      exact heldFrom_send (Nat.le_trans hle (Nat.le_of_lt hlt)) hstep
  | recvReady =>
      cases hstep
      exact ⟨later, hle, hlt, hheld⟩
  | recvSuspend n inLoopThread =>
      rcases Option.ite_none_right_eq_some.1 hstep with ⟨-, ⟨⟩⟩
      apply HeldFrom.queueResume
      refine ⟨later, hle, hlt, ?_⟩
      simp only [AsyncConnection.recvSuspend]
      split <;> exact hheld
  | recvReturn n =>
      rcases Option.ite_none_right_eq_some.1 hstep with ⟨-, ⟨⟩⟩
      exact ⟨later, hle, hlt, hheld⟩

/-! ## Runs -/

def Suspended (s : AsyncEndpoint τ υ) (is : List (AsyncInput τ υ)) (id : Nat) : Prop :=
  ∃ before caller data w after u, is = before ++ .send caller data w :: after ∧
    (machine τ υ).run s before = some u ∧ u.endpoint.control.sends = id

omit [DecidableEq τ] in
theorem accept_unresumed (inLoopThread : Bool) (l : EventLoop υ) (sockfd : Nat) :
    (accept inLoopThread l sockfd : AsyncEndpoint τ υ).Unresumed :=
  ⟨nofun, nofun⟩

/-- No awaited send is ever answered: whatever its outcome, nobody has resumed the coroutine,
and `sendCoroutine_` still holds it, if no later call has taken its place. -/
theorem known_send_unanswered (inLoopThread : Bool) (l : EventLoop υ) (sockfd : Nat)
    {is : List (AsyncInput τ υ)} {t : AsyncEndpoint τ υ} {id : Nat}
    (hrun : (machine τ υ).run (accept inLoopThread l sockfd) is = some t)
    (hsuspended : (accept inLoopThread l sockfd).Suspended is id)
    (hknown : t.endpoint.Known id) : ¬t.Answered id ∧ t.HeldFrom id := by
  have hunresumed : (machine τ υ).Always Unresumed (accept inLoopThread l sockfd) is := by
    apply Machine.always_of_invariant _ (accept_unresumed inLoopThread l sockfd)
    intro s i t hs hstep
    exact step_unresumed hs hstep
  refine ⟨fun hanswered => ?_, ?_⟩
  · have hcount := hanswered hknown
    rw [List.count_eq_zero.2 ((hunresumed.last hrun).resumes id)] at hcount
    cases hcount
  · rcases hsuspended with ⟨before, caller, data, w, after, u, rfl, hu, rfl⟩
    rw [Machine.run_append hu] at hrun
    rcases Option.bind_eq_some_iff.1 hrun with ⟨v, hv, hrest⟩
    have hheld : (machine τ υ).Always (HeldFrom u.endpoint.control.sends) v after := by
      apply Machine.always_of_invariant _ (heldFrom_send (Nat.le_refl _) hv)
      intro s i t hs hstep
      exact step_heldFrom hs hstep
    exact hheld.last hrest

/-- Two coroutines send a byte each on a socket that takes neither at once, and the next write
event takes both: the first handle is gone, and the second waits on. -/
def twoSends : List (AsyncInput Unit Unit) :=
  [.send .loopThread [1] (.wrote 0), .send .loopThread [2] (.wrote 0),
    .run (.poll [⟨7, .write, false, false, ()⟩]), .run (.callback (.bytes []) 0 (.wrote 2))]

theorem two_sends_unanswered : ∃ t : AsyncEndpoint Unit Unit,
    (machine Unit Unit).run (accept true .new 7) twoSends = some t ∧
      t.endpoint.conn.outputBuffer = [] ∧ ¬t.Answered 0 ∧ ¬t.Answered 1 ∧ t.HeldFrom 1 := by
  have hfirst : (accept true .new 7 : AsyncEndpoint Unit Unit).Suspended twoSends 0 :=
    ⟨[], _, _, _, _, _, rfl, rfl, rfl⟩
  have hsecond : (accept true .new 7 : AsyncEndpoint Unit Unit).Suspended twoSends 1 :=
    ⟨[_], _, _, _, _, _, rfl, rfl, rfl⟩
  have hzero := known_send_unanswered true .new 7 rfl hfirst (.inr (Or.inr (.inr (by decide))))
  have hone := known_send_unanswered true .new 7 rfl hsecond (.inr (Or.inr (.inr (by decide))))
  exact ⟨_, rfl, rfl, hzero.1, hone⟩

/-- The socket takes all of an awaited `send()` at once, and nothing resumes it. -/
theorem finished_send_stranded : ∃ t : AsyncEndpoint Unit Unit,
    (machine Unit Unit).run (accept true .new 7) [.send .loopThread [1] (.wrote 1)] = some t ∧
      t.endpoint.Known 0 ∧ t.wrapper.sendCoroutine = some (.send 0) ∧ t.resumes = [] :=
  ⟨_, rfl, .inr (.inr (.inr (by decide))), rfl, rfl⟩

end AsyncEndpoint

end Hayai
