import Hayai.Coro.AsyncServer
import Hayai.Coro.Receivers
import Mathlib.Data.Option.Basic

/-! # Several coroutines on one awaitable

`acceptCoroutine_` and `recvCoroutine_` hold one handle. A coroutine that suspends while
another one is stored takes its place, and the other one is never resumed. A connection that
one coroutine has a resume queued for can be taken by another one that finds it first.
-/

namespace Hayai

variable {χ κ υ : Type} [DecidableEq κ]

namespace AsyncServer

/-- A coroutine suspended in `accept()` is stored, or exactly one resume of it is queued. -/
def Unforgotten (s : AsyncServer χ κ υ) : Prop :=
  ∀ k, s.phase k = .suspended →
    (s.acceptCoroutine.any (·.1 = k) = true ∧ s.loop.resumes.countP (·.1 = k) = 0) ∨
      (s.acceptCoroutine.any (·.1 = k) = false ∧ s.loop.resumes.countP (·.1 = k) = 1)

omit [DecidableEq κ] in
def NeverEmpty (s : AsyncServer χ κ υ) : Prop := ∀ p ∈ s.results, ∃ conn, p.2 = .ok conn

omit [DecidableEq κ] in
/-- A coroutine that is stored finds no other one stored. -/
def FindsFree (s : AsyncServer χ κ υ) : AcceptInput χ κ υ → Prop
  | .acceptSuspend _ _ => s.pendingConnections = [] → s.acceptCoroutine = none
  | _ => True

omit [DecidableEq κ] in
/-- A coroutine that is told of a pending connection, by `await_ready` or by the second
look in `await_suspend`, finds more of them than there are coroutines told of one. -/
def FindsUnpromised (s : AsyncServer χ κ υ) : AcceptInput χ κ υ → Prop
  | .acceptReady _ | .acceptSuspend _ _ =>
      s.pendingConnections ≠ [] → s.promised.length < s.pendingConnections.length
  | _ => True

instance (s : AsyncServer χ κ υ) (i : AcceptInput χ κ υ) : Decidable (s.FindsFree i) := by
  unfold FindsFree
  split <;> infer_instance

instance (s : AsyncServer χ κ υ) (i : AcceptInput χ κ υ) : Decidable (s.FindsUnpromised i) := by
  unfold FindsUnpromised
  split <;> infer_instance

theorem lift_free (s : AsyncServer χ κ υ) (i : AcceptInput χ κ υ) :
    (refinement χ κ υ).lift Handoff.Free s i ↔ s.FindsFree i := by
  cases i with
  | loop i => exact iff_of_true (Option.forall_mem_map.2 fun _ _ => trivial) trivial
  | _ => simp [Machine.Refinement.lift, refinement, handoffInput, handoff, Handoff.Free, FindsFree]

theorem lift_unpromised (s : AsyncServer χ κ υ) (i : AcceptInput χ κ υ) :
    (refinement χ κ υ).lift Handoff.Unpromised s i ↔ s.FindsUnpromised i := by
  cases i with
  | loop i => exact iff_of_true (Option.forall_mem_map.2 fun _ _ => trivial) trivial
  | _ =>
      simp [Machine.Refinement.lift, refinement, handoffInput, handoff, Handoff.Unpromised,
        FindsUnpromised]

theorem unforgotten_iff_findsFree (l : EventLoop υ) (is : List (AcceptInput χ κ υ)) :
    (machine χ κ υ).Always Unforgotten (new l) is ↔
      (machine χ κ υ).Meets FindsFree (new l) is := by
  have hnew : (refinement χ κ υ).state (new l) = Handoff.new := handoff_new l
  rw [← Machine.meets_congr lift_free, Machine.Refinement.meets_iff hnew,
    ← Handoff.remembered_iff_free, ← Machine.Refinement.always_iff hnew]
  exact Iff.rfl

theorem neverEmpty_of_findsUnpromised {l : EventLoop υ} {is : List (AcceptInput χ κ υ)}
    (h : (machine χ κ υ).Meets (fun s i => s.FindsFree i ∧ s.FindsUnpromised i) (new l) is) :
    (machine χ κ υ).Always NeverEmpty (new l) is := by
  have hlift : (machine χ κ υ).Meets
      ((refinement χ κ υ).lift fun a j => a.Free j ∧ a.Unpromised j) (new l) is := by
    refine h.mono fun s i _ hs j hj => ?_
    exact ⟨(lift_free s i).2 hs.1 j hj, (lift_unpromised s i).2 hs.2 j hj⟩
  have hnew : (refinement χ κ υ).state (new l) = Handoff.new := handoff_new l
  have hmeets := (Machine.Refinement.meets_iff hnew).1 hlift
  have hsingle : ∀ l : List χ, l ≠ [] → (Take.one.split l).2.length + 1 = l.length := by
    intro l hl
    have hpos := List.length_pos_of_ne_nil hl
    simp only [Take.one, List.length_drop]
    omega
  have hprovided := Handoff.provided_of_unpromised hsingle hmeets
  exact ((Machine.Refinement.always_iff hnew).2 hprovided).mono fun s hs => ok_of_taken hs.2.full

end AsyncServer

namespace Receivers

def Unforgotten (s : Receivers κ υ) : Prop :=
  ∀ k, s.phase k = .suspended →
    (s.wrapper.recvCoroutine.any (·.1 = k) = true ∧ s.loop.resumes.countP (·.1 = k) = 0) ∨
      (s.wrapper.recvCoroutine.any (·.1 = k) = false ∧ s.loop.resumes.countP (·.1 = k) = 1)

omit [DecidableEq κ] in
def FindsFree (s : Receivers κ υ) : ReceiveInput κ υ → Prop
  | .recvSuspend _ _ => s.wrapper.receivedData = [] → s.wrapper.recvCoroutine = none
  | _ => True

instance (s : Receivers κ υ) (i : ReceiveInput κ υ) : Decidable (s.FindsFree i) := by
  unfold FindsFree
  split <;> infer_instance

theorem lift_free (s : Receivers κ υ) (i : ReceiveInput κ υ) :
    (refinement κ υ).lift Handoff.Free s i ↔ s.FindsFree i := by
  cases i with
  | loop i => exact iff_of_true (Option.forall_mem_map.2 fun _ _ => trivial) trivial
  | _ => simp [Machine.Refinement.lift, refinement, handoffInput, handoff, Handoff.Free, FindsFree]

theorem unforgotten_iff_findsFree (l : EventLoop υ) (is : List (ReceiveInput κ υ)) :
    (machine κ υ).Always Unforgotten (new l) is ↔ (machine κ υ).Meets FindsFree (new l) is := by
  have hnew : (refinement κ υ).state (new l) = Handoff.new := handoff_new l
  rw [← Machine.meets_congr lift_free, Machine.Refinement.meets_iff hnew,
    ← Handoff.remembered_iff_free, ← Machine.Refinement.always_iff hnew]
  exact Iff.rfl

end Receivers

/-! ## Two coroutines -/

/-- Both find nothing to take, and then both suspend. -/
def suspendBoth : List (AcceptInput String Bool Unit) :=
  [.acceptReady true, .acceptReady false, .acceptSuspend true true, .acceptSuspend false true]

/-- A connection comes in for the one that waits; the other one takes it before the resume
runs. -/
def takeFirst : List (AcceptInput String Bool Unit) :=
  [.acceptReady true, .acceptSuspend true true, .onConnection false "a", .acceptReady false,
    .acceptReturn false, .loop .doPendingFunctors, .loop .functor]

def acceptInTurn : List (AcceptInput String Bool Unit) :=
  [.acceptReady true, .acceptSuspend true true, .onConnection false "a", .onConnection false "b",
    .acceptReady false, .acceptReturn false, .loop .doPendingFunctors, .loop .functor]

def suspendBothReceivers : List (ReceiveInput Bool Unit) :=
  [.recvReady true, .recvReady false, .recvSuspend true true, .recvSuspend false true]

/-- The first one to suspend is suspended, is not stored and has no resume queued; the one
whose connection was taken finds none. -/
theorem waiters_forgotten :
    ¬(∀ is : List (AcceptInput String Bool Unit),
      (AsyncServer.machine String Bool Unit).Always AsyncServer.Unforgotten (.new .new) is) ∧
    ¬(∀ is : List (AcceptInput String Bool Unit),
      (AsyncServer.machine String Bool Unit).Always AsyncServer.NeverEmpty (.new .new) is) ∧
    ¬∀ is : List (ReceiveInput Bool Unit),
      (Receivers.machine Bool Unit).Always Receivers.Unforgotten (.new .new) is := by
  refine ⟨fun h => ?_, fun h => ?_, fun h => ?_⟩
  · have hlast := (h suspendBoth).last rfl true rfl
    revert hlast
    decide
  · have hlast := (h takeFirst).last rfl _ (List.Mem.tail _ (List.Mem.head _))
    obtain ⟨conn, hconn⟩ := hlast
    cases hconn
  · have hlast := (h suspendBothReceivers).last rfl true rfl
    revert hlast
    decide

/-! ## Accepting and receiving -/

/-- Nobody is forgotten for as long as whoever is stored finds nobody else stored, and no
longer. When besides nobody is told of a connection that another coroutine was told of,
`accept()` never finds nothing. -/
theorem waiters_kept :
    (∀ (l : EventLoop υ) (is : List (AcceptInput χ κ υ)),
      ((AsyncServer.machine χ κ υ).Always AsyncServer.Unforgotten (.new l) is ↔
        (AsyncServer.machine χ κ υ).Meets AsyncServer.FindsFree (.new l) is) ∧
      ((AsyncServer.machine χ κ υ).Meets (fun s i => s.FindsFree i ∧ s.FindsUnpromised i)
          (.new l) is →
        (AsyncServer.machine χ κ υ).Always AsyncServer.NeverEmpty (.new l) is)) ∧
    ∀ (l : EventLoop υ) (is : List (ReceiveInput κ υ)),
      (Receivers.machine κ υ).Always Receivers.Unforgotten (.new l) is ↔
        (Receivers.machine κ υ).Meets Receivers.FindsFree (.new l) is :=
  ⟨fun l is => ⟨AsyncServer.unforgotten_iff_findsFree l is,
    AsyncServer.neverEmpty_of_findsUnpromised⟩, Receivers.unforgotten_iff_findsFree⟩

/-- Two coroutines one after the other: one waits for a connection, the other one finds the
next. -/
theorem waiters_kept_apart :
    (AsyncServer.machine String Bool Unit).Meets (fun s i => s.FindsFree i ∧ s.FindsUnpromised i)
        (.new .new) acceptInTurn ∧
      (AsyncServer.machine String Bool Unit).Always AsyncServer.NeverEmpty (.new .new)
        acceptInTurn := by
  have hmeets : (AsyncServer.machine String Bool Unit).Meets
      (fun s i => s.FindsFree i ∧ s.FindsUnpromised i) (.new .new) acceptInTurn := by
    decide
  exact ⟨hmeets, (waiters_kept.1 .new acceptInTurn).2 hmeets⟩

end Hayai
