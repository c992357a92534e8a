import Hayai.Coro.AsyncConnection
import Hayai.Machine.Run
import Mathlib.Logic.Function.Basic

/-! # Callbacks and their wrappers

`bindCallbacks()` leaves a plain pointer to the wrapper in the connection. Construction and
both moves bind the connection that the wrapper has now; nothing unbinds the one that it
had, and the destructor unbinds nothing.
-/

namespace Hayai

/-- Wrappers by their address, those that are alive, and for every connection the wrapper
its callbacks point to. `misdelivered` is set when a callback runs on a wrapper that is
gone or has another connection. -/
structure Wrappers (ω χ κ : Type) (β : Type := List UInt8) where
  wrapper : ω → Option (AsyncConnection χ κ β)
  messageCallback : χ → Option ω
  writeCompleteCallback : χ → Option ω
  misdelivered : Bool

inductive WrapperInput (ω χ : Type) where
  | construct (w : ω) (conn : Option χ)
  | moveConstruct (w other : ω)
  | moveAssign (w other : ω)
  | destroy (w : ω)
  | message (c : χ) (data : List UInt8)
  | writeComplete (c : χ)

namespace Wrappers

variable {ω χ κ β : Type} [DecidableEq ω] [DecidableEq χ]

omit [DecidableEq χ] in
def setWrapper (s : Wrappers ω χ κ β) (w : ω) (a : Option (AsyncConnection χ κ β)) :
    Wrappers ω χ κ β :=
  { s with wrapper := Function.update s.wrapper w a }

def bindCallbacks (s : Wrappers ω χ κ β) (w : ω) (conn : Option χ) : Wrappers ω χ κ β :=
  match conn with
  | none => s
  | some c =>
      { s with
        messageCallback := Function.update s.messageCallback c (some w)
        writeCompleteCallback := Function.update s.writeCompleteCallback c (some w) }

def construct (s : Wrappers ω χ κ) (w : ω) (conn : Option χ) : Wrappers ω χ κ :=
  (s.setWrapper w (some (.new conn))).bindCallbacks w conn

/-- The fields of the wrapper at `other` go to `w`, and its connection is bound there; `left`
is what stays behind. -/
def transfer (s : Wrappers ω χ κ β) (w other : ω) (a left : AsyncConnection χ κ β) :
    Wrappers ω χ κ β :=
  ((s.setWrapper other (some left)).setWrapper w (some a)).bindCallbacks w a.conn

def move (s : Wrappers ω χ κ) (w other : ω) (a : AsyncConnection χ κ) : Wrappers ω χ κ :=
  ((s.setWrapper other (some a.moved)).setWrapper w (some a)).bindCallbacks w a.conn

omit [DecidableEq ω] [DecidableEq χ] in
def Holds (s : Wrappers ω χ κ β) (w : ω) (c : χ) : Prop :=
  ∃ a, s.wrapper w = some a ∧ a.conn = some c

omit [DecidableEq ω] in
instance (s : Wrappers ω χ κ β) (w : ω) (c : χ) : Decidable (s.Holds w c) :=
  match h : s.wrapper w with
  | none => .isFalse fun ⟨a, ha, _⟩ => by rw [h] at ha; cases ha
  | some a => decidable_of_iff (a.conn = some c)
      ⟨fun hc => ⟨a, h, hc⟩, fun ⟨b, hb, hc⟩ => by rw [h] at hb; cases hb; exact hc⟩

def deliver (s : Wrappers ω χ κ) (c : χ) (w : ω)
    (f : AsyncConnection χ κ → AsyncConnection χ κ) : Wrappers ω χ κ :=
  if s.Holds w c then s.setWrapper w ((s.wrapper w).map f)
  else { s with misdelivered := true }

def step (s : Wrappers ω χ κ) : WrapperInput ω χ → Option (Wrappers ω χ κ)
  | .construct w conn => if (s.wrapper w).isNone then some (s.construct w conn) else none
  | .moveConstruct w other =>
      match s.wrapper other with
      | some a => if (s.wrapper w).isNone then some (s.move w other a) else none
      | none => none
  | .moveAssign w other =>
      match s.wrapper other with
      | some a =>
          if (s.wrapper w).isSome then
            if w = other then some s else some (s.move w other a)
          else none
      | none => none
  | .destroy w => if (s.wrapper w).isSome then some (s.setWrapper w none) else none
  | .message c data =>
      match s.messageCallback c with
      | some w => some (s.deliver c w fun a => (a.onMessage data).1)
      | none => none
  | .writeComplete c =>
      match s.writeCompleteCallback c with
      | some w => some (s.deliver c w fun a => a.onWriteComplete.1)
      | none => none

def machine (ω χ κ : Type) [DecidableEq ω] [DecidableEq χ] :
    Machine (Wrappers ω χ κ) (WrapperInput ω χ) := ⟨step⟩

omit [DecidableEq ω] [DecidableEq χ] in
def new : Wrappers ω χ κ β := ⟨fun _ => none, fun _ => none, fun _ => none, false⟩

/-! ## Targets -/

omit [DecidableEq ω] [DecidableEq χ] in
def BoundTo (s : Wrappers ω χ κ) (c : χ) (w : ω) : Prop :=
  s.messageCallback c = some w ∨ s.writeCompleteCallback c = some w

omit [DecidableEq ω] [DecidableEq χ] in
/-- Every callback points to a wrapper that is alive and has that very connection. -/
structure OnTarget (s : Wrappers ω χ κ) : Prop where
  target : ∀ c w, s.BoundTo c w → s.Holds w c
  delivered : s.misdelivered = false

omit [DecidableEq ω] [DecidableEq χ] in
/-- A wrapper is destroyed when no connection points to it, and assigned to from itself or
when at most the connection it is given points to it. -/
def LetsGo (s : Wrappers ω χ κ) : WrapperInput ω χ → Prop
  | .destroy w => ∀ c, ¬s.BoundTo c w
  | .moveAssign w other =>
      w = other ∨ ∀ c, s.BoundTo c w → s.Holds other c
  | _ => True

/-! ## Wrappers and bindings -/

omit [DecidableEq χ] in
theorem holds_setWrapper_self {s : Wrappers ω χ κ β} {w : ω} {a : AsyncConnection χ κ β} {c : χ} :
    (s.setWrapper w (some a)).Holds w c ↔ a.conn = some c := by
  simp [Holds, setWrapper]

omit [DecidableEq χ] in
theorem holds_setWrapper_of_ne {s : Wrappers ω χ κ β} {w w' : ω} (h : w' ≠ w)
    {a : Option (AsyncConnection χ κ β)} {c : χ} :
    (s.setWrapper w a).Holds w' c ↔ s.Holds w' c := by
  simp [Holds, setWrapper, h]

omit [DecidableEq χ] in
theorem not_holds_setWrapper_none {s : Wrappers ω χ κ β} {w : ω} {c : χ} :
    ¬(s.setWrapper w none).Holds w c := by
  simp [Holds, setWrapper]

omit [DecidableEq ω] [DecidableEq χ] in
theorem not_holds_of_dead {s : Wrappers ω χ κ β} {w : ω} (h : (s.wrapper w).isNone = true) (c : χ) :
    ¬s.Holds w c := by
  intro hc
  rcases hc with ⟨a, ha, -⟩
  rw [ha] at h
  cases h

omit [DecidableEq ω] in
theorem holds_bindCallbacks {s : Wrappers ω χ κ β} {w w' : ω} {conn : Option χ} {c : χ} :
    (s.bindCallbacks w conn).Holds w' c ↔ s.Holds w' c := by
  cases conn <;> rfl

omit [DecidableEq ω] in
@[simp] theorem misdelivered_bindCallbacks (s : Wrappers ω χ κ) (w : ω) (conn : Option χ) :
    (s.bindCallbacks w conn).misdelivered = s.misdelivered := by
  cases conn <;> rfl

omit [DecidableEq ω] in
theorem boundTo_bindCallbacks {s : Wrappers ω χ κ} {w w' : ω} {conn : Option χ} {c : χ} :
    (s.bindCallbacks w conn).BoundTo c w' ↔
      (conn = some c ∧ w' = w) ∨ (conn ≠ some c ∧ s.BoundTo c w') := by
  cases conn with
  | none => simp [bindCallbacks]
  | some d =>
      by_cases hd : c = d
      · subst hd
        simp [bindCallbacks, BoundTo, eq_comm]
      · have hne : d ≠ c := Ne.symm hd
        simp [bindCallbacks, BoundTo, hd, hne]

/-! ## Each member -/

theorem OnTarget.construct {s : Wrappers ω χ κ} (h : s.OnTarget) {w : ω}
    (hw : (s.wrapper w).isNone = true) (conn : Option χ) : (s.construct w conn).OnTarget := by
  constructor
  · intro c w' hbound
    rw [Wrappers.construct, holds_bindCallbacks]
    rcases boundTo_bindCallbacks.1 hbound with ⟨hconn, rfl⟩ | ⟨-, hold⟩
    · exact holds_setWrapper_self.2 hconn
    · have hholds := h.target c w' hold
      have hne : w' ≠ w := by
        intro heq
        subst heq
        exact not_holds_of_dead hw c hholds
      exact (holds_setWrapper_of_ne hne).2 hholds
  · rw [Wrappers.construct, misdelivered_bindCallbacks]
    exact h.delivered

theorem holds_move {s : Wrappers ω χ κ} {w other : ω} {a : AsyncConnection χ κ} {c : χ} :
    (s.move w other a).Holds w c ↔ a.conn = some c := by
  rw [move, holds_bindCallbacks, holds_setWrapper_self]

/-- A move between two wrappers keeps everything on target when the one moved to gives up
no connection but the one it is given. -/
theorem OnTarget.move {s : Wrappers ω χ κ} (h : s.OnTarget) {w other : ω}
    {a : AsyncConnection χ κ} (hother : s.wrapper other = some a)
    (hgives : ∀ c, s.BoundTo c w → a.conn = some c) : (s.move w other a).OnTarget := by
  constructor
  · intro c w' hbound
    rcases boundTo_bindCallbacks.1 hbound with ⟨hconn, rfl⟩ | ⟨hconn, hold⟩
    · exact holds_move.2 hconn
    · have hold : s.BoundTo c w' := hold
      have hholds := h.target c w' hold
      have hw : w' ≠ w := by
        intro heq
        subst heq
        exact hconn (hgives c hold)
      have hw' : w' ≠ other := by
        intro heq
        subst heq
        rcases hholds with ⟨b, hb, hbconn⟩
        rw [hother] at hb
        cases hb
        exact hconn hbconn
      rw [Wrappers.move, holds_bindCallbacks, holds_setWrapper_of_ne hw,
        holds_setWrapper_of_ne hw']
      exact hholds
  · rw [Wrappers.move, misdelivered_bindCallbacks]
    exact h.delivered

theorem OnTarget.gives {s : Wrappers ω χ κ} {w other : ω} {a : AsyncConnection χ κ}
    (h : (s.move w other a).OnTarget) {c : χ} (hbound : s.BoundTo c w) : a.conn = some c := by
  by_contra hconn
  have hstill : (s.move w other a).BoundTo c w := boundTo_bindCallbacks.2 (.inr ⟨hconn, hbound⟩)
  exact hconn (holds_move.1 (h.target c w hstill))

omit [DecidableEq χ] in
theorem OnTarget.destroy {s : Wrappers ω χ κ} (h : s.OnTarget) {w : ω}
    (hw : ∀ c, ¬s.BoundTo c w) : (s.setWrapper w none).OnTarget := by
  refine ⟨fun c w' hbound => ?_, h.delivered⟩
  have hold : s.BoundTo c w' := hbound
  have hne : w' ≠ w := by
    intro heq
    subst heq
    exact hw c hold
  exact (holds_setWrapper_of_ne hne).2 (h.target c w' hold)

theorem OnTarget.deliver {s : Wrappers ω χ κ} (h : s.OnTarget) {c : χ} {w : ω}
    (hbound : s.BoundTo c w) {f : AsyncConnection χ κ → AsyncConnection χ κ}
    (hf : ∀ a, (f a).conn = a.conn) : (s.deliver c w f).OnTarget := by
  have hholds := h.target c w hbound
  rw [Wrappers.deliver, if_pos hholds]
  rcases hholds with ⟨a, ha, hconn⟩
  refine ⟨fun d w' hbound' => ?_, h.delivered⟩
  have htarget := h.target d w' hbound'
  by_cases hw : w' = w
  · subst hw
    rcases htarget with ⟨b, hb, hbconn⟩
    rw [ha] at hb
    cases hb
    rw [ha, Option.map_some, holds_setWrapper_self, hf]
    exact hbconn
  · exact (holds_setWrapper_of_ne hw).2 htarget

/-! ## Runs -/

theorem step_onTarget {s t : Wrappers ω χ κ} {i : WrapperInput ω χ} (h : s.OnTarget)
    (hc : s.LetsGo i) (hstep : s.step i = some t) : t.OnTarget := by
  cases i with
  | construct w conn =>
      rcases Option.ite_none_right_eq_some.1 hstep with ⟨hw, ⟨⟩⟩
      exact h.construct hw conn
  | moveConstruct w other =>
      simp only [step] at hstep
      split at hstep
      · next a hother =>
          rcases Option.ite_none_right_eq_some.1 hstep with ⟨hw, ⟨⟩⟩
          apply h.move hother
          intro c hbound
          exact absurd (h.target c w hbound) (not_holds_of_dead hw c)
      · cases hstep
  | moveAssign w other =>
      simp only [step] at hstep
      split at hstep
      · next a hother =>
          rcases Option.ite_none_right_eq_some.1 hstep with ⟨-, hstep⟩
          split at hstep
          · cases hstep
            exact h
          · next hne =>
              cases hstep
              apply h.move hother
              intro c hbound
              rcases hc with heq | hgives
              · exact absurd heq hne
              · rcases hgives c hbound with ⟨b, hb, hbconn⟩
                rw [hother] at hb
                cases hb
                exact hbconn
      · cases hstep
  | destroy w =>
      rcases Option.ite_none_right_eq_some.1 hstep with ⟨-, ⟨⟩⟩
      exact h.destroy hc
  | message c data =>
      simp only [step] at hstep
      split at hstep
      · next w hw =>
          cases hstep
          exact h.deliver (.inl hw) fun a => rfl
      · cases hstep
  | writeComplete c =>
      simp only [step] at hstep
      split at hstep
      · next w hw =>
          cases hstep
          exact h.deliver (.inr hw) fun a => rfl
      · cases hstep

theorem letsGo_of_onTarget {s t : Wrappers ω χ κ} {i : WrapperInput ω χ}
    (hstep : s.step i = some t) (ht : t.OnTarget) : s.LetsGo i := by
  cases i with
  | moveAssign w other =>
      simp only [step] at hstep
      split at hstep
      · next a hother =>
          rcases Option.ite_none_right_eq_some.1 hstep with ⟨-, hstep⟩
          split at hstep
          · next heq => exact .inl heq
          · cases hstep
            exact .inr fun c hbound => ⟨a, hother, ht.gives hbound⟩
      · cases hstep
  | destroy w =>
      rcases Option.ite_none_right_eq_some.1 hstep with ⟨-, ⟨⟩⟩
      intro c hbound
      exact not_holds_setWrapper_none (ht.target c w hbound)
  | _ => trivial

/-- Callbacks stay on target in exactly the runs that destroy no wrapper, and overwrite
none, while a connection points to it. -/
theorem callbacks_on_target_iff (is : List (WrapperInput ω χ)) :
    (machine ω χ κ).Always OnTarget new is ↔ (machine ω χ κ).Meets LetsGo new is := by
  apply Machine.always_iff_meets (I := OnTarget)
  · exact fun s hs => hs
  · intro s i t hs hc hstep
    exact step_onTarget hs hc hstep
  · intro s i t _ hstep ht
    exact letsGo_of_onTarget hstep ht
  · refine ⟨fun c w hbound => ?_, rfl⟩
    rcases hbound with hbound | hbound <;> cases hbound

/-- The wrapper of an open connection goes out of scope, and the next message is appended
to a wrapper that is gone. -/
theorem message_after_destroy :
    ¬(machine Nat Nat Nat).Always OnTarget new [.construct 0 (some 7), .destroy 0] ∧
      ∃ s : Wrappers Nat Nat Nat,
        (machine Nat Nat Nat).run new [.construct 0 (some 7), .destroy 0, .message 7 [1]] =
          some s ∧ s.misdelivered = true := by
  constructor
  · intro h
    have hend := h.last rfl
    exact not_holds_setWrapper_none (hend.target 7 0 (.inl rfl))
  · exact ⟨_, rfl, rfl⟩

end Wrappers

end Hayai
