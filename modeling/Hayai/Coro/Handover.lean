import Hayai.Coro.HeldRecv
import Hayai.Utils.BufferSpec

/-! # Moves beside deliveries

A move of a wrapper takes no lock and has several steps. The base loop makes them, in
`AcceptAwaiter::await_resume` and where the connection is passed on, while the I/O loop
delivers to the wrapper that the callbacks point to; a delivery is one step. `receivedData_`
is a real `Buffer` here: its move leaves the indices behind with an empty vector, and an
append may leave the vector. No coroutine receives from the connection yet.
-/

namespace Hayai

/-! ## The wrapper over a real buffer -/

namespace Buffer

open Storage

def initial : Buffer :=
  ⟨List.replicate (kCheapPrepend + kInitialSize) 0, kCheapPrepend, kCheapPrepend⟩

theorem new_kInitialSize : new kInitialSize = .ok initial := by
  rw [new, sizeT_of_lt (by decide), resize_ok (by decide)]
  simp [initial, bind, Except.bind, pure, Except.pure]

/-- What the implicit move of a `Buffer` leaves behind: `size_t` members keep their value. -/
def moved (b : Buffer) : Buffer := { b with buffer := [] }

theorem initial_wf : initial.Wf := by
  have hsize : initial.size = kCheapPrepend + kInitialSize := List.length_replicate
  refine ⟨Nat.le_refl _, Nat.le_refl _, ?_, ?_⟩
  · rw [hsize]
    exact Nat.le_add_right _ _
  · rw [hsize]
    decide

theorem initial_content : initial.content = [] := by
  rw [content, initial, Nat.sub_self, slice_zero]

/-- A buffer that was moved from claims almost all of the address space as writable, and has
no vector. -/
theorem append_moved {b : Buffer} (h : b.Wf) {data : List UInt8} (hdata : data ≠ [])
    (hlen : data.length ≤ maxSize) : b.moved.append data = .error .outOfBounds := by
  have hp := h.cheapPrepend
  have hr := h.reader_le
  have hw := h.writer_le
  have hs := h.size_lt
  have hmax := maxSize_lt
  have hpos : 0 < data.length := List.length_pos_iff.2 hdata
  have hreader : ¬b.readerIndex ≤ 0 := by
    rw [kCheapPrepend] at hp
    omega
  have hwritable : b.moved.writableBytes = 0 + 2 ^ 64 - b.readerIndex := if_neg hreader
  have hroom : ¬b.moved.writableBytes < data.length := by
    rw [hwritable]
    omega
  have hensure : b.moved.ensureWritableBytes data.length = .ok b.moved := by
    rw [ensureWritableBytes, if_neg hroom]
    rfl
  have hcopy : copyTo b.moved.buffer b.moved.writerIndex data = .error .outOfBounds := by
    apply copyTo_error
    simp only [moved, List.length_nil]
    omega
  rw [append, hensure]
  simp [bind, Except.bind, hcopy]

end Buffer

abbrev BufferedConnection (χ κ : Type) := AsyncConnection χ κ Buffer

namespace BufferedConnection

variable {χ κ : Type}

def new (conn : Option χ) : BufferedConnection χ κ := ⟨conn, none, .initial, none⟩

def moved (a : BufferedConnection χ κ) : BufferedConnection χ κ :=
  { a with conn := none, receivedData := a.receivedData.moved }

def onMessage (a : BufferedConnection χ κ) (data : List UInt8) :
    Except Fault (BufferedConnection χ κ) := do
  let receivedData ← a.receivedData.append data
  pure { a with receivedData, recvCoroutine := none }

end BufferedConnection

/-! ## The model -/

/-- The steps of a move, up to `bindCallbacks()` on the new object; `loop_` goes with
`conn_`. -/
inductive MoveStep where
  | conn
  | recvCoroutine
  | receivedData
  | sendCoroutine
  | bindCallbacks
  deriving DecidableEq, Repr

def moveSteps : List MoveStep :=
  [.conn, .recvCoroutine, .receivedData, .sendCoroutine, .bindCallbacks]

structure Move (ω : Type) where
  w : ω
  other : ω
  rest : List MoveStep
  deriving DecidableEq, Repr

/-- `delivered` has all bytes that the I/O loop delivered, `fault` the fault that a delivery
has ended in. -/
structure Handover (ω κ : Type) where
  wrappers : Wrappers ω Unit κ Buffer
  moving : Option (Move ω)
  delivered : List UInt8
  fault : Option Fault

inductive HandoverInput (ω : Type) where
  | message (data : List UInt8)
  | moveConstruct (w other : ω)
  | moveAssign (w other : ω)
  | advance
  | destroy (w : ω)
  deriving DecidableEq, Repr

namespace Wrappers

variable {ω κ : Type} [DecidableEq ω]

def moveStep (v : Wrappers ω Unit κ Buffer) (w other : ω) (step : MoveStep) :
    Wrappers ω Unit κ Buffer :=
  match v.wrapper w, v.wrapper other with
  | some a, some b =>
      match step with
      | .conn =>
          (v.setWrapper other (some { b with conn := none })).setWrapper w
            (some { a with conn := b.conn })
      | .recvCoroutine => v.setWrapper w (some { a with recvCoroutine := b.recvCoroutine })
      | .receivedData =>
          (v.setWrapper other (some { b with receivedData := b.receivedData.moved })).setWrapper w
            (some { a with receivedData := b.receivedData })
      | .sendCoroutine => v.setWrapper w (some { a with sendCoroutine := b.sendCoroutine })
      | .bindCallbacks => v.bindCallbacks w a.conn
  | _, _ => v

def onMessage (v : Wrappers ω Unit κ Buffer) (data : List UInt8) :
    Except Fault (Wrappers ω Unit κ Buffer) :=
  match v.messageCallback () with
  | none => .ok v
  | some c =>
      match v.wrapper c with
      | none => .ok { v with misdelivered := true }
      | some a => (BufferedConnection.onMessage a data).map fun a => v.setWrapper c (some a)

end Wrappers

namespace Handover

variable {ω κ : Type} [DecidableEq ω]

def moveConstruct (s : Handover ω κ) (w other : ω) : Handover ω κ :=
  { s with
    wrappers := s.wrappers.setWrapper w (some (BufferedConnection.new none))
    moving := some ⟨w, other, moveSteps⟩ }

omit [DecidableEq ω] in
def moveAssign (s : Handover ω κ) (w other : ω) : Handover ω κ :=
  { s with moving := some ⟨w, other, moveSteps⟩ }

def advance (s : Handover ω κ) (m : Move ω) : Option (Handover ω κ) :=
  match m.rest with
  | [] => none
  | [step] => some { s with wrappers := s.wrappers.moveStep m.w m.other step, moving := none }
  | step :: rest => some { s with
      wrappers := s.wrappers.moveStep m.w m.other step
      moving := some { m with rest } }

def message (s : Handover ω κ) (data : List UInt8) : Handover ω κ :=
  match s.wrappers.onMessage data with
  | .ok wrappers => { s with wrappers, delivered := s.delivered ++ data }
  | .error f => { s with delivered := s.delivered ++ data, fault := some f }

/-- Owners make one move at a time. They do not overwrite or destroy the wrapper that has the
connection. A read that calls back has read something, and no more than a vector can hold. -/
def stepSound (s : Handover ω κ) : HandoverInput ω → Option (Handover ω κ)
  | .message data =>
      if data ≠ [] ∧ data.length ≤ Buffer.maxSize then some (s.message data) else none
  | .moveConstruct w other =>
      if s.moving = none ∧ (s.wrappers.wrapper w).isNone ∧ (s.wrappers.wrapper other).isSome then
        some (s.moveConstruct w other)
      else none
  | .moveAssign w other =>
      if s.moving = none ∧ (s.wrappers.wrapper w).isSome ∧ (s.wrappers.wrapper other).isSome then
        if w = other then some s
        else if s.wrappers.Holds w () then none else some (s.moveAssign w other)
      else none
  | .advance => s.moving.bind s.advance
  | .destroy w =>
      if s.moving = none ∧ (s.wrappers.wrapper w).isSome ∧ ¬s.wrappers.Holds w () then
        some { s with wrappers := s.wrappers.setWrapper w none }
      else none

def step (s : Handover ω κ) (i : HandoverInput ω) : Option (Handover ω κ) :=
  if s.fault = none then s.stepSound i else none

def machine (ω κ : Type) [DecidableEq ω] : Machine (Handover ω κ) (HandoverInput ω) := ⟨step⟩

/-- `onConnection` has made the wrapper at `w`. -/
def start (w : ω) : Handover ω κ where
  wrappers := (Wrappers.new.setWrapper w (some (BufferedConnection.new (some ())))).bindCallbacks w
    (some ())
  moving := none
  delivered := []
  fault := none

/-! ## What is asked -/

def settle (s : Handover ω κ) : Wrappers ω Unit κ Buffer :=
  match s.moving with
  | none => s.wrappers
  | some m => m.rest.foldl (fun v step => v.moveStep m.w m.other step) s.wrappers

/-- All bytes delivered so far end up, in order, in the wrapper that ends up with the
connection. -/
def Intact (s : Handover ω κ) : Prop :=
  s.fault = none ∧ ∃ w a, s.settle.wrapper w = some a ∧ a.conn = some () ∧
    a.receivedData.content = s.delivered

omit [DecidableEq ω] in
/-- The callbacks still point to a wrapper that `receivedData_` has been moved out of. -/
def Emptied (s : Handover ω κ) : Prop :=
  ∃ m ∈ s.moving, MoveStep.receivedData ∉ m.rest ∧ s.wrappers.messageCallback () = some m.other

instance (s : Handover ω κ) : Decidable s.Emptied :=
  match h : s.moving with
  | none => .isFalse fun ⟨m, hm, _⟩ => by rw [h] at hm; cases hm
  | some m => decidable_of_iff
      (MoveStep.receivedData ∉ m.rest ∧ s.wrappers.messageCallback () = some m.other)
      ⟨fun hm => ⟨m, h, hm⟩, fun ⟨m', hm', hrest⟩ => by rw [h] at hm'; cases hm'; exact hrest⟩

omit [DecidableEq ω] in
def AppendFits (s : Handover ω κ) (data : List UInt8) : Prop :=
  ∀ c ∈ s.wrappers.messageCallback (), ∀ a ∈ s.wrappers.wrapper c,
    a.receivedData.Fits data.length

/-- Nothing is delivered between the transfer of `receivedData_` and `bindCallbacks()`, and
what is delivered has room. -/
def Clear (s : Handover ω κ) : HandoverInput ω → Prop
  | .message data => ¬s.Emptied ∧ s.AppendFits data
  | _ => True

end Handover

/-! ## One step of a move -/

namespace Wrappers

variable {ω κ : Type}

def bufferAt (v : Wrappers ω Unit κ Buffer) (c : ω) : Option Buffer :=
  (v.wrapper c).map AsyncConnection.receivedData

structure SameShape (v v' : Wrappers ω Unit κ Buffer) : Prop where
  conn : ∀ c, (v'.wrapper c).map AsyncConnection.conn = (v.wrapper c).map AsyncConnection.conn
  callback : v'.messageCallback () = v.messageCallback ()

theorem SameShape.holds {v v' : Wrappers ω Unit κ Buffer} (h : v.SameShape v') (c : ω) :
    v'.Holds c () ↔ v.Holds c () := by
  have hconn := h.conn c
  cases hv : v.wrapper c with
  | none =>
      rw [hv, Option.map_none, Option.map_eq_none_iff] at hconn
      simp [Holds, hv, hconn]
  | some a =>
      rw [hv, Option.map_some] at hconn
      obtain ⟨a', ha', hsame⟩ := Option.map_eq_some_iff.1 hconn
      simp [Holds, hv, ha', hsame]

theorem SameShape.bound {v v' : Wrappers ω Unit κ Buffer} (h : v.SameShape v') (hbound : v.Bound) :
    v'.Bound := by
  intro c
  rw [h.holds, h.callback]
  exact hbound c

theorem SameShape.isSome {v v' : Wrappers ω Unit κ Buffer} (h : v.SameShape v') (c : ω) :
    (v'.wrapper c).isSome = (v.wrapper c).isSome := by
  have hconn := congrArg Option.isSome (h.conn c)
  simpa using hconn

variable [DecidableEq ω]

theorem conn_setWrapper (v : Wrappers ω Unit κ Buffer) (w c : ω) (a : BufferedConnection Unit κ) :
    ((v.setWrapper w (some a)).wrapper c).map AsyncConnection.conn =
      if c = w then some a.conn else (v.wrapper c).map AsyncConnection.conn := by
  by_cases hc : c = w
  · subst hc
    simp [setWrapper]
  · simp [setWrapper, hc]

/-- A step of a move depends on the shape only, as far as the shape goes. -/
theorem SameShape.moveStep {v v' : Wrappers ω Unit κ Buffer} (h : v.SameShape v') (w other : ω)
    (step : MoveStep) : (v.moveStep w other step).SameShape (v'.moveStep w other step) := by
  have hw := h.conn w
  have hother := h.conn other
  unfold Wrappers.moveStep
  cases hvw : v.wrapper w with
  | none =>
      rw [hvw, Option.map_none, Option.map_eq_none_iff] at hw
      simpa [hw] using h
  | some a =>
      rw [hvw, Option.map_some] at hw
      obtain ⟨a', ha', hconn⟩ := Option.map_eq_some_iff.1 hw
      cases hvo : v.wrapper other with
      | none =>
          rw [hvo, Option.map_none, Option.map_eq_none_iff] at hother
          simpa [hother, ha'] using h
      | some b =>
          rw [hvo, Option.map_some] at hother
          obtain ⟨b', hb', hconn'⟩ := Option.map_eq_some_iff.1 hother
          simp only [ha', hb']
          cases step with
          | bindCallbacks =>
              simp only [hconn]
              refine ⟨fun c => ?_, ?_⟩
              · cases a.conn <;> exact h.conn c
              · cases a.conn <;> simp [bindCallbacks, h.callback]
          | _ =>
              refine ⟨fun c => ?_, h.callback⟩
              simp only [conn_setWrapper, hconn, hconn', h.conn c]

theorem SameShape.foldl {v v' : Wrappers ω Unit κ Buffer} (h : v.SameShape v') (w other : ω)
    (rest : List MoveStep) :
    (rest.foldl (fun v step => v.moveStep w other step) v).SameShape
      (rest.foldl (fun v step => v.moveStep w other step) v') := by
  induction rest generalizing v v' with
  | nil => exact h
  | cons step rest ih => exact ih (h.moveStep w other step)

theorem bufferAt_setWrapper (v : Wrappers ω Unit κ Buffer) (w c : ω)
    (a : BufferedConnection Unit κ) : (v.setWrapper w (some a)).bufferAt c =
      if c = w then some a.receivedData else v.bufferAt c := by
  by_cases hc : c = w
  · subst hc
    simp [bufferAt, setWrapper]
  · simp [bufferAt, setWrapper, hc]

theorem isSome_setWrapper {v : Wrappers ω Unit κ Buffer} {w : ω} (hw : (v.wrapper w).isSome = true)
    (a : BufferedConnection Unit κ) (c : ω) :
    ((v.setWrapper w (some a)).wrapper c).isSome = (v.wrapper c).isSome := by
  by_cases hc : c = w
  · subst hc
    simp [setWrapper, hw]
  · simp [setWrapper, hc]

theorem isSome_moveStep (v : Wrappers ω Unit κ Buffer) (w other : ω) (step : MoveStep) (c : ω) :
    ((v.moveStep w other step).wrapper c).isSome = (v.wrapper c).isSome := by
  unfold moveStep
  split
  · next a b hw hother =>
      have hw' : (v.wrapper w).isSome = true := by rw [hw]; rfl
      have hother' : (v.wrapper other).isSome = true := by rw [hother]; rfl
      cases step with
      | bindCallbacks => cases a.conn <;> rfl
      | recvCoroutine | sendCoroutine => exact isSome_setWrapper hw' _ c
      | conn | receivedData =>
          dsimp only
          rw [isSome_setWrapper _ _ c, isSome_setWrapper hother' _ c]
          rw [isSome_setWrapper hother' _ w]
          exact hw'
  · rfl

/-- Only the transfer of `receivedData_` moves bytes. -/
theorem bufferAt_moveStep {v : Wrappers ω Unit κ Buffer} {w other : ω}
    (hw : (v.wrapper w).isSome = true) (hother : (v.wrapper other).isSome = true)
    (step : MoveStep) (c : ω) : (v.moveStep w other step).bufferAt c =
      if step = .receivedData then
        if c = w then v.bufferAt other
        else if c = other then (v.bufferAt other).map Buffer.moved else v.bufferAt c
      else v.bufferAt c := by
  obtain ⟨a, ha⟩ := Option.isSome_iff_exists.1 hw
  obtain ⟨b, hb⟩ := Option.isSome_iff_exists.1 hother
  have hdata : v.bufferAt w = some a.receivedData := by simp [bufferAt, ha]
  have hdata' : v.bufferAt other = some b.receivedData := by simp [bufferAt, hb]
  unfold moveStep
  simp only [ha, hb]
  cases step with
  | conn =>
      simp only [bufferAt_setWrapper, reduceCtorEq, if_false]
      split
      · next hc => rw [hc, hdata]
      · split
        · next hc => rw [hc, hdata']
        · rfl
  | recvCoroutine | sendCoroutine =>
      simp only [bufferAt_setWrapper, reduceCtorEq, if_false]
      split
      · next hc => rw [hc, hdata]
      · rfl
  | receivedData => simp only [bufferAt_setWrapper, if_true, hdata', Option.map_some]
  | bindCallbacks =>
      simp only [reduceCtorEq, if_false]
      cases a.conn <;> rfl

theorem isSome_foldl (v : Wrappers ω Unit κ Buffer) (w other : ω) (rest : List MoveStep) (c : ω) :
    ((rest.foldl (fun v step => v.moveStep w other step) v).wrapper c).isSome =
      (v.wrapper c).isSome := by
  induction rest generalizing v with
  | nil => rfl
  | cons step rest ih => rw [List.foldl_cons, ih, isSome_moveStep]

theorem messageCallback_moveStep (v : Wrappers ω Unit κ Buffer) (w other : ω) {step : MoveStep}
    (h : step ≠ .bindCallbacks) :
    (v.moveStep w other step).messageCallback () = v.messageCallback () := by
  unfold moveStep
  split
  · cases step with
    | bindCallbacks => exact (h rfl).elim
    | _ => rfl
  · rfl

/-! ## One delivery -/

theorem sameShape_setWrapper {v : Wrappers ω Unit κ Buffer} {w : ω}
    {a a' : BufferedConnection Unit κ} (ha : v.wrapper w = some a) (hconn : a'.conn = a.conn) :
    v.SameShape (v.setWrapper w (some a')) := by
  refine ⟨fun c => ?_, rfl⟩
  rw [conn_setWrapper]
  split
  · next hc => rw [hc, ha, Option.map_some, hconn]
  · rfl

theorem onMessage_eq {v : Wrappers ω Unit κ Buffer} {c : ω} {a : BufferedConnection Unit κ}
    (hc : v.messageCallback () = some c) (ha : v.wrapper c = some a) (data : List UInt8) :
    v.onMessage data = (a.receivedData.append data).map fun b =>
      v.setWrapper c (some { a with receivedData := b, recvCoroutine := none }) := by
  simp only [onMessage, hc, ha, BufferedConnection.onMessage]
  cases a.receivedData.append data <;> rfl

/-! ## Whole moves -/

/-- Until `receivedData_` is transferred its bytes are where the move comes from. -/
theorem bufferAt_foldl {v : Wrappers ω Unit κ Buffer} {w other : ω} {rest : List MoveStep}
    (hw : (v.wrapper w).isSome = true) (hother : (v.wrapper other).isSome = true)
    (hnodup : rest.Nodup) (c : ω) :
    (rest.foldl (fun v step => v.moveStep w other step) v).bufferAt c =
      if MoveStep.receivedData ∈ rest then
        if c = w then v.bufferAt other
        else if c = other then (v.bufferAt other).map Buffer.moved else v.bufferAt c
      else v.bufferAt c := by
  induction rest generalizing v with
  | nil => simp
  | cons step rest ih =>
      rw [List.foldl_cons, ih (by rw [isSome_moveStep]; exact hw)
        (by rw [isSome_moveStep]; exact hother) (List.nodup_cons.1 hnodup).2]
      by_cases hstep : step = .receivedData
      · subst hstep
        rw [if_neg (List.nodup_cons.1 hnodup).1, if_pos List.mem_cons_self,
          bufferAt_moveStep hw hother, if_pos rfl]
      · have hmem : MoveStep.receivedData ∈ step :: rest ↔ MoveStep.receivedData ∈ rest := by
          simp [Ne.symm hstep]
        simp only [hmem, bufferAt_moveStep hw hother, if_neg hstep]

/-- All steps of a move together are the move in one step. -/
theorem foldl_moveSteps {v : Wrappers ω Unit κ Buffer} {w other : ω}
    {a b : BufferedConnection Unit κ} (hw : v.wrapper w = some a)
    (hother : v.wrapper other = some b) (hne : w ≠ other) :
    moveSteps.foldl (fun v step => v.moveStep w other step) v =
      v.transfer w other b (BufferedConnection.moved b) := by
  have hne' := Ne.symm hne
  have hcells : ∀ x y x' y' : Option (BufferedConnection Unit κ),
      Function.update (Function.update (Function.update (Function.update v.wrapper other x) w y)
        other x') w y' = Function.update (Function.update v.wrapper other x') w y' := by
    intro x y x' y'
    funext c
    by_cases hc : c = w
    · simp [hc]
    · by_cases hc' : c = other <;> simp [hc, hc', hne']
  simp [moveSteps, moveStep, transfer, setWrapper, hw, hother, hne', BufferedConnection.moved,
    hcells]

end Wrappers

namespace Handover

variable {ω κ : Type} [DecidableEq ω]

/-! ## Moves under way -/

/-- A move that has some of its steps still to make. The callbacks point to the wrapper moved
from and will point to the one moved to, or they have nothing to do with the two. -/
structure Under (s : Handover ω κ) (m : Move ω) : Prop where
  apart : m.w ≠ m.other
  rest : m.rest ≠ [] ∧ m.rest <:+ moveSteps
  alive : (s.wrappers.wrapper m.w).isSome = true ∧ (s.wrappers.wrapper m.other).isSome = true
  target : (s.wrappers.messageCallback () = some m.other ∧
      s.settle.messageCallback () = some m.w) ∨
    ∃ c, s.wrappers.messageCallback () = some c ∧ s.settle.messageCallback () = some c ∧
      c ≠ m.w ∧ c ≠ m.other

/-- The connection ends up in one wrapper, which the callbacks end up pointing to. -/
structure Whole (s : Handover ω κ) : Prop where
  under : ∀ m, s.moving = some m → s.Under m
  bound : s.settle.Bound
  held : ∃ c, s.settle.messageCallback () = some c

/-- No run has ended in a fault, the bytes end up in the wrapper that the callbacks end up
pointing to, and an emptied wrapper has the buffer that a move leaves behind. -/
structure Delivers (s : Handover ω κ) : Prop where
  sound : s.fault = none
  settled : ∀ c, s.settle.messageCallback () = some c →
    ∃ b, s.settle.bufferAt c = some b ∧ b.Wf ∧ b.content = s.delivered
  emptied : s.Emptied → ∃ c, s.wrappers.messageCallback () = some c ∧
    ∃ b : Buffer, b.Wf ∧ s.wrappers.bufferAt c = some b.moved

theorem Whole.intact {s : Handover ω κ} (h : s.Whole) (hdelivers : s.Delivers) : s.Intact := by
  obtain ⟨c, hc⟩ := h.held
  obtain ⟨a, ha, hconn⟩ := (h.bound c).2 hc
  obtain ⟨b, hb, -, hcontent⟩ := hdelivers.settled c hc
  rw [Wrappers.bufferAt, ha, Option.map_some, Option.some.injEq] at hb
  exact ⟨hdelivers.sound, c, a, ha, hconn, hb ▸ hcontent⟩

theorem settle_of_none {s : Handover ω κ} (h : s.moving = none) : s.settle = s.wrappers := by
  simp [settle, h]

theorem settle_of_some {s : Handover ω κ} {m : Move ω} (h : s.moving = some m) :
    s.settle = m.rest.foldl (fun v step => v.moveStep m.w m.other step) s.wrappers := by
  simp [settle, h]

/-- What a move makes of the wrappers is settled before its steps are made. -/
theorem settle_advance {s t : Handover ω κ} {m : Move ω} (hm : s.moving = some m)
    (hstep : s.advance m = some t) : t.settle = s.settle ∧ t.delivered = s.delivered := by
  rw [settle_of_some hm]
  unfold advance at hstep
  split at hstep
  · cases hstep
  · next step hrest =>
      cases hstep
      exact ⟨by rw [hrest]; rfl, rfl⟩
  · next step rest hrest =>
      cases hstep
      exact ⟨by rw [hrest]; rfl, rfl⟩

theorem settle_begin {v : Wrappers ω Unit κ Buffer} {w other : ω} {a b : BufferedConnection Unit κ}
    (hw : v.wrapper w = some a) (hother : v.wrapper other = some b) (hne : w ≠ other)
    (delivered : List UInt8) (fault : Option Fault) :
    (⟨v, some ⟨w, other, moveSteps⟩, delivered, fault⟩ : Handover ω κ).settle =
      v.transfer w other b (BufferedConnection.moved b) :=
  (settle_of_some rfl).trans (Wrappers.foldl_moveSteps hw hother hne)

omit [DecidableEq ω] in
theorem emptied_iff {s : Handover ω κ} {m : Move ω} (hm : s.moving = some m) :
    s.Emptied ↔ MoveStep.receivedData ∉ m.rest ∧
      s.wrappers.messageCallback () = some m.other := by
  constructor
  · rintro ⟨m', hm', hrest⟩
    rw [hm] at hm'
    cases hm'
    exact hrest
  · exact fun hrest => ⟨m, hm, hrest⟩

omit [DecidableEq ω] in
theorem not_emptied_of_none {s : Handover ω κ} (hm : s.moving = none) : ¬s.Emptied := by
  rintro ⟨m, hmem, -⟩
  rw [hm] at hmem
  cases hmem

/-- A wrapper that has not been emptied has the buffer that ends up with the connection. -/
theorem Whole.settled {s : Handover ω κ} (h : s.Whole) (hclear : ¬s.Emptied) {c d : ω}
    (hc : s.wrappers.messageCallback () = some c) (hd : s.settle.messageCallback () = some d) :
    s.settle.bufferAt d = s.wrappers.bufferAt c := by
  cases hm : s.moving with
  | none =>
      rw [settle_of_none hm] at hd ⊢
      rw [hc] at hd
      cases hd
      rfl
  | some m =>
      have hunder := h.under m hm
      have hnodup : m.rest.Nodup := hunder.rest.2.sublist.nodup (by decide)
      have hfold := Wrappers.bufferAt_foldl hunder.alive.1 hunder.alive.2 hnodup d
      rw [← settle_of_some hm] at hfold
      rw [hfold]
      rcases hunder.target with ⟨hnow, hthen⟩ | ⟨c', hnow, hthen, hcw, hco⟩
      · rw [hc] at hnow
        rw [hd] at hthen
        cases hnow
        cases hthen
        have hrest : MoveStep.receivedData ∈ m.rest := by
          by_contra hrest
          exact hclear ((emptied_iff hm).2 ⟨hrest, hc⟩)
        rw [if_pos hrest, if_pos rfl]
      · rw [hc] at hnow
        rw [hd] at hthen
        cases hnow
        cases hthen
        rw [if_neg hcw, if_neg hco, ite_self]

/-- The callbacks point to a wrapper that is alive. -/
theorem Whole.target {s : Handover ω κ} (h : s.Whole) :
    ∃ c a, s.wrappers.messageCallback () = some c ∧ s.wrappers.wrapper c = some a := by
  cases hm : s.moving with
  | none =>
      have hbound := h.bound
      have hheld := h.held
      rw [settle_of_none hm] at hbound hheld
      obtain ⟨c, hc⟩ := hheld
      obtain ⟨a, ha, -⟩ := (hbound c).2 hc
      exact ⟨c, a, hc, ha⟩
  | some m =>
      have hunder := h.under m hm
      rcases hunder.target with ⟨hnow, -⟩ | ⟨c, hnow, hthen, -, -⟩
      · obtain ⟨a, ha⟩ := Option.isSome_iff_exists.1 hunder.alive.2
        exact ⟨m.other, a, hnow, ha⟩
      · obtain ⟨a, ha, -⟩ := (h.bound c).2 hthen
        have halive : (s.wrappers.wrapper c).isSome = true := by
          rw [← Wrappers.isSome_foldl s.wrappers m.w m.other m.rest c, ← settle_of_some hm, ha]
          rfl
        obtain ⟨b, hb⟩ := Option.isSome_iff_exists.1 halive
        exact ⟨c, b, hnow, hb⟩

theorem Whole.of_shape {s t : Handover ω κ} (h : s.Whole) (hmoving : t.moving = s.moving)
    (hshape : s.wrappers.SameShape t.wrappers) :
    t.Whole ∧ t.settle.messageCallback () = s.settle.messageCallback () := by
  have hsettle : s.settle.SameShape t.settle := by
    unfold settle
    rw [hmoving]
    cases s.moving with
    | none => exact hshape
    | some m => exact hshape.foldl m.w m.other m.rest
  refine ⟨⟨?_, hsettle.bound h.bound, ?_⟩, hsettle.callback⟩
  · intro m hm
    have hunder := h.under m (hmoving.symm.trans hm)
    refine ⟨hunder.apart, hunder.rest, ?_, ?_⟩
    · rw [hshape.isSome, hshape.isSome]
      exact hunder.alive
    · rw [hshape.callback, hsettle.callback]
      exact hunder.target
  · rw [hsettle.callback]
    exact h.held

/-! ## Steps -/

omit [DecidableEq ω] in
theorem ne_bindCallbacks {step next : MoveStep} {rest : List MoveStep}
    (h : step :: next :: rest <:+ moveSteps) : step ≠ .bindCallbacks := by
  rintro rfl
  simp [moveSteps, List.suffix_cons_iff] at h

theorem Whole.advance {s t : Handover ω κ} (h : s.Whole) {m : Move ω} (hm : s.moving = some m)
    (hstep : s.advance m = some t) : t.Whole := by
  have hsettle := (settle_advance hm hstep).1
  refine ⟨?_, by rw [hsettle]; exact h.bound, by rw [hsettle]; exact h.held⟩
  have hunder := h.under m hm
  unfold Handover.advance at hstep
  split at hstep
  · cases hstep
  · cases hstep
    nofun
  · next step rest hne hrest =>
      cases hstep
      rintro m' ⟨⟩
      have hsuffix : step :: rest <:+ moveSteps := by
        rw [← hrest]
        exact hunder.rest.2
      cases rest with
      | nil => exact (hne rfl).elim
      | cons next rest =>
          have hcallback := Wrappers.messageCallback_moveStep s.wrappers m.w m.other
            (ne_bindCallbacks hsuffix)
          refine ⟨hunder.apart, ⟨nofun, (List.suffix_cons step _).trans hsuffix⟩, ?_, ?_⟩
          · simp only [Wrappers.isSome_moveStep]
            exact hunder.alive
          · rw [hsettle]
            simp only [hcallback]
            exact hunder.target

/-- `receivedData_` of the wrapper moved from is left behind empty. -/
theorem Delivers.advance {s t : Handover ω κ} (h : s.Delivers) (hwhole : s.Whole) {m : Move ω}
    (hm : s.moving = some m) (hstep : s.advance m = some t) : t.Delivers := by
  have hunder := hwhole.under m hm
  obtain ⟨hsettle, hdelivered⟩ := settle_advance hm hstep
  have hsettled : ∀ c, t.settle.messageCallback () = some c →
      ∃ b, t.settle.bufferAt c = some b ∧ b.Wf ∧ b.content = t.delivered := by
    rw [hsettle, hdelivered]
    exact h.settled
  unfold Handover.advance at hstep
  split at hstep
  · cases hstep
  · cases hstep
    exact ⟨h.sound, hsettled, fun hemptied => absurd hemptied (not_emptied_of_none rfl)⟩
  · next step rest hne hrest =>
      cases hstep
      refine ⟨h.sound, hsettled, ?_⟩
      rw [emptied_iff rfl]
      rintro ⟨hgone, hcallback⟩
      have hsame : s.wrappers.messageCallback () = some m.other := by
        rw [← hcallback]
        refine (Wrappers.messageCallback_moveStep s.wrappers m.w m.other ?_).symm
        cases rest with
        | nil => exact (hne rfl).elim
        | cons next rest =>
            have hsuffix : step :: next :: rest <:+ moveSteps := by
              rw [← hrest]
              exact hunder.rest.2
            exact ne_bindCallbacks hsuffix
      refine ⟨m.other, hcallback, ?_⟩
      have hbuffer := Wrappers.bufferAt_moveStep hunder.alive.1 hunder.alive.2 step m.other
      by_cases hdata : step = .receivedData
      · have hclear : ¬s.Emptied := by
          rw [emptied_iff hm, hrest, hdata]
          exact fun hemptied => hemptied.1 List.mem_cons_self
        obtain ⟨c, hc⟩ := hwhole.held
        obtain ⟨b, hb, hwf, -⟩ := h.settled c hc
        rw [hwhole.settled hclear hsame hc] at hb
        refine ⟨b, hwf, ?_⟩
        rw [hbuffer, if_pos hdata, if_neg (Ne.symm hunder.apart), if_pos rfl, hb, Option.map_some]
      · have hemptied : s.Emptied := by
          rw [emptied_iff hm, hrest, List.mem_cons, not_or]
          exact ⟨⟨Ne.symm hdata, hgone⟩, hsame⟩
        obtain ⟨c, hc, b, hwf, hb⟩ := h.emptied hemptied
        rw [hsame, Option.some.injEq] at hc
        subst hc
        exact ⟨b, hwf, by rw [hbuffer, if_neg hdata, hb]⟩

theorem whole_of_bound {v : Wrappers ω Unit κ Buffer} (hbound : v.Bound)
    (hheld : ∃ c, v.messageCallback () = some c) (delivered : List UInt8)
    (fault : Option Fault) : (⟨v, none, delivered, fault⟩ : Handover ω κ).Whole :=
  ⟨nofun, hbound, hheld⟩

omit [DecidableEq ω] in
theorem bufferAt_of_callback {v : Wrappers ω Unit κ Buffer} {c : ω}
    (hc : v.messageCallback () = some c) :
    v.bufferAt c = v.held.map AsyncConnection.receivedData := by
  rw [Wrappers.held, hc, Option.bind_some]
  rfl

theorem begin_whole {v : Wrappers ω Unit κ Buffer} {w other : ω} {a b : BufferedConnection Unit κ}
    (hw : v.wrapper w = some a) (hother : v.wrapper other = some b) (hne : w ≠ other)
    (hbound : v.Bound) (hfree : ¬v.Holds w ()) (hheld : ∃ c, v.messageCallback () = some c)
    {delivered : List UInt8} (hdata : ∀ c, v.messageCallback () = some c →
      ∃ b, v.bufferAt c = some b ∧ b.Wf ∧ b.content = delivered) :
    (⟨v, some ⟨w, other, moveSteps⟩, delivered, none⟩ : Handover ω κ).Whole ∧
      (⟨v, some ⟨w, other, moveSteps⟩, delivered, none⟩ : Handover ω κ).Delivers := by
  obtain ⟨c, hc⟩ := hheld
  have hsettle := settle_begin hw hother hne delivered none
  have hmoved := v.messageCallback_transfer w other b (BufferedConnection.moved b)
  have hholds := (hbound c).2 hc
  have hcw : c ≠ w := by
    rintro rfl
    exact hfree hholds
  have htarget : (c = other ∧
        (v.transfer w other b (BufferedConnection.moved b)).messageCallback () = some w) ∨
      (c ≠ other ∧
        (v.transfer w other b (BufferedConnection.moved b)).messageCallback () = some c) := by
    by_cases hco : c = other
    · subst hco
      obtain ⟨b', hb', hconn⟩ := hholds
      rw [hother] at hb'
      cases hb'
      exact .inl ⟨rfl, by rw [hmoved, if_pos hconn]⟩
    · have hconn : b.conn ≠ some () := by
        intro hconn
        have hboth := (hbound other).1 ⟨b, hother, hconn⟩
        rw [hc] at hboth
        cases hboth
        exact hco rfl
      exact .inr ⟨hco, by rw [hmoved, if_neg hconn, hc]⟩
  refine ⟨⟨?_, ?_, ?_⟩, rfl, ?_, ?_⟩
  · rintro m ⟨⟩
    refine ⟨hne, ⟨nofun, List.suffix_refl _⟩, ⟨by rw [hw]; rfl, by rw [hother]; rfl⟩, ?_⟩
    rw [hsettle]
    rcases htarget with ⟨rfl, hnow⟩ | ⟨hco, hnow⟩
    · exact .inl ⟨hc, hnow⟩
    · exact .inr ⟨c, hc, hnow, hcw, hco⟩
  · rw [hsettle]
    exact hbound.transfer _ rfl hother hfree
  · rw [hsettle]
    rcases htarget with ⟨-, hnow⟩ | ⟨-, hnow⟩
    · exact ⟨w, hnow⟩
    · exact ⟨c, hnow⟩
  · intro c' hc'
    rw [hsettle] at hc' ⊢
    rw [bufferAt_of_callback hc', hbound.held_transfer _ hother hfree, ← bufferAt_of_callback hc]
    exact hdata c hc
  · rw [emptied_iff rfl]
    intro hemptied
    have hmem : MoveStep.receivedData ∈ moveSteps := by decide
    exact absurd hmem hemptied.1

theorem bound_elsewhere {v : Wrappers ω Unit κ Buffer} (h : v.Bound) {w : ω}
    (hw : ¬v.Holds w ()) {a : Option (BufferedConnection Unit κ)}
    (ha : ∀ b, a = some b → b.conn = none) :
    (v.setWrapper w a).Bound ∧ ∀ c, v.messageCallback () = some c →
      (v.setWrapper w a).bufferAt c = v.bufferAt c := by
  constructor
  · intro c
    by_cases hc : c = w
    · subst hc
      refine iff_of_false ?_ fun hcallback => hw ((h c).2 hcallback)
      rintro ⟨b, hb, hconn⟩
      have hnone := ha b (by simpa [Wrappers.setWrapper] using hb)
      rw [hconn] at hnone
      cases hnone
    · rw [Wrappers.holds_setWrapper_of_ne hc]
      exact h c
  · intro c hcallback
    have hc : c ≠ w := by
      rintro rfl
      exact hw ((h c).2 hcallback)
    simp [Wrappers.bufferAt, Wrappers.setWrapper, hc]

/-- Whatever the owners do keeps the bytes where they are going. -/
theorem step_owner {s t : Handover ω κ} {i : HandoverInput ω} (h : s.Whole ∧ s.Delivers)
    (hi : ∀ data, i ≠ .message data) (hstep : s.stepSound i = some t) : t.Whole ∧ t.Delivers := by
  obtain ⟨hwhole, hdelivers⟩ := h
  have hsound := hdelivers.sound
  -- Between moves the wrappers are settled.
  have hidle : s.moving = none → s.wrappers.Bound ∧ (∃ c, s.wrappers.messageCallback () = some c) ∧
      ∀ c, s.wrappers.messageCallback () = some c →
        ∃ b, s.wrappers.bufferAt c = some b ∧ b.Wf ∧ b.content = s.delivered := by
    intro hm
    rw [← settle_of_none hm]
    exact ⟨hwhole.bound, hwhole.held, hdelivers.settled⟩
  cases i with
  | message data => exact (hi data rfl).elim
  | moveConstruct w other =>
      rcases Option.ite_none_right_eq_some.1 hstep with ⟨⟨hm, hw, hother⟩, ⟨⟩⟩
      obtain ⟨hbound, hheld, hbytes⟩ := hidle hm
      obtain ⟨b, hb⟩ := Option.isSome_iff_exists.1 hother
      have hne : w ≠ other := by
        rintro rfl
        rw [hb] at hw
        cases hw
      obtain ⟨hbound', hdata⟩ := bound_elsewhere hbound (Wrappers.not_holds_of_dead hw ())
        (a := some (BufferedConnection.new none)) (by rintro a ⟨⟩; rfl)
      simp only [moveConstruct, hsound]
      apply begin_whole (a := BufferedConnection.new none) (b := b) _ _ hne hbound' _ hheld
      · intro c hc
        rw [hdata c hc]
        exact hbytes c hc
      · simp [Wrappers.setWrapper]
      · simpa [Wrappers.setWrapper, Ne.symm hne] using hb
      · rw [Wrappers.holds_setWrapper_self]
        intro hconn
        cases hconn
  | moveAssign w other =>
      rcases Option.ite_none_right_eq_some.1 hstep with ⟨⟨hm, hw, hother⟩, hstep⟩
      split at hstep
      · cases hstep
        exact ⟨hwhole, hdelivers⟩
      · next hne =>
          rcases Option.ite_none_left_eq_some.1 hstep with ⟨hfree, ⟨⟩⟩
          obtain ⟨hbound, hheld, hbytes⟩ := hidle hm
          obtain ⟨a, ha⟩ := Option.isSome_iff_exists.1 hw
          obtain ⟨b, hb⟩ := Option.isSome_iff_exists.1 hother
          simp only [moveAssign, hsound]
          exact begin_whole ha hb hne hbound hfree hheld hbytes
  | advance =>
      obtain ⟨m, hm, hstep⟩ := Option.bind_eq_some_iff.1 hstep
      exact ⟨hwhole.advance hm hstep, hdelivers.advance hwhole hm hstep⟩
  | destroy w =>
      rcases Option.ite_none_right_eq_some.1 hstep with ⟨⟨hm, -, hfree⟩, ⟨⟩⟩
      obtain ⟨hbound, hheld, hbytes⟩ := hidle hm
      obtain ⟨hbound', hdata⟩ := bound_elsewhere hbound hfree (a := none) (by simp)
      rw [hm]
      refine ⟨whole_of_bound hbound' hheld _ _, hsound, fun c hc => ?_,
        fun hemptied => absurd hemptied (not_emptied_of_none rfl)⟩
      have hsame : (s.wrappers.setWrapper w none).bufferAt c = s.wrappers.bufferAt c := hdata c hc
      rw [settle_of_none rfl, hsame]
      exact hbytes c hc

/-! ## Deliveries -/

/-- A delivery reaches the wrapper that ends up with the connection where it is clear, and
ends in a fault elsewhere. -/
theorem step_message {s t : Handover ω κ} {data : List UInt8} (h : s.Whole ∧ s.Delivers)
    (hstep : s.stepSound (.message data) = some t) :
    (s.Clear (.message data) → t.Whole ∧ t.Delivers) ∧
      (t.fault = none → s.Clear (.message data)) := by
  obtain ⟨hwhole, hdelivers⟩ := h
  rcases Option.ite_none_right_eq_some.1 hstep with ⟨⟨hdata, hlen⟩, ⟨⟩⟩
  obtain ⟨d, hd⟩ := hwhole.held
  obtain ⟨c, a, hc, ha⟩ := hwhole.target
  have honMessage := Wrappers.onMessage_eq hc ha data
  by_cases hemptied : s.Emptied
  · refine ⟨fun hclear => absurd hemptied hclear.1, fun hfault => ?_⟩
    obtain ⟨c', hc', b, hwf, hb⟩ := hdelivers.emptied hemptied
    rw [hc, Option.some.injEq] at hc'
    subst hc'
    rw [Wrappers.bufferAt, ha, Option.map_some, Option.some.injEq] at hb
    rw [hb, Buffer.append_moved hwf hdata hlen] at honMessage
    simp only [message, honMessage] at hfault
    cases hfault
  · obtain ⟨b, hb, hwf, hcontent⟩ := hdelivers.settled d hd
    rw [hwhole.settled hemptied hc hd, Wrappers.bufferAt, ha, Option.map_some,
      Option.some.injEq] at hb
    subst hb
    have hclear : s.Clear (.message data) ↔ a.receivedData.Fits data.length := by
      simp only [Clear, AppendFits, hc, ha, Option.mem_def, Option.some.injEq, forall_eq']
      exact and_iff_right hemptied
    rw [hclear]
    by_cases hfits : a.receivedData.Fits data.length
    · refine ⟨fun _ => ?_, fun _ => hfits⟩
      obtain ⟨b, happend, hwf', hcontent'⟩ := Buffer.append_spec data hwf hfits
      rw [happend] at honMessage
      have hmessage : s.message data = { s with
          wrappers := s.wrappers.setWrapper c
            (some { a with receivedData := b, recvCoroutine := none })
          delivered := s.delivered ++ data } := by
        unfold message
        rw [honMessage]
        rfl
      rw [hmessage]
      have hafter := hwhole.of_shape
        (t := { s with
          wrappers := s.wrappers.setWrapper c
            (some { a with receivedData := b, recvCoroutine := none })
          delivered := s.delivered ++ data }) rfl (Wrappers.sameShape_setWrapper ha rfl)
      refine ⟨hafter.1, hdelivers.sound, fun d' hd' => ⟨b, ?_, hwf', ?_⟩,
        fun hgone => absurd hgone hemptied⟩
      · have hbuffer := hafter.1.settled hemptied hc hd'
        rw [hbuffer, Wrappers.bufferAt_setWrapper, if_pos rfl]
      · rw [hcontent', hcontent]
    · refine ⟨fun h => absurd h hfits, fun hfault => ?_⟩
      obtain ⟨f, hf⟩ := Buffer.append_faults data hwf hlen hfits
      rw [hf] at honMessage
      simp only [message, honMessage] at hfault
      cases hfault

/-! ## Runs -/

theorem start_whole (w : ω) :
    (start w : Handover ω κ).Whole ∧ (start w : Handover ω κ).Delivers := by
  have hcallback : (start w : Handover ω κ).wrappers.messageCallback () = some w := by
    simp [start, Wrappers.bindCallbacks]
  have hwrapper : (start w : Handover ω κ).wrappers.wrapper w =
      some (BufferedConnection.new (some ())) := by
    simp [start, Wrappers.bindCallbacks, Wrappers.setWrapper]
  have hsettle : (start w : Handover ω κ).settle = (start w).wrappers := settle_of_none rfl
  refine ⟨whole_of_bound ?_ ⟨w, hcallback⟩ [] none, rfl, ?_,
    fun hemptied => absurd hemptied (not_emptied_of_none rfl)⟩
  · intro c
    rw [hcallback, Option.some.injEq]
    constructor
    · rintro ⟨a, ha, -⟩
      by_contra hne
      simp [start, Wrappers.bindCallbacks, Wrappers.setWrapper, Wrappers.new, Ne.symm hne] at ha
    · rintro rfl
      exact ⟨_, hwrapper, rfl⟩
  · intro c hc
    rw [hsettle, hcallback, Option.some.injEq] at hc
    subst hc
    refine ⟨.initial, ?_, Buffer.initial_wf, Buffer.initial_content⟩
    rw [hsettle, Wrappers.bufferAt, hwrapper]
    rfl

/-- Handing the connection on loses nothing for as long as nothing is delivered between the
transfer of `receivedData_` and `bindCallbacks()` and all that is delivered has room, and no
longer. -/
theorem intact_iff_clear (w : ω) (is : List (HandoverInput ω)) :
    (machine ω κ).Always Intact (start w) is ↔ (machine ω κ).Meets Clear (start w) is := by
  apply Machine.always_iff_meets (I := fun s => s.Whole ∧ s.Delivers)
  · exact fun s hs => hs.1.intact hs.2
  · intro s i t hs hclear hstep
    rcases Option.ite_none_right_eq_some.1 hstep with ⟨-, hstep⟩
    cases i with
    | message data => exact (step_message hs hstep).1 hclear
    | _ =>
        apply step_owner hs _ hstep
        rintro data ⟨⟩
  · intro s i t hs hstep hintact
    rcases Option.ite_none_right_eq_some.1 hstep with ⟨-, hstep⟩
    cases i with
    | message data => exact (step_message hs hstep).2 hintact.1
    | _ => trivial
  · exact start_whole w

def firstByte : List (HandoverInput Nat) :=
  [.moveConstruct 1 0, .advance, .advance, .advance, .advance, .advance, .destroy 0,
    .moveConstruct 2 1, .advance, .advance, .advance, .message [65]]

/-- The byte is written where the vector of the moved `receivedData_` was. -/
theorem first_byte_lost :
    ¬(machine Nat Unit).Always Intact (start 0) firstByte ∧
      ∃ s : Handover Nat Unit, (machine Nat Unit).run (start 0) firstByte = some s ∧
        s.delivered = [65] ∧ s.fault = some .outOfBounds := by
  have hrun : ∃ s : Handover Nat Unit, (machine Nat Unit).run (start 0) firstByte = some s ∧
      s.delivered = [65] ∧ s.fault = some .outOfBounds := ⟨_, rfl, rfl, rfl⟩
  refine ⟨fun h => ?_, hrun⟩
  obtain ⟨s, hs, -, hfault⟩ := hrun
  have hsound := (h.last hs).1
  rw [hfault] at hsound
  cases hsound

end Handover

end Hayai
