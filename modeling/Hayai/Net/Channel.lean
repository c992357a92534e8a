import Mathlib.Data.List.Basic

/-! # Channels

`Channel` of `net/Channel.h`: the interest mask of one descriptor, the mask of
events found by the poller, and which of the four callbacks are installed.
-/

namespace Hayai

inductive Callback where
  | error
  | close
  | read
  | write
  deriving DecidableEq, Repr

structure Channel where
  fd : Nat
  events : BitVec 32
  revents : BitVec 32
  index : Int
  tied : Bool
  readCallback : Bool
  writeCallback : Bool
  closeCallback : Bool
  errorCallback : Bool
  deriving DecidableEq, Repr

namespace Channel

def kNoneEvent : BitVec 32 := 0
def kReadEvent : BitVec 32 := 1
def kWriteEvent : BitVec 32 := 2
def kErrorEvent : BitVec 32 := 4
def kCloseEvent : BitVec 32 := 8

def new (fd : Nat) : Channel := ⟨fd, 0, 0, -1, false, false, false, false, false⟩

def isReading (c : Channel) : Bool := c.events &&& kReadEvent != 0
def isWriting (c : Channel) : Bool := c.events &&& kWriteEvent != 0
def isNoneEvent (c : Channel) : Bool := c.events == kNoneEvent

def enableReading (c : Channel) : Channel := { c with events := c.events ||| kReadEvent }
def disableReading (c : Channel) : Channel := { c with events := c.events &&& ~~~ kReadEvent }
def enableWriting (c : Channel) : Channel := { c with events := c.events ||| kWriteEvent }
def disableWriting (c : Channel) : Channel := { c with events := c.events &&& ~~~ kWriteEvent }
def disableAll (c : Channel) : Channel := { c with events := kNoneEvent }
def setRevents (c : Channel) (revt : BitVec 32) : Channel := { c with revents := revt }
def tie (c : Channel) : Channel := { c with tied := true }

/-- The bit of `revents_` that asks for a callback. -/
def bit : Callback → BitVec 32
  | .error => kErrorEvent
  | .close => kCloseEvent
  | .read => kReadEvent
  | .write => kWriteEvent

def installed (c : Channel) : Callback → Bool
  | .error => c.errorCallback
  | .close => c.closeCallback
  | .read => c.readCallback
  | .write => c.writeCallback

/-- One `if` of `handleEventWithGuard`: the bit is set and the callback is there. -/
def wants (c : Channel) (kind : Callback) : Bool :=
  c.revents &&& bit kind != 0 && c.installed kind

def handleEventWithGuard (c : Channel) : List Callback :=
  [.error, .close, .read, .write].filter c.wants

/-- `handleEvent`; `locked` tells whether `tie_.lock()` finds the owner alive. -/
def handleEvent (c : Channel) (locked : Bool) : List Callback :=
  if c.tied then if locked then c.handleEventWithGuard else []
  else c.handleEventWithGuard

/-! ## The interest mask -/

theorem isReading_eq (c : Channel) : c.isReading = c.events.getLsbD 0 := by
  have hmask : kReadEvent = BitVec.twoPow 32 0 := by decide
  have hone : BitVec.twoPow 32 0 ≠ 0#32 := by decide
  rw [isReading, hmask, BitVec.and_twoPow]
  cases c.events.getLsbD 0 <;> simp [hone]

theorem isWriting_eq (c : Channel) : c.isWriting = c.events.getLsbD 1 := by
  have hmask : kWriteEvent = BitVec.twoPow 32 1 := by decide
  have htwo : BitVec.twoPow 32 1 ≠ 0#32 := by decide
  rw [isWriting, hmask, BitVec.and_twoPow]
  cases c.events.getLsbD 1 <;> simp [htwo]

@[simp] theorem isWriting_enableReading (c : Channel) :
    c.enableReading.isWriting = c.isWriting := by
  simp [isWriting_eq, enableReading, kReadEvent]

@[simp] theorem isWriting_enableWriting (c : Channel) : c.enableWriting.isWriting = true := by
  simp [isWriting_eq, enableWriting, kWriteEvent]

@[simp] theorem isWriting_disableWriting (c : Channel) : c.disableWriting.isWriting = false := by
  simp [isWriting_eq, disableWriting, kWriteEvent]

@[simp] theorem isWriting_disableAll (c : Channel) : c.disableAll.isWriting = false := by
  simp [isWriting_eq, disableAll, kNoneEvent]

@[simp] theorem events_disableAll (c : Channel) : c.disableAll.events = 0 := rfl

theorem isWriting_of_events_eq_zero {c : Channel} (h : c.events = 0) : c.isWriting = false := by
  simp [isWriting_eq, h]

end Channel

end Hayai
