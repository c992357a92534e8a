import Hayai.Net.Channel
import Hayai.Utils.Syscall

/-! # One TCP connection

The members of `net/TcpConnection.cc` as transformers of the object's fields. What
a member does outside the object (system calls, callbacks, the poller) is returned
as the list of its effects, in order. `outputBuffer_` is a byte queue here; the
type of `inputBuffer_` is left open.
-/

namespace Hayai

inductive ConnState where
  | connecting
  | connected
  | disconnecting
  | disconnected
  deriving DecidableEq, Repr

/-- What a member function does outside its object. `connectionCallback` carries
the value `connected()` has during the call. -/
inductive Effect where
  | write (data : List UInt8)
  | shutdownWrite
  | updateChannel
  | removeChannel
  | connectionCallback (connected : Bool)
  | messageCallback (data : List UInt8)
  | writeCompleteCallback
  | closeCallback
  | badFunctionCall
  | assertFailed
  deriving DecidableEq, Repr

def Effect.isMessage : Effect → Bool
  | .messageCallback _ => true
  | _ => false

def Effect.bytes : Effect → List UInt8
  | .write data => data
  | _ => []

def sentBytes (effects : List Effect) : List UInt8 := effects.flatMap Effect.bytes

@[simp] theorem sentBytes_append (es fs : List Effect) :
    sentBytes (es ++ fs) = sentBytes es ++ sentBytes fs := by
  simp [sentBytes]

@[simp] theorem sentBytes_cons (e : Effect) (es : List Effect) :
    sentBytes (e :: es) = e.bytes ++ sentBytes es := by
  simp [sentBytes]

@[simp] theorem sentBytes_nil : sentBytes [] = [] := rfl

/-- The callback fields tell whether a callback is installed. -/
structure TcpConnection (β : Type) where
  state : ConnState
  channel : Channel
  inputBuffer : β
  outputBuffer : List UInt8
  connectionCallback : Bool
  messageCallback : Bool
  writeCompleteCallback : Bool

namespace TcpConnection

variable {β : Type}

/-- The constructor: the channel calls back into the four handlers. -/
def new (sockfd : Nat) (inputBuffer : β) (connectionCallback messageCallback : Bool) :
    TcpConnection β :=
  ⟨.connecting, { Channel.new sockfd with
      readCallback := true, writeCallback := true, closeCallback := true, errorCallback := true },
    inputBuffer, [], connectionCallback, messageCallback, false⟩

def connected (c : TcpConnection β) : Bool := c.state == .connected

def notify (c : TcpConnection β) : List Effect :=
  if c.connectionCallback then [.connectionCallback c.connected] else []

def setRevents (c : TcpConnection β) (revt : BitVec 32) : TcpConnection β :=
  { c with channel := c.channel.setRevents revt }

/-! ## Sending -/

/-- The direct write is tried: nothing is being written and nothing is buffered. -/
def direct (c : TcpConnection β) : Bool := !c.channel.isWriting && c.outputBuffer.length == 0

def sendInLoop (c : TcpConnection β) (message : List UInt8) (w : WriteResult) :
    TcpConnection β × List Effect :=
  let nwrote := if c.direct then w.count else 0
  let remaining := message.length - nwrote
  let faultError := c.direct && w.fault
  let written := if c.direct then [Effect.write (message.take nwrote)] else []
  if !faultError && decide (0 < remaining) then
    let buffered := { c with outputBuffer := c.outputBuffer ++ message.drop nwrote }
    if !c.channel.isWriting then
      ({ buffered with channel := c.channel.enableWriting }, written ++ [.updateChannel])
    else (buffered, written)
  else (c, written)

def shutdownInLoop (c : TcpConnection β) : List Effect :=
  if !c.channel.isWriting then [.shutdownWrite] else []

def handleWrite (c : TcpConnection β) (w : WriteResult) : TcpConnection β × List Effect :=
  if c.channel.isWriting then
    let written := [Effect.write (c.outputBuffer.take w.count)]
    if 0 < w.count then
      let c := { c with outputBuffer := c.outputBuffer.drop w.count }
      if c.outputBuffer.length = 0 then
        let c := { c with channel := c.channel.disableWriting }
        let shut := if c.state = .disconnecting then c.shutdownInLoop else []
        (c, written ++ [.updateChannel] ++ shut)
      else (c, written)
    else (c, written)
  else (c, [])

/-! ## Closing and reading -/

def handleClose (c : TcpConnection β) : TcpConnection β × List Effect :=
  let c := { c with state := .disconnected, channel := c.channel.disableAll }
  (c, [.updateChannel] ++ c.notify ++ [.closeCallback])

def handleError (c : TcpConnection β) : TcpConnection β × List Effect := (c, [])

/-- `handleRead`; `readFd` stores what `readv` returned and `onMessage` is what the
message callback does to the buffer. An empty `messageCallback_` throws. -/
def handleRead (readFd : β → ReadResult → β) (onMessage : β → β) (c : TcpConnection β)
    (r : ReadResult) : TcpConnection β × List Effect :=
  let c := { c with inputBuffer := readFd c.inputBuffer r }
  match r with
  | .bytes [] => c.handleClose
  | .bytes data =>
      if c.messageCallback then
        ({ c with inputBuffer := onMessage c.inputBuffer }, [.messageCallback data])
      else (c, [.badFunctionCall])
  | .failed _ => c.handleError

/-! ## Life cycle -/

def connectEstablished (c : TcpConnection β) : TcpConnection β × List Effect :=
  if c.state = .connecting then
    let c := { c with state := .connected, channel := c.channel.tie.enableReading }
    (c, [.updateChannel] ++ c.notify)
  else (c, [.assertFailed])

def connectDestroyed (c : TcpConnection β) : TcpConnection β × List Effect :=
  let closed := if c.state = .connected then
      ({ c with channel := c.channel.disableAll }, [.updateChannel] ++ c.notify)
    else (c, [])
  ({ closed.1 with state := .disconnected },
    closed.2 ++ if 0 ≤ c.channel.index then [.removeChannel] else [])

/-- `connectDestroyed` of a Connected connection, up to the end of its callback. -/
def beginDestroyed (c : TcpConnection β) : TcpConnection β × List Effect :=
  ({ c with channel := c.channel.disableAll }, [.updateChannel] ++ c.notify)

/-- `connectDestroyed` from there on, or all of it in another state. -/
def endDestroyed (c : TcpConnection β) : TcpConnection β × List Effect :=
  ({ c with state := .disconnected }, if 0 ≤ c.channel.index then [.removeChannel] else [])

/-- Where the callback calls no member, the two parts are one call. -/
theorem connectDestroyed_eq (c : TcpConnection β) :
    c.connectDestroyed = if c.state = .connected then
        (c.beginDestroyed.1.endDestroyed.1, c.beginDestroyed.2 ++ c.beginDestroyed.1.endDestroyed.2)
      else c.endDestroyed := by
  unfold connectDestroyed
  split <;> rfl

/-- `shutdown()` up to `runInLoop`. -/
def shutdown (c : TcpConnection β) : TcpConnection β :=
  if c.state = .connected then { c with state := .disconnecting } else c

def closable (c : TcpConnection β) : Bool := c.state == .connected || c.state == .disconnecting

def forceClose (c : TcpConnection β) : TcpConnection β :=
  if c.closable then { c with state := .disconnecting } else c

/-! ## What the closing members do -/

@[simp] theorem sentBytes_notify (c : TcpConnection β) : sentBytes c.notify = [] := by
  unfold notify
  split <;> rfl

@[simp] theorem state_handleClose (c : TcpConnection β) :
    c.handleClose.1.state = .disconnected := rfl

@[simp] theorem outputBuffer_handleClose (c : TcpConnection β) :
    c.handleClose.1.outputBuffer = c.outputBuffer := rfl

@[simp] theorem sentBytes_handleClose (c : TcpConnection β) : sentBytes c.handleClose.2 = [] := by
  simp [handleClose, Effect.bytes]

@[simp] theorem sentBytes_shutdownInLoop (c : TcpConnection β) :
    sentBytes c.shutdownInLoop = [] := by
  unfold shutdownInLoop
  split <;> rfl

@[simp] theorem outputBuffer_shutdown (c : TcpConnection β) :
    c.shutdown.outputBuffer = c.outputBuffer := by
  unfold shutdown
  split <;> rfl

@[simp] theorem channel_shutdown (c : TcpConnection β) : c.shutdown.channel = c.channel := by
  unfold shutdown
  split <;> rfl

@[simp] theorem outputBuffer_forceClose (c : TcpConnection β) :
    c.forceClose.outputBuffer = c.outputBuffer := by
  unfold forceClose
  split <;> rfl

@[simp] theorem channel_forceClose (c : TcpConnection β) : c.forceClose.channel = c.channel := by
  unfold forceClose
  split <;> rfl

@[simp] theorem outputBuffer_connectEstablished (c : TcpConnection β) :
    c.connectEstablished.1.outputBuffer = c.outputBuffer := by
  unfold connectEstablished
  split <;> rfl

@[simp] theorem isWriting_connectEstablished (c : TcpConnection β) :
    c.connectEstablished.1.channel.isWriting = c.channel.isWriting := by
  unfold connectEstablished
  split
  · exact c.channel.tie.isWriting_enableReading
  · rfl

@[simp] theorem sentBytes_connectEstablished (c : TcpConnection β) :
    sentBytes c.connectEstablished.2 = [] := by
  unfold connectEstablished
  split <;> simp [Effect.bytes]

@[simp] theorem state_connectDestroyed (c : TcpConnection β) :
    c.connectDestroyed.1.state = .disconnected := rfl

@[simp] theorem outputBuffer_connectDestroyed (c : TcpConnection β) :
    c.connectDestroyed.1.outputBuffer = c.outputBuffer := by
  unfold connectDestroyed
  split <;> rfl

@[simp] theorem sentBytes_connectDestroyed (c : TcpConnection β) :
    sentBytes c.connectDestroyed.2 = [] := by
  unfold connectDestroyed
  split <;> split <;> simp [Effect.bytes]

theorem handleRead_cases {P : TcpConnection β × List Effect → Prop} {readFd : β → ReadResult → β}
    {onMessage : β → β} {c : TcpConnection β} {r : ReadResult}
    (close : r = .bytes [] → P ({ c with inputBuffer := readFd c.inputBuffer r }).handleClose)
    (deliver : ∀ data, r = .bytes data → data ≠ [] → ∀ inputBuffer,
      P ({ c with inputBuffer },
        if c.messageCallback then [.messageCallback data] else [.badFunctionCall]))
    (fail : ∀ e, r = .failed e → P ({ c with inputBuffer := readFd c.inputBuffer r }, [])) :
    P (c.handleRead readFd onMessage r) := by
  cases r with
  | failed e => exact fail e rfl
  | bytes data =>
      cases data with
      | nil => exact close rfl
      | cons x data =>
          have h := deliver (x :: data) rfl (List.cons_ne_nil x data)
          unfold handleRead
          cases hm : c.messageCallback
          · simpa [hm] using h _
          · simpa [hm] using h _

/-! ## What `sendInLoop` does -/

/-- The message is dropped: its direct write failed with `EPIPE` or `ECONNRESET`. -/
def faulted (c : TcpConnection β) (w : WriteResult) : Bool := c.direct && w.fault

/-- The channel asks for write events exactly while bytes wait in `outputBuffer_`. -/
def WritingIffBuffered (c : TcpConnection β) : Prop :=
  c.channel.isWriting = true ↔ c.outputBuffer ≠ []

theorem direct_iff (c : TcpConnection β) :
    c.direct = true ↔ c.channel.isWriting = false ∧ c.outputBuffer = [] := by
  simp [direct]

theorem sendInLoop_done {c : TcpConnection β} {message : List UInt8} {w : WriteResult}
    (hd : c.direct = true) (hw : w.fault = true ∨ w.count = message.length) :
    c.sendInLoop message w = (c, [.write (message.take w.count)]) := by
  unfold sendInLoop
  rcases hw with hw | hw <;> simp [hd, hw]

theorem sendInLoop_rest {c : TcpConnection β} {message : List UInt8} {w : WriteResult}
    (hd : c.direct = true) (hf : w.fault = false) (hw : w.count < message.length) :
    c.sendInLoop message w =
      ({ c with outputBuffer := message.drop w.count, channel := c.channel.enableWriting },
        [.write (message.take w.count), .updateChannel]) := by
  obtain ⟨hwriting, hempty⟩ := c.direct_iff.1 hd
  unfold sendInLoop
  simp [hd, hf, hwriting, hempty, Nat.sub_pos_of_lt hw]

theorem sendInLoop_empty {c : TcpConnection β} (w : WriteResult) (hd : c.direct = false) :
    c.sendInLoop [] w = (c, []) := by
  simp [sendInLoop, hd]

theorem sendInLoop_buffer {c : TcpConnection β} {message : List UInt8} (w : WriteResult)
    (hd : c.direct = false) (hm : message ≠ []) :
    c.sendInLoop message w =
      ({ c with
          outputBuffer := c.outputBuffer ++ message
          channel := if c.channel.isWriting then c.channel else c.channel.enableWriting },
        if c.channel.isWriting then [] else [.updateChannel]) := by
  have hpos : 0 < message.length := List.length_pos_iff.2 hm
  unfold sendInLoop
  cases hwriting : c.channel.isWriting <;> simp [hd, hpos]

theorem sendInLoop_cases {P : TcpConnection β × List Effect → Prop} {c : TcpConnection β}
    {message : List UInt8} {w : WriteResult} (hfit : w.count ≤ message.length)
    (done : c.direct = true → (w.fault = true ∨ w.count = message.length) →
      P (c, [.write (message.take w.count)]))
    (rest : c.direct = true → w.fault = false → w.count < message.length →
      P ({ c with outputBuffer := message.drop w.count, channel := c.channel.enableWriting },
        [.write (message.take w.count), .updateChannel]))
    (empty : c.direct = false → message = [] → P (c, []))
    (buffer : c.direct = false → message ≠ [] →
      P ({ c with
          outputBuffer := c.outputBuffer ++ message
          channel := if c.channel.isWriting then c.channel else c.channel.enableWriting },
        if c.channel.isWriting then [] else [.updateChannel])) :
    P (c.sendInLoop message w) := by
  cases hd : c.direct with
  | true =>
      by_cases hw : w.fault = true ∨ w.count = message.length
      · rw [sendInLoop_done hd hw]
        exact done hd hw
      · have hf : w.fault = false := by
          cases h : w.fault
          · rfl
          · exact (hw (.inl h)).elim
        have hlt : w.count < message.length := Nat.lt_of_le_of_ne hfit fun h => hw (.inr h)
        rw [sendInLoop_rest hd hf hlt]
        exact rest hd hf hlt
  | false =>
      by_cases hm : message = []
      · subst hm
        rw [sendInLoop_empty w hd]
        exact empty hd rfl
      · rw [sendInLoop_buffer w hd hm]
        exact buffer hd hm

theorem sendInLoop_state {c : TcpConnection β} {message : List UInt8} {w : WriteResult}
    (hfit : w.count ≤ message.length) : (c.sendInLoop message w).1.state = c.state :=
  sendInLoop_cases (P := fun r => r.1.state = c.state) hfit (fun _ _ => rfl) (fun _ _ _ => rfl)
    (fun _ _ => rfl) (fun _ _ => rfl)

/-- Nothing is lost or reordered: what was buffered, then the message, is what the
socket took, then what is buffered now. -/
theorem sendInLoop_stream {c : TcpConnection β} {message : List UInt8} {w : WriteResult}
    (hfit : w.count ≤ message.length) :
    sentBytes (c.sendInLoop message w).2 ++ (c.sendInLoop message w).1.outputBuffer =
      c.outputBuffer ++ if c.faulted w then [] else message := by
  refine sendInLoop_cases (P := fun r => sentBytes r.2 ++ r.1.outputBuffer =
    c.outputBuffer ++ if c.faulted w then [] else message) hfit ?_ ?_ ?_ ?_
  · intro hd hw
    have hempty := (c.direct_iff.1 hd).2
    rcases hw with hw | hw
    · simp [faulted, hd, hw, hempty, Effect.bytes]
    · cases hf : w.fault
      · simp [faulted, hf, hempty, Effect.bytes, hw]
      · simp [faulted, hd, hf, hempty, Effect.bytes]
  · intro hd hf _
    simp [faulted, hf, (c.direct_iff.1 hd).2, Effect.bytes]
  · intro hd hm
    simp [hm]
  · intro hd _
    cases c.channel.isWriting <;> simp [faulted, hd, Effect.bytes]

theorem sendInLoop_writing {c : TcpConnection β} {message : List UInt8} {w : WriteResult}
    (hfit : w.count ≤ message.length) (h : c.WritingIffBuffered) :
    (c.sendInLoop message w).1.WritingIffBuffered := by
  refine sendInLoop_cases (P := fun r => r.1.WritingIffBuffered) hfit ?_ ?_ ?_ ?_
  · intro _ _
    exact h
  · intro _ _ hlt
    have hrest : message.drop w.count ≠ [] := by
      rw [Ne, List.drop_eq_nil_iff]
      omega
    simpa [WritingIffBuffered] using hrest
  · intro _ _
    exact h
  · intro _ hm
    cases hwriting : c.channel.isWriting <;> simp [WritingIffBuffered, hwriting, hm]

/-! ## What `handleWrite` does -/

theorem handleWrite_idle {c : TcpConnection β} (w : WriteResult) (h : c.channel.isWriting = false) :
    c.handleWrite w = (c, []) := by
  simp [handleWrite, h]

theorem handleWrite_none {c : TcpConnection β} {w : WriteResult} (h : c.channel.isWriting = true)
    (hw : w.count = 0) : c.handleWrite w = (c, [.write []]) := by
  simp [handleWrite, h, hw]

theorem handleWrite_some {c : TcpConnection β} {w : WriteResult} (h : c.channel.isWriting = true)
    (hw : 0 < w.count) (hlt : w.count < c.outputBuffer.length) :
    c.handleWrite w = ({ c with outputBuffer := c.outputBuffer.drop w.count },
      [.write (c.outputBuffer.take w.count)]) := by
  have hrest : ¬ c.outputBuffer.length - w.count = 0 := by omega
  simp [handleWrite, h, hw, hrest]

theorem handleWrite_all {c : TcpConnection β} {w : WriteResult} (h : c.channel.isWriting = true)
    (hw : 0 < w.count) (hall : w.count = c.outputBuffer.length) :
    c.handleWrite w =
      ({ c with outputBuffer := [], channel := c.channel.disableWriting },
        [.write c.outputBuffer, .updateChannel] ++
          if c.state = .disconnecting then [.shutdownWrite] else []) := by
  simp [handleWrite, h, hall, shutdownInLoop, List.ne_nil_of_length_pos (hall ▸ hw)]

theorem handleWrite_cases {P : TcpConnection β × List Effect → Prop} {c : TcpConnection β}
    {w : WriteResult} (hfit : w.count ≤ c.outputBuffer.length)
    (idle : c.channel.isWriting = false → P (c, []))
    (none : c.channel.isWriting = true → w.count = 0 → P (c, [.write []]))
    (some : c.channel.isWriting = true → 0 < w.count → w.count < c.outputBuffer.length →
      P ({ c with outputBuffer := c.outputBuffer.drop w.count },
        [.write (c.outputBuffer.take w.count)]))
    (all : c.channel.isWriting = true → 0 < w.count → w.count = c.outputBuffer.length →
      P ({ c with outputBuffer := [], channel := c.channel.disableWriting },
        [.write c.outputBuffer, .updateChannel] ++
          if c.state = .disconnecting then [.shutdownWrite] else [])) :
    P (c.handleWrite w) := by
  cases hwriting : c.channel.isWriting with
  | false =>
      rw [handleWrite_idle w hwriting]
      exact idle hwriting
  | true =>
      by_cases hzero : w.count = 0
      · rw [handleWrite_none hwriting hzero]
        exact none hwriting hzero
      · have hpos : 0 < w.count := Nat.pos_of_ne_zero hzero
        by_cases hall : w.count = c.outputBuffer.length
        · rw [handleWrite_all hwriting hpos hall]
          exact all hwriting hpos hall
        · have hlt : w.count < c.outputBuffer.length := Nat.lt_of_le_of_ne hfit hall
          rw [handleWrite_some hwriting hpos hlt]
          exact some hwriting hpos hlt

theorem handleWrite_state {c : TcpConnection β} {w : WriteResult}
    (hfit : w.count ≤ c.outputBuffer.length) : (c.handleWrite w).1.state = c.state :=
  handleWrite_cases (P := fun r => r.1.state = c.state) hfit (fun _ => rfl) (fun _ _ => rfl)
    (fun _ _ _ => rfl) (fun _ _ _ => rfl)

theorem handleWrite_stream {c : TcpConnection β} {w : WriteResult}
    (hfit : w.count ≤ c.outputBuffer.length) :
    sentBytes (c.handleWrite w).2 ++ (c.handleWrite w).1.outputBuffer = c.outputBuffer := by
  refine handleWrite_cases (P := fun r => sentBytes r.2 ++ r.1.outputBuffer = c.outputBuffer)
    hfit ?_ ?_ ?_ ?_
  · intro _
    simp
  · intro _ _
    simp [Effect.bytes]
  · intro _ _ _
    simp [Effect.bytes]
  · intro _ _ _
    split <;> simp [Effect.bytes]

theorem handleWrite_writing {c : TcpConnection β} {w : WriteResult}
    (hfit : w.count ≤ c.outputBuffer.length) (h : c.WritingIffBuffered) :
    (c.handleWrite w).1.WritingIffBuffered := by
  refine handleWrite_cases (P := fun r => r.1.WritingIffBuffered) hfit ?_ ?_ ?_ ?_
  · intro _
    exact h
  · intro _ _
    exact h
  · intro hwriting _ hlt
    have hrest : c.outputBuffer.drop w.count ≠ [] := by
      rw [Ne, List.drop_eq_nil_iff]
      omega
    exact ⟨fun _ => hrest, fun _ => hwriting⟩
  · intro _ _ _
    simp [WritingIffBuffered]

end TcpConnection

end Hayai
