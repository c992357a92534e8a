/-! # The coroutine wrapper of a connection

The members of `coro/AsyncConnection.cc`. Each holds the mutex of the fields it uses from
its start to its end, so it is one step. A member that hands a coroutine to
`loop_->queueInLoop` returns that coroutine. In these members `receivedData_` is an ideal byte
queue, which a move leaves empty; `loop_` is set, moved and cleared together with `conn_`.
-/

namespace Hayai

/-- `χ` are the connections, `κ` the coroutine handles and `β` what stands for a `Buffer`. -/
structure AsyncConnection (χ κ : Type) (β : Type := List UInt8) where
  conn : Option χ
  recvCoroutine : Option κ
  receivedData : β
  sendCoroutine : Option κ
  deriving DecidableEq, Repr

namespace AsyncConnection

variable {χ κ : Type}

/-- The constructor, up to `bindCallbacks()`. -/
def new (conn : Option χ) : AsyncConnection χ κ := ⟨conn, none, [], none⟩

/-- What a move leaves behind: the handles in a moved `std::optional` stay. -/
def moved (a : AsyncConnection χ κ) : AsyncConnection χ κ :=
  { a with conn := none, receivedData := [] }

/-! ## Callbacks of the connection -/

def onMessage (a : AsyncConnection χ κ) (data : List UInt8) : AsyncConnection χ κ × Option κ :=
  ({ a with receivedData := a.receivedData ++ data, recvCoroutine := none }, a.recvCoroutine)

def onWriteComplete (a : AsyncConnection χ κ) : AsyncConnection χ κ × Option κ :=
  ({ a with sendCoroutine := none }, a.sendCoroutine)

/-! ## `RecvAwaiter` -/

def recvReady (a : AsyncConnection χ κ) : Bool := decide (0 < a.receivedData.length)

def recvSuspend (a : AsyncConnection χ κ) (h : κ) : AsyncConnection χ κ × Option κ :=
  if 0 < a.receivedData.length then (a, some h)
  else ({ a with recvCoroutine := some h }, none)

def recvResume (a : AsyncConnection χ κ) : AsyncConnection χ κ × List UInt8 :=
  ({ a with receivedData := [] }, a.receivedData)

/-! ## `SendAwaiter` -/

/-- `await_ready()` is false, and `await_suspend()` goes on with `conn_->send(data_)`. -/
def sendSuspend (a : AsyncConnection χ κ) (h : κ) : AsyncConnection χ κ :=
  { a with sendCoroutine := some h }

end AsyncConnection

end Hayai
