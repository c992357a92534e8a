/-! # Outcomes of the socket system calls

The kernel is outside the program. A call's outcome is data that a step of a
run receives, restricted only by what the call promises.
-/

namespace Hayai

inductive Errno where
  | ewouldblock
  | epipe
  | econnreset
  | other (code : Nat)
  deriving DecidableEq, Repr

/-- `::write`: the number of bytes taken, or `-1` with `errno`. -/
inductive WriteResult where
  | wrote (n : Nat)
  | failed (errno : Errno)
  deriving DecidableEq, Repr

def WriteResult.count : WriteResult → Nat
  | .wrote n => n
  | .failed _ => 0

/-- `errno == EPIPE || errno == ECONNRESET` after a call that returned `-1`. -/
def WriteResult.fault : WriteResult → Bool
  | .failed .epipe | .failed .econnreset => true
  | _ => false

@[simp] theorem WriteResult.count_of_fault {w : WriteResult} (h : w.fault = true) :
    w.count = 0 := by
  cases w with
  | wrote n => cases h
  | failed errno => rfl

/-- `::readv`: the bytes stored (none at end of stream), or `-1` with `errno`. -/
inductive ReadResult where
  | bytes (data : List UInt8)
  | failed (errno : Errno)
  deriving DecidableEq, Repr

def ReadResult.data : ReadResult → List UInt8
  | .bytes data => data
  | .failed _ => []

end Hayai
