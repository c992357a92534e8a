import Hayai.Machine.Storage
import Hayai.Utils.Syscall
import Mathlib.Algebra.Group.Nat.Defs

/-! # The network buffer

`Buffer` of `utils/Buffer.h`, with `size_t` as 64-bit modular arithmetic. A copy
that would leave the vector's storage is undefined behaviour in the source and
the fault `outOfBounds` here; a failed `assert`, a size above `max_size()` and an
allocation that is refused are faults of their own. Where the allocator is left out,
it grants everything.
-/

namespace Hayai

open Storage

/-- A `size_t` expression: sums wrap at 64 bits. -/
def sizeT (n : Nat) : Nat := n % 2 ^ 64

/-- `size_t` subtraction of 64-bit values: below zero it wraps. -/
def sizeSub (a b : Nat) : Nat := if b ≤ a then a - b else a + 2 ^ 64 - b

inductive Fault where
  | lengthError
  | badAlloc
  | outOfBounds
  | assertFailed
  deriving DecidableEq, Repr

structure Buffer where
  buffer : List UInt8
  readerIndex : Nat
  writerIndex : Nat
  deriving DecidableEq, Repr

namespace Buffer

def kInitialSize : Nat := 1024
def kCheapPrepend : Nat := 8

def maxSize : Nat := 2 ^ 63 - 1

def extrabufSize : Nat := 65536

/-! ## The vector -/

def size (b : Buffer) : Nat := b.buffer.length

abbrev Allocator := Nat → Bool

def plenty : Allocator := fun _ => true

/-- `std::vector<char>::resize`; new elements are zero. -/
def resize (cells : List UInt8) (n : Nat) (grants : Allocator := plenty) :
    Except Fault (List UInt8) :=
  if maxSize < n then .error .lengthError
  else if cells.length < n ∧ grants n = false then .error .badAlloc
  else .ok (cells.take n ++ List.replicate (n - cells.length) 0)

def copyTo (cells : List UInt8) (pos : Nat) (data : List UInt8) : Except Fault (List UInt8) :=
  if pos + data.length ≤ cells.length then .ok (overwrite cells pos data)
  else .error .outOfBounds

def copyFrom (cells : List UInt8) (pos len : Nat) : Except Fault (List UInt8) :=
  if pos + len ≤ cells.length then .ok (slice cells pos len) else .error .outOfBounds

/-! ## Sizes -/

def new (initialSize : Nat) (grants : Allocator := plenty) : Except Fault Buffer := do
  let buffer ← resize [] (sizeT (kCheapPrepend + initialSize)) grants
  pure ⟨buffer, kCheapPrepend, kCheapPrepend⟩

def readableBytes (b : Buffer) : Nat := sizeSub b.writerIndex b.readerIndex

/-- As written in the source: measured from `readerIndex_`, not `writerIndex_`. -/
def writableBytes (b : Buffer) : Nat := sizeSub b.size b.readerIndex

def prependableBytes (b : Buffer) : Nat := b.readerIndex

/-! ## Memory management -/

def makeSpace (b : Buffer) (len : Nat) (grants : Allocator := plenty) : Except Fault Buffer :=
  if sizeT (b.writableBytes + b.prependableBytes) < sizeT (len + kCheapPrepend) then do
    let buffer ← resize b.buffer (sizeT (b.writerIndex + len)) grants
    pure { b with buffer }
  else do
    let readable := b.readableBytes
    let data ← copyFrom b.buffer b.readerIndex readable
    let buffer ← copyTo b.buffer kCheapPrepend data
    pure ⟨buffer, kCheapPrepend, sizeT (kCheapPrepend + readable)⟩

def ensureWritableBytes (b : Buffer) (len : Nat) (grants : Allocator := plenty) :
    Except Fault Buffer :=
  if b.writableBytes < len then b.makeSpace len grants else pure b

def append (b : Buffer) (data : List UInt8) (grants : Allocator := plenty) :
    Except Fault Buffer := do
  let b ← b.ensureWritableBytes data.length grants
  let buffer ← copyTo b.buffer b.writerIndex data
  pure { b with buffer, writerIndex := sizeT (b.writerIndex + data.length) }

/-! ## Retrieving -/

def retrieveAll (b : Buffer) : Buffer :=
  { b with readerIndex := kCheapPrepend, writerIndex := kCheapPrepend }

def retrieve (b : Buffer) (len : Nat) : Except Fault Buffer :=
  if len ≤ b.readableBytes then
    if len < b.readableBytes then
      pure { b with readerIndex := sizeT (b.readerIndex + len) }
    else pure b.retrieveAll
  else .error .assertFailed

def retrieveAllAsString (b : Buffer) : Except Fault (List UInt8 × Buffer) := do
  let result ← copyFrom b.buffer b.readerIndex b.readableBytes
  pure (result, b.retrieveAll)

def retrieveAsString (b : Buffer) (len : Nat) : Except Fault (List UInt8 × Buffer) :=
  if len ≤ b.readableBytes then do
    let result ← copyFrom b.buffer b.readerIndex len
    let b ← b.retrieve len
    pure (result, b)
  else .error .assertFailed

/-! ## Exchanging storage -/

def swap (b other : Buffer) : Buffer × Buffer := (other, b)

def shrink (b : Buffer) (reserve : Nat) (grants : Allocator := plenty) : Except Fault Buffer := do
  let other ← new kInitialSize grants
  let other ← other.ensureWritableBytes (sizeT (b.readableBytes + reserve)) grants
  let data ← copyFrom b.buffer b.readerIndex b.readableBytes
  let other ← other.append data grants
  pure (b.swap other).1

/-! ## Reading from a socket -/

/-- The bytes `readv` is offered in total: `vec[0]` alone when it is at least as
long as `extrabuf`, else both. -/
def offered (b : Buffer) : Nat :=
  if b.writableBytes < extrabufSize then b.writableBytes + extrabufSize else b.writableBytes

/-- `readFd`, given what `readv` returned; the second component is the value
stored through `savedErrno`, if any. `readv` fills `vec[0]` first, which starts at
`beginWrite()` and is `writableBytes()` long, and then `extrabuf`. -/
def readFd (b : Buffer) : ReadResult → Except Fault (Buffer × Option Errno)
  | .failed errno => pure (b, some errno)
  | .bytes data => do
      let writable := b.writableBytes
      let buffer ← copyTo b.buffer b.writerIndex (data.take writable)
      if data.length ≤ writable then
        pure ({ b with buffer, writerIndex := sizeT (b.writerIndex + data.length) }, none)
      else
        let b ← append { b with buffer, writerIndex := buffer.length } (data.drop writable)
        pure (b, none)

end Buffer

end Hayai
