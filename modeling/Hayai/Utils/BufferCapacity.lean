import Hayai.Utils.BufferSpec

/-! # Capacities near the top of the range

The sums of sizes in `Buffer` wrap at 64 bits, and a vector refuses to grow beyond
`maxSize`. A sum that does not wrap is either granted or refused. One that wraps is
never refused: the constructor and the growing branch then ask the vector for a few
bytes, and the other calls take the moving branch.
-/

namespace Hayai.Buffer

open Storage

/-! ## The buffer after a call that throws -/

/-- `shrink` in place. The work is done on the local `other`, and only the final `swap`
writes to the buffer itself; a buffer keeps what was written before a throw. -/
def shrinkInPlace (reserve : Nat) (grants : Allocator) : ExceptT Fault (StateM Buffer) Unit := do
  let b ← get
  let other ← MonadExcept.ofExcept (new kInitialSize grants)
  let other ← MonadExcept.ofExcept
    (other.ensureWritableBytes (sizeT (b.readableBytes + reserve)) grants)
  let data ← MonadExcept.ofExcept (copyFrom b.buffer b.readerIndex b.readableBytes)
  let other ← MonadExcept.ofExcept (other.append data grants)
  set (b.swap other).1

def shrinkCall (b : Buffer) (reserve : Nat) (grants : Allocator := plenty) :
    Except Fault Unit × Buffer :=
  (shrinkInPlace reserve grants).run b

private theorem run_ofExcept_bind {α β : Type} (x : Except Fault α)
    (k : α → ExceptT Fault (StateM Buffer) β) (b : Buffer) :
    (MonadExcept.ofExcept x >>= k).run b = match x with
      | .ok a => (k a).run b
      | .error f => (.error f, b) := by
  cases x with
  | error f => rfl
  | ok a => rfl

private theorem run_get_bind {β : Type} (k : Buffer → ExceptT Fault (StateM Buffer) β)
    (b : Buffer) : (get >>= k).run b = (k b).run b := rfl

theorem shrinkCall_eq (b : Buffer) (reserve : Nat) (grants : Allocator) :
    b.shrinkCall reserve grants = match b.shrink reserve grants with
      | .ok b' => (.ok (), b')
      | .error f => (.error f, b) := by
  simp only [shrinkCall, shrinkInPlace, shrink, run_get_bind, run_ofExcept_bind]
  cases new kInitialSize grants with
  | error f => rfl
  | ok fresh =>
      dsimp only [bind, Except.bind]
      cases fresh.ensureWritableBytes (sizeT (b.readableBytes + reserve)) grants with
      | error f => rfl
      | ok other =>
          dsimp only
          cases copyFrom b.buffer b.readerIndex b.readableBytes with
          | error f => rfl
          | ok data =>
              dsimp only
              cases other.append data grants with
              | error f => rfl
              | ok other => rfl

/-! ## An allocator that refuses -/

/-- The computation does what it does with plenty of storage, or a request is refused. -/
def Throttles {α : Type} (grants : Allocator) (free throttled : Except Fault α) : Prop :=
  throttled = free ∨ throttled = .error .badAlloc ∧ ∃ n, grants n = false

theorem Throttles.refl {α : Type} (grants : Allocator) (x : Except Fault α) :
    Throttles grants x x :=
  .inl rfl

theorem Throttles.bind {α β : Type} {grants : Allocator} {x y : Except Fault α}
    {f g : α → Except Fault β} (h : Throttles grants x y)
    (hf : ∀ a, Throttles grants (f a) (g a)) : Throttles grants (x >>= f) (y >>= g) := by
  rcases h with rfl | ⟨rfl, hrefused⟩
  · cases y with
    | error e => exact .inl rfl
    | ok a => exact hf a
  · exact .inr ⟨rfl, hrefused⟩

theorem new_error {initialSize : Nat} (hlt : kCheapPrepend + initialSize < 2 ^ 64)
    (hmax : maxSize < kCheapPrepend + initialSize) : new initialSize = .error .lengthError := by
  rw [new, sizeT_of_lt hlt, resize_error hmax]
  rfl

theorem Blank.ensureWritableBytes_error {b : Buffer} {len : Nat} (h : b.Blank)
    (hlt : kCheapPrepend + len < 2 ^ 64) (hmax : maxSize < kCheapPrepend + len) :
    b.ensureWritableBytes len = .error .lengthError := by
  have hr := h.reader
  have hw := h.writer
  have hle := h.wf.writer_le
  have hs := h.wf.size_le
  have hroom : b.size - b.readerIndex < len := by omega
  rw [Buffer.ensureWritableBytes, h.wf.writableBytes_eq, if_pos hroom]
  exact makeSpace_error h.wf (by omega) (by omega) (by omega)

/-- Without unread bytes nothing is missed by the test of the writable bytes: the room is
there afterwards, or the vector has refused to grow. -/
theorem ensureWritableBytes_empty {b : Buffer} {len : Nat} (h : b.Wf)
    (hempty : b.writerIndex = b.readerIndex) (hlt : b.writerIndex + len < 2 ^ 64) :
    (∃ b', b.ensureWritableBytes len = .ok b' ∧ b'.writerIndex + len ≤ b'.size) ∨
      b.ensureWritableBytes len = .error .lengthError := by
  by_cases hfits : b.Fits len
  · rcases ensureWritableBytes_room h hfits with ⟨b', hb', -, -, hroom⟩
    exact .inl ⟨b', hb', hroom⟩
  · have hw := h.writer_le
    unfold Fits at hfits
    by_cases hroom : len ≤ b.size - b.readerIndex
    · rw [if_pos hroom] at hfits
      omega
    · rw [if_neg hroom] at hfits
      by_cases hgrow : b.size < len + kCheapPrepend
      · rw [if_pos hgrow] at hfits
        right
        rw [ensureWritableBytes, h.writableBytes_eq, if_pos (Nat.lt_of_not_le hroom)]
        exact makeSpace_error h hgrow hlt (Nat.lt_of_not_le hfits)
      · rw [if_neg hgrow] at hfits
        omega

theorem shrink_error {b : Buffer} {reserve : Nat}
    (hlt : b.readableBytes + reserve + kCheapPrepend < 2 ^ 64)
    (hmax : maxSize < b.readableBytes + reserve + kCheapPrepend) :
    b.shrink reserve = .error .lengthError := by
  have hsum : sizeT (b.readableBytes + reserve) = b.readableBytes + reserve :=
    sizeT_of_lt (by omega)
  rcases new_blank kInitialSize (by decide) with ⟨fresh, hnew, hblank, -⟩
  have herror : fresh.ensureWritableBytes (b.readableBytes + reserve) = .error .lengthError :=
    hblank.ensureWritableBytes_error (by omega) (by omega)
  simp only [shrink, hnew, hsum, herror, bind, Except.bind]

/-- The constructor asks for a vector shorter than its own indices. -/
theorem new_wraps {initialSize : Nat} (hsize : initialSize < 2 ^ 64)
    (hwrap : 2 ^ 64 ≤ kCheapPrepend + initialSize) :
    ∃ b, new initialSize = .ok b ∧ b.size < kCheapPrepend := by
  have hpre : kCheapPrepend = 8 := rfl
  have hsum : sizeT (kCheapPrepend + initialSize) < kCheapPrepend := by
    unfold sizeT
    omega
  have hmax : sizeT (kCheapPrepend + initialSize) ≤ maxSize :=
    Nat.le_trans (Nat.le_of_lt hsum) (by decide)
  refine ⟨⟨List.replicate (sizeT (kCheapPrepend + initialSize)) 0, kCheapPrepend,
    kCheapPrepend⟩, ?_, ?_⟩
  · simp [new, resize_ok hmax, bind, Except.bind, pure, Except.pure]
  · rw [size, List.length_replicate]
    exact hsum

/-- The growing branch cuts the vector down, and the moving branch leaves its size. -/
theorem ensureWritableBytes_wraps {b : Buffer} {len : Nat} (h : b.Wf) (hlen : len < 2 ^ 64)
    (hwrap : 2 ^ 64 ≤ b.writerIndex + len) :
    ∃ b', b.ensureWritableBytes len = .ok b' ∧ b'.size < len := by
  have hw := h.writer_le
  have hs := h.size_lt
  have hmax := maxSize_lt
  have hroom : b.size - b.readerIndex < len := by omega
  rw [ensureWritableBytes, h.writableBytes_eq, if_pos hroom]
  by_cases hgrow : b.size < sizeT (len + kCheapPrepend)
  · have hsum : sizeT (b.writerIndex + len) ≤ b.size := by
      unfold sizeT
      omega
    have hle : sizeT (b.writerIndex + len) ≤ b.buffer.length := hsum
    rw [makeSpace, h.capacity_eq, if_pos hgrow, resize_ok (Nat.le_trans hsum h.size_le)]
    refine ⟨_, rfl, ?_⟩
    simp only [size, List.length_append, List.length_take, List.length_replicate]
    omega
  · rcases makeSpace_move h (Nat.not_lt.1 hgrow) with ⟨b', hb', -, -, -, -, hsize⟩
    exact ⟨b', hb', by omega⟩

theorem Blank.ensureWritableBytes_wraps {b : Buffer} {len : Nat} (h : b.Blank)
    (hlen : len < 2 ^ 64) (hwrap : 2 ^ 64 ≤ len + kCheapPrepend) :
    ∃ b', b.ensureWritableBytes len = .ok b' ∧ b'.Blank := by
  have hpre : kCheapPrepend = 8 := rfl
  have hw := h.writer
  have hr := h.reader
  have hle := h.wf.writer_le
  have hs := h.wf.size_lt
  have hroom : b.size - b.readerIndex < len := by omega
  have hmove : sizeT (len + kCheapPrepend) ≤ b.size := by
    unfold sizeT
    omega
  rw [Buffer.ensureWritableBytes, h.wf.writableBytes_eq, if_pos hroom]
  rcases makeSpace_move h.wf hmove with ⟨b', hb', hwf, -, hreader, hwriter, -⟩
  exact ⟨b', hb', hwf, hreader, by rw [hwriter, hw, hr, Nat.sub_self]; rfl⟩

/-- The local buffer of `shrink` has room for the content, so nothing is refused; what is
behind the content is less than the reserve. -/
theorem shrink_wraps {b : Buffer} {reserve : Nat} (h : b.Wf) (hres : reserve < 2 ^ 64)
    (hwrap : 2 ^ 64 ≤ b.readableBytes + reserve + kCheapPrepend) :
    ∃ b', b.shrink reserve = .ok b' ∧ b'.size < b'.writerIndex + reserve := by
  have hpre : kCheapPrepend = 8 := rfl
  have hp := h.cheapPrepend
  have hr := h.reader_le
  have hw := h.writer_le
  have hsize := h.size_le
  have hmax := maxSize_lt
  have hread := h.readableBytes_eq
  have hclen := h.content_length
  rcases new_blank kInitialSize (by decide) with ⟨fresh, hnew, hfresh, -⟩
  have hother : ∃ other, fresh.ensureWritableBytes (sizeT (b.readableBytes + reserve)) =
      .ok other ∧ other.Blank := by
    by_cases hsum : b.readableBytes + reserve < 2 ^ 64
    · rw [sizeT_of_lt hsum]
      exact hfresh.ensureWritableBytes_wraps hsum hwrap
    · have hsmall : kCheapPrepend + sizeT (b.readableBytes + reserve) ≤ maxSize := by
        unfold sizeT
        omega
      rcases hfresh.ensureWritableBytes _ hsmall with ⟨other, hother, hblank, -⟩
      exact ⟨other, hother, hblank⟩
  rcases hother with ⟨other, hother, hblank⟩
  rcases hblank.append b.content (by omega) with ⟨b', hb', hwf, -, -, hwriter, -⟩
  refine ⟨b', ?_, ?_⟩
  · simp only [shrink, hnew, hother, h.content_eq_copy, hb', swap, bind, Except.bind, pure,
      Except.pure]
  · have hs := hwf.size_lt
    omega

/-! ## Requests for capacity -/

inductive CapacityRequest where
  | construct (initialSize : Nat)
  | ensure (b : Buffer) (len : Nat)
  | shrink (b : Buffer) (reserve : Nat)

namespace CapacityRequest

/-- The arguments are 64-bit values. Room is ensured in an empty buffer. -/
def Valid : CapacityRequest → Prop
  | construct initialSize => initialSize < 2 ^ 64
  | ensure b len => b.Wf ∧ b.writerIndex = b.readerIndex ∧ len < 2 ^ 64
  | shrink b reserve => b.Wf ∧ reserve < 2 ^ 64

def capacity : CapacityRequest → Nat
  | construct initialSize => kCheapPrepend + initialSize
  | ensure b len => b.writerIndex + len
  | shrink b reserve => b.readableBytes + reserve + kCheapPrepend

/-- The call grants what it was asked for or throws, and `shrink` throws without having
touched the buffer. -/
def Answered : CapacityRequest → Prop
  | construct initialSize =>
      match new initialSize with
      | .ok b => b.readerIndex = kCheapPrepend ∧ b.writerIndex = kCheapPrepend ∧
          kCheapPrepend ≤ b.size ∧ initialSize + kCheapPrepend ≤ b.size
      | .error f => f = .lengthError
  | ensure b len =>
      match b.ensureWritableBytes len with
      | .ok b' => b'.writerIndex + len ≤ b'.size
      | .error f => f = .lengthError
  | shrink b reserve =>
      (∃ b', b.shrinkCall reserve = (.ok (), b') ∧ b'.writerIndex + reserve ≤ b'.size) ∨
        b.shrinkCall reserve = (.error .lengthError, b)

theorem construct_answered_iff {initialSize : Nat} (hsize : initialSize < 2 ^ 64) :
    (construct initialSize).Answered ↔ kCheapPrepend + initialSize < 2 ^ 64 := by
  simp only [Answered]
  constructor
  · intro h
    refine Nat.lt_of_not_le fun hwrap => ?_
    rcases new_wraps hsize hwrap with ⟨b, hb, hshort⟩
    rw [hb] at h
    exact Nat.not_le.2 hshort h.2.2.1
  · intro hlt
    by_cases hmax : kCheapPrepend + initialSize ≤ maxSize
    · rcases new_blank initialSize hmax with ⟨b, hb, hblank, hlen⟩
      rw [hb]
      exact ⟨hblank.reader, hblank.writer, by omega, by omega⟩
    · rw [new_error hlt (Nat.lt_of_not_le hmax)]

theorem ensure_answered_iff {b : Buffer} {len : Nat} (h : b.Wf)
    (hempty : b.writerIndex = b.readerIndex) (hlen : len < 2 ^ 64) :
    (ensure b len).Answered ↔ b.writerIndex + len < 2 ^ 64 := by
  simp only [Answered]
  constructor
  · intro hanswer
    refine Nat.lt_of_not_le fun hwrap => ?_
    rcases ensureWritableBytes_wraps h hlen hwrap with ⟨b', hb', hshort⟩
    rw [hb'] at hanswer
    dsimp only at hanswer
    omega
  · intro hlt
    rcases ensureWritableBytes_empty h hempty hlt with ⟨b', hb', hroom⟩ | herror
    · rw [hb']
      exact hroom
    · rw [herror]

theorem shrink_answered_iff {b : Buffer} {reserve : Nat} (h : b.Wf) (hres : reserve < 2 ^ 64) :
    (shrink b reserve).Answered ↔ b.readableBytes + reserve + kCheapPrepend < 2 ^ 64 := by
  simp only [Answered]
  rw [shrinkCall_eq b reserve plenty]
  constructor
  · intro hanswer
    refine Nat.lt_of_not_le fun hwrap => ?_
    rcases shrink_wraps h hres hwrap with ⟨b', hb', hshort⟩
    rw [hb'] at hanswer
    rcases hanswer with ⟨b'', heq, hroom⟩ | herror
    · cases heq
      exact Nat.not_le.2 hshort hroom
    · cases herror
  · intro hlt
    by_cases hmax : b.readableBytes + reserve + kCheapPrepend ≤ maxSize
    · rcases shrink_spec h hmax with ⟨b', hb', -, -, -, hroom, -⟩
      rw [hb']
      exact .inl ⟨b', rfl, hroom⟩
    · rw [shrink_error hlt (Nat.lt_of_not_le hmax)]
      exact .inr rfl

/-- A request is answered if and only if the capacity it asks for is a `size_t`. -/
theorem answered_iff_capacity_lt {q : CapacityRequest} (h : q.Valid) :
    q.Answered ↔ q.capacity < 2 ^ 64 := by
  cases q with
  | construct initialSize => exact construct_answered_iff h
  | ensure b len => exact ensure_answered_iff h.1 h.2.1 h.2.2
  | shrink b reserve => exact shrink_answered_iff h.1 h.2

theorem reserve_of_five_answered :
    (shrink ⟨List.replicate 16 1, 8, 10⟩ 5).Answered ↔ (2 : Nat) + 5 + kCheapPrepend < 2 ^ 64 :=
  answered_iff_capacity_lt (q := shrink ⟨List.replicate 16 1, 8, 10⟩ 5)
    ⟨⟨by decide, by decide, by decide, by decide⟩, by decide⟩

/-- The largest initial size makes a buffer of seven bytes, whose indices are behind its
end. -/
theorem largest_size_unanswered :
    new (2 ^ 64 - 1) = .ok ⟨List.replicate 7 0, 8, 8⟩ ∧
      (construct (2 ^ 64 - 1)).Valid ∧ ¬ (construct (2 ^ 64 - 1)).Answered := by
  have hnew : new (2 ^ 64 - 1) = .ok ⟨List.replicate 7 0, 8, 8⟩ := by decide
  refine ⟨hnew, by unfold Valid; decide, ?_⟩
  simp only [Answered]
  rw [hnew]
  decide

end CapacityRequest

end Hayai.Buffer
