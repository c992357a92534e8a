import Hayai.Utils.Buffer

/-! # One specification per buffer operation

`Wf` is the index invariant of the source's diagram. Every operation keeps it or
faults, and `Fits` is the exact condition under which an append stays inside the
vector. The condition is not always true: `writableBytes` counts the unread
bytes as writable, so both the test of `ensureWritableBytes` and the grow-or-move
decision of `makeSpace` can promise room that is not there.
-/

namespace Hayai.Buffer

open Storage

/-- `kCheapPrepend <= readerIndex_ <= writerIndex_ <= buffer_.size()`, in a vector
the allocator has granted. -/
structure Wf (b : Buffer) : Prop where
  cheapPrepend : kCheapPrepend ≤ b.readerIndex
  reader_le : b.readerIndex ≤ b.writerIndex
  writer_le : b.writerIndex ≤ b.size
  size_le : b.size ≤ maxSize

def content (b : Buffer) : List UInt8 :=
  slice b.buffer b.readerIndex (b.writerIndex - b.readerIndex)

/-- An append of `len` bytes stays inside the vector. The three cases are: taken
as fitting, grown, moved to the front. -/
def Fits (b : Buffer) (len : Nat) : Prop :=
  if len ≤ b.size - b.readerIndex then b.writerIndex + len ≤ b.size
  else if b.size < len + kCheapPrepend then b.writerIndex + len ≤ maxSize
  else kCheapPrepend + (b.writerIndex - b.readerIndex) + len ≤ b.size

instance (b : Buffer) (len : Nat) : Decidable (b.Fits len) :=
  inferInstanceAs (Decidable (ite _ _ _))

theorem fits_congr {b c : Buffer} (hsize : c.size = b.size) (hr : c.readerIndex = b.readerIndex)
    (hw : c.writerIndex = b.writerIndex) (len : Nat) : c.Fits len ↔ b.Fits len := by
  unfold Fits
  rw [hsize, hr, hw]

/-! ## Copies and the vector -/

theorem resize_ok {cells : List UInt8} {n : Nat} (h : n ≤ maxSize) :
    resize cells n = .ok (cells.take n ++ List.replicate (n - cells.length) 0) := by
  simp [resize, plenty, Nat.not_lt.2 h]

theorem resize_error {cells : List UInt8} {n : Nat} (h : maxSize < n) :
    resize cells n = .error .lengthError :=
  if_pos h

theorem copyTo_ok {cells : List UInt8} {pos : Nat} {data : List UInt8}
    (h : pos + data.length ≤ cells.length) : copyTo cells pos data = .ok (overwrite cells pos data) :=
  if_pos h

theorem copyTo_error {cells : List UInt8} {pos : Nat} {data : List UInt8}
    (h : cells.length < pos + data.length) : copyTo cells pos data = .error .outOfBounds :=
  if_neg (Nat.not_le.2 h)

theorem copyFrom_ok {cells : List UInt8} {pos len : Nat} (h : pos + len ≤ cells.length) :
    copyFrom cells pos len = .ok (slice cells pos len) :=
  if_pos h

/-! ## Sizes of a well-formed buffer -/

theorem sizeT_of_lt {n : Nat} (h : n < 2 ^ 64) : sizeT n = n := Nat.mod_eq_of_lt h

theorem sizeT_le (n : Nat) : sizeT n ≤ n := Nat.mod_le _ _

theorem sizeSub_of_le {a b : Nat} (h : b ≤ a) : sizeSub a b = a - b := if_pos h

theorem maxSize_lt : maxSize < 2 ^ 63 := by simp [maxSize]

theorem Wf.size_lt {b : Buffer} (h : b.Wf) : b.size < 2 ^ 63 :=
  Nat.lt_of_le_of_lt h.size_le maxSize_lt

theorem Wf.readableBytes_eq {b : Buffer} (h : b.Wf) :
    b.readableBytes = b.writerIndex - b.readerIndex :=
  sizeSub_of_le h.reader_le

theorem Wf.writableBytes_eq {b : Buffer} (h : b.Wf) :
    b.writableBytes = b.size - b.readerIndex :=
  sizeSub_of_le (Nat.le_trans h.reader_le h.writer_le)

theorem Wf.capacity_eq {b : Buffer} (h : b.Wf) :
    sizeT (b.writableBytes + b.prependableBytes) = b.size := by
  have hr := h.reader_le
  have hw := h.writer_le
  have hs := h.size_lt
  rw [h.writableBytes_eq, prependableBytes, sizeT_of_lt (by omega)]
  omega

theorem Wf.content_length {b : Buffer} (h : b.Wf) : b.content.length = b.readableBytes := by
  have hr := h.reader_le
  have hw := h.writer_le
  rw [h.readableBytes_eq]
  refine slice_length ?_
  change _ ≤ b.size
  omega

theorem Wf.content_eq_copy {b : Buffer} (h : b.Wf) :
    copyFrom b.buffer b.readerIndex b.readableBytes = .ok b.content := by
  have hr := h.reader_le
  have hw : b.writerIndex ≤ b.buffer.length := h.writer_le
  rw [h.readableBytes_eq]
  exact copyFrom_ok (by omega)

/-! ## Construction -/

theorem new_spec (initialSize : Nat) (h : kCheapPrepend + initialSize ≤ maxSize) :
    ∃ b, new initialSize = .ok b ∧ b.Wf ∧ b.content = [] ∧
      b.size = kCheapPrepend + initialSize ∧ b.readerIndex = kCheapPrepend ∧
      b.writerIndex = kCheapPrepend := by
  have hs : sizeT (kCheapPrepend + initialSize) = kCheapPrepend + initialSize :=
    sizeT_of_lt (by have := maxSize_lt; omega)
  refine ⟨⟨List.replicate (kCheapPrepend + initialSize) 0, kCheapPrepend, kCheapPrepend⟩,
    ?_, ⟨Nat.le_refl _, Nat.le_refl _, ?_, ?_⟩, ?_, ?_, rfl, rfl⟩
  · simp [new, hs, resize_ok h, bind, Except.bind, pure, Except.pure]
  · simp [size]
  · simpa [size] using h
  · simp [content]
  · simp [size]

/-! ## Making room -/

/-- The growing branch of `makeSpace`: zero bytes are added behind the content. -/
theorem makeSpace_grow {b : Buffer} {len : Nat} (h : b.Wf)
    (hlen : b.writerIndex + len ≤ maxSize) (hgrow : b.size < len + kCheapPrepend) :
    ∃ b', b.makeSpace len = .ok b' ∧ b'.Wf ∧ b'.content = b.content ∧
      b'.readerIndex = b.readerIndex ∧ b'.writerIndex = b.writerIndex ∧
      b'.size = b.writerIndex + len := by
  have hp := h.cheapPrepend
  have hr := h.reader_le
  have hw := h.writer_le
  have hmax := maxSize_lt
  have hlen8 : sizeT (len + kCheapPrepend) = len + kCheapPrepend := sizeT_of_lt (by omega)
  have hwl : sizeT (b.writerIndex + len) = b.writerIndex + len := sizeT_of_lt (by omega)
  have hle : b.buffer.length ≤ b.writerIndex + len := by
    change b.size ≤ _
    omega
  have hsize : (b.buffer ++ List.replicate (b.writerIndex + len - b.buffer.length) 0).length =
      b.writerIndex + len := by
    rw [List.length_append, List.length_replicate]
    omega
  refine ⟨{ b with buffer := b.buffer ++ List.replicate (b.writerIndex + len - b.buffer.length) 0 },
    ?_, ⟨hp, hr, ?_, ?_⟩, ?_, rfl, rfl, hsize⟩
  · rw [makeSpace, h.capacity_eq, hlen8, if_pos hgrow, hwl, resize_ok hlen,
      List.take_of_length_le hle]
    rfl
  · rw [size, hsize]
    exact Nat.le_add_right _ _
  · rw [size, hsize]
    exact hlen
  · refine slice_append_left _ ?_
    change b.readerIndex + (b.writerIndex - b.readerIndex) ≤ b.size
    omega

theorem makeSpace_error {b : Buffer} {len : Nat} (h : b.Wf)
    (hgrow : b.size < len + kCheapPrepend) (hlt : b.writerIndex + len < 2 ^ 64)
    (hlen : maxSize < b.writerIndex + len) : b.makeSpace len = .error .lengthError := by
  have hp := h.cheapPrepend
  have hr := h.reader_le
  rw [makeSpace, h.capacity_eq, sizeT_of_lt (by omega), if_pos hgrow, sizeT_of_lt hlt,
    resize_error hlen]
  rfl

/-- The moving branch of `makeSpace`: the content goes to the front and the
vector keeps its size. -/
theorem makeSpace_move {b : Buffer} {len : Nat} (h : b.Wf)
    (hmove : sizeT (len + kCheapPrepend) ≤ b.size) :
    ∃ b', b.makeSpace len = .ok b' ∧ b'.Wf ∧ b'.content = b.content ∧
      b'.readerIndex = kCheapPrepend ∧
      b'.writerIndex = kCheapPrepend + (b.writerIndex - b.readerIndex) ∧ b'.size = b.size := by
  have hp := h.cheapPrepend
  have hr := h.reader_le
  have hw := h.writer_le
  have hs := h.size_lt
  have hmax := maxSize_lt
  have hpre : kCheapPrepend = 8 := rfl
  have hclen := h.content_length
  have hread := h.readableBytes_eq
  have hidx : sizeT (kCheapPrepend + b.readableBytes) =
      kCheapPrepend + (b.writerIndex - b.readerIndex) := by
    rw [hread]
    exact sizeT_of_lt (by omega)
  have hfit : kCheapPrepend + b.content.length ≤ b.buffer.length := by
    change _ ≤ b.size
    omega
  have hsize : (overwrite b.buffer kCheapPrepend b.content).length = b.size := overwrite_length hfit
  refine ⟨⟨overwrite b.buffer kCheapPrepend b.content, kCheapPrepend,
    kCheapPrepend + (b.writerIndex - b.readerIndex)⟩,
    ?_, ⟨Nat.le_refl _, Nat.le_add_right _ _, ?_, ?_⟩, ?_, rfl, rfl, hsize⟩
  · rw [makeSpace, h.capacity_eq, if_neg (Nat.not_lt.2 hmove)]
    dsimp only
    rw [h.content_eq_copy, hidx]
    simp only [bind, Except.bind, copyTo_ok hfit]
    rfl
  · rw [size, hsize]
    change kCheapPrepend + (b.writerIndex - b.readerIndex) ≤ b.size
    omega
  · rw [size, hsize]
    exact h.size_le
  · have hslice := slice_overwrite (Nat.le_refl kCheapPrepend) hfit
    rw [Nat.sub_self, slice_zero, List.nil_append, hclen, hread] at hslice
    exact hslice

/-- What `ensureWritableBytes` leaves: the same readable bytes in a well-formed
buffer. Whether the room asked for is there is exactly `Fits`. -/
theorem ensureWritableBytes_spec {b : Buffer} (len : Nat) (h : b.Wf)
    (hlen : b.writerIndex + len ≤ maxSize) :
    ∃ b', b.ensureWritableBytes len = .ok b' ∧ b'.Wf ∧ b'.content = b.content ∧
      (b'.writerIndex + len ≤ b'.size ↔ b.Fits len) := by
  unfold ensureWritableBytes Fits
  rw [h.writableBytes_eq]
  by_cases hroom : len ≤ b.size - b.readerIndex
  · rw [if_neg (Nat.not_lt.2 hroom), if_pos hroom]
    exact ⟨b, rfl, h, rfl, Iff.rfl⟩
  · rw [if_pos (Nat.lt_of_not_le hroom), if_neg hroom]
    -- Writable and prependable bytes together are the whole vector, so growing is
    -- chosen only when the vector could not hold `len` bytes even if it were empty.
    by_cases hgrow : b.size < len + kCheapPrepend
    · obtain ⟨b', hb', hwf, hcontent, -, hwriter, hsize⟩ :=
        makeSpace_grow h hlen hgrow
      rw [if_pos hgrow]
      exact ⟨b', hb', hwf, hcontent, fun _ => hlen, fun _ => by omega⟩
    · obtain ⟨b', hb', hwf, hcontent, -, hwriter, hsize⟩ :=
        makeSpace_move h (Nat.le_trans (sizeT_le _) (Nat.not_lt.1 hgrow))
      rw [if_neg hgrow]
      exact ⟨b', hb', hwf, hcontent, by rw [hwriter, hsize]⟩

theorem ensureWritableBytes_room {b : Buffer} {len : Nat} (h : b.Wf) (hfits : b.Fits len) :
    ∃ b', b.ensureWritableBytes len = .ok b' ∧ b'.Wf ∧ b'.content = b.content ∧
      b'.writerIndex + len ≤ b'.size := by
  unfold Fits at hfits
  unfold ensureWritableBytes
  rw [h.writableBytes_eq]
  by_cases hroom : len ≤ b.size - b.readerIndex
  · rw [if_pos hroom] at hfits
    rw [if_neg (Nat.not_lt.2 hroom)]
    exact ⟨b, rfl, h, rfl, hfits⟩
  · rw [if_neg hroom] at hfits
    rw [if_pos (Nat.lt_of_not_le hroom)]
    by_cases hgrow : b.size < len + kCheapPrepend
    · rw [if_pos hgrow] at hfits
      rcases makeSpace_grow h hfits hgrow with
        ⟨b', hb', hwf, hcontent, -, hwriter, hsize⟩
      exact ⟨b', hb', hwf, hcontent, by omega⟩
    · rw [if_neg hgrow] at hfits
      rcases makeSpace_move h (Nat.le_trans (sizeT_le _) (Nat.not_lt.1 hgrow)) with
        ⟨b', hb', hwf, hcontent, -, hwriter, hsize⟩
      exact ⟨b', hb', hwf, hcontent, by rw [hwriter, hsize]; exact hfits⟩

/-! ## Appending -/

theorem fill_spec {b : Buffer} (data : List UInt8) (h : b.Wf)
    (hfit : b.writerIndex + data.length ≤ b.size) :
    Wf { b with
        buffer := overwrite b.buffer b.writerIndex data
        writerIndex := b.writerIndex + data.length } ∧
      content { b with
        buffer := overwrite b.buffer b.writerIndex data
        writerIndex := b.writerIndex + data.length } = b.content ++ data := by
  have hr := h.reader_le
  have hsize : (overwrite b.buffer b.writerIndex data).length = b.size := overwrite_length hfit
  refine ⟨⟨h.cheapPrepend, Nat.le_trans hr (Nat.le_add_right _ _), ?_, ?_⟩, ?_⟩
  · rw [size, hsize]
    exact hfit
  · rw [size, hsize]
    exact h.size_le
  · exact slice_overwrite hr hfit

private theorem append_of_ensure {b b' : Buffer} {data : List UInt8}
    (h : b.ensureWritableBytes data.length = .ok b') :
    b.append data = (copyTo b'.buffer b'.writerIndex data >>= fun buffer =>
      pure { b' with buffer, writerIndex := sizeT (b'.writerIndex + data.length) }) := by
  rw [append, h]
  rfl

theorem append_spec {b : Buffer} (data : List UInt8) (h : b.Wf) (hfits : b.Fits data.length) :
    ∃ b', b.append data = .ok b' ∧ b'.Wf ∧ b'.content = b.content ++ data := by
  rcases ensureWritableBytes_room h hfits with ⟨e, he, hwf, hcontent, hfit⟩
  have hs := hwf.size_lt
  have hidx : sizeT (e.writerIndex + data.length) = e.writerIndex + data.length :=
    sizeT_of_lt (by omega)
  rcases fill_spec data hwf hfit with ⟨hwf', hcontent'⟩
  rw [append_of_ensure he, copyTo_ok hfit, hidx]
  exact ⟨_, rfl, hwf', hcontent ▸ hcontent'⟩

/-- Without room the copy leaves the vector, or the vector cannot grow. -/
theorem append_faults {b : Buffer} (data : List UInt8) (h : b.Wf) (hlen : data.length ≤ maxSize)
    (hfits : ¬ b.Fits data.length) : ∃ f, b.append data = .error f := by
  have hout : ∀ e : Buffer, b.ensureWritableBytes data.length = .ok e →
      e.size < e.writerIndex + data.length → ∃ f, b.append data = .error f := by
    intro e he hsize
    refine ⟨.outOfBounds, ?_⟩
    rw [append_of_ensure he, copyTo_error hsize]
    rfl
  have hmax := maxSize_lt
  have hw := h.writer_le
  have hr := h.reader_le
  have hs := h.size_le
  have hpre : kCheapPrepend = 8 := rfl
  unfold Fits at hfits
  by_cases hroom : data.length ≤ b.size - b.readerIndex
  · rw [if_pos hroom] at hfits
    apply hout b _ (Nat.lt_of_not_le hfits)
    rw [ensureWritableBytes, h.writableBytes_eq, if_neg (Nat.not_lt.2 hroom)]
    rfl
  · rw [if_neg hroom] at hfits
    have hensure : b.ensureWritableBytes data.length = b.makeSpace data.length := by
      rw [ensureWritableBytes, h.writableBytes_eq, if_pos (Nat.lt_of_not_le hroom)]
    by_cases hgrow : b.size < data.length + kCheapPrepend
    · rw [if_pos hgrow] at hfits
      refine ⟨.lengthError, ?_⟩
      rw [append, hensure, makeSpace_error h hgrow (by omega) (Nat.lt_of_not_le hfits)]
      rfl
    · rw [if_neg hgrow] at hfits
      rcases makeSpace_move h (Nat.le_trans (sizeT_le _) (Nat.not_lt.1 hgrow)) with
        ⟨e, he, -, -, -, hwriter, hsize⟩
      apply hout e (hensure.trans he)
      rw [hwriter, hsize]
      exact Nat.lt_of_not_le hfits

/-! ## Retrieving -/

theorem retrieveAll_spec {b : Buffer} (h : b.Wf) :
    b.retrieveAll.Wf ∧ b.retrieveAll.content = [] := by
  have hp := h.cheapPrepend
  have hr := h.reader_le
  have hw := h.writer_le
  refine ⟨⟨Nat.le_refl _, Nat.le_refl _, ?_, h.size_le⟩, ?_⟩
  · change kCheapPrepend ≤ b.size
    omega
  · simp [content, retrieveAll]

theorem retrieve_spec {b : Buffer} {len : Nat} (h : b.Wf) (hlen : len ≤ b.readableBytes) :
    ∃ b', b.retrieve len = .ok b' ∧ b'.Wf ∧ b'.content = b.content.drop len := by
  have hread := h.readableBytes_eq
  unfold retrieve
  rw [if_pos hlen]
  by_cases hlt : len < b.readableBytes
  · have hw := h.writer_le
    have hs := h.size_lt
    have hidx : sizeT (b.readerIndex + len) = b.readerIndex + len := sizeT_of_lt (by omega)
    rw [if_pos hlt, hidx]
    refine ⟨_, rfl, ⟨Nat.le_trans h.cheapPrepend (Nat.le_add_right _ _), ?_, hw, h.size_le⟩, ?_⟩
    · change b.readerIndex + len ≤ b.writerIndex
      omega
    · rw [content, content, slice_drop, Nat.sub_sub]
  · obtain ⟨hwf, hnil⟩ := retrieveAll_spec h
    rw [if_neg hlt]
    refine ⟨_, rfl, hwf, ?_⟩
    rw [hnil, List.drop_eq_nil_of_le]
    rw [h.content_length]
    omega

theorem retrieveAllAsString_spec {b : Buffer} (h : b.Wf) :
    b.retrieveAllAsString = .ok (b.content, b.retrieveAll) := by
  simp [retrieveAllAsString, h.content_eq_copy, bind, Except.bind, pure, Except.pure]

theorem retrieveAsString_spec {b : Buffer} {len : Nat} (h : b.Wf) (hlen : len ≤ b.readableBytes) :
    ∃ b', b.retrieveAsString len = .ok (b.content.take len, b') ∧ b'.Wf ∧
      b'.content = b.content.drop len := by
  obtain ⟨b', hb', hwf, hcontent⟩ := retrieve_spec h hlen
  have hread := h.readableBytes_eq
  have hr := h.reader_le
  have hw : b.writerIndex ≤ b.buffer.length := h.writer_le
  have hcopy : copyFrom b.buffer b.readerIndex len = .ok (b.content.take len) := by
    rw [copyFrom_ok (by omega), content, slice_take _ _ (by omega)]
  refine ⟨b', ?_, hwf, hcontent⟩
  simp [retrieveAsString, hlen, hcopy, hb', bind, Except.bind, pure, Except.pure]

/-! ## Shrinking -/

structure Blank (b : Buffer) : Prop where
  wf : b.Wf
  reader : b.readerIndex = kCheapPrepend
  writer : b.writerIndex = kCheapPrepend

theorem Blank.content {b : Buffer} (h : b.Blank) : b.content = [] := by
  rw [Buffer.content, h.reader, h.writer, Nat.sub_self, slice_zero]

theorem new_blank (initialSize : Nat) (h : kCheapPrepend + initialSize ≤ maxSize) :
    ∃ b, new initialSize = .ok b ∧ b.Blank ∧ b.size = kCheapPrepend + initialSize := by
  rcases new_spec initialSize h with ⟨b, hb, hwf, -, hsize, hreader, hwriter⟩
  exact ⟨b, hb, ⟨hwf, hreader, hwriter⟩, hsize⟩

theorem Blank.ensureWritableBytes {b : Buffer} (len : Nat) (h : b.Blank)
    (hlen : kCheapPrepend + len ≤ maxSize) :
    ∃ b', b.ensureWritableBytes len = .ok b' ∧ b'.Blank ∧
      b'.size = max b.size (kCheapPrepend + len) := by
  have hr := h.reader
  have hw := h.writer
  have hle := h.wf.writer_le
  rw [Buffer.ensureWritableBytes, h.wf.writableBytes_eq]
  by_cases hroom : len ≤ b.size - b.readerIndex
  · rw [if_neg (Nat.not_lt.2 hroom)]
    refine ⟨b, rfl, h, ?_⟩
    omega
  · rw [if_pos (Nat.lt_of_not_le hroom)]
    have hgrow : b.size < len + kCheapPrepend := by omega
    rcases makeSpace_grow h.wf (by omega) hgrow with
      ⟨b', hb', hwf, -, hreader, hwriter, hsize⟩
    refine ⟨b', hb', ⟨hwf, hreader.trans hr, hwriter.trans hw⟩, ?_⟩
    omega

theorem Blank.append {b : Buffer} (data : List UInt8) (h : b.Blank)
    (hlen : kCheapPrepend + data.length ≤ maxSize) :
    ∃ b', b.append data = .ok b' ∧ b'.Wf ∧ b'.content = data ∧
      b'.readerIndex = kCheapPrepend ∧ b'.writerIndex = kCheapPrepend + data.length ∧
      b'.size = max b.size (kCheapPrepend + data.length) := by
  rcases h.ensureWritableBytes _ hlen with ⟨e, he, hblank, hsize⟩
  have hmax := maxSize_lt
  have hw := hblank.writer
  have hfit : e.writerIndex + data.length ≤ e.size := by omega
  rcases fill_spec data hblank.wf hfit with ⟨hwf, hcontent⟩
  rw [append_of_ensure he, copyTo_ok hfit, sizeT_of_lt (by omega)]
  refine ⟨_, rfl, hwf, ?_, hblank.reader, ?_, ?_⟩
  · rw [hcontent, hblank.content, List.nil_append]
  · exact congrArg (· + data.length) hw
  · exact (overwrite_length hfit).trans hsize

/-- A fresh buffer is empty and starts at `kCheapPrepend`, so what it was asked to
reserve is really there and the copy into it always fits. -/
theorem shrink_spec {b : Buffer} {reserve : Nat} (h : b.Wf)
    (hres : b.readableBytes + reserve + kCheapPrepend ≤ maxSize) :
    ∃ b', b.shrink reserve = .ok b' ∧ b'.Wf ∧ b'.content = b.content ∧
      b'.readerIndex = kCheapPrepend ∧ b'.writerIndex + reserve ≤ b'.size ∧
      b'.size = kCheapPrepend + max kInitialSize (b.readableBytes + reserve) := by
  have hmax := maxSize_lt
  have hsum : sizeT (b.readableBytes + reserve) = b.readableBytes + reserve :=
    sizeT_of_lt (by omega)
  have hclen := h.content_length
  rcases new_blank kInitialSize (by decide) with ⟨fresh, hnew, hfresh, hfsize⟩
  rcases hfresh.ensureWritableBytes (b.readableBytes + reserve) (by omega) with
    ⟨other, hother, hblank, hosize⟩
  rcases hblank.append b.content (by omega) with
    ⟨b', hb', hwf, hcontent, hreader, hwriter, hsize⟩
  refine ⟨b', ?_, hwf, hcontent, hreader, ?_, ?_⟩
  · simp only [shrink, hnew, hsum, hother, h.content_eq_copy, hb', swap, bind, Except.bind, pure,
      Except.pure]
  · omega
  · omega

end Hayai.Buffer
