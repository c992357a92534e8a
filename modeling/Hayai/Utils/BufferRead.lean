import Hayai.Utils.BufferSpec

/-! # Reading from a socket into a buffer

`readFd` offers `readv` the space it believes to be writable and a stack buffer.
The belief is wrong whenever unread bytes are in the buffer, and the bytes that
spill into the stack buffer are then appended to a full vector.
-/

namespace Hayai.Buffer

open Storage

/-- A read of `n` bytes stays inside the vector: either it fits behind the unread
bytes, or nothing is unread and the spilled bytes can be appended to the full vector. -/
def ReadFits (b : Buffer) (n : Nat) : Prop :=
  if n ≤ b.size - b.readerIndex then b.writerIndex + n ≤ b.size
  else b.writerIndex = b.readerIndex ∧
    Fits { b with writerIndex := b.size } (n - (b.size - b.readerIndex))

instance (b : Buffer) (n : Nat) : Decidable (b.ReadFits n) :=
  inferInstanceAs (Decidable (ite _ _ _))

theorem readFits_zero {b : Buffer} (h : b.Wf) : b.ReadFits 0 := by
  unfold ReadFits
  rw [if_pos (Nat.zero_le _)]
  exact h.writer_le

theorem offered_le {b : Buffer} (h : b.Wf) : b.offered ≤ maxSize := by
  have hs := h.size_le
  have hextra : extrabufSize + extrabufSize ≤ maxSize := by decide
  unfold offered
  rw [h.writableBytes_eq]
  split <;> omega

theorem readFd_of_le {b : Buffer} {data : List UInt8} (h : b.Wf)
    (hle : data.length ≤ b.size - b.readerIndex) :
    b.readFd (.bytes data) = (copyTo b.buffer b.writerIndex data >>= fun buffer =>
      pure ({ b with buffer, writerIndex := sizeT (b.writerIndex + data.length) }, none)) := by
  simp only [readFd, h.writableBytes_eq, hle, if_true, List.take_of_length_le hle]

theorem readFd_of_gt {b : Buffer} {data : List UInt8} (h : b.Wf)
    (hgt : b.size - b.readerIndex < data.length) :
    b.readFd (.bytes data) =
      (copyTo b.buffer b.writerIndex (data.take (b.size - b.readerIndex)) >>= fun buffer =>
        append { b with buffer, writerIndex := buffer.length }
          (data.drop (b.size - b.readerIndex)) >>= fun b => pure (b, none)) := by
  simp only [readFd, h.writableBytes_eq, Nat.not_le.2 hgt, if_false]

theorem readFd_spill {b : Buffer} {data : List UInt8} (h : b.Wf)
    (hgt : b.size - b.readerIndex < data.length) (hempty : b.writerIndex = b.readerIndex) :
    ∃ full : Buffer, full.Wf ∧ full.content = b.content ++ data.take (b.size - b.readerIndex) ∧
      (∀ len, full.Fits len ↔ Fits { b with writerIndex := b.size } len) ∧
      b.readFd (.bytes data) =
        (full.append (data.drop (b.size - b.readerIndex)) >>= fun b => pure (b, none)) := by
  have hw := h.writer_le
  have hfull : b.writerIndex + (data.take (b.size - b.readerIndex)).length = b.size := by
    rw [List.length_take]
    omega
  have hlength : (overwrite b.buffer b.writerIndex
      (data.take (b.size - b.readerIndex))).length = b.size := overwrite_length (Nat.le_of_eq hfull)
  rcases fill_spec _ h (Nat.le_of_eq hfull) with ⟨hwf, hcontent⟩
  refine ⟨_, hwf, hcontent, fits_congr hlength rfl hfull, ?_⟩
  rw [readFd_of_gt h hgt, copyTo_ok (Nat.le_of_eq hfull)]
  simp only [bind, Except.bind, hlength, hfull]

/-- A read that fits adds its bytes behind the unread ones. -/
theorem readFd_spec {b : Buffer} {data : List UInt8} (h : b.Wf)
    (hfits : b.ReadFits data.length) :
    ∃ b', b.readFd (.bytes data) = .ok (b', none) ∧ b'.Wf ∧ b'.content = b.content ++ data := by
  have hs := h.size_lt
  unfold ReadFits at hfits
  by_cases hle : data.length ≤ b.size - b.readerIndex
  · rw [if_pos hle] at hfits
    rcases fill_spec data h hfits with ⟨hwf, hcontent⟩
    rw [readFd_of_le h hle, copyTo_ok hfits, sizeT_of_lt (by omega)]
    exact ⟨_, rfl, hwf, hcontent⟩
  · rw [if_neg hle] at hfits
    rcases readFd_spill h (Nat.lt_of_not_le hle) hfits.1 with
      ⟨full, hwf, hcontent, hiff, hread⟩
    have hroom : full.Fits (data.drop (b.size - b.readerIndex)).length := by
      rw [List.length_drop, hiff]
      exact hfits.2
    rcases append_spec _ hwf hroom with ⟨b', hb', hwf', hcontent'⟩
    refine ⟨b', ?_, hwf', ?_⟩
    · rw [hread, hb']
      rfl
    · rw [hcontent', hcontent, List.append_assoc, List.take_append_drop]

/-- A read that does not fit faults. -/
theorem readFd_faults {b : Buffer} {data : List UInt8} (h : b.Wf) (hlen : data.length ≤ maxSize)
    (hfits : ¬ b.ReadFits data.length) : ∃ f, b.readFd (.bytes data) = .error f := by
  have hr := h.reader_le
  have hw := h.writer_le
  unfold ReadFits at hfits
  by_cases hle : data.length ≤ b.size - b.readerIndex
  · rw [if_pos hle] at hfits
    refine ⟨.outOfBounds, ?_⟩
    rw [readFd_of_le h hle, copyTo_error (Nat.lt_of_not_le hfits)]
    rfl
  · rw [if_neg hle, not_and] at hfits
    by_cases hempty : b.writerIndex = b.readerIndex
    · rcases readFd_spill h (Nat.lt_of_not_le hle) hempty with ⟨full, hwf, -, hiff, hread⟩
      have hroom : ¬ full.Fits (data.drop (b.size - b.readerIndex)).length := by
        rw [List.length_drop, hiff]
        exact hfits hempty
      have hdrop : (data.drop (b.size - b.readerIndex)).length ≤ maxSize := by
        rw [List.length_drop]
        omega
      rcases append_faults _ hwf hdrop hroom with ⟨f, hf⟩
      refine ⟨f, ?_⟩
      rw [hread, hf]
      rfl
    · refine ⟨.outOfBounds, ?_⟩
      have hout : b.buffer.length <
          b.writerIndex + (data.take (b.size - b.readerIndex)).length := by
        change b.size < _
        rw [List.length_take]
        omega
      rw [readFd_of_gt h (Nat.lt_of_not_le hle), copyTo_error hout]
      rfl

/-! ## Exact reads -/

/-- What a scatter read is for: the indices are in order again, the unread bytes are
followed by exactly those `readv` returned, and a failed call only reports its error. -/
def ReadExact (b : Buffer) : ReadResult → Prop
  | .failed errno => b.readFd (.failed errno) = .ok (b, some errno)
  | .bytes data => ∃ b', b.readFd (.bytes data) = .ok (b', none) ∧
      b'.readerIndex ≤ b'.writerIndex ∧ b'.writerIndex ≤ b'.size ∧
      b'.content = b.content ++ data

/-- `readv` never returns more than it was offered, and a read is exact if and only if
its bytes fit. A failed read always is. -/
theorem readExact_iff_readFits {b : Buffer} {r : ReadResult} (h : b.Wf)
    (hr : r.data.length ≤ b.offered) :
    b.ReadExact r ↔ ∀ data, r = .bytes data → b.ReadFits data.length := by
  cases r with
  | failed errno =>
      constructor
      · rintro - data ⟨⟩
      · intro _
        rfl
  | bytes data =>
      have hlen : data.length ≤ maxSize := Nat.le_trans hr (offered_le h)
      constructor
      · rintro ⟨b', hb', -⟩ read hread
        cases hread
        by_contra hfits
        rcases readFd_faults h hlen hfits with ⟨f, hf⟩
        rw [hf] at hb'
        cases hb'
      · intro hfits
        rcases readFd_spec h (hfits data rfl) with ⟨b', hb', hwf, hcontent⟩
        exact ⟨b', hb', hwf.reader_le, hwf.writer_le, hcontent⟩

theorem large_read_exact :
    ReadExact ⟨List.replicate 16 0, 8, 8⟩ (.bytes (List.replicate 17 1)) :=
  (readExact_iff_readFits ⟨by decide, by decide, by decide, by decide⟩ (by decide)).2
    (by rintro data ⟨⟩; decide)

/-- Two thousand bytes read into a default buffer: the 976 that spill are taken to fit
into the full vector and are copied behind its end. -/
theorem default_read_not_exact :
    ∃ b, new kInitialSize = .ok b ∧ b.Wf ∧ 2000 ≤ b.offered ∧
      ¬ b.ReadExact (.bytes (List.replicate 2000 88)) := by
  rcases new_spec kInitialSize (by decide) with ⟨b, hnew, hwf, -, hsize, hreader, hwriter⟩
  have hoffered : 2000 ≤ b.offered := by
    unfold offered
    rw [hwf.writableBytes_eq, hsize, hreader]
    decide
  refine ⟨b, hnew, hwf, hoffered, ?_⟩
  rintro ⟨b', hb', -⟩
  have hfits : ¬ b.ReadFits (List.replicate 2000 (88 : UInt8)).length := by
    have hlength : b.buffer.length = 1032 := hsize
    rw [List.length_replicate]
    simp [ReadFits, Fits, size, hlength, hreader, hwriter, kCheapPrepend]
  have hlen : (List.replicate 2000 (88 : UInt8)).length ≤ maxSize := by
    rw [List.length_replicate]
    decide
  rcases readFd_faults hwf hlen hfits with ⟨f, hf⟩
  rw [hf] at hb'
  cases hb'

end Hayai.Buffer
