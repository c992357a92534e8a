import Hayai.Machine.Run
import Hayai.Utils.BufferSpec
import Mathlib.Logic.Function.Basic

/-! # Buffers against byte queues

Any number of buffers is driven by a list of operations, and an unbounded byte
queue per buffer is driven by the same list. The two sides run in lockstep, so
that "the buffer behaves as a queue" is a property of one machine's states. The
condition that decides it is about appends alone: the constructor, the retrieving
operations, `ensureWritableBytes`, `shrink` and `swap` never break it.
-/

namespace Hayai

open Buffer

variable {κ : Type} [DecidableEq κ]

inductive BufferOp (κ : Type) where
  | append (k : κ) (data : List UInt8)
  | retrieve (k : κ) (len : Nat)
  | retrieveAsString (k : κ) (len : Nat)
  | retrieveAll (k : κ)
  | retrieveAllAsString (k : κ)
  | ensureWritableBytes (k : κ) (len : Nat)
  | shrink (k : κ) (reserve : Nat)
  | swap (k l : κ)
  deriving DecidableEq

/-! ## The buffers -/

/-- A family of buffers and the strings their `retrieve*AsString` calls returned. -/
structure Pool (κ : Type) where
  buffers : κ → Buffer
  returned : List (List UInt8)

namespace Pool

def set (p : Pool κ) (k : κ) (b : Buffer) : Pool κ :=
  { p with buffers := Function.update p.buffers k b }

def give (p : Pool κ) (bytes : List UInt8) : Pool κ :=
  { p with returned := p.returned ++ [bytes] }

def apply (p : Pool κ) : BufferOp κ → Except Fault (Pool κ)
  | .append k data => do
      let b ← (p.buffers k).append data
      pure (p.set k b)
  | .retrieve k len => do
      let b ← (p.buffers k).retrieve len
      pure (p.set k b)
  | .retrieveAsString k len => do
      let (bytes, b) ← (p.buffers k).retrieveAsString len
      pure ((p.set k b).give bytes)
  | .retrieveAll k => pure (p.set k (p.buffers k).retrieveAll)
  | .retrieveAllAsString k => do
      let (bytes, b) ← (p.buffers k).retrieveAllAsString
      pure ((p.set k b).give bytes)
  | .ensureWritableBytes k len => do
      let b ← (p.buffers k).ensureWritableBytes len
      pure (p.set k b)
  | .shrink k reserve => do
      let b ← (p.buffers k).shrink reserve
      pure (p.set k b)
  | .swap k l =>
      let (b, c) := (p.buffers k).swap (p.buffers l)
      pure ((p.set k b).set l c)

end Pool

/-! ## The queues -/

structure Queues (κ : Type) where
  queue : κ → List UInt8
  returned : List (List UInt8)

namespace Queues

def set (q : Queues κ) (k : κ) (bytes : List UInt8) : Queues κ :=
  { q with queue := Function.update q.queue k bytes }

def give (q : Queues κ) (bytes : List UInt8) : Queues κ :=
  { q with returned := q.returned ++ [bytes] }

/-- What the operations mean for byte queues; the two capacity operations mean
nothing. -/
def apply (q : Queues κ) : BufferOp κ → Queues κ
  | .append k data => q.set k (q.queue k ++ data)
  | .retrieve k len => q.set k ((q.queue k).drop len)
  | .retrieveAsString k len => (q.set k ((q.queue k).drop len)).give ((q.queue k).take len)
  | .retrieveAll k => q.set k []
  | .retrieveAllAsString k => (q.set k []).give (q.queue k)
  | .ensureWritableBytes _ _ | .shrink _ _ => q
  | .swap k l => (q.set k (q.queue l)).set l (q.queue k)

end Queues

/-! ## Lockstep runs -/

structure Lockstep (κ : Type) where
  pool : Except Fault (Pool κ)
  queues : Queues κ

namespace Lockstep

def start (buffers : κ → Buffer) : Lockstep κ := ⟨.ok ⟨buffers, []⟩, ⟨fun _ => [], []⟩⟩

def Callable (p : Pool κ) : BufferOp κ → Prop
  | .retrieve k len | .retrieveAsString k len => len ≤ (p.buffers k).readableBytes
  | _ => True

instance (p : Pool κ) (op : BufferOp κ) : Decidable (Callable p op) := by
  cases op <;> unfold Callable <;> infer_instance

/-- A fault ends the run: nothing is known of the buffers after it. -/
def step (s : Lockstep κ) (op : BufferOp κ) : Option (Lockstep κ) :=
  match s.pool with
  | .error _ => none
  | .ok p => if Callable p op then some ⟨p.apply op, s.queues.apply op⟩ else none

def machine (κ : Type) [DecidableEq κ] : Machine (Lockstep κ) (BufferOp κ) := ⟨step⟩

/-- No fault so far, indices in order, and every buffer holds and has returned
exactly what its queue holds and has returned. -/
def Refines (s : Lockstep κ) : Prop :=
  ∃ p, s.pool = .ok p ∧ p.returned = s.queues.returned ∧
    ∀ k, kCheapPrepend ≤ (p.buffers k).readerIndex ∧
      (p.buffers k).readerIndex ≤ (p.buffers k).writerIndex ∧
      (p.buffers k).writerIndex ≤ (p.buffers k).size ∧
      (p.buffers k).content = s.queues.queue k

/-- The sizes of the step stay within the vector's `max_size()`: no sum wraps, and no
`resize` throws. -/
def Small (s : Lockstep κ) (op : BufferOp κ) : Prop :=
  ∀ p, s.pool = .ok p → match op with
    | .append k data => (p.buffers k).writerIndex + data.length ≤ maxSize
    | .ensureWritableBytes k len => (p.buffers k).writerIndex + len ≤ maxSize
    | .shrink k reserve => (p.buffers k).readableBytes + reserve + kCheapPrepend ≤ maxSize
    | _ => True

def AppendFits (s : Lockstep κ) (op : BufferOp κ) : Prop :=
  ∀ p, s.pool = .ok p → match op with
    | .append k data => (p.buffers k).Fits data.length
    | _ => True

/-! ## One operation -/

structure Agree (p : Pool κ) (q : Queues κ) : Prop where
  wf : ∀ k, (p.buffers k).Wf
  content : ∀ k, (p.buffers k).content = q.queue k
  returned : p.returned = q.returned

theorem Agree.set {p : Pool κ} {q : Queues κ} (h : Agree p q) (k : κ) {b : Buffer}
    {bytes : List UInt8} (hwf : b.Wf) (hcontent : b.content = bytes) :
    Agree (p.set k b) (q.set k bytes) := by
  constructor
  · intro j
    by_cases hj : j = k
    · subst hj; simpa [Pool.set] using hwf
    · simpa [Pool.set, hj] using h.wf j
  · intro j
    by_cases hj : j = k
    · subst hj; simpa [Pool.set, Queues.set] using hcontent
    · simpa [Pool.set, Queues.set, hj] using h.content j
  · exact h.returned

omit [DecidableEq κ] in
theorem Agree.give {p : Pool κ} {q : Queues κ} (h : Agree p q) (bytes : List UInt8) :
    Agree (p.give bytes) (q.give bytes) :=
  ⟨h.wf, h.content, by simp [Pool.give, Queues.give, h.returned]⟩

theorem Agree.refill {p : Pool κ} {q : Queues κ} (h : Agree p q) (k : κ) {b : Buffer}
    (hwf : b.Wf) (hcontent : b.content = (p.buffers k).content) : Agree (p.set k b) q := by
  have hset := h.set k hwf (hcontent.trans (h.content k))
  rwa [show q.set k (q.queue k) = q by simp [Queues.set]] at hset

theorem Agree.apply {p : Pool κ} {q : Queues κ} (h : Agree p q) {op : BufferOp κ}
    (hcall : Callable p op) (hsmall : Small ⟨.ok p, q⟩ op) (hfits : AppendFits ⟨.ok p, q⟩ op) :
    ∃ p', p.apply op = .ok p' ∧ Agree p' (q.apply op) := by
  have hsmall := hsmall p rfl
  have hfits := hfits p rfl
  cases op with
  | append k data =>
      obtain ⟨b, hb, hwf, hcontent⟩ := append_spec data (h.wf k) hfits
      refine ⟨p.set k b, by simp [Pool.apply, hb, bind, Except.bind, pure, Except.pure], ?_⟩
      exact h.set k hwf (by rw [hcontent, h.content k])
  | retrieve k len =>
      obtain ⟨b, hb, hwf, hcontent⟩ := retrieve_spec (h.wf k) hcall
      refine ⟨p.set k b, by simp [Pool.apply, hb, bind, Except.bind, pure, Except.pure], ?_⟩
      exact h.set k hwf (by rw [hcontent, h.content k])
  | retrieveAsString k len =>
      obtain ⟨b, hb, hwf, hcontent⟩ := retrieveAsString_spec (h.wf k) hcall
      refine ⟨(p.set k b).give ((p.buffers k).content.take len),
        by simp [Pool.apply, hb, bind, Except.bind, pure, Except.pure], ?_⟩
      rw [h.content k] at hcontent ⊢
      exact (h.set k hwf hcontent).give _
  | retrieveAll k =>
      obtain ⟨hwf, hcontent⟩ := retrieveAll_spec (h.wf k)
      exact ⟨_, rfl, h.set k hwf hcontent⟩
  | retrieveAllAsString k =>
      obtain ⟨hwf, hcontent⟩ := retrieveAll_spec (h.wf k)
      refine ⟨(p.set k (p.buffers k).retrieveAll).give (p.buffers k).content,
        by simp [Pool.apply, retrieveAllAsString_spec (h.wf k), bind, Except.bind, pure,
          Except.pure], ?_⟩
      rw [h.content k]
      exact (h.set k hwf hcontent).give _
  | ensureWritableBytes k len =>
      obtain ⟨b, hb, hwf, hcontent, _⟩ := ensureWritableBytes_spec len (h.wf k) hsmall
      refine ⟨p.set k b, by simp [Pool.apply, hb, bind, Except.bind, pure, Except.pure], ?_⟩
      exact h.refill k hwf hcontent
  | shrink k reserve =>
      obtain ⟨b, hb, hwf, hcontent, -⟩ := shrink_spec (h.wf k) hsmall
      refine ⟨p.set k b, by simp [Pool.apply, hb, bind, Except.bind, pure, Except.pure], ?_⟩
      exact h.refill k hwf hcontent
  | swap k l =>
      exact ⟨_, rfl, (h.set k (h.wf l) (h.content l)).set l (h.wf k) (h.content k)⟩

/-! ## Whole runs -/

def Inv (s : Lockstep κ) : Prop := ∃ p, s.pool = .ok p ∧ Agree p s.queues

omit [DecidableEq κ] in
theorem Inv.refines {s : Lockstep κ} (h : Inv s) : Refines s := by
  obtain ⟨p, hp, hagree⟩ := h
  refine ⟨p, hp, hagree.returned, fun k => ?_⟩
  exact ⟨(hagree.wf k).cheapPrepend, (hagree.wf k).reader_le, (hagree.wf k).writer_le,
    hagree.content k⟩

theorem step_ok {s t : Lockstep κ} {p : Pool κ} {op : BufferOp κ} (hp : s.pool = .ok p)
    (h : s.step op = some t) : Callable p op ∧ t = ⟨p.apply op, s.queues.apply op⟩ := by
  simp only [step, hp] at h
  split at h
  · rename_i hcall
    exact ⟨hcall, (Option.some.inj h).symm⟩
  · cases h

theorem step_keeps {s t : Lockstep κ} {op : BufferOp κ} (h : Inv s) (hsmall : Small s op)
    (hfits : AppendFits s op) (hstep : s.step op = some t) : Inv t := by
  obtain ⟨p, hp, hagree⟩ := h
  obtain ⟨hcall, rfl⟩ := step_ok hp hstep
  obtain ⟨pool, queues⟩ := s
  subst hp
  exact hagree.apply hcall hsmall hfits

theorem fits_of_refines {s t : Lockstep κ} {op : BufferOp κ} (h : Inv s) (hsmall : Small s op)
    (hstep : s.step op = some t) (hrefines : Refines t) : AppendFits s op := by
  obtain ⟨p, hp, hagree⟩ := h
  obtain ⟨_, rfl⟩ := step_ok hp hstep
  intro p' hp'
  cases hp.symm.trans hp'
  cases op with
  | append k data =>
      apply Decidable.byContradiction
      intro hfits
      obtain ⟨f, herr⟩ := append_faults data (hagree.wf k)
        (Nat.le_trans (Nat.le_add_left _ _) (hsmall p hp)) hfits
      obtain ⟨p', hp', _⟩ := hrefines
      simp [Pool.apply, herr, bind, Except.bind] at hp'
  | _ => trivial

omit [DecidableEq κ] in
theorem start_inv {sizes : κ → Nat} {buffers : κ → Buffer}
    (hsum : ∀ k, kCheapPrepend + sizes k < 2 ^ 64)
    (hnew : ∀ k, Buffer.new (sizes k) = .ok (buffers k)) : Inv (start buffers) := by
  have hspec : ∀ k, (buffers k).Wf ∧ (buffers k).content = [] := by
    intro k
    by_cases hmax : kCheapPrepend + sizes k ≤ maxSize
    · obtain ⟨b, hb, hwf, hcontent, _⟩ := new_spec (sizes k) hmax
      cases hb.symm.trans (hnew k)
      exact ⟨hwf, hcontent⟩
    · have herr := hnew k
      rw [Buffer.new, sizeT_of_lt (hsum k), resize_error (Nat.lt_of_not_le hmax)] at herr
      cases herr
  exact ⟨_, rfl, fun k => (hspec k).1, fun k => (hspec k).2, rfl⟩

end Lockstep

open Lockstep

/-- In every run over freshly constructed buffers the buffers refine their queues
exactly as long as every append fits. -/
theorem buffers_refine_queues_iff_appends_fit (sizes : κ → Nat) (buffers : κ → Buffer)
    (hsum : ∀ k, kCheapPrepend + sizes k < 2 ^ 64)
    (hnew : ∀ k, Buffer.new (sizes k) = .ok (buffers k)) (ops : List (BufferOp κ))
    (hsmall : (machine κ).Meets Small (start buffers) ops) :
    (machine κ).Always Refines (start buffers) ops ↔
      (machine κ).Meets AppendFits (start buffers) ops :=
  Machine.always_iff_meets_within (fun _ => Inv.refines)
    (fun _ _ _ hinv hs hf hstep => step_keeps hinv hs hf hstep)
    (fun _ _ _ hinv hs hstep hr => fits_of_refines hinv hs hstep hr) (start_inv hsum hnew) hsmall

/-- A buffer of 16 bytes takes an append of three and gives two of them back. -/
theorem buffer_of_sixteen_refines_queue :
    (machine Unit).Always Refines (start fun _ => ⟨List.replicate 24 0, 8, 8⟩)
      [.append () [1, 2, 3], .retrieveAsString () 2] := by
  apply (buffers_refine_queues_iff_appends_fit (fun _ => 16) _ (fun _ => by decide) (fun _ => rfl) _
    _).2
  · intro t _
    refine ⟨?_, fun u _ => ⟨fun p _ => trivial, trivial⟩⟩
    intro p hp
    cases hp
    decide
  · intro t _
    refine ⟨?_, fun u _ => ⟨fun p _ => trivial, trivial⟩⟩
    intro p hp
    cases hp
    decide

/-- `Buffer(0)` grows by one byte for the first append. Then `writableBytes()`
counts that unread byte as room, and the second append is copied behind the vector. -/
theorem second_append_overflows :
    Buffer.new 0 = .ok ⟨List.replicate 8 0, 8, 8⟩ ∧
      (machine Unit).Meets Small (start fun _ => ⟨List.replicate 8 0, 8, 8⟩)
        [.append () [1], .append () [2]] ∧
      ¬ (machine Unit).Always Refines (start fun _ => ⟨List.replicate 8 0, 8, 8⟩)
        [.append () [1], .append () [2]] := by
  refine ⟨rfl, ?_, ?_⟩
  · intro t ht
    constructor
    · intro p hp
      cases hp
      decide
    · intro u _
      refine ⟨?_, trivial⟩
      cases ht
      intro p hp
      cases hp
      decide
  · intro hfirst
    rcases hfirst with ⟨_, hfirst⟩
    obtain ⟨p, hp, _⟩ := ((hfirst _ rfl).2 _ rfl : Refines _)
    cases hp

end Hayai
