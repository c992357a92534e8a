import Hayai.Utils.BufferQueue

/-! # Lines in a buffer

`findCRLF()` searches the readable bytes for the end of a line. What lies in the vector
before and behind them, bytes of earlier lines among it, is never found.
-/

/-! ## Searching -/

namespace Storage

universe u

variable {α : Type u} [BEq α] [LawfulBEq α]

/-- `std::search`: the first position that the pattern begins at, or the end. -/
def search (pattern : List α) : List α → Nat
  | [] => 0
  | x :: cells => if pattern.isPrefixOf (x :: cells) then 0 else search pattern cells + 1

theorem search_found {pattern cells : List α} (h : search pattern cells ≠ cells.length) :
    ∃ after, cells = cells.take (search pattern cells) ++ pattern ++ after := by
  induction cells with
  | nil => exact (h rfl).elim
  | cons x cells ih =>
      rw [search] at h ⊢
      split at h
      · rename_i hbegins
        rw [if_pos hbegins]
        rcases List.isPrefixOf_iff_prefix.1 hbegins with ⟨after, hafter⟩
        exact ⟨after, by simp [hafter]⟩
      · rename_i hbegins
        rw [if_neg hbegins]
        rcases ih (fun hend => h (congrArg Nat.succ hend)) with ⟨after, hafter⟩
        refine ⟨after, ?_⟩
        rw [List.take_succ_cons, List.cons_append, List.cons_append, ← hafter]

/-- The pattern is nowhere before the position found, wherever it ends. -/
theorem search_first {pattern cells : List α} (hpattern : pattern ≠ []) {n : Nat}
    (hn : n < search pattern cells + pattern.length) : ¬pattern <:+: cells.take n := by
  induction cells generalizing n with
  | nil =>
      intro h
      rw [List.take_nil] at h
      exact hpattern (List.eq_nil_of_infix_nil h)
  | cons x cells ih =>
      intro h
      cases n with
      | zero => exact hpattern (List.eq_nil_of_infix_nil h)
      | succ n =>
          rw [List.take_succ_cons, List.infix_cons_iff] at h
          rw [search] at hn
          rcases h with hbegins | hlater
          · have hlong := hbegins.length_le
            have hwhole : pattern <+: x :: cells :=
              hbegins.trans (by simpa using List.take_prefix (n + 1) (x :: cells))
            rw [if_pos (List.isPrefixOf_iff_prefix.2 hwhole)] at hn
            have htake := List.length_take_le n cells
            simp only [List.length_cons] at hlong
            omega
          · split at hn
            · have hlong := hlater.length_le
              have htake := List.length_take_le n cells
              omega
            · exact ih (by omega) hlater

theorem search_eq_length {pattern cells : List α} (hpattern : pattern ≠ [])
    (h : search pattern cells = cells.length) : ¬pattern <:+: cells := by
  have hpos := List.length_pos_iff.2 hpattern
  have hlt : cells.length < search pattern cells + pattern.length := by omega
  have hnone := search_first hpattern hlt
  rwa [List.take_length] at hnone

end Storage

namespace Hayai

open Storage

namespace Buffer

def kCRLF : List UInt8 := [13, 10]

/-- The position found, counted from `peek()`; `nullptr` is `none`. -/
def findCRLF (b : Buffer) : Except Fault (Option Nat) := do
  let readable ← copyFrom b.buffer b.readerIndex b.readableBytes
  let crlf := search kCRLF readable
  pure (if crlf = readable.length then none else some crlf)

def EndsLine (bytes : List UInt8) : Option Nat → Prop
  | none => ¬kCRLF <:+: bytes
  | some n => (∃ after, bytes = bytes.take n ++ kCRLF ++ after) ∧ ¬kCRLF <:+: bytes.take (n + 1)

theorem findCRLF_spec {b : Buffer} (h : b.Wf) :
    ∃ crlf, b.findCRLF = .ok crlf ∧ EndsLine b.content crlf := by
  have hfind : b.findCRLF = .ok (if search kCRLF b.content = b.content.length then none
      else some (search kCRLF b.content)) := by
    rw [findCRLF, h.content_eq_copy]
    rfl
  refine ⟨_, hfind, ?_⟩
  split
  · rename_i hend
    exact search_eq_length (by simp [kCRLF]) hend
  · rename_i hfound
    exact ⟨search_found hfound, search_first (by simp [kCRLF]) (by simp [kCRLF])⟩

/-- A line end stays where it is when more bytes arrive. -/
theorem EndsLine.append {bytes : List UInt8} {n : Nat} (h : EndsLine bytes (some n))
    (data : List UInt8) : EndsLine (bytes ++ data) (some n) := by
  rcases h with ⟨⟨after, hafter⟩, hfirst⟩
  have hlength := congrArg List.length hafter
  simp only [kCRLF, List.length_append, List.length_cons, List.length_nil] at hlength
  have hle := List.length_take_le n bytes
  have hn : n + 1 < bytes.length := by
    by_contra hge
    have htake : bytes.length ≤ (bytes.take n).length + 1 := by
      rw [List.length_take]
      omega
    omega
  refine ⟨⟨after ++ data, ?_⟩, ?_⟩
  · rw [List.take_append_of_le_length (by omega), ← List.append_assoc, ← hafter]
  · rw [List.take_append_of_le_length (by omega)]
    exact hfirst

theorem EndsLine.unique {bytes : List UInt8} {a b : Option Nat} (ha : EndsLine bytes a)
    (hb : EndsLine bytes b) : a = b := by
  have hoccurs : ∀ n, EndsLine bytes (some n) → kCRLF <:+: bytes := by
    rintro n ⟨⟨after, hafter⟩, -⟩
    exact ⟨bytes.take n, after, hafter.symm⟩
  have hle : ∀ m n, EndsLine bytes (some m) → EndsLine bytes (some n) → n ≤ m := by
    rintro m n ⟨⟨after, hafter⟩, -⟩ ⟨-, hfirst⟩
    by_contra hlt
    -- The line end at `m` would lie before `n`.
    apply hfirst
    have hlength := congrArg List.length hafter
    have hm := List.length_take_le m bytes
    simp only [kCRLF, List.length_append, List.length_cons, List.length_nil] at hlength
    have hmin : (bytes.take m).length = m := by
      rw [List.length_take] at hlength ⊢
      omega
    have hbegins : bytes.take m ++ kCRLF <+: bytes.take (n + 1) := by
      have hwhole : bytes.take m ++ kCRLF <+: bytes := ⟨after, hafter.symm⟩
      apply List.prefix_of_prefix_length_le hwhole (List.take_prefix (n + 1) bytes)
      rw [List.length_append, hmin, List.length_take, kCRLF, List.length_cons, List.length_cons,
        List.length_nil]
      omega
    exact List.IsInfix.trans ⟨bytes.take m, [], by simp⟩ hbegins.isInfix
  cases a with
  | none =>
      cases b with
      | none => rfl
      | some n => exact (ha (hoccurs n hb)).elim
  | some m =>
      cases b with
      | none => exact (hb (hoccurs m ha)).elim
      | some n => exact congrArg some (Nat.le_antisymm (hle n m hb ha) (hle m n ha hb))

end Buffer

/-! ## Runs -/

variable {κ : Type} [DecidableEq κ]

def BufferOp.Takes (k : κ) : BufferOp κ → Prop
  | .retrieve j _ | .retrieveAsString j _ | .retrieveAll j | .retrieveAllAsString j => j = k
  | .swap j l => j = k ∨ l = k
  | _ => False

namespace Lockstep

open Buffer

def FindsLines (s : Lockstep κ) : Prop :=
  ∃ p, s.pool = .ok p ∧ ∀ k, ∃ crlf, (p.buffers k).findCRLF = .ok crlf ∧
    EndsLine (s.queues.queue k) crlf

/-- A line end that was found stays where it is until bytes are taken. -/
def KeepsLines (s : Lockstep κ) (op : BufferOp κ) (t : Lockstep κ) : Prop :=
  ∀ p u k n, s.pool = .ok p → t.pool = .ok u → ¬op.Takes k →
    (p.buffers k).findCRLF = .ok (some n) → (u.buffers k).findCRLF = .ok (some n)

omit [DecidableEq κ] in
theorem Inv.findsLines {s : Lockstep κ} (h : Inv s) : FindsLines s := by
  rcases h with ⟨p, hp, hagree⟩
  refine ⟨p, hp, fun k => ?_⟩
  rw [← hagree.content k]
  exact findCRLF_spec (hagree.wf k)

theorem queue_apply {q : Queues κ} {op : BufferOp κ} {k : κ} (h : ¬op.Takes k) :
    ∃ data, (q.apply op).queue k = q.queue k ++ data := by
  have hset : ∀ j bytes, ¬j = k → (q.set j bytes).queue k = q.queue k ++ [] := by
    intro j bytes hj
    rw [List.append_nil]
    exact Function.update_of_ne (Ne.symm hj) ..
  cases op with
  | append j data =>
      by_cases hj : j = k
      · subst hj
        exact ⟨data, Function.update_self ..⟩
      · exact ⟨[], hset j _ hj⟩
  | retrieve j len | retrieveAsString j len | retrieveAll j | retrieveAllAsString j =>
      exact ⟨[], hset j _ h⟩
  | ensureWritableBytes j len | shrink j reserve => exact ⟨[], (List.append_nil _).symm⟩
  | swap j l =>
      refine ⟨[], ?_⟩
      rw [List.append_nil]
      simp only [BufferOp.Takes, not_or] at h
      simp [Queues.apply, Queues.set, Ne.symm h.1, Ne.symm h.2]

theorem keepsLines {s t : Lockstep κ} {op : BufferOp κ} (hs : Inv s) (ht : Inv t)
    (hqueues : t.queues = s.queues.apply op) : KeepsLines s op t := by
  intro p u k n hp hu htakes hfound
  rcases hs.findsLines with ⟨p', hp', hbefore⟩
  rcases ht.findsLines with ⟨u', hu', hafter⟩
  cases hp.symm.trans hp'
  cases hu.symm.trans hu'
  rcases hbefore k with ⟨crlf, hcrlf, hends⟩
  cases hfound.symm.trans hcrlf
  rcases queue_apply (q := s.queues) htakes with ⟨data, hdata⟩
  rcases hafter k with ⟨crlf, hcrlf, hends'⟩
  rw [hqueues, hdata] at hends'
  rw [hcrlf, hends'.unique (hends.append data)]

end Lockstep

open Lockstep

/-- In a run whose appends fit, line ends are found and stay found until they are taken. -/
theorem lines_found (sizes : κ → Nat) (buffers : κ → Buffer)
    (hsum : ∀ k, Buffer.kCheapPrepend + sizes k < 2 ^ 64)
    (hnew : ∀ k, Buffer.new (sizes k) = .ok (buffers k)) (ops : List (BufferOp κ))
    (hmeets : (machine κ).Meets (fun s op => Small s op ∧ AppendFits s op) (start buffers) ops) :
    (machine κ).Always FindsLines (start buffers) ops ∧
      (machine κ).AlwaysStep KeepsLines (start buffers) ops := by
  have hkeep : ∀ (s : Lockstep κ) (op : BufferOp κ) (t : Lockstep κ), Inv s →
      Small s op ∧ AppendFits s op → s.step op = some t → Inv t :=
    fun s op t hs hc hstep => step_keeps hs hc.1 hc.2 hstep
  constructor
  · apply Machine.Always.mono (P := Inv)
    · exact fun s hs => hs.findsLines
    · exact Machine.always_of_meets hkeep (start_inv hsum hnew) hmeets
  · apply Machine.alwaysStep_of_invariant (I := Inv) _ (start_inv hsum hnew) hmeets
    intro s op t hs hc hstep
    have ht := hkeep s op t hs hc hstep
    refine ⟨ht, keepsLines hs ht ?_⟩
    rcases hs with ⟨p, hp, -⟩
    rw [(step_ok hp hstep).2]

/-- A line comes in two parts. -/
theorem line_in_two_parts :
    (machine Unit).Always FindsLines (start fun _ => ⟨List.replicate 24 0, 8, 8⟩)
      [.append () [97, 13], .append () [10, 98]] := by
  apply (lines_found (fun _ => 16) _ (fun _ => by decide) (fun _ => rfl) _ _).1
  refine fun t ht => ⟨⟨?_, ?_⟩, fun u hu => ⟨⟨?_, ?_⟩, trivial⟩⟩
  · intro p hp
    cases hp
    decide
  · intro p hp
    cases hp
    decide
  · cases ht
    intro p hp
    cases hp
    decide
  · cases ht
    intro p hp
    cases hp
    decide

end Hayai
