import Hayai.Net.ServerControl
import Mathlib.Data.List.Count

/-! # Round robin over the loops of a pool

Each call of `getNextLoop` takes the loop whose turn it is. `next_` wraps at 64 bits, so
the turns are even among the first 2^64 calls; the index is in range before and after.
-/

namespace Hayai

/-! ## Counting turns -/

/-- With `n - v` added, the turns of `v` are the multiples of `n`. -/
private theorem dvd_iff_turn {n v : Nat} (hv : v < n) (x : Nat) :
    n ∣ x + (n - 1 - v) + 1 ↔ x % n = v := by
  have hmod := Nat.div_add_mod x n
  have hlt : x % n < n := Nat.mod_lt x (by omega)
  have hsplit : x + (n - 1 - v) + 1 = n * (x / n) + (x % n + n - v) := by omega
  rw [hsplit, Nat.dvd_add_right (Nat.dvd_mul_right n _)]
  constructor
  · rintro ⟨q, hq⟩
    match q with
    | 0 => omega
    | 1 => omega
    | q + 2 =>
        have hle := Nat.mul_le_mul_left n (Nat.le_add_left 2 q)
        omega
  · intro hturn
    exact ⟨1, by omega⟩

private theorem count_turns_add {n v : Nat} (hv : v < n) (a m : Nat) :
    ((List.range' a m).map (· % n)).count v + (a + (n - 1 - v)) / n =
      (a + m + (n - 1 - v)) / n := by
  induction m with
  | zero => simp
  | succ m ih =>
      have hnext : (a + (m + 1) + (n - 1 - v)) / n =
          (a + m + (n - 1 - v)) / n + if (a + m) % n = v then 1 else 0 := by
        rw [show a + (m + 1) + (n - 1 - v) = a + m + (n - 1 - v) + 1 by omega, Nat.succ_div]
        simp only [dvd_iff_turn hv]
      have hcount : ((List.range' a (m + 1)).map (· % n)).count v =
          ((List.range' a m).map (· % n)).count v + if (a + m) % n = v then 1 else 0 := by
        simp [List.range'_concat, List.count_append, List.count_singleton]
      rw [hcount, hnext]
      omega

/-- In `m` consecutive turns it is everybody's turn `m / n` times, or once more. -/
theorem count_turns {n v : Nat} (hv : v < n) (a m : Nat) :
    m / n ≤ ((List.range' a m).map (· % n)).count v ∧
      ((List.range' a m).map (· % n)).count v ≤ m / n + 1 := by
  have hcount := count_turns_add hv a m
  have hdiv : (a + m + (n - 1 - v)) / n = (a + (n - 1 - v)) / n + m / n +
      if n ≤ (a + (n - 1 - v)) % n + m % n then 1 else 0 := by
    rw [show a + m + (n - 1 - v) = a + (n - 1 - v) + m by omega, Nat.add_div (by omega)]
  split at hdiv <;> omega

/-- Two consecutive turns are not of the same one. -/
theorem turn_ne_next {n : Nat} (hn : 2 ≤ n) (k : Nat) : k % n ≠ (k + 1) % n := by
  have hlt := Nat.mod_lt k (show 0 < n by omega)
  rw [Nat.add_mod, Nat.mod_eq_of_lt (show 1 < n by omega)]
  by_cases hlast : k % n + 1 < n
  · rw [Nat.mod_eq_of_lt hlast]
    omega
  · rw [show k % n + 1 = n by omega, Nat.mod_self]
    omega

/-! ## Calls of a started pool -/

namespace EventLoopThreadPool

def calls (p : EventLoopThreadPool) : Nat → Except ControlFault (List LoopId × EventLoopThreadPool)
  | 0 => .ok ([], p)
  | k + 1 => do
      let (ls, q) ← p.calls k
      let (l, q) ← q.getNextLoop
      pure (ls ++ [l], q)

def turn (generation n k : Nat) : LoopId :=
  if n = 0 then .base else .pool generation (k % 2 ^ 64 % n)

/-- What `start()` leaves and `k` calls later is still so, but for `next_`. -/
structure Dealing (generation n k : Nat) (p : EventLoopThreadPool) : Prop where
  started : p.started = true
  loops : p.loops = (List.range n).map (.pool generation)
  next : n ≠ 0 → p.next = k % 2 ^ 64

theorem start_dealing {generation n : Nat} {p : EventLoopThreadPool}
    (hp : (new generation n).start true = .ok p) : p.Dealing generation n 0 := by
  cases hp
  exact ⟨rfl, rfl, fun _ => rfl⟩

theorem Dealing.getNextLoop {generation n k : Nat} {p : EventLoopThreadPool}
    (h : p.Dealing generation n k) :
    ∃ q, p.getNextLoop = .ok (turn generation n k, q) ∧ q.Dealing generation n (k + 1) := by
  have hlength : p.loops.length = n := by simp [h.loops]
  unfold EventLoopThreadPool.getNextLoop turn
  rw [if_pos h.started]
  by_cases hzero : n = 0
  · rw [dif_pos (hlength.trans hzero), if_pos hzero]
    exact ⟨p, rfl, h.started, h.loops, fun hn => (hn hzero).elim⟩
  · rw [dif_neg (by rw [hlength]; exact hzero), if_neg hzero]
    refine ⟨{ p with next := (p.next + 1) % 2 ^ 64 }, ?_, h.started, h.loops, ?_⟩
    · have hget : ∀ i : Fin p.loops.length, p.loops.get i = .pool generation i := by
        simp [h.loops]
      dsimp only
      rw [hget]
      simp only [hlength, h.next hzero]
    · intro _
      show (p.next + 1) % 2 ^ 64 = (k + 1) % 2 ^ 64
      rw [h.next hzero, Nat.mod_add_mod]

/-- No call of a started pool fails, and each takes the loop whose turn it is. -/
theorem calls_spec {generation n : Nat} {p : EventLoopThreadPool}
    (h : p.Dealing generation n 0) (k : Nat) :
    ∃ q, p.calls k = .ok ((List.range k).map (turn generation n), q) ∧
      q.Dealing generation n k := by
  induction k with
  | zero => exact ⟨p, rfl, h⟩
  | succ k ih =>
      rcases ih with ⟨q, hq, hdealing⟩
      rcases hdealing.getNextLoop with ⟨r, hr, hnext⟩
      refine ⟨r, ?_, hnext⟩
      rw [calls, hq, List.range_succ, List.map_append]
      dsimp only [bind, Except.bind]
      rw [hr]
      rfl

/-! ## Fairness -/

/-- What the results of a number of calls are like. The last three are about the first
2^64 calls. -/
structure Fair (p : EventLoopThreadPool) (ls : List LoopId) : Prop where
  base : p.loops = [] → ∀ l ∈ ls, l = .base
  inRange : p.loops ≠ [] → ∀ l ∈ ls, l ∈ p.loops
  turn : p.loops ≠ [] → ∀ k < ls.length, k < 2 ^ 64 →
    k % p.loops.length < p.loops.length ∧ ls[k]? = p.loops[k % p.loops.length]?
  even : ∀ a m, a + m ≤ ls.length → a + m ≤ 2 ^ 64 → ∀ v ∈ p.loops, ∀ w ∈ p.loops,
    ((ls.drop a).take m).count v ≤ ((ls.drop a).take m).count w + 1
  apart : 2 ≤ p.loops.length → ∀ k, k + 1 < ls.length → k + 1 < 2 ^ 64 → ls[k]? ≠ ls[k + 1]?

theorem turn_of_lt {generation n k : Nat} (hn : n ≠ 0) (hk : k < 2 ^ 64) :
    turn generation n k = .pool generation (k % n) := by
  rw [turn, if_neg hn, Nat.mod_eq_of_lt hk]

private theorem window_eq {generation n k a m : Nat} (hn : n ≠ 0) (hk : a + m ≤ k)
    (hlt : a + m ≤ 2 ^ 64) :
    (((List.range k).map (turn generation n)).drop a).take m =
      ((List.range' a m).map (· % n)).map (.pool generation) := by
  have hrange : ((List.range k).drop a).take m = List.range' a m := by
    rw [List.range_eq_range', List.drop_range', List.take_range'_of_length_ge (by omega)]
    simp
  rw [← List.map_drop, ← List.map_take, hrange, List.map_map]
  refine List.map_congr_left fun i hi => ?_
  rw [List.mem_range'_1] at hi
  exact turn_of_lt hn (by omega)

theorem Dealing.fair {generation n : Nat} {p : EventLoopThreadPool}
    (h : p.Dealing generation n 0) (k : Nat) :
    p.Fair ((List.range k).map (turn generation n)) := by
  have hlength : p.loops.length = n := by simp [h.loops]
  have hempty : p.loops = [] ↔ n = 0 := by rw [← hlength, List.length_eq_zero_iff]
  have hget : ∀ i < n, p.loops[i]? = some (.pool generation i) := by
    intro i hi
    simp [h.loops, hi]
  constructor
  case base =>
    intro hnone l hl
    rcases List.mem_map.1 hl with ⟨i, -, rfl⟩
    rw [turn, if_pos (hempty.1 hnone)]
  case inRange =>
    intro hsome l hl
    have hn : n ≠ 0 := fun hzero => hsome (hempty.2 hzero)
    rcases List.mem_map.1 hl with ⟨i, -, rfl⟩
    have hlt : i % 2 ^ 64 % n < n := Nat.mod_lt _ (Nat.pos_of_ne_zero hn)
    rw [turn, if_neg hn]
    exact List.mem_of_getElem? (hget _ hlt)
  case turn =>
    intro hsome i hi hlt
    have hn : n ≠ 0 := fun hzero => hsome (hempty.2 hzero)
    have hmod : i % n < n := Nat.mod_lt i (Nat.pos_of_ne_zero hn)
    rw [List.length_map, List.length_range] at hi
    rw [hlength, hget _ hmod, List.getElem?_map, List.getElem?_range hi, Option.map_some,
      turn_of_lt hn hlt]
    exact ⟨hmod, rfl⟩
  case even =>
    intro a m hk hlt v hv w hw
    rw [List.length_map, List.length_range] at hk
    rw [h.loops] at hv hw
    rcases List.mem_map.1 hv with ⟨i, hi, rfl⟩
    rcases List.mem_map.1 hw with ⟨j, hj, rfl⟩
    rw [List.mem_range] at hi hj
    have hinj : Function.Injective (LoopId.pool generation) := by
      intro x y hxy
      cases hxy
      rfl
    rw [window_eq (by omega) hk hlt, List.count_map_of_injective _ _ hinj,
      List.count_map_of_injective _ _ hinj]
    have hmost := (count_turns hi a m).2
    have hleast := (count_turns hj a m).1
    omega
  case apart =>
    intro htwo i hi hlt
    rw [hlength] at htwo
    rw [List.length_map, List.length_range] at hi
    rw [List.getElem?_map, List.getElem?_map, List.getElem?_range (by omega),
      List.getElem?_range hi, Option.map_some, Option.map_some, turn_of_lt (by omega) (by omega),
      turn_of_lt (by omega) hlt]
    intro heq
    rw [Option.some_inj, LoopId.pool.injEq] at heq
    exact turn_ne_next htwo i heq.2

/-- A started pool deals out its loops in turn, whatever its size and however often it is
called. -/
theorem getNextLoop_round_robin (generation n : Nat) :
    ∃ p, (new generation n).start true = .ok p ∧ p.loops.length = n ∧
      ∀ k, ∃ ls q, p.calls k = .ok (ls, q) ∧ ls.length = k ∧ p.Fair ls := by
  rcases hp : (new generation n).start true with f | p
  · cases hp
  · have hdealing := start_dealing hp
    refine ⟨p, rfl, by simp [hdealing.loops], fun k => ?_⟩
    rcases calls_spec hdealing k with ⟨q, hq, -⟩
    exact ⟨_, q, hq, by simp, hdealing.fair k⟩

end EventLoopThreadPool

end Hayai
