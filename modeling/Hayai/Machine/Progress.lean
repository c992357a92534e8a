import Hayai.Machine.Execution

/-! # Progress along endless executions

Rules for what comes sooner or later: a party that gets its turn again and again, whose
turns lower a rank that nobody else's do, reaches its goal. The executions themselves are
built from a finite run and a cycle that can always be gone through again.
-/

universe u v

namespace Machine

variable {σ : Type u} {ι : Type v} {M : Machine σ ι}

namespace Execution

variable {e : M.Execution} {own : ι → Prop} {I : σ → Prop}

/-- An input of `own` is taken again and again. -/
def Recurs (e : M.Execution) (own : ι → Prop) : Prop := ∀ n, ∃ m, n ≤ m ∧ own (e.input m)

/-- As long as `I` holds, an input of `own` is still to come. -/
def Turns (e : M.Execution) (own : ι → Prop) (I : σ → Prop) : Prop :=
  ∀ n, ∃ m, n ≤ m ∧ (own (e.input m) ∨ ¬I (e.state m))

def LeadsTo (e : M.Execution) (P Q : σ → Prop) : Prop :=
  ∀ n, P (e.state n) → ∃ m, n ≤ m ∧ Q (e.state m)

theorem Recurs.turns (h : e.Recurs own) (I : σ → Prop) : e.Turns own I := by
  intro n
  obtain ⟨m, hm, hown⟩ := h n
  exact ⟨m, hm, .inl hown⟩

/-- A party that is treated fairly and can move as long as `I` holds gets its turn. -/
theorem Fair.turns (h : e.Fair own) (able : ∀ s, I s → ∃ i t, own i ∧ M.step s i = some t) :
    e.Turns own I := by
  intro n
  obtain ⟨m, hm, hown | hnone⟩ := h n
  · exact ⟨m, hm, .inl hown⟩
  · refine ⟨m, hm, .inr fun hI => ?_⟩
    obtain ⟨i, t, hi, ht⟩ := able _ hI
    rw [hnone i hi] at ht
    cases ht

/-- Several parties, each treated fairly: as long as `I` holds one of them can move, and
whoever can move stays able to until one of them does. So one of them does. -/
theorem turns_of_parties {π : Type*} {own : π → ι → Prop} (fair : ∀ p, e.Fair (own p))
    (able : ∀ n, I (e.state n) → ∃ p i t, own p i ∧ M.step (e.state n) i = some t)
    (keep : ∀ n p i t, I (e.state n) → (∀ q, ¬own q (e.input n)) → own p i →
      M.step (e.state n) i = some t → ∃ j u, own p j ∧ M.step (e.state (n + 1)) j = some u) :
    e.Turns (fun i => ∃ p, own p i) I := by
  intro n
  by_contra hnone
  push Not at hnone
  obtain ⟨p, hp⟩ := able n (hnone n le_rfl).2
  have hable : ∀ m, n ≤ m → ∃ i t, own p i ∧ M.step (e.state m) i = some t := by
    intro m hm
    induction m, hm using Nat.le_induction with
    | base => exact hp
    | succ m hm ih =>
        obtain ⟨i, t, hi, ht⟩ := ih
        exact keep m p i t (hnone m hm).2 (hnone m hm).1 hi ht
  obtain ⟨m, hm, hown | hblocked⟩ := fair p n
  · exact (hnone m hm).1 p hown
  · obtain ⟨i, t, hi, ht⟩ := hable m hm
    rw [hblocked i hi] at ht
    cases ht

namespace LeadsTo

variable {P Q R : σ → Prop}

theorem trans (hPQ : e.LeadsTo P Q) (hQR : e.LeadsTo Q R) : e.LeadsTo P R := by
  intro n hn
  obtain ⟨m, hm, hQ⟩ := hPQ n hn
  obtain ⟨k, hk, hR⟩ := hQR m hQ
  exact ⟨k, hm.trans hk, hR⟩

/-- The others keep `P` or reach `Q`, and the party's turn reaches `Q`. -/
theorem of_turn (turns : e.Turns own P)
    (others : ∀ n, P (e.state n) → ¬own (e.input n) → P (e.state (n + 1)) ∨ Q (e.state (n + 1)))
    (mine : ∀ n, P (e.state n) → own (e.input n) → Q (e.state (n + 1))) : e.LeadsTo P Q := by
  intro n hn
  obtain ⟨m, hm, hturn⟩ := turns n
  obtain ⟨k, rfl⟩ := Nat.exists_eq_add_of_le hm
  clear hm
  induction k generalizing n with
  | zero => exact ⟨n + 1, n.le_succ, mine n hn (hturn.resolve_right fun hP => hP hn)⟩
  | succ k ih =>
      by_cases hown : own (e.input n)
      · exact ⟨n + 1, n.le_succ, mine n hn hown⟩
      · rcases others n hn hown with hP | hQ
        · have hshift : n + (k + 1) = n + 1 + k := by omega
          rw [hshift] at hturn
          obtain ⟨j, hj, hQ⟩ := ih (n + 1) hP hturn
          exact ⟨j, by omega, hQ⟩
        · exact ⟨n + 1, n.le_succ, hQ⟩

end LeadsTo

theorem holds_from {P : σ → Prop} (keep : ∀ n, P (e.state n) → P (e.state (n + 1))) {n m : ℕ}
    (hn : P (e.state n)) (hm : n ≤ m) : P (e.state m) := by
  induction m, hm using Nat.le_induction with
  | base => exact hn
  | succ m hm ih => exact keep m ih

/-- Every turn of the party reaches the goal or lowers the rank, and the steps of the others
reach it or leave the rank alone. -/
theorem eventually {α : Type*} [LT α] [WellFoundedLT α] (rank : σ → α) (goal : ℕ → Prop)
    (turns : e.Turns own I)
    (others : ∀ n, I (e.state n) → ¬own (e.input n) →
      goal n ∨ I (e.state (n + 1)) ∧ rank (e.state (n + 1)) = rank (e.state n))
    (mine : ∀ n, I (e.state n) → own (e.input n) →
      goal n ∨ I (e.state (n + 1)) ∧ rank (e.state (n + 1)) < rank (e.state n)) {n : ℕ}
    (hn : I (e.state n)) : ∃ m, n ≤ m ∧ goal m := by
  induction h : rank (e.state n) using WellFoundedLT.induction generalizing n with
  | ind r ih =>
      obtain ⟨m, hm, hturn⟩ := turns n
      obtain ⟨k, rfl⟩ := Nat.exists_eq_add_of_le hm
      clear hm
      -- The others move until the turn comes, `k` steps away at most.
      induction k generalizing n with
      | zero =>
          have hown : own (e.input n) := hturn.resolve_right fun hI => hI hn
          rcases mine n hn hown with hgoal | ⟨hnext, hless⟩
          · exact ⟨n, le_rfl, hgoal⟩
          · obtain ⟨m, hm, hgoal⟩ := ih _ (h ▸ hless) hnext rfl
            exact ⟨m, by omega, hgoal⟩
      | succ k ihk =>
          by_cases hown : own (e.input n)
          · rcases mine n hn hown with hgoal | ⟨hnext, hless⟩
            · exact ⟨n, le_rfl, hgoal⟩
            · obtain ⟨m, hm, hgoal⟩ := ih _ (h ▸ hless) hnext rfl
              exact ⟨m, by omega, hgoal⟩
          · rcases others n hn hown with hgoal | ⟨hnext, hrank⟩
            · exact ⟨n, le_rfl, hgoal⟩
            · have hshift : n + (k + 1) = n + 1 + k := by omega
              rw [hshift] at hturn
              obtain ⟨m, hm, hgoal⟩ := ihk hnext (hrank.trans h) hturn
              exact ⟨m, by omega, hgoal⟩

/-! ## Building executions -/

def drop (e : M.Execution) (k : ℕ) : M.Execution where
  state n := e.state (k + n)
  input n := e.input (k + n)
  step n := e.step (k + n)

theorem Fair.drop (h : e.Fair own) (k : ℕ) : (e.drop k).Fair own := by
  intro n
  obtain ⟨m, hm, hturn⟩ := h (k + n)
  obtain ⟨j, rfl⟩ := Nat.exists_eq_add_of_le (show k ≤ m by omega)
  exact ⟨j, by omega, hturn⟩

def cons {s : σ} {i : ι} (h : M.step s i = some (e.state 0)) : M.Execution where
  state n := n.casesOn s e.state
  input n := n.casesOn i e.input
  step n := by
    cases n with
    | zero => exact h
    | succ n => exact e.step n

theorem exists_append {s : σ} {is : List ι} (h : M.run s is = some (e.state 0)) :
    ∃ e' : M.Execution, e'.state 0 = s ∧ (∀ n, e'.state (is.length + n) = e.state n) ∧
      (∀ n, e'.input (is.length + n) = e.input n) ∧
      ∀ n i, is[n]? = some i → e'.input n = i := by
  induction is generalizing s with
  | nil =>
      cases h
      refine ⟨e, rfl, fun n => ?_, fun n => ?_, nofun⟩ <;> rw [List.length_nil, Nat.zero_add]
  | cons i is ih =>
      obtain ⟨t, ht, hrest⟩ := Option.bind_eq_some_iff.1 h
      obtain ⟨e', hstart, hstate, hinput, hbefore⟩ := ih hrest
      refine ⟨e'.cons (hstart ▸ ht), rfl, fun n => ?_, fun n => ?_, fun n j hj => ?_⟩
      · rw [List.length_cons, Nat.add_right_comm]
        exact hstate n
      · rw [List.length_cons, Nat.add_right_comm]
        exact hinput n
      · cases n with
        | zero => exact Option.some.inj hj
        | succ n => exact hbefore n j hj

/-- An execution goes through the states of its finite runs. -/
theorem run_take {is : List ι} (hbefore : ∀ n i, is[n]? = some i → e.input n = i) {n : ℕ}
    (hn : n ≤ is.length) : M.run (e.state 0) (is.take n) = some (e.state n) := by
  induction n with
  | zero => rfl
  | succ n ih =>
      have hlt : n < is.length := hn
      have hstep := e.step n
      rw [hbefore n _ (List.getElem?_eq_getElem hlt)] at hstep
      rw [List.take_succ_eq_append_getElem hlt, run_append (ih (Nat.le_of_lt hlt))]
      exact run_cons hstep

/-- A condition that a finite run meets and an execution after it is met all along. -/
theorem meets_of_append {e' : M.Execution} {C : σ → ι → Prop} {is : List ι}
    (hmeets : M.Meets C (e'.state 0) is) (hbefore : ∀ n i, is[n]? = some i → e'.input n = i)
    (hafter : ∀ n, C (e'.state (is.length + n)) (e'.input (is.length + n))) (n : ℕ) :
    C (e'.state n) (e'.input n) := by
  by_cases hn : n < is.length
  · have hsplit : is = is.take n ++ is[n] :: is.drop (n + 1) := by
      rw [← List.drop_eq_getElem_cons hn, List.take_append_drop]
    have hinput := hbefore n _ (List.getElem?_eq_getElem hn)
    rw [hsplit] at hmeets
    rw [hinput]
    exact hmeets.read (run_take hbefore (Nat.le_of_lt hn)) (hinput ▸ e'.step n)
  · obtain ⟨k, rfl⟩ := Nat.exists_eq_add_of_le (Nat.not_lt.1 hn)
    exact hafter k

theorem Recurs.of_append {e' : M.Execution} {k : ℕ} (h : e.Recurs own)
    (hinput : ∀ n, e'.input (k + n) = e.input n) : e'.Recurs own := by
  intro n
  obtain ⟨m, hm, hown⟩ := h n
  exact ⟨k + m, by omega, by rwa [hinput]⟩

end Execution

/-- Inputs each of which can be taken after those before it make an execution. -/
theorem exists_execution {Q : ℕ → σ → Prop} {input : ℕ → ι}
    (next : ∀ n s, Q n s → ∃ t, M.step s (input n) = some t ∧ Q (n + 1) t) {s : σ} (hs : Q 0 s) :
    ∃ e : M.Execution, e.state 0 = s ∧ ∀ n, e.input n = input n := by
  choose! after hstep hafter using next
  let states : (n : ℕ) → { s // Q n s } := fun n =>
    n.rec ⟨s, hs⟩ fun n t => ⟨after n t.1, hafter n t.1 t.2⟩
  exact ⟨⟨fun n => (states n).1, input, fun n => hstep n _ (states n).2⟩, rfl, fun _ => rfl⟩

/-- A cycle of inputs that leads from `P` to `P` is gone through for ever. -/
theorem exists_cycling {P : σ → Prop} {cycle : List ι} (hne : cycle ≠ [])
    (again : ∀ s, P s → ∃ t, M.run s cycle = some t ∧ P t) {s : σ} (hs : P s) :
    ∃ e : M.Execution, e.state 0 = s ∧ (∀ n, e.input n ∈ cycle) ∧
      ∀ i ∈ cycle, e.Recurs (· = i) := by
  have hlength : 0 < cycle.length := List.length_pos_iff.2 hne
  let input : ℕ → ι := fun n => cycle.get ⟨n % cycle.length, Nat.mod_lt n hlength⟩
  -- What is left of the round leads back to `P`.
  let Q : ℕ → σ → Prop := fun n s =>
    ∃ t, M.run s (cycle.drop (n % cycle.length)) = some t ∧ P t
  have hnext : ∀ n s, Q n s → ∃ t, M.step s (input n) = some t ∧ Q (n + 1) t := by
    rintro n s ⟨t, hrun, hP⟩
    have hlt : n % cycle.length < cycle.length := Nat.mod_lt n hlength
    rw [List.drop_eq_getElem_cons hlt] at hrun
    obtain ⟨u, hu, hrest⟩ := Option.bind_eq_some_iff.1 hrun
    refine ⟨u, hu, ?_⟩
    show ∃ t, M.run u (cycle.drop ((n + 1) % cycle.length)) = some t ∧ P t
    rw [← Nat.mod_add_mod]
    by_cases hlast : n % cycle.length + 1 = cycle.length
    · rw [hlast, List.drop_length] at hrest
      cases hrest
      rw [hlast, Nat.mod_self]
      exact again _ hP
    · rw [Nat.mod_eq_of_lt (by omega : n % cycle.length + 1 < cycle.length)]
      exact ⟨t, hrest, hP⟩
  obtain ⟨e, hstart, hinput⟩ := exists_execution hnext (s := s) (by simpa [Q] using again s hs)
  refine ⟨e, hstart, fun n => ?_, fun i hi n => ?_⟩
  · rw [hinput]
    exact List.get_mem cycle _
  · obtain ⟨k, hk, rfl⟩ := List.getElem_of_mem hi
    refine ⟨k + cycle.length * n, ?_, ?_⟩
    · exact Nat.le_trans (Nat.le_mul_of_pos_left n hlength) (Nat.le_add_left _ _)
    · rw [hinput]
      simp [input, Nat.mod_eq_of_lt hk]

end Machine
