import Hayai.Machine.Run

/-! # Refinement maps

A machine refines another one when each of its steps shows as one of the other's steps or
as none. What always holds there, in the runs that meet a condition there, then always
holds here. Where the steps match one by one, what the other one reaches is reached here
too.
-/

universe u v w x

namespace Machine

variable {σ : Type u} {ι : Type v} {σ' : Type w} {ι' : Type x}

/-- `state` shows the states of `M` as states of `N`, and `input` its inputs. -/
structure Refinement (M : Machine σ ι) (N : Machine σ' ι') where
  state : σ → σ'
  input : σ → ι → Option ι'
  stutter : ∀ {s i t}, M.step s i = some t → input s i = none → state t = state s
  step : ∀ {s i t j}, M.step s i = some t → input s i = some j → N.step (state s) j = some (state t)

namespace Refinement

variable {M : Machine σ ι} {N : Machine σ' ι'} (R : Refinement M N)

def trace : σ → List ι → List ι'
  | _, [] => []
  | s, i :: is =>
      match M.step s i with
      | none => []
      | some t => (R.input s i).toList ++ trace t is

def lift (C : σ' → ι' → Prop) (s : σ) (i : ι) : Prop := ∀ j ∈ R.input s i, C (R.state s) j

variable {R}

theorem trace_cons {s t : σ} {i : ι} {is : List ι} (h : M.step s i = some t) :
    R.trace s (i :: is) = (R.input s i).toList ++ R.trace t is := by
  simp [trace, h]

theorem trace_cons_none {s : σ} {i : ι} {is : List ι} (h : M.step s i = none) :
    R.trace s (i :: is) = [] := by
  simp [trace, h]

/-- A property of the other machine's states, seen from here. -/
theorem always_iff {P : σ' → Prop} {s : σ} {a : σ'} (hs : R.state s = a) {is : List ι} :
    M.Always (fun s => P (R.state s)) s is ↔ N.Always P a (R.trace s is) := by
  subst hs
  induction is generalizing s with
  | nil => exact Iff.rfl
  | cons i is ih =>
      cases hstep : M.step s i with
      | none =>
          rw [trace_cons_none hstep]
          constructor
          · exact fun h => h.1
          · exact fun h => ⟨h, fun t ht => by rw [hstep] at ht; cases ht⟩
      | some t =>
          rw [trace_cons hstep]
          cases hinput : R.input s i with
          | none =>
              have hsame := R.stutter hstep hinput
              rw [Option.toList_none, List.nil_append, ← hsame, ← ih]
              constructor
              · exact fun h => h.2 t hstep
              · intro h
                have hhead : P (R.state t) := h.head
                rw [hsame] at hhead
                refine ⟨hhead, fun u hu => ?_⟩
                rw [hstep] at hu
                cases hu
                exact h
          | some j =>
              have hnext := R.step hstep hinput
              rw [Option.toList_some, List.singleton_append]
              constructor
              · rintro ⟨hs, hrest⟩
                refine ⟨hs, fun a ha => ?_⟩
                rw [hnext] at ha
                cases ha
                exact ih.1 (hrest t hstep)
              · rintro ⟨hs, hrest⟩
                refine ⟨hs, fun u hu => ?_⟩
                rw [hstep] at hu
                cases hu
                exact ih.2 (hrest _ hnext)

theorem meets_iff {C : σ' → ι' → Prop} {s : σ} {a : σ'} (hs : R.state s = a) {is : List ι} :
    M.Meets (R.lift C) s is ↔ N.Meets C a (R.trace s is) := by
  subst hs
  induction is generalizing s with
  | nil => exact Iff.rfl
  | cons i is ih =>
      cases hstep : M.step s i with
      | none =>
          rw [trace_cons_none hstep]
          constructor
          · exact fun _ => trivial
          · exact fun _ t ht => by rw [hstep] at ht; cases ht
      | some t =>
          rw [trace_cons hstep]
          have hcons : M.Meets (R.lift C) s (i :: is) ↔
              R.lift C s i ∧ M.Meets (R.lift C) t is := by
            constructor
            · exact fun h => h t hstep
            · rintro h u hu
              rw [hstep] at hu
              cases hu
              exact h
          rw [hcons, ih]
          cases hinput : R.input s i with
          | none =>
              rw [Option.toList_none, List.nil_append, ← R.stutter hstep hinput]
              constructor
              · exact fun h => h.2
              · refine fun h => ⟨fun j hj => ?_, h⟩
                rw [hinput] at hj
                cases hj
          | some j =>
              have hnext := R.step hstep hinput
              rw [Option.toList_some, List.singleton_append]
              constructor
              · rintro ⟨hc, hrest⟩ a ha
                rw [hnext] at ha
                cases ha
                exact ⟨hc j hinput, hrest⟩
              · intro h
                obtain ⟨hc, hrest⟩ := h _ hnext
                refine ⟨fun j' hj' => ?_, hrest⟩
                rw [Option.mem_def, hinput] at hj'
                cases hj'
                exact hc

end Refinement

/-! ## Steps that match one by one -/

/-- `rel` holds between states of two machines that can take the same steps, though their
inputs differ. -/
structure Bisimulation (M : Machine σ ι) (N : Machine σ' ι') where
  rel : σ → σ' → Prop
  forward : ∀ {s a i t}, rel s a → M.step s i = some t → ∃ j b, N.step a j = some b ∧ rel t b
  backward : ∀ {s a j b}, rel s a → N.step a j = some b → ∃ i t, M.step s i = some t ∧ rel t b

namespace Bisimulation

variable {M : Machine σ ι} {N : Machine σ' ι'} (B : Bisimulation M N)

/-- Every state of a run is related to a state that the other machine reaches. -/
theorem always {s : σ} {a : σ'} (h : B.rel s a) (is : List ι) :
    M.Always (fun t => ∃ b, N.Reaches a b ∧ B.rel t b) s is := by
  apply always_of_invariant
  · rintro u i t ⟨b, hreach, hrel⟩ hstep
    rcases B.forward hrel hstep with ⟨j, c, hnext, hrel⟩
    exact ⟨c, hreach.tail hnext, hrel⟩
  · exact ⟨a, .refl a, h⟩

theorem reaches {s : σ} {a b : σ'} (h : B.rel s a) (hreach : N.Reaches a b) :
    ∃ t, M.Reaches s t ∧ B.rel t b := by
  rcases hreach with ⟨js, hjs⟩
  induction js generalizing s a with
  | nil =>
      cases hjs
      exact ⟨s, .refl s, h⟩
  | cons j js ih =>
      rcases Option.bind_eq_some_iff.1 hjs with ⟨c, hc, hrest⟩
      rcases B.backward h hc with ⟨i, u, hstep, hrel⟩
      rcases ih hrel hrest with ⟨t, hreach, hrel⟩
      exact ⟨t, .head hstep hreach, hrel⟩

end Bisimulation

end Machine
