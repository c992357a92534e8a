import Mathlib.Data.List.Basic

/-! # Runs of input-driven machines

A machine reads one input per step. Whatever the environment decides (which
thread moves, what a system call returns) is part of the input, so a run is a
list of inputs, and a property of all runs is a property of all such lists. An
input that cannot happen in a state has no successor and ends the run there.
-/

universe u v

/-- A deterministic transition function over explicit inputs. -/
structure Machine (σ : Type u) (ι : Type v) where
  step : σ → ι → Option σ

namespace Machine

variable {σ : Type u} {ι : Type v} (M : Machine σ ι)

/-- The state after a whole list of inputs, when each of them can happen. -/
def run : σ → List ι → Option σ
  | s, [] => some s
  | s, i :: is => (M.step s i).bind fun t => run t is

/-- `P` holds in every state the run goes through, the first and last included. -/
def Always (P : σ → Prop) : σ → List ι → Prop
  | s, [] => P s
  | s, i :: is => P s ∧ ∀ t, M.step s i = some t → Always P t is

def AlwaysStep (Q : σ → ι → σ → Prop) : σ → List ι → Prop
  | _, [] => True
  | s, i :: is => ∀ t, M.step s i = some t → Q s i t ∧ AlwaysStep Q t is

/-- Every step the run takes meets `C`, a condition on the state before the step
and on its input. -/
def Meets (C : σ → ι → Prop) : σ → List ι → Prop :=
  M.AlwaysStep fun s i _ => C s i

variable {M}

theorem run_cons {s t : σ} {i : ι} {is : List ι} (h : M.step s i = some t) :
    M.run s (i :: is) = M.run t is := by
  simp [run, h]

theorem run_append {s t : σ} {before after : List ι} (h : M.run s before = some t) :
    M.run s (before ++ after) = M.run t after := by
  induction before generalizing s with
  | nil =>
      cases h
      rfl
  | cons i before ih =>
      obtain ⟨u, hu, hrest⟩ := Option.bind_eq_some_iff.1 h
      exact (run_cons hu).trans (ih hrest)

/-- `Always` speaks of exactly the states that prefixes of the input list reach. -/
theorem always_iff_prefix {P : σ → Prop} {s : σ} {is : List ι} :
    M.Always P s is ↔ ∀ before after t, is = before ++ after → M.run s before = some t → P t := by
  induction is generalizing s with
  | nil =>
      constructor
      · rintro h before after t hsplit hrun
        obtain ⟨rfl, rfl⟩ := List.append_eq_nil_iff.1 hsplit.symm
        cases hrun
        exact h
      · intro h
        exact h [] [] s rfl rfl
  | cons i is ih =>
      constructor
      · rintro ⟨hs, hrest⟩ before after t hsplit hrun
        cases before with
        | nil => cases hrun; exact hs
        | cons j before =>
            obtain ⟨rfl, rfl⟩ := List.cons.inj hsplit
            obtain ⟨u, hu, hrun⟩ := Option.bind_eq_some_iff.1 hrun
            exact ih.1 (hrest u hu) before after t rfl hrun
      · intro h
        refine ⟨h [] (i :: is) s rfl rfl, fun u hu => ih.2 ?_⟩
        rintro before after t rfl hrun
        exact h (i :: before) after t rfl ((run_cons hu).trans hrun)

theorem Always.head {P : σ → Prop} {s : σ} {is : List ι} (h : M.Always P s is) : P s := by
  cases is with
  | nil => exact h
  | cons i is => exact h.1

theorem Always.last {P : σ → Prop} {s t : σ} {is : List ι} (h : M.Always P s is)
    (hrun : M.run s is = some t) : P t :=
  always_iff_prefix.1 h is [] t (by simp) hrun

theorem Always.mono {P Q : σ → Prop} (hPQ : ∀ s, P s → Q s) {s : σ} {is : List ι}
    (h : M.Always P s is) : M.Always Q s is := by
  induction is generalizing s with
  | nil => exact hPQ s h
  | cons i is ih => exact ⟨hPQ s h.1, fun t ht => ih (h.2 t ht)⟩

theorem AlwaysStep.mono {Q R : σ → ι → σ → Prop} (hQR : ∀ s i t, Q s i t → R s i t) {s : σ}
    {is : List ι} (h : M.AlwaysStep Q s is) : M.AlwaysStep R s is := by
  induction is generalizing s with
  | nil => trivial
  | cons i is ih => exact fun t ht => ⟨hQR s i t (h t ht).1, ih (h t ht).2⟩

theorem alwaysStep_of_forall {Q : σ → ι → σ → Prop}
    (h : ∀ s i t, M.step s i = some t → Q s i t) (s : σ) (is : List ι) : M.AlwaysStep Q s is := by
  induction is generalizing s with
  | nil => trivial
  | cons i is ih => exact fun t ht => ⟨h s i t ht, ih t⟩

theorem alwaysStep_of_invariant {I : σ → Prop} {C : σ → ι → Prop} {Q : σ → ι → σ → Prop}
    (keep : ∀ s i t, I s → C s i → M.step s i = some t → I t ∧ Q s i t) {s : σ} {is : List ι}
    (start : I s) (meets : M.Meets C s is) : M.AlwaysStep Q s is := by
  induction is generalizing s with
  | nil => trivial
  | cons i is ih =>
      intro t ht
      obtain ⟨hc, hrest⟩ := meets t ht
      obtain ⟨hkept, hq⟩ := keep s i t start hc ht
      exact ⟨hq, ih hkept hrest⟩

theorem meets_congr {C D : σ → ι → Prop} (h : ∀ s i, C s i ↔ D s i) {s : σ} {is : List ι} :
    M.Meets C s is ↔ M.Meets D s is :=
  ⟨AlwaysStep.mono fun s i _ => (h s i).1, AlwaysStep.mono fun s i _ => (h s i).2⟩

theorem AlwaysStep.read {Q : σ → ι → σ → Prop} {s u t : σ} {before after : List ι} {i : ι}
    (h : M.AlwaysStep Q s (before ++ i :: after)) (hrun : M.run s before = some u)
    (hstep : M.step u i = some t) : Q u i t := by
  induction before generalizing s with
  | nil =>
      cases hrun
      exact (h t hstep).1
  | cons j before ih =>
      rcases Option.bind_eq_some_iff.1 hrun with ⟨v, hv, hrun⟩
      exact ih (h v hv).2 hrun

theorem meets_of_forall_mem {C : ι → Prop} {s : σ} {is : List ι} (h : ∀ i ∈ is, C i) :
    M.Meets (fun _ i => C i) s is := by
  induction is generalizing s with
  | nil => trivial
  | cons i is ih =>
      exact fun t _ => ⟨h i (by simp), ih fun j hj => h j (by simp [hj])⟩

instance decidableMeets {C : σ → ι → Prop} [∀ s i, Decidable (C s i)] (s : σ) (is : List ι) :
    Decidable (M.Meets C s is) :=
  match is with
  | [] => .isTrue trivial
  | i :: is =>
      match h : M.step s i with
      | none => .isTrue fun t ht => by rw [h] at ht; cases ht
      | some u =>
          have : Decidable (M.Meets C u is) := decidableMeets u is
          decidable_of_iff (C s i ∧ M.Meets C u is)
            ⟨fun hu t ht => by rw [h] at ht; cases ht; exact hu, fun hs => hs u h⟩

instance decidableAlways {P : σ → Prop} [DecidablePred P] (s : σ) (is : List ι) :
    Decidable (M.Always P s is) :=
  match is with
  | [] => inferInstanceAs (Decidable (P s))
  | i :: is =>
      match h : M.step s i with
      | none => decidable_of_iff (P s) ⟨fun hs => ⟨hs, fun t ht => by rw [h] at ht; cases ht⟩,
          And.left⟩
      | some u =>
          have : Decidable (M.Always P u is) := decidableAlways u is
          decidable_of_iff (P s ∧ M.Always P u is)
            ⟨fun hs => ⟨hs.1, fun t ht => by rw [h] at ht; cases ht; exact hs.2⟩,
              fun hs => ⟨hs.1, hs.2 u h⟩⟩

/-! ## Reaching a state -/

variable (M) in
def Reaches (s t : σ) : Prop := ∃ is, M.run s is = some t

namespace Reaches

theorem refl (s : σ) : M.Reaches s s := ⟨[], rfl⟩

theorem head {s t u : σ} {i : ι} (hstep : M.step s i = some t) (h : M.Reaches t u) :
    M.Reaches s u := by
  rcases h with ⟨is, his⟩
  exact ⟨i :: is, (run_cons hstep).trans his⟩

theorem trans {s t u : σ} (hst : M.Reaches s t) (htu : M.Reaches t u) : M.Reaches s u := by
  rcases hst with ⟨is, his⟩
  induction is generalizing s with
  | nil =>
      cases his
      exact htu
  | cons i is ih =>
      rcases Option.bind_eq_some_iff.1 his with ⟨v, hv, hrest⟩
      exact head hv (ih hrest)

theorem tail {s t u : σ} {i : ι} (h : M.Reaches s t) (hstep : M.step t i = some u) :
    M.Reaches s u :=
  h.trans (head hstep (refl u))

end Reaches

/-- Where no state allows two inputs, all runs follow a run that cannot go on. -/
theorem run_prefix {I : σ → Prop} (keep : ∀ s i t, I s → M.step s i = some t → I t)
    (unique : ∀ s i j t u, I s → M.step s i = some t → M.step s j = some u → i = j)
    {s t u : σ} {whole is : List ι} (start : I s) (hwhole : M.run s whole = some t)
    (stuck : ∀ i, M.step t i = none) (hrun : M.run s is = some u) : is <+: whole := by
  induction whole generalizing s is with
  | nil =>
      cases hwhole
      cases is with
      | nil => exact List.prefix_refl []
      | cons i is => simp [run, stuck i] at hrun
  | cons j whole ih =>
      cases is with
      | nil => exact List.nil_prefix
      | cons i is =>
          rcases Option.bind_eq_some_iff.1 hwhole with ⟨v, hv, hrest⟩
          rcases Option.bind_eq_some_iff.1 hrun with ⟨w, hw, hmore⟩
          cases unique s i j w v start hw hv
          cases hv.symm.trans hw
          exact List.cons_prefix_cons.2 ⟨rfl, ih (keep s j v start hv) hrest hmore⟩

theorem Reaches.of_stuck [Subsingleton ι] {s t u : σ} (ht : M.Reaches s t)
    (stuck : ∀ i, M.step t i = none) (hu : M.Reaches s u) : M.Reaches u t := by
  rcases ht with ⟨whole, hwhole⟩
  rcases hu with ⟨is, his⟩
  induction is generalizing s whole with
  | nil =>
      cases his
      exact ⟨whole, hwhole⟩
  | cons i is ih =>
      rcases Option.bind_eq_some_iff.1 his with ⟨v, hv, hrest⟩
      cases whole with
      | nil =>
          cases hwhole
          cases (stuck i).symm.trans hv
      | cons j whole =>
          rcases Option.bind_eq_some_iff.1 hwhole with ⟨w, hw, hmore⟩
          obtain rfl := Subsingleton.elim i j
          cases hv.symm.trans hw
          exact ih whole hmore hrest

/-! ## Invariants -/

/-- What holds at first and is kept by every step that meets the condition holds
all along a run that meets it. -/
theorem always_of_meets {I : σ → Prop} {C : σ → ι → Prop}
    (keep : ∀ s i t, I s → C s i → M.step s i = some t → I t) {s : σ} {is : List ι}
    (start : I s) (meets : M.Meets C s is) : M.Always I s is := by
  induction is generalizing s with
  | nil => exact start
  | cons i is ih =>
      refine ⟨start, fun t ht => ?_⟩
      obtain ⟨hc, hrest⟩ := meets t ht
      exact ih (keep s i t start hc ht) hrest

/-- What every step keeps holds in every state of every run. -/
theorem always_of_invariant {I : σ → Prop}
    (keep : ∀ s i t, I s → M.step s i = some t → I t) {s : σ} (start : I s)
    (is : List ι) : M.Always I s is :=
  always_of_meets (C := fun _ _ => True) (fun s i t hs _ => keep s i t hs) start
    (meets_of_forall_mem (C := fun _ => True) fun _ _ => trivial)

/-- A condition is exact for `P` when, from states of the invariant, it decides
step by step whether `P` survives. `G` is what the run is known to respect anyway. -/
theorem always_iff_meets_within {P I : σ → Prop} {C G : σ → ι → Prop}
    (sound : ∀ s, I s → P s)
    (keep : ∀ s i t, I s → G s i → C s i → M.step s i = some t → I t)
    (needed : ∀ s i t, I s → G s i → M.step s i = some t → P t → C s i) {s : σ}
    {is : List ι} (start : I s) (within : M.Meets G s is) :
    M.Always P s is ↔ M.Meets C s is := by
  induction is generalizing s with
  | nil => exact ⟨fun _ => trivial, fun _ => sound s start⟩
  | cons i is ih =>
      constructor
      · rintro ⟨_, hrest⟩ t ht
        obtain ⟨hg, hwithin⟩ := within t ht
        have hc := needed s i t start hg ht (hrest t ht).head
        exact ⟨hc, (ih (keep s i t start hg hc ht) hwithin).1 (hrest t ht)⟩
      · intro h
        refine ⟨sound s start, fun t ht => ?_⟩
        obtain ⟨hg, hwithin⟩ := within t ht
        obtain ⟨hc, hrest⟩ := h t ht
        exact (ih (keep s i t start hg hc ht) hwithin).2 hrest

theorem always_iff_meets {P I : σ → Prop} {C : σ → ι → Prop}
    (sound : ∀ s, I s → P s)
    (keep : ∀ s i t, I s → C s i → M.step s i = some t → I t)
    (needed : ∀ s i t, I s → M.step s i = some t → P t → C s i) {s : σ} (start : I s)
    (is : List ι) : M.Always P s is ↔ M.Meets C s is :=
  always_iff_meets_within (G := fun _ _ => True) sound (fun s i t hs _ => keep s i t hs)
    (fun s i t hs _ => needed s i t hs) start
    (meets_of_forall_mem (C := fun _ => True) fun _ _ => trivial)

/-- The same exactness rule for a property of single steps. -/
theorem alwaysStep_iff_meets {Q : σ → ι → σ → Prop} {I : σ → Prop} {C : σ → ι → Prop}
    (keep : ∀ s i t, I s → C s i → M.step s i = some t → I t)
    (decides : ∀ s i t, I s → M.step s i = some t → (Q s i t ↔ C s i)) {s : σ}
    (start : I s) (is : List ι) : M.AlwaysStep Q s is ↔ M.Meets C s is := by
  induction is generalizing s with
  | nil => exact Iff.rfl
  | cons i is ih =>
      constructor
      · intro h t ht
        have hc := (decides s i t start ht).1 (h t ht).1
        exact ⟨hc, (ih (keep s i t start hc ht)).1 (h t ht).2⟩
      · intro h t ht
        obtain ⟨hc, hrest⟩ := h t ht
        exact ⟨(decides s i t start ht).2 hc, (ih (keep s i t start hc ht)).2 hrest⟩

theorem always_congr {P Q I : σ → Prop} (h : ∀ s, I s → (P s ↔ Q s)) {s : σ} {is : List ι}
    (hI : M.Always I s is) : M.Always P s is ↔ M.Always Q s is := by
  induction is generalizing s with
  | nil => exact h s hI
  | cons i is ih =>
      constructor
      · intro hP
        exact ⟨(h s hI.1).1 hP.1, fun t ht => (ih (hI.2 t ht)).1 (hP.2 t ht)⟩
      · intro hQ
        exact ⟨(h s hI.1).2 hQ.1, fun t ht => (ih (hI.2 t ht)).2 (hQ.2 t ht)⟩

/-! ## Histories -/

/-- The machine beside a value that it does not read, computed from the steps it takes. -/
def remember {β : Type u} (M : Machine σ ι) (f : σ → ι → β → β) : Machine (σ × β) ι :=
  ⟨fun p i => (M.step p.1 i).map fun t => (t, f p.1 i p.2)⟩

theorem always_remember {β : Type u} {f : σ → ι → β → β} {P : σ → Prop} {s : σ} (b : β)
    {is : List ι} : (M.remember f).Always (fun p => P p.1) (s, b) is ↔ M.Always P s is := by
  induction is generalizing s b with
  | nil => exact Iff.rfl
  | cons i is ih =>
      constructor
      · rintro ⟨hs, hrest⟩
        refine ⟨hs, fun t ht => (ih (f s i b)).1 ?_⟩
        exact hrest (t, f s i b) (by simp [remember, ht])
      · rintro ⟨hs, hrest⟩
        refine ⟨hs, fun p hp => ?_⟩
        rcases Option.map_eq_some_iff.1 hp with ⟨t, ht, rfl⟩
        exact (ih (f s i b)).2 (hrest t ht)

/-! ## Logs -/

theorem log_split {α : Type u} {log added before after : List α} {x : α}
    (h : log ++ added = before ++ x :: after) :
    (∃ rest, log = before ++ x :: rest ∧ after = rest ++ added) ∨
      ∃ rest, before = log ++ rest ∧ added = rest ++ x :: after := by
  rcases List.append_eq_append_iff.1 h with ⟨rest, hbefore, hadded⟩ | ⟨rest, hlog, hafter⟩
  · exact .inr ⟨rest, hbefore, hadded⟩
  · cases rest with
    | nil => exact .inr ⟨[], by simpa using hlog.symm, hafter.symm⟩
    | cons y rest =>
        rcases List.cons.inj hafter with ⟨rfl, htail⟩
        exact .inl ⟨rest, hlog, htail⟩

end Machine
