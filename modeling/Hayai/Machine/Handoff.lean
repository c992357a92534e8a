import Hayai.Machine.Run
import Mathlib.Data.List.Basic
import Mathlib.Logic.Function.Basic

/-! # Handing items to waiting consumers

A store of items with one place for a waiter. A consumer checks the store and takes from it
when there is something; otherwise it looks once more and leaves itself as the waiter.
Producers put items in, and have the waiter resumed that they find. A resume takes place
later, in any order.

Consumers have names, and the suspensions of one consumer are numbered.
-/

universe u v

structure Take (α : Type u) where
  split : List α → List α × List α
  append : ∀ l, (split l).1 ++ (split l).2 = l
  some : ∀ l, l ≠ [] → (split l).1 ≠ []

namespace Take

variable {α : Type u}

def one : Take α where
  split l := (l.take 1, l.drop 1)
  append l := List.take_append_drop 1 l
  some l hl := by cases l <;> simp at hl ⊢

def all : Take α where
  split l := (l, [])
  append l := List.append_nil l
  some _ hl := hl

end Take

inductive Handoff.Phase where
  | away
  | ready
  | unready
  | suspended
  deriving DecidableEq, Repr

/-- `promised` are the consumers that were told of an item, by a check or by a resume, and
have not taken yet. `misresumed` is set when a consumer is resumed that is not in the
suspension meant. -/
structure Handoff (α : Type u) (κ : Type v) where
  items : List α
  waiter : Option (κ × Nat)
  resumes : List (κ × Nat)
  phase : κ → Handoff.Phase
  suspensions : κ → Nat
  promised : List κ
  delivered : List α
  taken : List (κ × List α)
  resumed : List (κ × Nat)
  misresumed : Bool

namespace Handoff

variable {α : Type u} {κ : Type v}

inductive Input (α : Type u) (κ : Type v) where
  | deliver (xs : List α)
  | check (k : κ)
  | suspend (k : κ)
  | take (k : κ)
  | resume (h : κ × Nat)

def new : Handoff α κ := ⟨[], none, [], fun _ => .away, fun _ => 0, [], [], [], [], false⟩

def tell (s : Handoff α κ) (h : κ × Nat) : Handoff α κ :=
  { s with resumes := s.resumes ++ [h], promised := s.promised ++ [h.1] }

def deliver (s : Handoff α κ) (xs : List α) : Handoff α κ :=
  let t := { s with items := s.items ++ xs, delivered := s.delivered ++ xs }
  match s.waiter with
  | some h => { t with waiter := none }.tell h
  | none => t

variable [DecidableEq κ]

def setPhase (s : Handoff α κ) (k : κ) (p : Phase) : Handoff α κ :=
  { s with phase := Function.update s.phase k p }

def check (s : Handoff α κ) (k : κ) : Handoff α κ :=
  if s.items.isEmpty then s.setPhase k .unready
  else { s.setPhase k .ready with promised := s.promised ++ [k] }

/-- The store is looked at once more. -/
def suspend (s : Handoff α κ) (k : κ) : Handoff α κ :=
  let t := { s.setPhase k .suspended with
    suspensions := Function.update s.suspensions k (s.suspensions k + 1) }
  if s.items.isEmpty then { t with waiter := some (k, s.suspensions k) }
  else t.tell (k, s.suspensions k)

def take (T : Take α) (s : Handoff α κ) (k : κ) : Handoff α κ :=
  { s.setPhase k .away with
    items := (T.split s.items).2
    taken := s.taken ++ [(k, (T.split s.items).1)]
    promised := s.promised.erase k }

def resume (T : Take α) (s : Handoff α κ) (h : κ × Nat) : Handoff α κ :=
  let t := { s with resumes := s.resumes.erase h, resumed := s.resumed ++ [h] }
  if s.phase h.1 = .suspended ∧ s.suspensions h.1 = h.2 + 1 then t.take T h.1
  else { t with misresumed := true }

def step (T : Take α) (s : Handoff α κ) : Input α κ → Option (Handoff α κ)
  | .deliver xs => if xs.isEmpty then none else some (s.deliver xs)
  | .check k => if s.phase k = .away then some (s.check k) else none
  | .suspend k => if s.phase k = .unready then some (s.suspend k) else none
  | .take k => if s.phase k = .ready then some (s.take T k) else none
  | .resume h => if h ∈ s.resumes then some (s.resume T h) else none

def machine (α : Type u) (κ : Type v) [DecidableEq κ] (T : Take α) :
    Machine (Handoff α κ) (Input α κ) := ⟨step T⟩

/-! ## What is asked -/

omit [DecidableEq κ] in
/-- What was taken, and then what is there, is what was delivered. -/
def Flows (s : Handoff α κ) : Prop := s.taken.flatMap Prod.snd ++ s.items = s.delivered

def waits (s : Handoff α κ) (k : κ) : Bool := s.waiter.any (·.1 = k)

def queued (s : Handoff α κ) (k : κ) : Nat := s.resumes.countP (·.1 = k)

/-- A suspended consumer is the waiter, or exactly one resume of it is queued. -/
def Remembered (s : Handoff α κ) : Prop :=
  ∀ k, s.phase k = .suspended →
    (s.waits k = true ∧ s.queued k = 0) ∨ (s.waits k = false ∧ s.queued k = 1)

omit [DecidableEq κ] in
def handles (s : Handoff α κ) : List (κ × Nat) := s.resumed ++ s.resumes ++ s.waiter.toList

/-- Each suspension is resumed once, or it is still to be: by a resume that is queued, or
as the waiter's. -/
def Once (s : Handoff α κ) : Prop :=
  ∀ k n, s.handles.count (k, n) = if n < s.suspensions k then 1 else 0

/-- Nobody waits while there is something to take. -/
def Awake (s : Handoff α κ) : Prop := s.waiter.isSome = true → s.items = []

/-- A consumer that waits finds nobody else waiting. -/
def Free (s : Handoff α κ) : Input α κ → Prop
  | .suspend _ => s.items = [] → s.waiter = none
  | _ => True

/-- Whoever is told of an item finds one that nobody was promised. -/
def Unpromised (s : Handoff α κ) : Input α κ → Prop
  | .check _ | .suspend _ => s.items ≠ [] → s.promised.length < s.items.length
  | _ => True

/-! ## The invariant -/

def Current (s : Handoff α κ) : Prop :=
  ∀ k n, (k, n) ∈ s.resumes ∨ s.waiter = some (k, n) →
    s.phase k = .suspended ∧ s.suspensions k = n + 1

def Asleep (s : Handoff α κ) : Prop :=
  ∀ k, s.phase k = .suspended → ∃ n, s.suspensions k = n + 1 ∧ (k, n) ∉ s.resumed

structure Accounted (s : Handoff α κ) : Prop where
  flows : s.Flows
  awake : s.Awake
  once : s.Once
  current : s.Current
  asleep : s.Asleep
  resumed : s.misresumed = false

omit [DecidableEq κ] in
theorem split_nil (T : Take α) : T.split [] = ([], []) := by
  have happend := T.append []
  rw [List.append_eq_nil_iff] at happend
  exact Prod.ext happend.1 happend.2

theorem count_singleton (w h : κ × Nat) : [h].count w = if w = h then 1 else 0 := by
  by_cases hw : w = h
  · simp [hw]
  · rw [if_neg hw, List.count_singleton, if_neg]
    simpa using fun heq : h = w => hw heq.symm

structure SamePlaces (s t : Handoff α κ) (k : κ) : Prop where
  resumes : t.resumes = s.resumes
  waiter : t.waiter = s.waiter
  suspensions : t.suspensions = s.suspensions
  resumed : t.resumed = s.resumed
  phase : ∀ k', k' ≠ k → t.phase k' = s.phase k'

namespace Accounted

variable {s t : Handoff α κ} {k : κ}

theorem of_samePlaces (h : s.Accounted) (hsame : s.SamePlaces t k) (hflows : t.Flows)
    (hawake : t.Awake) (hbefore : s.phase k ≠ .suspended) (hafter : t.phase k ≠ .suspended)
    (hresumed : t.misresumed = s.misresumed) : t.Accounted := by
  refine ⟨hflows, hawake, ?_, ?_, ?_, hresumed.trans h.resumed⟩
  · intro k' n
    rw [handles, hsame.resumed, hsame.resumes, hsame.waiter, hsame.suspensions]
    exact h.once k' n
  · intro k' n hplace
    rw [hsame.resumes, hsame.waiter] at hplace
    have hcurrent := h.current k' n hplace
    have hne : k' ≠ k := by
      rintro rfl
      exact hbefore hcurrent.1
    rw [hsame.phase k' hne, hsame.suspensions]
    exact hcurrent
  · intro k' hphase
    have hne : k' ≠ k := by
      rintro rfl
      exact hafter hphase
    rw [hsame.phase k' hne] at hphase
    rw [hsame.suspensions, hsame.resumed]
    exact h.asleep k' hphase

theorem deliver (h : s.Accounted) (xs : List α) : (s.deliver xs).Accounted := by
  have hflows : s.taken.flatMap Prod.snd ++ (s.items ++ xs) = s.delivered ++ xs := by
    rw [← List.append_assoc, h.flows]
  unfold Handoff.deliver
  dsimp only
  split
  · next w hw =>
      refine ⟨hflows, nofun, ?_, ?_, h.asleep, h.resumed⟩
      · intro k n
        have honce := h.once k n
        rw [handles, hw] at honce
        refine Eq.trans ?_ honce
        simp [handles, tell]
      · intro k n hplace
        simp only [tell, List.mem_append, List.mem_singleton, reduceCtorEq, or_false] at hplace
        rcases hplace with hqueued | rfl
        · exact h.current k n (.inl hqueued)
        · exact h.current k n (.inr hw)
  · next hw =>
      refine ⟨hflows, ?_, h.once, h.current, h.asleep, h.resumed⟩
      intro hwaits
      rw [hw] at hwaits
      cases hwaits

theorem check (h : s.Accounted) (hphase : s.phase k = .away) : (s.check k).Accounted := by
  have hbefore : s.phase k ≠ .suspended := by
    rw [hphase]
    nofun
  have hother : ∀ {p : Phase} (k' : κ), k' ≠ k → Function.update s.phase k p k' = s.phase k' :=
    fun k' hne => Function.update_of_ne hne _ _
  unfold Handoff.check
  split
  · exact h.of_samePlaces (k := k) ⟨rfl, rfl, rfl, rfl, hother⟩ h.flows h.awake hbefore
      (by simp [setPhase]) rfl
  · exact h.of_samePlaces (k := k) ⟨rfl, rfl, rfl, rfl, hother⟩ h.flows h.awake hbefore
      (by simp [setPhase]) rfl

theorem flows_take (h : s.Flows) (T : Take α) (k : κ) : (s.take T k).Flows := by
  simp only [Flows, Handoff.take, List.flatMap_append, List.flatMap_singleton,
    List.append_assoc, T.append]
  exact h

theorem awake_take (h : s.Awake) (T : Take α) (k : κ) : (s.take T k).Awake := by
  intro hwaits
  show (T.split s.items).2 = []
  rw [h hwaits, split_nil]

theorem take (h : s.Accounted) (T : Take α) (hphase : s.phase k = .ready) :
    (s.take T k).Accounted := by
  apply h.of_samePlaces (t := s.take T k)
    ⟨rfl, rfl, rfl, rfl, fun k' hne => Function.update_of_ne hne _ _⟩
    (flows_take h.flows T k) (awake_take h.awake T k)
  · rw [hphase]
    nofun
  · simp [Handoff.take, setPhase]
  · rfl

/-- A handle that is to be resumed is in one place. -/
theorem alone (h : s.Accounted) {k : κ} {n : Nat} (hmem : (k, n) ∈ s.resumes) :
    s.resumed.count (k, n) = 0 ∧ s.resumes.count (k, n) = 1 ∧ s.waiter ≠ some (k, n) := by
  have honce := h.once k n
  have hpos := List.count_pos_iff.2 hmem
  have hlt : n < s.suspensions k := by
    rw [(h.current k n (.inl hmem)).2]
    exact Nat.lt_succ_self n
  rw [if_pos hlt, handles, List.count_append, List.count_append] at honce
  refine ⟨by omega, by omega, ?_⟩
  intro hwaiter
  simp [hwaiter] at honce
  omega

theorem not_resumed (h : s.Accounted) (k : κ) : (k, s.suspensions k) ∉ s.resumed := by
  intro hmem
  have honce := h.once k (s.suspensions k)
  have hpos := List.count_pos_iff.2 hmem
  rw [if_neg (Nat.lt_irrefl _), handles, List.count_append, List.count_append] at honce
  omega

/-- A suspension begins: its handle is put in one place. -/
theorem begin (h : s.Accounted) (hphase : s.phase k = .unready) (hflows : t.Flows)
    (hawake : t.Awake) (htphase : t.phase = Function.update s.phase k .suspended)
    (hsuspensions : t.suspensions = Function.update s.suspensions k (s.suspensions k + 1))
    (hresumed : t.resumed = s.resumed) (hmisresumed : t.misresumed = s.misresumed)
    (hhandles : ∀ w, t.handles.count w =
      s.handles.count w + if w = (k, s.suspensions k) then 1 else 0)
    (hplaces : ∀ w, w ∈ t.resumes ∨ t.waiter = some w →
      (w ∈ s.resumes ∨ s.waiter = some w) ∨ w = (k, s.suspensions k)) : t.Accounted := by
  refine ⟨hflows, hawake, ?_, ?_, ?_, hmisresumed.trans h.resumed⟩
  · intro k' n
    rw [hhandles, h.once, hsuspensions]
    by_cases hk : k' = k
    · subst hk
      simp only [Prod.mk.injEq, true_and, Function.update_self]
      by_cases hn : n = s.suspensions k'
      · simp [hn]
      · rw [if_neg hn]
        by_cases hlt : n < s.suspensions k'
        · rw [if_pos hlt, if_pos (by omega)]
        · rw [if_neg hlt, if_neg (by omega)]
    · simp [hk]
  · intro k' n hplace
    rw [htphase, hsuspensions]
    rcases hplaces (k', n) hplace with hold | heq
    · have hcurrent := h.current k' n hold
      have hne : k' ≠ k := by
        rintro rfl
        rw [hcurrent.1] at hphase
        cases hphase
      rw [Function.update_of_ne hne, Function.update_of_ne hne]
      exact hcurrent
    · cases heq
      simp
  · intro k' hphase'
    rw [hsuspensions, hresumed]
    by_cases hk : k' = k
    · subst hk
      exact ⟨s.suspensions k', Function.update_self _ _ _, h.not_resumed k'⟩
    · rw [htphase, Function.update_of_ne hk] at hphase'
      rw [Function.update_of_ne hk]
      exact h.asleep k' hphase'

theorem suspend (h : s.Accounted) (hphase : s.phase k = .unready)
    (hfree : s.items = [] → s.waiter = none) : (s.suspend k).Accounted := by
  unfold Handoff.suspend
  dsimp only
  split
  · next hempty =>
      have hitems : s.items = [] := List.isEmpty_iff.1 hempty
      refine h.begin hphase h.flows (fun _ => hitems) rfl rfl rfl rfl ?_ ?_
      · intro w
        rw [← count_singleton, ← List.count_append]
        simp [handles, setPhase, hfree hitems]
      · intro w hplace
        rcases hplace with hqueued | hwaiter
        · exact .inl (.inl hqueued)
        · exact .inr (Option.some.inj hwaiter).symm
  · next hitems =>
      refine h.begin hphase h.flows h.awake rfl rfl rfl rfl ?_ ?_
      · intro w
        rw [← count_singleton]
        simp only [handles, tell, setPhase, List.count_append]
        omega
      · intro w hplace
        rcases hplace with hqueued | hwaiter
        · rcases List.mem_append.1 hqueued with hold | hnew
          · exact .inl (.inl hold)
          · exact .inr (List.mem_singleton.1 hnew)
        · exact .inl (.inr hwaiter)

theorem other (h : s.Accounted) {k : κ} {n : Nat} (hmem : (k, n) ∈ s.resumes) {k' : κ} {n' : Nat}
    (hplace : (k', n') ∈ s.resumes.erase (k, n) ∨ s.waiter = some (k', n')) : k' ≠ k := by
  rintro rfl
  have hcurrent := h.current k' n (.inl hmem)
  have halone := h.alone hmem
  have hsuspensions : s.suspensions k' = n' + 1 := by
    rcases hplace with hqueued | hwaiter
    · exact (h.current k' n' (.inl (List.mem_of_mem_erase hqueued))).2
    · exact (h.current k' n' (.inr hwaiter)).2
  obtain rfl : n' = n := by omega
  rcases hplace with hqueued | hwaiter
  · have hpos := List.count_pos_iff.2 hqueued
    rw [List.count_erase_self] at hpos
    omega
  · exact halone.2.2 hwaiter

theorem resume (h : s.Accounted) (T : Take α) {w : κ × Nat} (hw : w ∈ s.resumes) :
    (s.resume T w).Accounted := by
  obtain ⟨k, n⟩ := w
  have hcurrent := h.current k n (.inl hw)
  unfold Handoff.resume
  dsimp only
  rw [if_pos hcurrent]
  refine ⟨flows_take h.flows T k, awake_take h.awake T k, ?_, ?_, ?_, h.resumed⟩
  · intro k' n'
    refine Eq.trans ?_ (h.once k' n')
    show ((s.resumed ++ [(k, n)]) ++ s.resumes.erase (k, n) ++ s.waiter.toList).count (k', n') =
      (s.resumed ++ s.resumes ++ s.waiter.toList).count (k', n')
    have hperm : (s.resumed ++ [(k, n)] ++ s.resumes.erase (k, n)).Perm
        (s.resumed ++ s.resumes) := by
      rw [List.append_assoc]
      exact (List.perm_cons_erase hw).symm.append_left s.resumed
    rw [List.count_append, hperm.count_eq, ← List.count_append]
  · intro k' n' hplace
    have hne := h.other hw hplace
    have hold := h.current k' n' (hplace.imp List.mem_of_mem_erase fun hw => hw)
    exact ⟨(Function.update_of_ne hne _ _).trans hold.1, hold.2⟩
  · intro k' hphase'
    have hne : k' ≠ k := by
      rintro rfl
      simp [Handoff.take, setPhase] at hphase'
    have hold : s.phase k' = .suspended := (Function.update_of_ne hne _ _).symm.trans hphase'
    obtain ⟨m, hm, hmem⟩ := h.asleep k' hold
    refine ⟨m, hm, ?_⟩
    simp only [Handoff.take, setPhase, List.mem_append, List.mem_singleton, Prod.mk.injEq, not_or]
    exact ⟨hmem, fun heq => hne heq.1⟩

/-- A suspension that is over was resumed once. -/
theorem ended (h : s.Accounted) {n : Nat} (hn : n < s.suspensions k)
    (hover : ¬(s.phase k = .suspended ∧ s.suspensions k = n + 1)) :
    s.resumed.count (k, n) = 1 := by
  have honce := h.once k n
  have hqueued : s.resumes.count (k, n) = 0 :=
    List.count_eq_zero_of_not_mem fun hmem => hover (h.current k n (.inl hmem))
  have hwaiter : s.waiter.toList.count (k, n) = 0 :=
    List.count_eq_zero_of_not_mem fun hmem =>
      hover (h.current k n (.inr (Option.mem_toList.1 hmem)))
  rw [if_pos hn, handles, List.count_append, List.count_append] at honce
  omega

theorem queued_eq (h : s.Accounted) {n : Nat} (hsuspensions : s.suspensions k = n + 1) :
    s.queued k = s.resumes.count (k, n) := by
  unfold queued List.count
  apply List.countP_congr
  rintro ⟨k', n'⟩ hmem
  simp only [decide_eq_true_eq, beq_iff_eq, Prod.mk.injEq]
  constructor
  · rintro rfl
    have hcurrent := (h.current k' n' (.inl hmem)).2
    exact ⟨rfl, by omega⟩
  · exact fun heq => heq.1

theorem waits_eq (h : s.Accounted) {n : Nat} (hsuspensions : s.suspensions k = n + 1) :
    s.waits k = true ↔ s.waiter = some (k, n) := by
  unfold waits
  cases hwaiter : s.waiter with
  | none => simp
  | some w =>
      obtain ⟨k', n'⟩ := w
      simp only [Option.any_some, decide_eq_true_eq, Option.some.injEq, Prod.mk.injEq]
      constructor
      · rintro rfl
        have hcurrent := (h.current k' n' (.inr hwaiter)).2
        exact ⟨rfl, by omega⟩
      · exact fun heq => heq.1

theorem remembered (h : s.Accounted) : s.Remembered := by
  intro k hphase
  obtain ⟨n, hsuspensions, hmem⟩ := h.asleep k hphase
  have honce := h.once k n
  rw [if_pos (by omega), handles, List.count_append, List.count_append,
    List.count_eq_zero_of_not_mem hmem, ← h.queued_eq hsuspensions] at honce
  cases hwaits : s.waits k with
  | true =>
      rw [(h.waits_eq hsuspensions).1 hwaits] at honce
      simp only [Option.toList_some, List.count_singleton_self] at honce
      exact .inl ⟨rfl, by omega⟩
  | false =>
      have hne : s.waiter ≠ some (k, n) := by
        intro hwaiter
        rw [(h.waits_eq hsuspensions).2 hwaiter] at hwaits
        cases hwaits
      have hnone : s.waiter.toList.count (k, n) = 0 := by
        rw [List.count_eq_zero]
        exact fun hmem => hne (Option.mem_toList.1 hmem)
      exact .inr ⟨rfl, by omega⟩

/-- Nobody sleeps with something to take and no resume on its way. -/
theorem resumes_ne_nil (h : s.Accounted) (hitems : s.items ≠ []) (hphase : s.phase k = .suspended) :
    s.resumes ≠ [] := by
  intro hresumes
  rcases h.remembered k hphase with ⟨hwaits, -⟩ | ⟨-, hqueued⟩
  · have hwaiter : s.waiter.isSome = true := by
      cases hw : s.waiter with
      | none => simp [waits, hw] at hwaits
      | some w => rfl
    exact hitems (h.awake hwaiter)
  · rw [queued, hresumes] at hqueued
    cases hqueued

theorem step (h : s.Accounted) {T : Take α} {i : Input α κ} (hfree : s.Free i)
    (hstep : s.step T i = some t) : t.Accounted := by
  cases i with
  | deliver xs =>
      rcases Option.ite_none_left_eq_some.1 hstep with ⟨-, ⟨⟩⟩
      exact h.deliver xs
  | check k =>
      rcases Option.ite_none_right_eq_some.1 hstep with ⟨hphase, ⟨⟩⟩
      exact h.check hphase
  | suspend k =>
      rcases Option.ite_none_right_eq_some.1 hstep with ⟨hphase, ⟨⟩⟩
      exact h.suspend hphase hfree
  | take k =>
      rcases Option.ite_none_right_eq_some.1 hstep with ⟨hphase, ⟨⟩⟩
      exact h.take T hphase
  | resume w =>
      rcases Option.ite_none_right_eq_some.1 hstep with ⟨hw, ⟨⟩⟩
      exact h.resume T hw

/-- A consumer that puts itself in the place of another one leaves that one forgotten. -/
theorem free_of_remembered (h : s.Accounted) {T : Take α} {i : Input α κ}
    (hstep : s.step T i = some t) (hremembered : t.Remembered) : s.Free i := by
  cases i with
  | suspend k =>
      rcases Option.ite_none_right_eq_some.1 hstep with ⟨hphase, ⟨⟩⟩
      intro hitems
      by_contra hwaiter
      obtain ⟨⟨k', n⟩, hwaiter⟩ := Option.ne_none_iff_exists'.1 hwaiter
      have hcurrent := h.current k' n (.inr hwaiter)
      have hne : k' ≠ k := by
        rintro rfl
        rw [hcurrent.1] at hphase
        cases hphase
      have hwaits : s.waits k' = true := (h.waits_eq hcurrent.2).2 hwaiter
      have hempty : s.items.isEmpty = true := List.isEmpty_iff.2 hitems
      have hbefore := h.remembered k' hcurrent.1
      simp only [hwaits, true_and, Bool.true_eq_false, false_and, or_false] at hbefore
      have hphase' : (s.suspend k).phase k' = .suspended := by
        simp [Handoff.suspend, hempty, setPhase, hne, hcurrent.1]
      have hafter := hremembered k' hphase'
      have hqueued : (s.suspend k).queued k' = s.queued k' := by
        simp [Handoff.suspend, hempty, setPhase, queued]
      have hgone : (s.suspend k).waits k' = false := by
        simp [Handoff.suspend, hempty, waits, hne.symm]
      rw [hqueued, hbefore, hgone] at hafter
      simp at hafter
  | _ => trivial

end Accounted

theorem new_accounted : (new : Handoff α κ).Accounted where
  flows := rfl
  awake := nofun
  once := fun _ _ => rfl
  current := by simp [Current, new]
  asleep := nofun
  resumed := rfl

/-! ## Any number of consumers -/

/-- Nobody is forgotten for as long as whoever waits finds nobody else waiting, and no
longer. -/
theorem remembered_iff_free (T : Take α) (is : List (Input α κ)) :
    (machine α κ T).Always Remembered new is ↔ (machine α κ T).Meets Free new is := by
  apply Machine.always_iff_meets (I := Accounted)
  · exact fun s hs => hs.remembered
  · exact fun s i t hs hfree hstep => hs.step hfree hstep
  · exact fun s i t hs hstep hremembered => hs.free_of_remembered hstep hremembered
  · exact new_accounted

/-- Every promise is of an item that is there, and nobody took nothing. -/
structure Provided (s : Handoff α κ) : Prop where
  ready : ∀ k, s.phase k = .ready → k ∈ s.promised
  queued : ∀ w ∈ s.resumes, w.1 ∈ s.promised
  enough : s.promised.length ≤ s.items.length
  full : ∀ p ∈ s.taken, p.2 ≠ []

namespace Provided

variable {s t : Handoff α κ} {k : κ}

theorem take (h : s.Provided) {T : Take α}
    (hsingle : ∀ l, l ≠ [] → (T.split l).2.length + 1 = l.length) (hk : k ∈ s.promised)
    (hqueued : ∀ w ∈ s.resumes, w.1 ≠ k) : (s.take T k).Provided := by
  have hpos : 0 < s.promised.length := List.length_pos_of_mem hk
  have henough := h.enough
  have hitems : s.items ≠ [] := by
    intro hnil
    rw [hnil, List.length_nil] at henough
    omega
  refine ⟨?_, ?_, ?_, ?_⟩
  · intro k' hphase
    have hne : k' ≠ k := by
      rintro rfl
      simp [Handoff.take, setPhase] at hphase
    apply (List.mem_erase_of_ne hne).2
    exact h.ready k' ((Function.update_of_ne hne _ _).symm.trans hphase)
  · intro w hw
    exact (List.mem_erase_of_ne (hqueued w hw)).2 (h.queued w hw)
  · show (s.promised.erase k).length ≤ (T.split s.items).2.length
    have hone := hsingle s.items hitems
    rw [List.length_erase_of_mem hk]
    omega
  · intro p hp
    rcases List.mem_append.1 hp with hold | hnew
    · exact h.full p hold
    · rw [List.mem_singleton.1 hnew]
      exact T.some s.items hitems

omit [DecidableEq κ] in
theorem tell (h : s.Provided) (w : κ × Nat) (hroom : s.promised.length < s.items.length) :
    (s.tell w).Provided := by
  refine ⟨?_, ?_, ?_, h.full⟩
  · exact fun k hphase => List.mem_append_left _ (h.ready k hphase)
  · intro w' hw'
    rcases List.mem_append.1 hw' with hold | hnew
    · exact List.mem_append_left _ (h.queued w' hold)
    · rw [List.mem_singleton.1 hnew]
      exact List.mem_append_right _ (List.mem_singleton_self _)
  · show (s.promised ++ [w.1]).length ≤ s.items.length
    rw [List.length_append]
    exact hroom

omit [DecidableEq κ] in
theorem deliver (h : s.Provided) {xs : List α} (hxs : xs ≠ []) : (s.deliver xs).Provided := by
  have henough := h.enough
  have hpos : 0 < xs.length := List.length_pos_of_ne_nil hxs
  have hmore : s.promised.length < (s.items ++ xs).length := by
    rw [List.length_append]
    omega
  have hrest : ({ s with items := s.items ++ xs, delivered := s.delivered ++ xs } :
      Handoff α κ).Provided := ⟨h.ready, h.queued, Nat.le_of_lt hmore, h.full⟩
  unfold Handoff.deliver
  dsimp only
  split
  · next w hw =>
      have hgone : ({ s with
          items := s.items ++ xs
          delivered := s.delivered ++ xs
          waiter := none } : Handoff α κ).Provided :=
        ⟨hrest.ready, hrest.queued, hrest.enough, hrest.full⟩
      exact hgone.tell w hmore
  · exact hrest

theorem setPhase (h : s.Provided) {p : Phase} (hp : p ≠ .ready) : (s.setPhase k p).Provided := by
  refine ⟨?_, h.queued, h.enough, h.full⟩
  intro k' hphase
  have hne : k' ≠ k := by
    rintro rfl
    exact hp ((Function.update_self _ _ _).symm.trans hphase)
  exact h.ready k' ((Function.update_of_ne hne _ _).symm.trans hphase)

theorem step (h : s.Provided) (haccounted : s.Accounted) {T : Take α}
    (hsingle : ∀ l, l ≠ [] → (T.split l).2.length + 1 = l.length) {i : Input α κ}
    (hunpromised : s.Unpromised i) (hstep : s.step T i = some t) : t.Provided := by
  cases i with
  | deliver xs =>
      rcases Option.ite_none_left_eq_some.1 hstep with ⟨hxs, ⟨⟩⟩
      exact h.deliver (by simpa using hxs)
  | check k =>
      rcases Option.ite_none_right_eq_some.1 hstep with ⟨hphase, ⟨⟩⟩
      unfold Handoff.check
      split
      · exact h.setPhase nofun
      · next hitems =>
          have hroom := hunpromised (by simpa using hitems)
          refine ⟨?_, ?_, ?_, h.full⟩
          · intro k' hphase'
            by_cases hk : k' = k
            · rw [hk]
              exact List.mem_append_right _ (List.mem_singleton_self _)
            · exact List.mem_append_left _
                (h.ready k' ((Function.update_of_ne hk _ _).symm.trans hphase'))
          · exact fun w hw => List.mem_append_left _ (h.queued w hw)
          · show (s.promised ++ [k]).length ≤ s.items.length
            rw [List.length_append]
            exact hroom
  | suspend k =>
      rcases Option.ite_none_right_eq_some.1 hstep with ⟨hphase, ⟨⟩⟩
      have hphase' := h.setPhase (k := k) (p := .suspended) nofun
      have hbegun : ({ s.setPhase k .suspended with
          suspensions := Function.update s.suspensions k (s.suspensions k + 1) } :
          Handoff α κ).Provided := ⟨hphase'.ready, hphase'.queued, hphase'.enough, hphase'.full⟩
      unfold Handoff.suspend
      dsimp only
      split
      · exact ⟨hbegun.ready, hbegun.queued, hbegun.enough, hbegun.full⟩
      · next hitems => exact hbegun.tell _ (hunpromised (by simpa using hitems))
  | take k =>
      rcases Option.ite_none_right_eq_some.1 hstep with ⟨hphase, ⟨⟩⟩
      apply h.take hsingle (h.ready k hphase)
      rintro ⟨k', n⟩ hw rfl
      rw [(haccounted.current k' n (.inl hw)).1] at hphase
      cases hphase
  | resume w =>
      rcases Option.ite_none_right_eq_some.1 hstep with ⟨hw, ⟨⟩⟩
      obtain ⟨k, n⟩ := w
      unfold Handoff.resume
      dsimp only
      rw [if_pos (haccounted.current k n (.inl hw))]
      apply Provided.take _ hsingle
      · exact h.queued _ hw
      · rintro ⟨k', n'⟩ hw'
        exact haccounted.other hw (.inl hw')
      · exact ⟨h.ready, fun w' hw' => h.queued w' (List.mem_of_mem_erase hw'), h.enough, h.full⟩

end Provided

/-- When nobody is told of an item that another was promised, whoever takes finds one. -/
theorem provided_of_unpromised {T : Take α}
    (hsingle : ∀ l, l ≠ [] → (T.split l).2.length + 1 = l.length) {is : List (Input α κ)}
    (hmeets : (machine α κ T).Meets (fun s i => s.Free i ∧ s.Unpromised i) new is) :
    (machine α κ T).Always (fun s => s.Accounted ∧ s.Provided) new is := by
  apply Machine.always_of_meets _ _ hmeets
  · rintro s i t ⟨haccounted, hprovided⟩ ⟨hfree, hunpromised⟩ hstep
    exact ⟨haccounted.step hfree hstep, hprovided.step haccounted hsingle hunpromised hstep⟩
  · exact ⟨new_accounted, nofun, nofun, Nat.le_refl _, nofun⟩

/-! ## One consumer -/

structure Fed (s : Handoff α κ) : Prop where
  ready : ∀ k, s.phase k = .ready → s.items ≠ []
  queued : s.resumes ≠ [] → s.items ≠ []
  full : ∀ p ∈ s.taken, p.2 ≠ []

namespace Fed

variable {s t : Handoff α κ} {k : κ}

theorem take (h : s.Fed) {T : Take α} [Subsingleton κ] (hitems : s.items ≠ [])
    (hqueued : s.resumes = []) : (s.take T k).Fed := by
  refine ⟨?_, ?_, ?_⟩
  · intro k' hphase
    rw [Subsingleton.elim k' k] at hphase
    simp [Handoff.take, setPhase] at hphase
  · exact fun hne => (hne hqueued).elim
  · intro p hp
    rcases List.mem_append.1 hp with hold | hnew
    · exact h.full p hold
    · rw [List.mem_singleton.1 hnew]
      exact T.some s.items hitems

theorem step [Subsingleton κ] (h : s.Fed) (haccounted : s.Accounted) {T : Take α}
    {i : Input α κ} (hstep : s.step T i = some t) : t.Fed := by
  cases i with
  | deliver xs =>
      rcases Option.ite_none_left_eq_some.1 hstep with ⟨hxs, ⟨⟩⟩
      have hitems : s.items ++ xs ≠ [] := by
        intro hnil
        rw [(List.append_eq_nil_iff.1 hnil).2] at hxs
        exact hxs rfl
      unfold Handoff.deliver
      dsimp only
      split <;> exact ⟨fun _ _ => hitems, fun _ => hitems, h.full⟩
  | check k =>
      rcases Option.ite_none_right_eq_some.1 hstep with ⟨hphase, ⟨⟩⟩
      unfold Handoff.check
      split
      · refine ⟨?_, h.queued, h.full⟩
        intro k' hphase'
        rw [Subsingleton.elim k' k] at hphase'
        simp [setPhase] at hphase'
      · next hitems =>
          have hitems : s.items ≠ [] := by simpa using hitems
          exact ⟨fun _ _ => hitems, fun _ => hitems, h.full⟩
  | suspend k =>
      rcases Option.ite_none_right_eq_some.1 hstep with ⟨hphase, ⟨⟩⟩
      unfold Handoff.suspend
      dsimp only
      split
      · refine ⟨?_, h.queued, h.full⟩
        intro k' hphase'
        rw [Subsingleton.elim k' k] at hphase'
        simp [setPhase] at hphase'
      · next hitems =>
          have hitems : s.items ≠ [] := by simpa using hitems
          exact ⟨fun _ _ => hitems, fun _ => hitems, h.full⟩
  | take k =>
      rcases Option.ite_none_right_eq_some.1 hstep with ⟨hphase, ⟨⟩⟩
      apply h.take (h.ready k hphase)
      apply List.eq_nil_iff_forall_not_mem.2
      rintro ⟨k', n⟩ hw
      rw [Subsingleton.elim k' k] at hw
      rw [(haccounted.current k n (.inl hw)).1] at hphase
      cases hphase
  | resume w =>
      rcases Option.ite_none_right_eq_some.1 hstep with ⟨hw, ⟨⟩⟩
      obtain ⟨k, n⟩ := w
      have hnone : s.resumes.erase (k, n) = [] := by
        apply List.eq_nil_iff_forall_not_mem.2
        rintro ⟨k', n'⟩ hw'
        exact haccounted.other hw (.inl hw') (Subsingleton.elim k' k)
      have hitems := h.queued (List.ne_nil_of_mem hw)
      unfold Handoff.resume
      dsimp only
      rw [if_pos (haccounted.current k n (.inl hw))]
      have hrest : ({ s with
          resumes := s.resumes.erase (k, n)
          resumed := s.resumed ++ [(k, n)] } : Handoff α κ).Fed :=
        ⟨h.ready, fun hne => (hne hnone).elim, h.full⟩
      exact hrest.take hitems hnone

end Fed

/-- One consumer never finds another one waiting. -/
theorem Accounted.free [Subsingleton κ] {s t : Handoff α κ} (h : s.Accounted) {T : Take α}
    {i : Input α κ} (hstep : s.step T i = some t) : s.Free i := by
  cases i with
  | suspend k =>
      rcases Option.ite_none_right_eq_some.1 hstep with ⟨hphase, -⟩
      intro hitems
      by_contra hwaiter
      obtain ⟨⟨k', n⟩, hwaiter⟩ := Option.ne_none_iff_exists'.1 hwaiter
      rw [Subsingleton.elim k' k] at hwaiter
      rw [(h.current k n (.inr hwaiter)).1] at hphase
      cases hphase
  | _ => trivial

def forget (s : Handoff α κ) : Handoff α κ := { s with promised := [] }

theorem step_fed [Subsingleton κ] {s t : Handoff α κ} {T : Take α} {i : Input α κ}
    (h : s.Accounted ∧ s.Fed) (hstep : s.step T i = some t) : t.Accounted ∧ t.Fed :=
  ⟨h.1.step (h.1.free hstep) hstep, h.2.step h.1 hstep⟩

omit [DecidableEq κ] in
theorem Fed.forget {s : Handoff α κ} (h : s.Fed) : s.forget.Fed := ⟨h.ready, h.queued, h.full⟩

theorem Accounted.forget {s : Handoff α κ} (h : s.Accounted) : s.forget.Accounted :=
  ⟨h.flows, h.awake, h.once, h.current, h.asleep, h.resumed⟩

theorem new_fed : (new : Handoff α κ).Accounted ∧ (new : Handoff α κ).Fed :=
  ⟨new_accounted, nofun, fun hne => (hne rfl).elim, nofun⟩

/-- With one consumer all goes well. -/
theorem always_fed [Subsingleton κ] (T : Take α) (is : List (Input α κ)) :
    (machine α κ T).Always (fun s => s.Accounted ∧ s.Fed) new is := by
  apply Machine.always_of_invariant
  · exact fun s i t hs hstep => step_fed hs hstep
  · exact new_fed

end Handoff
