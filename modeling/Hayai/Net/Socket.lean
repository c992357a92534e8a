import Hayai.Machine.Run
import Mathlib.Data.Finset.Basic
import Mathlib.Logic.Function.Basic

/-! # Who closes a descriptor

`Socket` closes the descriptor that it has when it is destroyed or assigned to. A descriptor
reaches it from `socket()`, from another `Socket`, or as a plain number that `accept()` has
returned and that its holder wraps or closes itself. The kernel gives out any number that is
not open, closed ones included.
-/

namespace Hayai

/-! ## The model -/

/-- `socket` has `sockfd_` of each object that exists, by its address, and `opened` the
kernel's table. `handed` are the numbers in other hands, `badClose` a `close()` of a number
that is not open. -/
structure Sockets (ω : Type) where
  socket : ω → Option Int
  opened : Finset Nat
  handed : Finset Nat
  badClose : Bool

/-- The members of `Socket` that change a descriptor's owner, and `::close` on a plain number.
`r` is the kernel's answer, `none` for a negative one. -/
inductive SocketInput (ω : Type) where
  | createTcpSocket (o : ω) (r : Option Nat)
  | wrap (o : ω) (sockfd : Int)
  | accept (o : ω) (r : Option Nat)
  | moveConstruct (o other : ω)
  | moveAssign (o other : ω)
  | destroy (o : ω)
  | rawClose (fd : Int)

namespace Sockets

variable {ω : Type} [DecidableEq ω]

def setSocket (s : Sockets ω) (o : ω) (v : Option Int) : Sockets ω :=
  { s with socket := Function.update s.socket o v }

def kernelClose (s : Sockets ω) (fd : Int) : Sockets ω :=
  if 0 ≤ fd ∧ fd.toNat ∈ s.opened then { s with opened := s.opened.erase fd.toNat }
  else { s with badClose := true }

def close (s : Sockets ω) (fd : Int) : Sockets ω := if 0 ≤ fd then s.kernelClose fd else s

def unhand (s : Sockets ω) (fd : Int) : Sockets ω :=
  if 0 ≤ fd then { s with handed := s.handed.erase fd.toNat } else s

def step (s : Sockets ω) : SocketInput ω → Option (Sockets ω)
  | .createTcpSocket o r =>
      match s.socket o, r with
      | none, none => some s
      | none, some fd =>
          if fd ∈ s.opened then none
          else some ({ s with opened := insert fd s.opened }.setSocket o (some fd))
      | some _, _ => none
  | .wrap o sockfd =>
      match s.socket o with
      | none => some ((s.unhand sockfd).setSocket o (some sockfd))
      | some _ => none
  | .accept o r =>
      match s.socket o, r with
      | none, _ => none
      | some _, none => some s
      | some sockfd, some fd =>
          if 0 ≤ sockfd ∧ sockfd.toNat ∈ s.opened ∧ fd ∉ s.opened then
            some { s with opened := insert fd s.opened, handed := insert fd s.handed }
          else none
  | .moveConstruct o other =>
      match s.socket o, s.socket other with
      | none, some sockfd => some ((s.setSocket o (some sockfd)).setSocket other (some (-1)))
      | _, _ => none
  | .moveAssign o other =>
      match s.socket o, s.socket other with
      | some mine, some sockfd =>
          if o = other then some s
          else some (((s.close mine).setSocket o (some sockfd)).setSocket other (some (-1)))
      | _, _ => none
  | .destroy o =>
      match s.socket o with
      | some sockfd => some ((s.close sockfd).setSocket o none)
      | none => none
  | .rawClose fd => some ((s.kernelClose fd).unhand fd)

def machine (ω : Type) [DecidableEq ω] : Machine (Sockets ω) (SocketInput ω) := ⟨step⟩

omit [DecidableEq ω] in
/-- No object yet; the descriptors that are open are in other hands. -/
def start (opened : Finset Nat) : Sockets ω := ⟨fun _ => none, opened, opened, false⟩

omit [DecidableEq ω] in
/-- What is wrapped, or closed by hand, is in other hands. -/
def Proper (s : Sockets ω) : SocketInput ω → Prop
  | .wrap _ sockfd => 0 ≤ sockfd → sockfd.toNat ∈ s.handed
  | .rawClose fd => 0 ≤ fd ∧ fd.toNat ∈ s.handed
  | _ => True

omit [DecidableEq ω] in
/-- An open descriptor is in other hands or has one socket, and no other number is ever
closed. -/
structure Owned (s : Sockets ω) : Prop where
  opened : ∀ o (fd : Nat), s.socket o = some (fd : Int) → fd ∈ s.opened ∧ fd ∉ s.handed
  unique : ∀ o p (fd : Nat), s.socket o = some (fd : Int) → s.socket p = some (fd : Int) → o = p
  handed : s.handed ⊆ s.opened
  all : ∀ fd ∈ s.opened, fd ∈ s.handed ∨ ∃ o, s.socket o = some (fd : Int)
  closed : s.badClose = false

/-! ## One owner at a time -/

variable {s t : Sockets ω}

def Vacant (v : Option Int) : Prop := ∀ fd : Nat, v ≠ some (fd : Int)

theorem vacant_none : Vacant none := fun _ => nofun

theorem vacant_of_neg {fd : Int} (h : ¬0 ≤ fd) : Vacant (some fd) := by
  intro n hn
  cases hn
  exact h (Int.natCast_nonneg n)

theorem socket_setSocket (s : Sockets ω) (o : ω) (v : Option Int) (p : ω) :
    (s.setSocket o v).socket p = if p = o then v else s.socket p :=
  Function.update_apply ..

theorem Owned.vacate (h : s.Owned) {o : ω} (ho : Vacant (s.socket o)) {v : Option Int}
    (hv : Vacant v) : (s.setSocket o v).Owned := by
  have hsame : ∀ p (fd : Nat), (s.setSocket o v).socket p = some (fd : Int) ↔
      s.socket p = some (fd : Int) := by
    intro p fd
    rw [socket_setSocket]
    split
    · rename_i hp
      subst hp
      exact iff_of_false (hv fd) (ho fd)
    · exact Iff.rfl
  refine ⟨?_, ?_, h.handed, ?_, h.closed⟩
  · intro p fd hp
    exact h.opened p fd ((hsame p fd).1 hp)
  · intro p q fd hp hq
    exact h.unique p q fd ((hsame p fd).1 hp) ((hsame q fd).1 hq)
  · intro fd hfd
    exact (h.all fd hfd).imp_right fun ⟨p, hp⟩ => ⟨p, (hsame p fd).2 hp⟩

theorem Owned.give (h : s.Owned) {o : ω} (ho : Vacant (s.socket o)) {fd : Nat}
    (hfd : fd ∈ s.handed) :
    ({ s with handed := s.handed.erase fd }.setSocket o (some (fd : Int))).Owned := by
  have hfree : ∀ p, s.socket p ≠ some (fd : Int) := fun p hp => (h.opened p fd hp).2 hfd
  constructor
  · intro p n hp
    rw [socket_setSocket] at hp
    split at hp
    · cases hp
      exact ⟨h.handed hfd, Finset.notMem_erase fd s.handed⟩
    · exact ⟨(h.opened p n hp).1, fun hn => (h.opened p n hp).2 (Finset.mem_of_mem_erase hn)⟩
  · intro p q n hp hq
    rw [socket_setSocket] at hp hq
    split at hp
    · rename_i hpo
      cases hp
      split at hq
      · rename_i hqo
        exact hpo.trans hqo.symm
      · exact (hfree q hq).elim
    · split at hq
      · cases hq
        exact (hfree p hp).elim
      · exact h.unique p q n hp hq
  · exact (Finset.erase_subset fd s.handed).trans h.handed
  · intro n hn
    by_cases hnfd : n = fd
    · subst hnfd
      exact .inr ⟨o, by rw [socket_setSocket, if_pos rfl]⟩
    · rcases h.all n hn with hhanded | ⟨p, hp⟩
      · exact .inl (Finset.mem_erase.2 ⟨hnfd, hhanded⟩)
      · refine .inr ⟨p, ?_⟩
        rw [socket_setSocket, if_neg]
        · exact hp
        · rintro rfl
          exact ho n hp
  · exact h.closed

omit [DecidableEq ω] in
theorem Owned.opens (h : s.Owned) {fd : Nat} (hfd : fd ∉ s.opened) :
    ({ s with opened := insert fd s.opened, handed := insert fd s.handed } : Sockets ω).Owned := by
  refine ⟨?_, h.unique, Finset.insert_subset_insert fd h.handed, ?_, h.closed⟩
  · intro p n hp
    rcases h.opened p n hp with ⟨hopened, hhanded⟩
    refine ⟨Finset.mem_insert_of_mem hopened, fun hn => ?_⟩
    rcases Finset.mem_insert.1 hn with rfl | hn
    · exact hfd hopened
    · exact hhanded hn
  · intro n hn
    rcases Finset.mem_insert.1 hn with rfl | hn
    · exact .inl (Finset.mem_insert_self n s.handed)
    · exact (h.all n hn).imp_left Finset.mem_insert_of_mem

theorem Owned.take (h : s.Owned) {o : ω} {fd : Nat} (ho : s.socket o = some (fd : Int))
    {v : Option Int} (hv : Vacant v) :
    ({ s with handed := insert fd s.handed }.setSocket o v).Owned := by
  have hback : ∀ p (n : Nat), (s.setSocket o v).socket p = some (n : Int) →
      p ≠ o ∧ s.socket p = some (n : Int) := by
    intro p n hp
    rw [socket_setSocket] at hp
    split at hp
    · exact (hv n hp).elim
    · rename_i hpo
      exact ⟨hpo, hp⟩
  constructor
  · intro p n hp
    rcases hback p n hp with ⟨hpo, hp'⟩
    rcases h.opened p n hp' with ⟨hopened, hhanded⟩
    refine ⟨hopened, fun hn => ?_⟩
    rcases Finset.mem_insert.1 hn with rfl | hn
    · exact hpo (h.unique p o n hp' ho)
    · exact hhanded hn
  · intro p q n hp hq
    exact h.unique p q n (hback p n hp).2 (hback q n hq).2
  · intro n hn
    rcases Finset.mem_insert.1 hn with rfl | hn
    · exact (h.opened o n ho).1
    · exact h.handed hn
  · intro n hn
    by_cases hnfd : n = fd
    · subst hnfd
      exact .inl (Finset.mem_insert_self n s.handed)
    · refine (h.all n hn).imp Finset.mem_insert_of_mem ?_
      rintro ⟨p, hp⟩
      refine ⟨p, ?_⟩
      show (s.setSocket o v).socket p = _
      rw [socket_setSocket, if_neg]
      · exact hp
      · rintro rfl
        rw [ho] at hp
        cases hp
        exact hnfd rfl
  · exact h.closed

omit [DecidableEq ω] in
theorem Owned.shut (h : s.Owned) {fd : Nat} (hfd : fd ∈ s.handed) :
    ({ s with opened := s.opened.erase fd, handed := s.handed.erase fd } : Sockets ω).Owned := by
  refine ⟨?_, h.unique, Finset.erase_subset_erase fd h.handed, ?_, h.closed⟩
  · intro p n hp
    rcases h.opened p n hp with ⟨hopened, hhanded⟩
    refine ⟨Finset.mem_erase.2 ⟨?_, hopened⟩, fun hn => hhanded (Finset.mem_of_mem_erase hn)⟩
    rintro rfl
    exact hhanded hfd
  · intro n hn
    rcases Finset.mem_erase.1 hn with ⟨hne, hn⟩
    exact (h.all n hn).imp_left fun hhanded => Finset.mem_erase.2 ⟨hne, hhanded⟩

theorem setSocket_setSocket (s : Sockets ω) (o : ω) (v w : Option Int) :
    (s.setSocket o v).setSocket o w = s.setSocket o w := by
  simp [setSocket, Function.update_idem]

theorem Owned.release (h : s.Owned) {o : ω} {sockfd : Int} (ho : s.socket o = some sockfd)
    {v : Option Int} (hv : Vacant v) : ((s.close sockfd).setSocket o v).Owned := by
  by_cases hneg : 0 ≤ sockfd
  · obtain ⟨fd, rfl⟩ := Int.eq_ofNat_of_zero_le hneg
    rcases h.opened o fd ho with ⟨hopened, hhanded⟩
    have hshut := (h.take ho hv).shut (Finset.mem_insert_self fd s.handed)
    have hclose : (s.close fd).setSocket o v =
        { s with opened := s.opened.erase fd, handed := (insert fd s.handed).erase fd }.setSocket
          o v := by
      rw [Finset.erase_insert hhanded]
      simp [close, kernelClose, hopened]
    rw [hclose]
    exact hshut
  · rw [close, if_neg hneg]
    exact h.vacate (ho ▸ vacant_of_neg hneg) hv

/-- A descriptor passes from one object to another. -/
theorem Owned.move (h : s.Owned) {o other : ω} {sockfd : Int} (ho : Vacant (s.socket o))
    (hother : s.socket other = some sockfd) (hne : o ≠ other) :
    ((s.setSocket o (some sockfd)).setSocket other (some (-1))).Owned := by
  have hminus : Vacant (some (-1)) := vacant_of_neg (by decide)
  by_cases hneg : 0 ≤ sockfd
  · obtain ⟨fd, rfl⟩ := Int.eq_ofNat_of_zero_le hneg
    have hhanded := (h.opened other fd hother).2
    have htake := h.take hother hminus
    have hvacant : Vacant (({ s with handed := insert fd s.handed }.setSocket other
        (some (-1))).socket o) := by
      rw [socket_setSocket, if_neg hne]
      exact ho
    have hgive := htake.give hvacant (Finset.mem_insert_self fd s.handed)
    have hmove : (s.setSocket o (some (fd : Int))).setSocket other (some (-1)) =
        { s with
          handed := (insert fd s.handed).erase fd
          socket := Function.update (Function.update s.socket other (some (-1))) o
            (some (fd : Int)) } := by
      rw [Finset.erase_insert hhanded, Function.update_comm hne.symm]
      rfl
    rw [hmove]
    exact hgive
  · have hmoved := h.vacate ho (vacant_of_neg hneg)
    refine hmoved.vacate ?_ hminus
    rw [socket_setSocket, if_neg hne.symm, hother]
    exact vacant_of_neg hneg

/-! ## Steps -/

omit [DecidableEq ω] in
theorem start_owned (opened : Finset Nat) : (start opened : Sockets ω).Owned :=
  ⟨nofun, nofun, Finset.Subset.refl opened, fun _ hfd => .inl hfd, rfl⟩

theorem step_owned {i : SocketInput ω} (h : s.Owned) (hproper : s.Proper i)
    (hstep : s.step i = some t) : t.Owned := by
  cases i with
  | createTcpSocket o r =>
      cases ho : s.socket o with
      | some sockfd => simp [step, ho] at hstep
      | none =>
          cases r with
          | none =>
              simp only [step, ho, Option.some.injEq] at hstep
              exact hstep ▸ h
          | some fd =>
              simp only [step, ho] at hstep
              split at hstep
              · cases hstep
              · rename_i hfresh
                cases hstep
                have hhanded : fd ∉ s.handed := fun hmem => hfresh (h.handed hmem)
                have hgive := (h.opens hfresh).give (o := o) (ho ▸ vacant_none)
                  (Finset.mem_insert_self fd s.handed)
                simpa [setSocket, Finset.erase_insert hhanded] using hgive
  | wrap o sockfd =>
      cases ho : s.socket o with
      | some fd => simp [step, ho] at hstep
      | none =>
          simp only [step, ho, Option.some.injEq] at hstep
          subst hstep
          by_cases hneg : 0 ≤ sockfd
          · obtain ⟨fd, rfl⟩ := Int.eq_ofNat_of_zero_le hneg
            rw [unhand, if_pos hneg]
            exact h.give (ho ▸ vacant_none) (hproper hneg)
          · rw [unhand, if_neg hneg]
            exact h.vacate (ho ▸ vacant_none) (vacant_of_neg hneg)
  | accept o r =>
      cases ho : s.socket o with
      | none => simp [step, ho] at hstep
      | some sockfd =>
          cases r with
          | none =>
              simp only [step, ho, Option.some.injEq] at hstep
              exact hstep ▸ h
          | some fd =>
              simp only [step, ho] at hstep
              rcases Option.ite_none_right_eq_some.1 hstep with ⟨⟨-, -, hfresh⟩, ⟨⟩⟩
              exact h.opens hfresh
  | moveConstruct o other =>
      simp only [step] at hstep
      split at hstep
      · rename_i sockfd ho hother
        cases hstep
        apply h.move (ho ▸ vacant_none) hother
        rintro rfl
        rw [ho] at hother
        cases hother
      · cases hstep
  | moveAssign o other =>
      simp only [step] at hstep
      split at hstep
      · rename_i mine sockfd ho hother
        split at hstep
        · cases hstep
          exact h
        · rename_i hne
          cases hstep
          have hminus : Vacant (some (-1)) := vacant_of_neg (by decide)
          have hreleased := h.release ho hminus
          have hvacant : Vacant (((s.close mine).setSocket o (some (-1))).socket o) := by
            rw [socket_setSocket, if_pos rfl]
            exact hminus
          have hstill : ((s.close mine).setSocket o (some (-1))).socket other = some sockfd := by
            rw [socket_setSocket, if_neg (Ne.symm hne), ← hother]
            unfold close kernelClose
            split
            · split <;> rfl
            · rfl
          have hmoved := hreleased.move hvacant hstill hne
          rw [setSocket_setSocket] at hmoved
          exact hmoved
      · cases hstep
  | destroy o =>
      simp only [step] at hstep
      split at hstep
      · rename_i sockfd ho
        cases hstep
        exact h.release ho vacant_none
      · cases hstep
  | rawClose fd =>
      cases hstep
      rcases hproper with ⟨hneg, hhanded⟩
      obtain ⟨n, rfl⟩ := Int.eq_ofNat_of_zero_le hneg
      have hopened : n ∈ s.opened := h.handed hhanded
      have hshut := h.shut hhanded
      simpa [kernelClose, unhand, hopened] using hshut

/-- A number that is wrapped or closed out of turn has another owner then, or none. -/
theorem proper_of_owned {i : SocketInput ω} (h : s.Owned) (hstep : s.step i = some t)
    (ht : t.Owned) : s.Proper i := by
  cases i with
  | wrap o sockfd =>
      intro hneg
      obtain ⟨fd, rfl⟩ := Int.eq_ofNat_of_zero_le hneg
      cases ho : s.socket o with
      | some sockfd => simp [step, ho] at hstep
      | none =>
          simp only [step, ho, Option.some.injEq, unhand, if_pos hneg] at hstep
          subst hstep
          have hnow : ({ s with handed := s.handed.erase fd }.setSocket o
              (some (fd : Int))).socket o = some (fd : Int) := by
            rw [socket_setSocket, if_pos rfl]
          have hopened : fd ∈ s.opened := (ht.opened o fd hnow).1
          rcases h.all fd hopened with hhanded | ⟨p, hp⟩
          · exact hhanded
          · -- Somebody else has the descriptor already.
            have hpo : p ≠ o := by
              rintro rfl
              rw [ho] at hp
              cases hp
            refine (hpo (ht.unique p o fd ?_ hnow)).elim
            show (Function.update s.socket o (some (fd : Int))) p = some (fd : Int)
            rw [Function.update_of_ne hpo]
            exact hp
  | rawClose fd =>
      cases hstep
      by_cases hopen : 0 ≤ fd ∧ fd.toNat ∈ s.opened
      · refine ⟨hopen.1, ?_⟩
        rcases h.all fd.toNat hopen.2 with hhanded | ⟨p, hp⟩
        · exact hhanded
        · have hgone := (ht.opened p fd.toNat (by simpa [kernelClose, hopen, unhand] using hp)).1
          simp [kernelClose, hopen, unhand] at hgone
      · have hbad := ht.closed
        simp only [kernelClose, if_neg hopen, unhand] at hbad
        split at hbad <;> cases hbad
  | _ => trivial

/-- Every descriptor has one owner, which closes it once and closes no other, in every run
that wraps and closes by hand only what is in other hands, and in no other. -/
theorem descriptors_owned_iff (opened : Finset Nat) (is : List (SocketInput ω)) :
    (machine ω).Always Owned (start opened) is ↔ (machine ω).Meets Proper (start opened) is := by
  apply Machine.always_iff_meets (I := Owned)
  · exact fun s hs => hs
  · exact fun s i t hs hproper hstep => step_owned hs hproper hstep
  · exact fun s i t hs hstep ht => proper_of_owned hs hstep ht
  · exact start_owned opened

end Sockets

end Hayai
