import Hayai.Coro.TaskHeap

/-! # Every frame has one owner

A frame that exists has its handle in one object, or is about to be destroyed. The frames under
way form a stack: each is awaited by the one below through an object, or run by a `get()` that
the one below has called on an object. As long as those objects keep their handles, control
comes back through them.
-/

namespace Hayai

def handles (objects : List TaskObject) : List Nat := objects.filterMap (·.handle)

theorem handles_cons (a : TaskObject) (objects : List TaskObject) :
    handles (a :: objects) = a.handle.toList ++ handles objects := by
  rcases a with ⟨id, home, _ | h⟩ <;> rfl

theorem handles_erase {objects : List TaskObject} {a : TaskObject} (ha : a ∈ objects) :
    (a.handle.toList ++ handles (objects.erase a)).Perm (handles objects) := by
  rw [← handles_cons]
  exact (List.perm_cons_erase ha).symm.filterMap _

theorem mem_handles {objects : List TaskObject} {h : Nat} :
    h ∈ handles objects ↔ ∃ a ∈ objects, a.handle = some h :=
  List.mem_filterMap

/-! ## The ledger -/

/-- The frames that exist are those with a holder and those that are dying, each once; all
others of those created were destroyed, each once and not while it ran. -/
structure Ledger (objects : List TaskObject) (dying : List Nat)
    (frames : Nat → Option OwnedFrame) (created : Nat) (destroyed : List (Nat × TaskPhase)) :
    Prop where
  nodup : (handles objects ++ dying).Nodup
  mem : ∀ h, h ∈ handles objects ++ dying ↔ (frames h).isSome
  below : ∀ h, (frames h).isSome → h < created
  past : ∀ d ∈ destroyed, d.1 < created
  once : (destroyed.map Prod.fst).Nodup
  gone : ∀ d ∈ destroyed, frames d.1 = none
  all : ∀ n < created, (frames n).isSome ∨ n ∈ destroyed.map Prod.fst
  asleep : ∀ d ∈ destroyed, d.2 ≠ .running

namespace Ledger

variable {objects objects' : List TaskObject} {dying dying' : List Nat}
  {frames frames' : Nat → Option OwnedFrame} {created : Nat} {destroyed : List (Nat × TaskPhase)}

/-- Handles move from one object to another, or to the frames that are dying. -/
theorem moved (l : Ledger objects dying frames created destroyed)
    (hperm : (handles objects' ++ dying').Perm (handles objects ++ dying)) :
    Ledger objects' dying' frames created destroyed :=
  { l with
    nodup := hperm.nodup_iff.2 l.nodup
    mem := fun h => hperm.mem_iff.trans (l.mem h) }

theorem reframed (l : Ledger objects dying frames created destroyed)
    (same : ∀ h, (frames' h).isSome = (frames h).isSome) :
    Ledger objects dying frames' created destroyed where
  nodup := l.nodup
  mem h := by rw [same]; exact l.mem h
  below h hh := l.below h (by rwa [← same])
  past := l.past
  once := l.once
  gone d hd := by
    have hnone := same d.1
    rw [l.gone d hd] at hnone
    simpa using hnone
  all n hn := by rw [same]; exact l.all n hn
  asleep := l.asleep

theorem create (l : Ledger objects dying frames created destroyed) (named : Nat)
    (home : Option Nat) (f : OwnedFrame) :
    Ledger (⟨named, home, some created⟩ :: objects) dying
      (Function.update frames created (some f)) (created + 1) destroyed := by
  have hfresh : created ∉ handles objects ++ dying := fun hmem =>
    Nat.lt_irrefl _ (l.below _ ((l.mem _).1 hmem))
  have hold : ∀ {x}, x ≠ created → Function.update frames created (some f) x = frames x :=
    fun hx => Function.update_of_ne hx ..
  constructor
  · rw [handles_cons]
    exact List.nodup_cons.2 ⟨hfresh, l.nodup⟩
  · intro x
    rw [handles_cons, List.append_assoc, List.mem_append, l.mem]
    by_cases hx : x = created
    · subst hx
      simp
    · rw [hold hx]
      simp [hx]
  · intro x hx
    by_cases hxc : x = created
    · omega
    · rw [hold hxc] at hx
      exact Nat.lt_succ_of_lt (l.below x hx)
  · exact fun d hd => Nat.lt_succ_of_lt (l.past d hd)
  · exact l.once
  · intro d hd
    rw [hold (Nat.ne_of_lt (l.past d hd))]
    exact l.gone d hd
  · intro n hn
    by_cases hnc : n = created
    · subst hnc
      simp
    · rw [hold hnc]
      exact l.all n (by omega)
  · exact l.asleep

/-- A frame that does not run is destroyed, and the frames of its objects are next. -/
theorem destroy {h : Nat} {rest : List Nat} {f : OwnedFrame}
    (l : Ledger objects (h :: rest) frames created destroyed) (hf : frames h = some f)
    (hrun : f.phase ≠ .running) :
    Ledger (objects.filter (·.home ≠ some h))
      ((objects.filter (·.home = some h)).filterMap (·.handle) ++ rest)
      (Function.update frames h none) created (destroyed ++ [(h, f.phase)]) := by
  have hsplit : (handles (objects.filter (·.home ≠ some h)) ++
      (objects.filter (·.home = some h)).filterMap (·.handle)).Perm (handles objects) := by
    have hparts := List.filter_append_perm (fun a : TaskObject => decide (a.home = some h)) objects
    have hperm := (List.perm_append_comm.trans hparts).filterMap (·.handle)
    rw [List.filterMap_append] at hperm
    simpa [handles] using hperm
  have hperm : (h :: (handles (objects.filter (·.home ≠ some h)) ++
      ((objects.filter (·.home = some h)).filterMap (·.handle) ++ rest))).Perm
        (handles objects ++ h :: rest) := by
    rw [← List.append_assoc]
    exact ((hsplit.append_right rest).cons h).trans List.perm_middle.symm
  have hnodup := List.nodup_cons.1 (hperm.nodup_iff.2 l.nodup)
  have hother : ∀ {x}, x ≠ h → Function.update frames h none x = frames x :=
    fun hx => Function.update_of_ne hx ..
  have hlt : h < created := l.below h (by rw [hf]; rfl)
  constructor
  · exact hnodup.2
  · intro x
    by_cases hx : x = h
    · subst hx
      exact iff_of_false hnodup.1 (by simp)
    · rw [hother hx, ← l.mem, ← hperm.mem_iff, List.mem_cons]
      simp [hx]
  · intro x hx
    by_cases hxh : x = h
    · rw [hxh]
      exact hlt
    · rw [hother hxh] at hx
      exact l.below x hx
  · intro d hd
    rcases List.mem_append.1 hd with hd | hd
    · exact l.past d hd
    · rw [List.mem_singleton.1 hd]
      exact hlt
  · rw [List.map_append, List.nodup_append]
    refine ⟨l.once, by simp, ?_⟩
    rintro x hx y hy rfl
    obtain ⟨d, hd, rfl⟩ := List.mem_map.1 hx
    have hdh : d.1 = h := by simpa using hy
    have hgone := l.gone d hd
    rw [hdh, hf] at hgone
    cases hgone
  · intro d hd
    by_cases hdh : d.1 = h
    · rw [hdh, Function.update_self]
    · rw [hother hdh]
      rcases List.mem_append.1 hd with hd | hd
      · exact l.gone d hd
      · rw [List.mem_singleton.1 hd] at hdh
        exact absurd rfl hdh
  · intro n hn
    rw [List.map_append, List.mem_append]
    by_cases hnh : n = h
    · right
      right
      simp [hnh]
    · rw [hother hnh]
      rcases l.all n hn with hlive | hdestroyed
      · exact .inl hlive
      · exact .inr (.inl hdestroyed)
  · intro d hd
    rcases List.mem_append.1 hd with hd | hd
    · exact l.asleep d hd
    · rw [List.mem_singleton.1 hd]
      exact hrun

end Ledger

/-! ## Objects by their number -/

def Holds (objects : List TaskObject) (o h : Nat) : Prop :=
  ∃ a ∈ objects, a.id = o ∧ a.handle = some h

structure Numbering (objects : List TaskObject) (named : Nat) : Prop where
  nodup : (objects.map (·.id)).Nodup
  below : ∀ a ∈ objects, a.id < named

namespace Numbering

variable {objects objects' : List TaskObject} {named : Nat} {a b : TaskObject}

theorem unique (n : Numbering objects named) (ha : a ∈ objects) (hb : b ∈ objects)
    (hid : a.id = b.id) : a = b :=
  List.inj_on_of_nodup_map n.nodup ha hb hid

theorem moved (n : Numbering objects named)
    (hperm : (objects'.map (·.id)).Perm (objects.map (·.id))) : Numbering objects' named where
  nodup := hperm.nodup_iff.2 n.nodup
  below := by
    intro a ha
    obtain ⟨b, hb, hid⟩ := List.mem_map.1 (hperm.mem_iff.1 (List.mem_map_of_mem ha))
    rw [← hid]
    exact n.below b hb

theorem replace (n : Numbering objects named) (ha : a ∈ objects) (handle : Option Nat) :
    Numbering ({ a with handle } :: objects.erase a) named :=
  n.moved ((List.perm_cons_erase ha).symm.map (·.id))

theorem sublist (n : Numbering objects named) (hsub : objects'.Sublist objects) :
    Numbering objects' named where
  nodup := n.nodup.sublist (hsub.map _)
  below a ha := n.below a (hsub.subset ha)

theorem cons (n : Numbering objects named) (home handle : Option Nat) :
    Numbering (⟨named, home, handle⟩ :: objects) (named + 1) where
  nodup := by
    rw [List.map_cons, List.nodup_cons]
    refine ⟨fun hmem => ?_, n.nodup⟩
    obtain ⟨b, hb, hid⟩ := List.mem_map.1 hmem
    exact Nat.ne_of_lt (n.below b hb) hid
  below := by
    intro b hb
    rcases List.mem_cons.1 hb with rfl | hb
    · exact Nat.lt_succ_self named
    · exact Nat.lt_succ_of_lt (n.below b hb)

theorem find?_eq (n : Numbering objects named) (ha : a ∈ objects) :
    objects.find? (·.id = a.id) = some a := by
  rcases hfind : objects.find? (·.id = a.id) with _ | b
  · rw [List.find?_eq_none] at hfind
    exact (hfind a ha (decide_eq_true rfl)).elim
  · have hid : b.id = a.id := by simpa using List.find?_some hfind
    rw [hfind, n.unique (List.mem_of_find?_eq_some hfind) ha hid]

end Numbering

/-! ## The frames under way -/

/-- The stack of frames under way, with the one that is up first: it is in that phase. A frame
is awaited by the one below through an object, or is run by a `get()` on an object that was
called from outside or by the frame below, which runs. -/
inductive Active (objects : List TaskObject) (frames : Nat → Option OwnedFrame) :
    TaskPhase → Option Nat → List TaskCall → List Nat → Prop where
  | main {phase : TaskPhase} : Active objects frames phase none [] []
  | awaited {phase : TaskPhase} {c p o : Nat} {calls : List TaskCall} {act : List Nat}
      (frame : frames c = some ⟨phase, some p⟩) (held : Holds objects o c) (fresh : c ∉ act)
      (rest : Active objects frames (.awaiting o) (some p) calls act) :
      Active objects frames phase (some c) calls (c :: act)
  | gotten {phase : TaskPhase} {g o : Nat} {caller : Option Nat} {calls : List TaskCall}
      {act : List Nat} (frame : frames g = some ⟨phase, none⟩) (held : Holds objects o g)
      (fresh : g ∉ act) (rest : Active objects frames .running caller calls act) :
      Active objects frames phase (some g) (⟨o, caller, false⟩ :: calls) (g :: act)

namespace Active

variable {objects objects' : List TaskObject} {frames frames' : Nat → Option OwnedFrame}
  {phase : TaskPhase} {e : Option Nat} {calls : List TaskCall} {act : List Nat}

/-- What happens to other frames and other objects does not concern the stack. -/
theorem congr (h : Active objects frames phase e calls act)
    (hframes : ∀ x ∈ act, frames' x = frames x)
    (hobjects : ∀ a ∈ objects, ∀ x ∈ act, a.handle = some x → a ∈ objects') :
    Active objects' frames' phase e calls act := by
  induction h with
  | main => exact .main
  | @awaited _ c p o calls act frame held fresh rest ih =>
      have hrest := ih (fun x hx => hframes x (List.mem_cons_of_mem c hx))
        fun a ha x hx => hobjects a ha x (List.mem_cons_of_mem c hx)
      rcases held with ⟨a, ha, hid, hhandle⟩
      have hmem := hobjects a ha c List.mem_cons_self hhandle
      exact .awaited ((hframes c List.mem_cons_self).trans frame) ⟨a, hmem, hid, hhandle⟩ fresh
        hrest
  | @gotten _ g o caller calls act frame held fresh rest ih =>
      have hrest := ih (fun x hx => hframes x (List.mem_cons_of_mem g hx))
        fun a ha x hx => hobjects a ha x (List.mem_cons_of_mem g hx)
      rcases held with ⟨a, ha, hid, hhandle⟩
      have hmem := hobjects a ha g List.mem_cons_self hhandle
      exact .gotten ((hframes g List.mem_cons_self).trans frame) ⟨a, hmem, hid, hhandle⟩ fresh
        hrest

theorem live (h : Active objects frames phase e calls act) : ∀ x ∈ act, (frames x).isSome := by
  induction h with
  | main => exact nofun
  | awaited frame held fresh rest ih =>
      intro x hx
      rcases List.mem_cons.1 hx with rfl | hx
      · rw [frame]
        rfl
      · exact ih x hx
  | gotten frame held fresh rest ih =>
      intro x hx
      rcases List.mem_cons.1 hx with rfl | hx
      · rw [frame]
        rfl
      · exact ih x hx

/-- The frame that is up is awaited by the next one, or run by a `get()`. -/
theorem top {c : Nat} (h : Active objects frames phase (some c) calls act) :
    ∃ act', act = c :: act' ∧ c ∉ act' ∧
      ((∃ p o, frames c = some ⟨phase, some p⟩ ∧ Holds objects o c ∧
          Active objects frames (.awaiting o) (some p) calls act') ∨
        ∃ o caller calls', calls = ⟨o, caller, false⟩ :: calls' ∧
          frames c = some ⟨phase, none⟩ ∧ Holds objects o c ∧
            Active objects frames .running caller calls' act') := by
  cases h with
  | @awaited _ _ p o _ act' frame held fresh rest =>
      exact ⟨act', rfl, fresh, .inl ⟨p, o, frame, held, rest⟩⟩
  | @gotten _ _ o caller calls' act' frame held fresh rest =>
      exact ⟨act', rfl, fresh, .inr ⟨o, caller, calls', rfl, frame, held, rest⟩⟩

theorem setOther (h : Active objects frames phase e calls act) {c : Nat} (hc : c ∉ act)
    (f : Option OwnedFrame) : Active objects (Function.update frames c f) phase e calls act := by
  refine h.congr (fun x hx => Function.update_of_ne ?_ ..) fun a ha _ _ _ => ha
  rintro rfl
  exact hc hx

theorem setTop {c : Nat} (h : Active objects frames phase (some c) calls act) :
    ∃ continuation, frames c = some ⟨phase, continuation⟩ ∧ ∀ phase' : TaskPhase,
      Active objects (Function.update frames c (some ⟨phase', continuation⟩)) phase' (some c)
        calls act := by
  cases h with
  | awaited frame held fresh rest =>
      exact ⟨_, frame, fun _ => .awaited (Function.update_self ..) held fresh (rest.setOther fresh _)⟩
  | gotten frame held fresh rest =>
      exact ⟨_, frame, fun _ => .gotten (Function.update_self ..) held fresh (rest.setOther fresh _)⟩

/-- The frames below the one that is up run, in a nested `get()`, or await. -/
theorem underWay {s : TaskHeap} (h : Active objects s.frames phase e calls act)
    (hphase : phase ≠ .initial ∧ phase ≠ .final) : ∀ x ∈ act, s.UnderWay x := by
  induction h with
  | main => exact nofun
  | awaited frame held fresh rest ih =>
      intro x hx
      rcases List.mem_cons.1 hx with rfl | hx
      · exact ⟨_, frame, hphase⟩
      · exact ih ⟨nofun, nofun⟩ x hx
  | gotten frame held fresh rest ih =>
      intro x hx
      rcases List.mem_cons.1 hx with rfl | hx
      · exact ⟨_, frame, hphase⟩
      · exact ih ⟨nofun, nofun⟩ x hx

theorem called {c : TaskCall} {calls' : List TaskCall}
    (h : Active objects frames phase e calls act) (hcalls : calls = c :: calls') :
    c.detach = false ∧ ∃ g ∈ act, Holds objects c.object g := by
  induction h with
  | main => cases hcalls
  | awaited frame held fresh rest ih =>
      rcases ih hcalls with ⟨hdetach, g, hg, hholds⟩
      exact ⟨hdetach, g, List.mem_cons_of_mem _ hg, hholds⟩
  | gotten frame held fresh rest ih =>
      cases hcalls
      exact ⟨rfl, _, List.mem_cons_self, held⟩

end Active

/-! ## The invariant -/

namespace TaskHeap

/-- Frames that are not in the list have not begun or are done. The frames that are dying take
none in it with them, nor an object that is being assigned. -/
structure Kept (s : TaskHeap) (act : List Nat) : Prop where
  ledger : Ledger s.objects s.dying s.frames s.created s.destroyed
  numbering : Numbering s.objects s.named
  defined : s.fault = false
  others : ∀ h f, s.frames h = some f → h ∉ act → f = ⟨.initial, none⟩ ∨ f.phase = .final
  spared : ∀ d ∈ s.dying, ∀ h, s.Takes d h → h ∉ act
  assigning : ∀ p, s.assigning = some p → ∃ a ∈ s.objects, ∃ b ∈ s.objects,
    a.id = p.1 ∧ b.id = p.2 ∧ a.id ≠ b.id ∧ a.handle = none ∧ (∀ h ∈ act, b.handle ≠ some h) ∧
      ∀ d ∈ s.dying, ∀ h, s.Takes d h → a.home ≠ some h ∧ b.home ≠ some h

/-- The code of the frame on top of the stack is up, or the innermost `get()` is about to look
at its frame; no destructor runs then. -/
inductive Runs (s : TaskHeap) : List Nat → Prop where
  | code {e : Option Nat} {act : List Nat} (turn : s.turn = .code e)
      (active : Active s.objects s.frames .running e s.calls act) : Runs s act
  | inside {g o : Nat} {f : OwnedFrame} {caller : Option Nat} {calls : List TaskCall}
      {act : List Nat} (turn : s.turn = .inside) (dying : s.dying = [])
      (assigning : s.assigning = none) (called : s.calls = ⟨o, caller, false⟩ :: calls)
      (held : Holds s.objects o g) (frame : s.frames g = some f)
      (phase : f = ⟨.initial, none⟩ ∨ f = ⟨.leaf, none⟩ ∨ f.phase = .final) (fresh : g ∉ act)
      (active : Active s.objects s.frames .running caller calls act) : Runs s (g :: act)

variable {s t : TaskHeap} {act : List Nat}

/-- While no destructor runs, the invariant is the ledger and the phases. -/
theorem Kept.of_calm (hdying : s.dying = []) (hassigning : s.assigning = none)
    (ledger : Ledger s.objects s.dying s.frames s.created s.destroyed)
    (numbering : Numbering s.objects s.named) (defined : s.fault = false)
    (others : ∀ h f, s.frames h = some f → h ∉ act → f = ⟨.initial, none⟩ ∨ f.phase = .final) :
    s.Kept act where
  ledger := ledger
  numbering := numbering
  defined := defined
  others := others
  spared d hd := by
    rw [hdying] at hd
    cases hd
  assigning p hp := by
    rw [hassigning] at hp
    cases hp

theorem new_kept : new.Kept [] := by
  refine .of_calm rfl rfl ?_ ⟨List.nodup_nil, nofun⟩ rfl nofun
  refine ⟨List.nodup_nil, fun h => ?_, nofun, nofun, List.nodup_nil, nofun, nofun, nofun⟩
  exact iff_of_false List.not_mem_nil Bool.false_ne_true

theorem Kept.owned (k : s.Kept act) : s.Owned where
  once := k.ledger.once
  asleep := k.ledger.asleep
  defined := k.defined
  all := by
    intro hobjects hdying n hn
    rcases k.ledger.all n hn with hlive | hdestroyed
    · have hmem := (k.ledger.mem n).2 hlive
      rw [hobjects, hdying] at hmem
      cases hmem
    · exact hdestroyed

theorem Kept.handleOf_eq (k : s.Kept act) {o h : Nat} (hholds : Holds s.objects o h) :
    s.handleOf o = some h := by
  rcases hholds with ⟨a, ha, rfl, hhandle⟩
  rw [handleOf, object?, k.numbering.find?_eq ha]
  exact hhandle

/-- Fewer objects take fewer frames with them. -/
theorem Takes.mono (hsub : ∀ a ∈ t.objects, a.handle ≠ none → a ∈ s.objects) {d h : Nat}
    (htakes : t.Takes d h) : s.Takes d h := by
  have howns : ∀ x y, t.Owns x y → s.Owns x y := by
    rintro x y ⟨a, ha, hhome, hhandle⟩
    exact ⟨a, hsub a ha (by rw [hhandle]; nofun), hhome, hhandle⟩
  exact Relation.ReflTransGen.mono howns _ _ htakes

/-- A frame is destroyed. It is not under way, and neither is what it takes with it. -/
theorem destroyFrame_kept {h : Nat} {rest : List Nat} {e : Option Nat} (k : s.Kept act)
    (hdying : s.dying = h :: rest) (turn : s.turn = .code e)
    (active : Active s.objects s.frames .running e s.calls act) :
    (s.destroyFrame h rest).Kept act ∧ (s.destroyFrame h rest).Runs act := by
  have hmem : h ∈ s.dying := by simp [hdying]
  have hlive : (s.frames h).isSome := (k.ledger.mem h).1 (List.mem_append_right _ hmem)
  obtain ⟨f, hf⟩ := Option.isSome_iff_exists.1 hlive
  have hidle : h ∉ act := k.spared h hmem h .refl
  have hasleep : f.phase ≠ .running := by
    rcases k.others h f hf hidle with rfl | hfinal
    · nofun
    · rw [hfinal]
      nofun
  have hsub : ∀ a ∈ s.objects.filter (·.home ≠ some h), a.handle ≠ none → a ∈ s.objects :=
    fun a ha _ => (List.mem_filter.1 ha).1
  have hstays : ∀ a ∈ s.objects, a.home ≠ some h → a ∈ s.objects.filter (·.home ≠ some h) :=
    fun a ha hhome => List.mem_filter.2 ⟨ha, decide_eq_true hhome⟩
  have hledger := k.ledger
  rw [hdying] at hledger
  simp only [destroyFrame, hf]
  constructor
  · constructor
    · exact hledger.destroy hf hasleep
    · exact k.numbering.sublist List.filter_sublist
    · dsimp only
      rw [List.any_eq_false]
      intro a ha
      cases hassign : s.assigning with
      | none => simp
      | some p =>
          rcases k.assigning p hassign with ⟨b, hb, c, hc, hbid, hcid, -, -, -, hhomes⟩
          have hhome := hhomes h hmem h .refl
          by_cases hah : a.home = some h
          · have hab : a.id ≠ p.1 := by
              intro hid
              rw [k.numbering.unique ha hb (hid.trans hbid.symm)] at hah
              exact hhome.1 hah
            have hac : a.id ≠ p.2 := by
              intro hid
              rw [k.numbering.unique ha hc (hid.trans hcid.symm)] at hah
              exact hhome.2 hah
            simp [hab, hac]
          · simp [hah]
    · intro x g hg hx
      by_cases hxh : x = h
      · subst hxh
        simp at hg
      · simp only [Function.update_of_ne hxh] at hg
        exact k.others x g hg hx
    · intro d hd x htakes
      have htakes' : s.Takes d x := Takes.mono hsub htakes
      rcases List.mem_append.1 hd with hd | hd
      · obtain ⟨a, ha, hhandle⟩ := List.mem_filterMap.1 hd
        have hhome : a.home = some h := by simpa using (List.mem_filter.1 ha).2
        exact k.spared h hmem x (.head ⟨a, (List.mem_filter.1 ha).1, hhome, hhandle⟩ htakes')
      · exact k.spared d (by simp [hdying, hd]) x htakes'
    · intro p hp
      rcases k.assigning p hp with ⟨a, ha, b, hb, haid, hbid, hne, hempty, hfree, hhomes⟩
      have hhome := hhomes h hmem h .refl
      refine ⟨a, hstays a ha hhome.1, b, hstays b hb hhome.2, haid, hbid, hne, hempty, hfree, ?_⟩
      intro d hd x htakes
      have htakes' : s.Takes d x := Takes.mono hsub htakes
      rcases List.mem_append.1 hd with hd | hd
      · obtain ⟨c, hc, hhandle⟩ := List.mem_filterMap.1 hd
        have hchome : c.home = some h := by simpa using (List.mem_filter.1 hc).2
        exact hhomes h hmem x (.head ⟨c, (List.mem_filter.1 hc).1, hchome, hhandle⟩ htakes')
      · exact hhomes d (by simp [hdying, hd]) x htakes'
  · refine .code turn (active.congr ?_ ?_)
    · intro x hx
      refine Function.update_of_ne ?_ ..
      rintro rfl
      exact hidle hx
    · intro a ha x hx hhandle
      refine hstays a ha fun hhome => ?_
      exact k.spared h hmem x (.single ⟨a, ha, hhome, hhandle⟩) hx

/-! ## Objects -/

structure Rests (s : TaskHeap) (e : Option Nat) (act : List Nat) : Prop where
  kept : s.Kept act
  dying : s.dying = []
  assigning : s.assigning = none
  turn : s.turn = .code e
  active : Active s.objects s.frames .running e s.calls act

theorem Rests.ledger {e : Option Nat} (r : s.Rests e act) :
    Ledger s.objects [] s.frames s.created s.destroyed := by
  have hledger := r.kept.ledger
  rwa [r.dying] at hledger

theorem Rests.idle {e : Option Nat} (r : s.Rests e act) {a : TaskObject} (h : s.Idle a) :
    ∀ x ∈ act, a.handle ≠ some x :=
  fun x hx hhandle => h x hhandle (r.active.underWay ⟨nofun, nofun⟩ x hx)

theorem Expendable.idle {a : TaskObject} (h : s.Expendable a) : s.Idle a :=
  fun x hx => h x hx x .refl

theorem Rests.active_of {e : Option Nat} (r : s.Rests e act) {objects : List TaskObject}
    (hobjects : ∀ b ∈ s.objects, (∃ x ∈ act, b.handle = some x) → b ∈ objects) :
    Active objects s.frames .running e s.calls act :=
  r.active.congr (fun _ _ => rfl) fun b hb x hx hhandle => hobjects b hb ⟨x, hx, hhandle⟩

theorem Rests.create {e : Option Nat} (r : s.Rests e act) (home : Option Nat) :
    (s.create home).Kept act ∧ (s.create home).Runs act := by
  have hfresh : ∀ x ∈ act, x ≠ s.created := fun x hx =>
    Nat.ne_of_lt (r.kept.ledger.below x (r.active.live x hx))
  constructor
  · refine .of_calm r.dying r.assigning (r.kept.ledger.create _ _ _) (r.kept.numbering.cons _ _)
      r.kept.defined ?_
    intro h f hf hh
    by_cases hc : h = s.created
    · subst hc
      simp only [TaskHeap.create, setFrame, Function.update_self, Option.some.injEq] at hf
      exact .inl hf.symm
    · simp only [TaskHeap.create, setFrame, Function.update_of_ne hc] at hf
      exact r.kept.others h f hf hh
  · refine .code r.turn (r.active.congr ?_ ?_)
    · exact fun x hx => Function.update_of_ne (hfresh x hx) ..
    · exact fun a ha _ _ _ => List.mem_cons_of_mem _ ha

theorem Rests.moveConstruct {e : Option Nat} (r : s.Rests e act) {a : TaskObject}
    (ha : a ∈ s.objects) (hidle : s.Idle a) (home : Option Nat) :
    (s.moveConstruct a home).Kept act ∧ (s.moveConstruct a home).Runs act := by
  constructor
  · refine .of_calm r.dying r.assigning ?_ ((r.kept.numbering.replace ha none).cons _ _)
      r.kept.defined r.kept.others
    apply r.kept.ledger.moved
    simp only [TaskHeap.moveConstruct, handles_cons, Option.toList_none, List.nil_append]
    exact (handles_erase ha).append_right _
  · refine .code r.turn (r.active_of fun b hb hpinned => ?_)
    have hne : b ≠ a := by
      rintro rfl
      obtain ⟨x, hx, hhandle⟩ := hpinned
      exact r.idle hidle x hx hhandle
    exact List.mem_cons_of_mem _ (List.mem_cons_of_mem _ ((List.mem_erase_of_ne hne).2 hb))

/-- The frame of an object is to be destroyed, the object being gone or empty. -/
theorem Rests.release {e : Option Nat} (r : s.Rests e act) {a : TaskObject} (ha : a ∈ s.objects)
    (hexpendable : s.Expendable a) {objects : List TaskObject}
    (hobjects : objects = s.objects.erase a ∨
      objects = { a with handle := none } :: s.objects.erase a) :
    Ledger objects a.handle.toList s.frames s.created s.destroyed ∧
      Numbering objects s.named ∧ Active objects s.frames .running e s.calls act ∧
      (∀ b ∈ objects, b.handle ≠ none → b ∈ s.objects) ∧
      ∀ d ∈ a.handle.toList, ∀ h, s.Takes d h → h ∉ act := by
  have hperm : (handles (s.objects.erase a) ++ a.handle.toList).Perm (handles s.objects ++ []) := by
    rw [List.append_nil]
    exact List.perm_append_comm.trans (handles_erase ha)
  have hpinned : ∀ b ∈ s.objects, (∃ x ∈ act, b.handle = some x) → b ∈ s.objects.erase a := by
    rintro b hb ⟨x, hx, hhandle⟩
    refine (List.mem_erase_of_ne ?_).2 hb
    rintro rfl
    exact r.idle hexpendable.idle x hx hhandle
  have hspared : ∀ d ∈ a.handle.toList, ∀ h, s.Takes d h → h ∉ act := by
    intro d hd h htakes hact
    have hunderWay := r.active.underWay ⟨nofun, nofun⟩ h hact
    exact hexpendable d (Option.mem_toList.1 hd) h htakes hunderWay
  rcases hobjects with rfl | rfl
  · refine ⟨r.ledger.moved hperm, r.kept.numbering.sublist List.erase_sublist, r.active_of hpinned,
      fun b hb _ => List.mem_of_mem_erase hb, hspared⟩
  · refine ⟨r.ledger.moved ?_, r.kept.numbering.replace ha none,
      r.active_of fun b hb hx => List.mem_cons_of_mem _ (hpinned b hb hx), ?_, hspared⟩
    · rw [handles_cons]
      exact hperm
    · intro b hb hhandle
      rcases List.mem_cons.1 hb with rfl | hb
      · exact absurd rfl hhandle
      · exact List.mem_of_mem_erase hb

theorem Rests.scopeExit {e : Option Nat} (r : s.Rests e act) {a : TaskObject}
    (ha : a ∈ s.objects) (hexpendable : s.Expendable a) :
    (s.scopeExit a).Kept act ∧ (s.scopeExit a).Runs act := by
  rcases r.release ha hexpendable (.inl rfl) with ⟨hledger, hnumbering, hactive, hsub, hspared⟩
  refine ⟨⟨hledger, hnumbering, r.kept.defined, r.kept.others, ?_, ?_⟩, .code r.turn hactive⟩
  · exact fun d hd h htakes => hspared d hd h (Takes.mono hsub htakes)
  · intro p hp
    rw [show (s.scopeExit a).assigning = none from r.assigning] at hp
    cases hp

theorem Rests.moveAssign {e : Option Nat} (r : s.Rests e act) {a b : TaskObject}
    (ha : a ∈ s.objects) (hb : b ∈ s.objects) (horderly : s.Orderly (.code (.moveAssign a b))) :
    (s.moveAssign a b).Kept act ∧ (s.moveAssign a b).Runs act := by
  unfold TaskHeap.moveAssign
  split
  · exact ⟨r.kept, .code r.turn r.active⟩
  · next hne =>
      rcases horderly hne with ⟨hidle, hexpendable, hself, hother⟩
      rcases r.release ha hexpendable (.inr rfl) with ⟨hledger, hnumbering, hactive, hsub, hspared⟩
      have hbne : b ≠ a := fun hba => hne (congrArg TaskObject.id hba.symm)
      refine ⟨⟨hledger, hnumbering, r.kept.defined, r.kept.others, ?_, ?_⟩, .code r.turn hactive⟩
      · exact fun d hd h htakes => hspared d hd h (Takes.mono hsub htakes)
      · rintro p ⟨⟩
        refine ⟨{ a with handle := none }, List.mem_cons_self, b,
          List.mem_cons_of_mem _ ((List.mem_erase_of_ne hbne).2 hb), rfl, rfl, hne, rfl,
          r.idle hidle, ?_⟩
        intro d hd h htakes
        have htakes' : s.Takes d h := Takes.mono hsub htakes
        have hd' : a.handle = some d := Option.mem_toList.1 hd
        exact ⟨hself d hd' h htakes', hother d hd' h htakes'⟩

/-- The exchange of a move assignment, once the old frame is gone. -/
theorem exchange_kept {i j : Nat} {e : Option Nat} (k : s.Kept act) (hdying : s.dying = [])
    (hassigning : s.assigning = some (i, j)) (turn : s.turn = .code e)
    (active : Active s.objects s.frames .running e s.calls act) :
    (s.exchange i j).Kept act ∧ (s.exchange i j).Runs act := by
  rcases k.assigning _ hassigning with ⟨a, ha, b, hb, rfl, rfl, hne, hempty, hfree, -⟩
  have hba : b ≠ a := fun heq => hne (congrArg TaskObject.id heq.symm)
  have hb' : b ∈ s.objects.erase a := (List.mem_erase_of_ne hba).2 hb
  have hfinda : s.object? a.id = some a := k.numbering.find?_eq ha
  have hfindb : s.object? b.id = some b := k.numbering.find?_eq hb
  simp only [exchange, hfinda, hfindb]
  constructor
  · refine .of_calm hdying rfl ?_ ?_ k.defined k.others
    · apply k.ledger.moved
      have hhandles := handles_erase ha
      rw [hempty] at hhandles
      simp only [handles_cons, Option.toList_none, List.nil_append]
      exact ((handles_erase hb').trans hhandles).append_right _
    · apply k.numbering.moved
      have hids := ((List.perm_cons_erase hb').cons a).symm.trans (List.perm_cons_erase ha).symm
      exact hids.map (·.id)
  · refine .code turn (active.congr (fun _ _ => rfl) ?_)
    intro c hc x hx hhandle
    have hca : c ≠ a := by
      rintro rfl
      rw [hempty] at hhandle
      cases hhandle
    have hcb : c ≠ b := by
      rintro rfl
      exact hfree x hx hhandle
    exact List.mem_cons_of_mem _ (List.mem_cons_of_mem _
      ((List.mem_erase_of_ne hcb).2 ((List.mem_erase_of_ne hca).2 hc)))

/-! ## Coroutines -/

theorem Kept.keep (k : s.Kept act) (hdying : s.dying = []) (hassigning : s.assigning = none)
    {act' : List Nat} {frames : Nat → Option OwnedFrame} {turn : TaskTurn} {calls : List TaskCall}
    (same : ∀ h, (frames h).isSome = (s.frames h).isSome)
    (others : ∀ h f, frames h = some f → h ∉ act' → f = ⟨.initial, none⟩ ∨ f.phase = .final) :
    Kept { s with frames, turn, calls } act' :=
  .of_calm hdying hassigning (k.ledger.reframed same) k.numbering k.defined others

theorem isSome_update {frames : Nat → Option OwnedFrame} {h : Nat} {f g : OwnedFrame}
    (hf : frames h = some f) (x : Nat) :
    (Function.update frames h (some g) x).isSome = (frames x).isSome := by
  by_cases hx : x = h
  · subst hx
    rw [Function.update_self, hf]
    rfl
  · rw [Function.update_of_ne hx]

theorem Rests.others_top {e : Option Nat} {h : Nat} (r : s.Rests e (h :: act)) (f : OwnedFrame) :
    ∀ x g, Function.update s.frames h (some f) x = some g → x ∉ h :: act →
      g = ⟨.initial, none⟩ ∨ g.phase = .final := by
  intro x g hg hx
  have hxh : x ≠ h := fun heq => hx (heq ▸ List.mem_cons_self)
  rw [Function.update_of_ne hxh] at hg
  exact r.kept.others x g hg hx

theorem Rests.get {e : Option Nat} (r : s.Rests e act) {a : TaskObject} (ha : a ∈ s.objects)
    (hidle : s.Idle a) : ∃ act', (s.get e a).Kept act' ∧ (s.get e a).Runs act' := by
  unfold TaskHeap.get
  split
  · next hsome =>
      obtain ⟨g, hg⟩ := Option.isSome_iff_exists.1 hsome
      have hfresh : g ∉ act := fun hmem => r.idle hidle g hmem hg
      have hlive : (s.frames g).isSome :=
        (r.kept.ledger.mem g).1 (List.mem_append_left _ (mem_handles.2 ⟨a, ha, hg⟩))
      obtain ⟨f, hf⟩ := Option.isSome_iff_exists.1 hlive
      refine ⟨g :: act, r.kept.keep r.dying r.assigning (fun _ => rfl) ?_, ?_⟩
      · exact fun h f hf hh => r.kept.others h f hf fun hmem => hh (List.mem_cons_of_mem g hmem)
      · refine .inside rfl r.dying r.assigning rfl ⟨a, ha, rfl, hg⟩ hf ?_ hfresh r.active
        rcases r.kept.others g f hf hfresh with hinitial | hfinal
        · exact .inl hinitial
        · exact .inr (.inr hfinal)
  · exact ⟨act, r.kept, .code r.turn r.active⟩

/-- `co_await` of a task that has not begun: it is next on the stack. -/
theorem Rests.coAwait {h : Nat} (r : s.Rests (some h) act) {a : TaskObject} (ha : a ∈ s.objects)
    (horderly : s.Orderly (.code (.coAwait a))) :
    ∃ act', (s.coAwait h a).Kept act' ∧ (s.coAwait h a).Runs act' := by
  rcases horderly with ⟨c, f, hc, hf, hinitial⟩
  have hfresh : c ∉ act := by
    intro hmem
    rcases r.active.underWay ⟨nofun, nofun⟩ c hmem with ⟨g, hg, hbegun, -⟩
    rw [hf] at hg
    cases hg
    exact hbegun hinitial
  have hinit : s.frames c = some ⟨.initial, none⟩ := by
    rcases r.kept.others c f hf hfresh with rfl | hfinal
    · exact hf
    · rw [hinitial] at hfinal
      cases hfinal
  rcases r.active.setTop with ⟨continuation, hframe, hactive⟩
  have hmem : h ∈ act := by
    rcases r.active.top with ⟨act', rfl, -⟩
    exact List.mem_cons_self
  have hne : c ≠ h := by
    rintro rfl
    exact hfresh hmem
  have hresult : s.coAwait h a = { s with
      frames := Function.update (Function.update s.frames h (some ⟨.awaiting a.id, continuation⟩)) c
        (some ⟨.running, some h⟩)
      turn := .code (some c) } := by
    simp only [TaskHeap.coAwait, hframe, hc, setFrame, Function.update_of_ne hne, hinit, resume,
      Function.update_self, Function.update_idem]
  rw [hresult]
  have hsome : Function.update s.frames h (some ⟨.awaiting a.id, continuation⟩) c =
      some ⟨.initial, none⟩ := (Function.update_of_ne hne ..).trans hinit
  refine ⟨c :: act, r.kept.keep r.dying r.assigning ?_ ?_, .code rfl ?_⟩
  · exact fun x => (isSome_update hsome x).trans (isSome_update hframe x)
  · intro x g hg hx
    rw [List.mem_cons, not_or] at hx
    have hxh : x ≠ h := by
      rintro rfl
      exact hx.2 hmem
    rw [Function.update_of_ne hx.1, Function.update_of_ne hxh] at hg
    exact r.kept.others x g hg hx.2
  · refine .awaited (Function.update_self ..) ⟨a, ha, rfl, hc⟩ hfresh ?_
    exact (hactive (.awaiting a.id)).setOther hfresh _

theorem Rests.suspend {h : Nat} (r : s.Rests (some h) act)
    (horderly : s.Orderly (.code .suspend)) :
    ∃ act', (s.suspend h).Kept act' ∧ (s.suspend h).Runs act' := by
  rcases horderly with ⟨c, calls, h', hcalls, hturn, hhandle⟩
  rw [r.turn] at hturn
  cases hturn
  rcases r.active.top with ⟨act, rfl, fresh, ⟨p, o, frame, held, rest⟩ |
    ⟨o, caller, calls', hcalled, frame, held, rest⟩⟩
  · rcases rest.called hcalls with ⟨-, g, hg, hholds⟩
    have heq : some g = some h := (r.kept.handleOf_eq hholds).symm.trans hhandle
    cases heq
    exact (fresh hg).elim
  · have hresult : s.suspend h = { s with
        frames := Function.update s.frames h (some ⟨.leaf, none⟩), turn := .inside } := by
      simp only [TaskHeap.suspend, frame, setFrame]
    rw [hresult]
    refine ⟨h :: act, r.kept.keep r.dying r.assigning (isSome_update frame) ?_, ?_⟩
    · exact r.others_top _
    · exact .inside rfl r.dying r.assigning hcalled held (Function.update_self ..)
        (.inr (.inl rfl)) fresh (rest.setOther fresh _)

/-- A coroutine is done: control goes to the frame that awaits it, or back to `get()`. -/
theorem Rests.finish {h : Nat} (r : s.Rests (some h) act) :
    ∃ act', (s.finish h).Kept act' ∧ (s.finish h).Runs act' := by
  rcases r.active.top with ⟨act, rfl, fresh, ⟨p, o, frame, held, rest⟩ |
    ⟨o, caller, calls', hcalled, frame, held, rest⟩⟩
  · rcases (rest.setOther fresh (some ⟨.final, some p⟩)).setTop with
      ⟨continuation, hparent, hactive⟩
    have hhandle : handleOf { s with
        frames := Function.update s.frames h (some ⟨.final, some p⟩) } o = some h :=
      r.kept.handleOf_eq held
    have hresult : s.finish h = { s with
        frames := Function.update (Function.update s.frames h (some ⟨.final, some p⟩)) p
          (some ⟨.running, continuation⟩)
        turn := .code (some p) } := by
      simp only [TaskHeap.finish, frame, setFrame, resume, hparent, hhandle, Option.isSome_some,
        if_true]
    rw [hresult]
    refine ⟨act, r.kept.keep r.dying r.assigning ?_ ?_, .code rfl (hactive .running)⟩
    · exact fun x => (isSome_update hparent x).trans (isSome_update frame x)
    · intro x g hg hx
      have hp : p ∈ act := by
        rcases rest.top with ⟨act', rfl, -⟩
        exact List.mem_cons_self
      have hxp : x ≠ p := fun heq => hx (heq ▸ hp)
      rw [Function.update_of_ne hxp] at hg
      by_cases hxh : x = h
      · subst hxh
        rw [Function.update_self] at hg
        cases hg
        exact .inr rfl
      · rw [Function.update_of_ne hxh] at hg
        exact r.kept.others x g hg fun hmem => hx (List.mem_of_ne_of_mem hxh hmem)
  · have hresult : s.finish h = { s with
        frames := Function.update s.frames h (some ⟨.final, none⟩), turn := .inside } := by
      simp only [TaskHeap.finish, frame, setFrame]
    rw [hresult]
    refine ⟨h :: act, r.kept.keep r.dying r.assigning (isSome_update frame) (r.others_top _), ?_⟩
    exact .inside rfl r.dying r.assigning hcalled held (Function.update_self ..)
      (.inr (.inr rfl)) fresh (rest.setOther fresh _)

theorem goOn_kept (k : s.Kept act) (hruns : s.Runs act) (hstep : s.goOn = some t) :
    ∃ act', t.Kept act' ∧ t.Runs act' := by
  cases hruns with
  | code turn active =>
      simp only [goOn, turn] at hstep
      cases hstep
  | @inside g o f caller calls act turn hdying hassigning called held frame phase fresh active =>
      have hothers : ∀ x f', s.frames x = some f' → x ∉ act → x ≠ g →
          f' = ⟨.initial, none⟩ ∨ f'.phase = .final := by
        intro x f' hf' hx hxg
        exact k.others x f' hf' fun hmem => hx (List.mem_of_ne_of_mem hxg hmem)
      have hresumed : ∀ waiting : OwnedFrame, s.frames g = some waiting →
          (∃ act', Kept { s with
            frames := Function.update s.frames g (some ⟨.running, none⟩)
            turn := .code (some g) } act' ∧
          Runs { s with
            frames := Function.update s.frames g (some ⟨.running, none⟩)
            turn := .code (some g) } act') := by
        intro waiting hwaiting
        refine ⟨g :: act, k.keep hdying hassigning (isSome_update hwaiting) ?_, .code rfl ?_⟩
        · intro x f' hf' hx
          rw [List.mem_cons, not_or] at hx
          rw [Function.update_of_ne hx.1] at hf'
          exact hothers x f' hf' hx.2 hx.1
        · rw [called]
          exact .gotten (Function.update_self ..) held fresh (active.setOther fresh _)
      simp only [goOn, turn, called, k.handleOf_eq held, Bool.false_eq_true, if_false,
        Option.some.injEq] at hstep
      rcases phase with rfl | rfl | hfinal
      · simp only [frame, resume, setFrame] at hstep
        rw [← hstep]
        exact hresumed _ frame
      · simp only [frame, resume, setFrame] at hstep
        rw [← hstep]
        exact hresumed _ frame
      · rcases f with ⟨phase, continuation⟩
        dsimp only at hfinal
        subst hfinal
        simp only [frame] at hstep
        rw [← hstep]
        refine ⟨act, k.keep hdying hassigning (fun _ => rfl) ?_, .code rfl active⟩
        intro x f' hf' hx
        by_cases hxg : x = g
        · subst hxg
          rw [frame] at hf'
          cases hf'
          exact .inr rfl
        · exact hothers x f' hf' hx hxg

/-! ## Runs -/

theorem Rests.perform {e : Option Nat} (r : s.Rests e act) {op : TaskOp}
    (horderly : s.Orderly (.code op)) (hstep : s.perform e op = some t) :
    ∃ act', t.Kept act' ∧ t.Runs act' := by
  cases op with
  | create home =>
      rcases Option.ite_none_right_eq_some.1 hstep with ⟨-, ⟨⟩⟩
      exact ⟨act, r.create home⟩
  | moveConstruct a home =>
      rcases Option.ite_none_right_eq_some.1 hstep with ⟨⟨ha, -⟩, ⟨⟩⟩
      exact ⟨act, r.moveConstruct ha horderly home⟩
  | moveAssign a b =>
      rcases Option.ite_none_right_eq_some.1 hstep with ⟨⟨ha, hb⟩, ⟨⟩⟩
      exact ⟨act, r.moveAssign ha hb horderly⟩
  | scopeExit a =>
      rcases Option.ite_none_right_eq_some.1 hstep with ⟨ha, ⟨⟩⟩
      exact ⟨act, r.scopeExit ha horderly⟩
  | get a =>
      rcases Option.ite_none_right_eq_some.1 hstep with ⟨ha, ⟨⟩⟩
      exact r.get ha horderly
  | detach a =>
      rcases Option.ite_none_right_eq_some.1 hstep with ⟨-, ⟨⟩⟩
      have hempty : a.handle = none := horderly
      have hsame : s.detach e a = s := by rw [detach, hempty]
      rw [hsame]
      exact ⟨act, r.kept, .code r.turn r.active⟩
  | coAwait a =>
      cases e with
      | none => cases hstep
      | some h =>
          rcases Option.ite_none_right_eq_some.1 hstep with ⟨ha, ⟨⟩⟩
          exact r.coAwait ha horderly
  | suspend =>
      cases e with
      | none => cases hstep
      | some h =>
          cases hstep
          exact r.suspend horderly
  | finish =>
      cases e with
      | none => cases hstep
      | some h =>
          cases hstep
          exact r.finish

theorem step_kept {i : TaskHeapInput} (h : ∃ act, s.Kept act ∧ s.Runs act)
    (horderly : s.Orderly i) (hstep : s.step i = some t) : ∃ act, t.Kept act ∧ t.Runs act := by
  rcases h with ⟨act, k, hruns⟩
  simp only [step, k.defined, Bool.false_eq_true, if_false] at hstep
  split at hstep
  · next h rest hdying =>
      cases hstep
      cases hruns with
      | code turn active => exact ⟨act, destroyFrame_kept k hdying turn active⟩
      | inside _ hnone =>
          rw [hdying] at hnone
          cases hnone
  · next i j hdying hassigning =>
      cases hstep
      cases hruns with
      | code turn active => exact ⟨act, exchange_kept k hdying hassigning turn active⟩
      | inside _ _ hnone =>
          rw [hassigning] at hnone
          cases hnone
  · exact goOn_kept k hruns hstep
  · next op hdying hassigning =>
      cases hruns with
      | code turn active =>
          rw [turn] at hstep
          exact Rests.perform ⟨k, hdying, hassigning, turn, active⟩ horderly hstep
      | inside turn =>
          rw [turn] at hstep
          cases hstep
  · cases hstep

/-- In an orderly run every frame has one owner at any time, and is destroyed once. -/
theorem frames_owned (is : List TaskHeapInput) (orderly : machine.Meets Orderly new is) :
    machine.Always Owned new is := by
  apply Machine.Always.mono (P := fun s => ∃ act, s.Kept act ∧ s.Runs act)
  · rintro s ⟨act, k, -⟩
    exact k.owned
  · apply Machine.always_of_meets (C := Orderly)
    · exact fun s i t hs hc hstep => step_kept hs hc hstep
    · exact ⟨[], new_kept, .code rfl .main⟩
    · exact orderly

/-- A task is moved and run by `get()`. Its coroutine has another task for a parameter, which it
awaits, and takes it along when it is destroyed. -/
def awaitedTree : List TaskHeapInput :=
  [.code (.create none), .code (.moveConstruct ⟨0, none, some 0⟩ none),
    .code (.get ⟨1, none, some 0⟩), .goOn, .code (.create (some 0)),
    .code (.coAwait ⟨2, some 0, some 1⟩), .code .finish, .code .finish, .goOn,
    .code (.scopeExit ⟨1, none, some 0⟩), .destroyNext, .destroyNext,
    .code (.scopeExit ⟨0, none, none⟩)]

theorem frames_owned_tree : machine.Always Owned new awaitedTree := by
  apply frames_owned
  have hidle : ∀ (s : TaskHeap) (o : Nat), s.frames 0 = some ⟨.initial, none⟩ →
      s.Idle ⟨o, none, some 0⟩ := by
    rintro s o hframe h ⟨⟩ ⟨f, hf, hbegun, -⟩
    rw [hframe] at hf
    cases hf
    exact hbegun rfl
  have hexpendable : ∀ s : TaskHeap,
      s.objects = [⟨2, some 0, some 1⟩, ⟨1, none, some 0⟩, ⟨0, none, none⟩] →
      s.frames 0 = some ⟨.final, none⟩ → s.frames 1 = some ⟨.final, some 0⟩ →
      s.Expendable ⟨1, none, some 0⟩ := by
    rintro s hobjects hroot hchild h ⟨⟩ h' htakes ⟨f, hf, -, hgoing⟩
    have hboth : h' = 0 ∨ h' = 1 := by
      induction htakes with
      | refl => exact .inl rfl
      | tail _ howns _ =>
          obtain ⟨a, ha, hhome, hhandle⟩ := howns
          rw [hobjects] at ha
          rcases List.mem_cons.1 ha with rfl | ha
          · exact .inr (Option.some.inj hhandle).symm
          · rcases List.mem_cons.1 ha with rfl | ha
            · cases hhome
            · rw [List.mem_singleton.1 ha] at hhome
              cases hhome
    rcases hboth with rfl | rfl
    · rw [hroot] at hf
      cases hf
      exact hgoing rfl
    · rw [hchild] at hf
      cases hf
      exact hgoing rfl
  rintro s₁ ⟨⟩
  refine ⟨trivial, ?_⟩
  rintro s₂ ⟨⟩
  refine ⟨hidle _ 0 rfl, ?_⟩
  rintro s₃ ⟨⟩
  refine ⟨hidle _ 1 rfl, ?_⟩
  rintro s₄ ⟨⟩
  refine ⟨trivial, ?_⟩
  rintro s₅ ⟨⟩
  refine ⟨trivial, ?_⟩
  rintro s₆ ⟨⟩
  refine ⟨⟨1, ⟨.initial, none⟩, rfl, rfl, rfl⟩, ?_⟩
  rintro s₇ ⟨⟩
  refine ⟨trivial, ?_⟩
  rintro s₈ ⟨⟩
  refine ⟨trivial, ?_⟩
  rintro s₉ ⟨⟩
  refine ⟨trivial, ?_⟩
  rintro s₁₀ ⟨⟩
  refine ⟨hexpendable _ rfl rfl rfl, ?_⟩
  rintro s₁₁ ⟨⟩
  refine ⟨trivial, ?_⟩
  rintro s₁₂ ⟨⟩
  refine ⟨trivial, ?_⟩
  rintro s₁₃ ⟨⟩
  refine ⟨nofun, trivial⟩

/-- A task is detached and runs to completion. Its frame is never destroyed, though no object
is left. -/
theorem detached_frame_leaks :
    ¬ machine.Always Owned new [.code (.create none), .code (.detach ⟨0, none, some 0⟩),
      .code .finish, .goOn, .code (.scopeExit ⟨0, none, none⟩)] := by
  intro h
  have hlast := h.last rfl
  have hmem := hlast.all rfl rfl 0 (by decide)
  cases hmem

end TaskHeap

end Hayai
