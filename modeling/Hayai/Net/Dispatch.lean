import Hayai.Net.Poller
import Mathlib.Data.List.Count
import Mathlib.Data.List.Nodup
import Mathlib.Data.Prod.Basic

/-! # One pass of the loop over its active channels

The body of `EventLoop::loop` between two polls. Callbacks are arbitrary code;
they are only asked to leave the other channels alone and, on their own channel,
to go through its `enable`, `disable` and `remove` calls, which touch nothing but
`events_` and `index_`.
-/

namespace Hayai

/-- The part of a channel that `handleEvent` looks at. -/
def Channel.dispatchPart (c : Channel) : Channel := { c with events := 0, index := 0 }

/-- The callbacks of every channel, as transformers of the channel table and of
the rest of the program's state. -/
structure Handlers (κ υ : Type) where
  run : κ → Callback → (κ → Channel) → υ → (κ → Channel) × υ
  leavesOthers : ∀ k kind channels world j, j ≠ k →
    (run k kind channels world).1 j = channels j
  leavesDispatch : ∀ k kind channels world,
    ((run k kind channels world).1 k).dispatchPart = (channels k).dispatchPart

structure Pass (κ υ : Type) where
  channels : κ → Channel
  world : υ
  trace : List (κ × Callback)

namespace Pass

variable {κ υ : Type} [DecidableEq κ] (h : Handlers κ υ)

/-- One `if` of `handleEventWithGuard`. -/
def fire (k : κ) (s : Pass κ υ) (kind : Callback) : Pass κ υ :=
  if (s.channels k).wants kind then
    let after := h.run k kind s.channels s.world
    ⟨after.1, after.2, s.trace ++ [(k, kind)]⟩
  else s

def handleEventWithGuard (s : Pass κ υ) (k : κ) : Pass κ υ :=
  [Callback.error, .close, .read, .write].foldl (fire h k) s

def handleEvent (alive : κ → Bool) (s : Pass κ υ) (k : κ) : Pass κ υ :=
  if (s.channels k).tied then if alive k then handleEventWithGuard h s k else s
  else handleEventWithGuard h s k

/-- `poll` and the `for` over `activeChannels_`. -/
def iteration (alive : κ → Bool) (capacity : Nat) (channels : κ → Channel) (world : υ)
    (reported : List (KEvent κ)) : Pass κ υ :=
  let polled := Poller.poll capacity channels reported
  polled.2.2.foldl (handleEvent h alive) ⟨polled.2.1, world, []⟩

/-! ## Callbacks do not change what is dispatched -/

omit [DecidableEq κ] in
theorem fire_dispatchPart (k j : κ) (s : Pass κ υ) (kind : Callback) :
    ((fire h k s kind).channels j).dispatchPart = (s.channels j).dispatchPart := by
  unfold fire
  split
  · by_cases hj : j = k
    · subst hj
      exact h.leavesDispatch j kind s.channels s.world
    · exact congrArg Channel.dispatchPart (h.leavesOthers k kind s.channels s.world j hj)
  · rfl

theorem wants_congr {c d : Channel} (hcd : c.dispatchPart = d.dispatchPart) :
    c.wants = d.wants := by
  change c.dispatchPart.wants = d.dispatchPart.wants
  rw [hcd]

theorem handleEvent_congr {c d : Channel} (hcd : c.dispatchPart = d.dispatchPart) (locked : Bool) :
    c.handleEvent locked = d.handleEvent locked := by
  change c.dispatchPart.handleEvent locked = d.dispatchPart.handleEvent locked
  rw [hcd]

omit [DecidableEq κ] in
theorem fire_all (k : κ) (kinds : List Callback) (s : Pass κ υ) :
    (kinds.foldl (fire h k) s).trace =
        s.trace ++ (kinds.filter (s.channels k).wants).map (Prod.mk k) ∧
      ∀ j, ((kinds.foldl (fire h k) s).channels j).dispatchPart = (s.channels j).dispatchPart := by
  induction kinds generalizing s with
  | nil => simp
  | cons kind kinds ih =>
      obtain ⟨htrace, hpart⟩ := ih (fire h k s kind)
      have hwants := wants_congr (fire_dispatchPart h k k s kind)
      constructor
      · rw [List.foldl_cons, htrace, hwants, List.filter_cons]
        unfold fire
        split <;> simp
      · intro j
        rw [List.foldl_cons, hpart j, fire_dispatchPart]

omit [DecidableEq κ] in
/-- `handleEvent` runs the callbacks that the channel's mask names. -/
theorem handleEvent_spec (alive : κ → Bool) (s : Pass κ υ) (k : κ) :
    (handleEvent h alive s k).trace =
        s.trace ++ ((s.channels k).handleEvent (alive k)).map (Prod.mk k) ∧
      ∀ j, ((handleEvent h alive s k).channels j).dispatchPart = (s.channels j).dispatchPart := by
  have hall := fire_all h k [.error, .close, .read, .write] s
  unfold handleEvent Channel.handleEvent
  split
  · split
    · exact hall
    · simp
  · exact hall

omit [DecidableEq κ] in
theorem handleEvents_trace (alive : κ → Bool) (active : List κ) (s : Pass κ υ) :
    (active.foldl (handleEvent h alive) s).trace =
      s.trace ++ active.flatMap fun k => ((s.channels k).handleEvent (alive k)).map (Prod.mk k) := by
  induction active generalizing s with
  | nil => simp
  | cons k active ih =>
      obtain ⟨htrace, hpart⟩ := handleEvent_spec h alive s k
      rw [List.foldl_cons, ih, htrace, List.append_assoc, List.flatMap_cons]
      simp only [handleEvent_congr (hpart _)]

theorem iteration_trace (alive : κ → Bool) (capacity : Nat) (channels : κ → Channel) (world : υ)
    (reported : List (KEvent κ)) :
    (iteration h alive capacity channels world reported).trace =
      (reported.map KEvent.udata).flatMap fun k =>
        (((Poller.fillActiveChannels channels reported).1 k).handleEvent (alive k)).map
          (Prod.mk k) := by
  cases reported with
  | nil => rfl
  | cons e reported =>
      simp only [iteration, Poller.poll, List.length_cons, Nat.zero_lt_succ, if_true]
      rw [handleEvents_trace, Poller.fillActiveChannels_active]
      rfl

/-! ## Counting callbacks -/

theorem count_trace (f : κ → List Callback) (active : List κ) (k : κ) (kind : Callback) :
    (active.flatMap fun j => (f j).map (Prod.mk j)).count (k, kind) =
      active.count k * (f k).count kind := by
  induction active with
  | nil => simp
  | cons j active ih =>
      rw [List.flatMap_cons, List.count_append, ih]
      by_cases hj : j = k
      · subst hj
        rw [List.count_cons_self, Nat.add_mul, Nat.one_mul, Nat.add_comm,
          List.count_map_of_injective _ _ (Prod.mk_right_injective j)]
      · have hnot : ((f j).map (Prod.mk j)).count (k, kind) = 0 := by
          rw [List.count_eq_zero]
          simp [hj]
        rw [hnot, List.count_cons_of_ne hj, Nat.zero_add]

theorem count_handleEvent {c : Channel} {locked : Bool} (hlock : c.tied = true → locked = true)
    (kind : Callback) : (c.handleEvent locked).count kind = if c.wants kind then 1 else 0 := by
  have hguard : c.handleEvent locked = c.handleEventWithGuard := by
    unfold Channel.handleEvent
    split
    · rename_i htied
      rw [if_pos (hlock htied)]
    · rfl
  rw [hguard, Channel.handleEventWithGuard]
  by_cases hwants : c.wants kind
  · rw [List.count_filter hwants, if_pos hwants]
    cases kind <;> rfl
  · rw [if_neg hwants, List.count_eq_zero]
    simp [hwants]

end Pass

/-! ## Exact dispatch -/

/-- The callbacks run are exactly those the kernel's entries call for. -/
def DispatchesExactly {κ : Type} [DecidableEq κ] (channels : κ → Channel)
    (reported : List (KEvent κ)) (trace : List (κ × Callback)) : Prop :=
  ∀ k,
    trace.count (k, .read) =
        (if ∃ e ∈ reported, e.udata = k ∧ e.filter = .read then 1 else 0) ∧
      trace.count (k, .write) =
        (if ∃ e ∈ reported, e.udata = k ∧ e.filter = .write then 1 else 0) ∧
      ((k, .close) ∈ trace ↔
        (channels k).closeCallback = true ∧ ∃ e ∈ reported, e.udata = k ∧ e.eof = true) ∧
      ((k, .error) ∈ trace ↔
        (channels k).errorCallback = true ∧ ∃ e ∈ reported, e.udata = k ∧ e.error = true)

theorem KEvent.asks_callback {κ : Type} (e : KEvent κ) : e.asks e.filter.callback = true := by
  cases hf : e.filter <;> simp [Filter.callback, KEvent.asks, hf]

theorem KEvent.asks_filter_iff {κ : Type} {e : KEvent κ} {c : Channel}
    (hinstalled : c.installed e.filter.callback = true) (f : Filter) :
    (e.asks f.callback && c.installed f.callback) = true ↔ e.filter = f := by
  cases hf : e.filter <;> cases f <;> rw [hf] at hinstalled <;>
    simp_all [Filter.callback, KEvent.asks]

private theorem ite_one_pos_iff (b : Bool) : 0 < (if b then 1 else 0) ↔ b = true := by
  cases b <;> simp

section

variable {κ υ : Type} [DecidableEq κ] (h : Handlers κ υ) (alive : κ → Bool) (capacity : Nat)
  (channels : κ → Channel) (world : υ) (reported : List (KEvent κ))

theorem count_iteration_unreported {k : κ} (hk : k ∉ reported.map KEvent.udata)
    (kind : Callback) :
    (Pass.iteration h alive capacity channels world reported).trace.count (k, kind) = 0 := by
  rw [Pass.iteration_trace, Pass.count_trace, List.count_eq_zero.2 hk, Nat.zero_mul]

theorem count_iteration_reported
    (hcallbacks : ∀ e ∈ reported, (channels e.udata).installed e.filter.callback = true)
    (halive : ∀ e ∈ reported, (channels e.udata).tied = true → alive e.udata = true)
    {k : κ} (hk : k ∈ reported.map KEvent.udata) :
    ∃ e ∈ reported, e.udata = k ∧ (channels k).installed e.filter.callback = true ∧
      ∀ kind, (Pass.iteration h alive capacity channels world reported).trace.count (k, kind) =
        (reported.map KEvent.udata).count k *
          (if e.asks kind && (channels k).installed kind then 1 else 0) := by
  obtain ⟨e, hmem, hudata, hchannel⟩ := Poller.fillActiveChannels_revents channels reported hk
  subst hudata
  refine ⟨e, hmem, rfl, hcallbacks e hmem, fun kind => ?_⟩
  have hlock : ((channels e.udata).setRevents e.revents).tied = true → alive e.udata = true :=
    halive e hmem
  rw [Pass.iteration_trace, Pass.count_trace, hchannel, Pass.count_handleEvent hlock,
    KEvent.wants_setRevents]

omit [DecidableEq κ] in
theorem exists_entry_iff {reported : List (KEvent κ)} (hnodup : (reported.map KEvent.udata).Nodup)
    {e : KEvent κ} (hmem : e ∈ reported) (Q : KEvent κ → Prop) :
    (∃ e' ∈ reported, e'.udata = e.udata ∧ Q e') ↔ Q e := by
  constructor
  · intro hmem'
    rcases hmem' with ⟨e', hmem', hudata, hq⟩
    cases List.inj_on_of_nodup_map hnodup hmem' hmem hudata
    exact hq
  · intro hq
    exact ⟨e, hmem, rfl, hq⟩

theorem iteration_exact_of_nodup
    (hcallbacks : ∀ e ∈ reported, (channels e.udata).installed e.filter.callback = true)
    (halive : ∀ e ∈ reported, (channels e.udata).tied = true → alive e.udata = true)
    (hnodup : (reported.map KEvent.udata).Nodup) :
    DispatchesExactly channels reported
      (Pass.iteration h alive capacity channels world reported).trace := by
  intro k
  by_cases hk : k ∈ reported.map KEvent.udata
  · obtain ⟨e, hmem, rfl, hinstalled, hcount⟩ :=
      count_iteration_reported h alive capacity channels world reported hcallbacks halive hk
    simp only [List.count_eq_one_of_mem hnodup hk, Nat.one_mul] at hcount
    have hread := exists_entry_iff hnodup hmem fun e' => e'.filter = .read
    have hwrite := exists_entry_iff hnodup hmem fun e' => e'.filter = .write
    have hclose := exists_entry_iff hnodup hmem fun e' => e'.eof = true
    have herror := exists_entry_iff hnodup hmem fun e' => e'.error = true
    refine ⟨?_, ?_, ?_, ?_⟩
    · rw [hcount]
      exact if_congr ((KEvent.asks_filter_iff hinstalled .read).trans hread.symm) rfl rfl
    · rw [hcount]
      exact if_congr ((KEvent.asks_filter_iff hinstalled .write).trans hwrite.symm) rfl rfl
    · rw [hclose, ← List.count_pos_iff, hcount, ite_one_pos_iff, Bool.and_eq_true, and_comm]
      exact Iff.rfl
    · rw [herror, ← List.count_pos_iff, hcount, ite_one_pos_iff, Bool.and_eq_true, and_comm]
      exact Iff.rfl
  · have hnone : ∀ Q : KEvent κ → Prop, ¬ ∃ e ∈ reported, e.udata = k ∧ Q e := by
      intro Q hmem
      rcases hmem with ⟨e, hmem, hudata, _⟩
      exact hk (List.mem_map.2 ⟨e, hmem, hudata⟩)
    have hzero := count_iteration_unreported h alive capacity channels world reported hk
    refine ⟨?_, ?_, ?_, ?_⟩
    · rw [hzero, if_neg (hnone _)]
    · rw [hzero, if_neg (hnone _)]
    · exact iff_of_false (List.count_eq_zero.1 (hzero _)) fun hclose => hnone _ hclose.2
    · exact iff_of_false (List.count_eq_zero.1 (hzero _)) fun herror => hnone _ herror.2

/-- The pass dispatches exactly what was reported if and only if no channel has
two entries in the list, that is, none is reported readable and writable at once. -/
theorem iteration_exact_iff_single_entries
    (hcallbacks : ∀ e ∈ reported, (channels e.udata).installed e.filter.callback = true)
    (halive : ∀ e ∈ reported, (channels e.udata).tied = true → alive e.udata = true) :
    DispatchesExactly channels reported
        (Pass.iteration h alive capacity channels world reported).trace ↔
      (reported.map KEvent.udata).Nodup := by
  refine ⟨fun hexact => ?_, iteration_exact_of_nodup h alive capacity channels world reported
    hcallbacks halive⟩
  rw [List.nodup_iff_count_le_one]
  intro k
  by_cases hk : k ∈ reported.map KEvent.udata
  · obtain ⟨e, _, rfl, hinstalled, hcount⟩ :=
      count_iteration_reported h alive capacity channels world reported hcallbacks halive hk
    have hentries := hcount e.filter.callback
    rw [e.asks_callback, hinstalled, Bool.and_self, if_pos rfl, Nat.mul_one] at hentries
    obtain ⟨hread, hwrite, _⟩ := hexact e.udata
    rw [← hentries]
    cases hfilter : e.filter with
    | read =>
        rw [Filter.callback, hread]
        split <;> omega
    | write =>
        rw [Filter.callback, hwrite]
        split <;> omega
  · rw [List.count_eq_zero.2 hk]
    omega

end

def idleHandlers : Handlers Bool Unit :=
  ⟨fun _ _ channels _ => (channels, ()), fun _ _ _ _ _ _ => rfl, fun _ _ _ _ => rfl⟩

def plainChannels (k : Bool) : Channel :=
  { Channel.new (if k then 5 else 4) with
    readCallback := true, writeCallback := true, closeCallback := true, errorCallback := true }

theorem two_channels_dispatch_exactly :
    DispatchesExactly plainChannels [⟨4, .read, false, false, false⟩, ⟨5, .write, true, false, true⟩]
      (Pass.iteration idleHandlers (fun _ => true) 16 plainChannels ()
        [⟨4, .read, false, false, false⟩, ⟨5, .write, true, false, true⟩]).trace :=
  (iteration_exact_iff_single_entries idleHandlers _ 16 plainChannels () _ (by decide)
    (fun _ _ _ => rfl)).2 (by decide)

/-- One socket reported readable and writable by the same poll: its write callback
runs twice and its read callback not at all. -/
theorem readable_and_writable_not_exact :
    (Pass.iteration idleHandlers (fun _ => true) 16 plainChannels ()
        [⟨4, .read, false, false, false⟩, ⟨4, .write, false, false, false⟩]).trace =
        [(false, .write), (false, .write)] ∧
      ¬ DispatchesExactly plainChannels
        [⟨4, .read, false, false, false⟩, ⟨4, .write, false, false, false⟩]
        (Pass.iteration idleHandlers (fun _ => true) 16 plainChannels ()
          [⟨4, .read, false, false, false⟩, ⟨4, .write, false, false, false⟩]).trace := by
  have htrace : (Pass.iteration idleHandlers (fun _ => true) 16 plainChannels ()
      [⟨4, .read, false, false, false⟩, ⟨4, .write, false, false, false⟩]).trace =
      [(false, .write), (false, .write)] := by decide
  refine ⟨htrace, ?_⟩
  rw [htrace]
  intro hexact
  have hread := (hexact false).1
  revert hread
  decide

end Hayai
