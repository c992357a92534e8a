import Hayai.Machine.Run
import Hayai.Net.ServerKernel
import Hayai.Net.ServerPass
import Hayai.Net.ServerTasks

/-! # The active channels of a loop

The server with its pollers, when each public call and each functor is one atomic step: a
thread that is in the middle of one is not overtaken. While a loop walks `activeChannels_`
every connection in it is owned, so no member ever runs on one that has been released.
-/

namespace Hayai

/-- `activeChannels` has what the last `poll` of each loop reported; `running` is the thread
in the middle of a call or of a functor. -/
structure AtomicServer (τ υ : Type) where
  polled : PolledServer τ υ
  activeChannels : Nat → List (Option Nat)
  running : Option (Thread τ)

namespace AtomicServer

variable {τ υ : Type} [DecidableEq τ]

def Turn (s : AtomicServer τ υ) : PolledInput τ υ → Prop
  | .server i => s.running.all (· = i.thread) = true
  | .release _ => s.running = none

instance (s : AtomicServer τ υ) : (i : PolledInput τ υ) → Decidable (s.Turn i)
  | .server i => inferInstanceAs (Decidable (s.running.all (· = i.thread) = true))
  | .release _ => decidable_of_iff (s.running.isNone = true) Option.isNone_iff_eq_none

def filled (s : AtomicServer τ υ) : PolledInput τ υ → Nat → List (Option Nat)
  | .server (.poll l events) => Function.update s.activeChannels l
      (Poller.fillActiveChannels s.polled.server.channels events).2
  | _ => s.activeChannels

def busy (t : PolledServer τ υ) : PolledInput τ υ → Option (Thread τ)
  | .server i => if t.server.Free i.thread then none else some i.thread
  | .release _ => none

def step (s : AtomicServer τ υ) (i : PolledInput τ υ) : Option (AtomicServer τ υ) :=
  if s.Turn i then (s.polled.step i).map fun t => ⟨t, s.filled i, busy t i⟩ else none

def machine (τ υ : Type) [DecidableEq τ] : Machine (AtomicServer τ υ) (PolledInput τ υ) := ⟨step⟩

omit [DecidableEq τ] in
def start (name : String) (numThreads : Nat) (connectionCallback messageCallback : Bool) :
    AtomicServer τ υ :=
  ⟨.start name numThreads connectionCallback messageCallback, fun _ => [], none⟩

omit [DecidableEq τ] in
/-- While a loop walks its active channels, the connections in it are there and owned. -/
def Owned (s : AtomicServer τ υ) : Prop :=
  ∀ l, (s.polled.server.loops l).loop.eventHandling = true → ∀ c, some c ∈ s.activeChannels l →
    s.polled.released c = false ∧ s.polled.server.owned c = true

end AtomicServer

/-! ## Members of a destroyed connection -/

namespace Task

variable {τ υ : Type}

/-- Functor `b` may be queued behind `a`: nothing of a connection follows its
`connectDestroyed`. -/
def MayFollow (a b : Task τ υ) : Prop :=
  ∀ c f, a.isConnectDestroyed c = true → b ≠ .conn c f

theorem brings_of_isConnectDestroyed {k : Task τ υ} {c : Nat}
    (h : k.isConnectDestroyed c = true) : k.brings .destroyed c = true := by
  unfold Task.isConnectDestroyed at h
  split at h
  · rw [beq_iff_eq] at h
    subst h
    simp [Task.brings, Task.stage?]
  · cases h

end Task

namespace Server

variable {τ υ : Type}

structure Ordered (s : Server τ υ) : Prop where
  queue : ∀ l, (s.loops l).loop.queued.Pairwise Task.MayFollow
  spent : ∀ l c f, .conn c f ∈ (s.loops l).loop.queued → (s.conns c).done .destroyed = 0

/-- A functor for a connection that is not removed finds nothing of the last stage. -/
theorem Cycle.undestroyed_of_removals {s : Server τ υ} (h : s.Cycle []) {c : Nat}
    (hc : c < s.accepted) (hremovals : (s.conns c).removals = 0) :
    s.waiting [] .destroyed c = 0 ∧ (s.conns c).done .destroyed = 0 := by
  have hstages := h.stages .destroyed c hc
  simp only [Stage.due, hremovals, if_true] at hstages
  exact ⟨by omega, by omega⟩

/-- While a member is in flight, its connection is not destroyed and has no
`connectDestroyed` queued. -/
theorem undestroyed_of_flight {s : Server τ υ} (hplaced : s.Placed) (hregistered : s.Registered)
    (h : s.Cycle []) {θ : Thread τ} {j : Job τ υ} (hj : s.inFlight θ = some j)
    (htimely : s.Timely θ) {c : Nat} {f : Functor (Thread τ) Empty} (htask : j.task = .conn c f) :
    (s.loops j.loop).loop.queued.countP (Task.brings .destroyed c) = 0 ∧
      (s.conns c).done .destroyed = 0 := by
  have hplace := hplaced.flight θ j hj
  rw [htask] at hplace
  have hon := loopOf_eq_some.1 hplace
  rw [← hon.2]
  by_cases hf : f = .connectDestroyed
  · subst hf
    have hflight := hregistered.flight θ j c hj (by simp [htask])
    rcases hflight with ⟨rfl, -⟩
    have hstages := h.stages .destroyed c hon.1
    have hone : (s.inFlight (.loop 0)).toList.countP (·.task.brings .destroyed c) = 1 := by
      simp [hj, htask, Task.brings, Task.stage?]
    simp only [waiting, hone, Stage.due] at hstages
    split at hstages <;> omega
  · have hnone := h.undestroyed_of_removals hon.1 (htimely j c f hj htask hf)
    simp only [waiting] at hnone
    omega

theorem mayFollow_flight {s : Server τ υ} (hplaced : s.Placed) (hregistered : s.Registered)
    (h : s.Cycle []) {θ : Thread τ} {j : Job τ υ} (hj : s.inFlight θ = some j)
    (htimely : s.Timely θ) {a : Task τ υ} (ha : a ∈ (s.loops j.loop).loop.queued) :
    a.MayFollow j.task := by
  intro c f hdestroyed htask
  have hnone := (undestroyed_of_flight hplaced hregistered h hj htimely htask).1
  have hpos : 0 < (s.loops j.loop).loop.queued.countP (Task.brings .destroyed c) :=
    List.countP_pos_iff.2 ⟨a, ha, Task.brings_of_isConnectDestroyed hdestroyed⟩
  omega

variable [DecidableEq τ]

/-- Only the connection's own loop runs `connectDestroyed`, out of its queue. -/
theorem functor_of_connectDestroyed {s : Server τ υ} (hplaced : s.Placed)
    (hregistered : s.Registered) {i : ServerInput τ υ} {c : Nat}
    (hmember : s.member i = some (c, .connectDestroyed)) :
    ∃ w k, i = .functor (s.conns c).loop w ∧ k.isConnectDestroyed c = true ∧
      (s.loops (s.conns c).loop).loop.functors.head? = some k := by
  have hop : ∀ {f : Functor (Thread τ) Empty} {w : WriteResult},
      f.op w = .connectDestroyed → f = .connectDestroyed := by
    intro f w heq
    cases f with
    | connectDestroyed => rfl
    | _ => cases heq
  cases i with
  | callback l r retrieved w sockfd =>
      simp only [member] at hmember
      split at hmember
      · next kind todo htodo =>
          cases kind <;> cases hmember
      · cases hmember
  | deliver θ w =>
      simp only [member] at hmember
      split at hmember
      · next l d f inline hj =>
          rcases Option.ite_none_right_eq_some.1 hmember with ⟨⟨hinline, -⟩, hpair⟩
          rcases Prod.mk.inj (Option.some.inj hpair) with ⟨rfl, hrun⟩
          obtain rfl := hop hrun
          have hqueued := (hregistered.flight θ _ d hj (by simp)).2
          simp [hinline] at hqueued
      · cases hmember
  | functor l w =>
      simp only [member] at hmember
      split at hmember
      · next d f functors hfunctors =>
          rcases Prod.mk.inj (Option.some.inj hmember) with ⟨rfl, hrun⟩
          obtain rfl := hop hrun
          have hon : s.loopOf d = some l := (hplaced.loops l).queued (.conn d .connectDestroyed)
            (by simp [EventLoop.queued_of_functors hfunctors])
          obtain rfl := (loopOf_eq_some.1 hon).2
          exact ⟨w, _, rfl, Task.isConnectDestroyed_conn d d ▸ beq_self_eq_true d,
            by rw [hfunctors]; rfl⟩
      · cases hmember
  | _ => cases hmember

theorem step_ordered {s t : Server τ υ} {i : ServerInput τ υ} (hplaced : s.Placed)
    (hregistered : s.Registered) (hcycle : s.Cycle []) (htimely : s.Timely i.thread)
    (h : s.Ordered) (hstep : s.step i = some t) : t.Ordered := by
  have hmoves := step_connMoves hplaced hcycle hstep
  constructor
  · intro l
    cases step_queued hstep l with
    | kept hqueue =>
        rw [hqueue]
        exact h.queue l
    | @pushed j hj hl hqueue =>
        subst hl
        rw [hqueue, List.pairwise_append]
        refine ⟨h.queue _, List.pairwise_singleton _ _, ?_⟩
        intro a ha b hb
        rw [List.mem_singleton] at hb
        subst hb
        exact mayFollow_flight hplaced hregistered hcycle hj htimely ha
    | popped hqueue =>
        have hold := h.queue l
        rw [hqueue, List.pairwise_cons] at hold
        exact hold.2
  · intro l c f hmem
    -- A member that is queued now was queued before, or it has just been handed over.
    have hold : s.loopOf c = some l ∧ (s.conns c).done .destroyed = 0 := by
      have hqueued : .conn c f ∈ (s.loops l).loop.queued →
          s.loopOf c = some l ∧ (s.conns c).done .destroyed = 0 := fun hmem =>
        ⟨(hplaced.loops l).queued _ hmem, h.spent l c f hmem⟩
      cases step_queued hstep l with
      | kept hqueue =>
          rw [hqueue] at hmem
          exact hqueued hmem
      | @pushed j hj hl hqueue =>
          subst hl
          rw [hqueue, List.mem_append, List.mem_singleton] at hmem
          rcases hmem with hmem | htask
          · exact hqueued hmem
          · have hplace := hplaced.flight _ j hj
            rw [← htask] at hplace
            exact ⟨hplace,
              (undestroyed_of_flight hplaced hregistered hcycle hj htimely htask.symm).2⟩
      | popped hqueue =>
          apply hqueued
          rw [hqueue]
          exact List.mem_cons_of_mem _ hmem
    rcases hold with ⟨hon, hdone⟩
    rcases loopOf_eq_some.1 hon with ⟨hc, rfl⟩
    rcases PolledServer.done_step hc (hmoves c) with hsame | hmember
    · rw [hsame, hdone]
    · rcases functor_of_connectDestroyed hplaced hregistered hmember with
        ⟨w, k, rfl, hdestroyed, hhead⟩
      have hqueue := h.queue (s.conns c).loop
      rw [queued_functor hstep hhead, List.pairwise_cons] at hqueue
      exact (hqueue.1 _ hmem c f hdestroyed rfl).elim

end Server

namespace AtomicServer

variable {τ υ : Type} [DecidableEq τ]

/-! ## The invariant -/

omit [DecidableEq τ] in
/-- A functor is in flight only in the middle of a step; what a loop walks is on that loop
and not destroyed. -/
structure Walks (s : AtomicServer τ υ) : Prop where
  tracks : s.polled.Tracks
  ordered : s.polled.server.Ordered
  flight : ∀ θ, s.polled.server.inFlight θ ≠ none → s.running = some θ
  timely : ∀ θ, s.polled.server.Timely θ
  active : ∀ l, (s.polled.server.loops l).loop.eventHandling = true →
    ∀ c, some c ∈ s.activeChannels l → s.polled.server.loopOf c = some l ∧
      (s.polled.server.conns c).done .destroyed = 0
  todo : ∀ l, ∀ p ∈ (s.polled.server.loops l).todo, p.1 ∈ s.activeChannels l

omit [DecidableEq τ] in
theorem Walks.present {s : AtomicServer τ υ} (h : s.Walks) {c : Nat}
    (hdone : (s.polled.server.conns c).done .destroyed = 0) : s.polled.released c = false := by
  by_contra hreleased
  exact (h.tracks.released c (by simpa using hreleased)).2 hdone

omit [DecidableEq τ] in
theorem Walks.owned {s : AtomicServer τ υ} (h : s.Walks) : s.Owned := by
  intro l hhandling c hc
  rcases h.active l hhandling c hc with ⟨hon, hdone⟩
  exact ⟨h.present hdone,
    h.tracks.cycle.owned h.tracks.registered (Server.loopOf_eq_some.1 hon).1 hdone⟩

/-- What a loop walks is still there after a step of the server, unless the step is
`connectDestroyed` on that loop. -/
theorem Walks.step_active {s : AtomicServer τ υ} (h : s.Walks) {u : Server τ υ}
    {i : ServerInput τ υ} (hstep : s.polled.server.step i = some u) {l c : Nat}
    (hi : ∀ w, i ≠ .functor l w) (hon : s.polled.server.loopOf c = some l)
    (hdone : (s.polled.server.conns c).done .destroyed = 0) :
    u.loopOf c = some l ∧ (u.conns c).done .destroyed = 0 := by
  have hplaced := h.tracks.placed
  have hmoves := Server.step_connMoves hplaced h.tracks.cycle hstep c
  have haccepted := Server.accepted_step hplaced hstep
  rcases Server.loopOf_eq_some.1 hon with ⟨hc, rfl⟩
  have hloop : (u.conns c).loop = (s.polled.server.conns c).loop := by
    cases hmoves with
    | ran hmember hc hfits hallowed ht =>
        rw [ht]
        rfl
    | fresh hmember haccepts hfresh => omega
    | quiet hold hmember hquiet => exact hquiet.loop
  refine ⟨Server.loopOf_eq_some.2 ⟨by omega, hloop⟩, ?_⟩
  rcases PolledServer.done_step hc hmoves with hsame | hmember
  · rw [hsame, hdone]
  · rcases Server.functor_of_connectDestroyed hplaced h.tracks.registered hmember with
      ⟨w, k, rfl, -⟩
    exact (hi w rfl).elim

omit [DecidableEq τ] in
theorem filled_of_not_poll {s : AtomicServer τ υ} {i : ServerInput τ υ} {l : Nat}
    (h : ∀ events, i ≠ .poll l events) : s.filled (.server i) l = s.activeChannels l := by
  cases i with
  | poll m events =>
      have hl : l ≠ m := by
        rintro rfl
        exact h events rfl
      exact Function.update_of_ne hl _ _
  | _ => rfl

theorem Walks.polled {s : AtomicServer τ υ} (h : s.Walks) {u : Server τ υ} {l : Nat}
    {events : List (KEvent (Option Nat))} (hpossible : s.polled.Possible (.poll l events))
    (hevents : ∀ e ∈ events, s.polled.server.MayReport l e)
    (hstep : s.polled.server.step (.poll l events) = some u) {c : Nat}
    (hc : some c ∈ s.filled (.server (.poll l events)) l) :
    u.loopOf c = some l ∧ (u.conns c).done .destroyed = 0 := by
  simp only [filled, Function.update_self, Poller.fillActiveChannels_active] at hc
  rcases List.mem_map.1 hc with ⟨e, he, hudata⟩
  have hkernel : s.polled.kernel c e.filter = true := by
    have hpossible' : e.udata.all (s.polled.kernel · e.filter) = true := hpossible e he
    rw [hudata] at hpossible'
    exact hpossible'
  have hdone := h.tracks.undestroyed_of_kernel hkernel
  have hon : s.polled.server.loopOf c = some l := by
    have hreport := (hevents e he).1
    rw [hudata] at hreport
    exact Server.loopOf_eq_some.2 hreport
  exact h.step_active hstep (by simp) hon hdone.2

theorem Walks.server {s : AtomicServer τ υ} (h : s.Walks) {i : ServerInput τ υ}
    (hturn : s.Turn (.server i)) {p : PolledServer τ υ} (hpossible : s.polled.Possible i)
    (hp : s.polled.step (.server i) = some p)
    (hstep : s.polled.server.step i = some p.server) :
    (⟨p, s.filled (.server i), busy p (.server i)⟩ : AtomicServer τ υ).Walks := by
  have hplaced := h.tracks.placed
  have hidle : ∀ θ, θ ≠ i.thread → s.polled.server.inFlight θ = none := by
    intro θ hne
    by_contra hflight
    have hrunning := h.flight θ hflight
    simp only [Turn, hrunning, Option.all_some, decide_eq_true_eq] at hturn
    exact hne hturn
  have hkept : ∀ θ, θ ≠ i.thread → p.server.inFlight θ = none := by
    intro θ hne
    rw [Server.inFlight_step_of_ne hne hstep, hidle θ hne]
  refine ⟨PolledServer.step_tracks h.tracks hp, Server.step_ordered hplaced h.tracks.registered
    h.tracks.cycle (h.timely i.thread) h.ordered hstep, ?_, ?_, ?_, ?_⟩
  · intro θ hflight
    obtain rfl : θ = i.thread := by
      by_contra hne
      exact hflight (hkept θ hne)
    show (if p.server.Free i.thread then none else some i.thread) = some i.thread
    rw [if_neg]
    exact fun hfree => hflight hfree.1
  · intro θ
    by_cases hθ : θ = i.thread
    · subst hθ
      exact Server.step_timely hplaced h.tracks.cycle (h.timely _) hstep
    · exact .of_idle (hkept θ hθ)
  · intro l hhandling c hc
    change (p.server.loops l).loop.eventHandling = true at hhandling
    change some c ∈ s.filled (.server i) l at hc
    have hcalling := h.tracks.inPhase.calling l
    cases Server.step_pass hstep l with
    | poll hhandling' hcalling' hevents => exact h.polled hpossible hevents hstep hc
    | callback hhandling' =>
        rcases h.active l hhandling' c hc with ⟨hon, hdone⟩
        exact h.step_active hstep (by simp) hon hdone
    | doPendingFunctors hhandling' htodo ht =>
        rw [ht, Server.loops_setLoop_self] at hhandling
        cases hhandling
    | functor hcalling' hsame =>
        rw [hsame.handling, hcalling hcalling'] at hhandling
        cases hhandling
    | endPendingFunctors hcalling' ht =>
        rw [ht, Server.loops_setLoop_self] at hhandling
        change (s.polled.server.loops l).loop.eventHandling = true at hhandling
        rw [hcalling hcalling'] at hhandling
        cases hhandling
    | other hi hsame =>
        rw [filled_of_not_poll (by rintro events rfl; simp [Server.isPassOf] at hi)] at hc
        rw [hsame.handling] at hhandling
        rcases h.active l hhandling c hc with ⟨hon, hdone⟩
        exact h.step_active hstep (by rintro w rfl; simp [Server.isPassOf] at hi) hon hdone
  · intro l q hq
    change q ∈ (p.server.loops l).todo at hq
    show q.1 ∈ s.filled (.server i) l
    cases Server.step_pass hstep l with
    | poll hhandling' hcalling' hevents ht =>
        rw [ht] at hq
        rcases Server.mem_todo_poll hq with ⟨e, he, hudata⟩
        simp only [filled, Function.update_self, Poller.fillActiveChannels_active]
        exact List.mem_map.2 ⟨e, he, hudata⟩
    | callback hhandling' htodo =>
        exact h.todo l q (by rw [htodo]; exact List.mem_cons_of_mem _ hq)
    | doPendingFunctors hhandling' htodo ht =>
        rw [ht, Server.loops_setLoop_self] at hq
        exact h.todo l q hq
    | functor hcalling' hsame =>
        rw [hsame.todo] at hq
        exact h.todo l q hq
    | endPendingFunctors hcalling' ht =>
        rw [ht, Server.loops_setLoop_self] at hq
        exact h.todo l q hq
    | other hi hsame =>
        rw [filled_of_not_poll (by rintro events rfl; simp [Server.isPassOf] at hi)]
        rw [hsame.todo] at hq
        exact h.todo l q hq

theorem step_walks {s t : AtomicServer τ υ} {i : PolledInput τ υ} (h : s.Walks)
    (hstep : s.step i = some t) : t.Walks := by
  rcases Option.ite_none_right_eq_some.1 hstep with ⟨hturn, hstep⟩
  rcases Option.map_eq_some_iff.1 hstep with ⟨p, hp, rfl⟩
  cases i with
  | server i =>
      rcases PolledServer.step_server hp with ⟨hpossible, u, hu, rfl⟩
      exact h.server hturn hpossible hp hu
  | release c =>
      have htracks := PolledServer.step_tracks h.tracks hp
      rcases Option.ite_none_right_eq_some.1 hp with ⟨-, ⟨⟩⟩
      have hrunning : s.running = none := hturn
      refine ⟨htracks, h.ordered, ?_, h.timely, h.active, h.todo⟩
      intro θ hflight
      rw [h.flight θ hflight] at hrunning
      cases hrunning

omit [DecidableEq τ] in
theorem start_walks (name : String) (numThreads : Nat) (cb mcb : Bool) :
    (start name numThreads cb mcb : AtomicServer τ υ).Walks where
  tracks := PolledServer.start_tracks name numThreads cb mcb
  ordered := ⟨fun _ => .nil, nofun⟩
  flight := fun _ hflight => (hflight rfl).elim
  timely := fun _ => .of_idle rfl
  active := nofun
  todo := nofun

/-! ## Owners -/

/-- A member runs on a connection that is there: a callback of the pass, a functor in
flight that is run inline, or one that was queued before `connectDestroyed`. -/
theorem Walks.member_present {s : AtomicServer τ υ} (h : s.Walks) {u : Server τ υ}
    {i : ServerInput τ υ} (hstep : s.polled.server.step i = some u) {c : Nat}
    {op : Op (Thread τ)} (hmember : s.polled.server.member i = some (c, op)) :
    s.polled.released c = false := by
  have htracks := h.tracks
  apply h.present
  cases i with
  | callback l r retrieved w sockfd =>
      simp only [Server.member] at hmember
      split at hmember
      · next d kind todo htodo =>
          rcases Prod.mk.inj (Option.some.inj hmember) with ⟨rfl, -⟩
          have hhandling := (Server.todo_step_callback hstep).1
          have hactive := h.todo l (some d, kind) (by simp [htodo])
          exact (h.active l hhandling d hactive).2
      · cases hmember
  | deliver θ w =>
      simp only [Server.member] at hmember
      split at hmember
      · next l d f inline hj =>
          rcases Option.ite_none_right_eq_some.1 hmember with ⟨-, hpair⟩
          rcases Prod.mk.inj (Option.some.inj hpair) with ⟨rfl, -⟩
          exact (Server.undestroyed_of_flight htracks.placed htracks.registered htracks.cycle hj
            (h.timely θ) rfl).2
      · cases hmember
  | functor l w =>
      simp only [Server.member] at hmember
      split at hmember
      · next d f functors hfunctors =>
          rcases Prod.mk.inj (Option.some.inj hmember) with ⟨rfl, -⟩
          exact h.ordered.spent l d f (by simp [EventLoop.queued_of_functors hfunctors])
      · cases hmember
  | _ => cases hmember

/-- No member runs on a released connection. -/
theorem members_present (name : String) (numThreads : Nat) (cb mcb : Bool)
    (is : List (PolledInput τ υ)) :
    (machine τ υ).AlwaysStep
      (fun s i _ => ∀ j, i = .server j → ∀ p ∈ s.polled.server.member j,
        s.polled.released p.1 = false)
      (start name numThreads cb mcb) is := by
  apply Machine.alwaysStep_of_invariant (I := Walks) (C := fun _ _ => True)
  · refine fun s i t hs _ hstep => ⟨step_walks hs hstep, ?_⟩
    rintro j rfl ⟨c, op⟩ hmember
    rcases Option.ite_none_right_eq_some.1 hstep with ⟨-, hstep⟩
    rcases Option.map_eq_some_iff.1 hstep with ⟨p, hp, -⟩
    rcases PolledServer.step_server hp with ⟨-, u, hu, -⟩
    exact hs.member_present hu (Option.mem_def.1 hmember)
  · exact start_walks name numThreads cb mcb
  · exact Machine.meets_of_forall_mem (C := fun _ => True) fun _ _ => trivial

/-- Whatever is reported, closed and released in whichever order, the connections whose
channels a loop walks are owned. -/
theorem active_owned (name : String) (numThreads : Nat) (cb mcb : Bool)
    (is : List (PolledInput τ υ)) :
    (machine τ υ).Always Owned (start name numThreads cb mcb) is := by
  apply Machine.Always.mono (P := Walks)
  · exact fun s hs => hs.owned
  · exact Machine.always_of_invariant (I := Walks) (fun s i t hs hstep => step_walks hs hstep)
      (start_walks name numThreads cb mcb) is

end AtomicServer

end Hayai
