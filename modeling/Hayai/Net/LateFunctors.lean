import Hayai.Machine.Run
import Hayai.Net.ActiveChannels
import Hayai.Net.ServerKernel
import Hayai.Net.ServerTasks

/-! # Functors that hold no pointer

`send()`, `shutdown()` and `forceClose()` test `state_` on the thread that calls them, and queue
a functor with a plain `this` afterwards; other threads move in between. A thread has a
`TcpConnectionPtr` of the connection that it calls. It may let go of it as soon as the call has
returned, when the functor is still queued.
-/

namespace Hayai

variable {τ υ : Type}

/-! ## The model -/

def Task.isRaw (c : Nat) : Task τ υ → Bool
  | .conn d (.sendInLoop _) | .conn d .shutdownInLoop | .conn d .handleClose => d == c
  | _ => false

def ServerInput.callee : ServerInput τ υ → Option (Thread τ × Nat)
  | .call θ c _ => some (θ, c)
  | _ => none

/-- A server with its pollers and the pointers that threads have to its connections. -/
structure PointerServer (τ υ : Type) where
  polled : PolledServer τ υ
  pointers : List (Thread τ × Nat)

/-- `take` and `drop` are the begin and the end of a `TcpConnectionPtr` of a thread. -/
inductive PointerInput (τ υ : Type) where
  | polled (i : PolledInput τ υ)
  | take (θ : Thread τ) (c : Nat)
  | drop (θ : Thread τ) (c : Nat)

namespace Server

variable [DecidableEq τ]

/-- The functor that the step runs, out of a queue or in `runInLoop` itself. -/
def running (s : Server τ υ) : ServerInput τ υ → Option (Task τ υ)
  | .deliver θ _ =>
      match s.inFlight θ with
      | some j => if j.inline = true ∧ θ = .loop j.loop then some j.task else none
      | none => none
  | .functor l _ => (s.loops l).loop.functors.head?
  | _ => none

omit [DecidableEq τ] in
/-- A functor with the plain `this` of connection `c` is queued behind `connectDestroyed`, or is
still queued when that has run. -/
def Late (s : Server τ υ) (c : Nat) : Prop :=
  ∃ l before k after, (s.loops l).loop.queued = before ++ k :: after ∧ k.isRaw c = true ∧
    ((s.conns c).done .destroyed ≠ 0 ∨ ∃ a ∈ before, a.isConnectDestroyed c = true)

end Server

namespace PointerServer

variable [DecidableEq τ]

def Points (s : PointerServer τ υ) : PolledInput τ υ → Prop
  | .server i => i.callee.all (· ∈ s.pointers) = true
  | .release c => s.pointers.any (·.2 = c) = false

instance (s : PointerServer τ υ) : (i : PolledInput τ υ) → Decidable (s.Points i)
  | .server i => inferInstanceAs (Decidable (i.callee.all (· ∈ s.pointers) = true))
  | .release c => inferInstanceAs (Decidable (s.pointers.any (·.2 = c) = false))

/-- A thread can take a pointer to any connection that is there, and keeps its pointers during a
call. -/
def step (s : PointerServer τ υ) : PointerInput τ υ → Option (PointerServer τ υ)
  | .polled i =>
      if s.Points i then (s.polled.step i).map fun polled => { s with polled } else none
  | .take θ c =>
      if s.polled.server.Free θ ∧ c < s.polled.server.accepted ∧ s.polled.released c = false then
        some { s with pointers := (θ, c) :: s.pointers }
      else none
  | .drop θ c =>
      if s.polled.server.Free θ ∧ (θ, c) ∈ s.pointers then
        some { s with pointers := s.pointers.erase (θ, c) }
      else none

def machine (τ υ : Type) [DecidableEq τ] : Machine (PointerServer τ υ) (PointerInput τ υ) := ⟨step⟩

omit [DecidableEq τ] in
def start (name : String) (numThreads : Nat) (connectionCallback messageCallback : Bool) :
    PointerServer τ υ :=
  ⟨.start name numThreads connectionCallback messageCallback, []⟩

/-! ## What is asked -/

omit [DecidableEq τ] in
/-- The registry has connection `c`, or a functor with a pointer, or a thread. -/
def HasOwner (s : PointerServer τ υ) (c : Nat) : Prop :=
  s.polled.server.owned c = true ∨ ∃ p ∈ s.pointers, p.2 = c

def RunsOwned (s : PointerServer τ υ) (i : PointerInput τ υ) (_ : PointerServer τ υ) : Prop :=
  ∀ j k c, i = .polled (.server j) → s.polled.server.running j = some k → k.isRaw c = true →
    s.HasOwner c

/-- The last pointer that a thread has to a connection is not dropped while a functor for it is
queued that its `connectDestroyed` does not wait for. -/
def LetsGo (s : PointerServer τ υ) : PointerInput τ υ → Prop
  | .drop θ c => (∃ p ∈ s.pointers.erase (θ, c), p.2 = c) ∨ ¬s.polled.server.Late c
  | _ => True

end PointerServer

/-! ## Functors on their way -/

theorem Task.exists_of_isRaw {k : Task τ υ} {c : Nat} (h : k.isRaw c = true) :
    ∃ f, k = .conn c f ∧ f ≠ .connectDestroyed := by
  unfold Task.isRaw at h
  split at h
  · obtain rfl := beq_iff_eq.1 h
    exact ⟨_, rfl, nofun⟩
  · obtain rfl := beq_iff_eq.1 h
    exact ⟨_, rfl, nofun⟩
  · obtain rfl := beq_iff_eq.1 h
    exact ⟨_, rfl, nofun⟩
  · cases h

namespace Server

variable [DecidableEq τ]

/-- A public call hands over nothing but a functor of its own connection. -/
theorem flight_call {s : Server τ υ} {θ : Thread τ} (h : s.inFlight θ = none) {c : Nat} {k : Call}
    {j : Job τ υ} (hj : (s.call θ c k).inFlight θ = some j) : ∃ f, j.task = .conn c f := by
  cases k <;> simp only [call] at hj <;> split at hj
  all_goals first
    | cases h.symm.trans hj
    | rw [runInLoop, inFlight_setFlight_self] at hj
      cases hj
      exact ⟨_, rfl⟩

/-- Off the base loop, a functor with a plain `this` comes from a public call. -/
theorem raw_step {s t : Server τ υ} {i : ServerInput τ υ} (hstep : s.step i = some t)
    (hbase : i.thread ≠ .loop 0) {j : Job τ υ} (hj : t.inFlight i.thread = some j) {c : Nat}
    (hraw : j.task.isRaw c = true) : s.inFlight i.thread = some j ∨ ∃ k, i = .call i.thread c k := by
  obtain ⟨f, htask, hf⟩ := Task.exists_of_isRaw hraw
  cases (step_spec hstep).2 with
  | @call θ d k hfree =>
      obtain ⟨f', hf'⟩ := flight_call hfree.1 hj
      cases hf'.symm.trans htask
      exact .inr ⟨k, rfl⟩
  | @stop θ =>
      change (s.setFlight θ _).inFlight θ = some j at hj
      rw [inFlight_setFlight_self] at hj
      cases hj
      cases htask
  | stopNext => exact (hbase rfl).elim
  | @deliver θ w j' hj' =>
      have hidle : (s.setFlight θ none).inFlight θ = none := inFlight_setFlight_self s θ none
      unfold deliver at hj
      dsimp only at hj
      split at hj
      · obtain ⟨d, hremoval | hdestroyed⟩ := flight_perform hidle hj
        · cases hremoval.symm.trans htask
        · cases hdestroyed.symm.trans htask
          exact (hf rfl).elim
      · cases hidle.symm.trans hj
  | @queueUser θ =>
      change (s.setFlight θ _).inFlight θ = some j at hj
      rw [inFlight_setFlight_self] at hj
      cases hj
      cases htask
  | callback htodo hfree =>
      cases (flight_exec (s := s.setTodo _ _) hfree.1 hj).symm.trans htask
  | @accept l r retrieved w sockfd kind todo htodo hfree =>
      have hother : Thread.loop l ≠ .loop 0 := hbase
      unfold newConnection at hj
      rw [if_neg hother] at hj
      exact .inl hj
  | functor hfunctors hfree =>
      obtain ⟨d, hremoval | hdestroyed⟩ := flight_perform (s := s.setLoop _ _) hfree.1 hj
      · cases hremoval.symm.trans htask
      · cases hdestroyed.symm.trans htask
        exact (hf rfl).elim
  | _ => exact .inl hj

/-! ## Removals -/

omit [DecidableEq τ] in
theorem removals_act (s : Server τ υ) (θ : Thread τ) (c : Nat) (op : Op (Thread τ)) (d : Nat) :
    ((s.act θ c op).conns d).removals = (s.conns d).removals := by
  by_cases hd : d = c
  · subst hd
    rw [act, conns_setConn_self]
    rfl
  · rw [conns_act_of_ne hd]

theorem removals_exec (s : Server τ υ) (θ : Thread τ) (c : Nat) (op : Op (Thread τ)) (d : Nat) :
    ((s.exec θ c op).conns d).removals = (s.conns d).removals := by
  unfold exec
  split
  · rfl
  · dsimp only
    split <;> exact removals_act s θ c op d

theorem removals_perform {s : Server τ υ} {θ : Thread τ} (h : θ ≠ .loop 0) (w : WriteResult)
    (k : Task τ υ) (d : Nat) : ((s.perform θ w k).conns d).removals = (s.conns d).removals := by
  cases k with
  | conn c f => exact removals_exec s θ c _ d
  | removeConnectionInLoop c =>
      simp only [perform, removeConnectionInLoop, if_neg h]
      rfl
  | stop => rfl
  | user x => rfl

theorem removals_call (s : Server τ υ) (θ : Thread τ) (c : Nat) (k : Call) (d : Nat) :
    ((s.call θ c k).conns d).removals = (s.conns d).removals := by
  cases k <;> simp only [call] <;> split
  all_goals first | rfl | exact removals_act s θ c _ d

theorem removals_step {s t : Server τ υ} {i : ServerInput τ υ} (hstep : s.step i = some t)
    (hbase : i.thread ≠ .loop 0) (d : Nat) : (t.conns d).removals = (s.conns d).removals := by
  cases (step_spec hstep).2 with
  | call => exact removals_call s _ _ _ d
  | stopNext => exact (hbase rfl).elim
  | @deliver θ w j hj =>
      unfold deliver
      dsimp only
      split
      · exact removals_perform hbase _ _ _
      · rfl
  | callback => exact removals_exec _ _ _ _ _
  | @accept l r retrieved w sockfd kind todo htodo hfree =>
      have hother : Thread.loop l ≠ .loop 0 := hbase
      unfold newConnection
      rw [if_neg hother]
      rfl
  | functor => exact removals_perform hbase _ _ _
  | _ => rfl

/-- What the base loop's thread is about to hand over is of a connection that is not removed. -/
theorem step_timely_base {s t : Server τ υ} {i : ServerInput τ υ} (hplaced : s.Placed)
    (hcycle : s.Cycle []) (h : s.Timely (.loop 0)) (hstep : s.step i = some t) :
    t.Timely (.loop 0) := by
  by_cases hbase : i.thread = .loop 0
  · rw [← hbase] at h ⊢
    exact step_timely hplaced hcycle h hstep
  · have hne : Thread.loop 0 ≠ i.thread := fun heq => hbase heq.symm
    exact h.congr (inFlight_step_of_ne hne hstep) (removals_step hstep hbase)

/-! ## Late functors -/

/-- A functor becomes late when it is pushed. -/
theorem late_step {s t : Server τ υ} {i : ServerInput τ υ} (hplaced : s.Placed)
    (hregistered : s.Registered) (hcycle : s.Cycle []) (hstep : s.step i = some t) {c : Nat}
    (h : t.Late c) : s.Late c ∨ ∃ j, s.inFlight i.thread = some j ∧ j.task.isRaw c = true ∧
      ¬s.Timely i.thread := by
  rcases h with ⟨l, before, k, after, hqueue, hraw, hlate⟩
  obtain ⟨f, rfl, hf⟩ := Task.exists_of_isRaw hraw
  have hmoves := step_connMoves hplaced hcycle hstep c
  have hmem : .conn c f ∈ (t.loops l).loop.queued := by
    rw [hqueue]
    simp
  have hon : s.loopOf c = some l := by
    cases step_queued hstep l with
    | kept hkept =>
        rw [hkept] at hmem
        exact (hplaced.loops l).queued _ hmem
    | @pushed j hj hl hpushed =>
        rw [hpushed, List.mem_append, List.mem_singleton] at hmem
        rcases hmem with hmem | htask
        · exact (hplaced.loops l).queued _ hmem
        · have hplace := hplaced.flight _ j hj
          rw [← htask, hl] at hplace
          exact hplace
    | popped hpopped =>
        apply (hplaced.loops l).queued (.conn c f)
        rw [hpopped]
        exact List.mem_cons_of_mem _ hmem
  rcases loopOf_eq_some.1 hon with ⟨hc, rfl⟩
  rcases PolledServer.done_step hc hmoves with hsame | hmember
  · rw [hsame] at hlate
    cases step_queued hstep (s.conns c).loop with
    | kept hkept =>
        rw [hkept] at hqueue
        exact .inl ⟨_, before, _, after, hqueue, hraw, hlate⟩
    | @pushed j hj hl hpushed =>
        rw [hpushed] at hqueue
        rcases Machine.log_split hqueue with ⟨rest, hold, -⟩ | ⟨rest, hbefore, hadded⟩
        · exact .inl ⟨_, before, _, rest, hold, hraw, hlate⟩
        · rcases List.singleton_eq_append_iff.1 hadded with ⟨rfl, hlast⟩ | ⟨-, hlast⟩
          · have htask : j.task = .conn c f := (List.cons.inj hlast).1.symm
            refine .inr ⟨j, hj, htask ▸ hraw, fun htimely => ?_⟩
            have hnone := undestroyed_of_flight hplaced hregistered hcycle hj htimely htask
            rw [hl] at hnone
            rcases hlate with hdone | ⟨a, ha, hdestroyed⟩
            · exact hdone hnone.2
            · rw [hbefore, List.append_nil] at ha
              exact List.countP_eq_zero.1 hnone.1 a ha (Task.brings_of_isConnectDestroyed hdestroyed)
          · cases hlast
    | @popped k hpopped =>
        rw [hqueue] at hpopped
        refine .inl ⟨_, k :: before, _, after, hpopped, hraw, hlate.imp_right ?_⟩
        rintro ⟨a, ha, hdestroyed⟩
        exact ⟨a, List.mem_cons_of_mem _ ha, hdestroyed⟩
  · -- The functor was behind its `connectDestroyed`, which has just been run.
    rcases functor_of_connectDestroyed hplaced hregistered hmember with
      ⟨w, k, rfl, hdestroyed, hhead⟩
    have hpopped := queued_functor hstep hhead
    rw [hqueue] at hpopped
    exact .inl ⟨_, k :: before, _, after, hpopped, hraw, .inr ⟨k, List.mem_cons_self, hdestroyed⟩⟩

end Server

namespace PointerServer

variable {s t : PointerServer τ υ}

/-! ## The invariant -/

/-- Off the base loop, who is in the middle of a call has a pointer. Late functors are of
connections that somebody has a pointer to. -/
structure Guarded (s : PointerServer τ υ) : Prop where
  tracks : s.polled.Tracks
  timely : s.polled.server.Timely (.loop 0)
  calling : ∀ θ j c, θ ≠ .loop 0 → s.polled.server.inFlight θ = some j → j.task.isRaw c = true →
    (θ, c) ∈ s.pointers
  sheltered : ∀ c, s.polled.server.Late c → ∃ p ∈ s.pointers, p.2 = c

theorem Guarded.owned (h : s.Guarded) {c : Nat} (hc : c < s.polled.server.accepted)
    (hdone : (s.polled.server.conns c).done .destroyed = 0) : s.HasOwner c :=
  .inl (h.tracks.cycle.owned h.tracks.registered hc hdone)

variable [DecidableEq τ]

theorem Guarded.server (h : s.Guarded) {i : ServerInput τ υ} (hpoints : s.Points (.server i))
    {polled : PolledServer τ υ} (hpolled : s.polled.step (.server i) = some polled) :
    ({ s with polled } : PointerServer τ υ).Guarded := by
  have htracks := PolledServer.step_tracks h.tracks hpolled
  rcases PolledServer.step_server hpolled with ⟨-, u, hstep, rfl⟩
  have hplaced := h.tracks.placed
  refine ⟨htracks, Server.step_timely_base hplaced h.tracks.cycle h.timely hstep, ?_, ?_⟩
  · intro θ j c hbase hj hraw
    have hj' : u.inFlight θ = some j := hj
    by_cases hθ : θ = i.thread
    · subst hθ
      rcases Server.raw_step hstep hbase hj' hraw with hold | ⟨k, hi⟩
      · exact h.calling _ j c hbase hold hraw
      · rw [hi] at hpoints
        exact of_decide_eq_true hpoints
    · rw [Server.inFlight_step_of_ne hθ hstep] at hj'
      exact h.calling θ j c hbase hj' hraw
  · intro c hlate
    rcases Server.late_step hplaced h.tracks.registered h.tracks.cycle hstep hlate with
      hold | ⟨j, hj, hraw, htimely⟩
    · exact h.sheltered c hold
    · have hbase : i.thread ≠ .loop 0 := by
        intro hbase
        rw [hbase] at htimely
        exact htimely h.timely
      exact ⟨_, h.calling _ j c hbase hj hraw, rfl⟩

theorem Guarded.drop (h : s.Guarded) {θ : Thread τ} {c : Nat} (hfree : s.polled.server.Free θ)
    (hletsGo : s.LetsGo (.drop θ c)) :
    ({ s with pointers := s.pointers.erase (θ, c) } : PointerServer τ υ).Guarded := by
  refine ⟨h.tracks, h.timely, ?_, ?_⟩
  · intro θ' j d hbase hj hraw
    refine (List.mem_erase_of_ne ?_).2 (h.calling θ' j d hbase hj hraw)
    rintro ⟨⟩
    cases hfree.1.symm.trans hj
  · intro d hlate
    by_cases hd : d = c
    · subst hd
      exact hletsGo.resolve_right fun hnot => hnot hlate
    · rcases h.sheltered d hlate with ⟨p, hp, rfl⟩
      refine ⟨p, (List.mem_erase_of_ne ?_).2 hp, rfl⟩
      rintro rfl
      exact hd rfl

theorem step_guarded {i : PointerInput τ υ} (h : s.Guarded) (hletsGo : s.LetsGo i)
    (hstep : s.step i = some t) : t.Guarded := by
  cases i with
  | polled i =>
      rcases Option.ite_none_right_eq_some.1 hstep with ⟨hpoints, hmap⟩
      rcases Option.map_eq_some_iff.1 hmap with ⟨polled, hpolled, rfl⟩
      cases i with
      | server i => exact h.server hpoints hpolled
      | release c =>
          have htracks := PolledServer.step_tracks h.tracks hpolled
          rcases Option.ite_none_right_eq_some.1 hpolled with ⟨-, ⟨⟩⟩
          exact ⟨htracks, h.timely, h.calling, h.sheltered⟩
  | take θ c =>
      rcases Option.ite_none_right_eq_some.1 hstep with ⟨-, ⟨⟩⟩
      refine ⟨h.tracks, h.timely, ?_, ?_⟩
      · intro θ' j d hbase hj hraw
        exact List.mem_cons_of_mem _ (h.calling θ' j d hbase hj hraw)
      · intro d hlate
        rcases h.sheltered d hlate with ⟨p, hp, hd⟩
        exact ⟨p, List.mem_cons_of_mem _ hp, hd⟩
  | drop θ c =>
      rcases Option.ite_none_right_eq_some.1 hstep with ⟨⟨hfree, -⟩, ⟨⟩⟩
      exact h.drop hfree hletsGo

/-! ## Owners -/

/-- A functor that is not late finds its connection in the registry, or its `connectDestroyed`
still to come. -/
theorem Guarded.runsOwned (h : s.Guarded) (i : PointerInput τ υ) : s.RunsOwned i t := by
  rintro j k c rfl hrunning hraw
  obtain ⟨f, rfl, hf⟩ := Task.exists_of_isRaw hraw
  have hplaced := h.tracks.placed
  cases j with
  | deliver θ w =>
      simp only [Server.running] at hrunning
      split at hrunning
      · next j hj =>
          rcases Option.ite_none_right_eq_some.1 hrunning with ⟨-, htask⟩
          rw [Option.some.injEq] at htask
          by_cases hbase : θ = .loop 0
          · subst hbase
            have hplace := hplaced.flight _ j hj
            rw [htask] at hplace
            have hc := (Server.loopOf_eq_some.1 hplace).1
            have hremovals := h.timely j c f hj htask hf
            exact h.owned hc (h.tracks.cycle.undestroyed_of_removals hc hremovals).2
          · exact .inr ⟨_, h.calling θ j c hbase hj (htask ▸ hraw), rfl⟩
      · cases hrunning
  | functor l w =>
      obtain ⟨functors, hfunctors⟩ := List.head?_eq_some_iff.1 hrunning
      have hqueue := EventLoop.queued_of_functors hfunctors
      have hon : s.polled.server.loopOf c = some l :=
        (hplaced.loops l).queued (.conn c f) (by simp [hqueue])
      by_cases hdone : (s.polled.server.conns c).done .destroyed = 0
      · exact h.owned (Server.loopOf_eq_some.1 hon).1 hdone
      · exact .inr (h.sheltered c ⟨l, [], _, _, hqueue, hraw, .inl hdone⟩)
  | _ => cases hrunning

omit [DecidableEq τ] in
theorem start_guarded (name : String) (numThreads : Nat) (cb mcb : Bool) :
    (start name numThreads cb mcb : PointerServer τ υ).Guarded where
  tracks := PolledServer.start_tracks name numThreads cb mcb
  timely := .of_idle rfl
  calling := nofun
  sheltered := by
    rintro c ⟨l, before, k, after, hqueue, -⟩
    cases before <;> cases hqueue

/-- If no thread drops the last pointer to a connection while a late functor for it is queued,
every functor of `send()`, `shutdown()` and `forceClose()` runs while its connection has an
owner. -/
theorem queued_calls_owned (name : String) (numThreads : Nat) (cb mcb : Bool)
    (is : List (PointerInput τ υ))
    (letsGo : (machine τ υ).Meets LetsGo (start name numThreads cb mcb) is) :
    (machine τ υ).AlwaysStep RunsOwned (start name numThreads cb mcb) is := by
  apply Machine.alwaysStep_of_invariant (I := Guarded) (C := LetsGo)
  · exact fun s i t hs hletsGo hstep => ⟨step_guarded hs hletsGo hstep, hs.runsOwned i⟩
  · exact start_guarded name numThreads cb mcb
  · exact letsGo

/-- A thread tests `state_` in `send()`. The client closes, the connection is removed and
destroyed, and only then the thread queues its functor. -/
def sendDuringClose : List (PointerInput Unit Unit) :=
  ([.poll 0 [⟨0, .read, false, false, none⟩], .callback 0 (.bytes []) 0 (.wrote 0) (some 7),
    .deliver (.loop 0) (.wrote 0)] : List (ServerInput Unit Unit)).map (.polled ∘ .server) ++
  .take (.other ()) 0 ::
  ([.call (.other ()) 0 (.send [65]), .doPendingFunctors 0, .endPendingFunctors 0,
    .poll 0 [⟨7, .read, false, false, some 0⟩], .callback 0 (.bytes []) 0 (.wrote 0) none,
    .deliver (.loop 0) (.wrote 0), .deliver (.loop 0) (.wrote 0), .doPendingFunctors 0,
    .functor 0 (.wrote 0), .deliver (.other ()) (.wrote 0), .endPendingFunctors 0] :
    List (ServerInput Unit Unit)).map (.polled ∘ .server)

/-- The thread keeps its pointer until the functor has run. -/
theorem queued_calls_owned_kept :
    (machine Unit Unit).AlwaysStep RunsOwned (start "echo" 0 true true)
      (sendDuringClose ++ [.polled (.server (.poll 0 [])), .polled (.server (.doPendingFunctors 0)),
        .polled (.server (.functor 0 (.wrote 0)))]) := by
  apply queued_calls_owned
  refine Machine.AlwaysStep.mono ?_
    (Machine.meets_of_forall_mem (C := fun i => ∀ θ c, i ≠ .drop θ c) (by simp [sendDuringClose]))
  intro s i _ hkept
  cases i with
  | drop θ c => exact (hkept θ c rfl).elim
  | _ => trivial

/-- The thread drops its pointer, which is the last one, and the functor runs on a connection
that has been released. -/
theorem send_runs_without_owner :
    ¬(machine Unit Unit).AlwaysStep RunsOwned (start "echo" 0 true true)
      ((sendDuringClose ++ [.drop (.other ()) 0, .polled (.release 0),
        .polled (.server (.poll 0 [])), .polled (.server (.doPendingFunctors 0))]) ++
        [.polled (.server (.functor 0 (.wrote 0)))]) := by
  intro h
  have hruns := h.read rfl rfl
  rcases hruns _ _ 0 rfl rfl rfl with howned | ⟨p, hp, -⟩
  · exact absurd howned (by decide +kernel)
  · cases hp

end PointerServer

end Hayai
