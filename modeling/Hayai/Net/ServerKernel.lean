import Hayai.Machine.Run
import Hayai.Net.PolledServer
import Hayai.Net.Registry
import Hayai.Net.ServerLifecycle

/-! # What the kernel has of a server's connections

Along every run the kernel has what the channel of an open connection asks for, and nothing
of one that is closed. A connection is released only after its `connectDestroyed`; until
then the server owns it.
-/

namespace Hayai

variable {τ υ : Type}

theorem Task.holds_of_brings {k : Task τ υ} {g : Stage} {c : Nat} (h : k.brings g c = true) :
    k.holds c = true := by
  have hstage : k.stage? = some (g, c) := by simpa [Task.brings] using h
  unfold Task.stage? at hstage
  split at hstage
  · cases hstage
    exact beq_self_eq_true c
  · cases hstage
    exact beq_self_eq_true c
  · cases hstage

namespace Server

theorem owned_of_waiting {s : Server τ υ} {g : Stage} {c : Nat} (h : 0 < s.waiting [] g c) :
    s.owned c = true := by
  have hany : ([0, (s.conns c).loop].any fun l =>
      (s.loops l).loop.queued.any (Task.holds c) ||
        (s.inFlight (.loop l)).any (·.task.holds c)) = true := by
    rw [List.any_eq_true]
    simp only [waiting, List.countP_nil, Nat.add_zero, Nat.add_pos_iff_pos_or_pos] at h
    rcases h with hqueued | hflight
    · rcases List.countP_pos_iff.1 hqueued with ⟨k, hk, hbrings⟩
      refine ⟨(s.conns c).loop, by simp, ?_⟩
      rw [Bool.or_eq_true, List.any_eq_true]
      exact .inl ⟨k, hk, Task.holds_of_brings hbrings⟩
    · rcases List.countP_pos_iff.1 hflight with ⟨j, hj, hbrings⟩
      refine ⟨0, by simp, ?_⟩
      rw [Bool.or_eq_true, Option.mem_toList.1 hj]
      exact .inr (Task.holds_of_brings hbrings)
  rw [owned, hany, Bool.or_true]

/-- Nothing of the last stage is due to a connection that is not Disconnected. -/
theorem Cycle.undestroyed {s : Server τ υ} (h : s.Cycle []) {c : Nat} (hc : c < s.accepted)
    (hstate : s.state c ≠ .disconnected) :
    (s.conns c).removals = 0 ∧ s.waiting [] .destroyed c = 0 ∧
      (s.conns c).done .destroyed = 0 := by
  have hremovals : (s.conns c).removals = 0 := by
    by_contra hne
    exact hstate ((h.conns c hc).removed hne)
  have hstages := h.stages .destroyed c hc
  simp only [Stage.due, hremovals, if_true] at hstages
  exact ⟨hremovals, by omega, by omega⟩

/-- The server owns a connection until its `connectDestroyed` has run. -/
theorem Cycle.owned {s : Server τ υ} (h : s.Cycle []) (hregistered : s.Registered) {c : Nat}
    (hc : c < s.accepted) (hdone : (s.conns c).done .destroyed = 0) : s.owned c = true := by
  by_cases hremovals : (s.conns c).removals = 0
  · have hentry := (hregistered.entries _ c).2 ⟨hc, rfl, hremovals⟩
    have hany : s.connections.any (·.2 == c) = true :=
      List.any_eq_true.2 ⟨_, hentry, beq_self_eq_true c⟩
    simp only [Server.owned, hany, Bool.true_or]
  · have hstages := h.stages .destroyed c hc
    simp only [Stage.due, hremovals, if_false, hdone] at hstages
    exact owned_of_waiting (g := .destroyed) (by omega)

end Server

namespace PolledServer

/-! ## The pollers -/

theorem server_ran (s : PolledServer τ υ) (c : Nat) (op : Op (Thread τ)) :
    (s.ran c op).server = s.server := by
  unfold ran
  dsimp only
  split <;> split <;> rfl

theorem released_ran (s : PolledServer τ υ) (c : Nat) (op : Op (Thread τ)) :
    (s.ran c op).released = s.released := by
  unfold ran
  dsimp only
  split <;> split <;> rfl

theorem kernel_ran_of_ne {s : PolledServer τ υ} {c d : Nat} (hd : d ≠ c) (op : Op (Thread τ)) :
    (s.ran c op).kernel d = s.kernel d := by
  unfold ran
  dsimp only
  split <;> split <;> simp [updateChannel, removeChannel, setEntry, hd]

theorem kernel_ran_self {s : PolledServer τ υ} {c : Nat} {op : Op (Thread τ)}
    (h : Tended (s.server.conns c).conn (s.kernel c) (op.run (s.server.conns c).conn)) :
    (s.ran c op).kernel c =
      if (op.run (s.server.conns c).conn).2.contains .updateChannel then
        (s.kernel c).kevent (Poller.updates (op.run (s.server.conns c).conn).1.channel)
      else s.kernel c := by
  unfold ran
  dsimp only
  simp only [h.removes, Bool.false_eq_true, if_false]
  split <;> simp [updateChannel]

theorem kernel_dropAcceptor (s : PolledServer τ υ) : s.dropAcceptor.kernel = s.kernel := by
  unfold dropAcceptor
  split <;> rfl

theorem released_dropAcceptor (s : PolledServer τ υ) : s.dropAcceptor.released = s.released := by
  unfold dropAcceptor
  split <;> rfl

variable [DecidableEq τ]

theorem released_polled (s : PolledServer τ υ) (i : ServerInput τ υ) :
    (s.polled i).released = s.released := by
  unfold polled
  cases s.server.member i with
  | none =>
      dsimp only
      split
      · exact released_dropAcceptor s
      · rfl
  | some p =>
      dsimp only
      split
      · rw [released_dropAcceptor, released_ran]
      · exact released_ran s p.1 p.2

theorem kernel_polled_of_some {s : PolledServer τ υ} {i : ServerInput τ υ} {c : Nat}
    {op : Op (Thread τ)} (h : s.server.member i = some (c, op)) :
    (s.polled i).kernel = (s.ran c op).kernel := by
  simp only [polled, h]
  split
  · exact kernel_dropAcceptor _
  · rfl

theorem kernel_polled_of_none {s : PolledServer τ υ} {i : ServerInput τ υ}
    (h : s.server.member i = none) : (s.polled i).kernel = s.kernel := by
  simp only [polled, h]
  split
  · exact kernel_dropAcceptor s
  · rfl

theorem kernel_polled_of_ne {s : PolledServer τ υ} {i : ServerInput τ υ} {c : Nat}
    (h : ∀ op, s.server.member i ≠ some (c, op)) : (s.polled i).kernel c = s.kernel c := by
  cases hmember : s.server.member i with
  | none => rw [kernel_polled_of_none hmember]
  | some p =>
      rw [kernel_polled_of_some hmember, kernel_ran_of_ne]
      rintro rfl
      exact h p.2 hmember

/-! ## The invariant -/

omit [DecidableEq τ] in
structure Tracks (s : PolledServer τ υ) : Prop where
  placed : s.server.Placed
  inPhase : s.server.InPhase
  registered : s.server.Registered
  cycle : s.server.Cycle []
  bound : s.server.accepted ≤ 2 ^ 31 - 1
  watches : ∀ c < s.server.accepted, Watches (s.server.conns c).conn (s.kernel c)
  unborn : ∀ c, s.server.accepted ≤ c → s.kernel c = .empty
  released : ∀ c, s.released c = true →
    c < s.server.accepted ∧ (s.server.conns c).done .destroyed ≠ 0

omit [DecidableEq τ] in
/-- A connection that the kernel has a filter of is not destroyed. -/
theorem Tracks.undestroyed_of_kernel {s : PolledServer τ υ} (h : s.Tracks) {c : Nat} {f : Filter}
    (hf : s.kernel c f = true) :
    c < s.server.accepted ∧ (s.server.conns c).done .destroyed = 0 := by
  have hc : c < s.server.accepted := by
    by_contra hunborn
    rw [h.unborn c (Nat.le_of_not_lt hunborn)] at hf
    cases hf
  refine ⟨hc, (h.cycle.undestroyed hc ?_).2.2⟩
  intro hstate
  have hopen : (s.server.conns c).conn.state.isOpen = false := by
    rw [show (s.server.conns c).conn.state = .disconnected from hstate]
    rfl
  rw [((h.watches c hc).closed hopen).2] at hf
  cases hf

theorem Watches.new (sockfd : Nat) (cb mcb : Bool) :
    Watches (TcpConnection.new sockfd [] cb mcb) .empty :=
  ⟨rfl, nofun, fun _ => ⟨Server.isReading_of_events_eq_zero rfl, rfl⟩⟩

/-- How many of a connection's members were `connectDestroyed` only grows. -/
theorem done_step {s t : Server τ υ} {i : ServerInput τ υ} {c : Nat} (hc : c < s.accepted)
    (h : s.ConnMoves t c i) :
    (t.conns c).done .destroyed = (s.conns c).done .destroyed ∨
      s.member i = some (c, .connectDestroyed) := by
  cases h with
  | @ran θ op hmember hc hfits hallowed ht =>
      rw [ht, Connection.done_act]
      cases op with
      | connectDestroyed => exact .inr hmember
      | _ => exact .inl rfl
  | fresh hmember haccepts hfresh =>
      subst hfresh
      exact (Nat.lt_irrefl _ hc).elim
  | quiet hold hmember hquiet => exact .inl (hquiet.done _)

theorem Tracks.server {s : PolledServer τ υ} {u : Server τ υ} {i : ServerInput τ υ}
    (h : s.Tracks) (hpossible : s.Possible i) (hstep : s.server.step i = some u) :
    ({ s.polled i with server := u } : PolledServer τ υ).Tracks := by
  have hmoves := Server.step_connMoves h.placed h.cycle hstep
  have haccepted := Server.accepted_step h.placed hstep
  have hle : s.server.accepted ≤ u.accepted := by omega
  have hbound : u.accepted ≤ 2 ^ 31 - 1 := by
    have hold := h.bound
    rw [haccepted]
    split
    · next haccepts =>
        have hlt : s.server.accepted < 2 ^ 31 - 1 := by
          unfold Possible at hpossible
          split at hpossible
          · cases haccepts
          · cases haccepts
          · exact (hpossible haccepts).1
        omega
    · omega
  refine ⟨Server.step_placed h.placed hstep, Server.step_inPhase h.inPhase hstep,
    Server.step_registered h.placed h.registered hbound hstep,
    Server.step_cycle h.placed h.registered h.cycle hstep, hbound, ?_, ?_, ?_⟩
  · intro c hc
    show Watches (u.conns c).conn ((s.polled i).kernel c)
    cases hmoves c with
    | @ran θ op hmember hold hfits hallowed ht =>
        have htended := Op.tended (h.watches c hold) hfits hallowed
        rw [ht, kernel_polled_of_some hmember, kernel_ran_self htended]
        exact htended.watches
    | fresh hmember haccepts hfresh hconn =>
        rw [kernel_polled_of_none hmember, h.unborn c hfresh.ge, hconn]
        exact Watches.new _ _ _
    | quiet hold hmember hquiet =>
        have hlt := Server.accepted_before h.placed hstep hold hc
        rw [kernel_polled_of_ne hmember]
        exact (h.watches c hlt).congr hquiet.events hquiet.index hquiet.isOpen
  · intro c hc
    have hunborn : s.server.accepted ≤ c := hle.trans hc
    show (s.polled i).kernel c = .empty
    rw [kernel_polled_of_ne, h.unborn c hunborn]
    intro op hmember
    cases hmoves c with
    | ran hmember' hold => omega
    | fresh hmember' => simp [hmember] at hmember'
    | quiet hold hmember' => exact hmember' op hmember
  · intro c hc
    rw [show ({ s.polled i with server := u } : PolledServer τ υ).released = s.released from
      released_polled s i] at hc
    rcases h.released c hc with ⟨hold, hdone⟩
    refine ⟨hold.trans_le hle, ?_⟩
    show (u.conns c).done .destroyed ≠ 0
    cases hmoves c with
    | ran hmember hold' hfits hallowed ht =>
        rw [ht, Connection.done_act]
        omega
    | fresh hmember haccepts hfresh => omega
    | quiet hold' hmember hquiet =>
        rw [hquiet.done]
        exact hdone

omit [DecidableEq τ] in
/-- The kernel has nothing left of a connection when it is released. -/
theorem Tracks.release {s : PolledServer τ υ} (h : s.Tracks) {c : Nat}
    (hc : c < s.server.accepted) (howned : s.server.owned c = false) :
    ({ s with
      kernel := Function.update s.kernel c .empty
      released := Function.update s.released c true } : PolledServer τ υ).Tracks := by
  have hdone : (s.server.conns c).done .destroyed ≠ 0 := by
    intro hdone
    rw [h.cycle.owned h.registered hc hdone] at howned
    cases howned
  have hopen : (s.server.conns c).conn.state.isOpen = false := by
    by_contra hopen
    apply hdone
    apply (h.cycle.undestroyed hc ?_).2.2
    intro hstate
    rw [show (s.server.conns c).conn.state = .disconnected from hstate] at hopen
    exact hopen rfl
  have hkernel : Function.update s.kernel c .empty = s.kernel := by
    rw [← ((h.watches c hc).closed hopen).2, Function.update_eq_self]
  rw [hkernel]
  refine { h with released := ?_ }
  intro d hd
  by_cases hdc : d = c
  · subst hdc
    exact ⟨hc, hdone⟩
  · rw [show ({ s with released := Function.update s.released c true } :
      PolledServer τ υ).released d = s.released d from Function.update_of_ne hdc _ _] at hd
    exact h.released d hd

theorem step_server {s t : PolledServer τ υ} {i : ServerInput τ υ}
    (h : s.step (.server i) = some t) :
    s.Possible i ∧ ∃ u, s.server.step i = some u ∧ t = { s.polled i with server := u } := by
  rcases Option.ite_none_right_eq_some.1 h with ⟨hpossible, hmap⟩
  rcases Option.map_eq_some_iff.1 hmap with ⟨u, hu, rfl⟩
  exact ⟨hpossible, u, hu, rfl⟩

theorem step_tracks {s t : PolledServer τ υ} {i : PolledInput τ υ} (h : s.Tracks)
    (hstep : s.step i = some t) : t.Tracks := by
  cases i with
  | server i =>
      rcases step_server hstep with ⟨hpossible, u, hu, rfl⟩
      exact h.server hpossible hu
  | release c =>
      rcases Option.ite_none_right_eq_some.1 hstep with ⟨⟨hc, hreleased, howned⟩, ⟨⟩⟩
      exact h.release hc howned

omit [DecidableEq τ] in
theorem start_tracks (name : String) (numThreads : Nat) (cb mcb : Bool) :
    (start name numThreads cb mcb : PolledServer τ υ).Tracks where
  placed := Server.start_placed name numThreads cb mcb
  inPhase := Server.start_inPhase name numThreads cb mcb
  registered := Server.start_registered name numThreads cb mcb
  cycle := Server.start_cycle name numThreads cb mcb
  bound := Nat.zero_le _
  watches := nofun
  unborn := fun _ _ => rfl
  released := nofun

end PolledServer

end Hayai
