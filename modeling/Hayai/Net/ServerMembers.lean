import Hayai.Net.Confinement
import Hayai.Net.ServerLifecycle
import Hayai.Net.TcpServer

/-! # Which member a step runs

Every step of a server runs at most one member of one connection. All other connections
keep their channel, and so does this one when the step is a public call, which changes
`state_` at most from Connected to Disconnecting.
-/

namespace Hayai

variable {τ υ : Type}

def ConnState.isOpen : ConnState → Bool
  | .connected | .disconnecting => true
  | _ => false

structure Connection.Quiet (x y : Connection τ) : Prop where
  loop : y.loop = x.loop
  fd : y.conn.channel.fd = x.conn.channel.fd
  events : y.conn.channel.events = x.conn.channel.events
  index : y.conn.channel.index = x.conn.channel.index
  isOpen : y.conn.state.isOpen = x.conn.state.isOpen
  connecting : y.conn.state = .connecting ↔ x.conn.state = .connecting
  done : ∀ g, y.done g = x.done g

namespace Connection.Quiet

theorem refl (x : Connection τ) : x.Quiet x := ⟨rfl, rfl, rfl, rfl, rfl, Iff.rfl, fun _ => rfl⟩

theorem of_eq {x y : Connection τ} (h : y = x) : x.Quiet y := by
  subst h
  exact refl y

theorem act_of_disconnecting {x : Connection τ} {θ : Thread τ} {op : Op (Thread τ)}
    (hopen : x.conn.state.isOpen = true)
    (hrun : (op.run x.conn).1 = { x.conn with state := .disconnecting })
    (hstage : op.stage? = none) : x.Quiet (x.act θ op) := by
  have hconn : (x.act θ op).conn = { x.conn with state := .disconnecting } := hrun
  refine ⟨rfl, ?_, ?_, ?_, ?_, ?_, fun g => by simp [done_act, hstage]⟩ <;> rw [hconn]
  · exact hopen.symm
  · refine ⟨nofun, fun hbad => ?_⟩
    rw [hbad] at hopen
    cases hopen

theorem shutdown {x : Connection τ} (h : x.conn.connected = true) (θ : Thread τ) :
    x.Quiet (x.act θ .shutdown) := by
  have hstate : x.conn.state = .connected := beq_iff_eq.1 h
  apply act_of_disconnecting
  · rw [hstate]
    rfl
  · simp [Op.run, TcpConnection.shutdown, hstate]
  · rfl

theorem forceClose {x : Connection τ} (h : x.conn.closable = true) (θ : Thread τ) :
    x.Quiet (x.act θ .forceClose) := by
  apply act_of_disconnecting
  · revert h
    simp only [TcpConnection.closable]
    cases x.conn.state <;> decide
  · simp [Op.run, TcpConnection.forceClose, h]
  · rfl

end Connection.Quiet

namespace Server

variable [DecidableEq τ]

/-- The member of a connection that the step runs, public calls apart. -/
def member (s : Server τ υ) : ServerInput τ υ → Option (Nat × Op (Thread τ))
  | .callback l r retrieved w _ =>
      match (s.loops l).todo with
      | (some c, kind) :: _ => some (c, kind.op r retrieved w)
      | _ => none
  | .deliver θ w =>
      match s.inFlight θ with
      | some ⟨l, .conn c f, inline⟩ =>
          if inline = true ∧ θ = .loop l then some (c, f.op w) else none
      | _ => none
  | .functor l w =>
      match (s.loops l).loop.functors with
      | .conn c f :: _ => some (c, f.op w)
      | _ => none
  | _ => none

omit [DecidableEq τ] in
def accepts (s : Server τ υ) : ServerInput τ υ → Option Nat
  | .callback l _ _ _ (some sockfd) =>
      match (s.loops l).todo with
      | (none, _) :: _ => some sockfd
      | _ => none
  | _ => none

/-- What one step does to connection `c`. -/
inductive ConnMoves (s t : Server τ υ) (c : Nat) (i : ServerInput τ υ) : Prop
  | ran {θ : Thread τ} {op : Op (Thread τ)} (hmember : s.member i = some (c, op))
      (hc : c < s.accepted) (hfits : op.Fits (s.conns c).conn) (hallowed : op.Allowed (s.state c))
      (ht : t.conns c = (s.conns c).act θ op)
  | fresh {sockfd : Nat} (hmember : s.member i = none) (haccepts : s.accepts i = some sockfd)
      (hc : c = s.accepted)
      (hconn : (t.conns c).conn =
        TcpConnection.new sockfd [] s.connectionCallback s.messageCallback)
      (hhistory : (t.conns c).history = [])
  | quiet (hold : s.accepts i = none ∨ c ≠ s.accepted)
      (hmember : ∀ op, s.member i ≠ some (c, op)) (hquiet : (s.conns c).Quiet (t.conns c))

/-! ## Members -/

theorem conns_exec {s : Server τ υ} {l c : Nat} (hl : (s.conns c).loop = l)
    (op : Op (Thread τ)) : (s.exec (.loop l) c op).conns = (s.act (.loop l) c op).conns := by
  unfold exec
  simp only [hl, ne_eq, not_true_eq_false, decide_false, Bool.and_false, Bool.false_eq_true,
    if_false]
  split <;> rfl

theorem conns_exec_self {s : Server τ υ} {l c : Nat} (hl : (s.conns c).loop = l)
    (op : Op (Thread τ)) : (s.exec (.loop l) c op).conns c = (s.conns c).act (.loop l) op := by
  rw [conns_exec hl]
  exact conns_setConn_self _ _ _

theorem conns_exec_of_ne {s : Server τ υ} {l c d : Nat} (hl : (s.conns c).loop = l) (hd : d ≠ c)
    (op : Op (Thread τ)) : (s.exec (.loop l) c op).conns d = s.conns d := by
  rw [conns_exec hl]
  exact conns_act_of_ne hd _ _

theorem quiet_removeConnectionInLoop (s : Server τ υ) (θ : Thread τ) (c d : Nat) :
    (s.conns d).Quiet ((s.removeConnectionInLoop θ c).conns d) := by
  have hcount : (s.conns d).Quiet ((s.setConn c { s.conns c with
      removals := (s.conns c).removals + 1 }).conns d) := by
    by_cases hd : d = c
    · subst hd
      rw [conns_setConn_self]
      exact ⟨rfl, rfl, rfl, rfl, rfl, Iff.rfl, fun _ => rfl⟩
    · rw [conns_setConn_of_ne hd]
      exact .refl _
  unfold removeConnectionInLoop
  split
  · dsimp only
    split <;> exact hcount
  · exact .refl _

theorem quiet_call (s : Server τ υ) (θ : Thread τ) (c d : Nat) (k : Call) :
    (s.conns d).Quiet ((s.call θ c k).conns d) := by
  have hact : ∀ op : Op (Thread τ), (s.conns c).Quiet ((s.conns c).act θ op) →
      (s.conns d).Quiet ((s.act θ c op).conns d) := by
    intro op hquiet
    by_cases hd : d = c
    · subst hd
      rw [act, conns_setConn_self]
      exact hquiet
    · rw [conns_act_of_ne hd]
      exact .refl _
  cases k with
  | send data =>
      simp only [call]
      split <;> exact .refl _
  | shutdown =>
      simp only [call]
      split
      · next hconnected => exact hact .shutdown (.shutdown hconnected θ)
      · exact .refl _
  | forceClose =>
      simp only [call]
      split
      · next hclosable => exact hact .forceClose (.forceClose hclosable θ)
      · exact .refl _

omit [DecidableEq τ] in
theorem quiet_poll (s : Server τ υ) (l : Nat) (events : List (KEvent (Option Nat))) (d : Nat) :
    (s.conns d).Quiet ((s.poll l events).conns d) :=
  ⟨rfl, rfl, rfl, rfl, rfl, Iff.rfl, fun _ => rfl⟩

/-- A functor of connection `c`, run on its loop. -/
theorem connMoves_perform {s u : Server τ υ} {i : ServerInput τ υ} {l d : Nat} {w : WriteResult}
    {k : Task τ υ} (haccepts : s.accepts i = none) (hmember : s.member i = match k with
      | .conn c f => some (c, f.op w)
      | _ => none) (hconns : u.conns = s.conns) (hon : k.On s.loopOf l)
    (hallowed : k.Allowed s.state) (hfits : k.Fits w) :
    s.ConnMoves (u.perform (.loop l) w k) d i := by
  have hstate : (s.conns d).Quiet (u.conns d) := .of_eq (by rw [hconns])
  cases k with
  | conn c f =>
      have hon' := loopOf_eq_some.1 hon
      have hl : (u.conns c).loop = l := by
        rw [hconns]
        exact hon'.2
      by_cases hd : d = c
      · subst hd
        refine .ran (θ := .loop l) hmember hon'.1 (fits_op rfl hfits _)
          (Op.allowed_functor hallowed w) ?_
        rw [perform, conns_exec_self hl, hconns]
      · refine .quiet (.inl haccepts) ?_ ?_
        · intro op heq
          rw [hmember] at heq
          cases heq
          exact hd rfl
        · rw [perform, conns_exec_of_ne hl hd, hconns]
          exact .refl _
  | removeConnectionInLoop c =>
      refine .quiet (.inl haccepts) (fun op => by simp [hmember]) ?_
      rw [← hconns]
      exact quiet_removeConnectionInLoop u _ c d
  | stop => exact .quiet (.inl haccepts) (fun op => by simp [hmember]) hstate
  | user x => exact .quiet (.inl haccepts) (fun op => by simp [hmember]) hstate

omit [DecidableEq τ] in
/-- Accepting takes the number after the last one and leaves the others alone. -/
theorem conns_getNextLoop (s : Server τ υ) : s.getNextLoop.2.conns = s.conns := by
  unfold getNextLoop
  split <;> rfl

theorem connMoves_newConnection {s : Server τ υ} {i : ServerInput τ υ}
    {todo : List (Option Nat × Callback)} {sockfd : Nat} (hmember : s.member i = none)
    (haccepts : s.accepts i = some sockfd) (d : Nat) :
    s.ConnMoves (((s.setTodo 0 todo).newConnection (.loop 0) sockfd)) d i := by
  have hfields : ∀ (u : Server τ υ), u.getNextLoop.2.accepted = u.accepted ∧
      u.getNextLoop.2.connectionCallback = u.connectionCallback ∧
      u.getNextLoop.2.messageCallback = u.messageCallback := by
    intro u
    unfold getNextLoop
    split <;> exact ⟨rfl, rfl, rfl⟩
  rcases hfields (s.setTodo 0 todo) with ⟨hnumber, hconnection, hmessage⟩
  have hconns : ((s.setTodo 0 todo).newConnection (.loop 0) sockfd).conns =
      ((s.setTodo 0 todo).getNextLoop.2.register (.loop 0) sockfd
        (s.setTodo 0 todo).getNextLoop.1).conns := by
    unfold newConnection
    rw [if_pos rfl]
    rfl
  by_cases hd : d = s.accepted
  · have hd' : d = (s.setTodo 0 todo).getNextLoop.2.accepted := by
      rw [hnumber]
      exact hd
    refine .fresh hmember haccepts hd ?_ ?_ <;> rw [hconns, hd', conns_register_self]
    rw [hconnection, hmessage]
    rfl
  · refine .quiet (.inr hd) (fun op => by simp [hmember]) ?_
    rw [hconns, conns_register_of_ne (by rw [hnumber]; exact hd), conns_getNextLoop]
    exact .refl _

/-! ## Inversion -/

theorem step_connMoves {s t : Server τ υ} {i : ServerInput τ υ} (hplaced : s.Placed)
    (h : s.Cycle []) (hstep : s.step i = some t) (d : Nat) : s.ConnMoves t d i := by
  cases (step_spec hstep).2 with
  | call => exact .quiet (.inl rfl) nofun (quiet_call s _ _ d _)
  | stop => exact .quiet (.inl rfl) nofun (.refl _)
  | @stopNext c stopping =>
      have hquiet := quiet_call ({ s with stopping } : Server τ υ) (.loop 0) c d .shutdown
      exact .quiet (.inl rfl) nofun hquiet
  | @deliver θ w j hj hfits =>
      unfold deliver
      dsimp only
      split
      · next hinline =>
          rcases hinline with ⟨hinline, rfl⟩
          apply connMoves_perform (u := s.setFlight (.loop j.loop) none) (s := s)
          · rfl
          · rcases j with ⟨l, k, inline⟩
            have htrue : inline = true := hinline
            cases k <;> simp [member, hj, htrue]
          · rfl
          · exact hplaced.flight _ j hj
          · exact h.allowed _ (.inr (.inl ⟨_, j, hj, rfl⟩))
          · exact hfits
      · next hqueue =>
          refine .quiet (.inl rfl) ?_ (.refl _)
          intro op heq
          rcases j with ⟨l, k, inline⟩
          cases k with
          | conn c f =>
              simp only [member, hj, Option.ite_none_right_eq_some] at heq
              exact hqueue heq.1
          | _ => simp [member, hj] at heq
  | queueUser => exact .quiet (.inl rfl) nofun (.refl _)
  | poll => exact .quiet (.inl rfl) nofun (quiet_poll s _ _ d)
  | @callback l r retrieved w sockfd c kind todo htodo hfree hfits =>
      have hmem : (some c, kind) ∈ (s.loops l).todo := by simp [htodo]
      have hon := loopOf_eq_some.1 ((hplaced.loops l).todo _ hmem)
      have hmember : s.member (.callback l r retrieved w sockfd) =
          some (c, kind.op r retrieved w) := by
        simp [member, htodo]
      have hl : ((s.setTodo l todo).conns c).loop = l := hon.2
      by_cases hd : d = c
      · subst hd
        refine .ran hmember hon.1 hfits (Op.allowed_callback (h.todo l d kind hmem) r retrieved w)
          (conns_exec_self hl _)
      · have hnone : s.accepts (.callback l r retrieved w sockfd) = none := by
          cases sockfd <;> simp [accepts, htodo]
        refine .quiet (.inl hnone) ?_ ?_
        · intro op heq
          rw [hmember] at heq
          cases heq
          exact hd rfl
        · rw [conns_exec_of_ne hl hd]
          exact .refl _
  | @accept l r retrieved w sockfd kind todo htodo hfree =>
      have hbase : l = 0 := (hplaced.loops l).todo (none, kind) (by simp [htodo])
      subst hbase
      exact connMoves_newConnection (by simp [member, htodo]) (by simp [accepts, htodo]) d
  | @acceptFailed l r retrieved w kind todo htodo hfree =>
      exact .quiet (.inl rfl) (fun op => by simp [member, htodo]) (.refl _)
  | doPendingFunctors => exact .quiet (.inl rfl) nofun (.refl _)
  | @functor l w k functors hfunctors hfree hfits =>
      have hqueued := EventLoop.queued_of_functors hfunctors
      apply connMoves_perform (s := s)
      · rfl
      · cases k <;> simp [member, hfunctors]
      · rfl
      · exact (hplaced.loops l).queued k (by simp [hqueued])
      · exact h.allowed k (.inl ⟨l, by simp [hqueued]⟩)
      · exact hfits
  | endPendingFunctors => exact .quiet (.inl rfl) nofun (.refl _)

theorem accepted_step {s t : Server τ υ} {i : ServerInput τ υ} (hplaced : s.Placed)
    (hstep : s.step i = some t) :
    t.accepted = s.accepted + if (s.accepts i).isSome then 1 else 0 := by
  cases (step_spec hstep).2 with
  | call => exact accepted_call s _ _ _
  | stopNext => exact accepted_call _ _ _ _
  | deliver hj => exact accepted_deliver s _ _ _
  | @callback l r retrieved w sockfd c kind todo htodo =>
      have hnone : s.accepts (.callback l r retrieved w sockfd) = none := by
        cases sockfd <;> simp [accepts, htodo]
      rw [hnone]
      exact accepted_exec _ _ _ _
  | @accept l r retrieved w sockfd kind todo htodo =>
      have hbase : l = 0 := (hplaced.loops l).todo (none, kind) (by simp [htodo])
      subst hbase
      simp only [accepts, htodo, Option.isSome_some, if_true, newConnection]
      exact congrArg (· + 1) (accepted_getNextLoop _)
  | functor => exact accepted_perform _ _ _ _
  | _ => rfl

/-- What the step does not accept was there before. -/
theorem accepted_before {s t : Server τ υ} {i : ServerInput τ υ} (hplaced : s.Placed)
    (hstep : s.step i = some t) {c : Nat} (hold : s.accepts i = none ∨ c ≠ s.accepted)
    (hc : c < t.accepted) : c < s.accepted := by
  have haccepted := accepted_step hplaced hstep
  rcases hold with hnone | hne
  · rw [haccepted, hnone] at hc
    exact hc
  · split at haccepted <;> omega

theorem exists_accepts_of_new {s t : Server τ υ} {i : ServerInput τ υ} (hplaced : s.Placed)
    (hstep : s.step i = some t) {c : Nat} (hmoves : s.ConnMoves t c i) (hc : c < t.accepted)
    (hold : ¬c < s.accepted) : ∃ sockfd, c = s.accepted ∧ s.accepts i = some sockfd ∧
      (t.conns c).conn = TcpConnection.new sockfd [] s.connectionCallback s.messageCallback ∧
        (t.conns c).history = [] := by
  cases hmoves with
  | ran hmember hc' => exact (hold hc').elim
  | @fresh sockfd hmember haccepts hfresh hconn hhistory =>
      exact ⟨sockfd, hfresh, haccepts, hconn, hhistory⟩
  | quiet hquiet => exact (hold (accepted_before hplaced hstep hquiet hc)).elim

end Server

end Hayai
