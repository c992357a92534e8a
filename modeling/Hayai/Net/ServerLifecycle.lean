import Hayai.Machine.Run
import Hayai.Net.Confinement
import Hayai.Net.Lifecycle
import Hayai.Net.Registry
import Hayai.Net.TcpServer

/-! # The life cycle of a server's connections

Each connection is established once and destroyed at most once, in this order and in the
states meant for it, whichever threads call its members meanwhile. A functor that a thread
has just taken out of a queue, or is about to hand over, is accounted for separately: it is
the thread's hand.
-/

namespace Hayai

variable {τ υ : Type}

inductive Stage where
  | established
  | destroyed
  deriving DecidableEq, Repr

def Op.stage? {τ : Type} : Op τ → Option Stage
  | .connectEstablished => some .established
  | .connectDestroyed => some .destroyed
  | _ => none

def Task.stage? : Task τ υ → Option (Stage × Nat)
  | .conn c .connectEstablished => some (.established, c)
  | .conn c .connectDestroyed => some (.destroyed, c)
  | _ => none

def Task.brings (g : Stage) (c : Nat) (k : Task τ υ) : Bool := k.stage? = some (g, c)

def Task.Allowed (state : Nat → ConnState) : Task τ υ → Prop
  | .conn c f => f.Allowed (state c)
  | .removeConnectionInLoop c => state c = .disconnected
  | _ => True

/-- How often a stage is due: `connectDestroyed` follows the first removal. -/
def Stage.due (removals : Nat) : Stage → Nat
  | .established => 1
  | .destroyed => if removals = 0 then 0 else 1

/-- What the members of one connection have found and done so far. -/
structure Connection.Sound (x : Connection τ) : Prop where
  established : ∀ e ∈ x.history, e.op.stage? = some .established → e.found = .connecting
  destroyed : ∀ e ∈ x.history, e.op.stage? = some .destroyed → e.found = .disconnected
  order : ∀ before e after, x.history = before ++ e :: after →
    e.op.stage? = some .destroyed → ∃ e' ∈ before, e'.op.stage? = some .established
  asserted : ∀ e ∈ x.history, .assertFailed ∉ e.effects

namespace Connection

def done (x : Connection τ) (g : Stage) : Nat := x.history.countP (·.op.stage? = some g)

/-- The connection's own part of the invariant. -/
structure Cycle (x : Connection τ) : Prop extends x.Sound where
  fresh : x.conn.state = .connecting → x.history = [] ∧ x.conn.channel.events = 0
  once : x.conn.state ≠ .connecting → 1 ≤ x.done .established
  removed : x.removals ≠ 0 → x.conn.state = .disconnected

end Connection

namespace Server

def state (s : Server τ υ) (c : Nat) : ConnState := (s.conns c).conn.state

/-- How often a stage of connection `c` is still to come: from the queue of its loop, from
the base loop's thread, or from the hand. -/
def waiting (s : Server τ υ) (hand : List (Task τ υ)) (g : Stage) (c : Nat) : Nat :=
  (s.loops (s.conns c).loop).loop.queued.countP (Task.brings g c) +
    (s.inFlight (.loop 0)).toList.countP (·.task.brings g c) +
    hand.countP (Task.brings g c)

def Pending (s : Server τ υ) (hand : List (Task τ υ)) (k : Task τ υ) : Prop :=
  (∃ l, k ∈ (s.loops l).loop.queued) ∨ (∃ θ j, s.inFlight θ = some j ∧ j.task = k) ∨ k ∈ hand

structure Cycle (s : Server τ υ) (hand : List (Task τ υ)) : Prop where
  allowed : ∀ k, s.Pending hand k → k.Allowed s.state
  base : ∀ θ j, s.inFlight θ = some j → j.task.stage? ≠ none → θ = .loop 0
  todo : ∀ l c kind, (some c, kind) ∈ (s.loops l).todo → s.state c ≠ .connecting
  conns : ∀ c < s.accepted, (s.conns c).Cycle
  stages : ∀ g, ∀ c < s.accepted,
    s.waiting hand g c + (s.conns c).done g = g.due (s.conns c).removals

end Server

/-! ## Members -/

namespace Op

variable {c : TcpConnection (List UInt8)} {op : Op τ}

theorem later_of_stage (hfits : op.Fits c)
    (hstate : c.state = .connecting → op.stage? = some .established) :
    (op.run c).1.state ≠ .connecting := by
  by_cases hconnecting : c.state = .connecting
  · have hstage := hstate hconnecting
    cases op with
    | connectEstablished => simp [run, TcpConnection.connectEstablished, hconnecting]
    | _ => cases hstage
  · intro hbad
    have hrank := run_rank hfits
    rw [hbad] at hrank
    revert hconnecting hrank
    cases c.state <;> simp [ConnState.rank]

theorem assertFailed_not_mem (hfits : op.Fits c) (hallowed : op.Allowed c.state) :
    .assertFailed ∉ (op.run c).2 := by
  intro hmem
  have hestablish : op = .connectEstablished → c.state = .connecting := by
    intro hop
    subst hop
    exact hallowed
  cases not_rare_of_mem hfits hestablish _ hmem

end Op

namespace Connection

theorem done_act (x : Connection τ) (θ : Thread τ) (op : Op (Thread τ)) (g : Stage) :
    (x.act θ op).done g = x.done g + if op.stage? = some g then 1 else 0 := by
  simp [done, act, List.countP_append, List.countP_cons]

theorem exists_established {x : Connection τ} (h : 1 ≤ x.done .established) :
    ∃ e ∈ x.history, e.op.stage? = some .established := by
  rcases List.countP_pos_iff.1 h with ⟨e, he, hstage⟩
  exact ⟨e, he, by simpa using hstage⟩

theorem cycle_of_fresh {x : Connection τ} (hstate : x.conn.state = .connecting)
    (hhistory : x.history = []) (hevents : x.conn.channel.events = 0) (hremovals : x.removals = 0) :
    x.Cycle := by
  constructor
  · constructor <;> simp [hhistory]
  · exact fun _ => ⟨hhistory, hevents⟩
  · exact fun hbad => absurd hstate hbad
  · exact fun hbad => absurd hremovals hbad

theorem Cycle.act {x : Connection τ} (h : x.Cycle) (θ : Thread τ) {op : Op (Thread τ)}
    (hfits : op.Fits x.conn) (hallowed : op.Allowed x.conn.state)
    (hstate : x.conn.state = .connecting → op.stage? = some .established) :
    (x.act θ op).Cycle := by
  have hlater := Op.later_of_stage hfits hstate
  have hdestroyed : op.stage? = some .destroyed → x.conn.state = .disconnected := by
    intro hstage
    cases op with
    | connectDestroyed => exact hallowed
    | _ => cases hstage
  have hestablished : op.stage? = some .established → x.conn.state = .connecting := by
    intro hstage
    cases op with
    | connectEstablished => exact hallowed
    | _ => cases hstage
  constructor
  · constructor
    · intro e he
      rcases List.mem_append.1 he with he | he
      · exact h.established e he
      · rw [List.mem_singleton] at he
        subst he
        exact hestablished
    · intro e he
      rcases List.mem_append.1 he with he | he
      · exact h.destroyed e he
      · rw [List.mem_singleton] at he
        subst he
        exact hdestroyed
    · intro before e after hsplit hstage
      rcases Machine.log_split hsplit with ⟨rest, hbefore, -⟩ | ⟨rest, hbefore, hadded⟩
      · exact h.order before e rest hbefore hstage
      · cases rest with
        | nil =>
            rcases List.cons.inj hadded with ⟨rfl, -⟩
            have hclosed := hdestroyed hstage
            rw [hbefore, List.append_nil]
            exact exists_established (h.once (by rw [hclosed]; simp))
        | cons a rest => simp at hadded
    · intro e he
      rcases List.mem_append.1 he with he | he
      · exact h.asserted e he
      · rw [List.mem_singleton] at he
        subst he
        exact Op.assertFailed_not_mem hfits hallowed
  · intro hbad
    exact (hlater hbad).elim
  · intro _
    rw [done_act]
    by_cases hconnecting : x.conn.state = .connecting
    · simp [hstate hconnecting]
    · have honce := h.once hconnecting
      omega
  · intro hremoved
    by_contra hopen
    exact Op.run_open hfits hopen (h.removed hremoved)

end Connection

namespace Server

/-- A functor for a stage is on the loop of its connection. -/
theorem loop_of_brings {s : Server τ υ} {k : Task τ υ} {g : Stage} {c l : Nat}
    (hk : k.brings g c = true) (hon : k.On s.loopOf l) : (s.conns c).loop = l := by
  have hstage : k.stage? = some (g, c) := by simpa [Task.brings] using hk
  unfold Task.stage? at hstage
  split at hstage
  · cases hstage
    exact (loopOf_eq_some.1 hon).2
  · cases hstage
    exact (loopOf_eq_some.1 hon).2
  · cases hstage

theorem Cycle.waiting_pos {s : Server τ υ} {hand : List (Task τ υ)} (h : s.Cycle hand)
    (hplaced : s.Placed) {rest : List (Task τ υ)} {k : Task τ υ} {g : Stage} {c : Nat}
    (hk : s.Pending rest k) (hstage : k.stage? = some (g, c)) : 0 < s.waiting rest g c := by
  have hbrings : k.brings g c = true := by simpa [Task.brings] using hstage
  unfold waiting
  rcases hk with ⟨l, hk⟩ | ⟨θ, j, hj, rfl⟩ | hk
  · have hpos : 0 < (s.loops l).loop.queued.countP (Task.brings g c) :=
      List.countP_pos_iff.2 ⟨k, hk, hbrings⟩
    rw [loop_of_brings hbrings ((hplaced.loops l).queued k hk)]
    omega
  · have hbase := h.base θ j hj (by simp [hstage])
    subst hbase
    rw [hj, Option.toList_some, List.countP_singleton, if_pos hbrings]
    omega
  · have hpos : 0 < rest.countP (Task.brings g c) := List.countP_pos_iff.2 ⟨k, hk, hbrings⟩
    omega

/-- Functors change places; connections stay as they are. -/
theorem Cycle.move {s t : Server τ υ} {hand rest : List (Task τ υ)} (h : s.Cycle hand)
    (hconns : t.conns = s.conns) (haccepted : t.accepted = s.accepted)
    (hpending : ∀ k, t.Pending rest k → s.Pending hand k)
    (hbase : ∀ θ j, t.inFlight θ = some j → j.task.stage? ≠ none → θ = .loop 0)
    (htodo : ∀ l, ∀ p ∈ (t.loops l).todo, p ∈ (s.loops l).todo)
    (hwaiting : ∀ g, ∀ c < s.accepted, t.waiting rest g c = s.waiting hand g c) :
    t.Cycle rest := by
  have hstate : t.state = s.state := by
    funext c
    rw [state, hconns]
    rfl
  constructor
  · intro k hk
    rw [hstate]
    exact h.allowed k (hpending k hk)
  · exact hbase
  · intro l c kind hp
    rw [hstate]
    exact h.todo l c kind (htodo l _ hp)
  · intro c hc
    rw [hconns]
    exact h.conns c (haccepted ▸ hc)
  · intro g c hc
    rw [haccepted] at hc
    rw [hwaiting g c hc, hconns]
    exact h.stages g c hc

theorem Cycle.note {s : Server τ υ} {hand : List (Task τ υ)} (h : s.Cycle hand) (θ : Thread τ)
    (a : Access) : (s.note θ a).Cycle hand :=
  h.move rfl rfl (fun _ hk => hk) h.base (fun _ _ hp => hp) fun _ _ _ => rfl

theorem Cycle.take {s : Server τ υ} (h : s.Cycle []) {k : Task τ υ} (hk : k.Allowed s.state)
    (hstage : k.stage? = none) : s.Cycle [k] := by
  refine ⟨?_, h.base, h.todo, h.conns, ?_⟩
  · intro k' hk'
    rcases hk' with hk' | hk' | hk'
    · exact h.allowed k' (.inl hk')
    · exact h.allowed k' (.inr (.inl hk'))
    · rw [List.mem_singleton] at hk'
      subst hk'
      exact hk
  · intro g c hc
    rw [← h.stages g c hc]
    simp [waiting, Task.brings, hstage]

theorem Cycle.drop {s : Server τ υ} {k : Task τ υ} (h : s.Cycle [k]) (hstage : k.stage? = none) :
    s.Cycle [] := by
  refine h.move rfl rfl ?_ h.base (fun _ _ hp => hp) ?_
  · intro k' hk'
    rcases hk' with hk' | hk' | hk'
    · exact .inl hk'
    · exact .inr (.inl hk')
    · cases hk'
  · intro g c hc
    simp [waiting, Task.brings, hstage]

/-! ## Members -/

theorem state_act_self (s : Server τ υ) (θ : Thread τ) (c : Nat) (op : Op (Thread τ)) :
    (s.act θ c op).state c = (op.run (s.conns c).conn).1.state := by
  simp [state, Server.act, Connection.act]

theorem conns_act_of_ne {s : Server τ υ} {c d : Nat} (h : d ≠ c) (θ : Thread τ)
    (op : Op (Thread τ)) : (s.act θ c op).conns d = s.conns d :=
  conns_setConn_of_ne h _

theorem allowed_act {s : Server τ υ} {θ : Thread τ} {c : Nat} {op : Op (Thread τ)} {k : Task τ υ}
    (hfits : op.Fits (s.conns c).conn) (hk : k.Allowed s.state)
    (hstage : k.stage? ≠ some (.established, c)) : k.Allowed (s.act θ c op).state := by
  cases k with
  | conn d f =>
      by_cases hd : d = c
      · subst hd
        show f.Allowed ((s.act θ d op).state d)
        rw [state_act_self]
        apply Functor.Allowed.mono hk (Op.run_rank hfits)
        cases f with
        | connectEstablished => exact (hstage rfl).elim
        | _ => rfl
      · show f.Allowed ((s.act θ c op).state d)
        rw [state, conns_act_of_ne hd]
        exact hk
  | removeConnectionInLoop d =>
      by_cases hd : d = c
      · subst hd
        show (s.act θ d op).state d = .disconnected
        rw [state_act_self]
        by_contra hopen
        exact Op.run_open hfits hopen hk
      · show (s.act θ c op).state d = .disconnected
        rw [state, conns_act_of_ne hd]
        exact hk
  | stop => trivial
  | user x => trivial

/-- A member that a functor of the hand, or nothing, has called for. -/
theorem Cycle.act {s : Server τ υ} {hand rest : List (Task τ υ)} (h : s.Cycle hand)
    (hplaced : s.Placed) (θ : Thread τ) {c : Nat} {op : Op (Thread τ)} (hc : c < s.accepted)
    (hfits : op.Fits (s.conns c).conn) (hallowed : op.Allowed (s.state c))
    (hstate : s.state c = .connecting → op.stage? = some .established)
    (hrest : ∀ k ∈ rest, k ∈ hand)
    (hcount : ∀ g d, hand.countP (Task.brings g d) =
      rest.countP (Task.brings g d) + if op.stage? = some g ∧ d = c then 1 else 0) :
    (s.act θ c op).Cycle rest := by
  have hpending : ∀ k, (s.act θ c op).Pending rest k → s.Pending hand k := by
    intro k hk
    rcases hk with hk | hk | hk
    · exact .inl hk
    · exact .inr (.inl hk)
    · exact .inr (.inr (hrest k hk))
  have hwaiting : ∀ g d, s.waiting hand g d = s.waiting rest g d +
      if op.stage? = some g ∧ d = c then 1 else 0 := by
    intro g d
    rw [waiting, hcount g d, waiting]
    omega
  -- Once the connection has been established, no functor wants to do it again.
  have honce : ∀ k, (s.act θ c op).Pending rest k → k.stage? ≠ some (.established, c) := by
    intro k hk hstage
    have hconnecting : s.state c = .connecting := by
      have hk' := h.allowed k (hpending k hk)
      unfold Task.stage? at hstage
      split at hstage
      · cases hstage
        exact hk'
      · cases hstage
      · cases hstage
    have hpos : 0 < s.waiting rest .established c := h.waiting_pos hplaced hk hstage
    have hsum := h.stages .established c hc
    rw [hwaiting, if_pos ⟨hstate hconnecting, rfl⟩] at hsum
    simp only [Stage.due] at hsum
    omega
  constructor
  · intro k hk
    exact allowed_act hfits (h.allowed k (hpending k hk)) (honce k hk)
  · exact h.base
  · intro l d kind hp
    have hopen := h.todo l d kind hp
    by_cases hd : d = c
    · subst hd
      rw [state_act_self]
      exact Op.later_of_stage hfits fun hbad => (hopen hbad).elim
    · rw [state, conns_act_of_ne hd]
      exact hopen
  · intro d hd
    by_cases hdc : d = c
    · subst hdc
      rw [Server.act, conns_setConn_self]
      exact (h.conns d hd).act θ hfits hallowed hstate
    · rw [conns_act_of_ne hdc]
      exact h.conns d hd
  · intro g d hd
    have hsum := h.stages g d hd
    rw [hwaiting] at hsum
    by_cases hdc : d = c
    · subst hdc
      have hsame : (s.act θ d op).waiting rest g d = s.waiting rest g d := by
        simp [waiting, Server.act, Connection.act, Server.setConn]
      have hdone : ((s.act θ d op).conns d).done g =
          (s.conns d).done g + if op.stage? = some g then 1 else 0 := by
        rw [Server.act, conns_setConn_self, Connection.done_act]
      have hremovals : ((s.act θ d op).conns d).removals = (s.conns d).removals := by
        rw [Server.act, conns_setConn_self]
        rfl
      rw [hsame, hdone, hremovals, ← hsum]
      simp only [and_true]
      omega
    · have hsame : (s.act θ c op).waiting rest g d = s.waiting rest g d := by
        rw [waiting, conns_act_of_ne hdc]
        rfl
      rw [hsame, conns_act_of_ne hdc, ← hsum]
      simp [hdc]

/-! ## Functors on their way -/

theorem Cycle.setLoop {s : Server τ υ} {hand rest : List (Task τ υ)} (h : s.Cycle hand) {l : Nat}
    {loop : EventLoop (Task τ υ)}
    (hmem : ∀ k, k ∈ loop.queued ∨ k ∈ rest → k ∈ (s.loops l).loop.queued ∨ k ∈ hand)
    (hcount : ∀ g c, (s.conns c).loop = l →
      loop.queued.countP (Task.brings g c) + rest.countP (Task.brings g c) =
        (s.loops l).loop.queued.countP (Task.brings g c) + hand.countP (Task.brings g c))
    (hother : ∀ g c, (s.conns c).loop ≠ l →
      rest.countP (Task.brings g c) = hand.countP (Task.brings g c)) :
    (s.setLoop l loop).Cycle rest := by
  refine h.move rfl rfl ?_ h.base ?_ ?_
  · intro k hk
    rcases hk with ⟨m, hk⟩ | hk | hk
    · by_cases hm : m = l
      · subst hm
        rw [Server.setLoop, loops_setIo_self] at hk
        rcases hmem k (.inl hk) with hk | hk
        · exact .inl ⟨m, hk⟩
        · exact .inr (.inr hk)
      · rw [Server.setLoop, loops_setIo_of_ne hm] at hk
        exact .inl ⟨m, hk⟩
    · exact .inr (.inl hk)
    · rcases hmem k (.inr hk) with hk | hk
      · exact .inl ⟨l, hk⟩
      · exact .inr (.inr hk)
  · intro m p hp
    by_cases hm : m = l
    · subst hm
      rw [Server.setLoop, loops_setIo_self] at hp
      exact hp
    · rw [Server.setLoop, loops_setIo_of_ne hm] at hp
      exact hp
  · intro g c hc
    have hconns : (s.setLoop l loop).conns = s.conns := rfl
    have hflight : (s.setLoop l loop).inFlight = s.inFlight := rfl
    rw [waiting, waiting, hconns, hflight]
    by_cases hl : (s.conns c).loop = l
    · have hsum := hcount g c hl
      rw [hl, Server.setLoop, loops_setIo_self]
      dsimp only
      omega
    · have hsum := hother g c hl
      rw [Server.setLoop, loops_setIo_of_ne hl]
      omega

theorem countP_brings_eq_zero {s : Server τ υ} {k : Task τ υ} {g : Stage} {c l : Nat}
    (hon : k.On s.loopOf l) (hl : (s.conns c).loop ≠ l) : [k].countP (Task.brings g c) = 0 := by
  have hother : k.brings g c = false := by
    by_contra hbrings
    exact hl (loop_of_brings (by simpa using hbrings) hon)
  simp [hother]

theorem Cycle.pop {s : Server τ υ} (h : s.Cycle []) (hplaced : s.Placed) {l : Nat} {k : Task τ υ}
    {functors : List (Task τ υ)} (hfunctors : (s.loops l).loop.functors = k :: functors) :
    (s.setLoop l { (s.loops l).loop with functors }).Cycle [k] := by
  have hqueued := EventLoop.queued_of_functors hfunctors
  have hon : k.On s.loopOf l := (hplaced.loops l).queued k (by simp [hqueued])
  apply h.setLoop
  · intro k' hk'
    rcases hk' with hk' | hk'
    · rw [hqueued]
      exact .inl (List.mem_cons_of_mem k hk')
    · rw [hqueued, List.mem_singleton.1 hk']
      exact .inl List.mem_cons_self
  · intro g c _
    rw [hqueued]
    simp only [List.countP_cons, List.countP_nil]
    omega
  · intro g c hl
    exact countP_brings_eq_zero hon hl

theorem Cycle.setTodo {s : Server τ υ} (h : s.Cycle []) {l : Nat}
    {p : Option Nat × Callback} {todo : List (Option Nat × Callback)}
    (htodo : (s.loops l).todo = p :: todo) : (s.setTodo l todo).Cycle [] := by
  have hloop : ∀ m, ((s.setTodo l todo).loops m).loop = (s.loops m).loop := by
    intro m
    by_cases hm : m = l
    · subst hm
      rw [Server.setTodo, loops_setIo_self]
    · rw [Server.setTodo, loops_setIo_of_ne hm]
  refine h.move rfl rfl ?_ h.base ?_ ?_
  · intro k hk
    rcases hk with ⟨m, hk⟩ | hk | hk
    · rw [hloop] at hk
      exact .inl ⟨m, hk⟩
    · exact .inr (.inl hk)
    · cases hk
  · intro m q hq
    by_cases hm : m = l
    · subst hm
      rw [Server.setTodo, loops_setIo_self] at hq
      rw [htodo]
      exact List.mem_cons_of_mem p hq
    · rw [Server.setTodo, loops_setIo_of_ne hm] at hq
      exact hq
  · intro g c hc
    rw [waiting, hloop]
    rfl

/-! ## Removing, accepting and polling -/

theorem state_countRemoval (s : Server τ υ) (c : Nat) : (s.countRemoval c).state = s.state := by
  funext d
  by_cases hd : d = c
  · subst hd
    simp [state, countRemoval]
  · rw [state, countRemoval, conns_setConn_of_ne hd]
    rfl

/-- A removal; the first one makes `connectDestroyed` due. -/
theorem Cycle.countRemoval {s : Server τ υ} (h : s.Cycle []) {c : Nat}
    {rest : List (Task τ υ)} (hclosed : s.state c = .disconnected)
    (hallowed : ∀ k ∈ rest, k.Allowed s.state)
    (hcount : ∀ g d, rest.countP (Task.brings g d) =
      if d = c ∧ g = .destroyed ∧ (s.conns c).removals = 0 then 1 else 0) :
    (s.countRemoval c).Cycle rest := by
  have hstate := state_countRemoval s c
  constructor
  · rw [hstate]
    intro k hk
    rcases hk with hk | hk | hk
    · exact h.allowed k (.inl hk)
    · exact h.allowed k (.inr (.inl hk))
    · exact hallowed k hk
  · exact h.base
  · rw [hstate]
    exact h.todo
  · intro d hd
    have hcycle := h.conns d hd
    by_cases hdc : d = c
    · subst hdc
      rw [Server.countRemoval, conns_setConn_self]
      exact ⟨⟨hcycle.established, hcycle.destroyed, hcycle.order, hcycle.asserted⟩, hcycle.fresh,
        hcycle.once, fun _ => hclosed⟩
    · rw [Server.countRemoval, conns_setConn_of_ne hdc]
      exact hcycle
  · intro g d hd
    have hsum := h.stages g d hd
    have hwaiting : (s.countRemoval c).waiting rest g d =
        s.waiting [] g d + rest.countP (Task.brings g d) := by
      have hloop : ((s.countRemoval c).conns d).loop = (s.conns d).loop := by
        by_cases hdc : d = c
        · subst hdc
          simp [Server.countRemoval]
        · rw [Server.countRemoval, conns_setConn_of_ne hdc]
      rw [waiting, hloop]
      rfl
    have hdone : ((s.countRemoval c).conns d).done g = (s.conns d).done g := by
      by_cases hdc : d = c
      · subst hdc
        simp [Server.countRemoval, Connection.done]
      · rw [Server.countRemoval, conns_setConn_of_ne hdc]
    rw [hwaiting, hcount, hdone, removals_countRemoval]
    by_cases hdc : d = c
    · subst hdc
      cases g <;> by_cases hzero : (s.conns d).removals = 0 <;> simp_all [Stage.due]
    · simp only [hdc, false_and, if_false]
      omega

theorem Cycle.erase {s : Server τ υ} {hand : List (Task τ υ)} (h : s.Cycle hand) (name : String) :
    (s.erase name).Cycle hand :=
  h.move rfl rfl (fun _ hk => hk) h.base (fun _ _ hp => hp) fun _ _ _ => rfl

theorem Cycle.getNextLoop {s : Server τ υ} (h : s.Cycle []) : s.getNextLoop.2.Cycle [] := by
  unfold Server.getNextLoop
  split
  · exact h
  · exact h.move rfl rfl (fun _ hk => hk) h.base (fun _ _ hp => hp) fun _ _ _ => rfl

theorem lt_of_brings {s : Server τ υ} {k : Task τ υ} {g : Stage} {c l : Nat}
    (hk : k.brings g c = true) (hon : k.On s.loopOf l) : c < s.accepted := by
  have hstage : k.stage? = some (g, c) := by simpa [Task.brings] using hk
  unfold Task.stage? at hstage
  split at hstage
  · cases hstage
    exact (loopOf_eq_some.1 hon).1
  · cases hstage
    exact (loopOf_eq_some.1 hon).1
  · cases hstage

theorem state_register {s : Server τ υ} {c : Nat} (hc : c < s.accepted) (θ : Thread τ)
    (sockfd l : Nat) : (s.register θ sockfd l).state c = s.state c := by
  rw [state, conns_register_of_ne (by omega)]
  rfl

theorem allowed_register {s : Server τ υ} {k : Task τ υ} {m : Nat} (hon : k.On s.loopOf m)
    (hk : k.Allowed s.state) (θ : Thread τ) (sockfd l : Nat) :
    k.Allowed (s.register θ sockfd l).state := by
  cases k with
  | conn c f =>
      show f.Allowed ((s.register θ sockfd l).state c)
      rw [state_register (loopOf_eq_some.1 hon).1]
      exact hk
  | removeConnectionInLoop c =>
      show (s.register θ sockfd l).state c = .disconnected
      rw [state_register (loopOf_isSome.1 hon.2)]
      exact hk
  | stop => trivial
  | user x => trivial

theorem waiting_register_self {s : Server τ υ} (hplaced : s.Placed) (θ : Thread τ)
    (sockfd l : Nat) (hand : List (Task τ υ)) (g : Stage) :
    (s.register θ sockfd l).waiting hand g s.accepted =
      hand.countP (Task.brings g s.accepted) := by
  have hqueue : (s.loops l).loop.queued.countP (Task.brings g s.accepted) = 0 := by
    rw [List.countP_eq_zero]
    intro k hk hbrings
    have hlt := lt_of_brings hbrings ((hplaced.loops l).queued k hk)
    omega
  have hflight : (s.inFlight (.loop 0)).toList.countP (·.task.brings g s.accepted) = 0 := by
    rw [List.countP_eq_zero]
    intro j hj hbrings
    have hlt := lt_of_brings hbrings (hplaced.flight _ j (by simpa using hj))
    omega
  rw [waiting, conns_register_self]
  show (s.loops l).loop.queued.countP _ + (s.inFlight (.loop 0)).toList.countP _ + _ = _
  omega

theorem Cycle.register {s : Server τ υ} (h : s.Cycle []) (hplaced : s.Placed) (θ : Thread τ)
    (sockfd l : Nat) :
    (s.register θ sockfd l).Cycle [.conn s.accepted .connectEstablished] := by
  have hnew := conns_register_self s θ sockfd l
  constructor
  · intro k hk
    rcases hk with ⟨m, hk⟩ | ⟨θ', j, hj, rfl⟩ | hk
    · exact allowed_register ((hplaced.loops m).queued k hk) (h.allowed k (.inl ⟨m, hk⟩)) θ sockfd l
    · exact allowed_register (hplaced.flight θ' j hj)
        (h.allowed _ (.inr (.inl ⟨θ', j, hj, rfl⟩))) θ sockfd l
    · rw [List.mem_singleton] at hk
      subst hk
      show (s.register θ sockfd l).state s.accepted = .connecting
      rw [state, hnew]
      rfl
  · exact h.base
  · intro m c kind hp
    have hon : s.loopOf c = some m := (hplaced.loops m).todo _ hp
    rw [state_register (loopOf_eq_some.1 hon).1]
    exact h.todo m c kind hp
  · intro c hc
    by_cases hnewest : c = s.accepted
    · subst hnewest
      rw [hnew]
      exact Connection.cycle_of_fresh rfl rfl rfl rfl
    · have hlt : c < s.accepted + 1 := hc
      rw [conns_register_of_ne hnewest]
      exact h.conns c (by omega)
  · intro g c hc
    by_cases hnewest : c = s.accepted
    · subst hnewest
      rw [waiting_register_self hplaced, hnew]
      cases g <;> simp [Task.brings, Task.stage?, Connection.done, Stage.due]
    · have hlt : c < s.accepted + 1 := hc
      have hne : s.accepted ≠ c := fun heq => hnewest heq.symm
      have hwaiting : (s.register θ sockfd l).waiting
          [.conn s.accepted .connectEstablished] g c = s.waiting [] g c := by
        rw [waiting, conns_register_of_ne hnewest]
        simp [waiting, Task.brings, Task.stage?, hne]
        rfl
      rw [hwaiting, conns_register_of_ne hnewest]
      exact h.stages g c (by omega)

theorem isReading_of_events_eq_zero {c : Channel} (h : c.events = 0) : c.isReading = false := by
  simp [Channel.isReading_eq, h]

theorem Cycle.poll {s : Server τ υ} (h : s.Cycle []) {l : Nat} {events : List (KEvent (Option Nat))}
    (hevents : ∀ e ∈ events, s.MayReport l e) : (s.poll l events).Cycle [] := by
  have hqueued : ∀ m, ((s.poll l events).loops m).loop.queued = (s.loops m).loop.queued := by
    intro m
    by_cases hm : m = l
    · subst hm
      simp [Server.poll, Server.setIo, EventLoop.queued]
    · simp [Server.poll, Server.setIo, hm]
  constructor
  · intro k hk
    rcases hk with ⟨m, hk⟩ | hk | hk
    · rw [hqueued] at hk
      exact h.allowed k (.inl ⟨m, hk⟩)
    · exact h.allowed k (.inr (.inl hk))
    · cases hk
  · exact h.base
  · intro m c kind hp
    show s.state c ≠ .connecting
    by_cases hm : m = l
    · subst hm
      have hp' : (some c, kind) ∈ ((s.poll m events).loops m).todo := hp
      simp only [Server.poll, Server.setIo, Function.update_self, List.mem_flatMap, List.mem_map,
        Prod.mk.injEq] at hp'
      rcases hp' with ⟨k, hk, kind', -, rfl, rfl⟩
      rw [Poller.fillActiveChannels_active] at hk
      rcases List.mem_map.1 hk with ⟨e, he, hudata⟩
      have hreport := hevents e he
      intro hconnecting
      unfold MayReport at hreport
      rw [hudata] at hreport
      have hzero := ((h.conns c hreport.1.1).fresh hconnecting).2
      cases hfilter : e.filter with
      | read => simp [hfilter, channels, isReading_of_events_eq_zero hzero] at hreport
      | write => simp [hfilter, channels, Channel.isWriting_of_events_eq_zero hzero] at hreport
    · have hp' : (some c, kind) ∈ (s.loops m).todo := by
        simpa [Server.poll, Server.setIo, hm] using hp
      exact h.todo m c kind hp'
  · intro c hc
    have hcycle := h.conns c hc
    exact ⟨⟨hcycle.established, hcycle.destroyed, hcycle.order, hcycle.asserted⟩, hcycle.fresh,
      hcycle.once, hcycle.removed⟩
  · intro g c hc
    have hwaiting : (s.poll l events).waiting [] g c = s.waiting [] g c := by
      rw [waiting, hqueued]
      rfl
    rw [hwaiting]
    exact h.stages g c hc

variable [DecidableEq τ]

theorem Cycle.setFlight {s : Server τ υ} {k : Task τ υ} (h : s.Cycle [k]) {θ : Thread τ}
    (hfree : s.inFlight θ = none) (hbase : k.stage? ≠ none → θ = .loop 0) (l : Nat)
    (inline : Bool) : (s.setFlight θ (some ⟨l, k, inline⟩)).Cycle [] := by
  refine h.move rfl rfl ?_ ?_ (fun _ _ hp => hp) ?_
  · intro k' hk'
    rcases hk' with hk' | ⟨θ', j, hj, hk'⟩ | hk'
    · exact .inl hk'
    · by_cases hθ : θ' = θ
      · subst hθ
        rw [inFlight_setFlight_self] at hj
        cases hj
        exact .inr (.inr (by simp [← hk']))
      · rw [inFlight_setFlight_of_ne hθ] at hj
        exact .inr (.inl ⟨θ', j, hj, hk'⟩)
    · cases hk'
  · intro θ' j hj hstage
    by_cases hθ : θ' = θ
    · subst hθ
      rw [inFlight_setFlight_self] at hj
      cases hj
      exact hbase hstage
    · rw [inFlight_setFlight_of_ne hθ] at hj
      exact h.base θ' j hj hstage
  · intro g c hc
    have hloops : (s.setFlight θ (some ⟨l, k, inline⟩)).loops = s.loops := rfl
    have hconns : (s.setFlight θ (some ⟨l, k, inline⟩)).conns = s.conns := rfl
    rw [waiting, waiting, hloops, hconns]
    by_cases hθ : Thread.loop 0 = θ
    · subst hθ
      rw [inFlight_setFlight_self, hfree]
      simp [List.countP_cons]
    · have hother : k.brings g c = false := by
        by_contra hbrings
        have hstage : k.stage? = some (g, c) := by simpa [Task.brings] using hbrings
        exact hθ (hbase (by simp [hstage])).symm
      rw [inFlight_setFlight_of_ne hθ]
      simp [hother]

theorem Cycle.clear {s : Server τ υ} (h : s.Cycle []) {θ : Thread τ} {j : Job τ υ}
    (hj : s.inFlight θ = some j) : (s.setFlight θ none).Cycle [j.task] := by
  refine h.move rfl rfl ?_ ?_ (fun _ _ hp => hp) ?_
  · intro k hk
    rcases hk with hk | ⟨θ', j', hj', hk⟩ | hk
    · exact .inl hk
    · by_cases hθ : θ' = θ
      · subst hθ
        simp at hj'
      · rw [inFlight_setFlight_of_ne hθ] at hj'
        exact .inr (.inl ⟨θ', j', hj', hk⟩)
    · exact .inr (.inl ⟨θ, j, hj, (List.mem_singleton.1 hk).symm⟩)
  · intro θ' j' hj' hstage
    by_cases hθ : θ' = θ
    · subst hθ
      simp at hj'
    · rw [inFlight_setFlight_of_ne hθ] at hj'
      exact h.base θ' j' hj' hstage
  · intro g c hc
    have hloops : (s.setFlight θ none).loops = s.loops := rfl
    have hconns : (s.setFlight θ none).conns = s.conns := rfl
    rw [waiting, waiting, hloops, hconns]
    by_cases hθ : Thread.loop 0 = θ
    · subst hθ
      rw [inFlight_setFlight_self, hj]
      simp [List.countP_cons]
    · have hother : j.task.brings g c = false := by
        by_contra hbrings
        have hstage : j.task.stage? = some (g, c) := by simpa [Task.brings] using hbrings
        exact hθ (h.base θ j hj (by simp [hstage])).symm
      rw [inFlight_setFlight_of_ne hθ]
      simp [hother]

theorem Cycle.push {s : Server τ υ} {k : Task τ υ} (h : s.Cycle [k]) {l : Nat}
    (hon : k.On s.loopOf l) (θ : Thread τ) : (s.push θ l k).Cycle [] := by
  have hpushed : (s.setLoop l ((s.loops l).loop.queueInLoop (θ = .loop l) k)).Cycle [] := by
    apply h.setLoop
    · intro k' hk'
      rcases hk' with hk' | hk'
      · rw [EventLoop.queued_queueInLoop, List.mem_append] at hk'
        exact hk'
      · cases hk'
    · intro g c _
      rw [EventLoop.queued_queueInLoop, List.countP_append]
      rfl
    · intro g c hl
      exact (countP_brings_eq_zero hon hl).symm
  exact hpushed.move rfl rfl (fun _ hk => hk) hpushed.base (fun _ _ hp => hp) fun _ _ _ => rfl

theorem Cycle.runInLoop {s : Server τ υ} {k : Task τ υ} (h : s.Cycle [k]) {θ : Thread τ}
    (hfree : s.inFlight θ = none) (hstage : k.stage? = none) (l : Nat) :
    (s.runInLoop θ l k).Cycle [] :=
  h.setFlight hfree (fun hsome => (hsome hstage).elim) l true

theorem Cycle.removeConnection {s : Server τ υ} (h : s.Cycle []) {θ : Thread τ} {c : Nat}
    (hfree : s.inFlight θ = none) (hclosed : s.state c = .disconnected) :
    (s.removeConnection θ c).Cycle [] := by
  have hnote := h.note θ (.removeConnection c)
  have htake : (s.note θ (.removeConnection c)).Cycle [.removeConnectionInLoop c] :=
    hnote.take hclosed rfl
  exact htake.runInLoop hfree rfl 0

theorem Cycle.exec {s : Server τ υ} {hand : List (Task τ υ)} (h : s.Cycle hand)
    (hplaced : s.Placed) {l c : Nat} {op : Op (Thread τ)} (hc : s.loopOf c = some l)
    (hfree : s.inFlight (.loop l) = none) (hfits : op.Fits (s.conns c).conn)
    (hallowed : op.Allowed (s.state c))
    (hstate : s.state c = .connecting → op.stage? = some .established)
    (hcount : ∀ g d, hand.countP (Task.brings g d) =
      if op.stage? = some g ∧ d = c then 1 else 0) : (s.exec (.loop l) c op).Cycle [] := by
  rcases loopOf_eq_some.1 hc with ⟨hlt, hloop⟩
  have hact : (s.act (.loop l) c op).Cycle [] := by
    apply h.act hplaced (.loop l) hlt hfits hallowed hstate (by simp)
    intro g d
    rw [hcount g d, List.countP_nil, Nat.zero_add]
  unfold Server.exec
  simp only [hloop, ne_eq, not_true_eq_false, decide_false, Bool.and_false, Bool.false_eq_true,
    if_false]
  split
  · next hcloses =>
      apply hact.removeConnection hfree
      rw [state_act_self]
      exact Op.closed_of_closeCallback hfits (List.contains_iff_mem.1 hcloses)
  · exact hact

theorem Cycle.removeConnectionInLoop {s : Server τ υ} (h : s.Cycle []) (hregistered : s.Registered)
    {c : Nat} (hc : c < s.accepted) (hfree : s.inFlight (.loop 0) = none)
    (hclosed : s.state c = .disconnected) : (s.removeConnectionInLoop (.loop 0) c).Cycle [] := by
  have hcount := hregistered.countP_eq_zero hc
  have hnote := h.note (.loop 0) (.removeConnectionInLoop c)
  unfold Server.removeConnectionInLoop
  rw [if_pos rfl]
  dsimp only
  split
  · next hzero =>
      have hremoved : (s.conns c).removals ≠ 0 := hcount.1 hzero
      apply hnote.countRemoval hclosed (by simp)
      intro g d
      simp [Server.note, hremoved]
  · next hsome =>
      have hfirst : (s.conns c).removals = 0 := by
        by_contra hne
        exact hsome (hcount.2 hne)
      have hdue : ((s.note (.loop 0) (.removeConnectionInLoop c)).countRemoval c).Cycle
          [.conn c .connectDestroyed] := by
        apply hnote.countRemoval hclosed
        · intro k hk
          rw [List.mem_singleton] at hk
          subst hk
          exact hclosed
        · intro g d
          cases g <;> simp [Task.brings, Task.stage?, Server.note, hfirst, eq_comm]
      exact (hdue.erase _).setFlight hfree (fun _ => rfl) _ false

omit [DecidableEq τ] in
theorem fits_op {k : Task τ υ} {c : Nat} {f : Functor (Thread τ) Empty} {w : WriteResult}
    (hk : k = .conn c f) (hfits : k.Fits w) (x : TcpConnection (List UInt8)) :
    (f.op w).Fits x := by
  subst hk
  cases f <;> exact hfits

theorem Cycle.perform {s : Server τ υ} {k : Task τ υ} (h : s.Cycle [k]) (hplaced : s.Placed)
    (hregistered : s.Registered) {l : Nat} {w : WriteResult}
    (hfree : s.inFlight (.loop l) = none) (hon : k.On s.loopOf l) (hfits : k.Fits w) :
    (s.perform (.loop l) w k).Cycle [] := by
  have hallowed := h.allowed k (.inr (.inr List.mem_cons_self))
  cases k with
  | conn c f =>
      have hallowed' : f.Allowed (s.state c) := hallowed
      apply h.exec hplaced hon hfree (fits_op rfl hfits _) (Op.allowed_functor hallowed w)
      · intro hconnecting
        rw [hconnecting] at hallowed'
        cases f with
        | connectEstablished => rfl
        | connectDestroyed => cases hallowed'
        | user x => cases x
        | _ => exact (hallowed' rfl).elim
      · intro g d
        cases f <;> cases g <;>
          simp [Task.brings, Task.stage?, Functor.op, Op.stage?, eq_comm]
  | removeConnectionInLoop c =>
      rcases hon with ⟨rfl, hc⟩
      exact (h.drop rfl).removeConnectionInLoop hregistered (loopOf_isSome.1 hc) hfree hallowed
  | stop =>
      have hnote := (h.drop rfl).note (.loop l) .stop
      exact hnote.move rfl rfl (fun _ hk => hk) hnote.base (fun _ _ hp => hp) fun _ _ _ => rfl
  | user x => exact h.drop rfl

theorem Cycle.deliver {s : Server τ υ} (h : s.Cycle []) (hplaced : s.Placed)
    (hregistered : s.Registered) {θ : Thread τ} {w : WriteResult} {j : Job τ υ}
    (hj : s.inFlight θ = some j) (hfits : j.task.Fits w) : (s.deliver θ w j).Cycle [] := by
  have hon := hplaced.flight θ j hj
  have hclear := h.clear hj
  unfold Server.deliver
  dsimp only
  split
  · next hinline =>
      rcases hinline with ⟨hinline, rfl⟩
      have hidle : (s.setFlight (.loop j.loop) none).Registered := hregistered.clear hj hinline
      exact hclear.perform (hplaced.setFlight nofun) hidle (by simp) hon hfits
  · exact hclear.push hon θ

theorem Cycle.handOver {s : Server τ υ} (h : s.Cycle []) {θ : Thread τ} {c : Nat}
    {f : Functor (Thread τ) Empty} (hfree : s.inFlight θ = none)
    (hopen : s.state c ≠ .connecting) (hf : f.isCall = true) (l : Nat) :
    (s.runInLoop θ l (.conn c f)).Cycle [] := by
  have hstage : (Task.conn c f : Task τ υ).stage? = none := by
    cases f <;> first | rfl | cases hf
  have htake : s.Cycle [.conn c f] := h.take (Functor.allowed_of_isCall hf hopen) hstage
  exact htake.runInLoop hfree hstage l

theorem Cycle.actThenHandOver {s : Server τ υ} (h : s.Cycle []) (hplaced : s.Placed)
    {θ : Thread τ} {c : Nat} {op : Op (Thread τ)} {f : Functor (Thread τ) Empty}
    (hc : c < s.accepted) (hfree : s.inFlight θ = none) (hopen : s.state c ≠ .connecting)
    (hfits : op.Fits (s.conns c).conn) (hallowed : op.Allowed (s.state c))
    (hstage : op.stage? = none) (hf : f.isCall = true) (l : Nat) :
    ((s.act θ c op).runInLoop θ l (.conn c f)).Cycle [] := by
  have hconnecting : s.state c = .connecting → op.stage? = some .established :=
    fun hbad => (hopen hbad).elim
  have hact : (s.act θ c op).Cycle [] :=
    h.act hplaced θ hc hfits hallowed hconnecting (by simp) (by simp [hstage])
  apply hact.handOver hfree _ hf
  rw [state_act_self]
  exact Op.later_of_stage hfits hconnecting

theorem Cycle.call {s : Server τ υ} (h : s.Cycle []) (hplaced : s.Placed) {θ : Thread τ} {c : Nat}
    (hc : c < s.accepted) (hfree : s.inFlight θ = none) (k : Call) : (s.call θ c k).Cycle [] := by
  have hclosable : (s.conns c).conn.closable = true → s.state c ≠ .connecting := by
    intro hclosable hbad
    have hbad' : (s.conns c).conn.state = .connecting := hbad
    simp [TcpConnection.closable, hbad'] at hclosable
  have hconnected : (s.conns c).conn.connected = true → s.state c ≠ .connecting := by
    intro hconn hbad
    have hbad' : (s.conns c).conn.state = .connecting := hbad
    simp [TcpConnection.connected, hbad'] at hconn
  cases k with
  | send data =>
      have hsent : ({ s with sends := s.sends + 1 } : Server τ υ).Cycle [] :=
        h.move rfl rfl (fun _ hk => hk) h.base (fun _ _ hp => hp) fun _ _ _ => rfl
      simp only [Server.call]
      split
      · next hconn => exact hsent.handOver hfree (hconnected hconn) rfl _
      · exact hsent
  | shutdown =>
      simp only [Server.call]
      split
      · next hconn =>
          have hopen := hconnected hconn
          apply h.actThenHandOver hplaced hc hfree hopen
          · trivial
          · exact hopen
          · rfl
          · rfl
      · exact h
  | forceClose =>
      simp only [Server.call]
      split
      · next hconn =>
          have hopen := hclosable hconn
          apply h.actThenHandOver hplaced hc hfree hopen
          · trivial
          · exact hopen
          · rfl
          · rfl
      · exact h

theorem Cycle.newConnection {s : Server τ υ} (h : s.Cycle []) (hplaced : s.Placed)
    (hfree : s.inFlight (.loop 0) = none) (sockfd : Nat) :
    (s.newConnection (.loop 0) sockfd).Cycle [] := by
  have hflight : s.getNextLoop.2.inFlight = s.inFlight := by
    unfold Server.getNextLoop
    split <;> rfl
  simp only [Server.newConnection, if_true]
  have hregister := h.getNextLoop.register hplaced.getNextLoop (.loop 0) sockfd s.getNextLoop.1
  rw [accepted_getNextLoop] at hregister
  apply hregister.setFlight _ (fun _ => rfl)
  rw [inFlight_register, hflight]
  exact hfree

theorem step_cycle {s t : Server τ υ} {i : ServerInput τ υ} (hplaced : s.Placed)
    (hregistered : s.Registered) (h : s.Cycle []) (hstep : s.step i = some t) : t.Cycle [] := by
  cases (step_spec hstep).2 with
  | call hfree hc => exact h.call hplaced hc hfree.1 _
  | stop hfree =>
      have htake : s.Cycle [.stop] := h.take trivial rfl
      exact htake.runInLoop hfree.1 rfl 0
  | @stopNext c stopping hstopping hidle =>
      have hc := hplaced.stopping c (by simp [hstopping])
      have hrest : ({ s with stopping } : Server τ υ).Cycle [] :=
        h.move rfl rfl (fun _ hk => hk) h.base (fun _ _ hp => hp) fun _ _ _ => rfl
      exact hrest.call (hplaced.popStopping hstopping) (loopOf_isSome.1 hc) hidle _
  | deliver hj hfits => exact h.deliver hplaced hregistered hj hfits
  | @queueUser θ l x hfree =>
      have htake : s.Cycle [.user x] := h.take trivial rfl
      exact htake.setFlight hfree.1 (fun hbad => (hbad rfl).elim) l false
  | poll hfree hevents => exact h.poll hevents
  | @callback l r retrieved w sockfd c kind todo htodo hfree hfits =>
      have hmem : (some c, kind) ∈ (s.loops l).todo := by simp [htodo]
      have hopen : s.state c ≠ .connecting := h.todo l c kind hmem
      have hstage : (kind.op r retrieved w : Op (Thread τ)).stage? = none := by
        cases kind <;> rfl
      apply (h.setTodo htodo).exec (hplaced.setTodo htodo) ((hplaced.loops l).todo _ hmem) hfree.1
        hfits (Op.allowed_callback hopen r retrieved w) (fun hbad => (hopen hbad).elim)
      simp [hstage]
  | @accept l r retrieved w sockfd kind todo htodo hfree =>
      have hbase : l = 0 := (hplaced.loops l).todo (none, kind) (by simp [htodo])
      subst hbase
      exact (h.setTodo htodo).newConnection (hplaced.setTodo htodo) hfree.1 sockfd
  | acceptFailed htodo => exact h.setTodo htodo
  | @doPendingFunctors l htodo hfunctors =>
      have hqueued := EventLoop.queued_beginPendingFunctors
        (l := { (s.loops l).loop with eventHandling := false }) hfunctors
      apply h.setLoop
      · rw [hqueued]
        exact fun k hk => hk
      · rw [hqueued]
        exact fun g c _ => rfl
      · exact fun g c _ => rfl
  | @functor l w k functors hfunctors hfree hfits =>
      have hqueued := EventLoop.queued_of_functors hfunctors
      have hon : k.On s.loopOf l := (hplaced.loops l).queued k (by simp [hqueued])
      have hrest : (s.setLoop l { (s.loops l).loop with functors }).Placed := by
        apply hplaced.setLoop
        intro k' hk'
        rw [hqueued]
        exact List.mem_cons_of_mem k hk'
      exact (h.pop hplaced hfunctors).perform hrest (hregistered.setIo _ _) hfree.1 hon hfits
  | endPendingFunctors =>
      apply h.setLoop
      · exact fun k hk => hk
      · exact fun g c _ => rfl
      · exact fun g c _ => rfl

/-! ## Runs -/

/-- `state_` of every connection is as it was or further on. -/
def Forward (s t : Server τ υ) : Prop := ∀ c < s.accepted, (s.state c).rank ≤ (t.state c).rank

omit [DecidableEq τ] in
theorem Forward.of_conns {s t : Server τ υ} (h : t.conns = s.conns) : s.Forward t := by
  intro c _
  rw [state, state, h]

omit [DecidableEq τ] in
theorem forward_act {s : Server τ υ} {c : Nat} {op : Op (Thread τ)}
    (hfits : op.Fits (s.conns c).conn) (θ : Thread τ) : s.Forward (s.act θ c op) := by
  intro d _
  by_cases hd : d = c
  · subst hd
    rw [state_act_self]
    exact Op.run_rank hfits
  · rw [state, state, conns_act_of_ne hd]

theorem forward_exec {s : Server τ υ} {c : Nat} {op : Op (Thread τ)}
    (hfits : op.Fits (s.conns c).conn) (θ : Thread τ) : s.Forward (s.exec θ c op) := by
  have hact := forward_act hfits θ
  unfold Server.exec
  split
  · exact .of_conns rfl
  · dsimp only
    split
    · exact hact
    · exact hact

theorem forward_perform {s : Server τ υ} {k : Task τ υ} {w : WriteResult} (hfits : k.Fits w)
    (θ : Thread τ) : s.Forward (s.perform θ w k) := by
  cases k with
  | conn c f => exact forward_exec (fits_op rfl hfits _) θ
  | removeConnectionInLoop c =>
      have hsame : ∀ d, ((s.note θ (.removeConnectionInLoop c)).countRemoval c).state d =
          s.state d := by
        intro d
        rw [state_countRemoval]
        rfl
      simp only [Server.perform, Server.removeConnectionInLoop]
      split
      · split
        · exact fun d _ => (congrArg ConnState.rank (hsame d)).ge
        · exact fun d _ => (congrArg ConnState.rank (hsame d)).ge
      · exact .of_conns rfl
  | stop => exact .of_conns rfl
  | user x => exact .of_conns rfl

theorem forward_call (s : Server τ υ) (θ : Thread τ) (c : Nat) (k : Call) :
    s.Forward (s.call θ c k) := by
  cases k with
  | send data =>
      simp only [Server.call]
      split <;> exact .of_conns rfl
  | shutdown =>
      have hact : s.Forward (s.act θ c .shutdown) := forward_act (by trivial) θ
      simp only [Server.call]
      split
      · exact hact
      · exact .of_conns rfl
  | forceClose =>
      have hact : s.Forward (s.act θ c .forceClose) := forward_act (by trivial) θ
      simp only [Server.call]
      split
      · exact hact
      · exact .of_conns rfl

theorem state_runInLoop (s : Server τ υ) (θ : Thread τ) (l : Nat) (k : Task τ υ) :
    (s.runInLoop θ l k).state = s.state := rfl

theorem forward_newConnection (s : Server τ υ) (θ : Thread τ) (sockfd : Nat) :
    s.Forward (s.newConnection θ sockfd) := by
  intro c hc
  unfold Server.newConnection
  split
  · have hne : c < s.getNextLoop.2.accepted := by
      rw [accepted_getNextLoop]
      exact hc
    have hconns : s.getNextLoop.2.conns = s.conns := by
      unfold Server.getNextLoop
      split <;> rfl
    dsimp only
    rw [state_runInLoop, state_register hne, state, state, hconns]
  · exact Nat.le_refl _

theorem step_forward {s t : Server τ υ} {i : ServerInput τ υ} (hstep : s.step i = some t) :
    s.Forward t := by
  cases (step_spec hstep).2 with
  | call => exact forward_call s _ _ _
  | @stopNext c stopping => exact forward_call ({ s with stopping } : Server τ υ) _ _ _
  | @deliver θ w j hj hfits =>
      unfold Server.deliver
      dsimp only
      split
      · exact forward_perform (s := s.setFlight θ none) hfits θ
      · exact .of_conns rfl
  | @callback l r retrieved w sockfd c kind todo htodo hfree hfits =>
      exact forward_exec (s := s.setTodo l todo) hfits (.loop l)
  | @accept l r retrieved w sockfd kind todo => exact forward_newConnection (s.setTodo l todo) _ _
  | poll => exact fun c _ => Nat.le_refl _
  | @functor l w k functors hfunctors hfree hfits =>
      exact forward_perform (s := s.setLoop l _) hfits (.loop l)
  | _ => exact .of_conns rfl

omit [DecidableEq τ] in
theorem start_cycle (name : String) (numThreads : Nat) (cb mcb : Bool) :
    (start name numThreads cb mcb : Server τ υ).Cycle [] := by
  refine ⟨?_, nofun, by simp [start], nofun, nofun⟩
  intro k hk
  rcases hk with ⟨l, hk⟩ | ⟨θ, j, hj, -⟩ | hk
  · simp [start, EventLoop.new, EventLoop.queued] at hk
  · cases hj
  · cases hk

/-- What a reader of `TcpConnection.cc` relies on for connection `c`. -/
structure Orderly (s : Server τ υ) (c : Nat) : Prop where
  sound : (s.conns c).Sound
  established : (s.conns c).done .established = if s.state c = .connecting then 0 else 1
  destroyed : (s.conns c).done .destroyed ≤ 1
  released : ((s.conns c).name, c) ∉ s.connections → s.state c = .disconnected

omit [DecidableEq τ] in
theorem Cycle.orderly {s : Server τ υ} (h : s.Cycle []) (hregistered : s.Registered) {c : Nat}
    (hc : c < s.accepted) : s.Orderly c := by
  have hcycle := h.conns c hc
  refine ⟨hcycle.toSound, ?_, ?_, ?_⟩
  · have hsum := h.stages .established c hc
    simp only [Stage.due] at hsum
    split
    · next hconnecting => simp [Connection.done, (hcycle.fresh hconnecting).1]
    · next hopen =>
        have honce := hcycle.once hopen
        omega
  · have hsum := h.stages .destroyed c hc
    simp only [Stage.due] at hsum
    split at hsum <;> omega
  · intro hgone
    apply hcycle.removed
    intro hremovals
    exact hgone ((hregistered.entries _ c).2 ⟨hc, rfl, hremovals⟩)

/-- In every run of a server with at most 2^31 - 1 connections, `state_` only moves
forward, the two ends of the life cycle come once and in order, in the states meant for
them, no assertion of `TcpConnection` fails, and what the registry has released is
disconnected. -/
theorem lifecycle_forward (name : String) (numThreads : Nat) (cb mcb : Bool)
    (is : List (ServerInput τ υ)) :
    (machine τ υ).AlwaysStep (fun s _ t => s.Forward t) (start name numThreads cb mcb) is ∧
      (machine τ υ).Always
        (fun s => s.accepted ≤ 2 ^ 31 - 1 → ∀ c < s.accepted, s.Orderly c)
        (start name numThreads cb mcb) is := by
  constructor
  · apply Machine.alwaysStep_of_forall
    intro s i t hstep
    exact step_forward hstep
  · apply Machine.Always.mono
      (P := fun s => s.Placed ∧ (s.accepted ≤ 2 ^ 31 - 1 → s.Registered ∧ s.Cycle []))
    · intro s hs hbound c hc
      exact (hs.2 hbound).2.orderly (hs.2 hbound).1 hc
    · apply Machine.always_of_invariant
      · intro s i t hs hstep
        refine ⟨step_placed hs.1 hstep, fun hbound => ?_⟩
        rcases hs.2 (le_trans (accepted_le_step hstep) hbound) with ⟨hregistered, hcycle⟩
        exact ⟨step_registered hs.1 hregistered hbound hstep,
          step_cycle hs.1 hregistered hcycle hstep⟩
      · exact ⟨start_placed name numThreads cb mcb, fun _ =>
          ⟨start_registered name numThreads cb mcb, start_cycle name numThreads cb mcb⟩⟩

end Server

end Hayai
