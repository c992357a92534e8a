import Hayai.Machine.Run
import Hayai.Net.Confinement
import Hayai.Net.TcpServer
import Mathlib

/-! # The connection registry

`connections_` has exactly the accepted connections that have not been removed, under
names that are never given twice; a removal that comes late or again erases nothing. The
names are distinct as long as `nextConnId_` does not wrap around.
-/

namespace Hayai

variable {τ υ : Type}

def Task.isConnectDestroyed (c : Nat) : Task τ υ → Bool
  | .conn d .connectDestroyed => d == c
  | _ => false

@[simp] theorem Task.isConnectDestroyed_conn (c d : Nat) :
    (Task.conn d .connectDestroyed : Task τ υ).isConnectDestroyed c = (d == c) := rfl

namespace Server

/-- How often `connectDestroyed` of connection `c` was queued. Only the base loop's thread
queues it. -/
def destroys (s : Server τ υ) (c : Nat) : Nat :=
  s.posted.countP (·.2.isConnectDestroyed c) +
    (s.inFlight (.loop 0)).toList.countP (·.task.isConnectDestroyed c)

structure RegistryExact (s : Server τ υ) : Prop where
  distinct : ∀ c d, c < s.accepted → d < s.accepted → (s.conns c).name = (s.conns d).name → c = d
  entries : ∀ n c, (n, c) ∈ s.connections ↔
    c < s.accepted ∧ (s.conns c).name = n ∧ (s.conns c).removals = 0
  destroyed : ∀ c < s.accepted, s.destroys c = if (s.conns c).removals = 0 then 0 else 1
  ownLoop : ∀ l c, (l, .conn c .connectDestroyed) ∈ s.posted → (s.conns c).loop = l

/-- The invariant: the registry and the numbers behind the names. -/
structure Registered (s : Server τ υ) : Prop where
  nextConnId : s.nextConnId = Int.bmod (s.accepted + 1) (2 ^ 32)
  names : ∀ c < s.accepted, (s.conns c).name = s.name ++ "#" ++ toString ((c : Int) + 1)
  entries : ∀ n c, (n, c) ∈ s.connections ↔
    c < s.accepted ∧ (s.conns c).name = n ∧ (s.conns c).removals = 0
  destroyed : ∀ c < s.accepted, s.destroys c = if (s.conns c).removals = 0 then 0 else 1
  flight : ∀ θ j c, s.inFlight θ = some j → j.task.isConnectDestroyed c = true →
    θ = .loop 0 ∧ j.inline = false

theorem Registered.distinct {s : Server τ υ} (h : s.Registered) {c d : Nat}
    (hc : c < s.accepted) (hd : d < s.accepted) (hname : (s.conns c).name = (s.conns d).name) :
    c = d := by
  rw [h.names c hc, h.names d hd, String.append_right_inj] at hname
  have hid := Int.repr_injective hname
  omega

structure SameRegistry (s t : Server τ υ) : Prop where
  name : t.name = s.name
  nextConnId : t.nextConnId = s.nextConnId
  accepted : t.accepted = s.accepted
  connections : t.connections = s.connections
  posted : t.posted = s.posted
  inFlight : t.inFlight = s.inFlight
  conns : ∀ c, (t.conns c).name = (s.conns c).name ∧ (t.conns c).removals = (s.conns c).removals

theorem Registered.congr {s t : Server τ υ} (h : s.Registered) (hsame : SameRegistry s t) :
    t.Registered := by
  rcases hsame with ⟨hname, hid, haccepted, hconnections, hposted, hflight, hconns⟩
  constructor
  · rw [hid, haccepted]
    exact h.nextConnId
  · intro c hc
    rw [(hconns c).1, hname]
    exact h.names c (haccepted ▸ hc)
  · intro n c
    rw [hconnections, haccepted, (hconns c).1, (hconns c).2]
    exact h.entries n c
  · intro c hc
    rw [destroys, hposted, hflight, (hconns c).2]
    exact h.destroyed c (haccepted ▸ hc)
  · rw [hflight]
    exact h.flight

theorem SameRegistry.act (s : Server τ υ) (θ : Thread τ) (c : Nat) (op : Op (Thread τ)) :
    SameRegistry s (s.act θ c op) := by
  refine ⟨rfl, rfl, rfl, rfl, rfl, rfl, fun d => ?_⟩
  by_cases hd : d = c
  · subst hd
    simp [Server.act, Connection.act]
  · simp [Server.act, conns_setConn_of_ne hd]

theorem Registered.setIo {s : Server τ υ} (h : s.Registered) (l : Nat) (io : IoLoop τ υ) :
    (s.setIo l io).Registered :=
  h.congr ⟨rfl, rfl, rfl, rfl, rfl, rfl, fun _ => ⟨rfl, rfl⟩⟩

theorem Registered.note {s : Server τ υ} (h : s.Registered) (θ : Thread τ) (a : Access) :
    (s.note θ a).Registered :=
  h.congr ⟨rfl, rfl, rfl, rfl, rfl, rfl, fun _ => ⟨rfl, rfl⟩⟩

theorem Registered.abort {s : Server τ υ} (h : s.Registered) : s.abort.Registered :=
  h.congr ⟨rfl, rfl, rfl, rfl, rfl, rfl, fun _ => ⟨rfl, rfl⟩⟩

/-! ## Removal -/

/-- The name of a connection is in the registry exactly when it has not been removed. -/
theorem Registered.countP_eq_zero {s : Server τ υ} (h : s.Registered) {c : Nat}
    (hc : c < s.accepted) :
    s.connections.countP (·.1 = (s.conns c).name) = 0 ↔ (s.conns c).removals ≠ 0 := by
  rw [List.countP_eq_zero]
  constructor
  · intro hnone hremovals
    have hmem := (h.entries (s.conns c).name c).2 ⟨hc, rfl, hremovals⟩
    exact hnone _ hmem (by simp)
  · rintro hremovals ⟨n, d⟩ hp hname
    rcases (h.entries n d).1 hp with ⟨hd, hdname, hdremovals⟩
    have heq : d = c := h.distinct hd hc (hdname.trans (by simpa using hname))
    rw [heq] at hdremovals
    exact hremovals hdremovals

def countRemoval (s : Server τ υ) (c : Nat) : Server τ υ :=
  s.setConn c { s.conns c with removals := (s.conns c).removals + 1 }

theorem name_countRemoval (s : Server τ υ) (c d : Nat) :
    ((s.countRemoval c).conns d).name = (s.conns d).name := by
  by_cases hd : d = c
  · subst hd
    simp [countRemoval]
  · simp [countRemoval, conns_setConn_of_ne hd]

theorem removals_countRemoval (s : Server τ υ) (c d : Nat) :
    ((s.countRemoval c).conns d).removals =
      if d = c then (s.conns c).removals + 1 else (s.conns d).removals := by
  by_cases hd : d = c
  · subst hd
    simp [countRemoval]
  · simp [countRemoval, conns_setConn_of_ne hd, hd]

/-- A removal that comes again changes nothing. -/
theorem Registered.countRemoval {s : Server τ υ} (h : s.Registered) {c : Nat}
    (hremoved : (s.conns c).removals ≠ 0) : (s.countRemoval c).Registered := by
  refine ⟨h.nextConnId, ?_, ?_, ?_, h.flight⟩
  · intro d hd
    rw [name_countRemoval]
    exact h.names d hd
  · intro n d
    have hentries := h.entries n d
    show (n, d) ∈ s.connections ↔ d < s.accepted ∧ _
    rw [name_countRemoval, removals_countRemoval]
    by_cases hd : d = c
    · subst hd
      simpa [hremoved] using hentries
    · simpa [hd] using hentries
  · intro d hd
    have hdestroyed : (s.countRemoval c).destroys d = _ := h.destroyed d hd
    rw [hdestroyed, removals_countRemoval]
    by_cases hdc : d = c
    · subst hdc
      simp [hremoved]
    · simp [hdc]

/-! ## Accepting -/

theorem Registered.getNextLoop {s : Server τ υ} (h : s.Registered) :
    s.getNextLoop.2.Registered := by
  unfold Server.getNextLoop
  split
  · exact h
  · exact h.congr ⟨rfl, rfl, rfl, rfl, rfl, rfl, fun _ => ⟨rfl, rfl⟩⟩

theorem Registered.connName_eq {s : Server τ υ} (h : s.Registered)
    (hbound : s.accepted < 2 ^ 31 - 1) :
    s.connName = s.name ++ "#" ++ toString ((s.accepted : Int) + 1) := by
  rw [connName, h.nextConnId, Int.bmod_eq_of_le] <;> omega

theorem lt_of_isConnectDestroyed {s : Server τ υ} {k : Task τ υ} {c l : Nat}
    (hon : k.On s.loopOf l) (hk : k.isConnectDestroyed c = true) : c < s.accepted := by
  unfold Task.isConnectDestroyed at hk
  split at hk
  · next d =>
      rw [beq_iff_eq] at hk
      subst hk
      exact (loopOf_eq_some.1 hon).1
  · cases hk

theorem Registered.register {s : Server τ υ} (h : s.Registered) (hplaced : s.Placed)
    {θ : Thread τ} {sockfd l : Nat} (hbound : s.accepted < 2 ^ 31 - 1) :
    (s.register θ sockfd l).Registered := by
  have hname := h.connName_eq hbound
  have hnew := conns_register_self s θ sockfd l
  have hold : ∀ c, c ≠ s.accepted → (s.register θ sockfd l).conns c = s.conns c :=
    fun c hc => conns_register_of_ne hc θ sockfd l
  have hfresh : ∀ n c, (n, c) ∈ s.connections → n ≠ s.connName := by
    rintro n c hmem rfl
    rcases (h.entries _ c).1 hmem with ⟨hc, hc', -⟩
    rw [h.names c hc, hname, String.append_right_inj] at hc'
    have hid := Int.repr_injective hc'
    omega
  have hunborn : s.destroys s.accepted = 0 := by
    have hnone : ∀ k : Task τ υ, ∀ m, k.On s.loopOf m → k.isConnectDestroyed s.accepted = false := by
      intro k m hon
      by_contra hdestroyed
      have hlt := lt_of_isConnectDestroyed hon (by simpa using hdestroyed)
      omega
    rw [destroys, List.countP_eq_zero.2, List.countP_eq_zero.2]
    · intro j hj
      have hon := hplaced.flight _ j (by simpa using hj)
      simp [hnone _ _ hon]
    · intro p hp
      simp [hnone _ _ (hplaced.posted p hp)]
  constructor
  · show Int.bmod (s.nextConnId + 1) _ = Int.bmod ((s.accepted + 1 : Nat) + 1) _
    rw [h.nextConnId, Int.bmod_add_bmod]
    rfl
  · intro c hc
    by_cases hnewest : c = s.accepted
    · subst hnewest
      rw [hnew]
      exact hname
    · have hlt : c < s.accepted := by
        have hlt' : c < s.accepted + 1 := hc
        omega
      rw [hold c hnewest]
      exact h.names c hlt
  · intro n c
    show (n, c) ∈ (s.connections.filter (·.1 ≠ s.connName)).orderedInsert (·.1 ≤ ·.1)
        (s.connName, s.accepted) ↔ c < s.accepted + 1 ∧ _
    rw [List.mem_orderedInsert, List.mem_filter, Prod.mk.injEq]
    have hentries := h.entries n c
    by_cases hnewest : c = s.accepted
    · subst hnewest
      rw [hnew]
      constructor
      · intro hmem
        rcases hmem with ⟨rfl, -⟩ | ⟨hmem, -⟩
        · exact ⟨Nat.lt_succ_self _, rfl, rfl⟩
        · have hlt := (hentries.1 hmem).1
          omega
      · rintro ⟨-, rfl, -⟩
        exact .inl ⟨rfl, rfl⟩
    · rw [hold c hnewest]
      constructor
      · intro hmem
        rcases hmem with ⟨-, rfl⟩ | ⟨hmem, -⟩
        · exact (hnewest rfl).elim
        · rcases hentries.1 hmem with ⟨hlt, hrest⟩
          exact ⟨Nat.lt_succ_of_lt hlt, hrest⟩
      · intro hlt
        rcases hlt with ⟨hlt, hrest⟩
        have hmem := hentries.2 ⟨by omega, hrest⟩
        exact .inr ⟨hmem, by simpa using hfresh n c hmem⟩
  · intro c hc
    by_cases hnewest : c = s.accepted
    · subst hnewest
      rw [hnew]
      exact hunborn
    · have hlt : c < s.accepted := by
        have hlt' : c < s.accepted + 1 := hc
        omega
      rw [hold c hnewest]
      exact h.destroyed c hlt
  · exact h.flight

variable [DecidableEq τ]

theorem Registered.firstRemoval {s : Server τ υ} (h : s.Registered) {c : Nat}
    (hc : c < s.accepted) (hremovals : (s.conns c).removals = 0)
    (hfree : s.inFlight (.loop 0) = none) :
    (((s.countRemoval c).erase (s.conns c).name).queueInLoop (.loop 0) (s.conns c).loop
      (.conn c .connectDestroyed)).Registered := by
  refine ⟨h.nextConnId, ?_, ?_, ?_, ?_⟩
  · intro d hd
    exact (name_countRemoval s c d).trans (h.names d hd)
  · intro n d
    have hentries := h.entries n d
    show (n, d) ∈ s.connections.filter (·.1 ≠ (s.conns c).name) ↔
      d < s.accepted ∧ ((s.countRemoval c).conns d).name = n ∧
        ((s.countRemoval c).conns d).removals = 0
    rw [List.mem_filter, name_countRemoval, removals_countRemoval, hentries]
    by_cases hd : d = c
    · subst hd
      simp only [if_true]
      constructor
      · intro hname
        rcases hname with ⟨⟨-, hname, -⟩, hne⟩
        simp [hname] at hne
      · intro hbad
        rcases hbad with ⟨-, -, hbad⟩
        omega
    · simp only [hd, if_false]
      constructor
      · exact fun hmem => hmem.1
      · intro hmem
        refine ⟨hmem, ?_⟩
        have hne : n ≠ (s.conns c).name := by
          intro hn
          exact hd (h.distinct hmem.1 hc (hmem.2.1.trans hn))
        simpa using hne
  · intro d hd
    have hdestroyed := h.destroyed d hd
    show s.posted.countP (·.2.isConnectDestroyed d) +
        (((s.countRemoval c).erase (s.conns c).name).setFlight (.loop 0) _ |>.inFlight
          (.loop 0)).toList.countP (·.task.isConnectDestroyed d) =
      if ((s.countRemoval c).conns d).removals = 0 then 0 else 1
    rw [inFlight_setFlight_self, removals_countRemoval]
    rw [destroys, hfree] at hdestroyed
    by_cases hdc : d = c
    · subst hdc
      simp only [hremovals, if_true] at hdestroyed
      simpa using hdestroyed
    · have hcd : c ≠ d := fun heq => hdc heq.symm
      simpa [hdc, hcd] using hdestroyed
  · intro θ k d hk hdestroyed
    by_cases hθ : θ = .loop 0
    · subst hθ
      have hk' : some (⟨(s.conns c).loop, .conn c .connectDestroyed, false⟩ : Job τ υ) = some k :=
        (inFlight_setFlight_self _ _ _).symm.trans hk
      cases hk'
      exact ⟨rfl, rfl⟩
    · have hk' : s.inFlight θ = some k := (inFlight_setFlight_of_ne hθ _).symm.trans hk
      exact h.flight θ k d hk' hdestroyed

theorem Registered.setFlight {s : Server τ υ} (h : s.Registered) {θ : Thread τ}
    {j : Option (Job τ υ)}
    (hold : ∀ k c, s.inFlight θ = some k → k.task.isConnectDestroyed c = false)
    (hnew : ∀ k c, j = some k → k.task.isConnectDestroyed c = false) :
    (s.setFlight θ j).Registered := by
  have hsame : ∀ c, (s.setFlight θ j).destroys c = s.destroys c := by
    intro c
    by_cases hθ : Thread.loop 0 = θ
    · subst hθ
      unfold destroys
      rw [inFlight_setFlight_self]
      congr 1
      cases hs : s.inFlight (.loop 0) <;> cases j <;> simp_all
    · rw [destroys, inFlight_setFlight_of_ne hθ]
      rfl
  refine ⟨h.nextConnId, h.names, h.entries, ?_, ?_⟩
  · intro c hc
    rw [hsame c]
    exact h.destroyed c hc
  · intro θ' k c hk hdestroyed
    by_cases hθ : θ' = θ
    · subst hθ
      rw [inFlight_setFlight_self] at hk
      simp [hnew k c hk] at hdestroyed
    · rw [inFlight_setFlight_of_ne hθ] at hk
      exact h.flight θ' k c hk hdestroyed

theorem Registered.runInLoop {s : Server τ υ} (h : s.Registered) {θ : Thread τ} {l : Nat}
    {k : Task τ υ} (hfree : s.inFlight θ = none)
    (hk : ∀ c, k.isConnectDestroyed c = false) : (s.runInLoop θ l k).Registered := by
  apply h.setFlight
  · simp [hfree]
  · rintro j c ⟨⟩
    exact hk c

theorem Registered.pushFlight {s : Server τ υ} (h : s.Registered) {θ : Thread τ} {j : Job τ υ}
    (hj : s.inFlight θ = some j) : ((s.setFlight θ none).push θ j.loop j.task).Registered := by
  have hsame : ∀ c, ((s.setFlight θ none).push θ j.loop j.task).destroys c = s.destroys c := by
    intro c
    have hposted : ((s.setFlight θ none).push θ j.loop j.task).posted =
      s.posted ++ [(j.loop, j.task)] := rfl
    have hflight : ((s.setFlight θ none).push θ j.loop j.task).inFlight =
      (s.setFlight θ none).inFlight := rfl
    rw [destroys, hposted, hflight, List.countP_append]
    by_cases hθ : Thread.loop 0 = θ
    · subst hθ
      rw [inFlight_setFlight_self, destroys, hj]
      simp [List.countP_cons]
    · have hother : j.task.isConnectDestroyed c = false := by
        by_contra hdestroyed
        have hbase := (h.flight θ j c hj (by simpa using hdestroyed)).1
        exact hθ hbase.symm
      rw [inFlight_setFlight_of_ne hθ, destroys]
      simp [hother]
  refine ⟨h.nextConnId, h.names, h.entries, ?_, ?_⟩
  · intro c hc
    rw [hsame c]
    exact h.destroyed c hc
  · intro θ' k c hk hdestroyed
    change (s.setFlight θ none).inFlight θ' = some k at hk
    by_cases hθ : θ' = θ
    · subst hθ
      simp at hk
    · rw [inFlight_setFlight_of_ne hθ] at hk
      exact h.flight θ' k c hk hdestroyed

theorem Registered.removeConnectionInLoop {s : Server τ υ} (h : s.Registered) {c : Nat}
    (hc : c < s.accepted) (hfree : s.inFlight (.loop 0) = none) :
    (s.removeConnectionInLoop (.loop 0) c).Registered := by
  have hcount := h.countP_eq_zero hc
  have hnote := h.note (.loop 0) (.removeConnectionInLoop c)
  unfold Server.removeConnectionInLoop
  rw [if_pos rfl]
  dsimp only
  split
  · next hzero => exact hnote.countRemoval (hcount.1 hzero)
  · next hsome =>
      have hremovals : (s.conns c).removals = 0 := by
        by_contra hne
        exact hsome (hcount.2 hne)
      exact hnote.firstRemoval hc hremovals hfree

theorem Registered.removeConnection {s : Server τ υ} (h : s.Registered) {θ : Thread τ}
    (hfree : s.inFlight θ = none) (c : Nat) : (s.removeConnection θ c).Registered :=
  (h.note θ (.removeConnection c)).runInLoop hfree fun _ => rfl

theorem Registered.exec {s : Server τ υ} (h : s.Registered) {θ : Thread τ}
    (hfree : s.inFlight θ = none) (c : Nat) (op : Op (Thread τ)) : (s.exec θ c op).Registered := by
  have hact := h.congr (SameRegistry.act s θ c op)
  unfold Server.exec
  split
  · exact h.abort
  · dsimp only
    split
    · exact hact.removeConnection hfree c
    · exact hact

theorem Registered.perform {s : Server τ υ} (h : s.Registered) {l : Nat} {w : WriteResult}
    {k : Task τ υ} (hfree : s.inFlight (.loop l) = none) (hk : k.On s.loopOf l) :
    (s.perform (.loop l) w k).Registered := by
  cases k with
  | conn c f => exact h.exec hfree c _
  | removeConnectionInLoop c =>
      rcases hk with ⟨rfl, hc⟩
      exact h.removeConnectionInLoop (loopOf_isSome.1 hc) hfree
  | stop => exact h.congr ⟨rfl, rfl, rfl, rfl, rfl, rfl, fun _ => ⟨rfl, rfl⟩⟩
  | user x => exact h

theorem Registered.clear {s : Server τ υ} (h : s.Registered) {θ : Thread τ} {j : Job τ υ}
    (hj : s.inFlight θ = some j) (hinline : j.inline = true) :
    (s.setFlight θ none).Registered := by
  apply h.setFlight
  · intro k c hk
    rw [hj] at hk
    cases hk
    by_contra hdestroyed
    have hqueued := (h.flight _ j c hj (by simpa using hdestroyed)).2
    simp [hinline] at hqueued
  · nofun

theorem Registered.deliver {s : Server τ υ} (h : s.Registered) {θ : Thread τ} {w : WriteResult}
    {j : Job τ υ} (hj : s.inFlight θ = some j) (hon : j.task.On s.loopOf j.loop) :
    (s.deliver θ w j).Registered := by
  unfold Server.deliver
  dsimp only
  split
  · next hinline =>
      rcases hinline with ⟨hinline, rfl⟩
      exact (h.clear hj hinline).perform (by simp) hon
  · exact h.pushFlight hj

theorem Registered.call {s : Server τ υ} (h : s.Registered) {θ : Thread τ}
    (hfree : s.inFlight θ = none) (c : Nat) (k : Call) : (s.call θ c k).Registered := by
  cases k with
  | send data =>
      have hsent : ({ s with sends := s.sends + 1 } : Server τ υ).Registered :=
        h.congr ⟨rfl, rfl, rfl, rfl, rfl, rfl, fun _ => ⟨rfl, rfl⟩⟩
      simp only [Server.call]
      split
      · exact hsent.runInLoop hfree fun _ => rfl
      · exact hsent
  | shutdown =>
      simp only [Server.call]
      split
      · exact (h.congr (SameRegistry.act s θ c .shutdown)).runInLoop hfree fun _ => rfl
      · exact h
  | forceClose =>
      simp only [Server.call]
      split
      · exact (h.congr (SameRegistry.act s θ c .forceClose)).runInLoop hfree fun _ => rfl
      · exact h

/-! ## Runs -/

theorem accepted_perform (s : Server τ υ) (θ : Thread τ) (w : WriteResult) (k : Task τ υ) :
    (s.perform θ w k).accepted = s.accepted := by
  cases k with
  | conn c f =>
      simp only [Server.perform, Server.exec]
      split
      · rfl
      · split <;> rfl
  | removeConnectionInLoop c =>
      simp only [Server.perform, Server.removeConnectionInLoop]
      split
      · split <;> rfl
      · rfl
  | stop => rfl
  | user x => rfl

theorem Registered.newConnection {s : Server τ υ} (h : s.Registered) (hplaced : s.Placed)
    {sockfd : Nat} (hfree : s.inFlight (.loop 0) = none)
    (hbound : (s.newConnection (.loop 0) sockfd).accepted ≤ 2 ^ 31 - 1) :
    (s.newConnection (.loop 0) sockfd).Registered := by
  simp only [Server.newConnection, if_true] at hbound ⊢
  have hlt : s.getNextLoop.2.accepted < 2 ^ 31 - 1 := hbound
  have hflight : s.getNextLoop.2.inFlight = s.inFlight := by
    unfold Server.getNextLoop
    split <;> rfl
  apply (h.getNextLoop.register hplaced.getNextLoop hlt).runInLoop
  · show s.getNextLoop.2.inFlight _ = none
    rw [hflight]
    exact hfree
  · exact fun _ => rfl

theorem accepted_call (s : Server τ υ) (θ : Thread τ) (c : Nat) (k : Call) :
    (s.call θ c k).accepted = s.accepted := by
  cases k <;> simp only [Server.call] <;> split <;> rfl

theorem accepted_exec (s : Server τ υ) (θ : Thread τ) (c : Nat) (op : Op (Thread τ)) :
    (s.exec θ c op).accepted = s.accepted := by
  unfold Server.exec
  split
  · rfl
  · dsimp only
    split <;> rfl

theorem accepted_deliver (s : Server τ υ) (θ : Thread τ) (w : WriteResult) (j : Job τ υ) :
    (s.deliver θ w j).accepted = s.accepted := by
  unfold Server.deliver
  dsimp only
  split
  · exact accepted_perform _ _ _ _
  · rfl

theorem accepted_le_newConnection (s : Server τ υ) (θ : Thread τ) (sockfd : Nat) :
    s.accepted ≤ (s.newConnection θ sockfd).accepted := by
  unfold Server.newConnection
  split
  · show s.accepted ≤ s.getNextLoop.2.accepted + 1
    rw [accepted_getNextLoop]
    exact Nat.le_succ _
  · exact Nat.le_refl _

theorem accepted_le_step {s t : Server τ υ} {i : ServerInput τ υ} (hstep : s.step i = some t) :
    s.accepted ≤ t.accepted := by
  cases (step_spec hstep).2 with
  | call => exact (accepted_call _ _ _ _).ge
  | stopNext =>
      rw [accepted_call]
  | deliver => exact (accepted_deliver _ _ _ _).ge
  | callback => exact (accepted_exec (s.setTodo _ _) _ _ _).ge
  | accept => exact accepted_le_newConnection (s.setTodo _ _) _ _
  | functor => exact (accepted_perform (s.setLoop _ _) _ _ _).ge
  | _ => exact Nat.le_refl _

theorem step_registered {s t : Server τ υ} {i : ServerInput τ υ} (hplaced : s.Placed)
    (h : s.Registered) (hbound : t.accepted ≤ 2 ^ 31 - 1) (hstep : s.step i = some t) :
    t.Registered := by
  cases (step_spec hstep).2 with
  | call hfree hc => exact h.call hfree.1 _ _
  | stop hfree => exact h.runInLoop hfree.1 fun _ => rfl
  | @stopNext c stopping hstopping hidle =>
      have hrest : ({ s with stopping } : Server τ υ).Registered :=
        h.congr ⟨rfl, rfl, rfl, rfl, rfl, rfl, fun _ => ⟨rfl, rfl⟩⟩
      exact hrest.call hidle _ _
  | deliver hj => exact h.deliver hj (hplaced.flight _ _ hj)
  | queueUser hfree => exact h.setFlight (by simp [hfree.1]) (by rintro j c ⟨⟩; rfl)
  | poll => exact h.congr ⟨rfl, rfl, rfl, rfl, rfl, rfl, fun _ => ⟨rfl, rfl⟩⟩
  | callback htodo hfree => exact (h.setIo _ _).exec hfree.1 _ _
  | @accept l r retrieved w sockfd kind todo htodo hfree =>
      have hbase : l = 0 := (hplaced.loops l).todo (none, kind) (by simp [htodo])
      subst hbase
      exact Registered.newConnection (h.setIo _ _) (hplaced.setTodo htodo) hfree.1 hbound
  | acceptFailed => exact h.setIo _ _
  | doPendingFunctors => exact h.setIo _ _
  | @functor l w k functors hfunctors hfree =>
      have hqueued := EventLoop.queued_of_functors hfunctors
      have hon : k.On s.loopOf l := (hplaced.loops l).queued k (by simp [hqueued])
      exact Registered.perform (h.setIo _ _) hfree.1 hon
  | endPendingFunctors => exact h.setIo _ _

omit [DecidableEq τ] in
theorem start_registered (name : String) (numThreads : Nat) (cb mcb : Bool) :
    (start name numThreads cb mcb : Server τ υ).Registered := by
  refine ⟨by simp [start], nofun, ?_, nofun, nofun⟩
  simp [start]

omit [DecidableEq τ] in
theorem Registered.registryExact {s : Server τ υ} (h : s.Registered) (hplaced : s.Placed) :
    s.RegistryExact := by
  refine ⟨fun c d hc hd => h.distinct hc hd, h.entries, h.destroyed, ?_⟩
  intro l c hmem
  exact (loopOf_eq_some.1 (hplaced.posted _ hmem)).2

/-- Up to 2^31 - 1 accepted connections, whatever the order of accepts, closes and
removals on any number of loops, the registry is exact. -/
theorem registry_exact (name : String) (numThreads : Nat) (cb mcb : Bool)
    (is : List (ServerInput τ υ)) :
    (machine τ υ).Always (fun s => s.accepted ≤ 2 ^ 31 - 1 → s.RegistryExact)
      (start name numThreads cb mcb) is := by
  apply Machine.Always.mono
    (P := fun s => s.Placed ∧ (s.accepted ≤ 2 ^ 31 - 1 → s.Registered))
  · intro s hs hbound
    exact (hs.2 hbound).registryExact hs.1
  · apply Machine.always_of_invariant
    · intro s i t hs hstep
      refine ⟨step_placed hs.1 hstep, fun hbound => ?_⟩
      have hsbound := le_trans (accepted_le_step hstep) hbound
      exact step_registered hs.1 (hs.2 hsbound) hbound hstep
    · exact ⟨start_placed name numThreads cb mcb, fun _ => start_registered name numThreads cb mcb⟩

end Server

end Hayai
