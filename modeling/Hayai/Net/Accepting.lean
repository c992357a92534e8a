import Hayai.Machine.Run
import Hayai.Net.DeadChannels
import Hayai.Net.ServerKernel
import Hayai.Net.ServerPass

/-! # Accepted descriptors

What becomes of a descriptor that `accept` has returned. `Acceptor::handleRead` has it as a
plain number, closes it when no callback is installed, and hands it to
`TcpServer::newConnection` otherwise, which asks `getsockname` for its address before a
`TcpConnection` has it. The exception that `Socket::getLocalAddr` throws is caught nowhere on
its way out of `EventLoop::loop`.
-/

namespace Hayai

variable {τ υ : Type}

/-! ## The model -/

def ServerInput.refused : ServerInput τ υ → ServerInput τ υ
  | .callback l r retrieved w _ => .callback l r retrieved w none
  | i => i

namespace Server

def handlesAccept (s : Server τ υ) : ServerInput τ υ → Bool
  | .callback l _ _ _ _ => (s.loops l).todo.head?.any (·.1.isNone)
  | _ => false

/-- `newConnection` as far as it gets when `Socket::getLocalAddr` throws. -/
def newConnectionThrown (s : Server τ υ) : Server τ υ :=
  let t := (s.note (.loop 0) (.newConnection s.accepted)).getNextLoop.2
  { t with nextConnId := Int.bmod (t.nextConnId + 1) (2 ^ 32) }

end Server

/-- A server with the descriptors that `accept` has returned and nobody has closed. It is
`unwound` when an exception has left `loop()` of its base loop. -/
structure AcceptingServer (τ υ : Type) where
  polled : PolledServer τ υ
  newConnectionCallback : Bool
  descriptors : List Nat
  unwound : Bool

/-- `getsockname` says whether that call succeeds, in a step that makes it. -/
structure AcceptingInput (τ υ : Type) where
  polled : PolledInput τ υ
  getsockname : Bool

namespace AcceptingServer

variable [DecidableEq τ]

def handleRead (s : AcceptingServer τ υ) (j : ServerInput τ υ) (sockfd : Nat)
    (getsockname : Bool) : Option (AcceptingServer τ υ) :=
  if s.newConnectionCallback then
    if getsockname then
      (s.polled.step (.server j)).map fun polled =>
        { s with polled, descriptors := sockfd :: s.descriptors }
    else
      (s.polled.step (.server j.refused)).map fun polled =>
        { s with
          polled := { polled with server := polled.server.newConnectionThrown }
          descriptors := sockfd :: s.descriptors
          unwound := true }
  else (s.polled.step (.server j.refused)).map fun polled => { s with polled }

/-- The kernel returns no descriptor that is open. A connection that is released closes its
own. Nothing is left of the base loop's pass once its `loop()` is. -/
def step (s : AcceptingServer τ υ) (i : AcceptingInput τ υ) : Option (AcceptingServer τ υ) :=
  match i.polled with
  | .release c =>
      (s.polled.step (.release c)).map fun polled =>
        { s with
          polled
          descriptors := s.descriptors.erase (s.polled.server.conns c).conn.channel.fd }
  | .server j =>
      if s.unwound = true ∧ Server.isPassOf 0 j = true then none
      else
        match s.polled.server.accepts j with
        | none => (s.polled.step (.server j)).map fun polled => { s with polled }
        | some sockfd =>
            if s.polled.Possible j ∧ sockfd ∉ s.descriptors then
              s.handleRead j sockfd i.getsockname
            else none

def machine (τ υ : Type) [DecidableEq τ] :
    Machine (AcceptingServer τ υ) (AcceptingInput τ υ) := ⟨step⟩

omit [DecidableEq τ] in
def start (name : String) (numThreads : Nat)
    (connectionCallback messageCallback newConnectionCallback : Bool) : AcceptingServer τ υ :=
  ⟨.start name numThreads connectionCallback messageCallback, newConnectionCallback, [], false⟩

/-! ## What is asked -/

omit [DecidableEq τ] in
def Owns (s : AcceptingServer τ υ) (c fd : Nat) : Prop :=
  c < s.polled.server.accepted ∧ s.polled.released c = false ∧
    (s.polled.server.conns c).conn.channel.fd = fd

omit [DecidableEq τ] in
def Listed (s : AcceptingServer τ υ) (c : Nat) : Prop :=
  ((s.polled.server.conns c).name, c) ∈ s.polled.server.connections

omit [DecidableEq τ] in
def returned (s : AcceptingServer τ υ) (i : AcceptingInput τ υ) : Option Nat :=
  match i.polled with
  | .server j => s.polled.server.accepts j
  | .release _ => none

omit [DecidableEq τ] in
def handlesAccept (s : AcceptingServer τ υ) (i : AcceptingInput τ υ) : Bool :=
  match i.polled with
  | .server j => s.polled.server.handlesAccept j
  | .release _ => false

omit [DecidableEq τ] in
/-- What was there before a failed acceptance is there after it, and the base loop goes on with
what is left of its pass. -/
structure Untouched (s t : AcceptingServer τ υ) : Prop where
  connections : t.polled.server.connections = s.polled.server.connections
  nextConnId : t.polled.server.nextConnId = s.polled.server.nextConnId
  next : t.polled.server.next = s.polled.server.next
  inLoop : t.unwound = false
  todo : (t.polled.server.loops 0).todo = (s.polled.server.loops 0).todo.tail
  loop : (t.polled.server.loops 0).loop = (s.polled.server.loops 0).loop

omit [DecidableEq τ] in
/-- After every step an open descriptor has one owner, which is in the registry unless
`removeConnectionInLoop` was called for it. An acceptance closes its descriptor or puts the
owner into the registry, and leaves everything as it was if it makes no connection. -/
structure AllOrNothing (s : AcceptingServer τ υ) (i : AcceptingInput τ υ)
    (t : AcceptingServer τ υ) : Prop where
  owned : ∀ fd ∈ t.descriptors, ∃! c, t.Owns c fd
  listed : ∀ c fd, t.Owns c fd → t.Listed c ∨ (t.polled.server.conns c).removals ≠ 0
  accepted : ∀ sockfd, s.returned i = some sockfd →
    sockfd ∉ t.descriptors ∨ ∃ c, t.Owns c sockfd ∧ t.Listed c
  failed : s.handlesAccept i = true → t.polled.server.accepted = s.polled.server.accepted →
    s.Untouched t

omit [DecidableEq τ] in
/-- `getsockname` does not fail for a descriptor that `accept` has just returned. -/
def Answers (s : AcceptingServer τ υ) (i : AcceptingInput τ υ) : Prop :=
  s.returned i ≠ none → s.newConnectionCallback = true → i.getsockname = true

end AcceptingServer

/-! ## Acceptances -/

namespace Server

variable {s u : Server τ υ} {j : ServerInput τ υ}

theorem handlesAccept_of_accepts {sockfd : Nat} (h : s.accepts j = some sockfd) :
    s.handlesAccept j = true := by
  unfold accepts at h
  split at h
  · split at h
    · next htodo => simp [handlesAccept, htodo]
    · cases h
  · cases h

theorem accepts_refused (s : Server τ υ) (j : ServerInput τ υ) : s.accepts j.refused = none := by
  cases j <;> rfl

theorem handlesAccept_refused (s : Server τ υ) (j : ServerInput τ υ) :
    s.handlesAccept j.refused = s.handlesAccept j := by
  cases j <;> rfl

theorem step_of_accepts_eq_none [DecidableEq τ] (hplaced : s.Placed) (haccepts : s.accepts j = none)
    (hhandles : s.handlesAccept j = true) (hstep : s.step j = some u) :
    u = s.setTodo 0 (s.loops 0).todo.tail := by
  cases (step_spec hstep).2 with
  | callback htodo => simp [handlesAccept, htodo] at hhandles
  | accept htodo => simp [accepts, htodo] at haccepts
  | @acceptFailed l r retrieved w kind todo htodo =>
      have hbase : l = 0 := (hplaced.loops l).todo (none, kind) (by simp [htodo])
      subst hbase
      simp [htodo]
  | _ => cases hhandles

end Server

namespace AcceptingServer

variable {s t : AcceptingServer τ υ}

/-! ## The invariant -/

/-- Nothing has gone wrong so far: the open descriptors are those that connections have, each
of which has its own. -/
structure Accounts (s : AcceptingServer τ υ) : Prop where
  tracks : s.polled.Tracks
  inLoop : s.unwound = false
  nodup : s.descriptors.Nodup
  mem : ∀ fd, fd ∈ s.descriptors ↔ ∃ c, s.Owns c fd
  distinct : ∀ c d fd, s.Owns c fd → s.Owns d fd → c = d

theorem Accounts.listed (h : s.Accounts) {c : Nat} (hc : c < s.polled.server.accepted) :
    s.Listed c ∨ (s.polled.server.conns c).removals ≠ 0 := by
  by_cases hremovals : (s.polled.server.conns c).removals = 0
  · exact .inl ((h.tracks.registered.entries _ c).2 ⟨hc, rfl, hremovals⟩)
  · exact .inr hremovals

theorem Accounts.owned (h : s.Accounts) : ∀ fd ∈ s.descriptors, ∃! c, s.Owns c fd := by
  intro fd hfd
  rcases (h.mem fd).1 hfd with ⟨c, hc⟩
  exact ⟨c, hc, fun d hd => h.distinct d c fd hd hc⟩

variable [DecidableEq τ]

/-- A step that accepts nothing leaves all owners with what they have. -/
theorem owns_of_accepts_eq_none {polled : PolledServer τ υ} {j : ServerInput τ υ}
    (h : s.polled.Tracks) (haccepts : s.polled.server.accepts j = none)
    (hstep : s.polled.step (.server j) = some polled) (c fd : Nat) :
    ({ s with polled } : AcceptingServer τ υ).Owns c fd ↔ s.Owns c fd := by
  rcases PolledServer.step_server hstep with ⟨-, u, hu, rfl⟩
  have haccepted : u.accepted = s.polled.server.accepted := by
    have hcount := Server.accepted_step h.placed hu
    rwa [haccepts] at hcount
  simp only [Owns, PolledServer.released_polled, haccepted]
  refine and_congr_right fun hc => ?_
  rw [(h.same_descriptor hu hc).2]

theorem owns_of_accepts {polled : PolledServer τ υ} {j : ServerInput τ υ} {sockfd : Nat}
    (h : s.polled.Tracks) (haccepts : s.polled.server.accepts j = some sockfd)
    (hstep : s.polled.step (.server j) = some polled) (descriptors : List Nat) (c fd : Nat) :
    ({ s with polled, descriptors } : AcceptingServer τ υ).Owns c fd ↔
      s.Owns c fd ∨ c = s.polled.server.accepted ∧ fd = sockfd := by
  rcases PolledServer.step_server hstep with ⟨-, u, hu, rfl⟩
  have haccepted : u.accepted = s.polled.server.accepted + 1 := by
    have hcount := Server.accepted_step h.placed hu
    rwa [haccepts] at hcount
  have hmoves := Server.step_connMoves h.placed h.cycle hu c
  simp only [Owns, PolledServer.released_polled, haccepted]
  by_cases hc : c < s.polled.server.accepted
  · rw [(h.same_descriptor hu hc).2]
    have hne : c ≠ s.polled.server.accepted := hc.ne
    simp [hc, hne, Nat.lt_succ_of_lt hc]
  · constructor
    · rintro ⟨hlt, -, hfd⟩
      have hnew := Server.exists_accepts_of_new h.placed hu hmoves (haccepted ▸ hlt) hc
      obtain ⟨sockfd', rfl, hsockfd, hconn, -⟩ := hnew
      cases haccepts.symm.trans hsockfd
      rw [hconn] at hfd
      exact .inr ⟨rfl, hfd.symm⟩
    · rintro (⟨hlt, -⟩ | ⟨rfl, rfl⟩)
      · exact (hc hlt).elim
      · have hlt : s.polled.server.accepted < u.accepted := by omega
        have hnew := Server.exists_accepts_of_new h.placed hu hmoves hlt hc
        obtain ⟨sockfd', -, hsockfd, hconn, -⟩ := hnew
        cases haccepts.symm.trans hsockfd
        refine ⟨Nat.lt_succ_self _, ?_, by rw [hconn]; rfl⟩
        by_contra hreleased
        exact hc (h.released _ (by simpa using hreleased)).1

/-! ## Steps -/

theorem Accounts.server (h : s.Accounts) {polled : PolledServer τ υ} {j : ServerInput τ υ}
    (haccepts : s.polled.server.accepts j = none)
    (hstep : s.polled.step (.server j) = some polled) :
    ({ s with polled } : AcceptingServer τ υ).Accounts := by
  have howns := owns_of_accepts_eq_none h.tracks haccepts hstep
  refine ⟨PolledServer.step_tracks h.tracks hstep, h.inLoop, h.nodup, ?_, ?_⟩
  · intro fd
    simp only [howns]
    exact h.mem fd
  · intro c d fd
    rw [howns, howns]
    exact h.distinct c d fd

/-- An acceptance without a descriptor touches nothing. -/
theorem Accounts.untouched (h : s.Accounts) {polled : PolledServer τ υ} {j : ServerInput τ υ}
    (haccepts : s.polled.server.accepts j = none) (hhandles : s.polled.server.handlesAccept j = true)
    (hstep : s.polled.step (.server j) = some polled) :
    s.Untouched { s with polled } := by
  rcases PolledServer.step_server hstep with ⟨-, u, hu, rfl⟩
  obtain rfl := Server.step_of_accepts_eq_none h.tracks.placed haccepts hhandles hu
  refine ⟨rfl, rfl, rfl, h.inLoop, ?_, ?_⟩ <;> simp [Server.setTodo]

theorem Accounts.accept (h : s.Accounts) {polled : PolledServer τ υ} {j : ServerInput τ υ}
    {sockfd : Nat} (haccepts : s.polled.server.accepts j = some sockfd)
    (hfresh : sockfd ∉ s.descriptors) (hstep : s.polled.step (.server j) = some polled) :
    ({ s with polled, descriptors := sockfd :: s.descriptors } : AcceptingServer τ υ).Accounts := by
  have howns := owns_of_accepts h.tracks haccepts hstep (sockfd :: s.descriptors)
  have hother : ∀ c fd, s.Owns c fd → fd ≠ sockfd := by
    rintro c fd hc rfl
    exact hfresh ((h.mem fd).2 ⟨c, hc⟩)
  refine ⟨PolledServer.step_tracks h.tracks hstep, h.inLoop, List.nodup_cons.2 ⟨hfresh, h.nodup⟩,
    ?_, ?_⟩
  · intro fd
    simp only [List.mem_cons, h.mem, howns]
    constructor
    · rintro (hfd | ⟨c, hc⟩)
      · exact ⟨_, .inr ⟨rfl, hfd⟩⟩
      · exact ⟨c, .inl hc⟩
    · rintro ⟨c, hc | ⟨-, hfd⟩⟩
      · exact .inr ⟨c, hc⟩
      · exact .inl hfd
  · intro c d fd hc hd
    rw [howns] at hc hd
    rcases hc with hc | ⟨hc, hfd⟩ <;> rcases hd with hd | ⟨hd, hfd'⟩
    · exact h.distinct c d fd hc hd
    · exact (hother c fd hc hfd').elim
    · exact (hother d fd hd hfd).elim
    · rw [hc, hd]

theorem Accounts.release (h : s.Accounts) {polled : PolledServer τ υ} {c : Nat}
    (hstep : s.polled.step (.release c) = some polled) :
    ({ s with
      polled
      descriptors := s.descriptors.erase (s.polled.server.conns c).conn.channel.fd } :
        AcceptingServer τ υ).Accounts := by
  have htracks := PolledServer.step_tracks h.tracks hstep
  rcases Option.ite_none_right_eq_some.1 hstep with ⟨⟨hc, hreleased, -⟩, ⟨⟩⟩
  have hown : s.Owns c (s.polled.server.conns c).conn.channel.fd := ⟨hc, hreleased, rfl⟩
  have howns : ∀ d fd, AcceptingServer.Owns { s with
      polled := { s.polled with
        kernel := Function.update s.polled.kernel c .empty
        released := Function.update s.polled.released c true }
      descriptors := s.descriptors.erase (s.polled.server.conns c).conn.channel.fd } d fd ↔
      s.Owns d fd ∧ d ≠ c := by
    intro d fd
    by_cases hd : d = c
    · subst hd
      simp [Owns]
    · simp [Owns, hd]
  refine ⟨htracks, h.inLoop, h.nodup.erase _, ?_, ?_⟩
  · intro fd
    simp only [h.nodup.mem_erase_iff, h.mem, howns]
    constructor
    · rintro ⟨hne, d, hd⟩
      refine ⟨d, hd, ?_⟩
      rintro rfl
      exact hne hd.2.2.symm
    · rintro ⟨d, hd, hdc⟩
      refine ⟨?_, d, hd⟩
      rintro rfl
      exact hdc (h.distinct d c _ hd hown)
  · intro d e fd hd he
    exact h.distinct d e fd ((howns d fd).1 hd).1 ((howns e fd).1 he).1

omit [DecidableEq τ] in
theorem Accounts.allOrNothing (h : t.Accounts) {i : AcceptingInput τ υ}
    (haccepted : ∀ sockfd, s.returned i = some sockfd →
      sockfd ∉ t.descriptors ∨ ∃ c, t.Owns c sockfd ∧ t.Listed c)
    (hfailed : s.handlesAccept i = true →
      t.polled.server.accepted = s.polled.server.accepted → s.Untouched t) :
    s.AllOrNothing i t where
  owned := h.owned
  listed _ _ howns := h.listed howns.1
  accepted := haccepted
  failed := hfailed

theorem Accounts.listed_accept (h : s.Accounts) {polled : PolledServer τ υ} {j : ServerInput τ υ}
    {sockfd : Nat} (haccepts : s.polled.server.accepts j = some sockfd)
    (hstep : s.polled.step (.server j) = some polled) :
    polled.server.accepted = s.polled.server.accepted + 1 ∧
      ((polled.server.conns s.polled.server.accepted).name, s.polled.server.accepted) ∈
        polled.server.connections := by
  have htracks := PolledServer.step_tracks h.tracks hstep
  rcases PolledServer.step_server hstep with ⟨-, u, hu, rfl⟩
  have haccepted : u.accepted = s.polled.server.accepted + 1 := by
    have hcount := Server.accepted_step h.tracks.placed hu
    rwa [haccepts] at hcount
  have hlt : s.polled.server.accepted < u.accepted := by omega
  have hmoves := Server.step_connMoves h.tracks.placed h.tracks.cycle hu s.polled.server.accepted
  have hnew := Server.exists_accepts_of_new h.tracks.placed hu hmoves hlt (Nat.lt_irrefl _)
  obtain ⟨sockfd', -, -, hconn, -⟩ := hnew
  refine ⟨haccepted, (htracks.registered.entries _ _).2 ⟨hlt, rfl, ?_⟩⟩
  by_contra hremovals
  have hdisconnected : (u.conns s.polled.server.accepted).conn.state = .disconnected :=
    (htracks.cycle.conns _ hlt).removed hremovals
  rw [hconn] at hdisconnected
  cases hdisconnected

theorem step_accounts {i : AcceptingInput τ υ} (h : s.Accounts) (hanswers : s.Answers i)
    (hstep : s.step i = some t) : t.Accounts ∧ s.AllOrNothing i t := by
  rcases i with ⟨j | c, getsockname⟩
  · have hloop : ¬(s.unwound = true ∧ Server.isPassOf 0 j = true) := by
      rw [h.inLoop]
      exact fun hbad => Bool.false_ne_true hbad.1
    simp only [step, if_neg hloop] at hstep
    split at hstep
    · next haccepts =>
        rcases Option.map_eq_some_iff.1 hstep with ⟨polled, hpolled, rfl⟩
        have haccounts := h.server haccepts hpolled
        refine ⟨haccounts, haccounts.allOrNothing ?_ ?_⟩
        · intro sockfd hsockfd
          cases haccepts.symm.trans hsockfd
        · exact fun hhandles _ => h.untouched haccepts hhandles hpolled
    · next sockfd haccepts =>
        rcases Option.ite_none_right_eq_some.1 hstep with ⟨⟨-, hfresh⟩, hread⟩
        have hreturned : s.returned ⟨.server j, getsockname⟩ = some sockfd := haccepts
        unfold handleRead at hread
        split at hread
        · next hcallback =>
            have hname : getsockname = true := hanswers (by simp [hreturned]) hcallback
            rw [if_pos hname] at hread
            rcases Option.map_eq_some_iff.1 hread with ⟨polled, hpolled, rfl⟩
            have haccounts := h.accept haccepts hfresh hpolled
            have hlisted := h.listed_accept haccepts hpolled
            refine ⟨haccounts, haccounts.allOrNothing ?_ ?_⟩
            · intro fd hfd
              cases hreturned.symm.trans hfd
              refine .inr ⟨_, ?_, hlisted.2⟩
              exact (owns_of_accepts h.tracks haccepts hpolled _ _ _).2 (.inr ⟨rfl, rfl⟩)
            · intro _ hsame
              exact (Nat.succ_ne_self _ (hlisted.1.symm.trans hsame)).elim
        · rcases Option.map_eq_some_iff.1 hread with ⟨polled, hpolled, rfl⟩
          have hnone := Server.accepts_refused s.polled.server j
          have haccounts := h.server hnone hpolled
          refine ⟨haccounts, haccounts.allOrNothing ?_ ?_⟩
          · intro fd hfd
            cases hreturned.symm.trans hfd
            exact .inl hfresh
          · intro hhandles _
            apply h.untouched hnone ?_ hpolled
            rw [Server.handlesAccept_refused]
            exact hhandles
  · rcases Option.map_eq_some_iff.1 hstep with ⟨polled, hpolled, rfl⟩
    have haccounts := h.release hpolled
    exact ⟨haccounts, haccounts.allOrNothing nofun nofun⟩

/-- An exception out of `newConnection` leaves the loop. -/
theorem answers_of_allOrNothing {i : AcceptingInput τ υ} (h : s.Accounts)
    (hstep : s.step i = some t) (hall : s.AllOrNothing i t) : s.Answers i := by
  rcases i with ⟨j | c, getsockname⟩
  · intro hreturned hcallback
    obtain ⟨sockfd, haccepts⟩ := Option.ne_none_iff_exists'.1 hreturned
    have haccepts' : s.polled.server.accepts j = some sockfd := haccepts
    have hloop : ¬(s.unwound = true ∧ Server.isPassOf 0 j = true) := by
      rw [h.inLoop]
      exact fun hbad => Bool.false_ne_true hbad.1
    simp only [step, if_neg hloop, haccepts', handleRead, hcallback, if_true] at hstep
    by_contra hname
    rw [if_neg hname] at hstep
    rcases Option.ite_none_right_eq_some.1 hstep with ⟨-, hmap⟩
    rcases Option.map_eq_some_iff.1 hmap with ⟨polled, hpolled, rfl⟩
    rcases PolledServer.step_server hpolled with ⟨-, u, hu, rfl⟩
    have haccepted : u.accepted = s.polled.server.accepted := by
      have hcount := Server.accepted_step h.tracks.placed hu
      rwa [Server.accepts_refused] at hcount
    have huntouched := hall.failed (Server.handlesAccept_of_accepts haccepts')
      ((Server.accepted_getNextLoop _).trans haccepted)
    cases huntouched.inLoop
  · intro hreturned
    exact (hreturned rfl).elim

omit [DecidableEq τ] in
theorem start_accounts (name : String) (numThreads : Nat) (cb mcb ncb : Bool) :
    (start name numThreads cb mcb ncb : AcceptingServer τ υ).Accounts where
  tracks := PolledServer.start_tracks name numThreads cb mcb
  inLoop := rfl
  nodup := List.nodup_nil
  mem fd := ⟨nofun, by rintro ⟨c, hc, -⟩; cases hc⟩
  distinct _ _ _ howns := by cases howns.1

/-- Accepting is all or nothing in every step of a run if and only if `getsockname` never fails
for a descriptor that has just been accepted. -/
theorem accepts_all_or_nothing (name : String) (numThreads : Nat) (cb mcb ncb : Bool)
    (is : List (AcceptingInput τ υ)) :
    (machine τ υ).AlwaysStep AllOrNothing (start name numThreads cb mcb ncb) is ↔
      (machine τ υ).Meets Answers (start name numThreads cb mcb ncb) is := by
  apply Machine.alwaysStep_iff_meets (I := Accounts)
  · exact fun s i t hs hanswers hstep => (step_accounts hs hanswers hstep).1
  · intro s i t hs hstep
    exact ⟨answers_of_allOrNothing hs hstep, fun hanswers => (step_accounts hs hanswers hstep).2⟩
  · exact start_accounts name numThreads cb mcb ncb

/-- A client is gone before `getsockname` is asked. Its descriptor stays open and has no owner,
and the next connection id and the next loop are used up. -/
theorem getsockname_fails_not_all_or_nothing :
    ¬(machine Unit Unit).AlwaysStep AllOrNothing (start "echo" 2 true true true)
      [⟨.server (.poll 0 [⟨0, .read, false, false, none⟩]), true⟩,
        ⟨.server (.callback 0 (.bytes []) 0 (.wrote 0) (some 7)), false⟩] := by
  intro h
  have hstep := ((h _ rfl).2 _ rfl).1
  rcases (hstep.owned 7 List.mem_cons_self).exists with ⟨c, hc, -⟩
  cases hc

end AcceptingServer

end Hayai
