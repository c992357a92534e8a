import Hayai.Machine.Run
import Hayai.Net.ServerAcceptor
import Hayai.Net.ServerKernel

/-! # Dead channels in a poller

`connectDestroyed` removes its channel only when `index()` says that the poller has it, and
no code ever sets the index. So the entry of a connection stays in `channels_` when its
`connectDestroyed` has run, and when the connection is released it stays behind.
-/

namespace Hayai

namespace PolledServer

variable {τ υ : Type} [DecidableEq τ]

/-- An entry is of a channel that is there and has the descriptor, and a connection that is
destroyed has no entry. The wakeup channels, which live as long as their loops, have no
entries here. -/
structure NoDead (s : PolledServer τ υ) : Prop where
  alive : ∀ l fd c, s.channels l fd = some (some c) →
    s.released c = false ∧ (s.server.conns c).conn.channel.fd = fd
  acceptor : ∀ l fd, s.channels l fd = some none → ∃ a, s.server.acceptor = some a ∧ a.fd = fd
  destroyed : ∀ c < s.server.accepted, (s.server.conns c).done .destroyed ≠ 0 →
    ∀ l fd, s.channels l fd ≠ some (some c)

/-- The step does not run `connectDestroyed` of any connection. -/
def Spares (s : PolledServer τ υ) : PolledInput τ υ → Prop
  | .server i => (s.server.member i).all (fun p => p.2.stage? ≠ some .destroyed) = true
  | .release _ => True

instance (s : PolledServer τ υ) (i : PolledInput τ υ) : Decidable (s.Spares i) := by
  unfold Spares
  split <;> infer_instance

/-! ## Entries -/

omit [DecidableEq τ] in
theorem channels_ran {s : PolledServer τ υ} {c : Nat} {op : Op (Thread τ)}
    (h : Tended (s.server.conns c).conn (s.kernel c) (op.run (s.server.conns c).conn)) (l fd : Nat) :
    (s.ran c op).channels l fd =
      if (op.run (s.server.conns c).conn).2.contains .updateChannel = true ∧
        l = (s.server.conns c).loop ∧ fd = (s.server.conns c).conn.channel.fd then some (some c)
      else s.channels l fd := by
  unfold ran
  simp only [h.removes, Bool.false_eq_true, if_false]
  split
  · next hupdate =>
      simp only [updateChannel, setEntry, h.fd, hupdate, true_and]
      by_cases hl : l = (s.server.conns c).loop
      · subst hl
        by_cases hfd : fd = (s.server.conns c).conn.channel.fd <;> simp [hfd]
      · simp [hl]
  · next hupdate => rw [if_neg fun hbad => hupdate hbad.1]

omit [DecidableEq τ] in
theorem channels_dropAcceptor (s : PolledServer τ υ) (l fd : Nat) :
    s.dropAcceptor.channels l fd =
      if l = 0 ∧ s.server.acceptor.any (·.fd = fd) = true then none else s.channels l fd := by
  unfold dropAcceptor
  split
  · next a ha =>
      simp only [setEntry, ha, Option.any_some, decide_eq_true_eq]
      by_cases hl : l = 0
      · subst hl
        by_cases hfd : a.fd = fd
        · simp [hfd]
        · have hfd' : fd ≠ a.fd := fun heq => hfd heq.symm
          simp [hfd, hfd']
      · simp [hl]
  · next ha => simp [ha]

/-- The entries after a step: the member's channel is entered when it was updated, and the
acceptor's goes with it. -/
theorem channels_polled_of_some {s : PolledServer τ υ} {i : ServerInput τ υ} {c : Nat}
    {op : Op (Thread τ)} (h : s.server.member i = some (c, op)) (l fd : Nat) :
    (s.polled i).channels l fd =
      if s.server.runsStop i = true ∧ l = 0 ∧ s.server.acceptor.any (·.fd = fd) = true then none
      else (s.ran c op).channels l fd := by
  simp only [polled, h]
  split
  · next hruns => simp [channels_dropAcceptor, server_ran, hruns]
  · next hruns => simp [hruns]

theorem channels_polled_of_none {s : PolledServer τ υ} {i : ServerInput τ υ}
    (h : s.server.member i = none) (l fd : Nat) :
    (s.polled i).channels l fd =
      if s.server.runsStop i = true ∧ l = 0 ∧ s.server.acceptor.any (·.fd = fd) = true then none
      else s.channels l fd := by
  simp only [polled, h]
  split
  · next hruns => simp [channels_dropAcceptor, hruns]
  · next hruns => simp [hruns]

/-! ## While nothing is destroyed -/

omit [DecidableEq τ] in
/-- Nothing is destroyed; every connection has its own descriptor, and one that has been
established has its entry. -/
structure Serving (s : PolledServer τ υ) : Prop where
  tracks : s.Tracks
  undestroyed : ∀ c < s.server.accepted, (s.server.conns c).done .destroyed = 0
  alive : ∀ l fd c, s.channels l fd = some (some c) →
    c < s.server.accepted ∧ (s.server.conns c).conn.channel.fd = fd
  acceptor : ∀ l fd, s.channels l fd = some none →
    l = 0 ∧ ∃ a, s.server.acceptor = some a ∧ a.fd = fd
  distinct : ∀ c d, c < s.server.accepted → d < s.server.accepted →
    (s.server.conns c).conn.channel.fd = (s.server.conns d).conn.channel.fd → c = d
  apart : ∀ c < s.server.accepted,
    s.server.acceptor.any (·.fd = (s.server.conns c).conn.channel.fd) = false
  entered : ∀ c < s.server.accepted, s.server.state c ≠ .connecting →
    s.channels (s.server.conns c).loop (s.server.conns c).conn.channel.fd = some (some c)

omit [DecidableEq τ] in
theorem Serving.present {s : PolledServer τ υ} (h : s.Serving) (c : Nat) :
    s.released c = false := by
  by_contra hreleased
  have hgone := h.tracks.released c (by simpa using hreleased)
  exact hgone.2 (h.undestroyed c hgone.1)

omit [DecidableEq τ] in
theorem Serving.noDead {s : PolledServer τ υ} (h : s.Serving) : s.NoDead where
  alive l fd c hentry := ⟨h.present c, (h.alive l fd c hentry).2⟩
  acceptor l fd hentry := (h.acceptor l fd hentry).2
  destroyed c hc hdone := (hdone (h.undestroyed c hc)).elim

theorem Tracks.member_tended {s : PolledServer τ υ} (h : s.Tracks) {u : Server τ υ}
    {i : ServerInput τ υ} (hstep : s.server.step i = some u) {c : Nat} {op : Op (Thread τ)}
    (hmember : s.server.member i = some (c, op)) :
    c < s.server.accepted ∧ op.Allowed (s.server.state c) ∧
      Tended (s.server.conns c).conn (s.kernel c) (op.run (s.server.conns c).conn) ∧
      ∃ θ, u.conns c = (s.server.conns c).act θ op := by
  cases Server.step_connMoves h.placed h.cycle hstep c with
  | @ran θ op' hmember' hc hfits hallowed ht =>
      rw [hmember] at hmember'
      cases hmember'
      exact ⟨hc, hallowed, Op.tended (h.watches c hc) hfits hallowed, θ, ht⟩
  | fresh hmember' => simp [hmember] at hmember'
  | quiet hold hmember' => exact (hmember' op hmember).elim

theorem Tracks.same_descriptor {s : PolledServer τ υ} (h : s.Tracks) {u : Server τ υ}
    {i : ServerInput τ υ} (hstep : s.server.step i = some u) {c : Nat}
    (hc : c < s.server.accepted) :
    (u.conns c).loop = (s.server.conns c).loop ∧
      (u.conns c).conn.channel.fd = (s.server.conns c).conn.channel.fd := by
  cases Server.step_connMoves h.placed h.cycle hstep c with
  | ran hmember hc' hfits hallowed ht =>
      have htended := Op.tended (h.watches c hc) hfits hallowed
      rw [ht]
      exact ⟨rfl, htended.fd⟩
  | fresh hmember haccepts hfresh => omega
  | quiet hold hmember hquiet => exact ⟨hquiet.loop, hquiet.fd⟩

/-- The entry of a connection outlasts every step. -/
theorem Serving.kept {s : PolledServer τ υ} (h : s.Serving) {u : Server τ υ}
    {i : ServerInput τ υ} (hstep : s.server.step i = some u) {c : Nat}
    (hc : c < s.server.accepted)
    (hentry : s.channels (s.server.conns c).loop (s.server.conns c).conn.channel.fd =
      some (some c)) :
    (s.polled i).channels (s.server.conns c).loop (s.server.conns c).conn.channel.fd =
      some (some c) := by
  have hapart := h.apart c hc
  cases hmember : s.server.member i with
  | none =>
      rw [channels_polled_of_none hmember, if_neg (by simp [hapart]), hentry]
  | some p =>
      obtain ⟨d, op⟩ := p
      obtain ⟨hd, -, htended, -⟩ := h.tracks.member_tended hstep hmember
      rw [channels_polled_of_some hmember, if_neg (by simp [hapart]), channels_ran htended]
      split
      · next hnew => rw [h.distinct c d hc hd hnew.2.2]
      · exact hentry

/-- An entry after a step was there before, or it is of the member's own channel. -/
theorem Serving.entry {s : PolledServer τ υ} (h : s.Serving) {u : Server τ υ}
    {i : ServerInput τ υ} (hstep : s.server.step i = some u) {l fd : Nat} {k : Option Nat}
    (hentry : (s.polled i).channels l fd = some k) :
    (s.channels l fd = some k ∧
        ¬(s.server.runsStop i = true ∧ l = 0 ∧ s.server.acceptor.any (·.fd = fd) = true)) ∨
      ∃ c < s.server.accepted, k = some c ∧ (s.server.conns c).conn.channel.fd = fd := by
  cases hmember : s.server.member i with
  | none =>
      rw [channels_polled_of_none hmember] at hentry
      split at hentry
      · cases hentry
      · next hkept => exact .inl ⟨hentry, hkept⟩
  | some p =>
      obtain ⟨d, op⟩ := p
      obtain ⟨hd, -, htended, -⟩ := h.tracks.member_tended hstep hmember
      rw [channels_polled_of_some hmember] at hentry
      split at hentry
      · cases hentry
      · next hkept =>
          rw [channels_ran htended] at hentry
          split at hentry
          · next hnew =>
              cases hentry
              exact .inr ⟨d, hd, rfl, hnew.2.2.symm⟩
          · exact .inl ⟨hentry, hkept⟩

omit [DecidableEq τ] in
theorem Serving.unused {s : PolledServer τ υ} (h : s.Serving) {i : ServerInput τ υ}
    (hpossible : s.Possible i) {sockfd : Nat} (haccepts : s.server.accepts i = some sockfd) :
    (∀ c < s.server.accepted, (s.server.conns c).conn.channel.fd ≠ sockfd) ∧
      s.server.acceptor.any (·.fd = sockfd) = false := by
  have hunused : s.Unused sockfd := by
    unfold Possible at hpossible
    split at hpossible
    · cases haccepts
    · cases haccepts
    · exact (hpossible (by rw [haccepts]; rfl)).2 sockfd haccepts
  refine ⟨fun c hc => hunused.1 c hc (h.present c), ?_⟩
  have hall := hunused.2
  cases hacceptor : s.server.acceptor with
  | none => rfl
  | some a =>
      rw [hacceptor] at hall
      simpa using hall

/-- The descriptor of a new connection is nobody else's. -/
theorem Serving.distinct_step {s : PolledServer τ υ} (h : s.Serving) {i : ServerInput τ υ}
    (hpossible : s.Possible i) {u : Server τ υ} (hstep : s.server.step i = some u) {c d : Nat}
    (hc : c < u.accepted) (hd : d < u.accepted)
    (hfd : (u.conns c).conn.channel.fd = (u.conns d).conn.channel.fd) : c = d := by
  have hmoves := Server.step_connMoves h.tracks.placed h.tracks.cycle hstep
  have hsame := fun {c} => h.tracks.same_descriptor hstep (c := c)
  have hnew := fun {c} => Server.exists_accepts_of_new h.tracks.placed hstep (hmoves c)
  have hfresh : ∀ c d, c < u.accepted → ¬c < s.server.accepted → d < s.server.accepted →
      (u.conns c).conn.channel.fd ≠ (u.conns d).conn.channel.fd := by
    intro c d hc hold hd
    obtain ⟨sockfd, -, haccepts, hconn, -⟩ := hnew hc hold
    rw [hconn, (hsame hd).2]
    exact ((h.unused hpossible haccepts).1 d hd).symm
  by_cases hold : c < s.server.accepted <;> by_cases hold' : d < s.server.accepted
  · rw [(hsame hold).2, (hsame hold').2] at hfd
    exact h.distinct c d hold hold' hfd
  · exact (hfresh d c hd hold' hold hfd.symm).elim
  · exact (hfresh c d hc hold hold' hfd).elim
  · obtain ⟨-, hc', -⟩ := hnew hc hold
    obtain ⟨-, hd', -⟩ := hnew hd hold'
    rw [hc', hd']

/-- Whoever leaves `kConnecting` gets its entry in that step. -/
theorem Serving.entered_step {s : PolledServer τ υ} (h : s.Serving) {i : ServerInput τ υ}
    {u : Server τ υ} (hstep : s.server.step i = some u) {c : Nat} (hc : c < s.server.accepted)
    (hstate : u.state c ≠ .connecting) :
    (s.polled i).channels (s.server.conns c).loop (s.server.conns c).conn.channel.fd =
      some (some c) := by
  by_cases hconnecting : s.server.state c = .connecting
  · cases Server.step_connMoves h.tracks.placed h.tracks.cycle hstep c with
    | @ran θ op hmember hc' hfits hallowed ht =>
        have htended := Op.tended (h.tracks.watches c hc) hfits hallowed
        have hupdate := (htended.entered hconnecting).resolve_left fun hbad => by
          apply hstate
          show (u.conns c).conn.state = .connecting
          rw [ht]
          exact hbad
        rw [channels_polled_of_some hmember, if_neg (by simp [h.apart c hc]),
          channels_ran htended, if_pos ⟨hupdate, rfl, rfl⟩]
    | fresh hmember haccepts hfresh => omega
    | quiet hold hmember hquiet => exact (hstate (hquiet.connecting.2 hconnecting)).elim
  · exact h.kept hstep hc (h.entered c hc hconnecting)

theorem Serving.server {s : PolledServer τ υ} (h : s.Serving) {i : ServerInput τ υ}
    (hpossible : s.Possible i) (hspares : s.Spares (.server i)) {u : Server τ υ}
    (hstep : s.server.step i = some u) :
    ({ s.polled i with server := u } : PolledServer τ υ).Serving := by
  have htracks := h.tracks.server hpossible hstep
  have hmoves := Server.step_connMoves h.tracks.placed h.tracks.cycle hstep
  have haccepted := Server.accepted_step h.tracks.placed hstep
  have hle : s.server.accepted ≤ u.accepted := by omega
  have hsame := fun {c} => h.tracks.same_descriptor hstep (c := c)
  have hnew := fun {c} => Server.exists_accepts_of_new h.tracks.placed hstep (hmoves c)
  have hdrop : u.acceptor = s.server.acceptor ∨
      s.server.runsStop i = true ∧ u.acceptor = none := BaseLoop.acceptor_step hstep
  have hany : ∀ fd, s.server.acceptor.any (·.fd = fd) = false →
      u.acceptor.any (·.fd = fd) = false := by
    intro fd hfd
    rcases hdrop with heq | ⟨-, heq⟩ <;> rw [heq]
    · exact hfd
    · rfl
  refine ⟨htracks, ?_, ?_, ?_, ?_, ?_, ?_⟩
  · intro c hc
    by_cases hold : c < s.server.accepted
    · rcases done_step hold (hmoves c) with hdone | hmember
      · exact hdone.trans (h.undestroyed c hold)
      · simp [Spares, hmember, Op.stage?] at hspares
    · obtain ⟨sockfd, -, -, -, hhistory⟩ := hnew hc hold
      show (u.conns c).done .destroyed = 0
      rw [Connection.done, hhistory]
      rfl
  · intro l fd c hentry
    have hold : c < s.server.accepted ∧ (s.server.conns c).conn.channel.fd = fd := by
      rcases h.entry hstep hentry with ⟨hentry, -⟩ | ⟨d, hd, heq, hfd⟩
      · exact h.alive l fd c hentry
      · cases heq
        exact ⟨hd, hfd⟩
    exact ⟨hold.1.trans_le hle, (hsame hold.1).2.trans hold.2⟩
  · intro l fd hentry
    rcases h.entry hstep hentry with ⟨hentry, hkept⟩ | ⟨d, -, heq, -⟩
    · obtain ⟨hl, a, ha, hfd⟩ := h.acceptor l fd hentry
      rcases hdrop with heq | ⟨hruns, -⟩
      · exact ⟨hl, a, heq.trans ha, hfd⟩
      · exact (hkept ⟨hruns, hl, by simp [ha, hfd]⟩).elim
    · cases heq
  · exact fun c d hc hd hfd => h.distinct_step hpossible hstep hc hd hfd
  · intro c hc
    apply hany
    by_cases hold : c < s.server.accepted
    · show s.server.acceptor.any (·.fd = (u.conns c).conn.channel.fd) = false
      rw [(hsame hold).2]
      exact h.apart c hold
    · obtain ⟨sockfd, -, haccepts, hconn, -⟩ := hnew hc hold
      show s.server.acceptor.any (·.fd = (u.conns c).conn.channel.fd) = false
      rw [hconn]
      exact (h.unused hpossible haccepts).2
  · intro c hc hstate
    by_cases hold : c < s.server.accepted
    · show (s.polled i).channels (u.conns c).loop (u.conns c).conn.channel.fd = some (some c)
      rw [(hsame hold).1, (hsame hold).2]
      exact h.entered_step hstep hold hstate
    · obtain ⟨sockfd, -, -, hconn, -⟩ := hnew hc hold
      refine (hstate ?_).elim
      show (u.conns c).conn.state = .connecting
      rw [hconn]
      rfl

theorem step_serving {s t : PolledServer τ υ} {i : PolledInput τ υ} (h : s.Serving)
    (hspares : s.Spares i) (hstep : s.step i = some t) : t.Serving := by
  cases i with
  | server i =>
      rcases step_server hstep with ⟨hpossible, u, hu, rfl⟩
      exact h.server hpossible hspares hu
  | release c =>
      rcases Option.ite_none_right_eq_some.1 hstep with ⟨⟨hc, hreleased, howned⟩, -⟩
      rw [h.tracks.cycle.owned h.tracks.registered hc (h.undestroyed c hc)] at howned
      cases howned

/-- `connectDestroyed` leaves the entry of its channel. -/
theorem Serving.spares_of_noDead {s t : PolledServer τ υ} {i : PolledInput τ υ} (h : s.Serving)
    (hstep : s.step i = some t) (hnoDead : t.NoDead) : s.Spares i := by
  cases i with
  | release c => trivial
  | server i =>
      rcases step_server hstep with ⟨hpossible, u, hu, rfl⟩
      have hle : s.server.accepted ≤ u.accepted := by
        have haccepted := Server.accepted_step h.tracks.placed hu
        omega
      by_contra hdestroys
      have hmember : ∃ c, s.server.member i = some (c, .connectDestroyed) := by
        simp only [Spares, Option.all_eq_true, not_forall] at hdestroys
        obtain ⟨⟨c, op⟩, hmember, hstage⟩ := hdestroys
        refine ⟨c, ?_⟩
        rw [Option.mem_def.1 hmember]
        cases op with
        | connectDestroyed => rfl
        | _ => exact (hstage (by simp [Op.stage?])).elim
      obtain ⟨c, hmember⟩ := hmember
      obtain ⟨hc, hallowed, htended, θ, ht⟩ := h.tracks.member_tended hu hmember
      have hstate : s.server.state c ≠ .connecting := by
        have hdisconnected : s.server.state c = .disconnected := hallowed
        simp [hdisconnected]
      have hentry := h.kept hu hc (h.entered c hc hstate)
      have hdone : (u.conns c).done .destroyed ≠ 0 := by
        simp [ht, Connection.done_act, Op.stage?]
      exact hnoDead.destroyed c (hc.trans_le hle) hdone _ _ hentry

omit [DecidableEq τ] in
theorem start_serving (name : String) (numThreads : Nat) (cb mcb : Bool) :
    (start name numThreads cb mcb : PolledServer τ υ).Serving where
  tracks := start_tracks name numThreads cb mcb
  undestroyed := nofun
  alive := by simp [start]
  acceptor l fd hentry := by
    simp only [start, Option.ite_none_right_eq_some] at hentry
    exact ⟨hentry.1.1, _, rfl, hentry.1.2.symm⟩
  distinct := nofun
  apart := nofun
  entered := nofun

/-! ## Exactness -/

/-- The pollers hold no dead channel for as long as no `connectDestroyed` runs, and no
longer. -/
theorem noDead_iff_spares (name : String) (numThreads : Nat) (cb mcb : Bool)
    (is : List (PolledInput τ υ)) :
    (machine τ υ).Always NoDead (start name numThreads cb mcb) is ↔
      (machine τ υ).Meets Spares (start name numThreads cb mcb) is := by
  apply Machine.always_iff_meets (I := Serving)
  · exact fun s hs => hs.noDead
  · exact fun s i t hs hspares hstep => step_serving hs hspares hstep
  · exact fun s i t hs hstep hnoDead => hs.spares_of_noDead hstep hnoDead
  · exact start_serving name numThreads cb mcb

/-- A client that connects and closes: the connection is established, reads the end of the
stream, is removed, destroyed and released. -/
def connectThenClose : List (PolledInput Unit Unit) :=
  ([.poll 0 [⟨0, .read, false, false, none⟩], .callback 0 (.bytes []) 0 (.wrote 0) (some 7),
    .deliver (.loop 0) (.wrote 0), .doPendingFunctors 0, .endPendingFunctors 0,
    .poll 0 [⟨7, .read, false, false, some 0⟩], .callback 0 (.bytes []) 0 (.wrote 0) none,
    .deliver (.loop 0) (.wrote 0), .deliver (.loop 0) (.wrote 0), .doPendingFunctors 0,
    .functor 0 (.wrote 0), .endPendingFunctors 0] : List (ServerInput Unit Unit)).map .server ++
  [.release 0]

/-- The poller of the base loop still maps the descriptor to the channel of the connection
that has been released. -/
theorem entry_of_released_connection : ∃ s : PolledServer Unit Unit,
    (machine Unit Unit).run (start "echo" 0 true true) connectThenClose = some s ∧
      s.released 0 = true ∧ s.channels 0 7 = some (some 0) ∧ ¬s.NoDead := by
  refine ⟨_, rfl, ?_, ?_, ?_⟩
  · decide +kernel
  · decide +kernel
  · intro hnoDead
    have hentry := (hnoDead.alive 0 7 0 (by decide +kernel)).1
    exact absurd hentry (by decide +kernel)

end PolledServer

end Hayai
