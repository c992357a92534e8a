import Hayai.Net.ServerStreams

/-! # What is sent arrives

A `send()` that finds its connection open is over when its bytes are on the socket. The caller
hands its functor over, the loop runs it, and what the socket has not taken goes with the
write events that the kernel reports.
-/

namespace Hayai

variable {τ υ : Type}

namespace Connection

theorem Steps.grows {x y : Connection τ} (h : x.Steps y) : x.log <+: y.log ∧ x.ran <+: y.ran := by
  cases h with
  | act θ hfits =>
      rw [log_act, ran_act hfits]
      exact ⟨List.prefix_append _ _, List.prefix_append _ _⟩
  | _ => exact ⟨List.prefix_rfl, List.prefix_rfl⟩

theorem sentBytes_prefix {es fs : List Effect} (h : es <+: fs) : sentBytes es <+: sentBytes fs := by
  obtain ⟨rest, rfl⟩ := h
  rw [sentBytes_append]
  exact List.prefix_append _ _

/-- The message was dropped, or the socket has it after all that ran before. -/
def Arrived (x : Connection τ) (m : Message (Thread τ)) : Prop :=
  (m, true) ∈ x.ran ∨ ∃ before after, x.ran = before ++ (m, false) :: after ∧
    before.flatMap kept ++ m.data <+: sentBytes x.log

theorem Streams.reached {x : Connection τ} (h : x.Streams) {upTo : List UInt8}
    (hran : upTo <+: x.ran.flatMap kept) (hlength : upTo.length ≤ (sentBytes x.log).length) :
    upTo <+: sentBytes x.log := by
  rw [← h.stream] at hran
  exact List.prefix_of_prefix_length_le hran (List.prefix_append _ _) hlength

theorem length_sentBytes_handleWrite {x : Connection τ}
    (hwriting : x.conn.channel.isWriting = true) {w : WriteResult} (hpos : 0 < w.count)
    (hfits : w.count ≤ x.conn.outputBuffer.length) (θ : Thread τ) :
    (sentBytes x.log).length < (sentBytes (x.act θ (.handleWrite w)).log).length := by
  rw [log_act, sentBytes_append, List.length_append]
  suffices 0 < (sentBytes (x.conn.handleWrite w).2).length by
    simp only [Op.run]
    omega
  refine TcpConnection.handleWrite_cases (P := fun p => 0 < (sentBytes p.2).length) hfits
    ?_ ?_ ?_ ?_
  · intro hidle
    rw [hwriting] at hidle
    cases hidle
  · intro _ hzero
    omega
  · intro _ _ hlt
    simp [Effect.bytes]
    omega
  · intro _ _ hall
    split <;> simp [Effect.bytes] <;> omega

end Connection

namespace Server

variable [DecidableEq τ]

/-- The kernel keeps its word: while the connection is open and asks for write events, sooner
or later one is handled and the socket takes something. -/
def Writable (e : (machine τ υ).Execution) (c : Nat) : Prop :=
  ∀ n, ∃ m, n ≤ m ∧ ((e.state m).state c = .disconnected ∨
    ((e.state m).conns c).conn.channel.isWriting = false ∨
    ∃ w, (e.state m).member (e.input m) = some (c, .handleWrite w) ∧ 0 < w.count)

theorem grows_later {e : (machine τ υ).Execution} {n m : ℕ} (hm : n ≤ m) {c : Nat}
    (hc : c < (e.state n).accepted) :
    ((e.state n).conns c).log <+: ((e.state m).conns c).log ∧
      ((e.state n).conns c).ran <+: ((e.state m).conns c).ran := by
  induction m, hm using Nat.le_induction with
  | base => exact ⟨List.prefix_rfl, List.prefix_rfl⟩
  | succ m hm ih =>
      have hsteps := step_steps (e.step m) (hc.trans_le (accepted_later hm))
      exact ⟨ih.1.trans hsteps.grows.1, ih.2.trans hsteps.grows.2⟩

/-- Whatever is at the front of a connection's stream gets to the socket, or the connection is
closed. -/
theorem front_written {e : (machine τ υ).Execution} (hflows : ∀ n, (e.state n).Flows) {c : Nat}
    (hwritable : Writable e c) {n : ℕ} (hc : c < (e.state n).accepted) {upTo : List UInt8}
    (hran : upTo <+: ((e.state n).conns c).ran.flatMap kept) :
    ∃ m, n ≤ m ∧ ((e.state m).state c = .disconnected ∨
      upTo <+: sentBytes ((e.state m).conns c).log) := by
  induction hleft : upTo.length - (sentBytes ((e.state n).conns c).log).length
    using Nat.strong_induction_on generalizing n with
  | h left ih =>
      obtain ⟨m, hm, hturn⟩ := hwritable n
      have hcm := hc.trans_le (accepted_later hm)
      have hstreams := (hflows m).streams c hcm
      obtain ⟨hlog, hmore⟩ := grows_later hm hc
      have hranm : upTo <+: ((e.state m).conns c).ran.flatMap kept := by
        obtain ⟨rest, hrest⟩ := hmore
        rw [← hrest, List.flatMap_append]
        exact hran.trans (List.prefix_append _ _)
      by_cases hclosed : (e.state m).state c = .disconnected
      · exact ⟨m, hm, .inl hclosed⟩
      by_cases hdone : upTo.length ≤ (sentBytes ((e.state m).conns c).log).length
      · exact ⟨m, hm, .inr (hstreams.reached hranm hdone)⟩
      -- Something is left to write, so the channel asks for it.
      have hwriting : ((e.state m).conns c).conn.channel.isWriting = true := by
        apply (hstreams.writing hclosed).2
        intro hempty
        have hstream := hstreams.stream
        rw [hempty, List.append_nil] at hstream
        rw [hstream] at hdone
        exact hdone hranm.length_le
      rcases hturn with hbad | hbad | ⟨w, hmember, hpos⟩
      · exact absurd hbad hclosed
      · rw [hwriting] at hbad
        cases hbad
      · obtain ⟨hfits, u, hu, ht⟩ := exec_of_member (hflows m).placed (e.step m) hmember
        have hconn : (e.state (m + 1)).conns c =
            ((e.state m).conns c).act (.loop ((e.state m).conns c).loop) (.handleWrite w) := by
          rw [ht, conns_exec_self (by rw [hu]), hu]
        have hless := Connection.length_sentBytes_handleWrite hwriting hpos hfits
          (.loop ((e.state m).conns c).loop)
        have hbefore := (Connection.sentBytes_prefix hlog).length_le
        have hnext := grows_later (Nat.le_succ m) hcm
        rw [← hconn] at hless
        have hfewer : upTo.length - (sentBytes ((e.state (m + 1)).conns c).log).length < left := by
          omega
        obtain ⟨m', hm', hgoal⟩ := ih _ hfewer (hcm.trans_le (accepted_later (Nat.le_succ m)))
          (by
            obtain ⟨rest, hrest⟩ := hnext.2
            rw [← hrest, List.flatMap_append]
            exact hranm.trans (List.prefix_append _ _)) rfl
        exact ⟨m', by omega, hgoal⟩

/-- The message that is handed over runs: at once on the loop's own thread, or out of the
loop's queue. -/
theorem message_runs {e : (machine τ υ).Execution} (hflows : ∀ n, (e.state n).Flows)
    (hphase : ∀ n, (e.state n).InPhase) (hbatched : ∀ n, (e.state n).Batched) {n : ℕ}
    {θ : Thread τ} {c l : Nat} (hc : c < (e.state n).accepted) (hown : GoesOn e l)
    {m : Message (Thread τ)}
    (hflight : (e.state n).inFlight θ = some ⟨l, .conn c (.sendInLoop m), true⟩)
    (hmoves : ∃ k, n ≤ k ∧ (e.input k).thread = θ) :
    ∃ k, n ≤ k ∧ m ∈ ((e.state k).conns c).ran.map Prod.fst := by
  obtain ⟨k, hk, ⟨w, hinput⟩, hj⟩ := delivered_of_moves hflight hmoves
  have hstep : (e.state k).step (.deliver θ w) = some (e.state (k + 1)) := hinput ▸ e.step k
  cases step_messages (hflows k).placed hstep (hc.trans_le (accepted_later hk)) with
  | others hnot => exact absurd rfl (hnot w)
  | ran hi hj' hown' hran =>
      cases hi
      cases hj.symm.trans hj'
      exact ⟨k + 1, by omega, by simp [hran, Task.message?, Functor.message?]⟩
  | popped hi => cases hi
  | pushed hi hj' hnot =>
      cases hi
      cases hj.symm.trans hj'
      have hqueued := queued_of_deliver hj hnot hstep
      obtain ⟨k', hk', w', hinput', hhead⟩ := hown.runs hphase hbatched hqueued
      have hstep' : (e.state k').step (.functor l w') = some (e.state (k' + 1)) :=
        hinput' ▸ e.step k'
      have hc' : c < (e.state k').accepted := hc.trans_le (accepted_later (by omega))
      cases step_messages (hflows k').placed hstep' hc' with
      | others _ hnot => exact absurd rfl (hnot l w')
      | ran hi => cases hi
      | pushed hi => cases hi
      | popped hi hhead' hran =>
          cases hi
          cases hhead.symm.trans hhead'
          exact ⟨k' + 1, by omega, by simp [hran, Task.message?, Functor.message?]⟩

/-- Every message that `send()` lets through gets to the socket, after all that ran before it,
unless its direct write fails for good or the connection is closed first: the caller must get
on, the connection's loop must go on, and the kernel must keep its word. -/
theorem sent_message_arrives {e : (machine τ υ).Execution} {name : String} {numThreads : Nat}
    {cb mcb : Bool} (hstart : e.state 0 = start name numThreads cb mcb) {n : ℕ} {θ : Thread τ}
    {c : Nat} {data : List UInt8} (hsend : e.input n = .call θ c (.send data))
    (hconnected : (e.state n).state c = .connected)
    (hmoves : ∃ k, n < k ∧ (e.input k).thread = θ)
    (hown : GoesOn e ((e.state n).conns c).loop) (hwritable : Writable e c) :
    ∃ k, n < k ∧ ((e.state k).state c = .disconnected ∨
      ((e.state k).conns c).Arrived ⟨(e.state n).sends, .other θ, data⟩) := by
  have hall : ∀ n, (e.state n).Flows ∧ (e.state n).InPhase ∧ (e.state n).Batched := by
    intro n
    induction n with
    | zero =>
        rw [hstart]
        exact ⟨start_flows name numThreads cb mcb, start_inPhase name numThreads cb mcb,
          fun _ hne => absurd rfl hne⟩
    | succ n ih =>
        have hstep := e.step n
        exact ⟨step_flows ih.1 hstep, step_inPhase ih.2.1 hstep, step_batched ih.2.2 hstep⟩
  have hstep : (e.state n).step (.call θ c (.send data)) = some (e.state (n + 1)) :=
    hsend ▸ e.step n
  have hsends : (e.state n).sends? c (.call θ c (.send data)) =
      some ⟨(e.state n).sends, .other θ, data⟩ :=
    if_pos ⟨rfl, beq_iff_eq.2 hconnected⟩
  have hc : c < (e.state n).accepted := by
    by_contra hold
    rw [sends_of_not_accepted hstep hold] at hsends
    cases hsends
  have hflight := (flight_of_sends hstep hsends).1
  obtain ⟨k, hk, hran⟩ := message_runs (fun n => (hall n).1) (fun n => (hall n).2.1)
    (fun n => (hall n).2.2) (hc.trans_le (accepted_later (Nat.le_succ n))) hown hflight hmoves
  obtain ⟨⟨m, dropped⟩, hmem, rfl⟩ := List.mem_map.1 hran
  cases dropped with
  | true => exact ⟨k, hk, .inr (.inl hmem)⟩
  | false =>
      obtain ⟨before, after, hsplit⟩ := List.append_of_mem hmem
      have hfront : before.flatMap kept ++ data <+: ((e.state k).conns c).ran.flatMap kept := by
        rw [hsplit]
        simp [kept]
      have hck := hc.trans_le (accepted_later (Nat.le_of_lt hk))
      obtain ⟨k', hk', hgoal⟩ := front_written (fun n => (hall n).1) hwritable hck hfront
      obtain ⟨rest, hrest⟩ := (grows_later hk' hck).2
      refine ⟨k', by omega, hgoal.imp_right fun hwritten => .inr ⟨before, after ++ rest, ?_, ?_⟩⟩
      · rw [← hrest, hsplit]
        simp
      · exact hwritten

theorem isWriting_idlePass {s t : Server τ υ} {i : ServerInput τ υ} (hi : i ∈ idlePass)
    (hstep : s.step i = some t) (c : Nat) :
    (t.conns c).conn.channel.isWriting = (s.conns c).conn.channel.isWriting := by
  simp only [idlePass, List.mem_cons, List.not_mem_nil, or_false] at hi
  rcases hi with rfl | rfl | rfl
  · cases (step_spec hstep).2
    rfl
  · cases (step_spec hstep).2
    rfl
  · cases (step_spec hstep).2
    rfl

/-- Another thread sends two bytes; the socket takes one of them at once and the other one when
the kernel reports that it can. -/
theorem sent_message_arrives_in_two : ∃ e : (machine Unit Unit).Execution,
    e.state 0 = start "echo" 0 true true ∧ e.input 5 = .call (.other ()) 0 (.send [65, 66]) ∧
      ∃ k, 5 < k ∧ ((e.state k).state 0 = .disconnected ∨
        ((e.state k).conns 0).Arrived ⟨0, .other (.other ()), [65, 66]⟩) := by
  let is : List (ServerInput Unit Unit) := [.poll 0 [⟨3, .read, false, false, none⟩],
    .callback 0 (.bytes []) 0 (.wrote 0) (some 7), .deliver (.loop 0) (.wrote 0),
    .doPendingFunctors 0, .endPendingFunctors 0, .call (.other ()) 0 (.send [65, 66]),
    .deliver (.other ()) (.wrote 0), .poll 0 [], .doPendingFunctors 0, .functor 0 (.wrote 1),
    .endPendingFunctors 0, .poll 0 [⟨7, .write, false, false, some 0⟩],
    .callback 0 (.bytes []) 0 (.wrote 1) none, .doPendingFunctors 0, .endPendingFunctors 0]
  obtain ⟨e, hstart, hlast, hbefore, hidling, -, hbase⟩ := exists_idling
    (show (machine Unit Unit).run (start "echo" 0 true true) is = some _ from rfl)
    (start_placed "echo" 0 true true) ⟨rfl, rfl, rfl, rfl, rfl, rfl⟩
  have hfive : (e.state 5).state 0 = .connected ∧ (e.state 5).sends = 0 ∧
      ((e.state 5).conns 0).loop = 0 := by
    obtain ⟨u, hu, hu'⟩ : ∃ u, (machine Unit Unit).run (start "echo" 0 true true) (is.take 5) =
        some u ∧ u.state 0 = .connected ∧ u.sends = 0 ∧ (u.conns 0).loop = 0 :=
      ⟨_, rfl, rfl, rfl, rfl⟩
    have hrun := Machine.Execution.run_take hbefore (show 5 ≤ is.length by decide)
    rw [hstart, hu] at hrun
    cases hrun
    exact hu'
  have hwritable : Writable e 0 := by
    have hidle : ∀ n, ((e.state (15 + n)).conns 0).conn.channel.isWriting = false := by
      intro n
      induction n with
      | zero =>
          rw [show e.state (15 + 0) = _ from hlast]
          rfl
      | succ n ih => exact (isWriting_idlePass (hidling n) (e.step _) 0).trans ih
    exact fun n => ⟨15 + n, Nat.le_add_left n 15, .inr (.inl (hidle n))⟩
  have hsend : e.input 5 = .call (.other ()) 0 (.send [65, 66]) := hbefore 5 _ rfl
  have harrives := sent_message_arrives hstart hsend hfive.1
    ⟨6, by decide, by rw [hbefore 6 _ rfl]; rfl⟩ (by rw [hfive.2.2]; exact hbase) hwritable
  rw [hfive.2.1] at harrives
  exact ⟨e, hstart, hsend, harrives⟩

end Server

end Hayai
