import Hayai.Net.Input

/-! # The echo server

One connection of `examples/echo_server.cc`. Its message callback takes everything
out of the input buffer and sends it back before `handleRead` returns. The peer
should get its own stream back, in order and whole up to what is still on its way.
-/

namespace Hayai

/-! ## The model -/

/-- A step of the server; a callback comes with the outcome of its own system call and
with that of the direct write of the echo, if it comes to one. -/
inductive EchoInput where
  | peerSend (data : List UInt8)
  | peerClose
  | poll (events : List (KEvent Unit))
  | callback (r : ReadResult) (w echoed : WriteResult)

def Buffer.Takes (b : Buffer) (n : Nat) : Prop :=
  n ≤ b.writableBytes ∨ 2 * b.writableBytes < n

namespace Inflow

/-- The next callback is a read that calls the message callback, whose `send` finds the
connection open. -/
def echoes (s : Inflow) (r : ReadResult) : Bool :=
  s.todo.head? == some .read && !r.data.isEmpty && s.conn.messageCallback && s.conn.connected

/-- What a step of the server does on the connection:
`std::string msg = buf->retrieveAllAsString(); conn->send(msg);`. -/
def echo (s : Inflow) : EchoInput → List InflowInput
  | .peerSend data => [.peerSend data]
  | .peerClose => [.peerClose]
  | .poll events => [.poll events]
  | .callback r w echoed =>
      let msg := (s.conn.inputBuffer.readFd r).content
      .callback r msg.length w :: if s.echoes r then [.send msg echoed] else []

def echoMachine : Machine Inflow EchoInput := ⟨fun s i => machine.run s (s.echo i)⟩

/-- What the peer has sent is what it got back, then what waits for the socket, then
what is unread, and nothing is unread when the disconnection is reported. -/
structure Echoed (s : Inflow) : Prop where
  sound : ∃ b, s.conn.inputBuffer = .ok b ∧ b.content = []
  stream : sentBytes s.log ++ s.conn.outputBuffer ++ s.unread = s.sent
  complete : .connectionCallback false ∈ s.log → s.unread = []
  writing : s.conn.state ≠ .disconnected → s.conn.WritingIffBuffered

/-- The close callback does not run while bytes are unread, every read fits, and no
echo is refused. -/
def Timely (s : Inflow) : EchoInput → Prop
  | .callback r _ echoed =>
      (s.todo.head? = some .close → s.unread = []) ∧
      (s.echoes r = true → s.conn.faulted echoed = false ∧
        ∀ b, s.conn.inputBuffer = .ok b → b.Takes r.data.length)
  | _ => True

end Inflow

/-! ## Reading into an empty buffer -/

namespace Buffer

open Storage

theorem Blank.writableBytes {b : Buffer} (h : b.Blank) : b.writableBytes = b.size - 8 := by
  rw [h.wf.writableBytes_eq, h.reader, kCheapPrepend]

/-- Between one and two times the room, the spilled bytes are taken to fit into the
full vector. -/
theorem Blank.readFits_iff {b : Buffer} (h : b.Blank) {n : Nat} (hn : n ≤ b.offered) :
    b.ReadFits n ↔ b.Takes n := by
  have hw := h.wf.writer_le
  have hmax : extrabufSize + extrabufSize + 8 ≤ maxSize := by decide
  have hoffered : n ≤ b.size - 8 ∨ n ≤ b.size - 8 + extrabufSize ∧ b.size - 8 < extrabufSize := by
    unfold offered at hn
    rw [h.writableBytes] at hn
    split at hn <;> omega
  rw [h.writer, kCheapPrepend] at hw
  unfold ReadFits Takes Fits
  simp only [h.writableBytes, h.reader, h.writer, kCheapPrepend, true_and]
  change (if n ≤ b.size - 8 then 8 + n ≤ b.size
    else if n - (b.size - 8) ≤ b.size - 8 then b.size + (n - (b.size - 8)) ≤ b.size
    else if b.size < n - (b.size - 8) + 8 then b.size + (n - (b.size - 8)) ≤ maxSize
    else 8 + (b.size - 8) + (n - (b.size - 8)) ≤ b.size) ↔ _
  by_cases hroom : n ≤ b.size - 8
  · rw [if_pos hroom]
    omega
  · rw [if_neg hroom]
    by_cases hspill : n - (b.size - 8) ≤ b.size - 8
    · rw [if_pos hspill]
      omega
    · rw [if_neg hspill, if_pos (by omega)]
      omega

theorem readFd_nil {b : Buffer} (h : b.Wf) : b.readFd (.bytes []) = .ok (b, none) := by
  have hs := h.size_lt
  have hw := h.writer_le
  have hsame : overwrite b.buffer b.writerIndex [] = b.buffer := by simp [overwrite]
  rw [readFd_of_le h (Nat.zero_le _), copyTo_ok hw, hsame,
    sizeT_of_lt (by simp only [List.length_nil]; omega)]
  rfl

/-- Taking the whole content out leaves the buffer as `retrieveAllAsString` does. -/
theorem retrieve_content {b : Buffer} (h : b.Wf) :
    b.retrieve b.content.length = .ok b.retrieveAll := by
  simp [retrieve, h.content_length, pure, Except.pure]

theorem retrieveAll_blank {b : Buffer} (h : b.Wf) : b.retrieveAll.Blank :=
  ⟨(retrieveAll_spec h).1, rfl, rfl⟩

end Buffer

/-! ## The invariant -/

namespace Inflow

/-- The bytes `msg` have been taken out of the input buffer and not been sent back;
all others that were taken have. -/
structure Owing (s : Inflow) (msg : List UInt8) : Prop extends s.Flowing where
  blank : ∃ b, s.conn.inputBuffer = .ok b ∧ b.Blank
  echoed : sentBytes s.log ++ s.conn.outputBuffer ++ msg = s.shown
  writing : s.conn.state ≠ .disconnected → s.conn.WritingIffBuffered
  opened : s.conn.state = .connected ∨ s.conn.state = .disconnected

theorem Owing.enter {s : Inflow} {msg rest : List UInt8} (h : s.Owing msg)
    {p : TcpConnection InputBuffer × List Effect} (hflowing : (s.enter p).Flowing)
    (hinput : p.1.inputBuffer = s.conn.inputBuffer)
    (hstream : sentBytes p.2 ++ p.1.outputBuffer ++ rest = s.conn.outputBuffer ++ msg)
    (hwriting : p.1.state ≠ .disconnected → p.1.WritingIffBuffered)
    (hopened : p.1.state = .connected ∨ p.1.state = .disconnected) : (s.enter p).Owing rest := by
  refine ⟨hflowing, ?_, ?_, hwriting, hopened⟩
  · rcases h.blank with ⟨b, hb, hblank⟩
    exact ⟨b, hinput.trans hb, hblank⟩
  · calc
      sentBytes (s.log ++ p.2) ++ p.1.outputBuffer ++ rest
          = sentBytes s.log ++ (sentBytes p.2 ++ p.1.outputBuffer ++ rest) := by simp
      _ = sentBytes s.log ++ s.conn.outputBuffer ++ msg := by rw [hstream, List.append_assoc]
      _ = s.shown := h.echoed

theorem Owing.pop {s : Inflow} {msg : List UInt8} (h : s.Owing msg) {kind : Callback}
    {todo : List Callback} (htodo : s.todo = kind :: todo) :
    ({ s with todo } : Inflow).Owing msg :=
  ⟨h.toFlowing.pop htodo, h.blank, h.echoed, h.writing, h.opened⟩

theorem Owing.retrieved {s : Inflow} {msg : List UInt8} (h : s.Owing msg) :
    s.retrieved = s.shown := by
  rcases h.blank with ⟨b, hb, hblank⟩
  rcases h.buffer with ⟨b', hb', -, hshown⟩
  cases hb.symm.trans hb'
  rw [hshown, hblank.content, List.append_nil]

theorem Owing.intact {s : Inflow} (h : s.Owing []) : s.Echoed := by
  rcases h.blank with ⟨b, hb, hblank⟩
  refine ⟨⟨b, hb, hblank.content⟩, ?_, ?_, h.writing⟩
  · rw [← h.stream, ← h.echoed, List.append_nil]
  · intro hreported
    exact (h.drained (h.reported hreported)).1

/-! ## Sending back -/

theorem Owing.send {s : Inflow} {msg : List UInt8} (h : s.Owing msg) {w : WriteResult}
    (hfit : w.count ≤ msg.length) (hfault : s.conn.faulted w = false) :
    (s.enter (s.conn.sendInLoop msg w)).Owing [] := by
  have hkeeps := keepsInput_sendInLoop (c := s.conn) hfit
  have hstream := TcpConnection.sendInLoop_stream (c := s.conn) hfit
  rw [hfault] at hstream
  apply h.enter (h.toFlowing.keep hkeeps) hkeeps.inputBuffer
  · simpa using hstream
  · rw [hkeeps.state]
    intro hopen
    exact TcpConnection.sendInLoop_writing hfit (h.writing hopen)
  · rw [hkeeps.state]
    exact h.opened

/-- A refused echo leaves the peer without the message. -/
theorem Owing.send_faulted {s : Inflow} {msg : List UInt8} (h : s.Owing msg) {w : WriteResult}
    (hfit : w.count ≤ msg.length) (hfault : s.conn.faulted w = true)
    (ht : (s.enter (s.conn.sendInLoop msg w)).Echoed) : msg = [] := by
  have hstream := TcpConnection.sendInLoop_stream (c := s.conn) hfit
  rw [hfault, if_pos rfl, List.append_nil] at hstream
  have hwhole := ht.stream
  have hsplit : sentBytes s.log ++ s.conn.outputBuffer ++ s.unread =
      sentBytes s.log ++ s.conn.outputBuffer ++ msg ++ s.unread := by
    calc
      sentBytes s.log ++ s.conn.outputBuffer ++ s.unread
          = sentBytes (s.log ++ (s.conn.sendInLoop msg w).2) ++
              (s.conn.sendInLoop msg w).1.outputBuffer ++ s.unread := by
            rw [← hstream]
            simp
      _ = s.sent := hwhole
      _ = sentBytes s.log ++ s.conn.outputBuffer ++ msg ++ s.unread := by
            rw [h.echoed]
            exact h.stream.symm
  simpa using List.append_cancel_right hsplit

/-! ## The callbacks -/

theorem content_readFd {s : Inflow} {b : Buffer} {r : ReadResult}
    (hb : s.conn.inputBuffer = .ok b) (hblank : b.Blank) (hfits : b.ReadFits r.data.length) :
    (s.conn.inputBuffer.readFd r).content = r.data := by
  rw [hb]
  cases r with
  | failed e => exact hblank.content
  | bytes data =>
      have hspec : ∃ full, b.readFd (.bytes data) = .ok (full, none) ∧ full.Wf ∧
          full.content = b.content ++ data := Buffer.readFd_spec hblank.wf hfits
      rcases hspec with ⟨full, hfull, -, hcontent⟩
      rw [InputBuffer.readFd_ok hfull, InputBuffer.content, hcontent, hblank.content]
      rfl

theorem handleRead_all {s : Inflow} {b : Buffer} {data : List UInt8}
    (hb : s.conn.inputBuffer = .ok b) (hblank : b.Blank) (hm : s.conn.messageCallback = true)
    (hdata : data ≠ []) (hfits : b.ReadFits data.length) :
    ∃ b' : Buffer, b'.Blank ∧ s.handleRead (.bytes data) data.length =
      { s with
        conn := { s.conn with inputBuffer := .ok b' }
        unread := s.unread.drop data.length
        shown := s.retrieved ++ data
        retrieved := s.retrieved ++ data
        log := s.log ++ [.messageCallback data] } := by
  rcases Buffer.readFd_spec hblank.wf hfits with ⟨full, hfull, hwf, hcontent⟩
  rw [hblank.content, List.nil_append] at hcontent
  have hread : s.conn.inputBuffer.readFd (.bytes data) = .ok full := by
    rw [hb]
    exact InputBuffer.readFd_ok hfull
  have hretrieve : full.retrieve data.length = .ok full.retrieveAll := by
    rw [← hcontent]
    exact Buffer.retrieve_content hwf
  refine ⟨full.retrieveAll, Buffer.retrieveAll_blank hwf, ?_⟩
  cases data with
  | nil => exact (hdata rfl).elim
  | cons x data =>
      simp only [List.length_cons] at hretrieve
      simp [handleRead, TcpConnection.handleRead, hm, enter, hread, InputBuffer.retrieve, Except.bind,
        hretrieve, ReadResult.data, InputBuffer.content, hcontent]

/-- A read callback up to the echo, which is owed then. -/
theorem Owing.read {s : Inflow} (h : s.Owing []) {r : ReadResult} {b : Buffer}
    (hb : s.conn.inputBuffer = .ok b) (hblank : b.Blank) (hfits : b.ReadFits r.data.length)
    (hflowing : (s.handleRead r r.data.length).Flowing) :
    (s.handleRead r r.data.length).Owing r.data ∧
      (r.data ≠ [] → ∀ e, (s.handleRead r r.data.length).conn.faulted e = s.conn.faulted e) := by
  cases r with
  | failed e =>
      refine ⟨h.enter
        (p := ({ s.conn with inputBuffer := s.conn.inputBuffer.readFd (.failed e) }, []))
        hflowing ?_ rfl h.writing h.opened, fun hdata => (hdata rfl).elim⟩
      rw [hb]
      rfl
  | bytes data =>
      cases hcase : data with
      | nil =>
          subst hcase
          have hread : s.conn.inputBuffer.readFd (.bytes []) = s.conn.inputBuffer := by
            rw [hb]
            exact InputBuffer.readFd_ok (Buffer.readFd_nil hblank.wf)
          refine ⟨h.enter (p := TcpConnection.handleClose
            { s.conn with inputBuffer := s.conn.inputBuffer.readFd (.bytes []) })
            hflowing hread ?_ (fun hopen => (hopen rfl).elim) (.inr rfl),
            fun hdata => (hdata rfl).elim⟩
          simp [ReadResult.data]
      | cons x rest =>
          rw [← hcase]
          have hdata : data ≠ [] := by simp [hcase]
          rcases handleRead_all hb hblank h.installed.1 hdata hfits with ⟨b', hblank', hresult⟩
          change (s.handleRead (.bytes data) data.length).Flowing at hflowing
          change (s.handleRead (.bytes data) data.length).Owing data ∧ (data ≠ [] →
            ∀ e, (s.handleRead (.bytes data) data.length).conn.faulted e = s.conn.faulted e)
          rw [hresult] at hflowing ⊢
          refine ⟨⟨hflowing, ⟨b', rfl, hblank'⟩, ?_, h.writing, h.opened⟩, fun _ _ => rfl⟩
          have hechoed := h.echoed
          rw [List.append_nil, ← h.retrieved] at hechoed
          simp [Effect.bytes, ← hechoed]

theorem Owing.echoes_of_read {s : Inflow} {msg : List UInt8} (h : s.Owing msg) {r : ReadResult}
    (hhead : s.todo.head? = some .read) (hread : s.MayRead r) (hdata : r.data ≠ []) :
    s.echoes r = true := by
  have hconnected : s.conn.state = .connected := by
    rcases h.opened with hopen | hclosed
    · exact hopen
    · cases r with
      | failed e => exact (hdata rfl).elim
      | bytes data =>
          have hprefix : data <+: s.unread := hread.1
          rw [(h.drained hclosed).1, List.prefix_nil] at hprefix
          exact (hdata hprefix).elim
  simp [echoes, hhead, hdata, h.installed.1, TcpConnection.connected, hconnected]

theorem MayRead.offered {s : Inflow} {r : ReadResult} {b : Buffer} (h : s.MayRead r)
    (hb : s.conn.inputBuffer = .ok b) : r.data.length ≤ b.offered := by
  cases r with
  | failed e => exact Nat.zero_le _
  | bytes data =>
      have hle := h.2.1
      rw [hb] at hle
      exact hle

theorem mayRead_of_step {s m : Inflow} {r : ReadResult} {len : Nat} {w : WriteResult}
    {todo : List Callback} (htodo : s.todo = .read :: todo)
    (hstep : s.step (.callback r len w) = some m) : s.MayRead r := by
  simp only [Inflow.step] at hstep
  split at hstep
  · rename_i b kind rest hb hcons
    rw [htodo] at hcons
    cases hcons
    simp only [Inflow.callback] at hstep
    split at hstep
    · rename_i hguard
      exact hguard.1
    · cases hstep
  · cases hstep

theorem Owing.unhurried {s m : Inflow} {msg : List UInt8} (h : s.Owing msg) {r : ReadResult}
    {w e : WriteResult} {len : Nat} (hi : s.Timely (.callback r w e))
    (hstep : s.step (.callback r len w) = some m) : s.Unhurried (.callback r len w) := by
  refine ⟨hi.1, ?_⟩
  intro hhead b hb
  rcases h.blank with ⟨b', hb', hblank⟩
  cases hb.symm.trans hb'
  by_cases hdata : r.data = []
  · rw [hdata]
    exact Buffer.readFits_zero hblank.wf
  · rcases List.head?_eq_some_iff.1 hhead with ⟨todo, htodo⟩
    have hread := mayRead_of_step htodo hstep
    have hechoes := h.echoes_of_read hhead hread hdata
    exact (hblank.readFits_iff (hread.offered hb)).2 ((hi.2 hechoes).2 b hb)

theorem echoes_of_head {s : Inflow} {r : ReadResult} {kind : Callback} {todo : List Callback}
    (htodo : s.todo = kind :: todo) (hkind : kind ≠ .read) : s.echoes r = false := by
  simp [echoes, htodo, hkind]

theorem echoes_of_nil {s : Inflow} {r : ReadResult} (hdata : r.data = []) :
    s.echoes r = false := by
  simp [echoes, hdata]

theorem Owing.callback {s m : Inflow} (h : s.Owing []) {r : ReadResult} {w : WriteResult}
    (hi : s.Unhurried (.callback r (s.conn.inputBuffer.readFd r).content.length w))
    (hstep : s.step (.callback r (s.conn.inputBuffer.readFd r).content.length w) = some m) :
    m.Owing (if s.echoes r then (s.conn.inputBuffer.readFd r).content else []) ∧
      (s.echoes r = true → ∀ e, m.conn.faulted e = s.conn.faulted e) := by
  have hfirst := hstep
  have hflowing := h.toFlowing.step hi hfirst
  simp only [Inflow.step] at hstep
  split at hstep
  · rename_i b kind todo hb htodo
    have hpop := h.pop htodo
    cases kind with
    | error =>
        cases hstep
        rw [echoes_of_head htodo (by decide)]
        refine ⟨hpop.enter hflowing rfl (by simp [TcpConnection.handleError]) h.writing h.opened, ?_⟩
        intro hechoes
        cases hechoes
    | close =>
        cases hstep
        rw [echoes_of_head htodo (by decide)]
        refine ⟨hpop.enter hflowing rfl (by simp) (fun hopen => (hopen rfl).elim) (.inr rfl), ?_⟩
        intro hechoes
        cases hechoes
    | write =>
        simp only [Inflow.callback] at hstep
        split at hstep
        · rename_i hfit
          cases hstep
          rw [echoes_of_head htodo (by decide)]
          have hstate := TcpConnection.handleWrite_state hfit
          have hstream := TcpConnection.handleWrite_stream hfit
          refine ⟨hpop.enter hflowing (keepsInput_handleWrite hfit).inputBuffer ?_ ?_ ?_, ?_⟩
          · simpa using hstream
          · rw [hstate]
            intro hopen
            exact TcpConnection.handleWrite_writing hfit (h.writing hopen)
          · rw [hstate]
            exact h.opened
          · intro hechoes
            cases hechoes
        · cases hstep
    | read =>
        simp only [Inflow.callback] at hstep
        split at hstep
        · cases hstep
          rcases h.blank with ⟨b', hb', hblank⟩
          have hfits : b'.ReadFits r.data.length :=
            hi.2 (by rw [htodo]; rfl) b' hb'
          have hcontent := content_readFd hb' hblank hfits
          rw [hcontent] at hflowing ⊢
          rcases hpop.read hb' hblank hfits hflowing with ⟨howing, hfaulted⟩
          by_cases hdata : r.data = []
          · rw [echoes_of_nil hdata]
            refine ⟨hdata ▸ howing, ?_⟩
            intro hechoes
            cases hechoes
          · have hread := mayRead_of_step htodo hfirst
            rw [h.echoes_of_read (by rw [htodo]; rfl) hread hdata]
            exact ⟨howing, fun _ => hfaulted hdata⟩
        · cases hstep
  · cases hstep

/-! ## Whole runs -/

/-- A callback of the server is one of the connection, and then the echo. -/
theorem echo_callback {s t : Inflow} {r : ReadResult} {w e : WriteResult}
    (hstep : echoMachine.step s (.callback r w e) = some t) :
    ∃ m, s.step (.callback r (s.conn.inputBuffer.readFd r).content.length w) = some m ∧
      if s.echoes r then m.step (.send (s.conn.inputBuffer.readFd r).content e) = some t
      else m = t := by
  rcases Option.bind_eq_some_iff.1 hstep with ⟨m, hm, hrest⟩
  refine ⟨m, hm, ?_⟩
  split at hrest
  · rename_i hechoes
    rw [if_pos hechoes]
    rcases Option.bind_eq_some_iff.1 hrest with ⟨u, hu, hlast⟩
    cases hlast
    exact hu
  · rename_i hechoes
    rw [if_neg hechoes]
    exact Option.some.inj hrest

theorem step_send {s t : Inflow} {msg : List UInt8} {w : WriteResult}
    (hstep : s.step (.send msg w) = some t) :
    w.count ≤ msg.length ∧ t = s.enter (s.conn.sendInLoop msg w) := by
  simp only [Inflow.step] at hstep
  split at hstep
  · rename_i hguard
    exact ⟨hguard.2, (Option.some.inj hstep).symm⟩
  · cases hstep

theorem step_of_run {s t : Inflow} {i : InflowInput} (h : machine.run s [i] = some t) :
    s.step i = some t := by
  rcases Option.bind_eq_some_iff.1 h with ⟨m, hm, hlast⟩
  cases hlast
  exact hm

theorem isWriting_pass (c : Channel) (events : List (KEvent Unit)) :
    (Poller.pass c events).1.isWriting = c.isWriting := by
  rcases Poller.fillActiveChannels_frame (fun _ => c) events () with ⟨revt, hrevt⟩
  rw [Poller.pass, hrevt]
  rfl

theorem echo_step {s t : Inflow} {i : EchoInput} (h : s.Owing []) (hi : s.Timely i)
    (hstep : echoMachine.step s i = some t) : t.Owing [] := by
  cases i with
  | peerSend data =>
      have hm : s.step (.peerSend data) = some t := step_of_run hstep
      have hflowing := h.toFlowing.step (i := .peerSend data) trivial hm
      simp only [Inflow.step] at hm
      split at hm
      · cases hm
      · cases hm
        exact ⟨hflowing, h.blank, h.echoed, h.writing, h.opened⟩
  | peerClose =>
      have hm : s.step (.peerClose) = some t := step_of_run hstep
      have hflowing := h.toFlowing.step (i := .peerClose) trivial hm
      cases hm
      exact ⟨hflowing, h.blank, h.echoed, h.writing, h.opened⟩
  | poll events =>
      have hm : s.step (.poll events) = some t := step_of_run hstep
      have hflowing := h.toFlowing.step (i := .poll events) trivial hm
      simp only [Inflow.step] at hm
      split at hm
      · cases hm
        refine ⟨hflowing, h.blank, h.echoed, ?_, h.opened⟩
        intro hopen
        rw [TcpConnection.WritingIffBuffered, isWriting_pass]
        exact h.writing hopen
      · cases hm
  | callback r w e =>
      rcases echo_callback hstep with ⟨m, hm, hrest⟩
      rcases h.callback (h.unhurried hi hm) hm with ⟨howing, hfaulted⟩
      by_cases hechoes : s.echoes r = true
      · rw [if_pos hechoes] at howing hrest
        rcases step_send hrest with ⟨hfit, rfl⟩
        exact howing.send hfit ((hfaulted hechoes e).trans (hi.2 hechoes).1)
      · rw [if_neg hechoes] at howing hrest
        subst hrest
        exact howing

theorem echoes_spec {s : Inflow} {r : ReadResult} (h : s.echoes r = true) :
    s.todo.head? = some .read ∧ r.data ≠ [] := by
  simp only [echoes, Bool.and_eq_true, beq_iff_eq, Bool.not_eq_true', List.isEmpty_eq_false_iff] at h
  exact ⟨h.1.1.1, h.1.1.2⟩

/-- A read after which the buffer is sound did fit. -/
theorem Owing.fits_of_sound {s m : Inflow} (h : s.Owing []) {r : ReadResult} {w : WriteResult}
    {len : Nat} {b : Buffer} (hb : s.conn.inputBuffer = .ok b)
    (hhead : s.todo.head? = some .read) (hstep : s.step (.callback r len w) = some m)
    (hsound : ∃ b', m.conn.inputBuffer = .ok b') : b.ReadFits r.data.length := by
  rcases List.head?_eq_some_iff.1 hhead with ⟨todo, htodo⟩
  simp only [Inflow.step, hb, htodo] at hstep
  exact readFits_of_sound h.toFlowing hb hstep hsound

theorem Owing.unread_of_close {s m : Inflow} (h : s.Owing []) {r : ReadResult} {w : WriteResult}
    {len : Nat} (hhead : s.todo.head? = some .close)
    (hstep : s.step (.callback r len w) = some m) (hm : m.Echoed) : s.unread = [] := by
  rcases List.head?_eq_some_iff.1 hhead with ⟨todo, htodo⟩
  rcases h.blank with ⟨b, hb, -⟩
  simp only [Inflow.step, hb, htodo, Inflow.callback] at hstep
  cases hstep
  apply hm.complete
  simp [Inflow.enter, TcpConnection.handleClose, TcpConnection.notify, h.installed.2,
    TcpConnection.connected]

/-- A step after which the stream is intact was in time. -/
theorem timely_of_echoed {s t : Inflow} {i : EchoInput} (h : s.Owing [])
    (hstep : echoMachine.step s i = some t) (ht : t.Echoed) : s.Timely i := by
  cases i with
  | callback r w e =>
      rcases echo_callback hstep with ⟨m, hm, hrest⟩
      rcases h.blank with ⟨b, hb, hblank⟩
      by_cases hechoes : s.echoes r = true
      · rw [if_pos hechoes] at hrest
        rcases step_send hrest with ⟨hfit, rfl⟩
        rcases echoes_spec hechoes with ⟨hhead, hdata⟩
        have hsound : ∃ b', m.conn.inputBuffer = .ok b' := by
          rcases ht.sound with ⟨b', hb', -⟩
          exact ⟨b', (keepsInput_sendInLoop hfit).inputBuffer.symm.trans hb'⟩
        have hfits := h.fits_of_sound hb hhead hm hsound
        have hhurry : s.Unhurried
            (.callback r (s.conn.inputBuffer.readFd r).content.length w) := by
          refine ⟨by simp [hhead], fun _ b' hb' => ?_⟩
          cases hb.symm.trans hb'
          exact hfits
        rcases h.callback hhurry hm with ⟨howing, hfaulted⟩
        rw [if_pos hechoes] at howing
        refine ⟨by simp [hhead], fun _ => ⟨?_, fun b' hb' => ?_⟩⟩
        · rw [← hfaulted hechoes]
          by_contra hfault
          apply hdata
          rw [← content_readFd hb hblank hfits]
          exact howing.send_faulted hfit (by simpa using hfault) ht
        · cases hb.symm.trans hb'
          rcases List.head?_eq_some_iff.1 hhead with ⟨todo, htodo⟩
          exact (hblank.readFits_iff ((mayRead_of_step htodo hm).offered hb)).1 hfits
      · rw [if_neg hechoes] at hrest
        subst hrest
        exact ⟨fun hhead => h.unread_of_close hhead hm ht, fun hyes => (hechoes hyes).elim⟩
  | _ => trivial

theorem start_owing (sockfd : Nat) : (start sockfd).Owing [] := by
  rcases Buffer.new_blank Buffer.kInitialSize (by decide) with ⟨b, hb, hblank, -⟩
  refine ⟨start_flowing sockfd, ⟨b, hb, hblank⟩, ?_, ?_, .inl rfl⟩
  · rfl
  · intro _
    have hwriting : (start sockfd).conn.channel.isWriting = false := by
      rw [start, TcpConnection.isWriting_connectEstablished]
      exact Channel.isWriting_of_events_eq_zero rfl
    have hempty : (start sockfd).conn.outputBuffer = [] := rfl
    simp [TcpConnection.WritingIffBuffered, hwriting, hempty]

theorem echo_intact_iff_timely (sockfd : Nat) (is : List EchoInput) :
    echoMachine.Always Echoed (start sockfd) is ↔ echoMachine.Meets Timely (start sockfd) is := by
  apply Machine.always_iff_meets (I := (Owing · []))
  · intro s hs
    exact hs.intact
  · intro s i t hs hi hstep
    exact echo_step hs hi hstep
  · intro s i t hs hstep ht
    exact timely_of_echoed hs hstep ht
  · exact start_owing sockfd

end Inflow

end Hayai
