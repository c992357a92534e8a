import Hayai.Machine.Run
import Hayai.Net.Lifecycle
import Hayai.Net.Poller
import Hayai.Net.TcpConnection
import Hayai.Utils.BufferRead

/-! # Input up to the end of the stream

A peer sends and closes; the kernel keeps what has not been read, reports it as it
likes, and may say EOF while bytes are unread. The connection reads into a real
`Buffer`. Every byte should be shown to the message callback before the
disconnection is reported. Two things break this: the close callback of an entry
runs before its read callback, and a read may not fit into the buffer.
-/

namespace Hayai

/-! ## The model -/

/-- `inputBuffer_`, or the fault that a read has ended in. -/
abbrev InputBuffer := Except Fault Buffer

namespace InputBuffer

def readFd (b : InputBuffer) (r : ReadResult) : InputBuffer :=
  b.bind fun b => (b.readFd r).map Prod.fst

def retrieve (len : Nat) (b : InputBuffer) : InputBuffer := b.bind (·.retrieve len)

def content : InputBuffer → List UInt8
  | .ok b => b.content
  | .error _ => []

theorem readFd_ok {b : Buffer} {r : ReadResult} {p : Buffer × Option Errno}
    (h : b.readFd r = .ok p) : readFd (.ok b) r = .ok p.1 := by
  simp [readFd, Except.bind, h, Except.map]

theorem readFd_error {b : Buffer} {r : ReadResult} {f : Fault} (h : b.readFd r = .error f) :
    readFd (.ok b) r = .error f := by
  simp [readFd, Except.bind, h, Except.map]

def offered : InputBuffer → Nat
  | .ok b => b.offered
  | .error _ => 0

end InputBuffer

/-- A connection and the peer's side of its stream: `sent` is everything the peer has
sent, `unread` the part that is still in the kernel, `fin` whether it has closed.
`shown` is what the message callback has found in the buffer so far, `retrieved`
what it has taken out. -/
structure Inflow where
  conn : TcpConnection InputBuffer
  todo : List Callback
  sent : List UInt8
  unread : List UInt8
  fin : Bool
  shown : List UInt8
  retrieved : List UInt8
  log : List Effect

inductive InflowInput where
  | peerSend (data : List UInt8)
  | peerClose
  | send (message : List UInt8) (w : WriteResult)
  | poll (events : List (KEvent Unit))
  | callback (r : ReadResult) (retrieved : Nat) (w : WriteResult)

namespace Inflow

/-- What kqueue promises about an entry: its filter is registered, a readable socket
has bytes or has ended, and EOF comes from the peer's close. -/
def MayReport (s : Inflow) (e : KEvent Unit) : Prop :=
  (e.filter = .read → s.conn.channel.isReading = true ∧ (s.unread ≠ [] ∨ s.fin = true)) ∧
    (e.filter = .write → s.conn.channel.isWriting = true) ∧ (e.eof = true → s.fin = true)

instance (s : Inflow) (e : KEvent Unit) : Decidable (s.MayReport e) :=
  inferInstanceAs (Decidable (_ ∧ _ ∧ _))

/-- What `readv` promises: the next bytes of the stream, at most as many as offered,
and zero at its end only. -/
def MayRead (s : Inflow) : ReadResult → Prop
  | .bytes data => data <+: s.unread ∧ data.length ≤ s.conn.inputBuffer.offered ∧
      (data = [] → s.unread = [] ∧ s.fin = true)
  | .failed _ => True

instance (s : Inflow) (r : ReadResult) : Decidable (s.MayRead r) := by
  cases r <;> unfold MayRead <;> infer_instance

def enter (s : Inflow) (p : TcpConnection InputBuffer × List Effect) : Inflow :=
  { s with conn := p.1, log := s.log ++ p.2 }

def handleRead (s : Inflow) (r : ReadResult) (len : Nat) : Inflow :=
  let bytes := (s.conn.inputBuffer.readFd r).content
  let t := s.enter (s.conn.handleRead InputBuffer.readFd (InputBuffer.retrieve len) r)
  let t := { t with unread := s.unread.drop r.data.length }
  if r.data.isEmpty || !s.conn.messageCallback then t
  else { t with shown := s.retrieved ++ bytes, retrieved := s.retrieved ++ bytes.take len }

def callback (s : Inflow) (r : ReadResult) (len : Nat) (w : WriteResult) :
    Callback → Option Inflow
  | .error => some (s.enter s.conn.handleError)
  | .close => some (s.enter s.conn.handleClose)
  | .read =>
      if s.MayRead r ∧ len ≤ (s.conn.inputBuffer.readFd r).content.length then
        some (s.handleRead r len)
      else none
  | .write =>
      if w.count ≤ s.conn.outputBuffer.length then some (s.enter (s.conn.handleWrite w)) else none

/-- A fault ends the run: the source's behaviour is undefined from there on. -/
def step (s : Inflow) : InflowInput → Option Inflow
  | .peerSend data =>
      if s.fin then none else some { s with sent := s.sent ++ data, unread := s.unread ++ data }
  | .peerClose => some { s with fin := true }
  | .send message w =>
      if s.conn.connected ∧ w.count ≤ message.length then
        some (s.enter (s.conn.sendInLoop message w))
      else none
  | .poll events =>
      if s.todo = [] ∧ ∀ e ∈ events, s.MayReport e then
        let pass := Poller.pass s.conn.channel events
        some { s with conn := { s.conn with channel := pass.1 }, todo := pass.2 }
      else none
  | .callback r len w =>
      match s.conn.inputBuffer, s.todo with
      | .ok _, kind :: todo => ({ s with todo } : Inflow).callback r len w kind
      | _, _ => none

def machine : Machine Inflow InflowInput := ⟨step⟩

def start (sockfd : Nat) : Inflow :=
  let p := (TcpConnection.new sockfd (Buffer.new Buffer.kInitialSize) true true).connectEstablished
  ⟨p.1, [], [], [], false, [], [], p.2⟩

/-- Nothing faults, the callback sees a prefix of what was sent
and all of it before the disconnection is reported, and it is not called after that. -/
structure Delivered (s : Inflow) : Prop where
  sound : ∃ b, s.conn.inputBuffer = .ok b
  order : s.shown <+: s.sent
  complete : .connectionCallback false ∈ s.log → s.shown = s.sent
  silent : ∀ before after, s.log = before ++ .connectionCallback false :: after →
    ∀ e ∈ after, e.isMessage = false

/-- The close callback does not run while bytes are unread, and every read fits. -/
def Unhurried (s : Inflow) : InflowInput → Prop
  | .callback r _ _ => (s.todo.head? = some .close → s.unread = []) ∧
      (s.todo.head? = some .read →
        ∀ b, s.conn.inputBuffer = .ok b → b.ReadFits r.data.length)
  | _ => True

/-! ## What the members do to the input side -/

structure KeepsInput (c : TcpConnection InputBuffer)
    (p : TcpConnection InputBuffer × List Effect) : Prop where
  inputBuffer : p.1.inputBuffer = c.inputBuffer
  messageCallback : p.1.messageCallback = c.messageCallback
  connectionCallback : p.1.connectionCallback = c.connectionCallback
  state : p.1.state = c.state
  effects : ∀ e ∈ p.2, e.isMessage = false ∧ e.isReport = false

theorem keepsInput_sendInLoop {c : TcpConnection InputBuffer} {message : List UInt8}
    {w : WriteResult} (hfit : w.count ≤ message.length) :
    KeepsInput c (c.sendInLoop message w) := by
  apply TcpConnection.sendInLoop_cases (P := KeepsInput c) hfit
  · intro _ _
    exact ⟨rfl, rfl, rfl, rfl, by simp [Effect.isMessage, Effect.isReport]⟩
  · intro _ _ _
    exact ⟨rfl, rfl, rfl, rfl, by simp [Effect.isMessage, Effect.isReport]⟩
  · intro _ _
    exact ⟨rfl, rfl, rfl, rfl, by simp⟩
  · intro _ _
    refine ⟨rfl, rfl, rfl, rfl, ?_⟩
    split <;> simp [Effect.isMessage, Effect.isReport]

theorem keepsInput_handleWrite {c : TcpConnection InputBuffer} {w : WriteResult}
    (hfit : w.count ≤ c.outputBuffer.length) : KeepsInput c (c.handleWrite w) := by
  apply TcpConnection.handleWrite_cases (P := KeepsInput c) hfit
  · intro _
    exact ⟨rfl, rfl, rfl, rfl, by simp⟩
  · intro _ _
    exact ⟨rfl, rfl, rfl, rfl, by simp [Effect.isMessage, Effect.isReport]⟩
  · intro _ _ _
    exact ⟨rfl, rfl, rfl, rfl, by simp [Effect.isMessage, Effect.isReport]⟩
  · intro _ _ _
    refine ⟨rfl, rfl, rfl, rfl, ?_⟩
    split <;> simp [Effect.isMessage, Effect.isReport]

/-! ## The invariant -/

def SilentAfterReport (log : List Effect) : Prop :=
  ∀ before after, log = before ++ .connectionCallback false :: after →
    ∀ e ∈ after, e.isMessage = false

theorem silentAfterReport_append {log es : List Effect} (h : SilentAfterReport log)
    (hes : ∀ e ∈ es, e.isMessage = false) : SilentAfterReport (log ++ es) := by
  intro before after hlog e he
  rcases Machine.log_split hlog with ⟨rest, hbefore, rfl⟩ | ⟨rest, -, hafter⟩
  · rcases List.mem_append.1 he with he | he
    · exact h before rest hbefore e he
    · exact hes e he
  · apply hes
    rw [hafter]
    exact List.mem_append_right _ (List.mem_cons_of_mem _ he)

theorem silentAfterReport_of_not_mem {log : List Effect}
    (h : .connectionCallback false ∉ log) : SilentAfterReport log := by
  intro before after hlog
  exact (h (by simp [hlog])).elim

structure Flowing (s : Inflow) : Prop where
  buffer : ∃ b, s.conn.inputBuffer = .ok b ∧ b.Wf ∧ s.shown = s.retrieved ++ b.content
  stream : s.shown ++ s.unread = s.sent
  installed : s.conn.messageCallback = true ∧ s.conn.connectionCallback = true
  reported : .connectionCallback false ∈ s.log → s.conn.state = .disconnected
  drained : s.conn.state = .disconnected → s.unread = [] ∧ s.fin = true
  eof : .close ∈ s.todo → s.fin = true
  silent : SilentAfterReport s.log

theorem Flowing.keep {s : Inflow} (h : s.Flowing) {p : TcpConnection InputBuffer × List Effect}
    (hp : KeepsInput s.conn p) : (s.enter p).Flowing := by
  constructor
  · show ∃ b, p.1.inputBuffer = .ok b ∧ b.Wf ∧ s.shown = s.retrieved ++ b.content
    rw [hp.inputBuffer]
    exact h.buffer
  · exact h.stream
  · show p.1.messageCallback = true ∧ p.1.connectionCallback = true
    rw [hp.messageCallback, hp.connectionCallback]
    exact h.installed
  · intro hmem
    show p.1.state = .disconnected
    rw [hp.state]
    rcases List.mem_append.1 hmem with hmem | hmem
    · exact h.reported hmem
    · cases (hp.effects _ hmem).2
  · show p.1.state = .disconnected → _
    rw [hp.state]
    exact h.drained
  · exact h.eof
  · exact silentAfterReport_append h.silent fun e he => (hp.effects e he).1

/-- `handleClose` is in time once everything has been read. -/
theorem Flowing.close {s : Inflow} (h : s.Flowing) {c : TcpConnection InputBuffer}
    (hbuffer : ∃ b, c.inputBuffer = .ok b ∧ b.Wf ∧ s.shown = s.retrieved ++ b.content)
    (hinstalled : c.messageCallback = true ∧ c.connectionCallback = true)
    (hunread : s.unread = []) (hfin : s.fin = true) : (s.enter c.handleClose).Flowing := by
  constructor
  · exact hbuffer
  · exact h.stream
  · exact hinstalled
  · intro _
    rfl
  · intro _
    exact ⟨hunread, hfin⟩
  · exact h.eof
  · apply silentAfterReport_append h.silent
    simp [TcpConnection.handleClose, TcpConnection.notify, hinstalled.2, Effect.isMessage]

theorem Flowing.delivered {s : Inflow} (h : s.Flowing) : s.Delivered := by
  rcases h.buffer with ⟨b, hb, -⟩
  constructor
  · exact ⟨b, hb⟩
  · rw [← h.stream]
    exact List.prefix_append _ _
  · intro hreported
    rw [← h.stream, (h.drained (h.reported hreported)).1, List.append_nil]
  · exact h.silent

/-! ## One step -/

theorem Flowing.pop {s : Inflow} (h : s.Flowing) {kind : Callback} {todo : List Callback}
    (htodo : s.todo = kind :: todo) : ({ s with todo } : Inflow).Flowing :=
  ⟨h.buffer, h.stream, h.installed, h.reported, h.drained,
    fun hmem => h.eof (by rw [htodo]; exact List.mem_cons_of_mem _ hmem), h.silent⟩

theorem Flowing.poll {s : Inflow} (h : s.Flowing) {events : List (KEvent Unit)}
    (hevents : ∀ e ∈ events, s.MayReport e) :
    ({ s with
      conn := { s.conn with channel := (Poller.pass s.conn.channel events).1 }
      todo := (Poller.pass s.conn.channel events).2 } : Inflow).Flowing := by
  refine ⟨h.buffer, h.stream, h.installed, h.reported, h.drained, ?_, h.silent⟩
  intro hmem
  rcases Poller.exists_asks_of_mem_pass hmem with ⟨e, he, hasks⟩
  exact (hevents e he).2.2 hasks

/-- The buffer after a read that fits and after the message callback has retrieved. -/
theorem read_buffer {b : Buffer} {data : List UInt8} {len : Nat} (hwf : b.Wf)
    (hfits : b.ReadFits data.length)
    (hlen : len ≤ (InputBuffer.readFd (.ok b) (.bytes data)).content.length) :
    (InputBuffer.readFd (.ok b) (.bytes data)).content = b.content ++ data ∧
      ∃ b', InputBuffer.retrieve len (InputBuffer.readFd (.ok b) (.bytes data)) = .ok b' ∧
        b'.Wf ∧ b'.content = (b.content ++ data).drop len := by
  rcases Buffer.readFd_spec hwf hfits with ⟨full, hfull, hfwf, hcontent⟩
  have hread := InputBuffer.readFd_ok hfull
  rw [hread] at hlen ⊢
  rw [InputBuffer.content, hfwf.content_length] at hlen
  rcases Buffer.retrieve_spec hfwf hlen with ⟨b', hb', hwf', hcontent'⟩
  exact ⟨hcontent, b', hb', hwf', by rw [hcontent', hcontent]⟩

theorem Flowing.read {s : Inflow} (h : s.Flowing) {r : ReadResult} {len : Nat}
    (hread : s.MayRead r) (hlen : len ≤ (s.conn.inputBuffer.readFd r).content.length)
    (hfits : ∀ b, s.conn.inputBuffer = .ok b → b.ReadFits r.data.length) :
    (s.handleRead r len).Flowing := by
  rcases h.buffer with ⟨b, hb, hwf, hshown⟩
  cases r with
  | failed e =>
      show (s.enter ({ s.conn with inputBuffer := s.conn.inputBuffer.readFd (.failed e) }, [])).Flowing
      apply h.keep
      refine ⟨?_, rfl, rfl, rfl, by simp⟩
      rw [hb]
      rfl
  | bytes data =>
      have hfit : b.ReadFits data.length := hfits b hb
      rw [hb] at hlen
      rcases read_buffer hwf hfit hlen with ⟨hbytes, b', hb', hwf', hcontent'⟩
      cases data with
      | nil =>
          rcases hread.2.2 rfl with ⟨hunread, hfin⟩
          rcases Buffer.readFd_spec hwf hfit with ⟨full, hfull, hfwf, hcontent⟩
          show (s.enter (TcpConnection.handleClose
            { s.conn with inputBuffer := s.conn.inputBuffer.readFd (.bytes []) })).Flowing
          refine h.close ⟨full, ?_, hfwf, ?_⟩ h.installed hunread hfin
          · exact (congrArg (·.readFd (.bytes [])) hb).trans (InputBuffer.readFd_ok hfull)
          · rw [hcontent, List.append_nil]
            exact hshown
      | cons x data =>
          rcases hread.1 with ⟨rest, hrest⟩
          have hopen : s.conn.state ≠ .disconnected := by
            intro hclosed
            rw [(h.drained hclosed).1] at hrest
            cases hrest
          have hnot : .connectionCallback false ∉ s.log ++ [.messageCallback (x :: data)] := by
            intro hmem
            rcases List.mem_append.1 hmem with hmem | hmem
            · exact hopen (h.reported hmem)
            · simp at hmem
          have hresult : s.handleRead (.bytes (x :: data)) len =
              { s with
                conn := { s.conn with inputBuffer := .ok b' }
                unread := rest
                shown := s.retrieved ++ (b.content ++ x :: data)
                retrieved := s.retrieved ++ (b.content ++ x :: data).take len
                log := s.log ++ [.messageCallback (x :: data)] } := by
            simp [handleRead, TcpConnection.handleRead, h.installed.1, enter, hb, hbytes, hb',
              ReadResult.data, ← hrest]
          rw [hresult]
          constructor
          · refine ⟨b', rfl, hwf', ?_⟩
            rw [hcontent', List.append_assoc, List.take_append_drop]
          · rw [← h.stream, hshown, ← hrest]
            simp
          · exact h.installed
          · intro hmem
            exact (hnot hmem).elim
          · intro hclosed
            exact (hopen hclosed).elim
          · exact h.eof
          · exact silentAfterReport_of_not_mem hnot

theorem Flowing.callback {s t : Inflow} (h : s.Flowing) {r : ReadResult} {len : Nat}
    {w : WriteResult} {kind : Callback} (hclose : kind = .close → s.unread = [] ∧ s.fin = true)
    (hfits : kind = .read → ∀ b, s.conn.inputBuffer = .ok b → b.ReadFits r.data.length)
    (hstep : s.callback r len w kind = some t) : t.Flowing := by
  cases kind with
  | error =>
      cases hstep
      exact h.keep ⟨rfl, rfl, rfl, rfl, fun e he => by cases he⟩
  | close =>
      cases hstep
      exact h.close h.buffer h.installed (hclose rfl).1 (hclose rfl).2
  | read =>
      simp only [Inflow.callback] at hstep
      split at hstep
      · rename_i hguard
        cases hstep
        exact h.read hguard.1 hguard.2 (hfits rfl)
      · cases hstep
  | write =>
      simp only [Inflow.callback] at hstep
      split at hstep
      · rename_i hfit
        cases hstep
        exact h.keep (keepsInput_handleWrite hfit)
      · cases hstep

theorem Flowing.step {s t : Inflow} {i : InflowInput} (h : s.Flowing) (hi : s.Unhurried i)
    (hstep : s.step i = some t) : t.Flowing := by
  cases i with
  | peerSend data =>
      simp only [Inflow.step] at hstep
      split at hstep
      · cases hstep
      · rename_i hfin
        cases hstep
        refine ⟨h.buffer, ?_, h.installed, h.reported, ?_, h.eof, h.silent⟩
        · rw [← h.stream, List.append_assoc]
        · intro hclosed
          exact (hfin (h.drained hclosed).2).elim
  | peerClose =>
      cases hstep
      exact ⟨h.buffer, h.stream, h.installed, h.reported, fun hc => ⟨(h.drained hc).1, rfl⟩,
        fun _ => rfl, h.silent⟩
  | send message w =>
      simp only [Inflow.step] at hstep
      split at hstep
      · rename_i hguard
        cases hstep
        exact h.keep (keepsInput_sendInLoop hguard.2)
      · cases hstep
  | poll events =>
      simp only [Inflow.step] at hstep
      split at hstep
      · rename_i hguard
        cases hstep
        exact h.poll hguard.2
      · cases hstep
  | callback r len w =>
      simp only [Inflow.step] at hstep
      split at hstep
      · rename_i b kind todo hb htodo
        apply (h.pop htodo).callback _ _ hstep
        · rintro rfl
          refine ⟨hi.1 (by rw [htodo]; rfl), h.eof ?_⟩
          rw [htodo]
          exact List.mem_cons_self
        · rintro rfl
          exact hi.2 (by rw [htodo]; rfl)
      · cases hstep

theorem conn_handleRead_of_error {s : Inflow} {data : List UInt8} {len : Nat} {f : Fault}
    (h : s.conn.inputBuffer.readFd (.bytes data) = .error f) :
    (s.handleRead (.bytes data) len).conn.inputBuffer = .error f := by
  cases data with
  | nil => exact h
  | cons x data =>
      cases hm : s.conn.messageCallback <;>
        simp [handleRead, TcpConnection.handleRead, enter, hm, h, InputBuffer.retrieve, Except.bind,
          ReadResult.data]

/-- A read after which the buffer is sound did fit. -/
theorem readFits_of_sound {s t : Inflow} (h : s.Flowing) {r : ReadResult} {len : Nat}
    {w : WriteResult} {b : Buffer} {todo : List Callback} (hb : s.conn.inputBuffer = .ok b)
    (hstep : ({ s with todo } : Inflow).callback r len w .read = some t)
    (ht : ∃ b', t.conn.inputBuffer = .ok b') : b.ReadFits r.data.length := by
  have hwf : b.Wf := by
    rcases h.buffer with ⟨b', hb', hwf, -⟩
    cases hb.symm.trans hb'
    exact hwf
  by_contra hfits
  simp only [Inflow.callback] at hstep
  split at hstep
  · rename_i hguard
    cases hstep
    cases r with
    | failed e =>
        exact hfits (Buffer.readFits_zero hwf)
    | bytes data =>
        have hoffered : data.length ≤ b.offered := by
          have hle := hguard.1.2.1
          rw [show s.conn.inputBuffer = .ok b from hb] at hle
          exact hle
        rcases Buffer.readFd_faults hwf (Nat.le_trans hoffered (Buffer.offered_le hwf)) hfits with
          ⟨f, hf⟩
        have herror := InputBuffer.readFd_error hf
        rcases ht with ⟨b', hb'⟩
        rw [conn_handleRead_of_error (hb ▸ herror)] at hb'
        cases hb'
  · cases hstep

theorem unhurried_of_delivered {s t : Inflow} {i : InflowInput} (h : s.Flowing)
    (hstep : s.step i = some t) (ht : t.Delivered) : s.Unhurried i := by
  cases i with
  | callback r len w =>
      simp only [Inflow.step] at hstep
      split at hstep
      · rename_i b kind todo hb htodo
        constructor
        · intro hhead
          rw [htodo, List.head?_cons, Option.some.injEq] at hhead
          subst hhead
          cases hstep
          have hall : s.shown = s.sent := by
            apply ht.complete
            simp [enter, TcpConnection.handleClose, TcpConnection.notify, h.installed.2,
              TcpConnection.connected]
          rw [← h.stream] at hall
          exact List.append_right_eq_self.1 hall.symm
        · intro hhead b hb
          rw [htodo, List.head?_cons, Option.some.injEq] at hhead
          subst hhead
          exact readFits_of_sound h hb hstep ht.sound
      · cases hstep
  | _ => trivial

theorem start_flowing (sockfd : Nat) : (start sockfd).Flowing := by
  rcases Buffer.new_spec Buffer.kInitialSize
    (by simp [Buffer.kCheapPrepend, Buffer.kInitialSize, Buffer.maxSize]) with
    ⟨b, hb, hwf, hcontent, -⟩
  have hnot : .connectionCallback false ∉ (start sockfd).log := by
    simp [start, TcpConnection.new, TcpConnection.connectEstablished, TcpConnection.notify,
      TcpConnection.connected]
  constructor
  · exact ⟨b, hb, hwf, hcontent.symm⟩
  · rfl
  · exact ⟨rfl, rfl⟩
  · intro hmem
    exact (hnot hmem).elim
  · intro hclosed
    cases hclosed
  · intro hmem
    cases hmem
  · exact silentAfterReport_of_not_mem hnot

theorem input_delivered_iff_unhurried (sockfd : Nat) (is : List InflowInput) :
    machine.Always Delivered (start sockfd) is ↔ machine.Meets Unhurried (start sockfd) is := by
  apply Machine.always_iff_meets (I := Flowing)
  · intro s hs
    exact hs.delivered
  · intro s i t hs hi hstep
    exact hs.step hi hstep
  · intro s i t hs hstep ht
    exact unhurried_of_delivered hs hstep ht
  · exact start_flowing sockfd

/-- The peer sends one byte and closes; one entry reports both. -/
def coalescedRun : List InflowInput :=
  [.peerSend [1], .peerClose, .poll [⟨7, .read, true, false, ()⟩], .callback (.bytes [1]) 0 (.wrote 0)]

theorem coalesced_byte_lost : ¬ machine.Always Delivered (start 7) coalescedRun := by
  intro h
  rw [Machine.always_iff_prefix] at h
  have hbad := (h coalescedRun [] _ (by simp) rfl).complete
  revert hbad
  decide

end Inflow

end Hayai
