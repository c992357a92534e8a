import Hayai.Net.Channel
import Mathlib.Data.List.Induction
import Mathlib.Logic.Function.Basic

/-! # The kqueue poller

`Poller::poll` and `Poller::fillActiveChannels` over a table of channels. The
entries of one `kevent` call are data; `udata` is the channel stored with the
registration.
-/

namespace Hayai

inductive Filter where
  | read
  | write
  deriving DecidableEq, Repr

structure KEvent (κ : Type) where
  ident : Nat
  filter : Filter
  eof : Bool
  error : Bool
  udata : κ
  deriving DecidableEq, Repr

def Filter.callback : Filter → Callback
  | .read => .read
  | .write => .write

def eventMask (filter : Filter) (eof error : Bool) : BitVec 32 :=
  (if filter = .read then Channel.kReadEvent else 0) |||
    (if filter = .write then Channel.kWriteEvent else 0) |||
    (if eof then Channel.kCloseEvent else 0) |||
    (if error then Channel.kErrorEvent else 0)

namespace KEvent

variable {κ : Type}

def revents (e : KEvent κ) : BitVec 32 := eventMask e.filter e.eof e.error

/-- What the kernel reported with this entry, as the callback it calls for. -/
def asks (e : KEvent κ) : Callback → Bool
  | .error => e.error
  | .close => e.eof
  | .read => e.filter == .read
  | .write => e.filter == .write

private theorem eventMask_bits (filter : Filter) (eof error : Bool) :
    (eventMask filter eof error &&& Channel.kErrorEvent != 0) = error ∧
      (eventMask filter eof error &&& Channel.kCloseEvent != 0) = eof ∧
      (eventMask filter eof error &&& Channel.kReadEvent != 0) = (filter == .read) ∧
      (eventMask filter eof error &&& Channel.kWriteEvent != 0) = (filter == .write) := by
  cases filter <;> cases eof <;> cases error <;> decide

theorem wants_setRevents (c : Channel) (e : KEvent κ) (kind : Callback) :
    (c.setRevents e.revents).wants kind = (e.asks kind && c.installed kind) := by
  obtain ⟨herror, hclose, hread, hwrite⟩ := eventMask_bits e.filter e.eof e.error
  cases kind with
  | error => exact congrArg (· && c.errorCallback) herror
  | close => exact congrArg (· && c.closeCallback) hclose
  | read => exact congrArg (· && c.readCallback) hread
  | write => exact congrArg (· && c.writeCallback) hwrite

end KEvent

namespace Poller

variable {κ : Type} [DecidableEq κ]

/-- The channels with their new `revents_`, and the list of active channels. Each
entry overwrites the mask of its channel and is listed on its own. -/
def fillActiveChannels (channels : κ → Channel) (events : List (KEvent κ)) :
    (κ → Channel) × List κ :=
  events.foldl (fun acc e =>
    (Function.update acc.1 e.udata ((acc.1 e.udata).setRevents e.revents), acc.2 ++ [e.udata]))
    (channels, [])

/-- `poll`, given what `kevent` reported into an `events_` vector of `capacity`
entries; the vector is doubled when it was filled. -/
def poll (capacity : Nat) (channels : κ → Channel) (reported : List (KEvent κ)) :
    Nat × (κ → Channel) × List κ :=
  if 0 < reported.length then
    (if reported.length = capacity then capacity * 2 else capacity,
      fillActiveChannels channels reported)
  else (capacity, channels, [])

/-! ## What one poll leaves behind -/

theorem fillActiveChannels_snoc (channels : κ → Channel) (events : List (KEvent κ))
    (e : KEvent κ) :
    fillActiveChannels channels (events ++ [e]) =
      let filled := fillActiveChannels channels events
      (Function.update filled.1 e.udata ((filled.1 e.udata).setRevents e.revents),
        filled.2 ++ [e.udata]) := by
  simp [fillActiveChannels]

theorem fillActiveChannels_active (channels : κ → Channel) (events : List (KEvent κ)) :
    (fillActiveChannels channels events).2 = events.map KEvent.udata := by
  induction events using List.reverseRecOn with
  | nil => rfl
  | append_singleton events e ih =>
      rw [fillActiveChannels_snoc]
      simp [ih]

/-- Only the mask of a channel changes. -/
theorem fillActiveChannels_frame (channels : κ → Channel) (events : List (KEvent κ)) (k : κ) :
    ∃ revt, (fillActiveChannels channels events).1 k = (channels k).setRevents revt := by
  induction events using List.reverseRecOn with
  | nil => exact ⟨(channels k).revents, rfl⟩
  | append_singleton events e ih =>
      rw [fillActiveChannels_snoc]
      obtain ⟨revt, hrevt⟩ := ih
      by_cases hk : k = e.udata
      · subst hk
        refine ⟨e.revents, ?_⟩
        simp [hrevt, Channel.setRevents]
      · exact ⟨revt, by simpa [hk] using hrevt⟩

/-- The mask of a channel that was reported is that of one of its entries alone
(the last one). -/
theorem fillActiveChannels_revents (channels : κ → Channel) (events : List (KEvent κ)) {k : κ}
    (hk : k ∈ events.map KEvent.udata) :
    ∃ e ∈ events, e.udata = k ∧
      (fillActiveChannels channels events).1 k = (channels k).setRevents e.revents := by
  induction events using List.reverseRecOn with
  | nil => simp at hk
  | append_singleton events e ih =>
      rw [fillActiveChannels_snoc]
      by_cases he : k = e.udata
      · subst he
        obtain ⟨revt, hrevt⟩ := fillActiveChannels_frame channels events e.udata
        refine ⟨e, by simp, rfl, ?_⟩
        simp [hrevt, Channel.setRevents]
      · have hk' : k ∈ events.map KEvent.udata := by
          rw [List.map_append, List.mem_append] at hk
          rcases hk with hk | hk
          · exact hk
          · simp [he] at hk
        obtain ⟨e', hmem, hudata, hrevents⟩ := ih hk'
        exact ⟨e', by simp [hmem], hudata, by simpa [he] using hrevents⟩

/-! ## One channel alone -/

/-- What a poll means for a single channel: the channel afterwards, and the callbacks
of the pass, entry by entry, under the mask that the last entry left. -/
def pass (c : Channel) (events : List (KEvent Unit)) : Channel × List Callback :=
  let filled := fillActiveChannels (fun _ => c) events
  (filled.1 (), filled.2.flatMap fun k => (filled.1 k).handleEvent true)

theorem exists_asks_of_mem_pass {c : Channel} {events : List (KEvent Unit)} {kind : Callback}
    (h : kind ∈ (pass c events).2) : ∃ e ∈ events, e.asks kind = true := by
  rcases List.mem_flatMap.1 h with ⟨k, hk, hkind⟩
  rw [fillActiveChannels_active] at hk
  rcases fillActiveChannels_revents (fun _ => c) events hk with ⟨e, hmem, -, hchannel⟩
  rw [hchannel] at hkind
  have hwants : (c.setRevents e.revents).wants kind = true := by
    unfold Channel.handleEvent Channel.handleEventWithGuard at hkind
    split at hkind
    · exact (List.mem_filter.1 hkind).2
    · exact (List.mem_filter.1 hkind).2
  rw [KEvent.wants_setRevents, Bool.and_eq_true] at hwants
  exact ⟨e, hmem, hwants.1⟩

end Poller

end Hayai
