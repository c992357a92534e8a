import Hayai.Machine.Run
import Hayai.Net.Poller

/-! # What the kernel watches

`Poller::updateChannel` and `Poller::removeChannel` hand the kernel one change for each
filter in a single `kevent` call and do not look at its result. With no event list to
report to, the call ends at the first change that fails, and the deletion of a filter that
is not there fails. The change for reading comes first, so one for writing is lost whenever
reading is off and was off before.
-/

namespace Hayai

/-- A change with `EV_ADD | EV_ENABLE` or with `EV_DELETE`. -/
inductive Change where
  | add (f : Filter)
  | delete (f : Filter)
  deriving DecidableEq, Repr

/-- The filters registered for one descriptor. -/
abbrev Interest : Type := Filter → Bool

namespace Interest

def empty : Interest := fun _ => false

/-- One change; `none` is the error `ENOENT`. -/
def change (k : Interest) : Change → Option Interest
  | .add f => some (Function.update k f true)
  | .delete f => if k f then some (Function.update k f false) else none

def kevent (k : Interest) : List Change → Interest
  | [] => k
  | c :: cs =>
      match k.change c with
      | some t => t.kevent cs
      | none => k

end Interest

namespace Channel

def asksFor (c : Channel) : Interest
  | .read => c.isReading
  | .write => c.isWriting

@[simp] theorem isReading_enableReading (c : Channel) : c.enableReading.isReading = true := by
  simp [isReading_eq, enableReading, kReadEvent]

@[simp] theorem isReading_disableReading (c : Channel) : c.disableReading.isReading = false := by
  simp [isReading_eq, disableReading, kReadEvent]

@[simp] theorem isReading_enableWriting (c : Channel) :
    c.enableWriting.isReading = c.isReading := by
  simp [isReading_eq, enableWriting, kWriteEvent]

@[simp] theorem isReading_disableWriting (c : Channel) :
    c.disableWriting.isReading = c.isReading := by
  simp [isReading_eq, disableWriting, kWriteEvent]

@[simp] theorem isReading_disableAll (c : Channel) : c.disableAll.isReading = false := by
  simp [isReading_eq, disableAll, kNoneEvent]

@[simp] theorem isWriting_disableReading (c : Channel) :
    c.disableReading.isWriting = c.isWriting := by
  simp [isWriting_eq, disableReading, kReadEvent]

theorem asksFor_of_events_eq_zero {c : Channel} (h : c.events = 0) :
    c.asksFor = Interest.empty := by
  funext f
  cases f with
  | read => simp [asksFor, isReading_eq, h, Interest.empty]
  | write => simp [asksFor, isWriting_of_events_eq_zero h, Interest.empty]

end Channel

namespace Poller

def updates (c : Channel) : List Change :=
  [if c.isReading then .add .read else .delete .read,
    if c.isWriting then .add .write else .delete .write]

def removals : List Change := [.delete .read, .delete .write]

end Poller

namespace Interest

/-- An update is carried out whole, unless reading is off in the mask and in the kernel:
then the kernel stays as it is. -/
theorem kevent_updates (k : Interest) (c : Channel) :
    k.kevent (Poller.updates c) = if c.isReading || k .read then c.asksFor else k := by
  cases hreading : c.isReading with
  | true =>
      cases hwriting : c.isWriting with
      | true =>
          funext f
          cases f <;> simp [Poller.updates, kevent, change, Channel.asksFor, hreading, hwriting]
      | false =>
          cases hwrite : k .write <;> funext f <;> cases f <;>
            simp [Poller.updates, kevent, change, Channel.asksFor, hreading, hwriting, hwrite]
  | false =>
      cases hread : k .read with
      | false => simp [Poller.updates, kevent, change, hreading, hread]
      | true =>
          cases hwriting : c.isWriting <;> cases hwrite : k .write <;> funext f <;> cases f <;>
            simp [Poller.updates, kevent, change, Channel.asksFor, hreading, hwriting, hread,
              hwrite]

/-- A removal that does not find reading registered does nothing. -/
theorem kevent_removals (k : Interest) :
    k.kevent Poller.removals = if k .read then empty else k := by
  cases hread : k .read with
  | false => simp [Poller.removals, kevent, change, hread]
  | true =>
      cases hwrite : k .write <;> funext f <;> cases f <;>
        simp [Poller.removals, kevent, change, empty, hread, hwrite]

end Interest

/-! ## One channel over its calls -/

inductive ChannelCall where
  | enableReading
  | disableReading
  | enableWriting
  | disableWriting
  | disableAll
  | remove
  deriving DecidableEq, Repr

/-- A channel, the filters that the kernel has for its descriptor, whether `channels_` has
an entry for it and whether `remove()` was called. -/
structure WatchedChannel where
  channel : Channel
  kernel : Interest
  known : Bool
  removed : Bool

namespace WatchedChannel

def update (s : WatchedChannel) (c : Channel) : WatchedChannel :=
  { s with channel := c, kernel := s.kernel.kevent (Poller.updates c), known := true }

/-- The channel is not used after `remove()`, whose assertion wants an entry. -/
def step (s : WatchedChannel) (i : ChannelCall) : Option WatchedChannel :=
  if s.removed then none
  else match i with
    | .enableReading => some (s.update s.channel.enableReading)
    | .disableReading => some (s.update s.channel.disableReading)
    | .enableWriting => some (s.update s.channel.enableWriting)
    | .disableWriting => some (s.update s.channel.disableWriting)
    | .disableAll => some (s.update s.channel.disableAll)
    | .remove =>
        if s.known then
          some { s with
            kernel := s.kernel.kevent Poller.removals
            known := false
            removed := true }
        else none

def machine : Machine WatchedChannel ChannelCall := ⟨step⟩

def start (c : Channel) : WatchedChannel := ⟨{ c with events := 0 }, .empty, false, false⟩

/-- The kernel watches what the channel asks for, and nothing after `remove()`. -/
def Follows (s : WatchedChannel) : Prop :=
  s.kernel = if s.removed then Interest.empty else s.channel.asksFor

/-- The call finds reading on or leaves it on, or it changes nothing for writing. -/
def Seen (s : WatchedChannel) : ChannelCall → Prop
  | .enableReading | .disableReading => True
  | .enableWriting => s.channel.isReading ∨ s.channel.isWriting
  | .disableWriting | .disableAll | .remove => s.channel.isReading ∨ s.channel.isWriting = false

theorem follows_update {s : WatchedChannel} (h : s.Follows) (hopen : s.removed = false) (c : Channel) :
    (s.update c).Follows ↔
      c.isReading ∨ s.channel.isReading ∨ c.isWriting = s.channel.isWriting := by
  have hkernel : s.kernel = s.channel.asksFor := by
    rw [h, hopen]
    rfl
  have hread : s.kernel .read = s.channel.isReading := by
    rw [hkernel]
    rfl
  simp only [Follows, update, hopen, Bool.false_eq_true, if_false, Interest.kevent_updates, hread]
  cases hnext : c.isReading with
  | true => simp
  | false =>
      cases hbefore : s.channel.isReading with
      | true => simp
      | false =>
          simp only [Bool.or_self, Bool.false_eq_true, if_false, false_or, hkernel]
          constructor
          · intro hsame
            exact (congrFun hsame .write).symm
          · intro hwriting
            funext f
            cases f with
            | read => exact hbefore.trans hnext.symm
            | write => exact hwriting.symm

theorem follows_remove {s : WatchedChannel} (h : s.Follows) (hopen : s.removed = false) :
    s.kernel.kevent Poller.removals = Interest.empty ↔
      s.channel.isReading ∨ s.channel.isWriting = false := by
  have hkernel : s.kernel = s.channel.asksFor := by
    rw [h, hopen]
    rfl
  rw [Interest.kevent_removals, hkernel]
  change (if s.channel.isReading then Interest.empty else s.channel.asksFor) = _ ↔ _
  cases hreading : s.channel.isReading with
  | true => simp
  | false =>
      simp only [Bool.false_eq_true, if_false, false_or]
      constructor
      · intro hempty
        exact congrFun hempty .write
      · intro hwriting
        funext f
        cases f with
        | read => exact hreading
        | write => exact hwriting

/-- The condition decides at every call whether the kernel keeps following. -/
theorem follows_step {s t : WatchedChannel} {i : ChannelCall} (h : s.Follows)
    (hstep : s.step i = some t) : t.Follows ↔ s.Seen i := by
  unfold step at hstep
  split at hstep
  · cases hstep
  · next hopen =>
      have hopen : s.removed = false := by simpa using hopen
      cases i with
      | remove =>
          rcases Option.ite_none_right_eq_some.1 hstep with ⟨-, ⟨⟩⟩
          exact follows_remove h hopen
      | enableReading =>
          cases hstep
          simp [follows_update h hopen, Seen]
      | disableReading =>
          cases hstep
          simp [follows_update h hopen, Seen]
      | enableWriting =>
          cases hstep
          rw [follows_update h hopen, eq_comm (b := s.channel.isWriting)]
          simp [Seen]
      | disableWriting =>
          cases hstep
          rw [follows_update h hopen, eq_comm (b := s.channel.isWriting)]
          simp [Seen]
      | disableAll =>
          cases hstep
          rw [follows_update h hopen, eq_comm (b := s.channel.isWriting)]
          simp [Seen]

theorem start_follows (c : Channel) : (start c).Follows :=
  (Channel.asksFor_of_events_eq_zero rfl).symm

/-- Over every sequence of calls on every channel, the kernel's filters are those of the
mask after each call if and only if no call changes writing while reading is off. -/
theorem kernel_follows_iff_seen (c : Channel) (is : List ChannelCall) :
    machine.Always Follows (start c) is ↔ machine.Meets Seen (start c) is := by
  apply Machine.always_iff_meets (I := Follows)
  · intro s hs
    exact hs
  · intro s i t hs hseen hstep
    exact (follows_step hs hstep).2 hseen
  · intro s i t hs hstep ht
    exact (follows_step hs hstep).1 ht
  · exact start_follows c

/-- Writing is asked for on a channel that does not read: the deletion for reading fails
and the kernel never hears of the addition behind it. -/
theorem enableWriting_not_registered :
    ¬machine.Always Follows (start (Channel.new 5)) [.enableWriting] := by
  intro h
  have hend : ((start (Channel.new 5)).update _).Follows := h.last rfl
  have hwrite := congrFun hend .write
  revert hwrite
  decide

end WatchedChannel

end Hayai
