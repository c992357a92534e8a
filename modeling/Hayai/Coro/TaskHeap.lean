import Hayai.Machine.Run
import Mathlib.Data.List.Nodup
import Mathlib.Logic.Function.Basic
import Mathlib.Logic.Relation

/-! # Task objects and their frames

Who owns a coroutine frame. A `Task` object of `coro/Task.h` has the handle of one frame and
destroys it; objects are stored outside of all coroutines or inside a frame, whose destruction
destroys them, too. The code that runs may use any object that exists, its own or one that it
knows by reference. What the code does on a handle that stands for no frame, or on one that
cannot be resumed, is undefined, and a fault here.
-/

namespace Hayai

/-! ## The model -/

/-- `leaf` is a suspension at an awaiter that is no `Task`, `awaiting` the `co_await` of the
object with that number. -/
inductive TaskPhase where
  | initial
  | running
  | leaf
  | awaiting (object : Nat)
  | final
  deriving DecidableEq, Repr

structure OwnedFrame where
  phase : TaskPhase
  continuation : Option Nat
  deriving DecidableEq, Repr

/-- A `Task` object with its `handle_`. `home` is the frame it is stored in. -/
structure TaskObject where
  id : Nat
  home : Option Nat
  handle : Option Nat
  deriving DecidableEq, Repr

/-- A call of `get()` or `detach()` that has not returned, made by the frame `caller` or from
outside. -/
structure TaskCall where
  object : Nat
  caller : Option Nat
  detach : Bool
  deriving DecidableEq, Repr

/-- The code that is up: that of a frame or the one outside of all frames, or the innermost
`get()` or `detach()`. -/
inductive TaskTurn where
  | code (e : Option Nat)
  | inside
  deriving DecidableEq, Repr

/-- `dying` are the frames still to be destroyed before the code goes on. `assigning` has the
two objects of a move assignment whose old frame is being destroyed. `destroyed` has every
frame that was destroyed and where it was then. -/
structure TaskHeap where
  objects : List TaskObject
  frames : Nat → Option OwnedFrame
  created : Nat
  named : Nat
  turn : TaskTurn
  calls : List TaskCall
  dying : List Nat
  assigning : Option (Nat × Nat)
  destroyed : List (Nat × TaskPhase)
  fault : Bool

/-- `moveAssign a b` is `a = std::move(b)`, and `home` is where the new object is stored. -/
inductive TaskOp where
  | create (home : Option Nat)
  | moveConstruct (a : TaskObject) (home : Option Nat)
  | moveAssign (a b : TaskObject)
  | scopeExit (a : TaskObject)
  | coAwait (a : TaskObject)
  | suspend
  | finish
  | get (a : TaskObject)
  | detach (a : TaskObject)

inductive TaskHeapInput where
  | code (op : TaskOp)
  | goOn
  | destroyNext
  | assign

namespace TaskHeap

def new : TaskHeap where
  objects := []
  frames := fun _ => none
  created := 0
  named := 0
  turn := .code none
  calls := []
  dying := []
  assigning := none
  destroyed := []
  fault := false

def fail (s : TaskHeap) : TaskHeap := { s with fault := true }

def setFrame (s : TaskHeap) (h : Nat) (f : OwnedFrame) : TaskHeap :=
  { s with frames := Function.update s.frames h (some f) }

def object? (s : TaskHeap) (o : Nat) : Option TaskObject := s.objects.find? (·.id = o)

def handleOf (s : TaskHeap) (o : Nat) : Option Nat := (s.object? o).bind (·.handle)

/-! ## Objects -/

def create (s : TaskHeap) (home : Option Nat) : TaskHeap :=
  { s.setFrame s.created ⟨.initial, none⟩ with
    objects := ⟨s.named, home, some s.created⟩ :: s.objects
    created := s.created + 1
    named := s.named + 1 }

def moveConstruct (s : TaskHeap) (a : TaskObject) (home : Option Nat) : TaskHeap :=
  { s with
    objects := ⟨s.named, home, a.handle⟩ :: { a with handle := none } :: s.objects.erase a
    named := s.named + 1 }

/-- Up to `handle_.destroy()`; the frame is not destroyed yet. Until the exchange only the
destructor of `a` would still read its `handle_`. -/
def moveAssign (s : TaskHeap) (a b : TaskObject) : TaskHeap :=
  if a.id = b.id then s
  else
    { s with
      objects := { a with handle := none } :: s.objects.erase a
      dying := a.handle.toList
      assigning := some (a.id, b.id) }

def exchange (s : TaskHeap) (i j : Nat) : TaskHeap :=
  match s.object? i, s.object? j with
  | some a, some b =>
      { s with
        objects := { a with handle := b.handle } :: { b with handle := none } ::
          (s.objects.erase a).erase b
        assigning := none }
  | _, _ => s.fail

def scopeExit (s : TaskHeap) (a : TaskObject) : TaskHeap :=
  { s with objects := s.objects.erase a, dying := a.handle.toList }

/-- `handle.destroy()`: the objects in the frame are destroyed with it. If one of them is being
assigned, its handle is destroyed twice, or read when it is gone. -/
def destroyFrame (s : TaskHeap) (h : Nat) (rest : List Nat) : TaskHeap :=
  match s.frames h with
  | none => s.fail
  | some f =>
      { s with
        objects := s.objects.filter (·.home ≠ some h)
        frames := Function.update s.frames h none
        dying := (s.objects.filter (·.home = some h)).filterMap (·.handle) ++ rest
        destroyed := s.destroyed ++ [(h, f.phase)]
        fault := s.objects.any fun a =>
          a.home = some h && s.assigning.any fun p => a.id = p.1 || a.id = p.2 }

/-! ## Coroutines -/

/-- A frame that runs or is done cannot be resumed. One at a `co_await` goes on with
`await_resume`, which reads the promise behind the object's handle. -/
def resume (s : TaskHeap) (h : Nat) : TaskHeap :=
  match s.frames h with
  | some ⟨.initial, continuation⟩ | some ⟨.leaf, continuation⟩ =>
      { s.setFrame h ⟨.running, continuation⟩ with turn := .code (some h) }
  | some ⟨.awaiting o, continuation⟩ =>
      if (s.handleOf o).isSome then
        { s.setFrame h ⟨.running, continuation⟩ with turn := .code (some h) }
      else s.fail
  | _ => s.fail

def coAwait (s : TaskHeap) (h : Nat) (a : TaskObject) : TaskHeap :=
  match s.frames h, a.handle with
  | some f, some c =>
      let t := s.setFrame h { f with phase := .awaiting a.id }
      match t.frames c with
      | some g => (t.setFrame c { g with continuation := some h }).resume c
      | none => s.fail
  | _, _ => s.fail

def suspend (s : TaskHeap) (h : Nat) : TaskHeap :=
  match s.frames h with
  | some f => { s.setFrame h { f with phase := .leaf } with turn := .inside }
  | none => s.fail

def finish (s : TaskHeap) (h : Nat) : TaskHeap :=
  match s.frames h with
  | some f =>
      let t := s.setFrame h { f with phase := .final }
      match f.continuation with
      | some p => t.resume p
      | none => { t with turn := .inside }
  | none => s.fail

/-- `get()` of an empty task throws. -/
def get (s : TaskHeap) (e : Option Nat) (a : TaskObject) : TaskHeap :=
  if a.handle.isSome then
    { s with calls := ⟨a.id, e, false⟩ :: s.calls, turn := .inside }
  else s

def detach (s : TaskHeap) (e : Option Nat) (a : TaskObject) : TaskHeap :=
  match a.handle with
  | some h => ({ s with calls := ⟨a.id, e, true⟩ :: s.calls } : TaskHeap).resume h
  | none => s

/-- Inside `get()` the handle is resumed until its frame is done; `detach()` resumes it once
and then sets `handle_` to null. -/
def goOn (s : TaskHeap) : Option TaskHeap :=
  match s.turn, s.calls with
  | .inside, c :: calls =>
      some <| if c.detach then
        match s.object? c.object with
        | some a =>
            { s with
              objects := { a with handle := none } :: s.objects.erase a
              turn := .code c.caller
              calls }
        | none => s.fail
      else
        match s.handleOf c.object with
        | some h =>
            match s.frames h with
            | some ⟨.final, _⟩ => { s with turn := .code c.caller, calls }
            | _ => s.resume h
        | none => s.fail
  | _, _ => none

/-! ## Steps -/

def Stands (s : TaskHeap) : Option Nat → Prop
  | none => True
  | some h => (s.frames h).isSome

instance (s : TaskHeap) (home : Option Nat) : Decidable (s.Stands home) :=
  match home with
  | none => .isTrue trivial
  | some h => inferInstanceAs (Decidable ((s.frames h).isSome = true))

def perform (s : TaskHeap) (e : Option Nat) : TaskOp → Option TaskHeap
  | .create home => if s.Stands home then some (s.create home) else none
  | .moveConstruct a home =>
      if a ∈ s.objects ∧ s.Stands home then some (s.moveConstruct a home) else none
  | .moveAssign a b =>
      if a ∈ s.objects ∧ b ∈ s.objects then some (s.moveAssign a b) else none
  | .scopeExit a => if a ∈ s.objects then some (s.scopeExit a) else none
  | .get a => if a ∈ s.objects then some (s.get e a) else none
  | .detach a => if a ∈ s.objects then some (s.detach e a) else none
  | .coAwait a =>
      match e with
      | some h => if a ∈ s.objects then some (s.coAwait h a) else none
      | none => none
  | .suspend => e.map s.suspend
  | .finish => e.map s.finish

/-- Destructors run to their end before the code goes on, and nothing follows a fault. -/
def step (s : TaskHeap) (i : TaskHeapInput) : Option TaskHeap :=
  if s.fault then none
  else
    match s.dying, s.assigning, i with
    | h :: rest, _, .destroyNext => some (s.destroyFrame h rest)
    | [], some (i, j), .assign => some (s.exchange i j)
    | [], none, .goOn => s.goOn
    | [], none, .code op =>
        match s.turn with
        | .code e => s.perform e op
        | .inside => none
    | _, _, _ => none

def machine : Machine TaskHeap TaskHeapInput := ⟨step⟩

/-! ## What is asked -/

/-- No frame is destroyed twice or while it runs, nothing undefined has happened, and once all
objects are gone every frame has been destroyed. -/
structure Owned (s : TaskHeap) : Prop where
  once : (s.destroyed.map Prod.fst).Nodup
  asleep : ∀ d ∈ s.destroyed, d.2 ≠ .running
  defined : s.fault = false
  all : s.objects = [] → s.dying = [] → ∀ n < s.created, n ∈ s.destroyed.map Prod.fst

def UnderWay (s : TaskHeap) (h : Nat) : Prop :=
  ∃ f, s.frames h = some f ∧ f.phase ≠ .initial ∧ f.phase ≠ .final

def Owns (s : TaskHeap) (h h' : Nat) : Prop :=
  ∃ a ∈ s.objects, a.home = some h ∧ a.handle = some h'

def Takes (s : TaskHeap) : Nat → Nat → Prop := Relation.ReflTransGen s.Owns

/-- No frame that goes with the object's frame is under way. -/
def Expendable (s : TaskHeap) (a : TaskObject) : Prop :=
  ∀ h, a.handle = some h → ∀ h', s.Takes h h' → ¬ s.UnderWay h'

def Outside (s : TaskHeap) (a b : TaskObject) : Prop :=
  ∀ h, a.handle = some h → ∀ h', s.Takes h h' → b.home ≠ some h'

def Idle (s : TaskHeap) (a : TaskObject) : Prop := ∀ h, a.handle = some h → ¬ s.UnderWay h

/-- A task that has a coroutine is not detached. A task is awaited only before its coroutine
has begun. While a coroutine is under way its task is not used, and neither it nor a frame that
owns it is destroyed; objects of a move assignment are not stored in the frame that it
destroys. In a tree that is run by `get()`, only the root suspends elsewhere. -/
def Orderly (s : TaskHeap) : TaskHeapInput → Prop
  | .code (.detach a) => a.handle = none
  | .code (.coAwait a) => ∃ h f, a.handle = some h ∧ s.frames h = some f ∧ f.phase = .initial
  | .code (.moveConstruct a _) => s.Idle a
  | .code (.moveAssign a b) =>
      a.id ≠ b.id → s.Idle b ∧ s.Expendable a ∧ s.Outside a a ∧ s.Outside a b
  | .code (.scopeExit a) => s.Expendable a
  | .code (.get a) => s.Idle a
  | .code .suspend => ∃ c calls h, s.calls = c :: calls ∧ s.turn = .code (some h) ∧
      s.handleOf c.object = some h
  | _ => True

end TaskHeap

end Hayai
