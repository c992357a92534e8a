import Hayai.Machine.Run

/-! # Calls

Code that calls other code and waits now and then for an answer from outside. Its evaluation
calls as a function does. The machine beside it makes every call and every return a step of
its own, with the callers on a stack, and it comes to the same outcome.
-/

universe u v w x

/-- Code over a memory `σ`, with answers `ρ`, exceptions `ε` and values `ν`. `act` changes the
memory and goes on by what it found there, `ask` waits for an answer, and `call` goes on with
the result of the body. -/
inductive Code (σ : Type u) (ρ : Type v) (ε : Type w) (ν : Type x) where
  | ret (value : ν)
  | raise (e : ε)
  | act (f : σ → σ) (k : σ → Code σ ρ ε ν)
  | ask (k : ρ → Code σ ρ ε ν)
  | call (body : Code σ ρ ε ν) (k : Except ε ν → Code σ ρ ε ν)

namespace Calls

variable {σ : Type u} {ρ : Type v} {ε : Type w} {ν : Type x}

structure Outcome (σ : Type u) (ε : Type w) (ν : Type x) where
  result : Except ε ν
  asked : Nat
  mem : σ

/-- `answer n mem` is the answer to the question `n` asked in the memory `mem`, and the memory
as it is then. -/
def eval (answer : Nat → σ → ρ × σ) : Code σ ρ ε ν → Nat → σ → Outcome σ ε ν
  | .ret value, asked, mem => ⟨.ok value, asked, mem⟩
  | .raise e, asked, mem => ⟨.error e, asked, mem⟩
  | .act f k, asked, mem => eval answer (k mem) asked (f mem)
  | .ask k, asked, mem =>
      eval answer (k (answer asked mem).1) (asked + 1) (answer asked mem).2
  | .call body k, asked, mem =>
      let o := eval answer body asked mem
      eval answer (k o.result) o.asked o.mem

abbrev Cont (σ : Type u) (ρ : Type v) (ε : Type w) (ν : Type x) := Except ε ν → Code σ ρ ε ν

/-- The code that is up, with the callers it returns to. `leave` is a result on its way to the
caller that is to go on. -/
inductive Control (σ : Type u) (ρ : Type v) (ε : Type w) (ν : Type x) where
  | ready (c : Code σ ρ ε ν)
  | enter (c : Code σ ρ ε ν) (ks : List (Cont σ ρ ε ν))
  | run (c : Code σ ρ ε ν) (ks : List (Cont σ ρ ε ν))
  | wait (k : ρ → Code σ ρ ε ν) (ks : List (Cont σ ρ ε ν))
  | leave (r : Except ε ν) (k : Cont σ ρ ε ν) (ks : List (Cont σ ρ ε ν))
  | done (r : Except ε ν)

structure State (σ : Type u) (ρ : Type v) (ε : Type w) (ν : Type x) where
  control : Control σ ρ ε ν
  asked : Nat
  mem : σ

def returned (r : Except ε ν) : List (Cont σ ρ ε ν) → Control σ ρ ε ν
  | [] => .done r
  | k :: ks => .leave r k ks

def exec (s : State σ ρ ε ν) (ks : List (Cont σ ρ ε ν)) : Code σ ρ ε ν → State σ ρ ε ν
  | .ret value => { s with control := returned (.ok value) ks }
  | .raise e => { s with control := returned (.error e) ks }
  | .act f k => { s with control := .run (k s.mem) ks, mem := f s.mem }
  | .ask k => { s with control := .wait k ks }
  | .call body k => { s with control := .enter body (k :: ks) }

def step (answer : Nat → σ → ρ × σ) (s : State σ ρ ε ν) : Option (State σ ρ ε ν) :=
  match s.control with
  | .ready c => some { s with control := .enter c [] }
  | .enter c ks => some { s with control := .run c ks }
  | .run c ks => some (exec s ks c)
  | .wait k ks =>
      some ⟨.run (k (answer s.asked s.mem).1) ks, s.asked + 1, (answer s.asked s.mem).2⟩
  | .leave r k ks => some { s with control := .run (k r) ks }
  | .done _ => none

def machine (answer : Nat → σ → ρ × σ) : Machine (State σ ρ ε ν) Unit where
  step s _ := step answer s

/-! ## The outcome ahead -/

def unwind (answer : Nat → σ → ρ × σ) :
    List (Cont σ ρ ε ν) → Outcome σ ε ν → Outcome σ ε ν
  | [], o => o
  | k :: ks, o => unwind answer ks (eval answer (k o.result) o.asked o.mem)

def State.outcome (answer : Nat → σ → ρ × σ) (s : State σ ρ ε ν) : Outcome σ ε ν :=
  match s.control with
  | .ready c => eval answer c s.asked s.mem
  | .enter c ks => unwind answer ks (eval answer c s.asked s.mem)
  | .run c ks => unwind answer ks (eval answer c s.asked s.mem)
  | .wait k ks => unwind answer ks (eval answer (.ask k) s.asked s.mem)
  | .leave r k ks => unwind answer (k :: ks) ⟨r, s.asked, s.mem⟩
  | .done r => ⟨r, s.asked, s.mem⟩

variable {answer : Nat → σ → ρ × σ}

theorem outcome_returned (s : State σ ρ ε ν) (r : Except ε ν) (ks : List (Cont σ ρ ε ν)) :
    State.outcome answer { s with control := returned r ks } =
      unwind answer ks ⟨r, s.asked, s.mem⟩ := by
  cases ks <;> rfl

theorem outcome_exec (s : State σ ρ ε ν) (ks : List (Cont σ ρ ε ν)) (c : Code σ ρ ε ν) :
    (exec s ks c).outcome answer = unwind answer ks (eval answer c s.asked s.mem) := by
  cases c with
  | ret value => exact outcome_returned s (.ok value) ks
  | raise e => exact outcome_returned s (.error e) ks
  | act f k => rfl
  | ask k => rfl
  | call body k => rfl

theorem step_outcome {s t : State σ ρ ε ν} (h : step answer s = some t) :
    t.outcome answer = s.outcome answer := by
  rcases s with ⟨control, asked, mem⟩
  cases control with
  | run c ks =>
      cases h
      exact outcome_exec _ ks c
  | done r => cases h
  | _ => cases h; rfl

theorem reaches_outcome {s t : State σ ρ ε ν} (h : (machine answer).Reaches s t) :
    t.outcome answer = s.outcome answer := by
  rcases h with ⟨is, his⟩
  induction is generalizing s with
  | nil => cases his; rfl
  | cons i is ih =>
      rcases Option.bind_eq_some_iff.1 his with ⟨u, hu, hrest⟩
      exact (ih hrest).trans (step_outcome hu)

/-! ## The outcome is reached -/

/-- Code runs through to its result, whoever called it: a call runs through to the body's
result, and then on from there. -/
theorem run_reaches (c : Code σ ρ ε ν) (ks : List (Cont σ ρ ε ν)) (asked : Nat) (mem : σ) :
    (machine answer).Reaches ⟨.run c ks, asked, mem⟩
      ⟨returned (eval answer c asked mem).result ks, (eval answer c asked mem).asked,
        (eval answer c asked mem).mem⟩ := by
  induction c generalizing ks asked mem with
  | ret value => exact .head (i := ()) rfl (.refl _)
  | raise e => exact .head (i := ()) rfl (.refl _)
  | act f k ih => exact .head (i := ()) rfl (ih mem ks asked (f mem))
  | ask k ih =>
      have hanswered := ih (answer asked mem).1 ks (asked + 1) (answer asked mem).2
      exact .head (i := ()) rfl (.head (i := ()) rfl hanswered)
  | call body k ihbody ihk =>
      have hbody := ihbody (k :: ks) asked mem
      have hrest := ihk (eval answer body asked mem).result ks (eval answer body asked mem).asked
        (eval answer body asked mem).mem
      have hcalled := hbody.trans (.head (i := ()) rfl hrest)
      exact .head (i := ()) rfl (.head (i := ()) rfl hcalled)

theorem ready_reaches (c : Code σ ρ ε ν) (mem : σ) :
    (machine answer).Reaches ⟨.ready c, 0, mem⟩
      ⟨.done (eval answer c 0 mem).result, (eval answer c 0 mem).asked,
        (eval answer c 0 mem).mem⟩ :=
  .head (i := ()) rfl (.head (i := ()) rfl (run_reaches c [] 0 mem))

/-! ## Counting the questions -/

/-- Answers that do not depend on the count of questions leave a count that does not depend
on where it began. -/
theorem eval_add (steady : ∀ n m mem, answer n mem = answer m mem) (c : Code σ ρ ε ν)
    (n m : Nat) (mem : σ) : eval answer c (n + m) mem =
      { eval answer c m mem with asked := n + (eval answer c m mem).asked } := by
  induction c generalizing m mem with
  | ret value => rfl
  | raise e => rfl
  | act f k ih => exact ih mem m (f mem)
  | ask k ih =>
      simp only [eval]
      rw [steady (n + m) m mem]
      exact ih _ (m + 1) _
  | call body k ihbody ihk =>
      simp only [eval]
      rw [ihbody m mem]
      exact ihk _ _ _

theorem le_asked (c : Code σ ρ ε ν) (n : Nat) (mem : σ) : n ≤ (eval answer c n mem).asked := by
  induction c generalizing n mem with
  | ret value => exact Nat.le_refl n
  | raise e => exact Nat.le_refl n
  | act f k ih => exact ih mem n (f mem)
  | ask k ih => exact Nat.le_of_succ_le (ih _ (n + 1) _)
  | call body k ihbody ihk => exact Nat.le_trans (ihbody n mem) (ihk _ _ _)

def atOnce (a : ρ) : Nat → σ → ρ × σ := fun _ mem => (a, mem)

def answered (a : ρ) : Code σ ρ ε ν → Code σ ρ ε ν
  | .ret value => .ret value
  | .raise e => .raise e
  | .act f k => .act f fun mem => answered a (k mem)
  | .ask k => answered a (k a)
  | .call body k => .call (answered a body) fun r => answered a (k r)

theorem eval_answered (a : ρ) (c : Code σ ρ ε ν) (n m : Nat) (mem : σ) :
    eval (atOnce a) (answered a c) n mem =
      { eval (atOnce a) c m mem with asked := n } := by
  induction c generalizing n m mem with
  | ret value => rfl
  | raise e => rfl
  | act f k ih => exact ih mem n m (f mem)
  | ask k ih => exact ih a n (m + 1) mem
  | call body k ihbody ihk =>
      simp only [answered, eval]
      rw [ihbody n m mem]
      exact ihk _ _ _ _

/-! ## Questions of the first code alone -/

/-- Only the code itself waits: none that it calls asks anything. -/
def AsksItself (a : ρ) : Code σ ρ ε ν → σ → Prop
  | .ret _, _ => True
  | .raise _, _ => True
  | .act f k, mem => AsksItself a (k mem) (f mem)
  | .ask k, mem => AsksItself a (k a) mem
  | .call body k, mem =>
      let o := eval (atOnce a) body 0 mem
      o.asked = 0 ∧ AsksItself a (k o.result) o.mem

/-- The machine that stops where code that was called waits. -/
def ownStep (answer : Nat → σ → ρ × σ) (s : State σ ρ ε ν) : Option (State σ ρ ε ν) :=
  match s.control with
  | .wait _ (_ :: _) => none
  | _ => step answer s

def ownMachine (answer : Nat → σ → ρ × σ) : Machine (State σ ρ ε ν) Unit where
  step s _ := ownStep answer s

def State.WaitsBelow (s : State σ ρ ε ν) : Prop := ∃ k k' ks, s.control = .wait k (k' :: ks)

/-- Code that asks nothing runs through. -/
theorem silent_reaches (c : Code σ ρ ε ν) (ks : List (Cont σ ρ ε ν)) (asked : Nat) (mem : σ)
    (silent : (eval answer c asked mem).asked = asked) :
    (ownMachine answer).Reaches ⟨.run c ks, asked, mem⟩
      ⟨returned (eval answer c asked mem).result ks, asked, (eval answer c asked mem).mem⟩ := by
  induction c generalizing ks mem with
  | ret value => exact .head (i := ()) rfl (.refl _)
  | raise e => exact .head (i := ()) rfl (.refl _)
  | act f k ih => exact .head (i := ()) rfl (ih mem ks (f mem) silent)
  | ask k ih =>
      have hle : asked + 1 ≤ (eval answer (.ask k) asked mem).asked := le_asked _ _ _
      rw [silent] at hle
      exact absurd hle (Nat.not_succ_le_self asked)
  | call body k ihbody ihk =>
      have hrest : (eval answer body asked mem).asked ≤ asked := by
        have hle : (eval answer body asked mem).asked ≤
            (eval answer (.call body k) asked mem).asked := le_asked (k _) _ _
        rwa [silent] at hle
      have hsilent : (eval answer body asked mem).asked = asked :=
        Nat.le_antisymm hrest (le_asked body asked mem)
      simp only [eval, hsilent] at silent ⊢
      have hbody := ihbody (k :: ks) mem hsilent
      have hcalled := hbody.trans (.head (i := ()) rfl (ihk _ ks _ silent))
      exact .head (i := ()) rfl (.head (i := ()) rfl hcalled)

/-- Code that was called and asks something comes to wait. -/
theorem asking_reaches (c : Code σ ρ ε ν) (k : Cont σ ρ ε ν) (ks : List (Cont σ ρ ε ν))
    (asked : Nat) (mem : σ) (asks : (eval answer c asked mem).asked ≠ asked) :
    ∃ s : State σ ρ ε ν, (ownMachine answer).Reaches ⟨.run c (k :: ks), asked, mem⟩ s ∧
      s.WaitsBelow := by
  induction c generalizing k ks mem with
  | ret value => exact absurd rfl asks
  | raise e => exact absurd rfl asks
  | act f k' ih =>
      rcases ih mem k ks (f mem) asks with ⟨s, hreach, hwaits⟩
      exact ⟨s, .head (i := ()) rfl hreach, hwaits⟩
  | ask k' ih =>
      exact ⟨⟨.wait k' (k :: ks), asked, mem⟩, .head (i := ()) rfl (.refl _), k', k, ks, rfl⟩
  | call body k' ihbody ihk =>
      by_cases hsilent : (eval answer body asked mem).asked = asked
      · simp only [eval, hsilent] at asks
        rcases ihk _ k ks _ asks with ⟨s, hreach, hwaits⟩
        have hbody := silent_reaches body (k' :: k :: ks) asked mem hsilent
        have hcalled := hbody.trans (.head (i := ()) rfl hreach)
        exact ⟨s, .head (i := ()) rfl (.head (i := ()) rfl hcalled), hwaits⟩
      · rcases ihbody k' (k :: ks) mem hsilent with ⟨s, hreach, hwaits⟩
        exact ⟨s, .head (i := ()) rfl (.head (i := ()) rfl hreach), hwaits⟩

theorem asked_atOnce (a : ρ) (c : Code σ ρ ε ν) (asked : Nat) (mem : σ) :
    eval (atOnce a) c asked mem = { eval (atOnce a) c 0 mem with
      asked := asked + (eval (atOnce a) c 0 mem).asked } :=
  eval_add (fun _ _ _ => rfl) c asked 0 mem

/-- Code that waits only itself runs through, where called code must not wait. -/
theorem own_reaches (a : ρ) (c : Code σ ρ ε ν) (asked : Nat) (mem : σ)
    (own : AsksItself a c mem) :
    (ownMachine (atOnce a)).Reaches ⟨.run c [], asked, mem⟩
      ⟨.done (eval (atOnce a) c asked mem).result, (eval (atOnce a) c asked mem).asked,
        (eval (atOnce a) c asked mem).mem⟩ := by
  induction c generalizing asked mem with
  | ret value => exact .head (i := ()) rfl (.refl _)
  | raise e => exact .head (i := ()) rfl (.refl _)
  | act f k ih => exact .head (i := ()) rfl (ih mem asked (f mem) own)
  | ask k ih =>
      have hanswered := ih a (asked + 1) mem own
      exact .head (i := ()) rfl (.head (i := ()) rfl hanswered)
  | call body k ihbody ihk =>
      have hshift := asked_atOnce a body asked mem
      rcases own with ⟨hzero, hrest⟩
      rw [hzero] at hshift
      have hsilent : (eval (atOnce a) body asked mem).asked = asked := by rw [hshift]; rfl
      have hbody := silent_reaches body [k] asked mem hsilent
      have hk := ihk _ asked _ hrest
      simp only [eval, hshift, Nat.add_zero] at hbody ⊢
      have hcalled := hbody.trans (.head (i := ()) rfl hk)
      exact .head (i := ()) rfl (.head (i := ()) rfl hcalled)

/-- Other code comes to where called code waits. -/
theorem not_own_reaches (a : ρ) (c : Code σ ρ ε ν) (asked : Nat) (mem : σ)
    (notOwn : ¬ AsksItself a c mem) :
    ∃ s : State σ ρ ε ν, (ownMachine (atOnce a)).Reaches ⟨.run c [], asked, mem⟩ s ∧
      s.WaitsBelow := by
  induction c generalizing asked mem with
  | ret value => exact absurd trivial notOwn
  | raise e => exact absurd trivial notOwn
  | act f k ih =>
      rcases ih mem asked (f mem) notOwn with ⟨s, hreach, hwaits⟩
      exact ⟨s, .head (i := ()) rfl hreach, hwaits⟩
  | ask k ih =>
      rcases ih a (asked + 1) mem notOwn with ⟨s, hreach, hwaits⟩
      exact ⟨s, .head (i := ()) rfl (.head (i := ()) rfl hreach), hwaits⟩
  | call body k ihbody ihk =>
      have hshift := asked_atOnce a body asked mem
      by_cases hzero : (eval (atOnce a) body 0 mem).asked = 0
      · have hrest : ¬ AsksItself a (k (eval (atOnce a) body 0 mem).result)
            (eval (atOnce a) body 0 mem).mem := fun h => notOwn ⟨hzero, h⟩
        rw [hzero] at hshift
        have hsilent : (eval (atOnce a) body asked mem).asked = asked := by rw [hshift]; rfl
        have hbody := silent_reaches body [k] asked mem hsilent
        rcases ihk _ asked _ hrest with ⟨s, hreach, hwaits⟩
        simp only [hshift] at hbody
        have hcalled := hbody.trans (.head (i := ()) rfl hreach)
        exact ⟨s, .head (i := ()) rfl (.head (i := ()) rfl hcalled), hwaits⟩
      · have hasks : (eval (atOnce a) body asked mem).asked ≠ asked := by
          rw [hshift]
          dsimp only
          omega
        rcases asking_reaches body k [] asked mem hasks with ⟨s, hreach, hwaits⟩
        exact ⟨s, .head (i := ()) rfl (.head (i := ()) rfl hreach), hwaits⟩

end Calls
