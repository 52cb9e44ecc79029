import Concordia.Lib.TSys

/-!
# The context stack

CUDA keeps a stack of contexts for every thread, and the driver shim keeps one of its
own, `CONTEXT_STACK`, from which it answers what the current context is. `set_current`
pushes on it where CUDA replaces the top, so the two run side by side (`Pair`) only as
long as it is called on an empty stack.
-/

namespace Concordia.Cuda

open Concordia.Lib List

/-- A `CUcontext`; zero is the null pointer. -/
abbrev Handle := Nat

inductive CUerror where
  | unknown
  | invalidContext
  | invalidValue
  deriving DecidableEq, Repr

/-- `Context`: the device and the context of the real driver. -/
structure Context where
  device : Int
  cudaCtx : Handle
  deriving DecidableEq, Repr

/-- The contexts behind the handles that pass the check of `from_cuda`, and the stack of the
thread, its top first. -/
structure Thread where
  contexts : Handle → Option Context
  stack : List (Handle × Int)

namespace Thread

/-- `from_cuda`. -/
def fromCuda (t : Thread) (ctx : Handle) : Except CUerror Context :=
  match t.contexts ctx with
  | some context => .ok context
  | none => .error .invalidValue

/-- `push`. -/
def push (t : Thread) (ctx : Handle) (device : Int) : Thread :=
  { t with stack := (ctx, device) :: t.stack }

/-- `peek_current`. -/
def peekCurrent (t : Thread) : Option Handle := t.stack.head?.map Prod.fst

/-- `create_v2`: the driver gives `cudaCtx` and its return code, and the wrapper is put
under a new handle. -/
def createV2 (t : Thread) (dev : Int) (handle cudaCtx : Handle) (result : Int) :
    Except CUerror Handle × Thread :=
  if result ≠ 0 then (.error .unknown, t)
  else
    let t := { t with contexts := Function.update t.contexts handle (some ⟨dev, cudaCtx⟩) }
    (.ok handle, t.push handle dev)

/-- `destroy_v2`. -/
def destroyV2 (t : Thread) (ctx : Handle) (result : Int) : Except CUerror Unit × Thread :=
  if ctx = 0 then (.error .invalidContext, t)
  else
    match t.fromCuda ctx with
    | .error e => (.error e, t)
    | .ok _ =>
      if result ≠ 0 then (.error .unknown, t)
      else (.ok (), { t with stack := t.stack.filter fun entry => entry.1 ≠ ctx })

/-- `push_current_v2`. -/
def pushCurrentV2 (t : Thread) (ctx : Handle) (result : Int) : Except CUerror Unit × Thread :=
  if ctx = 0 then (.error .invalidContext, t)
  else
    match t.fromCuda ctx with
    | .error e => (.error e, t)
    | .ok context =>
      if result ≠ 0 then (.error .unknown, t) else (.ok (), t.push ctx context.device)

/-- `pop_current_v2`, with what it writes to `pctx`. -/
def popCurrentV2 (t : Thread) (result : Int) : Except CUerror Handle × Thread :=
  if result ≠ 0 then (.error .unknown, t)
  else (.ok (t.peekCurrent.getD 0), { t with stack := t.stack.tail })

/-- `set_current`. Null only pops the stack; another context is pushed before the driver is
asked. -/
def setCurrent (t : Thread) (ctx : Handle) (result : Int) : Except CUerror Unit × Thread :=
  if ctx = 0 then (.ok (), { t with stack := t.stack.tail })
  else
    match t.fromCuda ctx with
    | .error e => (.error e, t)
    | .ok context =>
      let t := t.push ctx context.device
      if result ≠ 0 then (.error .unknown, t) else (.ok (), t)

/-- `set_current` of the `tmatmul` build, which has no driver to ask. -/
def setCurrentTmatmul (t : Thread) (ctx : Handle) : Except CUerror Unit × Thread :=
  if ctx ≠ 0 then
    match t.fromCuda ctx with
    | .error e => (.error e, t)
    | .ok context => (.ok (), t.push ctx context.device)
  else (.ok (), { t with stack := t.stack.tail })

/-- The two builds do the same when the driver call succeeds. -/
theorem setCurrent_eq_tmatmul (t : Thread) (ctx : Handle) :
    t.setCurrent ctx 0 = t.setCurrentTmatmul ctx := by
  unfold setCurrent setCurrentTmatmul
  by_cases hctx : ctx = 0
  · rw [if_pos hctx, if_neg (not_not_intro hctx)]
  · rw [if_neg hctx, if_pos hctx]
    cases t.fromCuda ctx <;> rfl

end Thread

/-! ## Calls -/

/-- A call, with the return code of the driver call it makes. -/
inductive Call where
  | create (dev : Int) (handle cudaCtx : Handle) (result : Int)
  | destroy (ctx : Handle) (result : Int)
  | pushCurrent (ctx : Handle) (result : Int)
  | popCurrent (result : Int)
  | setCurrent (ctx : Handle) (result : Int)
  deriving DecidableEq, Repr

def Thread.step (t : Thread) : Call → Thread
  | .create dev handle cudaCtx result => (t.createV2 dev handle cudaCtx result).2
  | .destroy ctx result => (t.destroyV2 ctx result).2
  | .pushCurrent ctx result => (t.pushCurrentV2 ctx result).2
  | .popCurrent result => (t.popCurrentV2 result).2
  | .setCurrent ctx result => (t.setCurrent ctx result).2

def Thread.Valid (t : Thread) (ctx : Handle) : Prop := ctx ≠ 0 ∧ (t.contexts ctx).isSome = true

instance (t : Thread) (ctx : Handle) : Decidable (t.Valid ctx) :=
  inferInstanceAs (Decidable (_ ∧ _))

/-- **CUDA's stack.** Create and push push, pop and destroy pop, `set_current` replaces the
top or pushes on an empty stack, and null pops. A call with an invalid context fails and
changes nothing. -/
def cudaStep (t : Thread) (stack : List Handle) : Call → List Handle
  | .create _ handle _ _ => handle :: stack
  | .destroy ctx _ => if t.Valid ctx then stack.tail else stack
  | .pushCurrent ctx _ => if t.Valid ctx then ctx :: stack else stack
  | .popCurrent _ => stack.tail
  | .setCurrent ctx _ =>
    if ctx = 0 then stack.tail else if t.Valid ctx then ctx :: stack.tail else stack

/-- The thread and CUDA's stack. -/
structure Pair where
  thread : Thread
  cuda : List Handle

/-- The runs in question: every driver call that is made succeeds, and a context is
destroyed only when it is on top of the stack and nowhere else in it. -/
def Allowed (p : Pair) : Call → Prop
  | .create _ _ _ result => result = 0
  | .destroy ctx result => p.thread.Valid ctx →
    result = 0 ∧ p.cuda.head? = some ctx ∧ ctx ∉ p.cuda.tail
  | .pushCurrent ctx result => p.thread.Valid ctx → result = 0
  | .popCurrent result => result = 0
  | .setCurrent ctx result => p.thread.Valid ctx → result = 0

/-- Calls on one thread, from empty stacks. -/
def contexts : TSys Pair Call where
  init p := p.thread.stack = [] ∧ p.cuda = []
  step p call q := Allowed p call ∧ q = ⟨p.thread.step call, cudaStep p.thread p.cuda call⟩

/-- `set_current` with a context is called on an empty stack only. -/
def SetsWhenEmpty (p : Pair) : Call → Prop
  | .setCurrent ctx _ => p.thread.Valid ctx → p.thread.stack = []
  | _ => True

/-! ## The stacks side by side -/

/-- The stack of the thread is CUDA's. -/
def Pair.Agree (p : Pair) : Prop := p.thread.stack.map Prod.fst = p.cuda

section

variable {t : Thread} {ctx : Handle}

theorem exists_of_valid (h : t.Valid ctx) : ∃ context, t.fromCuda ctx = .ok context := by
  obtain ⟨context, hcontext⟩ := Option.isSome_iff_exists.mp h.2
  exact ⟨context, by rw [Thread.fromCuda, hcontext]⟩

theorem exists_error_of_not_valid (hctx : ctx ≠ 0) (h : ¬t.Valid ctx) :
    ∃ e, t.fromCuda ctx = .error e := by
  cases hcontext : t.contexts ctx with
  | none => exact ⟨.invalidValue, by rw [Thread.fromCuda, hcontext]⟩
  | some context => exact absurd ⟨hctx, by rw [hcontext]; rfl⟩ h

/-- An invalid handle changes nothing. -/
theorem destroyV2_of_not_valid (h : ¬t.Valid ctx) (result : Int) :
    (t.destroyV2 ctx result).2 = t := by
  unfold Thread.destroyV2
  by_cases hctx : ctx = 0
  · rw [if_pos hctx]
  · obtain ⟨e, he⟩ := exists_error_of_not_valid hctx h
    rw [if_neg hctx, he]

theorem pushCurrentV2_of_not_valid (h : ¬t.Valid ctx) (result : Int) :
    (t.pushCurrentV2 ctx result).2 = t := by
  unfold Thread.pushCurrentV2
  by_cases hctx : ctx = 0
  · rw [if_pos hctx]
  · obtain ⟨e, he⟩ := exists_error_of_not_valid hctx h
    rw [if_neg hctx, he]

theorem setCurrent_of_not_valid (hctx : ctx ≠ 0) (h : ¬t.Valid ctx) (result : Int) :
    (t.setCurrent ctx result).2 = t := by
  obtain ⟨e, he⟩ := exists_error_of_not_valid hctx h
  rw [Thread.setCurrent, if_neg hctx, he]

/-- What the calls do to the stack when the driver call succeeds. -/
theorem stack_destroyV2 (h : t.Valid ctx) :
    (t.destroyV2 ctx 0).2.stack = t.stack.filter fun entry => entry.1 ≠ ctx := by
  obtain ⟨context, hcontext⟩ := exists_of_valid h
  simp [Thread.destroyV2, h.1, hcontext]

theorem stack_pushCurrentV2 (h : t.Valid ctx) :
    ∃ device, (t.pushCurrentV2 ctx 0).2.stack = (ctx, device) :: t.stack := by
  obtain ⟨context, hcontext⟩ := exists_of_valid h
  exact ⟨context.device, by simp [Thread.pushCurrentV2, h.1, hcontext, Thread.push]⟩

theorem stack_setCurrent (h : t.Valid ctx) (result : Int) :
    ∃ device, (t.setCurrent ctx result).2.stack = (ctx, device) :: t.stack := by
  obtain ⟨context, hcontext⟩ := exists_of_valid h
  refine ⟨context.device, ?_⟩
  simp only [Thread.setCurrent, if_neg h.1, hcontext]
  split <;> rfl

end

/-- Removing a context that is only on top is a pop. -/
theorem filter_eq_tail {stack : List (Handle × Int)} {ctx : Handle}
    (htop : (stack.map Prod.fst).head? = some ctx) (honce : ctx ∉ (stack.map Prod.fst).tail) :
    stack.filter (fun entry => entry.1 ≠ ctx) = stack.tail := by
  cases stack with
  | nil => rfl
  | cons entry rest =>
    have hentry : entry.1 = ctx := by simpa using htop
    rw [filter_cons_of_neg (by simpa using hentry), tail_cons, filter_eq_self]
    intro other hother
    have hne : other.1 ≠ ctx := by
      intro heq
      exact honce (heq ▸ mem_map_of_mem hother)
    simpa using hne

/-- One call keeps the stacks together. -/
theorem agree_step {p : Pair} (h : p.Agree) {call : Call} (hallowed : Allowed p call)
    (hset : SetsWhenEmpty p call) :
    Pair.Agree ⟨p.thread.step call, cudaStep p.thread p.cuda call⟩ := by
  cases call with
  | create dev handle cudaCtx result =>
    have hresult : result = 0 := hallowed
    subst hresult
    show (handle :: p.thread.stack.map Prod.fst) = handle :: p.cuda
    rw [show p.thread.stack.map Prod.fst = p.cuda from h]
  | destroy ctx result =>
    show (p.thread.destroyV2 ctx result).2.stack.map Prod.fst = _
    by_cases hvalid : p.thread.Valid ctx
    · obtain ⟨rfl, htop, honce⟩ := hallowed hvalid
      rw [← h] at htop honce
      rw [stack_destroyV2 hvalid, filter_eq_tail htop honce, cudaStep, if_pos hvalid, map_tail,
        h]
    · rw [destroyV2_of_not_valid hvalid, cudaStep, if_neg hvalid, h]
  | pushCurrent ctx result =>
    show (p.thread.pushCurrentV2 ctx result).2.stack.map Prod.fst = _
    by_cases hvalid : p.thread.Valid ctx
    · obtain rfl := hallowed hvalid
      obtain ⟨device, hstack⟩ := stack_pushCurrentV2 hvalid
      rw [hstack, cudaStep, if_pos hvalid, map_cons, h]
    · rw [pushCurrentV2_of_not_valid hvalid, cudaStep, if_neg hvalid, h]
  | popCurrent result =>
    have hresult : result = 0 := hallowed
    subst hresult
    show p.thread.stack.tail.map Prod.fst = p.cuda.tail
    rw [map_tail, h]
  | setCurrent ctx result =>
    show (p.thread.setCurrent ctx result).2.stack.map Prod.fst = _
    by_cases hctx : ctx = 0
    · rw [Thread.setCurrent, cudaStep, if_pos hctx, if_pos hctx]
      show p.thread.stack.tail.map Prod.fst = p.cuda.tail
      rw [map_tail, h]
    · by_cases hvalid : p.thread.Valid ctx
      · -- the stack is empty, where CUDA pushes as well
        have hempty := hset hvalid
        have hcuda : p.cuda = [] := by rw [← h, hempty, map_nil]
        obtain ⟨device, hstack⟩ := stack_setCurrent hvalid result
        rw [hstack, hempty, cudaStep, if_neg hctx, if_pos hvalid, hcuda]
        rfl
      · rw [setCurrent_of_not_valid hctx hvalid, cudaStep, if_neg hctx, if_neg hvalid, h]

/-- **The current context** is the top of CUDA's stack after every call of a run in which
`set_current` is called with a context only on an empty stack. -/
theorem peekCurrent_eq_top {p : Pair} (h : (contexts.restrict SetsWhenEmpty).Reachable p) :
    p.thread.peekCurrent = p.cuda.head? := by
  have hagree : p.Agree := by
    refine h.induct (P := Pair.Agree) ?_ ?_
    · intro q hinit
      show q.thread.stack.map Prod.fst = q.cuda
      rw [hinit.1, hinit.2, map_nil]
    · rintro q call r hq ⟨hset, hallowed, rfl⟩
      exact agree_step hq hallowed hset
  rw [Thread.peekCurrent, ← head?_map, hagree]

/-- A thread without contexts. -/
def freshThread : Thread := ⟨fun _ => none, []⟩

instance (p : Pair) : (call : Call) → Decidable (Allowed p call)
  | .create .. | .popCurrent _ => inferInstanceAs (Decidable (_ = _))
  | .destroy .. | .pushCurrent .. | .setCurrent .. => inferInstanceAs (Decidable (_ → _))

instance (p : Pair) : (call : Call) → Decidable (SetsWhenEmpty p call)
  | .setCurrent .. => inferInstanceAs (Decidable (_ → _))
  | .create .. | .destroy .. | .pushCurrent .. | .popCurrent _ => .isTrue trivial

/-- A call under both conditions. -/
def Pair.stepIf (p : Pair) (call : Call) : Option Pair :=
  if SetsWhenEmpty p call ∧ Allowed p call then
    some ⟨p.thread.step call, cudaStep p.thread p.cuda call⟩
  else none

/-- Two contexts; the second is destroyed, the first set again on an empty stack. -/
def twoContexts : List Call :=
  [.create 0 1 9 0, .create 0 2 8 0, .pushCurrent 1 0, .popCurrent 0, .destroy 2 0, .popCurrent 0,
    .setCurrent 1 0]

theorem peekCurrent_twoContexts : ∃ p : Pair,
    TSys.runSteps Pair.stepIf ⟨freshThread, []⟩ twoContexts = some p ∧ p.cuda = [1] ∧
      p.thread.peekCurrent = some 1 := by
  have hrun : (TSys.runSteps Pair.stepIf ⟨freshThread, []⟩ twoContexts).map Pair.cuda =
      some [1] := by
    decide
  obtain ⟨p, hp, hcuda⟩ := Option.map_eq_some_iff.mp hrun
  have hreach : (contexts.restrict SetsWhenEmpty).Reachable p := by
    refine TSys.Reachable.runSteps twoContexts (fun call _ q r hstep => ?_) (.init ⟨rfl, rfl⟩) hp
    obtain ⟨⟨hset, hallowed⟩, hnext⟩ := Option.ite_none_right_eq_some.mp hstep
    exact ⟨hset, hallowed, (Option.some.inj hnext).symm⟩
  refine ⟨p, hp, hcuda, ?_⟩
  rw [peekCurrent_eq_top hreach, hcuda]
  rfl

/-- The calls in turn, on both stacks. -/
def Pair.run (p : Pair) (calls : List Call) : Pair :=
  calls.foldl (fun p call => ⟨p.thread.step call, cudaStep p.thread p.cuda call⟩) p

/-- `set_current` with the context on top, then a pop: CUDA's stack is empty, and the
context is still the current one. -/
theorem set_current_pushes_again :
    ((Pair.run ⟨freshThread, []⟩ [.create 0 1 9 0, .setCurrent 1 0, .popCurrent 0]).cuda.head?,
      (Pair.run ⟨freshThread, []⟩ [.create 0 1 9 0, .setCurrent 1 0,
        .popCurrent 0]).thread.peekCurrent) = (none, some 1) := by
  decide

end Concordia.Cuda
