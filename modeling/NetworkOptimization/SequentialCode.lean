import Mathlib.Logic.Function.Basic

namespace NetworkOptimization.SequentialCode

/-- A sequential function over its own memory `σ`. It computes locally until it
makes a call `v`, which its environment answers at some later time. -/
inductive Routine (σ V : Type) (R : V → Type) (α : Type) : Type where
  | ret (a : α)
  | load (k : σ → Routine σ V R α)
  | store (s : σ) (k : Routine σ V R α)
  | fault
  | call (v : V) (k : R v → Routine σ V R α)

/-- Where a routine rests: it is over, or it waits for the answer to a call. -/
inductive Stop (σ V : Type) (R : V → Type) (α : Type) : Type where
  | done (a : α)
  | waiting (v : V) (k : R v → Routine σ V R α)

variable {σ V : Type} {R : V → Type} {α β γ : Type}

def bind : Routine σ V R α → (α → Routine σ V R β) → Routine σ V R β
  | .ret a, f => f a
  | .load k, f => .load (fun s => bind (k s) f)
  | .store s k, f => .store s (bind k f)
  | .fault, _ => .fault
  | .call v k, f => .call v (fun r => bind (k r) f)

instance : Monad (Routine σ V R) where
  pure := .ret
  bind := bind

@[simp] theorem return_bind (a : α) (f : α → Routine σ V R β) :
    ((pure a : Routine σ V R α) >>= f) = f a := rfl

@[simp] theorem ret_bind (a : α) (f : α → Routine σ V R β) : (Routine.ret a >>= f) = f a := rfl

@[simp] theorem call_bind (v : V) (k : R v → Routine σ V R α) (f : α → Routine σ V R β) :
    (Routine.call v k >>= f) = .call v (fun r => k r >>= f) := rfl

theorem bind_bind (m : Routine σ V R α) (f : α → Routine σ V R β) (g : β → Routine σ V R γ) :
    ((m >>= f) >>= g) = (m >>= fun a => f a >>= g) := by
  induction m with
  | ret a => rfl
  | load k ih => exact congrArg Routine.load (funext ih)
  | store s k ih => exact congrArg (Routine.store s) ih
  | fault => rfl
  | call v k ih => exact congrArg (Routine.call v) (funext ih)

def request (v : V) : Routine σ V R (R v) := .call v .ret

@[simp] theorem request_bind (v : V) (f : R v → Routine σ V R β) :
    (request v >>= f) = .call v f := rfl

/-- A value the C code reads without checking; where it does not exist the
behaviour is undefined and the routine faults. -/
def require : Option α → Routine σ V R α
  | some a => .ret a
  | none => .fault

/-- A local computation on the memory; `none` is undefined behaviour. -/
def locally (f : σ → Option (α × σ)) : Routine σ V R α :=
  .load (fun s => match f s with
    | some (a, s') => .store s' (.ret a)
    | none => .fault)

def gets (f : σ → α) : Routine σ V R α := .load (fun s => .ret (f s))

def modify (f : σ → σ) : Routine σ V R Unit := .load (fun s => .store (f s) (.ret ()))

/-- Run the local part: up to the end or to the next call. -/
def settle : Routine σ V R α → σ → Option (σ × Stop σ V R α)
  | .ret a, s => some (s, .done a)
  | .load k, s => settle (k s) s
  | .store s k, _ => settle k s
  | .fault, _ => none
  | .call v k, s => some (s, .waiting v k)

@[simp] theorem settle_ret (a : α) (s : σ) :
    settle (.ret a : Routine σ V R α) s = some (s, .done a) := rfl

@[simp] theorem settle_call (v : V) (k : R v → Routine σ V R α) (s : σ) :
    settle (.call v k) s = some (s, .waiting v k) := rfl

@[simp] theorem settle_gets_bind (g : σ → α) (f : α → Routine σ V R β) (s : σ) :
    settle (gets g >>= f) s = settle (f (g s)) s := rfl

@[simp] theorem settle_modify_bind (g : σ → σ) (f : Unit → Routine σ V R β) (s : σ) :
    settle (modify g >>= f) s = settle (f ()) (g s) := rfl

theorem settle_require_bind (o : Option α) (f : α → Routine σ V R β) (s : σ) :
    settle (require o >>= f) s = o.bind (fun a => settle (f a) s) := by
  cases o <;> rfl

@[simp] theorem settle_require_some (a : α) (f : α → Routine σ V R β) (s : σ) :
    settle (require (some a) >>= f) s = settle (f a) s := rfl

@[simp] theorem settle_require_none (f : α → Routine σ V R β) (s : σ) :
    settle (require none >>= f) s = none := rfl

theorem settle_locally_bind (g : σ → Option (α × σ)) (f : α → Routine σ V R β) (s : σ) :
    settle (locally g >>= f) s = (g s).bind (fun p => settle (f p.1) p.2) := by
  change settle (bind (locally g) f) s = _
  cases hg : g s <;> simp [locally, bind, settle, hg]

/-- Run a routine to its end, every call answered at once by the same table. -/
def execute (answer : (v : V) → R v) : Routine σ V R α → σ → Option (σ × α)
  | .ret a, s => some (s, a)
  | .load k, s => execute answer (k s) s
  | .store s k, _ => execute answer k s
  | .fault, _ => none
  | .call v k, s => execute answer (k (answer v)) s

variable (answer : (v : V) → R v)

def calls : Routine σ V R α → σ → List V
  | .ret _, _ => []
  | .load k, s => calls (k s) s
  | .store s k, _ => calls k s
  | .fault, _ => []
  | .call v k, s => v :: calls (k (answer v)) s

/-- Finish a resting routine under a table of answers. -/
def Stop.finish : Stop σ V R α → σ → Option (σ × α)
  | .done a, s => some (s, a)
  | .waiting v k, s => execute answer (k (answer v)) s

theorem execute_settle (m : Routine σ V R α) (s : σ) :
    execute answer m s = (settle m s).bind (fun p => p.2.finish answer p.1) := by
  induction m generalizing s with
  | ret a => rfl
  | load k ih => exact ih s s
  | store s' k ih => exact ih s'
  | fault => rfl
  | call v k ih => rfl

end NetworkOptimization.SequentialCode
