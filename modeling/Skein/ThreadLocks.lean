import Skein.Machine
import Skein.OrderedMap

/-!
# Per-key locks over chained promises

`#tails` maps a key to the promise of the last call in line. A queueing call chains its task
after that promise and stores a tail of its own; a nonblocking call stores one only if there is
none. A promise is known by the call that made it, a call by its position in the order of
calls. The continuations of settled promises are steps of their own and run in any order, so
what holds of every run holds in particular for the order of a microtask queue.
-/
namespace Skein

inductive Outcome
  | fulfilled
  | rejected
  deriving DecidableEq, Repr

/-- How far a call of `run` has come. -/
inductive TaskPhase
  | waiting
  | running
  /-- The promise of the task has settled. -/
  | settled (outcome : Outcome)
  /-- So has `result`; the tail has resolved and the `finally` block has run, or not yet. -/
  | resulted (outcome : Outcome) (tail returned : Bool)
  deriving DecidableEq, Repr

inductive LockCall (κ : Type*)
  /-- `previous` is the tail the task was chained after; `none` is `Promise.resolve()`. -/
  | run (key : κ) (previous : Option ℕ) (phase : TaskPhase)
  | lease (key : κ) (released : Bool)
  deriving DecidableEq, Repr

structure ThreadLocks (κ : Type*) where
  tails : OrderedMap κ ℕ := ∅
  calls : List (LockCall κ) := []

/-- What a settled promise calls back. -/
inductive Continuation
  /-- `previous.then(task, task)` -/
  | task
  /-- `result` adopts the promise of the task. -/
  | result
  /-- `result.then(() => undefined, () => undefined)` -/
  | tail
  /-- The `finally` block after `await result`. -/
  | finally
  deriving DecidableEq, Repr

inductive LockEvent (κ : Type*)
  | run (key : κ)
  | tryAcquire (key : κ)
  | release (id : ℕ)
  /-- The task of a call settles. -/
  | settle (id : ℕ) (outcome : Outcome)
  | continuation (id : ℕ) (callback : Continuation)
  deriving DecidableEq, Repr

namespace LockCall
variable {κ : Type*}

def key : LockCall κ → κ
  | run key _ _ | lease key _ => key

def previous : LockCall κ → Option ℕ
  | run _ previous _ => previous
  | lease _ _ => none

/-- A task that has not been started. -/
def waits : LockCall κ → Bool
  | run _ _ .waiting => true
  | _ => false

/-- A task that is running, or a lease that was not released. -/
def holds : LockCall κ → Bool
  | run _ _ .running | lease _ false => true
  | _ => false

/-- A task that has settled, or a lease that was released. -/
def done (call : LockCall κ) : Bool := !call.waits && !call.holds

/-- The promise in `#tails` has resolved. -/
def tailSettled : LockCall κ → Bool
  | run _ _ (.resulted _ tail _) => tail
  | lease _ released => released
  | _ => false

/-- The call has looked whether its entry is still in `#tails`. -/
def closed : LockCall κ → Bool
  | run _ _ (.resulted _ _ returned) => returned
  | lease _ released => released
  | _ => false

/-- Continuations to come before the call needs another event. -/
def pending : LockCall κ → ℕ
  | run _ _ .waiting => 1
  | run _ _ (.settled _) => 3
  | run _ _ (.resulted _ tail returned) => (!tail).toNat + (!returned).toNat
  | _ => 0

end LockCall

namespace ThreadLocks
variable {κ : Type*} [DecidableEq κ] (w : ThreadLocks κ)

/-- `if (this.#tails.get(key) === tail) this.#tails.delete(key)` -/
def dropTail (key : κ) (id : ℕ) : OrderedMap κ ℕ :=
  if w.tails.get? key = some id then w.tails.erase key else w.tails

/-- `tryAcquire`: the lease and its call, or `none` for `undefined`. -/
def tryAcquire (key : κ) : Option ℕ × ThreadLocks κ :=
  if w.tails.contains key then (none, w)
  else (some w.calls.length, ⟨w.tails.set key w.calls.length, w.calls ++ [.lease key false]⟩)

/-- `release` of a lease. -/
def release (id : ℕ) : Option (ThreadLocks κ) :=
  match w.calls[id]? with
  | some (.lease key released) =>
    if released then some w else some ⟨w.dropTail key id, w.calls.set id (.lease key true)⟩
  | _ => none

/-- `run` up to its `await`. -/
def run (key : κ) : ThreadLocks κ :=
  ⟨w.tails.set key w.calls.length, w.calls ++ [.run key (w.tails.get? key) .waiting]⟩

/-- The task of a call settles. -/
def settle (id : ℕ) (outcome : Outcome) : Option (ThreadLocks κ) :=
  match w.calls[id]? with
  | some (.run key previous .running) =>
    some { w with calls := w.calls.set id (.run key previous (.settled outcome)) }
  | _ => none

/-- `previous` has settled. -/
def previousSettled (previous : Option ℕ) : Bool :=
  previous.all fun p => (w.calls[p]?).any LockCall.tailSettled

/-- A continuation of a call, if its promise has settled and it has not run. -/
def continuation (id : ℕ) (callback : Continuation) : Option (ThreadLocks κ) :=
  match callback, w.calls[id]? with
  | .task, some (.run key previous .waiting) =>
    -- The task is called whether the one before it was fulfilled or rejected.
    if w.previousSettled previous then
      some { w with calls := w.calls.set id (.run key previous .running) }
    else none
  | .result, some (.run key previous (.settled outcome)) =>
    some { w with calls := w.calls.set id (.run key previous (.resulted outcome false false)) }
  | .tail, some (.run key previous (.resulted outcome false returned)) =>
    some { w with calls := w.calls.set id (.run key previous (.resulted outcome true returned)) }
  | .finally, some (.run key previous (.resulted outcome tail false)) =>
    some ⟨w.dropTail key id, w.calls.set id (.run key previous (.resulted outcome tail true))⟩
  | _, _ => none

end ThreadLocks

/-- The locks and whoever uses them. -/
def threadLocks {κ : Type*} [DecidableEq κ] : Machine (ThreadLocks κ) (LockEvent κ) where
  step w
    | .run key => some (w.run key)
    | .tryAcquire key => some (w.tryAcquire key).2
    | .release id => w.release id
    | .settle id outcome => w.settle id outcome
    | .continuation id callback => w.continuation id callback

end Skein
