import MiniMM.Basic

/-!
# Read-copy update of the mappings

`rcu.c`, and the two functions of `mapping.c` that use a domain: `minimm_mapping_query` as a reader
and `minimm_mapping_publish_locked` as an updater. Any number of threads run any sequence of
calls. A step of the system is one atomic access of one thread, so that the loads and exchanges of
the compare-and-swap loops, the sections of the lock and the callbacks are steps of their own.
-/

namespace MiniMM

namespace Rcu

/-- A snapshot, by the order in which snapshots are made. -/
abbrev Object := ℕ

/-- Where a thread is. -/
inductive Phase where
  | idle
  /-- `minimm_rcu_read_lock`, with the number of readers it expects. -/
  | readLock (readers : ℕ)
  /-- Inside a read section, with the pointer it has loaded. -/
  | reading (loaded : Option Object)
  /-- `minimm_rcu_read_unlock`, with the number of readers it expects. -/
  | readUnlock (previous : ℕ) (loaded : Option Object)
  | signalLock
  | signal
  | signalUnlock
  /-- `minimm_mapping_publish_locked` after its exchange, in the allocation of
  `minimm_rcu_retire`. -/
  | retire (old : Object)
  | retireLock (old : Object)
  | retireLink (old : Object)
  | retireUnlock
  /-- `minimm_rcu_poll`. -/
  | pollLock
  | pollLoad
  | pollTake
  | pollUnlock (taken : List Object)
  /-- `minimm_rcu_synchronize`, with the snapshot that its caller destroys afterwards. -/
  | syncLock (old : Option Object)
  | syncLoad (old : Option Object)
  | syncWait (old : Option Object)
  | syncWoken (old : Option Object)
  | syncTake (old : Option Object)
  | syncUnlock (taken : List Object) (old : Option Object)
  /-- `minimm_rcu_reclaim_list`, and the destruction after it. -/
  | reclaim (taken : List Object) (old : Option Object)
  | aborted
  deriving DecidableEq, Repr

/-- The functions that a thread can call. -/
inductive Call where
  | readLock
  | publish
  | poll
  | synchronize
  deriving DecidableEq, Repr

/-- What a thread does next. The flag of `proceed` settles what the code leaves open: does the weak
exchange succeed, does the allocation. -/
inductive Action where
  | call (c : Call)
  | load
  | unlock
  | proceed (success : Bool)
  deriving DecidableEq, Repr

/-- `struct minimm_rcu_domain`, the published pointer of the space and the threads. -/
structure State (ι : Type) where
  readers : ℕ
  lock : Option ι
  /-- The queue from `retired_head` to `retired_tail`. -/
  retired : List Object
  published : Option Object
  nextObject : Object
  phase : ι → Phase
  /-- History: the objects that were ever linked into the queue. -/
  linked : List Object
  /-- History: the calls of the reclaim function and of `minimm_vma_snapshot_destroy`. -/
  reclaimed : List Object

namespace State

variable {ι : Type} [DecidableEq ι]

/-- A space with its first snapshot. -/
def init : State ι where
  readers := 0
  lock := none
  retired := []
  published := some 0
  nextObject := 1
  phase := fun _ ↦ .idle
  linked := []
  reclaimed := []

def goto (s : State ι) (t : ι) (p : Phase) : State ι :=
  { s with phase := Function.update s.phase t p }

/-- `pthread_mutex_lock`, if nobody has the lock. -/
def acquire (s : State ι) (t : ι) (p : Phase) : Option (State ι) :=
  if s.lock = none then some ({ s with lock := some t }.goto t p) else none

def release (s : State ι) (t : ι) (p : Phase) : State ι := { s with lock := none }.goto t p

/-- A thread in `pthread_cond_wait` that is woken. -/
def wake : Phase → Phase
  | .syncWait old => .syncWoken old
  | p => p

/-- The calls of an idle thread, up to their first atomic access. -/
def enter (s : State ι) (t : ι) : Call → State ι
  | .readLock => s.goto t (.readLock s.readers)
  | .publish =>
    { s with published := some s.nextObject, nextObject := s.nextObject + 1 }.goto t
      (match s.published with
      | none => .idle
      | some old => .retire old)
  | .poll => s.goto t .pollLock
  | .synchronize => s.goto t (.syncLock none)

/-- Go on in a call. -/
def proceed (s : State ι) (t : ι) (success : Bool) : Phase → Option (State ι)
  | .readLock readers =>
    if readers = sizeMax then some (s.goto t .aborted)
    else if success ∧ s.readers = readers then
      some ({ s with readers := readers + 1 }.goto t (.reading none))
    else some (s.goto t (.readLock s.readers))
  | .readUnlock previous loaded =>
    if previous = 0 then some (s.goto t .aborted)
    else if success ∧ s.readers = previous then
      some ({ s with readers := previous - 1 }.goto t (if previous = 1 then .signalLock else .idle))
    else some (s.goto t (.readUnlock s.readers loaded))
  | .signalLock => s.acquire t .signal
  | .signal => some ({ s with phase := wake ∘ s.phase }.goto t .signalUnlock)
  | .signalUnlock => some (s.release t .idle)
  | .retire old => some (s.goto t (if success then .retireLock old else .syncLock (some old)))
  | .retireLock old => s.acquire t (.retireLink old)
  | .retireLink old =>
    some ({ s with retired := s.retired ++ [old], linked := s.linked ++ [old] }.goto t
      .retireUnlock)
  | .retireUnlock => some (s.release t .pollLock)
  | .pollLock => s.acquire t .pollLoad
  | .pollLoad => some (s.goto t (if s.readers = 0 then .pollTake else .pollUnlock []))
  | .pollTake => some ({ s with retired := [] }.goto t (.pollUnlock s.retired))
  | .pollUnlock taken => some (s.release t (.reclaim taken none))
  | .syncLock old => s.acquire t (.syncLoad old)
  | .syncLoad old =>
    if s.readers ≠ 0 then some (s.release t (.syncWait old)) else some (s.goto t (.syncTake old))
  -- `pthread_cond_wait` may return without a signal
  | .syncWait old => some (s.goto t (.syncWoken old))
  | .syncWoken old => s.acquire t (.syncLoad old)
  | .syncTake old => some ({ s with retired := [] }.goto t (.syncUnlock s.retired old))
  | .syncUnlock taken old => some (s.release t (.reclaim taken old))
  | .reclaim (o :: taken) old =>
    some ({ s with reclaimed := o :: s.reclaimed }.goto t (.reclaim taken old))
  | .reclaim [] (some old) => some ({ s with reclaimed := old :: s.reclaimed }.goto t .idle)
  | .reclaim [] none => some (s.goto t .idle)
  | .idle | .reading _ | .aborted => none

/-- One atomic access of thread `t`. -/
def step (s : State ι) (t : ι) (a : Action) : Option (State ι) :=
  match s.phase t, a with
  | .idle, .call c => some (s.enter t c)
  | .reading none, .load => some (s.goto t (.reading s.published))
  | .reading loaded, .unlock => some (s.goto t (.readUnlock s.readers loaded))
  | p, .proceed success => s.proceed t success p
  | _, _ => none

/-- The states that some interleaving leads to. -/
inductive Reachable : State ι → Prop where
  | init : Reachable init
  | step {s s' : State ι} {t : ι} {a : Action} : Reachable s → s.step t a = some s' → Reachable s'

end State

end Rcu

end MiniMM
