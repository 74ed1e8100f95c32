import Mathlib.Algebra.Group.Nat.Defs
import Mathlib.Algebra.Group.Int.Defs
import Paravirt.Lib.DList
import Paravirt.Lib.Steps

/-!
# The scheduler (kern/sched.c, kern/thread.c, kern/process.c)

Threads are named by their place in the order of creation.  Every queue is as the macros of
`variable_queue.h` have it: a head, and links that lie in the threads, written without a look at
whether the thread is on the queue.  The run queue and the done queue share one link of each thread.

* `schedYield`            `sched_yield` up to the context switch; `afterSwitch` is the rest of it;
* `wakeupThreads`         `sched_wakeup_threads` on any of the lists threads wait on;
* `threadVanishNoyield`   with or without a parent;
* `sysCas2iRunflag`       the run flag of a thread;
* `SchedOp`, `SchedState.run`  what the kernel does between two switches.

Loops over a queue take a bound on their turns: a queue whose links were broken may be a circle.  A
thread whose count drops to 0 is freed, and its memory is not used again.  `log` records the
threads put on the run queue, those selected to run and those that vanished, the last event first.
-/

set_option linter.unusedVariables false

namespace Paravirt

/-- `Q_INSERT_FRONT`, `Q_INSERT_TAIL`, `Q_REMOVE` are `DList.insertFront`, `DList.insertTail`,
`DList.remove` -/
abbrev Links := Nat → DList.Link Nat
abbrev QHead := DList.Head Nat

/-- the value of an unsigned sum as an `int` -/
@[irreducible] def int32 (x : Int) : Int := x.bmod (2^32)

/-! ## the state -/

inductive ThreadState where
  | suspended | waiting | zombie | done | runnable
  deriving DecidableEq, Repr

inductive SchedEvent where
  /-- the thread is inserted in `sched_runnable_queue` -/
  | put (t : Nat)
  /-- the thread is the next to run -/
  | select (t : Nat)
  /-- `thread_vanish_noyield` ran on the thread -/
  | vanish (t : Nat)
  deriving DecidableEq, Repr

structure SchedState where
  state : Nat → ThreadState
  parent : Nat → Option Nat
  /-- `thread->count` -/
  count : Nat → Int
  deadline : Nat → Int
  /-- `sched_thread_map` -/
  inMap : Nat → Bool
  /-- `current_thread_id` -/
  nextId : Nat
  current : Nat
  idle : Nat
  /-- `numTicks`, an unsigned counter -/
  ticks : Nat
  log : List SchedEvent
  runnableLink : Links
  waitLink : Links
  childLink : Links
  runnableQueue : QHead
  doneQueue : QHead
  sleepQueue : QHead
  selfWaitList : Nat → QHead
  waitList : Nat → QHead
  childList : Nat → QHead
  zombieList : Nat → QHead

namespace SchedState

/-- `sched_init` before the first thread -/
def bare : SchedState where
  state _ := .suspended
  parent _ := none
  count _ := 0
  deadline _ := 0
  inMap _ := false
  nextId := 0
  current := 0
  idle := 0
  ticks := 0
  log := []
  runnableLink _ := .null
  waitLink _ := .null
  childLink _ := .null
  runnableQueue := .empty
  doneQueue := .empty
  sleepQueue := .empty
  selfWaitList _ := .empty
  waitList _ := .empty
  childList _ := .empty
  zombieList _ := .empty

def setState (s : SchedState) (t : Nat) (st : ThreadState) : SchedState :=
  { s with state := Function.update s.state t st }

def note (s : SchedState) (e : SchedEvent) : SchedState := { s with log := e :: s.log }

def runqRemove (s : SchedState) (t : Nat) : SchedState :=
  let r := DList.remove s.runnableLink s.runnableQueue t
  { s with runnableLink := r.1, runnableQueue := r.2 }

def runqInsertTail (s : SchedState) (t : Nat) : SchedState :=
  let r := DList.insertTail s.runnableLink s.runnableQueue t
  ({ s with runnableLink := r.1, runnableQueue := r.2 } : SchedState).note (.put t)

def runqInsertFront (s : SchedState) (t : Nat) : SchedState :=
  let r := DList.insertFront s.runnableLink s.runnableQueue t
  ({ s with runnableLink := r.1, runnableQueue := r.2 } : SchedState).note (.put t)

def doneqRemove (s : SchedState) (t : Nat) : SchedState :=
  let r := DList.remove s.runnableLink s.doneQueue t
  { s with runnableLink := r.1, doneQueue := r.2 }

def doneqInsertTail (s : SchedState) (t : Nat) : SchedState :=
  let r := DList.insertTail s.runnableLink s.doneQueue t
  { s with runnableLink := r.1, doneQueue := r.2 }

/-! ## reference counts -/

def threadGet (s : SchedState) (t : Nat) : SchedState :=
  { s with count := Function.update s.count t (s.count t + 1) }

/-- `thread_put`; a thread that is freed drops its reference to its parent -/
def threadPut : Nat → Nat → SchedState → SchedState
  | 0, _, s => s
  | n + 1, t, s =>
    let s : SchedState := { s with count := Function.update s.count t (s.count t - 1) }
    if s.count t = 0 then
      match s.parent t with
      | none => s
      | some p => threadPut n p s
    else s

/-! ## run queue and wait lists -/

def addRunnableThread (s : SchedState) (t : Nat) : SchedState :=
  ((s.threadGet t).setState t .runnable).runqInsertTail t

def removeRunnableThread (s : SchedState) (n t : Nat) : SchedState := threadPut n t (s.runqRemove t)

/-- the threads of `sched_sleep_queue` are linked by `wait_link`, but this goes by `runnable_link` -/
def removeWaitingThread (s : SchedState) (n t : Nat) : SchedState :=
  let r := DList.remove s.runnableLink s.sleepQueue t
  threadPut n t { s with runnableLink := r.1, sleepQueue := r.2 }

/-- the lists threads wait on -/
inductive WaitOn where
  | sleep
  | selfWait (t : Nat)
  | wait (t : Nat)
  deriving DecidableEq

def waitHead (s : SchedState) : WaitOn → QHead
  | .sleep => s.sleepQueue
  | .selfWait t => s.selfWaitList t
  | .wait t => s.waitList t

def setWaitHead (s : SchedState) (l : WaitOn) (links : Links) (h : QHead) : SchedState :=
  match l with
  | .sleep => { s with waitLink := links, sleepQueue := h }
  | .selfWait t => { s with waitLink := links, selfWaitList := Function.update s.selfWaitList t h }
  | .wait t => { s with waitLink := links, waitList := Function.update s.waitList t h }

def waitRemove (s : SchedState) (l : WaitOn) (t : Nat) : SchedState :=
  let r := DList.remove s.waitLink (s.waitHead l) t
  s.setWaitHead l r.1 r.2

def waitInsertTail (s : SchedState) (l : WaitOn) (t : Nat) : SchedState :=
  let r := DList.insertTail s.waitLink (s.waitHead l) t
  s.setWaitHead l r.1 r.2

/-- one thread of a list whose deadline has come -/
def wakeup (s : SchedState) (l : WaitOn) (t : Nat) : SchedState :=
  let s := s.waitRemove l t
  if s.state t = .waiting then (s.setState t .runnable).runqInsertFront t else s.doneqInsertTail t

/-- the loop of `sched_wakeup_threads`, with the tick value it has read -/
def wakeupLoop (l : WaitOn) (ticks : Int) : Nat → Option Nat → SchedState → SchedState
  | 0, _, s => s
  | _ + 1, none, s => s
  | n + 1, some t, s =>
    let next := (s.waitLink t).next
    wakeupLoop l ticks n next (if s.deadline t ≤ ticks then s.wakeup l t else s)

def wakeupThreads (s : SchedState) (n : Nat) (l : WaitOn) : SchedState :=
  wakeupLoop l (int32 s.ticks) n (s.waitHead l).first s

/-! ## sched_yield -/

/-- step 1: the current thread goes to the back of the run queue, or to the done queue -/
def requeueCurrent (s : SchedState) : SchedState :=
  if s.current = s.idle then s
  else
    match s.state s.current with
    | .runnable => (s.runqRemove s.current).runqInsertTail s.current
    | .done => (s.runqRemove s.current).doneqInsertTail s.current
    | _ => s

/-- step 2: dead threads in front of the run queue go to the done queue; `none` when the turns are
used up -/
def pickLoop : Nat → SchedState → SchedState × Option Nat
  | 0, s => (s, none)
  | n + 1, s =>
    match s.runnableQueue.first with
    | none => (s, some s.idle)
    | some t =>
      if s.state t = .runnable then (s, some t) else pickLoop n ((s.runqRemove t).doneqInsertTail t)

/-- step 3, and `sched_thread_yield` -/
def switchTo (s : SchedState) (t : Nat) : SchedState := { s with current := t }.note (.select t)

def schedYield (s : SchedState) (n : Nat) : SchedState :=
  match pickLoop n s.requeueCurrent with
  | (s, none) => s
  | (s, some t) => s.switchTo t

/-- `sched_remove_done_thread` -/
def removeDoneThread (s : SchedState) (n t : Nat) : SchedState := threadPut n t (s.doneqRemove t)

/-- step 4: the done queue is emptied; `m` bounds the parents a freed thread has -/
def doneLoop (m : Nat) : Nat → Option Nat → SchedState → SchedState
  | 0, _, s => s
  | _ + 1, none, s => s
  | n + 1, some t, s =>
    let next := (s.runnableLink t).next
    doneLoop m n next (s.removeDoneThread m t)

/-- `sched_yield` from the switch back on -/
def afterSwitch (s : SchedState) (n : Nat) : SchedState :=
  (doneLoop n n s.doneQueue.first s).wakeupThreads n .sleep

/-- `sched_wait_on` -/
def schedWaitOn (s : SchedState) (n : Nat) (l : WaitOn) (ticks : Int) (t : Nat) : SchedState :=
  if s.state t ≠ .runnable then s
  else
    let s := { s with deadline := Function.update s.deadline t (int32 (s.ticks + ticks)) }
    ((s.setState t .waiting).runqRemove t |>.waitInsertTail l t).schedYield n

/-! ## threads -/

def childRemove (s : SchedState) (p t : Nat) : SchedState :=
  let r := DList.remove s.childLink (s.childList p) t
  { s with childLink := r.1, childList := Function.update s.childList p r.2 }

def zombieInsertTail (s : SchedState) (p t : Nat) : SchedState :=
  let r := DList.insertTail s.childLink (s.zombieList p) t
  { s with childLink := r.1, zombieList := Function.update s.zombieList p r.2 }

def zombieRemove (s : SchedState) (p t : Nat) : SchedState :=
  let r := DList.remove s.childLink (s.zombieList p) t
  { s with childLink := r.1, zombieList := Function.update s.zombieList p r.2 }

/-- the zombies of a thread that vanishes are released -/
def reapLoop (p : Nat) : Nat → Option Nat → SchedState → SchedState
  | 0, _, s => s
  | _ + 1, none, s => s
  | n + 1, some z, s =>
    reapLoop p n (s.childLink z).next (threadPut n z ((s.setState z .done).zombieRemove p z))

/-- the part of `thread_vanish_noyield` for a thread that has a parent -/
def toParent (s : SchedState) (n t : Nat) : SchedState :=
  match s.parent t with
  | none => s
  | some p =>
    (((s.childRemove p t).setState t .zombie).zombieInsertTail p t).wakeupThreads n (.selfWait p)

def leaveQueue (s : SchedState) (n t : Nat) : SchedState :=
  match s.state t with
  | .runnable => s.removeRunnableThread n t
  | .waiting => s.removeWaitingThread n t
  | _ => s

def threadVanishNoyield (s : SchedState) (n t : Nat) : SchedState :=
  let s := threadPut n t { s with inMap := Function.update s.inMap t false }
  let s := (s.leaveQueue n t).toParent n t
  let s := reapLoop t n (s.zombieList t).first s
  threadPut n t ((s.wakeupThreads n (.wait t)).note (.vanish t))

/-- `thread_copy` by `sys_fork`: the new thread is a child of the current one, and runnable -/
def fork (s : SchedState) (n : Nat) : SchedState :=
  let t := s.nextId + 1
  if s.inMap t then s
  else
    let r := DList.insertTail s.childLink (s.childList s.current) t
    let s : SchedState := { s with
      nextId := t
      state := Function.update s.state t .runnable
      parent := Function.update s.parent t (some s.current)
      -- one for the thread, and later one each for the map and for `task->thread`; a child holds
      -- its parent
      count := Function.update (Function.update s.count s.current (s.count s.current + 1)) t 3
      runnableLink := Function.update s.runnableLink t .null
      waitLink := Function.update s.waitLink t .null
      childLink := r.1
      childList := Function.update (Function.update s.childList s.current r.2) t .empty
      zombieList := Function.update s.zombieList t .empty
      waitList := Function.update s.waitList t .empty
      selfWaitList := Function.update s.selfWaitList t .empty
      inMap := Function.update s.inMap t true }
    (s.addRunnableThread t).schedYield n

/-- `thread_wait` up to the first look at the zombies after a wait; behind the first test it holds its
caller -/
def threadWait (s : SchedState) (n : Nat) : SchedState :=
  let self := s.current
  if (s.childList self).first = none ∧ (s.zombieList self).first = none then s
  else
    let s := s.threadGet self
    match (s.zombieList self).first with
    | none => s.schedWaitOn n (.selfWait self) 0 self
    | some z => threadPut n self (threadPut n z (s.zombieRemove self z))

/-- `thread_wait` after a wait -/
def threadWaitReap (s : SchedState) (n : Nat) : SchedState :=
  match (s.zombieList s.current).first with
  | none => threadPut n s.current s
  | some z => threadPut n s.current (threadPut n z (s.zombieRemove s.current z))

/-- `sys_yield`: `tid` -1 is `none` -/
def sysYield (s : SchedState) (n : Nat) : Option Nat → SchedState
  | none => s.schedYield n
  | some t => if s.inMap t = false ∨ s.state t ≠ .runnable then s else s.switchTo t

/-- the new state `sys_cas2i_runflag` asks for -/
def runflagState (st : ThreadState) (ev1 nv1 ev2 nv2 : Int) : ThreadState :=
  if (ev1 = 0 ∧ st = .runnable) ∨ (ev1 < 0 ∧ st = .suspended) then
    if nv1 < 0 then .suspended else .runnable
  else if (ev2 = 0 ∧ st = .runnable) ∨ (ev2 < 0 ∧ st = .suspended) then
    if nv2 < 0 then .suspended else .runnable
  else .runnable

def sysCas2iRunflag (s : SchedState) (n t : Nat) (ev1 nv1 ev2 nv2 : Int) : SchedState :=
  if s.inMap t = false ∨ s.state t = .zombie ∨ s.state t = .done then s
  else
    let new := runflagState (s.state t) ev1 nv1 ev2 nv2
    if new = .suspended ∧ (t ≠ s.current ∨ s.state t ≠ .runnable) then s
    else if new = s.state t then s
    else if new = .suspended then ((s.removeRunnableThread n t).setState t .suspended).schedYield n
    else s.addRunnableThread t

end SchedState

/-! ## runs -/

/-- the pieces of kernel code that run between two switches; `n` bounds the turns of each loop -/
inductive SchedOp where
  | yield (tid : Option Nat) (n : Nat)
  | afterSwitch (n : Nat)
  | fork (n : Nat)
  | wait (n : Nat)
  | waitReap (n : Nat)
  | sleep (ticks : Int) (n : Nat)
  | runflag (tid : Nat) (ev1 nv1 ev2 nv2 : Int) (n : Nat)
  | tick (numTick : Nat)
  /-- the current thread: `sys_vanish`, a failed exec, a fatal exception -/
  | vanish (n : Nat)
  /-- `sys_task_vanish` of any thread -/
  | taskVanish (tid : Nat) (n : Nat)

/-- `task_vanish` does nothing to a thread that is done -/
def SchedState.taskVanish (s : SchedState) (n t : Nat) : SchedState :=
  if s.state t = .done then s.schedYield n else (s.threadVanishNoyield n t).schedYield n

def SchedState.run (s : SchedState) : SchedOp → SchedState
  | .yield tid n => s.sysYield n tid
  | .afterSwitch n => s.afterSwitch n
  | .fork n => s.fork n
  | .wait n => s.threadWait n
  | .waitReap n => s.threadWaitReap n
  | .sleep ticks n => s.schedWaitOn n .sleep ticks s.current
  | .runflag tid ev1 nv1 ev2 nv2 n => s.sysCas2iRunflag n tid ev1 nv1 ev2 nv2
  | .tick numTick => { s with ticks := numTick % 2^32 }
  | .vanish n => (s.threadVanishNoyield n s.current).schedYield n
  | .taskVanish tid n => if s.inMap tid then s.taskVanish n tid else s

def SchedStep (s : SchedState) (op : SchedOp) (s' : SchedState) : Prop := s' = s.run op

end Paravirt
