import Mathlib

/-!
# The threaded dispatcher

`crates/gpui/src/platform/threaded_dispatcher.rs`: workers that take runnables from a queue, a
thread that moves the timers that are due into that queue, a queue for the main thread, and a count
of what is in flight.  `run_until_idle` runs what is there for the main thread until none of the
others has anything left to do.

A step is one critical section of one thread, or a runnable that ends, or time that passes.  Threads
may take turns at every step, and a thread that would have to wait makes none.  Any thread may
dispatch at any time.  A runnable is named by the number of the call that dispatched it.  The condition
variables only say when to look again, and are left out.

`IdleRun` has records besides: what was dispatched, which timers were set, what has been run to its
end, which timers were due when `run_until_idle` looked last, and `owed`, everything that a call of
it had to wait for when it returned.
-/

namespace FcGpui

/-- A runnable, by the number of the call that dispatched it. -/
abbrev Runnable := Nat

/-! ### Queues -/

inductive TaskPriority
  | high
  | medium
  | low
deriving DecidableEq, Repr

structure TaskLabel where
  id : Nat
  priority : TaskPriority
deriving DecidableEq, Repr

/-- `label.map(TaskLabel::priority).unwrap_or_default()`. -/
def labelPriority (label : Option TaskLabel) : TaskPriority := (label.map TaskLabel.priority).getD .medium

structure BackgroundQueue where
  high : List Runnable
  normal : List Runnable
  low : List Runnable
deriving DecidableEq, Repr

namespace BackgroundQueue

def push (priority : TaskPriority) (runnable : Runnable) (queue : BackgroundQueue) : BackgroundQueue :=
  match priority with
  | .high => { queue with high := queue.high ++ [runnable] }
  | .medium => { queue with normal := queue.normal ++ [runnable] }
  | .low => { queue with low := queue.low ++ [runnable] }

/-- Nothing where the worker waits. -/
def pop : BackgroundQueue → Option (Runnable × BackgroundQueue)
  | ⟨runnable :: high, normal, low⟩ => some (runnable, ⟨high, normal, low⟩)
  | ⟨[], runnable :: normal, low⟩ => some (runnable, ⟨[], normal, low⟩)
  | ⟨[], [], runnable :: low⟩ => some (runnable, ⟨[], [], low⟩)
  | ⟨[], [], []⟩ => none

def all (queue : BackgroundQueue) : List Runnable := queue.high ++ (queue.normal ++ queue.low)

theorem push_perm (priority : TaskPriority) (runnable : Runnable) (queue : BackgroundQueue) :
    (queue.push priority runnable).all.Perm (runnable :: queue.all) := by
  cases priority with
  | high =>
    have hall : (queue.push .high runnable).all =
        queue.high ++ runnable :: (queue.normal ++ queue.low) := List.append_assoc _ [runnable] _
    rw [hall]
    exact List.perm_middle
  | medium =>
    have hall : (queue.push .medium runnable).all =
        (queue.high ++ queue.normal) ++ runnable :: queue.low := by
      simp [push, all, List.append_assoc]
    have hqueue : queue.all = (queue.high ++ queue.normal) ++ queue.low :=
      (List.append_assoc _ _ _).symm
    rw [hall, hqueue]
    exact List.perm_middle
  | low =>
    have hall : (queue.push .low runnable).all = queue.all ++ [runnable] := by
      simp [push, all, List.append_assoc]
    rw [hall]
    exact List.perm_append_singleton _ _

theorem pop_perm {queue rest : BackgroundQueue} {runnable : Runnable}
    (h : queue.pop = some (runnable, rest)) : queue.all.Perm (runnable :: rest.all) := by
  obtain ⟨high, normal, low⟩ := queue
  have hall : (⟨high, normal, low⟩ : BackgroundQueue).all = runnable :: rest.all := by
    cases high with
    | cons _ high =>
      cases h
      rfl
    | nil =>
      cases normal with
      | cons _ normal =>
        cases h
        rfl
      | nil =>
        cases low with
        | cons _ low =>
          cases h
          rfl
        | nil => cases h
  rw [hall]

end BackgroundQueue

/-! ### Timers -/

/-- An instant is a number. -/
structure TimerEntry where
  due : Nat
  sequence : UInt64
  runnable : Runnable
deriving DecidableEq, Repr

namespace TimerEntry

def cmp (entry other : TimerEntry) : Ordering :=
  (compare other.due entry.due).then (compare other.sequence entry.sequence)

theorem due_le_of_cmp_gt {entry other : TimerEntry} (h : entry.cmp other = .gt) :
    entry.due ≤ other.due := by
  rw [cmp, Ordering.then_eq_gt] at h
  rcases h with h | ⟨h, -⟩
  · exact (Nat.compare_eq_gt.mp h).le
  · exact (Nat.compare_eq_eq.mp h).ge

theorem due_le_of_cmp_ne_gt {entry other : TimerEntry} (h : entry.cmp other ≠ .gt) :
    other.due ≤ entry.due := by
  by_contra hlt
  refine h ?_
  rw [cmp, Ordering.then_eq_gt]
  exact Or.inl (Nat.compare_eq_gt.mpr (Nat.lt_of_not_le hlt))

end TimerEntry

structure TimerQueue where
  /-- A binary heap, of which only the greatest entry is ever looked at. -/
  heap : List TimerEntry
  nextSequence : UInt64
deriving DecidableEq, Repr

namespace TimerQueue

/-- The greatest entry of a heap. -/
def greatest : List TimerEntry → Option TimerEntry
  | [] => none
  | entry :: heap =>
    match greatest heap with
    | none => some entry
    | some other => if entry.cmp other = .gt then some entry else some other

def peek (timers : TimerQueue) : Option TimerEntry := greatest timers.heap

def push (due : Nat) (runnable : Runnable) (timers : TimerQueue) : TimerQueue :=
  { heap := timers.heap ++ [⟨due, timers.nextSequence, runnable⟩]
    nextSequence := timers.nextSequence + 1 }

theorem greatest_mem {heap : List TimerEntry} {entry : TimerEntry} (h : greatest heap = some entry) :
    entry ∈ heap := by
  induction heap with
  | nil => cases h
  | cons first heap ih =>
    rw [greatest] at h
    split at h
    · obtain rfl := Option.some.inj h
      exact List.mem_cons_self
    · rename_i other hother
      split at h
      · obtain rfl := Option.some.inj h
        exact List.mem_cons_self
      · obtain rfl := Option.some.inj h
        exact List.mem_cons_of_mem _ (ih hother)

/-- **No entry is due before the greatest one.** -/
theorem exists_greatest {heap : List TimerEntry} {entry : TimerEntry} (h : entry ∈ heap) :
    ∃ least, greatest heap = some least ∧ least.due ≤ entry.due := by
  induction heap with
  | nil => cases h
  | cons first heap ih =>
    rw [greatest]
    cases hheap : greatest heap with
    | none =>
      dsimp only
      rcases List.mem_cons.mp h with rfl | hmem
      · exact ⟨entry, rfl, le_rfl⟩
      · obtain ⟨least, hleast, -⟩ := ih hmem
        rw [hheap] at hleast
        cases hleast
    | some other =>
      dsimp only
      split_ifs with hcmp
      · refine ⟨first, rfl, ?_⟩
        rcases List.mem_cons.mp h with rfl | hmem
        · exact le_rfl
        · obtain ⟨least, hleast, hle⟩ := ih hmem
          obtain rfl := Option.some.inj (hheap.symm.trans hleast)
          exact (TimerEntry.due_le_of_cmp_gt hcmp).trans hle
      · refine ⟨other, rfl, ?_⟩
        rcases List.mem_cons.mp h with rfl | hmem
        · exact TimerEntry.due_le_of_cmp_ne_gt hcmp
        · obtain ⟨least, hleast, hle⟩ := ih hmem
          obtain rfl := Option.some.inj (hheap.symm.trans hleast)
          exact hle

end TimerQueue

/-! ### Threads -/

/-- Where a worker is in its loop. -/
inductive Worker
  | waiting
  | running (runnable : Runnable)
  /-- The runnable has been run, and the guard is to be dropped. -/
  | guarded
deriving DecidableEq, Repr

namespace Worker

def held : Worker → List Runnable
  | .running runnable => [runnable]
  | _ => []

def inflight : Worker → Nat
  | .waiting => 0
  | _ => 1

end Worker

/-- Where the timer thread is in its loop. -/
inductive TimerThread
  | waiting
  | popped (entry : TimerEntry)
  | counted (entry : TimerEntry)
deriving DecidableEq, Repr

namespace TimerThread

def held : TimerThread → List Runnable
  | .waiting => []
  | .popped entry => [entry.runnable]
  | .counted entry => [entry.runnable]

def inflight : TimerThread → Nat
  | .counted _ => 1
  | _ => 0

end TimerThread

/-- Where the main thread is, in or outside `run_until_idle`. -/
inductive MainThread
  | outside
  /-- At the start of the loop. -/
  | loop
  | task (runnable : Runnable) (untilIdle : Bool)
  /-- At `has_due_timer`, before the heap is looked at. -/
  | timers
  /-- And before the clock is. -/
  | clock (deadline : Option Nat)
  /-- Before the last look, at the queue of the main thread and the count. -/
  | check
deriving DecidableEq, Repr

namespace MainThread

def held : MainThread → List Runnable
  | .task runnable _ => [runnable]
  | _ => []

end MainThread

/-! ### Runs -/

structure ThreadedDispatcher where
  background : BackgroundQueue
  main : List Runnable
  timers : TimerQueue
  inflight : Nat
deriving DecidableEq, Repr

structure IdleRun extends ThreadedDispatcher where
  now : Nat
  workers : List Worker
  timerThread : TimerThread
  mainThread : MainThread
  /-- Calls of `dispatch` that have counted their runnable and not yet pushed it. -/
  dispatching : List (Runnable × TaskPriority)
  /-- The number of the next call. -/
  next : Nat
  /-- What was given to `dispatch` or `dispatch_on_main_thread`. -/
  dispatched : List Runnable
  /-- What was given to `dispatch_after`. -/
  set : List TimerEntry
  completed : List Runnable
  /-- The timers whose deadline had passed when `run_until_idle` last looked at the heap. -/
  dueAtCheck : List TimerEntry
  owed : List Runnable
deriving DecidableEq, Repr

inductive IdleAct
  /-- Up to the count. -/
  | dispatch (label : Option TaskLabel)
  /-- And the push, for one of the calls that have counted. -/
  | dispatchPush (ix : Nat)
  | dispatchOnMainThread
  | dispatchAfter (duration : Nat)
  | elapse (duration : Nat)
  | timerPop
  | timerIncrement
  | timerPush
  | workerPop (ix : Nat)
  | workerRun (ix : Nat)
  | workerDecrement (ix : Nat)
  | runUntilIdle
  | mainPop
  | mainRun
  | peekTimers
  | readClock
  | checkIdle
deriving DecidableEq, Repr

namespace IdleRun

def new (workerCount : Nat) : IdleRun where
  background := ⟨[], [], []⟩
  main := []
  timers := ⟨[], 0⟩
  inflight := 0
  now := 0
  workers := List.replicate workerCount .waiting
  timerThread := .waiting
  mainThread := .outside
  dispatching := []
  next := 0
  dispatched := []
  set := []
  completed := []
  dueAtCheck := []
  owed := []

def dispatch (label : Option TaskLabel) (w : IdleRun) : IdleRun :=
  { w with
    inflight := w.inflight + 1
    dispatching := w.dispatching ++ [(w.next, labelPriority label)]
    next := w.next + 1
    dispatched := w.dispatched ++ [w.next] }

def dispatchPush (ix : Nat) (w : IdleRun) : IdleRun :=
  match w.dispatching[ix]? with
  | none => w
  | some (runnable, priority) =>
    { w with
      dispatching := w.dispatching.eraseIdx ix
      background := w.background.push priority runnable }

def dispatchOnMainThread (w : IdleRun) : IdleRun :=
  { w with
    main := w.main ++ [w.next]
    next := w.next + 1
    dispatched := w.dispatched ++ [w.next] }

def dispatchAfter (duration : Nat) (w : IdleRun) : IdleRun :=
  { w with
    timers := w.timers.push (w.now + duration) w.next
    next := w.next + 1
    set := w.set ++ [⟨w.now + duration, w.timers.nextSequence, w.next⟩] }

/-- `if entry.due > Instant::now()`, and the pop. -/
def timerPop (w : IdleRun) : IdleRun :=
  match w.timerThread, w.timers.peek with
  | .waiting, some entry =>
    if w.now < entry.due then w
    else
      { w with
        timers := { w.timers with heap := w.timers.heap.erase entry }
        timerThread := .popped entry }
  | _, _ => w

def timerIncrement (w : IdleRun) : IdleRun :=
  match w.timerThread with
  | .popped entry => { w with inflight := w.inflight + 1, timerThread := .counted entry }
  | _ => w

def timerPush (w : IdleRun) : IdleRun :=
  match w.timerThread with
  | .counted entry =>
    { w with background := w.background.push .medium entry.runnable, timerThread := .waiting }
  | _ => w

def workerPop (ix : Nat) (w : IdleRun) : IdleRun :=
  match w.workers[ix]?, w.background.pop with
  | some .waiting, some (runnable, background) =>
    { w with background := background, workers := w.workers.set ix (.running runnable) }
  | _, _ => w

def workerRun (ix : Nat) (w : IdleRun) : IdleRun :=
  match w.workers[ix]? with
  | some (.running runnable) =>
    { w with workers := w.workers.set ix .guarded, completed := w.completed ++ [runnable] }
  | _ => w

/-- The count is checked: nothing where it would underflow. -/
def workerDecrement (ix : Nat) (w : IdleRun) : Option IdleRun :=
  match w.workers[ix]? with
  | some .guarded =>
    if 0 < w.inflight then
      some { w with inflight := w.inflight - 1, workers := w.workers.set ix .waiting }
    else none
  | _ => some w

def runUntilIdle (w : IdleRun) : IdleRun :=
  if w.mainThread = .outside then { w with mainThread := .loop } else w

/-- The pop of `run_one_main_task`, and where the main thread goes from it. -/
def popMain (untilIdle : Bool) (otherwise : MainThread) (w : IdleRun) : IdleRun :=
  match w.main with
  | [] => { w with mainThread := otherwise }
  | runnable :: main => { w with main := main, mainThread := .task runnable untilIdle }

/-- Outside `run_until_idle` the tasks of the main thread are run by `run_until` and
`run_ready_main_tasks`. -/
def mainPop (w : IdleRun) : IdleRun :=
  match w.mainThread with
  | .outside => w.popMain false .outside
  | .loop => w.popMain true .timers
  | _ => w

def mainRun (w : IdleRun) : IdleRun :=
  match w.mainThread with
  | .task runnable untilIdle =>
    { w with
      mainThread := if untilIdle then .loop else .outside
      completed := w.completed ++ [runnable] }
  | _ => w

/-- `next_timer_deadline`. -/
def peekTimers (w : IdleRun) : IdleRun :=
  match w.mainThread with
  | .timers =>
    { w with
      mainThread := .clock (w.timers.peek.map TimerEntry.due)
      dueAtCheck := w.set.filter fun entry => entry.due ≤ w.now }
  | _ => w

/-- `is_some_and(|deadline| deadline <= Instant::now())`. -/
def readClock (w : IdleRun) : IdleRun :=
  match w.mainThread with
  | .clock deadline =>
    { w with mainThread := if deadline.any (fun deadline => deadline ≤ w.now) then .loop else .check }
  | _ => w

def checkIdle (w : IdleRun) : IdleRun :=
  match w.mainThread with
  | .check =>
    if w.main ≠ [] then { w with mainThread := .loop }
    else if w.inflight = 0 then
      { w with
        mainThread := .outside
        owed := w.owed ++ (w.dispatched ++ w.dueAtCheck.map TimerEntry.runnable) }
    else { w with mainThread := .loop }
  | _ => w

def step (w : IdleRun) : IdleAct → Option IdleRun
  | .dispatch label => some (w.dispatch label)
  | .dispatchPush ix => some (w.dispatchPush ix)
  | .dispatchOnMainThread => some w.dispatchOnMainThread
  | .dispatchAfter duration => some (w.dispatchAfter duration)
  | .elapse duration => some { w with now := w.now + duration }
  | .timerPop => some w.timerPop
  | .timerIncrement => some w.timerIncrement
  | .timerPush => some w.timerPush
  | .workerPop ix => some (w.workerPop ix)
  | .workerRun ix => some (w.workerRun ix)
  | .workerDecrement ix => w.workerDecrement ix
  | .runUntilIdle => some w.runUntilIdle
  | .mainPop => some w.mainPop
  | .mainRun => some w.mainRun
  | .peekTimers => some w.peekTimers
  | .readClock => some w.readClock
  | .checkIdle => some w.checkIdle

end IdleRun

end FcGpui
