import Mathlib

/-!
# The task profiler

Each thread has a ring buffer of the timings of its tasks, registered when the thread first ends a
task, and counts what is pushed to it.  A `ProfilingCollector` keeps for each thread the count that it
has seen, and reports what has been pushed since.

Disabling the profiler empties the buffers and takes the counts back to zero; what collectors have
seen stays.  A timing carries the number of its push, which the source does not have; instants are
numbers of nanoseconds.  The size of the buffers is that of a timing in memory, and a parameter.
-/

namespace FcGpui

structure Location where
  file : String
  line : Nat
  column : Nat
deriving DecidableEq, Repr

inductive TaskTimingStatus
  | completed
  | cancelled
deriving DecidableEq, Repr

structure TaskTiming where
  location : Location
  start : Nat
  finish : Nat
  status : TaskTimingStatus
  push : Nat
deriving DecidableEq, Repr

structure ThreadTaskTimings where
  threadName : Option String
  threadId : Nat
  timings : List TaskTiming
  totalPushed : Nat
deriving DecidableEq, Repr

structure SerializedTaskTiming where
  location : Location
  start : Nat
  duration : Nat
  status : TaskTimingStatus
  push : Nat
deriving DecidableEq, Repr

/-- An instant before the anchor is taken as the anchor. -/
def SerializedTaskTiming.convert (anchor : Nat) (timings : List TaskTiming) : List SerializedTaskTiming :=
  timings.map fun timing =>
    { location := timing.location
      start := timing.start - anchor
      duration := timing.finish - timing.start
      status := timing.status
      push := timing.push }

/-- The thread is given by its id, of which the source has a hash here. -/
structure ThreadTimingsDelta where
  threadId : Nat
  threadName : Option String
  newTimings : List SerializedTaskTiming
deriving DecidableEq, Repr

/-! ### The collector -/

structure ProfilingCollector where
  startupTime : Nat
  cursors : Nat → Option Nat

namespace ProfilingCollector

def new (startupTime : Nat) : ProfilingCollector := ⟨startupTime, fun _ => none⟩

def previousCursor (self : ProfilingCollector) (threadId : Nat) : Nat := (self.cursors threadId).getD 0

/-- The body of the loop: the cursor of the thread, and its delta if there is one. -/
def collectThread (self : ProfilingCollector) (thread : ThreadTaskTimings) :
    ProfilingCollector × Option ThreadTimingsDelta :=
  let bufferLen := thread.timings.length
  let bufferStart := thread.totalPushed - bufferLen
  let skip := self.previousCursor thread.threadId - bufferStart
  let unseen := thread.timings.drop (min skip thread.timings.length)
  ({ self with cursors := Function.update self.cursors thread.threadId (some thread.totalPushed) },
    if unseen = [] then none
    else some
      { threadId := thread.threadId
        threadName := thread.threadName
        newTimings := SerializedTaskTiming.convert self.startupTime unseen })

def collectUnseen (self : ProfilingCollector) :
    List ThreadTaskTimings → ProfilingCollector × List ThreadTimingsDelta
  | [] => (self, [])
  | thread :: allTimings =>
    let rest := (self.collectThread thread).1.collectUnseen allTimings
    (rest.1, (self.collectThread thread).2.toList ++ rest.2)

def reset (self : ProfilingCollector) : ProfilingCollector := { self with cursors := fun _ => none }

end ProfilingCollector

/-! ### The buffers -/

structure TaskTimingHandle where
  location : Location
  start : Nat
  generation : Nat
deriving DecidableEq, Repr

structure Thread where
  id : Nat
  name : Option String
deriving DecidableEq, Repr

structure ThreadTimingState where
  threadName : Option String
  threadId : Nat
  timings : List TaskTiming
  totalPushed : Nat
deriving DecidableEq, Repr

namespace ThreadTimingState

def new (threadName : Option String) (threadId : Nat) : ThreadTimingState := ⟨threadName, threadId, [], 0⟩

/-- The oldest timings make room. -/
def push (maxTaskTimings : Nat) (self : ThreadTimingState) (timing : TaskTiming) : ThreadTimingState :=
  { self with
    timings := self.timings.drop (self.timings.length + 1 - maxTaskTimings) ++ [timing]
    totalPushed := self.totalPushed + 1 }

def snapshot (self : ThreadTimingState) : ThreadTaskTimings :=
  ⟨self.threadName, self.threadId, self.timings, self.totalPushed⟩

def clear (self : ThreadTimingState) : ThreadTimingState := { self with timings := [], totalPushed := 0 }

end ThreadTimingState

/-- The statics; a registered buffer is `none` once its thread is gone. -/
structure Profiler where
  enabled : Bool
  generation : Nat
  globalThreadTimings : List (Option ThreadTimingState)
deriving DecidableEq, Repr

namespace Profiler

def new : Profiler := ⟨false, 0, []⟩

/-- The buffers of the threads that live. -/
def live (self : Profiler) : List ThreadTimingState := self.globalThreadTimings.filterMap id

def clearAllTimings (self : Profiler) : Profiler :=
  { self with
    globalThreadTimings := self.globalThreadTimings.filterMap fun timings =>
      timings.map fun timings => some timings.clear }

/-- Whether anything has changed, and the profiler. -/
def setEnabled (self : Profiler) (enabled : Bool) : Bool × Profiler :=
  if self.enabled = enabled then (false, self)
  else
    let self := { self with enabled := enabled, generation := self.generation + 1 }
    (true, if enabled then self else self.clearAllTimings)

def recordStart (self : Profiler) (location : Location) (now : Nat) : Option TaskTimingHandle :=
  if self.enabled then some ⟨location, now, self.generation⟩ else none

/-- The initializer of `THREAD_TIMINGS`, which runs once in a thread. -/
def register (self : Profiler) (thread : Thread) : Profiler :=
  if self.live.any fun timings => timings.threadId = thread.id then self
  else
    { self with
      globalThreadTimings := self.globalThreadTimings ++ [some (.new thread.name thread.id)] }

/-- `THREAD_TIMINGS.with`. -/
def withThreadTimings (self : Profiler) (thread : Thread) (f : ThreadTimingState → ThreadTimingState) :
    Profiler :=
  { self.register thread with
    globalThreadTimings := (self.register thread).globalThreadTimings.map fun timings =>
      timings.map fun timings => if timings.threadId = thread.id then f timings else timings }

/-- `record_end` in `thread`; `push` is the number of the push. -/
def recordEnd (maxTaskTimings : Nat) (self : Profiler) (thread : Thread) (handle : TaskTimingHandle)
    (status : TaskTimingStatus) (now push : Nat) : Profiler :=
  if !self.enabled ∨ handle.generation ≠ self.generation then self
  else
    self.withThreadTimings thread fun timings => timings.push maxTaskTimings
      { location := handle.location
        start := handle.start
        finish := now
        status := status
        push := push }

/-- The thread-local of a thread is dropped with it. -/
def threadExit (self : Profiler) (threadId : Nat) : Profiler :=
  { self with
    globalThreadTimings := self.globalThreadTimings.map fun timings =>
      timings.filter fun timings => timings.threadId ≠ threadId }

def globalTimings (self : Profiler) : List ThreadTaskTimings :=
  self.live.map ThreadTimingState.snapshot

end Profiler

def profilerCollectTimings (profiler : Profiler) (collector : ProfilingCollector) :
    ProfilingCollector × List ThreadTimingsDelta :=
  collector.collectUnseen profiler.globalTimings

end FcGpui
