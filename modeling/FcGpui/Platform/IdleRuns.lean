import FcGpui.Lib.Machine
import FcGpui.Platform.ThreadedDispatcher

/-!
# What `run_until_idle` waits for

`copies` counts where a runnable is found, in the queues, in the hands of a thread and among those
that have been run to their end.  Every runnable that was handed out is found once (`Conserves`), and
the count of what is in flight is that of the places that it stands for, so that it never
underflows.  `Looks` is what the main thread knows between its looks at the heap, the clock and the
count.

A timer is in no such place between the pop from the heap and the count: there `run_until_idle`
overlooks it, if it was due when the heap was looked at (`Uncounted`).

**Main results.**  `runUntilIdle_iff` and `not_runUntilIdle`.
-/

namespace FcGpui

/-! ### Lists -/

section Lists

variable {α β : Type}

theorem count_flatMap_set [DecidableEq β] (f : α → List β) (b : β) {l : List α} {ix : Nat} {old : α} (new : α)
    (h : l[ix]? = some old) :
    ((l.set ix new).flatMap f).count b + (f old).count b = (l.flatMap f).count b + (f new).count b := by
  induction l generalizing ix with
  | nil => cases h
  | cons first l ih =>
    cases ix with
    | zero =>
      obtain rfl := Option.some.inj h
      simp only [List.set_cons_zero, List.flatMap_cons, List.count_append]
      omega
    | succ ix =>
      have hrest := ih h
      simp only [List.set_cons_succ, List.flatMap_cons, List.count_append]
      omega

theorem sum_map_set (f : α → Nat) {l : List α} {ix : Nat} {old : α} (new : α) (h : l[ix]? = some old) :
    ((l.set ix new).map f).sum + f old = (l.map f).sum + f new := by
  induction l generalizing ix with
  | nil => cases h
  | cons first l ih =>
    cases ix with
    | zero =>
      obtain rfl := Option.some.inj h
      simp only [List.set_cons_zero, List.map_cons, List.sum_cons]
      omega
    | succ ix =>
      have hrest := ih h
      simp only [List.set_cons_succ, List.map_cons, List.sum_cons]
      omega

theorem perm_cons_eraseIdx {l : List α} {ix : Nat} {a : α} (h : l[ix]? = some a) :
    l.Perm (a :: l.eraseIdx ix) := by
  obtain ⟨hlt, rfl⟩ := List.getElem?_eq_some_iff.mp h
  exact (List.getElem_cons_eraseIdx_perm hlt).symm

end Lists

namespace IdleRun

/-! ### Places -/

/-- How often a runnable is found. -/
def copies (runnable : Runnable) (w : IdleRun) : Nat :=
  w.main.count runnable + w.background.all.count runnable +
    (w.timers.heap.map TimerEntry.runnable).count runnable + w.timerThread.held.count runnable +
      (w.workers.flatMap Worker.held).count runnable + (w.dispatching.map Prod.fst).count runnable +
        w.mainThread.held.count runnable + w.completed.count runnable

/-- What the count of what is in flight stands for. -/
def counted (w : IdleRun) : Nat :=
  w.dispatching.length + w.background.all.length + (w.workers.map Worker.inflight).sum +
    w.timerThread.inflight

/-- Every runnable is found once, and what is in flight is counted. -/
structure Conserves (w : IdleRun) : Prop where
  once : ∀ runnable, w.copies runnable = if runnable < w.next then 1 else 0
  counted : w.inflight = w.counted

variable {w w' : IdleRun}

theorem conserves_new (workerCount : Nat) : Conserves (new workerCount) where
  once runnable := by
    have hworkers : (List.replicate workerCount Worker.waiting).flatMap Worker.held = [] := by
      rw [List.flatMap_eq_nil_iff]
      intro worker hworker
      obtain rfl := List.eq_of_mem_replicate hworker
      rfl
    simp only [copies, new, hworkers]
    rfl
  counted := by
    have hworkers : ((List.replicate workerCount Worker.waiting).map Worker.inflight).sum = 0 := by
      rw [List.map_replicate, List.sum_replicate]
      rfl
    simp only [IdleRun.counted, new, hworkers]
    rfl

section Conserving

variable (h : Conserves w)
include h

theorem Conserves.moved (hcopies : ∀ runnable, w'.copies runnable = w.copies runnable)
    (hnext : w'.next = w.next) (hcounted : w'.inflight = w'.counted) : Conserves w' where
  once runnable := by rw [hcopies, hnext, h.once]
  counted := hcounted

theorem Conserves.handedOut
    (hcopies : ∀ runnable, w'.copies runnable = w.copies runnable + [w.next].count runnable)
    (hnext : w'.next = w.next + 1) (hcounted : w'.inflight = w'.counted) : Conserves w' where
  once runnable := by
    rw [hcopies, hnext, h.once, List.count_singleton]
    by_cases hnew : w.next = runnable
    · subst hnew
      simp
    · have hiff : runnable < w.next + 1 ↔ runnable < w.next :=
        ⟨fun hlt => lt_of_le_of_ne (Nat.le_of_lt_succ hlt) (Ne.symm hnew), Nat.lt_succ_of_lt⟩
      simp only [hiff, beq_iff_eq, if_neg hnew, Nat.add_zero]
  counted := hcounted

theorem Conserves.dispatch (label : Option TaskLabel) : Conserves (w.dispatch label) := by
  refine h.handedOut (fun runnable => ?_) rfl ?_
  · simp only [copies, IdleRun.dispatch, List.map_append, List.map_cons, List.map_nil, List.count_append]
    omega
  · have hcounted := h.counted
    simp only [IdleRun.counted, IdleRun.dispatch, List.length_append, List.length_singleton] at hcounted ⊢
    omega

theorem Conserves.dispatchPush (ix : Nat) : Conserves (w.dispatchPush ix) := by
  unfold IdleRun.dispatchPush
  split
  · exact h
  · rename_i runnable priority hget
    have hpush := BackgroundQueue.push_perm priority runnable w.background
    have herase := perm_cons_eraseIdx hget
    refine h.moved (fun other => ?_) rfl ?_
    · have hin := hpush.count_eq other
      have hout := (herase.map Prod.fst).count_eq other
      simp only [copies, List.map_cons, List.count_cons] at hin hout ⊢
      omega
    · have hcounted := h.counted
      have hin := hpush.length_eq
      have hout := herase.length_eq
      simp only [IdleRun.counted, List.length_cons] at hcounted hin hout ⊢
      omega

theorem Conserves.dispatchOnMainThread : Conserves w.dispatchOnMainThread := by
  refine h.handedOut (fun runnable => ?_) rfl h.counted
  simp only [copies, IdleRun.dispatchOnMainThread, List.count_append]
  omega

theorem Conserves.dispatchAfter (duration : Nat) : Conserves (w.dispatchAfter duration) := by
  refine h.handedOut (fun runnable => ?_) rfl h.counted
  simp only [copies, IdleRun.dispatchAfter, TimerQueue.push, List.map_append, List.map_cons, List.map_nil,
    List.count_append]
  omega

theorem Conserves.timerPop : Conserves w.timerPop := by
  unfold IdleRun.timerPop
  split
  · rename_i entry hthread hpeek
    split_ifs
    · exact h
    · have herase := List.perm_cons_erase (TimerQueue.greatest_mem hpeek)
      refine h.moved (fun other => ?_) rfl ?_
      · have hout := (herase.map TimerEntry.runnable).count_eq other
        simp only [copies, hthread, TimerThread.held, List.map_cons, List.count_cons, List.count_nil]
          at hout ⊢
        omega
      · have hcounted := h.counted
        simp only [IdleRun.counted, hthread, TimerThread.inflight] at hcounted ⊢
        exact hcounted
  · exact h

theorem Conserves.timerIncrement : Conserves w.timerIncrement := by
  unfold IdleRun.timerIncrement
  split
  · rename_i entry hthread
    refine h.moved (fun other => ?_) rfl ?_
    · simp only [copies, hthread, TimerThread.held]
    · have hcounted := h.counted
      simp only [IdleRun.counted, hthread, TimerThread.inflight] at hcounted ⊢
      omega
  · exact h

theorem Conserves.timerPush : Conserves w.timerPush := by
  unfold IdleRun.timerPush
  split
  · rename_i entry hthread
    have hpush := BackgroundQueue.push_perm .medium entry.runnable w.background
    refine h.moved (fun other => ?_) rfl ?_
    · have hin := hpush.count_eq other
      simp only [copies, hthread, TimerThread.held, List.count_cons, List.count_nil] at hin ⊢
      omega
    · have hcounted := h.counted
      have hin := hpush.length_eq
      simp only [IdleRun.counted, hthread, TimerThread.inflight, List.length_cons] at hcounted hin ⊢
      omega
  · exact h

theorem Conserves.workerPop (ix : Nat) : Conserves (w.workerPop ix) := by
  unfold IdleRun.workerPop
  split
  · rename_i runnable background hworker hpop
    have hqueue := BackgroundQueue.pop_perm hpop
    refine h.moved (fun other => ?_) rfl ?_
    · have hout := hqueue.count_eq other
      have hin := count_flatMap_set Worker.held other (.running runnable) hworker
      simp only [copies, Worker.held, List.count_cons, List.count_nil] at hin hout ⊢
      omega
    · have hcounted := h.counted
      have hout := hqueue.length_eq
      have hin := sum_map_set Worker.inflight (.running runnable) hworker
      simp only [IdleRun.counted, Worker.inflight, List.length_cons] at hcounted hin hout ⊢
      omega
  · exact h

theorem Conserves.workerRun (ix : Nat) : Conserves (w.workerRun ix) := by
  unfold IdleRun.workerRun
  split
  · rename_i runnable hworker
    refine h.moved (fun other => ?_) rfl ?_
    · have hout := count_flatMap_set Worker.held other .guarded hworker
      simp only [copies, Worker.held, List.count_append, List.count_cons, List.count_nil] at hout ⊢
      omega
    · have hcounted := h.counted
      have hsame := sum_map_set Worker.inflight .guarded hworker
      simp only [IdleRun.counted, Worker.inflight] at hcounted hsame ⊢
      omega
  · exact h

/-- **The count does not underflow**, as the guard itself is counted. -/
theorem Conserves.workerDecrement (ix : Nat) : ∃ w', w.workerDecrement ix = some w' ∧ Conserves w' := by
  unfold IdleRun.workerDecrement
  split
  · rename_i hworker
    have hcounted := h.counted
    have hout := sum_map_set Worker.inflight .waiting hworker
    simp only [IdleRun.counted, Worker.inflight] at hcounted hout
    have hpos : 0 < w.inflight := by omega
    refine ⟨_, if_pos hpos, h.moved (fun other => ?_) rfl ?_⟩
    · have hsame := count_flatMap_set Worker.held other .waiting hworker
      simp only [copies, Worker.held, List.count_nil, Nat.add_zero] at hsame ⊢
      rw [hsame]
    · simp only [IdleRun.counted]
      omega
  · exact ⟨w, rfl, h⟩

theorem Conserves.popMain (untilIdle : Bool) {otherwise : MainThread}
    (hheld : w.mainThread.held = []) (hotherwise : otherwise.held = []) :
    Conserves (w.popMain untilIdle otherwise) := by
  unfold IdleRun.popMain
  split
  · refine h.moved (fun other => ?_) rfl h.counted
    simp only [copies, hheld, hotherwise]
  · rename_i runnable main hmain
    refine h.moved (fun other => ?_) rfl h.counted
    have htask : (MainThread.task runnable untilIdle).held = [runnable] := rfl
    simp only [copies, hmain, hheld, htask, List.count_cons, List.count_nil]
    omega

theorem Conserves.mainPop : Conserves w.mainPop := by
  unfold IdleRun.mainPop
  split
  · rename_i hthread
    exact h.popMain false (by rw [hthread]; rfl) rfl
  · rename_i hthread
    exact h.popMain true (by rw [hthread]; rfl) rfl
  · exact h

theorem Conserves.mainRun : Conserves w.mainRun := by
  unfold IdleRun.mainRun
  split
  · rename_i runnable untilIdle hthread
    refine h.moved (fun other => ?_) rfl h.counted
    have hheld : (if untilIdle then MainThread.loop else .outside).held = [] := by
      cases untilIdle <;> rfl
    have htask : (MainThread.task runnable untilIdle).held = [runnable] := rfl
    simp only [copies, hthread, hheld, htask, List.count_append, List.count_cons, List.count_nil]
    omega
  · exact h

theorem Conserves.runUntilIdle : Conserves w.runUntilIdle := by
  unfold IdleRun.runUntilIdle
  split_ifs with hthread
  · refine h.moved (fun other => ?_) rfl h.counted
    simp only [copies, hthread, MainThread.held]
  · exact h

theorem Conserves.peekTimers : Conserves w.peekTimers := by
  unfold IdleRun.peekTimers
  split
  · rename_i hthread
    refine h.moved (fun other => ?_) rfl h.counted
    simp only [copies, hthread, MainThread.held]
  · exact h

theorem Conserves.readClock : Conserves w.readClock := by
  unfold IdleRun.readClock
  split
  · rename_i deadline hthread
    refine h.moved (fun other => ?_) rfl h.counted
    have hheld : (if deadline.any (fun deadline => deadline ≤ w.now) then MainThread.loop
        else .check).held = [] := by
      split_ifs
      · rfl
      · rfl
    have hclock : (MainThread.clock deadline).held = [] := rfl
    simp only [copies, hthread, hheld, hclock]
  · exact h

theorem Conserves.checkIdle : Conserves w.checkIdle := by
  unfold IdleRun.checkIdle
  split
  · rename_i hthread
    split_ifs
    · refine h.moved (fun other => ?_) rfl h.counted
      simp only [copies, hthread, MainThread.held]
    · refine h.moved (fun other => ?_) rfl h.counted
      simp only [copies, hthread, MainThread.held]
    · refine h.moved (fun other => ?_) rfl h.counted
      simp only [copies, hthread, MainThread.held]
  · exact h

/-- **No step underflows the count**, and none loses or doubles a runnable. -/
theorem Conserves.step (act : IdleAct) : ∃ w', w.step act = some w' ∧ Conserves w' := by
  cases act with
  | dispatch label => exact ⟨_, rfl, h.dispatch label⟩
  | dispatchPush ix => exact ⟨_, rfl, h.dispatchPush ix⟩
  | dispatchOnMainThread => exact ⟨_, rfl, h.dispatchOnMainThread⟩
  | dispatchAfter duration => exact ⟨_, rfl, h.dispatchAfter duration⟩
  | elapse duration => exact ⟨_, rfl, h.moved (fun _ => rfl) rfl h.counted⟩
  | timerPop => exact ⟨_, rfl, h.timerPop⟩
  | timerIncrement => exact ⟨_, rfl, h.timerIncrement⟩
  | timerPush => exact ⟨_, rfl, h.timerPush⟩
  | workerPop ix => exact ⟨_, rfl, h.workerPop ix⟩
  | workerRun ix => exact ⟨_, rfl, h.workerRun ix⟩
  | workerDecrement ix => exact h.workerDecrement ix
  | runUntilIdle => exact ⟨_, rfl, h.runUntilIdle⟩
  | mainPop => exact ⟨_, rfl, h.mainPop⟩
  | mainRun => exact ⟨_, rfl, h.mainRun⟩
  | peekTimers => exact ⟨_, rfl, h.peekTimers⟩
  | readClock => exact ⟨_, rfl, h.readClock⟩
  | checkIdle => exact ⟨_, rfl, h.checkIdle⟩

end Conserving

/-! ### What the main thread knows -/

/-- The timers that are not counted yet. -/
def uncounted (w : IdleRun) : List TimerEntry :=
  w.timers.heap ++ match w.timerThread with
    | .popped entry => [entry]
    | _ => []

/-- What is ahead of the main thread, of the timers that were due when it looked. -/
def Ahead (w : IdleRun) : Prop :=
  match w.mainThread with
  | .clock deadline =>
    ∀ entry ∈ w.timers.heap, entry ∈ w.dueAtCheck → ∃ due, deadline = some due ∧ due ≤ w.now
  | .check => ∀ entry ∈ w.timers.heap, entry ∉ w.dueAtCheck
  | _ => True

structure Looks (w : IdleRun) : Prop where
  dispatched_lt : ∀ runnable ∈ w.dispatched, runnable < w.next
  set_lt : ∀ entry ∈ w.set, entry.runnable < w.next
  set_inj : ∀ entry ∈ w.set, ∀ other ∈ w.set, entry.runnable = other.runnable → entry = other
  apart : ∀ entry ∈ w.set, entry.runnable ∉ w.dispatched
  uncounted : ∀ entry ∈ w.uncounted, entry ∈ w.set
  due : ∀ entry ∈ w.dueAtCheck, entry ∈ w.set
  ahead : w.Ahead

theorem looks_new (workerCount : Nat) : Looks (new workerCount) where
  dispatched_lt := nofun
  set_lt := nofun
  set_inj := nofun
  apart := nofun
  uncounted := nofun
  due := nofun
  ahead := trivial

theorem Ahead.shrink (h : w.Ahead) (hthread : w'.mainThread = w.mainThread)
    (hheap : ∀ entry ∈ w'.timers.heap, entry ∈ w.dueAtCheck → entry ∈ w.timers.heap)
    (hdue : w'.dueAtCheck = w.dueAtCheck) (hnow : w.now ≤ w'.now) : w'.Ahead := by
  unfold Ahead at h ⊢
  rw [hthread, hdue]
  cases hmain : w.mainThread with
  | clock deadline =>
    rw [hmain] at h
    intro entry hentry hmem
    obtain ⟨due, hsome, hle⟩ := h entry (hheap entry hentry hmem) hmem
    exact ⟨due, hsome, hle.trans hnow⟩
  | check =>
    rw [hmain] at h
    intro entry hentry hmem
    exact h entry (hheap entry hentry hmem) hmem
  | outside => trivial
  | loop => trivial
  | task runnable untilIdle => trivial
  | timers => trivial

section Looking

variable (h : Looks w)
include h

theorem Looks.dispatched :
    Looks { w with next := w.next + 1, dispatched := w.dispatched ++ [w.next] } where
  dispatched_lt runnable hmem := by
    rcases List.mem_append.mp hmem with hmem | hmem
    · exact Nat.lt_succ_of_lt (h.dispatched_lt runnable hmem)
    · obtain rfl := List.mem_singleton.mp hmem
      exact Nat.lt_succ_self _
  set_lt entry hmem := Nat.lt_succ_of_lt (h.set_lt entry hmem)
  set_inj := h.set_inj
  apart entry hentry hmem := by
    rcases List.mem_append.mp hmem with hmem | hmem
    · exact h.apart entry hentry hmem
    · exact absurd (List.mem_singleton.mp hmem) (h.set_lt entry hentry).ne
  uncounted := h.uncounted
  due := h.due
  ahead := h.ahead

theorem Looks.dispatchAfter (duration : Nat) : Looks (w.dispatchAfter duration) where
  dispatched_lt runnable hmem := Nat.lt_succ_of_lt (h.dispatched_lt runnable hmem)
  set_lt entry hmem := by
    rcases List.mem_append.mp hmem with hmem | hmem
    · exact Nat.lt_succ_of_lt (h.set_lt entry hmem)
    · obtain rfl := List.mem_singleton.mp hmem
      exact Nat.lt_succ_self _
  set_inj entry hentry other hother heq := by
    rcases List.mem_append.mp hentry with hentry | hentry
    · rcases List.mem_append.mp hother with hother | hother
      · exact h.set_inj entry hentry other hother heq
      · obtain rfl := List.mem_singleton.mp hother
        exact absurd heq (h.set_lt entry hentry).ne
    · obtain rfl := List.mem_singleton.mp hentry
      rcases List.mem_append.mp hother with hother | hother
      · exact absurd heq.symm (h.set_lt other hother).ne
      · exact (List.mem_singleton.mp hother).symm
  apart entry hentry hmem := by
    rcases List.mem_append.mp hentry with hentry | hentry
    · exact h.apart entry hentry hmem
    · obtain rfl := List.mem_singleton.mp hentry
      exact (h.dispatched_lt _ hmem).ne rfl
  uncounted entry hmem := by
    rcases List.mem_append.mp hmem with hmem | hmem
    · rcases List.mem_append.mp hmem with hmem | hmem
      · exact List.mem_append_left _ (h.uncounted entry (List.mem_append_left _ hmem))
      · exact List.mem_append_right _ hmem
    · exact List.mem_append_left _ (h.uncounted entry (List.mem_append_right _ hmem))
  due entry hmem := List.mem_append_left _ (h.due entry hmem)
  ahead := by
    refine h.ahead.shrink rfl (fun entry hentry hdue => ?_) rfl le_rfl
    rcases List.mem_append.mp hentry with hentry | hentry
    · exact hentry
    · -- the timer is newer than the look
      obtain rfl := List.mem_singleton.mp hentry
      exact absurd rfl (h.set_lt _ (h.due _ hdue)).ne

theorem Looks.elapse (duration : Nat) : Looks { w with now := w.now + duration } :=
  { h with ahead := h.ahead.shrink rfl (fun _ hentry _ => hentry) rfl (Nat.le_add_right _ _) }

theorem Looks.timerPop : Looks w.timerPop := by
  unfold IdleRun.timerPop
  split
  · rename_i entry hthread hpeek
    split_ifs
    · exact h
    · refine { h with uncounted := fun other hmem => ?_, ahead := ?_ }
      · have hold : other ∈ w.timers.heap := by
          rcases List.mem_append.mp hmem with hmem | hmem
          · exact List.mem_of_mem_erase hmem
          · obtain rfl := List.mem_singleton.mp hmem
            exact TimerQueue.greatest_mem hpeek
        exact h.uncounted other (List.mem_append_left _ hold)
      · exact h.ahead.shrink rfl (fun _ hentry _ => List.mem_of_mem_erase hentry) rfl le_rfl
  · exact h

theorem Looks.timerIncrement : Looks w.timerIncrement := by
  unfold IdleRun.timerIncrement
  split
  · refine { h with uncounted := fun other hmem => ?_ }
    rcases List.mem_append.mp hmem with hmem | hmem
    · exact h.uncounted other (List.mem_append_left _ hmem)
    · cases hmem
  · exact h

theorem Looks.timerPush : Looks w.timerPush := by
  unfold IdleRun.timerPush
  split
  · refine { h with uncounted := fun other hmem => ?_ }
    rcases List.mem_append.mp hmem with hmem | hmem
    · exact h.uncounted other (List.mem_append_left _ hmem)
    · cases hmem
  · exact h

theorem Looks.workerPop (ix : Nat) : Looks (w.workerPop ix) := by
  unfold IdleRun.workerPop
  split
  · exact { h with }
  · exact h

theorem Looks.workerRun (ix : Nat) : Looks (w.workerRun ix) := by
  unfold IdleRun.workerRun
  split
  · exact { h with }
  · exact h

theorem Looks.workerDecrement {ix : Nat} (hstep : w.workerDecrement ix = some w') : Looks w' := by
  unfold IdleRun.workerDecrement at hstep
  split at hstep
  · split_ifs at hstep
    obtain rfl := Option.some.inj hstep
    exact { h with }
  · obtain rfl := Option.some.inj hstep
    exact h

theorem Looks.dispatchPush (ix : Nat) : Looks (w.dispatchPush ix) := by
  unfold IdleRun.dispatchPush
  split
  · exact h
  · exact { h with }

theorem Looks.popMain (untilIdle : Bool) {otherwise : MainThread}
    (hotherwise : otherwise = .outside ∨ otherwise = .timers) : Looks (w.popMain untilIdle otherwise) := by
  unfold IdleRun.popMain
  split
  · rcases hotherwise with rfl | rfl
    · exact { h with ahead := trivial }
    · exact { h with ahead := trivial }
  · exact { h with ahead := trivial }

theorem Looks.mainPop : Looks w.mainPop := by
  unfold IdleRun.mainPop
  split
  · exact h.popMain false (Or.inl rfl)
  · exact h.popMain true (Or.inr rfl)
  · exact h

theorem Looks.mainRun : Looks w.mainRun := by
  unfold IdleRun.mainRun
  split
  · rename_i runnable untilIdle _
    cases untilIdle with
    | true => exact { h with ahead := trivial }
    | false => exact { h with ahead := trivial }
  · exact h

theorem Looks.runUntilIdle : Looks w.runUntilIdle := by
  unfold IdleRun.runUntilIdle
  split_ifs
  · exact { h with ahead := trivial }
  · exact h

theorem Looks.peekTimers : Looks w.peekTimers := by
  unfold IdleRun.peekTimers
  split
  · refine { h with due := fun entry hmem => List.mem_of_mem_filter hmem, ahead := ?_ }
    intro entry hentry hmem
    have hdue : entry.due ≤ w.now := of_decide_eq_true (List.mem_filter.mp hmem).2
    obtain ⟨least, hleast, hle⟩ := TimerQueue.exists_greatest hentry
    refine ⟨least.due, ?_, hle.trans hdue⟩
    rw [TimerQueue.peek, hleast]
    rfl
  · exact h

theorem Looks.readClock : Looks w.readClock := by
  unfold IdleRun.readClock
  split
  · rename_i deadline hthread
    split_ifs with hany
    · exact { h with ahead := trivial }
    · refine { h with ahead := ?_ }
      intro entry hentry hmem
      have hahead := h.ahead
      rw [Ahead, hthread] at hahead
      obtain ⟨due, rfl, hle⟩ := hahead entry hentry hmem
      exact hany (decide_eq_true hle)
  · exact h

theorem Looks.checkIdle : Looks w.checkIdle := by
  unfold IdleRun.checkIdle
  split
  · split_ifs
    · exact { h with ahead := trivial }
    · exact { h with ahead := trivial }
    · exact { h with ahead := trivial }
  · exact h

theorem Looks.step {act : IdleAct} (hstep : w.step act = some w') : Looks w' := by
  cases act with
  | workerDecrement ix => exact h.workerDecrement hstep
  | dispatch label =>
    cases hstep
    exact { h.dispatched with }
  | dispatchPush ix =>
    cases hstep
    exact h.dispatchPush ix
  | dispatchOnMainThread =>
    cases hstep
    exact { h.dispatched with }
  | dispatchAfter duration =>
    cases hstep
    exact h.dispatchAfter duration
  | elapse duration =>
    cases hstep
    exact h.elapse duration
  | timerPop =>
    cases hstep
    exact h.timerPop
  | timerIncrement =>
    cases hstep
    exact h.timerIncrement
  | timerPush =>
    cases hstep
    exact h.timerPush
  | workerPop ix =>
    cases hstep
    exact h.workerPop ix
  | workerRun ix =>
    cases hstep
    exact h.workerRun ix
  | runUntilIdle =>
    cases hstep
    exact h.runUntilIdle
  | mainPop =>
    cases hstep
    exact h.mainPop
  | mainRun =>
    cases hstep
    exact h.mainRun
  | peekTimers =>
    cases hstep
    exact h.peekTimers
  | readClock =>
    cases hstep
    exact h.readClock
  | checkIdle =>
    cases hstep
    exact h.checkIdle

end Looking

/-! ### What a return vouches for -/

/-- The last look of `run_until_idle` finds nothing to wait for. -/
def Returns (w : IdleRun) : Prop := w.mainThread = .check ∧ w.main = [] ∧ w.inflight = 0

/-- The timer thread has taken a timer from the heap and has not counted it, and the timer was due
when the main thread looked at the heap. -/
def Uncounted (w : IdleRun) : Prop := ∃ entry ∈ w.dueAtCheck, w.timerThread = .popped entry

/-- `run_until_idle` does not return there. -/
def ReturnsCounted (w : IdleRun) (act : IdleAct) : Prop := act = .checkIdle → w.Returns → ¬ w.Uncounted

/-- Whatever a call that has returned had to wait for has been run to its end. -/
def Finished (w : IdleRun) : Prop := ∀ runnable ∈ w.owed, runnable ∈ w.completed

/-- Nobody has a runnable in hand where nothing is in flight. -/
theorem held_of_inflight {workers : List Worker} (h : (workers.map Worker.inflight).sum = 0) :
    workers.flatMap Worker.held = [] := by
  rw [List.flatMap_eq_nil_iff]
  intro worker hmem
  have hzero : worker.inflight = 0 :=
    List.sum_eq_zero_iff.mp h _ (List.mem_map_of_mem hmem)
  cases worker with
  | waiting => rfl
  | running runnable => cases hzero
  | guarded => cases hzero

/-- **Where `run_until_idle` returns**, a runnable has been run to its end, or is a timer that is not
counted. -/
theorem Conserves.found (h : Conserves w) (hret : w.Returns) {runnable : Runnable}
    (hlt : runnable < w.next) :
    runnable ∈ w.completed ∨ ∃ entry ∈ w.uncounted, entry.runnable = runnable := by
  obtain ⟨hthread, hmain, hzero⟩ := hret
  have honce := h.once runnable
  have hcounted := h.counted
  rw [if_pos hlt] at honce
  rw [hzero] at hcounted
  simp only [IdleRun.counted] at hcounted
  have hdispatching : w.dispatching = [] := List.eq_nil_of_length_eq_zero (by omega)
  have hqueue : w.background.all = [] := List.eq_nil_of_length_eq_zero (by omega)
  have hworkers : w.workers.flatMap Worker.held = [] := held_of_inflight (by omega)
  by_contra hnot
  obtain ⟨hcompleted, huncounted⟩ := not_or.mp hnot
  have hheap : runnable ∉ w.timers.heap.map TimerEntry.runnable := by
    intro hmem
    obtain ⟨entry, hentry, heq⟩ := List.mem_map.mp hmem
    exact huncounted ⟨entry, List.mem_append_left _ hentry, heq⟩
  have htimer : runnable ∉ w.timerThread.held := by
    intro hmem
    cases htimer : w.timerThread with
    | waiting =>
      rw [htimer] at hmem
      cases hmem
    | popped entry =>
      rw [htimer] at hmem
      refine huncounted ⟨entry, List.mem_append_right _ ?_, (List.mem_singleton.mp hmem).symm⟩
      rw [htimer]
      exact List.mem_singleton_self entry
    | counted entry =>
      rw [htimer, TimerThread.inflight] at hcounted
      omega
  rw [copies, hmain, hqueue, hworkers, hdispatching, hthread, List.count_eq_zero.mpr hheap,
    List.count_eq_zero.mpr htimer, List.count_eq_zero.mpr hcompleted] at honce
  cases honce

theorem Conserves.popped_notMem (h : Conserves w) {entry : TimerEntry}
    (hthread : w.timerThread = .popped entry) : entry.runnable ∉ w.completed := by
  intro hmem
  have honce := h.once entry.runnable
  have hpos := List.count_pos_iff.mpr hmem
  have hheld : w.timerThread.held.count entry.runnable = 1 := by
    rw [hthread]
    exact List.count_singleton_self
  rw [copies, hheld] at honce
  split_ifs at honce
  · omega
  · omega

/-- What has been run stays so, and nothing more is owed. -/
def Keeps (w w' : IdleRun) : Prop :=
  w'.owed = w.owed ∧ ∀ runnable ∈ w.completed, runnable ∈ w'.completed

theorem Keeps.refl (w : IdleRun) : Keeps w w := ⟨rfl, fun _ h => h⟩

theorem keeps_popMain (w : IdleRun) (untilIdle : Bool) (otherwise : MainThread) :
    Keeps w (w.popMain untilIdle otherwise) := by
  unfold popMain
  split
  · exact ⟨rfl, fun _ h => h⟩
  · exact ⟨rfl, fun _ h => h⟩

theorem keeps_timerPop (w : IdleRun) : Keeps w w.timerPop := by
  unfold timerPop
  split
  · split_ifs
    · exact Keeps.refl w
    · exact ⟨rfl, fun _ h => h⟩
  · exact Keeps.refl w

/-- **Nothing is owed but by a return.** -/
theorem keeps_step {act : IdleAct} (hstep : w.step act = some w') (hact : act ≠ .checkIdle) :
    Keeps w w' := by
  cases act with
  | dispatch label =>
    cases hstep
    exact ⟨rfl, fun _ h => h⟩
  | dispatchPush ix =>
    cases hstep
    unfold IdleRun.dispatchPush
    split
    · exact Keeps.refl w
    · exact ⟨rfl, fun _ h => h⟩
  | dispatchOnMainThread =>
    cases hstep
    exact ⟨rfl, fun _ h => h⟩
  | dispatchAfter duration =>
    cases hstep
    exact ⟨rfl, fun _ h => h⟩
  | elapse duration =>
    cases hstep
    exact ⟨rfl, fun _ h => h⟩
  | timerPop =>
    cases hstep
    exact keeps_timerPop w
  | timerIncrement =>
    cases hstep
    unfold IdleRun.timerIncrement
    split
    · exact ⟨rfl, fun _ h => h⟩
    · exact Keeps.refl w
  | timerPush =>
    cases hstep
    unfold IdleRun.timerPush
    split
    · exact ⟨rfl, fun _ h => h⟩
    · exact Keeps.refl w
  | workerPop ix =>
    cases hstep
    unfold IdleRun.workerPop
    split
    · exact ⟨rfl, fun _ h => h⟩
    · exact Keeps.refl w
  | workerRun ix =>
    cases hstep
    unfold IdleRun.workerRun
    split
    · exact ⟨rfl, fun _ h => List.mem_append_left _ h⟩
    · exact Keeps.refl w
  | workerDecrement ix =>
    replace hstep : w.workerDecrement ix = some w' := hstep
    unfold IdleRun.workerDecrement at hstep
    split at hstep
    · split_ifs at hstep
      obtain rfl := Option.some.inj hstep
      exact ⟨rfl, fun _ h => h⟩
    · obtain rfl := Option.some.inj hstep
      exact Keeps.refl w
  | runUntilIdle =>
    cases hstep
    unfold IdleRun.runUntilIdle
    split_ifs
    · exact ⟨rfl, fun _ h => h⟩
    · exact Keeps.refl w
  | mainPop =>
    cases hstep
    unfold IdleRun.mainPop
    split
    · exact keeps_popMain w false .outside
    · exact keeps_popMain w true .timers
    · exact Keeps.refl w
  | mainRun =>
    cases hstep
    unfold IdleRun.mainRun
    split
    · exact ⟨rfl, fun _ h => List.mem_append_left _ h⟩
    · exact Keeps.refl w
  | peekTimers =>
    cases hstep
    unfold IdleRun.peekTimers
    split
    · exact ⟨rfl, fun _ h => h⟩
    · exact Keeps.refl w
  | readClock =>
    cases hstep
    unfold IdleRun.readClock
    split
    · exact ⟨rfl, fun _ h => h⟩
    · exact Keeps.refl w
  | checkIdle => exact absurd rfl hact

theorem checkIdle_of_returns (h : w.Returns) :
    w.checkIdle = { w with
      mainThread := .outside
      owed := w.owed ++ (w.dispatched ++ w.dueAtCheck.map TimerEntry.runnable) } := by
  obtain ⟨hthread, hmain, hzero⟩ := h
  unfold checkIdle
  rw [hthread]
  dsimp only
  rw [if_neg (not_not.mpr hmain), if_pos hzero]

theorem keeps_checkIdle (h : ¬ w.Returns) : Keeps w w.checkIdle := by
  unfold checkIdle
  split
  · rename_i hthread
    split_ifs with hmain hzero
    · exact ⟨rfl, fun _ h => h⟩
    · exact absurd ⟨hthread, not_not.mp hmain, hzero⟩ h
    · exact ⟨rfl, fun _ h => h⟩
  · exact Keeps.refl w

theorem finished_return (hc : Conserves w) (hl : Looks w) (hgood : w.Finished) (hret : w.Returns) :
    (∀ runnable ∈ w.owed ++ (w.dispatched ++ w.dueAtCheck.map TimerEntry.runnable),
      runnable ∈ w.completed) ↔ ¬ w.Uncounted := by
  constructor
  · rintro hall ⟨entry, hdue, hthread⟩
    have hmem : entry.runnable ∈ w.dueAtCheck.map TimerEntry.runnable := List.mem_map_of_mem hdue
    exact hc.popped_notMem hthread
      (hall _ (List.mem_append_right _ (List.mem_append_right _ hmem)))
  · intro hcounted runnable hmem
    rcases List.mem_append.mp hmem with hmem | hmem
    · exact hgood runnable hmem
    · rcases List.mem_append.mp hmem with hmem | hmem
      · rcases hc.found hret (hl.dispatched_lt runnable hmem) with hdone | ⟨entry, hentry, rfl⟩
        · exact hdone
        · exact absurd hmem (hl.apart entry (hl.uncounted entry hentry))
      · obtain ⟨due, hdue, rfl⟩ := List.mem_map.mp hmem
        have hset := hl.due due hdue
        rcases hc.found hret (hl.set_lt due hset) with hdone | ⟨entry, hentry, heq⟩
        · exact hdone
        · obtain rfl := hl.set_inj entry (hl.uncounted entry hentry) due hset heq
          exfalso
          rcases List.mem_append.mp hentry with hheap | hheld
          · have hahead := hl.ahead
            rw [Ahead, hret.1] at hahead
            exact hahead entry hheap hdue
          · cases hthread : w.timerThread with
            | popped other =>
              rw [hthread] at hheld
              obtain rfl := List.mem_singleton.mp hheld
              exact hcounted ⟨entry, hdue, hthread⟩
            | waiting =>
              rw [hthread] at hheld
              cases hheld
            | counted other =>
              rw [hthread] at hheld
              cases hheld

theorem Finished.keeps (h : w.Finished) (hkeeps : Keeps w w') : w'.Finished := by
  intro runnable hmem
  rw [hkeeps.1] at hmem
  exact hkeeps.2 runnable (h runnable hmem)

theorem finished_step_iff (hc : Conserves w) (hl : Looks w) (hgood : w.Finished) {act : IdleAct}
    (hstep : w.step act = some w') : w'.Finished ↔ w.ReturnsCounted act := by
  by_cases hact : act = .checkIdle
  · subst hact
    cases hstep
    by_cases hret : w.Returns
    · rw [checkIdle_of_returns hret]
      have hiff := finished_return hc hl hgood hret
      exact ⟨fun hall _ _ => hiff.mp hall, fun hcond => hiff.mpr (hcond rfl hret)⟩
    · exact ⟨fun _ _ h => absurd h hret, fun _ => hgood.keeps (keeps_checkIdle hret)⟩
  · exact ⟨fun _ h => absurd h hact, fun _ => hgood.keeps (keeps_step hstep hact)⟩

theorem run_conserves (acts : List IdleAct) : ∀ {w : IdleRun}, Conserves w →
    ∃ w', FcGpui.run step w acts = some w' := by
  induction acts with
  | nil => exact fun _ => ⟨_, rfl⟩
  | cons act acts ih =>
    intro w h
    obtain ⟨mid, hmid, hconserves⟩ := h.step act
    obtain ⟨w', hw'⟩ := ih hconserves
    refine ⟨w', ?_⟩
    rw [FcGpui.run, hmid]
    exact hw'

/-- **`run_until_idle` overlooks nothing**, in the runs in which it does not return while a timer that
was due is between the heap and the count, and in no others.  The count never underflows. -/
theorem runUntilIdle_iff (workerCount : Nat) (acts : List IdleAct) :
    (∃ w, FcGpui.run step (new workerCount) acts = some w) ∧
      (Throughout step Finished (new workerCount) acts ↔
        RunMeets step ReturnsCounted (new workerCount) acts) := by
  obtain ⟨w, hrun⟩ := run_conserves acts (conserves_new workerCount)
  refine ⟨⟨w, hrun⟩, ?_⟩
  have hinv : ∀ w act w', Conserves w ∧ Looks w → step w act = some w' → Conserves w' ∧ Looks w' := by
    rintro w act w' ⟨hc, hl⟩ hstep
    obtain ⟨_, hstep', hc'⟩ := hc.step act
    obtain rfl := Option.some.inj (hstep.symm.trans hstep')
    exact ⟨hc', hl.step hstep⟩
  have hgood : ∀ w act w', Conserves w ∧ Looks w → w.Finished → step w act = some w' →
      (w'.Finished ↔ w.ReturnsCounted act) := by
    rintro w act w' ⟨hc, hl⟩ hgood hstep
    exact finished_step_iff hc hl hgood hstep
  exact throughout_iff hinv hgood acts ⟨conserves_new workerCount, looks_new workerCount⟩ nofun hrun

/-- The timer thread has popped a timer when `run_until_idle` begins, and counts it when it is over. -/
theorem not_runUntilIdle : ¬ ∀ (workerCount : Nat) (acts : List IdleAct),
    (∃ w, FcGpui.run step (new workerCount) acts = some w) ∧
      Throughout step Finished (new workerCount) acts := by
  intro h
  have hall := (h 2 [.dispatchAfter 5, .elapse 6, .timerPop, .runUntilIdle, .mainPop, .peekTimers,
    .readClock, .checkIdle]).2
  have hlast := hall.last _ rfl
  exact absurd (hlast 0 (by decide)) (by decide)

end IdleRun

end FcGpui
