import FcGpui.Lib.Machine
import FcGpui.Platform.Profiler

/-!
# What the profiler's collector reports

The timings in a buffer are the last of those that its count counts, so each stands at a place:
`Tracks` says of every buffer which places the collector has seen.  What is reported has been below
the cursor since, so that nothing is reported twice.  What is below the cursor has been reported,
unless the buffer was emptied and the count begun anew behind the collector's back.

**Main results.**  `collector_iff` and `not_collector`.
-/

namespace FcGpui

inductive ProfilerAct
  | setEnabled (enabled : Bool)
  | recordStart (location : Location) (now : Nat)
  /-- The task of a handle ends in a thread. -/
  | recordEnd (thread : Thread) (handle : Nat) (status : TaskTimingStatus) (now : Nat)
  | threadExit (threadId : Nat)
  | collect
deriving DecidableEq, Repr

/-- The profiler, its collector and the handles in use.  `exited` are the threads that are gone, whose
ids are not given again; `pushed` numbers the pushes, of which `reported` were in some delta and
`missed` in a buffer that was collected, and in no delta till then.  `cleared` is whether the buffers
have been emptied since they were last collected. -/
structure ProfilerRun where
  profiler : Profiler
  collector : ProfilingCollector
  handles : List TaskTimingHandle
  exited : List Nat
  pushed : Nat
  reported : List Nat
  missed : List Nat
  cleared : Bool

namespace ProfilerRun

def new (startupTime : Nat) : ProfilerRun := ⟨.new, .new startupTime, [], [], 0, [], [], false⟩

/-- The pushes whose timings are in a buffer. -/
def inBuffers (w : ProfilerRun) : List Nat :=
  w.profiler.live.flatMap fun timings => timings.timings.map TaskTiming.push

/-- The pushes whose timings are in a delta. -/
def inDeltas (deltas : List ThreadTimingsDelta) : List Nat :=
  deltas.flatMap fun delta => delta.newTimings.map SerializedTaskTiming.push

def collect (w : ProfilerRun) : ProfilerRun :=
  let result := profilerCollectTimings w.profiler w.collector
  { w with
    collector := result.1
    reported := w.reported ++ inDeltas result.2
    missed := w.missed ++ w.inBuffers.filter fun push => push ∉ w.reported ++ inDeltas result.2
    cleared := false }

def step (maxTaskTimings : Nat) (w : ProfilerRun) : ProfilerAct → Option ProfilerRun
  | .setEnabled enabled =>
    some
      { w with
        profiler := (w.profiler.setEnabled enabled).2
        cleared := w.cleared || (w.profiler.setEnabled enabled).1 && !enabled }
  | .recordStart location now =>
    some { w with handles := w.handles ++ (w.profiler.recordStart location now).toList }
  | .recordEnd thread handleIx status now =>
    if thread.id ∈ w.exited then none
    else w.handles[handleIx]?.map fun handle =>
      { w with
        profiler := w.profiler.recordEnd maxTaskTimings thread handle status now w.pushed
        handles := w.handles.eraseIdx handleIx
        pushed := w.pushed + 1 }
  | .threadExit threadId =>
    some { w with profiler := w.profiler.threadExit threadId, exited := threadId :: w.exited }
  | .collect => some w.collect

/-- No timing is in two deltas, and none was in a buffer that was collected and in no delta. -/
def Complete (w : ProfilerRun) : Prop := w.reported.Nodup ∧ w.missed = []

instance : DecidablePred Complete := fun w =>
  inferInstanceAs (Decidable (w.reported.Nodup ∧ w.missed = []))

/-- The cursors are behind what is in the buffers, if these have been emptied since. -/
def CursorsBehind (w : ProfilerRun) (act : ProfilerAct) : Prop :=
  act = .collect → w.cleared = true → ∀ timings ∈ w.profiler.live,
    timings.timings = [] ∨
      w.collector.previousCursor timings.threadId ≤ timings.totalPushed - timings.timings.length

instance (w : ProfilerRun) (act : ProfilerAct) : Decidable (CursorsBehind w act) :=
  inferInstanceAs (Decidable (act = .collect → w.cleared = true → ∀ timings ∈ w.profiler.live,
    timings.timings = [] ∨
      w.collector.previousCursor timings.threadId ≤ timings.totalPushed - timings.timings.length))

/-! ### One buffer -/

/-- What a collector with `cursor` has seen of a buffer: the timing at `i` is the one at the place
`totalPushed - timings.length + i`. -/
structure Seen (cursor pushed : Nat) (reported missed : List Nat) (cleared : Bool)
    (state : ThreadTimingState) : Prop where
  fits : state.timings.length ≤ state.totalPushed
  nodup : (state.timings.map TaskTiming.push).Nodup
  known : ∀ timing ∈ state.timings, timing.push < pushed
  once : ∀ (i : Nat) (timing : TaskTiming), state.timings[i]? = some timing →
    timing.push ∈ reported → state.totalPushed - state.timings.length + i < cursor
  behind : cleared = false → cursor ≤ state.totalPushed
  below : cleared = false → ∀ (i : Nat) (timing : TaskTiming), state.timings[i]? = some timing →
    state.totalPushed - state.timings.length + i < cursor →
      timing.push ∈ reported ∨ timing.push ∈ missed
  fresh : cleared = true → ∀ timing ∈ state.timings, timing.push ∉ reported

section Seen

variable {cursor pushed : Nat} {reported missed : List Nat} {cleared : Bool}
  {state : ThreadTimingState}

theorem seen_new (name : Option String) (threadId : Nat) :
    Seen 0 pushed reported missed cleared (.new name threadId) where
  fits := Nat.zero_le _
  nodup := List.nodup_nil
  known := fun _ h => absurd h List.not_mem_nil
  once := fun i _ h => by simp [ThreadTimingState.new] at h
  behind := fun _ => Nat.zero_le _
  below := fun _ i _ h => by simp [ThreadTimingState.new] at h
  fresh := fun _ _ h => absurd h List.not_mem_nil

theorem seen_clear (cursor : Nat) (state : ThreadTimingState) :
    Seen cursor pushed reported missed true state.clear where
  fits := Nat.zero_le _
  nodup := List.nodup_nil
  known := fun _ h => absurd h List.not_mem_nil
  once := fun i _ h => by simp [ThreadTimingState.clear] at h
  behind := fun h => by cases h
  below := fun h => by cases h
  fresh := fun _ _ h => absurd h List.not_mem_nil

theorem Seen.mono (h : Seen cursor pushed reported missed cleared state) :
    Seen cursor (pushed + 1) reported missed cleared state :=
  { h with known := fun timing hmem => Nat.lt_succ_of_lt (h.known timing hmem) }

theorem mem_push {maxTaskTimings : Nat} {timing t : TaskTiming}
    (h : t ∈ (state.push maxTaskTimings timing).timings) : t ∈ state.timings ∨ t = timing := by
  rcases List.mem_append.mp h with h | h
  · exact Or.inl (List.mem_of_mem_drop h)
  · exact Or.inr (List.mem_singleton.mp h)

theorem getElem?_push {maxTaskTimings : Nat} {timing : TaskTiming} {i : Nat} {t : TaskTiming}
    (hfits : state.timings.length ≤ state.totalPushed)
    (h : (state.push maxTaskTimings timing).timings[i]? = some t) :
    (t = timing ∧ (state.push maxTaskTimings timing).totalPushed -
        (state.push maxTaskTimings timing).timings.length + i = state.totalPushed) ∨
      ∃ j, state.timings[j]? = some t ∧ (state.push maxTaskTimings timing).totalPushed -
        (state.push maxTaskTimings timing).timings.length + i =
          state.totalPushed - state.timings.length + j := by
  have hlen : (state.push maxTaskTimings timing).timings.length =
      state.timings.length - (state.timings.length + 1 - maxTaskTimings) + 1 := by
    simp [ThreadTimingState.push]
  have htotal : (state.push maxTaskTimings timing).totalPushed = state.totalPushed + 1 := rfl
  obtain ⟨dropped, hdropped⟩ : ∃ dropped, dropped = state.timings.length + 1 - maxTaskTimings := ⟨_, rfl⟩
  rw [← hdropped] at hlen
  rw [hlen, htotal]
  rw [ThreadTimingState.push, ← hdropped] at h
  by_cases hi : i < state.timings.length - dropped
  · rw [List.getElem?_append_left (by rw [List.length_drop]; exact hi), List.getElem?_drop] at h
    exact Or.inr ⟨dropped + i, h, by omega⟩
  · rw [List.getElem?_append_right (by rw [List.length_drop]; omega), List.length_drop] at h
    have hzero : i - (state.timings.length - dropped) = 0 := by
      by_contra hne
      rw [List.getElem?_eq_none (by rw [List.length_singleton]; omega)] at h
      cases h
    rw [hzero] at h
    exact Or.inl ⟨(Option.some.inj h).symm, by omega⟩

theorem Seen.push (h : Seen cursor pushed reported missed cleared state) (maxTaskTimings : Nat)
    {timing : TaskTiming} (hnew : timing.push = pushed) (hreported : ∀ push ∈ reported, push < pushed) :
    Seen cursor (pushed + 1) reported missed cleared (state.push maxTaskTimings timing) := by
  have hunreported : timing.push ∉ reported := by
    intro hmem
    exact absurd (hreported _ hmem) (by omega)
  constructor
  · have := h.fits
    simp only [ThreadTimingState.push, List.length_append, List.length_drop, List.length_singleton]
    omega
  · rw [ThreadTimingState.push, List.map_append, List.nodup_append]
    refine ⟨(h.nodup.sublist ((List.drop_sublist _ _).map _)), List.nodup_singleton _, ?_⟩
    intro push hpush push' hpush'
    obtain ⟨t, ht, rfl⟩ := List.mem_map.mp hpush
    have hlt := h.known t (List.mem_of_mem_drop ht)
    have heq : push' = timing.push := by simpa using hpush'
    omega
  · intro t ht
    rcases mem_push ht with ht | rfl
    · exact Nat.lt_succ_of_lt (h.known t ht)
    · omega
  · intro i t ht hmem
    rcases getElem?_push h.fits ht with ⟨rfl, -⟩ | ⟨j, hj, hplace⟩
    · exact absurd hmem hunreported
    · rw [hplace]
      exact h.once j t hj hmem
  · intro hcleared
    have := h.behind hcleared
    exact Nat.le_succ_of_le this
  · intro hcleared i t ht hlt
    rcases getElem?_push h.fits ht with ⟨rfl, hplace⟩ | ⟨j, hj, hplace⟩
    · have := h.behind hcleared
      omega
    · rw [hplace] at hlt
      exact h.below hcleared j t hj hlt
  · intro hcleared t ht
    rcases mem_push ht with ht | rfl
    · exact h.fresh hcleared t ht
    · exact hunreported

end Seen

/-! ### All buffers -/

section Live

variable {profiler : Profiler}

theorem live_clearAllTimings (profiler : Profiler) :
    profiler.clearAllTimings.live = profiler.live.map ThreadTimingState.clear := by
  rw [Profiler.live, Profiler.live, Profiler.clearAllTimings, List.filterMap_filterMap,
    List.map_filterMap]
  refine List.filterMap_congr fun timings _ => ?_
  cases timings <;> rfl

theorem live_register (profiler : Profiler) (thread : Thread) :
    (∃ state ∈ profiler.live, state.threadId = thread.id) ∧ profiler.register thread = profiler ∨
      (∀ state ∈ profiler.live, state.threadId ≠ thread.id) ∧
        (profiler.register thread).live = profiler.live ++ [.new thread.name thread.id] := by
  rw [Profiler.register]
  split_ifs with h
  · rw [List.any_eq_true] at h
    exact Or.inl ⟨by simpa using h, rfl⟩
  · rw [List.any_eq_true] at h
    refine Or.inr ⟨by simpa using h, ?_⟩
    rw [Profiler.live, Profiler.live, List.filterMap_append]
    rfl

theorem live_withThreadTimings (profiler : Profiler) (thread : Thread)
    (f : ThreadTimingState → ThreadTimingState) : (profiler.withThreadTimings thread f).live =
      (profiler.register thread).live.map fun state =>
        if state.threadId = thread.id then f state else state := by
  rw [Profiler.live, Profiler.live, Profiler.withThreadTimings, List.filterMap_map,
    List.map_filterMap]
  refine List.filterMap_congr fun timings _ => ?_
  cases timings <;> rfl

theorem live_threadExit (profiler : Profiler) (threadId : Nat) : (profiler.threadExit threadId).live =
    profiler.live.filter fun state => state.threadId ≠ threadId := by
  rw [Profiler.live, Profiler.live, Profiler.threadExit, List.filterMap_map, List.filter_filterMap]
  refine List.filterMap_congr fun timings _ => ?_
  cases timings <;> rfl

end Live

/-- Buffers of different threads, with no timing in both. -/
def Apart (a b : ThreadTimingState) : Prop :=
  a.threadId ≠ b.threadId ∧ ∀ t ∈ a.timings, ∀ t' ∈ b.timings, t.push ≠ t'.push

instance : Std.Symm Apart where
  symm _ _ h := ⟨h.1.symm, fun t ht t' ht' => (h.2 t' ht' t ht).symm⟩

/-- The collector has seen something of the buffers that live, and nothing of those to come. -/
structure Tracks (w : ProfilerRun) : Prop where
  apart : w.profiler.live.Pairwise Apart
  lives : ∀ state ∈ w.profiler.live, state.threadId ∉ w.exited
  seen : ∀ state ∈ w.profiler.live, Seen (w.collector.previousCursor state.threadId) w.pushed
    w.reported w.missed w.cleared state
  unseen : ∀ threadId, threadId ∉ w.exited → (∀ state ∈ w.profiler.live, state.threadId ≠ threadId) →
    w.collector.previousCursor threadId = 0
  nodup : w.reported.Nodup
  known : ∀ push ∈ w.reported, push < w.pushed

variable {w w' : ProfilerRun}

theorem tracks_new (startupTime : Nat) : Tracks (new startupTime) where
  apart := List.Pairwise.nil
  lives := fun _ h => absurd h List.not_mem_nil
  seen := fun _ h => absurd h List.not_mem_nil
  unseen := fun _ _ _ => rfl
  nodup := List.nodup_nil
  known := fun _ h => absurd h List.not_mem_nil

theorem Tracks.setEnabled (h : Tracks w) (enabled : Bool) : Tracks
    { w with
      profiler := (w.profiler.setEnabled enabled).2
      cleared := w.cleared || (w.profiler.setEnabled enabled).1 && !enabled } := by
  rw [Profiler.setEnabled]
  split_ifs with hsame henabled
  · simpa using h
  · subst henabled
    have hcleared : (w.cleared || true && !true) = w.cleared := by simp
    simp only [hcleared]
    exact ⟨h.apart, h.lives, h.seen, h.unseen, h.nodup, h.known⟩
  · have hcleared : (w.cleared || true && !enabled) = true := by simp [henabled]
    simp only [hcleared]
    have hlive : (Profiler.clearAllTimings
        { w.profiler with enabled := enabled, generation := w.profiler.generation + 1 }).live =
          w.profiler.live.map ThreadTimingState.clear := live_clearAllTimings _
    constructor
    · simp only [hlive]
      refine List.pairwise_map.mpr (h.apart.imp fun hab => ⟨hab.1, fun t ht => ?_⟩)
      exact absurd ht List.not_mem_nil
    · simp only [hlive]
      intro state hstate
      obtain ⟨old, hold, rfl⟩ := List.mem_map.mp hstate
      exact h.lives old hold
    · simp only [hlive]
      intro state hstate
      obtain ⟨old, hold, rfl⟩ := List.mem_map.mp hstate
      exact seen_clear _ old
    · simp only [hlive]
      intro threadId hlives hnone
      exact h.unseen threadId hlives fun state hstate =>
        hnone state.clear (List.mem_map_of_mem hstate)
    · exact h.nodup
    · exact h.known

theorem Tracks.register (h : Tracks w) {thread : Thread} (hlives : thread.id ∉ w.exited) :
    Tracks { w with profiler := w.profiler.register thread } := by
  rcases live_register w.profiler thread with ⟨-, heq⟩ | ⟨hnone, hlive⟩
  · rw [heq]
    exact h
  · constructor
    · simp only [hlive]
      refine List.pairwise_append.mpr ⟨h.apart, List.pairwise_singleton _ _, ?_⟩
      intro a ha b hb
      obtain rfl := List.mem_singleton.mp hb
      exact ⟨hnone a ha, fun t ht t' ht' => absurd ht' List.not_mem_nil⟩
    · simp only [hlive]
      intro state hstate
      rcases List.mem_append.mp hstate with hstate | hstate
      · exact h.lives state hstate
      · obtain rfl := List.mem_singleton.mp hstate
        exact hlives
    · simp only [hlive]
      intro state hstate
      rcases List.mem_append.mp hstate with hstate | hstate
      · exact h.seen state hstate
      · obtain rfl := List.mem_singleton.mp hstate
        have hcursor := h.unseen thread.id hlives hnone
        simp only [ThreadTimingState.new] at hcursor ⊢
        rw [hcursor]
        exact seen_new _ _
    · simp only [hlive]
      intro threadId hlives' hnone'
      exact h.unseen threadId hlives' fun state hstate =>
        hnone' state (List.mem_append_left _ hstate)
    · exact h.nodup
    · exact h.known

theorem Tracks.push (h : Tracks w) (maxTaskTimings : Nat) {thread : Thread} {timing : TaskTiming}
    (hnew : timing.push = w.pushed) {profiler : Profiler}
    (hlive : profiler.live = w.profiler.live.map fun state =>
      if state.threadId = thread.id then state.push maxTaskTimings timing else state) :
    Tracks { w with profiler := profiler, pushed := w.pushed + 1 } := by
  have hid : ∀ state : ThreadTimingState,
      (if state.threadId = thread.id then state.push maxTaskTimings timing else state).threadId =
        state.threadId := by
    intro state
    split_ifs <;> rfl
  have hmem : ∀ (state : ThreadTimingState) (t : TaskTiming),
      t ∈ (if state.threadId = thread.id then state.push maxTaskTimings timing else state).timings →
        t ∈ state.timings ∨ state.threadId = thread.id ∧ t = timing := by
    intro state t ht
    split_ifs at ht with hthread
    · exact (mem_push ht).imp_right fun heq => ⟨hthread, heq⟩
    · exact Or.inl ht
  constructor
  · simp only [hlive]
    refine List.pairwise_map.mpr (h.apart.imp_of_mem fun {a b} ha hb hab => ?_)
    refine ⟨by rw [hid, hid]; exact hab.1, fun t ht t' ht' => ?_⟩
    rcases hmem a t ht with hold | ⟨hthread, rfl⟩
    · rcases hmem b t' ht' with hold' | ⟨-, rfl⟩
      · exact hab.2 t hold t' hold'
      · have := (h.seen a ha).known t hold
        omega
    · rcases hmem b t' ht' with hold' | ⟨hthread', -⟩
      · have := (h.seen b hb).known t' hold'
        omega
      · exact absurd (hthread.trans hthread'.symm) hab.1
  · simp only [hlive]
    intro state hstate
    obtain ⟨old, hold, rfl⟩ := List.mem_map.mp hstate
    rw [hid]
    exact h.lives old hold
  · simp only [hlive]
    intro state hstate
    obtain ⟨old, hold, rfl⟩ := List.mem_map.mp hstate
    rw [hid]
    split_ifs
    · exact (h.seen old hold).push maxTaskTimings hnew h.known
    · exact (h.seen old hold).mono
  · simp only [hlive]
    intro threadId hlives hnone
    refine h.unseen threadId hlives fun state hstate => ?_
    rw [← hid state]
    exact hnone _ (List.mem_map_of_mem hstate)
  · exact h.nodup
  · exact fun push hpush => Nat.lt_succ_of_lt (h.known push hpush)

theorem Tracks.recordEnd (h : Tracks w) (maxTaskTimings : Nat) {thread : Thread}
    (hlives : thread.id ∉ w.exited) (handle : TaskTimingHandle) (status : TaskTimingStatus) (now : Nat)
    (handles : List TaskTimingHandle) : Tracks
    { w with
      profiler := w.profiler.recordEnd maxTaskTimings thread handle status now w.pushed
      handles := handles
      pushed := w.pushed + 1 } := by
  rw [Profiler.recordEnd]
  split_ifs with hskip
  · refine ⟨h.apart, h.lives, fun state hstate => (h.seen state hstate).mono, h.unseen, h.nodup, ?_⟩
    exact fun push hpush => Nat.lt_succ_of_lt (h.known push hpush)
  · obtain ⟨timing, htiming⟩ : ∃ timing : TaskTiming,
        timing = ⟨handle.location, handle.start, now, status, w.pushed⟩ := ⟨_, rfl⟩
    have hnew : timing.push = w.pushed := by rw [htiming]
    have hpush := (h.register hlives).push maxTaskTimings hnew
      (live_withThreadTimings w.profiler thread _)
    rw [← htiming]
    exact ⟨hpush.apart, hpush.lives, hpush.seen, hpush.unseen, hpush.nodup, hpush.known⟩

theorem Tracks.threadExit (h : Tracks w) (threadId : Nat) : Tracks
    { w with profiler := w.profiler.threadExit threadId, exited := threadId :: w.exited } := by
  have hlive := live_threadExit w.profiler threadId
  constructor
  · simp only [hlive]
    exact h.apart.filter _
  · simp only [hlive]
    intro state hstate
    obtain ⟨hstate, hne⟩ := List.mem_filter.mp hstate
    simp only [List.mem_cons, not_or]
    exact ⟨by simpa using hne, h.lives state hstate⟩
  · simp only [hlive]
    exact fun state hstate => h.seen state (List.mem_filter.mp hstate).1
  · simp only [hlive]
    intro other hlives hnone
    simp only [List.mem_cons, not_or] at hlives
    refine h.unseen other hlives.2 fun state hstate heq => ?_
    refine hnone state (List.mem_filter.mpr ⟨hstate, ?_⟩) heq
    simpa [heq] using hlives.1
  · exact h.nodup
  · exact h.known

/-! ### Collecting -/

section Collector

variable {collector : ProfilingCollector} {thread : ThreadTaskTimings} {threads : List ThreadTaskTimings}

/-- What is behind the cursor, in the buffer of a thread. -/
def unseen (cursor : Nat) (thread : ThreadTaskTimings) : List TaskTiming :=
  thread.timings.drop (cursor - (thread.totalPushed - thread.timings.length))

theorem inDeltas_append (deltas deltas' : List ThreadTimingsDelta) :
    inDeltas (deltas ++ deltas') = inDeltas deltas ++ inDeltas deltas' := List.flatMap_append

theorem inDeltas_collectThread (collector : ProfilingCollector) (thread : ThreadTaskTimings) :
    inDeltas (collector.collectThread thread).2.toList =
      (unseen (collector.previousCursor thread.threadId) thread).map TaskTiming.push := by
  have hdrop : thread.timings.drop (min (collector.previousCursor thread.threadId -
      (thread.totalPushed - thread.timings.length)) thread.timings.length) =
        unseen (collector.previousCursor thread.threadId) thread := by
    rw [unseen, List.drop_eq_drop_iff]
    omega
  rw [ProfilingCollector.collectThread]
  simp only [hdrop]
  split_ifs with hnil
  · rw [hnil]
    rfl
  · simp [inDeltas, SerializedTaskTiming.convert]

theorem previousCursor_collectThread (collector : ProfilingCollector) (thread : ThreadTaskTimings)
    (threadId : Nat) : (collector.collectThread thread).1.previousCursor threadId =
      if threadId = thread.threadId then thread.totalPushed
      else collector.previousCursor threadId := by
  simp only [ProfilingCollector.collectThread, ProfilingCollector.previousCursor, Function.update_apply]
  split_ifs <;> rfl

theorem previousCursor_of_forall_ne {threadId : Nat} (h : ∀ thread ∈ threads, thread.threadId ≠ threadId) :
    (collector.collectUnseen threads).1.previousCursor threadId = collector.previousCursor threadId := by
  induction threads generalizing collector with
  | nil => rfl
  | cons thread threads ih =>
    obtain ⟨hthread, hthreads⟩ := List.forall_mem_cons.mp h
    rw [ProfilingCollector.collectUnseen]
    simp only
    rw [ih hthreads, previousCursor_collectThread, if_neg hthread.symm]

theorem previousCursor_of_mem (h : threads.Pairwise fun a b => a.threadId ≠ b.threadId)
    (hmem : thread ∈ threads) :
    (collector.collectUnseen threads).1.previousCursor thread.threadId = thread.totalPushed := by
  induction threads generalizing collector with
  | nil => cases hmem
  | cons first threads ih =>
    obtain ⟨hfirst, hthreads⟩ := List.pairwise_cons.mp h
    rw [ProfilingCollector.collectUnseen]
    simp only
    rcases List.mem_cons.mp hmem with rfl | hmem
    · rw [previousCursor_of_forall_ne fun other hother => (hfirst other hother).symm,
        previousCursor_collectThread, if_pos rfl]
    · exact ih hthreads hmem

/-- **The deltas** are what is behind the cursors. -/
theorem inDeltas_collectUnseen (h : threads.Pairwise fun a b => a.threadId ≠ b.threadId) :
    inDeltas (collector.collectUnseen threads).2 = threads.flatMap fun thread =>
      (unseen (collector.previousCursor thread.threadId) thread).map TaskTiming.push := by
  induction threads generalizing collector with
  | nil => rfl
  | cons first threads ih =>
    obtain ⟨hfirst, hthreads⟩ := List.pairwise_cons.mp h
    rw [ProfilingCollector.collectUnseen]
    simp only
    rw [inDeltas_append, inDeltas_collectThread, ih hthreads, List.flatMap_cons]
    refine congrArg _ (List.flatMap_congr fun thread hthread => ?_)
    rw [previousCursor_collectThread, if_neg (hfirst thread hthread).symm]

end Collector

/-- What `collect` reports. -/
def collected (w : ProfilerRun) : List Nat := inDeltas (profilerCollectTimings w.profiler w.collector).2

/-- What the collector has not seen of a buffer. -/
def unseenOf (w : ProfilerRun) (state : ThreadTimingState) : List TaskTiming :=
  unseen (w.collector.previousCursor state.threadId) state.snapshot

theorem Tracks.snapshots (h : Tracks w) :
    w.profiler.globalTimings.Pairwise fun a b => a.threadId ≠ b.threadId :=
  List.pairwise_map.mpr (h.apart.imp fun hab => hab.1)

theorem Tracks.collected_eq (h : Tracks w) : w.collected =
    w.profiler.live.flatMap fun state => (w.unseenOf state).map TaskTiming.push := by
  rw [collected, profilerCollectTimings, inDeltas_collectUnseen h.snapshots, Profiler.globalTimings,
    List.flatMap_map]
  rfl

theorem mem_unseenOf {state : ThreadTimingState} {timing : TaskTiming} :
    timing ∈ w.unseenOf state ↔ ∃ i, state.timings[i]? = some timing ∧
      w.collector.previousCursor state.threadId - (state.totalPushed - state.timings.length) ≤ i := by
  rw [unseenOf, unseen, List.mem_iff_getElem?]
  simp only [List.getElem?_drop]
  constructor
  · rintro ⟨i, hi⟩
    exact ⟨_, hi, Nat.le_add_right _ _⟩
  · rintro ⟨i, hi, hle⟩
    refine ⟨i - (w.collector.previousCursor state.threadId -
      (state.totalPushed - state.timings.length)), ?_⟩
    rw [← hi]
    exact congrArg _ (Nat.add_sub_cancel' hle)

theorem Tracks.mem_collected (h : Tracks w) {push : Nat} : push ∈ w.collected ↔
    ∃ state ∈ w.profiler.live, ∃ timing ∈ w.unseenOf state, timing.push = push := by
  rw [h.collected_eq]
  simp only [List.mem_flatMap, List.mem_map]

theorem Tracks.not_mem_reported (h : Tracks w) {push : Nat} (hpush : push ∈ w.collected) :
    push ∉ w.reported := by
  obtain ⟨state, hstate, timing, htiming, rfl⟩ := h.mem_collected.mp hpush
  obtain ⟨i, hi, hle⟩ := mem_unseenOf.mp htiming
  intro hmem
  have := (h.seen state hstate).once i timing hi hmem
  omega

theorem Tracks.nodup_collected (h : Tracks w) : w.collected.Nodup := by
  rw [h.collected_eq, List.nodup_flatMap]
  refine ⟨fun state hstate => ?_, h.apart.imp_of_mem fun {a b} ha hb hab => ?_⟩
  · exact (h.seen state hstate).nodup.sublist ((List.drop_sublist _ _).map _)
  · intro push hpush hpush'
    obtain ⟨t, ht, rfl⟩ := List.mem_map.mp hpush
    obtain ⟨t', ht', heq⟩ := List.mem_map.mp hpush'
    exact hab.2 t (List.mem_of_mem_drop ht) t' (List.mem_of_mem_drop ht') heq.symm

theorem Tracks.collect (h : Tracks w) : Tracks w.collect := by
  have hreported : w.collect.reported = w.reported ++ w.collected := rfl
  have hcursor : ∀ state ∈ w.profiler.live,
      w.collect.collector.previousCursor state.threadId = state.totalPushed := by
    intro state hstate
    have hmem : state.snapshot ∈ w.profiler.globalTimings := List.mem_map_of_mem hstate
    exact previousCursor_of_mem h.snapshots hmem
  have hknown : ∀ push ∈ w.collected, push < w.pushed := by
    intro push hpush
    obtain ⟨state, hstate, timing, htiming, rfl⟩ := h.mem_collected.mp hpush
    exact (h.seen state hstate).known timing (List.mem_of_mem_drop htiming)
  constructor
  · exact h.apart
  · exact h.lives
  · intro state hstate
    have hseen := h.seen state hstate
    rw [hcursor state hstate]
    refine ⟨hseen.fits, hseen.nodup, hseen.known, ?_, fun _ => le_rfl, ?_, fun h => by cases h⟩
    · intro i timing hi _
      have hlt := (List.getElem?_eq_some_iff.mp hi).1
      have := hseen.fits
      omega
    · intro _ i timing hi _
      by_cases hmem : timing.push ∈ w.collect.reported
      · exact Or.inl hmem
      · refine Or.inr (List.mem_append_right _ (List.mem_filter.mpr ⟨?_, decide_eq_true hmem⟩))
        exact List.mem_flatMap.mpr
          ⟨state, hstate, List.mem_map_of_mem (List.mem_of_getElem? hi)⟩
  · intro threadId hlives hnone
    refine (previousCursor_of_forall_ne fun thread hthread => ?_).trans (h.unseen threadId hlives hnone)
    obtain ⟨state, hstate, rfl⟩ := List.mem_map.mp hthread
    exact hnone state hstate
  · rw [hreported, List.nodup_append]
    refine ⟨h.nodup, h.nodup_collected, ?_⟩
    rintro push hpush _ hpush' rfl
    exact h.not_mem_reported hpush' hpush
  · rw [hreported]
    intro push hpush
    rcases List.mem_append.mp hpush with hpush | hpush
    · exact h.known push hpush
    · exact hknown push hpush

theorem Tracks.step {maxTaskTimings : Nat} (h : Tracks w) {act : ProfilerAct}
    (hstep : w.step maxTaskTimings act = some w') : Tracks w' := by
  cases act with
  | setEnabled enabled =>
    cases hstep
    exact h.setEnabled enabled
  | recordStart location now =>
    cases hstep
    exact ⟨h.apart, h.lives, h.seen, h.unseen, h.nodup, h.known⟩
  | recordEnd thread handleIx status now =>
    rw [ProfilerRun.step] at hstep
    split_ifs at hstep with hexited
    obtain ⟨handle, -, rfl⟩ := Option.map_eq_some_iff.mp hstep
    exact h.recordEnd maxTaskTimings hexited handle status now _
  | threadExit threadId =>
    cases hstep
    exact h.threadExit threadId
  | collect =>
    cases hstep
    exact h.collect

/-! ### What is missed -/

/-- **The first timing of a buffer** is skipped where the cursor is ahead of it. -/
theorem Tracks.first_not_collected (h : Tracks w) {state : ThreadTimingState}
    (hstate : state ∈ w.profiler.live) {timing : TaskTiming} (hfirst : state.timings[0]? = some timing)
    (hahead : state.totalPushed - state.timings.length < w.collector.previousCursor state.threadId) :
    timing.push ∉ w.collected := by
  intro hmem
  obtain ⟨other, hother, t, ht, heq⟩ := h.mem_collected.mp hmem
  by_cases hsame : other = state
  · subst hsame
    obtain ⟨i, hi, hle⟩ := mem_unseenOf.mp ht
    have hnodup := (h.seen other hother).nodup
    have hzero : (other.timings.map TaskTiming.push)[0]? = some timing.push := by
      rw [List.getElem?_map, hfirst]
      rfl
    have hlater : (other.timings.map TaskTiming.push)[i]? = some timing.push := by
      rw [List.getElem?_map, hi]
      exact congrArg some heq
    have hpos : 0 < (other.timings.map TaskTiming.push).length :=
      (List.getElem?_eq_some_iff.mp hzero).1
    have := (List.getElem?_inj hpos hnodup).mp (hzero.trans hlater.symm)
    omega
  · have hapart : Apart other state := h.apart.forall hother hstate hsame
    exact hapart.2 t (List.mem_of_mem_drop ht) timing (List.mem_of_getElem? hfirst) heq

/-- **Nothing is missed** just where the cursors are behind. -/
theorem Tracks.collect_missed (h : Tracks w) (hgood : w.missed = []) :
    w.collect.missed = [] ↔ w.CursorsBehind .collect := by
  have hmissed : w.collect.missed = [] ↔ ∀ push ∈ w.inBuffers, push ∈ w.reported ++ w.collected := by
    have heq : w.collect.missed =
        w.missed ++ w.inBuffers.filter fun push => push ∉ w.reported ++ w.collected := rfl
    rw [heq, hgood, List.nil_append, List.filter_eq_nil_iff]
    simp only [decide_eq_true_eq, not_not]
  rw [hmissed]
  constructor
  · intro hall _ hcleared state hstate
    by_contra hnot
    push Not at hnot
    obtain ⟨hne, hahead⟩ := hnot
    obtain ⟨timing, rest, htimings⟩ := List.exists_cons_of_ne_nil hne
    have hfirst : state.timings[0]? = some timing := by rw [htimings]; rfl
    have hmem := List.mem_of_getElem? hfirst
    have hin : timing.push ∈ w.inBuffers :=
      List.mem_flatMap.mpr ⟨state, hstate, List.mem_map_of_mem hmem⟩
    rcases List.mem_append.mp (hall _ hin) with hreported | hcollected
    · exact (h.seen state hstate).fresh hcleared timing hmem hreported
    · exact h.first_not_collected hstate hfirst hahead hcollected
  · intro hcond push hpush
    obtain ⟨state, hstate, hpush⟩ := List.mem_flatMap.mp hpush
    obtain ⟨timing, htiming, rfl⟩ := List.mem_map.mp hpush
    obtain ⟨i, hi⟩ := List.mem_iff_getElem?.mp htiming
    by_cases hle : w.collector.previousCursor state.threadId -
        (state.totalPushed - state.timings.length) ≤ i
    · exact List.mem_append_right _
        (h.mem_collected.mpr ⟨state, hstate, timing, mem_unseenOf.mpr ⟨i, hi, hle⟩, rfl⟩)
    · apply List.mem_append_left
      cases hcleared : w.cleared with
      | false =>
        rcases (h.seen state hstate).below hcleared i timing hi (by omega) with hreported | hmissed
        · exact hreported
        · rw [hgood] at hmissed
          cases hmissed
      | true =>
        rcases hcond rfl hcleared state hstate with hnil | hbehind
        · rw [hnil] at hi
          cases hi
        · omega

theorem complete_step_iff {maxTaskTimings : Nat} (h : Tracks w) (hgood : w.Complete) {act : ProfilerAct}
    (hstep : w.step maxTaskTimings act = some w') : w'.Complete ↔ w.CursorsBehind act := by
  by_cases hact : act = .collect
  · subst hact
    cases hstep
    rw [Complete, and_iff_right h.collect.nodup]
    exact h.collect_missed hgood.2
  · refine iff_of_true ?_ fun hcollect => absurd hcollect hact
    cases act with
    | setEnabled enabled =>
      cases hstep
      exact hgood
    | recordStart location now =>
      cases hstep
      exact hgood
    | recordEnd thread handleIx status now =>
      rw [ProfilerRun.step] at hstep
      split_ifs at hstep
      obtain ⟨handle, -, rfl⟩ := Option.map_eq_some_iff.mp hstep
      exact hgood
    | threadExit threadId =>
      cases hstep
      exact hgood
    | collect => exact absurd rfl hact

theorem complete_new (startupTime : Nat) : (new startupTime).Complete := ⟨List.nodup_nil, rfl⟩

/-- **The collector repeats nothing**, and misses nothing in the runs that collect with the cursors
behind the buffers, and in no others. -/
theorem collector_iff (maxTaskTimings startupTime : Nat) (acts : List ProfilerAct)
    (hrun : FcGpui.run (step maxTaskTimings) (new startupTime) acts = some w) :
    Throughout (step maxTaskTimings) (fun w => w.reported.Nodup) (new startupTime) acts ∧
      (Throughout (step maxTaskTimings) Complete (new startupTime) acts ↔
        RunMeets (step maxTaskTimings) CursorsBehind (new startupTime) acts) := by
  constructor
  · have hkeeps : ∀ (w : ProfilerRun) (act : ProfilerAct) (w' : ProfilerRun), Tracks w → True →
        w.step maxTaskTimings act = some w' → Tracks w' := fun _ _ _ h _ hstep => h.step hstep
    exact run_throughout hkeeps (fun _ h => h.nodup) acts (tracks_new startupTime)
      (RunMeets.of_forall (fun _ _ => trivial) acts _)
  · exact throughout_iff (fun _ _ _ h hstep => h.step hstep)
      (fun _ _ _ h hgood hstep => complete_step_iff h hgood hstep) acts (tracks_new startupTime)
      (complete_new startupTime) hrun

def here : Location := ⟨"main.rs", 1, 1⟩

def mainThread : Thread := ⟨1, some "main"⟩

/-- A task is timed and collected, the profiler disabled and enabled again, and the next one timed. -/
def timedAgain : List ProfilerAct :=
  [.setEnabled true, .recordStart here 0, .recordEnd mainThread 0 .completed 1, .collect,
    .setEnabled false, .setEnabled true, .recordStart here 2, .recordEnd mainThread 0 .completed 3]

theorem collector_iff_timedAgain :
    Throughout (step 4) (fun w => w.reported.Nodup) (new 0) timedAgain ∧
      (Throughout (step 4) Complete (new 0) timedAgain ↔
        RunMeets (step 4) CursorsBehind (new 0) timedAgain) :=
  collector_iff 4 0 timedAgain rfl

/-- The task that is timed next is in the buffer, and in no delta. -/
theorem not_collector : ¬ ∀ (maxTaskTimings startupTime : Nat) (acts : List ProfilerAct)
    (w : ProfilerRun), FcGpui.run (step maxTaskTimings) (new startupTime) acts = some w →
      Throughout (step maxTaskTimings) Complete (new startupTime) acts := by
  intro h
  have hlast := (h 4 0 (timedAgain ++ [.collect]) _ rfl).last _ rfl
  exact absurd hlast.2 (by decide)

end ProfilerRun

end FcGpui
