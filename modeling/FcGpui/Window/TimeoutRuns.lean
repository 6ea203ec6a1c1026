import FcGpui.Window.InputTimeout

/-!
# Pausing conserves the timeout of pending input

`Owns` says of a list of timeouts that the tasks that are alive and the subscriptions are theirs, each
that of one.  It is kept by every way in which a timeout comes and goes, so the timeouts in
the window and in the hands of key events can be followed through any run.  `Accounts` is the account
of the timeout in the window.

**Main result.**  `timeout_conserved`.
-/

namespace FcGpui

namespace PendingInputTimeout

/-- The task of a timeout that runs. -/
def task (timeout : PendingInputTimeout) : Option Nat :=
  match timeout.state with
  | .running _ task => some task
  | .paused _ => none

/-- The subscription of one that is paused. -/
def subscription (timeout : PendingInputTimeout) : Option Nat :=
  match timeout.state with
  | .running _ _ => none
  | .paused pause => some pause.releaseSubscription

theorem pauseOwnerId_eq_some {timeout : PendingInputTimeout} {owner : EntityId}
    (h : timeout.pauseOwnerId = some owner) :
    ∃ subscription, timeout.state = .paused ⟨owner, subscription⟩ := by
  unfold pauseOwnerId at h
  split at h
  · cases h
  · rename_i pause hstate
    obtain ⟨ownerId, subscription⟩ := pause
    obtain rfl := Option.some.inj h
    exact ⟨subscription, hstate⟩

end PendingInputTimeout

open PendingInputTimeout (task subscription)

namespace TimeoutCx

def Alive (cx : TimeoutCx) (id : Nat) : Prop :=
  ∃ it : TimeoutTask, cx.tasks[id]? = some it ∧ it.alive = true

/-- The task was given `remaining` when it was started.  Its timer, once it has one, was made with
that. -/
def Arms (cx : TimeoutCx) (remaining startedAt id : Nat) : Prop :=
  ∃ it : TimeoutTask, cx.tasks[id]? = some it ∧ it.duration = remaining ∧ startedAt ≤ cx.now ∧
    ∀ due, it.due = some due → ∃ polled, startedAt ≤ polled ∧ polled ≤ cx.now ∧ due = polled + remaining

/-- The tasks and the subscriptions are those of the timeouts. -/
structure Owns (cx : TimeoutCx) (timeouts : List PendingInputTimeout) : Prop where
  tasks_nodup : (timeouts.filterMap task).Nodup
  alive : ∀ id, cx.Alive id ↔ id ∈ timeouts.filterMap task
  arms : ∀ timeout ∈ timeouts, ∀ startedAt id, timeout.state = .running startedAt id →
    cx.Arms timeout.remaining startedAt id
  subscriptions_nodup : (timeouts.filterMap subscription).Nodup
  listens : ∀ timeout ∈ timeouts, ∀ pause, timeout.state = .paused pause →
    (pause.releaseSubscription, pause.ownerId) ∈ cx.releaseListeners ∧ pause.ownerId ∉ cx.released
  listeners_lt : ∀ it ∈ cx.releaseListeners, it.1 < cx.nextSubscription

variable {cx : TimeoutCx} {timeout : PendingInputTimeout} {timeouts timeouts' : List PendingInputTimeout}

theorem Owns.perm (h : cx.Owns timeouts) (hperm : timeouts.Perm timeouts') : cx.Owns timeouts' where
  tasks_nodup := ((hperm.filterMap task).nodup_iff).mp h.tasks_nodup
  alive id := (h.alive id).trans (hperm.filterMap task).mem_iff
  arms timeout hmem := h.arms timeout (hperm.mem_iff.mpr hmem)
  subscriptions_nodup := ((hperm.filterMap subscription).nodup_iff).mp h.subscriptions_nodup
  listens timeout hmem := h.listens timeout (hperm.mem_iff.mpr hmem)
  listeners_lt := h.listeners_lt

/-! ### Timeouts that go -/

@[simp] theorem dropState_now (state : PendingInputTimeoutState) (cx : TimeoutCx) :
    (cx.dropState state).now = cx.now := by
  cases state with
  | running startedAt id => rfl
  | paused pause => rfl

@[simp] theorem dropState_released (state : PendingInputTimeoutState) (cx : TimeoutCx) :
    (cx.dropState state).released = cx.released := by
  cases state with
  | running startedAt id => rfl
  | paused pause => rfl

@[simp] theorem dropTimeout_now (timeout : Option PendingInputTimeout) (cx : TimeoutCx) :
    (cx.dropTimeout timeout).now = cx.now := by
  cases timeout with
  | none => rfl
  | some timeout => exact dropState_now timeout.state cx

theorem arms_dropTask {remaining startedAt id dropped : Nat} (startedAt' : Nat)
    (h : cx.Arms remaining startedAt id) :
    (cx.dropState (.running startedAt' dropped)).Arms remaining startedAt id := by
  obtain ⟨it, hit, hduration, hnow, hdue⟩ := h
  have hget : (cx.dropState (.running startedAt' dropped)).tasks[id]? =
      some (if dropped = id then { it with alive := false } else it) := by
    rw [dropState, List.getElem?_modify, hit]
    rfl
  refine ⟨_, hget, ?_, hnow, ?_⟩
  · split_ifs
    · exact hduration
    · exact hduration
  · split_ifs
    · exact hdue
    · exact hdue

theorem alive_dropTask {dropped id : Nat} (startedAt : Nat) :
    (cx.dropState (.running startedAt dropped)).Alive id ↔ cx.Alive id ∧ id ≠ dropped := by
  have hget : (cx.dropState (.running startedAt dropped)).tasks[id]? =
      cx.tasks[id]?.map fun it => if dropped = id then { it with alive := false } else it := by
    rw [dropState, List.getElem?_modify]
    rfl
  unfold Alive
  rw [hget]
  constructor
  · rintro ⟨it, hit, halive⟩
    obtain ⟨old, hold, rfl⟩ := Option.map_eq_some_iff.mp hit
    split_ifs at halive with hid
    exact ⟨⟨old, hold, halive⟩, Ne.symm hid⟩
  · rintro ⟨⟨it, hit, halive⟩, hne⟩
    refine ⟨it, ?_, halive⟩
    rw [hit, Option.map_some, if_neg (Ne.symm hne)]

theorem Owns.dropTask (h : cx.Owns timeouts) {dropped : Nat} (hsub : timeouts'.Sublist timeouts)
    (hids : ∀ id, id ∈ timeouts'.filterMap task ↔ id ∈ timeouts.filterMap task ∧ id ≠ dropped)
    (startedAt : Nat) : (cx.dropState (.running startedAt dropped)).Owns timeouts' where
  tasks_nodup := h.tasks_nodup.sublist (hsub.filterMap _)
  alive id := by rw [alive_dropTask, h.alive, hids]
  arms timeout hmem startedAt' id hstate :=
    arms_dropTask startedAt (h.arms timeout (hsub.subset hmem) startedAt' id hstate)
  subscriptions_nodup := h.subscriptions_nodup.sublist (hsub.filterMap _)
  listens timeout hmem := h.listens timeout (hsub.subset hmem)
  listeners_lt := h.listeners_lt

theorem Owns.dropPause (h : cx.Owns (timeout :: timeouts)) {pause : PendingInputTimeoutPause}
    (hstate : timeout.state = .paused pause) : (cx.dropState (.paused pause)).Owns timeouts := by
  have htask : timeout.task = none := by rw [task, hstate]
  have hsubscription : timeout.subscription = some pause.releaseSubscription := by
    rw [subscription, hstate]
  have htasks : (timeout :: timeouts).filterMap task = timeouts.filterMap task :=
    List.filterMap_cons_none htask
  have hsubscriptions := h.subscriptions_nodup
  rw [List.filterMap_cons_some hsubscription, List.nodup_cons] at hsubscriptions
  exact {
    tasks_nodup := htasks ▸ h.tasks_nodup
    alive := fun id => htasks ▸ h.alive id
    arms := fun other hmem => h.arms other (List.mem_cons_of_mem _ hmem)
    subscriptions_nodup := hsubscriptions.2
    listens := by
      intro other hmem pause' hother
      obtain ⟨hlistens, hreleased⟩ := h.listens other (List.mem_cons_of_mem _ hmem) pause' hother
      refine ⟨List.mem_filter.mpr ⟨hlistens, ?_⟩, hreleased⟩
      -- no other timeout has this subscription
      have hne : pause'.releaseSubscription ≠ pause.releaseSubscription := by
        intro heq
        refine hsubscriptions.1 (List.mem_filterMap.mpr ⟨other, hmem, ?_⟩)
        rw [subscription, hother]
        exact congrArg some heq
      exact decide_eq_true hne
    listeners_lt := fun it hit => h.listeners_lt it (List.mem_of_mem_filter hit) }

theorem Owns.dropState (h : cx.Owns (timeout :: timeouts)) :
    (cx.dropState timeout.state).Owns timeouts := by
  cases hstate : timeout.state with
  | running startedAt id =>
    have htask : timeout.task = some id := by rw [task, hstate]
    have hnodup := h.tasks_nodup
    rw [List.filterMap_cons_some htask, List.nodup_cons] at hnodup
    refine h.dropTask (List.sublist_cons_self _ _) (fun other => ?_) startedAt
    rw [List.filterMap_cons_some htask, List.mem_cons]
    constructor
    · exact fun hmem => ⟨Or.inr hmem, fun heq => hnodup.1 (heq ▸ hmem)⟩
    · rintro ⟨rfl | hmem, hne⟩
      · exact absurd rfl hne
      · exact hmem
  | paused pause => exact h.dropPause hstate

theorem Owns.dropTimeout {timeout : Option PendingInputTimeout} (h : cx.Owns (timeout.toList ++ timeouts)) :
    (cx.dropTimeout timeout).Owns timeouts := by
  cases timeout with
  | none => exact h
  | some timeout => exact h.dropState

/-! ### Timeouts that come -/

theorem Owns.start (h : cx.Owns timeouts) (duration remaining : Nat) :
    (cx.startPendingInputTimeout remaining).2.Owns
      (⟨duration, remaining, .running cx.now (cx.startPendingInputTimeout remaining).1⟩ :: timeouts) := by
  have hlt : ∀ id, cx.Alive id → id < cx.tasks.length := by
    rintro id ⟨it, hit, -⟩
    exact (List.getElem?_eq_some_iff.mp hit).1
  have hget : ∀ id < cx.tasks.length,
      (cx.startPendingInputTimeout remaining).2.tasks[id]? = cx.tasks[id]? := by
    intro id hid
    exact List.getElem?_append_left hid
  have hnew : (cx.startPendingInputTimeout remaining).2.tasks[cx.tasks.length]? =
      some ⟨remaining, none, true⟩ := List.getElem?_concat_length
  have htasks : ((⟨duration, remaining, .running cx.now cx.tasks.length⟩ : PendingInputTimeout) ::
      timeouts).filterMap task = cx.tasks.length :: timeouts.filterMap task := rfl
  exact {
    tasks_nodup := by
      refine List.nodup_cons.mpr ⟨fun hmem => ?_, h.tasks_nodup⟩
      exact (hlt _ ((h.alive _).mpr hmem)).ne rfl
    alive := by
      intro id
      rw [startPendingInputTimeout] at hget hnew ⊢
      rw [htasks, List.mem_cons, ← h.alive]
      constructor
      · rintro ⟨it, hit, halive⟩
        have hid := (List.getElem?_eq_some_iff.mp hit).1
        rw [List.length_append, List.length_singleton] at hid
        rcases Nat.lt_succ_iff_lt_or_eq.mp hid with hid | rfl
        · exact Or.inr ⟨it, (hget id hid).symm.trans hit, halive⟩
        · exact Or.inl rfl
      · rintro (rfl | hold)
        · exact ⟨_, hnew, rfl⟩
        · obtain ⟨it, hit, halive⟩ := hold
          exact ⟨it, (hget id (hlt id ⟨it, hit, halive⟩)).trans hit, halive⟩
    arms := by
      intro other hmem startedAt id hstate
      rcases List.mem_cons.mp hmem with rfl | hmem
      · obtain ⟨rfl, rfl⟩ := PendingInputTimeoutState.running.inj hstate
        exact ⟨_, hnew, rfl, le_rfl, nofun⟩
      · obtain ⟨it, hit, harms⟩ := h.arms other hmem startedAt id hstate
        exact ⟨it, (hget id (List.getElem?_eq_some_iff.mp hit).1).trans hit, harms⟩
    subscriptions_nodup := h.subscriptions_nodup
    listens := by
      intro other hmem pause hstate
      rcases List.mem_cons.mp hmem with rfl | hmem
      · cases hstate
      · exact h.listens other hmem pause hstate
    listeners_lt := h.listeners_lt }

theorem Owns.observe (h : cx.Owns timeouts) {owner : EntityId} (hreleased : owner ∉ cx.released)
    (hstate : timeout.state = .paused ⟨owner, cx.nextSubscription⟩) :
    (cx.observeRelease owner).2.Owns (timeout :: timeouts) := by
  have htask : timeout.task = none := by rw [task, hstate]
  have hsubscription : timeout.subscription = some cx.nextSubscription := by rw [subscription, hstate]
  have htasks : (timeout :: timeouts).filterMap task = timeouts.filterMap task :=
    List.filterMap_cons_none htask
  exact {
    tasks_nodup := htasks ▸ h.tasks_nodup
    alive := fun id => htasks ▸ h.alive id
    arms := by
      intro other hmem startedAt id hother
      rcases List.mem_cons.mp hmem with rfl | hmem
      · rw [hstate] at hother
        cases hother
      · exact h.arms other hmem startedAt id hother
    subscriptions_nodup := by
      rw [List.filterMap_cons_some hsubscription, List.nodup_cons]
      refine ⟨fun hmem => ?_, h.subscriptions_nodup⟩
      obtain ⟨other, hother, heq⟩ := List.mem_filterMap.mp hmem
      cases hstate' : other.state with
      | running startedAt id =>
        rw [subscription, hstate'] at heq
        cases heq
      | paused pause =>
        rw [subscription, hstate'] at heq
        obtain heq := Option.some.inj heq
        exact (h.listeners_lt _ (h.listens other hother pause hstate').1).ne heq
    listens := by
      intro other hmem pause hother
      rcases List.mem_cons.mp hmem with rfl | hmem
      · obtain rfl := PendingInputTimeoutState.paused.inj (hstate.symm.trans hother)
        exact ⟨List.mem_append_right _ (List.mem_singleton_self _), hreleased⟩
      · obtain ⟨hlistens, hnot⟩ := h.listens other hmem pause hother
        exact ⟨List.mem_append_left _ hlistens, hnot⟩
    listeners_lt := by
      intro it hit
      rcases List.mem_append.mp hit with hit | hit
      · exact Nat.lt_succ_of_lt (h.listeners_lt it hit)
      · obtain rfl := List.mem_singleton.mp hit
        exact Nat.lt_succ_self _ }

theorem Owns.reset (h : cx.Owns (timeout :: timeouts)) (hpaused : timeout.isPaused = true) (duration : Nat) :
    cx.Owns (timeout.resetDuration duration :: timeouts) where
  tasks_nodup := h.tasks_nodup
  alive := h.alive
  arms other hmem startedAt id hstate := by
    rcases List.mem_cons.mp hmem with rfl | hmem
    · replace hstate : timeout.state = .running startedAt id := hstate
      rw [PendingInputTimeout.isPaused, hstate] at hpaused
      cases hpaused
    · exact h.arms other (List.mem_cons_of_mem _ hmem) startedAt id hstate
  subscriptions_nodup := h.subscriptions_nodup
  listens other hmem pause hstate := by
    rcases List.mem_cons.mp hmem with rfl | hmem
    · exact h.listens timeout List.mem_cons_self pause hstate
    · exact h.listens other (List.mem_cons_of_mem _ hmem) pause hstate
  listeners_lt := h.listeners_lt

/-! ### Time -/

theorem Owns.elapse (h : cx.Owns timeouts) (duration : Nat) :
    ({ cx with now := cx.now + duration } : TimeoutCx).Owns timeouts := by
  refine { h with arms := ?_ }
  intro timeout hmem startedAt id hstate
  obtain ⟨it, hit, hduration, hnow, hdue⟩ := h.arms timeout hmem startedAt id hstate
  refine ⟨it, hit, hduration, Nat.le_add_right_of_le hnow, fun due hsome => ?_⟩
  obtain ⟨polled, hstarted, hpolled, heq⟩ := hdue due hsome
  exact ⟨polled, hstarted, Nat.le_add_right_of_le hpolled, heq⟩

theorem Owns.poll (h : cx.Owns timeouts) (id : Nat) : (cx.poll id).Owns timeouts := by
  have hback : ∀ (other : Nat) (it : TimeoutTask), (cx.poll id).tasks[other]? = some it →
      ∃ old : TimeoutTask, cx.tasks[other]? = some old ∧ it.alive = old.alive := by
    intro other it hit
    rw [TimeoutCx.poll, List.getElem?_modify] at hit
    obtain ⟨old, hold, rfl⟩ := Option.map_eq_some_iff.mp hit
    refine ⟨old, hold, ?_⟩
    split_ifs
    · rfl
    · rfl
    · rfl
  have hforth : ∀ (other : Nat) (it : TimeoutTask), cx.tasks[other]? = some it →
      ∃ new : TimeoutTask, (cx.poll id).tasks[other]? = some new ∧ new.alive = it.alive ∧
        new.duration = it.duration ∧ (new.due = it.due ∨ new.due = some (cx.now + it.duration)) := by
    intro other it hit
    refine ⟨_, by rw [TimeoutCx.poll, List.getElem?_modify, hit]; rfl, ?_⟩
    dsimp only
    split_ifs
    · exact ⟨rfl, rfl, Or.inr rfl⟩
    · exact ⟨rfl, rfl, Or.inl rfl⟩
    · exact ⟨rfl, rfl, Or.inl rfl⟩
  refine { h with alive := fun other => ?_, arms := ?_ }
  · rw [← h.alive]
    constructor
    · rintro ⟨it, hit, halive⟩
      obtain ⟨old, hold, heq⟩ := hback other it hit
      exact ⟨old, hold, heq ▸ halive⟩
    · rintro ⟨it, hit, halive⟩
      obtain ⟨new, hnew, heq, -⟩ := hforth other it hit
      exact ⟨new, hnew, heq.trans halive⟩
  · intro timeout hmem startedAt other hstate
    obtain ⟨it, hit, hduration, hnow, hdue⟩ := h.arms timeout hmem startedAt other hstate
    obtain ⟨new, hnew, -, hsame, hpolled⟩ := hforth other it hit
    refine ⟨new, hnew, hsame.trans hduration, hnow, fun due hsome => ?_⟩
    rcases hpolled with heq | heq
    · exact hdue due (heq ▸ hsome)
    · obtain rfl := Option.some.inj (heq.symm.trans hsome)
      exact ⟨cx.now, hnow, le_rfl, congrArg _ hduration⟩

theorem Owns.release (h : cx.Owns timeouts) {owner : EntityId}
    (howner : ∀ timeout ∈ timeouts, timeout.pauseOwnerId ≠ some owner) :
    (cx.release owner).Owns timeouts := by
  refine { h with listens := ?_, listeners_lt := ?_ }
  · intro timeout hmem pause hstate
    obtain ⟨hlistens, hreleased⟩ := h.listens timeout hmem pause hstate
    have hne : pause.ownerId ≠ owner := by
      intro heq
      apply howner timeout hmem
      rw [PendingInputTimeout.pauseOwnerId, hstate]
      exact congrArg some heq
    refine ⟨List.mem_filter.mpr ⟨hlistens, decide_eq_true hne⟩, fun hmem => ?_⟩
    rcases List.mem_append.mp hmem with hmem | hmem
    · exact hreleased hmem
    · exact hne (List.mem_singleton.mp hmem)
  · intro it hit
    exact h.listeners_lt it (List.mem_of_mem_filter hit)

theorem release_dropState (state : PendingInputTimeoutState) (owner : EntityId) (cx : TimeoutCx) :
    (cx.release owner).dropState state = (cx.dropState state).release owner := by
  cases state with
  | running startedAt id => rfl
  | paused pause =>
    unfold dropState release
    dsimp only
    rw [List.filter_comm]

end TimeoutCx

namespace TimeoutRun

variable {w : TimeoutRun}

/-! ### What every step keeps -/

/-- The timeouts, in the window and in the hands of key events. -/
def timeouts (w : TimeoutRun) : List PendingInputTimeout :=
  w.timeout.toList ++ w.handling.filterMap TimedInput.timeout

/-- The account of a timeout that has been running for `ran`. -/
def Accounts (now ran : Nat) (timeout : PendingInputTimeout) : Prop :=
  timeout.duration = pendingInputTimeout ∧
    match timeout.state with
    | .running startedAt _ =>
      startedAt ≤ now ∧ now - startedAt ≤ ran ∧
        timeout.remaining = pendingInputTimeout - (ran - (now - startedAt))
    | .paused _ => timeout.remaining = pendingInputTimeout - ran

/-- What was flushed was running, and had been for the whole duration. -/
def FlushedOnTime (flushed : Flushed) : Prop :=
  ∃ timeout startedAt, flushed.timeout = some timeout ∧
    timeout.state = .running startedAt flushed.task ∧ pendingInputTimeout ≤ flushed.ran

structure Tells (w : TimeoutRun) : Prop where
  owns : w.cx.Owns w.timeouts
  accounts : ∀ timeout, w.timeout = some timeout → Accounts w.cx.now w.ran timeout
  flushed : ∀ flushed ∈ w.flushed, FlushedOnTime flushed

theorem tells_new : Tells new where
  owns := {
    tasks_nodup := List.nodup_nil
    alive := by
      intro id
      constructor
      · rintro ⟨it, hit, -⟩
        simp [new] at hit
      · exact nofun
    arms := nofun
    subscriptions_nodup := List.nodup_nil
    listens := nofun
    listeners_lt := nofun }
  accounts := nofun
  flushed := nofun

theorem timeouts_of_some {timeout : PendingInputTimeout} (h : w.timeout = some timeout) :
    w.timeouts = timeout :: w.handling.filterMap TimedInput.timeout := by
  rw [timeouts, h]
  rfl

variable {owner : EntityId}

theorem resume_of_paused {timeout : PendingInputTimeout} {subscription : Nat}
    (htimeout : w.timeout = some timeout) (hstate : timeout.state = .paused ⟨owner, subscription⟩) :
    w.resumePendingInputTimeout owner = (true, { w with
      cx := (w.cx.startPendingInputTimeout timeout.remaining).2.dropState timeout.state
      pendingInput := some ⟨some { timeout with
        state := .running w.cx.now (w.cx.startPendingInputTimeout timeout.remaining).1 }⟩ }) := by
  have howner : timeout.pauseOwnerId = some owner := by
    rw [PendingInputTimeout.pauseOwnerId, hstate]
  unfold resumePendingInputTimeout
  rw [htimeout]
  dsimp only
  rw [if_pos howner, PendingInputTimeout.resume, hstate]
  dsimp only
  rw [if_pos rfl]

theorem resume_of_ne
    (h : ∀ timeout, w.timeout = some timeout → timeout.pauseOwnerId ≠ some owner) :
    w.resumePendingInputTimeout owner = (false, w) := by
  unfold resumePendingInputTimeout
  split
  · rfl
  · rename_i timeout htimeout
    rw [if_neg (h timeout htimeout)]

theorem accounts_started {now ran task : Nat} {timeout : PendingInputTimeout}
    {pause : PendingInputTimeoutPause} (h : Accounts now ran timeout) (hstate : timeout.state = .paused pause) :
    Accounts now ran { timeout with state := .running now task } := by
  obtain ⟨hduration, hremaining⟩ := h
  rw [hstate] at hremaining
  refine ⟨hduration, le_rfl, ?_, ?_⟩
  · rw [Nat.sub_self]
    exact Nat.zero_le _
  · rw [Nat.sub_self, Nat.sub_zero]
    exact hremaining

theorem accounts_paused {now ran startedAt task : Nat} {timeout : PendingInputTimeout}
    {pause : PendingInputTimeoutPause} (h : Accounts now ran timeout)
    (hstate : timeout.state = .running startedAt task) :
    Accounts now ran { timeout with
      remaining := timeout.remaining - (now - startedAt), state := .paused pause } := by
  obtain ⟨hduration, hremaining⟩ := h
  rw [hstate] at hremaining
  obtain ⟨-, hran, hremaining⟩ := hremaining
  refine ⟨hduration, ?_⟩
  show timeout.remaining - (now - startedAt) = pendingInputTimeout - ran
  rw [hremaining, Nat.sub_sub, Nat.sub_add_cancel hran]

theorem Tells.resume (h : w.Tells) (owner : EntityId) : (w.resumePendingInputTimeout owner).2.Tells := by
  by_cases hpaused : ∃ timeout, w.timeout = some timeout ∧ timeout.pauseOwnerId = some owner
  · obtain ⟨timeout, htimeout, howner⟩ := hpaused
    obtain ⟨subscription, hstate⟩ := PendingInputTimeout.pauseOwnerId_eq_some howner
    rw [resume_of_paused htimeout hstate]
    have hstarted := (timeouts_of_some htimeout ▸ h.owns).start timeout.duration timeout.remaining
    exact {
      owns := (hstarted.perm (List.Perm.swap _ _ _)).dropState
      accounts := by
        rintro _ heq
        obtain rfl := Option.some.inj heq
        show Accounts (TimeoutCx.dropState _ _).now _ _
        rw [TimeoutCx.dropState_now]
        exact accounts_started (h.accounts timeout htimeout) hstate
      flushed := h.flushed }
  · rw [resume_of_ne fun timeout htimeout howner => hpaused ⟨timeout, htimeout, howner⟩]
    exact h

theorem Tells.setPaused (h : w.Tells) (paused : Bool)
    (hreleased : owner ∉ w.cx.released) : (w.setPendingInputTimeoutPaused owner paused).2.Tells := by
  unfold setPendingInputTimeoutPaused
  split_ifs
  · split
    · exact h
    · rename_i timeout htimeout
      split_ifs with hpaused
      · exact h
      · dsimp only
        obtain ⟨startedAt, id, hstate⟩ : ∃ startedAt id, timeout.state = .running startedAt id := by
          cases hstate : timeout.state with
          | running startedAt id => exact ⟨startedAt, id, rfl⟩
          | paused pause =>
            rw [PendingInputTimeout.isPaused, hstate] at hpaused
            exact absurd rfl hpaused
        rw [PendingInputTimeout.pause, hstate]
        have howns := (timeouts_of_some htimeout ▸ h.owns).dropState
        rw [hstate] at howns
        exact {
          owns := howns.observe hreleased rfl
          accounts := by
            rintro _ heq
            obtain rfl := Option.some.inj heq
            exact accounts_paused (h.accounts timeout htimeout) hstate
          flushed := h.flushed }
  · exact h.resume owner

theorem filterMap_timeout_cons (input : TimedInput) (handling : List TimedInput) :
    (input :: handling).filterMap TimedInput.timeout =
      input.timeout.toList ++ handling.filterMap TimedInput.timeout := by
  rw [List.filterMap_cons]
  cases input.timeout with
  | none => rfl
  | some timeout => rfl

theorem Tells.beginKey (h : w.Tells) : w.beginKey.Tells where
  owns := by
    have hsame : w.beginKey.timeouts = w.timeouts := by
      have htaken : (w.pendingInput.getD ⟨none⟩).timeout = w.timeout := by
        unfold timeout
        cases w.pendingInput with
        | none => rfl
        | some input => rfl
      have hhandling : w.beginKey.timeouts =
          (w.pendingInput.getD ⟨none⟩ :: w.handling).filterMap TimedInput.timeout := rfl
      rw [hhandling, filterMap_timeout_cons, htaken]
      rfl
    rw [hsame]
    exact h.owns
  accounts := nofun
  flushed := h.flushed

theorem owns_new {cx : TimeoutCx} {timeouts : List PendingInputTimeout} (h : cx.Owns timeouts) :
    (cx.newPendingInputTimeout pendingInputTimeout).2.Owns
        ((cx.newPendingInputTimeout pendingInputTimeout).1 :: timeouts) ∧
      (cx.newPendingInputTimeout pendingInputTimeout).2.now = cx.now ∧
        Accounts cx.now 0 (cx.newPendingInputTimeout pendingInputTimeout).1 :=
  ⟨h.start _ _, rfl, rfl, le_rfl, (Nat.sub_self _).le, by rw [Nat.zero_sub, Nat.sub_zero]; rfl⟩

theorem owns_nextTimeout {cx : TimeoutCx} {previous : Option PendingInputTimeout}
    {timeouts : List PendingInputTimeout} (h : cx.Owns (previous.toList ++ timeouts)) :
    (nextTimeout previous cx).2.Owns ((nextTimeout previous cx).1 :: timeouts) ∧
      (nextTimeout previous cx).2.now = cx.now ∧
        Accounts cx.now 0 (nextTimeout previous cx).1 := by
  cases previous with
  | none => exact owns_new h
  | some timeout =>
    rw [nextTimeout]
    split_ifs with hpaused
    · refine ⟨h.reset hpaused _, rfl, rfl, ?_⟩
      cases hstate : timeout.state with
      | running startedAt id =>
        rw [PendingInputTimeout.isPaused, hstate] at hpaused
        cases hpaused
      | paused pause =>
        rw [PendingInputTimeout.resetDuration, hstate]
        rfl
    · obtain ⟨howns, hnow, haccounts⟩ := owns_new h.dropTimeout
      rw [TimeoutCx.dropTimeout_now] at hnow haccounts
      exact ⟨howns, hnow, haccounts⟩

theorem Tells.endKey (h : w.Tells) (pending : Bool) : (w.endKey pending).Tells := by
  unfold TimeoutRun.endKey
  split
  · exact h
  · rename_i currentlyPending handling hhandling
    have howns : w.cx.Owns (currentlyPending.timeout.toList ++
        (w.timeout.toList ++ handling.filterMap TimedInput.timeout)) := by
      refine h.owns.perm ?_
      rw [timeouts, hhandling, filterMap_timeout_cons, ← List.append_assoc, ← List.append_assoc]
      exact List.perm_append_comm.append_right _
    split_ifs
    · dsimp only
      obtain ⟨hnext, hnow, haccounts⟩ := owns_nextTimeout howns
      exact {
        owns := (hnext.perm List.perm_middle.symm).dropTimeout
        accounts := by
          rintro _ heq
          obtain rfl := Option.some.inj heq
          show Accounts (TimeoutCx.dropTimeout _ _).now 0 _
          rw [TimeoutCx.dropTimeout_now, hnow]
          exact haccounts
        flushed := h.flushed }
    · exact {
        owns := howns.dropTimeout
        accounts := by
          show ∀ timeout, w.timeout = some timeout → Accounts (TimeoutCx.dropTimeout _ _).now w.ran timeout
          rw [TimeoutCx.dropTimeout_now]
          exact h.accounts
        flushed := h.flushed }

theorem foldl_resume_of_ne (h : ∀ timeout, w.timeout = some timeout → timeout.pauseOwnerId ≠ some owner)
    (callbacks : List (Nat × EntityId)) :
    callbacks.foldl (fun w _ => (w.resumePendingInputTimeout owner).2) w = w := by
  induction callbacks with
  | nil => rfl
  | cons callback callbacks ih =>
    rw [List.foldl_cons, resume_of_ne h]
    exact ih

theorem resume_handling (owner : EntityId) (w : TimeoutRun) :
    (w.resumePendingInputTimeout owner).2.handling = w.handling := by
  unfold resumePendingInputTimeout
  split
  · rfl
  · split_ifs
    · rfl
    · rfl

theorem pauseOwnerId_resume_ne (owner : EntityId) (w : TimeoutRun) :
    ∀ timeout, (w.resumePendingInputTimeout owner).2.timeout = some timeout →
      timeout.pauseOwnerId ≠ some owner := by
  intro timeout' htimeout'
  by_cases hpaused : ∃ timeout, w.timeout = some timeout ∧ timeout.pauseOwnerId = some owner
  · obtain ⟨timeout, htimeout, howner⟩ := hpaused
    obtain ⟨subscription, hstate⟩ := PendingInputTimeout.pauseOwnerId_eq_some howner
    rw [resume_of_paused htimeout hstate] at htimeout'
    obtain rfl := Option.some.inj htimeout'
    exact nofun
  · rw [resume_of_ne fun timeout htimeout howner => hpaused ⟨timeout, htimeout, howner⟩] at htimeout'
    exact fun howner => hpaused ⟨timeout', htimeout', howner⟩

/-- **A release resumes what the owner has paused**, as its subscription is still there. -/
theorem Tells.release_eq (h : w.Tells) (hhandling : w.handling = []) (hreleased : owner ∉ w.cx.released) :
    w.release owner = { (w.resumePendingInputTimeout owner).2 with
      cx := (w.resumePendingInputTimeout owner).2.cx.release owner } := by
  unfold TimeoutRun.release
  rw [if_neg (not_or.mpr ⟨not_not.mpr hhandling, hreleased⟩)]
  by_cases hpaused : ∃ timeout, w.timeout = some timeout ∧ timeout.pauseOwnerId = some owner
  · obtain ⟨timeout, htimeout, howner⟩ := hpaused
    obtain ⟨subscription, hstate⟩ := PendingInputTimeout.pauseOwnerId_eq_some howner
    have hmem : timeout ∈ w.timeouts := by
      rw [timeouts_of_some htimeout]
      exact List.mem_cons_self
    have hcallback : (subscription, owner) ∈ w.cx.releaseListeners.filter fun it => it.2 = owner :=
      List.mem_filter.mpr ⟨(h.owns.listens timeout hmem _ hstate).1, decide_eq_true rfl⟩
    obtain ⟨callback, callbacks, hcallbacks⟩ := List.exists_cons_of_ne_nil (List.ne_nil_of_mem hcallback)
    have hfirst : (({ w with cx := w.cx.release owner } : TimeoutRun).resumePendingInputTimeout owner).2 =
        { (w.resumePendingInputTimeout owner).2 with
          cx := (w.resumePendingInputTimeout owner).2.cx.release owner } := by
      have htimeout' : ({ w with cx := w.cx.release owner } : TimeoutRun).timeout = some timeout := htimeout
      rw [resume_of_paused htimeout hstate, resume_of_paused htimeout' hstate]
      dsimp only
      rw [← TimeoutCx.release_dropState]
      rfl
    rw [hcallbacks, List.foldl_cons, hfirst]
    exact foldl_resume_of_ne (w := { (w.resumePendingInputTimeout owner).2 with
      cx := (w.resumePendingInputTimeout owner).2.cx.release owner })
      (pauseOwnerId_resume_ne owner w) callbacks
  · have hne : ∀ timeout, w.timeout = some timeout → timeout.pauseOwnerId ≠ some owner :=
      fun timeout htimeout howner => hpaused ⟨timeout, htimeout, howner⟩
    rw [resume_of_ne hne]
    exact foldl_resume_of_ne (w := { w with cx := w.cx.release owner }) hne _

theorem Tells.release (h : w.Tells) (owner : EntityId) : (w.release owner).Tells := by
  by_cases hnone : w.handling ≠ [] ∨ owner ∈ w.cx.released
  · rw [TimeoutRun.release, if_pos hnone]
    exact h
  · obtain ⟨hhandling, hreleased⟩ := not_or.mp hnone
    replace hhandling := not_not.mp hhandling
    rw [h.release_eq hhandling hreleased]
    have hresumed := h.resume owner
    exact {
      owns := by
        refine hresumed.owns.release fun timeout hmem => ?_
        rw [timeouts, resume_handling, hhandling, List.filterMap_nil, List.append_nil] at hmem
        exact pauseOwnerId_resume_ne owner w timeout (Option.mem_toList.mp hmem)
      accounts := hresumed.accounts
      flushed := hresumed.flushed }

theorem Tells.elapse (h : w.Tells) (duration : Nat) : (w.elapse duration).Tells where
  owns := h.owns.elapse duration
  accounts timeout htimeout := by
    replace htimeout : w.timeout = some timeout := htimeout
    have haccounts := h.accounts timeout htimeout
    unfold Accounts at haccounts ⊢
    rw [TimeoutRun.elapse, htimeout, Option.any_some, PendingInputTimeout.isPaused]
    cases hstate : timeout.state with
    | running startedAt id =>
      rw [hstate] at haccounts
      obtain ⟨hduration, hstarted, hran, hremaining⟩ := haccounts
      refine ⟨hduration, Nat.le_add_right_of_le hstarted, ?_, ?_⟩
      · show w.cx.now + duration - startedAt ≤ w.ran + duration
        omega
      · show timeout.remaining =
          pendingInputTimeout - (w.ran + duration - (w.cx.now + duration - startedAt))
        rw [hremaining]
        omega
    | paused pause =>
      rw [hstate] at haccounts
      exact haccounts
  flushed := h.flushed

theorem Tells.poll (h : w.Tells) (id : Nat) : ({ w with cx := w.cx.poll id } : TimeoutRun).Tells where
  owns := h.owns.poll id
  accounts := h.accounts
  flushed := h.flushed

/-- **What a task flushes is its own timeout**, after the whole duration. -/
theorem Tells.expired (h : w.Tells) {id : Nat} (hhandling : w.handling = [])
    (hexpired : w.cx.expired id = true) :
    ∃ timeout startedAt, w.timeout = some timeout ∧ timeout.state = .running startedAt id ∧
      pendingInputTimeout ≤ w.ran := by
  obtain ⟨it, hit, hdue⟩ := (Option.any_eq_true _ _).mp hexpired
  obtain ⟨halive, hdue⟩ := (Bool.and_eq_true_iff).mp hdue
  obtain ⟨due, hsome, hle⟩ := (Option.any_eq_true _ _).mp hdue
  have hmem := (h.owns.alive id).mp ⟨it, hit, halive⟩
  obtain ⟨timeout, htimeout, htask⟩ := List.mem_filterMap.mp hmem
  have hwindow : w.timeout = some timeout := by
    rw [timeouts, hhandling, List.filterMap_nil, List.append_nil] at htimeout
    exact Option.mem_toList.mp htimeout
  cases hstate : timeout.state with
  | paused pause =>
    rw [task, hstate] at htask
    cases htask
  | running startedAt other =>
    rw [task, hstate] at htask
    obtain rfl := Option.some.inj htask
    refine ⟨timeout, startedAt, hwindow, hstate, ?_⟩
    obtain ⟨old, hold, -, -, hpolled⟩ := h.owns.arms timeout htimeout startedAt other hstate
    obtain rfl := Option.some.inj (hit.symm.trans hold)
    obtain ⟨polled, hstarted, -, rfl⟩ := hpolled due hsome
    have haccounts := (h.accounts timeout hwindow).2
    rw [hstate] at haccounts
    obtain ⟨-, hran, hremaining⟩ := haccounts
    replace hle := of_decide_eq_true hle
    rw [hremaining] at hle
    omega

theorem Tells.fire (h : w.Tells) (id : Nat) : (w.fire id).Tells := by
  unfold TimeoutRun.fire
  split_ifs with hfire
  · obtain ⟨hhandling, hexpired⟩ := hfire
    obtain ⟨timeout, startedAt, htimeout, hstate, hran⟩ := h.expired hhandling hexpired
    have hnil : w.handling.filterMap TimedInput.timeout = [] := by
      rw [hhandling]
      rfl
    have howns := h.owns
    rw [timeouts_of_some htimeout, hnil] at howns
    have hids : ∀ other, other ∈ ([] : List PendingInputTimeout).filterMap task ↔
        other ∈ [timeout].filterMap task ∧ other ≠ id := by
      intro other
      have htask : timeout.task = some id := by rw [task, hstate]
      rw [List.filterMap_cons_some htask, List.filterMap_nil, List.mem_singleton]
      exact ⟨nofun, fun h => absurd h.1 h.2⟩
    have hdropped := howns.dropTask (List.nil_sublist _) hids w.cx.now
    exact {
      owns := by
        show (TimeoutCx.dropTimeout w.timeout _).Owns (w.handling.filterMap TimedInput.timeout)
        rw [htimeout, hnil, TimeoutCx.dropTimeout, hstate]
        -- the task is done already
        exact hdropped.dropTask (List.nil_sublist _) (fun other => ⟨nofun, fun h => h.1⟩) startedAt
      accounts := nofun
      flushed := by
        intro flushed hmem
        rcases List.mem_append.mp hmem with hmem | hmem
        · exact h.flushed flushed hmem
        · obtain rfl := List.mem_singleton.mp hmem
          exact ⟨timeout, startedAt, htimeout, hstate, hran⟩ }
  · exact h

theorem Tells.step (h : w.Tells) (act : TimeoutAct) : (w.step act).Tells := by
  cases act with
  | beginKey => exact h.beginKey
  | endKey pending => exact h.endKey pending
  | setPaused owner paused =>
    unfold TimeoutRun.step
    dsimp only
    split_ifs with hreleased
    · exact h
    · exact h.setPaused paused hreleased
  | release owner => exact h.release owner
  | elapse duration => exact h.elapse duration
  | poll id =>
    unfold TimeoutRun.step
    dsimp only
    split_ifs
    · exact h.poll id
    · exact h
  | fire id => exact h.fire id

/-! ### Runs -/

def run (acts : List TimeoutAct) : TimeoutRun := acts.foldl step new

theorem tells_run (acts : List TimeoutAct) : (run acts).Tells := by
  induction acts using List.reverseRecOn with
  | nil => exact tells_new
  | append_singleton acts act ih =>
    rw [run, List.foldl_concat]
    exact ih.step act

/-- The timeout in the window is paused by the owner. -/
def PausedBy (w : TimeoutRun) (owner : EntityId) : Prop :=
  ∃ timeout, w.timeout = some timeout ∧ timeout.pauseOwnerId = some owner

/-- And here it runs. -/
def Runs (w : TimeoutRun) : Prop := ∃ timeout, w.timeout = some timeout ∧ timeout.isPaused = false

/-- What is expected of a state. -/
structure Conserved (w : TimeoutRun) : Prop where
  /-- The remaining time is the full duration without the time that the timeout has been running. -/
  remaining : ∀ timeout, w.timeout = some timeout → timeout.duration = pendingInputTimeout ∧
    timeout.status.remainingAt w.cx.now = pendingInputTimeout - w.ran
  /-- The task of a timeout that runs is alive.  It was given the remaining time of the instant at which it
  was started, and its timer is made with that. -/
  armed : ∀ timeout, w.timeout = some timeout → ∀ startedAt id, timeout.state = .running startedAt id →
    w.cx.Alive id ∧
      w.cx.Arms (pendingInputTimeout - (w.ran - (w.cx.now - startedAt))) startedAt id
  /-- A timeout that is paused has no task. -/
  cancelled : ∀ owner, w.PausedBy owner → w.handling = [] → ∀ id, ¬ w.cx.Alive id
  /-- What was flushed was running, and there was no time left. -/
  flushed : ∀ flushed ∈ w.flushed, FlushedOnTime flushed
  /-- An owner that has been released has paused nothing. -/
  released : ∀ timeout ∈ w.timeouts, ∀ owner, timeout.pauseOwnerId = some owner → owner ∉ w.cx.released

/-- And of a step. -/
structure Handed (w : TimeoutRun) (act : TimeoutAct) (w' : TimeoutRun) : Prop where
  /-- Only its owner or the release of its owner resumes a timeout; a key event may put another one in
  its place. -/
  onlyOwner : ∀ owner, w.PausedBy owner → w'.Runs →
    act = .endKey true ∨ act = .setPaused owner false ∨ act = .release owner
  /-- And these do. -/
  resumed : ∀ owner, w.PausedBy owner →
    act = .setPaused owner false ∨ act = .release owner ∧ w.handling = [] → w'.Runs
  /-- What a key event has taken it puts back as it was, with the full duration. -/
  putBack : ∀ timeout handling, w.handling = ⟨some timeout⟩ :: handling → act = .endKey true →
    timeout.isPaused = true → w'.timeout = some (timeout.resetDuration pendingInputTimeout)

theorem Tells.conserved (h : w.Tells) : w.Conserved where
  remaining timeout htimeout := by
    obtain ⟨hduration, hremaining⟩ := h.accounts timeout htimeout
    refine ⟨hduration, ?_⟩
    cases hstate : timeout.state with
    | running startedAt id =>
      rw [hstate] at hremaining
      obtain ⟨-, hran, hremaining⟩ := hremaining
      rw [PendingInputTimeout.status, hstate]
      show timeout.remaining - (w.cx.now - startedAt) = pendingInputTimeout - w.ran
      rw [hremaining, Nat.sub_sub, Nat.sub_add_cancel hran]
    | paused pause =>
      rw [hstate] at hremaining
      rw [PendingInputTimeout.status, hstate]
      exact hremaining
  armed timeout htimeout startedAt id hstate := by
    have hmem : timeout ∈ w.timeouts := by
      rw [timeouts_of_some htimeout]
      exact List.mem_cons_self
    have hremaining := (h.accounts timeout htimeout).2
    rw [hstate] at hremaining
    rw [← hremaining.2.2]
    refine ⟨(h.owns.alive id).mpr (List.mem_filterMap.mpr ⟨timeout, hmem, ?_⟩),
      h.owns.arms timeout hmem startedAt id hstate⟩
    rw [task, hstate]
  cancelled owner hpaused hhandling id halive := by
    obtain ⟨timeout, htimeout, howner⟩ := hpaused
    obtain ⟨subscription, hstate⟩ := PendingInputTimeout.pauseOwnerId_eq_some howner
    obtain ⟨other, hother, htask⟩ := List.mem_filterMap.mp ((h.owns.alive id).mp halive)
    rw [timeouts_of_some htimeout, hhandling] at hother
    obtain rfl := List.mem_singleton.mp hother
    rw [task, hstate] at htask
    cases htask
  flushed := h.flushed
  released timeout hmem owner howner := by
    obtain ⟨subscription, hstate⟩ := PendingInputTimeout.pauseOwnerId_eq_some howner
    exact (h.owns.listens timeout hmem _ hstate).2

variable {w' : TimeoutRun}

variable {owner : EntityId}

theorem PausedBy.not_runs (h : w.PausedBy owner) (hsame : w'.timeout = w.timeout) : ¬ w'.Runs := by
  rintro ⟨other, hother, hrunning⟩
  obtain ⟨timeout, htimeout, howner⟩ := h
  obtain ⟨subscription, hstate⟩ := PendingInputTimeout.pauseOwnerId_eq_some howner
  obtain rfl := Option.some.inj (hother.symm.trans (hsame.trans htimeout))
  rw [PendingInputTimeout.isPaused, hstate] at hrunning
  cases hrunning

theorem PausedBy.resume (h : w.PausedBy owner) : (w.resumePendingInputTimeout owner).2.Runs := by
  obtain ⟨timeout, htimeout, howner⟩ := h
  obtain ⟨subscription, hstate⟩ := PendingInputTimeout.pauseOwnerId_eq_some howner
  rw [resume_of_paused htimeout hstate]
  exact ⟨_, rfl, rfl⟩

theorem PausedBy.resume_of_ne {other : EntityId} (h : w.PausedBy owner) (hne : other ≠ owner) :
    w.resumePendingInputTimeout other = (false, w) := by
  obtain ⟨timeout, htimeout, howner⟩ := h
  refine TimeoutRun.resume_of_ne fun timeout' htimeout' howner' => hne ?_
  obtain rfl := Option.some.inj (htimeout.symm.trans htimeout')
  exact Option.some.inj (howner'.symm.trans howner)

theorem PausedBy.setPaused (h : w.PausedBy owner) (other : EntityId) :
    w.setPendingInputTimeoutPaused other true = (false, w) := by
  obtain ⟨timeout, htimeout, howner⟩ := h
  obtain ⟨subscription, hstate⟩ := PendingInputTimeout.pauseOwnerId_eq_some howner
  unfold setPendingInputTimeoutPaused
  rw [if_pos rfl, htimeout]
  dsimp only
  rw [if_pos]
  rw [PendingInputTimeout.isPaused, hstate]

theorem Tells.onlyOwner (h : w.Tells) (hpaused : w.PausedBy owner) {act : TimeoutAct}
    (hruns : (w.step act).Runs) : act = .endKey true ∨ act = .setPaused owner false ∨ act = .release owner := by
  cases act with
  | beginKey =>
    obtain ⟨timeout, htimeout, -⟩ := hruns
    cases htimeout
  | endKey pending =>
    cases pending with
    | true => exact Or.inl rfl
    | false =>
      refine absurd hruns (hpaused.not_runs ?_)
      show (w.endKey false).timeout = w.timeout
      unfold TimeoutRun.endKey
      split
      · rfl
      · rfl
  | setPaused other paused =>
    rw [TimeoutRun.step] at hruns
    split_ifs at hruns
    · exact absurd hruns (hpaused.not_runs rfl)
    · cases paused with
      | true =>
        rw [hpaused.setPaused] at hruns
        exact absurd hruns (hpaused.not_runs rfl)
      | false =>
        by_cases hother : other = owner
        · exact Or.inr (Or.inl (hother ▸ rfl))
        · replace hruns : (w.resumePendingInputTimeout other).2.Runs := hruns
          rw [hpaused.resume_of_ne hother] at hruns
          exact absurd hruns (hpaused.not_runs rfl)
  | release other =>
    by_cases hother : other = owner
    · exact Or.inr (Or.inr (hother ▸ rfl))
    · refine absurd hruns (hpaused.not_runs ?_)
      show (w.release other).timeout = w.timeout
      by_cases hnone : w.handling ≠ [] ∨ other ∈ w.cx.released
      · rw [TimeoutRun.release, if_pos hnone]
      · obtain ⟨hhandling, hreleased⟩ := not_or.mp hnone
        rw [h.release_eq (not_not.mp hhandling) hreleased, hpaused.resume_of_ne hother]
        rfl
  | elapse duration => exact absurd hruns (hpaused.not_runs rfl)
  | poll id =>
    rw [TimeoutRun.step] at hruns
    split_ifs at hruns
    · exact absurd hruns (hpaused.not_runs rfl)
    · exact absurd hruns (hpaused.not_runs rfl)
  | fire id =>
    replace hruns : (w.fire id).Runs := hruns
    unfold TimeoutRun.fire at hruns
    split_ifs at hruns
    · obtain ⟨timeout, htimeout, -⟩ := hruns
      cases htimeout
    · exact absurd hruns (hpaused.not_runs rfl)

theorem Tells.handed (h : w.Tells) (act : TimeoutAct) : Handed w act (w.step act) where
  onlyOwner owner hpaused hruns := h.onlyOwner hpaused hruns
  resumed owner hpaused hact := by
    obtain ⟨timeout, htimeout, howner⟩ := id hpaused
    have hmem : timeout ∈ w.timeouts := by
      rw [timeouts_of_some htimeout]
      exact List.mem_cons_self
    have hreleased := h.conserved.released timeout hmem owner howner
    rcases hact with rfl | ⟨rfl, hhandling⟩
    · rw [TimeoutRun.step, if_neg hreleased]
      exact hpaused.resume
    · show (w.release owner).Runs
      rw [h.release_eq hhandling hreleased]
      exact hpaused.resume
  putBack timeout handling hhandling hact hpaused := by
    subst hact
    show (w.endKey true).timeout = _
    unfold TimeoutRun.endKey
    rw [hhandling]
    dsimp only
    rw [if_pos rfl]
    show some (nextTimeout (some timeout) w.cx).1 = _
    rw [nextTimeout, if_pos hpaused]

/-- **Pausing conserves the timeout of pending input.** -/
theorem timeout_conserved (acts : List TimeoutAct) :
    (run acts).Conserved ∧ ∀ act, Handed (run acts) act ((run acts).step act) :=
  ⟨(tells_run acts).conserved, (tells_run acts).handed⟩

/-- Paused at half time, resumed by a release, and flushed after the other half. -/
example : (run [.beginKey, .endKey true, .poll 0, .elapse 500000000, .setPaused 7 true, .elapse 9000000000,
    .setPaused 8 false, .fire 0, .release 7, .poll 1, .elapse 500000000, .fire 1]).flushed =
      [⟨1, some ⟨1000000000, 500000000, .running 9500000000 1⟩, 1000000000⟩] := by
  decide

end TimeoutRun

end FcGpui
