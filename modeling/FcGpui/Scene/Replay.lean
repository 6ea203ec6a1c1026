import FcGpui.Scene.Scene

/-!
# Replaying a finished scene

A paint operation names a primitive by its index, and `finish` may move the
primitives between the recording and the replay.  `ReplayFaithful` is what view
caching relies on: whatever range of operations is replayed, and into whatever
scene, the calls made are the calls that were recorded, up to draw order and
path number.

Before `finish` this always holds: the operations recorded read back as the
calls that were made (`records_run_clear`).  `finish` keeps the operations and
rearranges the vectors, so the replay is faithful exactly when the contents of
every vector stay where they were, and `replayFaithful_finish_iff` gives the
condition on the scene before `finish`: every vector is `Settled` in its sort
key.  `not_replayFaithful_finish` is a scene of three quads where it is not.
-/

namespace FcGpui

/-- A call without the fields an insertion assigns. -/
def SceneOp.content {U ρ : Type} : SceneOp U ρ → SceneOp U ρ
  | .pushLayer bounds => .pushLayer bounds
  | .popLayer => .popLayer
  | .insertPrimitive p => .insertPrimitive p.content

/-- What a call leaves in the list of paint operations; a culled primitive
leaves nothing. -/
def SceneOp.recorded {U ρ : Type} [AddCommGroup U] [LinearOrder U] :
    SceneOp U ρ → Option (SceneOp U ρ)
  | .insertPrimitive p => if p.culled then none else some (.insertPrimitive p.content)
  | op => some op.content

namespace Scene

variable {U ρ : Type} [AddCommGroup U] [LinearOrder U]

/-- The recorded calls of a whole painting. -/
def recordedOps (ops : List (SceneOp U ρ)) : List (SceneOp U ρ) := ops.filterMap SceneOp.recorded

/-- The calls a replay of `start..stop` makes. -/
def replayCalls (prev : Scene U ρ) (start stop : Nat) : Option (List (SceneOp U ρ)) :=
  (slice prev.paintOperations start stop).bind fun operations => operations.mapM prev.fetch

theorem replay_eq (s prev : Scene U ρ) (start stop : Nat) :
    s.replay start stop prev = (prev.replayCalls start stop).map s.run := by
  rw [replay, replayCalls]
  cases slice prev.paintOperations start stop with
  | none => rfl
  | some operations =>
    simp only [Option.bind_eq_bind, Option.bind_some]
    induction operations generalizing s with
    | nil => rfl
    | cons operation operations ih =>
      rw [List.foldlM_cons, List.mapM_cons]
      cases prev.fetch operation with
      | none => rfl
      | some call =>
        rw [Option.map_some, Option.bind_eq_bind, Option.bind_some, ih (s.perform call)]
        cases operations.mapM prev.fetch <;> rfl

/-- **Frame reuse reproduces the paint.**  Every range of the operations of
`prev`, replayed into any scene, makes the calls recorded in that range of the
painting `ops`, up to draw order and path number. -/
def ReplayFaithful (ops : List (SceneOp U ρ)) (prev : Scene U ρ) : Prop :=
  ∀ start stop, start ≤ stop → stop ≤ prev.paintOperations.length →
    ∃ calls, prev.replayCalls start stop = some calls ∧
      calls.map SceneOp.content = ((recordedOps ops).drop start).take (stop - start) ∧
      ∀ s : Scene U ρ, s.replay start stop prev = some (s.run calls)

/-! ### Reading the operations back -/

/-- What an operation reads as, without the fields an insertion assigns. -/
def fetched (s : Scene U ρ) (operation : PaintOperation U) : Option (SceneOp U ρ) :=
  (s.fetch operation).map SceneOp.content

omit [AddCommGroup U] [LinearOrder U] in
theorem fetched_primitive (s : Scene U ρ) (kind : PrimitiveKind) (index : Nat) :
    s.fetched (.primitive kind index)
      = (((s.items kind).map Primitive.content)[index]?).map .insertPrimitive := by
  rw [fetched, fetch, List.getElem?_map]
  cases (s.items kind)[index]? <;> rfl

/-- The invariant of a painting: the operations read back as the recorded
calls, and every primitive is named by one of them. -/
structure Records (s : Scene U ρ) (calls : List (SceneOp U ρ)) : Prop where
  fetched : s.paintOperations.map s.fetched = calls.map some
  named : ∀ kind index, index < (s.items kind).length →
    .primitive kind index ∈ s.paintOperations

variable {s : Scene U ρ} {operation : PaintOperation U} {ops : List (SceneOp U ρ)}

omit [AddCommGroup U] [LinearOrder U] in
theorem Records.length_eq {calls : List (SceneOp U ρ)} (h : s.Records calls) :
    s.paintOperations.length = calls.length := by
  have := congrArg List.length h.fetched
  simpa using this

omit [AddCommGroup U] [LinearOrder U] in
/-- What an operation reads as does not change while the vectors only grow. -/
theorem fetched_of_prefix {s' : Scene U ρ} (h : ∀ kind, s.items kind <+: s'.items kind)
    {call : SceneOp U ρ} (hf : s.fetched operation = some call) : s'.fetched operation = some call := by
  cases operation with
  | startLayer bounds => exact hf
  | endLayer => exact hf
  | primitive kind index =>
    rw [fetched_primitive] at hf ⊢
    obtain ⟨more, hmore⟩ := h kind
    rw [← hmore, List.map_append]
    obtain ⟨p, hp, rfl⟩ := Option.map_eq_some_iff.mp hf
    rw [List.getElem?_append_left (List.getElem?_eq_some_iff.mp hp).1, hp]
    rfl

omit [AddCommGroup U] [LinearOrder U] in
theorem Records.extend {calls : List (SceneOp U ρ)} (h : s.Records calls)
    (s' : Scene U ρ) (hpre : ∀ kind, s.items kind <+: s'.items kind)
    {call : SceneOp U ρ} (hops : s'.paintOperations = s.paintOperations ++ [operation])
    (hf : s'.fetched operation = some call) (hnamed : ∀ kind index, index < (s'.items kind).length →
    index < (s.items kind).length ∨ operation = .primitive kind index) : s'.Records (calls ++ [call]) := by
  constructor
  · rw [hops, List.map_append, List.map_append, List.map_singleton, List.map_singleton, hf,
      ← h.fetched]
    congr 1
    refine List.map_congr_left fun o ho => ?_
    have hmem : s.fetched o ∈ calls.map some := by
      rw [← h.fetched]; exact List.mem_map_of_mem ho
    obtain ⟨c, -, hc⟩ := List.mem_map.mp hmem
    rw [← hc]
    exact fetched_of_prefix hpre hc.symm
  · intro kind index hi
    rw [hops]
    rcases hnamed kind index hi with hold | rfl
    · exact List.mem_append_left _ (h.named kind index hold)
    · exact List.mem_append_right _ (List.mem_singleton_self _)

theorem insertPrimitive_of_not_culled {p : Primitive U ρ} (h : p.culled = false) :
    s.insertPrimitive p =
      { s with
        primitiveBounds := (s.nextOrder p.clippedBounds).2
        items := Function.update s.items p.kind (s.items p.kind ++
          [p.stored (s.nextOrder p.clippedBounds).1 (s.items p.kind).length])
        paintOperations := s.paintOperations ++ [.primitive p.kind (s.items p.kind).length] } := by
  rw [insertPrimitive, if_neg (by simp [h])]

theorem Records.perform {calls : List (SceneOp U ρ)} (h : s.Records calls)
    (op : SceneOp U ρ) : (s.perform op).Records (calls ++ op.recorded.toList) := by
  cases op with
  | pushLayer bounds =>
    exact h.extend (s.pushLayer bounds) (fun _ => List.prefix_rfl) rfl rfl (fun _ _ hi => Or.inl hi)
  | popLayer =>
    exact h.extend s.popLayer (fun _ => List.prefix_rfl) rfl rfl (fun _ _ hi => Or.inl hi)
  | insertPrimitive p =>
    cases hc : p.culled with
    | true =>
      have hs : s.insertPrimitive p = s := by rw [insertPrimitive, if_pos hc]
      rw [Scene.perform, hs, SceneOp.recorded, if_pos hc, Option.toList_none, List.append_nil]
      exact h
    | false =>
      have hi := insertPrimitive_of_not_culled (s := s) hc
      rw [SceneOp.recorded, if_neg (by simp [hc]), Option.toList_some]
      refine h.extend (s.insertPrimitive p) ?_
        (show _ = _ ++ [.primitive p.kind (s.items p.kind).length] from ?_) ?_ ?_
      · intro kind
        rw [hi]
        by_cases hk : kind = p.kind
        · subst hk; simp
        · simp [Function.update_of_ne hk]
      · rw [hi]
      · rw [fetched_primitive, hi]
        simp
      · intro kind index hidx
        rw [hi] at hidx
        by_cases hk : kind = p.kind
        · subst hk
          simp only [Function.update_self, List.length_append, List.length_singleton] at hidx
          rcases Nat.lt_succ_iff_lt_or_eq.mp hidx with hlt | rfl
          · exact Or.inl hlt
          · exact Or.inr rfl
        · simp only [Function.update_of_ne hk] at hidx
          exact Or.inl hidx

theorem Records.run :
    ∀ {s : Scene U ρ} {calls : List (SceneOp U ρ)}, s.Records calls →
      (s.run ops).Records (calls ++ recordedOps ops) := by
  induction ops with
  | nil => intro s calls h; simpa [Scene.run, recordedOps] using h
  | cons op ops ih =>
    intro s calls h
    have := ih (h.perform op)
    rw [List.append_assoc] at this
    have hcons : op.recorded.toList ++ recordedOps ops = recordedOps (op :: ops) := by
      rw [recordedOps, recordedOps, List.filterMap_cons]
      cases op.recorded <;> rfl
    rwa [hcons] at this

/-- **The operations of a painting read back as the calls that were made.** -/
theorem records_run_clear (s : Scene U ρ) (ops : List (SceneOp U ρ)) :
    (s.clear.run ops).Records (recordedOps ops) := by
  have h : s.clear.Records [] := ⟨rfl, fun _ _ hi => absurd hi (by simp [clear])⟩
  have hrun : (s.clear.run ops).Records ([] ++ recordedOps ops) := h.run
  simpa using hrun

/-! ### The replay of a finished scene -/

omit [AddCommGroup U] [LinearOrder U] in
/-- Operations read back as the calls `m` when, and only when, the replay
makes calls with the contents of `m`. -/
theorem map_fetched_eq_iff (prev : Scene U ρ) (operations : List (PaintOperation U)) :
    ∀ m : List (SceneOp U ρ), operations.map prev.fetched = m.map some ↔
      ∃ calls, operations.mapM prev.fetch = some calls ∧ calls.map SceneOp.content = m := by
  induction operations with
  | nil =>
    intro m
    cases m with
    | nil => simp
    | cons c m => simp
  | cons o operations ih =>
    intro m
    rw [List.mapM_cons]
    constructor
    · intro h
      cases m with
      | nil => simp at h
      | cons c m =>
        rw [List.map_cons, List.map_cons, List.cons.injEq] at h
        obtain ⟨calls, hc, hm⟩ := (ih m).mp h.2
        obtain ⟨call, hcall, hcc⟩ := Option.map_eq_some_iff.mp h.1
        exact ⟨call :: calls, by simp [hcall, hc], by simp [hcc, hm]⟩
    · intro h
      obtain ⟨calls, hc, rfl⟩ := h
      cases hf : prev.fetch o with
      | none => simp [hf] at hc
      | some call =>
        cases hr : operations.mapM prev.fetch with
        | none => simp [hf, hr] at hc
        | some rest =>
          obtain rfl : call :: rest = calls := by simpa [hf, hr] using hc
          rw [List.map_cons, List.map_cons, List.map_cons, fetched, hf, (ih _).mpr ⟨rest, hr, rfl⟩]
          rfl

/-- A replay is faithful when, and only when, every operation reads back as the
call recorded at its place. -/
theorem replayFaithful_iff {prev : Scene U ρ} (hlen : prev.paintOperations.length = (recordedOps ops).length) :
    ReplayFaithful ops prev ↔
      prev.paintOperations.map prev.fetched = (recordedOps ops).map some := by
  constructor
  · intro h
    obtain ⟨calls, hc, hm, -⟩ := h 0 prev.paintOperations.length (Nat.zero_le _) le_rfl
    rw [replayCalls, slice_eq_some (Nat.zero_le _) le_rfl, Option.bind_some, List.drop_zero,
      Nat.sub_zero, List.take_length] at hc
    rw [List.drop_zero, Nat.sub_zero, hlen, List.take_length] at hm
    exact (map_fetched_eq_iff prev _ _).mpr ⟨calls, hc, hm⟩
  · intro h start stop hle hstop
    have hsub := congrArg (fun l => (l.drop start).take (stop - start)) h
    simp only [← List.map_drop, ← List.map_take] at hsub
    obtain ⟨calls, hc, hm⟩ := (map_fetched_eq_iff prev _ _).mp hsub
    have hcalls : prev.replayCalls start stop = some calls := by
      rw [replayCalls, slice_eq_some hle hstop, Option.bind_some, hc]
    refine ⟨calls, hcalls, hm, fun s => ?_⟩
    rw [replay_eq, hcalls]
    rfl

omit [AddCommGroup U] [LinearOrder U] in
theorem fetched_congr {s' : Scene U ρ} (h : ∀ kind index, operation = .primitive kind index →
    ((s'.items kind).map Primitive.content)[index]?
    = ((s.items kind).map Primitive.content)[index]?) : s'.fetched operation = s.fetched operation := by
  cases operation with
  | primitive kind index => rw [fetched_primitive, fetched_primitive, h kind index rfl]
  | startLayer bounds => rfl
  | endLayer => rfl

/-- A finished scene replays faithfully when, and only when, finishing kept the
contents of every vector in place. -/
theorem replayFaithful_finish_of_records (h : s.Records (recordedOps ops)) (sorts : Sorts U ρ) :
    ReplayFaithful ops (s.finish sorts) ↔
      ∀ kind, ((sorts kind).settle (s.items kind)).map Primitive.content
        = (s.items kind).map Primitive.content := by
  have hops : (s.finish sorts).paintOperations = s.paintOperations := rfl
  rw [replayFaithful_iff (by rw [hops, h.length_eq]), ← h.fetched, hops, List.map_inj_left]
  constructor
  · intro hall kind
    have hlen := ((sorts kind).settle_perm (s.items kind)).length_eq
    refine List.ext_getElem? fun index => ?_
    by_cases hi : index < (s.items kind).length
    · have hat := hall _ (h.named kind index hi)
      rw [fetched_primitive, fetched_primitive] at hat
      refine Option.map_injective ?_ hat
      intro p q hpq
      exact SceneOp.insertPrimitive.inj hpq
    · rw [List.getElem?_eq_none (by rw [List.length_map, hlen]; omega),
        List.getElem?_eq_none (by rw [List.length_map]; omega)]
  · intro hall operation _
    refine fetched_congr fun kind index _ => ?_
    exact congrArg (·[index]?) (hall kind)

/-- **Replay after `finish`.**  A painting replays faithfully, whatever the
unstable sorts do with ties, when and only when each vector is settled in its
sort key: its keys ascend already, so that nothing is sorted, or sorting cannot
put a primitive of another content anywhere. -/
theorem replayFaithful_finish_iff (s : Scene U ρ) (ops : List (SceneOp U ρ)) :
    (∀ sorts : Sorts U ρ, ReplayFaithful ops ((s.clear.run ops).finish sorts)) ↔
      ∀ kind, Settled Primitive.sortKey Primitive.content ((s.clear.run ops).items kind) := by
  have hrec := records_run_clear s ops
  constructor
  · intro h kind
    refine settle_map_eq_iff.mp fun sort => ?_
    exact (replayFaithful_finish_of_records hrec _).mp (h fun _ => sort) kind
  · intro h sorts
    refine (replayFaithful_finish_of_records hrec sorts).mpr fun kind => ?_
    exact settle_map_eq_iff.mpr (h kind) (sorts kind)

/-! ### A painting that is not reproduced -/

/-- A quad of opaque blend mode that is its own content mask. -/
def quadAt (x y width height : Int) (tag : Nat) : Primitive Int Nat :=
  let bounds : Bounds Int := ⟨⟨x, y⟩, ⟨width, height⟩⟩
  ⟨0, bounds, ⟨bounds⟩, .quad 0, tag⟩

/-- The second quad covers the first, so it is drawn above it; the third is
apart from both and is drawn with the first. -/
def overlappingQuads : List (SceneOp Int Nat) :=
  [.insertPrimitive (quadAt 0 0 10 10 1), .insertPrimitive (quadAt 5 5 10 10 2),
    .insertPrimitive (quadAt 100 100 10 10 3)]

/-- The scene the three quads are painted into. -/
def emptyScene : Scene Int Nat := ⟨[], ⟨[], none, none⟩, [], fun _ => []⟩

/-- `finish` moves the third quad before the second, so the operation that
recorded the second replays another quad, whatever the sort does with ties. -/
theorem not_replayFaithful_finish : ¬ ∃ sorts : Sorts Int Nat, ReplayFaithful overlappingQuads
    ((emptyScene.clear.run overlappingQuads).finish sorts) := by
  intro h
  obtain ⟨sorts, h⟩ := h
  have hrec := records_run_clear emptyScene overlappingQuads
  have hq := (replayFaithful_finish_of_records hrec sorts).mp h .quad
  have hl : (emptyScene.clear.run overlappingQuads).items .quad =
      [(quadAt 0 0 10 10 1).stored 1 0, (quadAt 5 5 10 10 2).stored 2 1,
        (quadAt 100 100 10 10 3).stored 1 2] := by decide
  rw [hl] at hq
  set l := [(quadAt 0 0 10 10 1).stored 1 0, (quadAt 5 5 10 10 2).stored 2 1,
    (quadAt 100 100 10 10 3).stored 1 2] with hdef
  have hperm := (sorts .quad).settle_perm l
  obtain ⟨e, he, hce⟩ : ∃ e, ((sorts .quad).settle l)[1]? = some e ∧
      e.content = (quadAt 5 5 10 10 2).content := by
    have hat := congrArg (·[1]?) hq
    simp only [List.getElem?_map] at hat
    exact Option.map_eq_some_iff.mp hat
  have hmem : e ∈ l := hperm.mem_iff.mp (List.mem_of_getElem? he)
  have hsecond : e = (quadAt 5 5 10 10 2).stored 2 1 := by
    rw [hdef] at hmem
    simp only [List.mem_cons, List.not_mem_nil, or_false] at hmem
    rcases hmem with rfl | rfl | rfl
    · exact absurd hce (by decide)
    · rfl
    · exact absurd hce (by decide)
  obtain ⟨hrank, -⟩ := rank_of_sorted ((sorts .quad).settle_sorted l) he
  rw [rankLt_perm hperm, hsecond] at hrank
  exact absurd hrank (by decide)

end Scene

end FcGpui
