import RedRoomRewards.Ingest.PollLoop
import Mathlib.Data.List.Induction

/-! When a worker has a single poll loop. A worker that is stopped and started again while
a loop sleeps has two. -/
namespace RedRoomRewards.Ingest
namespace PollingWorker

/-- At most one loop can still run another batch, and at most one is running one. -/
structure Single (s : PollingWorker) : Prop where
  left : ∀ i j, s.CanRun i → s.CanRun j → i = j
  batches : ∀ i j : ℕ, s.loops[i]? = some .processing → s.loops[j]? = some .processing → i = j

/-- The worker runs, or its loops have all come to their end. -/
def Restartable (s : PollingWorker) : Prop := s.isRunning = true ∨ ∀ x ∈ s.loops, x = .ended

variable {s s' : PollingWorker} {a : PollAction}

private theorem single_of_live (h : ∀ i j, s.Live i → s.Live j → i = j) : s.Single where
  left := fun i j hi hj => h i j (canRun_iff_live.mp hi) (canRun_iff_live.mp hj)
  batches := fun i j hi hj => h i j ⟨_, hi, by decide⟩ ⟨_, hj, by decide⟩

private theorem Single.live (h : s.Single) {i j : ℕ} (hi : s.Live i) (hj : s.Live j) : i = j :=
  h.left i j (canRun_iff_live.mpr hi) (canRun_iff_live.mpr hj)

private theorem Restartable.not_live (h : s.Restartable) (hstopped : s.isRunning = false) {i : ℕ} : ¬ s.Live i := by
  rintro ⟨x, hx, hlive⟩
  rcases h with hrunning | hended
  · rw [hstopped] at hrunning
    cases hrunning
  · exact hlive (hended x (List.mem_of_getElem? hx))

/-- One step keeps the loop single, if it does not start a second one. -/
private theorem Single.step (h : s.Single) (hstep : s.step a = some s') (hstart : a = .start → s.Restartable) :
    s'.Single := by
  apply single_of_live
  intro i j hi hj
  rcases live_of_step hstep hi with hi | ⟨rfl, hstopped, rfl⟩
  · rcases live_of_step hstep hj with hj | ⟨rfl, hstopped, rfl⟩
    · exact h.live hi hj
    · exact absurd hi ((hstart rfl).not_live hstopped)
  · rcases live_of_step hstep hj with hj | ⟨-, -, rfl⟩
    · exact absurd hj ((hstart rfl).not_live hstopped)
    · rfl

/-- A start that leaves the loop single has found none that is live. -/
private theorem Single.restartable (h : s.start.Single) : s.Restartable := by
  rcases Bool.eq_false_or_eq_true s.isRunning with hrunning | hstopped
  · exact .inl hrunning
  · refine .inr fun x hx => ?_
    by_contra hlive
    obtain ⟨i, hi, rfl⟩ := List.mem_iff_getElem.mp hx
    rw [start_stopped hstopped] at h
    have hold : Live ⟨true, s.loops ++ [.processing]⟩ i :=
      ⟨_, (List.getElem?_append_left hi).trans (List.getElem?_eq_getElem hi), hlive⟩
    have hnew : Live ⟨true, s.loops ++ [.processing]⟩ s.loops.length :=
      ⟨.processing, List.getElem?_concat_length, by decide⟩
    exact absurd (h.live hold hnew) hi.ne

/-- In every state of a run a worker has a single poll loop if and only if no call of
`start` finds it stopped with a loop that has not come to its end. -/
theorem single_loop_iff (actions : List PollAction) :
    (∀ pre s, pre <+: actions → created.run pre = some s → s.Single) ↔
      ∀ pre s, pre ++ [.start] <+: actions → created.run pre = some s → s.Restartable := by
  constructor
  · intro hsingle pre s hpre hrun
    refine Single.restartable (hsingle (pre ++ [.start]) s.start hpre ?_)
    rw [run_concat, hrun]
    rfl
  · intro hstart pre
    induction pre using List.reverseRecOn with
    | nil =>
      intro s _ hrun
      obtain rfl : created = s := Option.some.inj hrun
      apply single_of_live
      intro i j hi
      obtain ⟨x, hx, -⟩ := hi
      cases hx
    | append_singleton pre a ih =>
      intro s' hpre hrun
      rw [run_concat] at hrun
      obtain ⟨s, hbefore, hstep⟩ := Option.bind_eq_some_iff.mp hrun
      apply (ih s ((List.prefix_append pre [a]).trans hpre) hbefore).step hstep
      rintro rfl
      exact hstart pre s hpre hbefore

/-- The worker is stopped and started again while its loop sleeps; then the loop wakes. -/
theorem two_loops : ∃ s, created.run [.start, .settle 0 (.ok ()), .stop, .start, .wake 0] = some s ∧
    s.loops[0]? = some .processing ∧ s.loops[1]? = some .processing ∧ ¬ s.Single :=
  ⟨_, rfl, rfl, rfl, fun h => absurd (h.batches 0 1 rfl rfl) (by decide)⟩

end PollingWorker
end RedRoomRewards.Ingest
