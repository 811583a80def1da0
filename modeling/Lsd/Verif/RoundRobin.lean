import Lsd.Verif.Coherence

/-!
# Fair rounds

`advance` scans the queue in cyclic order, so that a thread which can run waits
for at most as many switches as the queue has entries. The queue itself and
`sstatus` are as before, since the scan turns interrupts on only after a whole
round without a thread that can run.
-/

namespace Lsd

open Program

variable {V : Type} {s : Machine V} {j : Nat}

namespace TaskQueue

/-- Calls of `advance`, one after the other. -/
def advances : Nat → Kernel (Machine V) Unit
  | 0 => pure ()
  | rounds + 1 => do
    advance
    advances rounds

/-- The index of a machine whose index was set. -/
theorem cur_atIndex (s : Machine V) (bound : j < s.tasks.queue.length)
    (size : s.tasks.queue.length ≤ queueLimit) : (s.setTasks (s.tasks.atIndex j)).cur = j :=
  toNat_atIndex s.tasks bound size

/-- Setting the index to what it is changes nothing. -/
theorem setTasks_atIndex_cur (s : Machine V) : s.setTasks (s.tasks.atIndex s.cur) = s := by
  have same : s.tasks.atIndex s.cur = s.tasks := by
    rw [atIndex, Machine.cur, UInt64.ofNat_toNat]
  rw [same]
  rfl

/-- Calls of `advance` are scans of the queue. -/
theorem advances_run (size : s.tasks.queue.length ≤ queueLimit) {rounds k : Nat} :
    ∀ {s' : Machine V} {i : Nat}, i < s.tasks.queue.length → s' = s.setTasks (s.tasks.atIndex i) →
      Cycle.Scans s.tasks.queue.length (Runnable s.tasks.queue) rounds i k →
        (advances rounds).run s' = (.ok (), s.setTasks (s.tasks.atIndex k)) := by
  induction rounds with
  | zero =>
    rintro s' i bound rfl rfl
    rfl
  | succ rounds ih =>
    rintro s' i bound rfl ⟨stop, next, scans⟩
    have index : (s.setTasks (s.tasks.atIndex i)).cur = i := cur_atIndex s bound size
    have moved : advance.run (s.setTasks (s.tasks.atIndex i)) =
        (.ok (), s.setTasks (s.tasks.atIndex stop)) :=
      advance_run _ (index.symm ▸ bound) size (index.symm ▸ next)
    rw [advances, Prog.run_bind_ok moved]
    exact ih next.lt rfl scans

/-- `advance` goes to the next entry that can run and changes nothing but the index; an entry that
can run becomes the current one after at most as many calls as there are entries. -/
theorem advance_fair (s : Machine V) (bound : s.cur < s.tasks.queue.length)
    (size : s.tasks.queue.length ≤ queueLimit) (runnable : ∃ k, Runnable s.tasks.queue k) :
    (∃ later : Machine V, advance.run s = (.ok (), later) ∧
      later = s.setTasks (s.tasks.atIndex later.cur) ∧
      later.tasks.queue = s.tasks.queue ∧ later.sstatus = s.sstatus ∧
      Cycle.Next s.tasks.queue.length (Runnable s.tasks.queue) s.cur later.cur ∧
      (later.cur = s.cur → ∀ k, Runnable s.tasks.queue k → k = s.cur)) ∧
    ∀ k, Runnable s.tasks.queue k → ∃ rounds later, 0 < rounds ∧
      rounds ≤ s.tasks.queue.length ∧ (advances rounds).run s = (.ok (), later) ∧
      later = s.setTasks (s.tasks.atIndex k) ∧ later.cur = k := by
  constructor
  · obtain ⟨k, runs⟩ := runnable
    obtain ⟨j, next⟩ := Cycle.exists_next bound runs.lt runs
    have index : (s.setTasks (s.tasks.atIndex j)).cur = j := cur_atIndex s next.lt size
    refine ⟨_, advance_run s bound size next, by rw [index], rfl, rfl, by rwa [index], ?_⟩
    intro back other found
    by_contra elsewhere
    exact next.ne_start bound found.lt elsewhere found (index.symm.trans back)
  · intro k runs
    obtain ⟨rounds, positive, few, scans⟩ := Cycle.exists_scans_le bound runs.lt runs
    exact ⟨rounds, _, positive, few, advances_run size bound (setTasks_atIndex_cur s).symm scans,
      rfl, cur_atIndex s runs.lt size⟩

/-- Three tasks, of which the second waits and the third runs. -/
def oneWaits : Machine UInt64 :=
  (sampleMachine 2 0 0).setTasks
    ⟨[sampleTask 0, (sampleTask 1).waitFor .charIn, sampleTask 2], 2⟩

/-- The third of three tasks gives way to the first, which gives way to the third. -/
theorem advance_fair_waits :
    (oneWaits.cur < oneWaits.tasks.queue.length ∧ Runnable oneWaits.tasks.queue 2) ∧
      ∃ rounds later, 0 < rounds ∧ rounds ≤ 3 ∧
        (advances rounds).run oneWaits = (.ok (), later) ∧ later.cur = 2 := by
  have bound : oneWaits.cur < oneWaits.tasks.queue.length := by decide
  have size : oneWaits.tasks.queue.length ≤ queueLimit := (by decide : 3 ≤ queueLimit)
  have runs : Runnable oneWaits.tasks.queue 2 := ⟨sampleTask 2, rfl, rfl⟩
  obtain ⟨rounds, later, positive, few, ran, -, current⟩ :=
    (advance_fair oneWaits bound size ⟨2, runs⟩).2 2 runs
  exact ⟨⟨bound, runs⟩, rounds, later, positive, few, ran, current⟩

end TaskQueue

end Lsd
