import Lsd.Verif.RoundRobin

/-!
# What `drop_task` leaves

`drop_task` moves the last entry into the place of the dropped one and takes one
off the index in every case. To tell which thread the index names afterwards,
the entries that are left are followed back to where they were.
-/

namespace Lsd

open Program

variable {V : Type} {s : Machine V} {index i : UInt64} {count dropped target : Nat}

/-- Where the entries that are left were, before one of `count` entries was removed. -/
def origins (count dropped : Nat) : List Nat := swapRemove (List.range count) dropped

/-- The entry at a place after the removal. -/
theorem getElem?_origins (bound : dropped < count) (place : Nat) :
    (origins count dropped)[place]? =
      if place + 1 < count then some (if place = dropped then count - 1 else place) else none := by
  have inside : dropped < (List.range count).length := by rwa [List.length_range]
  rw [origins, swapRemove_getElem? inside, List.length_range]
  by_cases left : place + 1 < count
  · rw [if_pos left, if_pos left]
    by_cases here : place = dropped
    · rw [if_pos here, if_pos here, List.getElem?_range (by omega)]
    · rw [if_neg here, if_neg here, List.getElem?_range (by omega)]
  · rw [if_neg left, if_neg left]

/-- The entries that are left are all but the removed one. -/
theorem origins_perm (bound : dropped < count) :
    (origins count dropped).Perm ((List.range count).erase dropped) := by
  have inside : dropped < (List.range count).length := by rwa [List.length_range]
  have erased : (List.range count).eraseIdx dropped = (List.range count).erase dropped := by
    have taken := List.nodup_range.erase_getElem dropped inside
    rw [List.getElem_range] at taken
    exact taken.symm
  rw [← erased]
  exact swapRemove_perm inside

/-- The entries that are left, read from where they were. -/
theorem swapRemove_origins {α : Type} {elements : List α} (bound : dropped < elements.length)
    (place : Nat) : (swapRemove elements dropped)[place]? =
      (origins elements.length dropped)[place]?.bind (elements[·]?) := by
  rw [swapRemove_getElem? bound, getElem?_origins bound]
  by_cases left : place + 1 < elements.length
  · rw [if_pos left, if_pos left, Option.bind_some]
    split <;> rfl
  · rw [if_neg left, if_neg left, Option.bind_none]

/-- The index below an index; below zero it wraps. -/
theorem toNat_pred (i : UInt64) :
    (i - 1).toNat = if i.toNat = 0 then 2 ^ 64 - 1 else i.toNat - 1 := by
  have limit := i.toNat_lt
  simp only [UInt64.toNat_sub, UInt64.reduceToNat]
  split <;> omega

/-- The index below the one of an entry names it only when the entry was last and the dropped one
stood before it. -/
theorem origins_pred_iff (bound : dropped < count) (size : count ≤ queueLimit)
    (inside : i.toNat < count) :
    (origins count dropped)[(i - 1).toNat]? = some i.toNat ↔
      dropped + 2 = count ∧ i.toNat = dropped + 1 := by
  have limit : count < 2 ^ 63 := Nat.lt_of_le_of_lt size (by decide)
  rw [getElem?_origins bound, toNat_pred]
  by_cases first : i.toNat = 0
  · rw [if_pos first, if_neg (by omega)]
    simp [first]
  · rw [if_neg first, if_pos (by omega), Option.some.injEq]
    split <;> omega

namespace TaskQueue

/-- The queue is the old one without the dropped entry, and the index names the thread that goes
on: the current one, or the next that can run when the current one was dropped. -/
structure DropsTo (q : TaskQueue) (dropped : Nat) (later : TaskQueue) : Prop where
  /-- The entries that are left are all but the dropped one. -/
  removed : (origins q.queue.length dropped).Perm ((List.range q.queue.length).erase dropped)
  /-- Each is as it was. -/
  entries : ∀ place : Nat, later.queue[place]? =
    (origins q.queue.length dropped)[place]?.bind (q.queue[·]?)
  /-- The index is in range. -/
  range : later.curTaskIdx.toNat < later.queue.length
  /-- The current thread stays current unless it was dropped. -/
  keeps : q.curTaskIdx.toNat ≠ dropped →
    (origins q.queue.length dropped)[later.curTaskIdx.toNat]? = some q.curTaskIdx.toNat
  /-- When it was dropped, the next thread that can run is current. -/
  advances : q.curTaskIdx.toNat = dropped → ∀ next,
    Cycle.Next q.queue.length (Runnable q.queue) dropped next →
      (origins q.queue.length dropped)[later.curTaskIdx.toNat]? = some next

variable {q : TaskQueue}

/-- After the removal the index names the thread that goes on exactly when it is found there. -/
theorem dropsTo_iff (bound : dropped < q.queue.length)
    (goes : if q.curTaskIdx.toNat = dropped then
        Cycle.Next q.queue.length (Runnable q.queue) dropped target
      else target = q.curTaskIdx.toNat) :
    q.DropsTo dropped ⟨swapRemove q.queue dropped, i⟩ ↔
      (origins q.queue.length dropped)[i.toNat]? = some target := by
  constructor
  · intro drops
    by_cases current : q.curTaskIdx.toNat = dropped
    · rw [if_pos current] at goes
      exact drops.advances current target goes
    · rw [if_neg current] at goes
      exact goes ▸ drops.keeps current
  · intro found
    have inside : i.toNat < (swapRemove q.queue dropped).length := by
      by_contra outside
      have missing := swapRemove_origins bound i.toNat
      have outside : (swapRemove q.queue dropped)[i.toNat]? = none :=
        List.getElem?_eq_none (by omega)
      rw [outside, getElem?_origins bound] at missing
      rw [getElem?_origins bound] at found
      split at found
      · next left =>
        rw [if_pos left, Option.bind_some, eq_comm, List.getElem?_eq_none_iff] at missing
        split at missing <;> omega
      · nomatch found
    refine ⟨origins_perm bound, swapRemove_origins bound, inside, fun other => ?_,
      fun current next scan => ?_⟩
    · rw [if_neg other] at goes
      rwa [← goes]
    · rw [if_pos current] at goes
      rwa [scan.unique goes]

end TaskQueue

/-- `drop_task` of an entry other than the current one keeps the current thread, and of the current
one goes on with the next thread that can run, exactly when the dropped entry is the one before the
last and the last entry is the one that goes on. -/
theorem dropTask_drops_iff (free : s.currentUserTask = .free s.tasks)
    (size : s.tasks.queue.length ≤ queueLimit) (inside : s.cur < s.tasks.queue.length)
    (bound : index.toNat < s.tasks.queue.length)
    (other : ∃ k, k ≠ index.toNat ∧ Runnable s.tasks.queue k) :
    ∃ later, (dropTask index).run s = (.ok (), later) ∧
      (s.tasks.DropsTo index.toNat later.tasks ↔
        index.toNat + 2 = s.tasks.queue.length ∧
          (s.cur = index.toNat + 1 ∨
            (s.cur = index.toNat ∧ Runnable s.tasks.queue (index.toNat + 1)))) := by
  by_cases current : s.tasks.curTaskIdx = index
  · obtain ⟨k, apart, runs⟩ := other
    subst current
    obtain ⟨j, next⟩ := Cycle.exists_next inside runs.lt runs
    have moved : (Prog.only (s.tasks.curTaskIdx = s.tasks.curTaskIdx) TaskQueue.advance).run
        (s.setWriter true) = (.ok (), (s.setWriter true).setTasks (s.tasks.atIndex j)) := by
      rw [Prog.run_only_pos rfl]
      exact TaskQueue.advance_run (s.setWriter true) inside size next
    refine ⟨_, Machine.dropTask_run free moved bound, ?_⟩
    have place : (UInt64.ofNat j).toNat = j := TaskQueue.toNat_atIndex s.tasks next.lt size
    have goes := TaskQueue.dropsTo_iff (i := UInt64.ofNat j - 1) bound
      ((if_pos rfl).symm ▸ next : if s.tasks.curTaskIdx.toNat = s.cur then
        Cycle.Next s.tasks.queue.length (Runnable s.tasks.queue) s.cur j else j = s.cur)
    have names := origins_pred_iff (i := UInt64.ofNat j) bound size (place.symm ▸ next.lt)
    rw [place] at names
    refine goes.trans (names.trans (and_congr_right fun position => ?_))
    constructor
    · rintro rfl
      exact Or.inr ⟨rfl, next.holds⟩
    · rintro (same | ⟨-, last⟩)
      · exact absurd same (Nat.succ_ne_self _).symm
      · exact next.eq_succ (by change s.cur + 2 = _ at position; omega) last
  · have apart : s.cur ≠ index.toNat := fun same => current (UInt64.toNat_inj.mp same)
    have moved : (Prog.only (s.tasks.curTaskIdx = index) TaskQueue.advance).run
        (s.setWriter true) = (.ok (), (s.setWriter true).setTasks s.tasks) :=
      Prog.run_only_neg current _ _
    refine ⟨_, Machine.dropTask_run free moved bound, ?_⟩
    have goes := TaskQueue.dropsTo_iff (i := s.tasks.curTaskIdx - 1) bound
      ((if_neg apart).symm ▸ rfl : if s.tasks.curTaskIdx.toNat = index.toNat then
        Cycle.Next s.tasks.queue.length (Runnable s.tasks.queue) index.toNat s.cur
        else s.cur = s.cur)
    refine goes.trans ((origins_pred_iff bound size inside).trans
      (and_congr_right fun position => ?_))
    exact (or_iff_left fun same => apart same.1).symm

/-- Two tasks, the first of which runs: the second is dropped, and the index wraps below zero. -/
theorem dropTask_second_wraps :
    let s := sampleMachine 0 0 0
    let later := ((dropTask 1).run s).2
    (s.cur = 0 ∧ s.tasks.queue.length = 2 ∧ Runnable s.tasks.queue 0) ∧
      (dropTask 1).run s = (.ok (), later) ∧ later.tasks.queue = [sampleTask 0] ∧
      later.cur = 2 ^ 64 - 1 ∧ ¬ s.tasks.DropsTo 1 later.tasks := by
  intro s later
  have index : later.tasks.curTaskIdx.toNat = 2 ^ 64 - 1 := by decide
  have length : later.tasks.queue.length = 1 := by decide
  refine ⟨⟨rfl, rfl, sampleTask 0, rfl, rfl⟩, rfl, rfl, index, fun drops => ?_⟩
  have inside := drops.range
  omega

/-- Two tasks, the second of which runs: the first is dropped, and the second goes on. -/
theorem dropTask_drops_first :
    let s := sampleMachine 1 0 0
    ∃ later, (dropTask 0).run s = (.ok (), later) ∧ s.tasks.DropsTo 0 later.tasks := by
  intro s
  obtain ⟨later, ran, drops⟩ := @dropTask_drops_iff UInt64 s 0 rfl (by decide : 2 ≤ queueLimit)
    (by decide) (by decide) ⟨1, by decide, sampleTask 1, rfl, rfl⟩
  exact ⟨later, ran, drops.mpr ⟨rfl, Or.inl rfl⟩⟩

end Lsd
