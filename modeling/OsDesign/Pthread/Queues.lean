import OsDesign.Lib.TailQueue
import OsDesign.Virt.Memory

/-!
The two queues of `my_pthread.c` and the sections that move threads between
them and `CURRENT`. One `list` field per thread serves both queues. `Holds`
reads the pointers as two lists that share no thread, and each section has one
lemma that says what it makes of the lists.
-/
namespace OsDesign.Pthread

open TailQueue Virt

/-- The ways a call does not come back. -/
inductive Fault
  | hang
  | nullDereference
  | outOfBounds
  | errExit
  deriving DecidableEq

/-- The queue globals of `my_pthread.c`, `CURRENT`, and the `list` and `mu`
fields of the threads. -/
structure Queues where
  current : Option ThreadId
  list : ThreadId → Option ThreadId
  mu : ThreadId → Nat
  gQueueReady : Head ThreadId
  gQueueWait : Head ThreadId
  gQueueSpinlock : Bool
  gThreadsCnt : Nat

namespace Queues

/-- A set spinlock is waited for forever: nobody else runs. -/
def acquireQueueSpinlock (q : Queues) : Except Fault Queues :=
  if q.gQueueSpinlock = true then .error .hang else .ok { q with gQueueSpinlock := true }

def releaseQueueSpinlock (q : Queues) : Queues :=
  { q with gQueueSpinlock := false }

/-- `CURRENT = STAILQ_FIRST` and `STAILQ_REMOVE_HEAD` on the ready queue. -/
def takeFirstReady (q : Queues) : Except Fault Queues :=
  match q.gQueueReady.first, removeHead q.list q.gQueueReady with
  | some t, some head => .ok { q with current := some t, gQueueReady := head }
  | _, _ => .error .nullDereference

def insertTailReady (q : Queues) (t : ThreadId) : Queues :=
  { q with
    list := (insertTail q.list q.gQueueReady t).1
    gQueueReady := (insertTail q.list q.gQueueReady t).2 }

def insertTailWait (q : Queues) (t : ThreadId) : Queues :=
  { q with
    list := (insertTail q.list q.gQueueWait t).1
    gQueueWait := (insertTail q.list q.gQueueWait t).2 }

/-- The locked section of `schedule`, of either branch. -/
def scheduleSection (q : Queues) : Except Fault Queues := do
  let tmp := q.current
  let q ← q.acquireQueueSpinlock
  let q ← q.takeFirstReady
  let q := match tmp with
    | none => q
    | some tmp => q.insertTailReady tmp
  return q.releaseQueueSpinlock

/-- The locked section of `schedule_swap_current_to_wait`, with the thread that
`tmp` was set to in front of it. -/
def swapSection (q : Queues) (tmp : ThreadId) : Except Fault Queues := do
  let q ← q.acquireQueueSpinlock
  let q ← q.takeFirstReady
  return (q.insertTailWait tmp).releaseQueueSpinlock

/-- The locked section of `my_pthread_create`. -/
def addReady (q : Queues) (ti : ThreadId) : Except Fault Queues := do
  let q ← q.acquireQueueSpinlock
  return (q.insertTailReady ti).releaseQueueSpinlock

/-- A queue holds no more threads than were created and the main thread, which
bounds every walk over its links. -/
def bound (q : Queues) : Nat := q.gThreadsCnt + 1

/-- `STAILQ_REMOVE` from the wait queue and `STAILQ_INSERT_TAIL` on the ready queue. -/
def moveToReady (q : Queues) (ti : ThreadId) : Except Fault Queues :=
  match remove q.bound q.list q.gQueueWait ti with
  | none => .error .nullDereference
  | some (list, head) => .ok ({ q with list := list, gQueueWait := head }.insertTailReady ti)

/-- The loop of `release_thread`, which leaves at the first match. -/
def releaseFirst (mu : Nat) : Nat → Option ThreadId → Queues → Except Fault Queues
  | _, none, q => .ok q
  | 0, some _, _ => .error .hang
  | n + 1, some ti, q =>
      if mu = q.mu ti then q.moveToReady ti else releaseFirst mu n (q.list ti) q

/-- The loop of `release_all_thread`: `STAILQ_FOREACH` goes on from the link
that the element has when the body is done. -/
def releaseEach (mu : Nat) : Nat → Option ThreadId → Queues → Except Fault Queues
  | _, none, q => .ok q
  | 0, some _, _ => .error .hang
  | n + 1, some ti, q => do
      let q ← if mu = q.mu ti then q.moveToReady ti else .ok q
      releaseEach mu n (q.list ti) q

def releaseThread (mu : Nat) (q : Queues) : Except Fault Queues := do
  let q ← q.acquireQueueSpinlock
  let q ← releaseFirst mu q.bound q.gQueueWait.first q
  return q.releaseQueueSpinlock

def releaseAllThread (mu : Nat) (q : Queues) : Except Fault Queues := do
  let q ← q.acquireQueueSpinlock
  let q ← releaseEach mu q.bound q.gQueueWait.first q
  return q.releaseQueueSpinlock

/-- The threads of the ready queue, in order. -/
def ready (q : Queues) : List ThreadId := elements q.list q.bound q.gQueueReady.first

/-- The threads of the wait queue, in order. -/
def wait (q : Queues) : List ThreadId := elements q.list q.bound q.gQueueWait.first

/-- `CURRENT` and the threads of two lists. -/
def members (q : Queues) (rs ws : List ThreadId) : List ThreadId :=
  q.current.toList ++ (rs ++ ws)

/-- The pointers describe the two lists, no thread stands in two places, and
the spinlock is free. -/
structure Holds (q : Queues) (rs ws : List ThreadId) : Prop where
  ready : IsQueue q.list q.gQueueReady rs
  wait : IsQueue q.list q.gQueueWait ws
  nodup : (q.members rs ws).Nodup
  few : (q.members rs ws).length ≤ q.bound
  unlocked : q.gQueueSpinlock = false

variable {q q' : Queues} {rs ws xs ys : List ThreadId} {t n : ThreadId} {mu : Nat}

theorem Holds.ready_eq (holds : q.Holds rs ws) : q.ready = rs := by
  refine holds.ready.elements ?_
  have := holds.few
  simp only [members, List.length_append] at this
  omega

theorem Holds.wait_eq (holds : q.Holds rs ws) : q.wait = ws := by
  refine holds.wait.elements ?_
  have := holds.few
  simp only [members, List.length_append] at this
  omega

/-- Threads may change places as long as none is lost or doubled. -/
theorem perm_members {c c' : Option ThreadId} {r r' w w' : List ThreadId}
    (h : ∀ a, (c'.toList ++ (r' ++ w')).count a = (c.toList ++ (r ++ w)).count a) :
    (c'.toList ++ (r' ++ w')).Perm (c.toList ++ (r ++ w)) :=
  List.perm_iff_count.mpr h

theorem acquire_ok (unlocked : q.gQueueSpinlock = false) :
    q.acquireQueueSpinlock = .ok { q with gQueueSpinlock := true } := by
  rw [acquireQueueSpinlock, unlocked]
  rfl

theorem Holds.notMem_ready (holds : q.Holds rs ws) (h : q.current = some t) :
    t ∉ rs ∧ t ∉ ws := by
  have := holds.nodup
  simp only [members, h, Option.toList_some, List.singleton_append, List.nodup_cons,
    List.mem_append, not_or] at this
  exact this.1

theorem Holds.disjoint (holds : q.Holds rs ws) : ∀ a, a ∈ rs → a ∉ ws := by
  intro a hr hw
  have := (List.nodup_append.mp (List.nodup_append.mp holds.nodup).2.1).2.2
  exact this a hr a hw rfl

/-- The lists between the acquisition of the spinlock and its release. -/
structure Links (q : Queues) (rs ws : List ThreadId) : Prop where
  ready : IsQueue q.list q.gQueueReady rs
  wait : IsQueue q.list q.gQueueWait ws
  apart : ∀ a, a ∈ rs → a ∉ ws

theorem Holds.links (holds : q.Holds rs ws) (b : Bool) :
    ({ q with gQueueSpinlock := b } : Queues).Links rs ws :=
  ⟨holds.ready, holds.wait, holds.disjoint⟩

/-- Back to `Holds`: the members are those of an earlier state in another order. -/
theorem Links.holds (links : q.Links rs ws) {q₀ : Queues} {rs₀ ws₀ : List ThreadId}
    (holds₀ : q₀.Holds rs₀ ws₀) (hcnt : q.gThreadsCnt = q₀.gThreadsCnt)
    (perm : (q.members rs ws).Perm (q₀.members rs₀ ws₀)) :
    q.releaseQueueSpinlock.Holds rs ws := by
  refine ⟨links.ready, links.wait, perm.nodup_iff.mpr holds₀.nodup, ?_, rfl⟩
  have hlength : (q.members rs ws).length ≤ q₀.bound := perm.length_eq ▸ holds₀.few
  rw [bound, ← hcnt] at hlength
  exact hlength

theorem Links.takeFirstReady (links : q.Links (n :: rs) ws) :
    ∃ head, q.takeFirstReady = .ok { q with current := some n, gQueueReady := head } ∧
      ({ q with current := some n, gQueueReady := head } : Queues).Links rs ws := by
  obtain ⟨head, hremoved, hqueue⟩ := links.ready.removeHead
  refine ⟨head, ?_, hqueue, links.wait, fun a h => links.apart a (List.mem_cons_of_mem n h)⟩
  simp only [Queues.takeFirstReady, links.ready.first, hremoved]

theorem Links.insertTailReady (links : q.Links rs ws) (hr : t ∉ rs) (hw : t ∉ ws) :
    (q.insertTailReady t).Links (rs ++ [t]) ws := by
  refine ⟨links.ready.insertTail hr, links.wait.congr ?_, ?_⟩
  · intro a ha
    have hne : a ≠ t := fun same => hw (same ▸ ha)
    exact links.ready.insertTail_of_notMem (fun h => links.apart a h ha) hne
  · intro a ha
    cases List.mem_append.mp ha with
    | inl h => exact links.apart a h
    | inr h => exact List.mem_singleton.mp h ▸ hw

theorem Links.insertTailWait (links : q.Links rs ws) (hr : t ∉ rs) (hw : t ∉ ws) :
    (q.insertTailWait t).Links rs (ws ++ [t]) := by
  refine ⟨links.ready.congr ?_, links.wait.insertTail hw, ?_⟩
  · intro a ha
    have hne : a ≠ t := fun same => hr (same ▸ ha)
    exact links.wait.insertTail_of_notMem (links.apart a ha) hne
  · intro a ha hwait
    cases List.mem_append.mp hwait with
    | inl h => exact links.apart a ha h
    | inr h => exact hr (List.mem_singleton.mp h ▸ ha)

/-- What a section leaves alone. -/
structure Frame (q q' : Queues) : Prop where
  mu : q'.mu = q.mu
  gThreadsCnt : q'.gThreadsCnt = q.gThreadsCnt
  gQueueSpinlock : q'.gQueueSpinlock = q.gQueueSpinlock

/-- `schedule` after a thread ended: the first ready thread gets the processor. -/
theorem Holds.scheduleSection_none (holds : q.Holds (n :: rs) ws) (h : q.current = none) :
    ∃ q', q.scheduleSection = .ok q' ∧ q'.current = some n ∧ q'.Holds rs ws ∧
      q.Frame q' := by
  obtain ⟨head, htaken, hlinks⟩ := (holds.links true).takeFirstReady
  refine ⟨_, ?_, rfl, hlinks.holds holds rfl (perm_members ?_),
    ⟨rfl, rfl, holds.unlocked.symm⟩⟩
  · rw [scheduleSection, acquire_ok holds.unlocked]
    change ({ q with gQueueSpinlock := true } : Queues).takeFirstReady >>= _ = _
    rw [htaken, h]
    rfl
  · intro a
    simp [h]

/-- `schedule` from a running thread: it goes behind the ready threads. -/
theorem Holds.scheduleSection_some (holds : q.Holds (n :: rs) ws) (h : q.current = some t) :
    ∃ q', q.scheduleSection = .ok q' ∧ q'.current = some n ∧ q'.Holds (rs ++ [t]) ws ∧
      q.Frame q' := by
  obtain ⟨head, htaken, hlinks⟩ := (holds.links true).takeFirstReady
  obtain ⟨hr, hw⟩ := holds.notMem_ready h
  have hlinks' := hlinks.insertTailReady (fun hmem => hr (List.mem_cons_of_mem n hmem)) hw
  refine ⟨_, ?_, rfl, hlinks'.holds holds rfl (perm_members ?_),
    ⟨rfl, rfl, holds.unlocked.symm⟩⟩
  · rw [scheduleSection, acquire_ok holds.unlocked]
    change ({ q with gQueueSpinlock := true } : Queues).takeFirstReady >>= _ = _
    rw [htaken, h]
    rfl
  · intro a
    simp only [h, Option.toList_some, List.count_append, List.count_cons, List.count_nil,
      Queues.insertTailReady]
    omega

/-- `schedule_swap_current_to_wait`: the running thread goes behind the waiting threads. -/
theorem Holds.swapSection (holds : q.Holds (n :: rs) ws) (h : q.current = some t) :
    ∃ q', q.swapSection t = .ok q' ∧ q'.current = some n ∧ q'.Holds rs (ws ++ [t]) ∧
      q.Frame q' := by
  obtain ⟨head, htaken, hlinks⟩ := (holds.links true).takeFirstReady
  obtain ⟨hr, hw⟩ := holds.notMem_ready h
  have hlinks' := hlinks.insertTailWait (fun hmem => hr (List.mem_cons_of_mem n hmem)) hw
  refine ⟨_, ?_, rfl, hlinks'.holds holds rfl (perm_members ?_),
    ⟨rfl, rfl, holds.unlocked.symm⟩⟩
  · rw [Queues.swapSection, acquire_ok holds.unlocked]
    change ({ q with gQueueSpinlock := true } : Queues).takeFirstReady >>= _ = _
    rw [htaken]
    rfl
  · intro a
    simp only [h, Option.toList_some, List.count_append, List.count_cons, List.count_nil,
      Queues.insertTailWait]
    omega

/-- A thread that is nowhere yet joins the ready threads. -/
theorem Holds.addReady (holds : q.Holds rs ws) (fresh : t ∉ q.members rs ws) :
    ∃ q', ({ q with gThreadsCnt := q.gThreadsCnt + 1 } : Queues).addReady t = .ok q' ∧
      q'.current = q.current ∧ q'.Holds (rs ++ [t]) ws ∧ q'.mu = q.mu := by
  have hfresh : t ∉ rs ∧ t ∉ ws := by
    simp only [members, List.mem_append, not_or] at fresh
    exact fresh.2
  have hlinks : ({ q with gThreadsCnt := q.gThreadsCnt + 1, gQueueSpinlock := true } :
      Queues).Links rs ws := ⟨holds.ready, holds.wait, holds.disjoint⟩
  have hlinks' := hlinks.insertTailReady hfresh.1 hfresh.2
  have hperm : (q.current.toList ++ (rs ++ [t] ++ ws)).Perm (t :: q.members rs ws) := by
    refine List.perm_iff_count.mpr ?_
    intro a
    simp only [members, List.count_append, List.count_cons, List.count_nil]
    omega
  refine ⟨(({ q with gThreadsCnt := q.gThreadsCnt + 1, gQueueSpinlock := true } :
    Queues).insertTailReady t).releaseQueueSpinlock, ?_, rfl,
    ⟨hlinks'.ready, hlinks'.wait, ?_, ?_, rfl⟩, rfl⟩
  · rw [Queues.addReady, acquire_ok (q := { q with gThreadsCnt := q.gThreadsCnt + 1 })
      holds.unlocked]
    rfl
  · exact hperm.nodup_iff.mpr (List.nodup_cons.mpr ⟨fresh, holds.nodup⟩)
  · refine hperm.length_eq.trans_le ?_
    have := holds.few
    simp only [List.length_cons, bound] at this ⊢
    exact Nat.succ_le_succ this

/-- A thread that ends leaves `CURRENT`. -/
theorem Holds.leave (holds : q.Holds rs ws) :
    ({ q with current := none } : Queues).Holds rs ws := by
  refine ⟨holds.ready, holds.wait, ?_, ?_, holds.unlocked⟩
  · exact (List.nodup_append.mp holds.nodup).2.1
  · have := holds.few
    simp only [members, List.length_append, bound, Option.toList_none, List.length_nil] at this ⊢
    omega

/-- `mu` is no part of the queues. -/
theorem Holds.setMu (holds : q.Holds rs ws) (mu : ThreadId → Nat) :
    ({ q with mu := mu } : Queues).Holds rs ws :=
  ⟨holds.ready, holds.wait, holds.nodup, holds.few, holds.unlocked⟩

/-- A block that is on no queue is written. -/
theorem Holds.setList (holds : q.Holds rs ws) (fresh : t ∉ q.members rs ws)
    (link : Option ThreadId) :
    ({ q with list := Function.update q.list t link } : Queues).Holds rs ws := by
  have kept : ∀ x, x ∈ q.members rs ws → Function.update q.list t link x = q.list x := by
    intro x hx
    have apart : x ≠ t := fun same => fresh (same ▸ hx)
    rw [Function.update_of_ne apart]
  refine ⟨holds.ready.congr fun x hx => kept x ?_, holds.wait.congr fun x hx => kept x ?_,
    holds.nodup, holds.few, holds.unlocked⟩
  · simp [members, hx]
  · simp [members, hx]

end Queues

end OsDesign.Pthread
