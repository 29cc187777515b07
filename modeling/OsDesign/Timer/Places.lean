import OsDesign.Pthread.Release
import OsDesign.Timer.Threads

/-!
Where the threads stand. `CURRENT` runs ahead of the processor: a switch sets it
to the next thread, takes that thread from the queue, queues the running thread
and only then changes the context.
-/
namespace OsDesign.Timer

open Pthread Virt TailQueue

/-- How far the switch of the running flow has come, and which waiting thread is
between the queues. -/
inductive Place
  | seated
  | removing
  | taken
  | leaving
  | moving (t : ThreadId)

def Pc.place : Pc → Place
  | .removeHead _ => .removing
  | .insertReady (.switch _) _ | .insertWait _ => .taken
  | .insertReady (.release _ _) t => .moving t
  | .unlock (.switch _) | .swapcontext _ | .setcontext => .leaving
  | _ => .seated

/-- The element of the wait queue that a release loop stands on. -/
def Pc.cursor : Pc → Option ThreadId
  | .scan _ _ ti => ti
  | .remove _ _ ti => some ti
  | _ => none

theorem Pc.place_of_calm {pc : Pc} (calm : pc.calm = true) :
    pc.place = .seated ∧ pc.cursor = none := by
  cases pc with
  | spin _ | setLock _ | startTimer _ | first _ | removeHead _ | insertReady _ _ | insertWait _
  | scan _ _ _ | remove _ _ _ | unlock _ | swapcontext _ | setcontext | exitNull => cases calm
  | _ => exact ⟨rfl, rfl⟩

theorem Switch.insert_ne_exitNull (w : Switch) : w.insert ≠ .exitNull := by
  cases w <;> simp [Switch.insert]

theorem Switch.insert_cursor (w : Switch) : w.insert.cursor = none := by
  cases w <;> rfl

namespace Machine

variable {s s' : Machine} {rs ws waiting : List ThreadId} {t n : ThreadId} {e : Turn}

/-- What is in `CURRENT`, and which threads are in the queues. -/
def Stands (s : Machine) (rs ws waiting : List ThreadId) : Place → Prop
  | .seated => s.queues.current = s.running.own.head? ∧ (rs ++ ws).Perm waiting
  | .removing => s.queues.current = rs.head? ∧ (rs ++ ws).Perm waiting
  | .taken => ∃ n, s.queues.current = some n ∧ (n :: (rs ++ ws)).Perm waiting
  | .leaving => ∃ n, s.queues.current = some n ∧ n ∈ waiting ∧
      (n :: (rs ++ ws)).Perm (s.running.own ++ waiting)
  | .moving t => s.queues.current = s.running.own.head? ∧ (t :: (rs ++ ws)).Perm waiting

structure Line (s : Machine) (rs ws waiting : List ThreadId) : Prop where
  links : s.queues.Links rs ws
  place : s.Stands rs ws waiting s.running.pc.place
  cursor : ∀ t, s.running.pc.cursor = some t → t ∈ ws

/-- Every thread has its place. -/
def Placed (s : Machine) : Prop :=
  ∃ rs ws waiting, s.Threads waiting ∧ s.Line rs ws waiting

/-- A statement that changes neither the queues nor `CURRENT`. -/
structure Calls (pc pc' : Pc) : Prop where
  seated : pc.place = .seated
  seated' : pc'.place = .seated
  before : pc ≠ .exitNull
  behind : pc' ≠ .exitNull
  making : pc'.making = pc.making
  switches : pc.switches = true → pc'.switches = true

theorem Threads.withQueues (threads : s.Threads waiting) (q : Queues) :
    ({ s with queues := q } : Machine).Threads waiting :=
  ⟨⟨threads.suspended.nodup, threads.suspended.live, threads.suspended.context,
    threads.suspended.making, threads.suspended.apart⟩, threads.owner, threads.alive, threads.dead,
    threads.fits, threads.below, threads.handler, threads.making, threads.foreign⟩

theorem Placed.move (threads : s.Threads waiting) (line : s.Line rs ws waiting) {pc : Pc}
    (calls : Calls s.running.pc pc) (running : s'.running = s.running.goto pc)
    (context : s'.context = s.context) (live : s'.live = s.live)
    (links : s'.queues.Links rs ws) (current : s'.queues.current = s.queues.current)
    (fits : pc.Fits s.running) (cursor : ∀ t, pc.cursor = some t → t ∈ ws) : s'.Placed := by
  have hthreads : s'.Threads waiting :=
    threads.move running context live fits calls.making calls.before calls.behind
      fun h => calls.switches (threads.handler h)
  have hplace := line.place
  rw [calls.seated] at hplace
  refine ⟨rs, ws, waiting, hthreads, links, ?_, ?_⟩
  · rw [running]
    change s'.Stands rs ws waiting pc.place
    rw [calls.seated']
    refine ⟨?_, hplace.2⟩
    rw [current, running]
    exact hplace.1
  · rw [running]
    exact cursor

theorem Placed.leave (threads : s.Threads waiting) (line : s.Line rs ws waiting)
    (seated : s.running.pc.place = .seated) (making : s.running.pc.making = none)
    (pc : s.running.pc ≠ .exitNull) : s.leave.Placed := by
  have hplace := line.place
  rw [seated] at hplace
  refine ⟨rs, ws, waiting, threads.leave making pc, line.links, ?_, ?_⟩
  · cases hbelow : s.running.interrupted with
    | none =>
        have hleave : s.leave = s.goto .user := by
          rw [Machine.leave, Flow.leave_of_none hbelow]
          rfl
        rw [hleave]
        exact hplace
    | some b =>
        have hcalm := Pc.place_of_calm (threads.below b hbelow).1
        have hleave : s.leave = { s with running := { s.running with
            pc := b, interrupted := none } } := by
          rw [Machine.leave, Flow.leave_of_some hbelow]
        rw [hleave]
        change Stands _ rs ws waiting b.place
        rw [hcalm.1]
        exact hplace
  · intro t ht
    cases hbelow : s.running.interrupted with
    | none =>
        have hleave : s.leave.running = s.running.goto .user := Flow.leave_of_none hbelow
        rw [hleave] at ht
        cases ht
    | some b =>
        have hleave : s.leave.running = { s.running with pc := b, interrupted := none } :=
          Flow.leave_of_some hbelow
        rw [hleave] at ht
        have hcalm := Pc.place_of_calm (threads.below b hbelow).1
        cases hcalm.2.symm.trans ht

theorem Stands.of_place (line : s.Line rs ws waiting) (place : Place)
    (h : s.running.pc.place = place) : s.Stands rs ws waiting place := by
  have hplace := line.place
  rw [h] at hplace
  exact hplace

theorem Stands.at (line : s.Line rs ws waiting) {pc : Pc} (hpc : s.running.pc = pc) :
    s.Stands rs ws waiting pc.place :=
  Stands.of_place line pc.place (congrArg Pc.place hpc)

/-- A thread beside two queues is in neither of them. -/
theorem notMem_of_perm {queued : List ThreadId} (perm : (t :: queued).Perm waiting)
    (nodup : waiting.Nodup) : t ∉ queued :=
  (List.nodup_cons.mp (perm.nodup_iff.mpr nodup)).1

theorem perm_insertReady {xs ys : List ThreadId} (perm : (t :: (rs ++ ws)).Perm xs)
    (same : xs = ys) : (rs ++ [t] ++ ws).Perm ys := by
  rw [← same, List.append_assoc]
  exact List.perm_middle.trans perm

/-- `CURRENT = STAILQ_FIRST(&g_queue_ready)` -/
theorem Placed.first (threads : s.Threads waiting) (line : s.Line rs ws waiting) {w : Switch}
    (pc : s.running.pc = .first w) :
    ({ s with queues := { s.queues with current := s.queues.gQueueReady.first } }.goto
      (.removeHead w)).Placed := by
  have hplace := Stands.at line pc
  have hfits : w.Fits s.running := threads.fits_at pc
  exact ⟨rs, ws, waiting, threads.step pc rfl rfl rfl hfits rfl nofun nofun fun _ => rfl,
    ⟨line.links.ready, line.links.wait, line.links.apart⟩, ⟨line.links.ready.first_eq, hplace.2⟩,
    fun t h => nomatch h⟩

/-- `STAILQ_REMOVE_HEAD(&g_queue_ready, list)` -/
theorem Placed.removeHead (threads : s.Threads waiting) (line : s.Line rs ws waiting) {w : Switch}
    {head : Head ThreadId} (pc : s.running.pc = .removeHead w)
    (removed : TailQueue.removeHead s.queues.list s.queues.gQueueReady = some head) :
    ({ s with queues := { s.queues with gQueueReady := head } }.goto w.insert).Placed := by
  obtain ⟨hcurrent, hperm⟩ := Stands.at line pc
  have hfits : w.Fits s.running := threads.fits_at pc
  cases rs with
  | nil =>
      rw [TailQueue.removeHead, line.links.ready.first_eq] at removed
      cases removed
  | cons n rs =>
      obtain ⟨head', hremoved, hqueue⟩ := line.links.ready.removeHead
      cases hremoved.symm.trans removed
      have hlinks : ({ s.queues with gQueueReady := head } : Queues).Links rs ws :=
        ⟨hqueue, line.links.wait, fun a h => line.links.apart a (List.mem_cons_of_mem n h)⟩
      have before : Pc.removeHead w ≠ .exitNull := by simp
      have behind : w.insert ≠ .exitNull := w.insert_ne_exitNull
      refine ⟨rs, ws, waiting, ?_, hlinks, ?_, ?_⟩
      · cases w with
        | dispatch =>
            exact threads.step pc rfl rfl rfl hfits rfl before behind fun _ => rfl
        | yield tmp =>
            exact threads.step pc rfl rfl rfl ⟨hfits, hfits⟩ rfl before behind fun _ => rfl
        | wait tmp =>
            exact threads.step pc rfl rfl rfl hfits rfl before behind fun _ => rfl
      · cases w with
        | dispatch =>
            have hown : s.running.own = [] := Flow.own_of_exited hfits
            refine ⟨n, hcurrent, hperm.mem_iff.mp List.mem_cons_self, ?_⟩
            change (n :: (rs ++ ws)).Perm (s.running.own ++ waiting)
            rw [hown]
            exact hperm
        | yield tmp | wait tmp => exact ⟨n, hcurrent, hperm⟩
      · intro t h
        cases w.insert_cursor.symm.trans h

/-- The running thread is queued behind the ready or behind the waiting threads. -/
theorem Stands.queue (threads : s.Threads waiting) (names : s.running.Names t)
    (stands : s.Stands rs ws waiting .taken) {rs' ws' : List ThreadId}
    (perm : (rs' ++ ws').Perm (t :: (rs ++ ws))) :
    (t ∉ rs ∧ t ∉ ws) ∧ s.Stands rs' ws' waiting .leaving := by
  obtain ⟨n, hcurrent, hperm⟩ := stands
  obtain ⟨hexited, rfl⟩ := names
  have hnot := threads.owner hexited
  have hqueued : ∀ u, u ∈ rs ++ ws → u ∈ waiting :=
    fun u hu => hperm.mem_iff.mp (List.mem_cons_of_mem n hu)
  refine ⟨⟨fun h => hnot (hqueued _ (List.mem_append_left ws h)),
    fun h => hnot (hqueued _ (List.mem_append_right rs h))⟩,
    n, hcurrent, hperm.mem_iff.mp List.mem_cons_self, ?_⟩
  rw [Flow.own_of_running hexited]
  calc (n :: (rs' ++ ws')).Perm (n :: s.running.owner :: (rs ++ ws)) := perm.cons n
    _ |>.Perm (s.running.owner :: n :: (rs ++ ws)) := List.Perm.swap _ _ _
    _ |>.Perm (s.running.owner :: waiting) := hperm.cons _

theorem Placed.queueReady (threads : s.Threads waiting) (line : s.Line rs ws waiting) {w : Switch}
    (pc : s.running.pc = .insertReady (.switch w) t) :
    ({ s with queues := s.queues.insertTailReady t }.goto (.unlock (.switch w))).Placed := by
  have hstands := Stands.at line pc
  obtain ⟨hfits, hnames⟩ : w.Fits s.running ∧ s.running.Names t := threads.fits_at pc
  have hperm : (rs ++ [t] ++ ws).Perm (t :: (rs ++ ws)) :=
    perm_insertReady (List.Perm.refl (t :: (rs ++ ws))) rfl
  obtain ⟨hnot, hleaving⟩ := Stands.queue threads hnames hstands hperm
  exact ⟨rs ++ [t], ws, waiting, threads.step pc rfl rfl rfl hfits rfl nofun nofun fun _ => rfl,
    line.links.insertTailReady hnot.1 hnot.2, hleaving, fun t h => nomatch h⟩

theorem Placed.queueWait (threads : s.Threads waiting) (line : s.Line rs ws waiting)
    (pc : s.running.pc = .insertWait t) :
    ({ s with queues := s.queues.insertTailWait t }.goto (.unlock (.switch (.wait t)))).Placed := by
  have hstands := Stands.at line pc
  have hnames : s.running.Names t := threads.fits_at pc
  have hperm : (rs ++ (ws ++ [t])).Perm (t :: (rs ++ ws)) := by
    rw [← List.append_assoc]
    exact List.perm_append_singleton t (rs ++ ws)
  obtain ⟨hnot, hleaving⟩ := Stands.queue threads hnames hstands hperm
  exact ⟨rs, ws ++ [t], waiting, threads.step pc rfl rfl rfl hnames rfl nofun nofun fun _ => rfl,
    line.links.insertTailWait hnot.1 hnot.2, hleaving, fun t h => nomatch h⟩

/-- `my_pthread_create` queues the new thread. -/
theorem Placed.queueNew (threads : s.Threads waiting) (line : s.Line rs ws waiting)
    (pc : s.running.pc = .insertReady (.create t) t) :
    ({ s with queues := s.queues.insertTailReady t }.goto (.unlock (.create t))).Placed := by
  obtain ⟨hcurrent, hperm⟩ := Stands.at line pc
  have hmaking : s.running.making = some t := by
    rw [threads.making_of (by rw [pc]; rfl), pc]
    rfl
  have hnot : t ∉ rs ++ ws := fun h => (threads.making t hmaking).2.1 (hperm.mem_iff.mp h)
  rw [List.mem_append, not_or] at hnot
  exact ⟨rs ++ [t], ws, t :: waiting, threads.join pc rfl rfl rfl,
    line.links.insertTailReady hnot.1 hnot.2, ⟨hcurrent, perm_insertReady (hperm.cons t) rfl⟩,
    fun t h => nomatch h⟩

/-- A release loop queues the thread that it took from the wait queue. The link of
this thread is cleared, so both loops end here. -/
theorem Placed.queueReleased (threads : s.Threads waiting) (line : s.Line rs ws waiting)
    {every : Bool} {mu : Nat} (pc : s.running.pc = .insertReady (.release every mu) t) :
    ({ s with queues := s.queues.insertTailReady t }.goto
      (Section.inserted (s.queues.insertTailReady t) t (.release every mu))).Placed := by
  obtain ⟨hcurrent, hperm⟩ := Stands.at line pc
  have hnot := notMem_of_perm hperm threads.suspended.nodup
  rw [List.mem_append, not_or] at hnot
  have hlinks := line.links.insertTailReady hnot.1 hnot.2
  have hnone : (s.queues.insertTailReady t).list t = none :=
    line.links.ready.insertTail_self hnot.1
  have hstands : ({ s with queues := s.queues.insertTailReady t } : Machine).Stands (rs ++ [t]) ws
      waiting .seated := ⟨hcurrent, perm_insertReady hperm rfl⟩
  cases every with
  | false =>
      exact ⟨rs ++ [t], ws, waiting, threads.step pc rfl rfl rfl trivial rfl nofun nofun nofun,
        hlinks, hstands, fun t h => nomatch h⟩
  | true =>
      refine ⟨rs ++ [t], ws, waiting, threads.step pc rfl rfl rfl trivial rfl nofun nofun nofun,
        hlinks, hstands, ?_⟩
      intro u hu
      change (s.queues.insertTailReady t).list t = some u at hu
      cases hnone.symm.trans hu

/-- `STAILQ_REMOVE(&g_queue_wait, ti, _thread_info_t, list)` -/
theorem Placed.remove (threads : s.Threads waiting) (line : s.Line rs ws waiting)
    {every : Bool} {mu : Nat} {list : ThreadId → Option ThreadId} {head : Head ThreadId}
    (pc : s.running.pc = .remove every mu t)
    (removed : TailQueue.remove s.queues.bound s.queues.list s.queues.gQueueWait t =
      some (list, head)) :
    ({ s with queues := { s.queues with list := list, gQueueWait := head } }.goto
      (.insertReady (.release every mu) t)).Placed := by
  obtain ⟨hcurrent, hperm⟩ := Stands.at line pc
  have ht : t ∈ ws := line.cursor t (by rw [pc]; rfl)
  obtain ⟨xs, ys, hsplit⟩ := List.append_of_mem ht
  subst hsplit
  obtain ⟨list', head', hremoved, hlinks⟩ :=
    line.links.removeWait (Nat.le_max_left xs.length s.queues.bound)
  cases hremoved.symm.trans (remove_of_le removed (Nat.le_max_right xs.length s.queues.bound))
  refine ⟨rs, xs ++ ys, waiting, threads.step pc rfl rfl rfl trivial rfl nofun nofun nofun,
    hlinks, ⟨hcurrent, ?_⟩, fun t h => nomatch h⟩
  calc (t :: (rs ++ (xs ++ ys))).Perm (rs ++ t :: (xs ++ ys)) := List.perm_middle.symm
    _ |>.Perm (rs ++ (xs ++ t :: ys)) := List.perm_middle.symm.append_left rs
    _ |>.Perm waiting := hperm

/-- `g_queue_spinlock = 0` in front of the change of the context. -/
theorem Placed.unlockSwitch (threads : s.Threads waiting) (line : s.Line rs ws waiting) {w : Switch}
    (pc : s.running.pc = .unlock (.switch w)) :
    ({ s with queues := s.queues.releaseQueueSpinlock }.released (.switch w)).Placed := by
  have hstands := Stands.at line pc
  have hfits : w.Fits s.running := threads.fits_at pc
  have hlinks : s.queues.releaseQueueSpinlock.Links rs ws :=
    ⟨line.links.ready, line.links.wait, line.links.apart⟩
  cases w with
  | dispatch | yield tmp | wait tmp =>
      exact ⟨rs, ws, waiting, threads.step pc rfl rfl rfl hfits rfl nofun nofun fun _ => rfl,
        hlinks, hstands, fun t h => nomatch h⟩

/-- The next thread has the processor. -/
theorem Placed.resume {f : Flow} (suspended : s.Suspended (n :: waiting))
    (context : s.context n = some f) (links : s.queues.Links rs ws)
    (current : s.queues.current = some n) (perm : (rs ++ ws).Perm waiting) :
    ({ s with running := f } : Machine).Placed := by
  obtain ⟨g, hg, hrests⟩ := suspended.context n List.mem_cons_self
  cases hg.symm.trans context
  have hown : f.own = [n] := by rw [Flow.own_of_running hrests.exited, hrests.owner]
  have hpc : f.pc.place = .seated ∧ f.pc.cursor = none := by
    cases hrests.pc with
    | inl huser => rw [huser.1]; exact ⟨rfl, rfl⟩
    | inr hpages => rw [hpages]; exact ⟨rfl, rfl⟩
  refine ⟨rs, ws, waiting, suspended.resume context, links, ?_, ?_⟩
  · change Stands _ rs ws waiting f.pc.place
    rw [hpc.1]
    refine ⟨?_, perm⟩
    change s.queues.current = f.own.head?
    rw [hown]
    exact current
  · intro t ht
    cases hpc.2.symm.trans ht

theorem Placed.swapcontext {f : Flow} {tmp : ThreadId} (threads : s.Threads waiting)
    (line : s.Line rs ws waiting) (pc : s.running.pc = .swapcontext tmp)
    (current : s.queues.current = some n) (context : (s.save tmp).context n = some f) :
    ({ s.save tmp with running := f } : Machine).Placed := by
  obtain ⟨m, hcurrent, hm, hperm⟩ := Stands.at line pc
  cases hcurrent.symm.trans current
  obtain ⟨hexited, rfl⟩ : s.running.Names tmp := threads.fits_at pc
  have hfirst : waiting.Perm (n :: waiting.erase n) := List.perm_cons_erase hm
  have hall : (s.running.owner :: waiting).Perm (n :: s.running.owner :: waiting.erase n) :=
    (hfirst.cons _).trans (List.Perm.swap _ _ _)
  have hsuspended := (threads.save pc).perm hall.symm
  rw [Flow.own_of_running hexited] at hperm
  exact Placed.resume hsuspended context line.links current (hperm.trans hall).cons_inv

theorem Placed.setcontext {f : Flow} (threads : s.Threads waiting)
    (line : s.Line rs ws waiting) (pc : s.running.pc = .setcontext)
    (current : s.queues.current = some n) (context : s.context n = some f) :
    ({ s with running := f } : Machine).Placed := by
  obtain ⟨m, hcurrent, hm, hperm⟩ := Stands.at line pc
  cases hcurrent.symm.trans current
  have hexited : s.running.exited = true := threads.fits_at pc
  have hfirst : waiting.Perm (n :: waiting.erase n) := List.perm_cons_erase hm
  rw [Flow.own_of_exited hexited] at hperm
  exact Placed.resume (threads.suspended.perm hfirst.symm) context line.links current
    (hperm.trans hfirst).cons_inv

end Machine

end OsDesign.Timer
