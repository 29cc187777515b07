import OsDesign.Lib.CountedLock
import OsDesign.Preempt.Seats

/-!
Every mutex of the machine is a counted lock: a statement of a thread is a step
of that thread in the lock of its handle, or no step, and it is no step in the
lock of any other mutex.
-/
namespace OsDesign.Preempt

open Pthread Virt CountedLock

namespace Pc

/-- How far a flow is with the mutex of its handle. A thread behind the
`swapcontext` waits until `release_thread` takes it out of the wait queue. -/
def progress (waiting : Bool) : Pc → Stage 32
  | .user | .lockUsed _ | .lockRange _ | .lockTest _ | .unlockReturn _ _ => .outside
  | .takeRead _ => .pending .take none
  | .takeWrite _ v => .pending .take (some v)
  | .waitRead _ => .pending .block none
  | .waitWrite _ v => .pending .block (some v)
  | .setMu _ | .swapEmpty _ | .swapTmp _ | .swapStore _ _ | .swapSection _ _ => .announced
  | .swapContext _ _ => .queued
  | .swapPages _ => if waiting = true then .queued else .inside
  | .lockReturn _ _ | .unlockUsed _ | .unlockRange _ | .unlockZero _ | .unlockOne _ => .inside
  | .lastRead _ => .pending .leave none
  | .lastWrite _ v => .pending .leave (some v)
  | .moreRead _ => .pending .hand none
  | .moreWrite _ v => .pending .hand (some v)
  | .release _ => .passing

def stage (m : Nat) (waiting : Bool) (pc : Pc) : Stage 32 :=
  if pc.handle = some m then pc.progress waiting else .outside

theorem stage_of_ne {p : Pc} {m : Nat} {waiting : Bool} (h : p.handle ≠ some m) :
    p.stage m waiting = .outside := if_neg h

theorem stage_of_eq {p : Pc} {m : Nat} {waiting : Bool} (h : p.handle = some m) :
    p.stage m waiting = p.progress waiting := if_pos h

end Pc

namespace Watched

def stage (s : Watched) (m : Nat) (t : ThreadId) : Stage 32 :=
  (s.machine.flow t).pc.stage m (s.machine.queues.wait.contains t)

/-- The mutex `m` of the machine as a counted lock. -/
def lock (s : Watched) (m : Nat) : Lock ThreadId 32 where
  count := (s.machine.gMutexTable m).count
  held := s.holding m
  stage := s.stage m

end Watched

variable {threads : Finset ThreadId} {mutexes : Nat → Bool} {s s' : Watched} {t u : ThreadId}
  {h m : Nat} {pc pc₀ : Pc}

/-- No step in the lock of `m`, or one of the running thread. -/
def Simulates (threads : Finset ThreadId) (s s' : Watched) (m : Nat) : Prop :=
  s'.lock m = s.lock m ∨ Move threads (s.lock m) s.machine.running.owner (s'.lock m)

/-- What a step of the machine is shown to do. -/
def Advances (threads : Finset ThreadId) (mutexes : Nat → Bool) (s s' : Watched) : Prop :=
  Seated threads mutexes s' ∧ ∀ m, Simulates threads s s' m

theorem stage_running (h : s.machine.running.owner ∉ s.machine.queues.wait) :
    s.stage m s.machine.running.owner = s.machine.running.pc.stage m false := by
  have hwait : s.machine.queues.wait.contains s.machine.running.owner = false := by
    simpa using h
  rw [Watched.stage, Machine.flow_owner, hwait]

namespace Local

/-- Only the stage of the running thread changes. -/
theorem lock_eq (loc : Local s s' pc) (h : s.machine.running.owner ∉ s.machine.queues.wait)
    (m : Nat) :
    s'.lock m = ⟨(s'.machine.gMutexTable m).count, s'.holding m,
      Function.update (s.stage m) s.machine.running.owner (pc.stage m false)⟩ := by
  have hwait : s'.machine.queues.wait = s.machine.queues.wait := by
    rw [loc.queues]
    rfl
  have hstage : s'.stage m =
      Function.update (s.stage m) s.machine.running.owner (pc.stage m false) := by
    funext u
    by_cases same : u = s.machine.running.owner
    · rw [same, Function.update_self, ← loc.owner, stage_running (hwait ▸ loc.owner ▸ h),
        loc.running]
    · rw [Function.update_of_ne same, Watched.stage, loc.flow_other same, hwait]
      rfl
  rw [Watched.lock, hstage]

theorem lock_go (loc : Local s s' pc) (h : s.machine.running.owner ∉ s.machine.queues.wait)
    (count : (s'.machine.gMutexTable m).count = (s.machine.gMutexTable m).count)
    (holding : s'.holding m = s.holding m) :
    s'.lock m = (s.lock m).go s.machine.running.owner (pc.stage m false) := by
  rw [loc.lock_eq h, count, holding]
  rfl

theorem lock_same (loc : Local s s' pc) (h : s.machine.running.owner ∉ s.machine.queues.wait)
    (count : (s'.machine.gMutexTable m).count = (s.machine.gMutexTable m).count)
    (holding : s'.holding m = s.holding m)
    (same : pc.stage m false = s.machine.running.pc.stage m false) : s'.lock m = s.lock m := by
  rw [loc.lock_go h count holding]
  exact Lock.go_eq_self ((stage_running h).trans same.symm)

theorem goto (s : Watched) (pc : Pc) (holding : Nat → ThreadId → Nat) :
    Local s ⟨s.machine.goto pc, holding⟩ pc :=
  ⟨rfl, rfl, rfl, fun _ _ => rfl, fun _ => rfl⟩

theorem setCount (s : Watched) (pc : Pc) (h : Nat) (c : BitVec 32) :
    Local s ⟨(s.machine.setCount h c).goto pc, s.holding⟩ pc := by
  refine ⟨rfl, rfl, rfl, fun _ _ => rfl, ?_⟩
  intro m
  by_cases same : m = h
  · simp [Machine.goto, Machine.setCount, MutexTable.setCount, same]
  · simp [Machine.goto, Machine.setCount, MutexTable.setCount, same]

end Local

namespace Seated

variable (seated : Seated threads mutexes s) (hpc : s.machine.running.pc = pc₀)

include seated hpc

theorem mutex_running (hh : pc₀.handle = some h) : mutexes h = true := by
  have hflow : (s.machine.flow s.machine.running.owner).pc.handle = some h := by
    rw [Machine.flow_owner, hpc]
    exact hh
  exact seated.handles _ seated.runs h hflow

theorem not_waiting (whole : pc₀.switching = false) :
    s.machine.running.owner ∉ s.machine.queues.wait :=
  (seated.current_eq (hpc ▸ whole)).2

/-- A statement of `pc₀` that goes on at `pc` in the same call, or ends it. -/
theorem goes (loc : Local s s' pc) (whole : pc₀.switching = false)
    (stays : pc.handle = pc₀.handle ∨ pc = .user)
    (fits : s.machine.running.owner ∉ s.machine.queues.wait →
      pc.Fits s.machine.running.owner (s'.machine.queues.mu s.machine.running.owner)
        (s.machine.running.owner ∈ s.machine.queues.wait))
    (holding : ∀ h t, 0 < s'.holding h t → t ∈ threads ∧ mutexes h = true) :
    Seated threads mutexes s' := by
  refine loc.seated seated (hpc ▸ whole) fits ?_ holding
  intro h hh
  cases stays with
  | inl same => exact seated.mutex_running hpc (same ▸ hh)
  | inr user => simp [user, Pc.handle] at hh

/-- A statement that is no step of a lock. -/
theorem goto_silent (whole : pc₀.switching = false)
    (stays : pc.handle = pc₀.handle ∨ pc = .user)
    (fits : s.machine.running.owner ∉ s.machine.queues.wait →
      pc.Fits s.machine.running.owner (s.machine.queues.mu s.machine.running.owner)
        (s.machine.running.owner ∈ s.machine.queues.wait))
    (same : ∀ m, pc.stage m false = pc₀.stage m false) :
    Advances threads mutexes s ⟨s.machine.goto pc, s.holding⟩ := by
  refine ⟨seated.goes hpc (.goto s pc s.holding) whole stays fits seated.holding, ?_⟩
  intro m
  exact .inl ((Local.goto s pc s.holding).lock_same (seated.not_waiting hpc whole) rfl rfl
    (hpc ▸ same m))

/-- A statement that is a step in the lock of its handle and leaves the counts alone. -/
theorem goto_move (whole : pc₀.switching = false) (hh : pc₀.handle = some h)
    (stays : pc.handle = pc₀.handle)
    (fits : s.machine.running.owner ∉ s.machine.queues.wait →
      pc.Fits s.machine.running.owner (s.machine.queues.mu s.machine.running.owner)
        (s.machine.running.owner ∈ s.machine.queues.wait))
    (move : (s.lock h).stage s.machine.running.owner = pc₀.progress false →
      Move threads (s.lock h) s.machine.running.owner
        ((s.lock h).go s.machine.running.owner (pc.progress false))) :
    Advances threads mutexes s ⟨s.machine.goto pc, s.holding⟩ := by
  have hnot := seated.not_waiting hpc whole
  have loc := Local.goto s pc s.holding
  refine ⟨seated.goes hpc loc whole (.inl stays) fits seated.holding, ?_⟩
  intro m
  by_cases hm : pc₀.handle = some m
  · obtain rfl := Option.some.inj (hh.symm.trans hm)
    have hstage : (s.lock h).stage s.machine.running.owner = pc₀.progress false := by
      rw [← Pc.stage_of_eq hh, ← hpc]
      exact stage_running hnot
    right
    rw [loc.lock_go hnot rfl rfl, Pc.stage_of_eq (stays.trans hh)]
    exact move hstage
  · exact .inl (loc.lock_same hnot rfl rfl (by
      rw [hpc, Pc.stage_of_ne hm, Pc.stage_of_ne (stays ▸ hm)]))

/-- The write of a count. -/
theorem write_move {k : Kind} {v : BitVec 32} (whole : pc₀.switching = false)
    (hh : pc₀.handle = some h) (stays : pc.handle = pc₀.handle)
    (fits : s.machine.running.owner ∉ s.machine.queues.wait →
      pc.Fits s.machine.running.owner (s.machine.queues.mu s.machine.running.owner)
        (s.machine.running.owner ∈ s.machine.queues.wait))
    (pending : pc₀.progress false = .pending k (some v))
    (result : pc.progress false = k.result) :
    Advances threads mutexes s ⟨(s.machine.setCount h (k.value v)).goto pc, s.holding⟩ := by
  have hnot := seated.not_waiting hpc whole
  have loc := Local.setCount s pc h (k.value v)
  refine ⟨seated.goes hpc loc whole (.inl stays) fits seated.holding, ?_⟩
  intro m
  by_cases hm : pc₀.handle = some m
  · obtain rfl := Option.some.inj (hh.symm.trans hm)
    have hstage : (s.lock h).stage s.machine.running.owner = .pending k (some v) := by
      rw [← pending, ← Pc.stage_of_eq hh, ← hpc]
      exact stage_running hnot
    right
    have hlock := loc.lock_eq hnot h
    rw [Pc.stage_of_eq (stays.trans hh), result] at hlock
    rw [hlock]
    have hcount : (((s.machine.setCount h (k.value v)).goto pc).gMutexTable h).count =
        k.value v := by
      simp [Machine.goto, Machine.setCount, MutexTable.setCount]
    rw [hcount]
    exact Move.write k v hstage
  · have hne : m ≠ h := fun same => hm (same ▸ hh)
    refine .inl (loc.lock_same hnot ?_ rfl ?_)
    · simp [Machine.goto, Machine.setCount, MutexTable.setCount, hne]
    · rw [hpc, Pc.stage_of_ne hm, Pc.stage_of_ne (stays ▸ hm)]

end Seated

/-- The stages where only the thread that ran goes to another stage or to another queue. -/
theorem Moved.lock_go {rs ws : List ThreadId} (moved : Moved s s' pc rs ws)
    (wait : ∀ u, u ≠ s.machine.running.owner → (u ∈ ws ↔ u ∈ s.machine.queues.wait)) (m : Nat) :
    s'.lock m = (s.lock m).go s.machine.running.owner
      (pc.stage m (ws.contains s.machine.running.owner)) := by
  have hstage : s'.stage m = Function.update (s.stage m) s.machine.running.owner
      (pc.stage m (ws.contains s.machine.running.owner)) := by
    funext u
    rw [Watched.stage, moved.holds.wait_eq]
    by_cases same : u = s.machine.running.owner
    · rw [same, Function.update_self, moved.self]
    · have hwait : ws.contains u = s.machine.queues.wait.contains u := by
        simp [wait u same]
      rw [Function.update_of_ne same, moved.other u same, hwait]
      rfl
  rw [Watched.lock, hstage, moved.table, moved.holding]
  rfl

/-- A switch that finds the context of `CURRENT`. -/
theorem Moved.of_swapcontext (pc : Pc) {q : Queues} {rs : List ThreadId}
    {next : ThreadId} (hq : q.Holds rs s.machine.queues.wait)
    (members : ∀ t, t ∈ q.members rs s.machine.queues.wait ↔
      t ∈ s.machine.queues.members s.machine.queues.ready s.machine.queues.wait)
    (hmu : q.mu = s.machine.queues.mu) (hcurrent : q.current = some next)
    (hne : next ≠ s.machine.running.owner)
    (own : (s.machine.context next).owner = next ∧
      (s.machine.context next).pc.switching = false) :
    ∃ r, (({ s.machine with queues := q } : Machine).goto pc).swapcontext
        s.machine.running.owner = .ok r ∧
      Moved s ⟨r, s.holding⟩ pc rs s.machine.queues.wait ∧ r.running.owner = next ∧
      r.queues.current = some next := by
  obtain ⟨r, hr, hrunning, hqueues, htable, hflows⟩ := Machine.flow_swapcontext
    (s := ({ s.machine with queues := q } : Machine).goto pc) hcurrent hne own.1
  change r.queues = q at hqueues
  refine ⟨r, hr, ⟨?_, ?_, ?_, ?_, ?_, htable, rfl⟩, ?_, ?_⟩
  · change r.queues.Holds _ _
    rw [hqueues]
    exact hq
  · change ∀ t, t ∈ r.queues.members _ _ ↔ _
    rw [hqueues]
    exact members
  · change r.flow _ = _
    rw [hflows]
    exact Machine.flow_owner _
  · intro u hu
    change r.flow u = _
    rw [hflows]
    simp [Machine.flow, Machine.goto, hu]
  · change r.queues.mu = _
    rw [hqueues, hmu]
  · rw [hrunning]
    exact own.1
  · rw [hqueues, hcurrent]

namespace Seated

/-- `CURRENT->mu = *mutex` -/
theorem setMu (seated : Seated threads mutexes s) (hpc : s.machine.running.pc = .setMu h)
    {r : Machine} (hr : s.machine.statement = .ok r) :
    Advances threads mutexes s ⟨r, s.holding⟩ := by
  have hnot := seated.not_waiting hpc rfl
  have hcurrent := (seated.current_eq (hpc ▸ rfl)).1
  have heq : r = ({ s.machine with queues := { s.machine.queues with
      mu := Function.update s.machine.queues.mu s.machine.running.owner h } } : Machine).goto
        (.swapEmpty h) := by
    simpa [Machine.statement, hpc, Machine.setMu, hcurrent, Except.map] using hr.symm
  have loc : Local s ⟨r, s.holding⟩ (.swapEmpty h) := by
    rw [heq]
    exact ⟨rfl, rfl, rfl, fun u hne => Function.update_of_ne hne _ _, fun _ => rfl⟩
  have hmu : r.queues.mu s.machine.running.owner = h := by
    rw [heq]
    exact Function.update_self _ _ _
  have htable : r.gMutexTable = s.machine.gMutexTable := by
    rw [heq]
    rfl
  refine ⟨seated.goes hpc loc rfl (.inl rfl) (fun hnot => ⟨hnot, hmu⟩) seated.holding, ?_⟩
  intro m
  exact .inl (loc.lock_same hnot (by rw [htable]) rfl (by rw [hpc]; rfl))

/-- The thread is put at the end of the wait queue. -/
theorem swapSection_moved (seated : Seated threads mutexes s)
    (hpc : s.machine.running.pc = .swapSection h t) {r : Machine}
    (hr : s.machine.statement = .ok r) :
    ∃ next rest, r.queues.current = some next ∧
      r.running = ⟨s.machine.running.owner, .swapContext h s.machine.running.owner⟩ ∧
      Moved s ⟨r, s.holding⟩ (.swapContext h s.machine.running.owner) rest
        (s.machine.queues.wait ++ [s.machine.running.owner]) := by
  have hfits := seated.fits_running
  rw [hpc] at hfits
  simp only [Machine.statement, hpc, hfits.2.2] at hr
  cases hq : s.machine.queues.swapSection s.machine.running.owner with
  | error fault => simp [hq, Except.map] at hr
  | ok q =>
      obtain ⟨next, rest, hready, hcurrent, hholds, hframe⟩ :=
        seated.swapSection (hpc ▸ rfl) hq
      have heq : r = ({ s.machine with queues := q } : Machine).goto
          (.swapContext h s.machine.running.owner) := by
        simpa [hq, Except.map] using hr.symm
      have hcur := (seated.current_eq (hpc ▸ rfl)).1
      rw [heq]
      refine ⟨next, rest, hcurrent, rfl, hholds, ?_, ?_, ?_, hframe.mu, rfl, rfl⟩
      · intro u
        change u ∈ q.members rest _ ↔ _
        rw [Queues.members, Queues.members, hcurrent, hcur, hready]
        simp only [Option.toList_some, List.mem_append, List.mem_cons, List.not_mem_nil]
        tauto
      · simp [Machine.flow, Machine.goto]
      · intro u hne
        simp [Machine.flow, Machine.goto, hne]

theorem swapSection_advances (seated : Seated threads mutexes s)
    (hpc : s.machine.running.pc = .swapSection h t) {r : Machine}
    (hr : s.machine.statement = .ok r) : Advances threads mutexes s ⟨r, s.holding⟩ := by
  have hnot := seated.not_waiting hpc rfl
  have hfits := seated.fits_running
  rw [hpc] at hfits
  obtain ⟨next, rest, hcurrent, hrunning, moved⟩ := seated.swapSection_moved hpc hr
  have howner : (⟨r, s.holding⟩ : Watched).machine.running.owner = s.machine.running.owner := by
    change r.running.owner = _
    rw [hrunning]
  refine ⟨moved.seated seated ?_ ?_ ?_ ?_ ?_ ?_, ?_⟩
  · intro u hne hu
    simpa [hne] using hu
  · exact ⟨by simp, hfits.2.1, rfl⟩
  · rw [hpc]
    rfl
  · exact fun hne => absurd howner.symm hne
  · exact howner ▸ seated.runs
  · refine ⟨next, hcurrent, fun hswitching => ?_⟩
    change r.running.pc.switching = false at hswitching
    rw [hrunning] at hswitching
    cases hswitching
  · intro m
    have hold : (s.lock m).stage s.machine.running.owner = (Pc.swapSection h t).stage m false :=
      hpc ▸ stage_running hnot
    rw [Simulates, moved.lock_go (by
      intro u hne
      simp [hne])]
    by_cases hm : (Pc.swapSection h t).handle = some m
    · rw [Pc.stage_of_eq hm] at hold
      rw [Pc.stage_of_eq (p := .swapContext h s.machine.running.owner) hm]
      exact .inr (Move.enqueue hold)
    · rw [Pc.stage_of_ne hm] at hold
      rw [Pc.stage_of_ne (p := .swapContext h s.machine.running.owner) hm]
      exact .inl (Lock.go_eq_self hold)

/-- `CURRENT` is not the running thread, and it has its own context. -/
theorem next_of_current (seated : Seated threads mutexes s) {next : ThreadId}
    (hcurrent : s.machine.queues.current = some next) (hne : next ≠ s.machine.running.owner) :
    next ∈ threads ∧ (s.machine.context next).owner = next ∧
      (s.machine.context next).pc.switching = false := by
  have hmem : next ∈ threads := by
    rw [← seated.members next, Queues.members, hcurrent]
    simp
  exact ⟨hmem, seated.other hmem hne⟩

/-- A thread that leaves the processor as it stands. -/
theorem switched (seated : Seated threads mutexes s) {r : Machine} {rs : List ThreadId}
    {next : ThreadId} (moved : Moved s ⟨r, s.holding⟩ pc rs s.machine.queues.wait)
    (fits : pc.Fits s.machine.running.owner (s.machine.queues.mu s.machine.running.owner)
      (s.machine.running.owner ∈ s.machine.queues.wait))
    (handle : pc.handle = s.machine.running.pc.handle) (saved : pc.switching = false)
    (same : ∀ m, pc.stage m (s.machine.queues.wait.contains s.machine.running.owner) =
      s.stage m s.machine.running.owner)
    (mem : next ∈ threads) (owner : r.running.owner = next)
    (current : r.queues.current = some next) :
    Seated threads mutexes ⟨r, s.holding⟩ ∧ ∀ m, (⟨r, s.holding⟩ : Watched).lock m = s.lock m := by
  refine ⟨moved.seated seated (fun _ _ h => h) fits handle (fun _ => saved) (owner ▸ mem)
    ⟨next, current, fun _ => owner.symm⟩, ?_⟩
  intro m
  rw [moved.lock_go (fun _ _ => Iff.rfl)]
  exact Lock.go_eq_self (same m).symm

/-- The `swapcontext` of `schedule_swap_current_to_wait`. -/
theorem swapContext_advances (seated : Seated threads mutexes s)
    (hpc : s.machine.running.pc = .swapContext h t) {r : Machine}
    (hr : s.machine.statement = .ok r) : Advances threads mutexes s ⟨r, s.holding⟩ := by
  have hfits := seated.fits_running
  rw [hpc] at hfits
  obtain ⟨hwaiting, hmu, htmp⟩ := hfits
  obtain ⟨next, hcurrent, -⟩ := seated.current
  have hne : next ≠ s.machine.running.owner := fun same =>
    (seated.holds.notMem_ready hcurrent).2 (same ▸ hwaiting)
  obtain ⟨hmem, hown⟩ := seated.next_of_current hcurrent hne
  obtain ⟨r', hr', moved, howner, hcurrent'⟩ := Moved.of_swapcontext (.swapPages h)
    seated.holds (fun _ => Iff.rfl) rfl hcurrent hne hown
  have heq : r = r' := by
    rw [Machine.statement, hpc, htmp] at hr
    exact Except.ok.inj (hr.symm.trans hr')
  subst heq
  have hin : s.machine.queues.wait.contains s.machine.running.owner = true := by
    simpa using hwaiting
  have hsame : ∀ m, (Pc.swapPages h).stage m
      (s.machine.queues.wait.contains s.machine.running.owner) =
        s.stage m s.machine.running.owner := by
    intro m
    rw [Watched.stage, Machine.flow_owner, hpc, hin]
    rfl
  have hswitched := seated.switched moved hmu (by rw [hpc]; rfl) rfl hsame hmem howner hcurrent'
  exact ⟨hswitched.1, fun m => .inl (hswitched.2 m)⟩

/-- `schedule` in the timer handler. -/
theorem schedule_same (seated : Seated threads mutexes s) {r : Machine}
    (whole : s.machine.running.pc.switching = true → s.machine.queues.gQueueReady.first = none)
    (hr : s.machine.schedule = .ok r) :
    Seated threads mutexes ⟨r, s.holding⟩ ∧ ∀ m, (⟨r, s.holding⟩ : Watched).lock m = s.lock m := by
  have holds := seated.holds
  cases hready : s.machine.queues.ready with
  | nil =>
      rw [hready] at holds
      rw [Machine.schedule, if_pos holds.ready.first_of_nil, Except.ok.injEq] at hr
      rw [← hr]
      exact ⟨seated, fun _ => rfl⟩
  | cons next rest =>
      rw [hready] at holds
      have hfirst : s.machine.queues.gQueueReady.first ≠ none := by
        rw [holds.ready.first]
        simp
      have hswitching : s.machine.running.pc.switching = false := by
        by_contra hnot
        exact hfirst (whole (by simpa using hnot))
      obtain ⟨hcurrent, hnot⟩ := seated.current_eq hswitching
      obtain ⟨q, hq, hnext, hholds, hframe⟩ := holds.scheduleSection_some hcurrent
      have hne : next ≠ s.machine.running.owner := fun same =>
        (holds.notMem_ready hcurrent).1 (same ▸ List.mem_cons_self)
      have hmem : next ∈ threads := by
        rw [← seated.members next, Queues.members, hready]
        simp
      obtain ⟨r', hr', moved, howner, hcurrent'⟩ := Moved.of_swapcontext
        s.machine.running.pc hholds (by
          intro t
          rw [Queues.members, Queues.members, hnext, hcurrent, hready]
          simp only [Option.toList_some, List.mem_append, List.mem_cons, List.not_mem_nil]
          tauto) hframe.mu hnext hne (seated.other hmem hne)
      have heq : r = r' := by
        rw [Machine.schedule, if_neg hfirst] at hr
        simp only [hcurrent, hq] at hr
        exact Except.ok.inj (hr.symm.trans hr')
      subst heq
      refine seated.switched moved seated.fits_running rfl hswitching ?_ hmem howner hcurrent'
      intro m
      rw [Watched.stage, Machine.flow_owner]

/-- The threads that are queued for a mutex are those that `release_thread` finds. -/
theorem queued_iff (seated : Seated threads mutexes s) (ht : t ∈ threads) :
    s.stage m t = .queued ↔ t ∈ s.machine.queues.wait ∧ s.machine.queues.mu t = m := by
  have hfits := seated.fits t ht
  refine ⟨fun hq => ?_, fun hq => ?_⟩
  · by_cases hm : (s.machine.flow t).pc.handle = some m
    · rw [Watched.stage, Pc.stage_of_eq hm] at hq
      cases hpc : (s.machine.flow t).pc with
      | swapContext h' tmp =>
          rw [hpc] at hfits hm
          exact ⟨hfits.1, hfits.2.1.trans (Option.some.inj hm)⟩
      | swapPages h' =>
          rw [hpc] at hfits hm hq
          by_cases hwait : t ∈ s.machine.queues.wait
          · exact ⟨hwait, hfits.trans (Option.some.inj hm)⟩
          · simp [Pc.progress, hwait] at hq
      | user | lockUsed _ | lockRange _ | lockTest _ | takeRead _ | takeWrite _ _ | waitRead _
      | waitWrite _ _ | setMu _ | swapEmpty _ | swapTmp _ | swapStore _ _ | swapSection _ _
      | lockReturn _ _ | unlockUsed _ | unlockRange _ | unlockZero _ | unlockOne _ | lastRead _
      | lastWrite _ _ | moreRead _ | moreWrite _ _ | release _ | unlockReturn _ _ =>
          rw [hpc] at hq
          cases hq
    · rw [Watched.stage, Pc.stage_of_ne hm] at hq
      cases hq
  · obtain ⟨hwait, hmu⟩ := hq
    have hcontains : s.machine.queues.wait.contains t = true := by simpa using hwait
    rw [Watched.stage, hcontains, ← hmu]
    cases hfits.of_waiting hwait with
    | inl hpc =>
        rw [hpc]
        exact if_pos rfl
    | inr hpc =>
        rw [hpc]
        exact if_pos rfl

theorem release_moved (seated : Seated threads mutexes s) (hpc : s.machine.running.pc = .release h)
    {r : Machine} (hr : s.machine.statement = .ok r) :
    ∃ rs, r.queues.current = some s.machine.running.owner ∧
      r.running = ⟨s.machine.running.owner, .unlockReturn h 0⟩ ∧
      Moved s ⟨r, s.holding⟩ (.unlockReturn h 0) rs
        (s.machine.queues.wait.eraseP (s.machine.queues.waitsOn h)) := by
  have hcurrent := (seated.current_eq (hpc ▸ rfl)).1
  obtain ⟨q, hq, hsame, hframe, hholds⟩ := seated.holds.releaseThread h
  have heq : r = ({ s.machine with queues := q } : Machine).goto (.unlockReturn h 0) := by
    simpa [Machine.statement, hpc, hq, Except.map] using hr.symm
  rw [heq]
  refine ⟨_, hsame.trans hcurrent, rfl, hholds, ?_, ?_, ?_, hframe.mu, rfl, rfl⟩
  · intro u
    exact (Queues.Links.release_perm hsame h).mem_iff
  · simp [Machine.flow, Machine.goto]
  · intro u hne
    simp [Machine.flow, Machine.goto, hne]

/-- `release_thread` finds nobody. -/
theorem release_idle (seated : Seated threads mutexes s)
    (hpc : s.machine.running.pc = .release h) {rs : List ThreadId}
    (moved : Moved s s' (.unlockReturn h 0) rs
      (s.machine.queues.wait.eraseP (s.machine.queues.waitsOn h)))
    (hfind : s.machine.queues.wait.find? (s.machine.queues.waitsOn h) = none) (m : Nat) :
    Simulates threads s s' m := by
  have hnot := seated.not_waiting hpc rfl
  have hnone := List.find?_eq_none.mp hfind
  rw [List.eraseP_of_forall_not hnone] at moved
  have hold : (s.lock m).stage s.machine.running.owner = (Pc.release h).stage m false :=
    hpc ▸ stage_running hnot
  rw [Simulates, moved.lock_go (fun _ _ => Iff.rfl)]
  by_cases hm : (Pc.release h).handle = some m
  · rw [Pc.stage_of_eq hm] at hold
    rw [Pc.stage_of_eq (p := .unlockReturn h 0) hm]
    refine .inr (Move.idle hold ?_)
    intro u hu hq
    obtain ⟨hwait, hmu⟩ := (seated.queued_iff hu).mp hq
    exact hnone u hwait (by simp [Queues.waitsOn, hmu, Option.some.inj hm])
  · rw [Pc.stage_of_ne hm] at hold
    rw [Pc.stage_of_ne (p := .unlockReturn h 0) hm]
    exact .inl (Lock.go_eq_self hold)

/-- `release_thread` finds `t`, which goes on behind its `swapcontext`. -/
theorem release_hands (seated : Seated threads mutexes s)
    (hpc : s.machine.running.pc = .release h) {rs : List ThreadId}
    (moved : Moved s s' (.unlockReturn h 0) rs
      (s.machine.queues.wait.eraseP (s.machine.queues.waitsOn h)))
    (hfind : s.machine.queues.wait.find? (s.machine.queues.waitsOn h) = some t) (m : Nat) :
    Simulates threads s s' m := by
  have hnot := seated.not_waiting hpc rfl
  have hwait := List.mem_of_find?_eq_some hfind
  have hmu : h = s.machine.queues.mu t := by
    have := List.find?_some hfind
    simpa [Queues.waitsOn] using this
  have hne : t ≠ s.machine.running.owner := fun same => hnot (same ▸ hwait)
  have ht : t ∈ threads := by
    rw [← seated.members t, Queues.members]
    simp [hwait]
  have hflow : (s.machine.flow t).pc = .swapPages h := by
    have hsaved := seated.saved t ht hne
    cases (seated.fits t ht).of_waiting hwait with
    | inl hswitching => simp [hswitching, Pc.switching] at hsaved
    | inr hpages => rw [hpages, hmu]
  have herase := fun u => Queues.mem_eraseP_of_find? (u := u) seated.holds.wait.nodup hfind
  have hlock : s'.lock m = ((s.lock m).go s.machine.running.owner
      ((Pc.unlockReturn h 0).stage m false)).go t ((Pc.swapPages h).stage m false) := by
    have hstage : s'.stage m = Function.update (Function.update (s.stage m)
        s.machine.running.owner ((Pc.unlockReturn h 0).stage m false)) t
          ((Pc.swapPages h).stage m false) := by
      funext u
      rw [Watched.stage, moved.holds.wait_eq]
      by_cases htu : u = t
      · have hout : (s.machine.queues.wait.eraseP (s.machine.queues.waitsOn h)).contains t =
            false := by
          simpa using fun hmem => ((herase t).mp hmem).2 rfl
        rw [htu, Function.update_self, moved.other t hne, hflow, hout]
      · rw [Function.update_of_ne htu]
        by_cases hself : u = s.machine.running.owner
        · rw [hself, Function.update_self, moved.self]
          rfl
        · have hsame : (s.machine.queues.wait.eraseP (s.machine.queues.waitsOn h)).contains u =
              s.machine.queues.wait.contains u := by
            simp [herase u, htu]
          rw [Function.update_of_ne hself, moved.other u hself, hsame]
          rfl
    rw [Watched.lock, hstage, moved.table, moved.holding]
    rfl
  have hold : (s.lock m).stage s.machine.running.owner = (Pc.release h).stage m false :=
    hpc ▸ stage_running hnot
  have hother : (s.lock m).stage t = (Pc.swapPages h).stage m true := by
    have hin : s.machine.queues.wait.contains t = true := by simpa using hwait
    rw [← hflow, ← hin]
    rfl
  rw [Simulates, hlock]
  by_cases hm : (Pc.release h).handle = some m
  · rw [Pc.stage_of_eq hm] at hold
    rw [Pc.stage_of_eq (p := .swapPages h) hm] at hother
    rw [Pc.stage_of_eq (p := .unlockReturn h 0) hm, Pc.stage_of_eq (p := .swapPages h) hm]
    exact .inr (Move.release t ht hold hother)
  · rw [Pc.stage_of_ne hm] at hold
    rw [Pc.stage_of_ne (p := .swapPages h) hm] at hother
    rw [Pc.stage_of_ne (p := .unlockReturn h 0) hm, Pc.stage_of_ne (p := .swapPages h) hm,
      Lock.go_eq_self hold]
    exact .inl (Lock.go_eq_self hother)

theorem release_advances (seated : Seated threads mutexes s)
    (hpc : s.machine.running.pc = .release h) {r : Machine}
    (hr : s.machine.statement = .ok r) : Advances threads mutexes s ⟨r, s.holding⟩ := by
  have hnot := seated.not_waiting hpc rfl
  obtain ⟨rs, hcurrent, hrunning, moved⟩ := seated.release_moved hpc hr
  have howner : (⟨r, s.holding⟩ : Watched).machine.running.owner = s.machine.running.owner := by
    change r.running.owner = _
    rw [hrunning]
  refine ⟨moved.seated seated (fun _ _ hu => List.mem_of_mem_eraseP hu) ?_ (by rw [hpc]; rfl)
    (fun _ => rfl) (howner ▸ seated.runs) ⟨_, hcurrent, fun _ => howner.symm⟩, ?_⟩
  · exact fun hu => hnot (List.mem_of_mem_eraseP hu)
  · intro m
    cases hfind : s.machine.queues.wait.find? (s.machine.queues.waitsOn h) with
    | none => exact seated.release_idle hpc moved hfind m
    | some t => exact seated.release_hands hpc moved hfind m

end Seated

end OsDesign.Preempt
