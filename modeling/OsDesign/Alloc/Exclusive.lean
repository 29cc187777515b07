import OsDesign.Alloc.Threads

/-!
When the allocators hand out a slot twice. The tests and the assignments behind them
are not protected against the timer, and what saves a run is that no other thread
comes to the same slot in between.
-/
namespace OsDesign.Alloc

open Pthread Virt

namespace Tables

variable {s s' : Tables} {t u : ThreadId} {i j : Nat} {stage : Stage} {pc : Pc}

theorem Frames.pageStatement (f : s.Frames) (enabled : s.live t = true)
    (hpc : s.pc t = .page j stage) (exclusive : s.ExclusiveTest t (.page j stage))
    (h : s.pageStatement t j stage = .ok s') : s'.Frames := by
  cases stage with
  | pfnCount =>
      cases h
      exact f.pfnCount enabled hpc
  | frameUsed i =>
      simp only [Tables.pageStatement] at h
      split at h
      · cases h
      next hi =>
        cases h
        exact f.frameUsed enabled hpc (Nat.not_le.mp hi) exclusive
  | setUsed i =>
      cases h
      exact f.setUsed enabled hpc
  | setThread i =>
      cases h
      exact f.setThread enabled hpc
  | addCount i =>
      cases h
      exact f.addCount enabled hpc
  | evictUsed i =>
      cases h
      exact f.evictUsed enabled hpc exclusive
  | evictThread i =>
      cases h
      exact f.evictThread enabled hpc exclusive
  | swapOut i =>
      simp only [Tables.pageStatement] at h
      cases hswap : s.vm.swapOut (i * pageSize) with
      | error stop => simp [hswap] at h
      | ok result =>
          simp only [hswap, Except.ok.injEq] at h
          rw [← h]
          exact f.swapOut enabled hpc hswap
  | findEntry i offset k =>
      simp only [Tables.pageStatement, Nat.not_le.mpr (f.findEntry_lt hpc), if_false] at h
      obtain ⟨owner, hthread, rfl⟩ := withOwner_ok.mp h
      exact f.findEntry enabled hpc hthread
  | clearValid i offset k =>
      obtain ⟨owner, hthread, rfl⟩ := withOwner_ok.mp h
      exact f.clearValid enabled hpc hthread
  | setSwapout i offset k =>
      obtain ⟨owner, hthread, rfl⟩ := withOwner_ok.mp h
      exact f.setSwapout enabled hpc hthread
  | setPos i offset k =>
      obtain ⟨owner, hthread, rfl⟩ := withOwner_ok.mp h
      exact f.setPos enabled hpc hthread
  | takeThread i =>
      cases h
      exact f.takeThread enabled hpc
  | setPfn i =>
      cases h
      exact f.setPageframenumber enabled hpc
  | setValid i =>
      cases h
      exact f.setValid enabled hpc

theorem Frames.statement (f : s.Frames) (enabled : s.live t = true)
    (exclusive : s.ExclusiveTest t (s.pc t)) (h : s.statement t = .ok s') : s'.Frames := by
  rw [Tables.statement] at h
  cases hpc : s.pc t with
  | idle =>
      simp only [hpc, Except.ok.injEq] at h
      exact h ▸ f
  | mutexUsed i =>
      simp only [hpc, Except.ok.injEq] at h
      rw [← h]
      refine f.outside enabled ⟨rfl, rfl⟩ (congrArg Pc.stage hpc) ?_ rfl rfl
      split
      · rfl
      · split <;> rfl
  | setMutexUsed i | setMutexCount i | mutexReturn i =>
      simp only [hpc, Except.ok.injEq] at h
      rw [← h]
      exact f.outside enabled ⟨rfl, rfl⟩ (congrArg Pc.stage hpc) rfl rfl rfl
  | entryUnused j =>
      simp only [hpc, Except.ok.injEq] at h
      rw [hpc] at exclusive
      rw [← h]
      exact f.entryUnused enabled hpc exclusive
  | page j stage =>
      simp only [hpc] at h
      rw [hpc] at exclusive
      exact f.pageStatement enabled hpc exclusive h

theorem Frames.act {a : Action} (f : s.Frames) (enabled : s.Enabled (t, a))
    (exclusive : s.Exclusive (t, a)) (h : s.act t a = .ok s') : s'.Frames := by
  cases a with
  | statement => exact f.statement enabled.1 exclusive h
  | allocMutex | allocatePage =>
      cases h
      exact f.outside enabled.1 ⟨rfl, rfl⟩ (congrArg Pc.stage enabled.2) rfl rfl rfl
  | freeMutex i =>
      cases h
      exact f.outside enabled.1 ⟨(Function.update_eq_self t s.pc).symm, rfl⟩
        (congrArg Pc.stage enabled.2) (congrArg Pc.stage enabled.2) rfl rfl
  | exit =>
      cases h
      exact f.exit enabled.1 enabled.2 (freeThreadPages_freed s.vm t) exclusive
  | create u =>
      cases h
      exact f.create enabled.2.1 enabled.2.2

/-- While no thread enters a window that another thread is in, no index and no frame is
handed out twice. -/
theorem slots_handed_once (reach : s.Reachable Exclusive) :
    s.HandlesDistinct ∧ s.FramesDistinct := by
  have both : s.Handles ∧ s.Frames := by
    refine reach.invariant (fun s => s.Handles ∧ s.Frames)
      (fun _ init => ⟨init.handles, frames_of_init init⟩) ?_
    rintro s ⟨t, a⟩ s' ⟨enabled, exclusive⟩ taken before
    have hact := step_iff.mp taken
    exact ⟨before.1.act exclusive hact, before.2.act enabled exclusive hact⟩
  exact ⟨both.1.distinct, both.2.distinct⟩

/-- Two threads behind `my_pthread_init`. -/
def start : Tables where
  vm := mmInit
  gMutexTable := fun _ => ⟨false, 0⟩
  live := fun t => decide (t < 2)
  pc := fun _ => .idle
  handed := fun _ => false

theorem init_start : start.Init :=
  ⟨fun _ => rfl, fun _ _ _ => rfl, fun _ => rfl, fun _ => rfl, fun _ => rfl⟩

/-- So many statements of a thread. -/
def statements (t : ThreadId) (n : Nat) : List (ThreadId × Action) :=
  List.replicate n (t, .statement)

/-- The threads 0 and 1 call the allocators in turn while frames are free. -/
def InTurn (s : Tables) (e : ThreadId × Action) : Prop :=
  s.Enabled e ∧ e.1 < 2 ∧ s.pc (1 - e.1) = .idle ∧
    (e.2 = .statement ∧ (s.pc e.1).stage.any Stage.scans = false ∨
      e.2 = .allocMutex ∨ e.2 = .allocatePage)

instance (s : Tables) : DecidablePred s.InTurn := fun e => inferInstanceAs (Decidable
  (s.Enabled e ∧ e.1 < 2 ∧ s.pc (1 - e.1) = .idle ∧
    (e.2 = .statement ∧ (s.pc e.1).stage.any Stage.scans = false ∨
      e.2 = .allocMutex ∨ e.2 = .allocatePage)))

theorem exclusiveTest_of_idle (others : ∀ u, u ≠ t → s.pc u = .idle)
    (calm : (s.pc t).stage.any Stage.scans = false) : s.ExclusiveTest t (s.pc t) := by
  cases hpc : s.pc t with
  | idle | setMutexUsed _ | setMutexCount _ | mutexReturn _ => exact trivial
  | mutexUsed i =>
      intro _ u hu
      rw [others u hu]
      exact nofun
  | entryUnused j =>
      intro _ u i hi
      by_cases hu : u = t
      · rw [hu, hpc] at hi
        cases hi
      · rw [others u hu] at hi
        cases hi
  | page j stage =>
      rw [hpc] at calm
      cases stage with
      | frameUsed i =>
          intro _ u hu
          rw [others u hu]
          exact nofun
      | evictUsed _ | evictThread _ => cases calm
      | _ => exact trivial

theorem eq_other_of_lt_two {t u : Nat} (ht : t < 2) (hu : u < 2) (h : u ≠ t) : u = 1 - t := by
  omega

/-- Calls that do not overlap are exclusive. -/
theorem reachable_of_inTurn (reach : Runs.Reachable Init InTurn Step s) :
    s.Reachable Exclusive := by
  have both : s.Reachable Exclusive ∧ ∀ u, 2 ≤ u → s.pc u = .idle := by
    refine reach.invariant (fun s => s.Reachable Exclusive ∧ ∀ u, 2 ≤ u → s.pc u = .idle) ?_ ?_
    · intro s init
      exact ⟨.start init, fun u _ => init.idle u⟩
    · rintro s ⟨t, a⟩ s' ⟨enabled, ht, hother, hcall⟩ taken ⟨before, hidle⟩
      have hne : ∀ u, 2 ≤ u → u ≠ t := fun u hu => (Nat.lt_of_lt_of_le ht hu).ne'
      have others : ∀ u, u ≠ t → s.pc u = .idle := by
        intro u hu
        by_cases hu2 : u < 2
        · rw [eq_other_of_lt_two ht hu2 hu]
          exact hother
        · exact hidle u (Nat.not_lt.mp hu2)
      have hact := step_iff.mp taken
      rcases hcall with ⟨rfl, calm⟩ | rfl | rfl
      · refine ⟨before.extend (.single ⟨enabled, exclusiveTest_of_idle others calm⟩ taken), ?_⟩
        intro u hu
        rw [statement_pc hact (hne u hu)]
        exact hidle u hu
      · refine ⟨before.extend (.single ⟨enabled, trivial⟩ taken), ?_⟩
        intro u hu
        cases hact
        rw [pc_goto_of_ne _ _ (hne u hu)]
        exact hidle u hu
      · refine ⟨before.extend (.single ⟨enabled, trivial⟩ taken), ?_⟩
        intro u hu
        cases hact
        rw [pc_goto_of_ne _ _ (hne u hu)]
        exact hidle u hu
  exact both.1

/-- Two threads with a mutex and a page each. -/
theorem slots_of_two_threads :
    ∃ s : Tables, s.handed 1 = true ∧ s.vm.view 0 0 = .inMemory 0 ∧
      s.pc 1 = .mutexReturn 2 ∧ s.vm.view 1 0 = .inMemory 1 ∧
        s.HandlesDistinct ∧ s.FramesDistinct := by
  obtain ⟨s, reach, h⟩ := Runs.exists_reachable_of_run InTurn next init_start
    (fun s => s.handed 1 = true ∧ s.vm.view 0 0 = .inMemory 0 ∧ s.pc 1 = .mutexReturn 2 ∧
      s.vm.view 1 0 = .inMemory 1)
    ([(0, .allocMutex)] ++ statements 0 4 ++ [(0, .allocatePage)] ++ statements 0 8 ++
      [(1, .allocatePage)] ++ statements 1 9 ++ [(1, .allocMutex)] ++ statements 1 4)
    (by decide +kernel)
  obtain ⟨handed, hview₀, hpc, hview₁⟩ := h
  exact ⟨s, handed, hview₀, hpc, hview₁, slots_handed_once (reachable_of_inTurn reach)⟩

/-- The timer expires behind a test that passed: the other thread comes to the same
index, or to the same frame, and takes it. -/
theorem slot_handed_twice :
    (¬ ∀ s : Tables, s.Reachable (fun _ _ => True) → s.HandlesDistinct) ∧
      ¬ ∀ s : Tables, s.Reachable (fun _ _ => True) → s.FramesDistinct := by
  refine ⟨?_, ?_⟩
  · intro distinct
    obtain ⟨s, reach, hpc, handed⟩ := Runs.exists_reachable_of_run
      (fun s e => Enabled s e ∧ True) next init_start
      (fun s => s.pc 0 = .mutexReturn 1 ∧ s.handed 1 = true)
      ([(0, .allocMutex)] ++ statements 0 1 ++ [(1, .allocMutex)] ++ statements 1 4 ++
        statements 0 2) (by decide +kernel)
    cases (distinct s reach 0 1 hpc).symm.trans handed
  · intro distinct
    obtain ⟨s, reach, h₀, h₁, hview₀, hview₁⟩ := Runs.exists_reachable_of_run
      (fun s e => Enabled s e ∧ True) next init_start
      (fun s => s.live 0 = true ∧ s.live 1 = true ∧ s.vm.view 0 0 = .inMemory 0 ∧
        s.vm.view 1 0 = .inMemory 0)
      ([(0, .allocatePage)] ++ statements 0 3 ++ [(1, .allocatePage)] ++ statements 1 8 ++
        statements 0 5) (by decide +kernel)
    have hbound : 0 < maxVirtualPages := by
      rw [maxVirtualPages_eq]
      omega
    cases (distinct s reach 0 0 1 0 0 h₀ hbound h₁ hbound hview₀ hview₁).1

end Tables

end OsDesign.Alloc
