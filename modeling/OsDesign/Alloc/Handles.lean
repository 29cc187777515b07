import OsDesign.Alloc.Windows

/-!
The entries of `g_mutex_table` in a run where nobody enters an occupied window.
-/
namespace OsDesign.Alloc

open Pthread Virt

namespace Tables

variable {s s' : Tables} {t : ThreadId} {i j : Nat} {pc : Pc}

@[simp] theorem pc_goto_self (s : Tables) (t : ThreadId) (pc : Pc) : (s.goto t pc).pc t = pc :=
  Function.update_self _ _ _

theorem pc_goto_of_ne (s : Tables) (pc : Pc) {t u : ThreadId} (h : u ≠ t) :
    (s.goto t pc).pc u = s.pc u :=
  Function.update_of_ne h _ _

/-- An index is on its way to one caller at most, and until it is freed the entry is
marked from the second statement on. -/
structure Handles (s : Tables) : Prop where
  apart : Apart fun t => (s.pc t).mutex
  fresh : ∀ t i, (s.pc t).mutex = some i → s.handed i = false
  marked : ∀ t i, (s.pc t).marked = some i → (s.gMutexTable i).used = true
  handed : ∀ i, s.handed i = true → (s.gMutexTable i).used = true

theorem mutex_of_marked {pc : Pc} (h : pc.marked = some i) : pc.mutex = some i := by
  cases pc with
  | setMutexCount _ | mutexReturn _ => exact h
  | idle | mutexUsed _ | setMutexUsed _ | entryUnused _ | page _ _ => cases h

/-- The statements of `t` outside its window: the table stays. -/
theorem Handles.goto (h : s.Handles) (vm : Vm) (t : ThreadId)
    (hmarked : pc.marked = none)
    (hmutex : ∀ i, pc.mutex = some i →
      s.handed i = false ∧ ∀ u, u ≠ t → (s.pc u).mutex ≠ some i) :
    ({ s with vm := vm }.goto t pc).Handles := by
  refine ⟨h.apart.move (t := t) ?_ ?_, ?_, ?_, h.handed⟩
  · intro u hu
    rw [pc_goto_of_ne _ _ hu]
  · intro i hi
    rw [pc_goto_self] at hi
    exact .inr (hmutex i hi).2
  · intro u i hi
    by_cases hu : u = t
    · rw [hu, pc_goto_self] at hi
      exact (hmutex i hi).1
    · rw [pc_goto_of_ne _ _ hu] at hi
      exact h.fresh u i hi
  · intro u i hi
    by_cases hu : u = t
    · rw [hu, pc_goto_self, hmarked] at hi
      cases hi
    · rw [pc_goto_of_ne _ _ hu] at hi
      exact h.marked u i hi

theorem Handles.outside (h : s.Handles) (vm : Vm) (t : ThreadId)
    (hmutex : pc.mutex = none) : ({ s with vm := vm }.goto t pc).Handles := by
  refine h.goto vm t ?_ ?_
  · cases hmarked : pc.marked with
    | none => rfl
    | some i => cases (mutex_of_marked hmarked).symm.trans hmutex
  · intro i hi
    cases hi.symm.trans hmutex

/-- The statements of `t` on its own entry `i`: the entry is marked afterwards. -/
theorem Handles.write (h : s.Handles) (hpc : (s.pc t).mutex = some i) (e : MutexT)
    (used : e.used = true) (hmutex : pc.mutex = some i) :
    ({ s with gMutexTable := Function.update s.gMutexTable i e }.goto t pc).Handles := by
  have kept : ∀ k, (s.gMutexTable k).used = true →
      (Function.update s.gMutexTable i e k).used = true := by
    intro k hk
    by_cases hki : k = i
    · rw [hki, Function.update_self]
      exact used
    · rw [Function.update_of_ne hki]
      exact hk
  refine ⟨h.apart.move (t := t) ?_ ?_, ?_, ?_, fun k hk => kept k (h.handed k hk)⟩
  · intro u hu
    rw [pc_goto_of_ne _ _ hu]
  · intro k hk
    rw [pc_goto_self, hmutex] at hk
    exact .inl (hpc.trans hk)
  · intro u k hk
    by_cases hu : u = t
    · rw [hu, pc_goto_self, hmutex] at hk
      exact h.fresh t k (hpc.trans hk)
    · rw [pc_goto_of_ne _ _ hu] at hk
      exact h.fresh u k hk
  · intro u k hk
    by_cases hu : u = t
    · rw [hu, pc_goto_self] at hk
      obtain rfl : i = k := Option.some.inj (hmutex.symm.trans (mutex_of_marked hk))
      change (Function.update s.gMutexTable i e i).used = true
      rw [Function.update_self]
      exact used
    · rw [pc_goto_of_ne _ _ hu] at hk
      exact kept k (h.marked u k hk)

/-- The call returns `i`. -/
theorem Handles.hand (h : s.Handles) (hpc : s.pc t = .mutexReturn i) :
    ({ s with handed := Function.update s.handed i true }.goto t .idle).Handles := by
  have hmarked : (s.gMutexTable i).used = true := h.marked t i (by rw [hpc]; rfl)
  have hmutex : (s.pc t).mutex = some i := by
    rw [hpc]
    rfl
  refine ⟨h.apart.move (t := t) ?_ ?_, ?_, ?_, ?_⟩
  · intro u hu
    rw [pc_goto_of_ne _ _ hu]
  · intro k hk
    rw [pc_goto_self] at hk
    cases hk
  · intro u k hk
    by_cases hu : u = t
    · rw [hu, pc_goto_self] at hk
      cases hk
    · rw [pc_goto_of_ne _ _ hu] at hk
      have hki : k ≠ i := by
        intro hki
        exact hu (h.apart u t k hk (hki ▸ hmutex))
      exact (Function.update_of_ne hki _ _).trans (h.fresh u k hk)
  · intro u k hk
    by_cases hu : u = t
    · rw [hu, pc_goto_self] at hk
      cases hk
    · rw [pc_goto_of_ne _ _ hu] at hk
      exact h.marked u k hk
  · intro k hk
    by_cases hki : k = i
    · rw [hki]
      exact hmarked
    · exact h.handed k ((Function.update_of_ne hki _ _).symm.trans hk)

/-- `free_mutex` of an entry that nobody is about to return. -/
theorem Handles.free (h : s.Handles) (unmarked : ∀ u, (s.pc u).marked ≠ some i) :
    ({ s with
      gMutexTable := s.gMutexTable.freeMutex i
      handed := Function.update s.handed i false } : Tables).Handles := by
  have kept : ∀ k, k ≠ i → (s.gMutexTable.freeMutex i k).used = (s.gMutexTable k).used := by
    intro k hki
    exact congrArg MutexT.used (Function.update_of_ne hki _ _)
  refine ⟨h.apart, ?_, ?_, ?_⟩
  · intro u k hk
    by_cases hki : k = i
    · rw [hki]
      exact Function.update_self _ _ _
    · exact (Function.update_of_ne hki _ _).trans (h.fresh u k hk)
  · intro u k hk
    have hki : k ≠ i := by
      rintro rfl
      exact unmarked u hk
    exact (kept k hki).trans (h.marked u k hk)
  · intro k hk
    by_cases hki : k = i
    · cases (Function.update_self i false s.handed).symm.trans (hki ▸ hk)
    · exact (kept k hki).trans (h.handed k ((Function.update_of_ne hki _ _).symm.trans hk))

theorem withOwner_ok {k : ThreadId → Tables} :
    s.withOwner i k = .ok s' ↔ ∃ owner, (s.vm.gPfn i).thread = some owner ∧ s' = k owner := by
  rw [withOwner]
  cases (s.vm.gPfn i).thread with
  | none => simp
  | some owner => simp [eq_comm]

/-- `mm_allocate_page` leaves the mutexes alone. -/
theorem pageStatement_ok {stage : Stage} (h : s.pageStatement t j stage = .ok s') :
    ∃ vm pc, pc.mutex = none ∧ s' = { s with vm := vm }.goto t pc := by
  cases stage with
  | pfnCount | evictUsed _ | evictThread _ | setUsed _ | setThread _ | addCount _ | takeThread _
  | setPfn _ =>
      cases h
      exact ⟨_, _, rfl, rfl⟩
  | setValid _ =>
      cases h
      exact ⟨_, _, rfl, rfl⟩
  | frameUsed i =>
      simp only [pageStatement] at h
      split at h
      · cases h
      · cases h
        exact ⟨_, _, rfl, rfl⟩
  | swapOut i =>
      simp only [pageStatement] at h
      cases hswap : s.vm.swapOut (i * pageSize) with
      | error stop => simp [hswap] at h
      | ok result =>
          simp only [hswap, Except.ok.injEq] at h
          exact ⟨result.1, _, rfl, h.symm⟩
  | findEntry i offset k =>
      simp only [pageStatement] at h
      split at h
      · cases h
        exact ⟨_, _, rfl, rfl⟩
      · obtain ⟨owner, -, rfl⟩ := withOwner_ok.mp h
        exact ⟨_, _, rfl, rfl⟩
  | clearValid _ _ _ | setSwapout _ _ _ | setPos _ _ _ =>
      obtain ⟨owner, -, rfl⟩ := withOwner_ok.mp h
      exact ⟨_, _, rfl, rfl⟩

/-- A statement of `t` moves nobody else. -/
theorem statement_pc (h : s.statement t = .ok s') {u : ThreadId} (hu : u ≠ t) :
    s'.pc u = s.pc u := by
  rw [Tables.statement] at h
  cases hpc : s.pc t with
  | idle =>
      simp only [hpc, Except.ok.injEq] at h
      rw [h]
  | mutexUsed i | setMutexUsed i | setMutexCount i | mutexReturn i | entryUnused j =>
      simp only [hpc, Except.ok.injEq] at h
      rw [← h]
      exact pc_goto_of_ne _ _ hu
  | page j stage =>
      simp only [hpc] at h
      obtain ⟨vm, pc, -, rfl⟩ := pageStatement_ok h
      exact pc_goto_of_ne _ _ hu

theorem Handles.statement (h : s.Handles) (exclusive : s.ExclusiveTest t (s.pc t))
    (hstep : s.statement t = .ok s') : s'.Handles := by
  rw [Tables.statement] at hstep
  cases hpc : s.pc t with
  | idle =>
      rw [hpc] at hstep
      cases hstep
      exact h
  | mutexUsed i =>
      simp only [hpc, Except.ok.injEq] at hstep
      rw [← hstep]
      split
      · exact h.outside s.vm t rfl
      · split
        next hfree =>
          rw [hpc] at exclusive
          refine h.goto s.vm t rfl ?_
          intro k hk
          cases hk
          refine ⟨?_, exclusive hfree⟩
          cases hhanded : s.handed i with
          | false => rfl
          | true => cases hfree.symm.trans (h.handed i hhanded)
        · exact h.outside s.vm t rfl
  | setMutexUsed i =>
      simp only [hpc, Except.ok.injEq] at hstep
      rw [← hstep]
      exact h.write (by rw [hpc]; rfl) _ rfl rfl
  | setMutexCount i =>
      simp only [hpc, Except.ok.injEq] at hstep
      rw [← hstep]
      exact h.write (by rw [hpc]; rfl) _ (h.marked t i (by rw [hpc]; rfl)) rfl
  | mutexReturn i =>
      simp only [hpc, Except.ok.injEq] at hstep
      rw [← hstep]
      exact h.hand hpc
  | entryUnused j =>
      simp only [hpc, Except.ok.injEq] at hstep
      rw [← hstep]
      refine h.outside s.vm t ?_
      split
      · rfl
      · split
        · rfl
        · rfl
  | page j stage =>
      simp only [hpc] at hstep
      obtain ⟨vm, pc, hmutex, rfl⟩ := pageStatement_ok hstep
      exact h.outside vm t hmutex

theorem Handles.act {a : Action} (h : s.Handles) (exclusive : s.Exclusive (t, a))
    (hstep : s.act t a = .ok s') : s'.Handles := by
  cases a with
  | statement => exact h.statement exclusive hstep
  | allocMutex | allocatePage =>
      cases hstep
      exact h.outside s.vm t rfl
  | freeMutex i =>
      cases hstep
      exact h.free exclusive
  | exit | create u =>
      cases hstep
      exact ⟨h.apart, h.fresh, h.marked, h.handed⟩

theorem Handles.distinct (h : s.Handles) : s.HandlesDistinct := by
  intro t i hpc
  apply h.fresh t i
  rw [hpc]
  rfl

theorem Init.handles (init : s.Init) : s.Handles := by
  have none : ∀ t, (s.pc t).mutex = none := by
    intro t
    rw [init.idle t]
    rfl
  refine ⟨?_, ?_, ?_, ?_⟩
  · intro t u i ht
    cases (none t).symm.trans ht
  · intro t i ht
    cases (none t).symm.trans ht
  · intro t i ht
    cases (none t).symm.trans (mutex_of_marked ht)
  · intro i hi
    cases (init.handed i).symm.trans hi

end Tables

end OsDesign.Alloc
