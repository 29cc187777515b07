import OsDesign.Alloc.Eviction

/-!
The steps of a thread that is in none of the allocators: calls begin, and threads
are made and end.
-/
namespace OsDesign.Alloc

open Pthread Virt Loops

namespace Tables

variable {s s' : Tables} {t u : ThreadId} {i j k p q : Nat} {pc : Pc} {vm : Vm}

theorem own_of_outside {pc : Pc} (h : pc.stage = none) : pc.own = none := by
  cases pc with
  | page _ _ => cases h
  | idle | mutexUsed _ | setMutexUsed _ | setMutexCount _ | mutexReturn _ | entryUnused _ => rfl

theorem frame_of_outside {pc : Pc} (h : pc.stage = none) : pc.frame = none := by
  rw [Pc.frame, h]
  rfl

/-- A step of a thread outside that leaves every frame to the others. -/
theorem Frames.begin (f : s.Frames) (enabled : s.live t = true) (moves : Moves s s' t pc)
    (hstage : (s.pc t).stage = none) (hgPfn : s'.vm.gPfn = s.vm.gPfn)
    (htables : s'.vm.pagetables = s.vm.pagetables) (hframe : pc.frame = none)
    (taken : ∀ k, pc.own = some k →
      ∀ u i, (s.pc u).rewrites = some (i, k) → (s.vm.gPfn i).thread ≠ some t)
    (placed : s'.Placed t) : s'.Frames := by
  have names : ∀ v k p, s'.Names v k p ↔ s.Names v k p := by
    intro v k p
    exact names_congr (congrFun moves.live v) (congrFun htables v)
  have c : Change s s' t fun _ => False := by
    refine ⟨fun u => moves.of_ne, ?_, fun _ _ _ _ => id, ?_, ?_, ?_, ?_, ?_⟩
    · intro p _
      exact ⟨congrFun hgPfn p, fun v k => names v k p⟩
    · intro v k p hname
      exact .inl ((names v k p).mp hname)
    · intro u k _ _
      rw [htables]
    · intro p hp
      cases (frame_of_outside hstage).symm.trans hp
    · intro p hp
      rw [moves.self, hframe] at hp
      cases hp
    · intro k hk
      rw [moves.self] at hk
      exact .inr (taken k hk)
  exact c.frames f (moves.idle f enabled) nofun placed

theorem Frames.outside (f : s.Frames) (enabled : s.live t = true) (moves : Moves s s' t pc)
    (hstage : (s.pc t).stage = none) (hstage' : pc.stage = none)
    (hgPfn : s'.vm.gPfn = s.vm.gPfn) (htables : s'.vm.pagetables = s.vm.pagetables) :
    s'.Frames := by
  refine f.begin enabled moves hstage hgPfn htables (frame_of_outside hstage') ?_
    (placed_of_outside ?_)
  · intro k hk
    cases (own_of_outside hstage').symm.trans hk
  · rw [moves.self]
    exact hstage'

/-- `mm_allocate_page` takes an entry that nobody rewrites. -/
theorem Frames.entryUnused (f : s.Frames) (enabled : s.live t = true)
    (hpc : s.pc t = .entryUnused j)
    (free : (s.vm.pagetables t j).long = 0#64 →
      ∀ u i, (s.pc u).rewrites = some (i, j) → (s.vm.gPfn i).thread ≠ some t) :
    (s.goto t (if maxVirtualPages ≤ j then .idle
      else if (s.vm.pagetables t j).long = 0#64 then .page j .pfnCount
      else .entryUnused (j + 1))).Frames := by
  have hstage : (s.pc t).stage = none := by
    rw [hpc]
    rfl
  split
  · exact f.outside enabled ⟨rfl, rfl⟩ hstage rfl rfl rfl
  next hj =>
    split
    next hlong =>
      refine f.begin enabled ⟨rfl, rfl⟩ hstage rfl rfl rfl ?_ ⟨?_, ?_, ?_, ?_⟩
      · intro k hk
        cases hk
        exact free hlong
      · intro k hk
        rw [pc_goto_self] at hk
        cases hk
        refine ⟨Nat.not_le.mp hj, ?_⟩
        rintro p ⟨-, -, hview⟩
        cases (Mmpte.view_eq_unused.mpr hlong).symm.trans hview
      · intro k i hk
        rw [pc_goto_self] at hk
        cases hk
      · intro i k v hi
        rw [pc_goto_self] at hi
        cases hi
      · intro stage h
        rw [pc_goto_self] at h
        cases h
        exact trivial
    · exact f.outside enabled ⟨rfl, rfl⟩ hstage rfl rfl rfl

/-! The end of a thread. -/

/-- What `free_thread_pages` has done when it comes to entry `n`. -/
structure Freed (vm : Vm) (t : ThreadId) (n : Nat) (vm' : Vm) : Prop where
  others : ∀ u, u ≠ t → vm'.pagetables u = vm.pagetables u
  ahead : ∀ k, n ≤ k → vm'.pagetables t k = vm.pagetables t k
  kept : ∀ p, (∀ k, k < n → vm.view t k ≠ .inMemory p) → vm'.gPfn p = vm.gPfn p
  freed : ∀ k p, k < n → vm.view t k = .inMemory p → p < maxPhysicalPages →
    (vm'.gPfn p).used = false

theorem freeThreadPages_freed (vm : Vm) (t : ThreadId) :
    Freed vm t maxVirtualPages (vm.freeThreadPages t) := by
  refine forRange_induct (fun n vm' => Freed vm t n vm') _ _ _ ?_ ?_
  · exact ⟨fun _ _ => rfl, fun _ _ => rfl, fun _ _ => rfl, nofun⟩
  · intro n vm' _ h
    have hentry : vm'.pagetables t n = vm.pagetables t n := h.ahead n (Nat.le_refl n)
    by_cases hvalid : (vm'.pagetables t n).hardValid = 1#1
    · simp only [hvalid, if_true]
      have hview : vm.view t n = .inMemory (vm.pagetables t n).hardPageframenumber :=
        Mmpte.hardValid_eq_one_iff.mp (hentry ▸ hvalid)
      rw [hentry]
      generalize (vm.pagetables t n).hardPageframenumber = q at hview ⊢
      refine ⟨?_, ?_, ?_, ?_⟩
      · intro u hu
        change Function.update (vm'.freePhysicalPage q).pagetables t _ u = _
        rw [Function.update_of_ne hu, Vm.pagetables_freePhysicalPage]
        exact h.others u hu
      · intro k hk
        rw [Vm.pagetables_setEntry_of_ne _ _ (.inr (by omega)), Vm.pagetables_freePhysicalPage]
        exact h.ahead k (Nat.le_of_succ_le hk)
      · intro p hp
        have hne : p ≠ q := by
          rintro rfl
          exact hp n (Nat.lt_succ_self n) hview
        refine (Vm.gPfn_freePhysicalPage_of_ne vm' hne).trans ?_
        exact h.kept p fun k hk => hp k (Nat.lt_succ_of_lt hk)
      · intro k p hk hkp hbound
        by_cases hpq : p = q
        · subst hpq
          exact Vm.used_freePhysicalPage vm' hbound
        · have hkn : k ≠ n := by
            rintro rfl
            exact hpq (Mmpte.View.inMemory.inj (hkp.symm.trans hview))
          refine (congrArg PfnT.used (Vm.gPfn_freePhysicalPage_of_ne vm' hpq)).trans ?_
          exact h.freed k p (by omega) hkp hbound
    · simp only [hvalid, if_false]
      have hview : ∀ p, vm.view t n ≠ .inMemory p := by
        intro p hp
        exact hvalid (hentry ▸ (Mmpte.view_eq_inMemory.mp hp).1)
      refine ⟨h.others, fun k hk => h.ahead k (Nat.le_of_succ_le hk), ?_, ?_⟩
      · intro p hp
        exact h.kept p fun k hk => hp k (Nat.lt_succ_of_lt hk)
      · intro k p hk hkp hbound
        have hkn : k ≠ n := by
          rintro rfl
          exact hview p hkp
        exact h.freed k p (by omega) hkp hbound

/-- A frame that somebody stands on is named by nobody, unless it is being evicted. -/
theorem Frames.unnamed_of_frame (f : s.Frames) (hframe : (s.pc u).frame = some p)
    (hevicts : (s.pc u).evicts ≠ some p) : s.Unnamed p := by
  cases hpc : s.pc u with
  | idle | mutexUsed _ | setMutexUsed _ | setMutexCount _ | mutexReturn _ | entryUnused _ =>
      cases (congrArg Pc.frame hpc).symm.trans hframe
  | page j stage =>
      have stands := (f.placed u).stands stage (congrArg Pc.stage hpc)
      rw [hpc] at hframe hevicts
      cases stage with
      | pfnCount | frameUsed _ | evictUsed _ | evictThread _ => cases hframe
      | setUsed i =>
          cases hframe
          exact stands.2
      | setThread i | setSwapout i _ _ | setPos i _ _ | takeThread i =>
          cases hframe
          exact Taken.unnamed stands
      | addCount i =>
          cases hframe
          exact stands.1.unnamed
      | swapOut i | findEntry i _ _ | clearValid i _ _ =>
          cases hframe
          exact absurd rfl hevicts
      | setPfn i | setValid i =>
          cases hframe
          exact Granted.unnamed stands

theorem Frames.bound_of_evicts (f : s.Frames) (hevicts : (s.pc u).evicts = some p) :
    p < maxPhysicalPages := by
  cases hpc : s.pc u with
  | idle | mutexUsed _ | setMutexUsed _ | setMutexCount _ | mutexReturn _ | entryUnused _ =>
      cases (congrArg Pc.evicts hpc).symm.trans hevicts
  | page j stage =>
      have stands := (f.placed u).stands stage (congrArg Pc.stage hpc)
      rw [hpc] at hevicts
      cases stage with
      | swapOut i | findEntry i _ _ | clearValid i _ _ =>
          cases hevicts
          exact Victim.bound stands
      | pfnCount | frameUsed _ | evictUsed _ | evictThread _ | setUsed _ | setThread _
      | addCount _ | setSwapout _ _ _ | setPos _ _ _ | takeThread _ | setPfn _ | setValid _ =>
          cases hevicts

/-- A thread ends while nobody evicts one of its frames. -/
theorem Frames.exit (f : s.Frames) (enabled : s.live t = true) (hpc : s.pc t = .idle)
    (freed : Freed s.vm t maxVirtualPages vm)
    (free : ∀ u i, (s.pc u).evicts = some i → (s.vm.gPfn i).thread ≠ some t) :
    ({ s with vm := vm, live := Function.update s.live t false } : Tables).Frames := by
  have hstage : (s.pc t).stage = none := by
    rw [hpc]
    rfl
  have live : ∀ v, v ≠ t → Function.update s.live t false v = s.live v := by
    intro v hv
    exact Function.update_of_ne hv _ _
  have names : ∀ v k p,
      ({ s with vm := vm, live := Function.update s.live t false } : Tables).Names v k p ↔
        v ≠ t ∧ s.Names v k p := by
    intro v k p
    by_cases hv : v = t
    · subst hv
      refine ⟨?_, fun hname => absurd rfl hname.1⟩
      rintro ⟨hlive, -⟩
      cases (Function.update_self v false s.live).symm.trans hlive
    · exact (names_congr (live v hv) (freed.others v hv)).trans (and_iff_right hv).symm
  have c : Change s { s with vm := vm, live := Function.update s.live t false } t
      fun p => ∃ k, s.Names t k p := by
    refine ⟨fun _ _ => rfl, ?_, ?_, ?_, ?_, ?_, fun _ hp => .inl hp, fun _ hk => .inl hk⟩
    · intro p hp
      refine ⟨freed.kept p ?_, ?_⟩
      · intro k hk hview
        exact hp ⟨k, enabled, hk, hview⟩
      · intro v k
        rw [names v k p, and_iff_right_of_imp]
        rintro hname rfl
        exact hp ⟨k, hname⟩
    · rintro u p - hup ⟨k, hname⟩
      by_cases hevicts : (s.pc u).evicts = some p
      · have hthread := ((f.accounted p).backed t k hname (f.bound_of_evicts hevicts)).2
        exact free u p hevicts hthread
      · exact f.unnamed_of_frame hup hevicts t k hname
    · intro v k p hname
      exact .inl ((names v k p).mp hname).2
    · intro u k hu _
      exact congrFun (freed.others u hu) k
    · intro p hp
      cases (frame_of_outside hstage).symm.trans hp
  refine c.frames f ?_ ?_ (placed_of_outside hstage)
  · intro u hu
    by_cases hut : u = t
    · rw [hut]
      exact hpc
    · exact f.idle u ((live u hut).symm.trans hu)
  · rintro p ⟨k, hname⟩
    have unnamed : ∀ v l, ¬ (v ≠ t ∧ s.Names v l p) := by
      rintro v l ⟨hv, hvl⟩
      exact hv ((f.accounted p).unique v l t k hvl hname).1
    refine ⟨?_, ?_, ?_⟩
    · intro v l hvl
      exact absurd ((names v l p).mp hvl) (unnamed v l)
    · intro v l w m hvl
      exact absurd ((names v l p).mp hvl) (unnamed v l)
    · intro hbound hused
      cases (freed.freed k p hname.2.1 hname.2.2 hbound).symm.trans hused

/-- A thread is made with an empty page table. -/
theorem Frames.create (f : s.Frames) (hpc : s.pc t = .idle)
    (hu : s.live u = false) :
    ({ s with
      vm := s.vm.clearPagetable u
      live := Function.update s.live u true } : Tables).Frames := by
  have hstage : (s.pc t).stage = none := by
    rw [hpc]
    rfl
  have others : ∀ v, v ≠ u → (s.vm.clearPagetable u).pagetables v = s.vm.pagetables v := by
    intro v hv
    exact Function.update_of_ne hv _ _
  have names : ∀ v k p, ({ s with
      vm := s.vm.clearPagetable u
      live := Function.update s.live u true } : Tables).Names v k p ↔ s.Names v k p := by
    intro v k p
    by_cases hv : v = u
    · subst hv
      refine ⟨?_, ?_⟩
      · rintro ⟨-, -, hview⟩
        have hzero : (s.vm.clearPagetable v).pagetables v k = Mmpte.zero :=
          congrFun (Function.update_self v _ s.vm.pagetables) k
        change ((s.vm.clearPagetable v).pagetables v k).view = _ at hview
        rw [hzero, Mmpte.view_zero] at hview
        cases hview
      · intro hname
        cases hu.symm.trans hname.1
    · exact names_congr (Function.update_of_ne hv _ _) (others v hv)
  have c : Change s { s with
      vm := s.vm.clearPagetable u
      live := Function.update s.live u true } t fun _ => False := by
    refine ⟨fun _ _ => rfl, ?_, fun _ _ _ _ => id, ?_, ?_, fun _ hp => .inl hp,
      fun _ hp => .inl hp, fun _ hk => .inl hk⟩
    · intro p _
      exact ⟨rfl, fun v k => names v k p⟩
    · intro v k p hname
      exact .inl ((names v k p).mp hname)
    · intro v k _ hv
      have hne : v ≠ u := by
        rintro rfl
        rw [f.idle v hu] at hv
        cases hv
      exact congrFun (others v hne) k
  refine c.frames f ?_ nofun (placed_of_outside hstage)
  intro v hv
  have hne : v ≠ u := by
    rintro rfl
    cases (Function.update_self v true s.live).symm.trans hv
  exact f.idle v ((Function.update_of_ne hne _ _).symm.trans hv)

end Tables

end OsDesign.Alloc
