import OsDesign.Virt.Frames
import OsDesign.Alloc.FrameSteps

/-!
The second half of `evict_page`, and the statements that write a page-table entry.
-/
namespace OsDesign.Alloc

open Pthread Virt

namespace Tables

variable {s s' : Tables} {t u v : ThreadId} {i j k l p offset : Nat} {e : Mmpte}
  {stage stage' : Stage}

theorem names_setEntry_of_ne (s : Tables) (e : Mmpte) (h : u ≠ v ∨ l ≠ k) :
    (s.setEntry v k e).Names u l p ↔ s.Names u l p := by
  rw [Names, Names]
  change _ ∧ _ ∧ (s.vm.setEntry v k e).view u l = _ ↔ _
  rw [Vm.view_setEntry_of_ne s.vm e h]
  exact Iff.rfl

theorem names_setEntry_self :
    (s.setEntry v k e).Names v k p ↔
      s.live v = true ∧ k < maxVirtualPages ∧ e.view = .inMemory p := by
  rw [Names]
  change _ ∧ _ ∧ (s.vm.setEntry v k e).view v k = _ ↔ _
  rw [Vm.view_setEntry_self]
  exact Iff.rfl

/-- After a write an entry names a frame as before, or it is the one written. -/
theorem names_setEntry_cases (h : (s.setEntry v k e).Names u l p) :
    s.Names u l p ∧ (u ≠ v ∨ l ≠ k) ∨ u = v ∧ l = k ∧ e.view = .inMemory p := by
  by_cases hne : u ≠ v ∨ l ≠ k
  · exact .inl ⟨(names_setEntry_of_ne s e hne).mp h, hne⟩
  · obtain ⟨hu, hl⟩ := not_or.mp hne
    obtain rfl := not_not.mp hu
    obtain rfl := not_not.mp hl
    exact .inr ⟨rfl, rfl, (names_setEntry_self.mp h).2.2⟩

/-- Writing an entry that names no frame takes no name away. -/
theorem names_setEntry_of_names (invalid : ∀ p, ¬ s.Names v k p) (h : s.Names u l p) :
    (s.setEntry v k e).Names u l p := by
  apply (names_setEntry_of_ne s e _).mpr h
  by_contra same
  obtain ⟨hu, hl⟩ := not_or.mp same
  rw [not_not.mp hu, not_not.mp hl] at h
  exact invalid p h

/-- Writing an entry that is not valid, and is not made valid, changes no frame. -/
theorem Frames.writeInvalid (f : s.Frames) (enabled : s.live t = true)
    (hpc : s.pc t = .page j stage) (invalid : ∀ p, ¬ s.Names v k p)
    (hown : ∀ u, u ≠ t → (s.pc u).own = some k → u ≠ v)
    (he : e.hardValid = 1#1 → (s.vm.pagetables v k).hardValid = 1#1)
    (hframe : stage'.frame = stage.frame)
    (ready : ∀ i, stage' = .setValid i →
      ((s.setEntry v k e).vm.pagetables t j).hardPageframenumber = i)
    (rewritten : ∀ i k v, stage'.rewrites = some (i, k) → (s.vm.gPfn i).thread = some v →
      (∀ p, ¬ s.Names v k p) ∧ (s.pc v).own ≠ some k)
    (stands : s.Stands t stage') : ((s.setEntry v k e).goto t (.page j stage')).Frames := by
  have hown_t : ∀ w, ((s.setEntry v k e).goto t (.page j stage')).pc w =
      Function.update s.pc t (.page j stage') w := fun _ => rfl
  refine f.walk enabled hpc ⟨rfl, rfl⟩ ?_ ?_ ?_ ?_ ready ?_ stands
  · intro p
    refine ⟨rfl, fun u l => ⟨?_, names_setEntry_of_names invalid⟩⟩
    intro hname
    change (s.setEntry v k e).Names u l p at hname
    cases names_setEntry_cases hname with
    | inl before => exact before.1
    | inr written =>
        obtain ⟨rfl, rfl, hview⟩ := written
        obtain ⟨hlive, hbound, -⟩ := hname
        have hvalid := he (Mmpte.view_eq_inMemory.mp hview).1
        exact absurd ⟨hlive, hbound, Mmpte.hardValid_eq_one_iff.mp hvalid⟩ (invalid _)
  · intro u l hu hl
    apply Vm.pagetables_setEntry_of_ne s.vm e
    by_cases hlk : l = k
    · subst hlk
      exact .inl (hown u hu hl)
    · exact .inr hlk
  · intro p hp
    exact hframe.trans hp
  · intro p hp
    exact .inl (hframe.symm.trans hp)
  · intro i l w hi hthread
    obtain ⟨hinvalid, hwown⟩ := rewritten i l w hi hthread
    refine ⟨hinvalid, ?_⟩
    by_cases hw : w = t
    · subst hw
      rw [hown_t, Function.update_self]
      rw [hpc] at hwown
      exact hwown
    · rw [hown_t, Function.update_of_ne hw]
      exact hwown

/-! The statements of `evict_page` behind its test. -/

theorem swapOut_ok {vm vm' : Vm} {addr : Nat} (h : vm.swapOut addr = .ok (vm', offset)) :
    vm'.gPfn = vm.gPfn ∧ vm'.pagetables = vm.pagetables := by
  rw [Vm.swapOut] at h
  split at h
  · cases h
  · split at h
    · cases h
    · cases h
      exact ⟨rfl, rfl⟩

theorem Frames.swapOut (f : s.Frames) (enabled : s.live t = true)
    (hpc : s.pc t = .page j (.swapOut i)) {vm : Vm}
    (h : s.vm.swapOut (i * pageSize) = .ok (vm, offset)) :
    ({ s with vm := vm }.goto t (.page j (.findEntry i offset 0))).Frames := by
  obtain ⟨hgPfn, htables⟩ := swapOut_ok h
  have victim : s.Victim i fun _ => True := (f.placed t).stands _ (congrArg Pc.stage hpc)
  obtain ⟨v, k, hthread, -, hname⟩ := victim.entry
  exact f.read enabled hpc ⟨rfl, rfl⟩ hgPfn htables (fun p hp => hp) (fun p hp => .inl hp) nofun
    rfl ⟨victim.bound, victim.used, v, k, hthread, Nat.zero_le k, hname⟩

/-- The search does not come to the end of the page table. -/
theorem Frames.findEntry_lt (f : s.Frames) (hpc : s.pc t = .page j (.findEntry i offset k)) :
    k < maxVirtualPages := by
  have victim : s.Victim i fun k' => k ≤ k' := (f.placed t).stands _ (congrArg Pc.stage hpc)
  obtain ⟨v, l, -, hkl, hname⟩ := victim.entry
  exact Nat.lt_of_le_of_lt hkl hname.2.1

theorem Frames.findEntry (f : s.Frames) (enabled : s.live t = true)
    (hpc : s.pc t = .page j (.findEntry i offset k)) (hthread : (s.vm.gPfn i).thread = some v) :
    (s.goto t (.page j (if (s.vm.pagetables v k).hardValid = 1#1 ∧
        (s.vm.pagetables v k).hardPageframenumber = i then .clearValid i offset k
      else .findEntry i offset (k + 1)))).Frames := by
  have victim : s.Victim i fun k' => k ≤ k' := (f.placed t).stands _ (congrArg Pc.stage hpc)
  obtain ⟨w, l, howner, hkl, hname⟩ := victim.entry
  obtain rfl : v = w := Option.some.inj (hthread.symm.trans howner)
  split
  next hfound =>
    exact f.read enabled hpc ⟨rfl, rfl⟩ rfl rfl (fun p hp => hp) (fun p hp => .inl hp) nofun rfl
      ⟨victim.bound, victim.used, v, k, hthread, rfl, hname.1, f.findEntry_lt hpc,
        Mmpte.view_eq_inMemory.mpr hfound⟩
  next hmissed =>
    have hne : k ≠ l := by
      rintro rfl
      exact hmissed (Mmpte.view_eq_inMemory.mp hname.2.2)
    exact f.read enabled hpc ⟨rfl, rfl⟩ rfl rfl (fun p hp => hp) (fun p hp => .inl hp) nofun rfl
      ⟨victim.bound, victim.used, v, l, hthread, Nat.lt_of_le_of_ne hkl hne, hname⟩

/-- From here on no entry names the frame. -/
theorem Frames.clearValid (f : s.Frames) (enabled : s.live t = true)
    (hpc : s.pc t = .page j (.clearValid i offset k)) (hthread : (s.vm.gPfn i).thread = some v) :
    ((s.setEntry v k ((s.vm.pagetables v k).setSoftValid 0#1)).goto t
      (.page j (.setSwapout i offset k))).Frames := by
  have victim : s.Victim i fun k' => k' = k := (f.placed t).stands _ (congrArg Pc.stage hpc)
  obtain ⟨w, l, howner, rfl, hname⟩ := victim.entry
  obtain rfl : v = w := Option.some.inj (hthread.symm.trans howner)
  have cleared : ∀ p, ¬ (s.setEntry v l ((s.vm.pagetables v l).setSoftValid 0#1)).Names v l p := by
    intro p hp
    have hvalid := (Mmpte.view_eq_inMemory.mp (names_setEntry_self.mp hp).2.2).1
    rw [Mmpte.hardValid_setSoftValid] at hvalid
    cases hvalid
  have notOwn : ∀ u, (s.pc u).own = some l → u ≠ v := by
    rintro u hu rfl
    exact ((f.placed u).own l hu).2 i hname
  have unnamed : (s.setEntry v l ((s.vm.pagetables v l).setSoftValid 0#1)).Unnamed i := by
    intro u m hum
    cases names_setEntry_cases hum with
    | inl before =>
        obtain ⟨rfl, rfl⟩ := (f.accounted i).unique u m v l before.1 hname
        cases before.2 with
        | inl hu => exact hu rfl
        | inr hm => exact hm rfl
    | inr written =>
        rw [written.1, written.2.1] at hum
        exact cleared i hum
  refine f.hold enabled hpc ⟨rfl, rfl⟩ rfl rfl ?_ unnamed ?_ nofun ?_
    ⟨victim.bound, victim.used, unnamed⟩
  · intro p hp
    refine ⟨rfl, fun u m => ?_⟩
    by_cases hne : u ≠ v ∨ m ≠ l
    · exact names_setEntry_of_ne s _ hne
    · obtain ⟨hu, hm⟩ := not_or.mp hne
      rw [not_not.mp hu, not_not.mp hm]
      refine ⟨fun h => absurd h (cleared p), ?_⟩
      intro h
      cases hname.2.2.symm.trans h.2.2
      exact absurd rfl hp
  · intro u m _ hu
    apply Vm.pagetables_setEntry_of_ne s.vm
    by_cases hm : m = l
    · exact .inl (notOwn u (hm ▸ hu))
    · exact .inr hm
  · intro q m w hq hw
    cases hq
    obtain rfl : v = w := Option.some.inj (hthread.symm.trans hw)
    refine ⟨cleared, ?_⟩
    by_cases hvt : v = t
    · subst hvt
      intro h
      rw [pc_goto_self] at h
      cases h
      exact notOwn v (congrArg Pc.own hpc) rfl
    · rw [pc_goto_of_ne _ _ hvt]
      intro h
      exact notOwn v h rfl

/-- The entry that `t` rewrites is not valid, and nobody has it for its own. -/
theorem Frames.rewrites (f : s.Frames) (hpc : s.pc t = .page j stage)
    (hrewrites : stage.rewrites = some (i, k)) (hthread : (s.vm.gPfn i).thread = some v) :
    (∀ p, ¬ s.Names v k p) ∧ (s.pc v).own ≠ some k := by
  apply (f.placed t).rewritten i k v _ hthread
  rw [hpc]
  exact hrewrites

theorem Frames.setSwapout (f : s.Frames) (enabled : s.live t = true)
    (hpc : s.pc t = .page j (.setSwapout i offset k)) (hthread : (s.vm.gPfn i).thread = some v) :
    ((s.setEntry v k ((s.vm.pagetables v k).setSoftSwapout 1#1)).goto t
      (.page j (.setPos i offset k))).Frames := by
  have taken : s.Taken i := (f.placed t).stands _ (congrArg Pc.stage hpc)
  obtain ⟨hinvalid, hown⟩ := f.rewrites hpc rfl hthread
  refine f.writeInvalid enabled hpc hinvalid ?_ ?_ rfl nofun ?_ taken
  · rintro u - hu rfl
    exact hown hu
  · rw [Mmpte.hardValid_setSoftSwapout]
    exact id
  · intro p l w hp hw
    cases hp
    exact f.rewrites hpc rfl hw

theorem Frames.setPos (f : s.Frames) (enabled : s.live t = true)
    (hpc : s.pc t = .page j (.setPos i offset k)) (hthread : (s.vm.gPfn i).thread = some v) :
    ((s.setEntry v k ((s.vm.pagetables v k).setSoftGefileaPos offset)).goto t
      (.page j (.takeThread i))).Frames := by
  have taken : s.Taken i := (f.placed t).stands _ (congrArg Pc.stage hpc)
  obtain ⟨hinvalid, hown⟩ := f.rewrites hpc rfl hthread
  refine f.writeInvalid enabled hpc hinvalid ?_ ?_ rfl nofun nofun taken
  · rintro u - hu rfl
    exact hown hu
  · rw [Mmpte.hardValid_setSoftGefileaPos]
    exact id

theorem Frames.takeThread (f : s.Frames) (enabled : s.live t = true)
    (hpc : s.pc t = .page j (.takeThread i)) :
    ((s.setPfn i { s.vm.gPfn i with thread := some t }).goto t (.page j (.setPfn i))).Frames := by
  have taken : s.Taken i := (f.placed t).stands _ (congrArg Pc.stage hpc)
  have hself : Function.update s.vm.gPfn i { s.vm.gPfn i with thread := some t } i =
      { s.vm.gPfn i with thread := some t } := Function.update_self _ _ _
  refine f.setPfn enabled hpc rfl taken.unnamed _ rfl nofun rfl
    ⟨taken.bound.le, taken.unnamed, fun _ => ⟨?_, congrArg PfnT.thread hself⟩⟩
  exact (congrArg PfnT.used hself).trans taken.used

/-! The two statements of `mm_allocate_page` behind the call. -/

theorem lt_of_le_maxPhysicalPages (h : i ≤ maxPhysicalPages) : i < 2 ^ 20 := by
  rw [maxPhysicalPages_eq] at h
  omega

/-- The frame number goes into an entry that is not valid yet. -/
theorem Frames.setPageframenumber (f : s.Frames) (enabled : s.live t = true)
    (hpc : s.pc t = .page j (.setPfn i)) :
    ((s.setEntry t j ((s.vm.pagetables t j).setHardPageframenumber i)).goto t
      (.page j (.setValid i))).Frames := by
  have granted : s.Granted t i := (f.placed t).stands _ (congrArg Pc.stage hpc)
  obtain ⟨-, hinvalid⟩ := (f.placed t).own j (congrArg Pc.own hpc)
  refine f.writeInvalid enabled hpc hinvalid ?_ ?_ rfl ?_ nofun granted
  · intro u hu _
    exact hu
  · rw [Mmpte.hardValid_setHardPageframenumber]
    exact id
  · intro p hp
    cases hp
    change ((s.vm.setEntry t j _).pagetables t j).hardPageframenumber = i
    rw [Vm.pagetables_setEntry_self]
    exact Mmpte.hardPageframenumber_setHardPageframenumber _
      (lt_of_le_maxPhysicalPages granted.bound)

/-- The valid bit gives `t` the frame that it stood on. -/
theorem Frames.setValid (f : s.Frames) (enabled : s.live t = true)
    (hpc : s.pc t = .page j (.setValid i)) :
    ((s.setEntry t j ((s.vm.pagetables t j).setHardValid 1#1)).goto t .idle).Frames := by
  have granted : s.Granted t i := (f.placed t).stands _ (congrArg Pc.stage hpc)
  obtain ⟨hbound, hinvalid⟩ := (f.placed t).own j (congrArg Pc.own hpc)
  have hframe : (s.pc t).frame = some i := by
    rw [hpc]
    rfl
  have hview : ((s.vm.pagetables t j).setHardValid 1#1).view = .inMemory i := by
    rw [Mmpte.view_eq_inMemory, Mmpte.hardValid_setHardValid,
      Mmpte.hardPageframenumber_setHardValid]
    exact ⟨rfl, (f.placed t).ready j i hpc⟩
  have made : ∀ u l p, (s.setEntry t j ((s.vm.pagetables t j).setHardValid 1#1)).Names u l p →
      s.Names u l p ∨ u = t ∧ l = j ∧ p = i := by
    intro u l p hname
    cases names_setEntry_cases hname with
    | inl before => exact .inl before.1
    | inr written =>
        have hp := hview.symm.trans written.2.2
        exact .inr ⟨written.1, written.2.1, (Mmpte.View.inMemory.inj hp).symm⟩
  have mine : ∀ u l, (s.setEntry t j ((s.vm.pagetables t j).setHardValid 1#1)).Names u l i →
      u = t ∧ l = j := by
    intro u l hname
    cases made u l i hname with
    | inl before => exact absurd before (granted.unnamed u l)
    | inr own => exact ⟨own.1, own.2.1⟩
  have c : Change s ((s.setEntry t j ((s.vm.pagetables t j).setHardValid 1#1)).goto t .idle) t
      (· = i) := by
    refine ⟨fun u hu => pc_goto_of_ne _ _ hu, ?_, ?_, ?_, ?_, ?_, ?_, ?_⟩
    · intro p hp
      refine ⟨rfl, fun u l => ⟨?_, names_setEntry_of_names hinvalid⟩⟩
      intro hname
      cases made u l p hname with
      | inl before => exact before
      | inr own => exact absurd own.2.2 hp
    · rintro u p hu hup rfl
      exact f.alone hframe hu hup
    · intro u l p hname
      cases made u l p hname with
      | inl before => exact .inl before
      | inr own =>
          rw [own.1, own.2.1, hpc]
          exact .inr ⟨rfl, rfl⟩
    · intro u l hu _
      exact Vm.pagetables_setEntry_of_ne s.vm _ (.inl hu)
    · intro p hp
      cases hframe.symm.trans hp
      exact .inr rfl
    · intro p hp
      rw [pc_goto_self] at hp
      cases hp
    · intro l hl
      rw [pc_goto_self] at hl
      cases hl
  have moves : Moves s ((s.setEntry t j ((s.vm.pagetables t j).setHardValid 1#1)).goto t .idle) t
      .idle := ⟨rfl, rfl⟩
  refine c.frames f (moves.idle f enabled) ?_ (placed_of_outside ?_)
  · rintro p rfl
    refine ⟨?_, ?_, ?_⟩
    · intro u l hname hp
      rw [(mine u l hname).1]
      exact granted.counted hp
    · intro u l v m hul hvm
      rw [(mine u l hul).1, (mine u l hul).2, (mine v m hvm).1, (mine v m hvm).2]
      exact ⟨rfl, rfl⟩
    · intro hp _ _
      exact ⟨t, j, (granted.counted hp).2, names_setEntry_self.mpr ⟨enabled, hbound, hview⟩⟩
  · rw [pc_goto_self]
    rfl

end Tables

end OsDesign.Alloc
