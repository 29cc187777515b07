import OsDesign.Alloc.Frames
import OsDesign.Alloc.Handles

/-!
Each statement of `mm_allocate_page` and of what it calls keeps `Frames`.
-/
namespace OsDesign.Alloc

open Pthread Virt

namespace Tables

variable {s s' : Tables} {t u v : ThreadId} {i j k p : Nat} {stage stage' : Stage} {pc : Pc}

/-- Only `t` moved, and no thread was made or ended. -/
structure Moves (s s' : Tables) (t : ThreadId) (pc : Pc) : Prop where
  pc : s'.pc = Function.update s.pc t pc
  live : s'.live = s.live

namespace Moves

theorem self (moves : Moves s s' t pc) : s'.pc t = pc := by
  rw [moves.pc]
  exact Function.update_self _ _ _

theorem of_ne (moves : Moves s s' t pc) (hu : u ≠ t) : s'.pc u = s.pc u := by
  rw [moves.pc]
  exact Function.update_of_ne hu _ _

theorem idle (moves : Moves s s' t pc) (f : s.Frames) (enabled : s.live t = true) :
    ∀ u, s'.live u = false → s'.pc u = .idle := by
  intro u hu
  rw [moves.live] at hu
  have hne : u ≠ t := by
    rintro rfl
    cases hu.symm.trans enabled
  rw [moves.of_ne hne]
  exact f.idle u hu

end Moves

/-- The frame `t` stands on is nobody else's. -/
theorem Frames.alone (f : s.Frames) (hp : (s.pc t).frame = some p) (hu : u ≠ t) :
    (s.pc u).frame ≠ some p := by
  intro h
  exact hu (f.apart u t p h hp)

/-- A frame that somebody stands on is accounted for while nothing names it. -/
theorem Unnamed.accounted (h : s.Unnamed p) (hp : (s.pc t).frame = some p) : s.Accounted p := by
  refine ⟨?_, ?_, ?_⟩
  · intro v k hname
    exact absurd hname (h v k)
  · intro v k w l hname
    exact absurd hname (h v k)
  · intro _ _ outside
    exact absurd hp (outside t)

/-- A statement inside `mm_allocate_page` that makes no entry valid. -/
theorem Frames.page (f : s.Frames) (enabled : s.live t = true) (hpc : s.pc t = .page j stage)
    (moves : Moves s s' t (.page j stage'))
    (agree : ∀ p, stage.frame ≠ some p → Agree s s' p)
    (made : ∀ v k p, s'.Names v k p → s.Names v k p)
    (own : ∀ u k, u ≠ t → (s.pc u).own = some k → s'.vm.pagetables u k = s.vm.pagetables u k)
    (left : ∀ p, stage.frame = some p → stage'.frame = some p ∧ s'.Accounted p)
    (entered : ∀ p, stage'.frame = some p →
      stage.frame = some p ∨ ∀ u, u ≠ t → (s.pc u).frame ≠ some p)
    (ready : ∀ i, stage' = .setValid i → (s'.vm.pagetables t j).hardPageframenumber = i)
    (rewritten : ∀ i k v, stage'.rewrites = some (i, k) → (s'.vm.gPfn i).thread = some v →
      (∀ p, ¬ s'.Names v k p) ∧ (s'.pc v).own ≠ some k)
    (stands : s'.Stands t stage') : s'.Frames := by
  have hframe : (s.pc t).frame = stage.frame := by
    rw [hpc]
    rfl
  have hown : (s.pc t).own = some j := by
    rw [hpc]
    rfl
  have c : Change s s' t fun p => stage.frame = some p := by
    refine ⟨fun u => moves.of_ne, agree, ?_, ?_, own, ?_, ?_, ?_⟩
    · intro u p hu hup hp
      exact f.alone (hframe.trans hp) hu hup
    · intro v k p hname
      exact .inl (made v k p hname)
    · intro p hp
      exact .inr (hframe.symm.trans hp)
    · intro p hp
      rw [moves.self] at hp
      rw [hframe]
      exact entered p hp
    · intro k hk
      rw [moves.self] at hk
      cases hk
      exact .inl hown
  refine c.frames f (moves.idle f enabled) (fun p hp => (left p hp).2) ⟨?_, ?_, ?_, ?_⟩
  · intro k hk
    rw [moves.self] at hk
    cases hk
    obtain ⟨hbound, hinvalid⟩ := (f.placed t).own j hown
    exact ⟨hbound, fun p hname => hinvalid p (made t j p hname)⟩
  · intro k i hstage
    rw [moves.self] at hstage
    cases hstage
    exact ready i rfl
  · intro i k v hi
    rw [moves.self] at hi
    exact rewritten i k v hi
  · intro next hnext
    rw [moves.self] at hnext
    cases hnext
    exact stands

/-- A statement that leaves every frame and every valid entry as it is. -/
theorem Frames.walk (f : s.Frames) (enabled : s.live t = true) (hpc : s.pc t = .page j stage)
    (moves : Moves s s' t (.page j stage')) (agree : ∀ p, Agree s s' p)
    (own : ∀ u k, u ≠ t → (s.pc u).own = some k → s'.vm.pagetables u k = s.vm.pagetables u k)
    (left : ∀ p, stage.frame = some p → stage'.frame = some p)
    (entered : ∀ p, stage'.frame = some p →
      stage.frame = some p ∨ ∀ u, u ≠ t → (s.pc u).frame ≠ some p)
    (ready : ∀ i, stage' = .setValid i → (s'.vm.pagetables t j).hardPageframenumber = i)
    (rewritten : ∀ i k v, stage'.rewrites = some (i, k) → (s.vm.gPfn i).thread = some v →
      (∀ p, ¬ s.Names v k p) ∧ (s'.pc v).own ≠ some k)
    (stands : s.Stands t stage') : s'.Frames := by
  refine f.page enabled hpc moves (fun p _ => agree p) ?_ own ?_ entered ready ?_
    (Agree.stands (fun p _ => agree p) stands)
  · intro v k p hname
    exact ((agree p).names v k).mp hname
  · intro p hp
    refine ⟨left p hp, (agree p).accounted (f.accounted p) ?_⟩
    intro outside
    apply absurd _ (outside t)
    rw [moves.self]
    exact left p hp
  · intro i k v hi hthread
    rw [(agree i).gPfn] at hthread
    obtain ⟨hinvalid, hown⟩ := rewritten i k v hi hthread
    exact ⟨fun p hname => hinvalid p (((agree p).names v k).mp hname), hown⟩

/-- A statement that writes neither table. -/
theorem Frames.read (f : s.Frames) (enabled : s.live t = true) (hpc : s.pc t = .page j stage)
    (moves : Moves s s' t (.page j stage')) (hgPfn : s'.vm.gPfn = s.vm.gPfn)
    (htables : s'.vm.pagetables = s.vm.pagetables)
    (left : ∀ p, stage.frame = some p → stage'.frame = some p)
    (entered : ∀ p, stage'.frame = some p →
      stage.frame = some p ∨ ∀ u, u ≠ t → (s.pc u).frame ≠ some p)
    (hready : ∀ i, stage' ≠ .setValid i) (hrewrites : stage'.rewrites = none)
    (stands : s.Stands t stage') : s'.Frames := by
  refine f.walk enabled hpc moves ?_ ?_ left entered (fun i hi => absurd hi (hready i)) ?_ stands
  · intro p
    exact ⟨congrFun hgPfn p, fun v _ => names_congr (congrFun moves.live v) (congrFun htables v)⟩
  · intro u k _ _
    rw [htables]
  · intro i k v hi
    cases hrewrites.symm.trans hi

/-- A statement that changes the frame `t` stands on, which nothing names afterwards. -/
theorem Frames.hold (f : s.Frames) (enabled : s.live t = true) (hpc : s.pc t = .page j stage)
    (moves : Moves s s' t (.page j stage')) (hframe : stage.frame = some i)
    (hframe' : stage'.frame = some i) (agree : ∀ p, p ≠ i → Agree s s' p)
    (unnamed : s'.Unnamed i)
    (own : ∀ u k, u ≠ t → (s.pc u).own = some k → s'.vm.pagetables u k = s.vm.pagetables u k)
    (ready : ∀ i, stage' ≠ .setValid i)
    (rewritten : ∀ i k v, stage'.rewrites = some (i, k) → (s'.vm.gPfn i).thread = some v →
      (∀ p, ¬ s'.Names v k p) ∧ (s'.pc v).own ≠ some k)
    (stands : s'.Stands t stage') : s'.Frames := by
  have other : ∀ p, stage.frame ≠ some p → p ≠ i := by
    rintro p hp rfl
    exact hp hframe
  refine f.page enabled hpc moves (fun p hp => agree p (other p hp)) ?_ own ?_ ?_
    (fun k hk => absurd hk (ready k)) rewritten stands
  · intro v k p hname
    by_cases hp : p = i
    · subst hp
      exact absurd hname (unnamed v k)
    · exact ((agree p hp).names v k).mp hname
  · intro p hp
    cases hframe.symm.trans hp
    refine ⟨hframe', unnamed.accounted (t := t) ?_⟩
    rw [moves.self]
    exact hframe'
  · intro p hp
    cases hframe'.symm.trans hp
    exact .inl hframe

/-- A statement that writes `g_pfn[i]` of the frame `t` stands on. -/
theorem Frames.setPfn (f : s.Frames) (enabled : s.live t = true)
    (hpc : s.pc t = .page j stage) (hframe : stage.frame = some i) (unnamed : s.Unnamed i)
    (e : PfnT) (hframe' : stage'.frame = some i) (hready : ∀ i, stage' ≠ .setValid i)
    (hrewrites : stage'.rewrites = none)
    (stands : ((s.setPfn i e).goto t (.page j stage')).Stands t stage') :
    ((s.setPfn i e).goto t (.page j stage')).Frames := by
  refine f.hold enabled hpc ⟨rfl, rfl⟩ hframe hframe' ?_ unnamed (fun _ _ _ _ => rfl) hready ?_
    stands
  · intro p hp
    exact ⟨Function.update_of_ne hp _ _, fun _ _ => Iff.rfl⟩
  · intro i k v hi
    cases hrewrites.symm.trans hi

/-! The statements, in the order of the code. -/

theorem Frames.pfnCount (f : s.Frames) (enabled : s.live t = true)
    (hpc : s.pc t = .page j .pfnCount) :
    (s.goto t (.page j (if (maxPhysicalPages : Int) ≤ s.vm.gPfnCount then .evictUsed 0
      else .frameUsed 0))).Frames := by
  split
  · exact f.read enabled hpc ⟨rfl, rfl⟩ rfl rfl nofun nofun nofun rfl (Nat.zero_le _)
  · exact f.read enabled hpc ⟨rfl, rfl⟩ rfl rfl nofun nofun nofun rfl trivial

theorem Frames.frameUsed (f : s.Frames) (enabled : s.live t = true)
    (hpc : s.pc t = .page j (.frameUsed i)) (hi : i < maxPhysicalPages)
    (free : (s.vm.gPfn i).used = false → ∀ u, u ≠ t → (s.pc u).frame ≠ some i) :
    (s.goto t (.page j (if (s.vm.gPfn i).used = false then .setUsed i
      else .frameUsed (i + 1)))).Frames := by
  split
  next hused =>
    refine f.read enabled hpc ⟨rfl, rfl⟩ rfl rfl nofun ?_ nofun rfl ⟨hi, ?_⟩
    · intro p hp
      cases hp
      exact .inr (free hused)
    · intro v k hname
      cases hused.symm.trans ((f.accounted i).backed v k hname hi).1
  · exact f.read enabled hpc ⟨rfl, rfl⟩ rfl rfl nofun nofun nofun rfl trivial

theorem Frames.setUsed (f : s.Frames) (enabled : s.live t = true)
    (hpc : s.pc t = .page j (.setUsed i)) :
    ((s.setPfn i { s.vm.gPfn i with used := true }).goto t (.page j (.setThread i))).Frames := by
  obtain ⟨hbound, hunnamed⟩ := (f.placed t).stands _ (congrArg Pc.stage hpc)
  refine f.setPfn enabled hpc rfl hunnamed _ rfl nofun rfl ⟨hbound, ?_, hunnamed⟩
  exact congrArg PfnT.used (Function.update_self i _ s.vm.gPfn)

theorem Frames.setThread (f : s.Frames) (enabled : s.live t = true)
    (hpc : s.pc t = .page j (.setThread i)) :
    ((s.setPfn i { s.vm.gPfn i with thread := some t }).goto t (.page j (.addCount i))).Frames := by
  have taken : s.Taken i := (f.placed t).stands _ (congrArg Pc.stage hpc)
  have hself : Function.update s.vm.gPfn i { s.vm.gPfn i with thread := some t } i =
      { s.vm.gPfn i with thread := some t } := Function.update_self _ _ _
  refine f.setPfn enabled hpc rfl taken.unnamed _ rfl nofun rfl
    ⟨⟨taken.bound, ?_, taken.unnamed⟩, congrArg PfnT.thread hself⟩
  exact (congrArg PfnT.used hself).trans taken.used

theorem Frames.addCount (f : s.Frames) (enabled : s.live t = true)
    (hpc : s.pc t = .page j (.addCount i)) :
    ({ s with vm := { s.vm with gPfnCount := s.vm.gPfnCount + 1 } }.goto t
      (.page j (.setPfn i))).Frames := by
  obtain ⟨taken, hthread⟩ := (f.placed t).stands _ (congrArg Pc.stage hpc)
  exact f.read enabled hpc ⟨rfl, rfl⟩ rfl rfl (fun p hp => hp) (fun p hp => .inl hp) nofun rfl
    ⟨taken.bound.le, taken.unnamed, fun _ => ⟨taken.used, hthread⟩⟩

theorem Frames.evictUsed (f : s.Frames) (enabled : s.live t = true)
    (hpc : s.pc t = .page j (.evictUsed i))
    (free : maxPhysicalPages ≤ i → s.Unnamed i ∧ ∀ u, u ≠ t → (s.pc u).frame ≠ some i) :
    (s.goto t (.page j (if maxPhysicalPages ≤ i then .setPfn i
      else if (s.vm.gPfn i).used = false then .evictUsed (i + 1) else .evictThread i))).Frames := by
  have hbound : i ≤ maxPhysicalPages := (f.placed t).stands _ (congrArg Pc.stage hpc)
  split
  next hi =>
    obtain ⟨hunnamed, hfree⟩ := free hi
    refine f.read enabled hpc ⟨rfl, rfl⟩ rfl rfl nofun ?_ nofun rfl ⟨hbound, hunnamed, ?_⟩
    · intro p hp
      cases hp
      exact .inr hfree
    · intro hlt
      exact absurd hi (Nat.not_le.mpr hlt)
  next hi =>
    have hlt : i < maxPhysicalPages := Nat.not_le.mp hi
    split
    · exact f.read enabled hpc ⟨rfl, rfl⟩ rfl rfl nofun nofun nofun rfl hlt
    · exact f.read enabled hpc ⟨rfl, rfl⟩ rfl rfl nofun nofun nofun rfl hlt

/-- A frame that passes the test of `evict_page` while nobody stands on it is named by
an entry of its thread. -/
theorem Frames.evictThread (f : s.Frames) (enabled : s.live t = true)
    (hpc : s.pc t = .page j (.evictThread i))
    (free : (s.vm.gPfn i).thread ≠ some t →
      (s.vm.gPfn i).used = true ∧ ∀ u, u ≠ t → (s.pc u).frame ≠ some i) :
    (s.goto t (.page j (if (s.vm.gPfn i).thread ≠ some t then .swapOut i
      else .evictUsed (i + 1)))).Frames := by
  have hbound : i < maxPhysicalPages := (f.placed t).stands _ (congrArg Pc.stage hpc)
  split
  next hthread =>
    obtain ⟨hused, hfree⟩ := free hthread
    have outside : ∀ u, (s.pc u).frame ≠ some i := by
      intro u
      by_cases hu : u = t
      · rw [hu, hpc]
        exact nofun
      · exact hfree u hu
    obtain ⟨v, k, howner, hname⟩ := (f.accounted i).owned hbound hused outside
    refine f.read enabled hpc ⟨rfl, rfl⟩ rfl rfl nofun ?_ nofun rfl
      ⟨hbound, hused, v, k, howner, trivial, hname⟩
    intro p hp
    cases hp
    exact .inr hfree
  · exact f.read enabled hpc ⟨rfl, rfl⟩ rfl rfl nofun nofun nofun rfl hbound

end Tables

end OsDesign.Alloc
