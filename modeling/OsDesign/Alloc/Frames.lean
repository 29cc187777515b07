import OsDesign.Alloc.Windows

/-!
The frame table and the page tables between the statements of several threads.
`Accounted` speaks of one frame and `Placed` of one thread. `Change` is a permitted
step, seen from the frames and the threads that it is not about.
-/
namespace OsDesign.Alloc

open Pthread Virt

namespace Tables

variable {s s' : Tables} {t u v : ThreadId} {i j k p : Nat} {stage : Stage}

/-- One frame: a valid entry that names it makes it used and counted on the thread of
the entry, no two entries name it, and a used frame that nobody stands on is named. -/
structure Accounted (s : Tables) (p : Nat) : Prop where
  backed : ∀ t j, s.Names t j p → p < maxPhysicalPages →
    (s.vm.gPfn p).used = true ∧ (s.vm.gPfn p).thread = some t
  unique : ∀ t j u k, s.Names t j p → s.Names u k p → t = u ∧ j = k
  owned : p < maxPhysicalPages → (s.vm.gPfn p).used = true → (∀ u, (s.pc u).frame ≠ some p) →
    ∃ t j, (s.vm.gPfn p).thread = some t ∧ s.Names t j p

/-- The frame is marked, and no entry names it. -/
structure Taken (s : Tables) (i : Nat) : Prop where
  bound : i < maxPhysicalPages
  used : (s.vm.gPfn i).used = true
  unnamed : s.Unnamed i

/-- The thread of the frame has an entry for it where `evict_page` will look. -/
structure Victim (s : Tables) (i : Nat) (ahead : Nat → Prop) : Prop where
  bound : i < maxPhysicalPages
  used : (s.vm.gPfn i).used = true
  entry : ∃ v k, (s.vm.gPfn i).thread = some v ∧ ahead k ∧ s.Names v k i

/-- The frame that `allocate_physical_page` returns to `t`. -/
structure Granted (s : Tables) (t : ThreadId) (i : Nat) : Prop where
  bound : i ≤ maxPhysicalPages
  unnamed : s.Unnamed i
  counted : i < maxPhysicalPages → (s.vm.gPfn i).used = true ∧ (s.vm.gPfn i).thread = some t

/-- What holds of its frame when `t` stands in front of a statement. -/
def Stands (s : Tables) (t : ThreadId) : Stage → Prop
  | .pfnCount | .frameUsed _ => True
  | .evictUsed i => i ≤ maxPhysicalPages
  | .evictThread i => i < maxPhysicalPages
  | .setUsed i => i < maxPhysicalPages ∧ s.Unnamed i
  | .setThread i | .setSwapout i _ _ | .setPos i _ _ | .takeThread i => s.Taken i
  | .addCount i => s.Taken i ∧ (s.vm.gPfn i).thread = some t
  | .swapOut i => s.Victim i fun _ => True
  | .findEntry i _ k => s.Victim i fun k' => k ≤ k'
  | .clearValid i _ k => s.Victim i fun k' => k' = k
  | .setPfn i | .setValid i => s.Granted t i

/-- One thread. Its own entry is not valid yet, and the entry that it rewrites is not
valid any more and nobody's own. -/
structure Placed (s : Tables) (t : ThreadId) : Prop where
  own : ∀ j, (s.pc t).own = some j → j < maxVirtualPages ∧ ∀ p, ¬ s.Names t j p
  ready : ∀ j i, s.pc t = .page j (.setValid i) → (s.vm.pagetables t j).hardPageframenumber = i
  rewritten : ∀ i k v, (s.pc t).rewrites = some (i, k) → (s.vm.gPfn i).thread = some v →
    (∀ p, ¬ s.Names v k p) ∧ (s.pc v).own ≠ some k
  stands : ∀ stage, (s.pc t).stage = some stage → s.Stands t stage

structure Frames (s : Tables) : Prop where
  idle : ∀ t, s.live t = false → s.pc t = .idle
  apart : Apart fun t => (s.pc t).frame
  accounted : ∀ p, s.Accounted p
  placed : ∀ t, s.Placed t

/-- What a thread names depends on its page table only, and on its being live. -/
theorem names_congr (live : s'.live v = s.live v)
    (tables : s'.vm.pagetables v = s.vm.pagetables v) : s'.Names v k p ↔ s.Names v k p := by
  rw [Names, Names, Vm.view, Vm.view, live, tables]

/-- The two states say the same of a frame. -/
structure Agree (s s' : Tables) (p : Nat) : Prop where
  gPfn : s'.vm.gPfn p = s.vm.gPfn p
  names : ∀ v k, s'.Names v k p ↔ s.Names v k p

namespace Agree

theorem unnamed (same : Agree s s' p) (h : s.Unnamed p) : s'.Unnamed p :=
  fun v k hname => h v k ((same.names v k).mp hname)

theorem taken (same : Agree s s' p) (h : s.Taken p) : s'.Taken p := by
  refine ⟨h.bound, ?_, same.unnamed h.unnamed⟩
  rw [same.gPfn]
  exact h.used

theorem victim (same : Agree s s' p) {ahead : Nat → Prop} (h : s.Victim p ahead) :
    s'.Victim p ahead := by
  obtain ⟨v, k, hthread, hahead, hname⟩ := h.entry
  refine ⟨h.bound, ?_, v, k, ?_, hahead, (same.names v k).mpr hname⟩
  · rw [same.gPfn]
    exact h.used
  · rw [same.gPfn]
    exact hthread

theorem granted (same : Agree s s' p) (h : s.Granted u p) : s'.Granted u p := by
  refine ⟨h.bound, same.unnamed h.unnamed, ?_⟩
  rw [same.gPfn]
  exact h.counted

theorem stands (same : ∀ p, stage.frame = some p → Agree s s' p) (h : s.Stands u stage) :
    s'.Stands u stage := by
  cases stage with
  | pfnCount | frameUsed _ => exact trivial
  | evictUsed _ | evictThread _ => exact h
  | setUsed i => exact ⟨h.1, (same i rfl).unnamed h.2⟩
  | setThread i | setSwapout i _ _ | setPos i _ _ | takeThread i => exact (same i rfl).taken h
  | addCount i =>
      refine ⟨(same i rfl).taken h.1, ?_⟩
      rw [(same i rfl).gPfn]
      exact h.2
  | swapOut i | findEntry i _ _ | clearValid i _ _ => exact (same i rfl).victim h
  | setPfn i | setValid i => exact (same i rfl).granted h

theorem accounted (same : Agree s s' p) (h : s.Accounted p)
    (outside : (∀ u, (s'.pc u).frame ≠ some p) → ∀ u, (s.pc u).frame ≠ some p) :
    s'.Accounted p := by
  refine ⟨?_, ?_, ?_⟩
  · intro v k hname hbound
    rw [same.gPfn]
    exact h.backed v k ((same.names v k).mp hname) hbound
  · intro v k w l hvk hwl
    exact h.unique v k w l ((same.names v k).mp hvk) ((same.names w l).mp hwl)
  · intro hbound hused hout
    rw [same.gPfn] at hused ⊢
    obtain ⟨v, k, hthread, hname⟩ := h.owned hbound hused (outside hout)
    exact ⟨v, k, hthread, (same.names v k).mpr hname⟩

end Agree

/-- A step of `t`. It changes only the frames it is about, which nobody else stands on;
it makes no valid entry but of the own one of `t`; and it leaves the own entries of
the others. -/
structure Change (s s' : Tables) (t : ThreadId) (about : Nat → Prop) : Prop where
  pc : ∀ u, u ≠ t → s'.pc u = s.pc u
  agree : ∀ p, ¬ about p → Agree s s' p
  others : ∀ u p, u ≠ t → (s.pc u).frame = some p → ¬ about p
  made : ∀ v k p, s'.Names v k p → s.Names v k p ∨ v = t ∧ (s.pc t).own = some k
  own : ∀ u k, u ≠ t → (s.pc u).own = some k → s'.vm.pagetables u k = s.vm.pagetables u k
  left : ∀ p, (s.pc t).frame = some p → (s'.pc t).frame = some p ∨ about p
  entered : ∀ p, (s'.pc t).frame = some p →
    (s.pc t).frame = some p ∨ ∀ u, u ≠ t → (s.pc u).frame ≠ some p
  taken : ∀ k, (s'.pc t).own = some k → (s.pc t).own = some k ∨
    ∀ u i, (s.pc u).rewrites = some (i, k) → (s.vm.gPfn i).thread ≠ some t

theorem frame_of_rewrites {pc : Pc} (h : pc.rewrites = some (i, k)) : pc.frame = some i := by
  cases pc with
  | idle | mutexUsed _ | setMutexUsed _ | setMutexCount _ | mutexReturn _ | entryUnused _ => cases h
  | page j stage =>
      cases stage with
      | setSwapout _ _ _ | setPos _ _ _ =>
          cases h
          rfl
      | pfnCount | frameUsed _ | setUsed _ | setThread _ | addCount _ | evictUsed _
      | evictThread _ | swapOut _ | findEntry _ _ _ | clearValid _ _ _ | takeThread _ | setPfn _
      | setValid _ => cases h

namespace Change

variable {about : Nat → Prop}

theorem accounted (c : Change s s' t about) (hp : ¬ about p) (h : s.Accounted p) :
    s'.Accounted p := by
  refine (c.agree p hp).accounted h ?_
  intro outside u hup
  by_cases hu : u = t
  · rw [hu] at hup
    cases c.left p hup with
    | inl stays => exact outside t stays
    | inr habout => exact hp habout
  · rw [← c.pc u hu] at hup
    exact outside u hup

/-- An entry that is not valid and not the own one of `t` stays so. -/
theorem invalid (c : Change s s' t about) (hv : v ≠ t ∨ (s.pc t).own ≠ some k)
    (h : ∀ p, ¬ s.Names v k p) : ∀ p, ¬ s'.Names v k p := by
  intro p hname
  cases c.made v k p hname with
  | inl before => exact h p before
  | inr mine =>
      cases hv with
      | inl hv => exact hv mine.1
      | inr hk => exact hk mine.2

/-- The other threads stay placed. -/
theorem placed (c : Change s s' t about) (f : s.Frames) (hu : u ≠ t) : s'.Placed u := by
  have h := f.placed u
  have same : ∀ p, (s.pc u).frame = some p → Agree s s' p := by
    intro p hp
    exact c.agree p (c.others u p hu hp)
  refine ⟨?_, ?_, ?_, ?_⟩
  · intro j hj
    rw [c.pc u hu] at hj
    exact ⟨(h.own j hj).1, c.invalid (.inl hu) (h.own j hj).2⟩
  · intro j i hpc
    rw [c.pc u hu] at hpc
    rw [c.own u j hu (congrArg Pc.own hpc)]
    exact h.ready j i hpc
  · intro i k v hi hthread
    rw [c.pc u hu] at hi
    rw [(same i (frame_of_rewrites hi)).gPfn] at hthread
    obtain ⟨hinvalid, hown⟩ := h.rewritten i k v hi hthread
    by_cases hv : v = t
    · subst hv
      refine ⟨c.invalid (.inr hown) hinvalid, ?_⟩
      intro hk
      cases c.taken k hk with
      | inl before => exact hown before
      | inr nobody => exact nobody u i hi hthread
    · rw [c.pc v hv]
      exact ⟨c.invalid (.inl hv) hinvalid, hown⟩
  · intro stage hstage
    rw [c.pc u hu] at hstage
    refine Agree.stands ?_ (h.stands stage hstage)
    intro p hp
    apply same p
    rw [Pc.frame, hstage]
    exact hp

/-- The invariant behind a step of `t`: what is left to show is about `t` and about
the frames of the step. -/
theorem frames (c : Change s s' t about) (f : s.Frames)
    (idle : ∀ u, s'.live u = false → s'.pc u = .idle)
    (mine : ∀ p, about p → s'.Accounted p) (placed : s'.Placed t) : s'.Frames := by
  refine ⟨idle, ?_, ?_, ?_⟩
  · refine f.apart.move (t := t) ?_ c.entered
    intro u hu
    rw [c.pc u hu]
  · intro p
    by_cases hp : about p
    · exact mine p hp
    · exact c.accounted hp (f.accounted p)
  · intro u
    by_cases hu : u = t
    · rw [hu]
      exact placed
    · exact c.placed f hu

end Change

/-- No two valid entries of live threads name one frame. -/
theorem Frames.distinct (f : s.Frames) : s.FramesDistinct := by
  intro t j u k p ht hj hu hk hjp hkp
  exact (f.accounted p).unique t j u k ⟨ht, hj, hjp⟩ ⟨hu, hk, hkp⟩

/-- A thread that is in none of the functions is placed. -/
theorem placed_of_outside (hstage : (s.pc t).stage = none) : s.Placed t := by
  have hpage : ∀ j stage, s.pc t ≠ .page j stage := by
    intro j stage hpc
    rw [hpc] at hstage
    cases hstage
  refine ⟨?_, ?_, ?_, ?_⟩
  · intro j hj
    cases hpc : s.pc t with
    | page k stage => exact absurd hpc (hpage k stage)
    | idle | mutexUsed _ | setMutexUsed _ | setMutexCount _ | mutexReturn _ | entryUnused _ =>
        cases (congrArg Pc.own hpc).symm.trans hj
  · intro j i hpc
    exact absurd hpc (hpage j _)
  · intro i k v hi
    rw [Pc.rewrites, hstage] at hi
    cases hi
  · intro stage h
    cases hstage.symm.trans h

theorem frames_of_init (init : s.Init) : s.Frames := by
  have outside : ∀ t, (s.pc t).stage = none := by
    intro t
    rw [init.idle t]
    rfl
  have unnamed : ∀ t j p, ¬ s.Names t j p := by
    rintro t j p ⟨ht, -, hview⟩
    rw [Vm.view, init.pagetables t ht j, Mmpte.view_zero] at hview
    cases hview
  refine ⟨fun t _ => init.idle t, ?_, ?_, fun t => placed_of_outside (outside t)⟩
  · intro t u i ht
    change (s.pc t).frame = some i at ht
    rw [Pc.frame, outside t] at ht
    cases ht
  · intro p
    refine ⟨?_, ?_, ?_⟩
    · intro t j hname
      exact absurd hname (unnamed t j p)
    · intro t j u k hname
      exact absurd hname (unnamed t j p)
    · intro _ hused
      cases (init.frames p).symm.trans hused

end Tables

end OsDesign.Alloc
