import OsDesign.Alloc.Threads

/-!
Two threads in one window. Once both have passed the test of a `used` flag, both go
on to the end when they are given the processor, and the slot is theirs together.
-/
namespace OsDesign.Alloc

open Pthread Virt

namespace Tables

variable {s s' : Tables} {t u : ThreadId} {i j k : Nat} {stage : Stage}

/-- A run of statements, every one by a live thread. -/
abbrev Statements (s : Tables) (es : List (ThreadId × Action)) (s' : Tables) : Prop :=
  Runs.Steps Enabled Step s es s'

theorem Statements.cons (enabled : s.live t = true) (h : s.statement t = .ok s')
    {es : List (ThreadId × Action)} {s'' : Tables} (rest : Statements s' es s'') :
    Statements s ((t, .statement) :: es) s'' :=
  Runs.Steps.cons ⟨enabled, trivial⟩ (step_iff.mpr h) rest

theorem statement_page (hpc : s.pc t = .page j stage) :
    s.statement t = s.pageStatement t j stage := by
  rw [Tables.statement, hpc]

theorem exists_setMutexUsed (hpc : s.pc t = .setMutexUsed i) :
    ∃ s', s.statement t = .ok s' ∧ Moves s s' t (.setMutexCount i) ∧ s'.handed = s.handed := by
  refine ⟨_, by rw [Tables.statement, hpc], ?_, ?_⟩
  · exact ⟨rfl, rfl⟩
  · rfl

theorem exists_setMutexCount (hpc : s.pc t = .setMutexCount i) :
    ∃ s', s.statement t = .ok s' ∧ Moves s s' t (.mutexReturn i) ∧ s'.handed = s.handed := by
  refine ⟨_, by rw [Tables.statement, hpc], ?_, ?_⟩
  · exact ⟨rfl, rfl⟩
  · rfl

/-- Behind its test `alloc_mutex` comes to its return, whatever the others did. -/
theorem exists_mutexReturn (enabled : s.live t = true) (hpc : s.pc t = .setMutexUsed i) :
    ∃ es s', Statements s es s' ∧ s'.pc t = .mutexReturn i ∧ s'.live = s.live ∧
      s'.handed = s.handed ∧ ∀ u, u ≠ t → s'.pc u = s.pc u := by
  obtain ⟨s₁, mark, moves₁, hhanded₁⟩ := exists_setMutexUsed hpc
  obtain ⟨s₂, count, moves₂, hhanded₂⟩ := exists_setMutexCount moves₁.self
  have enabled₁ : s₁.live t = true := (congrFun moves₁.live t).trans enabled
  refine ⟨_, s₂, Statements.cons enabled mark (Statements.cons enabled₁ count (.nil _)),
    moves₂.self, moves₂.live.trans moves₁.live, hhanded₂.trans hhanded₁, ?_⟩
  intro u hu
  exact (moves₂.of_ne hu).trans (moves₁.of_ne hu)

/-- A test of `alloc_mutex` that passes on an index another thread stands on: both
calls return it. -/
theorem Handles.collide (h : s.Handles) (f : s.Frames) (enabled : s.live t = true)
    (hpc : s.pc t = .mutexUsed i) (hi : i < maxMutexNum)
    (overlap : ¬ s.Exclusive (t, .statement)) :
    ∃ es s', Statements s ((t, .statement) :: es) s' ∧ ¬ s'.HandlesDistinct := by
  rw [Exclusive, hpc] at overlap
  simp only [ExclusiveTest, Classical.not_imp, not_forall, Decidable.not_not] at overlap
  obtain ⟨hused, u, hu, hmutex⟩ := overlap
  have hpcu : s.pc u = .setMutexUsed i := by
    cases hpcu : s.pc u with
    | setMutexUsed k =>
        rw [hpcu] at hmutex
        cases hmutex
        rfl
    | setMutexCount _ | mutexReturn _ =>
        have hmarked : (s.pc u).marked = some i := by
          rw [hpcu] at hmutex ⊢
          exact hmutex
        cases hused.symm.trans (h.marked u i hmarked)
    | idle | mutexUsed _ | entryUnused _ | page _ _ =>
        rw [hpcu] at hmutex
        cases hmutex
  have enabledu : s.live u = true := by
    cases hlive : s.live u with
    | true => rfl
    | false => cases hpcu.symm.trans (f.idle u hlive)
  have test : s.statement t = .ok (s.goto t (.setMutexUsed i)) := by
    rw [Tables.statement, hpc]
    simp only [Nat.not_le.mpr hi, if_false, hused, if_true]
  obtain ⟨es, s₁, first, hpc₁, hlive₁, hhanded₁, hother₁⟩ :=
    exists_mutexReturn (s := s.goto t (.setMutexUsed i)) (t := u) (i := i) enabledu
      ((pc_goto_of_ne s _ hu).trans hpcu)
  have returns : s₁.statement u =
      .ok ({ s₁ with handed := Function.update s₁.handed i true }.goto u .idle) := by
    rw [Tables.statement, hpc₁]
  have hpct : s₁.pc t = .setMutexUsed i := (hother₁ t hu.symm).trans (pc_goto_self s t _)
  obtain ⟨fs, s₂, second, hpc₂, -, hhanded₂, -⟩ := exists_mutexReturn
    (s := { s₁ with handed := Function.update s₁.handed i true }.goto u .idle) (t := t) (i := i)
    ((congrFun hlive₁ t).trans enabled) ((pc_goto_of_ne _ _ hu.symm).trans hpct)
  refine ⟨_, s₂, Statements.cons enabled test (first.append
    (Statements.cons ((congrFun hlive₁ u).trans enabledu) returns second)), ?_⟩
  intro distinct
  have hfresh := distinct t i hpc₂
  rw [hhanded₂] at hfresh
  change Function.update s₁.handed i true i = false at hfresh
  rw [Function.update_self] at hfresh
  cases hfresh

/-- The statements of `allocate_physical_page` behind its test leave the page tables. -/
theorem exists_setPfn (enabled : s.live t = true) (hpc : s.pc t = .page j (.setUsed i)) :
    ∃ es s', Statements s es s' ∧ s'.pc t = .page j (.setPfn i) ∧ s'.live = s.live ∧
      s'.vm.pagetables = s.vm.pagetables ∧ ∀ u, u ≠ t → s'.pc u = s.pc u := by
  obtain ⟨s₁, mark, moves₁, htables₁⟩ : ∃ s₁, s.statement t = .ok s₁ ∧
      Moves s s₁ t (.page j (.setThread i)) ∧ s₁.vm.pagetables = s.vm.pagetables :=
    ⟨_, statement_page hpc, ⟨rfl, rfl⟩, rfl⟩
  obtain ⟨s₂, own, moves₂, htables₂⟩ : ∃ s₂, s₁.statement t = .ok s₂ ∧
      Moves s₁ s₂ t (.page j (.addCount i)) ∧ s₂.vm.pagetables = s₁.vm.pagetables :=
    ⟨_, statement_page moves₁.self, ⟨rfl, rfl⟩, rfl⟩
  obtain ⟨s₃, count, moves₃, htables₃⟩ : ∃ s₃, s₂.statement t = .ok s₃ ∧
      Moves s₂ s₃ t (.page j (.setPfn i)) ∧ s₃.vm.pagetables = s₂.vm.pagetables :=
    ⟨_, statement_page moves₂.self, ⟨rfl, rfl⟩, rfl⟩
  have enabled₁ : s₁.live t = true := (congrFun moves₁.live t).trans enabled
  have enabled₂ : s₂.live t = true := (congrFun moves₂.live t).trans enabled₁
  refine ⟨_, s₃, Statements.cons enabled mark (Statements.cons enabled₁ own
    (Statements.cons enabled₂ count (.nil _))), moves₃.self, ?_, ?_, ?_⟩
  · rw [moves₃.live, moves₂.live, moves₁.live]
  · rw [htables₃, htables₂, htables₁]
  · intro u hu
    rw [moves₃.of_ne hu, moves₂.of_ne hu, moves₁.of_ne hu]

/-- Behind the test `mm_allocate_page` comes to a valid entry, whatever the others did. -/
theorem exists_granted (enabled : s.live t = true) (hpc : s.pc t = .page j (.setUsed i))
    (hi : i < 2 ^ 20) :
    ∃ es s', Statements s es s' ∧ s'.vm.view t j = .inMemory i ∧ s'.live = s.live ∧
      ∀ u, u ≠ t → s'.pc u = s.pc u ∧ s'.vm.pagetables u = s.vm.pagetables u := by
  obtain ⟨es, s₁, run, hpc₁, hlive₁, htables₁, hother₁⟩ := exists_setPfn enabled hpc
  obtain ⟨s₂, number, moves₂, hvm₂⟩ : ∃ s₂, s₁.statement t = .ok s₂ ∧
      Moves s₁ s₂ t (.page j (.setValid i)) ∧
        s₂.vm = s₁.vm.setEntry t j ((s₁.vm.pagetables t j).setHardPageframenumber i) :=
    ⟨_, statement_page hpc₁, ⟨rfl, rfl⟩, rfl⟩
  obtain ⟨s₃, valid, moves₃, hvm₃⟩ : ∃ s₃, s₂.statement t = .ok s₃ ∧ Moves s₂ s₃ t .idle ∧
      s₃.vm = s₂.vm.setEntry t j ((s₂.vm.pagetables t j).setHardValid 1#1) :=
    ⟨_, statement_page moves₂.self, ⟨rfl, rfl⟩, rfl⟩
  have enabled₁ : s₁.live t = true := (congrFun hlive₁ t).trans enabled
  have enabled₂ : s₂.live t = true := (congrFun moves₂.live t).trans enabled₁
  refine ⟨_, s₃, run.append (Statements.cons enabled₁ number
    (Statements.cons enabled₂ valid (.nil _))), ?_, ?_, ?_⟩
  · rw [hvm₃, Vm.view_setEntry_self, hvm₂, Vm.pagetables_setEntry_self]
    exact Mmpte.view_granted _ hi
  · rw [moves₃.live, moves₂.live, hlive₁]
  · intro u hu
    refine ⟨?_, ?_⟩
    · rw [moves₃.of_ne hu, moves₂.of_ne hu, hother₁ u hu]
    · funext k
      rw [hvm₃, Vm.pagetables_setEntry_of_ne _ _ (.inl hu), hvm₂,
        Vm.pagetables_setEntry_of_ne _ _ (.inl hu), htables₁]

/-- Who stands on an unused frame is in front of the statement that marks it. -/
theorem Frames.setUsed_of_unused (f : s.Frames) (hi : i < maxPhysicalPages)
    (hused : (s.vm.gPfn i).used = false) (hframe : (s.pc u).frame = some i) :
    ∃ k, s.pc u = .page k (.setUsed i) := by
  have used : ∀ {P : Prop}, (s.vm.gPfn i).used = true → P := by
    intro P h
    cases hused.symm.trans h
  cases hpc : s.pc u with
  | idle | mutexUsed _ | setMutexUsed _ | setMutexCount _ | mutexReturn _ | entryUnused _ =>
      cases (congrArg Pc.frame hpc).symm.trans hframe
  | page k stage =>
      have stands := (f.placed u).stands stage (congrArg Pc.stage hpc)
      rw [hpc] at hframe
      cases stage with
      | pfnCount | frameUsed _ | evictUsed _ | evictThread _ => cases hframe
      | setUsed l =>
          cases hframe
          exact ⟨k, rfl⟩
      | setThread l | setSwapout l _ _ | setPos l _ _ | takeThread l =>
          cases hframe
          exact used (Taken.used stands)
      | addCount l =>
          cases hframe
          exact used stands.1.used
      | swapOut l | findEntry l _ _ | clearValid l _ _ =>
          cases hframe
          exact used (Victim.used stands)
      | setPfn l | setValid l =>
          cases hframe
          exact used (Granted.counted stands hi).1

/-- A test of `allocate_physical_page` that passes on a frame another thread stands on:
both get it. -/
theorem Frames.collide (f : s.Frames) (enabled : s.live t = true)
    (hpc : s.pc t = .page j (.frameUsed i)) (hi : i < maxPhysicalPages)
    (overlap : ¬ s.Exclusive (t, .statement)) :
    ∃ es s', Statements s ((t, .statement) :: es) s' ∧ ¬ s'.FramesDistinct := by
  rw [Exclusive, hpc] at overlap
  simp only [ExclusiveTest, Classical.not_imp, not_forall, Decidable.not_not] at overlap
  obtain ⟨hused, u, hu, hframe⟩ := overlap
  obtain ⟨k, hpcu⟩ := f.setUsed_of_unused hi hused hframe
  have enabledu : s.live u = true := by
    cases hlive : s.live u with
    | true => rfl
    | false => cases hpcu.symm.trans (f.idle u hlive)
  have hj := ((f.placed t).own j (congrArg Pc.own hpc)).1
  have hk := ((f.placed u).own k (congrArg Pc.own hpcu)).1
  have small := lt_of_le_maxPhysicalPages hi.le
  have test : s.statement t = .ok (s.goto t (.page j (.setUsed i))) := by
    rw [statement_page hpc, pageStatement, if_neg (Nat.not_le.mpr hi), if_pos hused]
  obtain ⟨es, s₁, first, hview₁, hlive₁, hother₁⟩ := exists_granted
    (s := s.goto t (.page j (.setUsed i))) (t := u) enabledu
    ((pc_goto_of_ne s _ hu).trans hpcu) small
  obtain ⟨fs, s₂, second, hview₂, hlive₂, hother₂⟩ := exists_granted (s := s₁) (t := t)
    ((congrFun hlive₁ t).trans enabled) ((hother₁ t hu.symm).1.trans (pc_goto_self s t _)) small
  have hviewu : s₂.vm.view u k = .inMemory i := by
    rw [Vm.view, (hother₂ u hu).2]
    exact hview₁
  refine ⟨_, s₂, Statements.cons enabled test (first.append second), ?_⟩
  intro distinct
  refine hu (distinct u k t j i ?_ hk ?_ hj hviewu hview₂).1
  · rw [hlive₂, hlive₁]
    exact enabledu
  · rw [hlive₂, hlive₁]
    exact enabled

end Tables

end OsDesign.Alloc
