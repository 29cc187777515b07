import OsDesign.Preempt.Stages

/-!
Every turn of a disciplined run keeps the threads in their seats, and is at most
one step of the running thread in the lock of one mutex.
-/
namespace OsDesign.Preempt

open Pthread Virt CountedLock

variable {threads : Finset ThreadId} {mutexes : Nat → Bool} {s s' : Watched} {t u : ThreadId}
  {h m : Nat} {pc pc₀ : Pc} {r : Machine}

namespace Seated

theorem holding_set (seated : Seated threads mutexes s) (hm : mutexes h = true) (n : Nat) :
    ∀ h' t, 0 < s.setHolding h s.machine.running.owner n h' t →
      t ∈ threads ∧ mutexes h' = true := by
  intro h' t hpos
  by_cases hh : h' = h
  · subst hh
    by_cases ht : t = s.machine.running.owner
    · exact ⟨ht ▸ seated.runs, hm⟩
    · rw [Watched.setHolding, Function.update_self, Function.update_of_ne ht] at hpos
      exact seated.holding h' t hpos
  · rw [Watched.setHolding, Function.update_of_ne hh] at hpos
    exact seated.holding h' t hpos

/-- A lock returns: its thread holds the mutex once more. -/
theorem lockReturn_advances (seated : Seated threads mutexes s)
    (hpc : s.machine.running.pc = .lockReturn h 0) :
    Advances threads mutexes s ⟨s.machine.goto .user, s.setHolding h s.machine.running.owner
      (s.holding h s.machine.running.owner + 1)⟩ := by
  have hnot := seated.not_waiting hpc rfl
  have loc := Local.goto s .user (s.setHolding h s.machine.running.owner
    (s.holding h s.machine.running.owner + 1))
  have hm := seated.mutex_running (h := h) hpc rfl
  refine ⟨seated.goes hpc loc rfl (.inr rfl) id (seated.holding_set hm _), ?_⟩
  intro m
  have hold : (s.lock m).stage s.machine.running.owner = (Pc.lockReturn h 0).stage m false :=
    hpc ▸ stage_running hnot
  by_cases hh : (Pc.lockReturn h 0).handle = some m
  · obtain rfl := Option.some.inj hh
    rw [Pc.stage_of_eq hh] at hold
    right
    rw [loc.lock_eq hnot]
    have hset : s.setHolding h s.machine.running.owner (s.holding h s.machine.running.owner + 1)
        h = Function.update (s.holding h) s.machine.running.owner
          (s.holding h s.machine.running.owner + 1) := Function.update_self _ _ _
    simp only [hset]
    exact Move.keep hold
  · have hne : m ≠ h := fun same => hh (congrArg some same.symm)
    refine .inl (loc.lock_same hnot rfl (Function.update_of_ne hne _ _) ?_)
    rw [hpc, Pc.stage_of_ne hh]
    rfl

/-- A thread calls unlock for a mutex that it holds. -/
theorem unlock_advances (seated : Seated threads mutexes s) (hpc : s.machine.running.pc = .user)
    (held : 0 < s.holding h s.machine.running.owner) :
    Advances threads mutexes s ⟨s.machine.goto (.unlockUsed h), s.record (.unlock h)⟩ := by
  have hnot := seated.not_waiting hpc rfl
  have loc := Local.goto s (.unlockUsed h) (s.record (.unlock h))
  have hm := (seated.holding h _ held).2
  refine ⟨loc.seated seated (hpc ▸ rfl) id ?_ (seated.holding_set hm _), ?_⟩
  · intro h' hh
    exact Option.some.inj hh ▸ hm
  · intro m
    have hold : (s.lock m).stage s.machine.running.owner = .outside :=
      (stage_running hnot).trans (hpc ▸ rfl)
    by_cases hh : (Pc.unlockUsed h).handle = some m
    · obtain rfl := Option.some.inj hh
      right
      rw [loc.lock_eq hnot, Pc.stage_of_eq hh]
      have hset : s.record (.unlock h) h = Function.update (s.holding h) s.machine.running.owner
          (s.holding h s.machine.running.owner - 1) := Function.update_self _ _ _
      simp only [hset]
      exact Move.bring _ hold (Nat.sub_add_cancel held).symm
    · have hne : m ≠ h := fun same => hh (congrArg some same.symm)
      refine .inl (loc.lock_same hnot rfl (Function.update_of_ne hne _ _) ?_)
      rw [hpc, Pc.stage_of_ne hh]
      rfl

theorem lock_advances (seated : Seated threads mutexes s) (hpc : s.machine.running.pc = .user)
    (hm : mutexes h = true) :
    Advances threads mutexes s ⟨s.machine.goto (.lockUsed h), s.holding⟩ := by
  have hnot := seated.not_waiting hpc rfl
  have loc := Local.goto s (.lockUsed h) s.holding
  refine ⟨loc.seated seated (hpc ▸ rfl) id ?_ seated.holding, ?_⟩
  · intro h' hh
    exact Option.some.inj hh ▸ hm
  · intro m
    refine .inl (loc.lock_same hnot rfl rfl ?_)
    by_cases hh : (Pc.lockUsed h).handle = some m
    · rw [hpc, Pc.stage_of_eq hh]
      rfl
    · rw [hpc, Pc.stage_of_ne hh]
      rfl

theorem statement_advances (seated : Seated threads mutexes s)
    (ready : s.machine.running.pc.looking = true → s.machine.queues.gQueueReady.first ≠ none)
    (hr : s.machine.statement = .ok r) :
    Advances threads mutexes s ⟨r, s.record .statement⟩ := by
  have hfits := seated.fits_running
  cases hpc : s.machine.running.pc with
  | user =>
      simp only [Machine.statement, hpc, Except.ok.injEq] at hr
      simp only [Watched.record, hpc, ← hr]
      exact ⟨seated, fun m => .inl rfl⟩
  | lockUsed h =>
      obtain ⟨hlt, hused⟩ := seated.table h (seated.mutex_running hpc rfl)
      simp only [Machine.statement, hpc, if_neg (Nat.not_le.mpr hlt), hused, Bool.true_eq_false,
        if_false, Except.ok.injEq] at hr
      simp only [Watched.record, hpc, ← hr]
      exact seated.goto_silent hpc rfl (.inl rfl) id fun _ => rfl
  | lockRange h =>
      obtain ⟨hlt, -⟩ := seated.table h (seated.mutex_running hpc rfl)
      simp only [Machine.statement, hpc, if_neg (Nat.not_le.mpr hlt), Except.ok.injEq] at hr
      simp only [Watched.record, hpc, ← hr]
      exact seated.goto_silent hpc rfl (.inl rfl) id fun _ => rfl
  | lockTest h =>
      simp only [Machine.statement, hpc, Except.ok.injEq] at hr
      simp only [Watched.record, hpc, ← hr]
      by_cases hcount : (s.machine.gMutexTable h).count = 0
      · rw [if_pos hcount]
        refine seated.goto_move hpc rfl rfl rfl id fun hstage => ?_
        have move := Move.test (P := threads) hstage
        have hlock : (s.lock h).count = 0 := hcount
        rw [if_pos hlock] at move
        exact move
      · rw [if_neg hcount]
        refine seated.goto_move hpc rfl rfl rfl id fun hstage => ?_
        have move := Move.test (P := threads) hstage
        have hlock : (s.lock h).count ≠ 0 := hcount
        rw [if_neg hlock] at move
        exact move
  | takeRead h | waitRead h | lastRead h | moreRead h =>
      simp only [Machine.statement, hpc, Except.ok.injEq] at hr
      simp only [Watched.record, hpc, ← hr]
      exact seated.goto_move hpc rfl rfl rfl id fun hstage => Move.read _ hstage
  | takeWrite h v =>
      simp only [Machine.statement, hpc, Except.ok.injEq] at hr
      simp only [Watched.record, hpc, ← hr]
      exact seated.write_move (k := .take) hpc rfl rfl rfl (fun hnot => ⟨hnot, rfl⟩) rfl rfl
  | waitWrite h v =>
      simp only [Machine.statement, hpc, Except.ok.injEq] at hr
      simp only [Watched.record, hpc, ← hr]
      exact seated.write_move (k := .block) hpc rfl rfl rfl id rfl rfl
  | setMu h =>
      simp only [Watched.record, hpc]
      exact seated.setMu hpc hr
  | swapEmpty h =>
      rw [hpc] at hfits
      simp only [Machine.statement, hpc, if_neg (ready (hpc ▸ rfl)), Except.ok.injEq] at hr
      simp only [Watched.record, hpc, ← hr]
      exact seated.goto_silent hpc rfl (.inl rfl) (fun _ => hfits) fun _ => rfl
  | swapTmp h =>
      rw [hpc] at hfits
      obtain ⟨hcurrent, hnot⟩ := seated.current_eq (hpc ▸ rfl)
      simp only [Machine.statement, hpc, Machine.swapTmp, hcurrent, Except.ok.injEq] at hr
      simp only [Watched.record, hpc, ← hr]
      exact seated.goto_silent hpc rfl (.inl rfl) (fun _ => ⟨hnot, hfits.2, rfl⟩) fun _ => rfl
  | swapStore h tmp =>
      rw [hpc] at hfits
      simp only [Machine.statement, hpc, Except.ok.injEq] at hr
      simp only [Watched.record, hpc, ← hr]
      exact seated.goto_silent hpc rfl (.inl rfl) (fun _ => hfits) fun _ => rfl
  | swapSection h tmp =>
      simp only [Watched.record, hpc]
      exact seated.swapSection_advances hpc hr
  | swapContext h tmp =>
      simp only [Watched.record, hpc]
      exact seated.swapContext_advances hpc hr
  | swapPages h =>
      simp only [Machine.statement, hpc, Except.ok.injEq] at hr
      simp only [Watched.record, hpc, ← hr]
      exact seated.goto_silent hpc rfl (.inl rfl) (fun hnot => ⟨hnot, rfl⟩) fun _ => rfl
  | lockReturn h value =>
      rw [hpc] at hfits
      obtain rfl := hfits.2
      simp only [Machine.statement, hpc, Except.ok.injEq] at hr
      simp only [Watched.record, hpc, ← hr]
      exact seated.lockReturn_advances hpc
  | unlockUsed h =>
      obtain ⟨hlt, hused⟩ := seated.table h (seated.mutex_running hpc rfl)
      simp only [Machine.statement, hpc, if_neg (Nat.not_le.mpr hlt), hused, Bool.true_eq_false,
        if_false, Except.ok.injEq] at hr
      simp only [Watched.record, hpc, ← hr]
      exact seated.goto_silent hpc rfl (.inl rfl) id fun _ => rfl
  | unlockRange h =>
      obtain ⟨hlt, -⟩ := seated.table h (seated.mutex_running hpc rfl)
      simp only [Machine.statement, hpc, if_neg (Nat.not_le.mpr hlt), Except.ok.injEq] at hr
      simp only [Watched.record, hpc, ← hr]
      exact seated.goto_silent hpc rfl (.inl rfl) id fun _ => rfl
  | unlockZero h =>
      simp only [Machine.statement, hpc, Except.ok.injEq] at hr
      simp only [Watched.record, hpc, ← hr]
      by_cases hcount : (s.machine.gMutexTable h).count = 0
      · rw [if_pos hcount]
        exact seated.goto_move hpc rfl rfl rfl id fun hstage => Move.refuse hstage hcount
      · rw [if_neg hcount]
        exact seated.goto_silent hpc rfl (.inl rfl) id fun _ => rfl
  | unlockOne h =>
      simp only [Machine.statement, hpc, Except.ok.injEq] at hr
      simp only [Watched.record, hpc, ← hr]
      by_cases hcount : (s.machine.gMutexTable h).count = 1
      · rw [if_pos hcount]
        refine seated.goto_move hpc rfl rfl rfl id fun hstage => ?_
        have move := Move.give (P := threads) hstage
        have hlock : (s.lock h).count = 1 := hcount
        rw [if_pos hlock] at move
        exact move
      · rw [if_neg hcount]
        refine seated.goto_move hpc rfl rfl rfl id fun hstage => ?_
        have move := Move.give (P := threads) hstage
        have hlock : (s.lock h).count ≠ 1 := hcount
        rw [if_neg hlock] at move
        exact move
  | lastWrite h v =>
      simp only [Machine.statement, hpc, Except.ok.injEq] at hr
      simp only [Watched.record, hpc, ← hr]
      exact seated.write_move (k := .leave) hpc rfl rfl rfl id rfl rfl
  | moreWrite h v =>
      simp only [Machine.statement, hpc, Except.ok.injEq] at hr
      simp only [Watched.record, hpc, ← hr]
      exact seated.write_move (k := .hand) hpc rfl rfl rfl id rfl rfl
  | release h =>
      simp only [Watched.record, hpc]
      exact seated.release_advances hpc hr
  | unlockReturn h value =>
      simp only [Machine.statement, hpc, Except.ok.injEq] at hr
      simp only [Watched.record, hpc, ← hr]
      refine seated.goto_silent hpc rfl (.inr rfl) id fun m => ?_
      by_cases hh : (Pc.unlockReturn h value).handle = some m
      · rw [Pc.stage_of_eq hh]
        rfl
      · rw [Pc.stage_of_ne hh]
        rfl

end Seated

end OsDesign.Preempt
