import OsDesign.Benchmark.Statements

/-!
A function is done. `thread_stub` lets the main thread go if it joins this thread, gives the
entry of the thread back, and leaves the processor to a thread that is ready: there is one.
-/
namespace OsDesign.Benchmark

open Virt Pthread Code LockedSum

variable {κ ν σ : Type} {P : Program κ ν σ} {c : Client κ ν σ} {main t t' : ThreadId} {n : Nat}
  {s : σ} {l : Library} {N : Nat} {v v' : View} {a a' : Sched}

/-- The program behind the end of `t`. -/
def ended (c : Client κ ν σ) (t : ThreadId) (l : Library) : Client κ ν σ :=
  { c with library := l, worker := Function.update c.worker t none }

theorem worker_ended {w : Nat × σ} (here : (ended c t l).worker t' = some w) :
    t' ≠ t ∧ c.worker t' = some w := by
  by_cases same : t' = t
  · subst same
    simp [ended] at here
  · simp only [ended, Function.update_of_ne same] at here
    exact ⟨same, here⟩

theorem num_ended : (ended c t l).num t' = some n ↔ t' ≠ t ∧ c.num t' = some n := by
  by_cases same : t' = t
  · subst same
    simp [ended, Client.num]
  · simp [ended, Client.num, same]

/-- `v'` is the view behind the end of `t`. -/
structure View.Ended (v : View) (t : ThreadId) (v' : View) : Prop where
  num : ∀ t' n, v'.num t' = some n ↔ t' ≠ t ∧ v.num t' = some n
  thread : v'.thread = v.thread
  mutex : v'.mutex = v.mutex
  main : v'.main = v.main

theorem Roster.ended (roster : Roster N main v a) (ends : v.Ended t v') (other : t ≠ main)
    (live : a'.live = Function.update a.live t false) : Roster N main v' a' := by
  refine ⟨?_, ?_, ?_, ?_, ?_, ?_⟩
  · refine Option.eq_none_iff_forall_ne_some.mpr ?_
    intro n num
    have before := ((ends.num main n).mp num).2
    rw [roster.unnumbered] at before
    cases before
  · intro t'
    simp only [ends.num, live]
    by_cases same : t' = t
    · subst same
      simp [other]
    · simp only [Function.update_of_ne same, roster.live t', same, ne_eq, not_false_eq_true,
        true_and]
  · intro t' n num
    rw [ends.main]
    exact roster.number t' n ((ends.num t' n).mp num).2
  · intro t₁ t₂ n num₁ num₂
    exact roster.once t₁ t₂ n ((ends.num t₁ n).mp num₁).2 ((ends.num t₂ n).mp num₂).2
  · rw [ends.main]
    exact roster.created
  · rw [ends.main]
    exact roster.joined

/-- The entry of the thread is free, and no other thread has it. -/
theorem Entries.ended (entries : Entries N v a) (ends : v.Ended t v')
    (num : v.num t = some n) (locking : v.main.locking = true) (tid : a'.tid = a.tid)
    (table : a'.table = a.table.freeMutex (a.tid t)) : Entries N v' a' := by
  have apart : ∀ t' n', v'.num t' = some n' → a.tid t' ≠ a.tid t := by
    intro t' n' num' same
    obtain ⟨other, before⟩ := (ends.num t' n').mp num'
    exact other (entries.apart t' t n' n before num same)
  have kept : ∀ h, h ≠ a.tid t → a'.table h = a.table h := by
    intro h other
    rw [table, MutexTable.freeMutex, Function.update_of_ne other]
  have mutex := entries.mutex locking
  have unlike : v.mutex ≠ a.tid t := (mutex.2.2 t n num).symm
  refine ⟨?_, ?_, ?_, ?_, ?_, ?_, ?_, ?_⟩
  · intro t' n' num'
    rw [tid, ends.thread]
    exact entries.tid t' n' ((ends.num t' n').mp num').2
  · intro t' n' num'
    rw [tid]
    exact entries.range t' n' ((ends.num t' n').mp num').2
  · intro t' n' num'
    rw [tid, kept _ (apart t' n' num')]
    exact entries.used t' n' ((ends.num t' n').mp num').2
  · intro t' n' num'
    rw [tid, kept _ (apart t' n' num'), ends.main]
    exact entries.joins t' n' ((ends.num t' n').mp num').2
  · intro t₁ t₂ n₁ n₂ num₁ num₂ same
    rw [tid] at same
    exact entries.apart t₁ t₂ n₁ n₂ ((ends.num t₁ n₁).mp num₁).2 ((ends.num t₂ n₂).mp num₂).2 same
  · intro _
    rw [ends.mutex, kept _ unlike, tid]
    exact ⟨mutex.1, mutex.2.1, fun t' n' num' => mutex.2.2 t' n' ((ends.num t' n').mp num').2⟩
  · intro h used
    have other : h ≠ a.tid t := by
      rintro rfl
      simp [table, MutexTable.freeMutex] at used
    rw [kept h other] at used
    rcases entries.others h used with ⟨-, isMutex⟩ | ⟨t', n', num', isTid⟩
    · refine .inl ⟨?_, ?_⟩
      · rw [ends.main]
        exact locking
      · rw [ends.mutex]
        exact isMutex
    · refine .inr ⟨t', n', (ends.num t' n').mpr ⟨?_, num'⟩, ?_⟩
      · rintro rfl
        exact other isTid.symm
      · rw [tid]
        exact isTid
  · rw [ends.main, ends.thread, ends.mutex]
    exact entries.thread

/-- Whoever joins the thread is let go. -/
theorem Waiting.ended (waiting : Waiting N main v a) (entries : Entries N v a)
    (ends : v.Ended t v') (num : v.num t = some n) (mu : a'.mu = a.mu) (tid : a'.tid = a.tid)
    (wait : ∀ t', t' ∈ a'.wait ↔ t' ∈ a.wait ∧ a.mu t' ≠ a.tid t) : Waiting N main v' a' := by
  refine ⟨?_, ?_, ?_⟩
  · intro t' waits other
    rw [mu, ends.mutex]
    exact waiting.mutex t' ((wait t').mp waits).1 other
  · intro waits
    obtain ⟨before, unlike⟩ := (wait main).mp waits
    obtain ⟨joining, t', n', num', word⟩ := waiting.joining before
    rw [ends.main, mu, tid]
    refine ⟨joining, t', n', (ends.num t' n').mpr ⟨?_, num'⟩, word⟩
    rintro rfl
    exact unlike word.symm
  · intro t' n' num' joined
    obtain ⟨other, before⟩ := (ends.num t' n').mp num'
    rw [ends.main] at joined
    obtain ⟨waits, word⟩ := waiting.joined t' n' before joined
    rw [mu, tid, wait]
    refine ⟨⟨waits, ?_⟩, word⟩
    intro same
    exact other (entries.apart t' t n' n before num (word.trans same))

/-- Only the main thread waits for a thread. -/
theorem Waiting.wait_retired (waiting : Waiting N main v a) (nodup : a.wait.Nodup)
    (unlike : a.tid t ≠ v.mutex) (t' : ThreadId) :
    t' ∈ a.wait.eraseP (a.waitsOn (a.tid t)) ↔ t' ∈ a.wait ∧ a.mu t' ≠ a.tid t := by
  cases found : a.wait.find? (a.waitsOn (a.tid t)) with
  | none =>
      have unmatched := List.find?_eq_none.mp found
      rw [List.eraseP_of_forall_not unmatched]
      refine (and_iff_left_of_imp ?_).symm
      intro waits same
      exact unmatched t' waits (beq_iff_eq.mpr same.symm)
  | some w =>
      have test : a.waitsOn (a.tid t) w = true := List.find?_some found
      have word : a.mu w = a.tid t := (beq_iff_eq.mp test).symm
      have waits := List.mem_of_find?_eq_some found
      have isMain : w = main := by
        by_contra other
        exact unlike (word.symm.trans (waiting.mutex w waits other))
      subst isMain
      rw [TailQueue.eraseP_eq_erase found, nodup.mem_erase_iff, and_comm]
      refine and_congr_right fun waits' => ⟨fun other same => ?_, fun unlike' same => ?_⟩
      · exact unlike (same.symm.trans (waiting.mutex t' waits' other))
      · exact unlike' (same ▸ word)

theorem Points.ended {i : Par Nat κ ν σ} (points : Points P c a i)
    (here : c.worker t = some (n, s)) (awake : t ∉ a.wait) (action : P.code n s = .stop)
    (other : main ≠ t) (wait : ∀ t', t' ≠ main → (t' ∈ a'.wait ↔ t' ∈ a.wait))
    (unnumbered : c.num main = none) : Points P (ended c t l) a' i := by
  have runs : ∀ t' w, c.worker t' = some w → t' ≠ main := by
    rintro t' w here' rfl
    simp [Client.num, here'] at unnumbered
  refine ⟨points.memory, ?_, ?_, points.unborn, ?_⟩
  · intro t' n' s' here' awake'
    obtain ⟨-, before⟩ := worker_ended here'
    have same := wait t' (runs t' _ before)
    exact points.here t' n' s' before fun waits => awake' (same.mpr waits)
  · intro t' n' s' here' waits
    obtain ⟨-, before⟩ := worker_ended here'
    exact points.waiting t' n' s' before ((wait t' (runs t' _ before)).mp waits)
  · intro k created gone
    by_cases same : k = n
    · subst same
      rw [points.here t k s here awake]
      exact action
    · refine points.gone k created fun t' num => ?_
      refine gone t' (num_ended.mpr ⟨?_, num⟩)
      rintro rfl
      exact same (Option.some.inj (num.symm.trans (num_of_worker here)))

variable [DecidableEq κ] [AddCommMonoid ν] {o : Outline P.code P.acc} {total : ν}
  {g : Shadow κ ν σ}

/-- The thread that ends leaves another one ready: the main thread, the holder of the mutex,
or a thread that waits for neither. -/
theorem Standing.ready_behind (st : Standing P o total main c g)
    (running : g.lists.current = some t) (num : c.num t = some n)
    (unheld : g.par.holder ≠ some n) :
    ∃ next rest, (g.lists.retired t).ready = next :: rest := by
  have grows : ∀ next rest, g.lists.ready = next :: rest →
      ∃ next rest, (g.lists.retired t).ready = next :: rest := by
    intro next rest ready
    refine ⟨next, rest ++ (g.lists.wait.find? (g.lists.waitsOn (g.lists.tid t))).toList, ?_⟩
    simp only [Sched.retired, Sched.release, ready, List.cons_append]
  by_cases waits : main ∈ g.lists.wait
  · obtain ⟨-, t', n', num', word⟩ := st.waiting.joining waits
    by_cases same : t' = t
    · subst same
      -- the main thread joins this one
      have test : g.lists.waitsOn (g.lists.tid t') main = true := beq_iff_eq.mpr word
      have isSome := List.find?_isSome.mpr ⟨main, waits, test⟩
      obtain ⟨w, found⟩ := Option.isSome_iff_exists.mp isSome
      have ready : (g.lists.retired t').ready = g.lists.ready ++ [w] := by
        simp only [Sched.retired, Sched.release, found, Option.toList_some]
      refine List.exists_cons_of_ne_nil ?_
      rw [ready]
      simp
    · have other : ∀ k, c.num t = some k → g.par.holder ≠ some k := by
        intro k num''
        obtain rfl : n = k := Option.some.inj (num.symm.trans num'')
        exact unheld
      obtain ⟨next, rest, ready⟩ := st.ready_of_live running other num' same
      exact grows next rest ready
  · have live := (st.partition.live main).mpr ((st.roster.live main).mpr (.inl rfl))
    rcases Sched.mem_threads.mp live with current | ready | asleep
    · exact absurd (Option.some.inj (running.symm.trans current)) (st.ne_main num)
    · obtain ⟨next, rest, cons⟩ := List.exists_cons_of_ne_nil (List.ne_nil_of_mem ready)
      exact grows next rest cons
    · exact absurd asleep waits

theorem Budget.ended {left : Nat → Nat} (budget : Budget P o c left)
    (once : ∀ t', c.num t' = some n → t' = t) (born : n < c.main.created P.threadNum) :
    Budget P o (Benchmark.ended c t l) (Function.update left n 0) := by
  refine ⟨?_, ?_⟩
  · intro t' n' s' here
    obtain ⟨other, before⟩ := worker_ended here
    have unlike : n' ≠ n := by
      rintro rfl
      exact other (once t' (num_of_worker before))
    rw [Function.update_of_ne unlike]
    exact budget.live t' n' s' before
  · intro k unborn mem
    have other : k ≠ n := fun same => absurd born (Nat.not_lt.mpr (same ▸ unborn))
    rw [Function.update_of_ne other]
    exact budget.unborn k unborn mem

/-- The end of a thread. -/
theorem Standing.exit (st : Standing P o total main c g) (running : g.lists.current = some t)
    (here : c.worker t = some (n, s)) (action : P.code n s = .stop) (u : Unspecified) :
    ∃ c', (c.calls u .exit fun _ c =>
        { c with worker := Function.update c.worker t none }) = .ok c' ∧
      Advances P o total main g c c' := by
  have num := num_of_worker here
  have part := st.partition
  have awake := part.running_not_waiting running
  have mem := Finset.mem_range.mpr (st.number_lt num)
  have point := st.points.here t n s here awake
  have other := st.ne_main num
  have locking := st.locking num
  have unlike : g.lists.tid t ≠ c.mutex := (st.entries.mutex locking).2.2 t n num
  have range := (st.entries.range t n num).2
  have unheld : g.par.holder ≠ some n := by
    intro held
    have holds := (st.ideal.holder n mem).mp held
    rw [point, (o.stopped action (point ▸ st.ideal.valid n mem)).1] at holds
    cases holds
  obtain ⟨next, rest, ready⟩ := st.ready_behind running num unheld
  have exits : g.lists.exit = .ok ((g.lists.retired t).schedule, ⟨0, none⟩) := by
    simp only [Sched.exit, running, if_neg (Nat.not_le.mpr range)]
  obtain ⟨l, r, hcall, -, wf, lists⟩ := st.call (e := .exit) trivial u exits
  refine ⟨Benchmark.ended c t l, by rw [Client.calls, hcall]; rfl, ?_⟩
  have ends : c.view.Ended t (Benchmark.ended c t l).view :=
    ⟨fun _ _ => num_ended, rfl, rfl, rfl⟩
  have wait := st.waiting.wait_retired part.wait_nodup unlike
  have asleep : ∀ t', t' ≠ main → (t' ∈ (g.lists.retired t).schedule.wait ↔ t' ∈ g.lists.wait) := by
    intro t' unmain
    rw [Sched.schedule_wait]
    refine (wait t').trans (and_iff_left_of_imp fun waits => ?_)
    rw [st.waiting.mutex t' waits unmain]
    exact unlike.symm
  have waiters : (g.lists.retired t).schedule.waiters c.mutex = g.lists.waiters c.mutex := by
    have released := Sched.waiters_released (a := g.lists)
      (g.lists.retired t).schedule_wait (g.lists.retired t).schedule_mu c.mutex
    rwa [if_neg fun both => unlike both.1.symm, Nat.add_zero] at released
  have left : 0 < g.left n := by
    rw [st.budget.live t n s here]
    exact Nat.succ_pos _
  have sum := sum_update_lt (st.number_lt num) left
  refine ⟨⟨(g.lists.retired t).schedule, g.par, Function.update g.left n 0⟩, ⟨wf, lists, ?_, ?_,
    ?_, ?_, ?_, ?_, st.ideal, ?_, st.printed, st.idle⟩, Nat.add_lt_add_left sum _, .refl _⟩
  · refine ⟨next, ?_⟩
    simp only [Sched.schedule, ready]
  · exact st.roster.ended ends other (g.lists.retired t).schedule_live
  · exact st.entries.ended ends num locking (g.lists.retired t).schedule_tid
      (g.lists.retired t).schedule_table
  · refine st.waiting.ended st.entries ends num (g.lists.retired t).schedule_mu
      (g.lists.retired t).schedule_tid fun t' => ?_
    rw [Sched.schedule_wait]
    exact wait t'
  · have entry : (g.lists.retired t).schedule.table c.mutex = g.lists.table c.mutex := by
      rw [Sched.schedule_table]
      exact Function.update_of_ne unlike.symm _ _
    have counted := st.counted.congr entry waiters
    exact ⟨counted.free, counted.held⟩
  · exact st.points.ended here awake action other.symm asleep st.roster.unnumbered
  · exact st.budget.ended (fun t' num' => st.roster.once t' t n num' num)
      (st.roster.number t n num)

end OsDesign.Benchmark
