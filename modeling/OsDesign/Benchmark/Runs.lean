import OsDesign.Benchmark.MainThread

/-!
The runs of a program of `Benchmark/`: a statement of the thread that runs always comes
back, there are so many statements in a run and no more, and what `main` prints is the sum.
-/
namespace OsDesign.Benchmark

open Virt Pthread Code LockedSum

variable {κ ν σ : Type} [DecidableEq κ] [AddCommMonoid ν] {P : Program κ ν σ}
  {o : Outline P.code P.acc} {total : ν} {main t : ThreadId} {c c' : Client κ ν σ}
  {g : Shadow κ ν σ} {n : Nat} {s : σ} {u : Unspecified} {ti : ThreadId}

/-- The next action of a thread that runs a function. -/
theorem Standing.workerAct (st : Standing P o total main c g) (few : P.threadNum ≤ 30)
    (running : g.lists.current = some t) (here : c.worker t = some (n, s)) :
    ∃ c', c.workerAct P u t n s = .ok c' ∧ Advances P o total main g c c' := by
  rw [Client.workerAct]
  cases action : P.code n s with
  | silent next =>
      refine ⟨_, rfl, st.plain running here ?_⟩
      rw [action]
      rfl
  | lock next =>
      cases held : g.par.holder with
      | none => exact st.lock_free running here action held u
      | some k => exact st.lock_held few running here action held u
  | unlock next => exact st.unlock few running here action u
  | read var next =>
      refine ⟨_, rfl, st.plain running here ?_⟩
      rw [action]
      rfl
  | write var value next =>
      refine ⟨_, rfl, st.plain running here ?_⟩
      rw [action]
      rfl
  | stop => exact st.exit running here action u

/-- The next statement of `main`. -/
theorem Standing.mainAct (st : Standing P o total main c g) (few : P.threadNum ≤ 30)
    (running : g.lists.current = some main) (unfinished : c.main ≠ .finished)
    (fresh : c.library.live ti = false) :
    ∃ c', c.mainAct P u ti = .ok c' ∧ Advances P o total main g c c' := by
  rw [Client.mainAct]
  cases here : c.main with
  | mutexInit => exact st.mutexInit running here u
  | creating i =>
      by_cases more : i < P.threadNum
      · simp only [if_pos more]
        exact st.create few running here more fresh u
      · simp only [if_neg more]
        exact ⟨_, rfl, st.loopEnd running (.inl ⟨here, rfl⟩) more⟩
  | joining i =>
      by_cases more : i < P.threadNum
      · simp only [if_pos more]
        exact st.join few running here more u
      · simp only [if_neg more]
        exact ⟨_, rfl, st.loopEnd running (.inr ⟨here, rfl⟩) more⟩
  | printing => exact ⟨_, rfl, st.print running here⟩
  | destroying => exact st.destroy running here u
  | finished => exact absurd here unfinished

/-- The step rule: the thread that runs makes its statement. -/
theorem Standing.act (st : Standing P o total main c g) (few : P.threadNum ≤ 30)
    (unfinished : c.main ≠ .finished) (fresh : c.library.live ti = false) :
    ∃ c', c.act P u ti = .ok c' ∧ Advances P o total main g c c' := by
  obtain ⟨t, running⟩ := st.running
  have current : c.library.queues.current = some t := st.current_eq.trans running
  rw [Client.act]
  simp only [current]
  cases here : c.worker t with
  | none =>
      have live := st.partition.running_live running
      have isMain : t = main := by
        refine ((st.roster.live t).mp live).resolve_right ?_
        rintro ⟨n, num⟩
        obtain ⟨s, runs⟩ := num_eq_some.mp num
        cases here.symm.trans runs
      subst isMain
      exact st.mainAct few running unfinished fresh
  | some w =>
      obtain ⟨n, s⟩ := w
      exact st.workerAct few running here

/-- The timer: the next ready thread runs, and nothing else changes. -/
theorem Standing.tick (st : Standing P o total main c g) :
    ∃ c' g', c.turn P .tick = .ok c' ∧ Standing P o total main c' g' ∧
      rank P c' g'.left = rank P c g.left ∧ g'.par = g.par := by
  obtain ⟨l, r, hcall, -, wf, lists⟩ := st.call (e := .tick) trivial ⟨0, 0⟩ rfl
  refine ⟨{ c with library := l }, { g with lists := g.lists.schedule }, ?_, ?_, rfl, rfl⟩
  · rw [Client.turn, Client.calls, hcall]
    rfl
  have wait := g.lists.schedule_wait
  have mu := g.lists.schedule_mu
  have tid := g.lists.schedule_tid
  have table := g.lists.schedule_table
  refine ⟨wf, lists, ?_, ?_, ?_, st.waiting.congr wait mu tid, ?_, ?_, st.ideal,
    ⟨st.budget.live, st.budget.unborn⟩, st.printed, st.idle⟩
  · obtain ⟨t, running⟩ := st.running
    cases ready : g.lists.ready with
    | nil =>
        refine ⟨t, ?_⟩
        simp only [Sched.schedule, ready]
        exact running
    | cons next rest =>
        refine ⟨next, ?_⟩
        simp only [Sched.schedule, ready]
  · exact { st.roster with live := g.lists.schedule_live.symm ▸ st.roster.live }
  · obtain ⟨tids, range, used, joins, apart, mutex, others, thread⟩ := st.entries
    refine ⟨?_, ?_, ?_, ?_, ?_, ?_, ?_, thread⟩ <;> simp only [tid, table] <;> assumption
  · have waiters := Sched.waiters_congr wait (fun t _ => congrFun mu t) c.mutex
    have counted := st.counted.congr (congrFun table c.mutex) waiters
    exact ⟨counted.free, counted.held⟩
  · have points := st.points.congr wait
    exact ⟨points.memory, points.here, points.waiting, points.unborn, points.gone⟩

/-- The statements among the turns of a run. -/
def Turn.isAct : Turn → Bool
  | .tick => false
  | .act _ _ => true

/-- The run rule. -/
theorem Standing.steps {es : List Turn} (st : Standing P o total main c g)
    (few : P.threadNum ≤ 30) (run : Runs.Steps Client.Enabled (Client.Step P) c es c') :
    ∃ g', Standing P o total main c' g' ∧
      es.countP Turn.isAct + rank P c' g'.left ≤ rank P c g.left ∧ Behind P g.par g'.par := by
  induction run generalizing g with
  | nil c => exact ⟨g, st, by simp, .refl _⟩
  | @cons c c₁ c' e es permitted taken _ ih =>
      cases e with
      | tick =>
          obtain ⟨c₂, g₁, done, st₁, same, par⟩ := st.tick
          obtain rfl : c₂ = c₁ := Except.ok.inj (done.symm.trans taken)
          obtain ⟨g', st', count, behind⟩ := ih st₁
          refine ⟨g', st', ?_, par ▸ behind⟩
          rw [List.countP_cons_of_neg (by simp [Turn.isAct])]
          exact count.trans same.le
      | act u ti =>
          obtain ⟨c₂, done, g₁, st₁, less, first⟩ := st.act (u := u) few permitted.1 permitted.2
          obtain rfl : c₂ = c₁ := Except.ok.inj (done.symm.trans taken)
          obtain ⟨g', st', count, behind⟩ := ih st₁
          refine ⟨g', st', ?_, first.trans behind⟩
          rw [List.countP_cons_of_pos (by rfl)]
          omega

/-- Every function begins where its outline says, without the mutex. -/
structure Starts (P : Program κ ν σ) (o : Outline P.code P.acc) (memory : κ → ν) : Prop where
  valid : ∀ n, n < P.threadNum → o.valid n (P.begins n) memory
  idle : ∀ n, n < P.threadNum → o.holds n (P.begins n) = false

/-- What is in the sum, and what all functions have to add to it. -/
def totalOf (P : Program κ ν σ) (o : Outline P.code P.acc) (memory : κ → ν) : ν :=
  memory P.acc + ∑ n ∈ Finset.range P.threadNum, o.left n (P.begins n) memory

/-- The statements of a whole run: of `main`, and of the functions with their ends. -/
def statements (P : Program κ ν σ) (o : Outline P.code P.acc) : Nat :=
  2 * P.threadNum + 5 + ∑ n ∈ Finset.range P.threadNum, (o.fuel n (P.begins n) + 1)

theorem Client.Init.standing {memory : κ → ν} (init : c.Init memory main)
    (starts : Starts P o memory) :
    Standing P o (totalOf P o memory) main c
      ⟨c.library.sched, ⟨P.begins, memory, none⟩, fun n => o.fuel n (P.begins n) + 1⟩ := by
  have wait : c.library.sched.wait = [] := by
    simp only [Library.sched, Queues.wait, init.library.wait]
    rfl
  have nobody : ∀ t n, c.num t ≠ some n := by
    intro t n num
    simp [Client.num, init.worker] at num
  have unborn : c.main.created P.threadNum = 0 := by
    rw [init.main]
    rfl
  have unjoined : c.main.joined P.threadNum = 0 := by
    rw [init.main]
    rfl
  have unlocked : ¬ c.main.locking = true := by
    rw [init.main]
    exact Bool.false_ne_true
  refine ⟨.reachable (.start init.library), Library.alike_of_eq rfl, ⟨main, init.library.current⟩,
    ⟨?_, ?_, ?_, ?_, ?_, ?_⟩, ⟨?_, ?_, ?_, ?_, ?_, ?_, ?_, ?_⟩, ⟨?_, ?_, ?_⟩,
    ⟨fun _ => ⟨?_, ?_⟩, ?_⟩, ⟨init.memory.symm, ?_, ?_, fun n _ _ => rfl, ?_⟩, ⟨?_, ?_, ?_, rfl⟩,
    ⟨?_, fun n _ _ => rfl⟩, ?_, starts.idle⟩
  · exact Option.eq_none_iff_forall_ne_some.mpr (nobody main)
  · intro t
    change c.library.live t = true ↔ _
    rw [init.library.live]
    simp [Client.view, nobody]
  · exact fun t n num => absurd num (nobody t n)
  · exact fun t t' n num => absurd num (nobody t n)
  · exact unborn.trans_le (Nat.zero_le _)
  · exact unjoined.trans_le (Nat.zero_le _)
  · exact fun t n num => absurd num (nobody t n)
  · exact fun t n num => absurd num (nobody t n)
  · exact fun t n num => absurd num (nobody t n)
  · exact fun t n num => absurd num (nobody t n)
  · exact fun t t' n n' num => absurd num (nobody t n)
  · exact fun h => absurd h unlocked
  · intro h used
    change (c.library.gMutexTable h).used = true at used
    rw [init.library.gMutexTable] at used
    cases used
  · exact fun n born => absurd (born.trans_eq unborn) (Nat.not_lt_zero n)
  · exact fun t waits => absurd waits (wait ▸ List.not_mem_nil)
  · exact fun waits => absurd waits (wait ▸ List.not_mem_nil)
  · exact fun t n num => absurd num (nobody t n)
  · rw [Sched.waiters, wait]
    rfl
  · exact fun h => absurd h unlocked
  · exact fun n held => by cases held
  · exact fun t n s runs => absurd (num_of_worker runs) (nobody t n)
  · exact fun t n s runs => absurd (num_of_worker runs) (nobody t n)
  · exact fun n born => absurd (born.trans_eq unborn) (Nat.not_lt_zero n)
  · exact fun n mem => starts.valid n (Finset.mem_range.mp mem)
  · exact fun n held => by cases held
  · intro n mem
    rw [starts.idle n (Finset.mem_range.mp mem)]
    simp
  · exact fun t n s runs => absurd (num_of_worker runs) (nobody t n)
  · rw [init.printed, init.main]
    rfl

/-- `malloc` always has a block that no live thread has. -/
theorem Standing.exists_fresh (st : Standing P o total main c g) :
    ∃ ti, c.library.live ti = false := by
  obtain ⟨ti, notMem⟩ := Infinite.exists_notMem_finset g.lists.threads.toFinset
  refine ⟨ti, Bool.eq_false_iff.mpr fun live => notMem (List.mem_toFinset.mpr ?_)⟩
  rw [← st.live_eq] at live
  exact (st.partition.live ti).mpr live

/-- A run from the start: no statement fails, after at most `bound` of them the program is
at its end, and what it has printed by then is the total. -/
structure RunsWell (P : Program κ ν σ) (total : ν) (bound : Nat) (es : List Turn)
    (c : Client κ ν σ) : Prop where
  bounded : es.countP Turn.isAct ≤ bound
  ends : es.countP Turn.isAct = bound → c.main = .finished
  goesOn : ∀ e, c.Enabled e → ∃ c', c.Step P e c'
  printed : ∀ v, c.printed = some v → v = total
  finished : c.main = .finished → c.printed = some total

/-- Every run of a program whose functions keep to their outline, whatever the timer does. -/
theorem runsWell {memory : κ → ν} {es : List Turn} (few : P.threadNum ≤ 30)
    (starts : Starts P o memory) {c₀ : Client κ ν σ} (init : c₀.Init memory main)
    (run : Runs.Steps Client.Enabled (Client.Step P) c₀ es c) :
    RunsWell P (totalOf P o memory) (statements P o) es c := by
  obtain ⟨g, st, count, -⟩ := (init.standing starts).steps few run
  have all : rank P c₀ (fun n => o.fuel n (P.begins n) + 1) = statements P o := by
    rw [rank, init.main]
    rfl
  rw [all] at count
  refine ⟨(Nat.le_add_right _ _).trans count, ?_, ?_, ?_, ?_⟩
  · intro same
    by_contra unfinished
    obtain ⟨ti, fresh⟩ := st.exists_fresh
    obtain ⟨c', -, g', -, less, -⟩ := st.act (u := ⟨0, 0⟩) few unfinished fresh
    omega
  · intro e permitted
    cases e with
    | tick =>
        obtain ⟨c', -, done, -⟩ := st.tick
        exact ⟨c', done⟩
    | act u ti =>
        obtain ⟨c', done, -⟩ := st.act few permitted.1 permitted.2
        exact ⟨c', done⟩
  · intro v printed
    rw [st.printed] at printed
    split at printed
    · exact (Option.some.inj printed).symm
    · cases printed
  · intro finished
    rw [st.printed, finished]
    rfl

end OsDesign.Benchmark
