import OsDesign.Benchmark.Standing

/-!
The statements of the threads that run a function. Each of them comes back, leaves the
program standing well, and is an action of the thread under the ideal lock; where `unlock`
hands the mutex over, the lock of the thread that waited longest follows.
-/
namespace OsDesign.Benchmark

open Virt Pthread Code LockedSum

variable {κ ν σ : Type} {P : Program κ ν σ} {c : Client κ ν σ} {t : ThreadId} {n k : Nat}
  {s s' : σ} {l : Library} {m : κ → ν} {left : Nat → Nat}

theorem sum_update_lt {N : Nat} (mem : n < N) (less : k < left n) :
    ∑ j ∈ Finset.range N, Function.update left n k j < ∑ j ∈ Finset.range N, left j := by
  refine Finset.sum_lt_sum ?_ ⟨n, Finset.mem_range.mpr mem, by simpa using less⟩
  intro j _
  by_cases same : j = n
  · subst same
    simpa using less.le
  · simp [same]

theorem num_goTo (s' : σ) (l : Library) (m : κ → ν) (here : c.worker t = some (n, s)) :
    (Client.goTo t n s' { c with library := l, memory := m }).num = c.num := by
  funext t'
  by_cases same : t' = t
  · subst same
    simp [Client.num, Client.goTo, here]
  · simp [Client.num, Client.goTo, same]

theorem view_goTo (here : c.worker t = some (n, s)) :
    (Client.goTo t n s' { c with library := l, memory := m }).view = c.view := by
  simp only [Client.view, num_goTo s' l m here]
  rfl

/-- The points depend on the wait queue only. -/
theorem Points.congr {i : Par Nat κ ν σ} {a a' : Sched} (points : Points P c a i)
    (wait : a'.wait = a.wait) : Points P c a' i := by
  obtain ⟨memory, here, waiting, unborn, gone⟩ := points
  refine ⟨memory, ?_, ?_, unborn, gone⟩
  · rw [wait]
    exact here
  · rw [wait]
    exact waiting

/-- It has made its lock, under the ideal lock as well. -/
theorem Points.handedOver {i : Par Nat κ ν σ} {a a' : Sched}
    (points : Points P c a i) (here : c.worker t = some (n, s))
    (once : ∀ t', c.num t' = some n → t' = t) (born : n < c.main.created P.threadNum)
    (nodup : a.wait.Nodup) (wait : a'.wait = a.wait.erase t) (holder : Option Nat) :
    Points P c a' { i.goTo n s with holder := holder } := by
  have number : ∀ t' n' s₁, t' ≠ t → c.worker t' = some (n', s₁) → n' ≠ n := by
    rintro t' n' s₁ other here' rfl
    exact other (once t' (num_of_worker here'))
  have waits : ∀ t', t' ∈ a'.wait ↔ t' ≠ t ∧ t' ∈ a.wait := by
    intro t'
    rw [wait, nodup.mem_erase_iff]
  refine ⟨points.memory, ?_, ?_, ?_, ?_⟩
  · intro t' n' s₁ here' awake'
    by_cases same : t' = t
    · subst same
      obtain ⟨rfl, rfl⟩ : n = n' ∧ s = s₁ := by simpa [here] using here'
      exact Par.goTo_self ..
    · refine (Par.goTo_of_ne i s (number t' n' s₁ same here')).trans ?_
      exact points.here t' n' s₁ here' fun h => awake' ((waits t').mpr ⟨same, h⟩)
  · intro t' n' s₁ here' waits'
    obtain ⟨same, before⟩ := (waits t').mp waits'
    change P.code n' ((i.goTo n s).point n') = _
    rw [Par.goTo_of_ne i s (number t' n' s₁ same here')]
    exact points.waiting t' n' s₁ here' before
  · intro k unborn mem
    have other : k ≠ n := fun same => absurd born (Nat.not_lt.mpr (same ▸ unborn))
    exact (Par.goTo_of_ne i s other).trans (points.unborn k unborn mem)
  · intro k created gone
    have other : k ≠ n := by
      rintro rfl
      exact gone t (num_of_worker here)
    change P.code k ((i.goTo n s).point k) = _
    rw [Par.goTo_of_ne i s other]
    exact points.gone k created gone

variable [DecidableEq κ]

/-- The threads make actions under the ideal lock. -/
def Behind (P : Program κ ν σ) (i i' : Par Nat κ ν σ) : Prop :=
  ∃ ns, Runs.Steps (fun _ n => n ∈ Finset.range P.threadNum) (LockedSum.Step P.code) i ns i'

theorem Behind.refl (i : Par Nat κ ν σ) : Behind P i i := ⟨[], .nil i⟩

theorem Behind.single {i' : Par Nat κ ν σ} (mem : n ∈ Finset.range P.threadNum)
    (step : LockedSum.Step P.code i n i') : Behind P i i' :=
  ⟨[n], .single mem step⟩

theorem Behind.trans {i' i'' : Par Nat κ ν σ} (first : Behind P i i')
    (second : Behind P i' i'') : Behind P i i'' := by
  obtain ⟨ns, run⟩ := first
  obtain ⟨ns', run'⟩ := second
  exact ⟨ns ++ ns', run.append run'⟩

variable [AddCommMonoid ν] {o : Outline P.code P.acc} {total : ν} {main : ThreadId}
  {g : Shadow κ ν σ} {u : Unspecified} {a : Sched} {i : Par Nat κ ν σ}

/-- A statement is made: the program stands well behind it, and less is left of it. -/
def Advances (P : Program κ ν σ) (o : Outline P.code P.acc) (total : ν) (main : ThreadId)
    (g : Shadow κ ν σ) (c c' : Client κ ν σ) : Prop :=
  ∃ g', Standing P o total main c' g' ∧ rank P c' g'.left < rank P c g.left ∧
    Behind P g.par g'.par

theorem Budget.moved (budget : Budget P o c left) (st : Standing P o total main c g)
    (here : c.worker t = some (n, s)) :
    Budget P o (Client.goTo t n s' { c with library := l, memory := m })
      (Function.update left n (o.fuel n s' + 1)) := by
  have num : c.num t = some n := num_of_worker here
  refine ⟨?_, ?_⟩
  · intro t' n' s₁ here'
    by_cases same : t' = t
    · subst same
      simp only [Client.goTo, Function.update_self, Option.some.injEq, Prod.mk.injEq] at here'
      obtain ⟨rfl, rfl⟩ := here'
      simp
    · simp only [Client.goTo, Function.update_of_ne same] at here'
      have other : n' ≠ n := by
        rintro rfl
        exact same (st.roster.once t' t n' (num_of_worker here') num)
      rw [Function.update_of_ne other]
      exact budget.live t' n' s₁ here'
  · intro k unborn mem
    have born : n < c.main.created P.threadNum := st.roster.number t n num
    have other : k ≠ n := fun same => absurd born (Nat.not_lt.mpr (same ▸ unborn))
    rw [Function.update_of_ne other]
    exact budget.unborn k unborn mem

/-- The thread that runs is at its next point, and the others are where they were. -/
theorem Points.moved (st : Standing P o total main c g) (here : c.worker t = some (n, s))
    (awake : t ∉ g.lists.wait) (point : i.point = (g.par.goTo n s').point)
    (memory : i.memory = m) :
    Points P (Client.goTo t n s' { c with library := l, memory := m }) g.lists i := by
  have num : c.num t = some n := num_of_worker here
  have others : ∀ t' n' s₁, t' ≠ t → c.worker t' = some (n', s₁) → n' ≠ n := by
    rintro t' n' s₁ other here' rfl
    exact other (st.roster.once t' t n' (num_of_worker here') num)
  have born : n < c.main.created P.threadNum := st.roster.number t n num
  refine ⟨memory, ?_, ?_, ?_, ?_⟩ <;> rw [point]
  · intro t' n' s₁ here' awake'
    by_cases same : t' = t
    · subst same
      simp only [Client.goTo, Function.update_self, Option.some.injEq, Prod.mk.injEq] at here'
      obtain ⟨rfl, rfl⟩ := here'
      exact Par.goTo_self ..
    · simp only [Client.goTo, Function.update_of_ne same] at here'
      exact (Par.goTo_of_ne g.par s' (others t' n' s₁ same here')).trans
        (st.points.here t' n' s₁ here' awake')
  · intro t' n' s₁ here' waits
    have same : t' ≠ t := fun same => awake (same ▸ waits)
    simp only [Client.goTo, Function.update_of_ne same] at here'
    rw [Par.goTo_of_ne g.par s' (others t' n' s₁ same here')]
    exact st.points.waiting t' n' s₁ here' waits
  · intro k unborn mem
    have other : k ≠ n := fun same => absurd born (Nat.not_lt.mpr (same ▸ unborn))
    exact (Par.goTo_of_ne g.par s' other).trans (st.points.unborn k unborn mem)
  · intro k created gone
    have same : ∀ t', c.num t' ≠ some k := by
      intro t' num'
      exact gone t' ((congrFun (num_goTo s' l m here) t').trans num')
    have other : k ≠ n := by
      rintro rfl
      exact same t num
    rw [Par.goTo_of_ne g.par s' other]
    exact st.points.gone k created same

/-- The thread that runs has made an action, whatever the library did. -/
theorem Standing.moved (st : Standing P o total main c g) (here : c.worker t = some (n, s))
    (less : o.fuel n s' < o.fuel n s) (wf : l.WellFormed) (lists : a.Alike l.sched)
    (running : ∃ t, a.current = some t) (live : a.live = g.lists.live)
    (entries : Entries P.threadNum c.view a) (waiting : Waiting P.threadNum main c.view a)
    (counted : Counted c.view a i.holder)
    (points : Points P (Client.goTo t n s' { c with library := l, memory := m }) a i)
    (ideal : o.Inv (Finset.range P.threadNum) total i) (behind : Behind P g.par i) :
    Advances P o total main g c
      (Client.goTo t n s' { c with library := l, memory := m }) := by
  have view : (Client.goTo t n s' { c with library := l, memory := m }).view = c.view :=
    view_goTo here
  have roster : Roster P.threadNum main c.view a :=
    { st.roster with live := live ▸ st.roster.live }
  refine ⟨⟨a, i, Function.update g.left n (o.fuel n s' + 1)⟩, ?_, ?_, behind⟩
  · rw [← view] at entries waiting counted roster
    exact ⟨wf, lists, running, roster, entries, waiting, counted, points, ideal,
      st.budget.moved st here, st.printed, st.idle⟩
  · have budget : g.left n = o.fuel n s + 1 := st.budget.live t n s here
    have lt : o.fuel n s' + 1 < g.left n := by omega
    have sum := sum_update_lt (st.number_lt (num_of_worker here)) lt
    change c.main.rank P.threadNum + _ < c.main.rank P.threadNum + _
    exact Nat.add_lt_add_left sum _

theorem countAndWait_parked {a : Sched} {h : Nat} {next : ThreadId} {rest : List ThreadId}
    (range : h < Pthread.maxMutexNum) (used : (a.table h).used = true)
    (count : (a.table h).count ≠ 0) (running : a.current = some t)
    (ready : a.ready = next :: rest) :
    a.countAndWait h = .ok ({ a.counted t h with
      current := some next, ready := rest, wait := a.wait ++ [t] }, ⟨0, none⟩) := by
  have swap : (a.counted t h).swap t = { a.counted t h with
      current := some next, ready := rest, wait := a.wait ++ [t] } := by
    simp [Sched.swap, Sched.counted, ready]
  rw [Sched.countAndWait, if_neg (Nat.not_le.mpr range), if_neg (by simp [used]), if_neg count]
  simp only [running, swap]

/-- The count of the mutex is no part of what the entries say. -/
theorem Entries.setMutex {N : Nat} {v : View} {a a' : Sched} (entries : Entries N v a)
    (locking : v.main.locking = true) {k : BitVec 32} (tid : a'.tid = a.tid)
    (table : a'.table = a.table.setCount v.mutex k) : Entries N v a' := by
  have apart := (entries.mutex locking).2.2
  have kept : ∀ t n, v.num t = some n → a'.table (a'.tid t) = a.table (a.tid t) := by
    intro t n num
    rw [table, tid]
    exact MutexTable.setCount_of_ne _ _ (apart t n num)
  refine ⟨?_, ?_, ?_, ?_, ?_, ?_, ?_, entries.thread⟩
  · rw [tid]
    exact entries.tid
  · rw [tid]
    exact entries.range
  · intro t n num
    rw [kept t n num]
    exact entries.used t n num
  · intro t n num
    rw [kept t n num]
    exact entries.joins t n num
  · rw [tid]
    exact entries.apart
  · intro _
    obtain ⟨range, used, -⟩ := entries.mutex locking
    refine ⟨range, ?_, ?_⟩
    · rw [table, MutexTable.setCount_used]
      exact used
    · rw [tid]
      exact apart
  · intro h used
    rw [table, MutexTable.setCount_used] at used
    rw [tid]
    exact entries.others h used

theorem Waiting.congr {N : Nat} {v : View} {a a' : Sched} (waiting : Waiting N main v a)
    (wait : a'.wait = a.wait) (mu : a'.mu = a.mu) (tid : a'.tid = a.tid) :
    Waiting N main v a' := by
  obtain ⟨mutex, joining, joined⟩ := waiting
  refine ⟨?_, ?_, ?_⟩
  · rw [wait, mu]
    exact mutex
  · rw [wait, mu, tid]
    exact joining
  · rw [wait, mu, tid]
    exact joined

/-- A thread that runs a function goes to sleep for the mutex. -/
theorem Waiting.parked {N : Nat} {v : View} {a a' : Sched} (waiting : Waiting N main v a)
    (other : t ≠ main) (wait : a'.wait = a.wait ++ [t])
    (mu : a'.mu = Function.update a.mu t v.mutex) (tid : a'.tid = a.tid) :
    Waiting N main v a' := by
  have word : a'.mu main = a.mu main := by
    rw [mu, Function.update_of_ne (Ne.symm other)]
  have sleeps : main ∈ a'.wait ↔ main ∈ a.wait := by
    rw [wait, List.mem_append, List.mem_singleton]
    exact or_iff_left (Ne.symm other)
  refine ⟨?_, ?_, ?_⟩
  · intro t' waits other'
    by_cases same : t' = t
    · rw [same, mu, Function.update_self]
    · rw [mu, Function.update_of_ne same]
      rw [wait, List.mem_append, List.mem_singleton] at waits
      exact waiting.mutex t' (waits.resolve_right same) other'
  · rw [sleeps, word, tid]
    exact waiting.joining
  · rw [sleeps, word, tid]
    exact waiting.joined

/-- It stands behind its lock, and under the ideal lock in front of it. -/
theorem Points.parked (st : Standing P o total main c g) (here : c.worker t = some (n, s))
    (awake : t ∉ g.lists.wait) (action : P.code n (g.par.point n) = .lock s')
    (wait : a.wait = g.lists.wait ++ [t]) :
    Points P (Client.goTo t n s' { c with library := l }) a g.par := by
  have waits : ∀ t', t' ≠ t → (t' ∈ a.wait ↔ t' ∈ g.lists.wait) := by
    intro t' other
    rw [wait, List.mem_append, List.mem_singleton]
    exact or_iff_left other
  have last : t ∈ a.wait := by
    rw [wait]
    exact List.mem_append_right _ (List.mem_singleton_self t)
  refine ⟨st.points.memory, ?_, ?_, st.points.unborn, ?_⟩
  · intro t' n' s₁ here' awake'
    have same : t' ≠ t := fun same => awake' (same ▸ last)
    simp only [Client.goTo, Function.update_of_ne same] at here'
    exact st.points.here t' n' s₁ here' fun h => awake' ((waits t' same).mpr h)
  · intro t' n' s₁ here' waits'
    by_cases same : t' = t
    · subst same
      simp only [Client.goTo, Function.update_self, Option.some.injEq, Prod.mk.injEq] at here'
      obtain ⟨rfl, rfl⟩ := here'
      exact action
    · simp only [Client.goTo, Function.update_of_ne same] at here'
      exact st.points.waiting t' n' s₁ here' ((waits t' same).mp waits')
  · intro k created gone
    have nums := num_goTo s' l c.memory here
    exact st.points.gone k created fun t' num => gone t' ((congrFun nums t').trans num)

/-- The thread that waited longest for the mutex becomes ready. -/
theorem Waiting.handedOver {N : Nat} {v : View} {a a' : Sched} (waiting : Waiting N main v a)
    (other : t ≠ main) (nodup : a.wait.Nodup) (wait : a'.wait = a.wait.erase t)
    (mu : a'.mu = a.mu) (tid : a'.tid = a.tid) : Waiting N main v a' := by
  have sleeps : main ∈ a'.wait ↔ main ∈ a.wait := by
    rw [wait, nodup.mem_erase_iff]
    exact and_iff_right (Ne.symm other)
  refine ⟨?_, ?_, ?_⟩
  · intro t' waits other'
    rw [wait] at waits
    rw [mu]
    exact waiting.mutex t' (List.mem_of_mem_erase waits) other'
  · rw [sleeps, mu, tid]
    exact waiting.joining
  · rw [sleeps, mu, tid]
    exact waiting.joined

/-- A statement that is no call of the library. -/
theorem Standing.plain (st : Standing P o total main c g) (running : g.lists.current = some t)
    (here : c.worker t = some (n, s))
    (action : (P.code n s).plain c.memory = some (s', m)) :
    Advances P o total main g c (Client.goTo t n s' { c with memory := m }) := by
  have awake := st.partition.running_not_waiting running
  have mem := Finset.mem_range.mpr (st.number_lt (num_of_worker here))
  have point := st.points.here t n s here awake
  have action' : (P.code n (g.par.point n)).plain g.par.memory = some (s', m) := by
    rw [point, st.points.memory]
    exact action
  have less := (o.moved action' (st.ideal.valid n mem)).2.2.2
  rw [point] at less
  have step : LockedSum.Step P.code g.par n { g.par.goTo n s' with memory := m } := .plain action'
  exact st.moved (i := { g.par.goTo n s' with memory := m }) here less st.wf st.lists st.running
    rfl st.entries st.waiting st.counted (Points.moved st here awake rfl rfl)
    (st.ideal.step mem step) (.single mem step)

section

variable {v : View} {a a' : Sched} {holder : Option Nat}

theorem Counted.congr (counted : Counted v a holder) (table : a'.table v.mutex = a.table v.mutex)
    (waiters : a'.waiters v.mutex = a.waiters v.mutex) : Counted v a' holder := by
  obtain ⟨free, held⟩ := counted
  refine ⟨?_, ?_⟩
  · rw [waiters, table]
    exact free
  · rw [waiters, table]
    exact held

theorem Counted.took (counted : Counted v a none) (locking : v.main.locking = true)
    (wait : a'.wait = a.wait) (mu : a'.mu = a.mu)
    (table : a'.table = a.table.setCount v.mutex ((a.table v.mutex).count + 1)) :
    Counted v a' (some n) := by
  obtain ⟨alone, count⟩ := counted.free rfl
  have waiters := Sched.waiters_congr wait (fun t _ => congrFun mu t) v.mutex
  refine ⟨(fun none => by cases none), fun _ _ => ?_⟩
  rw [waiters, alone, table, MutexTable.setCount_count_self, count locking]
  rfl

theorem Counted.parked (counted : Counted v a (some n)) (part : a.Partition)
    (running : a.current = some t) (wait : a'.wait = a.wait ++ [t])
    (mu : a'.mu = Function.update a.mu t v.mutex)
    (table : a'.table = a.table.setCount v.mutex ((a.table v.mutex).count + 1)) :
    Counted v a' (some n) := by
  have waiters := Sched.waiters_parked part running wait mu v.mutex
  rw [if_pos rfl] at waiters
  refine ⟨(fun none => by cases none), fun _ _ => ?_⟩
  rw [waiters, table, MutexTable.setCount_count_self, counted.held n rfl, ofNat_succ]
  rfl

theorem Counted.unlocked (counted : Counted v a (some n)) (alone : a.waiters v.mutex = 0)
    (wait : a'.wait = a.wait) (mu : a'.mu = a.mu)
    (table : a'.table = a.table.setCount v.mutex ((a.table v.mutex).count - 1)) :
    Counted v a' none := by
  have waiters := Sched.waiters_congr wait (fun t _ => congrFun mu t) v.mutex
  have count := counted.held n rfl
  rw [alone] at count
  refine ⟨fun _ => ⟨waiters.trans alone, fun _ => ?_⟩, fun _ held => by cases held⟩
  rw [table, MutexTable.setCount_count_self, count]
  rfl

theorem Counted.handedOver (counted : Counted v a (some n)) (contended : 0 < a.waiters v.mutex)
    (wait : a'.wait = a.wait.eraseP (a.waitsOn v.mutex)) (mu : a'.mu = a.mu)
    (table : a'.table = a.table.setCount v.mutex ((a.table v.mutex).count - 1)) :
    Counted v a' (some k) := by
  have waiters := Sched.waiters_released wait mu v.mutex
  rw [if_pos ⟨rfl, contended⟩] at waiters
  have count := counted.held n rfl
  rw [← waiters, Nat.add_comm] at count
  refine ⟨(fun none => by cases none), fun _ _ => ?_⟩
  rw [table, MutexTable.setCount_count_self, count, ofNat_pred, Nat.add_comm]

end

/-- A lock that finds the mutex free. -/
theorem Standing.lock_free (st : Standing P o total main c g)
    (running : g.lists.current = some t) (here : c.worker t = some (n, s))
    (action : P.code n s = .lock s') (free : g.par.holder = none) (u : Unspecified) :
    ∃ c', (c.calls u (.lock c.mutex) fun _ c => c.goTo t n s') = .ok c' ∧
      Advances P o total main g c c' := by
  have num := num_of_worker here
  have awake := st.partition.running_not_waiting running
  have mem := Finset.mem_range.mpr (st.number_lt num)
  have point := st.points.here t n s here awake
  have locking := st.locking num
  obtain ⟨range, used, -⟩ := st.entries.mutex locking
  obtain ⟨alone, count⟩ := st.counted.free free
  have action' : P.code n (g.par.point n) = .lock s' := by
    rw [point]
    exact action
  have less := (o.locked action' (st.ideal.valid n mem)).2.2.2.2
  rw [point] at less
  have taken := Sched.countAndWait_taken range used (count locking)
  obtain ⟨l, r, hcall, -, wf, lists⟩ := st.call (e := .lock c.mutex) trivial u taken
  have step : LockedSum.Step P.code g.par n { g.par.goTo n s' with holder := some n } :=
    .lock action' free
  refine ⟨_, by rw [Client.calls, hcall]; rfl, ?_⟩
  refine st.moved (m := c.memory) (i := { g.par.goTo n s' with holder := some n }) here less wf
    lists st.running rfl (st.entries.setMutex locking rfl rfl) (st.waiting.congr rfl rfl rfl) ?_ ?_
    (st.ideal.step mem step) (.single mem step)
  · have counted : Counted c.view g.lists none := by
      rw [← free]
      exact st.counted
    exact counted.took locking rfl rfl rfl
  · exact Points.congr (a := g.lists) (Points.moved st here awake rfl st.points.memory) rfl

/-- A lock that waits: the mutex is held, and its holder is ready. -/
theorem Standing.lock_held (st : Standing P o total main c g) (few : P.threadNum ≤ 30)
    (running : g.lists.current = some t) (here : c.worker t = some (n, s))
    (action : P.code n s = .lock s') (held : g.par.holder = some k) (u : Unspecified) :
    ∃ c', (c.calls u (.lock c.mutex) fun _ c => c.goTo t n s') = .ok c' ∧
      Advances P o total main g c c' := by
  have num := num_of_worker here
  have part := st.partition
  have awake := part.running_not_waiting running
  have mem := Finset.mem_range.mpr (st.number_lt num)
  have point := st.points.here t n s here awake
  have locking := st.locking num
  obtain ⟨range, used, -⟩ := st.entries.mutex locking
  have action' : P.code n (g.par.point n) = .lock s' := by
    rw [point]
    exact action
  obtain ⟨unheld, -, -, -, less⟩ := o.locked action' (st.ideal.valid n mem)
  rw [point] at less
  have other : ∀ n', c.num t = some n' → g.par.holder ≠ some n' := by
    intro n' num' mine
    obtain rfl : n = n' := Option.some.inj (num.symm.trans num')
    rw [(st.ideal.holder n mem).mp mine] at unheld
    cases unheld
  obtain ⟨t', num', -⟩ := st.holder_thread held
  have apart : t' ≠ t := by
    rintro rfl
    exact other k num' held
  obtain ⟨next, rest, ready⟩ := st.ready_of_live running other num' apart
  have waits := countAndWait_parked range used (st.count_ne_zero few held) running ready
  obtain ⟨l, r, hcall, -, wf, lists⟩ := st.call (e := .lock c.mutex) trivial u waits
  refine ⟨_, by rw [Client.calls, hcall]; rfl, ?_⟩
  refine st.moved (m := c.memory) (i := g.par) here less wf lists ⟨next, rfl⟩ rfl
    (st.entries.setMutex locking rfl rfl) ?_ ?_ ?_ st.ideal (.refl g.par)
  · exact st.waiting.parked (st.ne_main num) rfl rfl rfl
  · rw [held]
    have counted : Counted c.view g.lists (some k) := by
      rw [← held]
      exact st.counted
    exact counted.parked part running rfl rfl rfl
  · exact Points.parked st here awake action' rfl

theorem unlock_last {a : Sched} {h : Nat} (range : h < Pthread.maxMutexNum)
    (used : (a.table h).used = true) (count : (a.table h).count = 1) :
    a.unlock h =
      .ok ({ a with table := a.table.setCount h ((a.table h).count - 1) }, ⟨0, none⟩) := by
  have nonzero : ¬ (a.table h).count = 0 := by
    rw [count]
    decide
  rw [Sched.unlock, if_neg (Nat.not_le.mpr range), if_neg (by simp [used]), if_neg nonzero]
  simp only [if_pos count]

theorem unlock_contended {a : Sched} {h : Nat} (range : h < Pthread.maxMutexNum)
    (used : (a.table h).used = true) (nonzero : (a.table h).count ≠ 0)
    (several : (a.table h).count ≠ 1) :
    a.unlock h = .ok ({ a.release h with
      table := a.table.setCount h ((a.table h).count - 1) }, ⟨0, none⟩) := by
  rw [Sched.unlock, if_neg (Nat.not_le.mpr range), if_neg (by simp [used]), if_neg nonzero]
  simp only [if_neg several]

/-- An unlock by the holder: the mutex is free, or the next thread has it. -/
theorem Standing.unlock (st : Standing P o total main c g) (few : P.threadNum ≤ 30)
    (running : g.lists.current = some t) (here : c.worker t = some (n, s))
    (action : P.code n s = .unlock s') (u : Unspecified) :
    ∃ c', (c.calls u (.unlock c.mutex) fun _ c => c.goTo t n s') = .ok c' ∧
      Advances P o total main g c c' := by
  have num := num_of_worker here
  have part := st.partition
  have awake := part.running_not_waiting running
  have mem := Finset.mem_range.mpr (st.number_lt num)
  have point := st.points.here t n s here awake
  have locking := st.locking num
  obtain ⟨range, used, -⟩ := st.entries.mutex locking
  have action' : P.code n (g.par.point n) = .unlock s' := by
    rw [point]
    exact action
  obtain ⟨holds, -, -, -, less⟩ := o.unlocked action' (st.ideal.valid n mem)
  rw [point] at less
  have held := (st.ideal.holder n mem).mpr holds
  have counted : Counted c.view g.lists (some n) := by
    rw [← held]
    exact st.counted
  have step : LockedSum.Step P.code g.par n { g.par.goTo n s' with holder := none } :=
    .unlock action' held
  have count : (g.lists.table c.mutex).count =
      BitVec.ofNat 32 (1 + g.lists.waiters c.mutex) := counted.held n rfl
  by_cases alone : g.lists.waiters c.mutex = 0
  · rw [alone] at count
    obtain ⟨l, r, hcall, -, wf, lists⟩ :=
      st.call (e := .unlock c.mutex) trivial u (unlock_last range used count)
    refine ⟨_, by rw [Client.calls, hcall]; rfl, ?_⟩
    refine st.moved (m := c.memory) (i := { g.par.goTo n s' with holder := none }) here less wf
      lists st.running rfl (st.entries.setMutex locking rfl rfl) (st.waiting.congr rfl rfl rfl) ?_
      ?_ (st.ideal.step mem step) (.single mem step)
    · exact counted.unlocked alone rfl rfl rfl
    · exact Points.congr (a := g.lists) (Points.moved st here awake rfl st.points.memory) rfl
  · have contended : 0 < g.lists.waiters c.mutex := Nat.pos_of_ne_zero alone
    have several : (g.lists.table c.mutex).count ≠ 1 := by
      have le := st.waiters_le c.mutex
      rw [count]
      intro one
      have nat := congrArg BitVec.toNat one
      rw [BitVec.toNat_ofNat, Nat.mod_eq_of_lt (by omega)] at nat
      simp at nat
      omega
    obtain ⟨l, r, hcall, -, wf, lists⟩ := st.call (e := .unlock c.mutex) trivial u
      (unlock_contended range used (st.count_ne_zero few held) several)
    cases found : g.lists.wait.find? (g.lists.waitsOn c.mutex) with
    | none => exact absurd ((g.lists.find?_eq_none_iff c.mutex).mp found) alone
    | some w =>
        have waits := List.mem_of_find?_eq_some found
        have word : g.lists.mu w = c.mutex := by
          have test : g.lists.waitsOn c.mutex w = true := List.find?_some found
          exact (beq_iff_eq.mp test).symm
        have other := st.ne_main_of_waits waits word locking
        obtain ⟨k, num'⟩ := st.num_of_waiting waits other
        obtain ⟨s₁, here'⟩ := num_eq_some.mp num'
        have apart : w ≠ t := fun same => awake (same ▸ waits)
        have wait := TailQueue.eraseP_eq_erase found
        -- the unlock, and the lock that it lets through
        have points : Points P (Client.goTo t n s' { c with library := l }) g.lists
            { g.par.goTo n s' with holder := none } :=
          Points.moved st here awake rfl st.points.memory
        have here₁ : (Client.goTo t n s' { c with library := l }).worker w = some (k, s₁) := by
          simpa [Client.goTo, apart] using here'
        have lock := points.waiting w k s₁ here₁ waits
        have mem' := Finset.mem_range.mpr (st.number_lt num')
        have step' : LockedSum.Step P.code { g.par.goTo n s' with holder := none } k
            { ({ g.par.goTo n s' with holder := none } : Par Nat κ ν σ).goTo k s₁ with
              holder := some k } := .lock lock rfl
        have once : ∀ t', (Client.goTo t n s' { c with library := l }).num t' = some k →
            t' = w := by
          intro t' num₁
          have nums := congrFun (num_goTo s' l c.memory here) t'
          exact st.roster.once t' w k (nums.symm.trans num₁) num'
        refine ⟨_, by rw [Client.calls, hcall]; rfl, ?_⟩
        refine st.moved (m := c.memory) (i := { ({ g.par.goTo n s' with holder := none } :
          Par Nat κ ν σ).goTo k s₁ with holder := some k }) here less wf lists st.running rfl
          (st.entries.setMutex locking rfl rfl) ?_ ?_ ?_ ((st.ideal.step mem step).step mem' step')
          ((Behind.single mem step).trans (.single mem' step'))
        · exact st.waiting.handedOver other part.wait_nodup wait rfl rfl
        · exact counted.handedOver contended rfl rfl rfl
        · exact points.handedOver here₁ once (st.roster.number w k num') part.wait_nodup wait _

end OsDesign.Benchmark
