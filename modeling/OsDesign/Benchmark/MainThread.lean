import OsDesign.Benchmark.Ending
import Mathlib.Order.Interval.Finset.Nat

/-!
The statements of `main`. The table has an entry for the mutex and for each thread, so that
no creation fails; a join comes back when no thread with that handle lives, and what is
printed is the sum, because by then every thread has stopped.
-/
namespace OsDesign.Benchmark

open Virt Pthread Code LockedSum

variable {κ ν σ : Type} {P : Program κ ν σ} {c : Client κ ν σ} {main t t' : ThreadId} {n i : Nat}
  {s : σ} {l : Library} {N : Nat} {v : View} {a a' : Sched} {point : MainPoint}

/-- `main` goes on. -/
def View.goMain (point : MainPoint) (v : View) : View := { v with main := point }

theorem Roster.goMain (roster : Roster N main v a) (created : point.created N = v.main.created N)
    (joined : point.joined N ≤ N) : Roster N main (v.goMain point) a := by
  refine ⟨roster.unnumbered, roster.live, ?_, roster.once, ?_, joined⟩
  · intro t n num
    exact lt_of_lt_of_eq (roster.number t n num) created.symm
  · exact created.trans_le roster.created

theorem Entries.goMain (entries : Entries N v a) (created : point.created N = v.main.created N)
    (joined : v.main.joined N ≤ point.joined N) (locking : point.locking = v.main.locking) :
    Entries N (v.goMain point) a := by
  refine ⟨entries.tid, entries.range, entries.used, ?_, entries.apart, ?_, ?_, ?_⟩
  · intro t n num
    obtain ⟨pos, le⟩ := entries.joins t n num
    exact ⟨pos, le.trans (Nat.add_le_add_left joined 1)⟩
  · intro h
    exact entries.mutex (locking.symm.trans h)
  · intro h used
    rcases entries.others h used with ⟨here, isMutex⟩ | runs
    · exact .inl ⟨locking.trans here, isMutex⟩
    · exact .inr runs
  · intro n mem
    obtain ⟨range, unlike⟩ := entries.thread n (lt_of_lt_of_eq mem created)
    exact ⟨range, fun h => unlike (locking.symm.trans h)⟩

theorem Counted.goMain {holder : Option Nat} (counted : Counted v a holder)
    (locking : point.locking = v.main.locking) : Counted (v.goMain point) a holder := by
  refine ⟨fun none => ?_, counted.held⟩
  obtain ⟨alone, count⟩ := counted.free none
  exact ⟨alone, fun h => count (locking.symm.trans h)⟩

theorem Points.goMain {j : Par Nat κ ν σ} (points : Points P c a j)
    (created : point.created P.threadNum = c.main.created P.threadNum) (printed : Option ν) :
    Points P { c with library := l, main := point, printed := printed } a j := by
  refine ⟨points.memory, points.here, points.waiting, ?_, ?_⟩
  · intro n unborn
    exact points.unborn n (created.symm.trans_le unborn)
  · intro n born
    exact points.gone n (born.trans_eq created)

/-- The program behind the creation of a thread. -/
def born (P : Program κ ν σ) (c : Client κ ν σ) (i : Nat) (ti : ThreadId) (h : Nat)
    (l : Library) : Client κ ν σ :=
  { c with
    library := l
    thread := Function.update c.thread i h
    worker := Function.update c.worker ti (some (i, P.begins i))
    main := .creating (i + 1) }

theorem num_born {ti : ThreadId} {h : Nat} :
    (born P c i ti h l).num t = some n ↔ t = ti ∧ i = n ∨ t ≠ ti ∧ c.num t = some n := by
  by_cases same : t = ti
  · subst same
    simp [born, Client.num]
  · simp [born, Client.num, same]

theorem thread_born {ti : ThreadId} {h : Nat} : (born P c i ti h l).view.thread i = h := by
  simp [born, Client.view]

theorem thread_born_of_ne {ti : ThreadId} {h : Nat} (other : n ≠ i) :
    (born P c i ti h l).view.thread n = c.view.thread n := by
  simp [born, Client.view, other]

theorem worker_born {ti : ThreadId} {h k : Nat} {s : σ}
    (here : (born P c i ti h l).worker t = some (k, s)) :
    t = ti ∧ i = k ∧ P.begins i = s ∨ t ≠ ti ∧ c.worker t = some (k, s) := by
  by_cases same : t = ti
  · subst same
    simpa [born] using here
  · simpa [born, same] using here

theorem Points.join {j : Par Nat κ ν σ} (points : Points P c a j)
    (wait : a'.wait = a.wait ++ [main]) (unnumbered : c.num main = none) : Points P c a' j := by
  have waits : ∀ t w, c.worker t = some w → (t ∈ a'.wait ↔ t ∈ a.wait) := by
    rintro t w runs
    rw [wait, List.mem_append, List.mem_singleton]
    refine or_iff_left ?_
    rintro rfl
    simp [Client.num, runs] at unnumbered
  refine ⟨points.memory, ?_, ?_, points.unborn, points.gone⟩
  · intro t n s runs awake
    exact points.here t n s runs fun asleep => awake ((waits t _ runs).mpr asleep)
  · intro t n s runs asleep
    exact points.waiting t n s runs ((waits t _ runs).mp asleep)

/-- A table with a free entry gives one out. -/
theorem allocMutex_ok {table : MutexTable} {h : Nat} (range : 1 ≤ h ∧ h < Pthread.maxMutexNum)
    (free : (table h).used = false) :
    ∃ k, (1 ≤ k ∧ k < Pthread.maxMutexNum) ∧ (table k).used = false ∧
      table.allocMutex = (Function.update table k ⟨true, 0⟩, some k) := by
  have test : (!(table (h - 1 + 1)).used) = true := by
    simp [Nat.sub_add_cancel range.1, free]
  have lt : h - 1 < Pthread.maxMutexNum - 1 := Nat.sub_lt_sub_right range.1 range.2
  obtain ⟨k, first⟩ := Loops.firstIndex_isSome (fun i => !(table (i + 1)).used) lt test
  have alloc : table.allocMutex = (Function.update table (k + 1) ⟨true, 0⟩, some (k + 1)) := by
    rw [MutexTable.allocMutex, first]
  obtain ⟨inTable, unused, -⟩ := MutexTable.allocMutex_eq_some alloc
  exact ⟨k + 1, inTable, unused, alloc⟩

theorem mutexInit_ok {h : Nat} (range : 1 ≤ h ∧ h < Pthread.maxMutexNum)
    (free : (a.table h).used = false) :
    ∃ k, k < Pthread.maxMutexNum ∧ a.mutexInit =
      .ok ({ a with table := Function.update a.table k ⟨true, 0⟩ }, ⟨0, some k⟩) := by
  obtain ⟨k, inTable, -, alloc⟩ := allocMutex_ok range free
  exact ⟨k, inTable.2, by rw [Sched.mutexInit, alloc]⟩

theorem create_ok (ti : ThreadId) {h : Nat} (range : 1 ≤ h ∧ h < Pthread.maxMutexNum)
    (free : (a.table h).used = false) :
    ∃ k, (1 ≤ k ∧ k < Pthread.maxMutexNum) ∧ (a.table k).used = false ∧ a.create ti = .ok ({ a with
      ready := a.ready ++ [ti]
      mu := Function.update a.mu ti 0
      tid := Function.update a.tid ti k
      table := Function.update a.table k ⟨true, 1⟩
      live := Function.update a.live ti true }, ⟨0, some k⟩) := by
  obtain ⟨k, inTable, unused, alloc⟩ := allocMutex_ok range free
  refine ⟨k, inTable, unused, ?_⟩
  have table : MutexTable.setCount (Function.update a.table k ⟨true, 0⟩) k 1 =
      Function.update a.table k ⟨true, 1⟩ := by
    simp [MutexTable.setCount]
  rw [Sched.create, alloc, ← table]

theorem Roster.newThread {ti : ThreadId} {h : Nat} (roster : Roster N main c.view a)
    (number : ∀ t n, c.num t = some n → n < i) (more : i < N) (unmain : ti ≠ main)
    (live : a'.live = Function.update a.live ti true) :
    Roster N main (born P c i ti h l).view a' := by
  refine ⟨?_, ?_, ?_, ?_, more, Nat.zero_le _⟩
  · refine Option.eq_none_iff_forall_ne_some.mpr fun n num => ?_
    rcases num_born.mp num with ⟨same, -⟩ | ⟨-, before⟩
    · exact unmain same.symm
    · cases (roster.unnumbered : c.num main = none).symm.trans before
  · intro t
    rw [live]
    by_cases new : t = ti
    · subst new
      simp only [Function.update_self, true_iff]
      exact .inr ⟨i, num_born.mpr (.inl ⟨rfl, rfl⟩)⟩
    · rw [Function.update_of_ne new, roster.live t]
      refine or_congr_right (exists_congr fun n => ?_)
      refine ⟨fun num => num_born.mpr (.inr ⟨new, num⟩), fun num => ?_⟩
      rcases num_born.mp num with ⟨same, -⟩ | ⟨-, before⟩
      · exact absurd same new
      · exact before
  · intro t n num
    rcases num_born.mp num with ⟨-, rfl⟩ | ⟨-, before⟩
    · exact Nat.lt_succ_self i
    · exact (number t n before).trans (Nat.lt_succ_self i)
  · intro t t' n num num'
    rcases num_born.mp num with ⟨isNew, same⟩ | ⟨-, before⟩
    · rcases num_born.mp num' with ⟨isNew', -⟩ | ⟨-, before'⟩
      · exact isNew.trans isNew'.symm
      · exact absurd (number t' n before') (same ▸ Nat.lt_irrefl i)
    · rcases num_born.mp num' with ⟨-, same⟩ | ⟨-, before'⟩
      · exact absurd (number t n before) (same ▸ Nat.lt_irrefl i)
      · exact roster.once t t' n before before'

/-- The entry of the new thread is counted once, and nobody has joined it. -/
theorem Entries.newThread {ti : ThreadId} {h : Nat} (entries : Entries N c.view a)
    (here : c.main = .creating i) (number : ∀ t n, c.num t = some n → n < i)
    (new : c.num ti = none) (range : 1 ≤ h ∧ h < Pthread.maxMutexNum)
    (free : (a.table h).used = false)
    (tid : a'.tid = Function.update a.tid ti h)
    (table : a'.table = Function.update a.table h ⟨true, 1⟩) :
    Entries N (born P c i ti h l).view a' := by
  have locking : c.main.locking = true := by
    rw [here]
    rfl
  obtain ⟨inTable, mutexUsed, mutexApart⟩ := entries.mutex locking
  have old : ∀ t n, c.num t = some n → a.tid t ≠ h := by
    rintro t n num rfl
    rw [entries.used t n num] at free
    cases free
  have mutexOther : c.mutex ≠ h := by
    rintro rfl
    have used : (a.table c.mutex).used = true := mutexUsed
    rw [used] at free
    cases free
  have keptTid : ∀ t, t ≠ ti → a'.tid t = a.tid t := fun t other => by
    rw [tid, Function.update_of_ne other]
  have keptTable : ∀ k, k ≠ h → a'.table k = a.table k := fun k other => by
    rw [table, Function.update_of_ne other]
  have newTid : a'.tid ti = h := by rw [tid, Function.update_self]
  have newTable : a'.table h = ⟨true, 1⟩ := by rw [table, Function.update_self]
  refine ⟨?_, ?_, ?_, ?_, ?_, ?_, ?_, ?_⟩
  · intro t n num
    rcases num_born.mp num with ⟨rfl, rfl⟩ | ⟨other, num⟩
    · exact newTid.trans thread_born.symm
    · refine (keptTid t other).trans ((entries.tid t n num).trans ?_)
      exact (thread_born_of_ne (number t n num).ne).symm
  · intro t n num
    rcases num_born.mp num with ⟨rfl, rfl⟩ | ⟨other, num⟩
    · rw [newTid]
      exact range
    · rw [keptTid t other]
      exact entries.range t n num
  · intro t n num
    rcases num_born.mp num with ⟨rfl, rfl⟩ | ⟨other, num⟩
    · rw [newTid, newTable]
    · rw [keptTid t other, keptTable _ (old t n num)]
      exact entries.used t n num
  · intro t n num
    rcases num_born.mp num with ⟨rfl, rfl⟩ | ⟨other, num⟩
    · rw [newTid, newTable]
      exact ⟨Nat.le_refl 1, Nat.le_add_right 1 _⟩
    · rw [keptTid t other, keptTable _ (old t n num)]
      obtain ⟨pos, le⟩ := entries.joins t n num
      have joined : c.view.main.joined N = 0 := by
        change c.main.joined N = 0
        rw [here]
        rfl
      rw [joined] at le
      exact ⟨pos, le⟩
  · intro t₁ t₂ n₁ n₂ num₁ num₂ same
    rcases num_born.mp num₁ with ⟨isNew₁, -⟩ | ⟨other₁, before₁⟩
    · rcases num_born.mp num₂ with ⟨isNew₂, -⟩ | ⟨other₂, before₂⟩
      · exact isNew₁.trans isNew₂.symm
      · rw [isNew₁, newTid, keptTid t₂ other₂] at same
        exact absurd same.symm (old t₂ n₂ before₂)
    · rcases num_born.mp num₂ with ⟨isNew₂, -⟩ | ⟨other₂, before₂⟩
      · rw [isNew₂, newTid, keptTid t₁ other₁] at same
        exact absurd same (old t₁ n₁ before₁)
      · rw [keptTid t₁ other₁, keptTid t₂ other₂] at same
        exact entries.apart t₁ t₂ n₁ n₂ before₁ before₂ same
  · intro _
    refine ⟨inTable, ?_, ?_⟩
    · change (a'.table c.mutex).used = true
      rw [keptTable _ mutexOther]
      exact mutexUsed
    · intro t n num
      rcases num_born.mp num with ⟨rfl, rfl⟩ | ⟨other, num⟩
      · rw [newTid]
        exact mutexOther.symm
      · rw [keptTid t other]
        exact mutexApart t n num
  · intro k used
    by_cases same : k = h
    · exact .inr ⟨ti, i, num_born.mpr (.inl ⟨rfl, rfl⟩), newTid.trans same.symm⟩
    · rw [keptTable k same] at used
      rcases entries.others k used with ⟨-, isMutex⟩ | ⟨t, n, num, isTid⟩
      · exact .inl ⟨rfl, isMutex⟩
      · have other : t ≠ ti := by
          rintro rfl
          cases new.symm.trans num
        exact .inr ⟨t, n, num_born.mpr (.inr ⟨other, num⟩), (keptTid t other).trans isTid⟩
  · intro n before
    by_cases same : n = i
    · subst same
      rw [thread_born]
      exact ⟨range.2, fun _ => mutexOther.symm⟩
    · have earlier : n < c.view.main.created N := by
        change n < c.main.created N
        rw [here]
        exact Nat.lt_of_le_of_ne (Nat.le_of_lt_succ before) same
      obtain ⟨low, unlike⟩ := entries.thread n earlier
      rw [thread_born_of_ne same]
      exact ⟨low, fun _ => unlike locking⟩

theorem Counted.newThread {ti : ThreadId} {h : Nat} {holder : Option Nat}
    (counted : Counted c.view a holder) (locking : c.main.locking = true) (unlike : c.mutex ≠ h)
    (awake : ti ∉ a.wait) (wait : a'.wait = a.wait) (mu : a'.mu = Function.update a.mu ti 0)
    (table : a'.table = Function.update a.table h ⟨true, 1⟩) :
    Counted (born P c i ti h l).view a' holder := by
  have entry : a'.table c.mutex = a.table c.mutex := by
    rw [table, Function.update_of_ne unlike]
  have waiters : a'.waiters c.mutex = a.waiters c.mutex := by
    refine Sched.waiters_congr wait (fun t waits => ?_) c.mutex
    have old : t ≠ ti := fun same => awake (same ▸ waits)
    rw [mu, Function.update_of_ne old]
  have same := counted.congr entry waiters
  exact ⟨fun free => ⟨(same.free free).1, fun _ => (same.free free).2 locking⟩, same.held⟩

theorem Points.newThread {j : Par Nat κ ν σ} {ti : ThreadId} {h : Nat} (points : Points P c a j)
    (here : c.main = .creating i) (more : i < P.threadNum) (new : c.num ti = none)
    (awake : ti ∉ a.wait) (wait : a'.wait = a.wait) : Points P (born P c i ti h l) a' j := by
  have created : c.main.created P.threadNum = i := by
    rw [here]
    rfl
  refine ⟨points.memory, ?_, ?_, ?_, ?_⟩
  · intro t n s runs awake'
    rcases worker_born runs with ⟨-, rfl, rfl⟩ | ⟨-, before⟩
    · exact points.unborn i created.le more
    · exact points.here t n s before (wait ▸ awake')
  · intro t n s runs waits
    rcases worker_born runs with ⟨rfl, -⟩ | ⟨-, before⟩
    · exact absurd (wait ▸ waits) awake
    · exact points.waiting t n s before (wait ▸ waits)
  · intro n unborn
    exact points.unborn n (created.trans_le ((Nat.le_succ i).trans unborn))
  · intro n before gone
    have other : n ≠ i := by
      rintro rfl
      exact gone ti (num_born.mpr (.inl ⟨rfl, rfl⟩))
    have earlier : n < i := Nat.lt_of_le_of_ne (Nat.le_of_lt_succ before) other
    refine points.gone n (earlier.trans_eq created.symm) fun t num => ?_
    refine gone t (num_born.mpr (.inr ⟨?_, num⟩))
    rintro rfl
    cases new.symm.trans num

variable [DecidableEq κ] [AddCommMonoid ν] {o : Outline P.code P.acc} {total : ν}
  {g : Shadow κ ν σ}

/-- While `main` runs, it waits for nobody, and the threads it has joined are gone. -/
theorem Standing.joined_gone (st : Standing P o total main c g)
    (running : g.lists.current = some main) (num : c.num t = some n) :
    c.main.joined P.threadNum ≤ n := by
  by_contra joined
  have waits := (st.waiting.joined t n num (Nat.lt_of_not_le joined)).1
  exact st.partition.running_not_waiting running waits

/-- A statement of `main` that leaves the lists alone. -/
theorem Standing.goMain {before : MainPoint} (point : MainPoint) (st : Standing P o total main c g)
    (running : g.lists.current = some main) (here : c.main = before) (wf : l.WellFormed)
    (lists : g.lists.Alike l.sched)
    (created : point.created P.threadNum = before.created P.threadNum)
    (joined : before.joined P.threadNum ≤ point.joined P.threadNum)
    (few : point.joined P.threadNum ≤ P.threadNum) (locking : point.locking = before.locking)
    (gone : ∀ t n, c.num t = some n → point.joined P.threadNum ≤ n) {printed : Option ν}
    (output : printed = if point.printed = true then some total else none)
    (less : point.rank P.threadNum < before.rank P.threadNum) :
    Advances P o total main g c { c with library := l, main := point, printed := printed } := by
  subst here
  have awake := st.partition.running_not_waiting running
  refine ⟨g, ⟨wf, lists, st.running, st.roster.goMain created few,
    st.entries.goMain created joined locking, ⟨st.waiting.mutex, ?_, ?_⟩,
    st.counted.goMain locking, st.points.goMain created printed, st.ideal, ⟨st.budget.live, ?_⟩,
    output, st.idle⟩, Nat.add_lt_add_right less _, .refl _⟩
  · exact fun waits => absurd waits awake
  · intro t n num before
    exact absurd before (Nat.not_lt.mpr (gone t n num))
  · intro n unborn
    exact st.budget.unborn n (created.symm.trans_le unborn)

/-- Before there is a function that runs, nobody holds the mutex. -/
theorem Standing.unheld (st : Standing P o total main c g) (none : ∀ t n, c.num t ≠ some n) :
    g.par.holder = .none := by
  refine Option.eq_none_iff_forall_ne_some.mpr fun n held => ?_
  obtain ⟨t, num, -⟩ := st.holder_thread held
  exact none t n num

theorem Standing.mutexInit (st : Standing P o total main c g)
    (running : g.lists.current = some main) (here : c.main = .mutexInit) (u : Unspecified) :
    ∃ c', (c.calls u .mutexInit fun r c =>
        { c with mutex := r.handle.getD c.mutex, main := .creating 0 }) = .ok c' ∧
      Advances P o total main g c c' := by
  have nobody : ∀ t n, c.num t ≠ some n := by
    intro t n num
    have born : n < c.main.created P.threadNum := st.roster.number t n num
    rw [here] at born
    cases born
  have unused : ∀ h, (g.lists.table h).used = false := by
    intro h
    refine Bool.eq_false_iff.mpr fun used => ?_
    rcases st.entries.others h used with ⟨locking, -⟩ | ⟨t, n, num, -⟩
    · have locking' : c.main.locking = true := locking
      rw [here] at locking'
      cases locking'
    · exact nobody t n num
  have asleep : g.lists.wait = [] := by
    refine List.eq_nil_iff_forall_not_mem.mpr fun t waits => ?_
    by_cases other : t = main
    · exact st.partition.running_not_waiting running (other ▸ waits)
    · obtain ⟨n, num⟩ := st.num_of_waiting waits other
      exact nobody t n num
  have unheld := st.unheld nobody
  obtain ⟨i, range, done⟩ := mutexInit_ok (h := 1) (by decide) (unused 1)
  obtain ⟨l, r, hcall, handle, wf, lists⟩ := st.call (e := .mutexInit) trivial u done
  refine ⟨{ c with library := l, mutex := i, main := .creating 0 }, ?_, ?_⟩
  · rw [Client.calls, hcall]
    simp only [Except.map, handle, Option.getD_some]
  have created : (MainPoint.creating 0).created P.threadNum = c.main.created P.threadNum := by
    rw [here]
    rfl
  have entry : Function.update g.lists.table i ⟨true, 0⟩ i = ⟨true, 0⟩ := Function.update_self ..
  refine ⟨{ g with lists := { g.lists with table := Function.update g.lists.table i ⟨true, 0⟩ } },
    ⟨wf, lists, st.running, ?_, ?_, ?_, ?_, ?_, st.ideal, ⟨st.budget.live, ?_⟩, ?_, st.idle⟩, ?_,
    .refl _⟩
  · exact ⟨st.roster.unnumbered, st.roster.live, fun t n num => absurd num (nobody t n),
      st.roster.once, Nat.zero_le _, Nat.zero_le _⟩
  · refine ⟨?_, ?_, ?_, ?_, ?_, ?_, ?_, ?_⟩
    · exact fun t n num => absurd num (nobody t n)
    · exact fun t n num => absurd num (nobody t n)
    · exact fun t n num => absurd num (nobody t n)
    · exact fun t n num => absurd num (nobody t n)
    · exact fun t t' n n' num => absurd num (nobody t n)
    · refine fun _ => ⟨range, ?_, fun t n num => absurd num (nobody t n)⟩
      exact congrArg MutexT.used entry
    · intro h used
      by_cases same : h = i
      · exact .inl ⟨rfl, same⟩
      · simp [same, unused h] at used
    · exact fun n born => absurd born (Nat.not_lt_zero n)
  · refine ⟨?_, ?_, fun t n num => absurd num (nobody t n)⟩
    · exact fun t waits => absurd waits (asleep ▸ List.not_mem_nil)
    · exact fun waits => absurd waits (asleep ▸ List.not_mem_nil)
  · refine ⟨fun _ => ⟨?_, fun _ => ?_⟩, fun n held => ?_⟩
    · change List.countP _ g.lists.wait = 0
      rw [asleep]
      rfl
    · exact congrArg MutexT.count entry
    · rw [unheld] at held
      cases held
  · refine ⟨st.points.memory, st.points.here, st.points.waiting, ?_, ?_⟩
    · exact fun n unborn => st.points.unborn n (created.symm.trans_le unborn)
    · exact fun n born => absurd born (Nat.not_lt_zero n)
  · exact fun n unborn => st.budget.unborn n (created.symm.trans_le unborn)
  · have printed := st.printed
    rw [here] at printed
    exact printed
  · refine Nat.add_lt_add_right ?_ _
    simp only [here, MainPoint.rank]
    omega

/-- An entry is free while a thread is still to be created. -/
theorem Standing.exists_free (st : Standing P o total main c g) (few : P.threadNum ≤ 30)
    (here : c.main = .creating i) (more : i < P.threadNum) :
    ∃ h, (1 ≤ h ∧ h < Pthread.maxMutexNum) ∧ (g.lists.table h).used = false := by
  by_contra full
  have runs : ∀ h ∈ (Finset.Icc 1 31).erase c.mutex,
      ∃ n t, c.num t = some n ∧ g.lists.tid t = h := by
    intro h mem
    obtain ⟨other, range⟩ := Finset.mem_erase.mp mem
    obtain ⟨low, high⟩ := Finset.mem_Icc.mp range
    have used : (g.lists.table h).used = true := by
      by_contra free
      exact full ⟨h, ⟨low, Nat.lt_succ_of_le high⟩, Bool.eq_false_iff.mpr free⟩
    rcases st.entries.others h used with ⟨-, isMutex⟩ | ⟨t, n, num, isTid⟩
    · exact absurd isMutex other
    · exact ⟨n, t, num, isTid⟩
  choose! number thread numbers using runs
  -- two entries for one number
  have card : (Finset.range i).card < ((Finset.Icc 1 31).erase c.mutex).card := by
    have erased := Finset.pred_card_le_card_erase (s := Finset.Icc 1 31) (a := c.mutex)
    rw [Nat.card_Icc] at erased
    rw [Finset.card_range]
    omega
  have maps : ∀ h ∈ (Finset.Icc 1 31).erase c.mutex, number h ∈ Finset.range i := by
    intro h mem
    have born : number h < c.main.created P.threadNum :=
      st.roster.number _ _ (numbers h mem).1
    rw [here] at born
    exact Finset.mem_range.mpr born
  obtain ⟨h, mem, h', mem', other, same⟩ := Finset.exists_ne_map_eq_of_card_lt_of_maps_to card maps
  obtain ⟨num, isTid⟩ := numbers h mem
  obtain ⟨num', isTid'⟩ := numbers h' mem'
  rw [← same] at num'
  have threads := st.roster.once _ _ _ num num'
  exact other (isTid.symm.trans ((congrArg g.lists.tid threads).trans isTid'))

theorem Budget.newThread {left : Nat → Nat} {ti : ThreadId} {h : Nat} (budget : Budget P o c left)
    (here : c.main = .creating i) (more : i < P.threadNum) :
    Budget P o (born P c i ti h l) left := by
  have created : c.main.created P.threadNum = i := by
    rw [here]
    rfl
  refine ⟨?_, ?_⟩
  · intro t n s runs
    rcases worker_born runs with ⟨-, rfl, rfl⟩ | ⟨-, before⟩
    · exact budget.unborn i created.le more
    · exact budget.live t n s before
  · intro n unborn
    exact budget.unborn n (created.trans_le ((Nat.le_succ i).trans unborn))

/-- `pthread_create` in a fresh block. -/
theorem Standing.create {ti : ThreadId} (st : Standing P o total main c g)
    (few : P.threadNum ≤ 30) (running : g.lists.current = some main)
    (here : c.main = .creating i) (more : i < P.threadNum) (fresh : c.library.live ti = false)
    (u : Unspecified) :
    ∃ c', (c.calls u (.create ti) fun r c =>
        { c with
          thread := Function.update c.thread i (r.handle.getD (c.thread i))
          worker := Function.update c.worker ti (some (i, P.begins i))
          main := .creating (i + 1) }) = .ok c' ∧ Advances P o total main g c c' := by
  have notLive : ¬ g.lists.live ti = true := by
    rw [st.live_eq, fresh]
    exact Bool.false_ne_true
  have unmain : ti ≠ main := fun same => notLive ((st.roster.live ti).mpr (.inl same))
  have new : c.num ti = none := by
    refine Option.eq_none_iff_forall_ne_some.mpr fun n num => ?_
    exact notLive ((st.roster.live ti).mpr (.inr ⟨n, num⟩))
  have awake : ti ∉ g.lists.wait := fun waits => notLive (st.partition.wait_live waits)
  have number : ∀ t n, c.num t = some n → n < i := by
    intro t n num
    have earlier : n < c.main.created P.threadNum := st.roster.number t n num
    rw [here] at earlier
    exact earlier
  obtain ⟨h₀, range₀, free₀⟩ := st.exists_free few here more
  obtain ⟨h, range, free, done⟩ := create_ok ti range₀ free₀
  obtain ⟨l, r, hcall, handle, wf, lists⟩ := st.call (e := .create ti) fresh u done
  refine ⟨born P c i ti h l, ?_, ?_⟩
  · rw [Client.calls, hcall]
    simp only [Except.map, handle, Option.getD_some]
    rfl
  have locking : c.main.locking = true := by
    rw [here]
    rfl
  have mutexUsed : (g.lists.table c.mutex).used = true := (st.entries.mutex locking).2.1
  have unlike : c.mutex ≠ h := by
    rintro rfl
    cases mutexUsed.symm.trans free
  have asleep : main ∉ g.lists.wait := st.partition.running_not_waiting running
  refine ⟨⟨{ g.lists with
      ready := g.lists.ready ++ [ti]
      mu := Function.update g.lists.mu ti 0
      tid := Function.update g.lists.tid ti h
      table := Function.update g.lists.table h ⟨true, 1⟩
      live := Function.update g.lists.live ti true }, g.par, g.left⟩,
    ⟨wf, lists, st.running, ?_, st.entries.newThread here number new range free rfl rfl, ?_, ?_,
      st.points.newThread here more new awake rfl, st.ideal, st.budget.newThread here more, ?_,
      st.idle⟩, ?_, .refl _⟩
  · exact st.roster.newThread number more unmain rfl
  · refine ⟨?_, fun waits => absurd waits asleep, ?_⟩
    · intro t waits other
      have old : t ≠ ti := fun same => awake (same ▸ waits)
      exact (Function.update_of_ne old _ _).trans (st.waiting.mutex t waits other)
    · exact fun t n _ before => absurd before (Nat.not_lt_zero n)
  · exact st.counted.newThread locking unlike awake rfl rfl rfl
  · have printed := st.printed
    rw [here] at printed
    exact printed
  · refine Nat.add_lt_add_right ?_ _
    simp only [here, born, MainPoint.rank]
    omega

/-- One more join is counted on the entry. -/
theorem Entries.join {h : Nat} (entries : Entries N v a) (few : N ≤ 30)
    (joined : v.main.joined N = i) (bound : i ≤ N)
    (later : point.joined N = i + 1) (created : point.created N = v.main.created N)
    (locking : v.main.locking = true) (locking' : point.locking = true)
    (tid : a'.tid = a.tid) (table : a'.table = a.table.setCount h ((a.table h).count + 1)) :
    Entries N (v.goMain point) a' := by
  obtain ⟨inTable, used, apart⟩ := entries.mutex locking
  refine ⟨?_, ?_, ?_, ?_, ?_, ?_, ?_, ?_⟩
  · rw [tid]
    exact entries.tid
  · rw [tid]
    exact entries.range
  · intro t n num
    rw [tid, table, MutexTable.setCount_used]
    exact entries.used t n num
  · intro t n num
    obtain ⟨pos, le⟩ := entries.joins t n num
    rw [joined] at le
    change 1 ≤ (a'.table (a'.tid t)).count.toNat ∧ _ ≤ 1 + point.joined N
    rw [later, tid, table]
    by_cases same : a.tid t = h
    · rw [same, MutexTable.setCount_count_self]
      rw [same] at pos le
      have sum : ((a.table h).count + 1).toNat = (a.table h).count.toNat + 1 := by
        rw [BitVec.toNat_add]
        refine Nat.mod_eq_of_lt ?_
        change _ + 1 < 2 ^ 32
        omega
      omega
    · rw [MutexTable.setCount_of_ne _ _ same]
      omega
  · rw [tid]
    exact entries.apart
  · refine fun _ => ⟨inTable, ?_, ?_⟩
    · rw [table, MutexTable.setCount_used]
      exact used
    · rw [tid]
      exact apart
  · intro k used'
    rw [table, MutexTable.setCount_used] at used'
    rw [tid]
    rcases entries.others k used' with ⟨-, isMutex⟩ | runs
    · exact .inl ⟨locking', isMutex⟩
    · exact .inr runs
  · intro n mem
    obtain ⟨range, other⟩ := entries.thread n (mem.trans_eq created)
    exact ⟨range, fun _ => other locking⟩

theorem Waiting.join {h : Nat} (waiting : Waiting N main v a)
    (later : point = .joining (i + 1)) (waited : ∃ t n, v.num t = some n ∧ a.tid t = h)
    (gone : ∀ t n, v.num t = some n → i ≤ n) (own : ∀ t, v.num t = some i → a.tid t = h)
    (wait : a'.wait = a.wait ++ [main]) (mu : a'.mu = Function.update a.mu main h)
    (tid : a'.tid = a.tid) : Waiting N main (v.goMain point) a' := by
  have word : a'.mu main = h := by rw [mu, Function.update_self]
  have waits : main ∈ a'.wait := by
    rw [wait]
    exact List.mem_append_right _ (List.mem_singleton_self main)
  refine ⟨?_, fun _ => ⟨⟨i + 1, later⟩, ?_⟩, ?_⟩
  · intro t asleep other
    rw [wait, List.mem_append, List.mem_singleton] at asleep
    rw [mu, Function.update_of_ne other]
    exact waiting.mutex t (asleep.resolve_right other) other
  · rw [tid, word]
    exact waited
  · intro t n num before
    refine ⟨waits, ?_⟩
    have le : n ≤ i := by
      subst later
      exact Nat.le_of_lt_succ before
    obtain rfl : n = i := Nat.le_antisymm le (gone t n num)
    rw [tid, word]
    exact own t num

/-- A join: the thread is gone, or somebody with its handle lives and is waited for. -/
theorem Standing.join (st : Standing P o total main c g) (few : P.threadNum ≤ 30)
    (running : g.lists.current = some main) (here : c.main = .joining i)
    (more : i < P.threadNum) (u : Unspecified) :
    ∃ c', (c.calls u (.join (c.thread i)) fun _ c => c.goMain (.joining (i + 1))) = .ok c' ∧
      Advances P o total main g c c' := by
  have part := st.partition
  have asleep := part.running_not_waiting running
  have created : (MainPoint.joining (i + 1)).created P.threadNum =
      c.main.created P.threadNum := by
    rw [here]
    rfl
  have joined : c.main.joined P.threadNum = i := by
    rw [here]
    rfl
  have locking : c.main.locking = true := by
    rw [here]
    rfl
  have born : i < c.view.main.created P.threadNum := more.trans_eq created
  have less : (MainPoint.joining (i + 1)).rank P.threadNum < c.main.rank P.threadNum := by
    simp only [here, MainPoint.rank]
    omega
  have handle := st.entries.thread i born
  have range : c.thread i < Pthread.maxMutexNum := handle.1
  have unlike : c.thread i ≠ c.mutex := handle.2 locking
  by_cases used : (g.lists.table (c.thread i)).used = false
  · have refused : g.lists.countAndWait (c.thread i) = .ok (g.lists, ⟨-1, none⟩) := by
      rw [Sched.countAndWait, if_neg (Nat.not_le.mpr range), if_pos used]
    obtain ⟨l, r, hcall, -, wf, lists⟩ := st.call (e := .join (c.thread i)) trivial u refused
    refine ⟨_, by rw [Client.calls, hcall]; rfl, ?_⟩
    refine st.goMain (.joining (i + 1)) running rfl wf lists created
      (joined.trans_le (Nat.le_succ i)) more
      (by rw [here]; rfl) ?_ (by rw [st.printed, here]; rfl) less
    intro t n num
    refine Nat.lt_of_le_of_ne (joined.symm.trans_le (st.joined_gone running num)) ?_
    rintro rfl
    have tid : g.lists.tid t = c.thread i := st.entries.tid t i num
    have free := st.entries.used t i num
    rw [tid, used] at free
    cases free
  · have isUsed : (g.lists.table (c.thread i)).used = true := by simpa using used
    obtain ⟨t', n', num', word⟩ :=
      (st.entries.others _ isUsed).resolve_left fun isMutex => unlike isMutex.2
    have count : (g.lists.table (c.thread i)).count ≠ 0 := by
      have pos := (st.entries.joins t' n' num').1
      rw [word] at pos
      intro zero
      rw [zero] at pos
      cases pos
    obtain ⟨next, rest, ready⟩ := st.ready_of_live running
      (fun n num => absurd rfl (st.ne_main num)) num' (st.ne_main num')
    have waits := countAndWait_parked range isUsed count running ready
    obtain ⟨l, r, hcall, -, wf, lists⟩ := st.call (e := .join (c.thread i)) trivial u waits
    refine ⟨_, by rw [Client.calls, hcall]; rfl, ?_⟩
    refine ⟨{ g with lists := { g.lists.counted main (c.thread i) with
        current := some next, ready := rest, wait := g.lists.wait ++ [main] } },
      ⟨wf, lists, ⟨next, rfl⟩, ?_, ?_, ?_, ?_, ?_, st.ideal, ⟨st.budget.live, ?_⟩, ?_, st.idle⟩,
      Nat.add_lt_add_right less _, .refl _⟩
    · have roster := st.roster.goMain created more
      exact { roster with live := roster.live }
    · exact st.entries.join few joined more.le rfl created locking rfl rfl rfl
    · refine st.waiting.join (v := c.view) rfl ⟨t', n', num', word⟩ (fun t n num => ?_) ?_ rfl rfl
        rfl
      · exact joined.symm.trans_le (st.joined_gone running num)
      · exact fun t num => st.entries.tid t i num
    · have waiters : Sched.waiters { g.lists.counted main (c.thread i) with
          current := some next, ready := rest, wait := g.lists.wait ++ [main] } c.mutex =
            g.lists.waiters c.mutex + if c.mutex = c.thread i then 1 else 0 :=
        Sched.waiters_parked part running rfl rfl c.mutex
      rw [if_neg unlike.symm, Nat.add_zero] at waiters
      have entry : g.lists.table.setCount (c.thread i) ((g.lists.table (c.thread i)).count + 1)
          c.mutex = g.lists.table c.mutex := MutexTable.setCount_of_ne _ _ unlike.symm
      have counted := st.counted.congr entry waiters
      exact ⟨fun free => ⟨(counted.free free).1, fun _ => (counted.free free).2 locking⟩,
        counted.held⟩
    · exact (st.points.goMain created c.printed).join rfl st.roster.unnumbered
    · exact fun n unborn => st.budget.unborn n (created.symm.trans_le unborn)
    · have printed := st.printed
      rw [here] at printed
      exact printed

/-- The end of a loop of `main`. -/
theorem Standing.loopEnd (st : Standing P o total main c g)
    (running : g.lists.current = some main)
    (ends : c.main = .creating i ∧ point = .joining 0 ∨ c.main = .joining i ∧ point = .printing)
    (done : ¬ i < P.threadNum) : Advances P o total main g c (c.goMain point) := by
  have created : c.main.created P.threadNum ≤ P.threadNum := st.roster.created
  have joined : c.main.joined P.threadNum ≤ P.threadNum := st.roster.joined
  have printed := st.printed
  rcases ends with ⟨here, rfl⟩ | ⟨here, rfl⟩ <;> rw [here] at created joined printed
  · have all : i = P.threadNum := Nat.le_antisymm created (Nat.le_of_not_lt done)
    refine st.goMain (.joining 0) running here st.wf st.lists all.symm (Nat.le_refl 0)
      (Nat.zero_le _) rfl
      (fun t n _ => Nat.zero_le n) printed ?_
    simp only [MainPoint.rank]
    omega
  · have all : i = P.threadNum := Nat.le_antisymm joined (Nat.le_of_not_lt done)
    refine st.goMain .printing running here st.wf st.lists rfl joined (Nat.le_refl _) rfl ?_
      printed ?_
    · intro t n num
      have gone := st.joined_gone running num
      rw [here] at gone
      exact all.symm.trans_le gone
    · simp only [MainPoint.rank]
      omega

/-- What is printed is the sum of what all threads had to add. -/
theorem Standing.print (st : Standing P o total main c g)
    (running : g.lists.current = some main) (here : c.main = .printing) :
    Advances P o total main g c
      { c with printed := some (c.memory P.acc), main := .destroying } := by
  have gone : ∀ t n, c.num t = some n → P.threadNum ≤ n := by
    intro t n num
    have joined := st.joined_gone running num
    rw [here] at joined
    exact joined
  have stopped : ∀ n ∈ Finset.range P.threadNum, P.code n (g.par.point n) = .stop := by
    intro n mem
    refine st.points.gone n ?_ fun t num => ?_
    · rw [here]
      exact Finset.mem_range.mp mem
    · exact absurd (Finset.mem_range.mp mem) (Nat.not_lt.mpr (gone t n num))
  have sum := st.ideal.total_of_stopped stopped
  rw [st.points.memory] at sum
  exact st.goMain .destroying running here st.wf st.lists rfl (Nat.le_refl _) (Nat.le_refl _) rfl
    gone
    (congrArg some sum) (Nat.lt_succ_self 1)

/-- `pthread_mutex_destroy`, when nobody is left. -/
theorem Standing.destroy (st : Standing P o total main c g)
    (running : g.lists.current = some main) (here : c.main = .destroying) (u : Unspecified) :
    ∃ c', (c.calls u (.destroy c.mutex) fun _ c => c.goMain .finished) = .ok c' ∧
      Advances P o total main g c c' := by
  have locking : c.main.locking = true := by
    rw [here]
    rfl
  have nobody : ∀ t n, c.num t ≠ some n := by
    intro t n num
    have joined := st.joined_gone running num
    rw [here] at joined
    exact absurd (st.number_lt num) (Nat.not_lt.mpr joined)
  obtain ⟨range, used, -⟩ := st.entries.mutex locking
  have done : g.lists.destroy c.mutex =
      .ok ({ g.lists with table := g.lists.table.freeMutex c.mutex }, ⟨0, none⟩) := by
    have isUsed : (g.lists.table c.mutex).used = true := used
    have inTable : c.mutex < Pthread.maxMutexNum := range
    rw [Sched.destroy, if_neg (Nat.not_le.mpr inTable), if_neg (by simp [isUsed])]
  obtain ⟨l, r, hcall, -, wf, lists⟩ := st.call (e := .destroy c.mutex) trivial u done
  refine ⟨_, by rw [Client.calls, hcall]; rfl, ?_⟩
  have created : MainPoint.finished.created P.threadNum = c.main.created P.threadNum := by
    rw [here]
    rfl
  have asleep := st.partition.running_not_waiting running
  have unheld := st.unheld nobody
  refine ⟨{ g with lists := { g.lists with table := g.lists.table.freeMutex c.mutex } },
    ⟨wf, lists, st.running, ?_, ?_, ⟨st.waiting.mutex, ?_, ?_⟩, ⟨fun free => ⟨?_, ?_⟩, ?_⟩,
      ?_, st.ideal, ⟨st.budget.live, ?_⟩, ?_, st.idle⟩, ?_, .refl _⟩
  · have roster := st.roster.goMain created (Nat.le_refl _)
    exact { roster with live := roster.live }
  · refine ⟨?_, ?_, ?_, ?_, ?_, (fun h => by cases h), ?_, ?_⟩
    · exact fun t n num => absurd num (nobody t n)
    · exact fun t n num => absurd num (nobody t n)
    · exact fun t n num => absurd num (nobody t n)
    · exact fun t n num => absurd num (nobody t n)
    · exact fun t t' n n' num => absurd num (nobody t n)
    · intro h isUsed
      by_cases same : h = c.mutex
      · simp [same, MutexTable.freeMutex] at isUsed
      · have before : (g.lists.table h).used = true := by
          simpa [MutexTable.freeMutex, same] using isUsed
        rcases st.entries.others h before with ⟨-, isMutex⟩ | ⟨t, n, num, -⟩
        · exact absurd isMutex same
        · exact absurd num (nobody t n)
    · intro n mem
      exact ⟨(st.entries.thread n (mem.trans_eq created)).1, fun h => by cases h⟩
  · exact fun waits => absurd waits asleep
  · exact fun t n num => absurd num (nobody t n)
  · exact (st.counted.free unheld).1
  · exact fun h => by cases h
  · intro n held
    cases unheld.symm.trans held
  · exact Points.congr (a := g.lists) (st.points.goMain created c.printed) rfl
  · exact fun n unborn => st.budget.unborn n (created.symm.trans_le unborn)
  · have printed := st.printed
    rw [here] at printed
    exact printed
  · refine Nat.add_lt_add_right ?_ _
    rw [here]
    exact Nat.one_pos

end OsDesign.Benchmark
