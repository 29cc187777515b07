import OsDesign.Benchmark.Machine
import OsDesign.Pthread.Accounting

/-!
Where a running program stands. The lists of the scheduler, the threads of the program under
an ideal lock, and the statements left to each of them go beside the state. Whoever waits
waits for the mutex or for a thread that lives; so a thread that has to wait, or that ends,
finds another one ready.
-/
namespace OsDesign.Benchmark

open Virt Pthread Code LockedSum

/-- The threads created so far. -/
def MainPoint.created (N : Nat) : MainPoint → Nat
  | .mutexInit => 0
  | .creating i => i
  | .joining _ | .printing | .destroying | .finished => N

/-- The threads joined so far, with the one that is being joined. -/
def MainPoint.joined (N : Nat) : MainPoint → Nat
  | .mutexInit | .creating _ => 0
  | .joining i => i
  | .printing | .destroying | .finished => N

/-- The mutex is initialised and not destroyed. -/
def MainPoint.locking : MainPoint → Bool
  | .mutexInit | .finished => false
  | .creating _ | .joining _ | .printing | .destroying => true

/-- The sum is printed. -/
def MainPoint.printed : MainPoint → Bool
  | .destroying | .finished => true
  | .mutexInit | .creating _ | .joining _ | .printing => false

/-- The statements left to `main`. -/
def MainPoint.rank (N : Nat) : MainPoint → Nat
  | .mutexInit => 2 * N + 5
  | .creating i => (N - i) + N + 4
  | .joining i => (N - i) + 3
  | .printing => 2
  | .destroying => 1
  | .finished => 0

variable {κ ν σ : Type}

/-- The number of the function that a thread runs. -/
def Client.num (c : Client κ ν σ) (t : ThreadId) : Option Nat := (c.worker t).map Prod.fst

/-- What the calls of the library have to do with: who runs which function, and what `main`
knows of them. -/
structure View where
  num : ThreadId → Option Nat
  thread : Nat → Nat
  mutex : Nat
  main : MainPoint

def Client.view (c : Client κ ν σ) : View := ⟨c.num, c.thread, c.mutex, c.main⟩

/-- What goes beside the state: the lists, the threads under an ideal lock, and how many
actions each of them has left. -/
structure Shadow (κ ν σ : Type) where
  lists : Sched
  par : Par Nat κ ν σ
  left : Nat → Nat

/-- The live threads are the main thread and one for each number. -/
structure Roster (N : Nat) (main : ThreadId) (v : View) (a : Sched) : Prop where
  unnumbered : v.num main = none
  live : ∀ t, a.live t = true ↔ t = main ∨ ∃ n, v.num t = some n
  number : ∀ t n, v.num t = some n → n < v.main.created N
  once : ∀ t t' n, v.num t = some n → v.num t' = some n → t = t'
  created : v.main.created N ≤ N
  joined : v.main.joined N ≤ N

/-- The entries of the table: one for the mutex, and one for each thread that runs. -/
structure Entries (N : Nat) (v : View) (a : Sched) : Prop where
  tid : ∀ t n, v.num t = some n → a.tid t = v.thread n
  range : ∀ t n, v.num t = some n → 1 ≤ a.tid t ∧ a.tid t < Pthread.maxMutexNum
  used : ∀ t n, v.num t = some n → (a.table (a.tid t)).used = true
  joins : ∀ t n, v.num t = some n → 1 ≤ (a.table (a.tid t)).count.toNat ∧
    (a.table (a.tid t)).count.toNat ≤ 1 + v.main.joined N
  apart : ∀ t t' n n', v.num t = some n → v.num t' = some n' → a.tid t = a.tid t' → t = t'
  mutex : v.main.locking = true → v.mutex < Pthread.maxMutexNum ∧
    (a.table v.mutex).used = true ∧ ∀ t n, v.num t = some n → a.tid t ≠ v.mutex
  others : ∀ h, (a.table h).used = true →
    v.main.locking = true ∧ h = v.mutex ∨ ∃ t n, v.num t = some n ∧ a.tid t = h
  thread : ∀ n, n < v.main.created N →
    v.thread n < Pthread.maxMutexNum ∧ (v.main.locking = true → v.thread n ≠ v.mutex)

/-- Whoever waits waits for the mutex, or is the main thread that joins a live thread. -/
structure Waiting (N : Nat) (main : ThreadId) (v : View) (a : Sched) : Prop where
  mutex : ∀ t, t ∈ a.wait → t ≠ main → a.mu t = v.mutex
  joining : main ∈ a.wait → (∃ i, v.main = .joining i) ∧
    ∃ t n, v.num t = some n ∧ a.tid t = a.mu main
  joined : ∀ t n, v.num t = some n → n < v.main.joined N →
    main ∈ a.wait ∧ a.tid t = a.mu main

/-- The count of the mutex: its holder and those that wait. -/
structure Counted (v : View) (a : Sched) (holder : Option Nat) : Prop where
  free : holder = none → a.waiters v.mutex = 0 ∧
    (v.main.locking = true → (a.table v.mutex).count = 0)
  held : ∀ n, holder = some n →
    (a.table v.mutex).count = BitVec.ofNat 32 (1 + a.waiters v.mutex)

/-- The points of the threads. One that waits stands behind its lock; under the ideal lock
it still stands in front of it. -/
structure Points (P : Program κ ν σ) (c : Client κ ν σ) (a : Sched) (i : Par Nat κ ν σ) :
    Prop where
  memory : i.memory = c.memory
  here : ∀ t n s, c.worker t = some (n, s) → t ∉ a.wait → i.point n = s
  waiting : ∀ t n s, c.worker t = some (n, s) → t ∈ a.wait → P.code n (i.point n) = .lock s
  unborn : ∀ n, c.main.created P.threadNum ≤ n → n < P.threadNum → i.point n = P.begins n
  gone : ∀ n, n < c.main.created P.threadNum → (∀ t, c.num t ≠ some n) →
    P.code n (i.point n) = .stop

variable [DecidableEq κ] [AddCommMonoid ν]

/-- What is left to the threads that live or are not yet created. -/
structure Budget (P : Program κ ν σ) (o : Outline P.code P.acc) (c : Client κ ν σ)
    (left : Nat → Nat) : Prop where
  live : ∀ t n s, c.worker t = some (n, s) → left n = o.fuel n s + 1
  unborn : ∀ n, c.main.created P.threadNum ≤ n → n < P.threadNum →
    left n = o.fuel n (P.begins n) + 1

/-- The program stands well: the invariant of the runs. -/
structure Standing (P : Program κ ν σ) (o : Outline P.code P.acc) (total : ν)
    (main : ThreadId) (c : Client κ ν σ) (g : Shadow κ ν σ) : Prop where
  wf : c.library.WellFormed
  lists : g.lists.Alike c.library.sched
  running : ∃ t, g.lists.current = some t
  roster : Roster P.threadNum main c.view g.lists
  entries : Entries P.threadNum c.view g.lists
  waiting : Waiting P.threadNum main c.view g.lists
  counted : Counted c.view g.lists g.par.holder
  points : Points P c g.lists g.par
  ideal : o.Inv (Finset.range P.threadNum) total g.par
  budget : Budget P o c g.left
  printed : c.printed = if c.main.printed = true then some total else none
  idle : ∀ n, n < P.threadNum → o.holds n (P.begins n) = false

/-- The statements left to the whole program. -/
def rank (P : Program κ ν σ) (c : Client κ ν σ) (left : Nat → Nat) : Nat :=
  c.main.rank P.threadNum + ∑ n ∈ Finset.range P.threadNum, left n

omit [DecidableEq κ] [AddCommMonoid ν] in
theorem num_eq_some {c : Client κ ν σ} {t : ThreadId} {n : Nat} :
    c.num t = some n ↔ ∃ s, c.worker t = some (n, s) := by
  simp [Client.num, Option.map_eq_some_iff, Prod.exists]

omit [DecidableEq κ] [AddCommMonoid ν] in
theorem num_of_worker {c : Client κ ν σ} {t : ThreadId} {n : Nat} {s : σ}
    (here : c.worker t = some (n, s)) : c.num t = some n :=
  num_eq_some.mpr ⟨s, here⟩

namespace Standing

variable {P : Program κ ν σ} {o : Outline P.code P.acc} {total : ν} {main t t' : ThreadId}
  {c : Client κ ν σ} {g : Shadow κ ν σ} {n k : Nat} {s s' : σ} {u : Unspecified}

theorem partition (st : Standing P o total main c g) : g.lists.Partition := by
  obtain ⟨mu, same, -⟩ := st.lists
  have nodup : c.library.sched.threads.Nodup := by
    obtain ⟨rs, ws, holds, -⟩ := st.wf
    rw [Library.sched_eq c.library rfl holds]
    exact holds.nodup
  have live : ∀ t, t ∈ c.library.sched.threads ↔ c.library.sched.live t = true :=
    fun t => st.wf.mem_threads
  rw [same] at nodup live
  exact ⟨nodup, live⟩

theorem live_eq (st : Standing P o total main c g) : g.lists.live = c.library.live := by
  obtain ⟨mu, same, -⟩ := st.lists
  exact (congrArg Sched.live same).symm

theorem current_eq (st : Standing P o total main c g) :
    c.library.queues.current = g.lists.current :=
  st.lists.current

/-- A waiting thread other than the main thread runs a function. -/
theorem num_of_waiting (st : Standing P o total main c g) (waits : t ∈ g.lists.wait)
    (other : t ≠ main) : ∃ n, c.num t = some n :=
  ((st.roster.live t).mp (st.partition.wait_live waits)).resolve_left other

theorem ne_main (st : Standing P o total main c g) (num : c.num t = some n) : t ≠ main := by
  rintro rfl
  have none : c.num t = none := st.roster.unnumbered
  rw [none] at num
  cases num

theorem number_lt (st : Standing P o total main c g) (num : c.num t = some n) :
    n < P.threadNum :=
  lt_of_lt_of_le (st.roster.number t n num) st.roster.created

/-- The holder of the ideal lock is a thread that runs or is ready. -/
theorem holder_thread (st : Standing P o total main c g) (held : g.par.holder = some n) :
    ∃ t, c.num t = some n ∧ t ∉ g.lists.wait := by
  have mem := st.ideal.member n held
  have holds := (st.ideal.holder n mem).mp held
  have valid := st.ideal.valid n mem
  have created : n < c.main.created P.threadNum := by
    by_contra unborn
    have here := st.points.unborn n (Nat.le_of_not_lt unborn) (Finset.mem_range.mp mem)
    rw [here, st.idle n (Finset.mem_range.mp mem)] at holds
    cases holds
  by_cases lives : ∃ t, c.num t = some n
  · obtain ⟨t, num⟩ := lives
    obtain ⟨s, here⟩ := num_eq_some.mp num
    refine ⟨t, num, fun waits => ?_⟩
    have lock := st.points.waiting t n s here waits
    rw [(o.locked lock valid).1] at holds
    cases holds
  · have stop := st.points.gone n created fun t num => lives ⟨t, num⟩
    rw [(o.stopped stop valid).1] at holds
    cases holds

/-- While another thread lives and the running thread does not hold the lock, a thread is
ready. -/
theorem ready_of_live (st : Standing P o total main c g) (running : g.lists.current = some t)
    (unheld : ∀ n, c.num t = some n → g.par.holder ≠ some n) (num : c.num t' = some n)
    (other : t' ≠ t) : ∃ next rest, g.lists.ready = next :: rest := by
  have ready_of : ∀ t₁ k, c.num t₁ = some k → t₁ ≠ t → t₁ ∉ g.lists.wait →
      ∃ next rest, g.lists.ready = next :: rest := by
    intro t₁ k num₁ other₁ awake
    have live := (st.roster.live t₁).mpr (.inr ⟨k, num₁⟩)
    have mem := (st.partition.live t₁).mpr live
    rcases Sched.mem_threads.mp mem with current | ready | waits
    · exact absurd (Option.some.inj (current.symm.trans running)) other₁
    · exact List.exists_cons_of_ne_nil (List.ne_nil_of_mem ready)
    · exact absurd waits awake
  by_cases waits : t' ∈ g.lists.wait
  · -- it waits for the mutex, so that somebody holds it
    have word : g.lists.mu t' = c.mutex := st.waiting.mutex t' waits (st.ne_main num)
    have contended : 0 < g.lists.waiters c.mutex := by
      refine List.countP_pos_iff.mpr ⟨t', waits, ?_⟩
      simp [Sched.waitsOn, word]
    cases held : g.par.holder with
    | none => exact absurd (st.counted.free held).1 contended.ne'
    | some k =>
        obtain ⟨t₁, num₁, awake⟩ := st.holder_thread held
        refine ready_of t₁ k num₁ ?_ awake
        rintro rfl
        exact unheld k num₁ held
  · exact ready_of t' n num other waits

/-- No more threads than numbers, and the main thread. -/
theorem waiters_le (st : Standing P o total main c g) (h : Nat) :
    g.lists.waiters h ≤ P.threadNum + 1 := by
  have card : (g.lists.wait.toFinset.erase main).card ≤ (Finset.range P.threadNum).card := by
    refine Finset.card_le_card_of_injOn (fun t => (c.num t).getD 0) ?_ ?_
    · intro t ht
      obtain ⟨other, waits⟩ := Finset.mem_erase.mp ht
      obtain ⟨n, num⟩ := st.num_of_waiting (List.mem_toFinset.mp waits) other
      simpa [num] using st.number_lt num
    · intro t ht t' ht' same
      obtain ⟨other, waits⟩ := Finset.mem_erase.mp ht
      obtain ⟨other', waits'⟩ := Finset.mem_erase.mp ht'
      obtain ⟨n, num⟩ := st.num_of_waiting (List.mem_toFinset.mp waits) other
      obtain ⟨n', num'⟩ := st.num_of_waiting (List.mem_toFinset.mp waits') other'
      have numbers : n = n' := by simpa [num, num'] using same
      exact st.roster.once t t' n num (numbers ▸ num')
  have length : g.lists.wait.toFinset.card = g.lists.wait.length :=
    List.toFinset_card_of_nodup st.partition.wait_nodup
  have erase := Finset.pred_card_le_card_erase (s := g.lists.wait.toFinset) (a := main)
  rw [Finset.card_range] at card
  have counts := List.countP_le_length (p := g.lists.waitsOn h) (l := g.lists.wait)
  change g.lists.waiters h ≤ _ at counts
  omega

/-- The mutex is free exactly when its count is zero. -/
theorem count_ne_zero (st : Standing P o total main c g) (few : P.threadNum ≤ 30)
    (held : g.par.holder = some n) : (g.lists.table c.mutex).count ≠ 0 := by
  have le := st.waiters_le c.mutex
  have count : (g.lists.table c.mutex).count = BitVec.ofNat 32 (1 + g.lists.waiters c.mutex) :=
    st.counted.held n held
  rw [count]
  intro zero
  have nat := congrArg BitVec.toNat zero
  rw [BitVec.toNat_ofNat, Nat.mod_eq_of_lt (by omega)] at nat
  simp at nat

/-- While a function runs, the mutex is there. -/
theorem locking (st : Standing P o total main c g) (num : c.num t = some n) :
    c.main.locking = true := by
  have born : n < c.main.created P.threadNum := st.roster.number t n num
  cases point : c.main with
  | mutexInit =>
      rw [point] at born
      cases born
  | finished =>
      have joined : n < c.view.main.joined P.threadNum := by
        change n < c.main.joined P.threadNum
        rw [point] at born ⊢
        exact born
      obtain ⟨waits, -⟩ := st.waiting.joined t n num joined
      obtain ⟨⟨i, joining⟩, -⟩ := st.waiting.joining waits
      change c.main = _ at joining
      rw [point] at joining
      cases joining
  | creating i | joining i | printing | destroying => rfl

/-- The main thread never waits for the mutex. -/
theorem ne_main_of_waits (st : Standing P o total main c g) (waits : t ∈ g.lists.wait)
    (word : g.lists.mu t = c.mutex) (locking : c.main.locking = true) : t ≠ main := by
  rintro rfl
  obtain ⟨-, t', n, num, tid⟩ := st.waiting.joining waits
  exact (st.entries.mutex locking).2.2 t' n num (tid.trans word)

/-- A call, made on the lists and in the library. -/
theorem call (st : Standing P o total main c g) {e : Pthread.Event} {a : Sched} {r : Return}
    (enabled : c.library.Enabled e) (u : Unspecified) (h : g.lists.call e = .ok (a, r)) :
    ∃ l r', c.library.call u e = .ok (l, r') ∧ r'.handle = r.handle ∧ l.WellFormed ∧
      a.Alike l.sched := by
  have follows := st.wf.follows_call (u := u) enabled
  have paired := st.lists.call e
  rw [h] at paired
  generalize c.library.call u e = x at follows ⊢
  generalize c.library.sched.call e = y at follows paired
  cases paired with
  | ok _ related =>
      cases follows with
      | ok _ wf alike =>
          refine ⟨_, _, rfl, ?_, wf, Library.alike_trans related alike⟩
          by_cases waited : Library.waited c.library.sched e = true <;>
            simp [Library.answer, waited]

end Standing

end OsDesign.Benchmark
