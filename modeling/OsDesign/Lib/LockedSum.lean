import Mathlib.Algebra.BigOperators.Group.Finset.Basic
import Mathlib.Algebra.Order.BigOperators.Group.Finset

/-!
Threads that add to one variable under a lock. Every thread runs its own code, one action
at a time and in any order; the lock has at most one holder. An outline of the code says at
each of its points what the thread still has to add, and what it knows of the variables that
no other thread writes meanwhile. What the variable holds and what is left to add then
always make the same sum.
-/
namespace LockedSum

/-- What a thread does next, and the point where it goes on. -/
inductive Action (κ ν σ : Type*)
  | silent (next : σ)
  | lock (next : σ)
  | unlock (next : σ)
  | read (var : κ) (next : ν → σ)
  | write (var : κ) (value : ν) (next : σ)
  | stop

/-- The threads at their points, the variables they share, and who holds the lock. -/
structure Par (ι κ ν σ : Type*) where
  point : ι → σ
  memory : κ → ν
  holder : Option ι

variable {ι κ ν σ : Type*}

/-- The actions that leave the lock alone. -/
def Action.plain [DecidableEq κ] (memory : κ → ν) : Action κ ν σ → Option (σ × (κ → ν))
  | .silent next => some (next, memory)
  | .read var next => some (next (memory var), memory)
  | .write var value next => some (next, Function.update memory var value)
  | .lock _ | .unlock _ | .stop => none

def Par.goTo [DecidableEq ι] (p : Par ι κ ν σ) (n : ι) (s : σ) : Par ι κ ν σ :=
  { p with point := Function.update p.point n s }

@[simp] theorem Par.goTo_self [DecidableEq ι] (p : Par ι κ ν σ) (n : ι) (s : σ) :
    (p.goTo n s).point n = s :=
  Function.update_self ..

theorem Par.goTo_of_ne [DecidableEq ι] (p : Par ι κ ν σ) {n k : ι} (s : σ) (other : k ≠ n) :
    (p.goTo n s).point k = p.point k :=
  Function.update_of_ne other ..

/-- One action of the thread `n`. A thread that finds the lock held does not move. -/
inductive Step [DecidableEq ι] [DecidableEq κ] (code : ι → σ → Action κ ν σ) (p : Par ι κ ν σ)
    (n : ι) : Par ι κ ν σ → Prop
  | lock {s : σ} (action : code n (p.point n) = .lock s) (free : p.holder = none) :
      Step code p n { p.goTo n s with holder := some n }
  | unlock {s : σ} (action : code n (p.point n) = .unlock s) (held : p.holder = some n) :
      Step code p n { p.goTo n s with holder := none }
  | plain {s : σ} {m : κ → ν} (action : (code n (p.point n)).plain p.memory = some (s, m)) :
      Step code p n { p.goTo n s with memory := m }

/-- A proof outline: at each point whether the thread is between its lock and its unlock,
what it still has to add, what it knows, and how many actions are left. -/
structure Outline [DecidableEq κ] [AddCommMonoid ν] (code : ι → σ → Action κ ν σ) (acc : κ) where
  owner : κ → Option ι
  holds : ι → σ → Bool
  left : ι → σ → (κ → ν) → ν
  valid : ι → σ → (κ → ν) → Prop
  fuel : ι → σ → Nat
  acc_shared : owner acc = none
  /-- Nobody else writes what the outline reads. -/
  stable : ∀ {n s m m'}, (∀ v, owner v = some n → m' v = m v) →
    (holds n s = true → m' acc = m acc) → valid n s m → valid n s m' ∧ left n s m' = left n s m
  locked : ∀ {n s s' m}, code n s = .lock s' → valid n s m →
    holds n s = false ∧ holds n s' = true ∧ valid n s' m ∧ left n s' m = left n s m ∧
      fuel n s' < fuel n s
  unlocked : ∀ {n s s' m}, code n s = .unlock s' → valid n s m →
    holds n s = true ∧ holds n s' = false ∧ valid n s' m ∧ left n s' m = left n s m ∧
      fuel n s' < fuel n s
  moved : ∀ {n s s' m m'}, (code n s).plain m = some (s', m') → valid n s m →
    holds n s' = holds n s ∧ valid n s' m' ∧ m' acc + left n s' m' = m acc + left n s m ∧
      fuel n s' < fuel n s
  /-- A thread writes variables of its own, and the sum while it holds the lock. -/
  writes : ∀ {n s s' m v x}, code n s = .write v x s' → valid n s m →
    owner v = some n ∨ v = acc ∧ holds n s = true
  stopped : ∀ {n s m}, code n s = .stop → valid n s m → holds n s = false ∧ left n s m = 0

namespace Outline

variable [DecidableEq κ] [AddCommMonoid ν] {code : ι → σ → Action κ ν σ} {acc : κ}
  (o : Outline code acc)
  {threads : Finset ι} {total : ν} {p p' : Par ι κ ν σ} {n : ι}

/-- Every thread is where its outline says, and the sum is the total. -/
structure Inv (threads : Finset ι) (total : ν) (p : Par ι κ ν σ) : Prop where
  valid : ∀ n ∈ threads, o.valid n (p.point n) p.memory
  member : ∀ n, p.holder = some n → n ∈ threads
  holder : ∀ n ∈ threads, p.holder = some n ↔ o.holds n (p.point n) = true
  sum : p.memory acc + ∑ n ∈ threads, o.left n (p.point n) p.memory = total

variable {o}

/-- What a thread does besides its own variables and the lock it holds. -/
theorem plain_kept {s s' : σ} {m m' : κ → ν} (action : (code n s).plain m = some (s', m'))
    (valid : o.valid n s m) {v : κ} (foreign : o.owner v ≠ some n)
    (unheld : v = acc → o.holds n s = false) : m' v = m v := by
  cases hcode : code n s with
  | silent next | read var next =>
      rw [hcode] at action
      cases action
      rfl
  | lock next | unlock next | stop =>
      rw [hcode] at action
      cases action
  | write var value next =>
      rw [hcode] at action
      cases action
      refine Function.update_of_ne ?_ _ _
      rintro rfl
      rcases o.writes hcode valid with own | ⟨isAcc, held⟩
      · exact foreign own
      · rw [unheld isAcc] at held
        cases held

/-- When all threads have stopped, the variable holds the total. -/
theorem Inv.total_of_stopped (inv : o.Inv threads total p)
    (all : ∀ n ∈ threads, code n (p.point n) = .stop) : p.memory acc = total := by
  have none_left : ∑ n ∈ threads, o.left n (p.point n) p.memory = 0 := by
    refine Finset.sum_eq_zero ?_
    intro n mem
    exact (o.stopped (all n mem) (inv.valid n mem)).2
  have sum := inv.sum
  rwa [none_left, add_zero] at sum

variable [DecidableEq ι]

/-- The step rule for the sum: what one thread moves, the others do not see. -/
theorem Inv.moved (inv : o.Inv threads total p) (mem : n ∈ threads) {s : σ} {m : κ → ν}
    {holder : Option ι} (valid : o.valid n s m)
    (sum : m acc + o.left n s m = p.memory acc + o.left n (p.point n) p.memory)
    (others : ∀ k ∈ threads, k ≠ n → (∀ v, o.owner v = some k → m v = p.memory v) ∧
      (o.holds k (p.point k) = true → m acc = p.memory acc))
    (member : ∀ k, holder = some k → k ∈ threads)
    (lock : ∀ k ∈ threads, holder = some k ↔
      o.holds k (Function.update p.point n s k) = true) :
    o.Inv threads total { p.goTo n s with memory := m, holder := holder } := by
  have kept : ∀ k ∈ threads, k ≠ n → o.valid k (p.point k) m ∧
      o.left k (p.point k) m = o.left k (p.point k) p.memory := by
    intro k hk other
    have unseen := others k hk other
    exact o.stable unseen.1 unseen.2 (inv.valid k hk)
  refine ⟨?_, member, lock, ?_⟩
  · intro k hk
    by_cases same : k = n
    · subst same
      rw [Par.goTo_self]
      exact valid
    · rw [Par.goTo_of_ne p s same]
      exact (kept k hk same).1
  · have rest : ∑ k ∈ threads.erase n, o.left k ((p.goTo n s).point k) m =
        ∑ k ∈ threads.erase n, o.left k (p.point k) p.memory := by
      refine Finset.sum_congr rfl ?_
      intro k hk
      have other := Finset.ne_of_mem_erase hk
      rw [Par.goTo_of_ne p s other]
      exact (kept k (Finset.mem_of_mem_erase hk) other).2
    have before := inv.sum
    rw [← Finset.add_sum_erase _ _ mem] at before ⊢
    rw [rest, Par.goTo_self, ← add_assoc, sum, add_assoc]
    exact before

theorem Inv.step (inv : o.Inv threads total p) (mem : n ∈ threads) (step : Step code p n p') :
    o.Inv threads total p' := by
  have here := inv.valid n mem
  cases step with
  | @lock s action free =>
      obtain ⟨-, holds, valid, left, -⟩ := o.locked action here
      refine inv.moved mem valid (congrArg (p.memory acc + ·) left)
        (fun k _ _ => ⟨fun _ _ => rfl, fun _ => rfl⟩) ?_ ?_
      · exact fun k hk => Option.some.inj hk ▸ mem
      intro k hk
      by_cases same : k = n
      · subst same
        simp [holds]
      · rw [Function.update_of_ne same, ← inv.holder k hk, free]
        simp [Ne.symm same]
  | @unlock s action held =>
      obtain ⟨-, holds, valid, left, -⟩ := o.unlocked action here
      refine inv.moved mem valid (congrArg (p.memory acc + ·) left)
        (fun k _ _ => ⟨fun _ _ => rfl, fun _ => rfl⟩) ?_ ?_
      · exact fun k hk => by cases hk
      intro k hk
      by_cases same : k = n
      · subst same
        simp [holds]
      · rw [Function.update_of_ne same, ← inv.holder k hk, held]
        simp [Ne.symm same]
  | @plain s m action =>
      obtain ⟨holds, valid, sum, -⟩ := o.moved action here
      refine inv.moved mem valid sum ?_ inv.member ?_
      · intro k hk other
        refine ⟨fun v own => plain_kept action here ?_ ?_, fun holding => ?_⟩
        · rw [own]
          exact fun same => other (Option.some.inj same)
        · rintro rfl
          rw [o.acc_shared] at own
          cases own
        · refine plain_kept action here (by rw [o.acc_shared]; simp) fun _ => ?_
          refine Bool.eq_false_iff.mpr fun mine => other ?_
          have first := (inv.holder k hk).mpr holding
          have second := (inv.holder n mem).mpr mine
          exact Option.some.inj (first.symm.trans second)
      · intro k hk
        by_cases same : k = n
        · subst same
          rw [Function.update_self, holds]
          exact inv.holder k hk
        · rw [Function.update_of_ne same]
          exact inv.holder k hk

end Outline

end LockedSum
