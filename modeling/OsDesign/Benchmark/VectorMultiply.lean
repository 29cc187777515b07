import OsDesign.Benchmark.Runs
import OsDesign.Lib.Loops
import OsDesign.Lib.Strides
import Mathlib.Algebra.BigOperators.Ring.Finset
import Mathlib.Data.BitVec
import Mathlib.Algebra.Group.Action.Defs

/-!
`Benchmark/vectorMultiply.c`: the threads share out the indices of two arrays in strides of
`thread_num` and add the products to `res` under the mutex. `main` prints what `verify`
computes alone.
-/
namespace OsDesign.Benchmark.VectorMultiply

open Virt Pthread Code LockedSum Strides

/-- The statements of the loop; `res += ..` loads `res`, adds and stores. -/
inductive Place
  | test
  | acquire
  | load
  | store (loaded : BitVec 32)
  | release
  | increment
  deriving DecidableEq

/-- Between lock and unlock. -/
def Place.locked : Place → Bool
  | .load | .store _ | .release => true
  | .test | .acquire | .increment => false

/-- The next statement of `vector_multiply`, at a value of `i`. -/
def vectorMultiply (size threadNum : Nat) (r s : Nat → BitVec 32) :
    Nat × Place → Action Unit (BitVec 32) (Nat × Place)
  | (i, .test) => if i < size then .silent (i, .acquire) else .stop
  | (i, .acquire) => .lock (i, .load)
  | (i, .load) => .read () fun res => (i, .store res)
  | (i, .store res) => .write () (res + r i * s i) (i, .release)
  | (i, .release) => .unlock (i, .increment)
  | (i, .increment) => .silent (i + threadNum, .test)

def program (size threadNum : Nat) (r s : Nat → BitVec 32) :
    Program Unit (BitVec 32) (Nat × Place) where
  threadNum := threadNum
  acc := ()
  begins n := (n, .test)
  code _ := vectorMultiply size threadNum r s

/-- What `verify` prints. -/
def verify (size : Nat) (r s : Nat → BitVec 32) : BitVec 32 :=
  Loops.forRange size (fun i res => res + r i * s i) 0

theorem verify_eq_sum (size : Nat) (r s : Nat → BitVec 32) :
    verify size r s = ∑ i ∈ Finset.range size, r i * s i := by
  refine Loops.forRange_induct (fun n res => res = ∑ i ∈ Finset.range n, r i * s i) _ size 0
    (Finset.sum_range_zero _).symm ?_
  rintro i res - rfl
  exact (Finset.sum_range_succ _ i).symm

/-- The first index that is still to be added. -/
def rest (threadNum : Nat) : Nat × Place → Nat
  | (i, .test) | (i, .acquire) | (i, .load) | (i, .store _) => i
  | (i, .release) | (i, .increment) => i + threadNum

/-- The statements up to the end of the loop. -/
def statementsLeft (size threadNum : Nat) : Nat × Place → Nat
  | (i, .test) => 6 * (visits threadNum size i).card
  | (i, .acquire) => 6 * (visits threadNum size (i + threadNum)).card + 5
  | (i, .load) => 6 * (visits threadNum size (i + threadNum)).card + 4
  | (i, .store _) => 6 * (visits threadNum size (i + threadNum)).card + 3
  | (i, .release) => 6 * (visits threadNum size (i + threadNum)).card + 2
  | (i, .increment) => 6 * (visits threadNum size (i + threadNum)).card + 1

/-- Inside the loop the index is one, and what was loaded is still there. -/
structure Holds (size : Nat) (l : Nat × Place) (memory : Unit → BitVec 32) : Prop where
  index : l.2 ≠ .test → l.1 < size
  loaded : ∀ v, l.2 = .store v → v = memory ()

variable {size threadNum : Nat} {r s : Nat → BitVec 32} {n i : Nat}

/-- The test of the loop. -/
theorem test_cases (size threadNum : Nat) (r s : Nat → BitVec 32) (n i : Nat) :
    i < size ∧ (program size threadNum r s).code n (i, .test) = .silent (i, .acquire) ∨
      ¬ i < size ∧ (program size threadNum r s).code n (i, .test) = .stop := by
  simp only [program, vectorMultiply]
  split
  case isTrue more => exact .inl ⟨more, rfl⟩
  case isFalse done => exact .inr ⟨done, rfl⟩

theorem statementsLeft_test (positive : 0 < threadNum) (more : i < size) :
    statementsLeft size threadNum (i, .test) =
      6 * (visits threadNum size (i + threadNum)).card + 6 := by
  rw [statementsLeft, card_visits positive more, Nat.mul_succ]

/-- What is left to add at a statement, and what its thread knows there. -/
def outline (positive : 0 < threadNum) (size : Nat) (r s : Nat → BitVec 32) :
    Outline (program size threadNum r s).code (program size threadNum r s).acc where
  owner _ := none
  holds _ l := l.2.locked
  left _ l _ := ∑ i ∈ visits threadNum size (rest threadNum l), r i * s i
  valid _ l memory := Holds size l memory
  fuel _ l := statementsLeft size threadNum l
  acc_shared := rfl
  stable := by
    rintro n ⟨i, place⟩ m m' - same ⟨index, loaded⟩
    refine ⟨⟨index, fun v stores => ?_⟩, rfl⟩
    have held : place.locked = true := by
      obtain rfl : place = .store v := stores
      rfl
    exact (loaded v stores).trans (same held).symm
  locked := by
    rintro n ⟨i, place⟩ l m action holds
    cases place with
    | acquire =>
        cases action
        refine ⟨rfl, rfl, ⟨fun _ => holds.index (by simp), fun v stores => by cases stores⟩, rfl,
          ?_⟩
        exact Nat.lt_succ_self _
    | test =>
        obtain ⟨-, same⟩ | ⟨-, same⟩ := test_cases size threadNum r s n i <;>
          cases action.symm.trans same
    | load | store | release | increment => cases action
  unlocked := by
    rintro n ⟨i, place⟩ l m action holds
    cases place with
    | release =>
        cases action
        refine ⟨rfl, rfl, ⟨fun _ => holds.index (by simp), fun v stores => by cases stores⟩, rfl,
          ?_⟩
        exact Nat.lt_succ_self _
    | test =>
        obtain ⟨-, same⟩ | ⟨-, same⟩ := test_cases size threadNum r s n i <;>
          cases action.symm.trans same
    | acquire | load | store | increment => cases action
  moved := by
    rintro n ⟨i, place⟩ l m m' action holds
    cases place with
    | test =>
        obtain ⟨more, same⟩ | ⟨-, same⟩ := test_cases size threadNum r s n i <;>
          rw [same] at action <;> cases action
        refine ⟨rfl, ⟨fun _ => more, fun v stores => by cases stores⟩, rfl, ?_⟩
        rw [statementsLeft_test positive more]
        exact Nat.lt_succ_self _
    | load =>
        cases action
        refine ⟨rfl, ⟨fun _ => holds.index (by simp), fun v stores => ?_⟩, rfl, ?_⟩
        · cases stores
          rfl
        · exact Nat.lt_succ_self _
    | store v =>
        cases action
        have more : i < size := holds.index (by simp)
        obtain rfl : v = m () := holds.loaded v rfl
        refine ⟨rfl, ⟨fun _ => more, fun v stores => by cases stores⟩, ?_, ?_⟩
        · simp only [program, Function.update_self, rest]
          rw [sum_visits _ positive more, add_assoc]
        · exact Nat.lt_succ_self _
    | increment =>
        cases action
        refine ⟨rfl, ⟨fun inside => absurd rfl inside, fun v stores => by cases stores⟩, rfl, ?_⟩
        exact Nat.lt_succ_self _
    | acquire | release => cases action
  writes := by
    rintro n ⟨i, place⟩ l m v x action holds
    cases place with
    | store => exact .inr ⟨rfl, rfl⟩
    | test =>
        obtain ⟨-, same⟩ | ⟨-, same⟩ := test_cases size threadNum r s n i <;>
          cases action.symm.trans same
    | acquire | load | release | increment => cases action
  stopped := by
    rintro n ⟨i, place⟩ m action holds
    cases place with
    | test =>
        obtain ⟨-, same⟩ | ⟨done, -⟩ := test_cases size threadNum r s n i
        · cases action.symm.trans same
        refine ⟨rfl, ?_⟩
        simp only [rest]
        rw [visits_eq_empty done, Finset.sum_empty]
    | acquire | load | store | release | increment => cases action

theorem starts (positive : 0 < threadNum) (memory : Unit → BitVec 32) :
    Starts (program size threadNum r s) (outline positive size r s) memory :=
  ⟨fun _ _ => Holds.mk (fun inside => absurd rfl inside) (fun _ stores => by cases stores),
    fun _ _ => rfl⟩

theorem total (positive : 0 < threadNum) :
    totalOf (program size threadNum r s) (outline positive size r s) (fun _ => 0) =
      verify size r s := by
  simp only [totalOf, outline, program, rest]
  rw [sum_all _ positive, verify_eq_sum, zero_add]

theorem statements_eq (positive : 0 < threadNum) :
    statements (program size threadNum r s) (outline positive size r s) =
      6 * size + 3 * threadNum + 5 := by
  simp only [statements, outline, program, statementsLeft, Finset.sum_add_distrib,
    ← Finset.mul_sum, card_all positive, Finset.sum_const, Finset.card_range, smul_eq_mul]
  omega

/-- With up to 30 threads, and whatever the timer does, no statement of the program fails, it
comes to its end, and the sum that `main` prints is the one that `verify` prints. -/
theorem prints_verified_res {main : ThreadId} {c₀ c : Client Unit (BitVec 32) (Nat × Place)}
    {es : List Turn} (positive : 0 < threadNum) (few : threadNum ≤ 30)
    (init : c₀.Init (fun _ => 0) main)
    (run : Runs.Steps Client.Enabled (Client.Step (program size threadNum r s)) c₀ es c) :
    RunsWell (program size threadNum r s) (verify size r s) (6 * size + 3 * threadNum + 5) es
      c := by
  have well := runsWell (o := outline positive size r s) few (starts positive _) init run
  rwa [total, statements_eq] at well

/-- Two threads and three products. -/
def small : Program Unit (BitVec 32) (Nat × Place) :=
  program 3 2 (BitVec.ofNat 32) (BitVec.ofNat 32)

theorem prints_verified_res_small : ∃ c : Client Unit (BitVec 32) (Nat × Place),
    c.printed = some 5 ∧
      ∃ es, RunsWell small (verify 3 (BitVec.ofNat 32) (BitVec.ofNat 32)) 29 es c := by
  obtain ⟨c, run, printed⟩ := Runs.exists_steps_of_run Client.Enabled (Client.next small)
    (Client.start (fun _ => 0) 0) (fun c => c.printed = some 5) (rounds 14) (by decide +kernel)
  exact ⟨c, printed, _, prints_verified_res (by decide) (by decide) (Client.init_start _ 0)
    (Client.steps_of_next run)⟩

end OsDesign.Benchmark.VectorMultiply
