import OsDesign.Benchmark.Runs
import OsDesign.Lib.Loops
import OsDesign.Lib.Strides
import Mathlib.Algebra.BigOperators.Ring.Finset
import Mathlib.Data.BitVec
import Mathlib.Algebra.Group.Action.Defs

/-!
`Benchmark/externalCal.c`: the threads share out the ten records in strides of `thread_num`.
A record is a file of numbers; a thread reads them into four of the 40 cells of `mem`, in
turn, and adds each to `sum` under the mutex. `main` prints what `verify` computes alone.
-/
namespace OsDesign.Benchmark.ExternalCal

open Virt Pthread Code LockedSum Strides

/-- `RECORD_NUM` -/
abbrev recordNum : Nat := 10

/-- A file as `fscanf` goes through it: numbers, and signs without a number. What comes
behind the list, its end or something else, is never read over. -/
abbrev Record := List (Option (BitVec 32))

/-- The globals that the threads write. -/
inductive Var
  | sum
  | mem (index : Nat)
  deriving DecidableEq

/-- The local variables of `external_calculate`; `file` is what is still to be read. -/
structure Local where
  k : Nat
  i : Nat
  j : Nat
  file : Record

/-- The statements of the loops; `sum += ..` loads the cell and `sum`, adds and stores. -/
inductive Place
  | record
  | iteration
  | cell
  | scan
  | acquire
  | loadCell
  | loadSum (x : BitVec 32)
  | store (x y : BitVec 32)
  | release
  | advance
  deriving DecidableEq

/-- What `fscanf` does with the number in front. It reads over a sign without a number and
leaves the cell, as it does at the end of the file or in front of something else. -/
def fscanf (index : Nat) : Record → (Nat → BitVec 32) → Record × (Nat → BitVec 32)
  | some v :: file, mem => (file, Function.update mem index v)
  | none :: file, mem => (file, mem)
  | [], mem => ([], mem)

/-- The next statement of `external_calculate`. All files are there. -/
def externalCalculate (itr threadNum : Nat) (record : Nat → Record) :
    Local × Place → Action Var (BitVec 32) (Local × Place)
  | (l, .record) =>
      if l.k < recordNum then .silent ({ l with i := 0, file := record l.k }, .iteration)
      else .stop
  | (l, .iteration) =>
      if l.i < itr then .silent ({ l with j := 0 }, .cell)
      else .silent ({ l with k := l.k + threadNum }, .record)
  | (l, .cell) =>
      if l.j < 4 then .silent (l, .scan) else .silent ({ l with i := l.i + 1 }, .iteration)
  | (l, .scan) =>
      match l.file with
      | some v :: file => .write (.mem (l.k * 4 + l.j)) v ({ l with file := file }, .acquire)
      | none :: file => .silent ({ l with file := file }, .acquire)
      | [] => .silent (l, .acquire)
  | (l, .acquire) => .lock (l, .loadCell)
  | (l, .loadCell) => .read (.mem (l.k * 4 + l.j)) fun x => (l, .loadSum x)
  | (l, .loadSum x) => .read .sum fun y => (l, .store x y)
  | (l, .store x y) => .write .sum (y + x) (l, .release)
  | (l, .release) => .unlock (l, .advance)
  | (l, .advance) => .silent ({ l with j := l.j + 1 }, .cell)

def program (itr threadNum : Nat) (record : Nat → Record) :
    Program Var (BitVec 32) (Local × Place) where
  threadNum := threadNum
  acc := .sum
  begins n := (⟨n, 0, 0, []⟩, .record)
  code _ := externalCalculate itr threadNum record

/-- The variables of `verify`. -/
structure Scan where
  file : Record
  mem : Nat → BitVec 32
  sum : BitVec 32

/-- The body of the loops of `verify`. -/
def Scan.cell (index : Nat) (s : Scan) : Scan :=
  let read := fscanf index s.file s.mem
  ⟨read.1, read.2, s.sum + read.2 index⟩

/-- What `verify` does with a record. -/
def Scan.record (itr k : Nat) (file : Record) (s : Scan) : Scan :=
  Loops.forRange itr (fun _ s => Loops.forRange 4 (fun j s => s.cell (k * 4 + j)) s)
    { s with file := file }

/-- What `verify` prints. -/
def verify (itr : Nat) (record : Nat → Record) : BitVec 32 :=
  (Loops.forRange 10 (fun k s => s.record itr k (record k))
    (⟨[], fun _ => 0, 0⟩ : Scan)).sum

/-- What the turns of a record add, from the turn `t` on; turn `4 * i + j` reads into the
cell `j`. -/
def added (k : Nat) : Nat → Nat → Record → (Nat → BitVec 32) → BitVec 32
  | 0, _, _, _ => 0
  | turns + 1, t, file, mem =>
      let read := fscanf (k * 4 + t % 4) file mem
      read.2 (k * 4 + t % 4) + added k turns (t + 1) read.1 read.2

variable {itr threadNum : Nat} {record : Nat → Record} {n k t : Nat}
  {file : Record} {mem mem' : Nat → BitVec 32}

theorem fscanf_of_ne {index other : Nat} (apart : other ≠ index) :
    (fscanf index file mem).2 other = mem other := by
  match file with
  | some v :: file => exact Function.update_of_ne apart _ _
  | none :: file => rfl
  | [] => rfl

theorem fscanf_congr {index : Nat} (file : Record) (at_ : mem' index = mem index) :
    (fscanf index file mem').1 = (fscanf index file mem).1 ∧
      (fscanf index file mem').2 index = (fscanf index file mem).2 index := by
  match file with
  | some v :: file => exact ⟨rfl, by simp only [fscanf, Function.update_self]⟩
  | none :: file => exact ⟨rfl, at_⟩
  | [] => exact ⟨rfl, at_⟩

/-- Only the four cells of the record count. -/
theorem added_congr {turns : Nat} (same : ∀ j, j < 4 → mem' (k * 4 + j) = mem (k * 4 + j)) :
    added k turns t file mem' = added k turns t file mem := by
  induction turns generalizing t file mem mem' with
  | zero => rfl
  | succ turns ih =>
      have below : t % 4 < 4 := Nat.mod_lt t (by decide)
      obtain ⟨rest, value⟩ := fscanf_congr file (same (t % 4) below)
      simp only [added]
      rw [rest, value]
      refine congrArg _ (ih ?_)
      intro j hj
      by_cases at_ : j = t % 4
      · subst at_
        exact value
      · have apart : k * 4 + j ≠ k * 4 + t % 4 := fun h => at_ (Nat.add_left_cancel h)
        rw [fscanf_of_ne apart, fscanf_of_ne apart]
        exact same j hj

/-- What a record adds from the turn `t` on, out of `4 * itr` turns. -/
def addedFrom (itr k t : Nat) (file : Record) (mem : Nat → BitVec 32) : BitVec 32 :=
  added k (4 * itr - t) t file mem

theorem addedFrom_eq_zero (done : 4 * itr ≤ t) : addedFrom itr k t file mem = 0 := by
  rw [addedFrom, Nat.sub_eq_zero_of_le done]
  rfl

theorem addedFrom_eq {i j : Nat} (more : i < itr) (below : j < 4) :
    addedFrom itr k (4 * i + j) file mem =
      (fscanf (k * 4 + j) file mem).2 (k * 4 + j) +
        addedFrom itr k (4 * i + j + 1) (fscanf (k * 4 + j) file mem).1
          (fscanf (k * 4 + j) file mem).2 := by
  have turns : 4 * itr - (4 * i + j) = 4 * itr - (4 * i + j + 1) + 1 := by omega
  have column : (4 * i + j) % 4 = j := by omega
  rw [addedFrom, turns, added, column, addedFrom]

/-- The loops of a record in `verify`: the sum grows by what the record adds, and the cells
of other records keep their values. -/
theorem Scan.record_spec (s : Scan) (itr k : Nat) (file : Record) :
    (s.record itr k file).sum = s.sum + addedFrom itr k 0 file s.mem ∧
      ∀ index, (∀ j, j < 4 → index ≠ k * 4 + j) →
        (s.record itr k file).mem index = s.mem index := by
  let Inv (t : Nat) (s' : Scan) : Prop :=
    s'.sum + addedFrom itr k t s'.file s'.mem = s.sum + addedFrom itr k 0 file s.mem ∧
      ∀ index, (∀ j, j < 4 → index ≠ k * 4 + j) → s'.mem index = s.mem index
  have outer : Inv (4 * itr) (s.record itr k file) := by
    refine Loops.forRange_induct (fun i => Inv (4 * i)) _ itr _ ⟨rfl, fun _ _ => rfl⟩ ?_
    intro i s₁ more start
    have inner : Inv (4 * i + 4) (Loops.forRange 4 (fun j s => s.cell (k * 4 + j)) s₁) := by
      refine Loops.forRange_induct (fun j => Inv (4 * i + j)) _ 4 _ start ?_
      rintro j s₂ below ⟨sum, others⟩
      refine ⟨?_, ?_⟩
      · rw [addedFrom_eq more below, ← add_assoc] at sum
        exact sum
      · intro index apart
        exact (fscanf_of_ne (apart j below)).trans (others index apart)
    exact inner
  refine ⟨?_, outer.2⟩
  have sum := outer.1
  rwa [addedFrom_eq_zero (Nat.le_refl _), add_zero] at sum

/-- A record that is read into cleared cells. -/
def recordSum (itr : Nat) (record : Nat → Record) (mem : Nat → BitVec 32) (k : Nat) :
    BitVec 32 :=
  addedFrom itr k 0 (record k) mem

theorem recordSum_congr (same : ∀ j, j < 4 → mem' (k * 4 + j) = mem (k * 4 + j)) :
    recordSum itr record mem' k = recordSum itr record mem k :=
  added_congr same

theorem verify_eq_sum : verify itr record =
    ∑ k ∈ Finset.range recordNum, recordSum itr record (fun _ => 0) k := by
  let Inv (n : Nat) (s : Scan) : Prop :=
    s.sum = ∑ k ∈ Finset.range n, recordSum itr record (fun _ => 0) k ∧
      ∀ index, n * 4 ≤ index → s.mem index = 0
  have all : Inv recordNum (Loops.forRange recordNum (fun k s => s.record itr k (record k))
      (⟨[], fun _ => 0, 0⟩ : Scan)) := by
    refine Loops.forRange_induct Inv _ recordNum _
      ⟨(Finset.sum_range_zero _).symm, fun _ _ => rfl⟩ ?_
    rintro k s - ⟨sum, cleared⟩
    obtain ⟨grows, others⟩ := s.record_spec itr k (record k)
    refine ⟨?_, ?_⟩
    · rw [grows, sum, Finset.sum_range_succ]
      have zeros : recordSum itr record s.mem k = recordSum itr record (fun _ => 0) k :=
        recordSum_congr fun j _ => cleared _ (Nat.le_add_right _ j)
      exact congrArg _ zeros
    · intro index above
      rw [others index (fun j below => by omega)]
      exact cleared index (by omega)
  exact all.1

/-- How many loops a statement is in. -/
def Place.depth : Place → Nat
  | .record => 0
  | .iteration => 1
  | .cell => 2
  | .scan | .acquire | .loadCell | .loadSum _ | .store _ _ | .release | .advance => 3

/-- Between lock and unlock. -/
def Place.locked : Place → Bool
  | .loadCell | .loadSum _ | .store _ _ | .release => true
  | .record | .iteration | .cell | .scan | .acquire | .advance => false

/-- A cell belongs to the thread that reads its record. -/
def owner (threadNum : Nat) : Var → Option Nat
  | .sum => none
  | .mem index => some (index / 4 % threadNum)

def cells (memory : Var → BitVec 32) (index : Nat) : BitVec 32 := memory (.mem index)

/-- What the records add that a thread visits from `k` on. -/
def recordsLeft (itr threadNum : Nat) (record : Nat → Record)
    (memory : Var → BitVec 32) (k : Nat) : BitVec 32 :=
  ∑ k ∈ visits threadNum recordNum k, recordSum itr record (cells memory) k

/-- What the record at hand still adds. -/
def recordLeft (itr : Nat) (memory : Var → BitVec 32) : Local × Place → BitVec 32
  | (_, .record) => 0
  | (l, .iteration) => addedFrom itr l.k (4 * l.i) l.file (cells memory)
  | (l, .cell) | (l, .scan) => addedFrom itr l.k (4 * l.i + l.j) l.file (cells memory)
  | (l, .acquire) | (l, .loadCell) =>
      memory (.mem (l.k * 4 + l.j)) +
        addedFrom itr l.k (4 * l.i + l.j + 1) l.file (cells memory)
  | (l, .loadSum x) | (l, .store x _) =>
      x + addedFrom itr l.k (4 * l.i + l.j + 1) l.file (cells memory)
  | (l, .release) | (l, .advance) =>
      addedFrom itr l.k (4 * l.i + l.j + 1) l.file (cells memory)

/-- The next record to be visited. -/
def nextRecord (threadNum : Nat) : Local × Place → Nat
  | (l, .record) => l.k
  | (l, .iteration) | (l, .cell) | (l, .scan) | (l, .acquire) | (l, .loadCell) | (l, .loadSum _)
  | (l, .store _ _) | (l, .release) | (l, .advance) => l.k + threadNum

/-- The statements up to the next test of `k`. -/
def recordStatements (itr : Nat) : Local × Place → Nat
  | (_, .record) => 0
  | (l, .iteration) => 34 * (itr - l.i) + 1
  | (l, .cell) => 8 * (4 - l.j) + 34 * (itr - (l.i + 1)) + 2
  | (l, .scan) => 8 * (3 - l.j) + 34 * (itr - (l.i + 1)) + 9
  | (l, .acquire) => 8 * (3 - l.j) + 34 * (itr - (l.i + 1)) + 8
  | (l, .loadCell) => 8 * (3 - l.j) + 34 * (itr - (l.i + 1)) + 7
  | (l, .loadSum _) => 8 * (3 - l.j) + 34 * (itr - (l.i + 1)) + 6
  | (l, .store _ _) => 8 * (3 - l.j) + 34 * (itr - (l.i + 1)) + 5
  | (l, .release) => 8 * (3 - l.j) + 34 * (itr - (l.i + 1)) + 4
  | (l, .advance) => 8 * (3 - l.j) + 34 * (itr - (l.i + 1)) + 3

/-- The record is one of the thread `n`, the loops are within their bounds, and what was
loaded is still there. -/
structure Holds (itr threadNum n : Nat) (l : Local) (place : Place)
    (memory : Var → BitVec 32) : Prop where
  mine : l.k % threadNum = n
  record : 1 ≤ place.depth → l.k < recordNum
  iteration : 2 ≤ place.depth → l.i < itr ∧ l.j ≤ 4
  cell : 3 ≤ place.depth → l.j < 4
  loaded : ∀ x y, place = .store x y → y = memory .sum

/-- What is still to be added. -/
def left (itr threadNum : Nat) (record : Nat → Record) (l : Local × Place)
    (memory : Var → BitVec 32) : BitVec 32 :=
  recordLeft itr memory l +
    recordsLeft itr threadNum record memory (nextRecord threadNum l)

/-- The statements up to the end of the loop over the records. -/
def statementsLeft (itr threadNum : Nat) (l : Local × Place) : Nat :=
  recordStatements itr l +
    (34 * itr + 2) * (visits threadNum recordNum (nextRecord threadNum l)).card

variable {m m' : Var → BitVec 32} {i j : Nat}

theorem owner_cell (below : j < 4) : owner threadNum (.mem (k * 4 + j)) = some (k % threadNum) := by
  have row : (k * 4 + j) / 4 = k := by omega
  rw [owner, row]

theorem nextRecord_mod {l : Local} {place : Place} :
    nextRecord threadNum (l, place) % threadNum = l.k % threadNum := by
  cases place with
  | record => rfl
  | iteration | cell | scan | acquire | loadCell | loadSum | store | release | advance =>
      exact Nat.add_mod_right _ _

theorem recordsLeft_congr (same : ∀ k', k ≤ k' → k' % threadNum = k % threadNum → ∀ j, j < 4 →
      cells m' (k' * 4 + j) = cells m (k' * 4 + j)) :
    recordsLeft itr threadNum record m' k =
      recordsLeft itr threadNum record m k :=
  Finset.sum_congr rfl fun _ mem => recordSum_congr (same _ (le_of_mem mem) (mod_of_mem mem))

/-- Only the cells of the thread count. -/
theorem left_stable {l : Local} {place : Place} (own : ∀ v, owner threadNum v = some n → m' v = m v)
    (holds : Holds itr threadNum n l place m) :
    left itr threadNum record (l, place) m' =
      left itr threadNum record (l, place) m := by
  have mine : ∀ k, k % threadNum = n → ∀ j, j < 4 → cells m' (k * 4 + j) = cells m (k * 4 + j) :=
    fun k mod j below => own _ (by rw [owner_cell below, mod])
  have records : recordsLeft itr threadNum record m' (nextRecord threadNum (l, place)) =
      recordsLeft itr threadNum record m (nextRecord threadNum (l, place)) := by
    refine recordsLeft_congr fun k _ mod => mine k ?_
    rw [mod, nextRecord_mod, holds.mine]
  rw [left, left, records]
  refine congrArg (· + _) ?_
  have here : ∀ t, addedFrom itr l.k t l.file (cells m') = addedFrom itr l.k t l.file (cells m) :=
    fun t => added_congr (mine _ holds.mine)
  cases place with
  | record => rfl
  | iteration | cell | scan | loadSum | store | release | advance =>
      simp only [recordLeft, here]
  | acquire | loadCell =>
      have cell := mine _ holds.mine l.j (holds.cell (by decide))
      simp only [cells] at cell
      simp only [recordLeft, here, cell]

theorem cells_update_mem (v : BitVec 32) (index : Nat) :
    cells (Function.update m (.mem index) v) = Function.update (cells m) index v := by
  funext other
  by_cases same : other = index
  · subst same
    rw [cells, Function.update_self, Function.update_self]
  · have apart : Var.mem other ≠ .mem index := fun h => same (Var.mem.inj h)
    rw [cells, Function.update_of_ne apart, Function.update_of_ne same, cells]

theorem cells_update_sum (v : BitVec 32) : cells (Function.update m .sum v) = cells m := by
  funext index
  exact Function.update_of_ne (fun h => by cases h) _ _

/-- The other records of a thread do not see its cells of this one. -/
theorem recordsLeft_update (positive : 0 < threadNum) (v : BitVec 32) (below : j < 4) :
    recordsLeft itr threadNum record (Function.update m (.mem (k * 4 + j)) v)
        (k + threadNum) =
      recordsLeft itr threadNum record m (k + threadNum) := by
  refine recordsLeft_congr fun k' later _ j' below' => ?_
  rw [cells_update_mem]
  exact Function.update_of_ne (by omega) _ _

theorem statementsLeft_lt {p p' : Local × Place}
    (same : nextRecord threadNum p' = nextRecord threadNum p)
    (less : recordStatements itr p' < recordStatements itr p) :
    statementsLeft itr threadNum p' < statementsLeft itr threadNum p := by
  rw [statementsLeft, statementsLeft, same]
  exact Nat.add_lt_add_right less _

/-- What a statement other than lock and unlock does to the outline. -/
structure Moved (itr threadNum : Nat) (record : Nat → Record) (n : Nat)
    (l : Local) (place : Place) (m : Var → BitVec 32) (l' : Local) (place' : Place)
    (m' : Var → BitVec 32) : Prop where
  locked : place'.locked = place.locked
  holds : Holds itr threadNum n l' place' m'
  sum : m' .sum + left itr threadNum record (l', place') m' =
    m .sum + left itr threadNum record (l, place) m
  fewer : statementsLeft itr threadNum (l', place') <
    statementsLeft itr threadNum (l, place)

variable {l l' : Local} {place place' : Place}

/-- The test of the loop over the records, and `fopen`. -/
theorem record_cases (itr threadNum : Nat) (record : Nat → Record) (n : Nat)
    (l : Local) :
    l.k < recordNum ∧ (program itr threadNum record).code n (l, .record) =
        .silent ({ l with i := 0, file := record l.k }, .iteration) ∨
      ¬ l.k < recordNum ∧ (program itr threadNum record).code n (l, .record) = .stop := by
  simp only [program, externalCalculate]
  split
  case isTrue more => exact .inl ⟨more, rfl⟩
  case isFalse done => exact .inr ⟨done, rfl⟩

theorem Holds.opened (positive : 0 < threadNum) (more : l.k < recordNum)
    (holds : Holds itr threadNum n l .record m) :
    Moved itr threadNum record n l .record m
      { l with i := 0, file := record l.k } .iteration m := by
  refine ⟨rfl, ⟨holds.mine, fun _ => more, fun h => absurd h (by decide),
    fun h => absurd h (by decide), fun x y stores => by cases stores⟩, ?_, ?_⟩
  · simp only [left, recordLeft, nextRecord, recordsLeft]
    rw [sum_visits _ positive more, zero_add]
    rfl
  · simp only [statementsLeft, recordStatements, nextRecord]
    rw [card_visits positive more, Nat.mul_succ]
    omega

/-- The loop over the record goes on. -/
theorem Holds.iterates (more : l.i < itr) (holds : Holds itr threadNum n l .iteration m) :
    Moved itr threadNum record n l .iteration m { l with j := 0 } .cell m := by
  refine ⟨rfl, ⟨holds.mine, fun _ => holds.record (by decide), fun _ => ⟨more, Nat.zero_le 4⟩,
    fun h => absurd h (by decide), fun x y stores => by cases stores⟩, rfl,
    statementsLeft_lt rfl ?_⟩
  simp only [recordStatements]
  omega

/-- The record is done. -/
theorem Holds.closed (done : ¬ l.i < itr) (holds : Holds itr threadNum n l .iteration m) :
    Moved itr threadNum record n l .iteration m
      { l with k := l.k + threadNum } .record m := by
  refine ⟨rfl, ⟨(Nat.add_mod_right _ _).trans holds.mine, fun h => absurd h (by decide),
    fun h => absurd h (by decide), fun h => absurd h (by decide),
    fun x y stores => by cases stores⟩, ?_, statementsLeft_lt rfl ?_⟩
  · simp only [left, recordLeft, nextRecord]
    rw [addedFrom_eq_zero (by omega)]
  · simp only [recordStatements]
    omega

/-- The loop over the four cells goes on. -/
theorem Holds.enters (below : l.j < 4) (holds : Holds itr threadNum n l .cell m) :
    Moved itr threadNum record n l .cell m l .scan m := by
  refine ⟨rfl, ⟨holds.mine, fun _ => holds.record (by decide), fun _ => holds.iteration (by decide),
    fun _ => below, fun x y stores => by cases stores⟩, rfl, statementsLeft_lt rfl ?_⟩
  simp only [recordStatements]
  omega

/-- The four cells are done. -/
theorem Holds.leaves (done : ¬ l.j < 4) (holds : Holds itr threadNum n l .cell m) :
    Moved itr threadNum record n l .cell m { l with i := l.i + 1 } .iteration m := by
  have last : l.j = 4 := Nat.le_antisymm (holds.iteration (by decide)).2 (Nat.le_of_not_lt done)
  refine ⟨rfl, ⟨holds.mine, fun _ => holds.record (by decide), fun h => absurd h (by decide),
    fun h => absurd h (by decide), fun x y stores => by cases stores⟩, ?_, statementsLeft_lt rfl ?_⟩
  · simp only [left, recordLeft, last]
    rfl
  · simp only [recordStatements]
    omega

/-- `fscanf`, with a number or without. -/
theorem Holds.scanned (positive : 0 < threadNum) (holds : Holds itr threadNum n l .scan m)
    (action : ((program itr threadNum record).code n (l, .scan)).plain m =
      some ((l', place'), m')) :
    Moved itr threadNum record n l .scan m l' place' m' := by
  have inside := holds.iteration (by decide)
  have below := holds.cell (by decide)
  have apart : Var.sum ≠ .mem (l.k * 4 + l.j) := fun h => by cases h
  simp only [program, externalCalculate] at action
  have known : ∀ file', Holds itr threadNum n { l with file := file' } .acquire m' :=
    fun _ => ⟨holds.mine, fun _ => holds.record (by decide), fun _ => inside, fun _ => below,
      fun x y stores => by cases stores⟩
  match file : l.file with
  | some v :: rest =>
      rw [file] at action
      cases action
      refine ⟨rfl, known rest, ?_, statementsLeft_lt rfl (Nat.lt_succ_self _)⟩
      simp only [left, recordLeft, file, nextRecord]
      rw [addedFrom_eq inside.1 below, Function.update_of_ne apart,
        recordsLeft_update positive v below, cells_update_mem, Function.update_self]
      simp [fscanf]
  | none :: rest =>
      rw [file] at action
      cases action
      refine ⟨rfl, known rest, ?_, statementsLeft_lt rfl (Nat.lt_succ_self _)⟩
      simp only [left, recordLeft, file]
      rw [addedFrom_eq inside.1 below]
      rfl
  | [] =>
      rw [file] at action
      cases action
      refine ⟨rfl, known l.file, ?_, statementsLeft_lt rfl (Nat.lt_succ_self _)⟩
      simp only [left, recordLeft, file]
      rw [addedFrom_eq inside.1 below]
      rfl

/-- Every statement other than lock and unlock. -/
theorem Holds.moved (positive : 0 < threadNum) (holds : Holds itr threadNum n l place m)
    (action : ((program itr threadNum record).code n (l, place)).plain m =
      some ((l', place'), m')) :
    Moved itr threadNum record n l place m l' place' m' := by
  cases place with
  | record =>
      obtain ⟨more, same⟩ | ⟨-, same⟩ := record_cases itr threadNum record n l <;>
        rw [same] at action <;> cases action
      exact holds.opened positive more
  | iteration =>
      simp only [program, externalCalculate] at action
      split at action
      case isTrue more =>
        cases action
        exact holds.iterates more
      case isFalse done =>
        cases action
        exact holds.closed done
  | cell =>
      simp only [program, externalCalculate] at action
      split at action
      case isTrue below =>
        cases action
        exact holds.enters below
      case isFalse done =>
        cases action
        exact holds.leaves done
  | scan => exact holds.scanned positive action
  | loadCell =>
      cases action
      exact ⟨rfl, ⟨holds.mine, holds.record, holds.iteration, holds.cell,
        fun x y stores => by cases stores⟩, rfl, statementsLeft_lt rfl (Nat.lt_succ_self _)⟩
  | loadSum x =>
      cases action
      refine ⟨rfl, ⟨holds.mine, holds.record, holds.iteration, holds.cell, fun x y stores => ?_⟩,
        rfl, statementsLeft_lt rfl (Nat.lt_succ_self _)⟩
      cases stores
      rfl
  | store x y =>
      cases action
      obtain rfl : y = m .sum := holds.loaded x y rfl
      refine ⟨rfl, ⟨holds.mine, holds.record, holds.iteration, holds.cell,
        fun x y stores => by cases stores⟩, ?_, statementsLeft_lt rfl (Nat.lt_succ_self _)⟩
      simp only [left, recordLeft, nextRecord, recordsLeft, Function.update_self, cells_update_sum]
      rw [← add_assoc, ← add_assoc, ← add_assoc]
  | advance =>
      cases action
      refine ⟨rfl, ⟨holds.mine, fun _ => holds.record (by decide),
        fun _ => ⟨(holds.iteration (by decide)).1, holds.cell (by decide)⟩,
        fun h => absurd h (by decide), fun x y stores => by cases stores⟩, rfl,
        statementsLeft_lt rfl ?_⟩
      have below := holds.cell (by decide)
      simp only [recordStatements]
      omega
  | acquire | release => cases action

/-- What the threads still have to add, and what they know at their statements. -/
def outline (positive : 0 < threadNum) (itr : Nat) (record : Nat → Record) :
    Outline (program itr threadNum record).code
      (program itr threadNum record).acc where
  owner := owner threadNum
  holds _ p := p.2.locked
  left _ p memory := left itr threadNum record p memory
  valid n p memory := Holds itr threadNum n p.1 p.2 memory
  fuel _ p := statementsLeft itr threadNum p
  acc_shared := rfl
  stable := by
    rintro n ⟨l, place⟩ m m' own sum holds
    refine ⟨⟨holds.mine, holds.record, holds.iteration, holds.cell, fun x y stores => ?_⟩,
      left_stable own holds⟩
    have held : place.locked = true := by
      obtain rfl : place = .store x y := stores
      rfl
    exact (holds.loaded x y stores).trans (sum held).symm
  locked := by
    rintro n ⟨l, place⟩ p m action holds
    cases place with
    | acquire =>
        cases action
        exact ⟨rfl, rfl, ⟨holds.mine, holds.record, holds.iteration, holds.cell,
          fun x y stores => by cases stores⟩, rfl, statementsLeft_lt rfl (Nat.lt_succ_self _)⟩
    | record | iteration | cell | scan =>
        simp only [program, externalCalculate] at action
        split at action <;> cases action
    | loadCell | loadSum | store | release | advance => cases action
  unlocked := by
    rintro n ⟨l, place⟩ p m action holds
    cases place with
    | release =>
        cases action
        exact ⟨rfl, rfl, ⟨holds.mine, holds.record, holds.iteration, holds.cell,
          fun x y stores => by cases stores⟩, rfl, statementsLeft_lt rfl (Nat.lt_succ_self _)⟩
    | record | iteration | cell | scan =>
        simp only [program, externalCalculate] at action
        split at action <;> cases action
    | acquire | loadCell | loadSum | store | advance => cases action
  moved := by
    rintro n ⟨l, place⟩ ⟨l', place'⟩ m m' action holds
    have moved := Holds.moved positive holds action
    exact ⟨moved.locked, moved.holds, moved.sum, moved.fewer⟩
  writes := by
    rintro n ⟨l, place⟩ p m v x action holds
    cases place with
    | store => exact .inr (by cases action; exact ⟨rfl, rfl⟩)
    | scan =>
        simp only [program, externalCalculate] at action
        split at action
        · cases action
          exact .inl ((owner_cell (holds.cell (Nat.le_refl 3))).trans (congrArg some holds.mine))
        · cases action
        · cases action
    | record | iteration | cell =>
        simp only [program, externalCalculate] at action
        split at action <;> cases action
    | acquire | loadCell | loadSum | release | advance => cases action
  stopped := by
    rintro n ⟨l, place⟩ m action holds
    cases place with
    | record =>
        obtain ⟨-, same⟩ | ⟨done, -⟩ := record_cases itr threadNum record n l
        · cases action.symm.trans same
        refine ⟨rfl, ?_⟩
        simp only [left, recordLeft, nextRecord, recordsLeft]
        rw [visits_eq_empty done, Finset.sum_empty, add_zero]
    | iteration | cell | scan =>
        simp only [program, externalCalculate] at action
        split at action <;> cases action
    | acquire | loadCell | loadSum | store | release | advance => cases action

theorem holds_begins (less : n < threadNum) (memory : Var → BitVec 32) :
    Holds itr threadNum n ⟨n, 0, 0, []⟩ .record memory :=
  ⟨Nat.mod_eq_of_lt less, fun h => absurd h (by decide), fun h => absurd h (by decide),
    fun h => absurd h (by decide), fun x y stores => by cases stores⟩

theorem starts (positive : 0 < threadNum) (memory : Var → BitVec 32) :
    Starts (program itr threadNum record) (outline positive itr record)
      memory :=
  ⟨fun _ less => holds_begins less memory, fun _ _ => rfl⟩

theorem total (positive : 0 < threadNum) :
    totalOf (program itr threadNum record) (outline positive itr record)
      (fun _ => 0) = verify itr record := by
  simp only [totalOf, outline, program, left, recordLeft, nextRecord, recordsLeft, zero_add]
  rw [sum_all _ positive, verify_eq_sum]
  rfl

theorem statements_eq (positive : 0 < threadNum) :
    statements (program itr threadNum record) (outline positive itr record) =
      (34 * itr + 2) * recordNum + 3 * threadNum + 5 := by
  simp only [statements, outline, program, statementsLeft, recordStatements, nextRecord, zero_add,
    Finset.sum_add_distrib, ← Finset.mul_sum, card_all positive, Finset.sum_const,
    Finset.card_range, smul_eq_mul]
  omega

end OsDesign.Benchmark.ExternalCal
