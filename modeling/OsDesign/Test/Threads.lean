import OsDesign.Heap.SingleTrunk
import OsDesign.Lib.CString
import OsDesign.Test.Program
import OsDesign.Whole.Tracked

/-!
The statements of `bigspender` and `tester` in the ideal process, where the thread has a heap
for its own. At each point there is an outline of what its block holds and of what it has
printed after so many statements.
-/
namespace OsDesign.Test

open Virt Pthread Whole Heap CString

/-- What a thread has printed after so many turns of its loop. -/
def output (who : Role) (turns : Nat) : List (List UInt8) :=
  message who :: List.replicate turns (text who)

/-- The statements of a turn: the calls of `malloc` and `free`, the bytes that are cleared
and copied, and those that are read, with the NUL. -/
def cycle (who : Role) : Nat := 515 + 2 * (text who).length

/-- The statements in front of a turn. -/
def begun (who : Role) (turns : Nat) : Nat := (message who).length + 1 + turns * cycle who

/-- The outline of the thread's heap. -/
def Stands (who : Role) (o : OwnHeap) (w : Local) : Prop :=
  match w.point with
  | .message read => o.Single [] ∧ read <+: message who
  | .allocating => o.Single []
  | .clearing i => o.Single [⟨w.p, 512⟩] ∧ i < 512 ∧ Begins o.byteAt w.p [] i
  | .copying i => o.Single [⟨w.p, 512⟩] ∧ i < (text who).length ∧
      Begins o.byteAt w.p ((text who).take i) 512
  | .reading read => o.Single [⟨w.p, 512⟩] ∧ read <+: text who ∧
      Begins o.byteAt w.p (text who) 512
  | .freeing => o.Single [⟨w.p, 512⟩]

/-- The outline of its output. -/
def Account (who : Role) (point : Point) (lines : List (List UInt8)) (n : Nat) : Prop :=
  match point with
  | .message read => lines = [] ∧ n = read.length
  | .allocating => ∃ turns, lines = output who turns ∧ n = begun who turns
  | .clearing i => ∃ turns, lines = output who turns ∧ n = begun who turns + 1 + i
  | .copying i => ∃ turns, lines = output who turns ∧ n = begun who turns + 513 + i
  | .reading read => ∃ turns, lines = output who turns ∧
      n = begun who turns + 513 + (text who).length + read.length
  | .freeing => ∃ turns, lines = output who (turns + 1) ∧
      n = begun who turns + 514 + 2 * (text who).length

/-- What a statement leaves of the heap `o`, the variables and the output. -/
structure Moved (who : Role) (o : OwnHeap) (w : Local) (lines : List (List UInt8)) (n : Nat)
    (o' : OwnHeap) (w' : Local × Option (List UInt8)) : Prop where
  stands : Stands who o' w'.1
  account : Account who w'.1.point (lines ++ w'.2.toList) (n + 1)
  arg : w'.1.arg = w.arg
  pages : o.pages ≤ o'.pages

/-- The message that the thread was given lies in the share section. -/
structure Given (who : Role) (shared : Nat → UInt8) (arg : Nat) : Prop where
  inShare : ∀ j, j < (message who).length + 1 → InShare (arg + j)
  begins : Begins shared arg (message who) ((message who).length + 1)

theorem body_eq (who : Role) : body who = threadFunction (text who) := by cases who <;> rfl

theorem message_nonzero (who : Role) : 0 ∉ message who := by cases who <;> decide +kernel

theorem text_nonzero (who : Role) : 0 ∉ text who := by cases who <;> decide +kernel

/-- The string and its NUL fit into the block. -/
theorem text_length (who : Role) : 0 < (text who).length ∧ (text who).length < 512 := by
  cases who <;> decide +kernel

theorem output_succ (who : Role) (turns : Nat) :
    output who turns ++ [text who] = output who (turns + 1) := by
  simp [output, List.replicate_succ']

theorem begun_succ (who : Role) (turns : Nat) :
    begun who (turns + 1) = begun who turns + cycle who := by
  rw [begun, begun, Nat.add_one_mul, ← Nat.add_assoc]

section Calls

variable {i : Ideal} {t : ThreadId} {o : OwnHeap} {address size ptr : Nat} {byte : UInt8}
  {blocks : List Heap.Block} {b : Heap.Block}

theorem call_load (running : i.sched.current = some t) (single : (i.own t).Single blocks)
    (hb : b ∈ blocks) (hlow : b.address ≤ address) (hhigh : address < b.address + b.size) :
    i.call (.load address) =
      some (.ok (i.setOwn t (i.own t), .byte ((i.own t).byteAt address))) := by
  have own := Tracked.not_inShare (single.sound.reaches hb hlow hhigh).1
  simp only [Ideal.call, Ideal.load, running, if_neg own, single.load hb hlow hhigh,
    Option.map_some, Ideal.setOwn_self]

theorem call_shareLoad (running : i.sched.current = some t) (shared : InShare address) :
    i.call (.load address) =
      some (.ok (i.setOwn t (i.own t), .byte (i.shared address))) := by
  simp only [Ideal.call, Ideal.load, running, if_pos shared, Ideal.setOwn_self]

theorem call_store (running : i.sched.current = some t) (single : (i.own t).Single blocks)
    (hb : b ∈ blocks) (hlow : b.address ≤ address) (hhigh : address < b.address + b.size)
    (byte : UInt8) : ∃ o, i.call (.store address byte) = some (.ok (i.setOwn t o, .done)) ∧
      o.Single blocks ∧ o.byteAt = Function.update (i.own t).byteAt address byte ∧
      (i.own t).pages ≤ o.pages := by
  obtain ⟨o, stored, single', bytes, pages⟩ := single.store hb hlow hhigh byte
  have own := Tracked.not_inShare (single.sound.reaches hb hlow hhigh).1
  refine ⟨o, ?_, single', bytes, pages.ge⟩
  simp only [Ideal.call, Ideal.store, running, if_neg own, stored, Option.map_some]

theorem call_malloc (running : i.sched.current = some t) (single : (i.own t).Single [])
    (served : 0 < size ∧ size ≤ 512) :
    ∃ o ptr, i.call (.malloc size) = some (.ok (i.setOwn t o, .pointer (some ptr))) ∧
      o.Single [⟨ptr, size⟩] ∧ (i.own t).pages ≤ o.pages := by
  obtain ⟨o, ptr, given, single', -, pages⟩ := single.malloc served
  refine ⟨o, ptr, ?_, single', pages⟩
  simp only [Ideal.call, Ideal.myMalloc, running, given, Option.map_some]

theorem call_free (running : i.sched.current = some t) (single : (i.own t).Single [b]) :
    ∃ o, i.call (.free b.address) = some (.ok (i.setOwn t o, .done)) ∧ o.Single [] ∧
      (i.own t).pages ≤ o.pages := by
  obtain ⟨o, freed, single', pages⟩ := single.free List.mem_cons_self
  have none : Heap.release [b] b.address = [] := by simp [Heap.release]
  rw [none] at single'
  refine ⟨o, ?_, single', pages⟩
  simp only [Ideal.call, Ideal.myFree, running, freed, Option.map_some]

end Calls

variable {i : Ideal} {t : ThreadId} {who : Role} {lines : List (List UInt8)} {arg p n j : Nat}
  {read : List UInt8}

/-- The thread makes its next call, and the outline holds behind it. -/
def Moves (who : Role) (i : Ideal) (t : ThreadId) (w : Local) (lines : List (List UInt8))
    (n : Nat) : Prop :=
  ∃ o a, i.call (threadFunction (text who) w).1 = some (.ok (i.setOwn t o, a)) ∧
    Moved who (i.own t) w lines n o ((threadFunction (text who) w).2 a)

/-- A byte of the message is read. -/
theorem moves_message (running : i.sched.current = some t) (given : Given who i.shared arg)
    (stands : Stands who (i.own t) ⟨arg, p, .message read⟩)
    (account : Account who (.message read) lines n) :
    Moves who i t ⟨arg, p, .message read⟩ lines n := by
  obtain ⟨single, prior⟩ := stands
  obtain ⟨rfl, rfl⟩ := account
  have within : read.length < (message who).length + 1 := Nat.lt_succ_of_le prior.length_le
  have loaded := call_shareLoad running (given.inShare _ within)
  rw [given.begins _ within] at loaded
  refine ⟨_, _, loaded, ?_⟩
  dsimp only [threadFunction, byteOf]
  rcases scan_cases (message_nonzero who) prior with ⟨nul, rfl⟩ | ⟨more, longer⟩
  · rw [scan, if_pos nul]
    exact ⟨single, ⟨0, rfl, by simp [begun]⟩, rfl, Nat.le_refl _⟩
  · rw [scan, if_neg more]
    exact ⟨⟨single, longer⟩, ⟨rfl, by simp⟩, rfl, Nat.le_refl _⟩

/-- The thread gets a block. -/
theorem moves_allocating (running : i.sched.current = some t)
    (stands : Stands who (i.own t) ⟨arg, p, .allocating⟩)
    (account : Account who .allocating lines n) : Moves who i t ⟨arg, p, .allocating⟩ lines n := by
  obtain ⟨turns, rfl, rfl⟩ := account
  obtain ⟨o, ptr, given, single, pages⟩ :=
    call_malloc running stands ⟨by decide, Nat.le_refl 512⟩
  refine ⟨o, _, given, ⟨single, by decide, .zero _ _ _⟩, ⟨turns, ?_, rfl⟩, rfl, pages⟩
  exact List.append_nil _

/-- A byte of the block is cleared. -/
theorem moves_clearing (running : i.sched.current = some t)
    (stands : Stands who (i.own t) ⟨arg, p, .clearing j⟩)
    (account : Account who (.clearing j) lines n) :
    Moves who i t ⟨arg, p, .clearing j⟩ lines n := by
  obtain ⟨single, within, begins⟩ := stands
  obtain ⟨turns, rfl, rfl⟩ := account
  obtain ⟨o, stored, single', bytes, pages⟩ := call_store running single List.mem_cons_self
    (Nat.le_add_right p j) (Nat.add_lt_add_left within p) 0
  have cleared : Begins o.byteAt p [] (j + 1) := bytes ▸ begins.push
  refine ⟨o, _, stored, ?_⟩
  dsimp only [threadFunction]
  by_cases more : j + 1 < 512
  · rw [loop, if_pos more]
    exact ⟨⟨single', more, cleared⟩, ⟨turns, List.append_nil _, rfl⟩, rfl, pages⟩
  · obtain rfl : j = 511 := by omega
    rw [loop, if_neg more]
    exact ⟨⟨single', (text_length who).1, cleared⟩, ⟨turns, List.append_nil _, rfl⟩, rfl, pages⟩

/-- A byte of the string is copied. -/
theorem moves_copying (running : i.sched.current = some t)
    (stands : Stands who (i.own t) ⟨arg, p, .copying j⟩)
    (account : Account who (.copying j) lines n) :
    Moves who i t ⟨arg, p, .copying j⟩ lines n := by
  obtain ⟨single, within, begins⟩ := stands
  obtain ⟨turns, rfl, rfl⟩ := account
  have fits := (text_length who).2
  obtain ⟨o, stored, single', bytes, pages⟩ := call_store running single List.mem_cons_self
    (Nat.le_add_right p j) (Nat.add_lt_add_left (within.trans fits) p) ((text who).getD j 0)
  have copied : Begins o.byteAt p ((text who).take (j + 1)) 512 := bytes ▸ begins.copy
  refine ⟨o, _, stored, ?_⟩
  dsimp only [threadFunction]
  by_cases more : j + 1 < (text who).length
  · rw [loop, if_pos more]
    exact ⟨⟨single', more, copied⟩, ⟨turns, List.append_nil _, rfl⟩, rfl, pages⟩
  · have last : j + 1 = (text who).length := by omega
    rw [last, List.take_length] at copied
    rw [loop, if_neg more]
    refine ⟨⟨single', List.nil_prefix, copied⟩, ⟨turns, List.append_nil _, ?_⟩, rfl, pages⟩
    rw [← last]
    rfl

/-- A byte of the block is read. -/
theorem moves_reading (running : i.sched.current = some t)
    (stands : Stands who (i.own t) ⟨arg, p, .reading read⟩)
    (account : Account who (.reading read) lines n) :
    Moves who i t ⟨arg, p, .reading read⟩ lines n := by
  obtain ⟨single, prior, begins⟩ := stands
  obtain ⟨turns, rfl, rfl⟩ := account
  have within : read.length < 512 := Nat.lt_of_le_of_lt prior.length_le (text_length who).2
  have loaded := call_load running single List.mem_cons_self (Nat.le_add_right p read.length)
    (Nat.add_lt_add_left within p)
  rw [begins _ within] at loaded
  refine ⟨_, _, loaded, ?_⟩
  dsimp only [threadFunction, byteOf]
  rcases scan_cases (text_nonzero who) prior with ⟨nul, rfl⟩ | ⟨more, longer⟩
  · rw [scan, if_pos nul]
    refine ⟨single, ⟨turns, output_succ who turns, ?_⟩, rfl, Nat.le_refl _⟩
    omega
  · rw [scan, if_neg more]
    refine ⟨⟨single, longer, begins⟩, ⟨turns, List.append_nil _, ?_⟩, rfl, Nat.le_refl _⟩
    rw [List.length_append]
    rfl

/-- The thread frees its block. -/
theorem moves_freeing (running : i.sched.current = some t)
    (stands : Stands who (i.own t) ⟨arg, p, .freeing⟩)
    (account : Account who .freeing lines n) : Moves who i t ⟨arg, p, .freeing⟩ lines n := by
  obtain ⟨turns, rfl, rfl⟩ := account
  obtain ⟨o, freed, single, pages⟩ := call_free running stands
  refine ⟨o, _, freed, single, ⟨turns + 1, List.append_nil _, ?_⟩, rfl, pages⟩
  rw [begun_succ, cycle]
  omega

/-- One statement of a thread. -/
theorem moves {w : Local} (running : i.sched.current = some t)
    (given : Given who i.shared w.arg) (stands : Stands who (i.own t) w)
    (account : Account who w.point lines n) : Moves who i t w lines n := by
  obtain ⟨arg, p, point⟩ := w
  cases point with
  | message read => exact moves_message running given stands account
  | allocating => exact moves_allocating running stands account
  | clearing j => exact moves_clearing running stands account
  | copying j => exact moves_copying running stands account
  | reading read => exact moves_reading running stands account
  | freeing => exact moves_freeing running stands account

/-- What a thread has printed after `n` statements. -/
def printedAfter (who : Role) (n : Nat) : List (List UInt8) :=
  if n ≤ (message who).length then []
  else output who ((n - (message who).length) / cycle who)

theorem printedAfter_begun {turns m : Nat} (few : m + 1 < cycle who) :
    printedAfter who (begun who turns + m) = output who turns := by
  have later : ¬ begun who turns + m ≤ (message who).length := by
    rw [begun]
    omega
  have count : begun who turns + m - (message who).length = m + 1 + turns * cycle who := by
    rw [begun]
    omega
  have positive : 0 < cycle who := Nat.lt_of_le_of_lt (Nat.zero_le _) few
  rw [printedAfter, if_neg later, count, Nat.add_mul_div_right _ _ positive,
    Nat.div_eq_of_lt few, Nat.zero_add]

/-- The output of a thread is determined by the number of its statements. -/
theorem Account.lines_eq {o : OwnHeap} {w : Local} (account : Account who w.point lines n)
    (stands : Stands who o w) : lines = printedAfter who n := by
  obtain ⟨arg, p, point⟩ := w
  have length : cycle who = 515 + 2 * (text who).length := rfl
  cases point with
  | message read =>
      obtain ⟨rfl, rfl⟩ := account
      exact (if_pos stands.2.length_le).symm
  | allocating =>
      obtain ⟨turns, rfl, rfl⟩ := account
      exact (printedAfter_begun (m := 0) (by omega)).symm
  | clearing j =>
      obtain ⟨turns, rfl, rfl⟩ := account
      have within : j < 512 := stands.2.1
      rw [Nat.add_assoc, printedAfter_begun (by omega)]
  | copying j =>
      obtain ⟨turns, rfl, rfl⟩ := account
      have within : j < (text who).length := stands.2.1
      rw [Nat.add_assoc, printedAfter_begun (by omega)]
  | reading read =>
      obtain ⟨turns, rfl, rfl⟩ := account
      have within : read.length ≤ (text who).length := stands.2.1.length_le
      rw [Nat.add_assoc, Nat.add_assoc, printedAfter_begun (by omega)]
  | freeing =>
      obtain ⟨turns, rfl, rfl⟩ := account
      have count : begun who turns + 514 + 2 * (text who).length - (message who).length =
          (turns + 1) * cycle who := by
        rw [begun, Nat.add_one_mul turns, length]
        omega
      have later : ¬ begun who turns + 514 + 2 * (text who).length ≤ (message who).length := by
        rw [begun]
        omega
      have positive : 0 < cycle who := by omega
      rw [printedAfter, if_neg later, count, Nat.mul_div_cancel _ positive]

end OsDesign.Test
