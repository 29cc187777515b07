import OsDesign.Whole.Shows

/-!
Runs of the process and of the ideal one side by side, from the start of the process on.
Whatever the threads do and in whatever order they run, each sees the heap that it would
have alone, and all of them the same share section.
-/
namespace OsDesign.Whole

open Virt Pthread Heap Ideals

namespace SideBySide

def start : State × Ideal := (.start, .start)

/-- The blocks of a call are new, and that of the main thread is cleared. -/
def Permitted (p : State × Ideal) (c : Call) : Prop := p.1.Enabled c ∧ p.1.MainCleared c

def Step : State × Ideal → Call → State × Ideal → Prop := Ideals.Step State.call Ideal.call

variable {p p' : State × Ideal} {c : Call} {cs : List Call} {address : Nat}

theorem shows_of_steps (run : Runs.Steps Permitted Step start cs p) : p.1.Shows p.2 := by
  have one : ∀ s i c y, State.Shows s i → Permitted (s, i) c → i.call c = some y →
      Meets State.Shows s.Crowded (s.call c) y :=
    fun s i c y shows permitted promised => shows.call permitted.1 permitted.2 promised
  exact related_of_steps one run State.shows_start

/-- Each call has the outcome that the ideal process promises, or the swap file is full. -/
theorem call_as_promised (run : Runs.Steps Permitted Step start cs p) (permitted : Permitted p c)
    {y : Except Failure (Ideal × Answer)} (promised : p.2.call c = some y) :
    Meets (fun s i => s.system.sched = i.sched) p.1.Crowded (p.1.call c) y :=
  ((shows_of_steps run).call permitted.1 permitted.2 promised).imp (fun _ _ shows => shows.lists)
    fun _ lost => lost

/-- No call is lost before the threads have got as many pages as frames and slots exist,
up to three. -/
theorem call_not_lost (run : Runs.Steps Permitted Step start cs p) (permitted : Permitted p c)
    (room : p.2.granted + 3 < maxPhysicalPages + maxSwapSlots)
    {y : Except Failure (Ideal × Answer)} (promised : p.2.call c = some y) :
    Meets (fun s i => s.system.sched = i.sched) (fun _ => False) (p.1.call c) y := by
  have shows := shows_of_steps run
  have meets := shows.call_of_room permitted.1 permitted.2 room promised
  exact meets.imp (fun _ _ shows => shows.lists) fun _ lost => lost

/-- A run that is found by evaluation. -/
theorem exists_steps (cs : List Call) (cleared : ∀ c ∈ cs, ∀ s : State, s.MainCleared c)
    (P : State × Ideal → Bool) (runs : (Runs.run (fun p c => decide (p.1.Enabled c))
      (Ideals.next State.call Ideal.call) start cs).any P = true) :
    ∃ p, Runs.Steps Permitted Step start cs p ∧ P p = true := by
  obtain ⟨p, found, holds⟩ := (Option.any_eq_true _ _).mp runs
  refine ⟨p, (Runs.steps_of_run _ _ found).mono_of_mem ?_, holds⟩
  exact fun c mem p enabled => ⟨of_decide_eq_true enabled, cleared c mem p.1⟩

/-- A run that begins with `my_pthread_init` and does not come back to it. -/
theorem mainCleared_begin {cs : List Call} {main ti : ThreadId} {block : Contents} {again : Vm}
    (later : cs.any State.initialises = false) : ∀ c ∈ Call.init main zeroed again ::
      .create main zeroed ti block :: cs, ∀ s : State, s.MainCleared c := by
  intro c mem s
  rcases List.mem_cons.mp mem with rfl | mem
  · exact zeroed_cleared
  rcases List.mem_cons.mp mem with rfl | mem
  · exact fun _ => zeroed_cleared
  · have other := List.any_eq_false.mp later c mem
    cases c with
    | init _ _ _ | create _ _ _ _ => exact absurd rfl other
    | _ => trivial

/-- The main thread creates a thread and calls `my_malloc`. -/
theorem exists_malloc_run : ∃ (p : State × Ideal) (y : Except Failure (Ideal × Answer)),
    Runs.Steps Permitted Step start
      [.init 0 zeroed mmInit, .create 0 zeroed 1 zeroed, .malloc 32] p ∧
      p.2.granted = 2 ∧ p.2.call (.malloc 64) = some y := by
  obtain ⟨p, run, holds⟩ := exists_steps
    [.init 0 zeroed mmInit, .create 0 zeroed 1 zeroed, .malloc 32] (mainCleared_begin rfl)
    (fun p => decide (p.2.granted = 2) && (p.2.call (.malloc 64)).isSome) (by decide +kernel)
  obtain ⟨granted, promised⟩ := Bool.and_eq_true_iff.mp holds
  obtain ⟨y, promised⟩ := Option.isSome_iff_exists.mp promised
  exact ⟨p, y, run, of_decide_eq_true granted, promised⟩

/-- One more `my_malloc`. -/
theorem call_as_promised_malloc :
    ∃ (p : State × Ideal) (y : Except Failure (Ideal × Answer)), Runs.Steps Permitted Step start
      [.init 0 zeroed mmInit, .create 0 zeroed 1 zeroed, .malloc 32] p ∧
      Meets (fun s i => s.system.sched = i.sched) p.1.Crowded (p.1.call (.malloc 64)) y := by
  obtain ⟨p, y, run, -, promised⟩ := exists_malloc_run
  exact ⟨p, y, run, call_as_promised (c := .malloc 64) run ⟨trivial, trivial⟩ promised⟩

/-- The thread has got two pages. -/
theorem call_not_lost_malloc :
    ∃ (p : State × Ideal) (y : Except Failure (Ideal × Answer)), Runs.Steps Permitted Step start
      [.init 0 zeroed mmInit, .create 0 zeroed 1 zeroed, .malloc 32] p ∧
      Meets (fun s i => s.system.sched = i.sched) (fun _ => False) (p.1.call (.malloc 64)) y := by
  obtain ⟨p, y, run, granted, promised⟩ := exists_malloc_run
  have frames := maxPhysicalPages_eq
  have slots := maxSwapSlots_eq
  exact ⟨p, y, run, call_not_lost (c := .malloc 64) run ⟨trivial, trivial⟩ (by omega) promised⟩

/-- The byte at `address` behind a call, if it was `b` before. -/
def storedBy (address : Nat) (b : UInt8) : Call → UInt8
  | .store x byte => if x = address then byte else b
  | _ => b

/-- The byte that was stored last at `address`, by whatever thread; zero if none was. -/
def lastStored (address : Nat) (cs : List Call) : UInt8 := cs.foldl (storedBy address) 0

/-- Before the initialisation no thread runs and nothing was stored. -/
structure Blank (i : Ideal) : Prop where
  current : i.gPthreadInit = false → i.sched.current = none
  shared : i.gPthreadInit = false → ∀ x, i.shared x = 0

theorem blank_of_shows {s : State} {i : Ideal} (shows : s.Shows i)
    (shared : i.gPthreadInit = false → ∀ x, i.shared x = 0) : Blank i := by
  refine ⟨?_, shared⟩
  intro unset
  have idle := shows.idle (shows.init.trans unset)
  rw [shows.lists] at idle
  exact (Sched.threads_eq_nil.mp idle).1

theorem shared_addThread {i i' : Ideal} {ti : ThreadId} {block : Contents} {a : Answer}
    (h : i.addThread ti block = .ok (i', a)) :
    i'.shared = i.shared ∧ i'.gPthreadInit = i.gPthreadInit := by
  rw [Ideal.addThread] at h
  split at h
  · cases h
  · cases h
    exact ⟨rfl, rfl⟩

/-- One call of the ideal process: a store to the share section, or none. -/
theorem shared_call {i i' : Ideal} (blank : Blank i) {a : Answer}
    (h : i.call c = some (.ok (i', a))) :
    (∀ x, InShare x → i'.shared x = storedBy x (i.shared x) c) ∧
      (i'.gPthreadInit = false → ∀ x, i'.shared x = 0) := by
  have kept : ∀ {i₁ : Ideal}, i₁.shared = i.shared → i₁.gPthreadInit = i.gPthreadInit →
      (∀ x, storedBy x (i.shared x) c = i.shared x) →
      (∀ x, InShare x → i₁.shared x = storedBy x (i.shared x) c) ∧
        (i₁.gPthreadInit = false → ∀ x, i₁.shared x = 0) := by
    intro i₁ shared init unstored
    refine ⟨fun x _ => by rw [shared, unstored], ?_⟩
    intro unset x
    rw [shared]
    exact blank.shared (init.symm.trans unset) x
  cases c with
  | init main block again =>
      rw [Ideal.call] at h
      split at h
      · cases h
      · rename_i unset
        cases h
        refine ⟨fun x _ => ?_, fun still => by cases still⟩
        have before := blank.shared (by simpa using unset) x
        exact before.symm
  | create main mainBlock ti block =>
      simp only [Ideal.call, Option.some.injEq, Ideal.myPthreadCreate] at h
      split at h
      · obtain ⟨shared, init⟩ := shared_addThread h
        exact kept shared init fun _ => rfl
      · rename_i unset
        obtain ⟨shared, init⟩ := shared_addThread h
        refine ⟨fun x _ => ?_, ?_⟩
        · rw [shared]
          have before := blank.shared (by simpa using unset) x
          exact before.symm
        · intro still
          rw [init] at still
          cases still
  | plain e =>
      simp only [Ideal.call, Option.some.injEq, Ideal.plainCall] at h
      split at h
      · cases h
      · cases h
        exact kept rfl rfl fun _ => rfl
  | malloc size =>
      simp only [Ideal.call, Ideal.myMalloc] at h
      split at h
      · cases h
      · obtain ⟨r, -, same⟩ := Option.map_eq_some_iff.mp h
        cases same
        exact kept rfl rfl fun _ => rfl
  | free ptr =>
      simp only [Ideal.call, Ideal.myFree] at h
      split at h
      · cases h
      · obtain ⟨o, -, same⟩ := Option.map_eq_some_iff.mp h
        cases same
        exact kept rfl rfl fun _ => rfl
  | load address =>
      simp only [Ideal.call, Ideal.load] at h
      split at h
      · cases h
      · split at h
        · cases h
          exact kept rfl rfl fun _ => rfl
        · obtain ⟨o, -, same⟩ := Option.map_eq_some_iff.mp h
          cases same
          exact kept rfl rfl fun _ => rfl
  | store address byte =>
      simp only [Ideal.call, Ideal.store] at h
      split at h
      · cases h
      · rename_i t current
        have initialised : i.gPthreadInit = true := by
          cases unset : i.gPthreadInit with
          | true => rfl
          | false => cases current.symm.trans (blank.current unset)
        split at h
        · cases h
          refine ⟨fun x _ => ?_, ?_⟩
          · simp only [storedBy, Function.update_apply, eq_comm]
          · intro unset
            cases initialised.symm.trans unset
        · rename_i own
          obtain ⟨o, -, same⟩ := Option.map_eq_some_iff.mp h
          cases same
          refine ⟨fun x hx => ?_, ?_⟩
          · have other : address ≠ x := fun same => own (same ▸ hx)
            simp only [storedBy, if_neg other]
            rfl
          · intro unset
            cases initialised.symm.trans unset
  | shalloc size =>
      simp only [Ideal.call, Option.some.injEq, Ideal.shalloc] at h
      split at h
      · cases h
      · cases h
        exact kept rfl rfl fun _ => rfl
  | shfree ptr size =>
      simp only [Ideal.call, Option.some.injEq, Ideal.shfree] at h
      split at h
      · cases h
      · cases h
        exact kept rfl rfl fun _ => rfl

/-- What the threads stored in the share section, call after call. -/
theorem shared_of_steps (run : Runs.Steps Permitted Step p cs p') (shows : p.1.Shows p.2)
    (blank : p.2.gPthreadInit = false → ∀ x, p.2.shared x = 0) (shared : InShare address) :
    p'.2.shared address = cs.foldl (storedBy address) (p.2.shared address) := by
  induction run with
  | nil p => rfl
  | cons permitted taken rest ih =>
      rename_i p p₁ p₂ c cs
      obtain ⟨a, b, called, promised⟩ := step_iff.mp taken
      obtain ⟨stored, blank₁⟩ := shared_call (blank_of_shows shows blank) promised
      obtain ⟨i, same, shows₁⟩ := (shows.call permitted.1 permitted.2 promised).of_ok called
      cases same
      rw [ih shows₁ blank₁, stored address shared]
      rfl

/-- A byte of the share section reads as the last one that a thread stored there, whatever
was switched, evicted or ended in between. -/
theorem load_last_stored (run : Runs.Steps Permitted Step start cs p) (shared : InShare address)
    {t : ThreadId} (current : p.1.system.queues.current = some t) :
    p.1.call (.load address) = .ok (p.1, .byte (lastStored address cs)) := by
  have byte := shared_of_steps run State.shows_start (fun _ _ => rfl) shared
  have loaded := (shows_of_steps run).shareLoad current shared
  rw [byte] at loaded
  exact loaded

/-- The main thread stores a byte and yields; the thread that it created reads it. -/
theorem load_last_stored_yield : ∃ p : State × Ideal,
    p.1.system.queues.current = some 1 ∧
      p.1.call (.load 0x607FC010) = .ok (p.1, .byte 7) := by
  obtain ⟨p, run, holds⟩ := exists_steps [.init 0 zeroed mmInit, .create 0 zeroed 1 zeroed,
    .store 0x607FC010 7, .plain ⟨.yield, fun _ same => by cases same⟩] (mainCleared_begin rfl)
    (fun p => decide (p.1.system.queues.current = some 1)) (by decide +kernel)
  have current := of_decide_eq_true holds
  exact ⟨p, current, load_last_stored run ⟨by decide, by decide⟩ current⟩

end SideBySide

end OsDesign.Whole
