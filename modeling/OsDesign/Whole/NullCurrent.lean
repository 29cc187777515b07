import OsDesign.Whole.Served

/-!
Runs from the start of the process. The main thread calls before and after the
initialisation; the threads that it creates call what they like.
-/
namespace OsDesign.Whole

open Virt Pthread Heap Outcome Runs

/-- A run with the block of the main thread, and the blocks that `my_malloc` has given to
this thread. -/
structure MainRun where
  state : State
  main : Option ThreadId
  blocks : List Nat

namespace MainRun

/-- The main thread makes the calls. -/
def AtMain (s : MainRun) : Prop := s.state.system.queues.current = s.main

instance (s : MainRun) : Decidable s.AtMain :=
  inferInstanceAs (Decidable (s.state.system.queues.current = s.main))

def mainAfter (s : MainRun) : Call → Option ThreadId
  | .init main _ _ => some main
  | .create main _ _ _ => if s.state.gPthreadInit then s.main else some main
  | _ => s.main

def blocksAfter (s : MainRun) : Call → Answer → List Nat
  | .malloc _, .pointer (some ptr) => ptr :: s.blocks
  | .free ptr, _ => s.blocks.erase ptr
  | _, _ => s.blocks

def next (s : MainRun) (c : Call) : Option MainRun :=
  (s.state.call c).toOption.map fun r =>
    { state := r.1
      main := s.mainAfter c
      blocks := if s.AtMain then s.blocksAfter c r.2 else s.blocks }

def Step (s : MainRun) (c : Call) (s' : MainRun) : Prop := s.next c = some s'

/-- What the main thread calls; the timer and the window are there from the initialisation
on. A second initialisation marks no frame without a thread. -/
def ByMain (s : MainRun) : Call → Prop
  | .init _ _ again => Owned again
  | .plain e => e.1 ≠ .exit ∧ (e.1 = .tick → s.state.gPthreadInit = true)
  | .free ptr => ptr ∈ s.blocks
  | .load _ | .store _ _ => s.state.gPthreadInit = true
  | _ => True

/-- Another thread calls what it likes, its exit included. -/
def ByOther (s : MainRun) : Call → Prop
  | .init _ _ _ => False
  | _ => s.state.system.queues.current ≠ none

def Permitted (s : MainRun) (c : Call) : Prop :=
  s.state.Enabled c ∧ if s.AtMain then s.ByMain c else s.ByOther c

def start : MainRun := ⟨.start, none, []⟩

structure Sound (s : MainRun) : Prop where
  state : s.state.Sound
  known : s.state.gPthreadInit = s.main.isSome
  empty : s.state.gPthreadInit = false → s.blocks = []

variable {s s' : MainRun} {c : Call}

theorem sound_start : start.Sound :=
  ⟨⟨State.wellFormed_start, nofun, fun _ => rfl⟩, rfl, fun _ => rfl⟩

theorem Sound.atMain (sound : s.Sound) (unset : s.state.gPthreadInit = false) : s.AtMain := by
  have unknown : s.main = none := by
    rw [← Option.isNone_iff_eq_none, ← Option.not_isSome, ← sound.known, unset]
    rfl
  rw [AtMain, unknown]
  exact sound.state.current_eq unset

/-- What a permitted call of a sound run does. -/
theorem Sound.call (sound : s.Sound) (permitted : s.Permitted c) :
    Ensures (fun failure => failure.IsNull → ¬ s.state.Serves c)
      (fun r => r.1.Sound ∧ r.1.gPthreadInit = (s.state.gPthreadInit || State.initialises c))
      (s.state.call c) := by
  obtain ⟨enabled, allowed⟩ := permitted
  by_cases main : s.AtMain
  · rw [if_pos main] at allowed
    refine sound.state.call enabled ?_ ?_ ?_
    · intro initialised
      rw [sound.known] at initialised
      rw [main]
      exact Option.isSome_iff_ne_none.mp initialised
    · intro unset
      have notSet : s.state.gPthreadInit ≠ true := Bool.eq_false_iff.mp unset
      cases c with
      | plain e => exact allowed.1
      | free ptr =>
          change ptr ∈ s.blocks at allowed
          rw [sound.empty unset] at allowed
          cases allowed
      | load _ | store _ _ => exact notSet allowed
      | _ => trivial
    · rintro m block vm rfl
      exact allowed
  · rw [if_neg main] at allowed
    refine sound.state.call enabled ?_ ?_ ?_
    · intro _
      cases c with
      | init _ _ _ => exact absurd allowed id
      | _ => exact allowed
    · exact fun unset => absurd (sound.atMain unset) main
    · rintro m block vm rfl
      exact absurd allowed id

theorem Sound.known_mainAfter (sound : s.Sound) (c : Call) :
    (s.state.gPthreadInit || State.initialises c) = (s.mainAfter c).isSome := by
  cases c with
  | init main block again => simp [State.initialises, mainAfter]
  | create main mainBlock ti block =>
      cases initialised : s.state.gPthreadInit with
      | true => simp [mainAfter, initialised, ← sound.known]
      | false => simp [State.initialises, mainAfter, initialised]
  | _ => exact (Bool.or_false _).trans sound.known

theorem Sound.step (sound : s.Sound) (permitted : s.Permitted c) (step : s.Step c s') :
    s'.Sound := by
  rw [Step, next] at step
  obtain ⟨⟨state, a⟩, returned, rfl⟩ := Option.map_eq_some_iff.mp step
  have called : s.state.call c = .ok (state, a) := toOption_eq_some_iff.mp returned
  obtain ⟨sound', initialised⟩ := (sound.call permitted).of_ok called
  change state.gPthreadInit = _ at initialised
  refine ⟨sound', initialised.trans (sound.known_mainAfter c), ?_⟩
  intro unset
  obtain ⟨before, later⟩ := Bool.or_eq_false_iff.mp (initialised.symm.trans unset)
  have main := sound.atMain before
  change (if s.AtMain then s.blocksAfter c a else s.blocks) = []
  rw [if_pos main]
  cases c with
  | malloc size =>
      simp only [State.call, State.myMalloc, sound.state.current_eq before] at called
      cases called
  | free ptr =>
      rw [blocksAfter, sound.empty before]
      rfl
  | _ => exact sound.empty before

theorem Sound.reachable (reach : Reachable (fun s => s = start)
    (fun s c => s.Permitted c ∧ s.state.Serves c) Step s) : s.Sound := by
  refine reach.invariant Sound ?_ fun _ _ _ permitted step sound => sound.step permitted.1 step
  rintro s rfl
  exact sound_start

/-- In every run from the start of the process whose calls are served, a call ends at NULL
exactly if it is not served. -/
theorem dereferences_null_iff (reach : Reachable (fun s => s = start)
    (fun s c => s.Permitted c ∧ s.state.Serves c) Step s)
    (permitted : s.Permitted c) : ¬ s.state.Dereferences c ↔ s.state.Serves c := by
  have sound := Sound.reachable reach
  constructor
  · intro safe
    by_contra refused
    exact safe (sound.state.dereferences refused)
  · rintro serves ⟨failure, failed, null⟩
    exact (sound.call permitted).of_error failed null serves

/-- A block that `malloc` left as it was. -/
def junk : Contents := ⟨some 5, 6, 7, fun _ => .zero, false, 8⟩

/-- The main thread creates a thread, which initialises the library, and calls `my_malloc`. -/
theorem dereferences_null_created : ∃ s, Reachable (fun s => s = start)
    (fun s c => s.Permitted c ∧ s.state.Serves c) Step s ∧ s.AtMain ∧
      ¬ s.state.Dereferences (.malloc 32) := by
  have created : (start.next (.create 0 junk 1 junk)).any
      (fun s => decide (s.AtMain ∧ s.state.gPthreadInit = true)) = true := by
    decide +kernel
  obtain ⟨s, step, h⟩ := (Option.any_eq_true _ _).mp created
  obtain ⟨main, initialised⟩ := of_decide_eq_true h
  have permitted : start.Permitted (.create 0 junk 1 junk) :=
    ⟨⟨rfl, fun _ => ⟨rfl, by decide⟩⟩, trivial⟩
  have reach : Reachable (fun s => s = start) (fun s c => s.Permitted c ∧ s.state.Serves c)
      Step s := ⟨start, _, rfl, .single ⟨permitted, trivial⟩ step⟩
  refine ⟨s, reach, main, (dereferences_null_iff (c := .malloc 32) reach ⟨trivial, ?_⟩).mpr
    initialised⟩
  rw [if_pos main]
  trivial

instance (table : MutexTable) (h : Nat) : Decidable (table.Contended h) :=
  inferInstanceAs (Decidable
    (h < Pthread.maxMutexNum ∧ (table h).used = true ∧ (table h).count ≠ 0))

/-- `my_malloc` is the first call of the process; or a mutex is locked twice before the
initialisation. -/
theorem malloc_reads_null :
    (start.Permitted (.malloc 32) ∧ start.state.Dereferences (.malloc 32)) ∧
      ∃ s, Reachable (fun s => s = start) Permitted Step s ∧
        s.Permitted (.plain ⟨.lock 1, nofun⟩) ∧
        s.state.Dereferences (.plain ⟨.lock 1, nofun⟩) := by
  refine ⟨⟨⟨trivial, trivial⟩, .virt .nullDereference, rfl, rfl⟩, ?_⟩
  have locked : (start.next (.plain ⟨.mutexInit, nofun⟩)).any (fun s =>
      decide (s.AtMain ∧ ¬ s.state.system.gMutexTable.Contended 1) &&
        (s.next (.plain ⟨.lock 1, nofun⟩)).any fun s =>
          decide (s.AtMain ∧ s.state.gPthreadInit = false ∧
            s.state.system.gMutexTable.Contended 1)) = true := by
    decide +kernel
  obtain ⟨s₁, first, h₁⟩ := (Option.any_eq_true _ _).mp locked
  obtain ⟨main₁, h₂⟩ := Bool.and_eq_true_iff.mp h₁
  obtain ⟨s₂, second, h₂⟩ := (Option.any_eq_true _ _).mp h₂
  obtain ⟨main₁, free⟩ := of_decide_eq_true main₁
  obtain ⟨main₂, unset, contended⟩ := of_decide_eq_true h₂
  have lockable : ∀ s : MainRun, s.AtMain → s.Permitted (.plain ⟨.lock 1, nofun⟩) := by
    intro s main
    refine ⟨trivial, ?_⟩
    rw [if_pos main]
    exact ⟨nofun, nofun⟩
  have served : s₁.state.Serves (.plain ⟨.lock 1, nofun⟩) := by
    refine .inr ?_
    rintro h (same | same) <;> cases same
    exact free
  have opening : start.Permitted (.plain ⟨.mutexInit, nofun⟩) := ⟨trivial, nofun, nofun⟩
  have opens : start.state.Serves (.plain ⟨.mutexInit, nofun⟩) := .inr fun h asks => by simp at asks
  have run : Steps (fun s c => s.Permitted c ∧ s.state.Serves c) Step start _ s₂ :=
    .cons ⟨opening, opens⟩ first (.single ⟨lockable s₁ main₁, served⟩ second)
  have refused : ¬ s₂.state.Serves (.plain ⟨.lock 1, nofun⟩) := by
    rintro (initialised | free)
    · rw [unset] at initialised
      cases initialised
    · exact free 1 (.inr rfl) contended
  refine ⟨s₂, ⟨start, _, rfl, run.mono fun s c permitted => permitted.1⟩, lockable s₂ main₂, ?_⟩
  exact (Sound.reachable ⟨start, _, rfl, run⟩).state.dereferences refused

end MainRun

end OsDesign.Whole
