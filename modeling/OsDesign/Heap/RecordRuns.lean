import OsDesign.Heap.FirstFit

/-!
Every run of a thread's heap among the steps of the other threads. The requests
of an initialised heap are served first-fit for as long as the window has an
unused page and the process has a frame or a slot of the swap file to give.
-/
namespace OsDesign.Heap

open Virt ThreadHeap HeapMetadataT RecordHeap

/-- The heap of a thread with the blocks that it has not freed. -/
structure RecordRun where
  heap : RecordHeap
  blocks : List Block

/-- The calls of the thread, and the steps of the process between them. -/
inductive ThreadUse
  | malloc (size : Nat)
  | free (ptr : Nat)
  | process (e : Event)

namespace RecordRun

def withProcess (s : RecordRun) (process : Process) : RecordRun :=
  { s with heap := { s.heap with heap := { s.heap.heap with process := process } } }

def next (s : RecordRun) : ThreadUse → Except Stop RecordRun
  | .malloc size =>
      match s.heap.myMalloc size with
      | .error stop => .error stop
      | .ok (heap, ptr) => .ok ⟨heap, grow s.blocks size ptr⟩
  | .free ptr =>
      match s.heap.myFree ptr with
      | .error stop => .error stop
      | .ok heap => .ok ⟨heap, release s.blocks ptr⟩
  | .process e =>
      match s.heap.heap.process.next e with
      | .error stop => .error stop
      | .ok process => .ok (s.withProcess process)

def Step (s : RecordRun) (e : ThreadUse) (s' : RecordRun) : Prop := s.next e = .ok s'

/-- `t` calls when it runs and frees live blocks only. Between the calls any
thread may run; `t` neither ends nor calls `mm_allocate_page` by itself. -/
def Permitted (t : ThreadId) (s : RecordRun) : ThreadUse → Prop
  | .malloc _ => s.heap.heap.process.current = some t
  | .free ptr => s.heap.heap.process.current = some t ∧ ∃ b, b ∈ s.blocks ∧ b.address = ptr
  | .process e => Process.Beside t s.heap.heap.process e

/-- The thread has no page, and its heap is not initialised. -/
structure Uninitialised (t : ThreadId) (s : RecordRun) : Prop where
  reach : ∃ main, Runs.Reachable (fun p => p = Process.start main) Process.Enabled Process.Step
    s.heap.heap.process
  live : s.heap.heap.process.live t = true
  unused : ∀ j, j < maxVirtualPages → s.heap.heap.process.vm.view t j = .unused
  init : s.heap.heap.heapInit = false
  trunks : s.heap.heap.heapTrunkCount = 0
  blank : ∀ i, s.heap.records i = .zero
  blocks : s.blocks = []

/-- Before `my_malloc_init`, behind it, and once every page is in use. -/
inductive Inv (t : ThreadId) (s : RecordRun) : Prop
  | fresh (fresh : s.heap.Fresh t) (blocks : s.blocks = [])
  | sound (sound : s.heap.Sound t trunkLimit s.blocks)
  | full (pages : s.heap.heap.process.FirstPages t maxVirtualPages)

variable {s s' : RecordRun} {t : ThreadId} {size : Nat}

theorem Uninitialised.fresh (h : s.Uninitialised t) : s.heap.Fresh t := by
  obtain ⟨main, reach⟩ := h.reach
  have inv := Process.Inv.reachable (fun _ _ h => h) reach
  exact ⟨⟨inv, h.live, fun j hj => absurd hj (Nat.not_lt_zero j), fun j _ => h.unused j⟩, h.init,
    h.trunks, h.blank⟩

/-- A request keeps the heap sound, or the thread has no page left. -/
theorem Inv.mallocInitialised {h h' : RecordHeap} {blocks : List Block} {result : Option Nat}
    (sound : h.Sound t trunkLimit blocks) (hcurrent : h.heap.process.current = some t)
    (taken : h.mallocInitialised size = .ok (h', result)) :
    (⟨h', grow blocks size result⟩ : RecordRun).Inv t := by
  have hlimit := trunkLimit_succ
  cases sound.mallocInitialised hcurrent size with
  | panic refused left =>
      rw [refused] at taken
      cases taken
  | found k h₁ a ok inUse before gives =>
      rw [ok] at taken
      cases taken
      exact .sound (sound.gives inUse gives)
  | grown h₁ h₂ a ok noneFits more sound₁ gives =>
      rw [ok] at taken
      cases taken
      exact .sound (sound₁.gives (by rw [more.count_eq]; exact Nat.lt_succ_self _) gives)
  | refused h₁ h₂ ok noneFits more sound₁ faulted null =>
      rw [ok] at taken
      cases taken
      exact .sound (sound₁.faulted faulted)
  | beyond noneFits bound =>
      have hpages := sound.pages
      rw [Nat.min_eq_right (by omega)] at hpages
      exact .full (Full.mallocInitialised ⟨hpages, hcurrent⟩ taken).pages

theorem Inv.malloc (inv : s.Inv t) (hcurrent : s.heap.heap.process.current = some t)
    {heap : RecordHeap} {ptr : Option Nat} (taken : s.heap.myMalloc size = .ok (heap, ptr)) :
    (⟨heap, grow s.blocks size ptr⟩ : RecordRun).Inv t := by
  cases inv with
  | fresh fresh blocks =>
      rw [blocks]
      simp only [RecordHeap.myMalloc, hcurrent, fresh.init, if_true] at taken
      rcases fresh.myMallocInit hcurrent with
        ⟨⟨stop, hstop⟩, -⟩ | ⟨h₁, hstarted, sound, hcurrent₁, -⟩
      · simp [hstop] at taken
      · simp only [hstarted] at taken
        exact .mallocInitialised sound hcurrent₁ taken
  | sound sound =>
      rw [sound.myMalloc_eq hcurrent] at taken
      exact .mallocInitialised sound hcurrent taken
  | full pages => exact .full (Full.myMalloc ⟨pages, hcurrent⟩ taken).pages

theorem Inv.step (inv : s.Inv t) {e : ThreadUse} (permitted : s.Permitted t e)
    (taken : s.Step e s') : s'.Inv t := by
  cases e with
  | malloc size =>
      simp only [Step, next] at taken
      cases h : s.heap.myMalloc size with
      | error stop => simp [h] at taken
      | ok result =>
          simp only [h, Except.ok.injEq] at taken
          rw [← taken]
          exact inv.malloc permitted h
  | free ptr =>
      obtain ⟨hcurrent, b, hb, rfl⟩ := permitted
      simp only [Step, next] at taken
      cases h : s.heap.myFree b.address with
      | error stop => simp [h] at taken
      | ok heap =>
          simp only [h, Except.ok.injEq] at taken
          rw [← taken]
          cases inv with
          | fresh _ blocks =>
              rw [blocks] at hb
              cases hb
          | sound sound => exact .sound (sound.myFree hcurrent (sound.handled_live hb) h)
          | full pages => exact .full (Full.myFree ⟨pages, hcurrent⟩ h).pages
  | process e =>
      simp only [Step, next] at taken
      cases h : s.heap.heap.process.next e with
      | error stop => simp [h] at taken
      | ok process =>
          simp only [h, Except.ok.injEq] at taken
          rw [← taken]
          cases inv with
          | fresh fresh blocks =>
              exact .fresh ⟨fresh.pages.step permitted.1 permitted.2 h, fresh.init, fresh.trunks,
                fresh.blank⟩ blocks
          | sound sound =>
              exact .sound (sound.moved (sound.pages.step permitted.1 permitted.2 h))
          | full pages => exact .full (pages.step permitted.1 permitted.2 h)

theorem Inv.reachable (reach : Runs.Reachable (Uninitialised t) (Permitted t) Step s) :
    s.Inv t := by
  refine reach.invariant (Inv t) ?_ ?_
  · exact fun s h => .fresh h.fresh h.blocks
  · exact fun s e s' permitted taken inv => inv.step permitted taken

/-- While the window has an unused page, an initialised heap is sound and has room
for a trunk more. -/
theorem Inv.sound_of_unused (inv : s.Inv t) (hinit : s.heap.heap.heapInit = true) {j : Nat}
    (hj : j < maxVirtualPages) (unused : s.heap.heap.process.vm.view t j = .unused) :
    s.heap.Sound t trunkLimit s.blocks ∧ s.heap.heap.heapTrunkCount < trunkLimit := by
  have hlimit := trunkLimit_succ
  cases inv with
  | fresh fresh _ =>
      have hnot := fresh.init
      rw [hinit] at hnot
      cases hnot
  | sound sound =>
      refine ⟨sound, ?_⟩
      by_contra hfull
      have hpages := sound.pages
      rw [Nat.min_eq_right (by omega)] at hpages
      exact hpages.used j hj hj unused
  | full pages => exact absurd unused (pages.used j hj hj)

/-- In every reachable state of an initialised heap the pages in use are the first
one and those of the trunks; while the window has an unused page, a request of up
to 512 bytes is served first-fit, unless fewer than two frames and slots are left
and it ends in `swap_out`'s panic. -/
theorem first_fit_of_reachable (reach : Runs.Reachable (Uninitialised t) (Permitted t) Step s)
    (initialised : s.heap.heap.heapInit = true)
    (current : s.heap.heap.process.current = some t)
    (unused : ∃ j, j < maxVirtualPages ∧ s.heap.heap.process.vm.view t j = .unused)
    (positive : 0 < size) (small : size ≤ 512) :
    s.heap.TrunkPages t ∧
      ((s.heap.myMalloc size = .error (.panic "swap_out: Swap file is full\n") ∧
          s.heap.heap.process.left ≤ 1) ∨
        ∃ h' a, s.heap.myMalloc size = .ok (h', some a) ∧ s.heap.FirstFit h' t size a) := by
  obtain ⟨j, hj, hview⟩ := unused
  obtain ⟨sound, room⟩ := (Inv.reachable reach).sound_of_unused initialised hj hview
  exact ⟨sound.trunkPages, sound.firstFit current room positive small⟩

/-- While two frames or slots are left, the first trunk serves what it has a slot for. -/
theorem malloc_hit {h : RecordHeap} {blocks : List Block} {md : HeapMetadataT} {a : Nat}
    (sound : h.Sound t trunkLimit blocks) (hcurrent : h.heap.process.current = some t)
    (enough : 1 < h.heap.process.left) (positive : 0 < h.heap.heapTrunkCount)
    (hok : (h.records 0)._malloc (pageAddress 1) size = (md, some a)) :
    ∃ h', h.mallocInitialised size = .ok (h', some a) ∧
      h'.Sound t trunkLimit (⟨a, size⟩ :: blocks) ∧
      h'.heap.process.current = some t ∧ h'.heap.process.live = h.heap.process.live ∧
      h'.heap.process.left = h.heap.process.left ∧
      h'.heap.heapTrunkCount = h.heap.heapTrunkCount ∧ h'.records 0 = md := by
  rw [← sound.trunkBase_eq 0] at hok
  have fits : ¬ h.NoneFits size := by
    intro noneFits
    have hnull := noneFits 0 positive
    rw [hok] at hnull
    cases hnull
  cases sound.mallocInitialised hcurrent size with
  | panic refused left => omega
  | found k h' b taken inUse before gives =>
      have hk : k = 0 := by
        by_contra hpos
        have hnull := before 0 (Nat.pos_of_ne_zero hpos)
        rw [hok] at hnull
        cases hnull
      subst hk
      have sound' := sound.gives inUse gives
      obtain ⟨h₁, md', rfl, faulted, hmalloc⟩ := gives
      rw [hok, Prod.mk.injEq, Option.some.injEq] at hmalloc
      obtain ⟨rfl, rfl⟩ := hmalloc
      exact ⟨_, taken, sound', faulted.served.current.trans hcurrent, faulted.served.live,
        faulted.served.left, faulted.count_eq, records_setRecord_self h₁ 0 md⟩
  | grown h₁ h' b taken noneFits more sound₁ gives => exact absurd noneFits fits
  | refused h₁ h' taken noneFits more sound₁ faulted null => exact absurd noneFits fits
  | beyond noneFits bound => exact absurd noneFits fits

/-- The main thread before its first request. -/
def started : RecordRun := ⟨⟨⟨Process.start 0, false, 0, 0, 0⟩, fun _ => .zero⟩, []⟩

theorem started_uninitialised : started.Uninitialised 0 :=
  ⟨⟨0, .start rfl⟩, rfl, fun _ _ => Mmpte.view_zero, rfl, rfl, fun _ => rfl, rfl⟩

/-- The first trunk with both of its slots of 512 bytes taken. -/
def pairTaken : HeapMetadataT :=
  (HeapMetadataT.zero.occupy .region512 (0 : Fin 2)).occupy .region512 (1 : Fin 2)

/-- Two requests of 512 bytes, and the state behind them. -/
theorem pair_of_blocks :
    ∃ s : RecordRun, Runs.Steps (Permitted 0) Step started [.malloc 512, .malloc 512] s ∧
      s.blocks = [⟨0x60001e00, 512⟩, ⟨0x60001c00, 512⟩] ∧ s.heap.Sound 0 trunkLimit s.blocks ∧
      s.heap.heap.process.current = some 0 ∧ (∀ u, u ≠ 0 → s.heap.heap.process.live u = false) ∧
      s.heap.heap.process.left = 6142 ∧ s.heap.heap.heapTrunkCount = 1 ∧
      s.heap.records 0 = pairTaken := by
  have fresh := started_uninitialised.fresh
  have hcurrent : started.heap.heap.process.current = some 0 := rfl
  have hinit : started.heap.heap.heapInit = false := rfl
  have hlives : ∀ u, u ≠ 0 → started.heap.heap.process.live u = false := by
    intro u hu
    change (u == 0) = false
    simpa using hu
  have hleft : started.heap.heap.process.left = 6144 := by
    change (maxPhysicalPages + maxSwapSlots : Int) - 0 - 0 = 6144
    rw [maxPhysicalPages_eq, maxSwapSlots_eq]
    rfl
  rcases fresh.myMallocInit hcurrent with
    ⟨-, hfew⟩ | ⟨h₀, hstarted, sound₀, hcurrent₀, hlive₀, hleft₀, hcount₀, hrecords₀, -⟩
  · omega
  · have hfirst : (h₀.records 0)._malloc (pageAddress 1) 512 =
        (HeapMetadataT.zero.occupy .region512 (0 : Fin 2), some 0x60001c00) := by
      rw [hrecords₀]
      rfl
    obtain ⟨h₁, hok₁, sound₁, hcurrent₁, hlive₁, hleft₁, hcount₁, hrecord₁⟩ :=
      malloc_hit sound₀ hcurrent₀ (by omega) (by omega) hfirst
    have hsecond : (h₁.records 0)._malloc (pageAddress 1) 512 =
        (pairTaken, some 0x60001e00) := by
      rw [hrecord₁]
      rfl
    obtain ⟨h₂, hok₂, sound₂, hcurrent₂, hlive₂, hleft₂, hcount₂, hrecord₂⟩ :=
      malloc_hit sound₁ hcurrent₁ (by omega) (by omega) hsecond
    have one : started.Step (.malloc 512) ⟨h₁, [⟨0x60001c00, 512⟩]⟩ := by
      simp only [Step, next, RecordHeap.myMalloc, hcurrent, hinit, if_true, hstarted, hok₁]
      rfl
    have two : (⟨h₁, [⟨0x60001c00, 512⟩]⟩ : RecordRun).Step (.malloc 512)
        ⟨h₂, [⟨0x60001e00, 512⟩, ⟨0x60001c00, 512⟩]⟩ := by
      simp only [Step, next, sound₁.myMalloc_eq hcurrent₁, hok₂]
      rfl
    refine ⟨⟨h₂, [⟨0x60001e00, 512⟩, ⟨0x60001c00, 512⟩]⟩,
      .cons hcurrent one (.single hcurrent₁ two), rfl, sound₂, hcurrent₂, ?_, ?_,
      hcount₂.trans (hcount₁.trans hcount₀), hrecord₂⟩
    · intro u hu
      rw [hlive₂, hlive₁, hlive₀]
      exact hlives u hu
    · change h₂.heap.process.left = 6142
      omega

/-- A third request of the size adds a trunk. -/
theorem first_fit_after_pair :
    ∃ s : RecordRun, s.blocks = [⟨0x60001e00, 512⟩, ⟨0x60001c00, 512⟩] ∧ s.heap.TrunkPages 0 ∧
      ∃ h' a, s.heap.myMalloc 512 = .ok (h', some a) ∧ s.heap.FirstFit h' 0 512 a := by
  have hmax := maxVirtualPages_eq
  obtain ⟨s, run, hblocks, sound, hcurrent, -, hleft, hcount, -⟩ := pair_of_blocks
  have hpages := sound.pages
  rw [hcount, Nat.min_eq_left (by omega)] at hpages
  have positive : 0 < 512 := by decide
  obtain ⟨trunkPages, ⟨-, hfew⟩ | served⟩ := first_fit_of_reachable
    ⟨started, _, started_uninitialised, run⟩ sound.init hcurrent
    ⟨2, by omega, hpages.rest 2 (Nat.le_refl 2) (by omega)⟩ positive (Nat.le_refl 512)
  · omega
  · exact ⟨s, hblocks, trunkPages, served⟩

theorem steps_process (s : RecordRun) {es : List Event} {process : Process}
    (run : Runs.Steps (Process.Beside t) Process.Step s.heap.heap.process es process) :
    Runs.Steps (Permitted t) Step s (es.map .process) (s.withProcess process) := by
  generalize hstart : s.heap.heap.process = start at run
  induction run generalizing s with
  | nil =>
      subst hstart
      exact .nil s
  | cons permitted taken rest ih =>
      rename_i p p' p'' e es
      subst hstart
      have one : s.Step (.process e) (s.withProcess p') := by
        change s.heap.heap.process.next e = .ok p' at taken
        simp only [Step, next, taken]
      exact .cons permitted one (ih (s.withProcess p') rfl)

/-- With every frame and slot in use, a request that needs a trunk ends the process
although the window has an unused page. -/
theorem request_panics :
    ¬ ∀ (s : RecordRun) (t : ThreadId) (size : Nat),
      Runs.Reachable (Uninitialised t) (Permitted t) Step s → s.heap.heap.heapInit = true →
      s.heap.heap.process.current = some t →
      (∃ j, j < maxVirtualPages ∧ s.heap.heap.process.vm.view t j = .unused) →
      0 < size → size ≤ 512 → ∃ h' a, s.heap.myMalloc size = .ok (h', some a) := by
  intro always
  have hmax := maxVirtualPages_eq
  have hlimit := trunkLimit_succ
  obtain ⟨s, run, hblocks, sound, hcurrent, others, hleft, hcount, hrecord⟩ := pair_of_blocks
  obtain ⟨process, es, spent, inv, hcurrent', hleft'⟩ :=
    sound.pages.inv.exhaust hcurrent others hleft
  have hpages : process.FirstPages 0 2 := by
    have start := sound.pages
    rw [hcount, Nat.min_eq_left (by omega)] at start
    exact spent.preserves (fun p => p.FirstPages 0 2)
      (fun _ _ _ beside taken pages => pages.step beside.1 beside.2 taken) start
  have sound' : (s.withProcess process).heap.Sound 0 trunkLimit s.blocks := by
    apply sound.moved
    rw [hcount, Nat.min_eq_left (by omega)]
    exact hpages
  obtain ⟨h', a, hok⟩ := always (s.withProcess process) 0 512
    ⟨started, _, started_uninitialised, run.append (steps_process s spent)⟩ sound.init hcurrent'
    ⟨2, by omega, hpages.rest 2 (Nat.le_refl 2) (by omega)⟩ (by decide) (by decide)
  have noneFits : (s.withProcess process).heap.NoneFits 512 := by
    intro i hi
    obtain rfl : i = 0 := by
      change i < s.heap.heap.heapTrunkCount at hi
      omega
    change ((s.heap.records 0)._malloc _ 512).2 = none
    rw [hrecord]
    rfl
  have room : (s.withProcess process).heap.heap.heapTrunkCount < trunkLimit := by
    change s.heap.heap.heapTrunkCount < trunkLimit
    omega
  rw [sound'.malloc_panics hcurrent' room (Int.le_of_eq hleft') noneFits] at hok
  cases hok

end RecordRun

end OsDesign.Heap
