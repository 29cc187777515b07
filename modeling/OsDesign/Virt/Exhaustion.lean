import OsDesign.Virt.ThreadPages

/-!
Runs that use up the frames and the swap file. Threads that are created one
after another allocate until nothing is left, and the pages of the thread that
waits meanwhile stay its own.
-/
namespace OsDesign.Virt

open Loops Tally

namespace Process

/-- The steps of the other threads while `t` keeps its pages. -/
def Beside (t : ThreadId) (s : Process) (e : Event) : Prop := s.Enabled e ∧ s.Keeps t e

variable {s s' : Process} {t u : ThreadId} {n k : Nat}

theorem Inv.left_nonneg (inv : s.Inv) : 0 ≤ s.left := by
  have hframes := tally_le maxPhysicalPages fun i => (s.vm.gPfn i).used
  have hslots := tally_le maxSwapSlots s.vm.gSwap
  rw [left, inv.frames.count, inv.swaps.count]
  omega

theorem left_enter (s : Process) (next : ThreadId) : (s.enter next).left = s.left := by
  by_cases hentered : s.entered next = true
  · obtain ⟨bytes, access, hvm, -⟩ := mmSwitchVirtualPages_spec s.vm next
    simp only [Process.enter, hentered, if_true, hvm, left]
  · simp only [Process.enter, hentered, left]
    rfl

theorem Inv.left_switchTo (inv : s.Inv) (next : ThreadId) : (s.switchTo next).left = s.left := by
  cases hcurrent : s.current with
  | none => rw [switchTo_of_none hcurrent, left_enter]
  | some current =>
      obtain ⟨bytes, hvm, -⟩ :=
        mmStoreVirtualPagesBack_spec inv.frames (inv.currentLive current hcurrent)
      rw [switchTo_of_some hcurrent, left_enter, hvm]
      rfl

theorem current_enter (s : Process) (next : ThreadId) : (s.enter next).current = some next := by
  by_cases hentered : s.entered next = true <;> simp [enter, hentered]

theorem current_switchTo (s : Process) (next : ThreadId) :
    (s.switchTo next).current = some next := by
  cases hcurrent : s.current with
  | none => rw [switchTo_of_none hcurrent, current_enter]
  | some current => rw [switchTo_of_some hcurrent, current_enter]

/-- Each page that a running thread allocates takes a frame or a slot. -/
theorem FirstPages.allocate_many (pages : s.FirstPages u n) (hcurrent : s.current = some u)
    (hne : t ≠ u) (room : n + k ≤ maxVirtualPages) (enough : (k : Int) ≤ s.left) :
    ∃ s', Runs.Steps (Beside t) Step s (List.replicate k .allocatePage) s' ∧
      s'.FirstPages u (n + k) ∧ s'.current = some u ∧ s'.left = s.left - k ∧
      s'.live = s.live := by
  induction k generalizing s n with
  | zero => exact ⟨s, .nil s, pages, hcurrent, by omega, rfl⟩
  | succ k ih =>
      rcases pages.allocatePage hcurrent (by omega) with
        ⟨-, hnone⟩ | ⟨s₁, hok, pages₁, hcurrent₁, hlive, hleft, -⟩
      · omega
      · have taken : s.Step .allocatePage s₁ := by
          simp only [Step, next, hok]
          rfl
        have beside : Beside t s .allocatePage := by
          refine ⟨trivial, ?_⟩
          rw [Keeps, hcurrent]
          exact fun same => hne (Option.some.inj same).symm
        obtain ⟨s₂, run, pages₂, hcurrent₂, hleft₂, hlive₂⟩ :=
          ih pages₁ hcurrent₁ (by omega) (by omega)
        refine ⟨s₂, .cons beside taken run, ?_, hcurrent₂, by omega, hlive₂.trans hlive⟩
        rw [show n + (k + 1) = n + 1 + k by omega]
        exact pages₂

/-- A new thread runs and uses up `k` frames and slots. -/
theorem Inv.spend (inv : s.Inv) (new : s.live u = false) (ht : s.live t = true)
    (room : k ≤ maxVirtualPages) (enough : (k : Int) ≤ s.left) :
    ∃ s' es, Runs.Steps (Beside t) Step s es s' ∧ s'.Inv ∧ s'.current = some u ∧
      s'.left = s.left - k ∧ ∀ v, v ≠ u → s'.live v = s.live v := by
  have hne : t ≠ u := by
    intro same
    rw [same, new] at ht
    cases ht
  have hcreates : Beside t s (.create u) := ⟨new, trivial⟩
  have inv₁ := inv.created new
  have hlive₁ : (s.create u).live u = true := by simp [create]
  have hswitches : Beside t (s.create u) (.switchTo u) := by
    refine ⟨⟨hlive₁, ?_⟩, trivial⟩
    intro same
    rw [inv.currentLive u same] at new
    cases new
  have inv₂ : ((s.create u).switchTo u).Inv := inv₁.step hswitches.1 rfl
  have pages₁ : (s.create u).FirstPages u 0 :=
    ⟨inv₁, hlive₁, fun j hj => absurd hj (Nat.not_lt_zero j),
      fun j _ _ => view_clearPagetable_self s.vm u j⟩
  have pages₂ : ((s.create u).switchTo u).FirstPages u 0 :=
    pages₁.step hswitches.1 trivial rfl
  have hleft : ((s.create u).switchTo u).left = s.left := inv₁.left_switchTo u
  obtain ⟨s', run, pages, hcurrent, hleft', hlive⟩ :=
    pages₂.allocate_many (current_switchTo _ u) hne (by omega) (hleft.symm ▸ enough)
  refine ⟨s', _, .cons hcreates rfl (.cons hswitches rfl run), pages.inv, hcurrent, by omega, ?_⟩
  intro v hv
  rw [hlive, live_switchTo]
  simp [create, hv]

/-- Thread 0 waits while four threads take all that is left, and runs again. -/
theorem Inv.exhaust (inv : s.Inv) (hcurrent : s.current = some 0)
    (others : ∀ u, u ≠ 0 → s.live u = false) (hleft : s.left = 6142) :
    ∃ s' es, Runs.Steps (Beside 0) Step s es s' ∧ s'.Inv ∧ s'.current = some 0 ∧ s'.left = 0 := by
  have hmax := maxVirtualPages_eq
  have hlive := inv.currentLive 0 hcurrent
  obtain ⟨s₁, _, run₁, inv₁, -, hleft₁, hlive₁⟩ :=
    inv.spend (k := 2044) (others 1 (by decide)) hlive (by omega) (by omega)
  have hmain₁ : s₁.live 0 = true := (hlive₁ 0 (by decide)).trans hlive
  obtain ⟨s₂, _, run₂, inv₂, -, hleft₂, hlive₂⟩ :=
    inv₁.spend (k := 2044) (u := 2) (by rw [hlive₁ 2 (by decide)]; exact others 2 (by decide))
      hmain₁ (by omega) (by omega)
  have hmain₂ : s₂.live 0 = true := (hlive₂ 0 (by decide)).trans hmain₁
  obtain ⟨s₃, _, run₃, inv₃, -, hleft₃, hlive₃⟩ :=
    inv₂.spend (k := 2044) (u := 3)
      (by rw [hlive₂ 3 (by decide), hlive₁ 3 (by decide)]; exact others 3 (by decide))
      hmain₂ (by omega) (by omega)
  have hmain₃ : s₃.live 0 = true := (hlive₃ 0 (by decide)).trans hmain₂
  obtain ⟨s₄, _, run₄, inv₄, hcurrent₄, hleft₄, hlive₄⟩ :=
    inv₃.spend (k := 10) (u := 4)
      (by
        rw [hlive₃ 4 (by decide), hlive₂ 4 (by decide), hlive₁ 4 (by decide)]
        exact others 4 (by decide))
      hmain₃ (by omega) (by omega)
  have hmain₄ : s₄.live 0 = true := (hlive₄ 0 (by decide)).trans hmain₃
  have switches : Beside 0 s₄ (.switchTo 0) := by
    refine ⟨⟨hmain₄, ?_⟩, trivial⟩
    simp [hcurrent₄]
  have run := run₁.append (run₂.append (run₃.append (run₄.append (.single switches rfl))))
  refine ⟨_, _, run, inv₄.step switches.1 rfl, current_switchTo s₄ 0, ?_⟩
  rw [inv₄.left_switchTo]
  omega

end Process

end OsDesign.Virt
