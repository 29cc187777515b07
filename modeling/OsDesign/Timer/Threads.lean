import OsDesign.Timer.Spinlock

/-!
The threads that wait for the processor and the flow that has it. A waiting
thread has a context of its own, saved where it may go on, and a thread that
`my_pthread_create` is about to queue belongs to one flow only.
-/
namespace OsDesign.Timer

open Pthread Virt TailQueue

/-- In front of `swapcontext` or `setcontext`, and between `free_thread_info` and
`CURRENT = NULL`. -/
def Pc.inWindow : Pc → Bool
  | .swapcontext _ | .setcontext | .exitNull => true
  | _ => false

/-- The timer may come here: the spinlock is free, and `CURRENT` is the running thread. -/
def Pc.calm (pc : Pc) : Bool := !pc.masked && !pc.holding && !pc.inWindow

/-- The statements that find the next thread and switch to it. -/
def Pc.switches : Pc → Bool
  | .scheduleEmpty | .scheduleNull | .scheduleTmp | .scheduleStore _ => true
  | .stopTimer (.switch _) | .spin (.switch _) | .setLock (.switch _)
  | .startTimer (.switch _) => true
  | .first _ | .removeHead _ | .insertReady (.switch _) _ | .insertWait _
  | .unlock (.switch _) => true
  | .swapcontext _ | .setcontext | .switchPages => true
  | _ => false

/-- The new thread that the statements lead to the ready queue. -/
def Pc.making : Pc → Option ThreadId
  | .stopTimer (.create ti) | .spin (.create ti) | .setLock (.create ti)
  | .startTimer (.create ti) | .insertReady (.create ti) _ => some ti
  | _ => none

namespace Flow

/-- The thread that the flow is, until it has ended. -/
def own (f : Flow) : List ThreadId := if f.exited = true then [] else [f.owner]

/-- `tmp` names the thread that runs the statement. -/
def Names (f : Flow) (tmp : ThreadId) : Prop := f.exited = false ∧ tmp = f.owner

def making (f : Flow) : Option ThreadId := (f.interrupted.getD f.pc).making

end Flow

/-- The NULL branch is that of a thread that has ended. -/
def Switch.Fits (f : Flow) : Switch → Prop
  | .dispatch => f.exited = true
  | .yield tmp | .wait tmp => f.Names tmp

/-- The locals of a statement belong to the flow. -/
def Pc.Fits (f : Flow) : Pc → Prop
  | .scheduleStore tmp | .swapStore tmp | .insertWait tmp | .swapcontext tmp => f.Names tmp
  | .stopTimer (.switch w) | .spin (.switch w) | .setLock (.switch w) | .startTimer (.switch w)
  | .unlock (.switch w) | .first w | .removeHead w => w.Fits f
  | .insertReady (.switch w) t => w.Fits f ∧ f.Names t
  | .insertReady (.create ti) t => t = ti
  | .setcontext => f.exited = true
  | .exitNull => f.exited = false
  | _ => True

theorem Switch.fits_congr {f g : Flow} (exited : g.exited = f.exited) (owner : g.owner = f.owner)
    {w : Switch} (fits : w.Fits f) : w.Fits g := by
  cases w with
  | dispatch => exact exited.trans fits
  | yield _ | wait _ => exact ⟨exited.trans fits.1, fits.2.trans owner.symm⟩

theorem Pc.fits_congr {f g : Flow} (exited : g.exited = f.exited) (owner : g.owner = f.owner)
    {pc : Pc} (fits : pc.Fits f) : pc.Fits g := by
  have names : ∀ tmp, f.Names tmp → g.Names tmp :=
    fun tmp h => ⟨exited.trans h.1, h.2.trans owner.symm⟩
  cases pc with
  | scheduleStore tmp | swapStore tmp | insertWait tmp | swapcontext tmp => exact names tmp fits
  | first w | removeHead w => exact Switch.fits_congr exited owner fits
  | stopTimer sec | spin sec | setLock sec | startTimer sec | unlock sec =>
      cases sec with
      | switch w => exact Switch.fits_congr exited owner fits
      | create _ | release _ _ => trivial
  | insertReady sec t =>
      cases sec with
      | switch w => exact ⟨Switch.fits_congr exited owner fits.1, names t fits.2⟩
      | create _ => exact fits
      | release _ _ => trivial
  | setcontext | exitNull => exact exited.trans fits
  | _ => trivial

theorem Pc.calm_ne_exitNull {pc : Pc} (calm : pc.calm = true) : pc ≠ .exitNull := by
  intro h
  rw [h] at calm
  cases calm

namespace Flow

/-- What is saved for thread `t`. -/
structure Rests (f : Flow) (t : ThreadId) : Prop where
  owner : f.owner = t
  exited : f.exited = false
  pc : f.pc = .user ∧ f.interrupted = none ∨ f.pc = .switchPages
  below : ∀ b, f.interrupted = some b → b.calm = true ∧ b.Fits f

theorem Rests.start (t : ThreadId) : (start t).Rests t :=
  ⟨rfl, rfl, .inl ⟨rfl, rfl⟩, fun _ h => nomatch h⟩

theorem Rests.ne_exitNull {f : Flow} {t : ThreadId} (rests : f.Rests t) : f.pc ≠ .exitNull := by
  intro hpc
  cases rests.pc with
  | inl user => cases user.1.symm.trans hpc
  | inr pages => cases pages.symm.trans hpc

theorem Rests.fits {f : Flow} {t : ThreadId} (rests : f.Rests t) : f.pc.Fits f := by
  cases rests.pc with
  | inl user =>
      rw [user.1]
      trivial
  | inr pages =>
      rw [pages]
      trivial

theorem Rests.switches {f : Flow} {t : ThreadId} (rests : f.Rests t)
    (below : f.interrupted ≠ none) : f.pc.switches = true := by
  cases rests.pc with
  | inl user => exact absurd user.2 below
  | inr pages =>
      rw [pages]
      rfl

theorem own_of_exited {f : Flow} (h : f.exited = true) : f.own = [] := if_pos h

theorem own_of_running {f : Flow} (h : f.exited = false) : f.own = [f.owner] :=
  if_neg (by simp [h])

theorem exited_of_own {f : Flow} (h : f.own.head? = none) : f.exited = true := by
  by_contra hne
  rw [own_of_running (Bool.eq_false_of_not_eq_true hne)] at h
  cases h

theorem names_of_own {f : Flow} {t : ThreadId} (h : f.own.head? = some t) : f.Names t := by
  by_cases hexited : f.exited = true
  · rw [own_of_exited hexited] at h
    cases h
  · have hrunning := Bool.eq_false_of_not_eq_true hexited
    rw [own_of_running hrunning] at h
    exact ⟨hrunning, (Option.some.inj h).symm⟩

end Flow

namespace Machine

variable {s s' : Machine} {waiting : List ThreadId} {t n x : ThreadId} {f : Flow}

/-- The threads that wait for the processor. -/
structure Suspended (s : Machine) (waiting : List ThreadId) : Prop where
  nodup : waiting.Nodup
  live : ∀ t, t ∈ waiting → s.live t = true
  context : ∀ t, t ∈ waiting → ∃ f, s.context t = some f ∧ f.Rests t
  making : ∀ t, t ∈ waiting → ∀ f x, s.context t = some f → f.making = some x →
    s.live x = true ∧ x ∉ waiting ∧ s.context x = some (Flow.start x)
  apart : ∀ t, t ∈ waiting → ∀ u, u ∈ waiting → ∀ f g x, s.context t = some f →
    s.context u = some g → f.making = some x → g.making = some x → t = u

/-- The running flow beside the threads that wait. -/
structure Threads (s : Machine) (waiting : List ThreadId) : Prop where
  suspended : s.Suspended waiting
  owner : s.running.exited = false → s.running.owner ∉ waiting
  alive : s.running.exited = false → s.running.pc ≠ .exitNull → s.live s.running.owner = true
  dead : s.running.pc = .exitNull → s.live s.running.owner = false
  fits : s.running.pc.Fits s.running
  below : ∀ b, s.running.interrupted = some b → b.calm = true ∧ b.Fits s.running
  handler : s.running.interrupted ≠ none → s.running.pc.switches = true
  making : ∀ x, s.running.making = some x → s.live x = true ∧ x ∉ waiting ∧ x ∉ s.running.own ∧
    s.context x = some (Flow.start x) ∧
    ∀ t, t ∈ waiting → ∀ f, s.context t = some f → f.making ≠ some x
  foreign : ∀ t, t ∈ waiting → ∀ f x, s.context t = some f → f.making = some x →
    x ∉ s.running.own

theorem Suspended.perm {waiting' : List ThreadId} (suspended : s.Suspended waiting)
    (perm : waiting'.Perm waiting) : s.Suspended waiting' := by
  refine ⟨perm.nodup_iff.mpr suspended.nodup, fun t ht => suspended.live t (perm.mem_iff.mp ht),
    fun t ht => suspended.context t (perm.mem_iff.mp ht), ?_, ?_⟩
  · intro t ht f x hf hx
    obtain ⟨hlive, hnot, hstart⟩ := suspended.making t (perm.mem_iff.mp ht) f x hf hx
    exact ⟨hlive, fun h => hnot (perm.mem_iff.mp h), hstart⟩
  · intro t ht u hu
    exact suspended.apart t (perm.mem_iff.mp ht) u (perm.mem_iff.mp hu)

/-- The threads that wait keep what they have, and so do the new threads they make. -/
theorem Suspended.congr (suspended : s.Suspended waiting)
    (kept : ∀ t, t ∈ waiting → s'.live t = s.live t ∧ s'.context t = s.context t)
    (made : ∀ t, t ∈ waiting → ∀ f x, s.context t = some f → f.making = some x →
      s'.live x = s.live x ∧ s'.context x = s.context x) : s'.Suspended waiting := by
  refine ⟨suspended.nodup, ?_, ?_, ?_, ?_⟩
  · intro t ht
    rw [(kept t ht).1]
    exact suspended.live t ht
  · intro t ht
    rw [(kept t ht).2]
    exact suspended.context t ht
  · intro t ht f x hf hx
    rw [(kept t ht).2] at hf
    rw [(made t ht f x hf hx).1, (made t ht f x hf hx).2]
    exact suspended.making t ht f x hf hx
  · intro t ht u hu f g x hf hg
    rw [(kept t ht).2] at hf
    rw [(kept u hu).2] at hg
    exact suspended.apart t ht u hu f g x hf hg

theorem Suspended.of_eq (suspended : s.Suspended waiting) (live : s'.live = s.live)
    (context : s'.context = s.context) : s'.Suspended waiting :=
  suspended.congr (fun t _ => ⟨congrFun live t, congrFun context t⟩)
    fun _ _ _ x _ _ => ⟨congrFun live x, congrFun context x⟩

theorem Suspended.tail (suspended : s.Suspended (n :: waiting)) : s.Suspended waiting := by
  have hmem : ∀ t, t ∈ waiting → t ∈ n :: waiting := fun t ht => List.mem_cons_of_mem n ht
  refine ⟨(List.nodup_cons.mp suspended.nodup).2, fun t ht => suspended.live t (hmem t ht),
    fun t ht => suspended.context t (hmem t ht), ?_, ?_⟩
  · intro t ht f x hf hx
    obtain ⟨hlive, hnot, hstart⟩ := suspended.making t (hmem t ht) f x hf hx
    exact ⟨hlive, fun h => hnot (hmem x h), hstart⟩
  · intro t ht u hu
    exact suspended.apart t (hmem t ht) u (hmem u hu)

/-- One thread more waits, and makes no thread that another one makes. -/
theorem Suspended.cons (suspended : s.Suspended waiting) (fresh : t ∉ waiting)
    (live : s.live t = true) (context : s.context t = some f) (rests : f.Rests t)
    (makes : ∀ x, f.making = some x →
      s.live x = true ∧ x ∉ t :: waiting ∧ s.context x = some (Flow.start x))
    (apart : ∀ u, u ∈ waiting → ∀ g x, s.context u = some g → g.making = some x →
      x ≠ t ∧ f.making ≠ some x) : s.Suspended (t :: waiting) := by
  refine ⟨List.nodup_cons.mpr ⟨fresh, suspended.nodup⟩, ?_, ?_, ?_, ?_⟩
  · intro u hu
    cases List.mem_cons.mp hu with
    | inl same => exact same ▸ live
    | inr hu => exact suspended.live u hu
  · intro u hu
    cases List.mem_cons.mp hu with
    | inl same => exact ⟨f, same ▸ context, same ▸ rests⟩
    | inr hu => exact suspended.context u hu
  · intro u hu g x hg hx
    cases List.mem_cons.mp hu with
    | inl same =>
        rw [same, context, Option.some.injEq] at hg
        exact makes x (hg ▸ hx)
    | inr hu =>
        obtain ⟨hlive, hnot, hstart⟩ := suspended.making u hu g x hg hx
        refine ⟨hlive, ?_, hstart⟩
        rw [List.mem_cons, not_or]
        exact ⟨(apart u hu g x hg hx).1, hnot⟩
  · intro u hu v hv g k x hg hk hgx hkx
    cases List.mem_cons.mp hu with
    | inl same =>
        cases List.mem_cons.mp hv with
        | inl same' => exact same.trans same'.symm
        | inr hv =>
            rw [same, context, Option.some.injEq] at hg
            rw [← hg] at hgx
            exact absurd hgx (apart v hv k x hk hkx).2
    | inr hu =>
        cases List.mem_cons.mp hv with
        | inl same =>
            rw [same, context, Option.some.injEq] at hk
            rw [← hk] at hkx
            exact absurd hkx (apart u hu g x hg hgx).2
        | inr hv => exact suspended.apart u hu v hv g k x hg hk hgx hkx

/-- A suspended thread gets the processor. -/
theorem Suspended.resume (suspended : s.Suspended (n :: waiting)) (context : s.context n = some f) :
    ({ s with running := f } : Machine).Threads waiting := by
  have hn : n ∈ n :: waiting := List.mem_cons_self
  have hmem : ∀ t, t ∈ waiting → t ∈ n :: waiting := fun t ht => List.mem_cons_of_mem n ht
  have hfresh : n ∉ waiting := (List.nodup_cons.mp suspended.nodup).1
  obtain ⟨g, hg, hrests⟩ := suspended.context n hn
  have hgf : g = f := Option.some.inj (hg.symm.trans context)
  subst hgf
  have hown : g.own = [n] := by rw [Flow.own_of_running hrests.exited, hrests.owner]
  refine ⟨suspended.tail.of_eq rfl rfl, ?_, ?_, fun hpc => absurd hpc hrests.ne_exitNull,
    hrests.fits, hrests.below, hrests.switches, ?_, ?_⟩
  · intro _
    change g.owner ∉ waiting
    rw [hrests.owner]
    exact hfresh
  · intro _ _
    change s.live g.owner = true
    rw [hrests.owner]
    exact suspended.live n hn
  · intro x hx
    obtain ⟨hlive, hnot, hstart⟩ := suspended.making n hn g x hg hx
    rw [List.mem_cons, not_or] at hnot
    refine ⟨hlive, hnot.2, ?_, hstart, ?_⟩
    · change x ∉ g.own
      rw [hown, List.mem_singleton]
      exact hnot.1
    · intro t ht f hf hmaking
      have := suspended.apart t (hmem t ht) n hn f g x hf hg hmaking hx
      exact hfresh (this ▸ ht)
  · intro t ht f x hf hx
    obtain ⟨-, hnot, -⟩ := suspended.making t (hmem t ht) f x hf hx
    change x ∉ g.own
    rw [hown, List.mem_singleton]
    exact fun h => hnot (h ▸ hn)

/-- The running flow goes on; the new thread that it makes stays the same. -/
theorem Threads.move (threads : s.Threads waiting) {pc : Pc}
    (running : s'.running = s.running.goto pc) (context : s'.context = s.context)
    (live : s'.live = s.live) (fits : pc.Fits s.running) (making : pc.making = s.running.pc.making)
    (before : s.running.pc ≠ .exitNull) (behind : pc ≠ .exitNull)
    (handler : s.running.interrupted ≠ none → pc.switches = true) : s'.Threads waiting := by
  have hmaking : s'.running.making = s.running.making := by
    rw [running]
    change (s.running.interrupted.getD pc).making = (s.running.interrupted.getD _).making
    cases s.running.interrupted with
    | none => exact making
    | some _ => rfl
  have hown : s'.running.own = s.running.own := by
    rw [running]
    rfl
  refine ⟨threads.suspended.of_eq live context, ?_, ?_, ?_, ?_, ?_, ?_, ?_, ?_⟩
  · rw [running]
    exact threads.owner
  · rw [running, live]
    exact fun hexited _ => threads.alive hexited before
  · rw [running]
    exact fun hpc => absurd hpc behind
  · rw [running]
    exact Pc.fits_congr rfl rfl fits
  · rw [running]
    intro b hb
    exact ⟨(threads.below b hb).1, Pc.fits_congr rfl rfl (threads.below b hb).2⟩
  · rw [running]
    exact handler
  · rw [hmaking, hown, context, live]
    exact threads.making
  · rw [hown, context]
    exact threads.foreign

/-- The same for a flow whose statement is known. -/
theorem Threads.step (threads : s.Threads waiting) {pc pc' : Pc} (hpc : s.running.pc = pc)
    (running : s'.running = s.running.goto pc') (context : s'.context = s.context)
    (live : s'.live = s.live) (fits : pc'.Fits s.running) (making : pc'.making = pc.making)
    (before : pc ≠ .exitNull) (behind : pc' ≠ .exitNull)
    (switches : pc.switches = true → pc'.switches = true) : s'.Threads waiting := by
  subst hpc
  exact threads.move running context live fits making before behind fun h =>
    switches (threads.handler h)

theorem Threads.fits_at (threads : s.Threads waiting) {pc : Pc} (hpc : s.running.pc = pc) :
    pc.Fits s.running := by
  rw [← hpc]
  exact threads.fits

/-- The handler returns, or the function that the user code called. -/
theorem Threads.leave (threads : s.Threads waiting) (making : s.running.pc.making = none)
    (pc : s.running.pc ≠ .exitNull) : s.leave.Threads waiting := by
  cases hbelow : s.running.interrupted with
  | none =>
      have hleave : s.leave.running = s.running.goto .user := Flow.leave_of_none hbelow
      refine threads.move hleave rfl rfl trivial making.symm pc (by decide) ?_
      exact fun h => absurd hbelow h
  | some b =>
      have hleave : s.leave.running = { s.running with pc := b, interrupted := none } :=
        Flow.leave_of_some hbelow
      obtain ⟨hcalm, hfits⟩ := threads.below b hbelow
      have hmaking : s.leave.running.making = s.running.making := by
        rw [hleave, Flow.making, Flow.making, hbelow]
        rfl
      refine ⟨threads.suspended.of_eq rfl rfl, ?_, ?_, ?_, ?_, ?_, ?_, ?_, ?_⟩
      · rw [hleave]
        exact threads.owner
      · rw [hleave]
        exact fun hexited _ => threads.alive hexited pc
      · rw [hleave]
        exact fun h => absurd h (Pc.calm_ne_exitNull hcalm)
      · rw [hleave]
        exact Pc.fits_congr rfl rfl hfits
      · rw [hleave]
        exact fun _ h => nomatch h
      · rw [hleave]
        exact fun h => absurd rfl h
      · rw [hmaking, hleave]
        exact threads.making
      · rw [hleave]
        exact threads.foreign

/-- The timer comes at a calm statement. -/
theorem Threads.interrupt (threads : s.Threads waiting) (calm : s.running.pc.calm = true)
    (idle : s.running.interrupted = none) :
    ({ s with running := s.running.interrupt } : Machine).Threads waiting := by
  have hpc := Pc.calm_ne_exitNull calm
  have hmaking : s.running.interrupt.making = s.running.making := by
    rw [Flow.making, Flow.making, idle]
    rfl
  refine ⟨threads.suspended.of_eq rfl rfl, threads.owner,
    fun hexited _ => threads.alive hexited hpc, (fun h => nomatch h), trivial, ?_, fun _ => rfl, ?_,
    threads.foreign⟩
  · intro b hb
    cases hb
    exact ⟨calm, Pc.fits_congr rfl rfl threads.fits⟩
  · intro x hx
    exact threads.making x (hmaking ▸ hx)

/-- The running thread is saved: nobody runs until the next context is set. -/
theorem Threads.save (threads : s.Threads waiting) (pc : s.running.pc = .swapcontext t) :
    (s.save t).Suspended (t :: waiting) := by
  have hnames : s.running.Names t := by
    have hfits := threads.fits
    rw [pc] at hfits
    exact hfits
  obtain ⟨hexited, rfl⟩ := hnames
  have hnot := threads.owner hexited
  have hown : s.running.own = [s.running.owner] := Flow.own_of_running hexited
  have hself : (s.save s.running.owner).context s.running.owner =
      some (s.running.goto .switchPages) := Function.update_self _ _ _
  have hother : ∀ t, t ≠ s.running.owner → (s.save s.running.owner).context t = s.context t :=
    fun t ht => Function.update_of_ne ht _ _
  have hne : ∀ t, t ∈ waiting → t ≠ s.running.owner := fun t ht same => hnot (same ▸ ht)
  have hmaking : (s.running.goto .switchPages).making = s.running.making := by
    change (s.running.interrupted.getD .switchPages).making = (s.running.interrupted.getD _).making
    rw [pc]
    cases s.running.interrupted with
    | none | some _ => rfl
  have hforeign : ∀ x, x ∉ s.running.own → x ≠ s.running.owner := by
    intro x hx
    rwa [hown, List.mem_singleton] at hx
  have hsuspended : (s.save s.running.owner).Suspended waiting := by
    refine threads.suspended.congr ?_ ?_
    · exact fun t ht => ⟨rfl, hother t (hne t ht)⟩
    · exact fun t ht f x hf hx => ⟨rfl, hother x (hforeign x (threads.foreign t ht f x hf hx))⟩
  refine hsuspended.cons hnot ?_ hself ?_ ?_ ?_
  · exact threads.alive hexited (by rw [pc]; exact fun h => nomatch h)
  · exact ⟨rfl, hexited, .inr rfl, fun b hb =>
      ⟨(threads.below b hb).1, Pc.fits_congr rfl rfl (threads.below b hb).2⟩⟩
  · intro x hx
    obtain ⟨hlive, hwaiting, hx, hstart, -⟩ := threads.making x (hmaking ▸ hx)
    -- A new thread is neither suspended nor the one that is saved.
    refine ⟨hlive, ?_, (hother x (hforeign x hx)).trans hstart⟩
    rw [List.mem_cons, not_or]
    exact ⟨hforeign x hx, hwaiting⟩
  · intro u hu g x hg hgx
    rw [hother u (hne u hu)] at hg
    refine ⟨hforeign x (threads.foreign u hu g x hg hgx), ?_⟩
    rw [hmaking]
    exact fun hx => (threads.making x hx).2.2.2.2 u hu g hg hgx

/-- Outside the switching statements no handler runs. -/
theorem Threads.idle (threads : s.Threads waiting) (pc : s.running.pc.switches = false) :
    s.running.interrupted = none := by
  by_contra hne
  have := threads.handler hne
  rw [pc] at this
  cases this

theorem Threads.making_of (threads : s.Threads waiting) (pc : s.running.pc.switches = false) :
    s.running.making = s.running.pc.making := by
  rw [Flow.making, threads.idle pc]
  rfl

theorem Threads.notMem_own (threads : s.Threads waiting) (pc : s.running.pc ≠ .exitNull)
    (dead : s.live t = false) : t ∉ s.running.own := by
  intro ht
  by_cases hexited : s.running.exited = true
  · rw [Flow.own_of_exited hexited] at ht
    cases ht
  · have hrunning := Bool.eq_false_of_not_eq_true hexited
    rw [Flow.own_of_running hrunning, List.mem_singleton] at ht
    rw [ht, threads.alive hrunning pc] at dead
    cases dead

/-- `my_pthread_create` begins. -/
theorem Threads.newThread (threads : s.Threads waiting) (user : s.running.pc = .user)
    (dead : s.live t = false) (tid : Nat) :
    ((s.newThread t tid).goto (.stopTimer (.create t))).Threads waiting := by
  have hswitches : s.running.pc.switches = false := by rw [user]; rfl
  have hpc : s.running.pc ≠ .exitNull := by rw [user]; exact fun h => nomatch h
  have hidle := threads.idle hswitches
  have hown := threads.notMem_own hpc dead
  have hwaiting : ∀ u, u ∈ waiting → u ≠ t := by
    intro u hu same
    have := threads.suspended.live u hu
    rw [same, dead] at this
    cases this
  have hlive : ∀ u, s.live u = true → u ≠ t ∧ (s.newThread t tid).live u = true := by
    intro u hu
    have hne : u ≠ t := by
      intro same
      rw [same, dead] at hu
      cases hu
    exact ⟨hne, (Function.update_of_ne hne _ _).trans hu⟩
  have hcontext : ∀ u, u ≠ t → (s.newThread t tid).context u = s.context u :=
    fun u hu => Function.update_of_ne hu _ _
  have hkept : ∀ u, s.live u = true → (s.newThread t tid).live u = s.live u ∧
      (s.newThread t tid).context u = s.context u :=
    fun u hu => ⟨(hlive u hu).2.trans hu.symm, hcontext u (hlive u hu).1⟩
  refine ⟨threads.suspended.congr ?_ ?_, threads.owner, ?_, (fun h => nomatch h), trivial, ?_,
    fun h => absurd hidle h, ?_, ?_⟩
  · exact fun u hu => hkept u (threads.suspended.live u hu)
  · exact fun u hu f x hf hx => hkept x (threads.suspended.making u hu f x hf hx).1
  · exact fun hexited _ => (hlive _ (threads.alive hexited hpc)).2
  · intro b hb
    cases hidle.symm.trans hb
  · intro x hx
    have hxt : t = x := by
      have hmaking : (s.running.goto (.stopTimer (.create t))).making = some t := by
        change (s.running.interrupted.getD (.stopTimer (.create t))).making = some t
        rw [hidle]
        rfl
      exact Option.some.inj (hmaking.symm.trans hx)
    subst hxt
    refine ⟨Function.update_self _ _ _, fun h => hwaiting t h rfl, hown,
      Function.update_self _ _ _, ?_⟩
    intro u hu f hf hmaking
    have hbefore := (hcontext u (hwaiting u hu)).symm.trans hf
    have := (threads.suspended.making u hu f t hbefore hmaking).1
    rw [dead] at this
    cases this
  · intro u hu f x hf
    exact threads.foreign u hu f x ((hcontext u (hwaiting u hu)).symm.trans hf)

/-- The new thread is queued. -/
theorem Threads.join (threads : s.Threads waiting)
    (pc : s.running.pc = .insertReady (.create t) t)
    (running : s'.running = s.running.goto (.unlock (.create t)))
    (context : s'.context = s.context) (live : s'.live = s.live) : s'.Threads (t :: waiting) := by
  have hswitches : s.running.pc.switches = false := by rw [pc]; rfl
  have hpc : s.running.pc ≠ .exitNull := by rw [pc]; exact fun h => nomatch h
  have hidle := threads.idle hswitches
  have hmaking : s.running.making = some t := by
    rw [threads.making_of hswitches, pc]
    rfl
  obtain ⟨hlive, hnot, hown, hstart, hothers⟩ := threads.making t hmaking
  have hsuspended : s.Suspended (t :: waiting) := by
    refine threads.suspended.cons hnot hlive hstart (Flow.Rests.start t) (fun x hx => nomatch hx) ?_
    exact fun u hu g x hg hgx => ⟨fun same => hothers u hu g hg (same ▸ hgx), fun h => nomatch h⟩
  refine ⟨hsuspended.of_eq live context, ?_, ?_, ?_, ?_, ?_, ?_, ?_, ?_⟩
  · rw [running]
    intro hexited
    rw [List.mem_cons, not_or]
    refine ⟨fun same => hown ?_, threads.owner hexited⟩
    have hself : s.running.own = [s.running.owner] := Flow.own_of_running hexited
    rw [hself, List.mem_singleton]
    exact same.symm
  · rw [running, live]
    exact fun hexited _ => threads.alive hexited hpc
  · rw [running]
    exact fun h => nomatch h
  · rw [running]
    trivial
  · rw [running]
    intro b hb
    cases hidle.symm.trans hb
  · rw [running]
    exact fun h => absurd hidle h
  · rw [running]
    intro x hx
    change (s.running.interrupted.getD (.unlock (.create t))).making = some x at hx
    rw [hidle] at hx
    cases hx
  · rw [running, context]
    intro u hu f x hf hx
    change x ∉ s.running.own
    cases List.mem_cons.mp hu with
    | inl same =>
        rw [same, hstart, Option.some.injEq] at hf
        rw [← hf] at hx
        cases hx
    | inr hu => exact threads.foreign u hu f x hf hx

/-- `free_thread_info(CURRENT)` -/
theorem Threads.free (threads : s.Threads waiting) (pc : s.running.pc = .exitFree)
    (names : s.running.Names t) :
    ({ s with
      live := Function.update s.live t false
      context := Function.update s.context t none }.goto .exitNull).Threads waiting := by
  obtain ⟨hexited, rfl⟩ := names
  have hswitches : s.running.pc.switches = false := by rw [pc]; rfl
  have hidle := threads.idle hswitches
  have hnot := threads.owner hexited
  have hown : ∀ x, x ∉ s.running.own → x ≠ s.running.owner := by
    intro x hx same
    rw [Flow.own_of_running hexited, List.mem_singleton] at hx
    exact hx same
  have hne : ∀ u, u ∈ waiting → u ≠ s.running.owner := fun u hu same => hnot (same ▸ hu)
  have hcontext : ∀ u, u ≠ s.running.owner →
      Function.update s.context s.running.owner none u = s.context u :=
    fun u hu => Function.update_of_ne hu _ _
  have hlive : ∀ u, u ≠ s.running.owner →
      Function.update s.live s.running.owner false u = s.live u :=
    fun u hu => Function.update_of_ne hu _ _
  refine ⟨threads.suspended.congr ?_ ?_, threads.owner, fun _ h => absurd rfl h,
    fun _ => Function.update_self _ _ _, hexited, ?_, fun h => absurd hidle h, ?_, ?_⟩
  · exact fun u hu => ⟨hlive u (hne u hu), hcontext u (hne u hu)⟩
  · intro u hu f x hf hx
    have hforeign := hown x (threads.foreign u hu f x hf hx)
    exact ⟨hlive x hforeign, hcontext x hforeign⟩
  · intro b hb
    cases hidle.symm.trans hb
  · intro x hx
    change (s.running.interrupted.getD .exitNull).making = some x at hx
    rw [hidle] at hx
    cases hx
  · intro u hu f x hf hx
    exact threads.foreign u hu f x ((hcontext u (hne u hu)).symm.trans hf) hx

/-- `CURRENT = NULL`: the flow is no thread any more. -/
theorem Threads.exit (threads : s.Threads waiting) (pc : s.running.pc = .exitNull)
    (running : s'.running = { s.running with exited := true, pc := .scheduleEmpty })
    (context : s'.context = s.context) (live : s'.live = s.live) : s'.Threads waiting := by
  have hswitches : s.running.pc.switches = false := by rw [pc]; rfl
  have hidle := threads.idle hswitches
  refine ⟨threads.suspended.of_eq live context, ?_, ?_, ?_, ?_, ?_, ?_, ?_, ?_⟩
  · rw [running]
    exact fun h => nomatch h
  · rw [running]
    exact fun h => nomatch h
  · rw [running]
    exact fun h => nomatch h
  · rw [running]
    trivial
  · rw [running]
    intro b hb
    cases hidle.symm.trans hb
  · rw [running]
    exact fun h => absurd hidle h
  · rw [running]
    intro x hx
    change (s.running.interrupted.getD .scheduleEmpty).making = some x at hx
    rw [hidle] at hx
    cases hx
  · rw [running]
    intro u hu f x hf hx
    exact List.not_mem_nil

end Machine

end OsDesign.Timer
