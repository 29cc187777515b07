import OsDesign.Preempt.Steps

/-!
Which interleavings of the statements keep a mutex to one thread, and which wake
every waiter. Each condition below speaks of one statement, or of one expiry of
the timer, and of the statements that the other threads stand at.
-/
namespace OsDesign.Preempt

open Pthread Virt CountedLock

namespace Pc

/-- The flow has read the count of the mutex and will write it. -/
def pending : Pc → Option Nat
  | .takeWrite h _ | .waitWrite h _ | .lastWrite h _ | .moreWrite h _ => some h
  | _ => none

/-- The flow has found the count at zero and not yet increased it. -/
def takes : Pc → Option Nat
  | .takeRead h | .takeWrite h _ => some h
  | _ => none

/-- The flow has found the count above zero and is not yet in the wait queue. -/
def blocks : Pc → Option Nat
  | .waitRead h | .waitWrite h _ | .setMu h | .swapEmpty h | .swapTmp h | .swapStore h _
  | .swapSection h _ => some h
  | _ => none

/-- The flow has found the count at one and not yet decreased it. -/
def leaves : Pc → Option Nat
  | .lastRead h | .lastWrite h _ => some h
  | _ => none

/-- The statement that increases a count of zero. -/
def taking : Pc → Option Nat
  | .takeWrite h _ => some h
  | _ => none

/-- The statement that increases another count. -/
def announcing : Pc → Option Nat
  | .waitWrite h _ => some h
  | _ => none

/-- The statement that decreases a count of one. -/
def leaving : Pc → Option Nat
  | .lastWrite h _ => some h
  | _ => none

def releasing : Pc → Option Nat
  | .release h => some h
  | _ => none

/-- The flow of a stage in which a test was made and the count not yet written. -/
def ofPending (m : Nat) : Kind → Option (BitVec 32) → Pc
  | .take, none => .takeRead m
  | .take, some v => .takeWrite m v
  | .block, none => .waitRead m
  | .block, some v => .waitWrite m v
  | .leave, none => .lastRead m
  | .leave, some v => .lastWrite m v
  | .hand, none => .moreRead m
  | .hand, some v => .moreWrite m v

variable {pc : Pc} {m : Nat} {waiting : Bool} {k : Kind} {seen : Option (BitVec 32)}

/-- A flow in a stage other than `outside` is in a call for that mutex. -/
theorem handle_of_stage (h : pc.stage m waiting ≠ .outside) :
    pc.handle = some m ∧ pc.stage m waiting = pc.progress waiting := by
  by_cases hm : pc.handle = some m
  · exact ⟨hm, stage_of_eq hm⟩
  · exact absurd (stage_of_ne hm) h

theorem of_stage_pending (h : pc.stage m waiting = .pending k seen) :
    pc = ofPending m k seen := by
  have hne : pc.stage m waiting ≠ .outside := by simp [h]
  obtain ⟨hm, hprogress⟩ := handle_of_stage hne
  rw [hprogress] at h
  cases pc with
  | takeRead _ | takeWrite _ _ | waitRead _ | waitWrite _ _ | lastRead _ | lastWrite _ _
  | moreRead _ | moreWrite _ _ =>
      cases hm
      cases h
      rfl
  | swapPages _ => cases waiting <;> cases h
  | user | lockUsed _ | lockRange _ | lockTest _ | setMu _ | swapEmpty _ | swapTmp _
  | swapStore _ _ | swapSection _ _ | swapContext _ _ | lockReturn _ _ | unlockUsed _
  | unlockRange _ | unlockZero _ | unlockOne _ | release _ | unlockReturn _ _ => cases h

theorem blocks_of_announced (h : pc.stage m waiting = .announced) : pc.blocks = some m := by
  have hne : pc.stage m waiting ≠ .outside := by simp [h]
  obtain ⟨hm, hprogress⟩ := handle_of_stage hne
  rw [hprogress] at h
  cases pc with
  | setMu _ | swapEmpty _ | swapTmp _ | swapStore _ _ | swapSection _ _ => exact hm
  | swapPages _ => cases waiting <;> cases h
  | user | lockUsed _ | lockRange _ | lockTest _ | takeRead _ | takeWrite _ _ | waitRead _
  | waitWrite _ _ | swapContext _ _ | lockReturn _ _ | unlockUsed _ | unlockRange _
  | unlockZero _ | unlockOne _ | lastRead _ | lastWrite _ _ | moreRead _ | moreWrite _ _
  | release _ | unlockReturn _ _ => cases h

theorem of_stage_passing (h : pc.stage m waiting = .passing) : pc = .release m := by
  have hne : pc.stage m waiting ≠ .outside := by simp [h]
  obtain ⟨hm, hprogress⟩ := handle_of_stage hne
  rw [hprogress] at h
  cases pc with
  | release _ =>
      cases hm
      rfl
  | swapPages _ => cases waiting <;> cases h
  | user | lockUsed _ | lockRange _ | lockTest _ | takeRead _ | takeWrite _ _ | waitRead _
  | waitWrite _ _ | setMu _ | swapEmpty _ | swapTmp _ | swapStore _ _ | swapSection _ _
  | swapContext _ _ | lockReturn _ _ | unlockUsed _ | unlockRange _ | unlockZero _ | unlockOne _
  | lastRead _ | lastWrite _ _ | moreRead _ | moreWrite _ _ | unlockReturn _ _ => cases h

theorem pending_of_seen (h : (pc.stage m waiting).seen ≠ none) : pc.pending = some m := by
  cases hstage : pc.stage m waiting with
  | pending k seen =>
      rw [hstage] at h
      obtain ⟨v, hv⟩ := Option.ne_none_iff_exists'.mp h
      change seen = some v at hv
      rw [of_stage_pending hstage, hv]
      cases k <;> rfl
  | outside | announced | queued | inside | passing => simp [hstage, Stage.seen] at h

theorem exists_of_kind (h : (pc.stage m waiting).kind = some k) :
    ∃ seen, pc = ofPending m k seen := by
  cases hstage : pc.stage m waiting with
  | pending k' seen =>
      rw [hstage] at h
      exact ⟨seen, Option.some.inj h ▸ of_stage_pending hstage⟩
  | outside | announced | queued | inside | passing => simp [hstage, Stage.kind] at h

theorem takes_of_kind (h : (pc.stage m waiting).kind = some .take) : pc.takes = some m := by
  obtain ⟨seen, hpc⟩ := exists_of_kind h
  rw [hpc]
  cases seen <;> rfl

theorem leaves_of_kind (h : (pc.stage m waiting).kind = some .leave) : pc.leaves = some m := by
  obtain ⟨seen, hpc⟩ := exists_of_kind h
  rw [hpc]
  cases seen <;> rfl

theorem blocks_of_coming (h : (pc.stage m waiting).coming) : pc.blocks = some m := by
  cases h with
  | inl hkind =>
      obtain ⟨seen, hpc⟩ := exists_of_kind hkind
      rw [hpc]
      cases seen <;> rfl
  | inr hstage => exact blocks_of_announced hstage

end Pc

namespace Watched

/-- The other threads' flows. -/
def Others (threads : Finset ThreadId) (s : Watched) (P : Pc → Prop) : Prop :=
  ∀ t, t ∈ threads → t ≠ s.machine.running.owner → P (s.machine.flow t).pc

/-- No statement writes a count that another thread has read for its own write. -/
def WritesAlone (threads : Finset ThreadId) (s : Watched) (e : Turn) : Prop :=
  e = .statement → ∀ h, h ∈ s.machine.running.pc.pending →
    s.Others threads fun pc => pc.pending ≠ some h

/-- The timer does not switch threads between the locked section of
`schedule_swap_current_to_wait` and its `swapcontext`. -/
def SwitchesWhole (s : Watched) (e : Turn) : Prop :=
  e = .preempt → s.machine.running.pc.switching = true →
    s.machine.queues.gQueueReady.first = none

/-- No thread increases a count of zero that another thread has found at zero, too. -/
def TakesAlone (threads : Finset ThreadId) (s : Watched) (e : Turn) : Prop :=
  e = .statement → ∀ h, h ∈ s.machine.running.pc.taking →
    s.Others threads fun pc => pc.takes ≠ some h

/-- No thread that will wait increases a count that another thread has found at
one and not yet decreased. -/
def AnnouncesAlone (threads : Finset ThreadId) (s : Watched) (e : Turn) : Prop :=
  e = .statement → ∀ h, h ∈ s.machine.running.pc.announcing →
    s.Others threads fun pc => pc.leaves ≠ some h

/-- The statement is the decrement of a count of one, or a `release_thread` that
finds no thread: nobody gets the mutex next. -/
def Abandons (s : Watched) (h : Nat) : Prop :=
  h ∈ s.machine.running.pc.leaving ∨
    (h ∈ s.machine.running.pc.releasing ∧
      ∀ t, t ∈ s.machine.queues.wait → s.machine.queues.mu t ≠ h)

/-- A mutex is not given up to nobody while another thread has found its count
above zero and is not yet in the wait queue. -/
def LeavesNobody (threads : Finset ThreadId) (s : Watched) (e : Turn) : Prop :=
  e = .statement → ∀ h, h ∈ s.machine.running.pc.handle → s.Abandons h →
    s.Others threads fun pc => pc.blocks ≠ some h

section Decidable

variable (threads : Finset ThreadId) (s : Watched) (e : Turn)

instance (P : Pc → Prop) [DecidablePred P] : Decidable (s.Others threads P) :=
  inferInstanceAs (Decidable (∀ t, t ∈ threads → t ≠ s.machine.running.owner →
    P (s.machine.flow t).pc))

instance : Decidable (s.WritesAlone threads e) :=
  inferInstanceAs (Decidable (e = .statement → ∀ h, h ∈ s.machine.running.pc.pending →
    s.Others threads fun pc => pc.pending ≠ some h))

instance : Decidable (s.SwitchesWhole e) :=
  inferInstanceAs (Decidable (e = .preempt → s.machine.running.pc.switching = true →
    s.machine.queues.gQueueReady.first = none))

instance : Decidable (s.TakesAlone threads e) :=
  inferInstanceAs (Decidable (e = .statement → ∀ h, h ∈ s.machine.running.pc.taking →
    s.Others threads fun pc => pc.takes ≠ some h))

instance : Decidable (s.AnnouncesAlone threads e) :=
  inferInstanceAs (Decidable (e = .statement → ∀ h, h ∈ s.machine.running.pc.announcing →
    s.Others threads fun pc => pc.leaves ≠ some h))

instance (h : Nat) : Decidable (s.Abandons h) :=
  inferInstanceAs (Decidable (h ∈ s.machine.running.pc.leaving ∨
    (h ∈ s.machine.running.pc.releasing ∧
      ∀ t, t ∈ s.machine.queues.wait → s.machine.queues.mu t ≠ h)))

instance : Decidable (s.LeavesNobody threads e) :=
  inferInstanceAs (Decidable (e = .statement → ∀ h, h ∈ s.machine.running.pc.handle →
    s.Abandons h → s.Others threads fun pc => pc.blocks ≠ some h))

end Decidable

/-- What both results ask of a turn. -/
structure Orderly (threads : Finset ThreadId) (mutexes : Nat → Bool) (s : Watched) (e : Turn) :
    Prop where
  disciplined : s.Disciplined mutexes e
  writes : s.WritesAlone threads e
  switches : s.SwitchesWhole e

instance (threads : Finset ThreadId) (mutexes : Nat → Bool) (s : Watched) :
    DecidablePred (s.Orderly threads mutexes) := fun e =>
  decidable_of_iff
    (s.Disciplined mutexes e ∧ s.WritesAlone threads e ∧ s.SwitchesWhole e)
    ⟨fun h => ⟨h.1, h.2.1, h.2.2⟩, fun h => ⟨h.disciplined, h.writes, h.switches⟩⟩

end Watched

variable {threads : Finset ThreadId} {mutexes : Nat → Bool} {s s' : Watched} {t u : ThreadId}
  {h m : Nat} {e : Turn}

/-- A turn is no step of a lock, or a statement of the running thread that is
one, or its call of unlock. -/
theorem Seated.turn (seated : Seated threads mutexes s) (orderly : s.Orderly threads mutexes e)
    (step : s.Step e s') :
    Seated threads mutexes s' ∧ ∀ m, s'.lock m = s.lock m ∨
      (e = .statement ∨ s.machine.running.pc = .user) ∧
        Move threads (s.lock m) s.machine.running.owner (s'.lock m) := by
  rw [Watched.Step, Watched.next] at step
  cases hturn : s.machine.turn e with
  | error fault => simp [hturn] at step
  | ok r =>
      simp only [hturn, Option.some.injEq] at step
      subst step
      cases e with
      | lock h =>
          obtain ⟨hpc, hm⟩ := orderly.disciplined
          rw [← Except.ok.inj hturn]
          obtain ⟨hseated, hsim⟩ := seated.lock_advances hpc hm
          exact ⟨hseated, fun m => (hsim m).imp_right fun move => ⟨.inr hpc, move⟩⟩
      | unlock h =>
          obtain ⟨hpc, hheld⟩ := orderly.disciplined
          rw [← Except.ok.inj hturn]
          obtain ⟨hseated, hsim⟩ := seated.unlock_advances hpc hheld
          exact ⟨hseated, fun m => (hsim m).imp_right fun move => ⟨.inr hpc, move⟩⟩
      | statement =>
          obtain ⟨hseated, hsim⟩ := seated.statement_advances orderly.disciplined hturn
          exact ⟨hseated, fun m => (hsim m).imp_right fun move => ⟨.inl rfl, move⟩⟩
      | preempt =>
          obtain ⟨hseated, hsame⟩ := seated.schedule_same (orderly.switches rfl) hturn
          exact ⟨hseated, fun m => .inl (hsame m)⟩

section Conditions

/-- Outside the calls nothing is done to a mutex. -/
theorem stage_user (hpc : s.machine.running.pc = .user) :
    (s.lock m).stage s.machine.running.owner = .outside := by
  change s.stage m _ = _
  rw [Watched.stage, Machine.flow_owner, hpc]
  rfl

theorem stage_owner (s : Watched) (m : Nat) :
    (s.lock m).stage s.machine.running.owner =
      s.machine.running.pc.stage m (s.machine.queues.wait.contains s.machine.running.owner) := by
  change s.stage m _ = _
  rw [Watched.stage, Machine.flow_owner]

variable (acts : e = .statement ∨ s.machine.running.pc = .user)

include acts

theorem undisturbed (writes : s.WritesAlone threads e) :
    (s.lock m).Undisturbed threads s.machine.running.owner := by
  intro hseen u hu hne
  cases acts with
  | inl statement =>
      rw [stage_owner] at hseen
      by_contra hnone
      exact writes statement m (Pc.pending_of_seen hseen) u hu hne (Pc.pending_of_seen hnone)
  | inr user =>
      rw [stage_user user] at hseen
      exact absurd rfl hseen

theorem takesAlone (takes : s.TakesAlone threads e) :
    (s.lock m).TakesAlone threads s.machine.running.owner := by
  intro v hstage u hu hne hkind
  cases acts with
  | inl statement =>
      rw [stage_owner] at hstage
      have htaking : s.machine.running.pc.taking = some m := by
        rw [Pc.of_stage_pending hstage]
        rfl
      exact takes statement m htaking u hu hne (Pc.takes_of_kind hkind)
  | inr user =>
      rw [stage_user user] at hstage
      cases hstage

theorem announcesAlone (announces : s.AnnouncesAlone threads e) :
    (s.lock m).AnnouncesAlone threads s.machine.running.owner := by
  intro v hstage u hu hne hkind
  cases acts with
  | inl statement =>
      rw [stage_owner] at hstage
      have hannouncing : s.machine.running.pc.announcing = some m := by
        rw [Pc.of_stage_pending hstage]
        rfl
      exact announces statement m hannouncing u hu hne (Pc.leaves_of_kind hkind)
  | inr user =>
      rw [stage_user user] at hstage
      cases hstage

theorem abandons (seated : Seated threads mutexes s)
    (h : (s.lock m).Abandons threads s.machine.running.owner) :
    e = .statement ∧ m ∈ s.machine.running.pc.handle ∧ s.Abandons m := by
  cases acts with
  | inl statement =>
      refine ⟨statement, ?_⟩
      cases h with
      | inl h =>
          obtain ⟨v, hstage⟩ := h
          rw [stage_owner] at hstage
          have hpc : s.machine.running.pc = .lastWrite m v := Pc.of_stage_pending hstage
          exact ⟨by rw [hpc]; rfl, .inl (by rw [hpc]; rfl)⟩
      | inr h =>
          obtain ⟨hstage, hnone⟩ := h
          rw [stage_owner] at hstage
          have hpc : s.machine.running.pc = .release m := Pc.of_stage_passing hstage
          refine ⟨by rw [hpc]; rfl, .inr ⟨by rw [hpc]; rfl, ?_⟩⟩
          intro t ht hmu
          have hmem : t ∈ threads := by
            rw [← seated.members t, Queues.members]
            simp [ht]
          exact hnone t hmem ((seated.queued_iff hmem).mpr ⟨ht, hmu⟩)
  | inr user =>
      cases h with
      | inl h =>
          obtain ⟨v, hstage⟩ := h
          rw [stage_user user] at hstage
          cases hstage
      | inr h =>
          rw [stage_user user] at h
          cases h.1

theorem leavesNobody (seated : Seated threads mutexes s) (leaves : s.LeavesNobody threads e) :
    (s.lock m).LeavesNobody threads s.machine.running.owner := by
  intro h u hu hne hcoming
  obtain ⟨statement, hm, habandons⟩ := abandons acts seated h
  exact leaves statement m hm habandons u hu hne (Pc.blocks_of_coming hcoming)

end Conditions

/-- The invariant of both results: the counts say who has a mutex and who waits. -/
structure Counted (threads : Finset ThreadId) (mutexes : Nat → Bool) (s : Watched) : Prop where
  few : 2 * threads.card < 2 ^ 32
  seated : Seated threads mutexes s
  balanced : ∀ m, mutexes m = true → (s.lock m).Balanced threads

namespace Watched.Init

theorem flow_pc (init : s.Init threads mutexes) (ht : t ∈ threads) :
    (s.machine.flow t).pc = .user := by
  rw [init.user t ht]

theorem wait_eq (init : s.Init threads mutexes) : s.machine.queues.wait = [] :=
  init.holds.wait_eq

theorem seated (init : s.Init threads mutexes) : Seated threads mutexes s := by
  have hruns : s.machine.running.owner ∈ threads := by
    rw [← init.members, Queues.members, init.running]
    simp
  refine ⟨?_, ?_, ?_, ?_, ?_, hruns, ⟨_, init.running, fun _ => rfl⟩, ?_, ?_, ?_⟩
  · rw [init.wait_eq]
    exact init.holds
  · rw [init.wait_eq]
    exact init.members
  · intro t ht
    rw [init.user t ht]
  · intro t ht
    rw [init.flow_pc ht, init.wait_eq]
    exact List.not_mem_nil
  · intro t ht _
    rw [init.flow_pc ht]
    rfl
  · intro t ht h hh
    rw [init.flow_pc ht] at hh
    cases hh
  · intro h hh
    obtain ⟨hlt, hentry⟩ := init.free h hh
    exact ⟨hlt, by rw [hentry]⟩
  · intro h t hpos
    rw [init.holding] at hpos
    cases hpos

theorem lock_free (init : s.Init threads mutexes) (hm : mutexes m = true) :
    (s.lock m).Free threads := by
  refine ⟨?_, ?_, ?_⟩
  · change (s.machine.gMutexTable m).count = 0
    rw [(init.free m hm).2]
  · intro t _
    change s.holding m t = 0
    rw [init.holding]
  · intro t ht
    change s.stage m t = .outside
    rw [Watched.stage, init.flow_pc ht]
    rfl

theorem counted (init : s.Init threads mutexes) : Counted threads mutexes s :=
  ⟨init.few, init.seated, fun _ hm => (init.lock_free hm).balanced⟩

end Watched.Init

theorem Counted.turn (counted : Counted threads mutexes s)
    (orderly : s.Orderly threads mutexes e) (step : s.Step e s') :
    Counted threads mutexes s' := by
  obtain ⟨hseated, hlocks⟩ := counted.seated.turn orderly step
  refine ⟨counted.few, hseated, ?_⟩
  intro m hm
  cases hlocks m with
  | inl same =>
      rw [same]
      exact counted.balanced m hm
  | inr moves =>
      exact (counted.balanced m hm).move counted.few counted.seated.runs
        (undisturbed moves.1 orderly.writes) moves.2

/-- What free mutexes have and the steps of one keep, all mutexes have in every run. -/
theorem lock_of_reachable {P : Lock ThreadId 32 → Prop} {permits : Watched → Turn → Prop}
    (orderly : ∀ s e, permits s e → s.Orderly threads mutexes e)
    (free : ∀ s m, Watched.Init threads mutexes s → mutexes m = true → P (s.lock m))
    (moves : ∀ s e m l, Counted threads mutexes s → mutexes m = true → permits s e →
      (e = .statement ∨ s.machine.running.pc = .user) →
      Move threads (s.lock m) s.machine.running.owner l → P (s.lock m) → P l)
    (reach : Runs.Reachable (Watched.Init threads mutexes) permits Watched.Step s) :
    Counted threads mutexes s ∧ ∀ m, mutexes m = true → P (s.lock m) := by
  refine reach.invariant (fun s => Counted threads mutexes s ∧
    ∀ m, mutexes m = true → P (s.lock m)) ?_ ?_
  · exact fun s init => ⟨init.counted, fun m hm => free s m init hm⟩
  · intro s e s' permitted step inv
    obtain ⟨counted, locks⟩ := inv
    refine ⟨counted.turn (orderly s e permitted) step, ?_⟩
    intro m hm
    obtain ⟨-, hlocks⟩ := counted.seated.turn (orderly s e permitted) step
    cases hlocks m with
    | inl same =>
        rw [same]
        exact locks m hm
    | inr moved => exact moves s e m _ counted hm permitted moved.1 moved.2 (locks m hm)

end OsDesign.Preempt
