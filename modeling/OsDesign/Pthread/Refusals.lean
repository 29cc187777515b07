import OsDesign.Pthread.Handles

/-!
The handles that the calls refuse. Each of the four calls that take a handle
reads the entry of the table first and compares the handle with the size of the
table afterwards, so that only handles inside the table are refused. And
`my_pthread_mutex_destroy` refuses no mutex that is in use: it looks at nothing
but the `used` field of the entry.
-/
namespace OsDesign.Pthread

open Virt

/-- No access was out of the table. -/
def InTable {α : Type} (outcome : Except Fault α) : Prop := outcome ≠ .error .outOfBounds

namespace InTable

variable {α β : Type} {outcome : Except Fault α}

theorem ok (x : α) : InTable (.ok x) := by
  intro h
  cases h

theorem bind {f : α → Except Fault β} (first : InTable outcome) (second : ∀ x, InTable (f x)) :
    InTable (outcome >>= f) := by
  cases outcome with
  | error fault => exact fun h => first (congrArg Except.error (Except.error.inj h))
  | ok x => exact second x

theorem map (f : α → β) (first : InTable outcome) : InTable (outcome.map f) := by
  cases outcome with
  | error fault => exact fun h => first (congrArg Except.error (Except.error.inj h))
  | ok x => exact ok (f x)

end InTable

namespace Queues

variable (q : Queues)

/-! The queues are reached through pointers only. -/

theorem inTable_acquire : InTable q.acquireQueueSpinlock := by
  rw [acquireQueueSpinlock]
  split <;> simp [InTable]

theorem inTable_takeFirstReady : InTable q.takeFirstReady := by
  rw [takeFirstReady]
  split <;> simp [InTable]

theorem inTable_moveToReady (ti : ThreadId) : InTable (q.moveToReady ti) := by
  rw [moveToReady]
  split <;> simp [InTable]

theorem inTable_swapSection (tmp : ThreadId) : InTable (q.swapSection tmp) :=
  q.inTable_acquire.bind fun q => q.inTable_takeFirstReady.bind fun _ => .ok _

theorem inTable_releaseFirst (mu n : Nat) (start : Option ThreadId) :
    InTable (releaseFirst mu n start q) := by
  induction n generalizing start with
  | zero => cases start <;> exact fun h => nomatch h
  | succ n ih =>
      cases start with
      | none => exact .ok q
      | some ti =>
          rw [releaseFirst]
          split
          · exact q.inTable_moveToReady ti
          · exact ih (q.list ti)

theorem inTable_releaseThread (mu : Nat) : InTable (q.releaseThread mu) :=
  q.inTable_acquire.bind fun q => (q.inTable_releaseFirst mu _ _).bind fun _ => .ok _

end Queues

namespace System

variable {s : System} {e : Event} {h : Nat}

theorem inTable_scheduleSwapCurrentToWait (s : System) :
    InTable s.scheduleSwapCurrentToWait := by
  rw [scheduleSwapCurrentToWait]
  split
  · exact .ok s
  · split
    · simp [InTable]
    · exact (s.queues.inTable_swapSection _).bind fun _ => .ok _

theorem inTable_countAndWait (s : System) (range : h < maxMutexNum) :
    InTable (s.countAndWait h) := by
  rw [countAndWait, if_neg (Nat.not_le.mpr range)]
  split
  · exact .ok _
  · split
    · exact .ok _
    · split
      · simp [InTable]
      · exact (inTable_scheduleSwapCurrentToWait _).map _

theorem inTable_unlock (s : System) (range : h < maxMutexNum) :
    InTable (s.myPthreadMutexUnlock h) := by
  rw [myPthreadMutexUnlock, if_neg (Nat.not_le.mpr range)]
  split
  · exact .ok _
  · split
    · exact .ok _
    · dsimp only
      split
      · exact .ok _
      · exact (s.queues.inTable_releaseThread h).map _

theorem inTable_destroy (s : System) (range : h < maxMutexNum) :
    InTable (s.myPthreadMutexDestroy h) := by
  rw [myPthreadMutexDestroy, if_neg (Nat.not_le.mpr range)]
  split <;> exact .ok _

/-- A call with a handle inside the table stays inside the table. -/
theorem inTable_call (s : System) (handle : e.handle = some h) (range : h < maxMutexNum) :
    InTable (s.call e) := by
  cases e with
  | join | lock =>
      cases handle
      exact s.inTable_countAndWait range
  | unlock =>
      cases handle
      exact s.inTable_unlock range
  | destroy =>
      cases handle
      exact s.inTable_destroy range
  | create | yield | tick | exit | mutexInit => cases handle

/-- A handle past the table is looked up before it is compared. -/
theorem call_of_far (s : System) (handle : e.handle = some h) (far : maxMutexNum ≤ h) :
    s.call e = .error .outOfBounds := by
  cases e with
  | join | lock =>
      cases handle
      exact if_pos far
  | unlock =>
      cases handle
      exact if_pos far
  | destroy =>
      cases handle
      exact if_pos far
  | create | yield | tick | exit | mutexInit => cases handle

theorem call_of_unused (s : System) (handle : e.handle = some h) (range : h < maxMutexNum)
    (unused : (s.gMutexTable h).used = false) : s.call e = .ok (s, ⟨-1, none⟩) := by
  have hrange := Nat.not_le.mpr range
  cases e with
  | join | lock =>
      cases handle
      exact (if_neg hrange).trans (if_pos unused)
  | unlock =>
      cases handle
      exact (if_neg hrange).trans (if_pos unused)
  | destroy =>
      cases handle
      exact (if_neg hrange).trans (if_pos unused)
  | create | yield | tick | exit | mutexInit => cases handle

/-- The call reads and writes only entries of the table, and refuses a handle that
is past the table or whose entry is not used, without any effect. -/
structure RejectsBad (s : System) (e : Event) (h : Nat) : Prop where
  inTable : InTable (s.call e)
  refused : maxMutexNum ≤ h ∨ (s.gMutexTable h).used = false → s.call e = .ok (s, ⟨-1, none⟩)

theorem not_rejectsBad (s : System) (handle : e.handle = some h) (far : maxMutexNum ≤ h) :
    ¬ s.RejectsBad e h :=
  fun rejects => rejects.inTable (s.call_of_far handle far)

/-- In every state, each of the four calls rejects bad handles exactly if its handle
is inside the table. -/
theorem rejectsBad_iff (s : System) (handle : e.handle = some h) :
    s.RejectsBad e h ↔ h < maxMutexNum := by
  refine ⟨fun rejects => ?_, fun range => ⟨s.inTable_call handle range, ?_⟩⟩
  · by_contra hfar
    exact s.not_rejectsBad handle (Nat.not_lt.mp hfar) rejects
  · intro hbad
    exact s.call_of_unused handle range (hbad.resolve_left (Nat.not_le.mpr range))

/-- Nothing is allocated at the start. -/
theorem rejectsBad_unused : (start 0 0).RejectsBad (.lock 5) 5 ∧
    (start 0 0).call (.lock 5) = .ok (start 0 0, ⟨-1, none⟩) := by
  have rejects := (rejectsBad_iff (start 0 0) (e := .lock 5) rfl).mpr (by decide)
  exact ⟨rejects, rejects.refused (.inr rfl)⟩

/-- The first number past the table, and the handle that a failed creation stores. -/
theorem far_handle_looked_up :
    ¬ (start 0 0).RejectsBad (.lock 32) 32 ∧
      ¬ (start 0 0).RejectsBad (.unlock 4294967295) 4294967295 ∧
      ¬ (start 0 0).RejectsBad (.destroy 4294967295) 4294967295 ∧
      ¬ (start 0 0).RejectsBad (.join 4294967295) 4294967295 := by
  refine ⟨?_, ?_, ?_, ?_⟩
  all_goals exact not_rejectsBad _ rfl (by decide)

end System

/-- The mutexes that there are after a call were there, or the call made them. -/
theorem Ledger.mutexes_of_acted {a a' : Sched} {l : Ledger} {e : Event} {r : Return} {m : Nat}
    (h : (l.acted a e r a').mutexes m = true) :
    l.mutexes m = true ∨ e = .mutexInit ∧ r.handle = some m := by
  by_cases hinit : e = .mutexInit
  · subst hinit
    rw [acted] at h
    cases hcurrent : a.current with
    | none => exact .inl (by simpa [hcurrent] using h)
    | some t =>
        cases hhandle : r.handle with
        | none => exact .inl (by simpa [hcurrent, called, hhandle] using h)
        | some i =>
            by_cases hm : m = i
            · exact .inr ⟨rfl, by rw [hm]⟩
            · exact .inl (by simpa [hcurrent, called, hhandle, hm] using h)
  · left
    by_cases hdestroy : ∃ k, e = .destroy k ∧ r.value = 0
    · obtain ⟨k, rfl, hvalue⟩ := hdestroy
      rw [acted] at h
      cases hcurrent : a.current with
      | none => simpa [hcurrent] using h
      | some t =>
          by_cases hm : m = k
          · simp [hcurrent, called, hvalue, hm] at h
          · simpa [hcurrent, called, hvalue, hm] using h
    · rwa [acted_mutexes hinit fun k he hvalue => hdestroy ⟨k, he, hvalue⟩] at h

namespace Audit

/-- A granted lock of the mutex was not given up, or a thread waits for it. -/
def InUse (o : Audit) (m : Nat) : Prop :=
  (∃ k ∈ o.ledger.holds, k.mutex = m) ∨
    ∃ t ∈ o.system.queues.wait, o.system.queues.mu t = m

instance (o : Audit) (m : Nat) : Decidable (o.InUse m) :=
  inferInstanceAs (Decidable ((∃ k ∈ o.ledger.holds, k.mutex = m) ∨
    ∃ t ∈ o.system.queues.wait, o.system.queues.mu t = m))

/-- A destroy of a mutex in use is refused without any effect, and another one
frees the entry. -/
structure DestroyChecked (o : Audit) (m : Nat) : Prop where
  refused : o.InUse m → o.system.call (.destroy m) = .ok (o.system, ⟨-1, none⟩)
  freed : ¬ o.InUse m → o.system.call (.destroy m) =
    .ok ({ o.system with gMutexTable := o.system.gMutexTable.freeMutex m }, ⟨0, none⟩)

variable {o : Audit} {main : ThreadId} {m : Nat}

/-- The mutexes of a run have entries of the table. -/
theorem mutexes_lt (reach : Runs.Reachable (Init main) (fun o e => Made o.system.sched e) Step o)
    (initialised : o.ledger.mutexes m = true) : m < maxMutexNum := by
  have both : o.system.WellFormed ∧ ∀ m, o.ledger.mutexes m = true → m < maxMutexNum := by
    refine reach.invariant (fun o => o.system.WellFormed ∧
      ∀ m, o.ledger.mutexes m = true → m < maxMutexNum) ?_ ?_
    · intro o init
      refine ⟨init.system.wellFormed, ?_⟩
      intro m hm
      simp [init.ledger, Ledger.empty] at hm
    · intro o e o' made step before
      obtain ⟨r, call⟩ := step
      have hlists := before.1.call_ok (enabled_of_made made) call.system
      refine ⟨hlists.2.1, ?_⟩
      intro m hm
      rw [call.ledger, Ledger.record_mutexes] at hm
      cases Ledger.mutexes_of_acted hm with
      | inl hold => exact before.2 m hold
      | inr hnew =>
          obtain ⟨rfl, hhandle⟩ := hnew
          have effect := Sched.call_effect hlists.1
          generalize o'.system.sched = a' at effect
          cases effect with
          | refused handle => cases handle
          | switched he => simp at he
          | took waits | passed waits | parked waits => cases waits
          | initialised i range =>
              obtain rfl : i = m := Option.some.inj hhandle
              exact range.2
  exact both.2 m initialised

/-- In every reachable state, the destroy of a mutex is checked exactly if the `used`
field of its entry tells that nobody uses it. -/
theorem destroyChecked_iff
    (reach : Runs.Reachable (Init main) (fun o e => Made o.system.sched e) Step o)
    (initialised : o.ledger.mutexes m = true) :
    o.DestroyChecked m ↔ ((o.system.gMutexTable m).used = true ↔ ¬ o.InUse m) := by
  have hrange := Nat.not_le.mpr (mutexes_lt reach initialised)
  cases hused : (o.system.gMutexTable m).used with
  | false =>
      have hcall : o.system.call (.destroy m) = .ok (o.system, ⟨-1, none⟩) :=
        (if_neg hrange).trans (if_pos hused)
      refine ⟨fun checked => ?_, fun hiff => ⟨fun _ => hcall, ?_⟩⟩
      · refine ⟨(fun h => nomatch h), fun hidle => ?_⟩
        have hfreed := checked.freed hidle
        rw [hcall] at hfreed
        exact absurd (Prod.mk.inj (Except.ok.inj hfreed)).2 (by decide)
      · intro hidle
        cases hiff.mpr hidle
  | true =>
      have hcall : o.system.call (.destroy m) =
          .ok ({ o.system with gMutexTable := o.system.gMutexTable.freeMutex m }, ⟨0, none⟩) :=
        (if_neg hrange).trans (if_neg (by rw [hused]; exact Bool.noConfusion))
      refine ⟨fun checked => ⟨fun _ hinUse => ?_, fun _ => rfl⟩, fun hiff => ⟨?_, fun _ => hcall⟩⟩
      · have hrefused := checked.refused hinUse
        rw [hcall] at hrefused
        exact absurd (Prod.mk.inj (Except.ok.inj hrefused)).2 (by decide)
      · intro hinUse
        exact absurd hinUse (hiff.mp rfl)

/-- A new mutex is destroyed. -/
theorem destroyChecked_new : ∃ o : Audit, o.ledger.mutexes 1 = true ∧ ¬ o.InUse 1 ∧
    o.DestroyChecked 1 := by
  have hrun : ((start 0 0).execute (fun a _ e => Made a e) [.mutexInit]).any (fun o =>
      decide (o.ledger.mutexes 1 = true ∧ ¬ o.InUse 1 ∧
        (o.system.gMutexTable 1).used = true)) = true := by decide +kernel
  obtain ⟨o, ho, hfacts⟩ := (Option.any_eq_true _ _).mp hrun
  obtain ⟨hmutex, hidle, hused⟩ := of_decide_eq_true hfacts
  have reach := reachable_of_execute (init_start 0 0) ho
  have checked := (destroyChecked_iff reach hmutex).mpr ⟨fun _ => hidle, fun _ => hused⟩
  exact ⟨o, hmutex, hidle, checked⟩

/-- The main thread destroys the mutex that it holds while thread 1 waits for it.
Its unlock then fails, and thread 1 waits on. -/
theorem held_mutex_destroyed : ∃ o o₁ r₁ o₂ r₂,
    Runs.Reachable (Init 0) (fun o e => Made o.system.sched e) Step o ∧
      o.ledger.mutexes 1 = true ∧ o.ledger.Holding 0 1 ∧ o.system.queues.wait = [1] ∧
      o.system.queues.mu 1 = 1 ∧ ¬ o.DestroyChecked 1 ∧
      o.Call (.destroy 1) r₁ o₁ ∧ r₁.value = 0 ∧ o₁.Call (.unlock 1) r₂ o₂ ∧ r₂.value = -1 ∧
      o₂.system.queues.wait = [1] := by
  have hrun : ((start 0 0).execute (fun a _ e => Made a e)
      [.mutexInit, .create 1, .lock 1, .yield, .lock 1]).any (fun o =>
      decide (o.ledger.mutexes 1 = true ∧ o.ledger.Holding 0 1 ∧ o.system.queues.wait = [1] ∧
        o.system.queues.mu 1 = 1 ∧ (o.system.gMutexTable 1).used = true) &&
      (o.outcome (.destroy 1)).any fun p => decide (p.2.value = 0) &&
        (p.1.outcome (.unlock 1)).any fun q =>
          decide (q.2.value = -1 ∧ q.1.system.queues.wait = [1])) = true := by
    decide +kernel
  obtain ⟨o, ho, hboth⟩ := (Option.any_eq_true _ _).mp hrun
  obtain ⟨hfacts, hdestroyed⟩ := (Bool.and_eq_true _ _).mp hboth
  obtain ⟨hmutex, hholding, hwait, hmu, hused⟩ := of_decide_eq_true hfacts
  obtain ⟨⟨o₁, r₁⟩, hfirst, hthen⟩ := (Option.any_eq_true _ _).mp hdestroyed
  obtain ⟨hzero, hunlocked⟩ := (Bool.and_eq_true _ _).mp hthen
  obtain ⟨⟨o₂, r₂⟩, hsecond, hrest⟩ := (Option.any_eq_true _ _).mp hunlocked
  obtain ⟨hfailed, hwaits⟩ := of_decide_eq_true hrest
  have reach := reachable_of_execute (init_start 0 0) ho
  have hinUse : o.InUse 1 := .inr ⟨1, by simp [hwait], hmu⟩
  have hcall := call_of_outcome hfirst
  refine ⟨o, o₁, r₁, o₂, r₂, reach, hmutex, hholding, hwait, hmu, ?_, hcall,
    of_decide_eq_true hzero, call_of_outcome hsecond, hfailed, hwaits⟩
  intro checked
  have hrefused := checked.refused hinUse
  rw [hcall.system] at hrefused
  have hvalue : r₁ = ⟨-1, none⟩ := (Prod.mk.inj (Except.ok.inj hrefused)).2
  have hsuccess : r₁.value = 0 := of_decide_eq_true hzero
  rw [hvalue] at hsuccess
  exact absurd hsuccess (by decide)

end Audit

end OsDesign.Pthread
