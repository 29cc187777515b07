import OsDesign.Lib.Outcome
import OsDesign.Lib.Runs
import OsDesign.Pthread.Queues

/-!
The scheduler of `my_pthread.c` statement by statement, with `timer_handler`
able to start between any two statements while the timer runs. `SIGVTALRM` stays
blocked until the handler returns or switches to a flow that was saved outside a
handler, so at most one handler stands on a flow.
-/
namespace OsDesign.Timer

open Pthread Virt TailQueue

/-- The sections that change `CURRENT`: those of `schedule` behind its NULL test
and that of `schedule_swap_current_to_wait`. -/
inductive Switch
  | dispatch
  | yield (tmp : ThreadId)
  | wait (tmp : ThreadId)
  deriving DecidableEq

/-- The sections of the queue spinlock. `release false` is that of
`release_thread` and `release true` that of `release_all_thread`. -/
inductive Section
  | switch (w : Switch)
  | create (ti : ThreadId)
  | release (every : Bool) (mu : Nat)
  deriving DecidableEq

/-- The next statement of a flow. -/
inductive Pc
  | user
  | scheduleEmpty
  | scheduleNull
  | scheduleTmp
  | scheduleStore (tmp : ThreadId)
  | setMu (mu : Nat)
  | swapEmpty
  | swapTmp
  | swapStore (tmp : ThreadId)
  | stopTimer (sec : Section)
  | spin (sec : Section)
  | setLock (sec : Section)
  | startTimer (sec : Section)
  | first (w : Switch)
  | removeHead (w : Switch)
  | insertReady (sec : Section) (t : ThreadId)
  | insertWait (tmp : ThreadId)
  | scan (every : Bool) (mu : Nat) (ti : Option ThreadId)
  | remove (every : Bool) (mu : Nat) (ti : ThreadId)
  | unlock (sec : Section)
  | swapcontext (tmp : ThreadId)
  | setcontext
  | switchPages
  | exitMutex
  | exitPages
  | exitFree
  | exitNull
  deriving DecidableEq

/-- The first statement of a section behind `acquire_queue_spinlock`. -/
def Section.entry (q : Queues) : Section → Pc
  | .switch w => .first w
  | .create ti => .insertReady (.create ti) ti
  | .release every mu => .scan every mu q.gQueueWait.first

/-- Behind `STAILQ_REMOVE_HEAD` the thread that `tmp` names is queued. -/
def Switch.insert : Switch → Pc
  | .dispatch => .unlock (.switch .dispatch)
  | .yield tmp => .insertReady (.switch (.yield tmp)) tmp
  | .wait tmp => .insertWait tmp

/-- Behind an insertion only the loop of `release_all_thread` goes on, from the
link that the moved element has now. -/
def Section.inserted (q : Queues) (t : ThreadId) : Section → Pc
  | .release true mu => .scan true mu (q.list t)
  | sec => .unlock sec

/-- A flow of control on the stack of `owner`. While the handler runs, `pc` is in
the handler and `interrupted` is the statement in front of which the timer came.
`exited` is set when the flow is past `CURRENT = NULL` of its own end. -/
structure Flow where
  owner : ThreadId
  exited : Bool
  pc : Pc
  interrupted : Option Pc
  deriving DecidableEq

namespace Flow

def start (t : ThreadId) : Flow := ⟨t, false, .user, none⟩

def goto (f : Flow) (pc : Pc) : Flow := { f with pc := pc }

/-- `timer_handler` starts. -/
def interrupt (f : Flow) : Flow := { f with pc := .scheduleEmpty, interrupted := some f.pc }

/-- The outermost function of the library returns, or the handler does. -/
def leave (f : Flow) : Flow :=
  match f.interrupted with
  | none => { f with pc := .user }
  | some pc => { f with pc := pc, interrupted := none }

theorem leave_of_none {f : Flow} (h : f.interrupted = none) : f.leave = f.goto .user := by
  unfold leave
  split
  case h_1 => rfl
  case h_2 pc hpc => cases h.symm.trans hpc

theorem leave_of_some {f : Flow} {pc : Pc} (h : f.interrupted = some pc) :
    f.leave = { f with pc := pc, interrupted := none } := by
  rw [leave, h]

@[simp] theorem interrupted_leave (f : Flow) : f.leave.interrupted = none := by
  cases h : f.interrupted with
  | none =>
      rw [leave_of_none h]
      exact h
  | some pc => rw [leave_of_some h]

end Flow

/-- `context` holds what was saved for a thread; a context that was not saved yet
or is freed holds nothing. `armed` says that the timer runs, `live` which
`thread_info_t` are allocated. -/
structure Machine where
  queues : Queues
  context : ThreadId → Option Flow
  running : Flow
  armed : Bool
  live : ThreadId → Bool
  tid : ThreadId → Nat

namespace Machine

def goto (s : Machine) (pc : Pc) : Machine := { s with running := s.running.goto pc }

def leave (s : Machine) : Machine := { s with running := s.running.leave }

/-- Code that dereferences `CURRENT`. -/
def withCurrent (s : Machine) (k : ThreadId → Except Fault Machine) : Except Fault Machine :=
  match s.queues.current with
  | none => .error .nullDereference
  | some t => k t

/-- `setcontext(CURRENT->context)` -/
def setcontext (s : Machine) : Except Fault Machine :=
  s.withCurrent fun next =>
    match s.context next with
    | none => .error .nullDereference
    | some f => .ok { s with running := f }

theorem withCurrent_ok {s s' : Machine} {k : ThreadId → Except Fault Machine} :
    s.withCurrent k = .ok s' ↔ ∃ t, s.queues.current = some t ∧ k t = .ok s' := by
  rw [withCurrent]
  cases s.queues.current with
  | none => simp
  | some t => simp

theorem setcontext_ok {s s' : Machine} :
    s.setcontext = .ok s' ↔ ∃ t f, s.queues.current = some t ∧ s.context t = some f ∧
      s' = { s with running := f } := by
  rw [setcontext, withCurrent_ok]
  refine ⟨?_, ?_⟩
  · rintro ⟨t, hcurrent, ht⟩
    cases hcontext : s.context t with
    | none => simp [hcontext] at ht
    | some f =>
        simp only [hcontext, Except.ok.injEq] at ht
        exact ⟨t, f, hcurrent, hcontext, ht.symm⟩
  · rintro ⟨t, f, hcurrent, hcontext, rfl⟩
    exact ⟨t, hcurrent, by simp only [hcontext]⟩

/-- What `swapcontext` stores in `tmp->context`: the flow, behind the call. -/
def save (s : Machine) (tmp : ThreadId) : Machine :=
  { s with context := Function.update s.context tmp (some (s.running.goto .switchPages)) }

/-- Where the flow goes on behind `release_queue_spinlock`. -/
def released (s : Machine) : Section → Machine
  | .switch .dispatch => s.goto .setcontext
  | .switch (.yield tmp) | .switch (.wait tmp) => s.goto (.swapcontext tmp)
  | .create _ | .release false _ => s.leave
  | .release true _ => s.goto .exitMutex

/-- `tmp = CURRENT` is read for a thread that is stored and queued. The paging
calls and `free_mutex` read `CURRENT` and leave the queues and the threads alone. -/
def statement (s : Machine) : Except Fault Machine :=
  match s.running.pc with
  | .user => .ok s
  | .scheduleEmpty =>
      .ok (if s.queues.gQueueReady.first = none then s.leave else s.goto .scheduleNull)
  | .scheduleNull =>
      .ok (s.goto (if s.queues.current = none then .stopTimer (.switch .dispatch)
        else .scheduleTmp))
  | .scheduleTmp => s.withCurrent fun tmp => .ok (s.goto (.scheduleStore tmp))
  | .scheduleStore tmp => s.withCurrent fun _ =>
      .ok (s.goto (.stopTimer (.switch (.yield tmp))))
  | .setMu mu => s.withCurrent fun t =>
      .ok ({ s with queues := { s.queues with mu := Function.update s.queues.mu t mu } }.goto
        .swapEmpty)
  | .swapEmpty => .ok (if s.queues.gQueueReady.first = none then s.leave else s.goto .swapTmp)
  | .swapTmp => s.withCurrent fun tmp => .ok (s.goto (.swapStore tmp))
  | .swapStore tmp => s.withCurrent fun _ =>
      .ok (s.goto (.stopTimer (.switch (.wait tmp))))
  | .stopTimer sec => .ok ({ s with armed := false }.goto (.spin sec))
  | .spin sec => .ok (if s.queues.gQueueSpinlock = true then s else s.goto (.setLock sec))
  | .setLock sec =>
      .ok ({ s with queues := { s.queues with gQueueSpinlock := true } }.goto (.startTimer sec))
  | .startTimer sec => .ok ({ s with armed := true }.goto (sec.entry s.queues))
  | .first w =>
      .ok ({ s with queues := { s.queues with current := s.queues.gQueueReady.first } }.goto
        (.removeHead w))
  | .removeHead w =>
      match TailQueue.removeHead s.queues.list s.queues.gQueueReady with
      | none => .error .nullDereference
      | some head =>
          .ok ({ s with queues := { s.queues with gQueueReady := head } }.goto w.insert)
  | .insertReady sec t =>
      .ok ({ s with queues := s.queues.insertTailReady t }.goto
        (sec.inserted (s.queues.insertTailReady t) t))
  | .insertWait tmp =>
      .ok ({ s with queues := s.queues.insertTailWait tmp }.goto (.unlock (.switch (.wait tmp))))
  | .scan every mu none => .ok (s.goto (.unlock (.release every mu)))
  | .scan every mu (some ti) =>
      .ok (s.goto (if mu = s.queues.mu ti then .remove every mu ti
        else .scan every mu (s.queues.list ti)))
  | .remove every mu ti =>
      match TailQueue.remove s.queues.bound s.queues.list s.queues.gQueueWait ti with
      | none => .error .nullDereference
      | some (list, head) =>
          .ok ({ s with queues := { s.queues with list := list, gQueueWait := head } }.goto
            (.insertReady (.release every mu) ti))
  | .unlock sec =>
      .ok ({ s with queues := s.queues.releaseQueueSpinlock }.released sec)
  | .swapcontext tmp => (s.save tmp).setcontext
  | .setcontext => s.setcontext
  | .switchPages => s.withCurrent fun _ => .ok s.leave
  | .exitMutex => s.withCurrent fun _ => .ok (s.goto .exitPages)
  | .exitPages => s.withCurrent fun _ => .ok (s.goto .exitFree)
  | .exitFree => s.withCurrent fun t =>
      .ok ({ s with
        live := Function.update s.live t false
        context := Function.update s.context t none }.goto .exitNull)
  | .exitNull =>
      .ok ({ s with
        queues := { s.queues with current := none }
        running := { s.running with exited := true } }.goto .scheduleEmpty)

/-- What a statement that comes to an end did, one case for each way it can. -/
inductive Done (s : Machine) : Machine → Prop
  | user (pc : s.running.pc = .user) : Done s s
  | scheduleEmpty (pc : s.running.pc = .scheduleEmpty)
      (empty : s.queues.gQueueReady.first = none) : Done s s.leave
  | scheduleReady (pc : s.running.pc = .scheduleEmpty)
      (ready : s.queues.gQueueReady.first ≠ none) : Done s (s.goto .scheduleNull)
  | scheduleNull (pc : s.running.pc = .scheduleNull) (null : s.queues.current = none) :
      Done s (s.goto (.stopTimer (.switch .dispatch)))
  | scheduleElse (pc : s.running.pc = .scheduleNull) (current : s.queues.current ≠ none) :
      Done s (s.goto .scheduleTmp)
  | scheduleTmp {t : ThreadId} (pc : s.running.pc = .scheduleTmp)
      (current : s.queues.current = some t) : Done s (s.goto (.scheduleStore t))
  | scheduleStore {tmp : ThreadId} (pc : s.running.pc = .scheduleStore tmp) :
      Done s (s.goto (.stopTimer (.switch (.yield tmp))))
  | setMu {mu : Nat} {t : ThreadId} (pc : s.running.pc = .setMu mu)
      (current : s.queues.current = some t) :
      Done s ({ s with queues := { s.queues with mu := Function.update s.queues.mu t mu } }.goto
        .swapEmpty)
  | swapEmpty (pc : s.running.pc = .swapEmpty)
      (empty : s.queues.gQueueReady.first = none) : Done s s.leave
  | swapReady (pc : s.running.pc = .swapEmpty)
      (ready : s.queues.gQueueReady.first ≠ none) : Done s (s.goto .swapTmp)
  | swapTmp {t : ThreadId} (pc : s.running.pc = .swapTmp)
      (current : s.queues.current = some t) : Done s (s.goto (.swapStore t))
  | swapStore {tmp : ThreadId} (pc : s.running.pc = .swapStore tmp) :
      Done s (s.goto (.stopTimer (.switch (.wait tmp))))
  | stopTimer {sec : Section} (pc : s.running.pc = .stopTimer sec) :
      Done s ({ s with armed := false }.goto (.spin sec))
  | spinOn {sec : Section} (pc : s.running.pc = .spin sec)
      (set : s.queues.gQueueSpinlock = true) : Done s s
  | spin {sec : Section} (pc : s.running.pc = .spin sec)
      (free : s.queues.gQueueSpinlock = false) : Done s (s.goto (.setLock sec))
  | setLock {sec : Section} (pc : s.running.pc = .setLock sec) :
      Done s ({ s with queues := { s.queues with gQueueSpinlock := true } }.goto
        (.startTimer sec))
  | startTimer {sec : Section} (pc : s.running.pc = .startTimer sec) :
      Done s ({ s with armed := true }.goto (sec.entry s.queues))
  | first {w : Switch} (pc : s.running.pc = .first w) :
      Done s ({ s with queues := { s.queues with current := s.queues.gQueueReady.first } }.goto
        (.removeHead w))
  | removeHead {w : Switch} {head : Head ThreadId} (pc : s.running.pc = .removeHead w)
      (removed : TailQueue.removeHead s.queues.list s.queues.gQueueReady = some head) :
      Done s ({ s with queues := { s.queues with gQueueReady := head } }.goto w.insert)
  | insertReady {sec : Section} {t : ThreadId} (pc : s.running.pc = .insertReady sec t) :
      Done s ({ s with queues := s.queues.insertTailReady t }.goto
        (sec.inserted (s.queues.insertTailReady t) t))
  | insertWait {tmp : ThreadId} (pc : s.running.pc = .insertWait tmp) :
      Done s ({ s with queues := s.queues.insertTailWait tmp }.goto
        (.unlock (.switch (.wait tmp))))
  | scanEnd {every : Bool} {mu : Nat} (pc : s.running.pc = .scan every mu none) :
      Done s (s.goto (.unlock (.release every mu)))
  | scanMatch {every : Bool} {mu : Nat} {ti : ThreadId}
      (pc : s.running.pc = .scan every mu (some ti)) (found : mu = s.queues.mu ti) :
      Done s (s.goto (.remove every mu ti))
  | scanNext {every : Bool} {mu : Nat} {ti : ThreadId}
      (pc : s.running.pc = .scan every mu (some ti)) (other : mu ≠ s.queues.mu ti) :
      Done s (s.goto (.scan every mu (s.queues.list ti)))
  | remove {every : Bool} {mu : Nat} {ti : ThreadId} {list : ThreadId → Option ThreadId}
      {head : Head ThreadId} (pc : s.running.pc = .remove every mu ti)
      (removed : TailQueue.remove s.queues.bound s.queues.list s.queues.gQueueWait ti =
        some (list, head)) :
      Done s ({ s with queues := { s.queues with list := list, gQueueWait := head } }.goto
        (.insertReady (.release every mu) ti))
  | unlock {sec : Section} (pc : s.running.pc = .unlock sec) :
      Done s ({ s with queues := s.queues.releaseQueueSpinlock }.released sec)
  | swapcontext {tmp t : ThreadId} {f : Flow} (pc : s.running.pc = .swapcontext tmp)
      (current : s.queues.current = some t) (context : (s.save tmp).context t = some f) :
      Done s { s.save tmp with running := f }
  | setcontext {t : ThreadId} {f : Flow} (pc : s.running.pc = .setcontext)
      (current : s.queues.current = some t) (context : s.context t = some f) :
      Done s { s with running := f }
  | switchPages (pc : s.running.pc = .switchPages) : Done s s.leave
  | exitMutex (pc : s.running.pc = .exitMutex) : Done s (s.goto .exitPages)
  | exitPages (pc : s.running.pc = .exitPages) : Done s (s.goto .exitFree)
  | exitFree {t : ThreadId} (pc : s.running.pc = .exitFree) (current : s.queues.current = some t) :
      Done s ({ s with
        live := Function.update s.live t false
        context := Function.update s.context t none }.goto .exitNull)
  | exitNull (pc : s.running.pc = .exitNull) :
      Done s ({ s with
        queues := { s.queues with current := none }
        running := { s.running with exited := true } }.goto .scheduleEmpty)

theorem statement_done {s s' : Machine} (h : s.statement = .ok s') : s.Done s' := by
  rw [statement] at h
  cases hpc : s.running.pc with
  | user =>
      rw [hpc] at h
      cases h
      exact .user hpc
  | scheduleEmpty =>
      simp only [hpc, Except.ok.injEq] at h
      by_cases hempty : s.queues.gQueueReady.first = none
      · rw [if_pos hempty] at h
        exact h ▸ .scheduleEmpty hpc hempty
      · rw [if_neg hempty] at h
        exact h ▸ .scheduleReady hpc hempty
  | swapEmpty =>
      simp only [hpc, Except.ok.injEq] at h
      by_cases hempty : s.queues.gQueueReady.first = none
      · rw [if_pos hempty] at h
        exact h ▸ .swapEmpty hpc hempty
      · rw [if_neg hempty] at h
        exact h ▸ .swapReady hpc hempty
  | scheduleNull =>
      simp only [hpc, Except.ok.injEq] at h
      by_cases hnull : s.queues.current = none
      · rw [if_pos hnull] at h
        exact h ▸ .scheduleNull hpc hnull
      · rw [if_neg hnull] at h
        exact h ▸ .scheduleElse hpc hnull
  | scheduleTmp =>
      simp only [hpc, withCurrent_ok, Except.ok.injEq] at h
      obtain ⟨t, hcurrent, rfl⟩ := h
      exact .scheduleTmp hpc hcurrent
  | scheduleStore tmp =>
      simp only [hpc, withCurrent_ok, Except.ok.injEq] at h
      obtain ⟨t, -, rfl⟩ := h
      exact .scheduleStore hpc
  | setMu mu =>
      simp only [hpc, withCurrent_ok, Except.ok.injEq] at h
      obtain ⟨t, hcurrent, rfl⟩ := h
      exact .setMu hpc hcurrent
  | swapTmp =>
      simp only [hpc, withCurrent_ok, Except.ok.injEq] at h
      obtain ⟨t, hcurrent, rfl⟩ := h
      exact .swapTmp hpc hcurrent
  | swapStore tmp =>
      simp only [hpc, withCurrent_ok, Except.ok.injEq] at h
      obtain ⟨t, -, rfl⟩ := h
      exact .swapStore hpc
  | stopTimer sec =>
      simp only [hpc, Except.ok.injEq] at h
      exact h ▸ .stopTimer hpc
  | spin sec =>
      simp only [hpc, Except.ok.injEq] at h
      by_cases hset : s.queues.gQueueSpinlock = true
      · rw [if_pos hset] at h
        exact h ▸ .spinOn hpc hset
      · rw [if_neg hset] at h
        exact h ▸ .spin hpc (Bool.eq_false_of_not_eq_true hset)
  | setLock sec =>
      simp only [hpc, Except.ok.injEq] at h
      exact h ▸ .setLock hpc
  | startTimer sec =>
      simp only [hpc, Except.ok.injEq] at h
      exact h ▸ .startTimer hpc
  | first w =>
      simp only [hpc, Except.ok.injEq] at h
      exact h ▸ .first hpc
  | removeHead w =>
      simp only [hpc] at h
      cases hhead : TailQueue.removeHead s.queues.list s.queues.gQueueReady with
      | none => simp [hhead] at h
      | some head =>
          simp only [hhead, Except.ok.injEq] at h
          exact h ▸ .removeHead hpc hhead
  | insertReady sec t =>
      simp only [hpc, Except.ok.injEq] at h
      exact h ▸ .insertReady hpc
  | insertWait tmp =>
      simp only [hpc, Except.ok.injEq] at h
      exact h ▸ .insertWait hpc
  | scan every mu ti =>
      cases ti with
      | none =>
          simp only [hpc, Except.ok.injEq] at h
          exact h ▸ .scanEnd hpc
      | some ti =>
          simp only [hpc, Except.ok.injEq] at h
          by_cases hmatch : mu = s.queues.mu ti
          · rw [if_pos hmatch] at h
            exact h ▸ .scanMatch hpc hmatch
          · rw [if_neg hmatch] at h
            exact h ▸ .scanNext hpc hmatch
  | remove every mu ti =>
      simp only [hpc] at h
      cases hremoved : TailQueue.remove s.queues.bound s.queues.list s.queues.gQueueWait ti with
      | none => simp [hremoved] at h
      | some removed =>
          simp only [hremoved, Except.ok.injEq] at h
          exact h ▸ .remove hpc hremoved
  | unlock sec =>
      simp only [hpc, Except.ok.injEq] at h
      exact h ▸ .unlock hpc
  | swapcontext tmp =>
      simp only [hpc] at h
      obtain ⟨t, f, hcurrent, hf, rfl⟩ := setcontext_ok.mp h
      exact .swapcontext hpc hcurrent hf
  | setcontext =>
      simp only [hpc] at h
      obtain ⟨t, f, hcurrent, hf, rfl⟩ := setcontext_ok.mp h
      exact .setcontext hpc hcurrent hf
  | switchPages =>
      simp only [hpc, withCurrent_ok, Except.ok.injEq] at h
      obtain ⟨t, -, rfl⟩ := h
      exact .switchPages hpc
  | exitMutex =>
      simp only [hpc, withCurrent_ok, Except.ok.injEq] at h
      obtain ⟨t, -, rfl⟩ := h
      exact .exitMutex hpc
  | exitPages =>
      simp only [hpc, withCurrent_ok, Except.ok.injEq] at h
      obtain ⟨t, -, rfl⟩ := h
      exact .exitPages hpc
  | exitFree =>
      simp only [hpc, withCurrent_ok, Except.ok.injEq] at h
      obtain ⟨t, hcurrent, rfl⟩ := h
      exact .exitFree hpc hcurrent
  | exitNull =>
      simp only [hpc, Except.ok.injEq] at h
      exact h ▸ .exitNull hpc

end Machine

/-- A flow does its next statement, the timer expires, or user code calls the
library: `wait` is the branch of `my_pthread_mutex_lock` and `my_pthread_join`
that waits, `wake` the call of `release_thread` in `my_pthread_mutex_unlock`,
`exit` is `my_pthread_exit` and the end of `thread_stub`. -/
inductive Turn
  | statement
  | tick
  | yield
  | wait (mu : Nat)
  | wake (mu : Nat)
  | exit
  | create (ti : ThreadId) (tid : Nat)
  deriving DecidableEq

namespace Machine

/-- `my_pthread_create` in front of its section: the new thread is allocated and
gets a context, a stack and the handle that `alloc_mutex` returned. -/
def newThread (s : Machine) (ti : ThreadId) (tid : Nat) : Machine :=
  { s with
    queues := { s.queues with
      gThreadsCnt := s.queues.gThreadsCnt + 1
      list := Function.update s.queues.list ti none
      mu := Function.update s.queues.mu ti 0 }
    context := Function.update s.context ti (some (Flow.start ti))
    live := Function.update s.live ti true
    tid := Function.update s.tid ti tid }

def turn (s : Machine) : Turn → Except Fault Machine
  | .statement => s.statement
  | .tick => .ok { s with running := s.running.interrupt }
  | .yield => .ok (s.goto .scheduleEmpty)
  | .wait mu => .ok (s.goto (.setMu mu))
  | .wake mu => .ok (s.goto (.stopTimer (.release false mu)))
  | .exit => s.withCurrent fun t => .ok (s.goto (.stopTimer (.release true (s.tid t))))
  | .create ti tid => .ok ((s.newThread ti tid).goto (.stopTimer (.create ti)))

/-- The handler starts while the timer runs and no handler does; a new thread is
placed where none is allocated. -/
def Enabled (s : Machine) : Turn → Prop
  | .statement => True
  | .tick => s.armed = true ∧ s.running.interrupted = none
  | .yield | .wait _ | .wake _ | .exit => s.running.pc = .user
  | .create ti _ => s.running.pc = .user ∧ s.live ti = false

instance (s : Machine) : DecidablePred s.Enabled
  | .statement => inferInstanceAs (Decidable True)
  | .tick => inferInstanceAs (Decidable (s.armed = true ∧ s.running.interrupted = none))
  | .yield | .wait _ | .wake _ | .exit => inferInstanceAs (Decidable (s.running.pc = .user))
  | .create ti _ => inferInstanceAs (Decidable (s.running.pc = .user ∧ s.live ti = false))

def next (s : Machine) (e : Turn) : Option Machine := (s.turn e).toOption

def Step (s : Machine) (e : Turn) (s' : Machine) : Prop := s.next e = some s'

theorem step_iff {s s' : Machine} {e : Turn} : s.Step e s' ↔ s.turn e = .ok s' := by
  rw [Step, next, Outcome.toOption_eq_some_iff]

/-- Behind `my_pthread_init`: the main thread runs and is the only one. -/
structure Init (s : Machine) : Prop where
  running : s.running = Flow.start s.running.owner
  current : s.queues.current = some s.running.owner
  ready : s.queues.gQueueReady = Head.empty
  wait : s.queues.gQueueWait = Head.empty
  unlocked : s.queues.gQueueSpinlock = false
  armed : s.armed = true
  live : ∀ t, s.live t = true ↔ t = s.running.owner
  context : s.context = fun _ => none

/-- The states of the runs whose turns also meet `allowed`. -/
abbrev Reachable (allowed : Machine → Turn → Prop) : Machine → Prop :=
  Runs.Reachable Init (fun s e => s.Enabled e ∧ allowed s e) Step

/-- The timer comes outside the sections. -/
def Outside (s : Machine) (e : Turn) : Prop := e = .tick → s.queues.gQueueSpinlock = false

instance (s : Machine) : DecidablePred s.Outside := fun e => inferInstanceAs (Decidable
  (e = .tick → s.queues.gQueueSpinlock = false))

/-- Thread 0 behind `my_pthread_init`. -/
def start : Machine where
  queues :=
    { current := some 0
      list := fun _ => none
      mu := fun _ => 0
      gQueueReady := Head.empty
      gQueueWait := Head.empty
      gQueueSpinlock := false
      gThreadsCnt := 0 }
  context := fun _ => none
  running := Flow.start 0
  armed := true
  live := fun t => t == 0
  tid := fun _ => 0

theorem init_start : start.Init :=
  ⟨rfl, rfl, rfl, rfl, rfl, rfl, fun _ => beq_iff_eq, rfl⟩

/-- The turns one after another, each allowed where it is taken. -/
def execute (allowed : Machine → Turn → Prop) [∀ s, DecidablePred (allowed s)] :
    List Turn → Option Machine :=
  Runs.run (fun s e => decide (s.Enabled e ∧ allowed s e)) next start

theorem exists_reachable (allowed : Machine → Turn → Prop) [∀ s, DecidablePred (allowed s)]
    (P : Machine → Prop) [DecidablePred P] (es : List Turn)
    (h : (execute allowed es).any (fun s => decide (P s)) = true) :
    ∃ s : Machine, s.Reachable allowed ∧ P s :=
  Runs.exists_reachable_of_run _ next init_start P es h

end Machine

/-- So many statements. -/
def Turn.statements (n : Nat) : List Turn := List.replicate n .statement

end OsDesign.Timer
