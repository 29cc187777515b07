import OsDesign.Test.Standing

/-!
The statements of `main`, and the timer, over the ideal process.
-/
namespace OsDesign.Test

open Virt Pthread Whole Heap CString

variable {k k' : Globals} {i : Ideal} {a : Sched} {main t ti : ThreadId} {others : List ThreadId}
  {who : Role} {w : Local} {j : Nat} {block : Contents}

/-- The call comes back in the ideal process, and everything stands behind it. -/
def Promises (i : Ideal) (c : Call × (Answer → Globals)) : Prop :=
  ∃ i' a, i.call c.1 = some (.ok (i', a)) ∧ Standing (c.2 a) i'

/-- The points at which `main` writes the message of the thread that it creates next. -/
structure Writes (who : Role) (point : MainPoint) : Prop where
  begun : point ≠ .init
  goes : point ≠ .finished
  made : point.made = who.index
  shared : point.shared = who.index + 1
  waits : point.waits = false

theorem writes_clearing (who : Role) (j : Nat) : Writes who (.clearing who j) :=
  ⟨MainPoint.noConfusion, MainPoint.noConfusion, rfl, rfl, rfl⟩

theorem writes_copying (who : Role) (j : Nat) : Writes who (.copying who j) :=
  ⟨MainPoint.noConfusion, MainPoint.noConfusion, rfl, rfl, rfl⟩

theorem writes_creating (who : Role) : Writes who (.creating who) :=
  ⟨MainPoint.noConfusion, MainPoint.noConfusion, rfl, rfl, rfl⟩

/-- `main` goes on, with the same threads. -/
theorem Roster.congr (roster : Roster k a main others) (worker : k'.worker = k.worker)
    (tid : k'.tid = k.tid) (made : k'.main.made = k.main.made)
    (waits : k'.main.waits = k.main.waits) : Roster k' a main others := by
  refine ⟨?_, roster.nodup, roster.live, ?_, ?_, ?_, ?_⟩
  · rw [waits]
    exact roster.lists
  · rw [worker]
    exact roster.workers
  · rw [made]
    exact roster.count
  · rw [waits, made]
    exact roster.table
  · rw [made, tid]
    exact roster.tids

/-- The threads are where they were. -/
theorem Workers.congr (workers : Workers k i others) (worker : k'.worker = k.worker)
    (printed : k'.printed = k.printed) (statements : k'.statements = k.statements)
    (made : k'.main.made = k.main.made) {i' : Ideal} (own : i'.own = i.own)
    (granted : i'.granted = i.granted) : Workers k' i' others := by
  have lines : k'.lines = k.lines := by
    funext t
    rw [Globals.lines, printed, Globals.lines]
  refine ⟨?_, ?_, ?_⟩
  · intro t who w here
    rw [worker] at here
    have thread := workers.threads t who w here
    refine ⟨made ▸ thread.index, thread.arg, own ▸ thread.stands, ?_⟩
    rw [lines, statements]
    exact thread.account
  · rw [worker, lines, statements]
    exact workers.silent
  · rw [granted, own]
    exact workers.granted

/-- `main` stores a byte in the page of a thread that it has not created. -/
theorem Messages.store (messages : Messages k i) (here : Writes who k.main) (hj : j < 512)
    {byte : UInt8} {point : MainPoint} (next : Writes who point)
    (written : Written point (Function.update i.shared (page who + j) byte)) :
    Messages (k.goMain point)
      { i with shared := Function.update i.shared (page who + j) byte } := by
  refine ⟨messages.init, ?_, ?_, ?_, written⟩
  · change i.share = pagesTaken point.shared
    rw [next.shared, ← here.shared]
    exact messages.share
  · change ∀ who' : Role, who'.index < point.shared → _
    rw [next.shared, ← here.shared]
    exact messages.pshare
  · change ∀ who' : Role, who'.index < point.made → _
    rw [next.made]
    intro who' earlier
    refine (messages.given who' (here.made ▸ earlier)).congr ?_
    intro j' hj'
    have length := message_length who'
    have other : who' ≠ who := by
      rintro rfl
      exact Nat.lt_irrefl _ earlier
    have apart : page who' + j' ≠ page who + j := page_apart other (by omega) hj
    dsimp only
    rw [Function.update_of_ne apart]

section Creation

/-- The process behind the creation of the thread `ti`. -/
def withThread (ti : ThreadId) (block : Contents) (n : Nat) (i : Ideal) : Ideal :=
  let sched := (i.receive ti block).sched
  { i with
    sched := { sched with
      ready := sched.ready ++ [ti]
      mu := Function.update sched.mu ti 0
      tid := Function.update sched.tid ti (n + 1)
      table := handles (n + 1)
      live := Function.update sched.live ti true }
    own := Function.update i.own ti .fresh }

/-- The program behind it. -/
def withWorker (ti : ThreadId) (who : Role) (k : Globals) : Globals :=
  { k with
    tid := Function.update k.tid who (who.index + 1)
    worker := Function.update k.worker ti (some (who, ⟨k.pshare who, 0, .message []⟩))
    main := afterCreate who }

theorem call_create (init : i.gPthreadInit = true) {n : Nat} (table : i.sched.table = handles n)
    (room : n + 1 < Pthread.maxMutexNum) : i.call (.create ti block ti block) =
      some (.ok (withThread ti block n i, .returned ⟨0, some (n + 1)⟩)) := by
  have same : (i.receive ti block).sched.table = handles n := table
  simp only [Ideal.call, Ideal.myPthreadCreate, if_pos init, Ideal.addThread,
    create_handles same room]
  rfl

theorem afterCreate_made (who : Role) : (afterCreate who).made = who.index + 1 := by
  cases who <;> rfl

theorem afterCreate_shared (who : Role) : (afterCreate who).shared = who.index + 1 := by
  cases who <;> rfl

theorem afterCreate_waits (who : Role) : (afterCreate who).waits = false := by
  cases who <;> rfl

theorem Roster.create (roster : Roster k i.sched main others) (at_ : k.main = .creating who)
    (fresh : i.sched.live ti = false) (block : Contents) :
    Roster (withWorker ti who k) (withThread ti block who.index i).sched main (ti :: others) := by
  have made : k.main.made = who.index := at_ ▸ rfl
  have waits : k.main.waits = false := at_ ▸ rfl
  have new : ti ∉ main :: others := by
    intro mem
    rw [roster.live ti mem] at fresh
    cases fresh
  obtain ⟨notMain, notOther⟩ := not_or.mp fun mem => new (List.mem_cons.mpr mem)
  obtain ⟨mainOther, nodup⟩ := List.nodup_cons.mp roster.nodup
  refine ⟨?_, ?_, ?_, ?_, ?_, ?_, ?_⟩
  · change Lists _ main (ti :: others) (afterCreate who).waits
    rw [afterCreate_waits]
    exact (waits ▸ roster.lists).create rfl rfl rfl
  · refine List.nodup_cons.mpr ⟨?_, List.nodup_cons.mpr ⟨notOther, nodup⟩⟩
    exact fun mem => (List.mem_cons.mp mem).elim (fun same => notMain same.symm) mainOther
  · intro t mem
    change Function.update i.sched.live ti true t = true
    by_cases same : t = ti
    · rw [same, Function.update_self]
    · rw [Function.update_of_ne same]
      refine roster.live t ?_
      rcases List.mem_cons.mp mem with first | later
      · exact List.mem_cons.mpr (.inl first)
      · exact List.mem_cons_of_mem _ ((List.mem_cons.mp later).resolve_left same)
  · intro t
    change (Function.update k.worker ti _ t).isSome = true ↔ _
    by_cases same : t = ti
    · rw [same, Function.update_self]
      exact iff_of_true rfl List.mem_cons_self
    · rw [Function.update_of_ne same, roster.workers, List.mem_cons]
      exact ⟨.inr, fun mem => mem.resolve_left same⟩
  · change others.length + 1 = (afterCreate who).made
    rw [roster.count, made, afterCreate_made]
  · intro _
    change handles (who.index + 1) = handles (afterCreate who).made
    rw [afterCreate_made]
  · intro who' earlier
    change Function.update k.tid who (who.index + 1) who' = who'.index + 1
    by_cases same : who' = who
    · rw [same, Function.update_self]
    · rw [Function.update_of_ne same]
      have other := index_ne same
      change who'.index < (afterCreate who).made at earlier
      rw [afterCreate_made] at earlier
      exact roster.tids who' (by omega)

theorem Messages.create (messages : Messages k i) (at_ : k.main = .creating who)
    (ti : ThreadId) (block : Contents) :
    Messages (withWorker ti who k) (withThread ti block who.index i) := by
  have made : k.main.made = who.index := at_ ▸ rfl
  have shared : k.main.shared = who.index + 1 := at_ ▸ rfl
  refine ⟨messages.init, ?_, ?_, ?_, ?_⟩
  · change i.share = pagesTaken (afterCreate who).shared
    rw [afterCreate_shared, messages.share, shared]
  · change ∀ who' : Role, who'.index < (afterCreate who).shared → _
    rw [afterCreate_shared, ← shared]
    exact messages.pshare
  · intro who' earlier
    change who'.index < (afterCreate who).made at earlier
    rw [afterCreate_made] at earlier
    by_cases same : who' = who
    · have written := messages.written
      rw [at_] at written
      rw [same]
      exact written
    · have other := index_ne same
      exact messages.given who' (by omega)
  · change Written (afterCreate who) _
    cases who <;> trivial

/-- The new thread has printed nothing, and its heap is empty. -/
theorem Workers.create (workers : Workers k i others) (roster : Roster k i.sched main others)
    (messages : Messages k i) (at_ : k.main = .creating who) (fresh : i.sched.live ti = false)
    (block : Contents) :
    Workers (withWorker ti who k) (withThread ti block who.index i) (ti :: others) := by
  have made : k.main.made = who.index := at_ ▸ rfl
  have taken : who.index < k.main.shared := by
    rw [at_]
    exact Nat.lt_succ_self _
  have new : ti ∉ others := by
    intro mem
    rw [roster.live ti (List.mem_cons_of_mem _ mem)] at fresh
    cases fresh
  have unused : k.worker ti = none := by
    rw [← Option.not_isSome_iff_eq_none, roster.workers]
    exact new
  refine ⟨?_, ?_, ?_⟩
  · intro t who' w here
    change Function.update k.worker ti _ t = _ at here
    change Thread _ (Function.update i.own ti .fresh t) t who' w
    by_cases same : t = ti
    · subst same
      rw [Function.update_self] at here ⊢
      cases here
      obtain ⟨lines, statements⟩ := workers.silent t unused
      refine ⟨?_, messages.pshare who taken, ⟨OwnHeap.single_fresh, List.nil_prefix⟩,
        lines, statements⟩
      change who.index < (afterCreate who).made
      rw [afterCreate_made]
      exact Nat.lt_succ_self _
    · rw [Function.update_of_ne same] at here ⊢
      have thread := workers.threads t who' w here
      refine ⟨?_, thread.arg, thread.stands, thread.account⟩
      have index := thread.index
      change who'.index < (afterCreate who).made
      rw [afterCreate_made]
      omega
  · intro t absent
    change Function.update k.worker ti _ t = none at absent
    by_cases same : t = ti
    · rw [same, Function.update_self] at absent
      cases absent
    · rw [Function.update_of_ne same] at absent
      exact workers.silent t absent
  · change i.granted = ∑ t ∈ (ti :: others).toFinset, (Function.update i.own ti .fresh t).pages
    rw [List.toFinset_cons, Finset.sum_insert (fun mem => new (List.mem_toFinset.mp mem)),
      Function.update_self, workers.granted]
    refine (Finset.sum_congr rfl ?_).trans (Nat.zero_add _).symm
    intro t mem
    have other : t ≠ ti := by
      rintro rfl
      exact new (List.mem_toFinset.mp mem)
    rw [Function.update_of_ne other]

end Creation

section Main

variable (roster : Roster k i.sched main others) (messages : Messages k i)
  (workers : Workers k i others)

include roster messages workers

/-- `main` gets a page. -/
theorem promises_sharing (at_ : k.main = .sharing who) :
    Promises i (.shalloc 512, fun a =>
      { k with
        pshare := Function.update k.pshare who (pointerOf a)
        main := .clearing who 0 }) := by
  have index := index_lt who
  have taken : i.share = pagesTaken who.index := by rw [messages.share, at_]; rfl
  have served := shalloc_pagesTaken (n := who.index) (by omega)
  have made : (MainPoint.clearing who 0).made = k.main.made := at_ ▸ rfl
  have waits : (MainPoint.clearing who 0).waits = k.main.waits := at_ ▸ rfl
  refine ⟨{ i with share := pagesTaken (who.index + 1) }, .pointer (some (page who)), ?_, ?_⟩
  · simp only [Ideal.call, Ideal.shalloc, taken, served, page]
  · dsimp only [pointerOf, Option.getD_some]
    have next := writes_clearing who 0
    refine .runs main others next.begun next.goes ?_ ?_ ?_
    · apply roster.congr <;> first | rfl | exact made | exact waits
    · refine ⟨messages.init, rfl, ?_, ?_, Nat.zero_lt_succ _⟩
      · intro who' earlier
        by_cases same : who' = who
        · rw [same]
          exact Function.update_self _ _ _
        · refine (Function.update_of_ne same _ _).trans (messages.pshare who' ?_)
          have other := index_ne same
          change who'.index < who.index + 1 at earlier
          rw [at_]
          change who'.index < who.index
          omega
      · exact fun who earlier => messages.given who (made ▸ earlier)
    · apply workers.congr <;> first | rfl | exact made

/-- `main` stores a byte in the page of the thread that it creates next. -/
theorem promises_store (running : i.sched.current = some main) (here : Writes who k.main)
    {byte : UInt8} {point : MainPoint} (hj : j < 512) (next : Writes who point)
    (written : Written point (Function.update i.shared (page who + j) byte)) :
    Promises i (.store (k.pshare who + j) byte, fun _ => k.goMain point) := by
  have taken : who.index < k.main.shared := by
    rw [here.shared]
    exact Nat.lt_succ_self _
  have made : point.made = k.main.made := next.made.trans here.made.symm
  refine ⟨{ i with shared := Function.update i.shared (page who + j) byte }, .done, ?_, ?_⟩
  · simp only [Ideal.call, Ideal.store, running, messages.pshare who taken,
      if_pos (page_inShare who hj)]
  · refine .runs main others next.begun next.goes ?_ (messages.store here hj next written) ?_
    · exact roster.congr rfl rfl made (next.waits.trans here.waits.symm)
    · apply workers.congr <;> first | rfl | exact made

theorem promises_clearing (running : i.sched.current = some main)
    (at_ : k.main = .clearing who j) :
    Promises i (.store (k.pshare who + j) 0, fun _ =>
      k.goMain (loop j 512 (.clearing who) (.copying who 0))) := by
  have within : j < 512 := by
    have written := messages.written
    rwa [at_] at written
  have here : Writes who k.main := at_ ▸ writes_clearing who j
  by_cases more : j + 1 < 512
  · rw [loop, if_pos more]
    exact promises_store roster messages workers running here within (writes_clearing who _) more
  · rw [loop, if_neg more]
    exact promises_store roster messages workers running here within (writes_copying who 0)
      ⟨Nat.zero_lt_succ _, .zero _ _ _⟩

theorem promises_copying (running : i.sched.current = some main)
    (at_ : k.main = .copying who j) :
    Promises i (.store (k.pshare who + j) ((message who).getD j 0), fun _ =>
      k.goMain (loop j ((message who).length + 1) (.copying who) (.creating who))) := by
  have written := messages.written
  rw [at_] at written
  obtain ⟨within, begins⟩ := written
  have length := message_length who
  have fits : j < 512 := by omega
  have here : Writes who k.main := at_ ▸ writes_copying who j
  by_cases more : j + 1 < (message who).length + 1
  · rw [loop, if_pos more]
    exact promises_store roster messages workers running here fits (writes_copying who _)
      ⟨more, begins.push⟩
  · have last : j = (message who).length := by omega
    subst last
    rw [loop, if_neg more]
    exact promises_store roster messages workers running here fits (writes_creating who)
      begins.push

/-- `main` creates the thread that its message is for. -/
theorem promises_creating (at_ : k.main = .creating who) (fresh : i.sched.live ti = false) :
    Promises i (.create ti block ti block, fun a =>
      { k with
        tid := Function.update k.tid who (handleOf a)
        worker := Function.update k.worker ti (some (who, ⟨k.pshare who, 0, .message []⟩))
        main := afterCreate who }) := by
  have waits : k.main.waits = false := at_ ▸ rfl
  have made : k.main.made = who.index := at_ ▸ rfl
  have table := roster.table waits
  rw [made] at table
  have index := index_lt who
  have room : who.index + 1 < Pthread.maxMutexNum := Nat.lt_of_le_of_lt index (by decide)
  refine ⟨withThread ti block who.index i, _, call_create messages.init table room, ?_⟩
  refine .runs main (ti :: others) ?_ ?_ (roster.create at_ fresh block)
    (messages.create at_ ti block) (workers.create roster messages at_ fresh block)
  · exact fun h => by cases who <;> cases h
  · exact fun h => by cases who <;> cases h

/-- `main` joins `bigspender`, and waits. -/
theorem promises_joining (running : i.sched.current = some main) (at_ : k.main = .joining who)
    (free : k.main.waits = false) :
    Promises i (.plain (join (k.tid who)), fun _ => k.goMain (afterJoin who)) := by
  have made : k.main.made = 2 := at_ ▸ rfl
  have shared : k.main.shared = 2 := at_ ▸ rfl
  obtain rfl : who = .bigspender := by
    rw [at_] at free
    cases who with
    | bigspender => rfl
    | tester => cases free
  have handle : k.tid .bigspender = 1 := roster.tids .bigspender (by rw [made]; decide)
  have table := roster.table free
  rw [made] at table
  have more : others ≠ [] := by
    have count := roster.count
    rw [made] at count
    rintro rfl
    cases count
  have lists := roster.lists
  rw [free] at lists
  obtain ⟨sched, joined, waiting, live⟩ :=
    lists.join running more table (h := 1) (by decide) (by decide)
  refine ⟨{ i with sched := sched }, .returned ⟨0, none⟩, ?_, ?_⟩
  · simp only [Ideal.call, join, Ideal.plainCall, Sched.call, handle, joined]
  · refine .runs main others ?_ ?_ ?_ ?_ ?_
    · exact fun h => by cases h
    · exact fun h => by cases h
    · refine ⟨waiting, roster.nodup, ?_, roster.workers, ?_, ?_, ?_⟩
      · exact fun t mem => (congrFun live t).trans (roster.live t mem)
      · exact roster.count.trans made
      · exact fun free => by cases free
      · exact fun who earlier => roster.tids who (made ▸ earlier)
    · refine ⟨messages.init, messages.share.trans (congrArg pagesTaken shared), ?_, ?_, trivial⟩
      · exact fun who earlier => messages.pshare who (shared ▸ earlier)
      · exact fun who earlier => messages.given who (made ▸ earlier)
    · apply workers.congr <;> first | rfl | exact made.symm

end Main

end OsDesign.Test
