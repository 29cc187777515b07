import OsDesign.Test.MainThread

/-!
Runs of `test.c`. Every statement of every thread comes back, whatever the timer does and
however the threads get in each other's pages, and each thread prints the strings of the
source: its message once, and then the string that it has copied into its block, as often as
it went through its loop.
-/
namespace OsDesign.Test

open Virt Pthread Whole Heap CString

variable {k : Globals} {i : Ideal} {a : Sched} {main t ti : ThreadId} {others : List ThreadId}
  {who : Role} {w : Local} {block : Contents} {p : Globals × State} {e : Turn} {es : List Turn}

/-- The thread is where it was, or further. -/
theorem Roster.goWorker (roster : Roster k a main others) (mem : t ∈ others)
    (w : Local × Option (List UInt8)) : Roster (k.goWorker t who w) a main others := by
  refine ⟨roster.lists, roster.nodup, roster.live, ?_, roster.count, roster.table, roster.tids⟩
  intro u
  change (Function.update k.worker t _ u).isSome = true ↔ _
  by_cases same : u = t
  · rw [same, Function.update_self]
    exact iff_of_true rfl mem
  · rw [Function.update_of_ne same]
    exact roster.workers u

/-- A thread has moved, and no other. -/
theorem Workers.goWorker (workers : Workers k i others) (here : k.worker t = some (who, w))
    (mem : t ∈ others) {o : OwnHeap} {w' : Local × Option (List UInt8)}
    (moved : Moved who (i.own t) w (k.lines t) (k.statements t) o w') :
    Workers (k.goWorker t who w') (i.setOwn t o) others := by
  refine ⟨?_, ?_, ?_⟩
  · intro u who' w'' there
    change Function.update k.worker t _ u = _ at there
    change Thread _ (Function.update i.own t o u) u who' w''
    by_cases same : u = t
    · subst same
      rw [Function.update_self] at there ⊢
      cases there
      have thread := workers.threads u who w here
      refine ⟨thread.index, moved.arg.trans thread.arg, moved.stands, ?_⟩
      have statements : (k.goWorker u who w').statements u = k.statements u + 1 :=
        Function.update_self _ _ _
      rw [lines_goWorker_self, statements]
      exact moved.account
    · rw [Function.update_of_ne same] at there ⊢
      have thread := workers.threads u who' w'' there
      have statements : (k.goWorker t who w').statements u = k.statements u :=
        Function.update_of_ne same _ _
      refine ⟨thread.index, thread.arg, thread.stands, ?_⟩
      rw [lines_goWorker_of_ne same, statements]
      exact thread.account
  · intro u absent
    change Function.update k.worker t _ u = none at absent
    by_cases same : u = t
    · rw [same, Function.update_self] at absent
      cases absent
    · rw [Function.update_of_ne same] at absent
      have statements : (k.goWorker t who w').statements u = k.statements u :=
        Function.update_of_ne same _ _
      rw [lines_goWorker_of_ne same, statements]
      exact workers.silent u absent
  · have mem := List.mem_toFinset.mpr mem
    have rest : ∑ u ∈ others.toFinset.erase t, (Function.update i.own t o u).pages =
        ∑ u ∈ others.toFinset.erase t, (i.own u).pages := by
      refine Finset.sum_congr rfl ?_
      intro u there
      rw [Function.update_of_ne (Finset.ne_of_mem_erase there)]
    have before := workers.granted
    have pages := moved.pages
    change i.granted + (o.pages - (i.own t).pages) =
      ∑ u ∈ others.toFinset, (Function.update i.own t o u).pages
    rw [← Finset.add_sum_erase _ _ mem] at before ⊢
    rw [rest, Function.update_self]
    omega

/-- A statement of a created thread. -/
theorem promises_worker (begun : k.main ≠ .init) (goes : k.main ≠ .finished)
    (roster : Roster k i.sched main others) (messages : Messages k i)
    (workers : Workers k i others) (running : i.sched.current = some t)
    (here : k.worker t = some (who, w)) (mem : t ∈ others) :
    Promises i (k.workerAct t who w) := by
  have thread := workers.threads t who w here
  have length := message_length who
  have given : Given who i.shared w.arg := by
    rw [thread.arg]
    exact ⟨fun j hj => page_inShare who (by omega), messages.given who thread.index⟩
  obtain ⟨o, a, called, moved⟩ := moves running given thread.stands thread.account
  rw [Globals.workerAct, body_eq]
  refine ⟨i.setOwn t o, a, called, ?_⟩
  refine .runs main others begun goes (roster.goWorker mem _) ?_ (workers.goWorker here mem moved)
  exact ⟨messages.init, messages.share, messages.pshare, messages.given, messages.written⟩

theorem schedule_rest (a : Sched) : a.schedule.live = a.live ∧ a.schedule.table = a.table := by
  rw [Sched.schedule]
  split
  · exact ⟨rfl, rfl⟩
  · exact ⟨rfl, rfl⟩

/-- The timer. -/
theorem promises_tick (begun : k.main ≠ .init) (goes : k.main ≠ .finished)
    (roster : Roster k i.sched main others) (messages : Messages k i)
    (workers : Workers k i others) : Promises i (.plain timer, fun _ => k) := by
  obtain ⟨live, table⟩ := schedule_rest i.sched
  refine ⟨{ i with sched := i.sched.schedule }, .returned ⟨0, none⟩, rfl, ?_⟩
  refine .runs main others begun goes ?_ ?_ ?_
  · exact ⟨roster.lists.schedule, roster.nodup, live ▸ roster.live, roster.workers, roster.count,
      table ▸ roster.table, roster.tids⟩
  · exact ⟨messages.init, messages.share, messages.pshare, messages.given, messages.written⟩
  · exact ⟨workers.threads, workers.silent, workers.granted⟩

/-- `my_pthread_init` -/
theorem promises_init (main : ThreadId) (block : Contents) :
    Promises .start (.init main block mmInit, fun _ =>
      Globals.start.goMain (.sharing .bigspender)) := by
  refine ⟨Ideal.start.myPthreadInit main block, .done, rfl, ?_⟩
  refine .runs main [] ?_ ?_ ?_ ?_ ?_
  · exact fun h => by cases h
  · exact fun h => by cases h
  · refine ⟨⟨⟨main, rfl⟩, rfl, .refl _⟩, List.nodup_singleton main, ?_, ?_, rfl, ?_, ?_⟩
    · intro t mem
      rw [List.mem_singleton.mp mem]
      exact Function.update_self _ _ _
    · exact fun t => iff_of_false (fun h => by cases h) List.not_mem_nil
    · intro _
      funext h
      exact (handles_free (n := 0) fun range => by omega).symm
    · exact fun who earlier => absurd earlier (Nat.not_lt_zero _)
  · refine ⟨rfl, pagesTaken_zero.symm, ?_, ?_, trivial⟩
    · exact fun who earlier => absurd earlier (Nat.not_lt_zero _)
    · exact fun who earlier => absurd earlier (Nat.not_lt_zero _)
  · refine ⟨?_, fun _ _ => ⟨rfl, rfl⟩, rfl⟩
    exact fun _ _ _ here => by cases here

/-- The statement of `main` that comes next. -/
theorem promises_main (begun : k.main ≠ .init) (goes : k.main ≠ .finished)
    (roster : Roster k i.sched main others) (messages : Messages k i)
    (workers : Workers k i others) (running : i.sched.current = some main)
    (free : k.main.waits = false) (fresh : ∀ who, k.main = .creating who → i.sched.live ti = false)
    {c : Call × (Answer → Globals)} (comes : k.mainAct ti block = some c) : Promises i c := by
  rw [Globals.mainAct] at comes
  cases at_ : k.main with
  | init => exact absurd at_ begun
  | sharing who =>
      rw [at_] at comes
      cases comes
      exact promises_sharing roster messages workers at_
  | clearing who j =>
      rw [at_] at comes
      cases comes
      exact promises_clearing roster messages workers running at_
  | copying who j =>
      rw [at_] at comes
      cases comes
      exact promises_copying roster messages workers running at_
  | creating who =>
      rw [at_] at comes
      cases comes
      exact promises_creating roster messages workers at_ (fresh who at_)
  | joining who =>
      rw [at_] at comes
      cases comes
      exact promises_joining roster messages workers running at_ free
  | finished => exact absurd at_ goes

theorem act_tick (goes : k.main ≠ .finished) {c : Option ThreadId} (runs : c ≠ none) :
    k.act .tick c = some (.plain timer, fun _ => k) := by
  unfold Globals.act
  rw [if_neg goes]
  exact if_neg runs

theorem act_statement (goes : k.main ≠ .finished) (c : Option ThreadId) :
    k.act (.act ti block) c = k.statement ti block c := by
  unfold Globals.act
  exact if_neg goes

theorem act_worker (goes : k.main ≠ .finished) (here : k.worker t = some (who, w)) :
    k.act (.act ti block) (some t) = some (k.workerAct t who w) := by
  rw [act_statement goes]
  simp only [Globals.statement, Option.bind_some, here, Option.map_some]

/-- A thread that `main` has not created is `main`. -/
theorem act_main (goes : k.main ≠ .finished) (absent : k.worker t = none) :
    k.act (.act ti block) (some t) = k.mainAct ti block := by
  rw [act_statement goes]
  simp only [Globals.statement, Option.bind_some, absent, Option.map_none]

theorem Standing.not_finished (standing : Standing k i) : k.main ≠ .finished := by
  cases standing with
  | idle program _ =>
      rw [program]
      exact fun finished => by cases finished
  | runs _ _ _ goes _ _ _ => exact goes

/-- Whatever comes next is promised. -/
theorem Standing.promises (standing : Standing k i) {c : Call × (Answer → Globals)}
    (comes : k.act e i.sched.current = some c)
    (fresh : ∀ main mainBlock ti block, c.1 = .create main mainBlock ti block →
      i.sched.live ti = false) : Promises i c := by
  cases standing with
  | idle program process =>
      subst program process
      cases e with
      | tick => cases comes
      | act ti block =>
          cases comes
          exact promises_init ti block
  | runs main others begun goes roster messages workers =>
      obtain ⟨t, running⟩ := roster.lists.current
      rw [running] at comes
      cases e with
      | tick =>
          rw [act_tick goes (by simp)] at comes
          cases comes
          exact promises_tick begun goes roster messages workers
      | act ti block =>
          rcases roster.running_cases running with
            ⟨rfl, free, absent⟩ | ⟨who, w, here, mem⟩
          · rw [act_main goes absent] at comes
            refine promises_main begun goes roster messages workers running free ?_ comes
            intro who at_
            rw [Globals.mainAct, at_] at comes
            cases comes
            exact fresh _ _ _ _ rfl
          · rw [act_worker goes here] at comes
            cases comes
            exact promises_worker begun goes roster messages workers running here mem

/-- A statement always comes next. -/
theorem Standing.goes_on (standing : Standing k i) (started : e = .tick → k.main ≠ .init) :
    (k.act e i.sched.current).isSome = true := by
  cases standing with
  | idle program process =>
      subst program process
      cases e with
      | tick => exact absurd rfl (started rfl)
      | act ti block => rfl
  | runs main others begun goes roster messages workers =>
      obtain ⟨t, running⟩ := roster.lists.current
      rw [running]
      cases e with
      | tick =>
          rw [act_tick goes (by simp)]
          rfl
      | act ti block =>
          rcases roster.running_cases running with
            ⟨rfl, free, absent⟩ | ⟨who, w, here, mem⟩
          · rw [act_main goes absent, Globals.mainAct]
            cases at_ : k.main with
            | finished => exact absurd at_ goes
            | _ => rfl
          · rw [act_worker goes here]
            rfl

/-- There are more frames and slots than the threads need. -/
theorem Standing.granted_le (standing : Standing k i) : i.granted ≤ 4 := by
  cases standing with
  | idle _ process =>
      subst process
      exact Nat.zero_le _
  | runs main others _ _ roster _ workers => exact workers.granted_le roster

/-- The library does for the program what the ideal one promises. -/
theorem promise : Clients.Promise Globals.act current State.call Allowed Ideal.call
    State.Shows Standing := by
  refine ⟨?_, ?_⟩
  · intro s k i e c shows standing comes allowed
    have seen : current s = i.sched.current := congrArg Sched.current shows.lists
    rw [seen] at comes
    refine standing.promises comes ?_
    intro main mainBlock ti block create
    have enabled := allowed.1
    rw [create] at enabled
    rw [← congrFun (congrArg Sched.live shows.lists) ti]
    exact enabled.1
  · intro s k i c y shows standing allowed promised
    have granted := standing.granted_le
    have frames := maxPhysicalPages_eq
    have slots := maxSwapSlots_eq
    exact shows.call_of_room allowed.1 allowed.2 (by omega) promised

/-- Blocks that come cleared, if the main thread gets one of them. -/
theorem mainCleared_of_act {current : Option ThreadId} {c : Call × (Answer → Globals)}
    (comes : k.act e current = some c) (cleared : ∀ ti block, e = .act ti block → block.Cleared)
    (s : State) : s.MainCleared c.1 := by
  have goes : k.main ≠ .finished := by
    intro finished
    unfold Globals.act at comes
    rw [if_pos finished] at comes
    cases comes
  cases e with
  | tick =>
      unfold Globals.act at comes
      rw [if_neg goes] at comes
      dsimp only at comes
      split at comes
      · cases comes
      · cases comes
        trivial
  | act ti block =>
      have zero := cleared ti block rfl
      rw [act_statement goes, Globals.statement] at comes
      split at comes
      · rw [Globals.mainAct] at comes
        split at comes
        all_goals cases comes
        · exact zero
        all_goals first | trivial | exact fun _ => zero
      · rename_i t who w _
        cases comes
        obtain ⟨arg, p, point⟩ := w
        rw [Globals.workerAct, body_eq]
        cases point <;> trivial

/-- The call that comes next, if there is one, is given new blocks. -/
def enabled (p : Globals × State) (e : Turn) : Bool :=
  (p.1.act e (current p.2)).all fun c => decide (p.2.Enabled c.1)

theorem permitted_of_enabled (enabled : enabled p e = true)
    (cleared : ∀ ti block, e = .act ti block → block.Cleared) : Permitted p e := by
  intro c comes
  rw [Test.enabled, comes, Option.all_some] at enabled
  exact ⟨of_decide_eq_true enabled, mainCleared_of_act comes cleared p.2⟩

/-- So many statements, in which `malloc` returns cleared blocks. -/
def statements (n : Nat) : List Turn := (List.range n).map fun i => .act i zeroed

/-- The statements of `main` up to the creation of `bigspender`, which then runs. -/
def creation : List Turn := statements 602 ++ [.tick]

theorem creation_cleared (mem : e ∈ creation) (ti : ThreadId) (block : Contents)
    (act : e = .act ti block) : block.Cleared := by
  subst act
  rw [creation, List.mem_append] at mem
  rcases mem with statement | timer
  · obtain ⟨i, -, same⟩ := List.mem_map.mp statement
    cases same
    exact zeroed_cleared
  · cases List.mem_singleton.mp timer

theorem creation_run : ∃ p, Runs.Steps Permitted Step start creation p ∧
    current p.2 = some 601 ∧ (p.1.worker 601).map Prod.fst = some .bigspender ∧
    p.1.statements 601 = 0 ∧ enabled p (.act 0 zeroed) = true := by
  have runs : (Runs.run enabled (Clients.next Globals.act current State.call) start creation).any
      (fun p => decide (current p.2 = some 601 ∧
        (p.1.worker 601).map Prod.fst = some .bigspender ∧
        p.1.statements 601 = 0 ∧ enabled p (.act 0 zeroed) = true)) = true := by
    decide +kernel
  obtain ⟨p, found, holds⟩ := (Option.any_eq_true _ _).mp runs
  refine ⟨p, (Runs.steps_of_run _ _ found).mono_of_mem ?_, of_decide_eq_true holds⟩
  exact fun e mem p enabled => permitted_of_enabled enabled (creation_cleared mem)

theorem stands_of_steps (run : Runs.Steps Permitted Step start es p) :
    ∃ i, p.2.Shows i ∧ Standing p.1 i :=
  promise.steps run ⟨.start, State.shows_start, .idle rfl rfl⟩

/-- The program never ends and never fails: in every state that it reaches, the statement of
the thread that runs comes back, and so does the timer. -/
theorem goes_on_for_ever (run : Runs.Steps Permitted Step start es p)
    (permitted : Permitted p e) (started : e = .tick → p.1.main ≠ .init) :
    ∃ p', Step p e p' := by
  obtain ⟨i, shows, standing⟩ := stands_of_steps run
  refine promise.goes_on ⟨i, shows, standing⟩ permitted ?_
  have seen : current p.2 = i.sched.current := congrArg Sched.current shows.lists
  rw [seen]
  exact standing.goes_on started

/-- `bigspender` makes its first statement. -/
theorem goes_on_for_ever_created : ∃ p p', Runs.Steps Permitted Step start creation p ∧
    current p.2 = some 601 ∧ Step p (.act 0 zeroed) p' := by
  obtain ⟨p, run, runs, -, -, enabled⟩ := creation_run
  have permitted : Permitted p (.act 0 zeroed) := by
    refine permitted_of_enabled enabled ?_
    rintro ti block ⟨⟩
    exact zeroed_cleared
  obtain ⟨p', next⟩ := goes_on_for_ever run permitted fun timer => by cases timer
  exact ⟨p, p', run, runs, next⟩

/-- Each thread prints what the source says, and nothing else: after so many statements of
its own the message and the string of its block, whatever the other thread did meanwhile. -/
theorem prints_own_strings (run : Runs.Steps Permitted Step start es p) :
    (∀ t who w, p.1.worker t = some (who, w) →
      p.1.lines t = printedAfter who (p.1.statements t)) ∧
    ∀ t, p.1.worker t = none → p.1.lines t = [] := by
  obtain ⟨i, -, standing⟩ := stands_of_steps run
  cases standing with
  | idle program _ =>
      rw [program]
      refine ⟨?_, fun _ _ => rfl⟩
      exact fun _ _ _ here => by cases here
  | runs main others _ _ roster messages workers =>
      refine ⟨?_, fun t absent => (workers.silent t absent).1⟩
      intro t who w here
      have thread := workers.threads t who w here
      exact thread.account.lines_eq thread.stands

/-- A call of the heap leaves the thread running. -/
theorem current_heapCall {s s' : State} {c : Call} {a : Answer} (heap : Tracked.HeapCall c)
    (called : s.call c = .ok (s', a)) : current s' = current s := by
  cases c with
  | malloc size =>
      simp only [State.call, State.myMalloc] at called
      split at called
      · cases called
      · split at called <;> cases called
        rfl
  | free ptr =>
      simp only [State.call, State.myFree] at called
      split at called <;> cases called
      rfl
  | load address =>
      simp only [State.call, State.load] at called
      split at called <;> cases called
      rfl
  | store address byte =>
      simp only [State.call, State.store] at called
      split at called <;> cases called
      rfl
  | init _ _ _ | create _ _ _ _ | plain _ | shalloc _ | shfree _ _ => cases heap

theorem body_heapCall (who : Role) (w : Local) : Tracked.HeapCall (body who w).1 := by
  obtain ⟨arg, p, point⟩ := w
  rw [body_eq]
  cases point <;> trivial

/-- Without the timer a thread makes as many statements as one likes. -/
theorem exists_statements (n : Nat) (run : Runs.Steps Permitted Step start es p)
    (running : current p.2 = some t) (here : (p.1.worker t).map Prod.fst = some who) :
    ∃ p' es', Runs.Steps Permitted Step start es' p' ∧ current p'.2 = some t ∧
      (p'.1.worker t).map Prod.fst = some who ∧ p'.1.statements t = p.1.statements t + n := by
  induction n with
  | zero => exact ⟨p, es, run, running, here, rfl⟩
  | succ n ih =>
      obtain ⟨p₁, es₁, run₁, running₁, here₁, count₁⟩ := ih
      obtain ⟨⟨role, w⟩, found, rfl⟩ := Option.map_eq_some_iff.mp here₁
      obtain ⟨i, shows, standing⟩ := stands_of_steps run₁
      have comes : p₁.1.act (.act 0 zeroed) (current p₁.2) = some (p₁.1.workerAct t role w) := by
        rw [running₁]
        exact act_worker standing.not_finished found
      have heap := body_heapCall role w
      have permitted : Permitted p₁ (.act 0 zeroed) := by
        intro c same
        rw [comes] at same
        cases same
        refine ⟨?_, mainCleared_of_act comes ?_ p₁.2⟩
        · change p₁.2.Enabled (body role w).1
          generalize (body role w).1 = c at heap
          cases c <;> trivial
        · rintro ti block ⟨⟩
          exact zeroed_cleared
      have more : (p₁.1.act (.act 0 zeroed) (current p₁.2)).isSome = true := by
        rw [comes]
        rfl
      obtain ⟨p₂, taken⟩ := promise.goes_on ⟨i, shows, standing⟩ permitted more
      obtain ⟨c, a, comes', called, behind⟩ := Clients.step_iff.mp taken
      rw [comes] at comes'
      cases comes'
      refine ⟨p₂, es₁ ++ [.act 0 zeroed], run₁.append (.single permitted taken), ?_, ?_, ?_⟩
      · exact (current_heapCall heap called).trans running₁
      · rw [← behind]
        change (Function.update p₁.1.worker t _ t).map Prod.fst = _
        rw [Function.update_self]
        rfl
      · rw [← behind]
        change Function.update p₁.1.statements t _ t = _
        rw [Function.update_self, count₁, Nat.add_assoc]

/-- `bigspender` has printed its message, and the string of its block. -/
theorem prints_own_strings_bigspender : ∃ p es, Runs.Steps Permitted Step start es p ∧
    p.1.lines 601 = [message .bigspender, text .bigspender] := by
  obtain ⟨p₀, run₀, running, created, none, -⟩ := creation_run
  obtain ⟨p, es, run, -, here, count⟩ := exists_statements 677 run₀ running created
  obtain ⟨⟨who, w⟩, found, rfl⟩ := Option.map_eq_some_iff.mp here
  have lines := (prints_own_strings run).1 601 _ w found
  rw [count, none] at lines
  exact ⟨p, es, run, lines.trans (by decide +kernel)⟩

end OsDesign.Test
