import OsDesign.Heap.OwnBlocks
import OsDesign.Whole.SideBySide

/-!
Programs that use the blocks that they got from `my_malloc` and the share section, and
nothing else of the window. Their calls of the heap come back, and what a thread stored in
its blocks it reads again, whatever the other threads did to the same addresses.
-/
namespace OsDesign.Whole

open Virt Pthread Heap Outcome Ideals

/-- The process, with the blocks that each thread has not freed and the bytes that it
stored last. -/
structure Tracked where
  state : State
  blocks : ThreadId → List Heap.Block
  stored : ThreadId → Nat → UInt8

namespace Tracked

/-- A thread begins without blocks. -/
def begin (ti : ThreadId) (s : Tracked) : Tracked :=
  { s with
    blocks := Function.update s.blocks ti []
    stored := Function.update s.stored ti fun _ => 0 }

def setBlocks (t : ThreadId) (blocks : List Heap.Block) (s : Tracked) : Tracked :=
  { s with blocks := Function.update s.blocks t blocks }

def setStored (t : ThreadId) (address : Nat) (byte : UInt8) (s : Tracked) : Tracked :=
  { s with stored := Function.update s.stored t (Function.update (s.stored t) address byte) }

/-- What the call of a running thread `t` changes. -/
def accountOf (t : ThreadId) (s : Tracked) : Call → Answer → Tracked
  | .malloc size, .pointer p => s.setBlocks t (grow (s.blocks t) size p)
  | .free ptr, _ => s.setBlocks t (Heap.release (s.blocks t) ptr)
  | .store address byte, _ => if InShare address then s else s.setStored t address byte
  | _, _ => s

def account (s : Tracked) : Call → Answer → Tracked
  | .init main _ _, _ => s.begin main
  | .create main _ ti _, _ =>
      if s.state.gPthreadInit then s.begin ti else (s.begin main).begin ti
  | c, a =>
      match s.state.system.queues.current with
      | none => s
      | some t => s.accountOf t c a

def next (s : Tracked) (c : Call) : Option Tracked :=
  match s.state.call c with
  | .error _ => none
  | .ok (state, a) => some { s.account c a with state := state }

def Step (s : Tracked) (c : Call) (s' : Tracked) : Prop := s.next c = some s'

/-- The byte is in a live block of `t` or in the share section. -/
def MayUse (s : Tracked) (t : ThreadId) (address : Nat) : Prop :=
  InShare address ∨ ∃ b, b ∈ s.blocks t ∧ b.address ≤ address ∧ address < b.address + b.size

/-- The running thread uses its blocks. It asks for a block while its heap has fewer trunks
than the first page of the window has records. -/
def Behaves (s : Tracked) : Call → Prop
  | .init _ _ _ => s.state.gPthreadInit = false
  | .malloc _ => ∃ t, s.state.system.queues.current = some t ∧
      (s.state.heapInit t = true → s.state.heapTrunkCount t < maxTrunks)
  | .free ptr => ∃ t, s.state.system.queues.current = some t ∧
      ∃ b, b ∈ s.blocks t ∧ b.address = ptr
  | .load address | .store address _ => ∃ t, s.state.system.queues.current = some t ∧
      s.MayUse t address
  | _ => True

def Permitted (s : Tracked) (c : Call) : Prop :=
  s.state.Enabled c ∧ s.state.MainCleared c ∧ s.Behaves c

def start : Tracked := ⟨.start, fun _ => [], fun _ _ => 0⟩

/-- The heap that the thread has for its own is what was tracked. -/
structure Tells (s : Tracked) (o : OwnHeap) (t : ThreadId) : Prop where
  sound : o.Sound (s.blocks t)
  bytes : ∀ x, virtualHeapStart + pageSize ≤ x → o.byteAt x = s.stored t x

/-- The process shows an ideal one with these heaps. -/
structure Follows (s : Tracked) (i : Ideal) : Prop where
  shows : s.state.Shows i
  own : ∀ t, i.sched.live t = true → s.Tells (i.own t) t

variable {s s' : Tracked} {i i' : Ideal} {o o' : OwnHeap} {t ti : ThreadId} {c : Call} {a : Answer}
  {address size ptr : Nat} {byte : UInt8} {b : Heap.Block}

theorem tells_begin (s : Tracked) (ti : ThreadId) : (s.begin ti).Tells .fresh ti := by
  refine ⟨?_, ?_⟩
  · exact .unused rfl rfl (Function.update_self _ _ _)
  · intro x _
    rw [OwnHeap.byteAt_fresh]
    change 0 = Function.update s.stored ti (fun _ => 0) ti x
    rw [Function.update_self]

/-- What is tracked of the other threads does not matter. -/
theorem Tells.congr (tells : s.Tells o t) (blocks : s'.blocks t = s.blocks t)
    (stored : s'.stored t = s.stored t) : s'.Tells o t :=
  ⟨blocks ▸ tells.sound, stored ▸ tells.bytes⟩

theorem Tells.begin (tells : s.Tells o t) (other : t ≠ ti) : (s.begin ti).Tells o t :=
  tells.congr (Function.update_of_ne other _ _) (Function.update_of_ne other _ _)

theorem Tells.setBlocks (tells : s.Tells o t) {blocks : List Heap.Block}
    (sound : o'.Sound blocks) (same : o.SameBytes o') : (s.setBlocks t blocks).Tells o' t := by
  refine ⟨?_, fun x hx => (same x hx).trans (tells.bytes x hx)⟩
  change o'.Sound (Function.update s.blocks t blocks t)
  rw [Function.update_self]
  exact sound

/-- A byte that the thread stores in one of its blocks. -/
theorem Tells.setStored (tells : s.Tells o t) (reaches : o.Reaches address)
    (behind : virtualHeapStart + pageSize ≤ address) (byte : UInt8) :
    (s.setStored t address byte).Tells
      { o with memory := Function.update o.memory address byte } t := by
  refine ⟨tells.sound.stored behind byte, ?_⟩
  intro x hx
  change OwnHeap.byteAt { o with memory := Function.update o.memory address byte } x =
    Function.update s.stored t (Function.update (s.stored t) address byte) t x
  rw [OwnHeap.byteAt_stored reaches, Function.update_self]
  by_cases same : x = address
  · rw [same, Function.update_self, Function.update_self]
  · rw [Function.update_of_ne same, Function.update_of_ne same]
    exact tells.bytes x hx

/-- The running thread changes its own heap, and what is tracked of it. -/
theorem Follows.setOwn (follows : s.Follows i) (own : s'.Tells o t)
    (blocks : ∀ u, u ≠ t → s'.blocks u = s.blocks u)
    (stored : ∀ u, u ≠ t → s'.stored u = s.stored u) :
    ∀ u, i.sched.live u = true → s'.Tells ((i.setOwn t o).own u) u := by
  intro u hu
  by_cases same : u = t
  · subst same
    have self : (i.setOwn u o).own u = o := Function.update_self _ _ _
    rw [self]
    exact own
  · have other : (i.setOwn t o).own u = i.own u := Function.update_of_ne same _ _
    rw [other]
    exact (follows.own u hu).congr (blocks u same) (stored u same)

theorem Follows.live_eq (follows : s.Follows i) : s.state.system.live = i.sched.live :=
  congrArg Sched.live follows.shows.lists

theorem Follows.running (follows : s.Follows i)
    (current : s.state.system.queues.current = some t) :
    i.sched.current = some t ∧ i.sched.live t = true := by
  refine ⟨?_, ?_⟩
  · rw [← follows.shows.lists]
    exact current
  · rw [← follows.live_eq]
    exact follows.shows.inv.currentLive t current

theorem Follows.malloc (follows : s.Follows i)
    (current : s.state.system.queues.current = some t)
    (more : s.state.heapInit t = true → s.state.heapTrunkCount t < maxTrunks) (size : Nat) :
    ∃ o r, i.call (.malloc size) = some (.ok (i.setOwn t o, .pointer r)) ∧
      (s.setBlocks t (grow (s.blocks t) size r)).Tells o t := by
  obtain ⟨running, live⟩ := follows.running current
  have stands := follows.shows.own t (follows.live_eq ▸ live)
  have few : (i.own t).heapInit = true → (i.own t).heapTrunkCount < maxTrunks := by
    intro init
    rw [← stands.trunks init]
    exact more (stands.init.trans init)
  obtain ⟨o, r, own, sound, same⟩ := (follows.own t live).sound.myMalloc few size
  refine ⟨o, r, ?_, (follows.own t live).setBlocks sound same⟩
  simp only [Ideal.call, Ideal.myMalloc, running, own, Option.map_some]

theorem Follows.free (follows : s.Follows i) (current : s.state.system.queues.current = some t)
    (hb : b ∈ s.blocks t) :
    ∃ o, i.call (.free b.address) = some (.ok (i.setOwn t o, .done)) ∧
      (s.setBlocks t (Heap.release (s.blocks t) b.address)).Tells o t := by
  obtain ⟨running, live⟩ := follows.running current
  obtain ⟨o, own, sound, same⟩ := (follows.own t live).sound.myFree hb
  refine ⟨o, ?_, (follows.own t live).setBlocks sound same⟩
  simp only [Ideal.call, Ideal.myFree, running, own, Option.map_some]

/-- The bytes of a block are not those of the share section. -/
theorem not_inShare (reaches : o.Reaches address) : ¬ InShare address := by
  intro shared
  have hend := reaches.2.1
  have hstart := shared.1
  change address < 0x607FBFFF at hend
  change 0x607FC000 ≤ address at hstart
  omega

theorem Follows.load (follows : s.Follows i) (current : s.state.system.queues.current = some t)
    (mayUse : s.MayUse t address) :
    ∃ byte, i.call (.load address) = some (.ok (i, .byte byte)) ∧
      (¬ InShare address → byte = s.stored t address) := by
  obtain ⟨running, live⟩ := follows.running current
  by_cases shared : InShare address
  · refine ⟨i.shared address, ?_, fun own => absurd shared own⟩
    simp only [Ideal.call, Ideal.load, running, if_pos shared]
  · obtain ⟨b, hb, hlow, hhigh⟩ := mayUse.resolve_left shared
    obtain ⟨reaches, behind⟩ := (follows.own t live).sound.reaches hb hlow hhigh
    refine ⟨s.stored t address, ?_, fun _ => rfl⟩
    have byte := (follows.own t live).bytes address behind
    rw [OwnHeap.byteAt, if_pos reaches.2.2] at byte
    simp only [Ideal.call, Ideal.load, running, if_neg shared, OwnHeap.load, if_pos reaches,
      Option.map_some, byte]

theorem Follows.storeShared (follows : s.Follows i)
    (current : s.state.system.queues.current = some t) (shared : InShare address) (byte : UInt8) :
    i.call (.store address byte) =
      some (.ok ({ i with shared := Function.update i.shared address byte }, .done)) := by
  simp only [Ideal.call, Ideal.store, (follows.running current).1, if_pos shared]

theorem Follows.store (follows : s.Follows i) (current : s.state.system.queues.current = some t)
    (mayUse : s.MayUse t address) (byte : UInt8) (own : ¬ InShare address) :
    ∃ o, i.call (.store address byte) = some (.ok (i.setOwn t o, .done)) ∧
      (s.setStored t address byte).Tells o t := by
  obtain ⟨running, live⟩ := follows.running current
  obtain ⟨b, hb, hlow, hhigh⟩ := mayUse.resolve_left own
  obtain ⟨reaches, behind⟩ := (follows.own t live).sound.reaches hb hlow hhigh
  refine ⟨_, ?_, (follows.own t live).setStored reaches behind byte⟩
  simp only [Ideal.call, Ideal.store, running, if_neg own, OwnHeap.store, if_pos reaches,
    Option.map_some]

/-- A new thread begins without blocks; the others are tracked as before. -/
theorem own_addThread {block : Contents} (own : ∀ t, i.sched.live t = true → s.Tells (i.own t) t)
    (added : i.addThread ti block = .ok (i', a)) :
    ∀ t, i'.sched.live t = true → (s.begin ti).Tells (i'.own t) t := by
  simp only [Ideal.addThread, Sched.create] at added
  split at added
  · cases added
  · rename_i sched r created
    split at created
    · cases created
    · cases created
      cases added
      intro t ht
      change Function.update i.sched.live ti true t = true at ht
      change (s.begin ti).Tells (Function.update i.own ti .fresh t) t
      by_cases new : t = ti
      · subst new
        rw [Function.update_self]
        exact tells_begin s t
      · rw [Function.update_of_ne new] at ht ⊢
        exact (own t ht).begin new

theorem own_myPthreadInit (follows : s.Follows i) (unset : s.state.gPthreadInit = false)
    (main : ThreadId) (block : Contents) :
    ∀ t, (i.myPthreadInit main block).sched.live t = true →
      (s.begin main).Tells ((i.myPthreadInit main block).own t) t := by
  intro t ht
  change Function.update i.sched.live main true t = true at ht
  change (s.begin main).Tells (Function.update i.own main .fresh t) t
  by_cases first : t = main
  · subst first
    rw [Function.update_self]
    exact tells_begin s t
  · rw [Function.update_of_ne first, ← follows.live_eq, follows.shows.live_eq unset] at ht
    cases ht

/-- A call of the scheduler brings no thread. -/
theorem own_plainCall (follows : s.Follows i) {e : PlainEvent}
    (called : i.plainCall e.1 = .ok (i', a)) {state : State} (shows : state.Shows i') :
    ∀ t, i'.sched.live t = true → s.Tells (i'.own t) t := by
  rw [Ideal.plainCall] at called
  split at called
  · cases called
  · rename_i sched r lists
    cases called
    intro t ht
    have mem : t ∈ sched.threads := by
      have mem := (shows.wf.live t).mpr ((congrFun (congrArg Sched.live shows.lists) t).trans ht)
      rwa [shows.lists] at mem
    have before := Sched.mem_threads_call e.2 lists mem
    rw [← follows.shows.lists] at before
    refine follows.own t ?_
    rw [← follows.live_eq]
    exact (follows.shows.wf.live t).mp before

/-- A call that no account is taken of. -/
theorem account_eq_self (later : State.initialises c = false)
    (other : ∀ t, s.accountOf t c a = s) : s.account c a = s := by
  cases c with
  | init main block again => cases later
  | create main mainBlock ti block => cases later
  | _ =>
      simp only [account]
      split
      · rfl
      · exact other _

theorem Follows.withShare (follows : s.Follows i) (share : Shm.Charmap) {state : State}
    (shows : state.Shows { i with share := share }) :
    ({ s with state := state } : Tracked).Follows { i with share := share } :=
  ⟨shows, fun t ht => (follows.own t ht).congr rfl rfl⟩

/-- One call of a program that keeps to its blocks. -/
theorem Follows.step (follows : s.Follows i) (permitted : s.Permitted c) {state : State}
    (called : s.state.call c = .ok (state, a)) :
    ∃ i', i.call c = some (.ok (i', a)) ∧
      ({ s.account c a with state := state } : Tracked).Follows i' := by
  obtain ⟨enabled, cleared, behaves⟩ := permitted
  have answers : ∀ {y}, i.call c = some y → ∃ i', y = .ok (i', a) ∧ state.Shows i' :=
    fun promised => (follows.shows.call enabled cleared promised).of_ok called
  cases c with
  | init main block again =>
      have unset : s.state.gPthreadInit = false := behaves
      have promised : i.call (.init main block again) =
          some (.ok (i.myPthreadInit main block, .done)) := by
        simp only [Ideal.call, ← follows.shows.init, unset]
        rfl
      obtain ⟨i', same, shows⟩ := answers promised
      cases same
      exact ⟨_, promised, shows,
        fun t ht => (own_myPthreadInit follows unset main block t ht).congr rfl rfl⟩
  | create main mainBlock ti block =>
      obtain ⟨i', created, shows⟩ := answers rfl
      refine ⟨i', congrArg some created, shows, ?_⟩
      rw [Ideal.myPthreadCreate, ← follows.shows.init] at created
      simp only [account]
      cases unset : s.state.gPthreadInit with
      | true =>
          rw [unset] at created
          exact fun t ht => (own_addThread follows.own created t ht).congr rfl rfl
      | false =>
          rw [unset] at created
          have first := own_myPthreadInit follows unset main mainBlock
          exact fun t ht => (own_addThread first created t ht).congr rfl rfl
  | plain e =>
      obtain ⟨i', called', shows⟩ := answers rfl
      refine ⟨i', congrArg some called', shows, ?_⟩
      rw [account_eq_self rfl fun _ => by cases a <;> rfl]
      exact fun t ht => (own_plainCall follows called' shows t ht).congr rfl rfl
  | malloc size =>
      obtain ⟨t, current, more⟩ := behaves
      obtain ⟨o, r, promised, tells⟩ := follows.malloc current more size
      obtain ⟨i', same, shows⟩ := answers promised
      cases same
      refine ⟨_, promised, shows, ?_⟩
      simp only [account, current]
      have own := follows.setOwn tells (fun u hu => Function.update_of_ne hu _ _) fun _ _ => rfl
      exact fun u hu => (own u hu).congr rfl rfl
  | free ptr =>
      obtain ⟨t, current, b, hb, rfl⟩ := behaves
      obtain ⟨o, promised, tells⟩ := follows.free current hb
      obtain ⟨i', same, shows⟩ := answers promised
      cases same
      refine ⟨_, promised, shows, ?_⟩
      simp only [account, current]
      have own := follows.setOwn tells (fun u hu => Function.update_of_ne hu _ _) fun _ _ => rfl
      exact fun u hu => (own u hu).congr rfl rfl
  | load address =>
      obtain ⟨t, current, mayUse⟩ := behaves
      obtain ⟨byte, promised, -⟩ := follows.load current mayUse
      obtain ⟨i', same, shows⟩ := answers promised
      cases same
      refine ⟨_, promised, shows, ?_⟩
      simp only [account, current]
      exact fun u hu => (follows.own u hu).congr rfl rfl
  | store address byte =>
      obtain ⟨t, current, mayUse⟩ := behaves
      by_cases shared : InShare address
      · obtain ⟨i', same, shows⟩ := answers (follows.storeShared current shared byte)
        cases same
        refine ⟨_, follows.storeShared current shared byte, shows, ?_⟩
        simp only [account, current, accountOf, if_pos shared]
        exact fun u hu => (follows.own u hu).congr rfl rfl
      · obtain ⟨o, promised, tells⟩ := follows.store current mayUse byte shared
        obtain ⟨i', same, shows⟩ := answers promised
        cases same
        refine ⟨_, promised, shows, ?_⟩
        simp only [account, current, accountOf, if_neg shared]
        have own := follows.setOwn tells (fun _ _ => rfl) fun u hu => Function.update_of_ne hu _ _
        exact fun u hu => (own u hu).congr rfl rfl
  | shalloc size =>
      obtain ⟨i', called', shows⟩ := answers rfl
      rw [account_eq_self rfl fun _ => by cases a <;> rfl]
      have promised : i.call (.shalloc size) = _ := congrArg some called'
      rw [Ideal.shalloc] at called'
      split at called'
      · cases called'
      · cases called'
        exact ⟨_, promised, follows.withShare _ shows⟩
  | shfree ptr size =>
      obtain ⟨i', called', shows⟩ := answers rfl
      rw [account_eq_self rfl fun _ => by cases a <;> rfl]
      have promised : i.call (.shfree ptr size) = _ := congrArg some called'
      rw [Ideal.shfree] at called'
      split at called'
      · cases called'
      · cases called'
        exact ⟨_, promised, follows.withShare _ shows⟩

instance decidableExistsRunning (current : Option ThreadId) (P : ThreadId → Prop)
    [DecidablePred P] : Decidable (∃ t, current = some t ∧ P t) :=
  inferInstanceAs (Decidable (∃ t, t ∈ current ∧ P t))

instance decidableMayUse (s : Tracked) (t : ThreadId) (address : Nat) :
    Decidable (s.MayUse t address) :=
  inferInstanceAs (Decidable (InShare address ∨
    ∃ b, b ∈ s.blocks t ∧ b.address ≤ address ∧ address < b.address + b.size))

instance decidableBehaves (s : Tracked) : DecidablePred s.Behaves
  | .init _ _ _ => inferInstanceAs (Decidable (s.state.gPthreadInit = false))
  | .malloc _ => decidableExistsRunning _ fun t =>
      s.state.heapInit t = true → s.state.heapTrunkCount t < maxTrunks
  | .free ptr => decidableExistsRunning _ fun t => ∃ b, b ∈ s.blocks t ∧ b.address = ptr
  | .load address | .store address _ => decidableExistsRunning _ fun t => s.MayUse t address
  | .create _ _ _ _ | .plain _ | .shalloc _ | .shfree _ _ => .isTrue trivial

instance decidableEnabled (s : State) : DecidablePred s.Enabled
  | .init main _ _ => inferInstanceAs (Decidable (s.system.live main = false))
  | .create main _ ti _ => inferInstanceAs (Decidable (s.system.live ti = false ∧
      (s.gPthreadInit = false → s.system.live main = false ∧ main ≠ ti)))
  | .plain _ | .malloc _ | .free _ | .load _ | .store _ _ | .shalloc _ | .shfree _ _ =>
      .isTrue trivial

/-! A run of the process is found on the ideal one, which is quick to evaluate. -/

/-- What the account and the discipline read of a process that shows `i`. -/
def outline (i : Ideal) : State :=
  { State.start with
    system := { State.start.system with
      queues := { State.start.system.queues with current := i.sched.current }
      live := i.sched.live }
    heapInit := fun t => (i.own t).heapInit
    heapTrunkCount := fun t => (i.own t).heapTrunkCount
    gPthreadInit := i.gPthreadInit }

def outlined (s : Tracked) (i : Ideal) : Tracked := { s with state := outline i }

/-- A call that the ideal process promises, while frames and slots are left for it. -/
def foretold (p : Ideal × Tracked) (c : Call) : Option (Ideal × Tracked) :=
  match p.1.call c with
  | some (.ok (i, a)) =>
      if p.1.granted + 3 < maxPhysicalPages + maxSwapSlots then
        some (i, (p.2.account c a).outlined i)
      else none
  | _ => none

theorem Follows.current_eq (follows : s.Follows i) :
    s.state.system.queues.current = i.sched.current :=
  congrArg Sched.current follows.shows.lists

theorem accountOf_outlined (s : Tracked) (t : ThreadId) (c : Call) (a : Answer) :
    ((s.outlined i).accountOf t c a).outlined i' = (s.accountOf t c a).outlined i' := by
  cases c with
  | malloc size => cases a <;> rfl
  | store address byte =>
      simp only [accountOf]
      split <;> rfl
  | _ => rfl

theorem Follows.account_outlined (follows : s.Follows i) (c : Call) (a : Answer) :
    ((s.outlined i).account c a).outlined i' = (s.account c a).outlined i' := by
  have running : (s.outlined i).state.system.queues.current =
      s.state.system.queues.current := follows.current_eq.symm
  have init : (s.outlined i).state.gPthreadInit = s.state.gPthreadInit := follows.shows.init.symm
  cases c with
  | init _ _ _ => rfl
  | create main _ ti _ =>
      simp only [account, init]
      split <;> rfl
  | _ =>
      simp only [account, running]
      cases s.state.system.queues.current with
      | none => rfl
      | some t => exact s.accountOf_outlined t _ a

theorem Follows.permitted (follows : s.Follows i) (enabled : (outline i).Enabled c)
    (cleared : s.state.MainCleared c) (behaves : (s.outlined i).Behaves c) : s.Permitted c := by
  have running : (outline i).system.queues.current = s.state.system.queues.current :=
    follows.current_eq.symm
  have init : (outline i).gPthreadInit = s.state.gPthreadInit := follows.shows.init.symm
  have live : (outline i).system.live = s.state.system.live := follows.live_eq.symm
  refine ⟨?_, cleared, ?_⟩
  · cases c with
    | init _ _ _ | create _ _ _ _ => simpa only [State.Enabled, live, init] using enabled
    | _ => trivial
  · cases c with
    | init _ _ _ => exact init.symm.trans behaves
    | malloc size =>
        obtain ⟨t, current, more⟩ := behaves
        have current' := running.symm.trans current
        refine ⟨t, current', fun set => ?_⟩
        have stands := follows.shows.own t (follows.shows.inv.currentLive t current')
        have own := stands.init.symm.trans set
        exact (stands.trunks own).trans_lt (more own)
    | free ptr =>
        obtain ⟨t, current, live⟩ := behaves
        exact ⟨t, running.symm.trans current, live⟩
    | load address | store address _ =>
        obtain ⟨t, current, mayUse⟩ := behaves
        exact ⟨t, running.symm.trans current, mayUse⟩
    | _ => trivial

/-- What is foretold happens. -/
theorem Follows.exists_step (follows : s.Follows i) (permitted : s.Permitted c)
    {p : Ideal × Tracked} (told : foretold (i, s.outlined i) c = some p) :
    ∃ s', s.Step c s' ∧ s'.Follows p.1 ∧ s'.outlined p.1 = p.2 := by
  rw [foretold] at told
  split at told
  case h_2 => cases told
  case h_1 i' a promised =>
      split at told
      case isFalse => cases told
      case isTrue room =>
          cases told
          have kept := (follows.shows.call_of_room permitted.1 permitted.2.1 room promised).ensures
          cases called : s.state.call c with
          | error f => exact (kept.of_error called).elim
          | ok r =>
              obtain ⟨state, b⟩ := r
              obtain ⟨i'', promised', follows'⟩ := follows.step permitted called
              rw [promised] at promised'
              cases promised'
              refine ⟨_, ?_, follows', (follows.account_outlined c _).symm⟩
              simp only [Step, next, called]

theorem Follows.exists_steps {p p' : Ideal × Tracked} {cs : List Call}
    (run : Runs.Steps (fun p c => p.2.state.Enabled c ∧ p.2.Behaves c)
      (fun p c p' => foretold p c = some p') p cs p')
    (cleared : ∀ c ∈ cs, ∀ s : State, s.MainCleared c) (follows : s.Follows p.1)
    (same : s.outlined p.1 = p.2) :
    ∃ s', Runs.Steps Permitted Step s cs s' ∧ s'.Follows p'.1 ∧ s'.outlined p'.1 = p'.2 := by
  induction run generalizing s with
  | nil p => exact ⟨s, .nil s, follows, same⟩
  | @cons p p₁ p₂ c cs permitted taken _ ih =>
      obtain ⟨i, told⟩ := p
      change s.outlined i = told at same
      subst same
      have permitted' := follows.permitted permitted.1 (cleared c List.mem_cons_self _) permitted.2
      obtain ⟨s₁, taken', follows₁, same₁⟩ := follows.exists_step permitted' taken
      have cleared' := fun c hc => cleared c (List.mem_cons_of_mem _ hc)
      obtain ⟨s₂, run, rest⟩ := ih cleared' follows₁ same₁
      exact ⟨s₂, .cons permitted' taken' run, rest⟩

/-- `my_malloc`, `my_free` and the accesses of the program. -/
def HeapCall : Call → Prop
  | .malloc _ | .free _ | .load _ | .store _ _ => True
  | _ => False

end Tracked

end OsDesign.Whole
