import Mathlib.Algebra.BigOperators.Group.Finset.Piecewise
import Mathlib.Algebra.Order.BigOperators.Group.Finset

/-!
A lock with a counter for the participants that have it or wait for it, where
the test, the read and the write of the counter are separate steps. A
participant that gives the lock up while others wait hands it to one of them in
a further step. The two sections at the end say which orders of the steps keep
the participants apart, and which leave nobody waiting for nothing.
-/
namespace CountedLock

/-- What a participant is about to do to the counter. -/
inductive Kind
  | take
  | block
  | leave
  | hand
  deriving DecidableEq

/-- Where a participant is. `seen` is the value that it read from the counter
and has not written back yet. -/
inductive Stage (w : Nat)
  | outside
  | pending (k : Kind) (seen : Option (BitVec w))
  | announced
  | queued
  | inside
  | passing
  deriving DecidableEq

variable {ι : Type*} [DecidableEq ι] {w : Nat}

/-- `held` counts the times a participant has the lock while it does nothing to it. -/
structure Lock (ι : Type*) (w : Nat) where
  count : BitVec w
  held : ι → Nat
  stage : ι → Stage w

def Kind.value (v : BitVec w) : Kind → BitVec w
  | .take | .block => v + 1
  | .leave | .hand => v - 1

def Kind.result : Kind → Stage w
  | .take => .inside
  | .block => .announced
  | .leave => .outside
  | .hand => .passing

/-- A participant goes to another stage. -/
def Lock.go (l : Lock ι w) (t : ι) (b : Stage w) : Lock ι w :=
  { l with stage := Function.update l.stage t b }

theorem Lock.go_eq_self {l : Lock ι w} {t : ι} {b : Stage w} (h : l.stage t = b) :
    l.go t b = l := by
  rw [go, ← h, Function.update_eq_self]

def Lock.put (l : Lock ι w) (c : BitVec w) : Lock ι w := { l with count := c }

def Lock.hold (l : Lock ι w) (t : ι) (n : Nat) : Lock ι w :=
  { l with held := Function.update l.held t n }

/-- The steps of the participant `t` of `P`. -/
inductive Move (P : Finset ι) (l : Lock ι w) (t : ι) : Lock ι w → Prop
  | test (at_ : l.stage t = .outside) :
      Move P l t (l.go t (.pending (if l.count = 0 then .take else .block) none))
  | give (at_ : l.stage t = .inside) :
      Move P l t (l.go t (.pending (if l.count = 1 then .leave else .hand) none))
  | read (k : Kind) (at_ : l.stage t = .pending k none) :
      Move P l t (l.go t (.pending k (some l.count)))
  | write (k : Kind) (v : BitVec w) (at_ : l.stage t = .pending k (some v)) :
      Move P l t ((l.go t k.result).put (k.value v))
  | enqueue (at_ : l.stage t = .announced) : Move P l t (l.go t .queued)
  | keep (at_ : l.stage t = .inside) :
      Move P l t ((l.go t .outside).hold t (l.held t + 1))
  | bring (n : Nat) (at_ : l.stage t = .outside) (held : l.held t = n + 1) :
      Move P l t ((l.go t .inside).hold t n)
  | refuse (at_ : l.stage t = .inside) (count : l.count = 0) : Move P l t (l.go t .outside)
  | release (u : ι) (mem : u ∈ P) (at_ : l.stage t = .passing) (queued : l.stage u = .queued) :
      Move P l t ((l.go t .outside).go u .inside)
  | idle (at_ : l.stage t = .passing) (none : ∀ u, u ∈ P → l.stage u ≠ .queued) :
      Move P l t (l.go t .outside)

namespace Stage

def seen : Stage w → Option (BitVec w)
  | .pending _ seen => seen
  | _ => none

def kind : Stage w → Option Kind
  | .pending k _ => some k
  | _ => none

/-- The participant has the lock and the counter still says so. -/
def has : Stage w → Nat
  | .inside | .pending .leave _ | .pending .hand _ => 1
  | _ => 0

def waits : Stage w → Nat
  | .announced | .queued => 1
  | _ => 0

def passes : Stage w → Nat
  | .passing => 1
  | _ => 0

def takes : Stage w → Nat
  | .pending .take _ => 1
  | _ => 0

theorem takes_add_passes_le (s : Stage w) : s.takes + s.passes ≤ 1 := by
  cases s with
  | pending k seen => cases k <;> simp [takes, passes]
  | outside | announced | queued | inside | passing => simp [takes, passes]

theorem waits_le (s : Stage w) : s.waits ≤ 1 := by
  cases s <;> simp [waits]

end Stage

variable {P : Finset ι} {l l' : Lock ι w} {t u : ι} {v : BitVec w}

/-- The participants of `P` by weight. -/
def total (P : Finset ι) (weight : Stage w → Nat) (stage : ι → Stage w) : Nat :=
  ∑ u ∈ P, weight (stage u)

section Total

variable {weight : Stage w → Nat} {stage : ι → Stage w}

omit [DecidableEq ι] in
theorem le_total (weight : Stage w → Nat) (stage : ι → Stage w) (mem : t ∈ P) :
    weight (stage t) ≤ total P weight stage :=
  Finset.single_le_sum (f := fun u => weight (stage u)) (fun _ _ => Nat.zero_le _) mem

omit [DecidableEq ι] in
theorem total_le_card (one : ∀ s, weight s ≤ 1) : total P weight stage ≤ P.card := by
  have := Finset.sum_le_card_nsmul P (fun u => weight (stage u)) 1 (fun u _ => one _)
  simpa [total] using this

omit [DecidableEq ι] in
theorem exists_of_total (pos : 0 < total P weight stage) : ∃ u, u ∈ P ∧ 0 < weight (stage u) := by
  obtain ⟨u, hu, hne⟩ := Finset.exists_ne_zero_of_sum_ne_zero (Nat.pos_iff_ne_zero.mp pos)
  exact ⟨u, hu, Nat.pos_of_ne_zero hne⟩

/-- Only the weight of the participant that moves changes. -/
theorem sum_update (mem : t ∈ P) (f : ι → Nat) (n : Nat) :
    ∑ u ∈ P, Function.update f t n u + f t = ∑ u ∈ P, f u + n := by
  rw [Finset.sum_update_of_mem mem, ← Finset.add_sum_erase P f mem, Finset.sdiff_singleton_eq_erase]
  omega

theorem total_update (weight : Stage w → Nat) (stage : ι → Stage w) (mem : t ∈ P) (b : Stage w) :
    total P weight (Function.update stage t b) + weight (stage t) =
      total P weight stage + weight b := by
  have := sum_update mem (fun u => weight (stage u)) (weight b)
  rw [total, total, ← this]
  congr 2
  funext u
  by_cases h : u = t
  · simp [h]
  · simp [h]

end Total

section Census

/-- How often the lock is had. -/
def Lock.inside (P : Finset ι) (l : Lock ι w) : Nat :=
  ∑ u ∈ P, l.held u + total P Stage.has l.stage

/-- The participants that the counter counts and that do not have the lock. -/
def Lock.waiting (P : Finset ι) (l : Lock ι w) : Nat := total P Stage.waits l.stage

def Lock.passing (P : Finset ι) (l : Lock ι w) : Nat := total P Stage.passes l.stage

def Lock.taking (P : Finset ι) (l : Lock ι w) : Nat := total P Stage.takes l.stage

/-- The four numbers when one participant goes from a stage to another. -/
structure Census (P : Finset ι) (l l' : Lock ι w) (a b : Stage w) : Prop where
  inside : l'.inside P + a.has = l.inside P + b.has
  waiting : l'.waiting P + a.waits = l.waiting P + b.waits
  passing : l'.passing P + a.passes = l.passing P + b.passes
  taking : l'.taking P + a.takes = l.taking P + b.takes

variable {a b : Stage w}

theorem census (l' : Lock ι w) (mem : t ∈ P) (at_ : l.stage t = a)
    (stage : l'.stage = Function.update l.stage t b) (held : l'.held = l.held) :
    Census P l l' a b := by
  subst at_
  refine ⟨?_, ?_, ?_, ?_⟩
  · have := total_update Stage.has l.stage mem b
    rw [Lock.inside, Lock.inside, stage, held]
    omega
  · rw [Lock.waiting, stage]
    exact total_update _ _ mem b
  · rw [Lock.passing, stage]
    exact total_update _ _ mem b
  · rw [Lock.taking, stage]
    exact total_update _ _ mem b

theorem inside_same (mem : t ∈ P) (at_ : l.stage t = a)
    (stage : l'.stage = Function.update l.stage t b) (held : l'.held = l.held)
    (has : b.has = a.has) : l'.inside P = l.inside P := by
  have := (census l' mem at_ stage held).inside
  omega

theorem waiting_same (mem : t ∈ P) (at_ : l.stage t = a)
    (stage : l'.stage = Function.update l.stage t b) (waits : b.waits = a.waits) :
    l'.waiting P = l.waiting P := by
  have h := total_update Stage.waits l.stage mem b
  rw [at_, waits, ← stage] at h
  exact Nat.add_right_cancel h

theorem passing_same (mem : t ∈ P) (at_ : l.stage t = a)
    (stage : l'.stage = Function.update l.stage t b) (passes : b.passes = a.passes) :
    l'.passing P = l.passing P := by
  have h := total_update Stage.passes l.stage mem b
  rw [at_, passes, ← stage] at h
  exact Nat.add_right_cancel h

/-- What is had is the same while a participant has it inside its calls or outside them. -/
theorem inside_keep (mem : t ∈ P) (at_ : l.stage t = .inside) :
    ((l.go t .outside).hold t (l.held t + 1)).inside P = l.inside P := by
  have hstage := (census (l.go t .outside) mem at_ rfl rfl).inside
  have hheld := sum_update mem l.held (l.held t + 1)
  simp only [Lock.inside, Lock.go, Lock.hold, Stage.has] at hstage ⊢
  omega

theorem inside_bring {n : Nat} (mem : t ∈ P) (at_ : l.stage t = .outside)
    (held : l.held t = n + 1) :
    ((l.go t .inside).hold t n).inside P = l.inside P := by
  have hstage := (census (l.go t .inside) mem at_ rfl rfl).inside
  have hheld := sum_update mem l.held n
  simp only [Lock.inside, Lock.go, Lock.hold, Stage.has] at hstage ⊢
  omega

theorem release_stage (hne : u ≠ t) (queued : l.stage u = .queued) :
    (l.go t .outside).stage u = .queued := by
  simpa [Lock.go, hne] using queued

omit [DecidableEq ι] in
theorem has_le_inside (mem : t ∈ P) : (l.stage t).has ≤ l.inside P := by
  have := le_total Stage.has l.stage mem
  rw [Lock.inside]
  omega

end Census

/-- The counter counts whoever has the lock or waits for it, and a value that was
read is still the value of the counter. -/
structure Lock.Balanced (P : Finset ι) (l : Lock ι w) : Prop where
  count : l.count.toNat = l.inside P + l.waiting P
  seen : ∀ u, u ∈ P → ∀ v, (l.stage u).seen = some v → v = l.count
  room : l.inside P + l.passing P + l.taking P ≤ P.card

/-- No participant writes the counter while another one has read it for a write. -/
def Lock.Undisturbed (P : Finset ι) (l : Lock ι w) (t : ι) : Prop :=
  (l.stage t).seen ≠ none → ∀ u, u ∈ P → u ≠ t → (l.stage u).seen = none

omit [DecidableEq ι] in
theorem toNat_one (small : 2 * P.card < 2 ^ w) (mem : t ∈ P) : (1 : BitVec w).toNat = 1 := by
  have hcard : 0 < P.card := Finset.card_pos.mpr ⟨t, mem⟩
  refine BitVec.toNat_one ?_
  by_contra hnot
  have hzero : w = 0 := by omega
  rw [hzero, pow_zero] at small
  omega

omit [DecidableEq ι] in
/-- The new value of the counter, which has room for two counts of a participant. -/
theorem toNat_value (small : 2 * P.card < 2 ^ w) (mem : t ∈ P) (c : BitVec w) :
    (c.toNat < 2 * P.card → (c + 1).toNat = c.toNat + 1) ∧
      (0 < c.toNat → (c - 1).toNat + 1 = c.toNat) := by
  have hone := toNat_one small mem
  refine ⟨fun h => ?_, fun h => ?_⟩
  · rw [BitVec.toNat_add_of_lt (by omega), hone]
  · rw [BitVec.toNat_sub_of_le (BitVec.le_def.mpr (by omega)), hone]
    omega

namespace Lock.Balanced

theorem seen_go (bal : l.Balanced P) (b : Stage w) (new : ∀ v, b.seen = some v → v = l.count) :
    ∀ u, u ∈ P → ∀ v, ((l.go t b).stage u).seen = some v → v = l.count := by
  intro u hu v hv
  by_cases h : u = t
  · subst h
    exact new v (by simpa [Lock.go] using hv)
  · exact bal.seen u hu v (by simpa [Lock.go, h] using hv)

/-- A step of `t` that leaves the counter alone. -/
theorem go (bal : l.Balanced P) (mem : t ∈ P) {a b : Stage w} (at_ : l.stage t = a)
    (new : ∀ v, b.seen = some v → v = l.count) (has : a.has + a.waits = b.has + b.waits)
    (less : b.has + b.passes + b.takes ≤ a.has + a.passes + a.takes) :
    (l.go t b).Balanced P := by
  have hc := census (l.go t b) mem at_ rfl rfl
  have hcount := bal.count
  have hroom := bal.room
  obtain ⟨hi, hw, hp, ht⟩ := hc
  refine ⟨?_, bal.seen_go b new, ?_⟩
  · change l.count.toNat = _
    omega
  · omega

/-- A test that finds the counter at zero. -/
theorem test_free (bal : l.Balanced P) (mem : t ∈ P) (at_ : l.stage t = .outside)
    (count : l.count = 0) : (l.go t (.pending .take none)).Balanced P := by
  obtain ⟨hi, hw, -, -⟩ := census (l.go t (.pending .take none)) mem at_ rfl rfl
  have hcount := bal.count
  have hzero : l.count.toNat = 0 := by simp [count]
  refine ⟨?_, bal.seen_go _ (by simp [Stage.seen]), ?_⟩
  · change l.count.toNat = _
    simp only [Stage.has, Stage.waits] at hi hw
    omega
  · have hone : total P (fun s => s.takes + s.passes) (l.go t (.pending .take none)).stage ≤
        P.card := total_le_card Stage.takes_add_passes_le
    have hsplit : total P (fun s => s.takes + s.passes) (l.go t (.pending .take none)).stage =
        (l.go t (.pending .take none)).taking P + (l.go t (.pending .take none)).passing P :=
      Finset.sum_add_distrib
    simp only [Stage.has] at hi
    omega

/-- The write of a value that was read from the counter as it still is. -/
theorem write (bal : l.Balanced P) (small : 2 * P.card < 2 ^ w) (mem : t ∈ P) {k : Kind}
    (at_ : l.stage t = .pending k (some v)) (alone : l.Undisturbed P t) :
    ((l.go t k.result).put (k.value v)).Balanced P := by
  have hv : v = l.count := bal.seen t mem v (by simp [at_, Stage.seen])
  have hcount := bal.count
  have hroom := bal.room
  have hwaiting : (l.go t k.result).waiting P ≤ P.card := total_le_card Stage.waits_le
  obtain ⟨hup, hdown⟩ := toNat_value small mem l.count
  obtain ⟨hi, hw, hp, ht⟩ := census (l.go t k.result) mem at_ rfl rfl
  refine ⟨?_, ?_, ?_⟩
  · change (k.value v).toNat = (l.go t k.result).inside P + (l.go t k.result).waiting P
    rw [hv]
    cases k with
    | take | block =>
        simp only [Kind.result, Stage.has, Stage.waits, Stage.passes, Stage.takes, Kind.value]
          at hi hw hp ht hwaiting ⊢
        omega
    | leave | hand =>
        simp only [Kind.result, Stage.has, Stage.waits, Stage.passes, Stage.takes, Kind.value]
          at hi hw hp ht ⊢
        omega
  · intro u hu x hx
    by_cases h : u = t
    · subst h
      cases k <;> simp [Lock.go, Lock.put, Kind.result, Stage.seen] at hx
    · have hnone := alone (by simp [at_, Stage.seen]) u hu h
      simp [Lock.go, Lock.put, h, hnone] at hx
  · change (l.go t k.result).inside P + (l.go t k.result).passing P +
      (l.go t k.result).taking P ≤ P.card
    cases k <;> simp only [Kind.result, Stage.has, Stage.passes, Stage.takes] at hi hp ht ⊢ <;>
      omega

/-- Handing over: one participant stops passing, and one that is queued has the lock. -/
theorem release (bal : l.Balanced P) (mem : t ∈ P) (hu : u ∈ P) (at_ : l.stage t = .passing)
    (queued : l.stage u = .queued) : ((l.go t .outside).go u .inside).Balanced P := by
  have hne : u ≠ t := fun same => by simp [← same, queued] at at_
  have hqueued := release_stage hne queued
  obtain ⟨hi, hw, hp, ht⟩ := census (l.go t .outside) mem at_ rfl rfl
  obtain ⟨hi', hw', hp', ht'⟩ :=
    census ((l.go t .outside).go u .inside) hu hqueued rfl rfl
  simp only [Stage.has, Stage.waits, Stage.passes, Stage.takes] at hi hw hp ht hi' hw' hp' ht'
  have hcount := bal.count
  have hroom := bal.room
  have hfirst : (l.go t .outside).Balanced P :=
    bal.go mem at_ (by simp [Stage.seen]) rfl (by simp [Stage.has, Stage.passes, Stage.takes])
  refine ⟨?_, hfirst.seen_go _ (by simp [Stage.seen]), ?_⟩
  · change l.count.toNat = _
    omega
  · omega

theorem keep (bal : l.Balanced P) (mem : t ∈ P) (at_ : l.stage t = .inside) :
    ((l.go t .outside).hold t (l.held t + 1)).Balanced P := by
  obtain ⟨-, hw, hp, ht⟩ := census (l.go t .outside) mem at_ rfl rfl
  refine ⟨?_, bal.seen_go .outside (by simp [Stage.seen]), ?_⟩
  · rw [inside_keep mem at_]
    exact bal.count.trans (congrArg _ hw.symm)
  · rw [inside_keep mem at_]
    exact (congrArg₂ (l.inside P + · + ·) hp ht).trans_le bal.room

theorem bring (bal : l.Balanced P) (mem : t ∈ P) {n : Nat} (at_ : l.stage t = .outside)
    (held : l.held t = n + 1) :
    ((l.go t .inside).hold t n).Balanced P := by
  obtain ⟨-, hw, hp, ht⟩ := census (l.go t .inside) mem at_ rfl rfl
  refine ⟨?_, bal.seen_go .inside (by simp [Stage.seen]), ?_⟩
  · rw [inside_bring mem at_ held]
    exact bal.count.trans (congrArg _ hw.symm)
  · rw [inside_bring mem at_ held]
    exact (congrArg₂ (l.inside P + · + ·) hp ht).trans_le bal.room

omit [DecidableEq ι] in
/-- Whoever has the lock is counted. -/
theorem count_ne_zero (bal : l.Balanced P) (mem : t ∈ P) (at_ : l.stage t = .inside) :
    l.count ≠ 0 := by
  intro hzero
  have hhas := has_le_inside (l := l) mem
  have hcount := bal.count
  rw [at_] at hhas
  rw [hzero] at hcount
  change 1 ≤ l.inside P at hhas
  change 0 = _ at hcount
  omega

theorem move (bal : l.Balanced P) (small : 2 * P.card < 2 ^ w) (mem : t ∈ P)
    (alone : l.Undisturbed P t) (step : Move P l t l') : l'.Balanced P := by
  cases step with
  | test at_ =>
      by_cases hcount : l.count = 0
      · rw [if_pos hcount]
        exact bal.test_free mem at_ hcount
      · rw [if_neg hcount]
        exact bal.go mem at_ (by simp [Stage.seen]) rfl (Nat.le_refl _)
  | give at_ =>
      by_cases hcount : l.count = 1
      · rw [if_pos hcount]
        exact bal.go mem at_ (by simp [Stage.seen]) rfl (Nat.le_refl _)
      · rw [if_neg hcount]
        exact bal.go mem at_ (by simp [Stage.seen]) rfl (Nat.le_refl _)
  | read k at_ =>
      refine bal.go mem at_ ?_ ?_ ?_
      · intro v hv
        simpa [Stage.seen] using hv.symm
      · cases k <;> rfl
      · cases k <;> exact Nat.le_refl _
  | write k v at_ => exact bal.write small mem at_ alone
  | enqueue at_ => exact bal.go mem at_ (by simp [Stage.seen]) rfl (Nat.le_refl _)
  | keep at_ => exact bal.keep mem at_
  | bring n at_ held => exact bal.bring mem at_ held
  | refuse at_ count => exact absurd count (bal.count_ne_zero mem at_)
  | release u hu at_ queued => exact bal.release mem hu at_ queued
  | idle at_ none =>
      exact bal.go mem at_ (by simp [Stage.seen]) rfl
        (by simp [Stage.has, Stage.passes, Stage.takes])

end Lock.Balanced

section Exclusion

/-- No participant takes the lock while another one is about to take it, too. -/
def Lock.TakesAlone (P : Finset ι) (l : Lock ι w) (t : ι) : Prop :=
  ∀ v, l.stage t = .pending .take (some v) → ∀ u, u ∈ P → u ≠ t → (l.stage u).kind ≠ some .take

/-- The lock is had once, and whoever hands it over has somebody to hand it to. -/
structure Lock.Exclusive (P : Finset ι) (l : Lock ι w) : Prop where
  one : l.inside P + l.passing P ≤ 1
  passing : 0 < l.passing P → 0 < l.waiting P
  taking : ∀ u, u ∈ P → (l.stage u).kind = some .take → l.inside P + l.passing P = 0
  handing : ∀ u, u ∈ P → (l.stage u).kind = some .hand → 0 < l.waiting P

/-- The stages behind a step of `t`. -/
theorem kind_update {b : Stage w} {k : Kind} (stage : l'.stage = Function.update l.stage t b)
    (h : (l'.stage u).kind = some k) :
    b.kind = some k ∨ u ≠ t ∧ (l.stage u).kind = some k := by
  rw [stage] at h
  by_cases same : u = t
  · rw [same, Function.update_self] at h
    exact .inl h
  · rw [Function.update_of_ne same] at h
    exact .inr ⟨same, h⟩

namespace Lock.Exclusive

theorem step (ex : l.Exclusive P) {b : Stage w} (stage : l'.stage = Function.update l.stage t b)
    (less : l'.inside P + l'.passing P ≤ l.inside P + l.passing P)
    (more : l.waiting P ≤ l'.waiting P) (passing : 0 < l'.passing P → 0 < l'.waiting P)
    (taking : b.kind = some .take → l'.inside P + l'.passing P = 0)
    (handing : b.kind = some .hand → 0 < l'.waiting P) : l'.Exclusive P := by
  refine ⟨less.trans ex.one, passing, ?_, ?_⟩
  · intro u hu hk
    cases kind_update stage hk with
    | inl h => exact taking h
    | inr h =>
        have := ex.taking u hu h.2
        omega
  · intro u hu hk
    cases kind_update stage hk with
    | inl h => exact handing h
    | inr h => exact (ex.handing u hu h.2).trans_le more

/-- A step that changes none of the numbers. -/
theorem quiet (ex : l.Exclusive P) (mem : t ∈ P) {a b : Stage w} (at_ : l.stage t = a)
    (stage : l'.stage = Function.update l.stage t b) (inside : l'.inside P = l.inside P)
    (waits : b.waits = a.waits) (passes : b.passes = a.passes)
    (kind : ∀ k, b.kind = some k → k ≠ .block → k ≠ .leave → a.kind = some k) :
    l'.Exclusive P := by
  have hwaiting := waiting_same mem at_ stage waits
  have hpassing := passing_same mem at_ stage passes
  refine ex.step stage ?_ ?_ ?_ ?_ ?_
  · rw [inside, hpassing]
  · rw [hwaiting]
  · rw [hwaiting, hpassing]
    exact ex.passing
  · intro h
    rw [inside, hpassing]
    exact ex.taking t mem (at_ ▸ kind .take h (by simp) (by simp))
  · intro h
    rw [hwaiting]
    exact ex.handing t mem (at_ ▸ kind .hand h (by simp) (by simp))

/-- The first of the participants that found the lock free. -/
theorem take (ex : l.Exclusive P) (mem : t ∈ P) (at_ : l.stage t = .pending .take (some v))
    (alone : l.TakesAlone P t) (c : BitVec w) :
    ((l.go t .inside).put c).Exclusive P := by
  obtain ⟨hi, hw, hp, ht⟩ := census ((l.go t .inside).put c) mem at_ rfl rfl
  simp only [Stage.has, Stage.waits, Stage.passes] at hi hw hp
  have hzero := ex.taking t mem (by simp [at_, Stage.kind])
  refine ⟨by omega, by omega, ?_, ?_⟩
  · intro u hu hk
    cases kind_update (l := l) rfl hk with
    | inl h => simp [Stage.kind] at h
    | inr h => exact absurd h.2 (alone v at_ u hu h.1)
  · intro u hu hk
    cases kind_update (l := l) rfl hk with
    | inl h => simp [Stage.kind] at h
    | inr h =>
        have := ex.handing u hu h.2
        omega

/-- The lock goes from the participant that passes it to one that is queued. -/
theorem release (ex : l.Exclusive P) (mem : t ∈ P) (hu : u ∈ P) (at_ : l.stage t = .passing)
    (queued : l.stage u = .queued) : ((l.go t .outside).go u .inside).Exclusive P := by
  have hne : u ≠ t := fun same => by simp [← same, queued] at at_
  have hqueued := release_stage hne queued
  have hpasses := le_total Stage.passes l.stage mem
  obtain ⟨hi, hw, hp, -⟩ := census (l.go t .outside) mem at_ rfl rfl
  obtain ⟨hi', hw', hp', -⟩ :=
    census ((l.go t .outside).go u .inside) hu hqueued rfl rfl
  simp only [Stage.has, Stage.waits, Stage.passes] at hi hw hp hi' hw' hp'
  rw [at_] at hpasses
  change 1 ≤ l.passing P at hpasses
  have hone := ex.one
  have hkind : ∀ x, x ∈ P → ∀ k, (((l.go t .outside).go u .inside).stage x).kind = some k →
      (l.stage x).kind = some k ∧ l.inside P = 0 := by
    intro x hx k hk
    cases kind_update (l := l.go t .outside) rfl hk with
    | inl h => simp [Stage.kind] at h
    | inr h =>
        cases kind_update (l := l) rfl h.2 with
        | inl h => simp [Stage.kind] at h
        | inr h => exact ⟨h.2, by omega⟩
  refine ⟨by omega, by omega, ?_, ?_⟩
  · intro x hx hk
    have := ex.taking x hx (hkind x hx .take hk).1
    omega
  · intro x hx hk
    obtain ⟨hold, hnone⟩ := hkind x hx .hand hk
    have hhas := has_le_inside (l := l) hx
    cases hstage : l.stage x with
    | pending k seen =>
        rw [hstage] at hold hhas
        cases k <;> simp [Stage.kind] at hold
        change 1 ≤ _ at hhas
        omega
    | outside | announced | queued | inside | passing => simp [hstage, Stage.kind] at hold

/-- A participant that found the counter at zero. -/
theorem test_free (ex : l.Exclusive P) (bal : l.Balanced P) (mem : t ∈ P)
    (at_ : l.stage t = .outside) (count : l.count = 0) :
    (l.go t (.pending .take none)).Exclusive P := by
  obtain ⟨hi, hw, hp, -⟩ := census (l.go t (.pending .take none)) mem at_ rfl rfl
  simp only [Stage.has, Stage.waits, Stage.passes] at hi hw hp
  have hpassing := ex.passing
  have hzero : 0 = l.inside P + l.waiting P := by
    rw [← bal.count, count]
    rfl
  refine ex.step (b := .pending .take none) rfl ?_ ?_ ?_ ?_ ?_
  · omega
  · omega
  · omega
  · intro _
    omega
  · simp [Stage.kind]

/-- A participant that has the lock and found the counter above one. -/
theorem give_more (ex : l.Exclusive P) (bal : l.Balanced P) (small : 2 * P.card < 2 ^ w)
    (mem : t ∈ P) (at_ : l.stage t = .inside) (count : l.count ≠ 1) :
    (l.go t (.pending .hand none)).Exclusive P := by
  obtain ⟨hi, hw, hp, -⟩ := census (l.go t (.pending .hand none)) mem at_ rfl rfl
  simp only [Stage.has, Stage.waits, Stage.passes] at hi hw hp
  have hpassing := ex.passing
  have hone := ex.one
  have hhas := has_le_inside (l := l) mem
  rw [at_] at hhas
  change 1 ≤ l.inside P at hhas
  have hcount : l.count.toNat ≠ 1 := fun same =>
    count (BitVec.eq_of_toNat_eq (same.trans (toNat_one small mem).symm))
  have hcounted := bal.count
  refine ex.step (b := .pending .hand none) rfl ?_ ?_ ?_ ?_ ?_
  · omega
  · omega
  · omega
  · simp [Stage.kind]
  · intro _
    omega

/-- A participant that gives up the lock. -/
theorem give_up (ex : l.Exclusive P) (mem : t ∈ P) {k : Kind}
    (at_ : l.stage t = .pending k (some v)) (gives : k ≠ .take) (c : BitVec w) :
    ((l.go t k.result).put c).Exclusive P := by
  obtain ⟨hi, hw, hp, -⟩ := census ((l.go t k.result).put c) mem at_ rfl rfl
  have hpassing := ex.passing
  have hhanding := ex.handing t mem
  rw [at_] at hhanding
  have hkind : ∀ k' : Kind, (k.result : Stage w).kind ≠ some k' := by
    intro k'
    cases k <;> simp [Kind.result, Stage.kind]
  refine ex.step (b := k.result) rfl ?_ ?_ ?_ (fun h => absurd h (hkind _))
    (fun h => absurd h (hkind _))
  · cases k with
    | take => exact absurd rfl gives
    | block | leave | hand =>
        simp only [Kind.result, Stage.has, Stage.passes] at hi hp ⊢
        omega
  · cases k <;> simp only [Kind.result, Stage.waits] at hw ⊢ <;> omega
  · cases k with
    | take => exact absurd rfl gives
    | hand =>
        have := hhanding rfl
        simp only [Kind.result, Stage.waits] at hw ⊢
        omega
    | block | leave =>
        simp only [Kind.result, Stage.waits, Stage.passes] at hw hp ⊢
        omega

theorem move (ex : l.Exclusive P) (bal : l.Balanced P) (small : 2 * P.card < 2 ^ w)
    (mem : t ∈ P) (alone : l.TakesAlone P t) (step : Move P l t l') : l'.Exclusive P := by
  cases step with
  | test at_ =>
      by_cases hcount : l.count = 0
      · rw [if_pos hcount]
        exact ex.test_free bal mem at_ hcount
      · rw [if_neg hcount]
        exact ex.quiet mem at_ rfl (inside_same mem at_ rfl rfl rfl) rfl rfl
          (by simp [Stage.kind])
  | give at_ =>
      by_cases hcount : l.count = 1
      · rw [if_pos hcount]
        exact ex.quiet mem at_ rfl (inside_same mem at_ rfl rfl rfl) rfl rfl
          (by simp [Stage.kind])
      · rw [if_neg hcount]
        exact ex.give_more bal small mem at_ hcount
  | read k at_ =>
      refine ex.quiet mem at_ rfl (inside_same mem at_ rfl rfl ?_) rfl rfl ?_
      · cases k <;> rfl
      · intro k' h _ _
        exact h
  | write k v at_ =>
      by_cases htake : k = .take
      · subst htake
        exact ex.take mem at_ alone _
      · exact ex.give_up mem at_ htake _
  | enqueue at_ =>
      exact ex.quiet mem at_ rfl (inside_same mem at_ rfl rfl rfl) rfl rfl (by simp [Stage.kind])
  | keep at_ => exact ex.quiet mem at_ rfl (inside_keep mem at_) rfl rfl (by simp [Stage.kind])
  | bring n at_ held =>
      exact ex.quiet mem at_ rfl (inside_bring mem at_ held) rfl rfl (by simp [Stage.kind])
  | refuse at_ count => exact absurd count (bal.count_ne_zero mem at_)
  | release u hu at_ queued => exact ex.release mem hu at_ queued
  | idle at_ none =>
      obtain ⟨hi, hw, hp, -⟩ := census (l.go t .outside) mem at_ rfl rfl
      simp only [Stage.has, Stage.waits, Stage.passes] at hi hw hp
      have hpassing := ex.passing
      refine ex.step (b := .outside) rfl ?_ ?_ ?_ ?_ ?_
      · omega
      · omega
      · omega
      · simp [Stage.kind]
      · simp [Stage.kind]

end Lock.Exclusive

end Exclusion

section Attention

/-- No participant announces itself while another one leaves that found nobody waiting. -/
def Lock.AnnouncesAlone (P : Finset ι) (l : Lock ι w) (t : ι) : Prop :=
  ∀ v, l.stage t = .pending .block (some v) → ∀ u, u ∈ P → u ≠ t → (l.stage u).kind ≠ some .leave

/-- The participant is about to wait, and nobody can see it in the queue. -/
def Stage.coming (s : Stage w) : Prop := s.kind = some .block ∨ s = .announced

/-- `t` is about to give up the lock without handing it to somebody. -/
def Lock.Abandons (P : Finset ι) (l : Lock ι w) (t : ι) : Prop :=
  (∃ v, l.stage t = .pending .leave (some v)) ∨
    (l.stage t = .passing ∧ ∀ u, u ∈ P → l.stage u ≠ .queued)

/-- The lock is not given up while somebody is on the way to the queue. -/
def Lock.LeavesNobody (P : Finset ι) (l : Lock ι w) (t : ι) : Prop :=
  l.Abandons P t → ∀ u, u ∈ P → u ≠ t → ¬ (l.stage u).coming

/-- Whoever waits has somebody to wait for. -/
structure Lock.Attended (P : Finset ι) (l : Lock ι w) : Prop where
  waiting : 0 < l.waiting P → 0 < l.inside P + l.passing P
  blocking : ∀ u, u ∈ P → (l.stage u).kind = some .block → 0 < l.inside P + l.passing P
  leaving : ∀ u, u ∈ P → (l.stage u).kind = some .leave → l.waiting P = 0

namespace Lock.Attended

theorem step (att : l.Attended P) {b : Stage w} (stage : l'.stage = Function.update l.stage t b)
    (keeps : 0 < l.inside P + l.passing P → 0 < l'.inside P + l'.passing P)
    (less : l'.waiting P ≤ l.waiting P)
    (blocking : b.kind = some .block → 0 < l'.inside P + l'.passing P)
    (leaving : b.kind = some .leave → l'.waiting P = 0) : l'.Attended P := by
  refine ⟨fun h => keeps (att.waiting (h.trans_le less)), ?_, ?_⟩
  · intro u hu hk
    cases kind_update stage hk with
    | inl h => exact blocking h
    | inr h => exact keeps (att.blocking u hu h.2)
  · intro u hu hk
    cases kind_update stage hk with
    | inl h => exact leaving h
    | inr h => exact Nat.eq_zero_of_le_zero (less.trans_eq (att.leaving u hu h.2))

/-- A step that changes none of the numbers. -/
theorem quiet (att : l.Attended P) (mem : t ∈ P) {a b : Stage w} (at_ : l.stage t = a)
    (stage : l'.stage = Function.update l.stage t b) (inside : l'.inside P = l.inside P)
    (waits : b.waits = a.waits) (passes : b.passes = a.passes)
    (kind : ∀ k, b.kind = some k → k ≠ .take → k ≠ .hand → a.kind = some k) :
    l'.Attended P := by
  have hwaiting := waiting_same mem at_ stage waits
  have hpassing := passing_same mem at_ stage passes
  refine att.step stage ?_ ?_ ?_ ?_
  · rw [inside, hpassing]
    exact id
  · rw [hwaiting]
  · intro h
    rw [inside, hpassing]
    exact att.blocking t mem (at_ ▸ kind .block h (by simp) (by simp))
  · intro h
    rw [hwaiting]
    exact att.leaving t mem (at_ ▸ kind .leave h (by simp) (by simp))

/-- A participant that found the counter above zero. -/
theorem test_busy (att : l.Attended P) (bal : l.Balanced P) (mem : t ∈ P)
    (at_ : l.stage t = .outside) (count : l.count ≠ 0) :
    (l.go t (.pending .block none)).Attended P := by
  obtain ⟨hi, hw, hp, -⟩ := census (l.go t (.pending .block none)) mem at_ rfl rfl
  simp only [Stage.has, Stage.waits, Stage.passes] at hi hw hp
  have hwaiting := att.waiting
  have hcounted := bal.count
  have hcount : l.count.toNat ≠ 0 := fun zero =>
    count (BitVec.eq_of_toNat_eq (zero.trans BitVec.toNat_zero.symm))
  refine att.step (b := .pending .block none) rfl ?_ ?_ ?_ ?_
  · omega
  · omega
  · intro _
    omega
  · simp [Stage.kind]

/-- A participant that has the lock and found the counter at one. -/
theorem give_last (att : l.Attended P) (bal : l.Balanced P) (small : 2 * P.card < 2 ^ w)
    (mem : t ∈ P) (at_ : l.stage t = .inside) (count : l.count = 1) :
    (l.go t (.pending .leave none)).Attended P := by
  obtain ⟨hi, hw, hp, -⟩ := census (l.go t (.pending .leave none)) mem at_ rfl rfl
  simp only [Stage.has, Stage.waits, Stage.passes] at hi hw hp
  have hhas := has_le_inside (l := l) mem
  rw [at_] at hhas
  change 1 ≤ l.inside P at hhas
  have hcounted := bal.count
  rw [count, toNat_one small mem] at hcounted
  refine att.step (b := .pending .leave none) rfl ?_ ?_ ?_ ?_
  · omega
  · omega
  · simp [Stage.kind]
  · intro _
    omega

/-- The write of a participant that will wait. -/
theorem announce (att : l.Attended P) (mem : t ∈ P) (at_ : l.stage t = .pending .block (some v))
    (alone : l.AnnouncesAlone P t) (c : BitVec w) :
    ((l.go t .announced).put c).Attended P := by
  obtain ⟨hi, hw, hp, -⟩ := census ((l.go t .announced).put c) mem at_ rfl rfl
  simp only [Stage.has, Stage.waits, Stage.passes] at hi hw hp
  have hblocking := att.blocking t mem (by simp [at_, Stage.kind])
  refine ⟨by omega, ?_, ?_⟩
  · intro u _ _
    omega
  · intro u hu hk
    cases kind_update (l := l) rfl hk with
    | inl h => simp [Stage.kind] at h
    | inr h => exact absurd h.2 (alone v at_ u hu h.1)

/-- The write of a participant that takes the lock, or of one that will hand it over. -/
theorem write (att : l.Attended P) (mem : t ∈ P) {k : Kind} (at_ : l.stage t = .pending k (some v))
    (which : k = .take ∨ k = .hand) (c : BitVec w) : ((l.go t k.result).put c).Attended P := by
  obtain ⟨hi, hw, hp, -⟩ := census ((l.go t k.result).put c) mem at_ rfl rfl
  have hkind : ∀ k' : Kind, (k.result : Stage w).kind ≠ some k' := by
    intro k'
    cases k <;> simp [Kind.result, Stage.kind]
  refine att.step (b := k.result) rfl ?_ ?_ (fun h => absurd h (hkind _))
    (fun h => absurd h (hkind _))
  · cases which with
    | inl h | inr h =>
        subst h
        simp only [Kind.result, Stage.has, Stage.passes] at hi hp ⊢
        omega
  · cases which with
    | inl h | inr h =>
        subst h
        simp only [Kind.result, Stage.waits] at hw ⊢
        omega

/-- Nobody waits where the lock is given up without handing it over. -/
theorem abandon (att : l.Attended P) (nobody : l.LeavesNobody P t) (abandons : l.Abandons P t)
    (mem : t ∈ P) {a b : Stage w} (at_ : l.stage t = a) (waits : b.waits = a.waits)
    (kind : b.kind = none) (stage : l'.stage = Function.update l.stage t b) : l'.Attended P := by
  have hnobody := nobody abandons
  have hwaiting : l.waiting P = 0 := by
    cases abandons with
    | inl h =>
        obtain ⟨v, hv⟩ := h
        exact att.leaving t mem (by simp [hv, Stage.kind])
    | inr h =>
        by_contra hne
        obtain ⟨u, hu, hpos⟩ := exists_of_total (Nat.pos_of_ne_zero hne)
        have hself : u ≠ t := fun same => by simp [same, h.1, Stage.waits] at hpos
        cases hstage : l.stage u with
        | queued => exact h.2 u hu hstage
        | announced => exact hnobody u hu hself (.inr hstage)
        | outside | inside | passing | pending => simp [hstage, Stage.waits] at hpos
  have hzero : l'.waiting P = 0 := (waiting_same mem at_ stage waits).trans hwaiting
  refine ⟨fun h => absurd hzero (Nat.pos_iff_ne_zero.mp h), ?_, fun _ _ _ => hzero⟩
  intro u hu hk
  cases kind_update stage hk with
  | inl h => exact absurd h (by simp [kind])
  | inr h => exact absurd (.inl h.2) (hnobody u hu h.1)

theorem release (att : l.Attended P) (mem : t ∈ P) (hu : u ∈ P) (at_ : l.stage t = .passing)
    (queued : l.stage u = .queued) : ((l.go t .outside).go u .inside).Attended P := by
  have hne : u ≠ t := fun same => by simp [← same, queued] at at_
  have hqueued := release_stage hne queued
  obtain ⟨hi, hw, hp, -⟩ := census (l.go t .outside) mem at_ rfl rfl
  obtain ⟨hi', hw', hp', -⟩ :=
    census ((l.go t .outside).go u .inside) hu hqueued rfl rfl
  simp only [Stage.has, Stage.waits, Stage.passes] at hi hw hp hi' hw' hp'
  refine ⟨by omega, ?_, ?_⟩
  · intro x _ _
    omega
  · intro x hx hk
    have hold : (l.stage x).kind = some .leave := by
      cases kind_update (l := l.go t .outside) rfl hk with
      | inl h => simp [Stage.kind] at h
      | inr h =>
          cases kind_update (l := l) rfl h.2 with
          | inl h => simp [Stage.kind] at h
          | inr h => exact h.2
    have := att.leaving x hx hold
    omega

theorem move (att : l.Attended P) (bal : l.Balanced P) (small : 2 * P.card < 2 ^ w) (mem : t ∈ P)
    (alone : l.AnnouncesAlone P t) (nobody : l.LeavesNobody P t) (step : Move P l t l') :
    l'.Attended P := by
  cases step with
  | test at_ =>
      by_cases hcount : l.count = 0
      · rw [if_pos hcount]
        exact att.quiet mem at_ rfl (inside_same mem at_ rfl rfl rfl) rfl rfl
          (by simp [Stage.kind])
      · rw [if_neg hcount]
        exact att.test_busy bal mem at_ hcount
  | give at_ =>
      by_cases hcount : l.count = 1
      · rw [if_pos hcount]
        exact att.give_last bal small mem at_ hcount
      · rw [if_neg hcount]
        exact att.quiet mem at_ rfl (inside_same mem at_ rfl rfl rfl) rfl rfl
          (by simp [Stage.kind])
  | read k at_ =>
      refine att.quiet mem at_ rfl (inside_same mem at_ rfl rfl ?_) rfl rfl ?_
      · cases k <;> rfl
      · intro k' h _ _
        exact h
  | write k v at_ =>
      cases k with
      | take => exact att.write mem at_ (.inl rfl) _
      | block => exact att.announce mem at_ alone _
      | leave => exact att.abandon (b := .outside) nobody (.inl ⟨v, at_⟩) mem at_ rfl rfl rfl
      | hand => exact att.write mem at_ (.inr rfl) _
  | enqueue at_ =>
      exact att.quiet mem at_ rfl (inside_same mem at_ rfl rfl rfl) rfl rfl (by simp [Stage.kind])
  | keep at_ => exact att.quiet mem at_ rfl (inside_keep mem at_) rfl rfl (by simp [Stage.kind])
  | bring n at_ held =>
      exact att.quiet mem at_ rfl (inside_bring mem at_ held) rfl rfl (by simp [Stage.kind])
  | refuse at_ count => exact absurd count (bal.count_ne_zero mem at_)
  | release u hu at_ queued => exact att.release mem hu at_ queued
  | idle at_ none => exact att.abandon (b := .outside) nobody (.inr ⟨at_, none⟩) mem at_ rfl rfl rfl

end Lock.Attended

end Attention

section Start

/-- Nobody has the lock, or is about to do anything to it. -/
structure Lock.Free (P : Finset ι) (l : Lock ι w) : Prop where
  count : l.count = 0
  held : ∀ u, u ∈ P → l.held u = 0
  stage : ∀ u, u ∈ P → l.stage u = .outside

namespace Lock.Free

omit [DecidableEq ι] in
theorem total_eq (free : l.Free P) (weight : Stage w → Nat) (none : weight .outside = 0) :
    total P weight l.stage = 0 := by
  refine Finset.sum_eq_zero ?_
  intro u hu
  rw [free.stage u hu, none]

omit [DecidableEq ι] in
theorem inside_eq (free : l.Free P) : l.inside P = 0 := by
  rw [Lock.inside, free.total_eq Stage.has rfl, Finset.sum_eq_zero free.held]

omit [DecidableEq ι] in
theorem balanced (free : l.Free P) : l.Balanced P := by
  refine ⟨?_, ?_, ?_⟩
  · rw [free.inside_eq, waiting, free.total_eq Stage.waits rfl, free.count]
    exact BitVec.toNat_zero
  · intro u hu v hv
    simp [free.stage u hu, Stage.seen] at hv
  · rw [free.inside_eq, passing, taking, free.total_eq Stage.passes rfl,
      free.total_eq Stage.takes rfl]
    exact Nat.zero_le _

omit [DecidableEq ι] in
theorem exclusive (free : l.Free P) : l.Exclusive P := by
  have hpassing : l.passing P = 0 := free.total_eq Stage.passes rfl
  refine ⟨?_, ?_, ?_, ?_⟩
  · rw [free.inside_eq, hpassing]
    exact Nat.zero_le _
  · rw [hpassing]
    exact fun h => absurd h (Nat.lt_irrefl 0)
  · intro u hu hk
    simp [free.stage u hu, Stage.kind] at hk
  · intro u hu hk
    simp [free.stage u hu, Stage.kind] at hk

omit [DecidableEq ι] in
theorem attended (free : l.Free P) : l.Attended P := by
  have hwaiting : l.waiting P = 0 := free.total_eq Stage.waits rfl
  refine ⟨?_, ?_, ?_⟩
  · rw [hwaiting]
    exact fun h => absurd h (Nat.lt_irrefl 0)
  · intro u hu hk
    simp [free.stage u hu, Stage.kind] at hk
  · exact fun _ _ _ => hwaiting

end Lock.Free

end Start

end CountedLock
