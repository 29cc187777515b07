import Mathlib.Data.List.Induction
import Mathlib.Data.List.Nodup
import Mathlib.Logic.Function.Basic

/-!
Singly linked tail queues. Every element has one link; the queues share the
links, and a head holds the first element and the place where the next element
is to be hung. `IsQueue` reads a head and the links as a list, and the lemmas
say what each operation does to that list and which links it touches.
-/
namespace TailQueue

variable {α : Type*}

/-- The pointer at the end of a queue: the head itself, or the link of an element. -/
inductive Slot (α : Type*)
  | first
  | next (a : α)

structure Head (α : Type*) where
  first : Option α
  last : Slot α

namespace Head

def empty : Head α := ⟨none, .first⟩

end Head

/-- `STAILQ_REMOVE_HEAD`; `none` is a null dereference. -/
def removeHead (link : α → Option α) (head : Head α) : Option (Head α) :=
  match head.first with
  | none => none
  | some a =>
      match link a with
      | none => some ⟨none, .first⟩
      | some b => some ⟨some b, head.last⟩

/-- The elements met on the links from `start`, at most `n` of them. -/
def elements (link : α → Option α) : Nat → Option α → List α
  | 0, _ | _, none => []
  | n + 1, some a => a :: elements link n (link a)

/-- The links lead from `start` over `xs` to `stop`. -/
def Segment (link : α → Option α) : Option α → List α → Option α → Prop
  | start, [], stop => start = stop
  | start, a :: as, stop => start = some a ∧ Segment link (link a) as stop

variable {link link' : α → Option α} {head head' : Head α} {start stop : Option α}
  {xs ys : List α} {a b e : α}

/-- What stands before and behind the first element with a property. -/
theorem split_of_find? {p : α → Bool} (found : xs.find? p = some a) :
    p a = true ∧ ∃ as bs, xs = as ++ a :: bs ∧ xs.eraseP p = as ++ bs ∧
      ∀ b, b ∈ as → p b = false := by
  obtain ⟨htest, as, bs, hsplit, hbefore⟩ := List.find?_eq_some_iff_append.mp found
  have hnot : ∀ b, b ∈ as → p b = false := fun b hb => by simpa using hbefore b hb
  refine ⟨htest, as, bs, hsplit, ?_, hnot⟩
  rw [hsplit, List.eraseP_append_right _ (fun b hb => by simp [hnot b hb]),
    List.eraseP_cons_of_pos htest]

/-- Taking out the first element with a property is taking out that element. -/
theorem eraseP_eq_erase [DecidableEq α] {p : α → Bool} (found : xs.find? p = some a) :
    xs.eraseP p = xs.erase a := by
  obtain ⟨htest, as, bs, hsplit, herase, hbefore⟩ := split_of_find? found
  have hnot : a ∉ as := by
    intro hmem
    rw [hbefore a hmem] at htest
    cases htest
  rw [herase, hsplit, List.erase_append_right _ hnot, List.erase_cons_head]

theorem segment_append :
    Segment link start (xs ++ ys) stop ↔
      ∃ m, Segment link start xs m ∧ Segment link m ys stop := by
  induction xs generalizing start with
  | nil => simp [Segment]
  | cons x xs ih => simp [Segment, ih, and_assoc]

theorem Segment.congr (h : ∀ x, x ∈ xs → link' x = link x)
    (segment : Segment link start xs stop) : Segment link' start xs stop := by
  induction xs generalizing start with
  | nil => exact segment
  | cons x xs ih =>
      obtain ⟨hstart, hrest⟩ := segment
      refine ⟨hstart, ?_⟩
      rw [h x List.mem_cons_self]
      exact ih (fun y hy => h y (List.mem_cons_of_mem x hy)) hrest

theorem elements_of_segment {n : Nat} (segment : Segment link start xs none)
    (bound : xs.length ≤ n) : elements link n start = xs := by
  induction xs generalizing start n with
  | nil =>
      cases segment
      cases n <;> rfl
  | cons x xs ih =>
      obtain ⟨hstart, hrest⟩ := segment
      cases n with
      | zero => simp at bound
      | succ n =>
          rw [hstart, elements, ih hrest (by simpa using bound)]

/-- The head and the links describe the queue `xs`. -/
structure IsQueue (link : α → Option α) (head : Head α) (xs : List α) : Prop where
  segment : Segment link head.first xs none
  last : head.last = (xs.getLast?.elim .first .next)
  nodup : xs.Nodup

theorem IsQueue.empty (link : α → Option α) : IsQueue link Head.empty [] :=
  ⟨rfl, rfl, List.nodup_nil⟩

/-- A queue stands while its own elements' links stand. -/
theorem IsQueue.congr (queue : IsQueue link head xs) (h : ∀ x, x ∈ xs → link' x = link x) :
    IsQueue link' head xs :=
  ⟨queue.segment.congr h, queue.last, queue.nodup⟩

theorem IsQueue.first (queue : IsQueue link head (a :: xs)) : head.first = some a :=
  queue.segment.1

theorem IsQueue.first_of_nil (queue : IsQueue link head []) : head.first = none :=
  queue.segment

theorem IsQueue.elements {n : Nat} (queue : IsQueue link head xs) (bound : xs.length ≤ n) :
    elements link n head.first = xs :=
  elements_of_segment queue.segment bound

theorem IsQueue.removeHead (queue : IsQueue link head (a :: xs)) :
    ∃ head', removeHead link head = some head' ∧ IsQueue link head' xs := by
  have hfirst := queue.first
  have hnodup := (List.nodup_cons.mp queue.nodup).2
  cases xs with
  | nil =>
      have hlink : link a = none := queue.segment.2
      simp only [TailQueue.removeHead, hfirst, hlink]
      exact ⟨_, rfl, rfl, rfl, hnodup⟩
  | cons b xs =>
      have hlink : link a = some b := queue.segment.2.1
      simp only [TailQueue.removeHead, hfirst, hlink]
      refine ⟨_, rfl, ⟨rfl, queue.segment.2.2⟩, ?_, hnodup⟩
      simpa using queue.last

/-- In a segment without repetition only its last element is linked behind it. -/
theorem Segment.link_ne (segment : Segment link start (xs ++ a :: ys) stop)
    (nodup : (xs ++ a :: ys).Nodup) (hb : b ∉ ys) (hstop : stop ≠ some b) :
    ∀ x, x ∈ a :: ys → link x ≠ some b := by
  induction ys generalizing xs a with
  | nil =>
      obtain ⟨m, -, -, hlink⟩ := segment_append.mp segment
      intro x hx
      rw [List.mem_singleton.mp hx]
      exact fun h => hstop (hlink.symm.trans h)
  | cons y ys ih =>
      obtain ⟨m, -, -, hlink, -⟩ := segment_append.mp segment
      have hassoc : xs ++ a :: y :: ys = (xs ++ [a]) ++ y :: ys := by simp
      rw [hassoc] at segment nodup
      intro x hx
      cases List.mem_cons.mp hx with
      | inl h =>
          rw [h, hlink]
          intro same
          exact hb (by simp [Option.some.inj same])
      | inr h => exact ih segment nodup (fun h => hb (List.mem_cons_of_mem y h)) x h

/-- The end of an empty queue is its head. -/
def Head.Tight (head : Head α) : Prop := head.first = none → head.last = .first

theorem Head.Tight.of_removeHead (removed : TailQueue.removeHead link head = some head') :
    head'.Tight := by
  rw [TailQueue.removeHead] at removed
  cases hfirst : head.first with
  | none => simp [hfirst] at removed
  | some a =>
      cases hlink : link a with
      | none =>
          simp only [hfirst, hlink, Option.some.injEq] at removed
          exact fun _ => removed ▸ rfl
      | some b =>
          simp only [hfirst, hlink, Option.some.injEq] at removed
          intro hnone
          rw [← removed] at hnone
          cases hnone

theorem IsQueue.first_eq (queue : IsQueue link head xs) : head.first = xs.head? := by
  cases xs with
  | nil => exact queue.first_of_nil
  | cons a xs => exact queue.first

theorem IsQueue.first_ne (queue : IsQueue link head (xs ++ a :: e :: ys)) :
    head.first ≠ some e := by
  have hnodup := List.nodup_append.mp queue.nodup
  rw [queue.first_eq]
  cases xs with
  | nil =>
      intro same
      refine (List.nodup_cons.mp hnodup.2.1).1 ?_
      rw [Option.some.inj same]
      exact List.mem_cons_self
  | cons x xs =>
      intro same
      exact hnodup.2.2 x List.mem_cons_self e (by simp) (Option.some.inj same)

/-- The links do not lead out of a queue. -/
theorem Segment.link_mem (segment : Segment link start xs none) (ha : a ∈ xs)
    (hlink : link a = some b) : b ∈ xs := by
  induction xs generalizing start with
  | nil => cases ha
  | cons x xs ih =>
      obtain ⟨-, hrest⟩ := segment
      cases List.mem_cons.mp ha with
      | inr ha => exact List.mem_cons_of_mem x (ih hrest ha)
      | inl same =>
          rw [← same, hlink] at hrest
          cases xs with
          | nil => cases hrest
          | cons y ys =>
              have hy : some b = some y := hrest.1
              rw [Option.some.inj hy]
              simp

variable [DecidableEq α]

/-- `STAILQ_INSERT_TAIL` -/
def insertTail (link : α → Option α) (head : Head α) (elm : α) : (α → Option α) × Head α :=
  let link := Function.update link elm none
  match head.last with
  | .first => (link, ⟨some elm, .next elm⟩)
  | .next a => (Function.update link a (some elm), ⟨head.first, .next elm⟩)

/-- The walk of `STAILQ_REMOVE` to the element in front of `elm`. -/
def before (elm : α) (link : α → Option α) : Nat → Option α → Option α
  | 0, _ | _, none => none
  | n + 1, some a => if link a = some elm then some a else before elm link n (link a)

/-- `STAILQ_REMOVE`, its walk bounded by `n` steps. -/
def remove (n : Nat) (link : α → Option α) (head : Head α) (elm : α) :
    Option ((α → Option α) × Head α) :=
  if head.first = some elm then (removeHead link head).map fun head => (link, head)
  else
    match before elm link n head.first with
    | none => none
    | some a =>
        match link elm with
        | none => some (Function.update link a none, ⟨head.first, .next a⟩)
        | some b => some (Function.update link a (some b), head)

theorem IsQueue.insertTail (queue : IsQueue link head xs) (fresh : e ∉ xs) :
    IsQueue (insertTail link head e).1 (insertTail link head e).2 (xs ++ [e]) := by
  induction xs using List.reverseRecOn with
  | nil =>
      have hlast : head.last = .first := queue.last
      simp only [TailQueue.insertTail, hlast]
      exact ⟨⟨rfl, by simp [Segment]⟩, rfl, by simp⟩
  | append_singleton xs a _ =>
      have hlast : head.last = .next a := by simpa using queue.last
      obtain ⟨m, hxs, hm, -⟩ := segment_append.mp queue.segment
      have hnodup := List.nodup_append.mp queue.nodup
      have hea : e ≠ a := by
        intro same
        simp [same] at fresh
      have hexs : e ∉ xs := fun h => fresh (by simp [h])
      have haxs : a ∉ xs := fun h => hnodup.2.2 a h a (by simp) rfl
      simp only [TailQueue.insertTail, hlast]
      refine ⟨?_, by simp, List.nodup_append.mpr ⟨queue.nodup, by simp, ?_⟩⟩
      · rw [List.append_assoc]
        refine segment_append.mpr ⟨m, hxs.congr ?_, ?_⟩
        · intro x hx
          have hxa : x ≠ a := fun same => haxs (same ▸ hx)
          have hxe : x ≠ e := fun same => hexs (same ▸ hx)
          rw [Function.update_of_ne hxa, Function.update_of_ne hxe]
        · refine ⟨hm, ?_⟩
          rw [Function.update_self]
          refine ⟨rfl, ?_⟩
          rw [Function.update_of_ne hea, Function.update_self]
          rfl
      · intro x hx y hy same
        rw [List.mem_singleton.mp hy] at same
        exact fresh (same ▸ hx)

/-- `INSERT_TAIL` clears the link of the new element. -/
theorem IsQueue.insertTail_self (queue : IsQueue link head xs) (fresh : e ∉ xs) :
    (TailQueue.insertTail link head e).1 e = none := by
  obtain ⟨m, -, -, hnone⟩ := segment_append.mp (queue.insertTail fresh).segment
  exact hnone

theorem IsQueue.insertTail_of_notMem (queue : IsQueue link head xs) (hx : a ∉ xs)
    (hne : a ≠ e) : (TailQueue.insertTail link head e).1 a = link a := by
  induction xs using List.reverseRecOn with
  | nil =>
      have hlast : head.last = .first := queue.last
      simp only [TailQueue.insertTail, hlast]
      exact Function.update_of_ne hne none link
  | append_singleton xs b _ =>
      have hlast : head.last = .next b := by simpa using queue.last
      have hab : a ≠ b := by
        intro same
        simp [same] at hx
      simp only [TailQueue.insertTail, hlast]
      rw [Function.update_of_ne hab, Function.update_of_ne hne]

/-- The walk stops at the first element whose link is `e`. -/
theorem before_of_segment {n : Nat} (segment : Segment link start (xs ++ [a]) (some e))
    (notBefore : ∀ x, x ∈ xs → link x ≠ some e) (bound : xs.length < n) :
    before e link n start = some a := by
  induction xs generalizing start n with
  | nil =>
      obtain ⟨hstart, hlink⟩ := segment
      cases n with
      | zero => simp at bound
      | succ n =>
          have hlink : link a = some e := hlink
          simp [hstart, before, hlink]
  | cons x xs ih =>
      obtain ⟨hstart, hrest⟩ := segment
      cases n with
      | zero => simp at bound
      | succ n =>
          rw [hstart, before, if_neg (notBefore x List.mem_cons_self)]
          exact ih hrest (fun y hy => notBefore y (List.mem_cons_of_mem x hy))
            (by simpa using bound)

/-- The walk of a removal finds the element in front. -/
theorem IsQueue.before_eq {n : Nat} (queue : IsQueue link head (xs ++ a :: e :: ys))
    (bound : xs.length < n) : before e link n head.first = some a := by
  have hnodup := List.nodup_append.mp queue.nodup
  have hea : e ≠ a := fun same => (List.nodup_cons.mp hnodup.2.1).1 (by simp [same])
  have hexs : e ∉ xs := fun h => hnodup.2.2 e h e (by simp) rfl
  obtain ⟨m, hxs, hm, hlinka, -⟩ := segment_append.mp queue.segment
  have hwalk : Segment link head.first (xs ++ [a]) (some e) :=
    segment_append.mpr ⟨m, hxs, hm, hlinka⟩
  refine before_of_segment hwalk ?_ bound
  intro x hx
  obtain ⟨front, back, hsplit⟩ := List.append_of_mem hx
  subst hsplit
  have hsegment : Segment link head.first (front ++ x :: back) m := hxs
  exact hsegment.link_ne hnodup.1 (fun h => hexs (by simp [h]))
    (fun same => hea (Option.some.inj (same.symm.trans hm))) x List.mem_cons_self

/-- `a` is linked to what stood behind `e`. -/
theorem Segment.unlink {v : Option α} (segment : Segment link start (xs ++ a :: e :: ys) none)
    (nodup : (xs ++ a :: e :: ys).Nodup) (rest : Segment link v ys none) :
    Segment (Function.update link a v) start (xs ++ a :: ys) none := by
  have hnodup := List.nodup_append.mp nodup
  have haxs : a ∉ xs := fun h => hnodup.2.2 a h a (by simp) rfl
  have hays : a ∉ ys := fun h => (List.nodup_cons.mp hnodup.2.1).1 (List.mem_cons_of_mem e h)
  obtain ⟨m, hxs, hm, -⟩ := segment_append.mp segment
  refine segment_append.mpr ⟨m, hxs.congr ?_, hm, ?_⟩
  · intro x hx
    have hne : x ≠ a := fun same => haxs (same ▸ hx)
    rw [Function.update_of_ne hne]
  · rw [Function.update_self]
    refine rest.congr ?_
    intro x hx
    have hne : x ≠ a := fun same => hays (same ▸ hx)
    rw [Function.update_of_ne hne]

theorem IsQueue.remove {n : Nat} (queue : IsQueue link head (xs ++ e :: ys))
    (bound : xs.length ≤ n) :
    ∃ link' head', remove n link head e = some (link', head') ∧
      IsQueue link' head' (xs ++ ys) ∧ ∀ x, x ∉ xs → link' x = link x := by
  induction xs using List.reverseRecOn with
  | nil =>
      obtain ⟨head', hremoved, queue'⟩ := IsQueue.removeHead queue
      have hfirst : head.first = some e := queue.segment.1
      refine ⟨link, head', ?_, queue', fun _ _ => rfl⟩
      rw [TailQueue.remove, if_pos hfirst, hremoved]
      rfl
  | append_singleton xs a _ =>
      rw [List.append_assoc, List.singleton_append] at queue ⊢
      have hbefore : before e link n head.first = some a := by
        refine queue.before_eq ?_
        rw [List.length_append] at bound
        exact bound
      have hfar : ∀ x, x ∉ xs ++ [a] → ∀ v, Function.update link a v x = link x := by
        intro x hx v
        have hne : x ≠ a := fun same => hx (by simp [same])
        rw [Function.update_of_ne hne]
      have hnodup : (xs ++ a :: ys).Nodup := by
        refine queue.nodup.sublist (List.Sublist.append_left ?_ xs)
        exact (List.sublist_cons_self e ys).cons_cons a
      obtain ⟨-, -, -, -, hys⟩ := segment_append.mp queue.segment
      cases ys with
      | nil =>
          have hnone : link e = none := hys
          refine ⟨Function.update link a none, ⟨head.first, .next a⟩, ?_,
            ⟨queue.segment.unlink queue.nodup rfl, by simp, hnodup⟩, fun x hx => hfar x hx none⟩
          rw [TailQueue.remove, if_neg queue.first_ne, hbefore]
          simp only [hnone]
      | cons y ys =>
          have hsome : link e = some y := hys.1
          refine ⟨Function.update link a (some y), head, ?_,
            ⟨queue.segment.unlink queue.nodup ⟨rfl, hys.2⟩, ?_, hnodup⟩,
            fun x hx => hfar x hx (some y)⟩
          · rw [TailQueue.remove, if_neg queue.first_ne, hbefore]
            simp only [hsome]
          · simpa using queue.last

/-- What is hung on the end of a queue is found from its head. -/
theorem Head.Tight.insertTail_first (tight : head.Tight) :
    (TailQueue.insertTail link head e).2.first ≠ none := by
  rw [TailQueue.insertTail]
  cases hlast : head.last with
  | first => simp
  | next a =>
      intro hnone
      cases (tight hnone).symm.trans hlast

/-- A walk that ended does not depend on the bound. -/
theorem before_of_le {n m : Nat} (found : before e link n start = some a) (le : n ≤ m) :
    before e link m start = some a := by
  induction n generalizing start m with
  | zero => cases found
  | succ n ih =>
      cases start with
      | none => cases found
      | some x =>
          obtain ⟨k, rfl⟩ := Nat.exists_eq_add_of_le le
          rw [Nat.add_right_comm, before]
          rw [before] at found
          by_cases hlink : link x = some e
          · rw [if_pos hlink] at found ⊢
            exact found
          · rw [if_neg hlink] at found ⊢
            exact ih found (Nat.le_add_right n k)

theorem remove_of_le {n m : Nat} {result : (α → Option α) × Head α}
    (removed : remove n link head e = some result) (le : n ≤ m) :
    remove m link head e = some result := by
  rw [remove] at removed ⊢
  by_cases hfirst : head.first = some e
  · rw [if_pos hfirst] at removed ⊢
    exact removed
  · rw [if_neg hfirst] at removed ⊢
    cases hbefore : before e link n head.first with
    | none => simp [hbefore] at removed
    | some a =>
        rw [before_of_le hbefore le]
        rw [hbefore] at removed
        exact removed

end TailQueue
