import OsDesign.Lib.Runs
import Mathlib.Data.List.Infix

/-!
A queue inside a transition system. A step takes at most one element, from the
head, and puts what comes new at the tail. What a run takes is logged, and the
log continues with the queue: nothing overtakes what already stands in line.
-/
namespace Fifo

variable {σ ε α : Type*}

/-- A state and the elements taken so far. -/
structure Logged (σ α : Type*) where
  state : σ
  taken : List α

/-- The steps of a system, each logging the element it takes. -/
def Logged.Step (step : σ → ε → σ → Prop) (takes : σ → ε → Option α)
    (l : Logged σ α) (e : ε) (l' : Logged σ α) : Prop :=
  step l.state e l'.state ∧ l'.taken = l.taken ++ (takes l.state e).toList

/-- What is taken stood at the head; the rest keeps its order in front of what
comes new. -/
def Serves (before : List α) (taken : Option α) (after : List α) : Prop :=
  ∃ added, before ++ added = taken.toList ++ after

theorem Serves.kept (queue : List α) : Serves queue none queue :=
  ⟨[], by simp⟩

theorem Serves.added (queue added : List α) : Serves queue none (queue ++ added) :=
  ⟨added, rfl⟩

theorem Serves.head (a : α) (rest added : List α) :
    Serves (a :: rest) (some a) (rest ++ added) :=
  ⟨added, rfl⟩

/-- New elements may join in front of the step. -/
theorem Serves.of_append {before added after : List α} {taken : Option α}
    (h : Serves (before ++ added) taken after) : Serves before taken after := by
  obtain ⟨more, equal⟩ := h
  exact ⟨added ++ more, by rw [← List.append_assoc, equal]⟩

theorem Serves.preserved {before after log : List α} {taken : Option α}
    (h : Serves before taken after) :
    (log ++ before).IsPrefix (log ++ taken.toList ++ after) := by
  obtain ⟨added, equal⟩ := h
  refine ⟨added, ?_⟩
  rw [List.append_assoc, equal, List.append_assoc]

variable {step : σ → ε → σ → Prop} {takes : σ → ε → Option α}
  {allowed : σ → ε → Prop} {s : σ} {es : List ε} {l : Logged σ α}

/-- In a run whose steps serve the queue, the queue of the first state is the
beginning of what is taken followed by what still waits. -/
theorem prefix_of_steps (queue : σ → List α) (invariant : σ → Prop)
    (kept : ∀ s e s', invariant s → allowed s e → step s e s' → invariant s')
    (serves : ∀ s e s', invariant s → allowed s e → step s e s' →
      Serves (queue s) (takes s e) (queue s'))
    (start : invariant s)
    (run : Runs.Steps (fun l e => allowed l.state e) (Logged.Step step takes) ⟨s, []⟩ es l) :
    (queue s).IsPrefix (l.taken ++ queue l.state) := by
  have both : invariant l.state ∧ (queue s).IsPrefix (l.taken ++ queue l.state) := by
    refine run.preserves
      (fun l => invariant l.state ∧ (queue s).IsPrefix (l.taken ++ queue l.state))
      ?_ ⟨start, List.prefix_rfl⟩
    intro l e l' permitted taken before
    refine ⟨kept _ _ _ before.1 permitted taken.1, before.2.trans ?_⟩
    rw [taken.2]
    exact (serves _ _ _ before.1 permitted taken.1).preserved
  exact both.2

/-- Element `k` of the queue is the element taken at turn `k`. -/
theorem taken_of_prefix {fifo log rest : List α} {k : Nat} {a : α}
    (h : fifo.IsPrefix (log ++ rest)) (position : fifo[k]? = some a) (turn : k < log.length) :
    log[k]? = some a := by
  obtain ⟨tail, equal⟩ := h
  have inLine : k < fifo.length := (List.getElem?_eq_some_iff.mp position).1
  rw [← List.getElem?_append_left turn, ← equal,
    List.getElem?_append_left inLine, position]

end Fifo
