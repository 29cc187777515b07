import OsDesign.Benchmark.VectorMultiply

/-!
The mutex of the library against an ideal lock. A thread that finds the mutex taken leaves
the processor inside `pthread_mutex_lock` and goes on behind it when the mutex is handed
over; under the ideal lock it makes its lock only then.
-/
namespace OsDesign.Benchmark

open Virt Pthread Code LockedSum

variable {κ ν σ : Type} [DecidableEq κ] [AddCommMonoid ν] {P : Program κ ν σ}
  {o : Outline P.code P.acc} {main t t' : ThreadId} {c₀ c : Client κ ν σ} {n n' : Nat}
  {s s' : σ} {memory : κ → ν} {es : List Turn}

end OsDesign.Benchmark
