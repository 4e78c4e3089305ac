/-!
# Programs over a buffer

The amplitudes are updated in place, by programs that read and write one place after the
other. Such a program is kept apart from its run: it is a tree of accesses, and what it reads
decides how it goes on. So one and the same program tells what it makes of a buffer and which
places it touches on the way, in which order.

A place outside of the buffer is a fault of the program. `Kernel.checked` is the run that
looks at each index and stops there. `Kernel.run` does not look: it reads zero there and
writes nothing, and gives the same wherever there is no fault.

## Main definitions

* `Buffer`: The amplitudes.
* `Access`: A place that is read or written.
* `Kernel`: A program of accesses.
* `Kernel.run`: What it answers, and the buffer after it.
* `Kernel.checked`: The same, unless there is an access outside of the buffer.
* `Kernel.accesses`: The accesses in order.
-/

namespace QubitLab

/-- The amplitudes of the basis states, by index. -/
abbrev Buffer (K : Type) := Array K

/-- The amplitude at an index. -/
def Buffer.amplitude {K : Type} [Zero K] (s : Buffer K) (i : Nat) : K := s.getD i 0

/-- A place of a buffer that is read or written. -/
inductive Access where
  /-- The amplitude at an index is read. -/
  | read (i : Nat)
  /-- The amplitude at an index is written. -/
  | write (i : Nat)
deriving DecidableEq, Repr

/-- The index of the place. -/
def Access.index : Access → Nat
  | read i => i
  | write i => i

/-- A program that accesses a buffer and then answers. -/
inductive Kernel (K α : Type) where
  /-- Nothing more is accessed. -/
  | done (answer : α)
  /-- An amplitude is read, and the rest depends on it. -/
  | read (i : Nat) (next : K → Kernel K α)
  /-- An amplitude is written. -/
  | write (i : Nat) (value : K) (next : Kernel K α)

namespace Kernel

variable {K α β : Type}

/-- One program after another. -/
def andThen : Kernel K α → (α → Kernel K β) → Kernel K β
  | done answer, f => f answer
  | read i next, f => read i fun value => (next value).andThen f
  | write i value next, f => write i value (next.andThen f)

instance : Monad (Kernel K) where
  pure := done
  bind := andThen

/-- The program that reads an amplitude. -/
def get (i : Nat) : Kernel K K := read i done

/-- The program that writes an amplitude. -/
def set (i : Nat) (value : K) : Kernel K Unit := write i value (done ())

/-- The program that reads several amplitudes. -/
def getAll : List Nat → Kernel K (List K)
  | [] => return []
  | i :: rest => do
    let value ← get i
    let values ← getAll rest
    return value :: values

/-- The answer of a program and the buffer after it. -/
def run [Zero K] : Kernel K α → Buffer K → α × Buffer K
  | done answer, s => (answer, s)
  | read i next, s => (next (s.amplitude i)).run s
  | write i value next, s => next.run (s.setIfInBounds i value)

/-- The buffer after a program. -/
def after [Zero K] (p : Kernel K α) (s : Buffer K) : Buffer K := (p.run s).2

/-- The answer of a program and the buffer after it, if every access is inside of the
    buffer. -/
def checked : Kernel K α → Buffer K → Option (α × Buffer K)
  | done answer, s => some (answer, s)
  | read i next, s => if h : i < s.size then (next s[i]).checked s else none
  | write i value next, s => if h : i < s.size then next.checked (s.set i value h) else none

/-- The accesses of a program in order, those outside of the buffer as well. -/
def accesses [Zero K] : Kernel K α → Buffer K → List Access
  | done _, _ => []
  | read i next, s => .read i :: (next (s.amplitude i)).accesses s
  | write i value next, s => .write i :: next.accesses (s.setIfInBounds i value)

end Kernel

end QubitLab
