import Mathlib.Tactic

/-! What both halves of the muxer take from the standard library: poll results,
wakers and I/O errors. -/
namespace VtMuxer

inductive Poll (α : Type) where
  | ready (a : α)
  | pending
  deriving DecidableEq, Repr

/-- A waker is known by the task it wakes; `Waker::noop()` wakes nobody. -/
inductive Waker where
  | noop
  | task (id : ℕ)
  deriving DecidableEq, Repr

inductive ErrorKind where
  | addrInUse
  | brokenPipe
  | other
  | outOfMemory
  | unexpectedEof
  | writeZero
  /-- Any kind reported by the operating system. -/
  | os (code : ℕ)
  deriving DecidableEq, Repr

structure IoError where
  kind : ErrorKind
  message : String
  deriving DecidableEq, Repr

/-- `io::Error::from(kind)`, which carries no message of its own. -/
def IoError.ofKind (kind : ErrorKind) : IoError := ⟨kind, ""⟩

end VtMuxer
