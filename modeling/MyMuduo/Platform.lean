import Mathlib.Algebra.Order.Ring.Nat
import MyMuduo.Lib.Range

/-! What the code takes from the platform: 64-bit `size_t` sums, `errno`, the
outcomes of `write` and `readv` on a nonblocking socket, and the ways a call
can fail to return. -/

namespace MyMuduo

abbrev Byte := UInt8

abbrev Errno := Int

abbrev Fd := Int

def EWOULDBLOCK : Errno := 11

def EPIPE : Errno := 32

def ECONNRESET : Errno := 104

/-- `outOfRange` is an access outside the vector's storage, `lengthError` the
exception of a `vector::resize` past `max_size`, `logFatal` the `exit(-1)` of
`LOG_FATAL`. -/
inductive Fault where
  | outOfRange
  | lengthError
  | logFatal
  deriving DecidableEq, Repr

def checked {α : Type} : Option α → Except Fault α
  | some a => .ok a
  | none => .error .outOfRange

@[simp] theorem checked_some {α : Type} (a : α) : checked (some a) = .ok a := rfl

@[simp] theorem ok_bind {α β : Type} (a : α) (f : α → Except Fault β) : (.ok a >>= f) = f a := rfl

@[simp] theorem error_bind {α β : Type} (e : Fault) (f : α → Except Fault β) :
    (.error e >>= f) = .error e := rfl

/-- Peels one call off a sequence of calls that returned. -/
theorem bind_eq_ok {α β : Type} {x : Except Fault α} {f : α → Except Fault β} {b : β} :
    x >>= f = .ok b ↔ ∃ a, x = .ok a ∧ f a = .ok b := by
  cases x with
  | error e => simp
  | ok a => simp

theorem exists_of_isOk {α : Type} {x : Except Fault α} (h : x.isOk = true) : ∃ a, x = .ok a := by
  cases x with
  | error e => cases h
  | ok a => exact ⟨a, rfl⟩

theorem toOption_eq_some {α : Type} {x : Except Fault α} {a : α} : x.toOption = some a ↔ x = .ok a := by
  cases x with
  | error e => simp [Except.toOption]
  | ok b => simp [Except.toOption]

@[irreducible] def szAdd (a b : Nat) : Nat := (a + b) % 2 ^ 64

@[irreducible] def szSub (a b : Nat) : Nat := if b ≤ a then a - b else 2 ^ 64 - (b - a)

theorem szAdd_eq {a b : Nat} (h : a + b < 2 ^ 64) : szAdd a b = a + b := by
  rw [szAdd, Nat.mod_eq_of_lt h]

theorem szSub_eq {a b : Nat} (h : b ≤ a) : szSub a b = a - b := by
  rw [szSub, if_pos h]

/-- `max_size()` of `std::vector<char>`, and the bound on any object in memory. -/
@[irreducible] def maxSize : Nat := 2 ^ 63 - 1

theorem maxSize_lt : maxSize < 2 ^ 63 := by decide +kernel

def vectorResize (v : List Byte) (n : Nat) : Except Fault (List Byte) :=
  if n ≤ maxSize then .ok (v.take n ++ List.replicate (n - v.length) 0) else .error .lengthError

/-- The kernel either has room for so many more bytes or refuses. The value
that `errno` holds afterwards is meaningful only when it refuses. -/
inductive WriteOutcome where
  | accepts (room : Nat) (errno : Errno)
  | fails (errno : Errno)
  deriving DecidableEq, Repr

/-- Result of `::write`: the return value, `errno`, and what the kernel took. -/
structure Written where
  n : Int
  errno : Errno
  sent : List Byte
  deriving DecidableEq, Repr

def sysWrite (data : List Byte) : WriteOutcome → Written
  | .accepts room e => ⟨min room data.length, e, data.take room⟩
  | .fails e => ⟨-1, e, []⟩

/-- The bytes the socket has ready (none at end of stream), or a failure. -/
inductive ReadOutcome where
  | data (available : List Byte)
  | fails (errno : Errno)
  deriving DecidableEq, Repr

theorem sysWrite_sent_prefix (data : List Byte) (k : WriteOutcome) : (sysWrite data k).sent <+: data := by
  cases k with
  | accepts room _ => exact List.take_prefix room data
  | fails _ => exact List.nil_prefix

/-- A count that is not negative is the number of bytes taken. -/
theorem sysWrite_length {data : List Byte} {k : WriteOutcome} (h : 0 ≤ (sysWrite data k).n) :
    (sysWrite data k).n = (sysWrite data k).sent.length := by
  cases k with
  | accepts room e =>
    simp only [sysWrite, List.length_take]
    omega
  | fails e => simp [sysWrite] at h

end MyMuduo
