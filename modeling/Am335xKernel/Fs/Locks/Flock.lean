import Am335xKernel.Lib.CInt
import Am335xKernel.Fs.Locks.PosixLock

/-!
# From a request to a range: `flock_to_posix_lock` and `flock64_to_posix_lock`

Both compute the range of a request in the offsets of its structure, `off_t` or `loff_t`. A
position in the file has 64 bits, so in `off_t` it can be another one.
-/

namespace Am335x.Locks

/-- `struct flock` and `struct flock64`, whose offsets differ in their type -/
structure Flock where
  lType : ℤ
  lWhence : ℤ
  lStart : ℤ
  lLen : ℤ

/-- `assign_type`, of `F_RDLCK`, `F_WRLCK` and `F_UNLCK` -/
def assignType : ℤ → Option LockType
  | 0 => some .rdlck
  | 1 => some .wrlck
  | 2 => some .unlck
  | _ => none

/-- The end of both functions -/
def record (lType start last : ℤ) : Except ℤ (LockType × ℤ × ℤ) :=
  if last < start then .error eoverflow
  else match assignType lType with
  | some type => .ok (type, start, last)
  | none => .error einval

/-- The offsets fit into a type with `n` bits and a sign. -/
def Flock.Fits (l : Flock) (n : ℕ) : Prop :=
  -2 ^ n ≤ l.lStart ∧ l.lStart < 2 ^ n ∧ -2 ^ n ≤ l.lLen ∧ l.lLen < 2 ^ n

structure Wraps (conv : ℤ → ℤ) (n : ℕ) : Prop where
  add : ∀ x y, conv (conv x + y) = conv (x + y)
  same : ∀ x, -2 ^ n ≤ x → x < 2 ^ n → conv x = x
  neg : ∀ x, 2 ^ n ≤ x → x < 2 ^ n + 2 ^ n → conv x < 0

variable {conv : ℤ → ℤ} {n : ℕ} {fPos iSize : ℤ} {l : Flock}

end Am335x.Locks
