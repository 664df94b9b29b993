import Mathlib.Algebra.Group.Nat.Defs

/-!
# The kernel as its drivers see it

What the drivers of this tree share: error codes, `struct timer_list` and the
text helpers behind sysfs attributes.

A timer is modelled at the level of its interface: whether it is pending and
the `jiffies` value it expires at. `init_timer` clears the list linkage
without looking at it, and `add_timer` begins with
`BUG_ON(timer_pending(timer))`; either is wrong on a pending timer, and the
field `misused` remembers that it happened. On a uniprocessor
`del_timer_sync` is `del_timer`.

The buffer a `store` function receives is a page, zero behind its text: it is
the list of the characters before the first NUL.
-/

namespace Am335x

/-! The error codes, as they are returned. -/

abbrev enoent : ℤ := -2
abbrev eagain : ℤ := -11
abbrev enomem : ℤ := -12
abbrev ebusy : ℤ := -16
abbrev eexist : ℤ := -17
abbrev einval : ℤ := -22
abbrev enotty : ℤ := -25
abbrev efbig : ℤ := -27
abbrev enospc : ℤ := -28
abbrev erange : ℤ := -34
abbrev edeadlk : ℤ := -35
abbrev enolck : ℤ := -37
abbrev eoverflow : ℤ := -75

/-- `HZ`, as `am335x_evm_defconfig` sets it. -/
def hz : ℕ := 100

structure TimerList where
  pending : Bool
  expires : ℕ
  misused : Bool
  deriving DecidableEq

namespace TimerList

def zero : TimerList := { pending := false, expires := 0, misused := false }

def init (t : TimerList) : TimerList :=
  { t with pending := false, misused := t.misused || t.pending }

def add (t : TimerList) : TimerList :=
  { t with pending := true, misused := t.misused || t.pending }

def del (t : TimerList) : TimerList := { t with pending := false }

def detach (t : TimerList) : TimerList := { t with pending := false }

section

variable (t : TimerList)

@[simp] lemma init_pending : t.init.pending = false := rfl
@[simp] lemma add_pending : t.add.pending = true := rfl
@[simp] lemma del_pending : t.del.pending = false := rfl
@[simp] lemma detach_pending : t.detach.pending = false := rfl
@[simp] lemma add_expires : t.add.expires = t.expires := rfl
@[simp] lemma del_misused : t.del.misused = t.misused := rfl
@[simp] lemma detach_misused : t.detach.misused = t.misused := rfl
@[simp] lemma init_misused : t.init.misused = (t.misused || t.pending) := rfl
@[simp] lemma add_misused : t.add.misused = (t.misused || t.pending) := rfl

end

end TimerList

/-- `sysfs_streq`: equality up to one trailing newline. -/
def sysfsStreq : List Char → List Char → Bool
  | [], [] => true
  | [], c :: s => c = '\n' && s.isEmpty
  | c :: s, [] => c = '\n' && s.isEmpty
  | c :: s, d :: t => if c = d then sysfsStreq s t else false

/-- `_parse_integer` at base 10, on `unsigned long long`. -/
def parseInteger (res : ℕ) : List Char → ℕ × List Char
  | [] => (res, [])
  | c :: s =>
    if '0' ≤ c ∧ c ≤ '9' then
      parseInteger ((res * 10 + (c.toNat - '0'.toNat)) % 2 ^ 64) s
    else (res, c :: s)

/-- `simple_strtoul(cp, endp, 10)`: the value, truncated to `unsigned long`,
and the text at `endp`. -/
def simpleStrtoul (s : List Char) : ℕ × List Char :=
  let r := parseInteger 0 s
  (r.1 % 2 ^ 32, r.2)

end Am335x
