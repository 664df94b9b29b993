import Am335xKernel.Lib.Refinement
import Am335xKernel.Lib.Runs
import Am335xKernel.Kernel.Interface

/-!
# POSIX locks: `__posix_lock_file` of `fs/locks.c`

The locks of an inode are a list. A request walks once through the locks of its owner: it
merges with those of its type, replaces those that it covers, and keeps in mind the ones that
stick out on the left and on the right. The walk changes the locks where they are, so locks
have addresses here, and `before` is the place between the locks that have been
passed and the rest.

The lists of waiters are not part of the model; what `posix_locks_deadlock` returns is given here
(see `Deadlock`).
-/

namespace Am335x.Locks

open Function

/-- `fl_type`. -/
inductive LockType where
  | rdlck
  | wrlck
  | unlck
  deriving DecidableEq

abbrev offsetMax : ℤ := 2 ^ 63 - 1

abbrev fileLockDeferred : ℤ := 1

/-- `struct file_lock`. The owner is what `posix_same_owner` compares; `posix` is `FL_POSIX`. -/
structure FileLock (ω : Type*) where
  flOwner : ω
  posix : Bool
  flType : LockType
  flStart : ℤ
  flEnd : ℤ
  deriving DecidableEq

/-- `FL_ACCESS`, `FL_SLEEP` and `FL_EXISTS` of a request. -/
structure Flags where
  access : Bool
  sleep : Bool
  exist : Bool
  deriving DecidableEq

/-- The locks of an inode. Addresses from `brk` on are not in use. -/
structure Inode (ω : Type*) where
  mem : ℕ → FileLock ω
  iFlock : List ℕ
  brk : ℕ

variable {ω : Type*} [DecidableEq ω]

def locksOverlap (fl1 fl2 : FileLock ω) : Bool :=
  decide (fl1.flEnd ≥ fl2.flStart) && decide (fl2.flEnd ≥ fl1.flStart)

def posixSameOwner (fl1 fl2 : FileLock ω) : Bool := decide (fl1.flOwner = fl2.flOwner)

def locksConflict (callerFl sysFl : FileLock ω) : Bool :=
  if sysFl.flType = .wrlck then true
  else if callerFl.flType = .wrlck then true
  else false

def posixLocksConflict (callerFl sysFl : FileLock ω) : Bool :=
  if !sysFl.posix || posixSameOwner callerFl sysFl then false
  else if !locksOverlap callerFl sysFl then false
  else locksConflict callerFl sysFl

/-- The variables of `__posix_lock_file`. -/
structure Walk (ω : Type*) where
  mem : ℕ → FileLock ω
  request : ℕ
  added : Bool
  left : Option ℕ
  right : Option ℕ
  /-- the locks in front of `before` -/
  passed : List ℕ

def unite (mem : ℕ → FileLock ω) (request fl : ℕ) : ℕ → FileLock ω :=
  let mem :=
    if (mem fl).flStart > (mem request).flStart then
      update mem fl { mem fl with flStart := (mem request).flStart }
    else update mem request { mem request with flStart := (mem fl).flStart }
  if (mem fl).flEnd < (mem request).flEnd then
    update mem fl { mem fl with flEnd := (mem request).flEnd }
  else update mem request { mem request with flEnd := (mem fl).flEnd }

/-- The loop over the locks of the owner: the rest of the list is the one at `before`. -/
def walk : Walk ω → List ℕ → Walk ω × List ℕ
  | w, [] => (w, [])
  | w, fl :: rest =>
    if posixSameOwner (w.mem w.request) (w.mem fl) then
      if (w.mem w.request).flType = (w.mem fl).flType then
        if (w.mem fl).flEnd < (w.mem w.request).flStart - 1 then
          walk { w with passed := w.passed ++ [fl] } rest
        else if (w.mem fl).flStart - 1 > (w.mem w.request).flEnd then (w, fl :: rest)
        else if w.added then walk { w with mem := unite w.mem w.request fl } rest
        else
          walk { w with mem := unite w.mem w.request fl, request := fl, added := true
                        passed := w.passed ++ [fl] } rest
      else
        if (w.mem fl).flEnd < (w.mem w.request).flStart then
          walk { w with passed := w.passed ++ [fl] } rest
        else if (w.mem fl).flStart > (w.mem w.request).flEnd then (w, fl :: rest)
        else
          let w := { w with
            added := w.added || decide ((w.mem w.request).flType = .unlck)
            left := if (w.mem fl).flStart < (w.mem w.request).flStart then some fl else w.left }
          if (w.mem fl).flEnd > (w.mem w.request).flEnd then
            ({ w with right := some fl }, fl :: rest)
          else if (w.mem fl).flStart ≥ (w.mem w.request).flStart then
            if w.added then walk w rest
            else
              -- the old lock is replaced with the new one
              let mem := update w.mem fl
                { w.mem fl with
                  flStart := (w.mem w.request).flStart
                  flEnd := (w.mem w.request).flEnd
                  flType := (w.mem w.request).flType }
              walk { w with mem := mem, request := fl, added := true
                            passed := w.passed ++ [fl] } rest
          else walk { w with passed := w.passed ++ [fl] } rest
    else (w, fl :: rest)

/-- A new lock at `before`. -/
def insertNew (w : Walk ω) (rest : List ℕ) (newFl : ℕ) : Walk ω × List ℕ :=
  if w.added then (w, rest)
  else ({ w with mem := update w.mem newFl (w.mem w.request) }, newFl :: rest)

def trimRight (w : Walk ω) (rest : List ℕ) (newFl2 : ℕ) : Walk ω × List ℕ :=
  match w.right with
  | none => (w, rest)
  | some right =>
    let (w, rest) :=
      if w.left = some right then
        ({ w with left := some newFl2, mem := update w.mem newFl2 (w.mem right) },
          newFl2 :: rest)
      else (w, rest)
    let fl := { w.mem right with flStart := (w.mem w.request).flEnd + 1 }
    ({ w with mem := update w.mem right fl }, rest)

def trimLeft (w : Walk ω) : ℕ → FileLock ω :=
  match w.left with
  | none => w.mem
  | some left =>
    update w.mem left { w.mem left with flEnd := (w.mem w.request).flStart - 1 }

def install (w : Walk ω) (rest : List ℕ) (newFl newFl2 : ℕ) : (ℕ → FileLock ω) × List ℕ :=
  let (w, rest) := insertNew w rest newFl
  let (w, rest) := trimRight w rest newFl2
  (trimLeft w, w.passed ++ rest)

/-- The end of `__posix_lock_file`: new locks are inserted if memory has been found. -/
def finish (w : Walk ω) (rest : List ℕ) (exist : Bool) (newFl newFl2 : Option ℕ) :
    (ℕ → FileLock ω) × List ℕ × ℤ :=
  if w.right ≠ none ∧ w.left = w.right ∧ newFl2 = none then (w.mem, w.passed ++ rest, enolck)
  else if w.added = false ∧ (w.mem w.request).flType = .unlck then
    (w.mem, w.passed ++ rest, if exist then enoent else 0)
  else if w.added = false ∧ newFl = none then (w.mem, w.passed ++ rest, enolck)
  else
    let (mem, iFlock) := install w rest (newFl.getD 0) (newFl2.getD 0)
    (mem, iFlock, 0)

structure Reply (ω : Type*) where
  error : ℤ
  conflock : Option (FileLock ω)

/-- A request to `__posix_lock_file`: with what the two allocations and the search for deadlocks
give. -/
structure Request (ω : Type*) where
  lock : FileLock ω
  flags : Flags
  mem : Bool
  mem2 : Bool
  deadlock : Bool

def newLock (r : Request ω) (found : Bool) (addr : ℕ) : Option ℕ :=
  if !r.flags.access && (decide (r.lock.flType ≠ .unlck) || decide (r.lock.flStart ≠ 0) ||
      decide (r.lock.flEnd ≠ offsetMax)) then
    if found then some addr else none
  else none

def conflict (inode : Inode ω) (request : FileLock ω) : Option ℕ :=
  if request.flType ≠ .unlck then
    inode.iFlock.find? fun fl => (inode.mem fl).posix && posixLocksConflict request (inode.mem fl)
  else none

def posixLockFile (inode : Inode ω) (r : Request ω) : Inode ω × Reply ω :=
  let newFl := newLock r r.mem (inode.brk + 1)
  let newFl2 := newLock r r.mem2 (inode.brk + 2)
  match conflict inode r.lock with
  | some fl =>
    let error :=
      if r.flags.sleep = false then eagain else if r.deadlock then edeadlk else fileLockDeferred
    (inode, { error := error, conflock := some (inode.mem fl) })
  | none =>
    if r.flags.access then (inode, { error := 0, conflock := none })
    else
      let mem := update inode.mem inode.brk r.lock
      let other := fun fl => !(mem fl).posix || !posixSameOwner r.lock (mem fl)
      let w : Walk ω := { mem := mem, request := inode.brk, added := false, left := none
                          right := none, passed := inode.iFlock.takeWhile other }
      let (w, rest) := walk w (inode.iFlock.dropWhile other)
      match finish w rest r.flags.exist newFl newFl2 with
      | (mem, iFlock, error) =>
        ({ mem := mem, iFlock := iFlock, brk := inode.brk + 3 },
          { error := error, conflock := none })

def call : Component (Inode ω) (Request ω) (Reply ω) := fun inode r => some (posixLockFile inode r)

end Am335x.Locks
