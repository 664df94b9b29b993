import Mathlib.Algebra.Order.Ring.Int
import Am335xKernel.Lib.Refinement
import Am335xKernel.Kernel.Interface

/-!
# System V semaphores: `ipc/sem.c`

An operation that has to sleep is put on the list of the array, and one on a single
semaphore also on the list of this semaphore. Whoever alters the array looks through the
lists for operations that can be completed now, if possible not at all: `do_smart_update`
picks the list of the semaphore where that is enough, `update_queue` stops at the first
operation that cannot succeed at zero, and `check_restart` tells whether the search has to
begin again after a completion.
-/

namespace Am335x.Sem

open Function

abbrev semvmx : ℤ := 32767

abbrev semaem : ℤ := semvmx

/-- `struct sembuf`, with the flags `IPC_NOWAIT` and `SEM_UNDO`. -/
structure Sembuf where
  semNum : ℕ
  semOp : ℤ
  nowait : Bool
  undo : Bool
  deriving DecidableEq

/-- `struct sem_queue`. The undo structure is the one of the list of undos of the process. In
the source it is NULL when there is no `SEM_UNDO`; then it is not looked at. -/
structure SemQueue where
  sleeper : ℕ
  undo : ℕ
  pid : ℤ
  sops : List Sembuf
  alter : Bool
  deriving DecidableEq

/-- `struct sem_array`, with the fields of the semaphores, and the adjustments of all undo
structures of the array. One that is not allocated yet has no adjustments. -/
structure SemArray where
  semNsems : ℕ
  semval : ℕ → ℤ
  sempid : ℕ → ℤ
  /-- `sem_pending` of the array -/
  semPending : List SemQueue
  /-- `sem_pending` of each semaphore -/
  simplePending : ℕ → List SemQueue
  complexCount : ℤ
  semOtime : ℤ
  semadj : ℕ → ℕ → Int16

def newary (nsems : ℕ) : SemArray where
  semNsems := nsems
  semval _ := 0
  sempid _ := 0
  semPending := []
  simplePending _ := []
  complexCount := 0
  semOtime := 0
  semadj _ _ := 0

/-- The checks of `try_atomic_semop`: 0 if the operation can be applied, or else the result. -/
def sopResult (sma : SemArray) (un : ℕ) (sop : Sembuf) : ℤ :=
  let result := sma.semval sop.semNum
  let wouldBlock : ℤ := if sop.nowait then eagain else 1
  if sop.semOp = 0 ∧ result ≠ 0 then wouldBlock
  else
    let result := result + sop.semOp
    if result < 0 then wouldBlock
    else if semvmx < result then erange
    else
      let undo := (sma.semadj un sop.semNum).toInt - sop.semOp
      if sop.undo ∧ (undo < -semaem - 1 ∨ semaem < undo) then erange else 0

def applySop (sma : SemArray) (sop : Sembuf) : SemArray :=
  { sma with
    semval := update sma.semval sop.semNum (sma.semval sop.semNum + sop.semOp) }

/-- The first loop of `try_atomic_semop`: the operations in front of `sop` have been applied,
the last one first. With those applied at the end, and 0 if it was all of them. -/
def applySops (un : ℕ) : SemArray → List Sembuf → List Sembuf → SemArray × List Sembuf × ℤ
  | sma, done, [] => (sma, done, 0)
  | sma, done, sop :: sops =>
    if sopResult sma un sop ≠ 0 then (sma, done, sopResult sma un sop)
    else applySops un (applySop sma sop) (sop :: done) sops

def finishSop (un : ℕ) (pid : ℤ) (sma : SemArray) (sop : Sembuf) : SemArray :=
  { sma with
    sempid := update sma.sempid sop.semNum pid
    semadj := if sop.undo then
        update sma.semadj un (update (sma.semadj un) sop.semNum
          (Int16.ofInt ((sma.semadj un sop.semNum).toInt - sop.semOp)))
      else sma.semadj }

/-- In the loop at `undo`. -/
def undoSop (sma : SemArray) (sop : Sembuf) : SemArray :=
  { sma with
    semval := update sma.semval sop.semNum (sma.semval sop.semNum - sop.semOp) }

/-- `try_atomic_semop`: all of the operations, or none. -/
def tryAtomicSemop (sma : SemArray) (sops : List Sembuf) (un : ℕ) (pid : ℤ) : SemArray × ℤ :=
  match applySops un sma [] sops with
  | (sma, done, result) =>
    if result = 0 then (done.foldl (finishSop un pid) sma, 0)
    else (done.foldl undoSop sma, result)

def unlinkQueue (sma : SemArray) (q : SemQueue) : SemArray :=
  let sma := { sma with semPending := sma.semPending.erase q }
  if q.sops.length = 1 then
    { sma with simplePending := fun n => (sma.simplePending n).erase q }
  else { sma with complexCount := sma.complexCount - 1 }

/-- `check_restart`. There is no result where a `BUG_ON` is hit. -/
def checkRestart (sma : SemArray) (q : SemQueue) : Option Bool :=
  if q.alter = false then some false
  else if sma.complexCount ≠ 0 then some true
  else if 1 < q.sops.length then some true
  else
    match q.sops with
    | [] => none
    | sop :: _ =>
      match sma.simplePending sop.semNum with
      | [] => some false
      | h :: _ =>
        if sma.semval sop.semNum ≠ 0 then
          if 0 ≤ sop.semOp then none else some false
        else
          match h.sops with
          | [hsop] => if hsop.semNum ≠ sop.semNum then none else some (decide (hsop.semOp = 0))
          | _ => none

/-- The list that `update_queue` walks through: the one of a semaphore, or of the array. -/
def SemArray.pendingList (sma : SemArray) : Option ℕ → List SemQueue
  | none => sma.semPending
  | some semnum => sma.simplePending semnum

/-- What `update_queue` works on: with the tasks that have to be woken up, each with its
return code, and whether an operation was completed. -/
structure Update where
  sma : SemArray
  tasks : List (SemQueue × ℤ)
  completed : Bool

def stopsAt (semnum : Option ℕ) (sma : SemArray) (q : SemQueue) : Bool :=
  match semnum with
  | none => false
  | some n => sma.semval n = 0 ∧ q.alter

/-- The loop of `update_queue` over what is left of the list, up to its end or to a `restart`. -/
def walk (semnum : Option ℕ) : List SemQueue → Update → Option (Update × Bool)
  | [], u => some (u, false)
  | q :: rest, u =>
    if stopsAt semnum u.sma q then some (u, false)
    else
      match tryAtomicSemop u.sma q.sops q.undo q.pid with
      | (sma, error) =>
        if 0 < error then walk semnum rest { u with sma := sma }
        else
          let sma := unlinkQueue sma q
          let tasks := u.tasks ++ [(q, error)]
          if error ≠ 0 then walk semnum rest { u with sma := sma, tasks := tasks }
          else
            match checkRestart sma q with
            | none => none
            | some true => some ({ sma := sma, tasks := tasks, completed := true }, true)
            | some false => walk semnum rest { sma := sma, tasks := tasks, completed := true }

/-- `update_queue` from `again` on; the first argument bounds the number of these. -/
def again (semnum : Option ℕ) : ℕ → Update → Option Update
  | 0, _ => none
  | fuel + 1, u =>
    match walk semnum (u.sma.pendingList semnum) u with
    | none => none
    | some (u, true) => again semnum fuel u
    | some (u, false) => some u

/-- `update_queue`; -1 is `none`. An operation is taken off the list before a restart. -/
def updateQueue (semnum : Option ℕ) (u : Update) : Option Update :=
  let semnum := if u.sma.complexCount ≠ 0 then none else semnum
  again semnum (u.sma.semPending.length + 1) u

/-- In the loop of `do_smart_update`: the list of a semaphore that has been altered. -/
def smartStep (u : Update) (sop : Sembuf) : Option Update :=
  if 0 < sop.semOp ∨ (sop.semOp < 0 ∧ u.sma.semval sop.semNum = 0) then
    updateQueue (some sop.semNum) u
  else some u

/-- In `do_smart_update`: the calls of `update_queue`. -/
def smartUpdate (sops : Option (List Sembuf)) (u : Update) : Option Update :=
  match sops with
  | none => updateQueue none u
  | some sops => if u.sma.complexCount ≠ 0 then updateQueue none u else sops.foldlM smartStep u

/-- `do_smart_update`, at the time `now`: with the tasks to be woken up. -/
def doSmartUpdate (sma : SemArray) (sops : Option (List Sembuf)) (otime : Bool) (now : ℤ) :
    Option (SemArray × List (SemQueue × ℤ)) :=
  (smartUpdate sops { sma := sma, tasks := [], completed := otime }).map fun u =>
    ({ u.sma with semOtime := if u.completed then now else u.sma.semOtime }, u.tasks)

structure Reply where
  error : Option ℤ
  tasks : List (SemQueue × ℤ)

/-- `list_add_tail` for what alters the array, `list_add` for what waits for zero. -/
def addQueue (l : List SemQueue) (q : SemQueue) : List SemQueue :=
  if q.alter then l ++ [q] else q :: l

/-- `semtimedop`: the operation is put on the lists. -/
def enqueue (sma : SemArray) (q : SemQueue) : SemArray :=
  let sma := { sma with semPending := addQueue sma.semPending q }
  match q.sops with
  | [sop] =>
    { sma with
      simplePending := update sma.simplePending sop.semNum
        (addQueue (sma.simplePending sop.semNum) q) }
  | _ => { sma with complexCount := sma.complexCount + 1 }

/-- `semtimedop` up to where the task sleeps, for a task with its list of undos. -/
def semtimedop (sma : SemArray) (task undo : ℕ) (pid : ℤ) (sops : List Sembuf) (now : ℤ) :
    Option (SemArray × Reply) :=
  if sops = [] then some (sma, ⟨some einval, []⟩)
  else
    let max := sops.foldl (fun max sop => if max ≤ sop.semNum then sop.semNum else max) 0
    let alter := sops.any fun sop => decide (sop.semOp ≠ 0)
    if sma.semNsems ≤ max then some (sma, ⟨some efbig, []⟩)
    else
      match tryAtomicSemop sma sops undo pid with
      | (sma, error) =>
        if error ≤ 0 then
          if alter ∧ error = 0 then
            (doSmartUpdate sma (some sops) true now).map fun r => (r.1, ⟨some 0, r.2⟩)
          else some (sma, ⟨some error, []⟩)
        else
          some (enqueue sma { sleeper := task, undo := undo, pid := pid, sops := sops
                              alter := alter }, ⟨none, []⟩)

/-- The end of `semtimedop` for a task that has not been woken up by anyone who altered the
array. -/
def interrupted (sma : SemArray) (task : ℕ) (error : ℤ) : SemArray × Reply :=
  match sma.semPending.find? fun q => decide (q.sleeper = task) with
  | none => (sma, ⟨none, []⟩)
  | some q => (unlinkQueue sma q, ⟨some error, []⟩)

def SemArray.setval (sma : SemArray) (semnum : ℕ) (val pid : ℤ) : SemArray :=
  { sma with
    semadj := fun un => update (sma.semadj un) semnum 0
    semval := update sma.semval semnum val
    sempid := update sma.sempid semnum pid }

/-- `SETVAL` in `semctl_main`. -/
def setval (sma : SemArray) (semnum val pid now : ℤ) : Option (SemArray × Reply) :=
  if semnum < 0 ∨ sma.semNsems ≤ semnum then some (sma, ⟨some einval, []⟩)
  else if semvmx < val ∨ val < 0 then some (sma, ⟨some erange, []⟩)
  else
    (doSmartUpdate (sma.setval semnum.toNat val pid) none false now).map fun r =>
      (r.1, ⟨some 0, r.2⟩)

def SemArray.setall (sma : SemArray) (semIo : ℕ → ℕ) : SemArray :=
  { sma with
    semval := fun i => if i < sma.semNsems then (semIo i : ℤ) else sma.semval i
    semadj := fun un i => if i < sma.semNsems then 0 else sma.semadj un i }

/-- `SETALL` in `semctl_main`. -/
def setall (sma : SemArray) (semIo : ℕ → ℕ) (now : ℤ) : Option (SemArray × Reply) :=
  if (List.range sma.semNsems).any fun i => decide (semvmx < semIo i) then
    some (sma, ⟨some erange, []⟩)
  else (doSmartUpdate (sma.setall semIo) none false now).map fun r => (r.1, ⟨some 0, r.2⟩)

/-- In `exit_sem`: the adjustment of a semaphore, capped at 0 and at `SEMVMX`. -/
def adjust (semval : ℤ) (semadj : Int16) : ℤ :=
  if semadj ≠ 0 then
    let semval := semval + semadj.toInt
    let semval := if semval < 0 then 0 else semval
    if semvmx < semval then semvmx else semval
  else semval

def SemArray.adjustAll (sma : SemArray) (undo : ℕ) (pid : ℤ) : SemArray :=
  { sma with
    semadj := update sma.semadj undo fun _ => 0
    semval := fun i =>
      if i < sma.semNsems then adjust (sma.semval i) (sma.semadj undo i) else sma.semval i
    sempid := fun i =>
      if i < sma.semNsems ∧ sma.semadj undo i ≠ 0 then pid else sma.sempid i }

/-- `exit_sem` for the undo structure of the array. -/
def exitSem (sma : SemArray) (undo : ℕ) (pid now : ℤ) : Option (SemArray × Reply) :=
  (doSmartUpdate (sma.adjustAll undo pid) none true now).map fun r => (r.1, ⟨some 0, r.2⟩)

inductive Call where
  | semtimedop (task undo : ℕ) (pid : ℤ) (sops : List Sembuf) (now : ℤ)
  | interrupted (task : ℕ) (error : ℤ)
  | setval (semnum val pid now : ℤ)
  | setall (semIo : ℕ → ℕ) (now : ℤ)
  | exitSem (undo : ℕ) (pid now : ℤ)

def call : Component SemArray Call Reply
  | sma, .semtimedop task undo pid sops now => semtimedop sma task undo pid sops now
  | sma, .interrupted task error => some (interrupted sma task error)
  | sma, .setval semnum val pid now => setval sma semnum val pid now
  | sma, .setall semIo now => setall sma semIo now
  | sma, .exitSem undo pid now => exitSem sma undo pid now

/-- A task that sleeps does not call `semtimedop`. -/
def Allowed (sma : SemArray) : Call → Prop
  | .semtimedop task _ _ _ _ => ∀ q ∈ sma.semPending, q.sleeper ≠ task
  | _ => True

end Am335x.Sem
