import Mathlib.Algebra.Order.Ring.Int
import Am335xKernel.Lib.Refinement
import Am335xKernel.Lib.Buckets

/-!
# The timer wheel: `kernel/timer.c`

A base of timers has five vectors of lists, `tv1` to `tv5`; here these are the levels 0 to 4. A
timer is put on a list by the bits of the time when it expires, on a level by how far away that
is. `__run_timers` goes through the ticks one by one: it cascades the lists whose time has come,
and calls the functions of the timers on the list of the tick.

The lock of the base is not held while a function is called, so timers can be added and deleted
then, as well as between the runs. `Pc` says where `__run_timers` is, and every call of `step` takes
it to the next place; ticks of `jiffies` may come at any time.

`unsigned long` has 32 bits. There is one base, as the board has one CPU. The statistics and the
checks of `debugobjects` are left out; what the function of a timer does is given by the calls that
are made while it runs.
-/

namespace Am335x.Timer

open Function

abbrev tvnBits : ℕ := 6
abbrev tvrBits : ℕ := 8
abbrev tvnSize : ℕ := 2 ^ tvnBits
abbrev tvrSize : ℕ := 2 ^ tvrBits
abbrev tvnMask : ℕ := tvnSize - 1
abbrev tvrMask : ℕ := tvrSize - 1

abbrev nextTimerMaxDelta : ℕ := 2 ^ 30 - 1

/-- `a - b` of two numbers of type `unsigned long`. -/
def diff (a b : ℕ) : ℕ := (a + (2 ^ 32 - b)) % 2 ^ 32

/-- `a + b` of two numbers of type `unsigned long`. -/
def plus (a b : ℕ) : ℕ := (a + b) % 2 ^ 32

/-- A difference of type `long` is not negative. -/
def timeAfterEq (a b : ℕ) : Bool := decide (diff a b < 2 ^ 31)

def timeBeforeEq (a b : ℕ) : Bool := timeAfterEq b a

def timeBefore (a b : ℕ) : Bool := !timeAfterEq a b

def timeAfter (a b : ℕ) : Bool := timeBefore b a

/-- Where a timer can be: on a list of a vector, or on the work list of `__run_timers`. -/
inductive Place where
  | tv (level index : ℕ)
  | work
  deriving DecidableEq

/-- `struct timer_list`. A timer is pending while it is on a list. -/
structure TimerList where
  expires : ℕ
  deferrable : Bool
  slack : ℤ
  pending : Bool

/-- Where `__run_timers` is: not running, in front of the outer loop, in front of the inner loop, or
in the function of a timer. -/
inductive Pc where
  | idle
  | outer
  | inner
  | callback
  deriving DecidableEq

/-- `struct tvec_base`, with `jiffies`. -/
structure Base where
  jiffies : ℕ
  timerJiffies : ℕ
  nextTimer : ℕ
  vec : Place → List ℕ
  timer : ℕ → TimerList
  pc : Pc

/-- `INDEX`, of the time of a base or of a timer. -/
def index (time n : ℕ) : ℕ := time >>> (tvrBits + n * tvnBits) &&& tvnMask

/-- The list that `internal_add_timer` takes. With 32 bits no timeout is too large. -/
def listFor (timerJiffies expires : ℕ) : Place :=
  let idx := diff expires timerJiffies
  if idx < tvrSize then .tv 0 (expires &&& tvrMask)
  else if idx < 1 <<< (tvrBits + tvnBits) then .tv 1 (index expires 0)
  else if idx < 1 <<< (tvrBits + 2 * tvnBits) then .tv 2 (index expires 1)
  else if idx < 1 <<< (tvrBits + 3 * tvnBits) then .tv 3 (index expires 2)
  else if idx ≥ 2 ^ 31 then
    -- a time in the past
    .tv 0 (timerJiffies &&& tvrMask)
  else .tv 4 (index expires 3)

def internalAddTimer (base : Base) (id : ℕ) : Base :=
  { base with
    vec := Buckets.push base.vec (listFor base.timerJiffies (base.timer id).expires) id }

def detachTimer (base : Base) (id : ℕ) (clearPending : Bool) : Base :=
  { base with
    vec := Buckets.drop base.vec id
    timer := if clearPending then
        update base.timer id { base.timer id with pending := false }
      else base.timer }

def forgetNext (base : Base) (id : ℕ) : Base :=
  if (base.timer id).expires = base.nextTimer ∧ (base.timer id).deferrable = false then
    { base with nextTimer := base.timerJiffies }
  else base

/-- The end of `__mod_timer`: a timer that is not on a list is put on one. -/
def startTimer (base : Base) (id expires : ℕ) : Base :=
  let base := { base with
    timer := update base.timer id
      { base.timer id with expires := expires, pending := true } }
  let base :=
    if timeBefore expires base.nextTimer ∧ (base.timer id).deferrable = false then
      { base with nextTimer := expires }
    else base
  internalAddTimer base id

/-- `__mod_timer`. -/
def internalModTimer (base : Base) (id expires : ℕ) (pendingOnly : Bool) : Base × ℕ :=
  if (base.timer id).pending then
    (startTimer (forgetNext (detachTimer base id false) id) id expires, 1)
  else if pendingOnly then (base, 0)
  else (startTimer base id expires, 0)

/-- The end of `apply_slack`: the limit, without the bits below the highest one that is not that of
`expires`. -/
def roundSlack (expires expiresLimit : ℕ) : ℕ :=
  let mask := expires ^^^ expiresLimit
  if mask = 0 then expires
  else
    let bit := Nat.log2 mask
    expiresLimit / 2 ^ bit * 2 ^ bit

def applySlack (slack : ℤ) (jiffies expires : ℕ) : ℕ :=
  if slack ≥ 0 then roundSlack expires (plus expires slack.toNat)
  else if timeAfterEq expires jiffies = false ∨ diff expires jiffies < 256 then expires
  else roundSlack expires (plus expires (diff expires jiffies / 256))

def modTimer (base : Base) (id expires : ℕ) : Base × ℕ :=
  let expires := applySlack (base.timer id).slack base.jiffies expires
  if (base.timer id).pending ∧ (base.timer id).expires = expires then (base, 1)
  else internalModTimer base id expires false

def modTimerPending (base : Base) (id expires : ℕ) : Base × ℕ :=
  internalModTimer base id expires true

/-- `add_timer`, for a timer whose `expires` has been set. -/
def addTimer (base : Base) (id expires : ℕ) : Option (Base × ℕ) :=
  if (base.timer id).pending then none else some (modTimer base id expires)

def delTimer (base : Base) (id : ℕ) : Base × ℕ :=
  if (base.timer id).pending then (forgetNext (detachTimer base id true) id, 1) else (base, 0)

def cascade (base : Base) (level index : ℕ) : Base :=
  (base.vec (.tv level index)).foldl internalAddTimer
    { base with vec := update base.vec (.tv level index) [] }

/-- The condition in `__run_timers` that cascades: a vector only if the index of the one below has
come to zero. -/
def cascadeAll (base : Base) : Base :=
  let t := base.timerJiffies
  if t &&& tvrMask ≠ 0 then base
  else
    let base := cascade base 1 (index t 0)
    if index t 0 ≠ 0 then base
    else
      let base := cascade base 2 (index t 1)
      if index t 1 ≠ 0 then base
      else
        let base := cascade base 3 (index t 2)
        if index t 2 ≠ 0 then base else cascade base 4 (index t 3)

/-- The outer loop of `__run_timers`, up to the inner one. -/
def iteration (base : Base) : Base :=
  let i := base.timerJiffies &&& tvrMask
  let base := cascadeAll base
  { base with
    timerJiffies := plus base.timerJiffies 1
    vec := Buckets.move base.vec (.tv 0 i) .work
    pc := .inner }

section

variable (base : Base)

def candidates (p : Place) : List ℕ := (base.vec p).filter fun id => !(base.timer id).deferrable

/-- The search in `tv1`: the first timer, and the slot it is in. -/
def findFirst (index : ℕ) : ℕ → ℕ → Option (ℕ × ℕ)
  | 0, _ => none
  | fuel + 1, slot =>
    match candidates base (.tv 0 slot) with
    | id :: _ => some (slot, (base.timer id).expires)
    | [] =>
      let slot := (slot + 1) &&& tvrMask
      if slot = index then none else findFirst index fuel slot

def earliest (p : Place) (expires : ℕ) : ℕ :=
  (candidates base p).foldl
    (fun expires id =>
      if timeBefore (base.timer id).expires expires then (base.timer id).expires else expires)
    expires

/-- How a search on one of the levels ends: `return`, or go on with the next level. -/
inductive Search where
  | stop (expires : ℕ)
  | next (found : Bool) (expires : ℕ)

def search (level index : ℕ) (found : Bool) (expires : ℕ) : ℕ → ℕ → Search
  | 0, _ => .next found expires
  | fuel + 1, slot =>
    let p := Place.tv level slot
    let found := found || !(candidates base p).isEmpty
    let expires := earliest base p expires
    if found then
      if index = 0 ∨ slot < index then .next found expires else .stop expires
    else
      let slot := (slot + 1) &&& tvnMask
      if slot = index then .next found expires else search level index found expires fuel slot

/-- The loop over `varray`. -/
def searchUp (found : Bool) (expires timerJiffies : ℕ) : ℕ → ℕ → ℕ
  | 0, _ => expires
  | k + 1, level =>
    let index := timerJiffies &&& tvnMask
    match search base level index found expires tvnSize index with
    | .stop expires => expires
    | .next found expires =>
      let timerJiffies :=
        if index ≠ 0 then plus timerJiffies (tvnSize - index) else timerJiffies
      searchUp found expires (timerJiffies >>> tvnBits) k (level + 1)

def nextTimerInterrupt : ℕ :=
  let timerJiffies := base.timerJiffies
  let index := timerJiffies &&& tvrMask
  let up (found : Bool) (expires : ℕ) : ℕ :=
    let timerJiffies := if index ≠ 0 then plus timerJiffies (tvrSize - index) else timerJiffies
    searchUp base found expires (timerJiffies >>> tvrBits) 4 1
  match findFirst base index tvrSize index with
  | some (slot, expires) => if index = 0 ∨ slot < index then up true expires else expires
  | none => up false (plus timerJiffies nextTimerMaxDelta)

end

/-- `get_next_timer_interrupt`, as far as it looks at the wheel. -/
def getNextTimerInterrupt (base : Base) : Base × ℕ :=
  let base :=
    if timeBeforeEq base.nextTimer base.timerJiffies then
      { base with nextTimer := nextTimerInterrupt base }
    else base
  (base, base.nextTimer)

inductive Op where
  | modTimer (id expires : ℕ)
  | modTimerPending (id expires : ℕ)
  | addTimer (id expires : ℕ)
  | delTimer (id : ℕ)
  | tick
  | runTimers
  | step
  | nextInterrupt
  deriving DecidableEq

/-- What comes of a call. `__run_timers` starts an iteration or is finished, calls the function of
a timer, which returns, and has no more timers for the iteration. -/
inductive Reply where
  | ret (n : ℕ)
  | done
  | iteration
  | finished
  | called (id : ℕ)
  | returned
  | drained
  deriving DecidableEq

/-- One step of `__run_timers`. -/
def runStep (base : Base) : Option (Base × Reply) :=
  match base.pc with
  | .idle => none
  | .outer =>
    if timeAfterEq base.jiffies base.timerJiffies then some (iteration base, .iteration)
    else some ({ base with pc := .idle }, .finished)
  | .inner =>
    match base.vec .work with
    | [] => some ({ base with pc := .outer }, .drained)
    | id :: _ => some ({ detachTimer base id true with pc := .callback }, .called id)
  | .callback => some ({ base with pc := .inner }, .returned)

def Pc.unlocked (pc : Pc) : Bool := decide (pc = .idle ∨ pc = .callback)

def call : Component Base Op Reply := fun base op =>
  let ret (p : Base × ℕ) : Base × Reply := (p.1, .ret p.2)
  match op with
  | .modTimer id expires =>
    if base.pc.unlocked then some (ret (modTimer base id expires)) else none
  | .modTimerPending id expires =>
    if base.pc.unlocked then some (ret (modTimerPending base id expires)) else none
  | .addTimer id expires =>
    if base.pc.unlocked then (addTimer base id expires).map ret else none
  | .delTimer id => if base.pc.unlocked then some (ret (delTimer base id)) else none
  | .tick => some ({ base with jiffies := plus base.jiffies 1 }, .done)
  | .runTimers => if base.pc = .idle then some ({ base with pc := .outer }, .done) else none
  | .step => runStep base
  | .nextInterrupt => if base.pc = .idle then some (ret (getNextTimerInterrupt base)) else none

/-- `init_timers_cpu`: a base with no timers. -/
def init (jiffies : ℕ) (timer : ℕ → TimerList) : Base where
  jiffies := jiffies % 2 ^ 32
  timerJiffies := jiffies % 2 ^ 32
  nextTimer := jiffies % 2 ^ 32
  vec _ := []
  timer id := { timer id with pending := false }
  pc := .idle

end Am335x.Timer
