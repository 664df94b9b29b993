import Am335xKernel.Fs.Locks.PosixLock
import Am335xKernel.Lib.Machine
import Mathlib.Data.List.Nodup

/-!
# The search for deadlocks: `posix_locks_deadlock` of `fs/locks.c`

A request that has to wait is put on `blocked_list`. Before that, the waits are followed from
the owner of the lock in its way, and the request is refused if they lead back to the caller.
The search gives up after `MAX_DEADLK_ITERATIONS`: it finds every cycle exactly as long as no
request closes one with a longer chain of waits.
-/

namespace Am335x.Locks.Deadlock

open Function List

/-- A lock on `blocked_list`. Of the lock that `fl_next` points to only the owner is read, which
is the same as long as that lock is there. -/
structure Waiter (ω : Type*) where
  fl : FileLock ω
  flNext : FileLock ω

abbrev maxDeadlkIterations : ℕ := 10

structure Waits (ι ω : Type*) where
  inodes : ι → Inode ω
  blockedList : List (Waiter ω)

/-- A call of `__posix_lock_file`, or the end of the wait of an owner (`__locks_delete_block`),
which can come at any time. -/
inductive Event (ι ω : Type*) where
  | request (i : ι) (r : Request ω)
  | wake (o : ω)

variable {ι ω : Type*}

/-! ### Chains of waits -/

/-- From `a` one comes to `b` by `n` waits. -/
def Chain (l : List (Waiter ω)) : ℕ → ω → ω → Prop
  | 0, a, b => a = b
  | n + 1, a, b => ∃ w ∈ l, w.fl.flOwner = a ∧ Chain l n w.flNext.flOwner b

def Acyclic (l : List (Waiter ω)) : Prop := ∀ a n, ¬ Chain l (n + 1) a a

variable {l l' : List (Waiter ω)} {w : Waiter ω} {m n : ℕ} {a b c : ω}

lemma Chain.add (h : Chain l m a b) (h' : Chain l n b c) : Chain l (m + n) a c := by
  induction m generalizing a with
  | zero =>
    obtain rfl : a = b := h
    rw [Nat.zero_add]
    exact h'
  | succ m ih =>
    obtain ⟨w, hw, ha, h⟩ := h
    rw [Nat.succ_add]
    exact ⟨w, hw, ha, ih h⟩

lemma Chain.mono (hl : l ⊆ l') (h : Chain l n a b) : Chain l' n a b := by
  induction n generalizing a with
  | zero => exact h
  | succ n ih =>
    obtain ⟨w, hw, ha, h⟩ := h
    exact ⟨w, hl hw, ha, ih h⟩

lemma Chain.of_cons (h : Chain (w :: l) n a b) :
    Chain l n a b ∨ (∃ m, Chain l m a w.fl.flOwner) ∧ ∃ m, Chain l m w.flNext.flOwner b := by
  induction n generalizing a with
  | zero => exact .inl h
  | succ n ih =>
    obtain ⟨v, hv, ha, h⟩ := h
    rcases mem_cons.mp hv with rfl | hv
    · refine .inr ⟨⟨0, ha.symm⟩, ?_⟩
      rcases ih h with h | ⟨-, h⟩
      · exact ⟨n, h⟩
      · exact h
    · rcases ih h with h | ⟨⟨m, h⟩, hb⟩
      · exact .inl ⟨v, hv, ha, h⟩
      · exact .inr ⟨⟨m + 1, v, hv, ha, h⟩, hb⟩

lemma Acyclic.cons (h : Acyclic l) (hw : ∀ n, ¬ Chain l n w.flNext.flOwner w.fl.flOwner) :
    Acyclic (w :: l) := by
  intro a n hcycle
  rcases hcycle.of_cons with hold | ⟨⟨m, hto⟩, k, hfrom⟩
  · exact h a n hold
  · exact hw _ (hfrom.add hto)

variable [DecidableEq ω]

instance Chain.decidable (l : List (Waiter ω)) : ∀ n a b, Decidable (Chain l n a b)
  | 0, a, b => inferInstanceAs (Decidable (a = b))
  | n + 1, a, b =>
    have := fun w : Waiter ω => decidable l n w.flNext.flOwner b
    inferInstanceAs (Decidable (∃ w ∈ l, w.fl.flOwner = a ∧ Chain l n w.flNext.flOwner b))

/-! ### The search -/

section

variable (blockedList : List (Waiter ω)) (callerFl : FileLock ω)

def whatOwnerIsWaitingFor (blockFl : FileLock ω) : Option (FileLock ω) :=
  (blockedList.find? fun w => posixSameOwner w.fl blockFl).map Waiter.flNext

/-- The loop, with the number of locks that it may still compare. -/
def search : ℕ → FileLock ω → Bool
  | 0, _ => false
  | left + 1, blockFl =>
    match whatOwnerIsWaitingFor blockedList blockFl with
    | none => false
    | some fl => if posixSameOwner callerFl fl then true else search left fl

def posixLocksDeadlock (blockFl : FileLock ω) : Bool :=
  -- `i` is 0, …, `MAX_DEADLK_ITERATIONS` when owners are compared
  search blockedList callerFl (maxDeadlkIterations + 1) blockFl

end

/-- The lock that a request with `FL_SLEEP` has to wait for. -/
def Waits.blocker (s : Waits ι ω) (i : ι) (r : Request ω) : Option (FileLock ω) :=
  if r.flags.sleep then (conflict (s.inodes i) r.lock).map (s.inodes i).mem else none

def Waits.call (s : Waits ι ω) (i : ι) (r : Request ω) : Inode ω × Reply ω :=
  posixLockFile (s.inodes i)
    { r with deadlock := (s.blocker i r).any (posixLocksDeadlock s.blockedList r.lock) }

def machine [DecidableEq ι] (inodes : ι → Inode ω) : Machine (Waits ι ω) (Event ι ω) where
  init := ⟨inodes, []⟩
  step s
    | .request i r =>
      -- who waits makes no requests
      if ∃ w ∈ s.blockedList, w.fl.flOwner = r.lock.flOwner then none
      else
        let (inode, reply) := s.call i r
        let waiters := if reply.error = fileLockDeferred then (s.blocker i r).toList else []
        some ⟨update s.inodes i inode, waiters.map (Waiter.mk r.lock) ++ s.blockedList⟩
    | .wake o => some { s with blockedList := s.blockedList.filter fun w => w.fl.flOwner ≠ o }

/-- What the search finds: the chains of waits it has time for. -/
lemma search_iff (hl : (l.map fun w => w.fl.flOwner).Nodup) {caller fl : FileLock ω}
    (hne : fl.flOwner ≠ caller.flOwner) :
    search l caller n fl = true ↔ ∃ m ≤ n, Chain l m fl.flOwner caller.flOwner := by
  induction n generalizing fl with
  | zero =>
    refine iff_of_false nofun ?_
    rintro ⟨m, hm, h⟩
    obtain rfl := Nat.le_zero.mp hm
    exact hne h
  | succ n ih =>
    unfold search whatOwnerIsWaitingFor
    cases hfind : l.find? fun w => posixSameOwner w.fl fl with
    | none =>
      refine iff_of_false nofun ?_
      rintro ⟨m, -, h⟩
      cases m with
      | zero => exact hne h
      | succ m =>
        obtain ⟨w, hw, ha, -⟩ := h
        exact find?_eq_none.mp hfind w hw (decide_eq_true ha)
    | some w =>
      have hw := mem_of_find?_eq_some hfind
      have ha : w.fl.flOwner = fl.flOwner := by simpa [posixSameOwner] using find?_some hfind
      have hnext : (∃ m ≤ n + 1, Chain l m fl.flOwner caller.flOwner) ↔
          ∃ m ≤ n, Chain l m w.flNext.flOwner caller.flOwner := by
        constructor
        · rintro ⟨m, hm, h⟩
          cases m with
          | zero => exact absurd h hne
          | succ m =>
            -- an owner waits once, so the chain goes on from `w`
            obtain ⟨v, hv, hva, h⟩ := h
            rw [← inj_on_of_nodup_map hl hw hv (ha.trans hva.symm)] at h
            exact ⟨m, Nat.le_of_succ_le_succ hm, h⟩
        · rintro ⟨m, hm, h⟩
          exact ⟨m + 1, Nat.succ_le_succ hm, w, hw, ha, h⟩
      rw [hnext, Option.map_some]
      by_cases hsame : caller.flOwner = w.flNext.flOwner
      · exact iff_of_true (if_pos (decide_eq_true hsame)) ⟨0, n.zero_le, hsame.symm⟩
      · rw [← ih (Ne.symm hsame)]
        exact Eq.congr_left (if_neg (by simpa [posixSameOwner] using hsame))

/-! ### Requests -/

/-- A request that has to wait is refused if and only if its wait would close a cycle. -/
def RefusesCycles (s : Waits ι ω) : Event ι ω → Prop
  | .request i r => ∀ fl ∈ s.blocker i r, ((s.call i r).2.error = edeadlk ↔
      ∃ n, Chain s.blockedList n fl.flOwner r.lock.flOwner)
  | .wake _ => True

/-- A cycle that a request would close is closed by a chain within reach of the search. -/
def ShortChain (s : Waits ι ω) : Event ι ω → Prop
  | .request i r => ∀ fl ∈ s.blocker i r,
      (∃ n, Chain s.blockedList n fl.flOwner r.lock.flOwner) →
        ∃ n ≤ maxDeadlkIterations + 1, Chain s.blockedList n fl.flOwner r.lock.flOwner
  | .wake _ => True

structure Inv (s : Waits ι ω) : Prop where
  nodup : (s.blockedList.map fun w => w.fl.flOwner).Nodup
  acyclic : Acyclic s.blockedList

variable {s s' : Waits ι ω} {i : ι} {r : Request ω} {fl : FileLock ω}

lemma Inv.edeadlk_iff (hs : Inv s) (h : fl ∈ s.blocker i r) : (s.call i r).2.error = edeadlk ↔
      ∃ n ≤ maxDeadlkIterations + 1, Chain s.blockedList n fl.flOwner r.lock.flOwner := by
  obtain ⟨hsleep, a, ha, rfl⟩ : r.flags.sleep = true ∧
      ∃ a, conflict (s.inodes i) r.lock = some a ∧ (s.inodes i).mem a = fl := by
    simpa [Waits.blocker] using h
  have howner : ((s.inodes i).mem a).flOwner ≠ r.lock.flOwner := by
    intro heq
    unfold conflict at ha
    split at ha
    · simpa [posixLocksConflict, posixSameOwner, heq] using find?_some ha
    · cases ha
  rw [← search_iff hs.nodup howner]
  have hcall : (s.call i r).2.error =
      if posixLocksDeadlock s.blockedList r.lock ((s.inodes i).mem a) then edeadlk
      else fileLockDeferred := by
    simp [Waits.call, Waits.blocker, posixLockFile, ha, hsleep]
  rw [hcall]
  unfold posixLocksDeadlock
  split
  · rename_i hfound
    exact iff_of_true rfl hfound
  · rename_i hnot
    exact iff_of_false (by decide) hnot

lemma Inv.refusesCycles_iff (hs : Inv s) (e : Event ι ω) : RefusesCycles s e ↔ ShortChain s e := by
  cases e with
  | wake o => exact Iff.rfl
  | request i r =>
    refine forall₂_congr fun fl hfl => ?_
    rw [hs.edeadlk_iff hfl]
    constructor
    · intro h
      exact h.mpr
    · intro h
      exact ⟨fun ⟨n, _, hn⟩ => ⟨n, hn⟩, h⟩

variable [DecidableEq ι] {inodes : ι → Inode ω}

lemma Inv.step {e : Event ι ω} (h : Inv s) (hshort : ShortChain s e)
    (hstep : (machine inodes).step s e = some s') : Inv s' := by
  cases e with
  | wake o =>
    cases hstep
    exact ⟨h.nodup.sublist (filter_sublist.map _),
      fun a n hn => h.acyclic a n (hn.mono filter_sublist.subset)⟩
  | request i r =>
    simp only [machine] at hstep
    split at hstep
    · cases hstep
    rename_i hawake
    obtain rfl := Option.some.inj hstep
    split
    case isFalse => exact ⟨h.nodup, h.acyclic⟩
    case isTrue hdef =>
      cases hb : s.blocker i r with
      | none => exact ⟨h.nodup, h.acyclic⟩
      | some fl =>
        refine ⟨nodup_cons.mpr ⟨by rw [mem_map]; exact hawake, h.nodup⟩, h.acyclic.cons ?_⟩
        intro n hn
        rw [(h.edeadlk_iff hb).mpr (hshort fl hb ⟨n, hn⟩)] at hdef
        exact absurd hdef (by decide)

/-- Over every run the search refuses the requests that would close a cycle, and no others, and
no cycle ever comes up, exactly if every cycle that a request would close is within its reach. -/
theorem posix_deadlock_right_iff (inodes : ι → Inode ω) (es : List (Event ι ω)) :
    ((machine inodes).Guarded RefusesCycles (machine inodes).init es ∧
      (machine inodes).Always (fun s => Acyclic s.blockedList) (machine inodes).init es) ↔
    (machine inodes).Guarded ShortChain (machine inodes).init es := by
  have hinit : Inv (machine inodes).init :=
    ⟨nodup_nil, fun a n ⟨w, hw, _⟩ => absurd hw not_mem_nil⟩
  have hiff := (machine inodes).guarded_iff_guarded (fun s e s' h hG hs => Inv.step h hG hs)
    (fun s e s' h _ => h.refusesCycles_iff e) hinit es
  constructor
  · rintro ⟨hright, -⟩
    exact hiff.mp hright
  · intro hshort
    have hinv := (machine inodes).always_of_guarded
      (fun s e s' h hG hs => Inv.step h hG hs) hinit hshort
    exact ⟨hiff.mpr hshort, Machine.Always.mono _ (fun s h => h.acyclic) hinv⟩

/-- Nobody has a lock. -/
def unlocked : Unit → Inode ℕ := fun _ => ⟨fun _ => ⟨0, true, .unlck, 0, 0⟩, [], 0⟩

/-- Owner `o` asks for byte `x`, and waits for it. -/
def writes (o x : ℕ) : Event Unit ℕ :=
  .request () ⟨⟨o, true, .wrlck, x, x⟩, ⟨false, true, false⟩, true, true, false⟩

/-- Thirteen owners have a byte each and ask for the byte of the next one: none is refused. -/
theorem posix_deadlock_missed : ∃ s ∈ (machine unlocked).exec (machine unlocked).init
    ((range 13).map (fun o => writes o o) ++ (range 13).map fun o => writes o ((o + 1) % 13)),
      Chain s.blockedList 13 0 0 := by
  decide +kernel

end Am335x.Locks.Deadlock
