import Mathlib.Data.List.Nodup
import Am335xKernel.Lib.Machine
import Am335xKernel.Kernel.Bitmap

/-!
# The descriptor pool of `drivers/net/ethernet/ti/davinci_cpdma.c`

Receive descriptors come from the lower half of the pool and transmit descriptors from the upper
half. `cpdma_desc_alloc` searches the half it needs but compares the result with the size of the
whole pool. When the lower half is exhausted the search returns an index of the upper half, and the
descriptor there is handed out whether it is in use or not.
-/

namespace Am335x.Cpdma

open List Option

/-- `struct cpdma_desc_pool`. -/
structure Pool where
  iomap : ℕ
  descSize : ℕ
  numDesc : ℕ
  usedDesc : ℤ
  bitmap : Bitmap
  descSize_pos : 0 < descSize

namespace Pool

def desc (pool : Pool) (index : ℕ) : ℕ := pool.iomap + pool.descSize * index

/-- The half of the pool for a direction is `lo ≤ index < hi`. -/
def lo (pool : Pool) (isRx : Bool) : ℕ := if isRx then 0 else pool.numDesc / 2

def hi (pool : Pool) (isRx : Bool) : ℕ := if isRx then pool.numDesc / 2 else pool.numDesc

def take (pool : Pool) (index numDesc : ℕ) : Pool :=
  { pool with bitmap := pool.bitmap.set index numDesc, usedDesc := pool.usedDesc + 1 }

end Pool

def cpdmaDescAlloc (pool : Pool) (numDesc : ℕ) (isRx : Bool) : Pool × Option ℕ :=
  let index :=
    if isRx then pool.bitmap.findNextZeroArea (pool.numDesc / 2) 0 numDesc 0
    else pool.bitmap.findNextZeroArea pool.numDesc (pool.numDesc / 2) numDesc 0
  if index < pool.numDesc then (pool.take index numDesc, some (pool.desc index))
  else (pool, none)

def cpdmaDescFree (pool : Pool) (desc numDesc : ℕ) : Pool :=
  let index := (desc - pool.iomap) / pool.descSize
  { pool with bitmap := pool.bitmap.clear index numDesc, usedDesc := pool.usedDesc - 1 }

namespace Pool

variable {pool : Pool}

lemma desc_inj {i j : ℕ} : pool.desc i = pool.desc j ↔ i = j := by
  unfold desc
  rw [Nat.add_left_cancel_iff, Nat.mul_left_cancel_iff pool.descSize_pos]

lemma index_desc (i : ℕ) : (pool.desc i - pool.iomap) / pool.descSize = i := by
  rw [desc, Nat.add_sub_cancel_left, Nat.mul_div_cancel_left _ pool.descSize_pos]

lemma lo_le_hi (isRx : Bool) : pool.lo isRx ≤ pool.hi isRx := by
  cases isRx with
  | true => exact Nat.zero_le _
  | false => exact Nat.div_le_self _ _

lemma hi_le (isRx : Bool) : pool.hi isRx ≤ pool.numDesc := by
  cases isRx with
  | true => exact Nat.div_le_self _ _
  | false => exact le_rfl

/-- **One descriptor.** It is a free one of its half; or the half is exhausted,
and the index one behind the end of the half is tried. -/
lemma alloc_cases (pool : Pool) (isRx : Bool) :
    (∃ i, pool.lo isRx ≤ i ∧ i < pool.hi isRx ∧ pool.bitmap i = false ∧
        cpdmaDescAlloc pool 1 isRx = (pool.take i 1, some (pool.desc i))) ∨
      ((∀ i, pool.lo isRx ≤ i → i < pool.hi isRx → pool.bitmap i = true) ∧
        cpdmaDescAlloc pool 1 isRx = if pool.hi isRx + 1 < pool.numDesc then
            (pool.take (pool.hi isRx + 1) 1, some (pool.desc (pool.hi isRx + 1)))
          else (pool, none)) := by
  have hindex : (if isRx then pool.bitmap.findNextZeroArea (pool.numDesc / 2) 0 1 0
      else pool.bitmap.findNextZeroArea pool.numDesc (pool.numDesc / 2) 1 0) =
      pool.bitmap.findNextZeroArea (pool.hi isRx) (pool.lo isRx) 1 0 := by
    cases isRx <;> rfl
  have hhi := pool.hi_le isRx
  unfold cpdmaDescAlloc
  rw [hindex, Bitmap.findNextZeroArea_one _ (lo_le_hi isRx)]
  rcases Bitmap.findNextZeroBit_cases pool.bitmap (pool.lo_le_hi isRx) with
    ⟨heq, hfull⟩ | ⟨hle, hlt, hzero⟩
  · rw [if_pos heq]
    exact .inr ⟨hfull, rfl⟩
  · rw [if_neg hlt.ne, if_pos (by omega)]
    exact .inl ⟨_, hle, hlt, hzero, rfl⟩

end Pool

structure Held where
  pool : Pool
  live : List (Bool × ℕ)

inductive PoolEvent where
  | alloc (isRx : Bool)
  | free (isRx : Bool) (desc : ℕ)
  deriving DecidableEq

namespace Held

def step (s : Held) : PoolEvent → Option Held
  | .alloc isRx =>
    match cpdmaDescAlloc s.pool 1 isRx with
    | (pool, some desc) => some { pool := pool, live := (isRx, desc) :: s.live }
    | (pool, none) => some { s with pool := pool }
  | .free isRx desc =>
    if (isRx, desc) ∈ s.live then
      some { pool := cpdmaDescFree s.pool desc 1, live := s.live.erase (isRx, desc) }
    else none

def descs (s : Held) : List ℕ := s.live.map Prod.snd

def exhausted (s : Held) (isRx : Bool) : Prop :=
  ∀ i < s.pool.hi isRx, s.pool.lo isRx ≤ i → s.pool.desc i ∈ s.descs

instance (s : Held) (isRx : Bool) : Decidable (s.exhausted isRx) :=
  inferInstanceAs (Decidable (∀ i < _, _))

structure Right (s : Held) : Prop where
  distinct : s.descs.Nodup
  half : ∀ isRx desc, (isRx, desc) ∈ s.live →
    ∃ i, s.pool.lo isRx ≤ i ∧ i < s.pool.hi isRx ∧ desc = s.pool.desc i
  used : s.pool.usedDesc = s.live.length

def failsRight (s : Held) : PoolEvent → Prop
  | .alloc isRx => (cpdmaDescAlloc s.pool 1 isRx).2 = none ↔ s.exhausted isRx
  | .free _ _ => True

def sparesRx (s : Held) (e : PoolEvent) : Prop :=
  e = .alloc true → 0 < s.pool.numDesc → ¬ s.exhausted true

instance (s : Held) (e : PoolEvent) : Decidable (s.sparesRx e) :=
  inferInstanceAs (Decidable (_ → _ → _))

end Held

/-- `cpdma_desc_pool_create` clears the bitmap. -/
def Pool.create (iomap descSize numDesc : ℕ) (h : 0 < descSize) : Pool :=
  { iomap := iomap, descSize := descSize, numDesc := numDesc, usedDesc := 0
    bitmap := fun _ => false, descSize_pos := h }

def poolMachine (pool : Pool) : Machine Held PoolEvent where
  init := { pool := pool, live := [] }
  step := Held.step

structure Held.Inv (s : Held) : Prop extends s.Right where
  marked : ∀ i, s.pool.bitmap i = true ↔ s.pool.desc i ∈ s.descs
  words : 32 ∣ s.pool.numDesc

namespace Held

variable {s s' : Held} {isRx : Bool}

lemma inv_init {iomap descSize numDesc : ℕ} (h : 0 < descSize) (hwords : 32 ∣ numDesc) :
    Inv (poolMachine (Pool.create iomap descSize numDesc h)).init where
  distinct := nodup_nil
  half := by
    intro isRx desc hmem
    cases hmem
  used := rfl
  marked := by simp [poolMachine, Pool.create, descs]
  words := hwords

lemma Inv.exhausted_iff (h : s.Inv) (isRx : Bool) : s.exhausted isRx ↔
      ∀ i, s.pool.lo isRx ≤ i → i < s.pool.hi isRx → s.pool.bitmap i = true := by
  constructor
  · intro hex i hlo hhi
    exact (h.marked i).mpr (hex i hhi hlo)
  · intro hfull i hhi hlo
    exact (h.marked i).mp (hfull i hlo hhi)

lemma Inv.take (h : s.Inv) {i : ℕ} (hlo : s.pool.lo isRx ≤ i)
    (hhi : i < s.pool.hi isRx) (hfree : s.pool.bitmap i = false) :
    Inv { pool := s.pool.take i 1, live := (isRx, s.pool.desc i) :: s.live } where
  distinct := by
    refine nodup_cons.mpr ⟨?_, h.distinct⟩
    intro hmem
    rw [(h.marked i).mpr hmem] at hfree
    cases hfree
  half := by
    intro rx desc hmem
    rcases mem_cons.mp hmem with heq | hmem
    · cases heq
      exact ⟨i, hlo, hhi, rfl⟩
    · exact h.half rx desc hmem
  used := by
    show s.pool.usedDesc + 1 = _
    rw [h.used, length_cons]
    rfl
  marked := by
    intro j
    show (if i ≤ j ∧ j < i + 1 then true else s.pool.bitmap j) = true ↔
      s.pool.desc j ∈ s.pool.desc i :: s.descs
    rw [mem_cons, Pool.desc_inj, ← h.marked j]
    by_cases hij : j = i
    · simp [hij]
    · rw [if_neg (by omega)]
      simp [hij]
  words := h.words

lemma Inv.free (h : s.Inv) {desc : ℕ} (hmem : (isRx, desc) ∈ s.live) :
    Inv { pool := cpdmaDescFree s.pool desc 1, live := s.live.erase (isRx, desc) } := by
  obtain ⟨i, hlo, hhi, rfl⟩ := h.half isRx desc hmem
  have hperm := (perm_cons_erase hmem).map Prod.snd
  have hnodup : (s.pool.desc i :: (s.live.erase (isRx, s.pool.desc i)).map Prod.snd).Nodup :=
    hperm.nodup_iff.mp h.distinct
  rw [nodup_cons] at hnodup
  refine ⟨⟨hnodup.2, ?_, ?_⟩, ?_, h.words⟩
  · intro rx desc hrest
    exact h.half rx desc (mem_of_mem_erase hrest)
  · show s.pool.usedDesc - 1 = _
    have hlen := length_erase_of_mem hmem
    have hpos := length_pos_of_mem hmem
    rw [h.used, hlen]
    omega
  · intro j
    have hdescs : s.pool.desc j ∈ s.descs ↔
        j = i ∨ s.pool.desc j ∈ (s.live.erase (isRx, s.pool.desc i)).map Prod.snd := by
      rw [descs, hperm.mem_iff, map_cons, mem_cons, Pool.desc_inj]
    show (if _ then false else s.pool.bitmap j) = true ↔ _
    rw [Pool.index_desc]
    by_cases hij : j = i
    · subst hij
      rw [if_pos (by omega)]
      simp only [Bool.false_eq_true, false_iff]
      exact hnodup.1
    · rw [if_neg (by omega), h.marked j, hdescs]
      simp only [hij, false_or]
      rfl

lemma Inv.hi_succ_lt (h : s.Inv) (hpos : 0 < s.pool.numDesc) :
    s.pool.hi true + 1 < s.pool.numDesc := by
  obtain ⟨k, hk⟩ := h.words
  show s.pool.numDesc / 2 + 1 < s.pool.numDesc
  omega

lemma Inv.alloc_cases (h : s.Inv) (isRx : Bool) (hg : s.sparesRx (.alloc isRx)) :
    (∃ i, s.pool.lo isRx ≤ i ∧ i < s.pool.hi isRx ∧ s.pool.bitmap i = false ∧
        cpdmaDescAlloc s.pool 1 isRx = (s.pool.take i 1, some (s.pool.desc i))) ∨
      (s.exhausted isRx ∧ cpdmaDescAlloc s.pool 1 isRx = (s.pool, none)) := by
  rcases s.pool.alloc_cases isRx with hfree | ⟨hfull, heq⟩
  · exact .inl hfree
  · have hex := (h.exhausted_iff isRx).mpr hfull
    refine .inr ⟨hex, ?_⟩
    rw [heq]
    apply if_neg
    cases isRx with
    | false =>
      show ¬ s.pool.numDesc + 1 < s.pool.numDesc
      omega
    | true =>
      intro hlt
      exact hg rfl (Nat.zero_lt_of_lt hlt) hex

lemma inv_step {e : PoolEvent} (h : s.Inv) (hg : s.sparesRx e) (hstep : s.step e = some s') :
    s'.Inv := by
  cases e with
  | alloc isRx =>
    rcases h.alloc_cases isRx hg with ⟨i, hlo, hhi, hfree, heq⟩ | ⟨_, heq⟩
    · simp only [step, heq, some.injEq] at hstep
      exact hstep ▸ h.take hlo hhi hfree
    · simp only [step, heq, some.injEq] at hstep
      exact hstep ▸ h
  | free isRx desc =>
    simp only [step] at hstep
    split at hstep
    · rename_i hmem
      exact some.inj hstep ▸ h.free hmem
    · cases hstep

lemma Inv.failsRight_iff (h : s.Inv) (e : PoolEvent) : s.failsRight e ↔ s.sparesRx e := by
  cases e with
  | free isRx desc => simp [failsRight, sparesRx]
  | alloc isRx =>
    constructor
    · intro hfails he hpos hex
      obtain rfl : isRx = true := by simpa using he
      have hnone := hfails.mpr hex
      rcases s.pool.alloc_cases true with ⟨i, _, _, _, heq⟩ | ⟨_, heq⟩
      · rw [heq] at hnone
        cases hnone
      · rw [heq, if_pos (h.hi_succ_lt hpos)] at hnone
        cases hnone
    · intro hg
      rcases h.alloc_cases isRx hg with ⟨i, hlo, hhi, hfree, heq⟩ | ⟨hex, heq⟩
      · simp only [failsRight, heq, reduceCtorEq, false_iff]
        intro hex
        rw [(h.exhausted_iff isRx).mp hex i hlo hhi] at hfree
        cases hfree
      · simp [failsRight, heq, hex]

end Held

/-- Whatever the calls, the descriptors that are out are distinct, each from its half, and counted,
and an allocation fails exactly if its half is exhausted, if and only if no receive descriptor is
asked for while all of them are out. -/
theorem alloc_right_iff (iomap descSize numDesc : ℕ) (h : 0 < descSize) (hwords : 32 ∣ numDesc)
    (es : List PoolEvent) : (poolMachine (Pool.create iomap descSize numDesc h)).Always Held.Right
        (poolMachine (Pool.create iomap descSize numDesc h)).init es ∧
      (poolMachine (Pool.create iomap descSize numDesc h)).Guarded Held.failsRight
        (poolMachine (Pool.create iomap descSize numDesc h)).init es ↔
    (poolMachine (Pool.create iomap descSize numDesc h)).Guarded Held.sparesRx
      (poolMachine (Pool.create iomap descSize numDesc h)).init es := by
  have hinit : Held.Inv (poolMachine (Pool.create iomap descSize numDesc h)).init :=
    Held.inv_init h hwords
  have hiff := Machine.guarded_iff_guarded (poolMachine (Pool.create iomap descSize numDesc h))
    (fun _ _ _ => Held.inv_step) (fun _ e _ hs _ => hs.failsRight_iff e) hinit es
  constructor
  · rintro ⟨_, hfails⟩
    exact hiff.mp hfails
  · intro hg
    have hinv := Machine.always_of_guarded _ (fun _ _ _ => Held.inv_step) hinit hg
    exact ⟨Machine.Always.mono _ (fun _ hs => hs.toRight) hinv, hiff.mpr hg⟩

/-- A small pool used up to its last receive descriptor but one, with both
directions. -/
theorem alloc_right_below_half :
    (poolMachine (Pool.create 4096 32 32 (by decide))).Always Held.Right
        (poolMachine (Pool.create 4096 32 32 (by decide))).init
        (List.replicate 15 (.alloc true) ++ List.replicate 17 (.alloc false) ++
          [.free true 4096, .alloc true, .alloc true]) ∧
      (poolMachine (Pool.create 4096 32 32 (by decide))).Guarded Held.failsRight
        (poolMachine (Pool.create 4096 32 32 (by decide))).init
        (List.replicate 15 (.alloc true) ++ List.replicate 17 (.alloc false) ++
          [.free true 4096, .alloc true, .alloc true]) := by
  refine (alloc_right_iff 4096 32 32 (by decide) (by decide) _).mpr ?_
  decide +kernel

/-- With two transmit descriptors and all sixteen receive descriptors out, the next receive
allocation returns the second of the transmit descriptors. -/
theorem rx_alloc_hands_out_tx_descriptor :
    ∃ s, (poolMachine (Pool.create 4096 32 32 (by decide))).exec
        (poolMachine (Pool.create 4096 32 32 (by decide))).init
        (.alloc false :: .alloc false :: List.replicate 16 (.alloc true)) = some s ∧
      s.exhausted true ∧ (false, 4096 + 32 * 17) ∈ s.live ∧
      (cpdmaDescAlloc s.pool 1 true).2 = some (4096 + 32 * 17) := by
  have hrun : ((poolMachine (Pool.create 4096 32 32 (by decide))).exec
      (poolMachine (Pool.create 4096 32 32 (by decide))).init
      (.alloc false :: .alloc false :: List.replicate 16 (.alloc true))).any
      (fun s => decide (s.exhausted true ∧ (false, 4096 + 32 * 17) ∈ s.live ∧
        (cpdmaDescAlloc s.pool 1 true).2 = some (4096 + 32 * 17))) = true := by
    decide +kernel
  obtain ⟨s, hs, hright⟩ := (any_eq_true _ _).mp hrun
  exact ⟨s, hs, of_decide_eq_true hright⟩

end Am335x.Cpdma
