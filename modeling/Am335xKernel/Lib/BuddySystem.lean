import Mathlib.Data.Nat.Bitwise
import Mathlib.Tactic.Ring

/-!
# Buddy systems

A block of order `o` is a run of `2 ^ o` pages that begins at a multiple of `2 ^ o`. It is one of
the two halves of a block of order `o + 1`; its buddy is the other one. A pool divides an interval
of pages into blocks that are free and blocks that are not (`Pool`), and no two buddies are both
free unless they have the largest order.
-/

namespace BuddySystem

open Nat Set

structure Block where
  start : ℕ
  order : ℕ
  deriving DecidableEq

namespace Block

instance : Membership ℕ Block := ⟨fun b x => b.start ≤ x ∧ x < b.start + 2 ^ b.order⟩

lemma mem_def {b : Block} {x : ℕ} : x ∈ b ↔ b.start ≤ x ∧ x < b.start + 2 ^ b.order := Iff.rfl

lemma start_mem (b : Block) : b.start ∈ b :=
  ⟨Nat.le_refl _, Nat.lt_add_of_pos_right (Nat.two_pow_pos _)⟩

def Aligned (b : Block) : Prop := 2 ^ b.order ∣ b.start

def buddy (b : Block) : Block := ⟨b.start ^^^ 2 ^ b.order, b.order⟩

def parent (b : Block) : Block := ⟨b.start &&& (b.start ^^^ 2 ^ b.order), b.order + 1⟩

end Block

lemma xor_one (q : ℕ) : q ^^^ 1 = 2 * (q / 2) + (1 - q % 2) := by
  have hdiv : (q ^^^ 1) / 2 = q / 2 := by rw [xor_div_two]; simp
  have hmod : (q ^^^ 1) % 2 = (q + 1) % 2 := xor_mod_two_eq
  omega

lemma and_xor_one (q : ℕ) : q &&& (q ^^^ 1) = 2 * (q / 2) := by
  have hdiv : (q &&& (q ^^^ 1)) / 2 = q / 2 := by rw [and_div_two, xor_div_two]; simp
  have hmod : (q &&& (q ^^^ 1)) % 2 = 0 := by
    have hand : (q &&& (q ^^^ 1)) % 2 ^ 1 = q % 2 ^ 1 &&& (q ^^^ 1) % 2 ^ 1 := and_mod_two_pow
    rw [pow_one, xor_mod_two_eq] at hand
    rcases mod_two_eq_zero_or_one q with hq | hq
    · rw [hand, hq, zero_and]
    · have hsucc : (q + 1) % 2 = 0 := by omega
      rw [hand, hsucc, and_zero]
  omega

lemma mul_xor_two_pow (q o : ℕ) : q * 2 ^ o ^^^ 2 ^ o = (q ^^^ 1) * 2 ^ o := by
  rw [← shiftLeft_eq, ← shiftLeft_eq, shiftLeft_xor_distrib, shiftLeft_eq 1, one_mul]

lemma mul_and_two_pow (q r o : ℕ) : q * 2 ^ o &&& r * 2 ^ o = (q &&& r) * 2 ^ o := by
  rw [← shiftLeft_eq, ← shiftLeft_eq, ← shiftLeft_eq, shiftLeft_and_distrib]

namespace Block

variable {b : Block} {x : ℕ} {p o : ℕ}

@[simp] lemma buddy_buddy (b : Block) : b.buddy.buddy = b :=
  congrArg (fun p => (⟨p, b.order⟩ : Block)) (xor_xor_cancel_right _ _)

lemma buddy_mul (q o : ℕ) :
    (⟨q * 2 ^ o, o⟩ : Block).buddy = ⟨(2 * (q / 2) + (1 - q % 2)) * 2 ^ o, o⟩ := by
  rw [buddy, mul_xor_two_pow, xor_one]

lemma parent_mul (q o : ℕ) : (⟨q * 2 ^ o, o⟩ : Block).parent = ⟨2 * (q / 2) * 2 ^ o, o + 1⟩ := by
  rw [parent, mul_xor_two_pow, mul_and_two_pow, and_xor_one]

lemma Aligned.halves (h : b.Aligned) : b.parent.Aligned ∧
      (b.start = b.parent.start ∧ b.buddy.start = b.parent.start + 2 ^ b.order ∨
        b.start = b.parent.start + 2 ^ b.order ∧ b.buddy.start = b.parent.start) := by
  obtain ⟨p, o⟩ := b
  obtain ⟨q, hq : p = 2 ^ o * q⟩ := h
  rw [mul_comm] at hq
  subst hq
  rw [parent_mul, buddy_mul]
  refine ⟨⟨q / 2, by ring⟩, ?_⟩
  rcases mod_two_eq_zero_or_one q with hq | hq
  · have hdiv : q * 2 ^ o = 2 * (q / 2) * 2 ^ o := congrArg (· * 2 ^ o) (by omega)
    rw [hq]
    exact .inl ⟨hdiv, by ring⟩
  · have hdiv : q * 2 ^ o = (2 * (q / 2) + 1) * 2 ^ o := congrArg (· * 2 ^ o) (by omega)
    rw [hq]
    exact .inr ⟨hdiv.trans (by ring), by ring⟩

lemma mem_halves :
    x ∈ (⟨p, o + 1⟩ : Block) ↔ x ∈ (⟨p, o⟩ : Block) ∨ x ∈ (⟨p + 2 ^ o, o⟩ : Block) := by
  simp only [mem_def, pow_succ]
  omega

lemma Aligned.mem_parent (h : b.Aligned) : x ∈ b.parent ↔ x ∈ b ∨ x ∈ b.buddy := by
  obtain ⟨-, ⟨hb, hbuddy⟩ | ⟨hb, hbuddy⟩⟩ := h.halves
  all_goals
    simp only [mem_def, hb, hbuddy, show b.parent.order = b.order + 1 from rfl,
      show b.buddy.order = b.order from rfl, pow_succ]
    omega

lemma buddy_upper (h : (⟨p, o + 1⟩ : Block).Aligned) : (⟨p + 2 ^ o, o⟩ : Block).buddy = ⟨p, o⟩ := by
  obtain ⟨q, rfl : p = 2 ^ (o + 1) * q⟩ := h
  have hstart : 2 ^ (o + 1) * q + 2 ^ o = (2 * q + 1) * 2 ^ o := by ring
  have hodd : 2 * ((2 * q + 1) / 2) + (1 - (2 * q + 1) % 2) = 2 * q := by omega
  rw [hstart, buddy_mul, hodd]
  exact congrArg (fun p => (⟨p, o⟩ : Block)) (by ring)

lemma Aligned.buddy_ne (h : b.Aligned) : b.buddy ≠ b := by
  intro heq
  have hpos := Nat.two_pow_pos b.order
  have hstart : b.buddy.start = b.start := congrArg start heq
  obtain ⟨-, ⟨hb, hbuddy⟩ | ⟨hb, hbuddy⟩⟩ := h.halves <;> omega

lemma Aligned.index {k : ℕ} (h : b.Aligned) (hk : b.order < k) :
    b.start + (b.start % 2 ^ k ^^^ 2 ^ b.order) - b.start % 2 ^ k = b.buddy.start ∧
    b.start + ((b.start % 2 ^ k ^^^ 2 ^ b.order) &&& b.start % 2 ^ k) - b.start % 2 ^ k =
      b.parent.start ∧
    (b.start % 2 ^ k ^^^ 2 ^ b.order) &&& b.start % 2 ^ k = b.parent.start % 2 ^ k := by
  obtain ⟨p, o⟩ := b
  obtain ⟨q, hq : p = 2 ^ o * q⟩ := h
  rw [mul_comm] at hq
  subst hq
  -- In units of the block, `q` is the number of the block.
  obtain ⟨j, rfl⟩ : ∃ j, k = j + 1 + o := ⟨k - o - 1, by simp only at hk; omega⟩
  have hmod : ∀ n, n * 2 ^ o % 2 ^ (j + 1 + o) = n % 2 ^ (j + 1) * 2 ^ o := fun n => by
    rw [pow_add, mul_mod_mul_right]
  have hparity : q % 2 ^ (j + 1) % 2 = q % 2 := mod_mod_of_dvd q (Dvd.intro_left _ rfl)
  have hle : q % 2 ^ (j + 1) ≤ q := mod_le _ _
  have hlt : q % 2 ^ (j + 1) < 2 ^ (j + 1) := Nat.mod_lt _ (Nat.two_pow_pos _)
  have hdiv := mod_add_div q (2 ^ (j + 1))
  have hpair : 2 * (q / 2) % 2 ^ (j + 1) = 2 * (q % 2 ^ (j + 1) / 2) := by
    have hsplit : 2 * (q / 2) =
        2 * (q % 2 ^ (j + 1) / 2) + 2 ^ (j + 1) * (q / 2 ^ (j + 1)) := by omega
    rw [hsplit, add_mul_mod_self_left]
    exact mod_eq_of_lt (by omega)
  simp only [parent_mul, buddy_mul, hmod, mul_xor_two_pow, mul_and_two_pow]
  rw [Nat.and_comm, and_xor_one, xor_one, ← Nat.add_mul, ← Nat.sub_mul, ← Nat.add_mul,
    ← Nat.sub_mul]
  refine ⟨congrArg (· * 2 ^ o) (by omega), congrArg (· * 2 ^ o) (by omega), ?_⟩
  rw [hpair]

lemma Aligned.mem_iff (h : b.Aligned) : x ∈ b ↔ x / 2 ^ b.order = b.start / 2 ^ b.order := by
  obtain ⟨q, hq⟩ := h
  have hpos := Nat.two_pow_pos b.order
  rw [hq, Nat.mul_div_cancel_left q hpos, Nat.div_eq_iff hpos, mem_def, hq, mul_comm q]
  omega

variable {c : Block}

/-- If two blocks meet, the smaller one is in the other. -/
lemma Aligned.subset (hb : b.Aligned) (hc : c.Aligned) (hle : b.order ≤ c.order) (hxb : x ∈ b)
    (hxc : x ∈ c) {y : ℕ} (hy : y ∈ b) : y ∈ c := by
  rw [hb.mem_iff, ← hb.mem_iff.mp hxb] at hy
  rw [hc.mem_iff, ← hc.mem_iff.mp hxc, ← Nat.add_sub_of_le hle, pow_add, ← Nat.div_div_eq_div_mul,
    hy, Nat.div_div_eq_div_mul]

lemma Aligned.eq_of_order (hb : b.Aligned) (hc : c.Aligned) (horder : b.order = c.order)
    (hxb : x ∈ b) (hxc : x ∈ c) : b = c := by
  have hle := (hb.subset hc horder.le hxb hxc b.start_mem).1
  have hge := (hc.subset hb horder.ge hxc hxb c.start_mem).1
  cases b
  cases c
  exact mk.injEq .. ▸ ⟨hge.antisymm hle, horder⟩

lemma Aligned.aligned_buddy (h : b.Aligned) : b.buddy.Aligned := by
  obtain ⟨p, o⟩ := b
  obtain ⟨q, rfl : p = 2 ^ o * q⟩ := h
  rw [mul_comm, buddy_mul]
  exact Dvd.intro_left _ rfl

end Block

/-- The blocks divide the pages from `lo` to `hi`. -/
structure Tiling (lo hi : ℕ) (S : Set Block) : Prop where
  aligned : ∀ b ∈ S, b.Aligned
  inside : ∀ b ∈ S, lo ≤ b.start ∧ b.start + 2 ^ b.order ≤ hi
  cover : ∀ x, lo ≤ x → x < hi → ∃ b ∈ S, x ∈ b
  disjoint : ∀ b ∈ S, ∀ b' ∈ S, ∀ x, x ∈ b → x ∈ b' → b = b'

section

variable {lo hi : ℕ} {S T T' : Set Block}

lemma Tiling.mem_inside (h : Tiling lo hi S) {b : Block} (hb : b ∈ S) {x : ℕ} (hx : x ∈ b) :
    lo ≤ x ∧ x < hi := by
  obtain ⟨hlo, hhi⟩ := h.inside b hb
  obtain ⟨h1, h2⟩ := hx
  omega

lemma Tiling.replace (h : Tiling lo hi S) (hT : T ⊆ S) (haligned : ∀ b ∈ T', b.Aligned)
    (hdisjoint : ∀ b ∈ T', ∀ b' ∈ T', ∀ x, x ∈ b → x ∈ b' → b = b')
    (hpages : ∀ x, (∃ b ∈ T', x ∈ b) ↔ ∃ b ∈ T, x ∈ b) : Tiling lo hi (S \ T ∪ T') := by
  have hapart : ∀ b ∈ S \ T, ∀ b' ∈ T', ∀ x, x ∈ b → x ∉ b' := by
    rintro b ⟨hb, hbT⟩ b' hb' x hx hx'
    obtain ⟨t, ht, hxt⟩ := (hpages x).mp ⟨b', hb', hx'⟩
    exact hbT (h.disjoint b hb t (hT ht) x hx hxt ▸ ht)
  refine ⟨?_, ?_, ?_, ?_⟩
  · rintro b (hb | hb)
    · exact h.aligned b hb.1
    · exact haligned b hb
  · rintro b (hb | hb)
    · exact h.inside b hb.1
    · have hinside : ∀ x ∈ b, lo ≤ x ∧ x < hi := by
        intro x hx
        obtain ⟨t, ht, hxt⟩ := (hpages x).mp ⟨b, hb, hx⟩
        exact h.mem_inside (hT ht) hxt
      have hpos := Nat.two_pow_pos b.order
      have hlast : b.start + 2 ^ b.order - 1 ∈ b := by
        rw [Block.mem_def]
        omega
      have hend := (hinside _ hlast).2
      exact ⟨(hinside _ b.start_mem).1, by omega⟩
  · intro x hlo hhi
    obtain ⟨b, hb, hx⟩ := h.cover x hlo hhi
    by_cases hbT : b ∈ T
    · obtain ⟨t, ht, hxt⟩ := (hpages x).mpr ⟨b, hbT, hx⟩
      exact ⟨t, .inr ht, hxt⟩
    · exact ⟨b, .inl ⟨hb, hbT⟩, hx⟩
  · rintro b (hb | hb) b' (hb' | hb') x hx hx'
    · exact h.disjoint b hb.1 b' hb'.1 x hx hx'
    · exact absurd hx' (hapart b hb b' hb' x hx)
    · exact absurd hx (hapart b' hb' b hb x hx')
    · exact hdisjoint b hb b' hb' x hx hx'

end

/-- The free blocks `F` and the others, `A`. -/
structure Pool (lo hi top : ℕ) (F A : Set Block) : Prop where
  tiling : Tiling lo hi (F ∪ A)
  apart : ∀ b ∈ F, b ∉ A
  order_le : ∀ b ∈ F ∪ A, b.order ≤ top
  coalesced : ∀ b ∈ F, b.order < top → b.buddy ∉ F

namespace Pool

variable {lo hi top : ℕ} {F A : Set Block} {b : Block}

lemma take (h : Pool lo hi top F A) (hb : b ∈ F) : Pool lo hi top (F \ {b}) (insert b A) := by
  have hunion : F \ {b} ∪ insert b A = F ∪ A := by
    rw [union_insert, ← insert_union, insert_sdiff_singleton, insert_eq_of_mem hb]
  refine ⟨hunion ▸ h.tiling, ?_, hunion ▸ h.order_le, ?_⟩
  · rintro c ⟨hc, hcb⟩ (rfl | hcA)
    · exact hcb rfl
    · exact h.apart c hc hcA
  · rintro c ⟨hc, -⟩ hlt ⟨hbuddy, -⟩
    exact h.coalesced c hc hlt hbuddy

lemma mem_of_held (h : Pool lo hi top F (insert b A)) : b ∈ F ∪ insert b A ∧ b ∉ F :=
  ⟨.inr (mem_insert _ _), fun hmem => h.apart _ hmem (mem_insert _ _)⟩

lemma not_mem_held (h : Pool lo hi top F (insert b A)) (hA : b ∉ A) {c : Block}
    (hc : c ∈ F ∪ A) {x : ℕ} (hx : x ∈ c) : x ∉ b := by
  intro hxb
  have hc' : c ∈ F ∪ insert b A := hc.imp_right (mem_insert_of_mem _)
  obtain rfl := h.tiling.disjoint c hc' b h.mem_of_held.1 x hx hxb
  exact hc.elim h.mem_of_held.2 hA

lemma halve {p o : ℕ} (h : Pool lo hi top F (insert ⟨p, o + 1⟩ A)) (hA : ⟨p, o + 1⟩ ∉ A) :
    Pool lo hi top (insert ⟨p + 2 ^ o, o⟩ F) (insert ⟨p, o⟩ A) ∧ (⟨p, o⟩ : Block) ∉ A := by
  obtain ⟨hmem, hF⟩ := h.mem_of_held
  have haligned := h.tiling.aligned _ hmem
  have hlow : 2 ^ o ∣ p := Dvd.dvd.trans (pow_dvd_pow 2 (le_succ o)) haligned
  have hup : 2 ^ o ∣ p + 2 ^ o := Nat.dvd_add hlow (Nat.dvd_refl _)
  have hpos := Nat.two_pow_pos o
  have hlower : (⟨p, o⟩ : Block) ∉ F ∪ A := fun hb =>
    h.not_mem_held hA hb (Block.start_mem _) (Block.mem_halves.mpr (.inl (Block.start_mem _)))
  have hupper : (⟨p + 2 ^ o, o⟩ : Block) ∉ F ∪ A := fun hb =>
    h.not_mem_held hA hb (Block.start_mem _) (Block.mem_halves.mpr (.inr (Block.start_mem _)))
  have hne : (⟨p + 2 ^ o, o⟩ : Block) ≠ ⟨p, o⟩ := by
    intro heq
    have hstart : p + 2 ^ o = p := congrArg Block.start heq
    omega
  have hunion : insert ⟨p + 2 ^ o, o⟩ F ∪ insert ⟨p, o⟩ A =
      (F ∪ insert ⟨p, o + 1⟩ A) \ {⟨p, o + 1⟩} ∪ {⟨p, o⟩, ⟨p + 2 ^ o, o⟩} := by
    ext c
    simp only [mem_union, mem_insert_iff, mem_sdiff, mem_singleton_iff]
    grind
  refine ⟨⟨?_, ?_, ?_, ?_⟩, fun hb => hlower (.inr hb)⟩
  · rw [hunion]
    refine h.tiling.replace (singleton_subset_iff.mpr hmem) ?_ ?_ fun x => ?_
    · rintro c (rfl | rfl)
      · exact hlow
      · exact hup
    · rintro c (rfl | rfl) c' (rfl | rfl) x ⟨h1, h2⟩ ⟨h3, h4⟩
      · rfl
      · exact absurd h2 (not_lt.mpr h3)
      · exact absurd h4 (not_lt.mpr h1)
      · rfl
    · simp only [mem_insert_iff, mem_singleton_iff, exists_eq_or_imp, exists_eq_left]
      exact Block.mem_halves.symm
  · rintro c (rfl | hc) (hc' | hc')
    · exact hne hc'
    · exact hupper (.inr hc')
    · exact hlower (.inl (hc' ▸ hc))
    · exact h.apart c hc (.inr hc')
  · have htop : o + 1 ≤ top := h.order_le _ hmem
    rintro c ((rfl | hc) | (rfl | hc))
    · exact le_of_succ_le htop
    · exact h.order_le c (.inl hc)
    · exact le_of_succ_le htop
    · exact h.order_le c (.inr (.inr hc))
  · rintro c (rfl | hc) hlt (hbuddy | hbuddy)
    · rw [Block.buddy_upper haligned] at hbuddy
      exact hne hbuddy.symm
    · rw [Block.buddy_upper haligned] at hbuddy
      exact hlower (.inl hbuddy)
    · have hc' : c = ⟨p, o⟩ := by
        rw [← Block.buddy_buddy c, hbuddy, Block.buddy_upper haligned]
      exact hlower (.inl (hc' ▸ hc))
    · exact h.coalesced c hc hlt hbuddy

section

variable {F' : Set Block} {c : Block} {x : ℕ}

lemma exists_free (h : Pool lo hi top F A) (h' : Pool lo hi top F' A) (hc : c ∈ F')
    (hx : x ∈ c) : ∃ b ∈ F, x ∈ b := by
  obtain ⟨hlo, hhi⟩ := h'.tiling.mem_inside (.inl hc) hx
  obtain ⟨b, hb | hb, hxb⟩ := h.tiling.cover x hlo hhi
  · exact ⟨b, hb, hxb⟩
  · obtain rfl := h'.tiling.disjoint c (.inl hc) b (.inr hb) x hx hxb
    exact absurd hb (h'.apart c hc)

lemma order_le_of_mem (h : Pool lo hi top F A) (h' : Pool lo hi top F' A) (hb : b ∈ F)
    (hc : c ∈ F') (hxb : x ∈ b) (hxc : x ∈ c) : c.order ≤ b.order := by
  -- A smallest free block in `c` would have its buddy in `c`, free and of the same size.
  induction hn : b.order using Nat.strong_induction_on generalizing b x with
  | _ n ih =>
  subst hn
  by_contra hlt
  have hba := h.tiling.aligned b (.inl hb)
  have hparent := hba.halves.1
  have hxp := hba.mem_parent.mpr (.inl hxb)
  have hy := hba.mem_parent.mpr (.inr b.buddy.start_mem)
  have hyc := hparent.subset (h'.tiling.aligned c (.inl hc)) (not_le.mp hlt) hxp hxc hy
  obtain ⟨d, hd, hyd⟩ := h.exists_free h' hc hyc
  have hda := h.tiling.aligned d (.inl hd)
  rcases lt_trichotomy d.order b.order with hless | heq | hmore
  · exact hlt ((ih _ hless hd hyd hyc rfl).trans hless.le)
  · obtain rfl := hda.eq_of_order hba.aligned_buddy heq hyd b.buddy.start_mem
    exact h.coalesced b hb ((not_le.mp hlt).trans_le (h'.order_le c (.inl hc))) hd
  · have hxd := hparent.subset hda hmore hy hyd hxp
    obtain rfl := h.tiling.disjoint b (.inl hb) d (.inl hd) x hxb hxd
    exact hmore.false

/-- The blocks that are not free tell which ones are. -/
lemma subset_free (h : Pool lo hi top F A) (h' : Pool lo hi top F' A) : F ⊆ F' := by
  intro b hb
  obtain ⟨c, hc, hbc⟩ := h'.exists_free h hb b.start_mem
  have horder := (h'.order_le_of_mem h hc hb hbc b.start_mem).antisymm
    (h.order_le_of_mem h' hb hc b.start_mem hbc)
  have heq := (h.tiling.aligned b (.inl hb)).eq_of_order (h'.tiling.aligned c (.inl hc)) horder
    b.start_mem hbc
  exact heq ▸ hc

end

variable (h : Pool lo hi top F (insert b A))
include h

lemma merge (hA : b ∉ A) (hbuddy : b.buddy ∈ F)
    (htop : b.order < top) : Pool lo hi top (F \ {b.buddy}) (insert b.parent A) ∧ b.parent ∉ A := by
  obtain ⟨hmem, hF⟩ := h.mem_of_held
  have haligned := h.tiling.aligned _ hmem
  have hbuddyA : b.buddy ∉ A := fun hb => h.apart _ hbuddy (.inr hb)
  have hparent : b.parent ∉ F ∪ A := fun hp =>
    h.not_mem_held hA hp (haligned.mem_parent.mpr (.inl b.start_mem)) b.start_mem
  have hunion : F \ {b.buddy} ∪ insert b.parent A =
      (F ∪ insert b A) \ {b, b.buddy} ∪ {b.parent} := by
    ext c
    simp only [mem_union, mem_insert_iff, mem_sdiff, mem_singleton_iff]
    grind
  refine ⟨⟨?_, ?_, ?_, ?_⟩, fun hb => hparent (.inr hb)⟩
  · rw [hunion]
    refine h.tiling.replace ?_ ?_ ?_ fun x => ?_
    · rintro c (rfl | rfl)
      · exact hmem
      · exact .inl hbuddy
    · rintro c rfl
      exact haligned.halves.1
    · rintro c rfl c' rfl x - -
      rfl
    · simp only [mem_insert_iff, mem_singleton_iff, exists_eq_or_imp, exists_eq_left]
      exact haligned.mem_parent
  · rintro c ⟨hc, -⟩ (rfl | hcA)
    · exact hparent (.inl hc)
    · exact h.apart c hc (.inr hcA)
  · rintro c (hc | (rfl | hc))
    · exact h.order_le c (.inl hc.1)
    · exact htop
    · exact h.order_le c (.inr (.inr hc))
  · rintro c ⟨hc, -⟩ hlt ⟨hb, -⟩
    exact h.coalesced c hc hlt hb

lemma put (hA : b ∉ A) (hbuddy : b.order < top → b.buddy ∉ F) : Pool lo hi top (insert b F) A := by
  obtain ⟨hmem, -⟩ := h.mem_of_held
  have hunion : insert b F ∪ A = F ∪ insert b A := by
    rw [insert_union, union_insert]
  refine ⟨hunion ▸ h.tiling, ?_, hunion ▸ h.order_le, ?_⟩
  · rintro c (rfl | hc)
    · exact hA
    · exact fun hcA => h.apart c hc (.inr hcA)
  · rintro c (rfl | hc) hlt (hb | hb)
    · exact (h.tiling.aligned _ hmem).buddy_ne hb
    · exact hbuddy hlt hb
    · rw [← Block.buddy_buddy c, hb] at hc
      have horder : c.buddy.order = b.order := congrArg Block.order hb
      exact hbuddy (horder ▸ hlt) hc
    · exact h.coalesced c hc hlt hb

end Pool

end BuddySystem
