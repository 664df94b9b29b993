import Mathlib.Data.Nat.Size
import Am335xKernel.Mm.PercpuWalk

/-!
# Runs of allocating and freeing areas of a chunk

Areas in use begin an allocated entry each (`Holds`); an entry never gets smaller while it is
in use, since only bytes in front of a later area are added to it. So areas that begin at
different offsets have no byte in common.
-/

namespace Am335x.Percpu

open Tiling List Int CInt

structure Area where
  off : ℕ
  size : ℕ
  align : ℕ
deriving DecidableEq

/-- A map that cuts up `n` bytes, with its counters. -/
structure MapOk (n : ℕ) (map : List ℤ) (freeSize contigHint : ℤ) : Prop where
  sum : total Int.natAbs map = n
  free : freeSize = freeSum map
  sparse : Sparse map
  solid : Solid map
  hint : ∀ x ∈ map, x ≤ contigHint
  hint_nonneg : 0 ≤ contigHint
  hint_lt : contigHint < 2 ^ 31

/-- A chunk of `n` bytes. -/
structure Good (unit n : ℕ) (chunk : PcpuChunk) : Prop where
  map : MapOk n chunk.map chunk.freeSize chunk.contigHint
  slot : chunk.reserved = false → chunk.slot = pcpuChunkSlot unit chunk

def Holds (map : List ℤ) (a : Area) : Prop :=
  ∃ y : ℕ, a.size ≤ y ∧ (a.off, -(y : ℤ)) ∈ layout Int.natAbs 0 map

section

variable {unit n : ℕ} {chunk old : PcpuChunk}

lemma relocate_map (oslot : ℤ) : (pcpuChunkRelocate unit chunk oslot).map = chunk.map := by
  unfold pcpuChunkRelocate
  dsimp only
  split_ifs <;> rfl

lemma Good.relocate (hold : Good unit n old)
    (hmap : MapOk n chunk.map chunk.freeSize chunk.contigHint) (hslot : chunk.slot = old.slot)
    (hres : chunk.reserved = old.reserved) :
    Good unit n (pcpuChunkRelocate unit chunk (pcpuChunkSlot unit old)) := by
  unfold pcpuChunkRelocate
  dsimp only
  split_ifs with hmove
  · exact ⟨hmap, fun _ => rfl⟩
  · refine ⟨hmap, fun hfalse => ?_⟩
    have hsame : (pcpuChunkSlot unit old : ℤ) = pcpuChunkSlot unit chunk := by
      by_contra hne
      exact hmove ⟨hfalse, hne⟩
    rw [hslot, hold.slot (hres ▸ hfalse)]
    exact_mod_cast hsame

end

section

variable {h size x y lost : ℤ} {A B C C' : List ℤ} {o : ℕ} {a : Area}

section

variable (hput : HeadPut h A B lost)
include hput

lemma HeadPut.total_eq : (total Int.natAbs B : ℤ) = total Int.natAbs A + h := by
  cases hput with
  | none _ hh => omega
  | _ =>
    simp only [total_append, total_cons, total_nil]
    omega

lemma HeadPut.freeSum_eq : freeSum B + lost = freeSum A + h := by
  cases hput with
  | none _ hh => omega
  | _ =>
    simp only [freeSum_append, freeSum_cons, freeSum_nil]
    omega

lemma HeadPut.sparse (hA : Sparse A) (hused : EndsUsed A) : Sparse B := by
  cases hput with
  | none => exact hA
  | given A hp hh =>
    have hA' := (sparse_append_cons.mp hA).1
    exact sparse_append_cons.mpr ⟨hA', List.IsChain.nil, fun hpos => by omega⟩
  | kept A hh =>
    refine sparse_append_cons.mpr ⟨hA, List.IsChain.nil, fun _ => ⟨hused, ?_⟩⟩
    intro n hn
    cases hn

lemma HeadPut.solid (hA : Solid A) : Solid B := by
  cases hput with
  | none => exact hA
  | given A hp hh =>
    have hA' := (solid_append_cons.mp hA).1
    exact solid_append_cons.mpr ⟨hA', fun _ => by omega, forall_mem_nil _⟩
  | kept A hh => exact solid_append_cons.mpr ⟨hA, fun _ => by omega, forall_mem_nil _⟩

lemma HeadPut.mem_layout {y : ℕ} (hmem : (o, -(y : ℤ)) ∈ layout Int.natAbs 0 A) :
    ∃ y' : ℕ, y ≤ y' ∧ (o, -(y' : ℤ)) ∈ layout Int.natAbs 0 B := by
  cases hput with
  | none => exact ⟨y, le_rfl, hmem⟩
  | given A hp hh =>
    rcases mem_layout_append.mp hmem with hmem | hmem
    · exact ⟨y, le_rfl, mem_layout_append.mpr (.inl hmem)⟩
    · rcases mem_layout_cons.mp hmem with ⟨rfl, rfl⟩ | hnil
      · refine ⟨y + h.toNat, Nat.le_add_right _ _, mem_layout_append.mpr (.inr ?_)⟩
        exact mem_layout_cons.mpr (.inl ⟨rfl, by omega⟩)
      · cases hnil
  | kept A hh => exact ⟨y, le_rfl, mem_layout_append.mpr (.inl hmem)⟩

end

section

variable (hput : TailPut size x y C C')
include hput

lemma TailPut.size_le : size ≤ y ∧ y ≤ x := by
  cases hput with
  | keep _ hle => exact ⟨hle, le_rfl⟩
  | cut _ hlt => exact ⟨le_rfl, hlt.le⟩

lemma TailPut.total_eq : (total Int.natAbs C' : ℤ) + y = total Int.natAbs C + x := by
  cases hput with
  | keep => rfl
  | cut _ hlt =>
    rw [total_cons]
    omega

lemma TailPut.freeSum_eq : freeSum C' + y = freeSum C + x := by
  cases hput with
  | keep => rfl
  | cut _ hlt =>
    rw [freeSum_cons]
    omega

lemma TailPut.sparse (hC : Sparse C) (hused : BeginsUsed C) : Sparse C' := by
  cases hput with
  | keep => exact hC
  | cut => exact sparse_cons.mpr ⟨hC, fun _ => hused⟩

lemma TailPut.nonzero (hC : ∀ z ∈ C, z ≠ 0) : ∀ z ∈ C', z ≠ 0 := by
  cases hput with
  | keep => exact hC
  | cut _ hlt => exact forall_mem_cons.mpr ⟨by omega, hC⟩

lemma TailPut.mem_layout {off off' : ℕ} {z : ℤ}
    (hoff : (off' : ℤ) + x = off + y) (hmem : (o, z) ∈ layout Int.natAbs off C) :
    (o, z) ∈ layout Int.natAbs off' C' := by
  cases hput with
  | keep =>
    obtain rfl : off' = off := by omega
    exact hmem
  | cut _ hlt =>
    have hback : off' + (x - size).natAbs = off := by omega
    refine mem_layout_cons.mpr (.inr ?_)
    rw [hback]
    exact hmem

end

variable {n k : ℕ} {map : List ℤ} {freeSize hint hint' cur : ℤ}

lemma MapOk.take (hok : MapOk n (A ++ cur :: C) freeSize hint) (hsize : 1 ≤ size) (hcur : 0 < cur)
    (hhead : HeadPut h A B lost) (htail : TailPut size (cur - h) y C C')
    (hB : ∀ z ∈ B, z ≤ hint') (hC : ∀ z ∈ C', z ≤ hint') (hnonneg : 0 ≤ hint')
    (hlt : hint' < 2 ^ 31) : MapOk n (B ++ -y :: C') (freeSize - lost - y) hint' := by
  obtain ⟨hsum, hfree, hsparse, hsolid, -, -, -⟩ := hok
  obtain ⟨hsA, hsC, hused⟩ := sparse_append_cons.mp hsparse
  obtain ⟨hendA, hbeginC⟩ := hused hcur
  obtain ⟨hnA, -, hnC⟩ := solid_append_cons.mp hsolid
  have hy := htail.size_le
  refine ⟨?_, ?_, ?_, ?_, ?_, hnonneg, hlt⟩
  · have hB := hhead.total_eq
    have hC' := htail.total_eq
    rw [total_append, total_cons] at hsum ⊢
    omega
  · have hB := hhead.freeSum_eq
    have hC' := htail.freeSum_eq
    rw [freeSum_append, freeSum_cons] at hfree ⊢
    omega
  · exact sparse_append_cons.mpr
      ⟨hhead.sparse hsA hendA, htail.sparse hsC hbeginC, fun hpos => by omega⟩
  · exact solid_append_cons.mpr ⟨hhead.solid hnA, fun _ => by omega, htail.nonzero hnC⟩
  · intro z hz
    rcases mem_append.mp hz with hz | hz
    · exact hB z hz
    · rcases mem_cons.mp hz with rfl | hz
      · omega
      · exact hC z hz

lemma Holds.take (ha : Holds (A ++ cur :: C) a) (hpos : 0 < a.size) (hcur : 0 < cur)
    (hsize : 1 ≤ size) (hhead : HeadPut h A B lost) (htail : TailPut size (cur - h) y C C') :
    Holds (B ++ -y :: C') a ∧ a.off ≠ total Int.natAbs B := by
  obtain ⟨w, hw, hmem⟩ := ha
  have hy := htail.size_le
  have hB := hhead.total_eq
  rcases mem_layout_append.mp hmem with hmem | hmem
  · obtain ⟨w', hw', hmem'⟩ := hhead.mem_layout hmem
    refine ⟨⟨w', hw.trans hw', mem_layout_append.mpr (.inl hmem')⟩, ?_⟩
    have hend := end_le_total hmem'
    omega
  · rcases mem_layout_cons.mp hmem with ⟨-, hw'⟩ | hmem
    · omega
    · have hle := le_of_mem_layout hmem
      refine ⟨⟨w, hw, mem_layout_append.mpr (.inr (mem_layout_cons.mpr (.inr ?_)))⟩, by omega⟩
      exact htail.mem_layout (by omega) hmem

variable {m : ℕ}

lemma Holds.new (hput : TailPut size (cur - h) y C C') {al : ℕ} (hm : (m : ℤ) = size) :
    Holds (B ++ -y :: C') ⟨total Int.natAbs B, m, al⟩ := by
  have hy := hput.size_le
  have hcast : -((y.toNat : ℕ) : ℤ) = -y := by omega
  refine ⟨y.toNat, by dsimp only; omega, ?_⟩
  rw [hcast]
  have hmem := mem_layout_middle natAbs B C' 0 (-y)
  rw [Nat.zero_add] at hmem
  exact hmem

variable {chunk : PcpuChunk}

lemma MapOk.takes {m : ℤ} (hok : MapOk n chunk.map chunk.freeSize chunk.contigHint)
    (hn : n < 2 ^ 31) (hsplit : chunk.map = A ++ cur :: C) (hsize : 1 ≤ size)
    (hroom : headTo k (total Int.natAbs A) + size ≤ cur)
    (hslots : chunk.map.length + 2 ≤ chunk.mapAlloc) (hm : 0 ≤ m) (hmlt : m < 2 ^ 31)
    (hA : ∀ z ∈ A, z ≤ m) :
    Takes chunk size A.reverse cur C (total Int.natAbs A) (headTo k (total Int.natAbs A)) m := by
  obtain ⟨hsum, hfree, hsparse, -, hhint, -, hlt⟩ := hok
  have hle := freeSum_le chunk.map
  have hfreeA := freeSum_nonneg A
  have hfreeC := freeSum_nonneg C
  rw [hsplit] at hsum hsparse hhint hslots
  obtain ⟨hendA, -⟩ := (sparse_append_cons.mp hsparse).2.2 (by omega)
  have htotal : total natAbs A + (cur.natAbs + total natAbs C) = n := by
    rw [← hsum, total_append, total_cons]
  have hsumfree : chunk.freeSize = freeSum A + (max cur 0 + freeSum C) := by
    rw [hfree, hsplit, freeSum_append, freeSum_cons]
  have hall : total natAbs chunk.map = n := by
    rw [hsplit]
    exact hsum
  refine ⟨hsize, natCast_nonneg _, hroom, by omega, ?_, ?_, natCast_nonneg _, by omega,
    by omega, by omega, ?_, hm, hmlt, ?_, ?_, hlt⟩
  · intro hnil
    rw [reverse_eq_nil_iff.mp hnil, total_nil, headTo_zero]
    rfl
  · intro p hp
    rw [List.head?_reverse] at hp
    have hmem : p.natAbs ≤ total natAbs A := len_le_total (mem_of_mem_getLast? hp)
    have hused := hendA p hp
    exact ⟨by omega, hused⟩
  · rw [length_append, length_cons] at hslots
    rw [length_reverse]
    omega
  · intro z hz
    exact hA z (mem_reverse.mp hz)
  · intro z hz
    exact hhint z (mem_append_right A (mem_cons_of_mem cur hz))

/-- **`pcpu_alloc_area`** returns an aligned area that no other area has, or there is no room. -/
lemma pcpuAllocArea_spec {unit : ℕ} (hgood : Good unit n chunk) (hn : n < 2 ^ 31) (hk : k ≤ 12)
    (hm : 1 ≤ m) (hfit : m + 2 ^ k ≤ 2 ^ 31) (hslots : chunk.map.length + 2 ≤ chunk.mapAlloc) :
    ∃ chunk' r, pcpuAllocArea unit chunk m (2 ^ k : ℕ) = some (chunk', r) ∧ Good unit n chunk' ∧
      (r = -1 ∧ chunk'.map = chunk.map ∧ NoRoom k m chunk.map ∨
        ∃ off : ℕ, r = off ∧ 2 ^ k ∣ off ∧ (∃ x ∈ chunk.map, (m : ℤ) ≤ x) ∧
          Holds chunk'.map ⟨off, m, 2 ^ k⟩ ∧
          ∀ a : Area, 0 < a.size → Holds chunk.map a → Holds chunk'.map a ∧ a.off ≠ off) := by
  have hok := hgood.map
  rcases allocWalk_spec unit hk (by omega : (1 : ℤ) ≤ m) (by exact_mod_cast hfit)
      (by rw [hok.sum]; exact hn) chunk.map [] 0 rfl le_rfl (by norm_num)
      (forall_mem_nil _)
      (by intro off cur hmem; cases hmem) with
    ⟨hnone, hint, hhint, hnonneg, hlt, heq⟩ |
    ⟨A, cur, C, mc, hsplit, hroom, hmc, hmclt, hA, heq⟩
  · have hgood' : Good unit n (pcpuChunkRelocate unit { chunk with contigHint := hint }
        (pcpuChunkSlot unit chunk)) :=
      hgood.relocate ⟨hok.sum, hok.free, hok.sparse, hok.solid, hhint, hnonneg, hlt⟩ rfl rfl
    exact ⟨_, _, heq, hgood', .inl ⟨rfl, relocate_map _, hnone⟩⟩
  · have htakes := hok.takes hn hsplit (by omega) hroom hslots hmc hmclt hA
    obtain ⟨B, lost, y, C', hint, hhead, htail, hB, hC, hnonneg, hlt, htake⟩ :=
      takeArea_spec unit htakes
    rw [reverse_reverse] at hhead
    rw [hsplit] at hok
    have hcur : 0 < cur := by omega
    have htotal : total natAbs B = total natAbs A + headTo k (total natAbs A) := by
      have h := hhead.total_eq
      exact_mod_cast h
    refine ⟨_, _, heq.trans htake, hgood.relocate
      (hok.take (by omega) hcur hhead htail hB hC hnonneg hlt) rfl rfl, .inr ?_⟩
    refine ⟨total natAbs B, ?_, ?_, ⟨cur, ?_, by omega⟩, ?_, ?_⟩
    · rw [htotal]
      push_cast
      rfl
    · rw [htotal]
      exact dvd_add_headTo k _
    · rw [hsplit]
      exact mem_append_right A mem_cons_self
    · rw [relocate_map]
      exact Holds.new htail rfl
    · intro a hpos ha
      rw [relocate_map]
      rw [hsplit] at ha
      exact ha.take hpos hcur (by omega) hhead htail

end

section

variable {n o : ℕ} {x y : ℤ} {A C : List ℤ} {a : Area}

lemma freeWalk_spec (rest front : List ℤ)
    (hcov : total Int.natAbs front + total Int.natAbs rest < 2 ^ 31)
    (hmem : (o, x) ∈ layout Int.natAbs (total Int.natAbs front) rest) :
    ∃ A cur C, rest = A ++ cur :: C ∧ total Int.natAbs front + total Int.natAbs A = o ∧
      freeWalk o front rest (total Int.natAbs front) = some ⟨A.reverse ++ front, cur, C⟩ := by
  induction rest generalizing front with
  | nil => cases hmem
  | cons cur rest ih =>
    unfold freeWalk
    by_cases hhere : (total natAbs front : ℤ) = o
    · rw [if_pos hhere]
      exact ⟨[], cur, rest, rfl, by exact_mod_cast hhere, rfl⟩
    · rw [if_neg hhere]
      rw [total_cons] at hcov
      have hnext : toInt ((total natAbs front : ℤ) + |cur|) =
          (total natAbs (cur :: front) : ℕ) := by
        rw [total_cons, ← natCast_natAbs, add_comm cur.natAbs]
        exact toInt_of_range (by omega) (by omega)
      have hlater : (o, x) ∈ layout natAbs (total natAbs (cur :: front)) rest := by
        rcases mem_layout_cons.mp hmem with ⟨heq, -⟩ | hlater
        · exact absurd (by exact_mod_cast heq.symm) hhere
        · rw [total_cons, add_comm cur.natAbs]
          exact hlater
      obtain ⟨A, c, C, rfl, ho, heq⟩ := ih (cur :: front) (by rw [total_cons]; omega) hlater
      refine ⟨cur :: A, c, C, rfl, ?_, ?_⟩
      · rw [total_cons] at ho ⊢
        omega
      · rw [hnext, heq, reverse_cons, append_assoc, singleton_append]

variable {p : Place} {freeSize hint : ℤ}

structure Opened (n : ℕ) (p : Place) (freeSize hint : ℤ) : Prop where
  cur_pos : 0 < p.cur
  sum : total Int.natAbs p.front + p.cur + total Int.natAbs p.rest = n
  free : freeSize = freeSum p.front.reverse + p.cur + freeSum p.rest
  sparse_front : Sparse p.front.reverse
  sparse_rest : Sparse p.rest
  solid : Solid p.front.reverse
  nonzero : ∀ z ∈ p.rest, z ≠ 0
  hint_front : ∀ z ∈ p.front, z ≤ hint
  hint_rest : ∀ z ∈ p.rest, z ≤ hint
  hint_nonneg : 0 ≤ hint
  hint_lt : hint < 2 ^ 31

def Beside (p : Place) (a : Area) : Prop :=
  ∃ y : ℕ, a.size ≤ y ∧ ((a.off, -(y : ℤ)) ∈ layout Int.natAbs 0 p.front.reverse ∨
    (a.off, -(y : ℤ)) ∈ layout Int.natAbs (total Int.natAbs p.front + p.cur.toNat) p.rest)

section

variable (h : Opened n p freeSize hint)
include h

variable (hn : n < 2 ^ 31)
include hn

lemma Opened.mergePrev :
    Opened n (mergePrev p) freeSize hint ∧ EndsUsed (Percpu.mergePrev p).front.reverse ∧
      ∀ a : Area, 0 < a.size → Beside p a → Beside (Percpu.mergePrev p) a := by
  obtain ⟨front, cur, rest⟩ := p
  unfold Percpu.mergePrev
  cases front with
  | nil => exact ⟨h, fun q hq => (by cases hq), fun _ _ ha => ha⟩
  | cons q front =>
    dsimp only
    by_cases hq : 0 ≤ q
    · rw [if_pos hq]
      obtain ⟨hcur, hsum, hfree, hsf, hsr, hsolid, hnz, hhf, hhr, hh0, hhl⟩ := h
      dsimp only at hcur hsum hfree hsf hsr hsolid hnz hhf hhr
      rw [reverse_cons] at hfree hsf hsolid
      rw [freeSum_append, freeSum_cons, freeSum_nil] at hfree
      obtain ⟨hsf', -, hused⟩ := sparse_append_cons.mp hsf
      obtain ⟨hsolid', hzero, -⟩ := solid_append_cons.mp hsolid
      rw [total_cons] at hsum
      have hjoin : toInt (q + cur) = q + cur := toInt_of_range (by omega) (by omega)
      rw [hjoin]
      refine ⟨⟨by dsimp only; omega, by dsimp only; omega, by dsimp only; omega, hsf', hsr,
        hsolid', hnz, fun z hz => hhf z (mem_cons_of_mem q hz), hhr, hh0, hhl⟩, ?_, ?_⟩
      · rcases hq.eq_or_lt with rfl | hpos
        · -- an entry 0 is the first one
          have hnil : front.reverse = [] := by
            by_contra hne
            exact hzero hne rfl
          rw [hnil]
          intro z hz
          cases hz
        · exact (hused hpos).1
      · rintro a hpos ⟨y, hy, hmem⟩
        refine ⟨y, hy, ?_⟩
        rw [reverse_cons, mem_layout_append, total_cons] at hmem
        rcases hmem with (hmem | hmem) | hmem
        · exact .inl hmem
        · rcases mem_layout_cons.mp hmem with ⟨-, hqy⟩ | hnil
          · omega
          · cases hnil
        · have hbase : total natAbs front + (q + cur).toNat =
              q.natAbs + total natAbs front + cur.toNat := by omega
          rw [hbase]
          exact .inr hmem
    · rw [if_neg hq]
      refine ⟨h, ?_, fun _ _ ha => ha⟩
      intro z hz
      rw [List.getLast?_reverse, List.head?_cons, Option.mem_some_iff] at hz
      omega

lemma Opened.mergeNext :
    Opened n (mergeNext p) freeSize hint ∧ BeginsUsed (Percpu.mergeNext p).rest ∧
      (Percpu.mergeNext p).front = p.front ∧
      ∀ a : Area, 0 < a.size → Beside p a → Beside (Percpu.mergeNext p) a := by
  obtain ⟨front, cur, rest⟩ := p
  unfold Percpu.mergeNext
  cases rest with
  | nil => exact ⟨h, fun q hq => (by cases hq), rfl, fun _ _ ha => ha⟩
  | cons q rest =>
    dsimp only
    by_cases hq : 0 ≤ q
    · rw [if_pos hq]
      obtain ⟨hcur, hsum, hfree, hsf, hsr, hsolid, hnz, hhf, hhr, hh0, hhl⟩ := h
      dsimp only at hcur hsum hfree hsf hsr hsolid hnz hhf hhr
      rw [freeSum_cons] at hfree
      obtain ⟨hsr', hused⟩ := sparse_cons.mp hsr
      obtain ⟨hzero, hnz'⟩ := forall_mem_cons.mp hnz
      rw [total_cons] at hsum
      have hjoin : toInt (cur + q) = cur + q := toInt_of_range (by omega) (by omega)
      rw [hjoin]
      refine ⟨⟨by dsimp only; omega, by dsimp only; omega, by dsimp only; omega, hsf, hsr',
        hsolid, hnz', hhf, fun z hz => hhr z (mem_cons_of_mem q hz), hh0, hhl⟩,
        hused (by omega), rfl, ?_⟩
      rintro a hpos ⟨y, hy, hmem⟩
      refine ⟨y, hy, ?_⟩
      rcases hmem with hmem | hmem
      · exact .inl hmem
      · rcases mem_layout_cons.mp hmem with ⟨-, hqy⟩ | hmem
        · omega
        · have hbase : total natAbs front + (cur + q).toNat =
              total natAbs front + cur.toNat + q.natAbs := by omega
          rw [hbase]
          exact .inr hmem
    · rw [if_neg hq]
      refine ⟨h, ?_, rfl, fun _ _ ha => ha⟩
      intro z hz
      rw [List.head?_cons, Option.mem_some_iff] at hz
      omega

lemma Opened.closed (hend : EndsUsed p.front.reverse) (hbegin : BeginsUsed p.rest) :
    MapOk n p.toList freeSize (max p.cur hint) := by
  obtain ⟨hcur, hsum, hfree, hsf, hsr, hsolid, hnz, hhf, hhr, hh0, hhl⟩ := h
  unfold Place.toList
  refine ⟨?_, ?_, ?_, ?_, ?_, hh0.trans (le_max_right _ _), max_lt (by omega) hhl⟩
  · rw [total_append, total_cons, total_reverse]
    omega
  · rw [freeSum_append, freeSum_cons]
    omega
  · exact sparse_append_cons.mpr ⟨hsf, hsr, fun _ => ⟨hend, hbegin⟩⟩
  · exact solid_append_cons.mpr ⟨hsolid, fun _ => by omega, hnz⟩
  · exact forall_mem_append.mpr ⟨fun z hz => (hhf z (mem_reverse.mp hz)).trans (le_max_right _ _),
      forall_mem_cons.mpr ⟨le_max_left _ _, fun z hz => (hhr z hz).trans (le_max_right _ _)⟩⟩

end

lemma Beside.holds (hcur : 0 < p.cur) (h : Beside p a) : Holds p.toList a := by
  obtain ⟨y, hy, hmem⟩ := h
  refine ⟨y, hy, mem_layout_append.mpr ?_⟩
  rcases hmem with hmem | hmem
  · exact .inl hmem
  · have hbase : 0 + total natAbs p.front.reverse + p.cur.natAbs =
        total natAbs p.front + p.cur.toNat := by
      rw [total_reverse]
      omega
    refine .inr (mem_layout_cons.mpr (.inr ?_))
    rw [hbase]
    exact hmem

variable {unit : ℕ} {chunk : PcpuChunk} {y : ℕ}

lemma MapOk.opened (hok : MapOk n (A ++ -(y : ℤ) :: C) freeSize hint) (hy : 0 < y) :
    Opened n ⟨A.reverse, y, C⟩ (freeSize + y) hint := by
  obtain ⟨hsum, hfree, hsparse, hsolid, hhint, hnonneg, hlt⟩ := hok
  obtain ⟨hsA, hsC, -⟩ := sparse_append_cons.mp hsparse
  obtain ⟨hnA, -, hnC⟩ := solid_append_cons.mp hsolid
  rw [total_append, total_cons] at hsum
  rw [freeSum_append, freeSum_cons] at hfree
  refine ⟨by dsimp only; omega, ?_, ?_, ?_, hsC, ?_, hnC, ?_, ?_, hnonneg, hlt⟩
  · dsimp only
    rw [total_reverse]
    omega
  · dsimp only
    rw [reverse_reverse]
    omega
  · rw [reverse_reverse]
    exact hsA
  · rw [reverse_reverse]
    exact hnA
  · intro z hz
    exact hhint z (mem_append_left _ (mem_reverse.mp hz))
  · intro z hz
    exact hhint z (mem_append_right A (mem_cons_of_mem _ hz))

lemma Holds.beside (h : Holds (A ++ -(y : ℤ) :: C) a) (hne : a.off ≠ total Int.natAbs A) :
    Beside ⟨A.reverse, y, C⟩ a := by
  obtain ⟨w, hw, hmem⟩ := h
  refine ⟨w, hw, ?_⟩
  rw [reverse_reverse, total_reverse]
  rcases mem_layout_append.mp hmem with hmem | hmem
  · exact .inl hmem
  · rcases mem_layout_cons.mp hmem with ⟨heq, -⟩ | hmem
    · omega
    · have hbase : total natAbs A + (y : ℤ).toNat =
          0 + total natAbs A + (-(y : ℤ)).natAbs := by omega
      rw [hbase]
      exact .inr hmem

lemma Holds.mergeNext_zero (h : Holds (0 :: C) a) (hpos : 0 < a.size) (hoff : a.off = 0)
    (hC : ∀ z ∈ C, z ≠ 0) : mergeNext ⟨[], 0, C⟩ = ⟨[], 0, C⟩ := by
  obtain ⟨w, hw, hmem⟩ := h
  rw [hoff] at hmem
  rcases mem_layout_cons.mp hmem with ⟨-, hzero⟩ | hmem
  · omega
  · cases C with
    | nil => rfl
    | cons c C =>
      have hneg : ¬ 0 ≤ c := by
        rcases mem_layout_cons.mp hmem with ⟨-, hc⟩ | hmem
        · omega
        · have hle := le_of_mem_layout hmem
          have hc := hC c mem_cons_self
          omega
      unfold mergeNext
      dsimp only
      rw [if_neg hneg]

/-- **`pcpu_free_area`** frees the area, and no other. In a first chunk with an entry 0 in front,
the area at the offset 0 stays allocated. -/
lemma pcpuFreeArea_spec (hgood : Good unit n chunk) (hn : n < 2 ^ 31) (ha : Holds chunk.map a)
    (hpos : 0 < a.size) :
    ∃ chunk', pcpuFreeArea unit chunk a.off = some chunk' ∧ Good unit n chunk' ∧
      ∀ b : Area, 0 < b.size → Holds chunk.map b → b.off ≠ a.off → Holds chunk'.map b := by
  have hok := hgood.map
  obtain ⟨w, hw, hmem⟩ := id ha
  obtain ⟨A, cur, C, hsplit, hoff, hwalk⟩ := freeWalk_spec chunk.map []
    (by rw [total_nil, hok.sum]; omega) hmem
  rw [total_nil, Nat.zero_add] at hoff
  rw [append_nil, total_nil, Nat.cast_zero] at hwalk
  have hlt := freeSum_le chunk.map
  have hge := freeSum_nonneg chunk.map
  have hfree := hok.free
  have hsum := hok.sum
  unfold pcpuFreeArea
  rw [hwalk]
  dsimp only [Option.bind_eq_bind, Option.bind_some]
  by_cases hzero : cur = 0
  · -- nothing is freed
    subst hzero
    have hsolid := hok.solid
    rw [hsplit] at hsolid
    obtain ⟨-, hfirst, hC⟩ := solid_append_cons.mp hsolid
    have hA : A = [] := by
      by_contra hne
      exact hfirst hne rfl
    subst hA
    rw [nil_append] at hsplit
    rw [hsplit] at ha
    have hsame : mergeNext (mergePrev ⟨[], 0, C⟩) = ⟨[], 0, C⟩ :=
      ha.mergeNext_zero hpos hoff.symm hC
    have hzero : toInt (-0) = 0 := rfl
    rw [if_neg (lt_irrefl _), hzero, reverse_nil, hsame, add_zero,
      toInt_of_range (by omega) (by omega)]
    refine ⟨_, rfl, hgood.relocate ?_ rfl rfl, ?_⟩
    · rw [max_eq_right hok.hint_nonneg]
      show MapOk n (0 :: C) _ _
      rw [← hsplit]
      exact hok
    · intro b _ hb _
      rw [relocate_map]
      rw [hsplit] at hb
      exact hb
  · have hcur : cur = -(w : ℤ) := by
      have hmem' := mem_layout_middle natAbs A C 0 cur
      rw [← hsplit, Nat.zero_add, hoff] at hmem'
      obtain hle | hle | ⟨-, heq⟩ := apart_or_eq hmem' hmem
      · omega
      · omega
      · exact heq
    subst hcur
    rw [hsplit] at hok
    have hopen := hok.opened (by omega)
    have hwlt : chunk.freeSize + w ≤ n := by
      have h := hopen.sum
      have hle := freeSum_le A
      have hle' := freeSum_le C
      have hfree' := hok.free
      rw [freeSum_append, freeSum_cons] at hfree'
      dsimp only at h
      rw [total_reverse] at h
      omega
    obtain ⟨hopen', hend, hbeside⟩ := hopen.mergePrev hn
    obtain ⟨hopen'', hbegin, hfront, hbeside'⟩ := hopen'.mergeNext hn
    rw [← hfront] at hend
    have hint : toInt (w : ℤ) = w := toInt_of_range (by omega) (by omega)
    rw [if_neg (by omega), neg_neg, hint, toInt_of_range (by omega) (by omega)]
    refine ⟨_, rfl, hgood.relocate (hopen''.closed hn hend hbegin) rfl rfl, ?_⟩
    intro b hb hheld hne
    rw [relocate_map]
    rw [hsplit] at hheld
    refine Beside.holds hopen''.cur_pos (hbeside' b hb (hbeside b hb (hheld.beside ?_)))
    rw [hoff]
    exact hne

end

inductive PcpuCall
  | alloc (size al : ℤ)
  | free (freeme : ℤ)
  | extend

def call (unit : ℕ) : Component (PcpuChunk × List Area) PcpuCall ℤ
  | (chunk, live), .alloc size al =>
    (pcpuAllocArea unit chunk size al).map fun r =>
      ((r.1, if 0 ≤ r.2 then ⟨r.2.toNat, size.toNat, al.toNat⟩ :: live else live), r.2)
  | (chunk, live), .free freeme =>
    (pcpuFreeArea unit chunk freeme).map fun chunk =>
      ((chunk, live.filter fun a => (a.off : ℤ) ≠ freeme), 0)
  | (chunk, live), .extend =>
    some ((pcpuExtendAreaMap chunk (pcpuNeedToExtend chunk), live), 0)

/-- The calls that are made: areas of at least a byte, aligned to a power of two up to the page
size, with two entries of the map to spare; only areas in use are freed. -/
def Allowed (s : PcpuChunk × List Area) : PcpuCall → Prop
  | .alloc size al => 1 ≤ size ∧ (∃ k ≤ 12, al = (2 ^ k : ℕ)) ∧ size + al ≤ 2 ^ 31 ∧
      s.1.map.length + 2 ≤ s.1.mapAlloc
  | .free freeme => ∃ a ∈ s.2, (a.off : ℤ) = freeme
  | .extend => True

/-- The chunks that a run begins with: one of `pcpu_alloc_chunk`, or one of the first ones.
Without static and reserved areas, as without `CONFIG_SMP`, the first chunk is a whole unit. -/
inductive IsStart (unit : ℕ) : ℕ → PcpuChunk → Prop
  | alloc : IsStart unit unit (pcpuChunkRelocate unit (pcpuAllocChunk unit) (-1))
  | static (s r d : ℕ) (h : s + r + d ≤ unit) :
      IsStart unit (if r ≠ 0 then s + r else s + d) (pcpuSetupFirstChunk unit s r d).1
  | dynamic (s r d : ℕ) (h : s + r + d ≤ unit) {chunk : PcpuChunk}
      (hsome : (pcpuSetupFirstChunk unit s r d).2 = some chunk) : IsStart unit (s + r + d) chunk

structure Valid (unit n : ℕ) (s : PcpuChunk × List Area) : Prop where
  good : Good unit n s.1
  held : ∀ a ∈ s.2, 0 < a.size ∧ a.align ∣ a.off ∧ Holds s.1.map a
  distinct : s.2.Pairwise fun a b => a.off ≠ b.off

section

variable {unit n : ℕ} {chunk : PcpuChunk}

lemma good_relocate_start (h : MapOk n chunk.map chunk.freeSize chunk.contigHint) :
    Good unit n (pcpuChunkRelocate unit chunk (-1)) := by
  unfold pcpuChunkRelocate
  dsimp only
  split_ifs with hmove
  · exact ⟨h, fun _ => rfl⟩
  · refine ⟨h, fun hfalse => absurd ⟨hfalse, ?_⟩ hmove⟩
    omega

lemma mapOk_firstChunk {s d : ℕ} (reserved : Bool) (hd : d < 2 ^ 31) :
    MapOk (s + d) (firstChunk s d reserved).map (firstChunk s d reserved).freeSize
      (firstChunk s d reserved).contigHint := by
  unfold firstChunk
  dsimp only
  by_cases hzero : d = 0
  · subst hzero
    rw [if_neg nofun]
    refine ⟨by simp, by simp, isChain_singleton _, forall_mem_nil _, ?_, by simp, by simp⟩
    intro x hx
    rw [mem_singleton.mp hx]
    simp
  · rw [if_pos hzero]
    refine ⟨by simp, by simp, ?_, ?_, ?_, by simp, by omega⟩
    · exact sparse_cons.mpr ⟨isChain_singleton _, fun hpos => by omega⟩
    · exact forall_mem_cons.mpr ⟨by exact_mod_cast hzero, forall_mem_nil _⟩
    · refine forall_mem_cons.mpr ⟨by omega, forall_mem_cons.mpr ⟨le_rfl, ?_⟩⟩
      exact forall_mem_nil _

lemma IsStart.le (h : IsStart unit n chunk) : n ≤ unit := by
  cases h with
  | alloc => exact le_rfl
  | static s r d h =>
    split_ifs <;> omega
  | dynamic s r d h => exact h

lemma IsStart.good (h : IsStart unit n chunk) (hunit : unit < 2 ^ 31) : Good unit n chunk := by
  cases h with
  | alloc =>
    refine good_relocate_start ⟨by simp [pcpuAllocChunk], by simp [pcpuAllocChunk],
      isChain_singleton _, forall_mem_nil _, ?_, natCast_nonneg _,
      (by exact_mod_cast hunit : (unit : ℤ) < 2 ^ 31)⟩
    intro x hx
    rw [mem_singleton.mp hx]
    exact le_rfl
  | static s r d h =>
    unfold pcpuSetupFirstChunk
    by_cases hr : r ≠ 0
    · rw [if_pos hr, if_pos hr]
      split_ifs
      · exact ⟨mapOk_firstChunk true (by omega), nofun⟩
      · exact good_relocate_start (mapOk_firstChunk true (by omega))
    · rw [if_neg hr, if_neg hr]
      exact good_relocate_start (mapOk_firstChunk false (by omega))
  | dynamic s r d h hsome =>
    unfold pcpuSetupFirstChunk at hsome
    split_ifs at hsome
    · cases hsome
      exact good_relocate_start (mapOk_firstChunk false (by omega))

end

section

variable {unit n : ℕ} {s s' : PcpuChunk × List Area} {i : PcpuCall} {r : ℤ} {chunk : PcpuChunk}

lemma Good.extend (h : Good unit n chunk) (m : ℕ) :
    Good unit n (pcpuExtendAreaMap chunk m) ∧ (pcpuExtendAreaMap chunk m).map = chunk.map := by
  unfold pcpuExtendAreaMap
  split_ifs
  · exact ⟨h, rfl⟩
  · exact ⟨⟨h.map, h.slot⟩, rfl⟩

variable {map : List ℤ} {a : Area}

lemma Holds.end_le (h : Holds map a) : a.off + a.size ≤ total Int.natAbs map := by
  obtain ⟨y, hy, hmem⟩ := h
  have hend := end_le_total hmem
  omega

lemma Holds.apart {b : Area} (ha : Holds map a) (hb : Holds map b) (hne : a.off ≠ b.off)
    : a.off + a.size ≤ b.off ∨ b.off + b.size ≤ a.off := by
  obtain ⟨y, hy, hmem⟩ := ha
  obtain ⟨w, hw, hmem'⟩ := hb
  rcases Nat.lt_or_gt_of_ne hne with hlt | hgt
  · have hend := end_le_of_lt hmem hmem' hlt
    omega
  · have hend := end_le_of_lt hmem' hmem hgt
    omega

variable {x y : ℤ}

lemma sizeToSlot_mono (hx : 0 ≤ x) (hxy : x ≤ y) (hy : y < 2 ^ 31) :
    sizeToSlot x ≤ sizeToSlot y := by
  have hux := toU32_of_lt hx (by omega)
  have huy := toU32_of_lt (hx.trans hxy) (by omega)
  have hsize : fls x ≤ fls y := Nat.size_le_size (by omega)
  unfold sizeToSlot
  omega

lemma pcpuSizeToSlot_mono (hx : 0 ≤ x) (hxy : x ≤ y) (hy : y ≤ unit) (hunit : unit < 2 ^ 31)
    : pcpuSizeToSlot unit x ≤ pcpuSizeToSlot unit y := by
  have hmono := sizeToSlot_mono hx (hxy.trans hy) (by omega)
  unfold pcpuSizeToSlot pcpuNrSlots
  split_ifs with h1 h2
  · exact le_rfl
  · omega
  · omega
  · exact sizeToSlot_mono hx hxy (by omega)

/-- `pcpu_alloc` does not skip the chunk: its hint is not too small for the area, nor is the slot
it is in, unless the area is smaller than an `int`. Chunks with less room, or a hint for less, are
in slot 0 and are not looked at. -/
def Searched (unit : ℕ) (chunk : PcpuChunk) (size : ℤ) : Prop :=
  size ≤ chunk.contigHint ∧
    (chunk.reserved = false → 4 ≤ size → pcpuSizeToSlot unit size ≤ chunk.slot)

lemma Good.searched {size : ℤ} (h : Good unit n chunk) (hn : n ≤ unit) (hunit : unit < 2 ^ 31)
    (hx : x ∈ chunk.map) (hle : size ≤ x) : Searched unit chunk size := by
  have hhint := h.map.hint x hx
  refine ⟨hle.trans hhint, fun hres hfour => ?_⟩
  have hfree := h.map.free
  have hsum := h.map.sum
  have hbound := freeSum_le chunk.map
  have hxfree : x ≤ freeSum chunk.map := by
    obtain ⟨A, C, hsplit⟩ := append_of_mem hx
    have hA := freeSum_nonneg A
    have hC := freeSum_nonneg C
    rw [hsplit, freeSum_append, freeSum_cons]
    omega
  rw [h.slot hres]
  unfold pcpuChunkSlot
  have hhint4 : ¬ toU32 chunk.contigHint < 4 := by
    rw [toU32_lt_four_iff h.map.hint_nonneg h.map.hint_lt]
    omega
  have hfree4 : ¬ toU32 chunk.freeSize < 4 := by
    rw [toU32_lt_four_iff (by omega) (by omega)]
    omega
  rw [if_neg (not_or.mpr ⟨hfree4, hhint4⟩)]
  exact pcpuSizeToSlot_mono (by omega) (by omega) (by omega) hunit

def Returns (unit n : ℕ) (s : PcpuChunk × List Area) : PcpuCall → ℤ → Prop
  | .alloc size al, r => r = -1 ∨ 0 ≤ r ∧ al ∣ r ∧ r + size ≤ n ∧ Searched unit s.1 size ∧
      ∀ a ∈ s.2, r + size ≤ a.off ∨ (a.off : ℤ) + a.size ≤ r
  | .free _, r => r = 0
  | .extend, r => r = 0

lemma Valid.free (h : Valid unit n s) (hn : n < 2 ^ 31) (ha : a ∈ s.2) :
    ∃ chunk, pcpuFreeArea unit s.1 a.off = some chunk ∧
      Valid unit n (chunk, s.2.filter fun b => (b.off : ℤ) ≠ a.off) := by
  obtain ⟨hpos, -, hheld⟩ := h.held a ha
  obtain ⟨chunk, hfree, hgood, hothers⟩ := pcpuFreeArea_spec h.good hn hheld hpos
  refine ⟨chunk, hfree, hgood, ?_, h.distinct.filter _⟩
  intro b hb
  obtain ⟨hb, hne⟩ := mem_filter.mp hb
  obtain ⟨hposb, halign, hheldb⟩ := h.held b hb
  refine ⟨hposb, halign, hothers b hposb hheldb ?_⟩
  simpa using hne

lemma Valid.alloc (h : Valid unit n s) (hn : n ≤ unit) (hunit : unit < 2 ^ 31) {k m : ℕ}
    (hk : k ≤ 12) (hm : 1 ≤ m) (hfit : m + 2 ^ k ≤ 2 ^ 31)
    (hslots : s.1.map.length + 2 ≤ s.1.mapAlloc) :
    ∃ chunk r, pcpuAllocArea unit s.1 m (2 ^ k : ℕ) = some (chunk, r) ∧
      Valid unit n (chunk, if 0 ≤ r then ⟨r.toNat, m, 2 ^ k⟩ :: s.2 else s.2) ∧
      Returns unit n s (.alloc m (2 ^ k : ℕ)) r := by
  obtain ⟨chunk, r, halloc, hgood, hcases⟩ :=
    pcpuAllocArea_spec h.good (by omega) hk hm hfit hslots
  refine ⟨chunk, r, halloc, ?_⟩
  rcases hcases with ⟨rfl, hmap, -⟩ | ⟨off, rfl, hdvd, ⟨x, hx, hle⟩, hnew, hothers⟩
  · rw [if_neg (by norm_num)]
    refine ⟨⟨hgood, fun a ha => ?_, h.distinct⟩, .inl rfl⟩
    obtain ⟨hpos, halign, hheld⟩ := h.held a ha
    exact ⟨hpos, halign, hmap ▸ hheld⟩
  · rw [if_pos (natCast_nonneg off), toNat_natCast]
    have hkept : ∀ a ∈ s.2, Holds chunk.map a ∧ a.off ≠ off := fun a ha =>
      hothers a (h.held a ha).1 (h.held a ha).2.2
    refine ⟨⟨hgood, ?_, ?_⟩, .inr ⟨natCast_nonneg off, by exact_mod_cast hdvd, ?_,
      h.good.searched hn hunit hx hle, ?_⟩⟩
    · refine forall_mem_cons.mpr ⟨⟨hm, hdvd, hnew⟩, fun a ha => ?_⟩
      obtain ⟨hpos, halign, -⟩ := h.held a ha
      exact ⟨hpos, halign, (hkept a ha).1⟩
    · exact pairwise_cons.mpr ⟨fun a ha => (hkept a ha).2.symm, h.distinct⟩
    · have hend := hnew.end_le
      rw [hgood.map.sum] at hend
      exact_mod_cast hend
    · intro a ha
      have hapart := hnew.apart (hkept a ha).1 (hkept a ha).2.symm
      exact_mod_cast hapart

/-- **A call** is made, keeps the chunk valid and returns what it should. -/
lemma Valid.call (h : Valid unit n s) (hn : n ≤ unit) (hunit : unit < 2 ^ 31)
    (hallowed : Allowed s i) :
    ∃ s' r, call unit s i = some (s', r) ∧ Valid unit n s' ∧ Returns unit n s i r := by
  cases i with
  | alloc size al =>
    obtain ⟨hsize, ⟨k, hk, rfl⟩, hfit, hslots⟩ := hallowed
    obtain ⟨m, rfl⟩ : ∃ m : ℕ, size = m := ⟨size.toNat, by omega⟩
    obtain ⟨chunk, r, halloc, hvalid, hret⟩ := h.alloc hn hunit hk (by exact_mod_cast hsize)
      (by exact_mod_cast hfit) hslots
    refine ⟨_, r, ?_, hvalid, hret⟩
    show (pcpuAllocArea unit s.1 m (2 ^ k : ℕ)).map _ = _
    rw [halloc]
    rfl
  | free freeme =>
    obtain ⟨a, ha, rfl⟩ := hallowed
    obtain ⟨chunk, hfree, hvalid⟩ := h.free (by omega) ha
    refine ⟨_, 0, ?_, hvalid, rfl⟩
    show (pcpuFreeArea unit s.1 a.off).map _ = _
    rw [hfree]
    rfl
  | extend =>
    obtain ⟨hgood, hmap⟩ := h.good.extend (pcpuNeedToExtend s.1)
    refine ⟨(pcpuExtendAreaMap s.1 (pcpuNeedToExtend s.1), s.2), 0, rfl, ⟨hgood, ?_, h.distinct⟩,
      rfl⟩
    intro a ha
    rw [hmap]
    exact h.held a ha

lemma reach_valid (hstart : IsStart unit n chunk) (hunit : unit < 2 ^ 31)
    (h : (call unit).Reach Allowed (chunk, []) s) : Valid unit n s := by
  refine h.invariant ⟨hstart.good hunit, forall_mem_nil _, List.Pairwise.nil⟩ ?_
  intro s s' i r hvalid hallowed hcall
  obtain ⟨t, r', hcall', hvalid', -⟩ := hvalid.call hstart.le hunit hallowed
  rw [hcall'] at hcall
  cases hcall
  exact hvalid'

end

/-- In every state that calls lead to, the entries of the map add up to the bytes of the chunk,
`free_size` is the sum of the positive ones, no two neighbours are free, the hint is not below a
free entry, and the areas in use are aligned, inside and apart; and every call is made, with an area
that is apart from these, or -1. -/
theorem percpu_areas {unit n : ℕ} {chunk : PcpuChunk} (hstart : IsStart unit n chunk)
    (hunit : unit < 2 ^ 31) {s : PcpuChunk × List Area}
    (hreach : (call unit).Reach Allowed (chunk, []) s) :
    (s.1.map.map Int.natAbs).sum = n ∧ s.1.freeSize = (s.1.map.filter fun x => 0 < x).sum ∧
      (s.1.map.IsChain fun a b => ¬ (0 < a ∧ 0 < b)) ∧ (∀ x ∈ s.1.map, x ≤ s.1.contigHint) ∧
      (∀ a ∈ s.2, 0 < a.size ∧ a.align ∣ a.off ∧ a.off + a.size ≤ n) ∧
      (s.2.Pairwise fun a b => a.off + a.size ≤ b.off ∨ b.off + b.size ≤ a.off) ∧
      ∀ i, Allowed s i → ∃ s' r, call unit s i = some (s', r) ∧ Returns unit n s i r := by
  have hvalid := reach_valid hstart hunit hreach
  have hmap := hvalid.good.map
  refine ⟨hmap.sum, hmap.free, hmap.sparse, hmap.hint, ?_, ?_, ?_⟩
  · intro a ha
    obtain ⟨hpos, halign, hheld⟩ := hvalid.held a ha
    exact ⟨hpos, halign, hmap.sum ▸ hheld.end_le⟩
  · refine hvalid.distinct.imp_of_mem ?_
    intro a b ha hb hne
    exact (hvalid.held a ha).2.2.apart (hvalid.held b hb).2.2 hne
  · intro i hallowed
    obtain ⟨s', r, hcall, -, hret⟩ := hvalid.call hstart.le hunit hallowed
    exact ⟨s', r, hcall, hret⟩

/-- An area is taken behind the first byte, where bytes are left free before and behind it, and the
first byte is given back. -/
theorem percpu_areas_aligned : ∃ s, (call 32768).Reach Allowed
        (pcpuChunkRelocate 32768 (pcpuAllocChunk 32768) (-1), []) s ∧ s.2 = [⟨8, 8, 8⟩] ∧
      (s.1.map.map Int.natAbs).sum = 32768 := by
  have hcalls :
      call 32768 (pcpuChunkRelocate 32768 (pcpuAllocChunk 32768) (-1), []) (.alloc 1 1) =
        some ((⟨32767, 32767, 16, [-1, 32767], 12, false⟩, [⟨0, 1, 1⟩]), 0) ∧
      call 32768 (⟨32767, 32767, 16, [-1, 32767], 12, false⟩, [⟨0, 1, 1⟩]) (.alloc 8 8) =
        some ((⟨32759, 32752, 16, [-1, 7, -8, 32752], 12, false⟩, [⟨8, 8, 8⟩, ⟨0, 1, 1⟩]), 8) ∧
      call 32768 (⟨32759, 32752, 16, [-1, 7, -8, 32752], 12, false⟩, [⟨8, 8, 8⟩, ⟨0, 1, 1⟩])
        (.free 0) = some ((⟨32760, 32752, 16, [8, -8, 32752], 12, false⟩, [⟨8, 8, 8⟩]), 0) := by
    decide +kernel
  have hreach : (call 32768).Reach Allowed _ _ := .call (i := .free 0) (.call (i := .alloc 8 8)
    (.call (i := .alloc 1 1) .start
      ⟨by norm_num, ⟨0, by norm_num, by norm_num⟩, by norm_num, by decide⟩ hcalls.1)
      ⟨by norm_num, ⟨3, by norm_num, by norm_num⟩, by norm_num, by decide⟩ hcalls.2.1)
    ⟨_, mem_cons_of_mem _ mem_cons_self, rfl⟩ hcalls.2.2
  exact ⟨_, hreach, rfl, (percpu_areas .alloc (by norm_num) hreach).1⟩

/-- Counterexample: the sum of the bytes in front and of a size close to `INT_MAX` is negative. Of
the 32767 bytes that are left, an area of 2147483647 bytes is taken. And a chunk with three bytes
left is in slot 0, where `pcpu_alloc` does not look for an area of two. -/
theorem percpu_area_too_large : ∃ s : PcpuChunk × List Area,
      (call 32768).run (pcpuChunkRelocate 32768 (pcpuAllocChunk 32768) (-1), [])
        [.alloc 1 1, .alloc 2147483647 2] = some (s, [0, 2]) ∧
      s.1.map.length + 2 ≤ s.1.mapAlloc ∧ (s.1.map.map Int.natAbs).sum ≠ 32768 ∧
      (∃ a ∈ s.2, 32768 < a.off + a.size) ∧
      (call 32768).run (pcpuChunkRelocate 32768 (pcpuAllocChunk 32768) (-1), [])
        [.alloc 3 1, .alloc 32765 1, .free 0] =
        some ((⟨3, 3, 16, [3, -32765], 0, false⟩, [⟨3, 32765, 1⟩]), [0, 3, 0]) ∧
      0 < pcpuSizeToSlot 32768 2 := by
  refine ⟨(⟨-2147450881, 0, 16, [-2, -2147483647, -2147450881], 0, false⟩,
    [⟨2, 2147483647, 2⟩, ⟨0, 1, 1⟩]), by decide +kernel, by decide, by decide,
    ⟨⟨2, 2147483647, 2⟩, mem_cons_self, by decide⟩, by decide +kernel, by decide⟩

end Am335x.Percpu
