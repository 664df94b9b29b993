import Am335xKernel.Fs.Cramfs.Nand

/-!
# Reading the image: `cramfs_read` of `fs/cramfs/inode.c`

`cramfs_read` translates the start of the range through the bad-block map, and returns a pointer
into one of two static buffers. Each buffer holds four pages that follow each other on the
partition, so what comes back is the range of the partition that begins where the first byte of the
image range lies, whatever the buffers held before.

That is the range of the image exactly if no bad block lies between its first and its last byte.
Both hold of a partition below 4 GiB and of a mount that had memory for the map: `cramfs_fill_nand`
goes on without one, and `cramfs_nand_transfer_offset` compares with the size cut to 32 bits.
-/

namespace Am335x.Cramfs

open Function List Option Nat

def pageCacheSize : ℕ := 4096

/-- `BLKS_PER_BUF * PAGE_CACHE_SIZE`. -/
def bufferSize : ℕ := 4 * pageCacheSize

structure Device where
  nand : NandInfo
  isize : ℕ
  flash : ℕ → UInt8

/-- One of the `read_buffers` with its `buffer_blocknr` and `buffer_dev`. -/
structure ReadBuffer where
  blocknr : ℕ
  dev : Option ℕ
  data : ℕ → UInt8

structure Buffers where
  bufs : Fin 2 → ReadBuffer
  next : Fin 2

def nextBuffer (ix : Fin 2) : Fin 2 := if ix = 0 then 1 else 0

def ReadBuffer.hit (b : ReadBuffer) (sb blocknr offset len : ℕ) : Option ℕ :=
  if b.dev ≠ some sb then none
  else if blocknr < b.blocknr then none
  else
    let blkOffset := ((blocknr - b.blocknr) * pageCacheSize + offset) % 2 ^ 32
    if bufferSize < (blkOffset + len) % 2 ^ 32 then none else some blkOffset

def Buffers.find (B : Buffers) (sb blocknr offset len : ℕ) : Option (Fin 2 × ℕ) :=
  match (B.bufs 0).hit sb blocknr offset len with
  | some o => some (0, o)
  | none => ((B.bufs 1).hit sb blocknr offset len).map ((1, ·))

def Device.pages (d : Device) (blocknr : ℕ) (j : ℕ) : UInt8 :=
  if blocknr + j / pageCacheSize < d.isize / pageCacheSize then
    d.flash ((blocknr + j / pageCacheSize) * pageCacheSize + j % pageCacheSize)
  else 0

/-- `cramfs_read`; the pointer it returns is a buffer and a place in it. -/
def cramfsRead (d : ℕ → Device) (sb offset len : ℕ) (B : Buffers) :
    Buffers × Option (Fin 2 × ℕ) :=
  if len = 0 then (B, none)
  else
    let offset := cramfsNandTransferOffset (d sb).nand offset
    let blocknr := offset / pageCacheSize
    let offset := offset % pageCacheSize
    match B.find sb blocknr offset len with
    | some ptr => (B, some ptr)
    | none =>
      ({ bufs := update B.bufs B.next
          { blocknr := blocknr, dev := some sb, data := (d sb).pages blocknr }
         next := nextBuffer B.next }, some (B.next, offset))

def Buffers.bytes (B : Buffers) (len : ℕ) (ptr : Fin 2 × ℕ) : Option (List UInt8) :=
  if ptr.2 + len ≤ bufferSize then
    some ((List.range len).map fun j => (B.bufs ptr.1).data (ptr.2 + j))
  else none

structure Request where
  sb : ℕ
  offset : ℕ
  len : ℕ
  deriving DecidableEq

def reads (d : ℕ → Device) : Buffers → List Request → List (Option (List UInt8))
  | _, [] => []
  | B, c :: cs =>
    let r := cramfsRead d c.sb c.offset c.len B
    r.2.bind (r.1.bytes c.len) :: reads d r.1 cs

namespace Partition

variable {p : Partition} {x len : ℕ}

lemma place_div (x : ℕ) : p.place x / p.erasesize = p.goodBlock (x / p.erasesize) := by
  rw [place, add_comm, add_mul_div_right _ _ erasesize_pos,
    div_eq_of_lt (mod_lt _ erasesize_pos), zero_add]

lemma place_succ (x : ℕ) :
    (x + 1) / p.erasesize = x / p.erasesize ∧ p.place (x + 1) = p.place x + 1 ∨
      (x + 1) / p.erasesize = x / p.erasesize + 1 ∧
        p.place x + 1 = (p.goodBlock (x / p.erasesize) + 1) * p.erasesize ∧
        p.place (x + 1) = p.goodBlock (x / p.erasesize + 1) * p.erasesize := by
  have hpos := erasesize_pos (p := p)
  have hdiv := div_add_mod' x p.erasesize
  have hmod := mod_lt x hpos
  unfold place
  generalize x / p.erasesize = k at *
  generalize x % p.erasesize = m at *
  by_cases hlast : m + 1 = p.erasesize
  · right
    have hx : x + 1 = (k + 1) * p.erasesize := by
      rw [add_mul, one_mul]
      omega
    rw [hx, Nat.mul_div_cancel _ hpos, Nat.mul_mod_left]
    refine ⟨rfl, ?_, rfl⟩
    rw [add_mul, one_mul]
    omega
  · left
    have hx : x + 1 = (m + 1) + k * p.erasesize := by omega
    rw [hx, add_mul_div_right _ _ hpos, add_mul_mod_self_right,
      div_eq_of_lt (by omega), mod_eq_of_lt (by omega), zero_add]
    exact ⟨rfl, by omega⟩

lemma place_lt_succ (x : ℕ) : p.place x + 1 ≤ p.place (x + 1) := by
  rcases p.place_succ x with ⟨_, h⟩ | ⟨_, h1, h2⟩
  · exact h.ge
  · rw [h1, h2]
    exact mul_le_mul_right _ (p.goodBlock_strictMono (by omega))

lemma place_add_le (x m : ℕ) : p.place x + m ≤ p.place (x + m) := by
  induction m with
  | zero => exact le_rfl
  | succ m ih =>
    have hstep := p.place_lt_succ (x + m)
    rw [← add_assoc x m 1]
    omega

def Unbroken (p : Partition) (offset len : ℕ) : Prop :=
  ∀ b, p.goodBlock (offset / p.erasesize) ≤ b →
    b ≤ p.goodBlock ((offset + len - 1) / p.erasesize) → p.bad b = false

lemma place_add_of_good (hgood : ∀ j < len, p.Usable ((p.place x + j) / p.erasesize)) :
    ∀ j < len, p.place (x + j) = p.place x + j := by
  intro j
  induction j with
  | zero => intro _; rfl
  | succ j ih =>
    intro hj
    have hprev := ih (by omega)
    rcases p.place_succ (x + j) with ⟨_, h⟩ | ⟨_, h1, h2⟩
    · rw [← add_assoc, h, hprev]
      omega
    · -- the block behind the last one is good, so it is the next one of the image
      have hnext := hgood (j + 1) hj
      rw [← add_assoc, ← hprev, h1, Nat.mul_div_cancel _ erasesize_pos] at hnext
      obtain ⟨k, hk⟩ := exists_goodBlock hnext
      have hlt : (x + j) / p.erasesize < k := by
        rw [← p.goodBlock_strictMono.lt_iff_lt, hk]
        exact lt_succ_self _
      have hle : p.goodBlock ((x + j) / p.erasesize + 1) ≤ p.goodBlock k :=
        p.goodBlock_strictMono.monotone hlt
      have hge : p.goodBlock ((x + j) / p.erasesize) < p.goodBlock ((x + j) / p.erasesize + 1) :=
        p.goodBlock_strictMono (by omega)
      have heq : p.goodBlock ((x + j) / p.erasesize + 1) =
          p.goodBlock ((x + j) / p.erasesize) + 1 := by omega
      rw [← add_assoc, h2, heq, ← h1, hprev]
      omega

lemma usable_of_unbroken (h : p.Unbroken x len) :
    ∀ j < len, p.Usable ((p.place x + j) / p.erasesize) := by
  intro j hj
  refine .inr (h _ ?_ ?_)
  · rw [← place_div]
    exact Nat.div_le_div_right (by omega)
  · rw [← place_div]
    apply Nat.div_le_div_right
    have hadd := p.place_add_le x (len - 1)
    rw [show x + (len - 1) = x + len - 1 by omega] at hadd
    omega

lemma unbroken_of_usable (hlen : 0 < len) (hlast : (x + len - 1) / p.erasesize < p.goodCount)
    (h : ∀ j < len, p.Usable ((p.place x + j) / p.erasesize)) : p.Unbroken x len := by
  intro b hle hge
  have hblock := goodBlock_lt hlast
  have hrow := place_add_of_good h (len - 1) (by omega)
  rw [show x + (len - 1) = x + len - 1 by omega] at hrow
  -- a byte of the range that lies in block `b`
  obtain ⟨j, hj, hb⟩ : ∃ j < len, (p.place x + j) / p.erasesize = b := by
    rw [← place_div] at hle hge
    by_cases heq : p.place x / p.erasesize = b
    · exact ⟨0, hlen, heq⟩
    · have hlt : p.place x / p.erasesize < b := by omega
      have h1 : p.place x < b * p.erasesize := (div_lt_iff_lt_mul erasesize_pos).mp hlt
      have h2 : b * p.erasesize ≤ p.place x + (len - 1) := by
        rw [← hrow]
        exact (le_div_iff_mul_le erasesize_pos).mp hge
      refine ⟨b * p.erasesize - p.place x, by omega, ?_⟩
      rw [Nat.add_sub_cancel' h1.le, Nat.mul_div_cancel _ erasesize_pos]
  rcases hb ▸ h j hj with hout | hgood
  · omega
  · exact hgood

end Partition

/-- What is known of the buffers after a mount and any calls: one that belongs
to a super block is invalid or holds the four pages its number names. -/
def Buffers.Valid (B : Buffers) (d : ℕ → Device) : Prop :=
  ∀ i sb, (B.bufs i).dev = some sb →
    (B.bufs i).blocknr = 2 ^ 32 - 1 ∨ (B.bufs i).data = (d sb).pages (B.bufs i).blocknr

/-- The buffers as `cramfs_fill_super` leaves them: `buffer_blocknr` is `-1`. -/
def Buffers.Fresh (B : Buffers) : Prop := ∀ i, (B.bufs i).blocknr = 2 ^ 32 - 1

lemma Buffers.Fresh.valid {B : Buffers} (h : B.Fresh) (d : ℕ → Device) : B.Valid d :=
  fun i _ _ => .inl (h i)

lemma Device.pages_eq {d : Device} (hd : pageCacheSize ∣ d.isize) {blocknr j a : ℕ}
    (ha : blocknr * pageCacheSize + j = a) (h : a < d.isize) : d.pages blocknr j = d.flash a := by
  subst ha
  have hpage : pageCacheSize = 4096 := rfl
  obtain ⟨n, hn⟩ := hd
  rw [hpage] at h hn
  have hin : blocknr + j / pageCacheSize < d.isize / pageCacheSize := by
    rw [hpage]
    omega
  have haddr : (blocknr + j / pageCacheSize) * pageCacheSize + j % pageCacheSize =
      blocknr * pageCacheSize + j := by
    rw [hpage]
    omega
  rw [Device.pages, if_pos hin, haddr]

/-- A super block mounted on a partition: there was memory for the map, and it is the one that
`cramfs_fill_nand` computed. -/
structure Mounted (p : Partition) (d : Device) : Prop where
  nand : ∃ fuel, cramfsFillNand p true fuel = some d.nand
  isize : d.isize = p.size

lemma Mounted.dvd {p : Partition} {d : Device} (h : Mounted p d) : pageCacheSize ∣ d.isize := by
  rw [h.isize]
  exact (pow_dvd_pow 2 p.page_le).mul_left _

section

variable {p : Partition} {d : ℕ → Device} {sb offset len : ℕ} {B : Buffers} {ptr : Fin 2 × ℕ}

lemma place_add_lt_size (hfit : offset + len ≤ p.capacity) {j : ℕ} (hj : j < len) :
    p.place offset + j < p.size :=
  lt_of_le_of_lt (p.place_add_le offset j) (place_lt_size (by omega))

lemma ReadBuffer.hit_eq_some {b : ReadBuffer} {blocknr o : ℕ}
    (h : b.hit sb blocknr offset len = some o) : b.dev = some sb ∧ b.blocknr ≤ blocknr ∧
      o = ((blocknr - b.blocknr) * pageCacheSize + offset) % 2 ^ 32 ∧
      (o + len) % 2 ^ 32 ≤ bufferSize := by
  unfold ReadBuffer.hit at h
  dsimp only at h
  split_ifs at h with hdev hlt hover
  obtain rfl := some.inj h
  exact ⟨not_not.mp hdev, not_lt.mp hlt, rfl, not_lt.mp hover⟩

lemma hit_spec (hsmall : p.size < 2 ^ 32) (hm : Mounted p (d sb)) (hB : B.Valid d)
    (hlen : 0 < len) (hfit : offset + len ≤ p.capacity) {i : Fin 2} {o : ℕ}
    (hhit : (B.bufs i).hit sb (p.place offset / pageCacheSize)
      (p.place offset % pageCacheSize) len = some o) : o + len ≤ bufferSize ∧
      ∀ j < len, (B.bufs i).data (o + j) = (d sb).flash (p.place offset + j) := by
  have hin := place_add_lt_size hfit (sub_lt hlen one_pos)
  have hpage : pageCacheSize = 4096 := rfl
  obtain ⟨hdev, hle, ho, hmax⟩ := ReadBuffer.hit_eq_some hhit
  rw [hpage] at hle ho
  -- nothing wraps around: all sums stay below the size of the partition
  have ho' : (B.bufs i).blocknr * 4096 + o = p.place offset := by
    rw [ho, mod_eq_of_lt (by omega)]
    omega
  rw [mod_eq_of_lt (by omega)] at hmax
  refine ⟨hmax, ?_⟩
  rcases hB i sb hdev with hinv | hdata
  · omega
  · intro j hj
    have hj' := place_add_lt_size hfit hj
    have hplace : (B.bufs i).blocknr * pageCacheSize + (o + j) = p.place offset + j := by
      rw [hpage]
      omega
    rw [hdata]
    exact Device.pages_eq hm.dvd hplace (hm.isize ▸ hj')

lemma find_spec (hsmall : p.size < 2 ^ 32) (hm : Mounted p (d sb)) (hB : B.Valid d)
    (hlen : 0 < len) (hfit : offset + len ≤ p.capacity)
    (hfind : B.find sb (p.place offset / pageCacheSize) (p.place offset % pageCacheSize) len =
      some ptr) : ptr.2 + len ≤ bufferSize ∧
      ∀ j < len, (B.bufs ptr.1).data (ptr.2 + j) = (d sb).flash (p.place offset + j) := by
  unfold Buffers.find at hfind
  split at hfind
  · rename_i o hhit
    cases hfind
    exact hit_spec hsmall hm hB hlen hfit hhit
  · obtain ⟨o, hhit, rfl⟩ := map_eq_some_iff.mp hfind
    exact hit_spec hsmall hm hB hlen hfit hhit

lemma Buffers.bytes_eq {f : ℕ → UInt8}
    (h : ptr.2 + len ≤ bufferSize ∧ ∀ j < len, (B.bufs ptr.1).data (ptr.2 + j) = f j) :
    B.bytes len ptr = some ((List.range len).map f) := by
  rw [Buffers.bytes, if_pos h.1, some.injEq]
  apply map_congr_left
  intro j hj
  exact h.2 j (mem_range.mp hj)

/-- **What a call returns**: the bytes of the partition from the place of the
first byte of the range on, whatever the buffers held. -/
lemma cramfsRead_spec (hsmall : p.size < 2 ^ 32) (hm : Mounted p (d sb)) (hB : B.Valid d)
    (hlen : 0 < len) (hmax : len ≤ bufferSize - pageCacheSize) (hfit : offset + len ≤ p.capacity) :
    (cramfsRead d sb offset len B).1.Valid d ∧
      (cramfsRead d sb offset len B).2.bind ((cramfsRead d sb offset len B).1.bytes len) =
        some ((List.range len).map fun j => (d sb).flash (p.place offset + j)) := by
  obtain ⟨fuel, hinfo⟩ := hm.nand
  have htransfer := fillNand_transferOffset hsmall hinfo (x := offset) (by omega)
  have hne : len ≠ 0 := by omega
  simp only [cramfsRead, if_neg hne, htransfer]
  split
  · rename_i ptr hfind
    exact ⟨hB, Buffers.bytes_eq (find_spec hsmall hm hB hlen hfit hfind)⟩
  · refine ⟨?_, Buffers.bytes_eq ⟨?_, ?_⟩⟩
    · intro i sb' hdev
      by_cases hi : i = B.next
      · subst hi
        simp only [update_self, some.injEq] at hdev ⊢
        exact .inr (by rw [hdev])
      · simp only [update_of_ne hi] at hdev ⊢
        exact hB i sb' hdev
    · have hoff : p.place offset % pageCacheSize < pageCacheSize :=
        mod_lt _ (by decide)
      have hpage : pageCacheSize ≤ bufferSize := by decide
      omega
    · intro j hj
      have hj' := place_add_lt_size hfit hj
      have hplace : p.place offset / pageCacheSize * pageCacheSize +
          (p.place offset % pageCacheSize + j) = p.place offset + j := by
        rw [← add_assoc, div_add_mod']
      simp only [update_self]
      exact Device.pages_eq hm.dvd hplace (hm.isize ▸ hj')

end

/-- An image of `L` bytes, written to the good blocks of a partition in order.
Nothing is known of the other bytes of the partition. -/
structure Volume (p : Partition) (L : ℕ) where
  image : ℕ → UInt8
  flash : ℕ → UInt8
  holds : ∀ x < L, flash (p.place x) = image x

def Volume.range {p : Partition} {L : ℕ} (v : Volume p L) (offset len : ℕ) : List UInt8 :=
  (List.range len).map fun j => v.image (offset + j)

/-- A request inside its image, of a length that `cramfs_read` is used for. -/
structure Request.Fits (c : Request) (L : ℕ → ℕ) : Prop where
  pos : 0 < c.len
  le : c.len ≤ bufferSize - pageCacheSize
  inside : c.offset + c.len ≤ L c.sb

/-- Whatever the images hold and whatever is left in the buffers, the super
blocks of the requests can be mounted and every request returns its bytes. -/
def ReadsRight (P : ℕ → Partition) (L : ℕ → ℕ) (cs : List Request) : Prop :=
  ∀ (V : ∀ sb, Volume (P sb) (L sb)) (B : Buffers), B.Fresh →
    ∃ d : ℕ → Device,
      (∀ c ∈ cs, Mounted (P c.sb) (d c.sb) ∧ (d c.sb).flash = (V c.sb).flash) ∧
      reads d B cs = cs.map fun c => some ((V c.sb).range c.offset c.len)

section

variable {P : ℕ → Partition} {L : ℕ → ℕ} {cs : List Request} {c : Request}

lemma reads_spec (hsmall : ∀ sb, (P sb).size < 2 ^ 32) (hL : ∀ sb, L sb ≤ (P sb).capacity)
    {d : ℕ → Device} (cs : List Request) :
    ∀ B : Buffers, B.Valid d → (∀ c ∈ cs, Mounted (P c.sb) (d c.sb)) → (∀ c ∈ cs, c.Fits L) →
      reads d B cs = cs.map fun c =>
        some ((List.range c.len).map fun j => (d c.sb).flash ((P c.sb).place c.offset + j)) := by
  induction cs with
  | nil => intro B _ _ _; rfl
  | cons c cs ih =>
    intro B hB hm hfits
    obtain ⟨hmc, hm⟩ := forall_mem_cons.mp hm
    obtain ⟨hc, hfits⟩ := forall_mem_cons.mp hfits
    obtain ⟨hB', hbytes⟩ :=
      cramfsRead_spec (hsmall c.sb) hmc hB hc.pos hc.le (hc.inside.trans (hL c.sb))
    rw [reads, map_cons, hbytes]
    congr 1
    exact ih _ hB' hm hfits

lemma blocks_pos_of_fits (hL : ∀ sb, L sb ≤ (P sb).capacity)
    (hc : c.Fits L) : 0 < (P c.sb).blocks := by
  have hcap : 0 < (P c.sb).capacity := by
    have := hc.pos
    have := hc.inside
    have := hL c.sb
    omega
  exact lt_of_lt_of_le (Nat.pos_of_mul_pos_right hcap) (P c.sb).goodCount_le

def Volume.zeroes (p : Partition) {L : ℕ} (hL : L ≤ p.capacity) : Volume p L where
  image := fun _ => 0
  flash := fun a => if p.Usable (a / p.erasesize) then 0 else 1
  holds := by
    intro x hx
    rw [Partition.place_div, if_pos]
    exact .inr (Partition.goodBlock_good (div_lt_goodCount (by omega)))

lemma unbroken_of_reads (hsmall : ∀ sb, (P sb).size < 2 ^ 32)
    (hL : ∀ sb, L sb ≤ (P sb).capacity) (hfits : ∀ c ∈ cs, c.Fits L) (h : ReadsRight P L cs)
    (hc : c ∈ cs) :
    (P c.sb).bad ((P c.sb).blocks - 1) = false ∧ (P c.sb).Unbroken c.offset c.len := by
  have hfit := hfits c hc
  have hpos := hfit.pos
  have hinside := hfit.inside
  have hcap := hL c.sb
  obtain ⟨d, hd, hreads⟩ := h (fun sb => Volume.zeroes (P sb) (hL sb))
    ⟨fun _ => ⟨2 ^ 32 - 1, none, fun _ => 0⟩, 0⟩ (fun _ => rfl)
  obtain ⟨hm, hflash⟩ := hd c hc
  obtain ⟨fuel, hinfo⟩ := hm.nand
  refine ⟨(fillNand_terminates_iff (hsmall c.sb) (blocks_pos_of_fits hL hfit)).mp
    ⟨fuel, _, hinfo⟩, ?_⟩
  have hB : Buffers.Valid ⟨fun _ => ⟨2 ^ 32 - 1, none, fun _ => 0⟩, 0⟩ d :=
    Buffers.Fresh.valid (fun _ => rfl) d
  rw [reads_spec hsmall hL cs _ hB (fun e he => (hd e he).1) hfits] at hreads
  have hbytes := some.inj (map_inj_left.mp hreads c hc)
  apply Partition.unbroken_of_usable hpos
  · exact div_lt_goodCount (by omega)
  · intro j hj
    have hj' := map_inj_left.mp hbytes j (mem_range.mpr hj)
    rw [hflash] at hj'
    by_contra hbad
    simp [Volume.zeroes, hbad] at hj'

lemma exists_mounted {p : Partition} (hsmall : p.size < 2 ^ 32) (hpos : 0 < p.blocks)
    (hlast : p.bad (p.blocks - 1) = false) (flash : ℕ → UInt8) :
    ∃ d, Mounted p d ∧ d.flash = flash := by
  obtain ⟨fuel, info, hinfo⟩ := (fillNand_terminates_iff hsmall hpos).mpr hlast
  exact ⟨⟨info, p.size, flash⟩, ⟨⟨fuel, hinfo⟩, rfl⟩, rfl⟩

lemma reads_of_unbroken (hsmall : ∀ sb, (P sb).size < 2 ^ 32)
    (hL : ∀ sb, L sb ≤ (P sb).capacity) (hfits : ∀ c ∈ cs, c.Fits L)
    (h : ∀ c ∈ cs, (P c.sb).bad ((P c.sb).blocks - 1) = false ∧
      (P c.sb).Unbroken c.offset c.len) : ReadsRight P L cs := by
  intro V B hB
  have hdevice : ∀ sb, ∃ d : Device, (∃ c ∈ cs, c.sb = sb) →
      Mounted (P sb) d ∧ d.flash = (V sb).flash := by
    intro sb
    by_cases hsb : ∃ c ∈ cs, c.sb = sb
    · obtain ⟨c, hc, rfl⟩ := hsb
      obtain ⟨d, hd⟩ := exists_mounted (hsmall c.sb) (blocks_pos_of_fits hL (hfits c hc))
        (h c hc).1 (V c.sb).flash
      exact ⟨d, fun _ => hd⟩
    · exact ⟨⟨⟨0, none, 0⟩, 0, fun _ => 0⟩, fun hc => absurd hc hsb⟩
  choose d hd using hdevice
  have hd' : ∀ c ∈ cs, Mounted (P c.sb) (d c.sb) ∧ (d c.sb).flash = (V c.sb).flash :=
    fun c hc => hd c.sb ⟨c, hc, rfl⟩
  refine ⟨d, hd', ?_⟩
  rw [reads_spec hsmall hL cs B (hB.valid d) (fun c hc => (hd' c hc).1) hfits]
  apply map_congr_left
  intro c hc
  have hfit := hfits c hc
  have hinside := hfit.inside
  congr 1
  apply map_congr_left
  intro j hj
  have hj' := mem_range.mp hj
  rw [(hd' c hc).2, ← Partition.place_add_of_good (Partition.usable_of_unbroken (h c hc).2) j hj']
  exact (V c.sb).holds (c.offset + j) (by omega)

end

/-- On partitions below 4 GiB a sequence of calls returns the bytes of the images, whatever they are
and whatever the buffers held, if and only if for each call the last block of its partition is good
and no bad block lies between the first and the last byte it asks for. -/
theorem reads_right_iff {P : ℕ → Partition} {L : ℕ → ℕ} (hsmall : ∀ sb, (P sb).size < 2 ^ 32)
    (hL : ∀ sb, L sb ≤ (P sb).capacity) {cs : List Request} (hfits : ∀ c ∈ cs, c.Fits L) :
    ReadsRight P L cs ↔ ∀ c ∈ cs, (P c.sb).bad ((P c.sb).blocks - 1) = false ∧
        (P c.sb).Unbroken c.offset c.len :=
  ⟨fun h _ hc => unbroken_of_reads hsmall hL hfits h hc, reads_of_unbroken hsmall hL hfits⟩

def secondBad : Partition where
  shift := 17
  blocks := 4
  bad := fun b => b = 1
  page_le := by decide
  shift_lt := by decide

lemma secondBad_goodBlock_zero : secondBad.goodBlock 0 = 0 :=
  nth_count (p := secondBad.Usable) (n := 0) (by decide)

lemma secondBad_goodBlock_one : secondBad.goodBlock 1 = 2 :=
  nth_count (p := secondBad.Usable) (n := 2) (by decide)

/-- Two reads, each inside a block. -/
theorem reads_right_inside_blocks :
    ReadsRight (fun _ => secondBad) (fun _ => 393216) [⟨0, 76, 12288⟩, ⟨0, 131072, 64⟩] := by
  refine (reads_right_iff (fun _ => by decide) (fun _ => by decide) ?_).mpr ?_
  · simp only [mem_cons, not_mem_nil, or_false, forall_eq_or_imp, forall_eq]
    exact ⟨⟨by decide, by decide, by decide⟩, by decide, by decide, by decide⟩
  · have hblock : ∀ {k b : ℕ}, k ≤ b → b ≤ k → k ≠ 1 → secondBad.bad b = false := by
      intro k b h1 h2 hk
      simp only [secondBad, decide_eq_false_iff_not]
      omega
    simp only [mem_cons, not_mem_nil, or_false, forall_eq_or_imp, forall_eq]
    refine ⟨⟨by decide, ?_⟩, by decide, ?_⟩
    · intro b h1 h2
      rw [show 76 / secondBad.erasesize = 0 by decide, secondBad_goodBlock_zero] at h1
      rw [show (76 + 12288 - 1) / secondBad.erasesize = 0 by decide, secondBad_goodBlock_zero] at h2
      exact hblock h1 h2 (by decide)
    · intro b h1 h2
      rw [show 131072 / secondBad.erasesize = 1 by decide, secondBad_goodBlock_one] at h1
      rw [show (131072 + 64 - 1) / secondBad.erasesize = 1 by decide, secondBad_goodBlock_one] at h2
      exact hblock h1 h2 (by decide)

/-- The image is all zeroes; the two bytes at the end of its first block come back with a byte of
the bad block. -/
theorem read_across_bad_block : ∃ d : ℕ → Device, Mounted secondBad (d 0) ∧
      (d 0).flash = (Volume.zeroes secondBad (L := 393216) (by decide)).flash ∧
      reads d ⟨fun _ => ⟨2 ^ 32 - 1, none, fun _ => 0⟩, 0⟩ [⟨0, 131071, 2⟩] = [some [0, 1]] ∧
      (Volume.zeroes secondBad (L := 393216) (by decide)).range 131071 2 = [0, 0] := by
  obtain ⟨d, hm, hflash⟩ := exists_mounted (p := secondBad) (by decide) (by decide) (by decide)
    (Volume.zeroes secondBad (L := 393216) (by decide)).flash
  refine ⟨fun _ => d, hm, hflash, ?_, rfl⟩
  have hplace : secondBad.place 131071 = 131071 := by
    rw [Partition.place, show 131071 / secondBad.erasesize = 0 by decide, secondBad_goodBlock_zero]
    decide
  rw [reads_spec (P := fun _ => secondBad) (L := fun _ => 393216) (fun _ => by decide)
    (fun _ => by decide) _ _ (Buffers.Fresh.valid (fun _ => rfl) _) (fun c _ => hm)]
  · simp only [map_cons, map_nil, hflash, hplace]
    decide
  · simp only [mem_singleton, forall_eq]
    exact ⟨by decide, by decide, by decide⟩

end Am335x.Cramfs
