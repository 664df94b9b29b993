import Mathlib.Tactic.NormNum
import Am335xKernel.Net.Filter.Run

/-!
# Attributes that a filter looks for

`BPF_S_ANC_NLATTR` replaces `A` by the offset of the first netlink attribute of
type `X` from `A` on, `BPF_S_ANC_NLATTR_NEST` by that of the first one inside of
the attribute at `A`. `nla_find` trusts the length it is given, so what keeps it
inside of the packet are the guards in front of it, and neither does in all
cases:

- `A > skb->len - sizeof(struct nlattr)` is meant to refuse an offset with less
  than a header behind it, but the difference wraps around for a packet shorter
  than a header, and then nearly every offset passes;
- `nla->nla_len > A - skb->len` has its operands the wrong way round. The
  attribute at `A` may be longer than what is left of the packet.
-/

namespace Am335x.Net

open BitVec hiding not_or

/-- Offsets from `skb->head` are taken modulo the size of the address space. -/
def SkBuff.Wraps (skb : SkBuff) : Prop := ∀ i, skb.buf (i + 2 ^ 32) = skb.buf i

/-- An attribute of type `type` at `nla`, its header and its payload between
the offsets `lo` and `hi`. -/
structure IsAttr (skb : SkBuff) (type : ℤ) (lo hi nla : ℕ) : Prop where
  type_eq : (nlaType skb nla : ℤ) = type
  hdrlen_le : nlaHdrlen ≤ nlaLen skb nla
  le : lo ≤ nla
  end_le : nla + nlaLen skb nla ≤ hi

/-- What the two codes are for: the filter ends, or `A` is 0 or an attribute of
type `X` between `lo` and `hi`. -/
def Vm.Reports (vm : Vm) (skb : SkBuff) (lo hi : ℕ) (o : Except Fault Outcome) : Prop :=
  o = .ok (.ret 0) ∨
    ∃ a, o = .ok (vm.setA a) ∧ (a = 0 ∨ IsAttr skb vm.x.toInt lo hi a.toNat)

variable {skb : SkBuff} {head r hi lo : ℕ} {len type : ℤ}

lemma nlaFind_some (h : nlaFind skb head len type = some r) :
    (nlaType skb r : ℤ) = type ∧ nlaHdrlen ≤ nlaLen skb r ∧ head ≤ r ∧
      (r + nlaLen skb r : ℤ) ≤ head + len := by
  fun_induction nlaFind skb head len type with
  | case1 head len hok htype =>
    cases h
    exact ⟨htype, hok.2.1, le_rfl, Int.add_le_add_left hok.2.2 _⟩
  | case2 head len hok htype ih =>
    obtain ⟨heq, hlen, hle, hend⟩ := ih h
    refine ⟨heq, hlen, by omega, ?_⟩
    push_cast at hend
    omega
  | case3 head len hok => cases h

lemma nlaFind_eq_none_of_type {x : BitVec 32} (hx : 2 ^ 14 ≤ x.toNat)
    : nlaFind skb head len x.toInt = none := by
  by_contra hne
  obtain ⟨r, hr⟩ := Option.ne_none_iff_exists'.mp hne
  have htype := (nlaFind_some hr).1
  have hlt : nlaType skb r < 2 ^ 14 := Nat.mod_lt _ (Nat.two_pow_pos 14)
  rw [toInt_eq_toNat_cond] at htype
  have hxlt := x.isLt
  split at htype <;> omega

lemma nlaFind_head (hok : nlaOk skb head len) (htype : (nlaType skb head : ℤ) = type)
    : nlaFind skb head len type = some head := by
  rw [nlaFind, dif_pos hok, if_pos htype]

lemma nlaFind_head_or (h : nlaFind skb head len type = some r)
    : r = head ∨ head + nlaHdrlen ≤ r := by
  rw [nlaFind] at h
  split at h
  · rename_i hok
    split at h
    · exact .inl (Option.some.inj h).symm
    · refine .inr ?_
      have hle := (nlaFind_some h).2.2.1
      have hlen := hok.2.1
      unfold nlaAlign at hle
      omega
  · cases h

lemma attributeAt_last {a l : ℕ} (ha : a + nlaHdrlen = 2 ^ 32) (hl : l < 3 * nlaHdrlen) :
    Vm.attributeAt (nlaFind skb (a + nlaHdrlen) (l - nlaHdrlen) type) = 0 := by
  cases hfind : nlaFind skb (a + nlaHdrlen) (l - nlaHdrlen) type with
  | none => rfl
  | some r =>
    obtain ⟨-, hlen, -, hend⟩ := nlaFind_some hfind
    have hr : r = 2 ^ 32 := by
      rcases nlaFind_head_or hfind with hr | hr
      · rw [hr, ha]
      · omega
    rw [Vm.attributeAt, Option.getD_some, hr]
    rfl

variable {vm : Vm}

lemma reports_of_find (hhi : hi < 2 ^ 32) (hlo : lo ≤ head)
    (hend : nlaHdrlen ≤ len → (head + len : ℤ) ≤ hi) :
    vm.Reports skb lo hi (.ok (vm.setA (Vm.attributeAt (nlaFind skb head len vm.x.toInt)))) := by
  refine .inr ⟨_, rfl, ?_⟩
  cases hfind : nlaFind skb head len vm.x.toInt with
  | none => exact .inl rfl
  | some r =>
    obtain ⟨htype, hlen, hle, hin⟩ := nlaFind_some hfind
    have hin' := hend (by omega)
    have hr : (Vm.attributeAt (some r)).toNat = r := by
      rw [Vm.attributeAt, Option.getD_some, toNat_ofNat]
      exact Nat.mod_eq_of_lt (by omega)
    refine .inr ?_
    rw [hr]
    exact ⟨htype, hlen, by omega, by omega⟩

lemma reports_of_type (hx : 2 ^ 14 ≤ vm.x.toNat) :
    vm.Reports skb lo hi (.ok (vm.setA (Vm.attributeAt (nlaFind skb head len vm.x.toInt)))) := by
  rw [nlaFind_eq_none_of_type hx]
  exact .inr ⟨_, rfl, .inl rfl⟩

variable {a : BitVec 32}

lemma attr_of_reports (h : vm.Reports skb lo hi (.ok (vm.setA a))) (ha : a ≠ 0) :
    IsAttr skb vm.x.toInt lo hi a.toNat := by
  rcases h with hret | ⟨b, heq, hb⟩
  · cases hret
  · obtain rfl : a = b := congrArg Vm.a (Outcome.next.inj (Except.ok.inj heq))
    exact hb.resolve_left ha

/-- A linear packet of `len` bytes in a memory that holds `bytes` from offset
`a` on and zeroes elsewhere. -/
def packetAt (len : BitVec 32) (a : ℕ) (bytes : List (BitVec 8)) : SkBuff :=
  { SkBuff.empty with
    len := len
    buf := fun i => bytes.getD ((i + (2 ^ 32 - a)) % 2 ^ 32) 0 }

/-- The bytes of a `__u16`. -/
def le16 (v : ℕ) : List (BitVec 8) := [BitVec.ofNat 8 v, BitVec.ofNat 8 (v / 2 ^ 8)]

section

variable {len : BitVec 32} {a : ℕ} {bytes : List (BitVec 8)}

lemma packetAt_wraps : (packetAt len a bytes).Wraps := by
  intro i
  simp only [packetAt]
  rw [add_right_comm, Nat.add_mod_right]

variable {j : ℕ}

lemma packetAt_dataAt (ha : a < 2 ^ 32) (hj : j < 2 ^ 32) :
    (packetAt len a bytes).dataAt (a + j) = bytes.getD j 0 := by
  simp only [packetAt, SkBuff.dataAt, SkBuff.empty, zero_add]
  rw [show a + j + (2 ^ 32 - a) = j + 2 ^ 32 by omega, Nat.add_mod_right, Nat.mod_eq_of_lt hj]

lemma packetAt_u16At (ha : a < 2 ^ 32) {v : ℕ} (hj : j + 1 < 2 ^ 32) (hv : v < 2 ^ 16)
    (hlo : bytes.getD j 0 = BitVec.ofNat 8 v)
    (hhi : bytes.getD (j + 1) 0 = BitVec.ofNat 8 (v / 2 ^ 8)) :
    u16At (packetAt len a bytes) (a + j) = v := by
  rw [u16At, packetAt_dataAt ha (by omega), add_assoc, packetAt_dataAt ha hj, hlo, hhi,
    toNat_ofNat, toNat_ofNat]
  omega

end

/-- Registers with which the first code stays inside of a packet of `len`
bytes: the packet has room for a header; or the length that remains, an `int`,
is not positive; or the guard works; or there is no such type. -/
def Vm.keepsInside (vm : Vm) (len : BitVec 32) : Prop :=
  nlaHdrlen ≤ len.toNat ∨ vm.a.toNat ≤ 2 ^ 31 + len.toNat ∨
    2 ^ 32 + len.toNat < vm.a.toNat + nlaHdrlen ∨ 2 ^ 14 ≤ vm.x.toNat

section

variable {vm : Vm}

lemma guard_eq (len a : BitVec 32) :
    a > len - BitVec.ofNat 32 nlaHdrlen ↔ (2 ^ 32 + len.toNat - 4) % 2 ^ 32 < a.toNat := by
  rw [gt_iff_lt, lt_def, toNat_sub]
  simp only [nlaHdrlen, toNat_ofNat]
  have hlen := len.isLt
  rw [show 2 ^ 32 - 4 % 2 ^ 32 + len.toNat = 2 ^ 32 + len.toNat - 4 by omega]

variable {len : BitVec 32}

lemma ancNlattr_reports (skb : SkBuff) (h : vm.keepsInside skb.len) :
    vm.Reports skb 0 skb.len.toNat (.ok (vm.ancNlattr skb)) := by
  unfold Vm.ancNlattr
  by_cases hlinear : skb.isNonlinear = true
  · rw [if_pos hlinear]
    exact .inl rfl
  rw [if_neg hlinear]
  by_cases hguard : vm.a > skb.len - BitVec.ofNat 32 nlaHdrlen
  · rw [if_pos hguard]
    exact .inl rfl
  rw [if_neg hguard]
  by_cases hx : 2 ^ 14 ≤ vm.x.toNat
  · exact reports_of_type hx
  · have hkeep : nlaHdrlen ≤ skb.len.toNat ∨ vm.a.toNat ≤ 2 ^ 31 + skb.len.toNat ∨
        2 ^ 32 + skb.len.toNat < vm.a.toNat + nlaHdrlen := by
      unfold Vm.keepsInside at h
      tauto
    refine reports_of_find skb.len.isLt (Nat.zero_le _) fun hrem => ?_
    rw [guard_eq] at hguard
    rw [BitVec.toInt_eq_toNat_cond, BitVec.toNat_sub] at hrem ⊢
    have hlen := skb.len.isLt
    have ha := vm.a.isLt
    unfold nlaHdrlen at hkeep hrem
    split at hrem <;> split <;> omega

/-- A header of type `X` at `A`. -/
def strayAttr (vm : Vm) (len : BitVec 32) : SkBuff :=
  packetAt len vm.a.toNat (le16 4 ++ le16 vm.x.toNat)

lemma ancNlattr_strays (h : ¬ vm.keepsInside len) :
    ¬ vm.Reports (strayAttr vm len) 0 len.toNat (.ok (vm.ancNlattr (strayAttr vm len))) := by
  obtain ⟨hshort, hfar, hguard, hx⟩ : len.toNat < 4 ∧ 2 ^ 31 + len.toNat < vm.a.toNat ∧
      vm.a.toNat + 4 ≤ 2 ^ 32 + len.toNat ∧ vm.x.toNat < 2 ^ 14 := by
    unfold Vm.keepsInside nlaHdrlen at h
    omega
  have ha := vm.a.isLt
  have hlen : nlaLen (strayAttr vm len) vm.a.toNat = 4 :=
    packetAt_u16At ha (j := 0) (by norm_num) (by norm_num) rfl rfl
  have htype : nlaType (strayAttr vm len) vm.a.toNat = vm.x.toNat := by
    rw [nlaType, strayAttr, packetAt_u16At ha (j := 2) (v := vm.x.toNat) (by norm_num) (by omega)
      rfl rfl, Nat.mod_eq_of_lt hx]
  have hxint : vm.x.toInt = vm.x.toNat := toInt_eq_toNat_of_lt (by omega)
  have hrem : (len - vm.a).toInt = 2 ^ 32 + len.toNat - vm.a.toNat := by
    rw [toInt_eq_toNat_cond, toNat_sub]
    split <;> omega
  have hfind : nlaFind (strayAttr vm len) vm.a.toNat (len - vm.a).toInt vm.x.toInt =
      some vm.a.toNat := by
    apply nlaFind_head
    · unfold nlaOk nlaHdrlen
      rw [hlen, hrem]
      omega
    · rw [htype, hxint]
  have hpass : ¬ vm.a > len - BitVec.ofNat 32 nlaHdrlen := by
    rw [guard_eq]
    omega
  have hrun : vm.ancNlattr (strayAttr vm len) = vm.setA vm.a := by
    have hlinear : ¬ (strayAttr vm len).isNonlinear = true := by
      simp [strayAttr, packetAt, SkBuff.isNonlinear, SkBuff.empty]
    rw [Vm.ancNlattr, if_neg hlinear]
    change (if vm.a > len - BitVec.ofNat 32 nlaHdrlen then _ else _) = _
    rw [if_neg hpass]
    change vm.setA (Vm.attributeAt (nlaFind (strayAttr vm len) _ (len - vm.a).toInt _)) = _
    rw [hfind, Vm.attributeAt, Option.getD_some, ofNat_toNat, setWidth_eq]
  rw [hrun]
  intro hreports
  have hend := (attr_of_reports hreports (by rintro h0; simp [h0] at hfar)).end_le
  rw [hlen] at hend
  omega

end

/-- Registers with which the second code stays inside, when the attribute at `A` says it has
`nlaLen` bytes: one of the guards works; or there is no room for an attribute in it, or no such
type; or it lies inside of the packet; or the offset found is 0, which means "not found". -/
def Vm.keepsNestInside (vm : Vm) (len : BitVec 32) (nlaLen : BitVec 16) : Prop :=
  vm.a > len - BitVec.ofNat 32 nlaHdrlen ∨ BitVec.ofNat 32 nlaLen.toNat > vm.a - len ∨
    nlaLen.toNat < 2 * nlaHdrlen ∨ 2 ^ 14 ≤ vm.x.toNat ∨
    vm.a.toNat + nlaLen.toNat ≤ len.toNat ∨
    (vm.a.toNat + nlaHdrlen = 2 ^ 32 ∧ nlaLen.toNat < 3 * nlaHdrlen)

section

variable {vm : Vm}

lemma ancNlattrNest_reports (skb : SkBuff) {l : BitVec 16}
    (hl : nlaLen skb vm.a.toNat = l.toNat) (h : vm.keepsNestInside skb.len l) :
    vm.Reports skb (vm.a.toNat + nlaHdrlen) (min skb.len.toNat (vm.a.toNat + l.toNat))
      (.ok (vm.ancNlattrNest skb)) := by
  unfold Vm.ancNlattrNest
  by_cases hlinear : skb.isNonlinear = true
  · rw [if_pos hlinear]
    exact .inl rfl
  rw [if_neg hlinear]
  by_cases hguard : vm.a > skb.len - BitVec.ofNat 32 nlaHdrlen
  · rw [if_pos hguard]
    exact .inl rfl
  rw [if_neg hguard, hl]
  by_cases hnest : BitVec.ofNat 32 l.toNat > vm.a - skb.len
  · rw [if_pos hnest]
    exact .inl rfl
  rw [if_neg hnest, nlaFindNested, hl]
  by_cases hx : 2 ^ 14 ≤ vm.x.toNat
  · exact reports_of_type hx
  by_cases hlast : vm.a.toNat + nlaHdrlen = 2 ^ 32 ∧ l.toNat < 3 * nlaHdrlen
  · exact .inr ⟨_, rfl, .inl (attributeAt_last hlast.1 hlast.2)⟩
  · have hin : l.toNat < 2 * nlaHdrlen ∨ vm.a.toNat + l.toNat ≤ skb.len.toNat := by
      unfold Vm.keepsNestInside at h
      tauto
    have hlen := skb.len.isLt
    apply reports_of_find (lt_of_le_of_lt (min_le_left _ _) hlen) le_rfl
    omega

/-- An attribute in the attribute at `A`, as long as that one goes on. -/
def strayNested (vm : Vm) (len : BitVec 32) (l : ℕ) : SkBuff :=
  packetAt len vm.a.toNat (le16 l ++ le16 0 ++ le16 (l - 4) ++ le16 vm.x.toNat)

def strayBehind (vm : Vm) (len : BitVec 32) (l : ℕ) : SkBuff :=
  packetAt len vm.a.toNat (le16 l ++ le16 0 ++ le16 4 ++
    le16 (if vm.x.toNat = 0 then 1 else 0) ++ le16 (l - 8) ++ le16 vm.x.toNat)

variable {l : ℕ} {len : BitVec 32}

lemma ancNlattrNest_eq {bytes : List (BitVec 8)} {r : ℕ}
    (hguard : ¬ vm.a > len - BitVec.ofNat 32 nlaHdrlen) (hnest : ¬ BitVec.ofNat 32 l > vm.a - len)
    (hlen : nlaLen (packetAt len vm.a.toNat bytes) vm.a.toNat = l)
    (hfind : nlaFind (packetAt len vm.a.toNat bytes) (vm.a.toNat + 4) (l - 4) vm.x.toInt =
      some r) : vm.ancNlattrNest (packetAt len vm.a.toNat bytes) = vm.setA (BitVec.ofNat 32 r) := by
  have hlinear : ¬ (packetAt len vm.a.toNat bytes).isNonlinear = true := by
    simp [packetAt, SkBuff.isNonlinear, SkBuff.empty]
  have hlen' : (packetAt len vm.a.toNat bytes).len = len := rfl
  rw [Vm.ancNlattrNest, if_neg hlinear, hlen', if_neg hguard, hlen, if_neg hnest, nlaFindNested,
    hlen]
  change vm.setA (Vm.attributeAt (nlaFind _ (vm.a.toNat + 4) (l - 4) _)) = _
  rw [hfind]
  rfl

lemma strayNested_spec (vm : Vm) (len : BitVec 32) (hl : 8 ≤ l) (hlt : l < 2 ^ 16)
    (hx : vm.x.toNat < 2 ^ 14) : nlaLen (strayNested vm len l) vm.a.toNat = l ∧
      nlaLen (strayNested vm len l) (vm.a.toNat + 4) = l - 4 ∧
      nlaFind (strayNested vm len l) (vm.a.toNat + 4) (l - 4) vm.x.toInt =
        some (vm.a.toNat + 4) := by
  have ha := vm.a.isLt
  have hlen : nlaLen (strayNested vm len l) (vm.a.toNat + 4) = l - 4 :=
    packetAt_u16At ha (j := 4) (by norm_num) (by omega) rfl rfl
  have htype : nlaType (strayNested vm len l) (vm.a.toNat + 4) = vm.x.toNat := by
    rw [nlaType, strayNested, add_assoc,
      packetAt_u16At ha (j := 6) (v := vm.x.toNat) (by norm_num) (by omega) rfl rfl,
      Nat.mod_eq_of_lt hx]
  refine ⟨packetAt_u16At ha (j := 0) (by norm_num) hlt rfl rfl, hlen, ?_⟩
  apply nlaFind_head
  · unfold nlaOk nlaHdrlen
    rw [hlen]
    omega
  · rw [htype, toInt_eq_toNat_of_lt (by omega)]

lemma strayBehind_spec (len : BitVec 32) (hl : 12 ≤ l) (hlt : l < 2 ^ 16)
    (hx : vm.x.toNat < 2 ^ 14) : nlaLen (strayBehind vm len l) vm.a.toNat = l ∧
      nlaFind (strayBehind vm len l) (vm.a.toNat + 4) (l - 4) vm.x.toInt =
        some (vm.a.toNat + 8) := by
  have ha := vm.a.isLt
  have hxint : vm.x.toInt = vm.x.toNat := toInt_eq_toNat_of_lt (by omega)
  have hlen4 : nlaLen (strayBehind vm len l) (vm.a.toNat + 4) = 4 :=
    packetAt_u16At ha (j := 4) (by norm_num) (by norm_num) rfl rfl
  have htype4 : nlaType (strayBehind vm len l) (vm.a.toNat + 4) =
      if vm.x.toNat = 0 then 1 else 0 := by
    rw [nlaType, strayBehind, add_assoc,
      packetAt_u16At ha (j := 6) (v := if vm.x.toNat = 0 then 1 else 0) (by norm_num)
        (by split <;> norm_num) rfl rfl]
    split <;> rfl
  have hlen8 : nlaLen (strayBehind vm len l) (vm.a.toNat + 8) = l - 8 :=
    packetAt_u16At ha (j := 8) (by norm_num) (by omega) rfl rfl
  have htype8 : nlaType (strayBehind vm len l) (vm.a.toNat + 8) = vm.x.toNat := by
    rw [nlaType, strayBehind, add_assoc,
      packetAt_u16At ha (j := 10) (v := vm.x.toNat) (by norm_num) (by omega) rfl rfl,
      Nat.mod_eq_of_lt hx]
  refine ⟨packetAt_u16At ha (j := 0) (by norm_num) hlt rfl rfl, ?_⟩
  have hok4 : nlaOk (strayBehind vm len l) (vm.a.toNat + 4) (l - 4) := by
    unfold nlaOk nlaHdrlen
    rw [hlen4]
    omega
  have hskip : (nlaType (strayBehind vm len l) (vm.a.toNat + 4) : ℤ) ≠ vm.x.toInt := by
    rw [htype4, hxint]
    split <;> omega
  rw [nlaFind, dif_pos hok4, if_neg hskip, hlen4]
  apply nlaFind_head
  · unfold nlaOk nlaAlign nlaHdrlen
    rw [hlen8]
    omega
  · rw [nlaAlign, htype8, hxint]

lemma ancNlattrNest_strays {l : BitVec 16} (h : ¬ vm.keepsNestInside len l) :
    ∃ skb : SkBuff, skb.len = len ∧ skb.Wraps ∧ nlaLen skb vm.a.toNat = l.toNat ∧
      ¬ vm.Reports skb (vm.a.toNat + nlaHdrlen) (min len.toNat (vm.a.toNat + l.toNat))
        (.ok (vm.ancNlattrNest skb)) := by
  obtain ⟨hguard, hnest, hl, hx, hin, hlast⟩ :
      ¬ vm.a > len - BitVec.ofNat 32 nlaHdrlen ∧ ¬ BitVec.ofNat 32 l.toNat > vm.a - len ∧
      8 ≤ l.toNat ∧ vm.x.toNat < 2 ^ 14 ∧ len.toNat < vm.a.toNat + l.toNat ∧
      (vm.a.toNat + 4 = 2 ^ 32 → 12 ≤ l.toNat) := by
    unfold Vm.keepsNestInside at h
    simp only [not_or] at h
    obtain ⟨hguard, hnest, hl, hx, hin, hlast⟩ := h
    refine ⟨hguard, hnest, ?_⟩
    unfold nlaHdrlen at hl hlast
    omega
  have ha := vm.a.isLt
  have hlt := l.isLt
  by_cases hend : vm.a.toNat + 4 = 2 ^ 32
  · -- the attribute found is at offset 4, the one at `A` far above
    obtain ⟨hlen, hfind⟩ := strayBehind_spec len (hlast hend) hlt hx
    refine ⟨_, rfl, packetAt_wraps, hlen, ?_⟩
    rw [ancNlattrNest_eq hguard hnest hlen hfind, show vm.a.toNat + 8 = 2 ^ 32 + 4 by omega]
    intro hreports
    have hle := (attr_of_reports hreports (by decide)).le
    rw [show (BitVec.ofNat 32 (2 ^ 32 + 4)).toNat = 4 from rfl] at hle
    omega
  · obtain ⟨hlen, hlen4, hfind⟩ := strayNested_spec vm len hl hlt hx
    refine ⟨_, rfl, packetAt_wraps, hlen, ?_⟩
    rw [ancNlattrNest_eq hguard hnest hlen hfind]
    intro hreports
    have hval : (BitVec.ofNat 32 (vm.a.toNat + 4)).toNat = (vm.a.toNat + 4) % 2 ^ 32 :=
      toNat_ofNat _ _
    have hne : BitVec.ofNat 32 (vm.a.toNat + 4) ≠ 0 := by
      intro h0
      rw [h0] at hval
      simp at hval
      omega
    have hattr := attr_of_reports hreports hne
    have hle := hattr.le
    have hend' := hattr.end_le
    rw [hval] at hle hend'
    have hsmall : vm.a.toNat + 4 < 2 ^ 32 := by omega
    rw [Nat.mod_eq_of_lt hsmall] at hend'
    change _ + nlaLen (strayNested vm len l.toNat) _ ≤ _ at hend'
    rw [hlen4] at hend'
    omega

/-- A nested attribute is reported inside of the packet and of the attribute
around it, whatever else the memory holds, exactly for these lengths and
registers. -/
lemma nlattr_nest_inside_iff (vm : Vm) (f : SockFilter) (len : BitVec 32) (l : BitVec 16) :
    (∀ skb : SkBuff, skb.len = len → skb.Wraps → nlaLen skb vm.a.toNat = l.toNat →
      vm.Reports skb (vm.a.toNat + nlaHdrlen) (min len.toNat (vm.a.toNat + l.toNat))
        (vm.exec skb f .ancNlattrNest)) ↔ vm.keepsNestInside len l := by
  constructor
  · intro h
    by_contra hstray
    obtain ⟨skb, hlen, hwraps, hl, hnot⟩ := ancNlattrNest_strays hstray
    exact hnot (h skb hlen hwraps hl)
  · rintro h skb rfl - hl
    exact ancNlattrNest_reports skb hl h

end

/-- **Both codes, over all memories.** -/
theorem attribute_inside_iff (vm : Vm) (f : SockFilter) (len : BitVec 32) (l : BitVec 16) :
    ((∀ skb : SkBuff, skb.len = len → skb.Wraps →
      vm.Reports skb 0 len.toNat (vm.exec skb f .ancNlattr)) ↔ vm.keepsInside len) ∧
    ((∀ skb : SkBuff, skb.len = len → skb.Wraps → nlaLen skb vm.a.toNat = l.toNat →
      vm.Reports skb (vm.a.toNat + nlaHdrlen) (min len.toNat (vm.a.toNat + l.toNat))
        (vm.exec skb f .ancNlattrNest)) ↔ vm.keepsNestInside len l) := by
  refine ⟨⟨fun h => ?_, ?_⟩, nlattr_nest_inside_iff vm f len l⟩
  · by_contra hstray
    exact ancNlattr_strays hstray (h (strayAttr vm len) rfl packetAt_wraps)
  · rintro h skb rfl -
    exact ancNlattr_reports skb h

/-- A packet of 12 bytes that begins with an attribute of 16: the attribute
found in it, at offset 4, has 12 bytes, of which the packet holds 8. -/
theorem nested_attribute_outside :
    let vm : Vm := { pc := 0, a := 0, x := 1, mem := fun _ => 0, written := [] }
    let skb := strayNested vm 12 16
    vm.ancNlattrNest skb = vm.setA 4 ∧ skb.len.toNat = 12 ∧ nlaLen skb 4 = 12 := by
  intro vm skb
  obtain ⟨hlen, hlen4, hfind⟩ := strayNested_spec vm 12 (show 8 ≤ 16 by norm_num)
    (by norm_num) (show 1 < 2 ^ 14 by norm_num)
  refine ⟨?_, rfl, hlen4⟩
  exact ancNlattrNest_eq (by decide) (by decide) hlen hfind

end Am335x.Net
