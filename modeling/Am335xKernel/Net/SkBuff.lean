import Mathlib.Algebra.Group.Nat.Defs

/-!
# Socket buffers

A `struct sk_buff` as a filter reads it: the linear buffer from `skb->head`
on, the bytes of the fragments behind it, and the fields with what the stack
knows about the packet. Memory is a function of the offset, so that a read
past the tail has a value too: nothing in the code that follows keeps
`nla_find` inside the buffer.

A pointer that the code obtains and reads at once is the list of the bytes it
reads; `none` is the null pointer.
-/

namespace Am335x.Net

/-- The fields of `struct net_device` that a filter can ask for. -/
structure NetDevice where
  ifindex : BitVec 32
  type : BitVec 16

structure SkBuff where
  len : BitVec 32
  dataLen : BitVec 32
  /-- The memory from `skb->head` on. -/
  buf : ℕ → BitVec 8
  /-- Offsets from `skb->head`. -/
  data : ℕ
  tail : ℕ
  networkHeader : ℕ
  macHeader : ℕ
  /-- The bytes behind the linear part. -/
  frags : ℕ → BitVec 8
  protocol : BitVec 16
  pktType : BitVec 3
  dev : Option NetDevice
  mark : BitVec 32
  queueMapping : BitVec 16
  rxhash : BitVec 32

namespace SkBuff

def empty : SkBuff :=
  { len := 0, dataLen := 0, buf := fun _ => 0, data := 0, tail := 0, networkHeader := 0,
    macHeader := 0, frags := fun _ => 0, protocol := 0, pktType := 0, dev := none, mark := 0,
    queueMapping := 0, rxhash := 0 }

/-- `skb_headlen`. -/
def headlen (skb : SkBuff) : ℤ := (skb.len - skb.dataLen).toInt

/-- `skb_is_nonlinear`. -/
def isNonlinear (skb : SkBuff) : Bool := skb.dataLen ≠ 0

/-- `skb->data[i]`, whatever lies there. -/
def dataAt (skb : SkBuff) (i : ℕ) : BitVec 8 := skb.buf (skb.data + i)

/-- Byte `i` of the packet, in the linear part or behind it. -/
def byte (skb : SkBuff) (i : ℕ) : BitVec 8 :=
  if (i : ℤ) < skb.headlen then skb.dataAt i else skb.frags (i - skb.headlen.toNat)

end SkBuff

/-- `skb_header_pointer`, with the copy that `skb_copy_bits` makes. -/
def skbHeaderPointer (skb : SkBuff) (offset : ℤ) (len : ℕ) : Option (List (BitVec 8)) :=
  if skb.headlen - offset ≥ len then
    some ((List.range len).map fun i => skb.dataAt (offset.toNat + i))
  else if offset > skb.len.toInt - len then none
  else some ((List.range len).map fun i => skb.byte (offset.toNat + i))

def skfNetOff : ℤ := -0x100000

def skfLlOff : ℤ := -0x200000

/-- `ptr` of `__load_pointer`, as an offset from `skb->head`. -/
def headerOffset (skb : SkBuff) (k : ℤ) : Option ℤ :=
  if k ≥ skfNetOff then some (skb.networkHeader + k - skfNetOff)
  else if k ≥ skfLlOff then some (skb.macHeader + k - skfLlOff)
  else none

/-- `__load_pointer`. -/
def loadPointerSlow (skb : SkBuff) (k : ℤ) (size : ℕ) : Option (List (BitVec 8)) :=
  match headerOffset skb k with
  | none => none
  | some ptr =>
    if 0 ≤ ptr ∧ ptr + size ≤ skb.tail then
      some ((List.range size).map fun i => skb.buf (ptr.toNat + i))
    else none

def loadPointer (skb : SkBuff) (k : ℤ) (size : ℕ) : Option (List (BitVec 8)) :=
  if k ≥ 0 then skbHeaderPointer skb k size else loadPointerSlow skb k size

/-- `get_unaligned_be32` and its likes. -/
def getBe (bytes : List (BitVec 8)) : BitVec 32 :=
  bytes.foldl (fun acc b => acc <<< 8 ||| b.setWidth 32) 0

/-- `ntohs`, on a little-endian machine. -/
def ntohs (v : BitVec 16) : BitVec 16 := v <<< 8 ||| v >>> 8

/-- A `__u16` at an offset from `skb->data`, little-endian. -/
def u16At (skb : SkBuff) (pos : ℕ) : ℕ :=
  (skb.dataAt pos).toNat + 2 ^ 8 * (skb.dataAt (pos + 1)).toNat

/-- `nla->nla_len`. -/
def nlaLen (skb : SkBuff) (nla : ℕ) : ℕ := u16At skb nla

/-- `nla_type`, without its two flags. -/
def nlaType (skb : SkBuff) (nla : ℕ) : ℕ := u16At skb (nla + 2) % 2 ^ 14

def nlaAlign (len : ℕ) : ℕ := (len + 3) / 4 * 4

/-- `NLA_HDRLEN`, which is also `sizeof(struct nlattr)`. -/
def nlaHdrlen : ℕ := 4

def nlaOk (skb : SkBuff) (nla : ℕ) (remaining : ℤ) : Prop :=
  remaining ≥ nlaHdrlen ∧ nlaLen skb nla ≥ nlaHdrlen ∧ nlaLen skb nla ≤ remaining

instance (skb : SkBuff) (nla : ℕ) (remaining : ℤ) : Decidable (nlaOk skb nla remaining) :=
  inferInstanceAs (Decidable (_ ∧ _ ∧ _))

/-- `nla_find`: the offset of the first attribute of a type. -/
def nlaFind (skb : SkBuff) (head : ℕ) (len attrtype : ℤ) : Option ℕ :=
  if _h : nlaOk skb head len then
    if nlaType skb head = attrtype then some head
    else
      nlaFind skb (head + nlaAlign (nlaLen skb head)) (len - nlaAlign (nlaLen skb head)) attrtype
  else none
termination_by len.toNat
decreasing_by
  obtain ⟨hrem, hlen, -⟩ := _h
  unfold nlaAlign
  unfold nlaHdrlen at hrem hlen
  omega

def nlaFindNested (skb : SkBuff) (nla : ℕ) (attrtype : ℤ) : Option ℕ :=
  nlaFind skb (nla + nlaHdrlen) (nlaLen skb nla - nlaHdrlen) attrtype

end Am335x.Net
