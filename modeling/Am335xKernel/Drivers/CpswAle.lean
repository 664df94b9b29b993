import Am335xKernel.Lib.Machine
import Am335xKernel.Lib.BitField
import Am335xKernel.Lib.KeyedTable
import Am335xKernel.Kernel.Interface

/-!
# The address lookup engine of `drivers/net/ethernet/ti/cpsw_ale.c`

The switch keeps a table of address and VLAN entries. An entry is three 32-bit
words in reverse order, and which fields it has depends on its type.

The table is a map: an address entry is found by its address and VLAN id, a VLAN
entry by its VLAN id (`keyOf`).

The callers in `cpsw.c` pass VLAN ids up to 4095 only, so the operations take
twelve bits; the functions take the sixteen of the source.
-/

namespace Am335x.CpswAle

open KeyedTable

abbrev Entry := Fin 3 → BitVec 32

def zeroEntry : Entry := fun _ => 0

/-- `bits` bits from bit `start`, as `cpsw_ale_get_field` and
`cpsw_ale_set_field` address them. -/
def aleField (start bits : ℕ) (h : start % 32 + bits ≤ 32) : BitField 3 32 :=
  { word := ⟨2 - start / 32, by omega⟩, shift := start % 32, bits := bits, fits := h }

def entryType : BitField 3 32 := aleField 60 2 (by decide)
def vlanId : BitField 3 32 := aleField 48 12 (by decide)
def mcastState : BitField 3 32 := aleField 62 2 (by decide)
def portMask : BitField 3 32 := aleField 66 3 (by decide)
def super : BitField 3 32 := aleField 65 1 (by decide)
def ucastType : BitField 3 32 := aleField 62 2 (by decide)
def portNum : BitField 3 32 := aleField 66 2 (by decide)
def blocked : BitField 3 32 := aleField 65 1 (by decide)
def secure : BitField 3 32 := aleField 64 1 (by decide)
def vlanUntagForce : BitField 3 32 := aleField 24 3 (by decide)
def vlanRegMcast : BitField 3 32 := aleField 16 3 (by decide)
def vlanUnregMcast : BitField 3 32 := aleField 8 3 (by decide)
def vlanMemberList : BitField 3 32 := aleField 0 3 (by decide)
def mcast : BitField 3 32 := aleField 40 1 (by decide)

abbrev Mac := Fin 6 → BitVec 8

def addrField (i : Fin 6) : BitField 3 32 := aleField (40 - 8 * i) 8 (by omega)

def cpswAleGetAddr (e : Entry) : Mac := fun i => ((addrField i).get e).setWidth 8

def cpswAleSetAddr (addr : Mac) (e : Entry) : Entry :=
  BitField.setAll addrField (fun i => (addr i).setWidth 32) (List.finRange 6) e

/-- `is_broadcast_ether_addr`. -/
def isBroadcast (addr : Mac) : Bool := decide (addr = fun _ => 0xff)

def typeFree : BitVec 32 := 0
def typeAddr : BitVec 32 := 1
def typeVlan : BitVec 32 := 2
def typeVlanAddr : BitVec 32 := 3

def ucastPersistant : BitVec 32 := 0
def ucastOui : BitVec 32 := 2

def mcastFwd2 : BitVec 32 := 3

def aleSecure : BitVec 32 := 1
def aleBlocked : BitVec 32 := 2

def isAddr (e : Entry) : Bool := entryType.get e == typeAddr || entryType.get e == typeVlanAddr

/-- The `ale_entries` entries. -/
abbrev Ale (n : ℕ) := Fin n → Entry

variable {n : ℕ}

def cpswAleMatchAddr (ale : Ale n) (addr : Mac) (vid : BitVec 16) : Option (Fin n) :=
  search (fun e => isAddr e && vlanId.get e == vid.setWidth 32 && decide (cpswAleGetAddr e = addr))
    ale

def cpswAleMatchVlan (ale : Ale n) (vid : BitVec 16) : Option (Fin n) :=
  search (fun e => entryType.get e == typeVlan && vlanId.get e == vid.setWidth 32) ale

def cpswAleMatchFree (ale : Ale n) : Option (Fin n) :=
  search (fun e => entryType.get e == typeFree) ale

def ageable (e : Entry) : Bool :=
  isAddr e && mcast.get e == 0 && ucastType.get e != ucastPersistant && ucastType.get e != ucastOui

def cpswAleFindAgeable (ale : Ale n) : Option (Fin n) := search ageable ale

def addEntry (ale : Ale n) (idx : Option (Fin n)) (e : Entry) : Ale n × ℤ :=
  match idx <|> cpswAleMatchFree ale <|> cpswAleFindAgeable ale with
  | some i => (Function.update ale i e, 0)
  | none => (ale, enomem)

def readFound (ale : Ale n) (idx : Option (Fin n)) : Entry := (idx.map ale).getD zeroEntry

def changeEntry (ale : Ale n) (idx : Option (Fin n)) (err : ℤ) (change : Entry → Entry) :
    Ale n × ℤ :=
  match idx with
  | none => (ale, err)
  | some i => (Function.update ale i (change (ale i)), 0)

def ucastEntry (type : BitVec 32) (addr : Mac) (port flags : BitVec 32) : Entry :=
  let e := entryType.set type zeroEntry
  let e := cpswAleSetAddr addr e
  let e := ucastType.set ucastPersistant e
  let e := secure.set (if flags &&& aleSecure ≠ 0 then 1 else 0) e
  let e := blocked.set (if flags &&& aleBlocked ≠ 0 then 1 else 0) e
  portNum.set port e

def cpswAleAddUcast (ale : Ale n) (addr : Mac) (port flags : BitVec 32) : Ale n × ℤ :=
  addEntry ale (cpswAleMatchAddr ale addr 0) (ucastEntry typeAddr addr port flags)

def cpswAleVlanAddUcast (ale : Ale n) (addr : Mac) (port flags : BitVec 32) (vid : BitVec 16) :
    Ale n × ℤ :=
  addEntry ale (cpswAleMatchAddr ale addr vid)
    (vlanId.set (vid.setWidth 32) (ucastEntry typeVlanAddr addr port flags))

def ouiEntry (addr : Mac) : Entry :=
  let e := entryType.set typeAddr zeroEntry
  let e := cpswAleSetAddr addr e
  ucastType.set ucastOui e

def cpswAleAddOui (ale : Ale n) (addr : Mac) : Ale n × ℤ :=
  addEntry ale (cpswAleMatchAddr ale addr 0) (ouiEntry addr)

def cpswAleVlanDelUcast (ale : Ale n) (addr : Mac) (_port : BitVec 32) (vid : BitVec 16) :
    Ale n × ℤ :=
  changeEntry ale (cpswAleMatchAddr ale addr vid) enoent fun _ => entryType.set typeFree zeroEntry

def cpswAleDelUcast (ale : Ale n) (addr : Mac) (port : BitVec 32) : Ale n × ℤ :=
  cpswAleVlanDelUcast ale addr port 0

/-- What is made of the entry that was found; `setVid` is the write of the VLAN
id, or nothing. -/
def mcastEntry (type : BitVec 32) (setVid : Entry → Entry) (addr : Mac)
    (ports sup state : BitVec 32) (e : Entry) : Entry :=
  let e := entryType.set type e
  let e := cpswAleSetAddr addr e
  let e := mcastState.set mcastFwd2 e
  let e := setVid e
  let e := super.set sup e
  let e := mcastState.set state e
  portMask.set (ports ||| portMask.get e) e

def cpswAleAddMcast (ale : Ale n) (addr : Mac) (ports sup state : BitVec 32) : Ale n × ℤ :=
  let idx := cpswAleMatchAddr ale addr 0
  addEntry ale idx (mcastEntry typeAddr id addr ports sup state (readFound ale idx))

def cpswAleVlanAddMcast (ale : Ale n) (addr : Mac) (ports : BitVec 32) (vid : BitVec 16)
    (sup state : BitVec 32) : Ale n × ℤ :=
  let idx := cpswAleMatchAddr ale addr vid
  addEntry ale idx (mcastEntry typeVlanAddr (vlanId.set (vid.setWidth 32)) addr ports sup state
    (readFound ale idx))

def cpswAleVlanDelMcast (ale : Ale n) (addr : Mac) (ports : BitVec 32) (vid : BitVec 16) :
    Ale n × ℤ :=
  changeEntry ale (cpswAleMatchAddr ale addr vid) einval fun e =>
    if ports ≠ 0 then portMask.set ports e else entryType.set typeFree e

def cpswAleDelMcast (ale : Ale n) (addr : Mac) (ports : BitVec 32) : Ale n × ℤ :=
  cpswAleVlanDelMcast ale addr ports 0

def vlanEntry (vid port untag regMcast unregMcast : BitVec 32) (e : Entry) : Entry :=
  let e := entryType.set typeVlan e
  let e := vlanId.set vid e
  let e := vlanUntagForce.set untag e
  let e := vlanRegMcast.set regMcast e
  let e := vlanUnregMcast.set unregMcast e
  vlanMemberList.set port e

def cpswAleAddVlan (ale : Ale n) (vid : BitVec 16) (port untag regMcast unregMcast : BitVec 32) :
    Ale n × ℤ :=
  let idx := cpswAleMatchVlan ale vid
  addEntry ale idx
    (vlanEntry (vid.setWidth 32) port untag regMcast unregMcast (readFound ale idx))

def cpswAleDelVlan (ale : Ale n) (vid : BitVec 16) (port : BitVec 32) : Ale n × ℤ :=
  changeEntry ale (cpswAleMatchVlan ale vid) enoent fun e =>
    let members := vlanMemberList.get e &&& ~~~port
    if members = 0 then entryType.set typeFree e else vlanMemberList.set members e

def cpswAleFlushMcast (ports : BitVec 32) (e : Entry) : Entry :=
  let m := portMask.get e
  if m &&& ports = 0 then e
  else if m &&& ~~~ports ≠ 0 then portMask.set (m &&& ~~~ports) e
  else entryType.set typeFree e

def cpswAleFlushUcast (ports : BitVec 32) (e : Entry) : Entry :=
  if BitVec.twoPow 32 (portNum.get e).toNat &&& ports = 0 then e else entryType.set typeFree e

/-- What `cpsw_ale_flush` makes of one entry. -/
def flushEntry (ports : BitVec 32) (e : Entry) : Entry :=
  if !isAddr e then e
  else if mcast.get e ≠ 0 then cpswAleFlushMcast ports e
  else cpswAleFlushUcast ports e

/-- What `cpsw_ale_flush_multicast` makes of one entry. -/
def flushMulticastEntry (ports : BitVec 32) (e : Entry) : Entry :=
  if !isAddr e then e
  else if mcast.get e ≠ 0 ∧ !isBroadcast (cpswAleGetAddr e) then cpswAleFlushMcast ports e
  else e

/-- What `cpsw_ale_flush_vlan_multicast` makes of one entry. -/
def flushVlanMulticastEntry (vid : BitVec 16) (ports : BitVec 32) (e : Entry) : Entry :=
  if entryType.get e ≠ typeVlanAddr ∨ vlanId.get e ≠ vid.setWidth 32 then e
  else if mcast.get e ≠ 0 ∧ !isBroadcast (cpswAleGetAddr e) then cpswAleFlushMcast ports e
  else e

def cpswAleFlush (ale : Ale n) (ports : BitVec 32) : Ale n × ℤ := (flushEntry ports ∘ ale, 0)

def cpswAleFlushMulticast (ale : Ale n) (ports : BitVec 32) : Ale n × ℤ :=
  (flushMulticastEntry ports ∘ ale, 0)

def cpswAleFlushVlanMulticast (ale : Ale n) (vid : BitVec 16) (ports : BitVec 32) : Ale n :=
  flushVlanMulticastEntry vid ports ∘ ale

end Am335x.CpswAle
