import Mathlib.Data.List.Basic
import Am335xKernel.Net.SkBuff

/-!
# The filter machine of `net/core/filter.c`

A filter is an array of `struct sock_filter`. By the time `sk_run_filter` sees
it, `sk_chk_filter` has replaced the user's codes by the dense `BPF_S_` codes
below. The interpreter has two registers and sixteen scratch words; it checks
nothing that the checker is meant to have checked.

`Vm.exec` is one turn of its loop. What the C code would get away with or crash
on is a `Fault` here.
-/

namespace Am335x.Net

/-- The `BPF_S_` codes, in the order of their `enum`. -/
inductive Code where
  | retK | retA
  | aluAddK | aluAddX | aluSubK | aluSubX | aluMulK | aluMulX | aluDivX
  | aluAndK | aluAndX | aluOrK | aluOrX | aluLshK | aluLshX | aluRshK | aluRshX | aluNeg
  | ldWAbs | ldHAbs | ldBAbs | ldWLen | ldWInd | ldHInd | ldBInd | ldImm
  | ldxWLen | ldxBMsh | ldxImm
  | miscTax | miscTxa
  | aluDivK
  | ldMem | ldxMem | st | stx
  | jmpJa | jmpJeqK | jmpJeqX | jmpJgeK | jmpJgeX | jmpJgtK | jmpJgtX | jmpJsetK | jmpJsetX
  | ancProtocol | ancPkttype | ancIfindex | ancNlattr | ancNlattrNest
  | ancMark | ancQueue | ancHatype | ancRxhash | ancCpu
  deriving DecidableEq

namespace Code

def all : List Code :=
  [retK, retA, aluAddK, aluAddX, aluSubK, aluSubX, aluMulK, aluMulX, aluDivX,
    aluAndK, aluAndX, aluOrK, aluOrX, aluLshK, aluLshX, aluRshK, aluRshX, aluNeg,
    ldWAbs, ldHAbs, ldBAbs, ldWLen, ldWInd, ldHInd, ldBInd, ldImm,
    ldxWLen, ldxBMsh, ldxImm,
    miscTax, miscTxa,
    aluDivK,
    ldMem, ldxMem, st, stx,
    jmpJa, jmpJeqK, jmpJeqX, jmpJgeK, jmpJgeX, jmpJgtK, jmpJgtX, jmpJsetK, jmpJsetX,
    ancProtocol, ancPkttype, ancIfindex, ancNlattr, ancNlattrNest,
    ancMark, ancQueue, ancHatype, ancRxhash, ancCpu]

/-- The number of a code; the `enum` starts at 1. -/
def value (c : Code) : BitVec 16 := BitVec.ofNat 16 (all.idxOf c + 1)

/-- The `case` that a number selects, `none` for the `default`. -/
def ofValue (v : BitVec 16) : Option Code :=
  if v = 0 then none else all[v.toNat - 1]?

lemma ofValue_value (c : Code) : ofValue c.value = some c := by
  cases c <;> rfl

end Code

structure SockFilter where
  code : BitVec 16
  jt : BitVec 8
  jf : BitVec 8
  k : BitVec 32
  deriving DecidableEq

def bpfMemwords : ℕ := 16

inductive Fault where
  | fetch
  | unknownCode
  | divideByZero
  | memIndex
  | memUnwritten
  deriving DecidableEq

/-- The locals of `sk_run_filter`, and the scratch words written so far. -/
structure Vm where
  pc : ℕ
  a : BitVec 32
  x : BitVec 32
  mem : ℕ → BitVec 32
  written : List ℕ

inductive Outcome where
  | next (vm : Vm)
  | ret (v : BitVec 32)

namespace Vm

/-- `continue`, after `fentry += n`. -/
def jump (vm : Vm) (n : ℕ) : Outcome := .next { vm with pc := vm.pc + n + 1 }

def setA (vm : Vm) (v : BitVec 32) : Outcome := .next { vm with a := v, pc := vm.pc + 1 }

def setX (vm : Vm) (v : BitVec 32) : Outcome := .next { vm with x := v, pc := vm.pc + 1 }

def divide (n d : BitVec 32) : Except Fault (BitVec 32) :=
  if d = 0 then .error .divideByZero else .ok (n / d)

def readMem (vm : Vm) (k : ℕ) : Except Fault (BitVec 32) :=
  if k ≥ bpfMemwords then .error .memIndex
  else if k ∈ vm.written then .ok (vm.mem k)
  else .error .memUnwritten

def writeMem (vm : Vm) (k : ℕ) (v : BitVec 32) : Except Fault Outcome :=
  if k ≥ bpfMemwords then .error .memIndex
  else .ok (.next { vm with
    mem := fun i => if i = k then v else vm.mem i
    written := k :: vm.written
    pc := vm.pc + 1 })

/-- `fentry += cond ? fentry->jt : fentry->jf`. -/
def branch (vm : Vm) (f : SockFilter) (cond : Bool) : Outcome :=
  vm.jump (if cond then f.jt.toNat else f.jf.toNat)

/-- The labels `load_w`, `load_h` and `load_b`, for 4, 2 and 1 bytes. -/
def load (vm : Vm) (skb : SkBuff) (k : BitVec 32) (size : ℕ) : Outcome :=
  match loadPointer skb k.toInt size with
  | some bytes => vm.setA (getBe bytes)
  | none => .ret 0

def shiftAmount (v : BitVec 32) : ℕ := v.toNat % 2 ^ 8

/-- `A` after a search for an attribute. -/
def attributeAt (nla : Option ℕ) : BitVec 32 := BitVec.ofNat 32 (nla.getD 0)

/-- `BPF_S_ANC_NLATTR`. -/
def ancNlattr (vm : Vm) (skb : SkBuff) : Outcome :=
  if skb.isNonlinear then .ret 0
  else if vm.a > skb.len - BitVec.ofNat 32 nlaHdrlen then .ret 0
  else vm.setA (attributeAt (nlaFind skb vm.a.toNat (skb.len - vm.a).toInt vm.x.toInt))

/-- `BPF_S_ANC_NLATTR_NEST`. -/
def ancNlattrNest (vm : Vm) (skb : SkBuff) : Outcome :=
  if skb.isNonlinear then .ret 0
  else if vm.a > skb.len - BitVec.ofNat 32 nlaHdrlen then .ret 0
  else if BitVec.ofNat 32 (nlaLen skb vm.a.toNat) > vm.a - skb.len then .ret 0
  else vm.setA (attributeAt (nlaFindNested skb vm.a.toNat vm.x.toInt))

def reciprocalDivide (a r : BitVec 32) : BitVec 32 := BitVec.ofNat 32 (a.toNat * r.toNat / 2 ^ 32)

/-- The `switch` of `sk_run_filter`. The processor number is 0 on a
uniprocessor. -/
def exec (vm : Vm) (skb : SkBuff) (f : SockFilter) : Code → Except Fault Outcome
  | .aluAddX => .ok (vm.setA (vm.a + vm.x))
  | .aluAddK => .ok (vm.setA (vm.a + f.k))
  | .aluSubX => .ok (vm.setA (vm.a - vm.x))
  | .aluSubK => .ok (vm.setA (vm.a - f.k))
  | .aluMulX => .ok (vm.setA (vm.a * vm.x))
  | .aluMulK => .ok (vm.setA (vm.a * f.k))
  | .aluDivX => if vm.x = 0 then .ok (.ret 0) else (divide vm.a vm.x).map vm.setA
  | .aluDivK => .ok (vm.setA (reciprocalDivide vm.a f.k))
  | .aluAndX => .ok (vm.setA (vm.a &&& vm.x))
  | .aluAndK => .ok (vm.setA (vm.a &&& f.k))
  | .aluOrX => .ok (vm.setA (vm.a ||| vm.x))
  | .aluOrK => .ok (vm.setA (vm.a ||| f.k))
  | .aluLshX => .ok (vm.setA (vm.a <<< shiftAmount vm.x))
  | .aluLshK => .ok (vm.setA (vm.a <<< shiftAmount f.k))
  | .aluRshX => .ok (vm.setA (vm.a >>> shiftAmount vm.x))
  | .aluRshK => .ok (vm.setA (vm.a >>> shiftAmount f.k))
  | .aluNeg => .ok (vm.setA (-vm.a))
  | .jmpJa => .ok (vm.jump f.k.toNat)
  | .jmpJgtK => .ok (vm.branch f (vm.a > f.k))
  | .jmpJgeK => .ok (vm.branch f (vm.a ≥ f.k))
  | .jmpJeqK => .ok (vm.branch f (vm.a = f.k))
  | .jmpJsetK => .ok (vm.branch f (vm.a &&& f.k ≠ 0))
  | .jmpJgtX => .ok (vm.branch f (vm.a > vm.x))
  | .jmpJgeX => .ok (vm.branch f (vm.a ≥ vm.x))
  | .jmpJeqX => .ok (vm.branch f (vm.a = vm.x))
  | .jmpJsetX => .ok (vm.branch f (vm.a &&& vm.x ≠ 0))
  | .ldWAbs => .ok (vm.load skb f.k 4)
  | .ldHAbs => .ok (vm.load skb f.k 2)
  | .ldBAbs => .ok (vm.load skb f.k 1)
  | .ldWLen => .ok (vm.setA skb.len)
  | .ldxWLen => .ok (vm.setX skb.len)
  | .ldWInd => .ok (vm.load skb (vm.x + f.k) 4)
  | .ldHInd => .ok (vm.load skb (vm.x + f.k) 2)
  | .ldBInd => .ok (vm.load skb (vm.x + f.k) 1)
  | .ldxBMsh =>
    match loadPointer skb f.k.toInt 1 with
    | some bytes => .ok (vm.setX ((getBe bytes &&& 0xf) <<< 2))
    | none => .ok (.ret 0)
  | .ldImm => .ok (vm.setA f.k)
  | .ldxImm => .ok (vm.setX f.k)
  | .ldMem => (vm.readMem f.k.toNat).map vm.setA
  | .ldxMem => (vm.readMem f.k.toNat).map vm.setX
  | .miscTax => .ok (vm.setX vm.a)
  | .miscTxa => .ok (vm.setA vm.x)
  | .retK => .ok (.ret f.k)
  | .retA => .ok (.ret vm.a)
  | .st => vm.writeMem f.k.toNat vm.a
  | .stx => vm.writeMem f.k.toNat vm.x
  | .ancProtocol => .ok (vm.setA ((ntohs skb.protocol).setWidth 32))
  | .ancPkttype => .ok (vm.setA (skb.pktType.setWidth 32))
  | .ancIfindex =>
    match skb.dev with
    | none => .ok (.ret 0)
    | some dev => .ok (vm.setA dev.ifindex)
  | .ancMark => .ok (vm.setA skb.mark)
  | .ancQueue => .ok (vm.setA (skb.queueMapping.setWidth 32))
  | .ancHatype =>
    match skb.dev with
    | none => .ok (.ret 0)
    | some dev => .ok (vm.setA (dev.type.setWidth 32))
  | .ancRxhash => .ok (vm.setA skb.rxhash)
  | .ancCpu => .ok (vm.setA 0)
  | .ancNlattr => .ok (vm.ancNlattr skb)
  | .ancNlattrNest => .ok (vm.ancNlattrNest skb)

def step (vm : Vm) (skb : SkBuff) (filter : List SockFilter) : Except Fault Outcome :=
  match filter[vm.pc]? with
  | none => .error .fetch
  | some f =>
    match Code.ofValue f.code with
    | none => .error .unknownCode
    | some c => vm.exec skb f c

/-- At most `n` iterations; `none` if the filter has not returned by then. -/
def run (skb : SkBuff) (filter : List SockFilter) : ℕ → Vm → Except Fault (Option (BitVec 32))
  | 0, _ => .ok none
  | n + 1, vm =>
    match vm.step skb filter with
    | .error e => .error e
    | .ok (.ret v) => .ok (some v)
    | .ok (.next vm') => run skb filter n vm'

end Vm

/-- `sk_run_filter`, stopped after `n` instructions; `mem` is what the stack
holds. -/
def skRunFilter (skb : SkBuff) (filter : List SockFilter) (mem : ℕ → BitVec 32) (n : ℕ) :
    Except Fault (Option (BitVec 32)) :=
  Vm.run skb filter n { pc := 0, a := 0, x := 0, mem := mem, written := [] }

end Am335x.Net
