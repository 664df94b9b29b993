import Am335xKernel.Lib.Dataflow
import Am335xKernel.Kernel.Interface
import Am335xKernel.Net.Filter.Run

/-!
# The filter checker of `net/core/filter.c`

`sk_chk_filter` goes over the instructions once to translate the user's codes in
place and check operands and jump offsets, and once more, in
`check_load_and_stores`, to make sure that no scratch word is read before it is
written. The second pass carries one bit for each scratch word and is an
instance of the one-pass analysis of `Dataflow`: offsets are unsigned, so all
jumps go forward.
-/

namespace Am335x.Net

open Dataflow List SockFilter Option

namespace Bpf

def ld : BitVec 16 := 0x00
def ldx : BitVec 16 := 0x01
def st : BitVec 16 := 0x02
def stx : BitVec 16 := 0x03
def alu : BitVec 16 := 0x04
def jmp : BitVec 16 := 0x05
def ret : BitVec 16 := 0x06
def misc : BitVec 16 := 0x07

def w : BitVec 16 := 0x00
def h : BitVec 16 := 0x08
def b : BitVec 16 := 0x10
def imm : BitVec 16 := 0x00
def abs : BitVec 16 := 0x20
def ind : BitVec 16 := 0x40
def mem : BitVec 16 := 0x60
def len : BitVec 16 := 0x80
def msh : BitVec 16 := 0xa0

def add : BitVec 16 := 0x00
def sub : BitVec 16 := 0x10
def mul : BitVec 16 := 0x20
def div : BitVec 16 := 0x30
def or : BitVec 16 := 0x40
def and : BitVec 16 := 0x50
def lsh : BitVec 16 := 0x60
def rsh : BitVec 16 := 0x70
def neg : BitVec 16 := 0x80
def ja : BitVec 16 := 0x00
def jeq : BitVec 16 := 0x10
def jgt : BitVec 16 := 0x20
def jge : BitVec 16 := 0x30
def jset : BitVec 16 := 0x40
def k : BitVec 16 := 0x00
def x : BitVec 16 := 0x08

def a : BitVec 16 := 0x10
def tax : BitVec 16 := 0x00
def txa : BitVec 16 := 0x80

end Bpf

/-- The table `codes` of `sk_chk_filter`; what is not in it is 0 there, or
beyond its end. -/
def codes : List (BitVec 16 × Code) :=
  [(Bpf.alu ||| Bpf.add ||| Bpf.k, .aluAddK), (Bpf.alu ||| Bpf.add ||| Bpf.x, .aluAddX),
    (Bpf.alu ||| Bpf.sub ||| Bpf.k, .aluSubK),
    (Bpf.alu ||| Bpf.sub ||| Bpf.x, .aluSubX),
    (Bpf.alu ||| Bpf.mul ||| Bpf.k, .aluMulK),
    (Bpf.alu ||| Bpf.mul ||| Bpf.x, .aluMulX),
    (Bpf.alu ||| Bpf.div ||| Bpf.x, .aluDivX),
    (Bpf.alu ||| Bpf.and ||| Bpf.k, .aluAndK),
    (Bpf.alu ||| Bpf.and ||| Bpf.x, .aluAndX),
    (Bpf.alu ||| Bpf.or ||| Bpf.k, .aluOrK),
    (Bpf.alu ||| Bpf.or ||| Bpf.x, .aluOrX),
    (Bpf.alu ||| Bpf.lsh ||| Bpf.k, .aluLshK),
    (Bpf.alu ||| Bpf.lsh ||| Bpf.x, .aluLshX),
    (Bpf.alu ||| Bpf.rsh ||| Bpf.k, .aluRshK),
    (Bpf.alu ||| Bpf.rsh ||| Bpf.x, .aluRshX),
    (Bpf.alu ||| Bpf.neg, .aluNeg),
    (Bpf.ld ||| Bpf.w ||| Bpf.abs, .ldWAbs),
    (Bpf.ld ||| Bpf.h ||| Bpf.abs, .ldHAbs),
    (Bpf.ld ||| Bpf.b ||| Bpf.abs, .ldBAbs),
    (Bpf.ld ||| Bpf.w ||| Bpf.len, .ldWLen),
    (Bpf.ld ||| Bpf.w ||| Bpf.ind, .ldWInd),
    (Bpf.ld ||| Bpf.h ||| Bpf.ind, .ldHInd),
    (Bpf.ld ||| Bpf.b ||| Bpf.ind, .ldBInd),
    (Bpf.ld ||| Bpf.imm, .ldImm),
    (Bpf.ldx ||| Bpf.w ||| Bpf.len, .ldxWLen),
    (Bpf.ldx ||| Bpf.b ||| Bpf.msh, .ldxBMsh),
    (Bpf.ldx ||| Bpf.imm, .ldxImm),
    (Bpf.misc ||| Bpf.tax, .miscTax),
    (Bpf.misc ||| Bpf.txa, .miscTxa),
    (Bpf.ret ||| Bpf.k, .retK),
    (Bpf.ret ||| Bpf.a, .retA),
    (Bpf.alu ||| Bpf.div ||| Bpf.k, .aluDivK),
    (Bpf.ld ||| Bpf.mem, .ldMem),
    (Bpf.ldx ||| Bpf.mem, .ldxMem),
    (Bpf.st, .st),
    (Bpf.stx, .stx),
    (Bpf.jmp ||| Bpf.ja, .jmpJa),
    (Bpf.jmp ||| Bpf.jeq ||| Bpf.k, .jmpJeqK),
    (Bpf.jmp ||| Bpf.jeq ||| Bpf.x, .jmpJeqX),
    (Bpf.jmp ||| Bpf.jge ||| Bpf.k, .jmpJgeK),
    (Bpf.jmp ||| Bpf.jge ||| Bpf.x, .jmpJgeX),
    (Bpf.jmp ||| Bpf.jgt ||| Bpf.k, .jmpJgtK),
    (Bpf.jmp ||| Bpf.jgt ||| Bpf.x, .jmpJgtX),
    (Bpf.jmp ||| Bpf.jset ||| Bpf.k, .jmpJsetK),
    (Bpf.jmp ||| Bpf.jset ||| Bpf.x, .jmpJsetX)]

/-- The offsets of ancillary data, from `SKF_AD_OFF` up, and their codes. -/
def ancillaries : List (BitVec 32 × Code) :=
  [(BitVec.ofInt 32 (-0x1000 + 0), .ancProtocol), (BitVec.ofInt 32 (-0x1000 + 4), .ancPkttype),
    (BitVec.ofInt 32 (-0x1000 + 8), .ancIfindex),
    (BitVec.ofInt 32 (-0x1000 + 12), .ancNlattr),
    (BitVec.ofInt 32 (-0x1000 + 16), .ancNlattrNest),
    (BitVec.ofInt 32 (-0x1000 + 20), .ancMark),
    (BitVec.ofInt 32 (-0x1000 + 24), .ancQueue),
    (BitVec.ofInt 32 (-0x1000 + 28), .ancHatype),
    (BitVec.ofInt 32 (-0x1000 + 32), .ancRxhash),
    (BitVec.ofInt 32 (-0x1000 + 36), .ancCpu)]

/-- The entry of a table for `v`. -/
def tableEntry {n : ℕ} (table : List (BitVec n × Code)) (v : BitVec n) : Option Code :=
  (table.find? fun e => decide (e.1 = v)).map Prod.snd

def bpfMaxinsns : ℕ := 4096

/-- `reciprocal_value`, for `k` not 0. -/
def reciprocalValue (k : BitVec 32) : BitVec 32 :=
  BitVec.ofNat 32 ((2 ^ 32 + (k.toNat - 1)) / k.toNat)

/-- One iteration of the loop of `sk_chk_filter`: the instruction as it is
left, `none` for `-EINVAL`. -/
def chkInsn (flen pc : ℕ) (f : SockFilter) : Option SockFilter :=
  match tableEntry codes f.code with
  | none => none
  | some code =>
    match code with
    | .aluDivK =>
      if f.k = 0 then none
      else some { f with k := reciprocalValue f.k, code := code.value }
    | .ldMem | .ldxMem | .st | .stx =>
      if f.k.toNat ≥ bpfMemwords then none else some { f with code := code.value }
    | .jmpJa =>
      if f.k.toNat ≥ flen - pc - 1 then none else some { f with code := code.value }
    | .jmpJeqK | .jmpJeqX | .jmpJgeK | .jmpJgeX | .jmpJgtK | .jmpJgtX | .jmpJsetX | .jmpJsetK =>
      if pc + f.jt.toNat + 1 ≥ flen ∨ pc + f.jf.toNat + 1 ≥ flen then none
      else some { f with code := code.value }
    | .ldWAbs | .ldHAbs | .ldBAbs =>
      some { f with code := ((tableEntry ancillaries f.k).getD code).value }
    | _ => some { f with code := code.value }

/-- The loop from `pc` on, over what is left of the array: the array as it is
left, and the result so far. -/
def chkLoop (flen : ℕ) : ℕ → List SockFilter → List SockFilter × ℤ
  | _, [] => ([], 0)
  | pc, f :: fs =>
    match chkInsn flen pc f with
    | none => (f :: fs, einval)
    | some f' =>
      let r := chkLoop flen (pc + 1) fs
      (f' :: r.1, r.2)

/-- `masks[t] &= memvalid`. -/
def setMask (memvalid : BitVec 16) (masks : ℕ → BitVec 16) (t : ℕ) : ℕ → BitVec 16 :=
  Function.update masks t (masks t &&& memvalid)

/-- The loop of `check_load_and_stores` from `pc` on. -/
def checkLoop : ℕ → List SockFilter → (ℕ → BitVec 16) → BitVec 16 → ℤ
  | _, [], _, _ => 0
  | pc, f :: fs, masks, memvalid0 =>
    let memvalid := memvalid0 &&& masks pc
    match Code.ofValue f.code with
    | some .st | some .stx =>
      checkLoop (pc + 1) fs masks (memvalid ||| 1#16 <<< f.k.toNat)
    | some .ldMem | some .ldxMem =>
      if memvalid &&& 1#16 <<< f.k.toNat = 0 then einval
      else checkLoop (pc + 1) fs masks memvalid
    | some .jmpJa =>
      checkLoop (pc + 1) fs (setMask memvalid masks (pc + 1 + f.k.toNat)) (BitVec.allOnes 16)
    | some .jmpJeqK | some .jmpJeqX | some .jmpJgeK | some .jmpJgeX | some .jmpJgtK
    | some .jmpJgtX | some .jmpJsetX | some .jmpJsetK =>
      checkLoop (pc + 1) fs
        (setMask memvalid (setMask memvalid masks (pc + 1 + f.jt.toNat))
          (pc + 1 + f.jf.toNat))
        (BitVec.allOnes 16)
    | _ => checkLoop (pc + 1) fs masks memvalid

/-- `check_load_and_stores`; `alloc` says whether `kmalloc` succeeds. -/
def checkLoadAndStores (alloc : Bool) (filter : List SockFilter) : ℤ :=
  if alloc then checkLoop 0 filter (fun _ => BitVec.allOnes 16) 0 else enomem

/-- `sk_chk_filter`: the array as it is left, and the result. -/
def skChkFilter (alloc : Bool) (filter : List SockFilter) : List SockFilter × ℤ :=
  if filter.length = 0 ∨ filter.length > bpfMaxinsns then (filter, einval)
  else
    let r := chkLoop filter.length 0 filter
    if r.2 ≠ 0 then r
    else
      match (r.1.getLast?).bind fun f => Code.ofValue f.code with
      | some .retK | some .retA => (r.1, checkLoadAndStores alloc r.1)
      | _ => (r.1, einval)

inductive Kind where
  | ret
  | ja
  | branch
  | store
  | load
  | plain
  deriving DecidableEq

def Code.kind : Code → Kind
  | .retK | .retA => .ret
  | .jmpJa => .ja
  | .jmpJeqK | .jmpJeqX | .jmpJgeK | .jmpJgeX | .jmpJgtK | .jmpJgtX | .jmpJsetX | .jmpJsetK =>
    .branch
  | .st | .stx => .store
  | .ldMem | .ldxMem => .load
  | _ => .plain

/-- What the first pass checks of an instruction at `pc`. -/
def SockFilter.Fits (f : SockFilter) (flen pc : ℕ) : Kind → Prop
  | .store | .load => f.k.toNat < bpfMemwords
  | .ja => pc + f.k.toNat + 1 < flen
  | .branch => pc + f.jt.toNat + 1 < flen ∧ pc + f.jf.toNat + 1 < flen
  | .ret | .plain => True

def SockFilter.Checked (f : SockFilter) (flen pc : ℕ) : Prop :=
  ∃ c, Code.ofValue f.code = some c ∧ f.Fits flen pc c.kind

variable {c : Code} {f : SockFilter} {flen pc : ℕ}

lemma SockFilter.checked_of_value (hcode : f.code = c.value) (hfits : f.Fits flen pc c.kind)
    : f.Checked flen pc :=
  ⟨c, by rw [hcode, Code.ofValue_value], hfits⟩

/-- **The first pass, one instruction.** -/
lemma chkInsn_checked {f' : SockFilter} (h : chkInsn flen pc f = some f') :
    f'.Checked flen pc := by
  unfold chkInsn at h
  split at h
  · cases h
  · rename_i code _
    cases code with
    | aluDivK =>
      dsimp only at h
      split at h
      · cases h
      · cases h
        exact checked_of_value rfl trivial
    | ldMem | ldxMem | st | stx =>
      dsimp only at h
      split at h
      · cases h
      · rename_i hk
        cases h
        exact checked_of_value rfl (lt_of_not_ge hk)
    | jmpJa =>
      dsimp only at h
      split at h
      · cases h
      · cases h
        refine checked_of_value rfl ?_
        show pc + f.k.toNat + 1 < flen
        omega
    | jmpJeqK | jmpJeqX | jmpJgeK | jmpJgeX | jmpJgtK | jmpJgtX | jmpJsetX | jmpJsetK =>
      dsimp only at h
      split at h
      · cases h
      · rename_i hk
        cases h
        rw [not_or, not_le, not_le] at hk
        exact checked_of_value rfl hk
    | ldWAbs | ldHAbs | ldBAbs =>
      cases h
      refine checked_of_value rfl ?_
      cases hanc : tableEntry ancillaries f.k with
      | none => exact trivial
      | some c =>
        have hall : ∀ e ∈ ancillaries, e.2.kind = .plain := by decide
        obtain ⟨e, he, rfl⟩ := map_eq_some_iff.mp hanc
        rw [getD_some, hall e (mem_of_find?_eq_some he)]
        exact trivial
    | _ =>
      cases h
      exact checked_of_value rfl trivial

variable {fs filter filter' : List SockFilter}

/-- **The first pass, the whole array.** -/
lemma chkLoop_checked {fs' : List SockFilter} (h : chkLoop flen pc fs = (fs', 0)) :
    fs'.length = fs.length ∧
      ∀ i (f' : SockFilter), fs'[i]? = some f' → f'.Checked flen (pc + i) := by
  induction fs generalizing pc fs' with
  | nil =>
    cases h
    exact ⟨rfl, by simp⟩
  | cons f fs ih =>
    rw [chkLoop] at h
    split at h
    · exact absurd (Prod.mk.inj h).2 (by decide)
    · rename_i f1 hf1
      obtain ⟨hfs, hret⟩ := Prod.mk.inj h
      subst hfs
      obtain ⟨hlen, hrest⟩ := ih (Prod.ext rfl hret)
      refine ⟨by simp [hlen], ?_⟩
      rintro (_ | i) f' hf'
      · rw [List.getElem?_cons_zero, some.injEq] at hf'
        exact hf' ▸ chkInsn_checked hf1
      · rw [List.getElem?_cons_succ] at hf'
        have := hrest i f' hf'
        rwa [Nat.add_assoc, Nat.add_comm 1 i] at this

def cells : Domain (BitVec 16) ℕ where
  meet := fun a b => a &&& b
  top := BitVec.allOnes 16
  facts := fun m => {k | m.getLsbD k = true}
  meet_left := by
    intro a b k hk
    rw [Set.mem_ofPred_eq, BitVec.getLsbD_and, Bool.and_eq_true] at hk
    exact hk.1
  meet_right := by
    intro a b k hk
    rw [Set.mem_ofPred_eq, BitVec.getLsbD_and, Bool.and_eq_true] at hk
    exact hk.2

/-- An instruction at `pc` as a node of the analysis. -/
def SockFilter.node (f : SockFilter) (pc : ℕ) : Option Kind → Node (BitVec 16)
  | some .store =>
    { transfer := fun m => m ||| 1#16 <<< f.k.toNat, targets := [], falls := true }
  | some .ja => { transfer := id, targets := [pc + 1 + f.k.toNat], falls := false }
  | some .branch =>
    { transfer := id, targets := [pc + 1 + f.jt.toNat, pc + 1 + f.jf.toNat], falls := false }
  | _ => { transfer := id, targets := [], falls := true }

def SockFilter.kind (f : SockFilter) : Option Kind := (Code.ofValue f.code).map Code.kind

def nodes (filter : List SockFilter) (pc : ℕ) : Node (BitVec 16) :=
  match filter[pc]? with
  | some f => f.node pc f.kind
  | none => { transfer := id, targets := [], falls := true }

lemma nodes_eq (h : filter[pc]? = some f) : nodes filter pc = f.node pc f.kind := by
  rw [nodes, h]

/-- **The second pass, one instruction.** It goes on with what the analysis
computes, and a word that is read is known to be written. -/
lemma checkLoop_cons {p : Pass (BitVec 16)} (h : checkLoop pc (f :: fs) p.masks p.cur = 0) :
    checkLoop (pc + 1) fs (cells.visit p pc (f.node pc f.kind)).masks
        (cells.visit p pc (f.node pc f.kind)).cur = 0 ∧
      (f.kind = some .load → cells.input p pc &&& 1#16 <<< f.k.toNat ≠ 0) := by
  rw [checkLoop] at h
  unfold kind
  cases hcode : Code.ofValue f.code with
  | none =>
    simp only [hcode] at h
    exact ⟨h, by simp⟩
  | some c =>
    cases c with
    | ldMem | ldxMem =>
      simp only [hcode] at h
      split at h
      · cases h
      · rename_i hbit
        exact ⟨h, fun _ => hbit⟩
    | _ =>
      simp only [hcode] at h
      exact ⟨h, by simp [Code.kind]⟩

/-- **The second pass, the whole array.** -/
lemma checkLoop_reads (hdrop : filter.drop pc = fs)
    (h : checkLoop pc fs (cells.pass 0 (nodes filter) pc).masks
      (cells.pass 0 (nodes filter) pc).cur = 0) {i : ℕ} (hi : pc ≤ i) (hf : filter[i]? = some f)
    (hload : f.kind = some .load) :
    cells.input (cells.pass 0 (nodes filter) i) i &&& 1#16 <<< f.k.toNat ≠ 0 := by
  induction fs generalizing pc with
  | nil =>
    have hlen := drop_eq_nil_iff.mp hdrop
    rw [List.getElem?_eq_none (le_trans hlen hi)] at hf
    cases hf
  | cons g fs ih =>
    have hg : filter[pc]? = some g := by
      rw [← List.head?_drop, hdrop, List.head?_cons]
    obtain ⟨hnext, hbit⟩ := checkLoop_cons h
    rcases Nat.eq_or_lt_of_le hi with rfl | hlt
    · rw [hg, some.injEq] at hf
      subst hf
      exact hbit hload
    · refine ih ?_ ?_ hlt
      · rw [← tail_drop, hdrop, tail_cons]
      · rw [← nodes_eq hg] at hnext
        exact hnext

structure Accepted (filter : List SockFilter) : Prop where
  nonempty : 0 < filter.length
  checked : ∀ i (f : SockFilter), filter[i]? = some f → f.Checked filter.length i
  last : ∀ f : SockFilter, filter[filter.length - 1]? = some f → f.kind = some .ret
  reads : ∀ i (f : SockFilter), filter[i]? = some f → f.kind = some .load →
    f.k.toNat ∈ cells.facts (cells.input (cells.pass 0 (nodes filter) i) i)

variable {alloc : Bool}

section

variable (h : skChkFilter alloc filter = (filter', 0))
include h

lemma skChkFilter_eq_zero : filter.length ≠ 0 ∧ chkLoop filter.length 0 filter = (filter', 0) ∧
      (∃ f, filter'.getLast? = some f ∧ f.kind = some .ret) ∧
      checkLoop 0 filter' (fun _ => BitVec.allOnes 16) 0 = 0 := by
  have hstores : ∀ fs : List SockFilter, (fs, checkLoadAndStores alloc fs) = (filter', 0) →
      fs = filter' ∧ checkLoop 0 filter' (fun _ => BitVec.allOnes 16) 0 = 0 := by
    intro fs hfs
    obtain ⟨rfl, hret⟩ := Prod.mk.inj hfs
    unfold checkLoadAndStores at hret
    split at hret
    · exact ⟨rfl, hret⟩
    · cases hret
  have hlast : ∀ (fs : List SockFilter) (c : Code), c.kind = .ret →
      (fs.getLast?.bind fun f => Code.ofValue f.code) = some c →
      ∃ f, fs.getLast? = some f ∧ f.kind = some .ret := by
    intro fs c hkind hbind
    obtain ⟨f, hf, hcode⟩ := bind_eq_some_iff.mp hbind
    exact ⟨f, hf, by rw [kind, hcode, map_some, hkind]⟩
  unfold skChkFilter at h
  split at h
  · exact absurd (Prod.mk.inj h).2 (by decide)
  · rename_i hlen
    rw [not_or] at hlen
    dsimp only at h
    split at h
    · rename_i hret
      exact absurd (congrArg Prod.snd h) hret
    · rename_i hret
      rw [not_not] at hret
      split at h
      · rename_i hcode
        obtain ⟨rfl, hcheck⟩ := hstores _ h
        exact ⟨hlen.1, Prod.ext rfl hret, hlast _ .retK rfl hcode, hcheck⟩
      · rename_i hcode
        obtain ⟨rfl, hcheck⟩ := hstores _ h
        exact ⟨hlen.1, Prod.ext rfl hret, hlast _ .retA rfl hcode, hcheck⟩
      · exact absurd (Prod.mk.inj h).2 (by decide)

lemma accepted_of_skChkFilter : filter'.length = filter.length ∧ Accepted filter' := by
  obtain ⟨hne, hloop, ⟨f, hlast, hret⟩, hcheck⟩ := skChkFilter_eq_zero h
  obtain ⟨hlen, hchecked⟩ := chkLoop_checked hloop
  refine ⟨hlen, ?_, ?_, ?_, ?_⟩
  · rw [hlen]
    exact Nat.pos_of_ne_zero hne
  · intro i f hf
    rw [hlen]
    have := hchecked i f hf
    rwa [Nat.zero_add] at this
  · intro g hg
    rw [← List.getLast?_eq_getElem?, hlast, some.injEq] at hg
    exact hg ▸ hret
  · intro i g hg hload
    by_contra hbit
    apply checkLoop_reads drop_zero hcheck (Nat.zero_le i) hg hload
    rw [← BitVec.twoPow_eq, BitVec.and_twoPow, Bool.eq_false_iff.mpr hbit]
    rfl

end

def Vm.Goes (vm : Vm) (f : SockFilter) (vm' : Vm) : Kind → Prop
  | .ret => False
  | .ja => vm'.pc = vm.pc + 1 + f.k.toNat ∧ vm'.written = vm.written
  | .branch =>
    (vm'.pc = vm.pc + 1 + f.jt.toNat ∨ vm'.pc = vm.pc + 1 + f.jf.toNat) ∧
      vm'.written = vm.written
  | .store => vm'.pc = vm.pc + 1 ∧ vm'.written = f.k.toNat :: vm.written
  | .load | .plain => vm'.pc = vm.pc + 1 ∧ vm'.written = vm.written

def Outcome.Goes (o : Outcome) (vm : Vm) (f : SockFilter) (kind : Kind) : Prop :=
  ∀ vm', o = .next vm' → vm.Goes f vm' kind

section

variable (vm : Vm) (skb : SkBuff) (f : SockFilter)

lemma ret_goes (v : BitVec 32) (kind : Kind) : (Outcome.ret v).Goes vm f kind := by
  rintro vm' ⟨⟩

lemma setA_goes (v : BitVec 32) : (vm.setA v).Goes vm f .plain := by
  rintro _ ⟨⟩
  exact ⟨rfl, rfl⟩

lemma setX_goes (v : BitVec 32) : (vm.setX v).Goes vm f .plain := by
  rintro _ ⟨⟩
  exact ⟨rfl, rfl⟩

lemma branch_goes (cond : Bool) : (vm.branch f cond).Goes vm f .branch := by
  rintro _ ⟨⟩
  refine ⟨?_, rfl⟩
  cases cond with
  | true => exact .inl (Nat.add_right_comm _ _ _)
  | false => exact .inr (Nat.add_right_comm _ _ _)

lemma load_goes (k : BitVec 32) (size : ℕ) : (vm.load skb k size).Goes vm f .plain := by
  unfold Vm.load
  split
  · exact setA_goes vm f _
  · exact ret_goes vm f 0 _

lemma ancNlattr_goes : (vm.ancNlattr skb).Goes vm f .plain := by
  unfold Vm.ancNlattr
  split
  · exact ret_goes vm f 0 _
  · split
    · exact ret_goes vm f 0 _
    · exact setA_goes vm f _

lemma ancNlattrNest_goes : (vm.ancNlattrNest skb).Goes vm f .plain := by
  unfold Vm.ancNlattrNest
  split
  · exact ret_goes vm f 0 _
  · split
    · exact ret_goes vm f 0 _
    · split
      · exact ret_goes vm f 0 _
      · exact setA_goes vm f _

variable {vm f}

lemma readMem_ok (hk : f.k.toNat < bpfMemwords) (hw : f.k.toNat ∈ vm.written) :
    vm.readMem f.k.toNat = .ok (vm.mem f.k.toNat) := by
  rw [Vm.readMem, if_neg (not_le.mpr hk), if_pos hw]

/-- **One instruction.** With its scratch word in range, and written if it is
read, an instruction has no fault and goes where its kind can go. -/
lemma exec_goes (c : Code) (hstore : c.kind = .store → f.k.toNat < bpfMemwords)
    (hload : c.kind = .load → f.k.toNat < bpfMemwords ∧ f.k.toNat ∈ vm.written) :
    ∃ o, vm.exec skb f c = .ok o ∧ o.Goes vm f c.kind := by
  cases c with
  | retK | retA => exact ⟨_, rfl, ret_goes vm f _ _⟩
  | aluDivX =>
    by_cases hx : vm.x = 0
    · exact ⟨_, if_pos hx, ret_goes vm f 0 _⟩
    · refine ⟨vm.setA (vm.a / vm.x), ?_, setA_goes vm f _⟩
      simp only [Vm.exec, if_neg hx, Vm.divide]
      rfl
  | jmpJa =>
    refine ⟨_, rfl, ?_⟩
    rintro _ ⟨⟩
    exact ⟨Nat.add_right_comm _ _ _, rfl⟩
  | jmpJeqK | jmpJeqX | jmpJgeK | jmpJgeX | jmpJgtK | jmpJgtX | jmpJsetK | jmpJsetX =>
    exact ⟨_, rfl, branch_goes vm f _⟩
  | ldWAbs | ldHAbs | ldBAbs | ldWInd | ldHInd | ldBInd => exact ⟨_, rfl, load_goes vm skb f _ _⟩
  | ldxBMsh =>
    simp only [Vm.exec]
    split
    · exact ⟨_, rfl, setX_goes vm f _⟩
    · exact ⟨_, rfl, ret_goes vm f 0 _⟩
  | ldMem =>
    obtain ⟨hk, hw⟩ := hload rfl
    refine ⟨vm.setA (vm.mem f.k.toNat), ?_, setA_goes vm f _⟩
    simp only [Vm.exec, readMem_ok hk hw]
    rfl
  | ldxMem =>
    obtain ⟨hk, hw⟩ := hload rfl
    refine ⟨vm.setX (vm.mem f.k.toNat), ?_, setX_goes vm f _⟩
    simp only [Vm.exec, readMem_ok hk hw]
    rfl
  | st | stx =>
    refine ⟨_, if_neg (not_le.mpr (hstore rfl)), ?_⟩
    rintro _ ⟨⟩
    exact ⟨rfl, rfl⟩
  | ldxWLen | ldxImm | miscTax => exact ⟨_, rfl, setX_goes vm f _⟩
  | ancIfindex | ancHatype =>
    simp only [Vm.exec]
    split
    · exact ⟨_, rfl, ret_goes vm f 0 _⟩
    · exact ⟨_, rfl, setA_goes vm f _⟩
  | ancNlattr => exact ⟨_, rfl, ancNlattr_goes vm skb f⟩
  | ancNlattrNest => exact ⟨_, rfl, ancNlattrNest_goes vm skb f⟩
  | _ => exact ⟨_, rfl, setA_goes vm f _⟩

end

/-- What an accepted filter keeps: the next instruction is inside the array,
and the scratch words that the analysis takes for written are. -/
structure Vm.Inv (filter : List SockFilter) (vm : Vm) : Prop where
  pc : vm.pc < filter.length
  known : cells.Known (fun k vm => k ∈ Vm.written vm) Vm.pc 0 (nodes filter) vm

section

variable {filter : List SockFilter} (hacc : Accepted filter) (skb : SkBuff)

include hacc

lemma inv_start (mem : ℕ → BitVec 32) :
    Vm.Inv filter { pc := 0, a := 0, x := 0, mem := mem, written := [] } := by
  refine ⟨hacc.nonempty, Domain.known_of_start cells ?_ ?_⟩
  · rfl
  · intro k hk
    have hbit : (0#16).getLsbD k = true := hk
    rw [BitVec.getLsbD_zero] at hbit
    cases hbit

variable {f : SockFilter} {vm : Vm} (hinv : vm.Inv filter)
include hinv

/-- Where an instruction of an accepted filter goes is forward, inside the
array and along an edge of the analysis; what holds on entry holds there. -/
lemma inv_of_goes {vm' : Vm} {kind : Kind} (hf : filter[vm.pc]? = some f)
    (hkind : f.kind = some kind) (hfits : f.Fits filter.length vm.pc kind)
    (hgoes : vm.Goes f vm' kind) : vm.pc < vm'.pc ∧ vm'.Inv filter := by
  have hnode : nodes filter vm.pc = f.node vm.pc (some kind) := by rw [nodes_eq hf, hkind]
  have hnext : kind ≠ .ret → vm.pc + 1 < filter.length := by
    intro hne
    refine Nat.lt_of_le_of_ne hinv.pc fun heq => ?_
    have hlast : f.kind = some .ret := by
      apply hacc.last
      rw [← heq, Nat.succ_sub_one]
      exact hf
    exact hne (some.inj (hkind.symm.trans hlast))
  -- a step that writes nothing and along which nothing becomes known
  have hsame : vm'.written = vm.written → (nodes filter vm.pc).transfer = id →
      Node.Edge (nodes filter) vm.pc vm'.pc → vm.pc < vm'.pc → vm'.pc < filter.length →
      vm.pc < vm'.pc ∧ vm'.Inv filter := by
    intro hw htransfer hedge hlt hpc
    refine ⟨hlt, hpc, Domain.Known.step cells hedge hlt ?_⟩
    intro k hk
    rw [htransfer] at hk
    rw [hw]
    exact hinv.known k hk
  cases kind with
  | ret => exact hgoes.elim
  | ja =>
    obtain ⟨hpc, hw⟩ := hgoes
    have hlt : vm.pc + f.k.toNat + 1 < filter.length := hfits
    refine hsame hw (by rw [hnode]; rfl) (.inl ?_) (by omega) (by omega)
    rw [hnode, hpc]
    exact mem_singleton_self _
  | branch =>
    obtain ⟨hpc, hw⟩ := hgoes
    obtain ⟨hjt, hjf⟩ : vm.pc + f.jt.toNat + 1 < filter.length ∧
      vm.pc + f.jf.toNat + 1 < filter.length := hfits
    refine hsame hw (by rw [hnode]; rfl) (.inl ?_) (by omega) (by omega)
    rw [hnode]
    rcases hpc with hpc | hpc
    · exact hpc ▸ mem_cons_self
    · exact hpc ▸ mem_cons_of_mem _ (mem_singleton_self _)
  | load | plain =>
    obtain ⟨hpc, hw⟩ := hgoes
    have hlt := hnext (by decide)
    refine hsame hw (by rw [hnode]; rfl) (.inr ⟨by rw [hnode]; rfl, hpc⟩) (by omega) (by omega)
  | store =>
    obtain ⟨hpc, hw⟩ := hgoes
    have hlt := hnext (by decide)
    refine ⟨by omega, by omega, Domain.Known.step cells (.inr ⟨by rw [hnode]; rfl, hpc⟩)
      (by omega) ?_⟩
    intro k hk
    rw [hw]
    rw [hnode] at hk
    -- either known on entry or the word just written
    have hbit : (cells.input (cells.pass 0 (nodes filter) vm.pc) vm.pc |||
        1#16 <<< f.k.toNat).getLsbD k = true := hk
    rw [BitVec.getLsbD_or, Bool.or_eq_true] at hbit
    rcases hbit with hbit | hbit
    · exact mem_cons_of_mem _ (hinv.known k hbit)
    · rw [← BitVec.twoPow_eq, BitVec.getLsbD_twoPow, Bool.and_eq_true] at hbit
      exact of_decide_eq_true hbit.2 ▸ mem_cons_self

/-- **One step of an accepted filter.** -/
lemma step_of_inv : ∃ o, vm.step skb filter = .ok o ∧
      ∀ vm', o = .next vm' → vm.pc < vm'.pc ∧ vm'.Inv filter := by
  obtain ⟨f, hf⟩ : ∃ f, filter[vm.pc]? = some f :=
    ⟨_, List.getElem?_eq_getElem hinv.pc⟩
  obtain ⟨c, hcode, hfits⟩ := hacc.checked vm.pc f hf
  have hkind : f.kind = some c.kind := by rw [kind, hcode, map_some]
  have hstore : c.kind = .store → f.k.toNat < bpfMemwords := by
    intro hs
    rw [hs] at hfits
    exact hfits
  have hload : c.kind = .load → f.k.toNat < bpfMemwords ∧ f.k.toNat ∈ vm.written := by
    intro hl
    rw [hl] at hfits
    exact ⟨hfits, hinv.known _ (hacc.reads vm.pc f hf (by rw [hkind, hl]))⟩
  obtain ⟨o, hexec, hgoes⟩ := exec_goes skb c hstore hload
  refine ⟨o, ?_, ?_⟩
  · simp only [Vm.step, hf, hcode]
    exact hexec
  · intro vm' ho
    exact inv_of_goes hacc hinv hf hkind hfits (hgoes vm' ho)

/-- **A run of an accepted filter.** It returns before it runs out of array. -/
lemma run_of_inv {n : ℕ} (hn : filter.length - vm.pc ≤ n) :
    ∃ v, Vm.run skb filter n vm = .ok (some v) := by
  induction n generalizing vm with
  | zero =>
    have := hinv.pc
    omega
  | succ n ih =>
    obtain ⟨o, hstep, hnext⟩ := step_of_inv hacc skb hinv
    rw [Vm.run, hstep]
    cases o with
    | ret v => exact ⟨v, rfl⟩
    | next vm' =>
      obtain ⟨hlt, hinv'⟩ := hnext vm' rfl
      exact ih hinv' (by omega)

end

/-- Whatever the packet and whatever the stack holds, a filter that `sk_chk_filter` accepts returns
a value after at most as many instructions as it has, and meets no fault on the way. -/
theorem accepted_runs (alloc : Bool) (filter filter' : List SockFilter)
    (h : skChkFilter alloc filter = (filter', 0)) (skb : SkBuff) (mem : ℕ → BitVec 32) :
    ∃ v, skRunFilter skb filter' mem filter.length = .ok (some v) := by
  obtain ⟨hlen, hacc⟩ := accepted_of_skChkFilter h
  apply run_of_inv hacc skb (inv_start hacc mem)
  rw [hlen]
  exact Nat.sub_le _ _

/-- A filter with a branch around a scratch word it has written, on an empty
packet. -/
theorem accepted_runs_branch : ∃ v, skRunFilter SkBuff.empty (skChkFilter true
          [⟨Bpf.ld ||| Bpf.imm, 0, 0, 7⟩, ⟨Bpf.st, 0, 0, 3⟩,
            ⟨Bpf.jmp ||| Bpf.jeq ||| Bpf.k, 0, 1, 7⟩, ⟨Bpf.ld ||| Bpf.mem, 0, 0, 3⟩,
            ⟨Bpf.ret ||| Bpf.a, 0, 0, 0⟩]).1 (fun _ => 0) 5 = .ok (some v) :=
  accepted_runs true
    [⟨Bpf.ld ||| Bpf.imm, 0, 0, 7⟩, ⟨Bpf.st, 0, 0, 3⟩,
      ⟨Bpf.jmp ||| Bpf.jeq ||| Bpf.k, 0, 1, 7⟩, ⟨Bpf.ld ||| Bpf.mem, 0, 0, 3⟩,
      ⟨Bpf.ret ||| Bpf.a, 0, 0, 0⟩] _ (Prod.ext rfl (by decide +kernel)) SkBuff.empty (fun _ => 0)

end Am335x.Net
