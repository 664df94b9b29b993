import Am335xKernel.Kernel.Interface
import Am335xKernel.Drivers.Cpdma.Pool

/-!
# A DMA channel of `drivers/net/ethernet/ti/davinci_cpdma.c`

Three parties share the queue of a channel. `cpdma_chan_submit` chains a
descriptor at the tail, under `chan->lock`. The hardware walks the chain from
the descriptor that was written to the head pointer register and stops behind
the last one. `cpdma_chan_process` takes completed descriptors off the head; it
holds no lock, so each of its accesses is a step of its own, and `Consumer`
says how far it is and what it has read.

The hardware takes two steps for a descriptor: it reads `hw_next`, and it
writes `hw_mode` back once, with `OWNER` clear and, if it has read 0, with
`EOQ` set. A descriptor that is chained between the two is missed; that is the
case both drivers look for.

Of the descriptor the words are kept that the driver reads back.
-/

namespace Am335x.Cpdma

open BitVec

def cpdmaDescSop : BitVec 32 := .twoPow 32 31
def cpdmaDescEop : BitVec 32 := .twoPow 32 30
def cpdmaDescOwner : BitVec 32 := .twoPow 32 29
def cpdmaDescEoq : BitVec 32 := .twoPow 32 28
def cpdmaDescTdComplete : BitVec 32 := .twoPow 32 27
def cpdmaDescToPortEn : BitVec 32 := .twoPow 32 20
def cpdmaDescPortMask : BitVec 32 := .twoPow 32 18 ||| .twoPow 32 17 ||| .twoPow 32 16

structure Desc where
  hwNext : ℕ
  hwMode : BitVec 32
  swToken : ℕ
  swBuffer : ℕ
  swLen : BitVec 16

def owned (mode : BitVec 32) : Bool := mode &&& cpdmaDescOwner != 0

def ended (mode : BitVec 32) : Bool := mode &&& cpdmaDescEoq != 0

def tornDown (mode : BitVec 32) : Bool := mode &&& cpdmaDescTdComplete != 0

def completedMode (mode : BitVec 32) (next : ℕ) : BitVec 32 :=
  mode &&& ~~~cpdmaDescOwner ||| if next = 0 then cpdmaDescEoq else 0

def submitMode (isRx : Bool) (directed : ℕ) (len : BitVec 16) : BitVec 32 :=
  let mode := cpdmaDescOwner ||| cpdmaDescSop ||| cpdmaDescEop
  let mode :=
    if !isRx && (directed == 1 || directed == 2) then
      mode ||| (cpdmaDescToPortEn ||| BitVec.ofNat 32 directed <<< 16)
    else mode
  mode ||| len.setWidth 32

variable (mode : BitVec 32)

lemma and_bit_bne_zero {i : ℕ} (hi : i < 32) :
    (mode &&& BitVec.twoPow 32 i != 0) = mode.getLsbD i := by
  have hbit : (BitVec.twoPow 32 i).getLsbD i = true := by
    simp [hi]
  rw [and_twoPow]
  cases hm : mode.getLsbD i with
  | false => rfl
  | true =>
    rw [if_pos rfl, bne_iff_ne]
    intro hzero
    rw [hzero] at hbit
    simp at hbit

lemma owned_eq : owned mode = mode.getLsbD 29 := and_bit_bne_zero mode (by decide)

lemma ended_eq : ended mode = mode.getLsbD 28 := and_bit_bne_zero mode (by decide)

lemma tornDown_eq : tornDown mode = mode.getLsbD 27 := and_bit_bne_zero mode (by decide)

@[simp] lemma owned_completedMode (next : ℕ) : owned (completedMode mode next) = false := by
  rw [owned_eq, completedMode]
  split <;> simp [cpdmaDescOwner, cpdmaDescEoq]

@[simp] lemma ended_completedMode (next : ℕ) :
    ended (completedMode mode next) = (ended mode || decide (next = 0)) := by
  rw [ended_eq, ended_eq, completedMode]
  split <;> simp [*, cpdmaDescOwner, cpdmaDescEoq]

@[simp] lemma tornDown_completedMode (next : ℕ) :
    tornDown (completedMode mode next) = tornDown mode := by
  rw [tornDown_eq, tornDown_eq, completedMode]
  split <;> simp [cpdmaDescOwner, cpdmaDescEoq]

@[simp] lemma owned_clear_eoq : owned (mode &&& ~~~cpdmaDescEoq) = owned mode := by
  simp [owned_eq, cpdmaDescEoq]

@[simp] lemma ended_clear_eoq : ended (mode &&& ~~~cpdmaDescEoq) = false := by
  simp [ended_eq, cpdmaDescEoq]

@[simp] lemma tornDown_clear_eoq : tornDown (mode &&& ~~~cpdmaDescEoq) = tornDown mode := by
  simp [tornDown_eq, cpdmaDescEoq]

lemma missed_iff : mode &&& (cpdmaDescEoq ||| cpdmaDescOwner) = cpdmaDescEoq ↔
      ended mode = true ∧ owned mode = false := by
  rw [ended_eq, owned_eq]
  constructor
  · intro h
    have h28 := congrArg (BitVec.getLsbD · 28) h
    have h29 := congrArg (BitVec.getLsbD · 29) h
    simpa [cpdmaDescEoq, cpdmaDescOwner, getLsbD_twoPow] using And.intro h28 h29
  · rintro ⟨h28, h29⟩
    simp only [cpdmaDescEoq, cpdmaDescOwner]
    rw [and_or_distrib_left, and_twoPow, and_twoPow, h28, h29]
    simp

lemma submitMode_bits (isRx : Bool) (directed : ℕ) (len : BitVec 16) :
    owned (submitMode isRx directed len) = true ∧ ended (submitMode isRx directed len) = false ∧
      tornDown (submitMode isRx directed len) = false := by
  have hlen : ∀ i, 16 ≤ i → (len.setWidth 32).getLsbD i = false := by
    intro i hi
    simp [getLsbD_of_ge len i hi]
  rw [owned_eq, ended_eq, tornDown_eq, submitMode]
  simp only [getLsbD_or, hlen 29 (by decide), hlen 28 (by decide), hlen 27 (by decide)]
  split
  · rename_i hport
    simp only [Bool.and_eq_true, Bool.or_eq_true, beq_iff_eq] at hport
    obtain ⟨_, rfl | rfl⟩ := hport <;> decide
  · decide

inductive ChanState where
  | idle | active | teardown
  deriving DecidableEq

/-- What the hardware does: it is about to read `hw_next` of a descriptor, or
it has read it and is about to write the mode back. -/
inductive Hw where
  | idle
  | reading (dma : ℕ)
  | completing (dma next : ℕ)
  deriving DecidableEq

/-- How far `__cpdma_chan_process` is, with its local variables. -/
inductive Consumer where
  | idle
  | gotHead (desc : ℕ)
  | gotMode (desc : ℕ) (mode : BitVec 32)
  | gotNext (desc : ℕ) (mode : BitVec 32) (next : ℕ)
  | movedHead (desc : ℕ) (mode : BitVec 32)
  | acked (desc : ℕ) (mode : BitVec 32)
  | requeue (desc : ℕ) (mode : BitVec 32)
  | restart (desc : ℕ) (mode : BitVec 32) (head : Option ℕ)
  | finish (desc : ℕ) (mode : BitVec 32)
  | gotToken (desc : ℕ) (mode : BitVec 32) (token : ℕ)
  | gotBuffer (desc : ℕ) (mode : BitVec 32) (token buffer : ℕ)
  | gotLen (desc : ℕ) (mode : BitVec 32) (token buffer : ℕ) (len : BitVec 16)
  | freed (mode : BitVec 32) (token : ℕ)
  deriving DecidableEq

structure HandlerCall where
  token : ℕ
  outlen : BitVec 32
  status : BitVec 32
  deriving DecidableEq

/-- The arguments of `cpdma_chan_submit`, with the bus address that
`dma_map_single` returns for the data. -/
structure Request where
  token : ℕ
  buffer : ℕ
  len : BitVec 16
  directed : ℕ
  deriving DecidableEq

/-- The channel with its pool, its descriptors and its registers, and the
tokens that were submitted and the handler's calls so far. The bus address of
the descriptors is not 0, which `hw_next` uses for the end of the chain. -/
structure Chan where
  pool : Pool
  hwAddr : ℕ
  isRx : Bool
  minPacketSize : BitVec 16
  state : ChanState
  head : Option ℕ
  tail : ℕ
  mem : ℕ → Desc
  hw : Hw
  cp : ℕ
  consumer : Consumer
  submitted : List ℕ
  handled : List HandlerCall
  hwAddr_pos : 0 < hwAddr

namespace Chan

/-- `desc_phys` of a descriptor; `descPhys` is the function of the source,
which takes a null pointer to 0. -/
def phys (c : Chan) (desc : ℕ) : ℕ := c.hwAddr + desc - c.pool.iomap

def descPhys (c : Chan) : Option ℕ → ℕ
  | none => 0
  | some desc => c.phys desc

def descFromPhys (c : Chan) (dma : ℕ) : Option ℕ :=
  if dma ≠ 0 then some (c.pool.iomap + dma - c.hwAddr) else none

/-- `chan_write(chan, hdp, dma)` starts the hardware. -/
def writeHdp (c : Chan) (dma : ℕ) : Chan :=
  { c with hw := if dma = 0 then .idle else .reading dma }

def updateDesc (c : Chan) (desc : ℕ) (f : Desc → Desc) : Chan :=
  { c with mem := Function.update c.mem desc (f (c.mem desc)) }

end Chan

/-- `__cpdma_chan_submit`. -/
def cpdmaChanSubmitDesc (c : Chan) (desc : ℕ) : Chan :=
  let descDma := c.phys desc
  match c.head with
  | none =>
    let c := { c with head := some desc, tail := desc }
    if c.state = .active then c.writeHdp descDma else c
  | some _ =>
    let prev := c.tail
    let c := c.updateDesc prev fun d => { d with hwNext := descDma }
    let c := { c with tail := desc }
    let mode := (c.mem prev).hwMode
    if mode &&& (cpdmaDescEoq ||| cpdmaDescOwner) = cpdmaDescEoq ∧ c.state = .active then
      (c.updateDesc prev fun d => { d with hwMode := mode &&& ~~~cpdmaDescEoq }).writeHdp descDma
    else c

def Chan.newDesc (c : Chan) (r : Request) : Desc :=
  let len := if r.len < c.minPacketSize then c.minPacketSize else r.len
  { hwNext := 0, hwMode := submitMode c.isRx r.directed len
    swToken := r.token, swBuffer := r.buffer, swLen := len }

def cpdmaChanSubmit (c : Chan) (r : Request) : Chan × ℤ :=
  if c.state = .teardown then (c, einval)
  else
    match cpdmaDescAlloc c.pool 1 c.isRx with
    | (_, none) => (c, enomem)
    | (pool, some desc) =>
      let c := { c with pool := pool }
      let c := c.updateDesc desc fun _ => c.newDesc r
      ({ cpdmaChanSubmitDesc c desc with submitted := c.submitted ++ [r.token] }, 0)

/-- One access of `__cpdma_chan_process` and `__cpdma_chan_free`. -/
def cpdmaChanProcess (c : Chan) : Chan :=
  match c.consumer with
  | .idle =>
    if c.state ≠ .active then c
    else
      match c.head with
      | none => c
      | some desc => { c with consumer := .gotHead desc }
  | .gotHead desc =>
    let mode := (c.mem desc).hwMode
    { c with consumer := if owned mode then .idle else .gotMode desc mode }
  | .gotMode desc mode => { c with consumer := .gotNext desc mode (c.mem desc).hwNext }
  | .gotNext desc mode next =>
    { c with head := c.descFromPhys next, consumer := .movedHead desc mode }
  | .movedHead desc mode => { c with cp := c.phys desc, consumer := .acked desc mode }
  | .acked desc mode =>
    { c with
      consumer :=
        if ended mode ∧ c.head.isSome ∧ !tornDown mode then .requeue desc mode
        else .finish desc mode }
  | .requeue desc mode => { c with consumer := .restart desc mode c.head }
  | .restart desc mode head =>
    { c.writeHdp (c.descPhys head) with consumer := .finish desc mode }
  | .finish desc mode => { c with consumer := .gotToken desc mode (c.mem desc).swToken }
  | .gotToken desc mode token =>
    { c with consumer := .gotBuffer desc mode token (c.mem desc).swBuffer }
  | .gotBuffer desc mode token buffer =>
    { c with consumer := .gotLen desc mode token buffer (c.mem desc).swLen }
  | .gotLen desc mode token _ _ =>
    { c with pool := cpdmaDescFree c.pool desc 1, consumer := .freed mode token }
  | .freed mode token =>
    let call : HandlerCall :=
      { token := token, outlen := mode &&& 0x7ff
        status := mode &&& (cpdmaDescEoq ||| cpdmaDescTdComplete ||| cpdmaDescPortMask) }
    { c with handled := c.handled ++ [call], consumer := .idle }

def hwStep (c : Chan) : Option Chan :=
  let desc := fun dma => c.pool.iomap + dma - c.hwAddr
  match c.hw with
  | .idle => none
  | .reading dma => some { c with hw := .completing dma (c.mem (desc dma)).hwNext }
  | .completing dma next =>
    let c := c.updateDesc (desc dma) fun d => { d with hwMode := completedMode d.hwMode next }
    some (c.writeHdp next)

inductive ChanEvent where
  | submit (r : Request)
  | hw
  | consume
  deriving DecidableEq

def Chan.step (c : Chan) : ChanEvent → Option Chan
  | .submit r => some (cpdmaChanSubmit c r).1
  | .hw => hwStep c
  | .consume => some (cpdmaChanProcess c)

end Am335x.Cpdma
