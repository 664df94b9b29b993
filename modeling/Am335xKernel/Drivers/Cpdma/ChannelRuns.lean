import Am335xKernel.Drivers.Cpdma.ChannelQueue

/-!
# Runs of a DMA channel

What the invariant of `ChannelQueue` means over whole runs. If every submission
is apart from the consumer, nothing that was submitted is lost, repeated or
overtaken, and a queue that waits is always started again, by the next
submission or by the processing of what is completed.

The condition cannot be dropped: a descriptor that is chained after the consumer
has read `hw_next` and before it writes `chan->head` drops out of the queue.
-/

namespace Am335x.Cpdma

open List Option Machine

namespace Chan

def start (pool : Pool) (hwAddr : ℕ) (isRx : Bool) (minPacketSize : BitVec 16)
    (mem : ℕ → Desc) (h : 0 < hwAddr) : Chan :=
  { pool := pool, hwAddr := hwAddr, isRx := isRx, minPacketSize := minPacketSize
    state := .active, head := none, tail := 0, mem := mem, hw := .idle, cp := 0
    consumer := .idle, submitted := [], handled := [], hwAddr_pos := h }

end Chan

def chanMachine (c : Chan) : Machine Chan ChanEvent where
  init := c
  step := Chan.step

namespace Chan

variable {c : Chan} {done todo : List ℕ} {d : ℕ}

lemma inv_start (pool : Pool) (hwAddr : ℕ) (isRx : Bool) (minPacketSize : BitVec 16)
    (mem : ℕ → Desc) (h : 0 < hwAddr) : Inv (start pool hwAddr isRx minPacketSize mem h) [] [] where
  active := rfl
  head_eq := rfl
  tail_eq := fun _ hd => nomatch hd
  links := trivial
  nodup := nodup_nil
  marked := forall_mem_nil _
  done_mode := forall_mem_nil _
  todo_mode := forall_mem_nil _
  mode_td := forall_mem_nil _
  init_mode := forall_mem_nil _
  hw_at := ⟨fun _ => rfl, fun _ hd => nomatch hd⟩
  consumer_at := trivial
  tokens_eq := rfl

/-- How far the consumer is from having taken off all that is completed: before
it moves the head it has one more descriptor to go than after. -/
def weight (done : List ℕ) (k : Consumer) : ℕ :=
  14 * done.length +
    match k with
    | .gotNext .. => 0
    | .gotMode .. => 1
    | .gotHead .. => 2
    | .idle => 3
    | .freed .. => 4
    | .gotLen .. => 5
    | .gotBuffer .. => 6
    | .gotToken .. => 7
    | .finish .. => 8
    | .restart .. => 9
    | .requeue .. => 10
    | .acked .. => 11
    | .movedHead .. => 12

lemma Inv.weight_lt (h : c.Inv done todo) (hbusy : ¬ (done = [] ∧ c.consumer = .idle)) :
    (done = [] ∧ (cpdmaChanProcess c).consumer = .idle) ∨
      weight (c.consumer.rest done) (cpdmaChanProcess c).consumer < weight done c.consumer := by
  have hat := h.consumer_at
  cases hk : c.consumer with
  | idle =>
    right
    have hne : done ≠ [] := fun hnil => hbusy ⟨hnil, hk⟩
    obtain ⟨d, rest, rfl⟩ := exists_cons_of_ne_nil hne
    have hhead : c.head = some d := h.head_eq
    simp [cpdmaChanProcess, hk, hhead, h.active, weight, Consumer.rest]
  | gotHead desc =>
    rw [hk] at hat
    cases hown : owned (c.mem desc).hwMode with
    | false =>
      right
      simp [cpdmaChanProcess, hk, hown, weight, Consumer.rest]
    | true =>
      left
      refine ⟨?_, by simp [cpdmaChanProcess, hk, hown]⟩
      cases done with
      | nil => rfl
      | cons d rest =>
        obtain rfl : d = desc := some.inj hat
        rw [h.done_mode d mem_cons_self] at hown
        cases hown
  | gotNext desc mode next =>
    right
    rw [hk] at hat
    cases done with
    | nil => cases hat.1
    | cons d rest =>
      simp only [cpdmaChanProcess, hk, weight, Consumer.rest, tail_cons, length_cons]
      omega
  | acked desc mode =>
    right
    have hnext : (cpdmaChanProcess c).consumer = .requeue desc mode ∨
        (cpdmaChanProcess c).consumer = .finish desc mode := by
      simp only [cpdmaChanProcess, hk]
      exact ite_eq_or_eq ..
    rcases hnext with hnext | hnext <;> rw [hnext] <;> simp [weight, Consumer.rest]
  | gotMode | movedHead | requeue | restart | finish | gotToken | gotBuffer | gotLen | freed =>
    right
    simp [cpdmaChanProcess, hk, weight, Consumer.rest]

lemma process_submitted (c : Chan) : (cpdmaChanProcess c).submitted = c.submitted := by
  unfold cpdmaChanProcess
  split <;> try rfl
  · split
    · rfl
    · split <;> rfl

/-- **The consumer alone** takes off everything that is completed. -/
lemma Inv.consumes (h : c.Inv done todo) :
    ∃ n, (cpdmaChanProcess^[n] c).Inv [] todo ∧ (cpdmaChanProcess^[n] c).consumer = .idle ∧
      (cpdmaChanProcess^[n] c).submitted = c.submitted := by
  generalize hw : weight done c.consumer = w
  induction w using Nat.strong_induction_on generalizing c done with
  | _ w ih =>
    by_cases hbusy : done = [] ∧ c.consumer = .idle
    · obtain ⟨rfl, hidle⟩ := hbusy
      exact ⟨0, h, hidle, rfl⟩
    rcases h.weight_lt hbusy with ⟨rfl, hidle⟩ | hlt
    · refine ⟨1, ?_, hidle, process_submitted c⟩
      have hnext := h.consume
      have hrest : c.consumer.rest [] = [] := by cases c.consumer <;> rfl
      rw [hrest] at hnext
      exact hnext
    · obtain ⟨n, hinv, hidle, hsub⟩ := ih _ (hw ▸ hlt) h.consume rfl
      refine ⟨n + 1, ?_⟩
      rw [Function.iterate_succ_apply]
      exact ⟨hinv, hidle, hsub.trans (process_submitted c)⟩

lemma exec_consume (c0 c : Chan) (n : ℕ) :
    (chanMachine c0).exec c (List.replicate n .consume) = some (cpdmaChanProcess^[n] c) := by
  induction n generalizing c with
  | zero => rfl
  | succ n ih =>
    have hstep : (chanMachine c0).step c .consume = some (cpdmaChanProcess c) := rfl
    rw [replicate_succ, exec_cons_of_step _ hstep, ih, Function.iterate_succ_apply]

lemma hwStep_reading {dma : ℕ} (hc : c.hw = .reading dma) : hwStep c =
      some { c with hw := .completing dma (c.mem (c.pool.iomap + dma - c.hwAddr)).hwNext } := by
  rw [hwStep, hc]

lemma hwStep_completing {dma next : ℕ} (hc : c.hw = .completing dma next) :
    hwStep c = some ((c.updateDesc (c.pool.iomap + dma - c.hwAddr) fun d =>
      { d with hwMode := completedMode d.hwMode next }).writeHdp next) := by
  rw [hwStep, hc]

lemma Inv.not_idle (h : c.Inv [] (d :: todo)) (hidle : c.consumer = .idle) : c.hw ≠ .idle := by
  intro hc
  have hnil := (h.of_idle hc (by rw [hidle]; rfl)).1 rfl
  cases hnil

lemma Inv.completes (c0 : Chan) (h : c.Inv [] (d :: todo)) (hidle : c.consumer = .idle) :
    ∃ es, (∀ e ∈ es, e = .hw) ∧ ∃ t, (chanMachine c0).exec c es = some t ∧
      t.submitted = c.submitted ∧ t.Inv [d] todo := by
  cases hc : c.hw with
  | idle => exact absurd hc (h.not_idle hidle)
  | reading dma =>
    have hread := h.readNext hc
    have hsecond := hwStep_completing (c := { c with
      hw := .completing dma (c.mem (c.pool.iomap + dma - c.hwAddr)).hwNext }) rfl
    refine ⟨[.hw, .hw], by simp, _, ?_, ?_, hread.complete rfl⟩
    · rw [exec_cons_of_step _ (hwStep_reading hc), exec_cons_of_step _ hsecond]
      rfl
    · rfl
  | completing dma next =>
    refine ⟨[.hw], by simp, _, ?_, ?_, h.complete hc⟩
    · rw [exec_cons_of_step _ (hwStep_completing hc)]
      rfl
    · rfl

lemma Inv.lossless (h : c.Inv done todo) (hidle : c.consumer = .idle) (hhead : c.head = none) :
    c.handled.map HandlerCall.token = c.submitted := by
  have hnil : done ++ todo = [] := List.head?_eq_none_iff.mp (h.head_eq.symm.trans hhead)
  rw [h.tokens_eq, hnil, hidle]
  simp [Consumer.tokens]

/-- **The hardware and the consumer** bring everything that was submitted to
the handler. -/
lemma Inv.drains (c0 : Chan) (h : c.Inv done todo) :
    ∃ es, (∀ e ∈ es, e = .hw ∨ e = .consume) ∧ ∃ t, (chanMachine c0).exec c es = some t ∧
      t.handled.map HandlerCall.token = c.submitted := by
  induction todo generalizing c done with
  | nil =>
    obtain ⟨n, hinv, hidle, hsub⟩ := h.consumes
    refine ⟨List.replicate n .consume, ?_, _, exec_consume c0 c n, ?_⟩
    · intro e he
      exact .inr (eq_of_mem_replicate he)
    · rw [← hsub]
      exact hinv.lossless hidle hinv.head_eq
  | cons d todo ih =>
    obtain ⟨n, hinv, hidle, hsub⟩ := h.consumes
    obtain ⟨hs, hhw, u, hrun, hsub', hinv'⟩ := hinv.completes c0 hidle
    obtain ⟨es, hes, t, ht, hall⟩ := ih hinv'
    refine ⟨List.replicate n .consume ++ (hs ++ es), ?_, t, ?_, ?_⟩
    · exact forall_mem_append.mpr ⟨fun e he => .inr (eq_of_mem_replicate he),
        forall_mem_append.mpr ⟨fun e he => .inl (hhw e he), hes⟩⟩
    · rw [exec_append_eq_some]
      refine ⟨_, exec_consume c0 c n, ?_⟩
      rw [exec_append_eq_some]
      exact ⟨u, hrun, ht⟩
    · rw [hall, hsub', hsub]

lemma submitDesc_hw {f : ℕ} (hactive : c.state = .active) (hhead : c.head ≠ none)
    (hend : ended (c.mem c.tail).hwMode = true) (hown : owned (c.mem c.tail).hwMode = false)
    (hf : c.pool.iomap ≤ f) : (cpdmaChanSubmitDesc c f).hw = .reading (c.phys f) := by
  obtain ⟨d, hd⟩ := ne_none_iff_exists'.mp hhead
  have hmode : ((c.updateDesc c.tail fun d => { d with hwNext := c.phys f }).mem c.tail).hwMode =
      (c.mem c.tail).hwMode := by rw [updateDesc_self]
  simp only [cpdmaChanSubmitDesc, hd]
  rw [if_pos ⟨by rw [hmode]; exact (missed_iff _).mpr ⟨hend, hown⟩, hactive⟩]
  exact if_neg (phys_ne_zero hf)

lemma Inv.submit_hw {r : Request} (h : c.Inv done []) (hhead : c.head ≠ none)
    (hidle : c.hw = .idle) (hspare : c.sparesDesc) (hok : (cpdmaChanSubmit c r).2 = 0) :
    (cpdmaChanSubmit c r).1.hw ≠ .idle := by
  have hne : done ++ [] ≠ [] := by
    intro hnil
    rw [h.head_eq, hnil] at hhead
    exact hhead rfl
  have hlast := h.getLast?_eq_tail hne
  rw [append_nil] at hne hlast
  have htail : c.tail ∈ done := mem_of_getLast? hlast
  have hstopped : c.consumer.stopped = false := by
    rw [Bool.eq_false_iff]
    intro hs
    exact hne (h.idle_of_stopped rfl hs).2
  have hend := (h.of_idle hidle hstopped).2 c.tail hlast
  unfold cpdmaChanSubmit at hok ⊢
  rw [if_neg (by rw [h.active]; decide)] at hok ⊢
  rcases alloc_of_spares hspare with ⟨i, hfree, heq⟩ | heq
  · rw [heq]
    obtain ⟨hfresh, hfill⟩ := h.fill hfree (c.newDesc r)
    have hother : c.tail ≠ c.pool.desc i := by
      intro htl
      exact hfresh (mem_append_right _ (mem_append_left _ (htl ▸ htail)))
    have hmem : ({ c with pool := c.pool.take i 1 }.updateDesc (c.pool.desc i)
        fun _ => c.newDesc r).mem c.tail = c.mem c.tail := updateDesc_of_ne _ _ hother
    have hhw := submitDesc_hw (f := c.pool.desc i) hfill.active hhead
      (by rw [← hend]; exact congrArg (fun d : Desc => ended d.hwMode) hmem)
      ((congrArg (fun d : Desc => owned d.hwMode) hmem).trans (h.done_mode _ htail))
      (Nat.le_add_right _ _)
    intro hcontra
    exact Hw.noConfusion (hhw.symm.trans hcontra)
  · rw [heq] at hok
    have hneg : enomem = 0 := hok
    cases hneg

/-- What a channel owes its user. The handler's calls are the submissions so
far, in order, without a gap; a consumer that finds the queue empty has handled
all of them; the hardware and the consumer can bring the rest to the handler
from here; and a hardware that is idle while something is queued is started
again by a submission or by the consumer. -/
structure Right (c : Chan) : Prop where
  order : c.handled.map HandlerCall.token <+: c.submitted
  lossless : c.consumer = .idle → c.head = none → c.handled.map HandlerCall.token = c.submitted
  drains : ∃ es, (∀ e ∈ es, e = .hw ∨ e = .consume) ∧ ∃ t, (chanMachine c).exec c es = some t ∧
    t.handled.map HandlerCall.token = c.submitted
  restarts : c.head ≠ none → c.hw = .idle →
    (∀ r, c.sparesDesc → (cpdmaChanSubmit c r).2 = 0 → (cpdmaChanSubmit c r).1.hw ≠ .idle) ∨
      ∃ n, (cpdmaChanProcess^[n] c).hw ≠ .idle

lemma Inv.right (h : c.Inv done todo) : c.Right where
  order := by
    rw [h.tokens_eq, append_assoc]
    exact prefix_append _ _
  lossless := h.lossless
  drains := h.drains c
  restarts := by
    intro hhead hidle
    cases todo with
    -- everything in the queue is completed: a submission starts the hardware, else the consumer
    | nil => exact .inl fun r hspare hok => h.submit_hw hhead hidle hspare hok
    | cons d todo =>
      obtain ⟨n, hinv, hcons, _⟩ := h.consumes
      exact .inr ⟨n, hinv.not_idle hcons⟩

/-- With an empty queue and the consumer between two calls, neither it nor the
hardware changes what has been handled. -/
lemma exec_of_empty (c0 : Chan) {c t : Chan} {es : List ChanEvent}
    (hes : ∀ e ∈ es, e = .hw ∨ e = .consume) (hhead : c.head = none) (hidle : c.consumer = .idle)
    (hrun : (chanMachine c0).exec c es = some t) : t.handled = c.handled := by
  induction es generalizing c with
  | nil => exact congrArg handled (some.inj hrun).symm
  | cons e es ih =>
    obtain ⟨c', hstep, hrun⟩ := (exec_cons_eq_some _).mp hrun
    have hkept : c'.head = none ∧ c'.consumer = .idle ∧ c'.handled = c.handled := by
      rcases hes e mem_cons_self with rfl | rfl
      · cases hc : c.hw with
        | idle =>
          have hnone : hwStep c = none := by rw [hwStep, hc]
          cases hnone.symm.trans hstep
        | reading dma =>
          obtain rfl := some.inj ((hwStep_reading hc).symm.trans hstep)
          exact ⟨hhead, hidle, rfl⟩
        | completing dma next =>
          obtain rfl := some.inj ((hwStep_completing hc).symm.trans hstep)
          exact ⟨hhead, hidle, rfl⟩
      · have hsame : cpdmaChanProcess c = c := by
          simp only [cpdmaChanProcess, hidle, hhead]
          exact ite_self _
        obtain rfl : c = c' := hsame.symm.trans (some.inj hstep)
        exact ⟨hhead, hidle, rfl⟩
    obtain ⟨hhead', hidle', hhandled⟩ := hkept
    have hrest := fun e (he : e ∈ es) => hes e (mem_cons_of_mem _ he)
    exact (ih hrest hhead' hidle' hrun).trans hhandled

end Chan

/-- **Nothing is lost, repeated or overtaken** in a run whose submissions are
all apart from the consumer, whatever the pool and whatever the hardware, the
consumer and the submitters do in between. -/
theorem channel_right (pool : Pool) (hwAddr : ℕ) (isRx : Bool) (minPacketSize : BitVec 16)
    (mem : ℕ → Desc) (h : 0 < hwAddr) (es : List ChanEvent)
    (hg : (chanMachine (.start pool hwAddr isRx minPacketSize mem h)).Guarded Chan.submitsApart
      (.start pool hwAddr isRx minPacketSize mem h) es) :
    (chanMachine (.start pool hwAddr isRx minPacketSize mem h)).Always Chan.Right
      (.start pool hwAddr isRx minPacketSize mem h) es := by
  have hinv := always_of_guarded _ (I := fun c : Chan => ∃ done todo, c.Inv done todo)
    (fun c e c' hc hge hstep => by
      obtain ⟨done, todo, hc⟩ := hc
      exact hc.step hge hstep)
    ⟨[], [], Chan.inv_start pool hwAddr isRx minPacketSize mem h⟩ hg
  refine Machine.Always.mono _ ?_ hinv
  rintro c ⟨done, todo, hc⟩
  exact hc.right

def txStart : Chan :=
  .start (.create 4096 32 32 (by decide)) 8192 false 60
    (fun _ => { hwNext := 0, hwMode := 0, swToken := 0, swBuffer := 0, swLen := 0 }) (by decide)

def packet (token : ℕ) : ChanEvent :=
  .submit { token := token, buffer := 65536, len := 100, directed := 0 }

/-- The second packet is chained after the hardware has read the end of the
queue, and the third while the consumer works on the first one. -/
theorem channel_right_chained : (chanMachine txStart).Always Chan.Right txStart
      ([packet 1, .hw, packet 2, .hw, .consume, .consume, .consume, packet 3] ++
        List.replicate 12 .consume ++ [.hw, .hw]) := by
  refine channel_right _ _ _ _ _ _ _ ?_
  decide +kernel

/-- The second packet is chained after the consumer has read that there is no next descriptor and
before it writes that to `chan->head`. The consumer returns with an empty queue and the packet not
handled, and neither it nor the hardware changes that. -/
theorem submitted_descriptor_is_lost : ∃ c, (chanMachine txStart).exec txStart
        ([packet 1, .hw, .hw, .consume, .consume, .consume, packet 2] ++
          List.replicate 9 .consume) = some c ∧
      c.submitted = [1, 2] ∧ c.handled.map HandlerCall.token = [1] ∧
      ∀ es t, (∀ e ∈ es, e = .hw ∨ e = .consume) → (chanMachine txStart).exec c es = some t →
        t.handled.map HandlerCall.token = [1] := by
  have hrun : ((chanMachine txStart).exec txStart
      ([packet 1, .hw, .hw, .consume, .consume, .consume, packet 2] ++
        List.replicate 9 .consume)).any (fun c => decide (c.submitted = [1, 2] ∧
          c.handled.map HandlerCall.token = [1] ∧ c.head = none ∧ c.consumer = .idle)) = true := by
    decide +kernel
  obtain ⟨c, hc, hfacts⟩ := (any_eq_true _ _).mp hrun
  obtain ⟨hsub, hhandled, hhead, hidle⟩ := of_decide_eq_true hfacts
  refine ⟨c, hc, hsub, hhandled, ?_⟩
  intro es t hes ht
  rw [Chan.exec_of_empty txStart hes hhead hidle ht, hhandled]

end Am335x.Cpdma
