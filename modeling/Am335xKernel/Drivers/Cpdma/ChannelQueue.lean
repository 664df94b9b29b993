import Am335xKernel.Drivers.Cpdma.Channel

/-!
# The queue of a DMA channel

The invariant of the three parties that work on a channel, and that each step
of each of them keeps it, a submission under the condition `Chan.submitsApart`.
-/

namespace Am335x.Cpdma

open List Option

namespace Consumer

def holds : Consumer → List ℕ
  | .movedHead desc _ | .acked desc _ | .requeue desc _ | .restart desc _ _ | .finish desc _
  | .gotToken desc _ _ | .gotBuffer desc _ _ _ | .gotLen desc _ _ _ _ => [desc]
  | _ => []

def tokens (mem : ℕ → Desc) : Consumer → List ℕ
  | .movedHead desc _ | .acked desc _ | .requeue desc _ | .restart desc _ _ | .finish desc _ =>
    [(mem desc).swToken]
  | .gotToken _ _ token | .gotBuffer _ _ token _ | .gotLen _ _ token _ _ | .freed _ token =>
    [token]
  | _ => []

def stopped : Consumer → Bool
  | .movedHead _ mode | .acked _ mode | .requeue _ mode | .restart _ mode _ => ended mode
  | _ => false

def rest (done : List ℕ) : Consumer → List ℕ
  | .gotNext _ _ _ => done.tail
  | _ => done

/-- The descriptor whose mode has been read with `OWNER` clear, until the last
time that `chan->head` is read. -/
def window : Consumer → Option ℕ
  | .gotMode desc _ | .gotNext desc _ _ | .movedHead desc _ | .acked desc _ => some desc
  | _ => none

end Consumer

namespace Chan

def Links (descPhys : Option ℕ → ℕ) (mem : ℕ → Desc) : List ℕ → Prop
  | [] => True
  | desc :: q => (mem desc).hwNext = descPhys q.head? ∧ Links descPhys mem q

def ConsumerAt (mem : ℕ → Desc) (tail : ℕ) (done todo : List ℕ) : Consumer → Prop
  | .gotHead desc => (done ++ todo).head? = some desc
  | .gotMode desc mode => done.head? = some desc ∧ mode = (mem desc).hwMode
  | .gotNext desc mode next =>
    done.head? = some desc ∧ mode = (mem desc).hwMode ∧ next = (mem desc).hwNext
  | .movedHead desc mode | .acked desc mode =>
    tornDown mode = false ∧ (done ++ todo = [] → tail = desc)
  | .requeue _ mode => ended mode = true ∧ todo ≠ []
  | .restart _ mode head => ended mode = true ∧ todo ≠ [] ∧ head = todo.head?
  | _ => True

/-- The hardware runs at the first descriptor it owns. It is idle if there is
none, if it has marked the last completed one, or if that one has just been
taken off. -/
def HwAt (phys : ℕ → ℕ) (mem : ℕ → Desc) (stopped : Bool) (done todo : List ℕ) : Hw → Prop
  | .idle =>
    if stopped then done = []
    else (done = [] → todo = []) ∧ ∀ d ∈ done.getLast?, ended (mem d).hwMode = true
  | .reading dma =>
    stopped = false ∧ (∀ d ∈ done, ended (mem d).hwMode = false) ∧
      ∃ d ∈ todo.head?, dma = phys d
  | .completing dma next =>
    stopped = false ∧ (∀ d ∈ done, ended (mem d).hwMode = false) ∧
      ∃ d ∈ todo.head?, dma = phys d ∧ (next = 0 ∨ next = (mem d).hwNext)

structure Inv (c : Chan) (done todo : List ℕ) : Prop where
  active : c.state = .active
  head_eq : c.head = (done ++ todo).head?
  tail_eq : ∀ d ∈ (done ++ todo).getLast?, c.tail = d
  links : Links c.descPhys c.mem (done ++ todo)
  nodup : (c.consumer.holds ++ (done ++ todo)).Nodup
  marked : ∀ d ∈ c.consumer.holds ++ (done ++ todo),
    ∃ i, d = c.pool.desc i ∧ c.pool.bitmap i = true
  done_mode : ∀ d ∈ done, owned (c.mem d).hwMode = false
  todo_mode : ∀ d ∈ todo, owned (c.mem d).hwMode = true ∧ ended (c.mem d).hwMode = false
  mode_td : ∀ d ∈ done ++ todo, tornDown (c.mem d).hwMode = false
  init_mode : ∀ d ∈ done.dropLast, ended (c.mem d).hwMode = false
  hw_at : HwAt c.phys c.mem c.consumer.stopped done todo c.hw
  consumer_at : ConsumerAt c.mem c.tail done todo c.consumer
  tokens_eq : c.submitted = c.handled.map HandlerCall.token ++ c.consumer.tokens c.mem ++
    (done ++ todo).map fun d => (c.mem d).swToken

variable {c : Chan} {done todo : List ℕ}

/-! ### Descriptors -/

lemma updateDesc_self (c : Chan) (e : ℕ) (f : Desc → Desc) :
    (c.updateDesc e f).mem e = f (c.mem e) :=
  Function.update_self ..

variable {d : ℕ} {e : ℕ}

lemma updateDesc_of_ne (c : Chan) (f : Desc → Desc) (h : d ≠ e) :
    (c.updateDesc e f).mem d = c.mem d :=
  Function.update_of_ne h ..

lemma updateDesc_field {α : Type} (c : Chan) (d e : ℕ) {f : Desc → Desc} (g : Desc → α)
    (hg : ∀ x, g (f x) = g x) : g ((c.updateDesc e f).mem d) = g (c.mem d) := by
  by_cases h : d = e
  · rw [h, updateDesc_self, hg]
  · rw [updateDesc_of_ne c f h]

variable {mem mem' : ℕ → Desc} {k : Consumer}

lemma Consumer.tokens_congr (h : ∀ d ∈ k.holds, (mem' d).swToken = (mem d).swToken)
    : k.tokens mem' = k.tokens mem := by
  cases k with
  | movedHead | acked | requeue | restart | finish =>
    exact congrArg (fun t => [t]) (h _ mem_cons_self)
  | idle | gotHead | gotMode | gotNext | gotToken | gotBuffer | gotLen | freed => rfl

/-! ### Addresses -/

lemma phys_ne_zero (h : c.pool.iomap ≤ d) : c.phys d ≠ 0 := by
  have hpos := c.hwAddr_pos
  unfold phys
  omega

lemma fromPhys_phys (h : c.pool.iomap ≤ d) : c.pool.iomap + c.phys d - c.hwAddr = d := by
  have hpos := c.hwAddr_pos
  unfold phys
  omega

lemma descFromPhys_descPhys {d : Option ℕ} (h : ∀ e ∈ d, c.pool.iomap ≤ e) :
    c.descFromPhys (c.descPhys d) = d := by
  cases d with
  | none => rfl
  | some e =>
    have he := h e rfl
    rw [descPhys, descFromPhys, if_pos (phys_ne_zero he), fromPhys_phys he]

variable {descPhys : Option ℕ → ℕ} {q todo' : List ℕ}

lemma links_congr (hnext : ∀ d ∈ q, (mem' d).hwNext = (mem d).hwNext) (h : Links descPhys mem q) :
    Links descPhys mem' q := by
  induction q with
  | nil => exact trivial
  | cons d q ih =>
    obtain ⟨hd, hq⟩ := h
    refine ⟨(hnext d mem_cons_self).trans hd, ih ?_ hq⟩
    intro e he
    exact hnext e (mem_cons_of_mem _ he)

lemma links_middle {r : List ℕ} (h : Links descPhys mem (q ++ d :: r))
    : (mem d).hwNext = descPhys r.head? := by
  induction q with
  | nil => exact h.1
  | cons e q ih => exact ih h.2

lemma links_concat {prev f : ℕ} (hlast : q.getLast? = some prev) (hnodup : q.Nodup)
    (h : Links descPhys mem q) (hprev : (mem' prev).hwNext = descPhys (some f))
    (hf : (mem' f).hwNext = descPhys none)
    (hold : ∀ d ∈ q, d ≠ prev → (mem' d).hwNext = (mem d).hwNext) :
    Links descPhys mem' (q ++ [f]) := by
  induction q with
  | nil => cases hlast
  | cons d q ih =>
    obtain ⟨hd, hq⟩ := h
    obtain ⟨hnot, hnodup⟩ := nodup_cons.mp hnodup
    cases q with
    | nil =>
      cases hlast
      exact ⟨hprev, hf, trivial⟩
    | cons e q =>
      have hlast' : (e :: q).getLast? = some prev := by
        rw [← hlast, getLast?_cons_cons]
      have hne : d ≠ prev := by
        rintro rfl
        exact hnot (mem_of_getLast? hlast')
      refine ⟨(hold d mem_cons_self hne).trans hd, ih hlast' hnodup hq ?_⟩
      intro x hx
      exact hold x (mem_cons_of_mem _ hx)

lemma ConsumerAt.mono {tail tail' : ℕ} {done' : List ℕ} (h : ConsumerAt mem tail done todo k)
    (hhead : ∀ d ∈ (done ++ todo).head?, d ∈ (done' ++ todo').head?)
    (hdone : ∀ d ∈ done.head?, d ∈ done'.head?)
    (hmem : ∀ d ∈ done.head?, k.window = some d → mem' d = mem d)
    (hempty : done' ++ todo' = [] → done ++ todo = [] ∧ tail' = tail)
    (htodo : k.stopped = true → todo ≠ [] → todo' ≠ [] ∧ todo'.head? = todo.head?) :
    ConsumerAt mem' tail' done' todo' k := by
  cases k with
  | gotHead desc => exact hhead desc h
  | gotMode desc mode | gotNext desc mode next =>
    obtain ⟨hd, hmode⟩ := h
    exact ⟨hdone desc hd, by rw [hmem desc hd rfl]; exact hmode⟩
  | movedHead desc mode | acked desc mode =>
    refine ⟨h.1, ?_⟩
    intro hq
    obtain ⟨hold, htail⟩ := hempty hq
    exact htail.trans (h.2 hold)
  | requeue desc mode => exact ⟨h.1, (htodo h.1 h.2).1⟩
  | restart desc mode head =>
    obtain ⟨hended, hne, hhd⟩ := h
    obtain ⟨hne', heq⟩ := htodo hended hne
    exact ⟨hended, hne', hhd.trans heq.symm⟩
  | idle | finish | gotToken | gotBuffer | gotLen | freed => exact trivial

/-- The hardware is where it was if the modes of the completed descriptors are
the same and more has been put behind the first one it owns. -/
lemma HwAt.mono {phys : ℕ → ℕ} {stopped : Bool} {hw : Hw} (h : HwAt phys mem stopped done todo hw)
    (hdone : ∀ d ∈ done, (mem' d).hwMode = (mem d).hwMode)
    (htodo : ∀ d ∈ todo.head?, d ∈ todo'.head? ∧
      ((mem' d).hwNext = (mem d).hwNext ∨ (mem d).hwNext = 0))
    (hnil : done = [] → todo = [] → todo' = []) : HwAt phys mem' stopped done todo' hw := by
  cases hw with
  | idle =>
    cases stopped with
    | true => exact h
    | false =>
      obtain ⟨hempty, hlast⟩ := h
      refine ⟨fun hd => hnil hd (hempty hd), ?_⟩
      intro d hd
      rw [hdone d (mem_of_getLast? hd)]
      exact hlast d hd
  | reading dma =>
    obtain ⟨hs, hend, d, hd, hdma⟩ := h
    exact ⟨hs, fun e he => by rw [hdone e he]; exact hend e he, d, (htodo d hd).1, hdma⟩
  | completing dma next =>
    obtain ⟨hs, hend, d, hd, hdma, hnext⟩ := h
    obtain ⟨hd', hsame⟩ := htodo d hd
    refine ⟨hs, fun e he => by rw [hdone e he]; exact hend e he, d, hd', hdma, ?_⟩
    rcases hnext with hzero | hnext
    · exact .inl hzero
    · rcases hsame with hsame | hzero
      · exact .inr (hnext.trans hsame.symm)
      · exact .inl (hnext.trans hzero)

namespace Inv

variable {d desc next token dma f : ℕ}

section

variable (h : c.Inv done todo)
include h

lemma iomap_le (hd : d ∈ done ++ todo) : c.pool.iomap ≤ d := by
  obtain ⟨i, rfl, _⟩ := h.marked d (mem_append_right _ hd)
  exact Nat.le_add_right _ _

lemma getLast?_eq_tail (hne : done ++ todo ≠ []) : (done ++ todo).getLast? = some c.tail := by
  cases hl : (done ++ todo).getLast? with
  | none => exact absurd (getLast?_eq_none_iff.mp hl) hne
  | some d => rw [h.tail_eq d hl]

lemma disjoint (hd : d ∈ done) : d ∉ todo := by
  intro ht
  have hq := (nodup_append.mp h.nodup).2.1
  exact (nodup_append.mp hq).2.2 d hd d ht rfl

lemma tokens_of {mem : ℕ → Desc}
    (htok : ∀ d ∈ c.consumer.holds ++ (done ++ todo), (mem d).swToken = (c.mem d).swToken) :
    c.submitted = c.handled.map HandlerCall.token ++ c.consumer.tokens mem ++
      (done ++ todo).map fun d => (mem d).swToken := by
  have hconsumer : c.consumer.tokens mem = c.consumer.tokens c.mem :=
    Consumer.tokens_congr fun d hd => htok d (mem_append_left _ hd)
  rw [h.tokens_eq, hconsumer]
  congr 1
  apply map_congr_left
  intro d hd
  exact (htok d (mem_append_right _ hd)).symm

lemma at_consumer (hk : c.consumer = k) : Inv { c with consumer := k } done todo := by
  rw [← hk]
  exact h

/-! ### When the hardware is idle -/

lemma idle_of_stopped (hk : c.consumer = k) (hs : k.stopped = true) : c.hw = .idle ∧ done = [] := by
  have hhw := (h.at_consumer hk).hw_at
  cases hc : c.hw with
  | idle =>
    rw [hc, HwAt, if_pos hs] at hhw
    exact ⟨rfl, hhw⟩
  | _ =>
    rw [hc, HwAt, hs] at hhw
    cases hhw.1

lemma idle_of_ended (hd : d ∈ done) (he : ended (c.mem d).hwMode = true) : c.hw = .idle := by
  have hhw := h.hw_at
  cases hc : c.hw with
  | idle => rfl
  | _ =>
    rw [hc] at hhw
    exact absurd he (by rw [hhw.2.1 d hd]; decide)

lemma idle_of_todo_nil (ht : todo = []) : c.hw = .idle := by
  have hhw := h.hw_at
  subst ht
  cases hc : c.hw with
  | idle => rfl
  | _ =>
    rw [hc] at hhw
    obtain ⟨_, _, d, hd, _⟩ := hhw
    cases hd

lemma of_idle (hidle : c.hw = .idle) (hs : c.consumer.stopped = false) :
    (done = [] → todo = []) ∧ ∀ d ∈ done.getLast?, ended (c.mem d).hwMode = true := by
  have hhw := h.hw_at
  rw [hidle, HwAt, hs] at hhw
  exact hhw

lemma getLast?_of_ended (hd : d ∈ done) (he : ended (c.mem d).hwMode = true)
    : done.getLast? = some d := by
  cases hlast : done.getLast? with
  | none =>
    rw [getLast?_eq_none_iff.mp hlast] at hd
    cases hd
  | some e =>
    rw [← dropLast_append_getLast? e hlast, mem_append, mem_singleton] at hd
    rcases hd with hd | rfl
    · exact absurd he (by rw [h.init_mode d hd]; decide)
    · rfl

/-! ### Steps of the consumer -/

lemma advance {k0 : Consumer} (hk : c.consumer = k0) (k : Consumer) (hholds : k.holds = k0.holds)
    (htokens : k.tokens c.mem = k0.tokens c.mem) (hstopped : k.stopped = k0.stopped)
    (hat : ConsumerAt c.mem c.tail done todo k) : Inv { c with consumer := k } done todo :=
  { h with
    nodup := by rw [hholds, ← hk]; exact h.nodup
    marked := by rw [hholds, ← hk]; exact h.marked
    tokens_eq := by rw [htokens, ← hk]; exact h.tokens_eq
    hw_at := by rw [hstopped, ← hk]; exact h.hw_at
    consumer_at := hat }

end

variable {mode : BitVec 32}

section

variable (h : c.Inv done todo)
include h

/-- The head moves past a completed descriptor. If it was marked, it was the
only completed one and the hardware is idle. -/
lemma moveHead (hk : c.consumer = .gotNext desc mode next) :
    Inv { c with head := c.descFromPhys next, consumer := .movedHead desc mode }
      done.tail todo := by
  obtain ⟨hhead, rfl, rfl⟩ : ConsumerAt c.mem c.tail done todo (.gotNext desc mode next) :=
    (h.at_consumer hk).consumer_at
  have hstopped : c.consumer.stopped = false := by rw [hk]; rfl
  have htokens := (h.at_consumer hk).tokens_eq
  have hnodup := (h.at_consumer hk).nodup
  cases done with
  | nil => cases hhead
  | cons d rest =>
    obtain rfl : d = desc := some.inj hhead
    obtain ⟨hlink, hlinks⟩ := h.links
    have hlast : ∀ e ∈ rest.getLast?, e ∈ (d :: rest).getLast? := by
      intro e he
      rw [mem_def] at he ⊢
      rw [getLast?_cons, he, getD_some]
    have hrest : ended (c.mem d).hwMode = true → rest = [] := by
      intro he
      have hd := h.getLast?_of_ended mem_cons_self he
      cases hr : rest.getLast? with
      | none => exact getLast?_eq_none_iff.mp hr
      | some e =>
        obtain rfl : e = d := some.inj ((hlast e hr).symm.trans hd)
        exact absurd (mem_append_left _ (mem_of_getLast? hr))
          (nodup_cons.mp hnodup).1
    refine
      { h with
        head_eq := ?_, tail_eq := ?_, links := hlinks, nodup := hnodup
        marked := (h.at_consumer hk).marked
        done_mode := fun e he => h.done_mode e (mem_cons_of_mem _ he)
        mode_td := fun e he => h.mode_td e (mem_cons_of_mem _ he)
        init_mode := ?_, hw_at := ?_, consumer_at := ?_, tokens_eq := ?_ }
    · rw [hlink]
      apply descFromPhys_descPhys
      intro e he
      exact h.iomap_le (mem_cons_of_mem _ (mem_of_mem_head? he))
    · intro e (he : (rest ++ todo).getLast? = some e)
      apply h.tail_eq e
      rw [mem_def, cons_append, getLast?_cons, he, getD_some]
    · intro e he
      apply h.init_mode e
      cases rest with
      | nil => cases he
      | cons f rest => exact mem_cons_of_mem _ he
    · show HwAt c.phys c.mem (ended (c.mem d).hwMode) rest todo c.hw
      cases hended : ended (c.mem d).hwMode with
      | true =>
        rw [h.idle_of_ended mem_cons_self hended]
        exact hrest hended
      | false =>
        have hhw := h.hw_at
        cases hc : c.hw with
        | idle =>
          obtain ⟨_, hend⟩ := h.of_idle hc hstopped
          refine ⟨?_, fun e he => hend e (hlast e he)⟩
          rintro rfl
          exact absurd (hend d rfl) (by rw [hended]; decide)
        | _ =>
          rw [hc] at hhw
          exact ⟨rfl, fun e he => hhw.2.1 e (mem_cons_of_mem _ he), hhw.2.2⟩
    · refine ⟨h.mode_td d mem_cons_self, ?_⟩
      intro (hempty : rest ++ todo = [])
      apply h.tail_eq d
      rw [cons_append, hempty]
      rfl
    · rw [htokens]
      simp [Consumer.tokens]

lemma decide_requeue (hk : c.consumer = .acked desc mode) : Inv
      { c with
        consumer :=
          if ended mode ∧ c.head.isSome ∧ !tornDown mode then .requeue desc mode
          else .finish desc mode }
      done todo := by
  obtain ⟨htd, -⟩ := (h.at_consumer hk).consumer_at
  cases hended : ended mode with
  | false =>
    rw [if_neg nofun]
    exact h.advance hk _ rfl rfl hended.symm trivial
  | true =>
    obtain ⟨hidle, rfl⟩ := h.idle_of_stopped hk hended
    have hhead : c.head = todo.head? := h.head_eq
    cases todo with
    | nil =>
      rw [if_neg (by rw [hhead]; simp)]
      refine { h.at_consumer hk with hw_at := ?_, consumer_at := trivial }
      rw [hidle]
      exact ⟨fun _ => rfl, fun d hd => nomatch hd⟩
    | cons d todo =>
      rw [if_pos (by rw [hhead, htd]; simp)]
      exact h.advance hk (.requeue desc mode) rfl rfl rfl
        ⟨hended, nofun⟩

lemma restart {head : Option ℕ} (hk : c.consumer = .restart desc mode head) :
    Inv { c.writeHdp (c.descPhys head) with consumer := .finish desc mode } done todo := by
  obtain ⟨hended, hne, rfl⟩ := (h.at_consumer hk).consumer_at
  obtain ⟨hidle, rfl⟩ := h.idle_of_stopped hk hended
  cases todo with
  | nil => exact absurd rfl hne
  | cons d todo =>
    have hd : c.pool.iomap ≤ d := h.iomap_le mem_cons_self
    have hwrite : c.writeHdp (c.descPhys (d :: todo).head?) =
        { c with hw := .reading (c.phys d) } :=
      congrArg (fun hw => { c with hw := hw }) (if_neg (phys_ne_zero hd))
    rw [hwrite]
    exact { h.at_consumer hk with
      consumer_at := trivial, hw_at := ⟨rfl, forall_mem_nil _, d, rfl, rfl⟩ }

lemma free {buffer : ℕ} {len : BitVec 16} (hk : c.consumer = .gotLen desc mode token buffer len) :
    Inv { c with pool := cpdmaDescFree c.pool desc 1, consumer := .freed mode token }
      done todo := by
  have hmarked := (h.at_consumer hk).marked
  dsimp only at hmarked
  have hfresh := nodup_cons.mp (h.at_consumer hk).nodup
  refine { h.at_consumer hk with nodup := hfresh.2, marked := ?_, consumer_at := trivial }
  intro d (hd : d ∈ done ++ todo)
  obtain ⟨i, rfl, hi⟩ := hmarked d (mem_cons_of_mem _ hd)
  obtain ⟨j, rfl, _⟩ := hmarked desc mem_cons_self
  refine ⟨i, rfl, ?_⟩
  have hij : i ≠ j := by
    rintro rfl
    exact hfresh.1 hd
  show (if _ then false else c.pool.bitmap i) = true
  rw [Pool.index_desc, if_neg (by omega)]
  exact hi

lemma head?_of_not_owned (hhead : (done ++ todo).head? = some desc)
    (hown : owned (c.mem desc).hwMode = false) : done.head? = some desc := by
  cases done with
  | cons d done => exact hhead
  | nil =>
    have hmem : desc ∈ todo := mem_of_mem_head? hhead
    rw [(h.todo_mode desc hmem).1] at hown
    cases hown

lemma consume : (cpdmaChanProcess c).Inv (c.consumer.rest done) todo := by
  cases hk : c.consumer with
  | gotNext desc mode next =>
    simp only [cpdmaChanProcess, hk]
    exact h.moveHead hk
  | idle =>
    simp only [cpdmaChanProcess, hk]
    rw [if_neg (not_not.mpr h.active)]
    split
    · exact h
    · rename_i desc hhead
      exact h.advance hk (.gotHead desc) rfl rfl rfl
        (h.head_eq.symm.trans hhead)
  | gotHead desc =>
    have hhead : (done ++ todo).head? = some desc := (h.at_consumer hk).consumer_at
    simp only [cpdmaChanProcess, hk]
    cases hown : owned (c.mem desc).hwMode with
    | true =>
      exact h.advance hk _ rfl rfl rfl trivial
    | false =>
      exact h.advance hk _ rfl rfl rfl
        ⟨h.head?_of_not_owned hhead hown, rfl⟩
  | gotMode desc mode =>
    obtain ⟨hhead, hmode⟩ := (h.at_consumer hk).consumer_at
    simp only [cpdmaChanProcess, hk]
    exact h.advance hk _ rfl rfl rfl
      ⟨hhead, hmode, rfl⟩
  | movedHead desc mode =>
    have hat := (h.at_consumer hk).consumer_at
    simp only [cpdmaChanProcess, hk]
    exact { h.advance hk (.acked desc mode) rfl rfl rfl
      hat with }
  | acked desc mode =>
    simp only [cpdmaChanProcess, hk]
    exact h.decide_requeue hk
  | requeue desc mode =>
    obtain ⟨hended, hne⟩ := (h.at_consumer hk).consumer_at
    obtain ⟨_, rfl⟩ := h.idle_of_stopped hk hended
    simp only [cpdmaChanProcess, hk]
    exact h.advance hk _ rfl rfl rfl
      ⟨hended, hne, h.head_eq⟩
  | restart desc mode head =>
    simp only [cpdmaChanProcess, hk]
    exact h.restart hk
  | gotLen desc mode token buffer len =>
    simp only [cpdmaChanProcess, hk]
    exact h.free hk
  | freed mode token =>
    simp only [cpdmaChanProcess, hk]
    refine { h.at_consumer hk with consumer_at := trivial, tokens_eq := ?_ }
    rw [(h.at_consumer hk).tokens_eq]
    simp [Consumer.tokens, Consumer.rest]
  | finish | gotToken | gotBuffer =>
    simp only [cpdmaChanProcess, hk]
    exact h.advance hk _ rfl rfl rfl trivial

/-! ### Steps of the hardware -/

lemma readNext (hc : c.hw = .reading dma) :
    Inv { c with hw := .completing dma (c.mem (c.pool.iomap + dma - c.hwAddr)).hwNext }
      done todo := by
  have hhw := h.hw_at
  rw [hc] at hhw
  obtain ⟨hstopped, hdone, d, hd, rfl⟩ := hhw
  have hle : c.pool.iomap ≤ d :=
    h.iomap_le (mem_append_right _ (mem_of_mem_head? hd))
  refine { h with hw_at := ⟨hstopped, hdone, d, hd, rfl, .inr ?_⟩ }
  rw [fromPhys_phys hle]

end

lemma complete {rest : List ℕ} (h : c.Inv done (e :: rest)) (hc : c.hw = .completing dma next) :
    Inv ((c.updateDesc (c.pool.iomap + dma - c.hwAddr) fun d =>
      { d with hwMode := completedMode d.hwMode next }).writeHdp next) (done ++ [e]) rest := by
  have hhw := h.hw_at
  rw [hc] at hhw
  obtain ⟨hstopped, hdone, d, hd, rfl, hnext⟩ := hhw
  cases hd
  rw [fromPhys_phys (h.iomap_le (mem_append_right _ mem_cons_self))]
  have hq : done ++ [e] ++ rest = done ++ e :: rest := by simp
  have hnot : ∀ d ∈ done ++ rest, d ≠ e := by
    have hnodup := (nodup_append.mp h.nodup).2.1
    rw [nodup_middle, nodup_cons] at hnodup
    rintro d hmem rfl
    exact hnodup.1 hmem
  have hmode := h.todo_mode e mem_cons_self
  generalize hf : (fun d : Desc => { d with hwMode := completedMode d.hwMode next }) = f
  have hself : (f (c.mem e)).hwMode = completedMode (c.mem e).hwMode next := by rw [← hf]
  have hold : ∀ d ∈ done ++ rest, (c.updateDesc e f).mem d = c.mem d := fun d hmem =>
    c.updateDesc_of_ne f (hnot d hmem)
  refine
    { h with
      head_eq := by rw [hq]; exact h.head_eq
      tail_eq := by rw [hq]; exact h.tail_eq
      links := ?_
      nodup := by rw [hq]; exact h.nodup
      marked := by rw [hq]; exact h.marked
      done_mode := ?_, todo_mode := ?_, mode_td := ?_, init_mode := ?_, hw_at := ?_
      consumer_at := ?_, tokens_eq := ?_ }
  · rw [hq]
    refine links_congr ?_ h.links
    intro d _
    exact c.updateDesc_field d e Desc.hwNext (by rw [← hf]; intro x; rfl)
  · intro d hd
    rcases mem_append.mp hd with hd | hd
    · show owned ((c.updateDesc e f).mem d).hwMode = false
      rw [hold d (mem_append_left _ hd)]
      exact h.done_mode d hd
    · obtain rfl := mem_singleton.mp hd
      show owned ((c.updateDesc d f).mem d).hwMode = false
      rw [updateDesc_self, hself, owned_completedMode]
  · intro d hd
    show owned ((c.updateDesc e f).mem d).hwMode = true ∧
      ended ((c.updateDesc e f).mem d).hwMode = false
    rw [hold d (mem_append_right _ hd)]
    exact h.todo_mode d (mem_cons_of_mem _ hd)
  · intro d hd
    rw [hq] at hd
    refine Eq.trans ?_ (h.mode_td d hd)
    refine c.updateDesc_field d e (fun x => tornDown x.hwMode) ?_
    intro x
    rw [← hf]
    exact tornDown_completedMode ..
  · intro d hd
    rw [dropLast_concat] at hd
    show ended ((c.updateDesc e f).mem d).hwMode = false
    rw [hold d (mem_append_left _ hd)]
    exact hdone d hd
  · show HwAt c.phys (c.updateDesc e f).mem c.consumer.stopped (done ++ [e]) rest
      (if next = 0 then .idle else .reading next)
    rw [hstopped]
    split
    · rename_i hzero
      refine ⟨fun hnil => absurd hnil (by simp), ?_⟩
      intro d hd
      rw [getLast?_concat] at hd
      cases hd
      rw [updateDesc_self, hself, ended_completedMode, hzero]
      simp
    · rename_i hnz
      have hnext' : next = c.descPhys rest.head? :=
        (hnext.resolve_left hnz).trans (links_middle h.links)
      cases rest with
      | nil => exact absurd hnext' hnz
      | cons r rest =>
        refine ⟨rfl, ?_, r, rfl, hnext'⟩
        intro d hd
        rcases mem_append.mp hd with hd | hd
        · rw [hold d (mem_append_left _ hd)]
          exact hdone d hd
        · obtain rfl := mem_singleton.mp hd
          rw [updateDesc_self, hself, ended_completedMode, hmode.2]
          simpa using hnz
  · refine h.consumer_at.mono ?_ ?_ ?_ ?_ ?_
    · intro d hd
      rw [hq]
      exact hd
    · intro d hd
      rw [head?_append]
      simp [mem_def.mp hd]
    · intro d hd _
      exact hold d (mem_append_left _ (mem_of_mem_head? hd))
    · intro hnil
      simp at hnil
    · intro hs
      rw [hstopped] at hs
      cases hs
  · rw [hq]
    refine h.tokens_of ?_
    intro d _
    exact c.updateDesc_field d e Desc.swToken (by rw [← hf]; intro x; rfl)

/-! ### Submission -/

lemma fill {i : ℕ} (h : c.Inv done todo) (hfree : c.pool.bitmap i = false) (d0 : Desc) :
    c.pool.desc i ∉ c.consumer.holds ++ (done ++ todo) ∧
      Inv ({ c with pool := c.pool.take i 1 }.updateDesc (c.pool.desc i) fun _ => d0)
        done todo := by
  have hfresh : c.pool.desc i ∉ c.consumer.holds ++ (done ++ todo) := by
    intro hmem
    obtain ⟨j, hj, hmark⟩ := h.marked _ hmem
    rw [Pool.desc_inj.mp hj, hmark] at hfree
    cases hfree
  refine ⟨hfresh, ?_⟩
  have hold : ∀ d ∈ c.consumer.holds ++ (done ++ todo),
      (c.updateDesc (c.pool.desc i) fun _ => d0).mem d = c.mem d := by
    intro d hd
    apply updateDesc_of_ne
    rintro rfl
    exact hfresh hd
  have hqueue : ∀ d ∈ done ++ todo, (c.updateDesc (c.pool.desc i) fun _ => d0).mem d = c.mem d :=
    fun d hd => hold d (mem_append_right _ hd)
  have hdone := fun d (hd : d ∈ done) => hqueue d (mem_append_left _ hd)
  have htodo := fun d (hd : d ∈ todo) => hqueue d (mem_append_right _ hd)
  refine
    { h with
      links := links_congr (fun d hd => congrArg Desc.hwNext (hqueue d hd)) h.links
      marked := ?_, done_mode := ?_, todo_mode := ?_, mode_td := ?_, init_mode := ?_
      hw_at := ?_, consumer_at := ?_, tokens_eq := ?_ }
  · intro d hd
    obtain ⟨j, rfl, hj⟩ := h.marked d hd
    refine ⟨j, rfl, ?_⟩
    show (if i ≤ j ∧ j < i + 1 then true else c.pool.bitmap j) = true
    rw [hj, ite_self]
  · intro d hd
    exact (congrArg (fun x : Desc => owned x.hwMode) (hdone d hd)).trans (h.done_mode d hd)
  · intro d hd
    have hmode := h.todo_mode d hd
    rw [← htodo d hd] at hmode
    exact hmode
  · intro d hd
    exact (congrArg (fun x : Desc => tornDown x.hwMode) (hqueue d hd)).trans (h.mode_td d hd)
  · intro d hd
    exact (congrArg (fun x : Desc => ended x.hwMode)
      (hdone d (dropLast_subset _ hd))).trans (h.init_mode d hd)
  · refine h.hw_at.mono (fun d hd => congrArg Desc.hwMode (hdone d hd)) ?_ (fun _ hd => hd)
    intro d hd
    exact ⟨hd, .inl (congrArg Desc.hwNext (htodo d (mem_of_mem_head? hd)))⟩
  · exact h.consumer_at.mono (fun d hd => hd) (fun d hd => hd)
      (fun d hd _ => hdone d (mem_of_mem_head? hd)) (fun hd => ⟨hd, rfl⟩)
      (fun _ hd => ⟨hd, rfl⟩)
  · exact h.tokens_of fun d hd => congrArg Desc.swToken (hold d hd)

/-- A descriptor as `cpdma_chan_submit` fills it in. -/
structure Filled (c : Chan) (f : ℕ) : Prop where
  marked : ∃ i, f = c.pool.desc i ∧ c.pool.bitmap i = true
  next : (c.mem f).hwNext = 0
  mode : owned (c.mem f).hwMode = true ∧ ended (c.mem f).hwMode = false
  td : tornDown (c.mem f).hwMode = false

lemma chain (h : c.Inv done todo) (hne : done ++ todo ≠ [])
    (hwindow : c.consumer.window ≠ some c.tail) (hfresh : f ∉ c.consumer.holds ++ (done ++ todo))
    (hf : Filled c f) : Inv { c.updateDesc c.tail (fun d => { d with hwNext := c.phys f }) with
        tail := f, submitted := c.submitted ++ [(c.mem f).swToken] } done (todo ++ [f]) := by
  generalize hg : (fun d : Desc => { d with hwNext := c.phys f }) = g
  have hmode : ∀ d, ((c.updateDesc c.tail g).mem d).hwMode = (c.mem d).hwMode := by
    intro d
    exact c.updateDesc_field d c.tail Desc.hwMode (by rw [← hg]; intro x; rfl)
  have htok : ∀ d, ((c.updateDesc c.tail g).mem d).swToken = (c.mem d).swToken := by
    intro d
    exact c.updateDesc_field d c.tail Desc.swToken (by rw [← hg]; intro x; rfl)
  have hq : done ++ (todo ++ [f]) = done ++ todo ++ [f] := by simp
  have hnodup : (done ++ todo).Nodup := (nodup_append.mp h.nodup).2.1
  have hlast := h.getLast?_eq_tail hne
  have hftail : f ≠ c.tail := by
    rintro rfl
    exact hfresh (mem_append_right _ (mem_of_getLast? hlast))
  refine
    { h with
      head_eq := ?_, tail_eq := ?_, links := ?_, nodup := ?_, marked := ?_, done_mode := ?_
      todo_mode := ?_, mode_td := ?_, init_mode := ?_, hw_at := ?_, consumer_at := ?_
      tokens_eq := ?_ }
  · rw [hq, head?_append_of_ne_nil _ hne]
    exact h.head_eq
  · intro d hd
    rw [hq, getLast?_concat] at hd
    exact some.inj hd
  · rw [hq]
    refine links_concat hlast hnodup h.links ?_ ?_ ?_
    · show ((c.updateDesc c.tail g).mem c.tail).hwNext = c.phys f
      rw [updateDesc_self, ← hg]
    · rw [updateDesc_of_ne c g hftail]
      exact hf.next
    · intro d _ hd
      exact congrArg Desc.hwNext (c.updateDesc_of_ne g hd)
  · rw [hq, ← append_assoc]
    exact concat_eq_append ▸ h.nodup.concat hfresh
  · intro d hd
    rw [hq, ← append_assoc, mem_append, mem_singleton] at hd
    rcases hd with hd | rfl
    · exact h.marked d hd
    · exact hf.marked
  · intro d hd
    exact (congrArg owned (hmode d)).trans (h.done_mode d hd)
  · intro d hd
    rw [mem_append, mem_singleton] at hd
    rw [hmode]
    rcases hd with hd | rfl
    · exact h.todo_mode d hd
    · exact hf.mode
  · intro d hd
    rw [hq, mem_append, mem_singleton] at hd
    rw [hmode]
    rcases hd with hd | rfl
    · exact h.mode_td d hd
    · exact hf.td
  · intro d hd
    exact (congrArg ended (hmode d)).trans (h.init_mode d hd)
  · refine h.hw_at.mono (fun d _ => hmode d) ?_ ?_
    · intro d hd
      refine ⟨?_, ?_⟩
      · rw [head?_append_of_ne_nil _ (by rintro rfl; cases hd)]
        exact hd
      · by_cases htail : d = c.tail
        · have hlinks := h.links
          rw [← dropLast_append_getLast? _ hlast] at hlinks
          exact .inr (htail ▸ links_middle hlinks)
        · exact .inl (congrArg Desc.hwNext (c.updateDesc_of_ne g htail))
    · rintro rfl rfl
      exact absurd rfl hne
  · refine h.consumer_at.mono ?_ (fun d hd => hd) ?_ ?_ ?_
    · intro d hd
      rw [hq, head?_append_of_ne_nil _ hne]
      exact hd
    · intro d _ hd
      apply updateDesc_of_ne
      rintro rfl
      exact hwindow hd
    · intro hnil
      simp at hnil
    · intro _ hnil
      exact ⟨by simp, head?_append_of_ne_nil _ hnil⟩
  · show c.submitted ++ [(c.mem f).swToken] = c.handled.map HandlerCall.token ++
      c.consumer.tokens (c.updateDesc c.tail g).mem ++
      (done ++ (todo ++ [f])).map fun d => ((c.updateDesc c.tail g).mem d).swToken
    rw [h.tokens_of fun d _ => htok d, ← htok f]
    simp

lemma clearEoq {prev : ℕ} (h : c.Inv done todo) (hlast : done.getLast? = some prev)
    (hended : ended (c.mem prev).hwMode = true) (hwindow : c.consumer.window ≠ some prev)
    (hf : todo.head? = some f) :
    Inv { c.updateDesc prev (fun d => { d with hwMode := d.hwMode &&& ~~~cpdmaDescEoq }) with
      hw := .reading (c.phys f) } done todo := by
  generalize hg : (fun d : Desc => { d with hwMode := d.hwMode &&& ~~~cpdmaDescEoq }) = g
  have hprev : prev ∈ done := mem_of_getLast? hlast
  have hold : ∀ d, d ≠ prev → (c.updateDesc prev g).mem d = c.mem d := fun d hd =>
    c.updateDesc_of_ne g hd
  have htodo : ∀ d ∈ todo, (c.updateDesc prev g).mem d = c.mem d := by
    intro d hd
    apply hold
    rintro rfl
    exact h.disjoint hprev hd
  have hended' : ∀ d ∈ done, ended ((c.updateDesc prev g).mem d).hwMode = false := by
    intro d hd
    by_cases hdp : d = prev
    · rw [hdp, updateDesc_self, ← hg, ended_clear_eoq]
    · rw [hold d hdp]
      rw [← dropLast_append_getLast? _ hlast, mem_append, mem_singleton] at hd
      exact h.init_mode d (hd.resolve_right hdp)
  have hstopped : c.consumer.stopped = false := by
    rw [Bool.eq_false_iff]
    intro hs
    rw [(h.idle_of_stopped rfl hs).2] at hprev
    cases hprev
  refine
    { h with
      links := ?_, done_mode := ?_, todo_mode := ?_, mode_td := ?_
      init_mode := fun d hd => hended' d (dropLast_subset _ hd)
      hw_at := ⟨hstopped, hended', f, hf, rfl⟩, consumer_at := ?_, tokens_eq := ?_ }
  · refine links_congr ?_ h.links
    intro d _
    exact c.updateDesc_field d prev Desc.hwNext (by rw [← hg]; intro x; rfl)
  · intro d hd
    refine Eq.trans ?_ (h.done_mode d hd)
    refine c.updateDesc_field d prev (fun x => owned x.hwMode) ?_
    intro x
    rw [← hg]
    exact owned_clear_eoq _
  · intro d hd
    have hmode := h.todo_mode d hd
    rw [← htodo d hd] at hmode
    exact hmode
  · intro d hd
    refine Eq.trans ?_ (h.mode_td d hd)
    refine c.updateDesc_field d prev (fun x => tornDown x.hwMode) ?_
    intro x
    rw [← hg]
    exact tornDown_clear_eoq _
  · refine h.consumer_at.mono (fun d hd => hd) (fun d hd => hd) ?_ (fun hd => ⟨hd, rfl⟩)
      (fun _ hd => ⟨hd, rfl⟩)
    rintro d _ hd
    apply hold
    rintro rfl
    exact hwindow hd
  · refine h.tokens_of ?_
    intro d _
    exact c.updateDesc_field d prev Desc.swToken (by rw [← hg]; intro x; rfl)

lemma push (h : c.Inv [] []) (hwindow : c.consumer.window ≠ some c.tail)
    (hfresh : f ∉ c.consumer.holds) (hf : Filled c f) : Inv { c with
      head := some f, tail := f, hw := .reading (c.phys f)
      submitted := c.submitted ++ [(c.mem f).swToken] } [] [f] := by
  have hat : c.consumer.stopped = false ∧ ConsumerAt c.mem f [] [f] c.consumer := by
    have hat := h.consumer_at
    generalize c.consumer = k at hat hwindow
    cases k with
    | gotHead desc => cases hat
    | gotMode desc mode | gotNext desc mode next => cases hat.1
    | movedHead desc mode | acked desc mode =>
      exact absurd (congrArg some (hat.2 rfl).symm) hwindow
    | requeue desc mode => exact absurd rfl hat.2
    | restart desc mode head => exact absurd rfl hat.2.1
    | idle | finish | gotToken | gotBuffer | gotLen | freed => exact ⟨rfl, trivial⟩
  refine
    { h with
      head_eq := rfl, tail_eq := fun d hd => some.inj hd, links := ⟨hf.next, trivial⟩
      nodup := ?_, marked := ?_, todo_mode := ?_, mode_td := ?_
      hw_at := ⟨hat.1, forall_mem_nil _, f, rfl, rfl⟩, consumer_at := hat.2
      tokens_eq := ?_ }
  · have hnodup := h.nodup
    rw [append_nil, append_nil] at hnodup
    exact concat_eq_append ▸ hnodup.concat hfresh
  · intro d (hd : d ∈ c.consumer.holds ++ [f])
    rw [mem_append, mem_singleton] at hd
    rcases hd with hd | rfl
    · exact h.marked d (mem_append_left _ hd)
    · exact hf.marked
  · intro d hd
    obtain rfl := mem_singleton.mp hd
    exact hf.mode
  · intro d hd
    obtain rfl := mem_singleton.mp hd
    exact hf.td
  · rw [h.tokens_eq]
    simp

lemma getLast?_of_not_owned (h : c.Inv done todo) (hne : done ++ todo ≠ [])
    (hown : owned (c.mem c.tail).hwMode = false) : todo = [] ∧ done.getLast? = some c.tail := by
  have hlast := h.getLast?_eq_tail hne
  have htodo : todo = [] := by
    cases ht : todo.getLast? with
    | none => exact getLast?_eq_none_iff.mp ht
    | some d =>
      rw [getLast?_append, ht, some_or, some.injEq] at hlast
      rw [← hlast, (h.todo_mode d (mem_of_getLast? ht)).1] at hown
      cases hown
  refine ⟨htodo, ?_⟩
  rw [htodo, append_nil] at hlast
  exact hlast

lemma submitDesc (h : c.Inv done todo) (hwindow : c.consumer.window ≠ some c.tail)
    (hfresh : f ∉ c.consumer.holds ++ (done ++ todo)) (hf : Filled c f) :
    ∃ done' todo', Inv { cpdmaChanSubmitDesc c f with
      submitted := c.submitted ++ [(c.mem f).swToken] } done' todo' := by
  have hle : c.pool.iomap ≤ f := by
    obtain ⟨i, rfl, _⟩ := hf.marked
    exact Nat.le_add_right _ _
  cases hhead : c.head with
  | none =>
    have hnil : done ++ todo = [] := head?_eq_none_iff.mp (h.head_eq.symm.trans hhead)
    obtain ⟨rfl, rfl⟩ := append_eq_nil_iff.mp hnil
    refine ⟨[], [f], ?_⟩
    have hsubmit : cpdmaChanSubmitDesc c f =
        { c with head := some f, tail := f, hw := .reading (c.phys f) } := by
      simp only [cpdmaChanSubmitDesc, hhead]
      rw [if_pos h.active, writeHdp, if_neg (phys_ne_zero hle)]
    rw [hsubmit]
    rw [append_nil, append_nil] at hfresh
    exact h.push hwindow hfresh hf
  | some d =>
    have hne : done ++ todo ≠ [] := by
      intro hnil
      rw [h.head_eq, hnil] at hhead
      cases hhead
    have hchain := h.chain hne hwindow hfresh hf
    refine ⟨done, todo ++ [f], ?_⟩
    simp only [cpdmaChanSubmitDesc, hhead]
    split
    · rename_i hmissed
      obtain ⟨hend, hnown⟩ := (missed_iff _).mp hmissed.1
      have hmode : ((c.updateDesc c.tail fun d => { d with hwNext := c.phys f }).mem
          c.tail).hwMode = (c.mem c.tail).hwMode := by rw [updateDesc_self]
      rw [hmode] at hend hnown
      -- the old tail is completed, so the hardware owns nothing
      obtain ⟨rfl, hlast⟩ := h.getLast?_of_not_owned hne hnown
      have hrestart := hchain.clearEoq (f := f) hlast ((congrArg ended hmode).trans hend)
        hwindow rfl
      simp only [writeHdp, if_neg (phys_ne_zero hle)]
      exact hrestart
    · exact hchain

end Inv

/-- A receive descriptor is left, if it is one that is needed. (In a pool of one
or two descriptors the search for one fails as it should.) -/
def sparesDesc (c : Chan) : Prop :=
  c.isRx = true → c.pool.hi true + 1 < c.pool.numDesc →
    ∃ i < c.pool.hi true, c.pool.bitmap i = false

instance (c : Chan) : Decidable c.sparesDesc := inferInstanceAs (Decidable (_ → _ → _))

/-- A submission does not fall into the time in which the consumer works on the
last descriptor of the queue, and it does not ask for a receive descriptor
while all of them are in use. -/
def submitsApart (c : Chan) : ChanEvent → Prop
  | .submit _ => c.consumer.window ≠ some c.tail ∧ c.sparesDesc
  | _ => True

instance (c : Chan) : ∀ e : ChanEvent, Decidable (c.submitsApart e)
  | .submit _ => inferInstanceAs (Decidable (_ ∧ _))
  | .hw => isTrue trivial
  | .consume => isTrue trivial

lemma alloc_of_spares (h : c.sparesDesc) : (∃ i, c.pool.bitmap i = false ∧
        cpdmaDescAlloc c.pool 1 c.isRx = (c.pool.take i 1, some (c.pool.desc i))) ∨
      cpdmaDescAlloc c.pool 1 c.isRx = (c.pool, none) := by
  rcases c.pool.alloc_cases c.isRx with ⟨i, _, _, hfree, heq⟩ | ⟨hfull, heq⟩
  · exact .inl ⟨i, hfree, heq⟩
  · refine .inr (heq.trans (if_neg ?_))
    intro hlt
    cases hrx : c.isRx with
    | false =>
      rw [hrx] at hlt
      exact absurd hlt (by show ¬ c.pool.numDesc + 1 < c.pool.numDesc; omega)
    | true =>
      rw [hrx] at hlt hfull
      obtain ⟨i, hi, hzero⟩ := h hrx hlt
      rw [hfull i (Nat.zero_le _) hi] at hzero
      cases hzero

lemma Inv.submit {r : Request} (h : c.Inv done todo) (hg : c.submitsApart (.submit r)) :
    ∃ done' todo', (cpdmaChanSubmit c r).1.Inv done' todo' := by
  obtain ⟨hwindow, hspare⟩ := hg
  unfold cpdmaChanSubmit
  rw [if_neg (by rw [h.active]; decide)]
  rcases alloc_of_spares hspare with ⟨i, hfree, heq⟩ | heq
  · rw [heq]
    obtain ⟨hfresh, hfill⟩ := h.fill hfree (c.newDesc r)
    have hmem : ({ c with pool := c.pool.take i 1 }.updateDesc (c.pool.desc i)
        fun _ => c.newDesc r).mem (c.pool.desc i) = c.newDesc r := updateDesc_self ..
    obtain ⟨hown, hended, htd⟩ := submitMode_bits c.isRx r.directed
      (if r.len < c.minPacketSize then c.minPacketSize else r.len)
    have hmark : (c.pool.take i 1).bitmap i = true := if_pos ⟨le_rfl, Nat.lt_succ_self i⟩
    have hsubmit := hfill.submitDesc hwindow hfresh ⟨⟨i, rfl, hmark⟩, by rw [hmem]; rfl,
      by rw [hmem]; exact ⟨hown, hended⟩, by rw [hmem]; exact htd⟩
    rw [hmem] at hsubmit
    exact hsubmit
  · rw [heq]
    exact ⟨done, todo, h⟩

variable {c' : Chan}

lemma Inv.hwStep (h : c.Inv done todo) (hstep : hwStep c = some c') :
    ∃ done' todo', c'.Inv done' todo' := by
  unfold Cpdma.hwStep at hstep
  cases hc : c.hw with
  | idle =>
    rw [hc] at hstep
    cases hstep
  | reading dma =>
    rw [hc] at hstep
    exact ⟨done, todo, some.inj hstep ▸ h.readNext hc⟩
  | completing dma next =>
    rw [hc] at hstep
    cases todo with
    | nil => exact absurd (h.idle_of_todo_nil rfl) (by rw [hc]; exact Hw.noConfusion)
    | cons e rest => exact ⟨_, _, some.inj hstep ▸ h.complete hc⟩

/-- **Every step keeps the invariant**, a submission if it is apart. -/
lemma Inv.step {e : ChanEvent} (h : c.Inv done todo) (hg : c.submitsApart e)
    (hstep : c.step e = some c') : ∃ done' todo', c'.Inv done' todo' := by
  cases e with
  | submit r => exact some.inj hstep ▸ h.submit hg
  | hw => exact h.hwStep hstep
  | consume => exact ⟨_, _, some.inj hstep ▸ h.consume⟩

end Chan

end Am335x.Cpdma
