import Am335xKernel.Lib.Machine
import Am335xKernel.Mm.SharedPolicy

/-!
# Concurrent replacements

Any number of tasks call `shared_policy_replace` on one `shared_policy`. A
section under the lock is one step; between two sections the task reads the end
and the policy of the node it found, through a pointer that nobody protects, and
allocates.

The node prepared there is used without a second look. `Current` says that the
node that spans the range now still has the end and the policy of the one the
task has read. Under it the tree stays a map and the calls that have returned 0
took effect one after another; without it two ranges of the tree can overlap.
-/

namespace Am335x.SharedPolicy

open Function List

open Spans SearchTree

structure Call where
  start : ℕ
  stop  : ℕ
  new   : Option Policy

inductive Phase where
  /-- About to take the lock; the end and the policy of the prepared node. -/
  | restart (new2 : Option (ℕ × Policy))
  /-- Has dropped the lock at the node with this address. -/
  | unlocked (n : ℕ)
  | done
  | enomem
deriving DecidableEq

structure State where
  tree  : SearchTree SpNode
  /-- The next unused address. -/
  fresh : ℕ
  phase : ℕ → Phase
  /-- The calls that have returned 0, in the order of their last sections. -/
  log   : List ℕ
  bug   : Bool

inductive Event where
  /-- Task `t` runs from `restart` to the next `spin_unlock`. -/
  | lock (t : ℕ) (sh : Shapes)
  /-- Task `t` reads the node and allocates; `freed` is what a pointer to freed
  memory reads. -/
  | alloc (t : ℕ) (ok : Bool) (freed : ℕ × Policy)

/-- `n->end` and `n->policy` for the node at an address. -/
def readNode (tree : SearchTree SpNode) (n : ℕ) (freed : ℕ × Policy) : ℕ × Policy :=
  match tree.inorder.find? fun a => a.id = n with
  | some a => (a.stop, a.policy)
  | none => freed

/-- `new2` as `sp_alloc` has filled it in. -/
def Call.remainder (c : Call) (fresh : ℕ) (new2 : Option (ℕ × Policy)) : Option SpNode :=
  new2.map fun r => ⟨fresh, c.stop, r.1, r.2⟩

def Call.node (c : Call) (fresh : ℕ) : Option SpNode :=
  c.new.map fun p => ⟨fresh, c.start, c.stop, p⟩

def Call.lockSection (c : Call) (sh : Shapes) (fresh : ℕ) (new2 : Option (ℕ × Policy))
    (tree : SearchTree SpNode) : Outcome :=
  replaceSection sh c.start c.stop (c.node (fresh + 1)) (c.remainder fresh new2) tree

def State.afterSection (s : State) (t : ℕ) : Outcome → State
  | .unlock tree n =>
    { s with tree := tree, phase := update s.phase t (.unlocked n.id) }
  | .done tree =>
    { s with tree := tree, fresh := s.fresh + 2, phase := update s.phase t .done,
             log := s.log ++ [t] }
  | .bug => { s with bug := true }

def step (calls : ℕ → Call) (s : State) : Event → Option State
  | .lock t sh =>
    match s.bug, s.phase t with
    | false, .restart new2 =>
      some (s.afterSection t ((calls t).lockSection sh s.fresh new2 s.tree))
    | _, _ => none
  | .alloc t ok freed =>
    match s.phase t with
    | .unlocked n =>
      let next : Phase := if ok then .restart (some (readNode s.tree n freed)) else .enomem
      some { s with phase := update s.phase t next }
    | _ => none

/-- `mpol_shared_policy_init` leaves an empty tree. -/
def init : State where
  tree  := .nil
  fresh := 0
  phase _ := .restart none
  log   := []
  bug   := false

def machine (calls : ℕ → Call) : Machine State Event where
  init := init
  step := step calls

def Call.apply (c : Call) (m : ℕ → Option Policy) (i : ℕ) : Option Policy :=
  if c.start ≤ i ∧ i < c.stop then c.new else m i

def policyMap (calls : ℕ → Call) (order : List ℕ) : ℕ → Option Policy :=
  order.foldl (fun m t => (calls t).apply m) fun _ => none

/-- The tree holds disjoint, non-empty ranges, `BUG()` was not reached, and a
lookup finds what the calls that have returned 0 give, one after another in some
order. -/
def Serial (calls : ℕ → Call) (s : State) : Prop :=
  Ordered SpNode.start SpNode.stop s.tree.inorder ∧ s.bug = false ∧
    ∃ order : List ℕ, order.Nodup ∧ (∀ t, t ∈ order ↔ s.phase t = .done) ∧
      ∀ i, mpolSharedPolicyLookup s.tree i = policyMap calls order i

/-- Where a task takes the lock with a prepared node, a node that spans its range
has the end and the policy that were prepared. -/
def Current (calls : ℕ → Call) (s : State) : Event → Prop
  | .lock t _ => ∀ r, s.phase t = .restart (some r) → ∀ n ∈ s.tree.inorder,
      Spanning (calls t).start (calls t).stop n → r = (n.stop, n.policy)
  | .alloc _ _ _ => True

instance {start stop : ℕ} {n : SpNode} : Decidable (Spanning start stop n) :=
  inferInstanceAs (Decidable (_ ∧ _))

instance (calls : ℕ → Call) (s : State) : ∀ e, Decidable (Current calls s e)
  | .alloc _ _ _ => isTrue trivial
  | .lock t _ =>
    match h : s.phase t with
    | .restart (some r) =>
      decidable_of_iff (∀ n ∈ s.tree.inorder, Spanning (calls t).start (calls t).stop n →
        r = (n.stop, n.policy))
        ⟨fun hall q hq => by cases h.symm.trans hq; exact hall, fun hall => hall r h⟩
    | .restart none => isTrue fun _ hq => nomatch h.symm.trans hq
    | .unlocked _ => isTrue fun _ hq => nomatch h.symm.trans hq
    | .done => isTrue fun _ hq => nomatch h.symm.trans hq
    | .enomem => isTrue fun _ hq => nomatch h.symm.trans hq

/-- What is left of the nodes in `l` when a range has been cleared. -/
structure Cleared (start stop : ℕ) (l l' : List SpNode) : Prop where
  wf    : Wf l'
  clear : ∀ a ∈ l', Clear SpNode.start SpNode.stop start stop a
  gives : ∀ i p, Gives l' i p ↔ Gives l i p ∧ (i < start ∨ stop ≤ i)

section

variable {l l' : List SpNode} {t t1 t' : SearchTree SpNode} {n x : SpNode} {start stop fresh i : ℕ}
  {p : Policy} {sh : Shapes}

lemma gives_cons (h : l'.Perm (x :: l)) :
    Gives l' i p ↔ (x.start ≤ i ∧ i < x.stop ∧ x.policy = p) ∨ Gives l i p := by
  constructor
  · rintro ⟨a, ha, hcov⟩
    rcases mem_cons.mp (h.mem_iff.mp ha) with rfl | ha
    · exact .inl hcov
    · exact .inr ⟨a, ha, hcov⟩
  · rintro (hcov | ⟨a, ha, hcov⟩)
    · exact ⟨x, h.mem_iff.mpr mem_cons_self, hcov⟩
    · exact ⟨a, h.mem_iff.mpr (mem_cons_of_mem x ha), hcov⟩

lemma insertDone_of_some (h : spInsert sh x t = some t') : insertDone sh x t = .done t' := by
  rw [insertDone, h]

lemma id_lt_trim (h : Wf l) (hid : ∀ a ∈ l, a.id < fresh) :
    ∀ a ∈ l.filterMap (trim start stop), a.id < fresh := by
  intro a ha
  obtain ⟨b, hb, hba⟩ := mem_filterMap.mp ha
  rw [(trim_eq_some (h.ordered.valid b hb) hba).2.2.2.1]
  exact hid b hb

lemma cleared_trim (h : Wf l) (hspan : ∀ n ∈ l, ¬ Spanning start stop n) :
    Cleared start stop l (l.filterMap (trim start stop)) := by
  refine ⟨wf_trim h, fun a ha => clear_of_mem_trim h ha, ?_⟩
  intro i p
  rw [gives_trim h]
  constructor
  · rintro ⟨a, ha, hai, hia, hp, hout⟩
    exact ⟨⟨a, ha, hai, hia, hp⟩, hout.imp_right And.left⟩
  · rintro ⟨⟨a, ha, hai, hia, hp⟩, hout⟩
    refine ⟨a, ha, hai, hia, hp, ?_⟩
    rcases hout with hout | hout
    · exact .inl hout
    · exact .inr ⟨hout, not_lt.mp fun hbefore => hspan a ha ⟨hbefore, hout.trans_lt hia⟩⟩

section

variable (sh : Shapes)

lemma cleared_spanning (h : Wf l) (hlt : start < stop) (hn : n ∈ l)
    (hspan : Spanning start stop n) (hx : x.start = stop ∧ x.stop = n.stop ∧ x.policy = n.policy)
    (ht1 : t1.inorder = l.filterMap (trim start stop)) (hid : ∀ a ∈ l, a.id < x.id) :
    ∃ t', spInsert sh x t1 = some t' ∧ Cleared start stop l t'.inorder := by
  obtain ⟨hbefore, hafter⟩ := hspan
  obtain ⟨hxs, hxe, hxp⟩ := hx
  have hclear : ∀ a ∈ t1.inorder, Clear SpNode.start SpNode.stop x.start x.stop a := by
    intro a ha
    rw [ht1] at ha
    obtain ⟨b, hb, hba⟩ := mem_filterMap.mp ha
    obtain ⟨hsa, hval, hea, -, -, hca⟩ := trim_eq_some (h.ordered.valid b hb) hba
    by_cases hmeet : b.stop ≤ n.start ∨ n.stop ≤ b.start
    · rcases hmeet with hmeet | hmeet
      · exact .inl (hxs ▸ hea.trans (hmeet.trans (hbefore.le.trans hlt.le)))
      · exact .inr (hxe ▸ hmeet.trans hsa)
    · -- only the node itself is left, and of it the left part
      rw [not_or, not_le, not_le] at hmeet
      obtain rfl := h.ordered.eq_of_meet hb hn hmeet.2 hmeet.1
      rw [trim, if_pos hbefore, Option.some.injEq] at hba
      rw [← hba]
      exact .inl (hxs ▸ (min_le_right _ _).trans hlt.le)
  obtain ⟨t', hins, hwf⟩ := spInsert_clear sh (t := t1) (x := x) (ht1 ▸ wf_trim h)
    (by rw [hxs, hxe]; exact hafter) hclear
    (fun a ha => (id_lt_trim h hid a (ht1 ▸ ha)).ne)
  refine ⟨t', hins, hwf, ?_, ?_⟩
  · intro a ha
    rcases mem_cons.mp ((perm_spInsert hins).mem_iff.mp ha) with rfl | ha
    · exact .inr hxs.ge
    · exact clear_of_mem_trim h (ht1 ▸ ha)
  · intro i p
    rw [gives_cons (perm_spInsert hins), ht1, gives_trim h, hxs, hxe, hxp]
    constructor
    · rintro (⟨hsi, hie, hp⟩ | ⟨a, ha, hai, hia, hp, hout⟩)
      · exact ⟨⟨n, hn, (hbefore.le.trans hlt.le).trans hsi, hie, hp⟩, .inr hsi⟩
      · exact ⟨⟨a, ha, hai, hia, hp⟩, hout.imp_right And.left⟩
    · rintro ⟨⟨a, ha, hai, hia, hp⟩, hout⟩
      rcases hout with hout | hout
      · exact .inr ⟨a, ha, hai, hia, hp, .inl hout⟩
      · by_cases hstart : start ≤ a.start
        · exact .inr ⟨a, ha, hai, hia, hp, .inr ⟨hout, hstart⟩⟩
        · obtain rfl : a = n := h.ordered.eq_of_meet ha hn
            ((not_le.mp hstart).trans (hlt.trans hafter))
            (hbefore.trans (hlt.trans (hout.trans_lt hia)))
          exact .inl ⟨hout, hia, hp⟩

lemma Cleared.insert (h : Cleared start stop l t.inorder)
    (hx : x.start = start ∧ x.stop = stop) (hlt : start < stop)
    (hid : ∀ a ∈ t.inorder, a.id ≠ x.id) :
    ∃ t', spInsert sh x t = some t' ∧ Wf t'.inorder ∧ ∀ i p, Gives t'.inorder i p ↔
        if start ≤ i ∧ i < stop then x.policy = p else Gives l i p := by
  obtain ⟨rfl, rfl⟩ := hx
  obtain ⟨t', hins, hwf⟩ := spInsert_clear sh h.wf hlt h.clear hid
  refine ⟨t', hins, hwf, ?_⟩
  intro i p
  rw [gives_cons (perm_spInsert hins), h.gives]
  split_ifs with hin
  · constructor
    · rintro (⟨-, -, hp⟩ | ⟨-, hout | hout⟩)
      · exact hp
      · exact absurd hin.1 hout.not_ge
      · exact absurd hin.2 hout.not_gt
    · intro hp
      exact .inl ⟨hin.1, hin.2, hp⟩
  · constructor
    · rintro (⟨hsi, hie, -⟩ | ⟨hg, -⟩)
      · exact absurd ⟨hsi, hie⟩ hin
      · exact hg
    · intro hg
      refine .inr ⟨hg, ?_⟩
      by_cases hsi : x.start ≤ i
      · exact .inr (not_lt.mp fun hie => hin ⟨hsi, hie⟩)
      · exact .inl (not_le.mp hsi)

lemma replaceLoop_current {new2 : Option SpNode} (h : Wf t.inorder)
    (hlt : start < stop) (hid : ∀ a ∈ t.inorder, a.id < fresh)
    (hnew2 : ∀ x, new2 = some x → x.id = fresh ∧ x.start = stop ∧
      ∀ n ∈ t.inorder, Spanning start stop n → x.stop = n.stop ∧ x.policy = n.policy) :
    (∃ n ∈ t.inorder, replaceLoop sh start stop new2 (found t start stop) t = .unlock t n) ∨
      ∃ t', replaceLoop sh start stop new2 (found t start stop) t = .done t' ∧
        Cleared start stop t.inorder t'.inorder ∧ ∀ a ∈ t'.inorder, a.id < fresh + 1 := by
  rcases replaceLoop_spec sh new2 hlt h with
    ⟨n, hn, hspan, t1, ht1, hrun⟩ | ⟨hspan, t1, ht1, hrun⟩
  · cases new2 with
    | none => exact .inl ⟨n, hn, hrun⟩
    | some x =>
      obtain ⟨hxid, hxs, hcur⟩ := hnew2 x rfl
      have hidx : ∀ a ∈ t.inorder, a.id < x.id := fun a ha => hxid ▸ hid a ha
      obtain ⟨t', hins, hcleared⟩ :=
        cleared_spanning sh h hlt hn hspan ⟨hxs, hcur n hn hspan⟩ ht1 hidx
      refine .inr ⟨t', hrun.trans (insertDone_of_some hins), hcleared, ?_⟩
      intro a ha
      rcases mem_cons.mp ((perm_spInsert hins).mem_iff.mp ha) with rfl | ha
      · exact hxid ▸ Nat.lt_succ_self _
      · exact Nat.lt_succ_of_lt (id_lt_trim h hid a (ht1 ▸ ha))
  · refine .inr ⟨t1, hrun, ht1 ▸ cleared_trim h hspan, ?_⟩
    intro a ha
    exact Nat.lt_succ_of_lt (id_lt_trim h hid a (ht1 ▸ ha))

/-- **A section** of a call with a current node drops the lock with the tree as it
was, or applies the call. -/
lemma lockSection_current (c : Call) {new2 : Option (ℕ × Policy)} (h : Wf t.inorder)
    (hlt : c.start < c.stop) (hid : ∀ a ∈ t.inorder, a.id < fresh)
    (hnew2 : ∀ r, new2 = some r → ∀ n ∈ t.inorder, Spanning c.start c.stop n →
      r = (n.stop, n.policy)) : (∃ n, c.lockSection sh fresh new2 t = .unlock t n) ∨
      ∃ t', c.lockSection sh fresh new2 t = .done t' ∧ Wf t'.inorder ∧
        (∀ a ∈ t'.inorder, a.id < fresh + 2) ∧ ∀ i p, Gives t'.inorder i p ↔
          if c.start ≤ i ∧ i < c.stop then c.new = some p else Gives t.inorder i p := by
  have hcur : ∀ x, c.remainder fresh new2 = some x → x.id = fresh ∧ x.start = c.stop ∧
      ∀ n ∈ t.inorder, Spanning c.start c.stop n → x.stop = n.stop ∧ x.policy = n.policy := by
    intro x hx
    obtain ⟨r, hr, rfl⟩ := Option.map_eq_some_iff.mp hx
    refine ⟨rfl, rfl, ?_⟩
    intro n hn hspan
    have hrn := hnew2 r hr n hn hspan
    exact ⟨congrArg Prod.fst hrn, congrArg Prod.snd hrn⟩
  unfold Call.lockSection replaceSection
  rcases replaceLoop_current sh h hlt hid hcur with ⟨n, -, hrun⟩ | ⟨t2, hrun, hcl, hid2⟩
  · rw [hrun]
    exact .inl ⟨n, rfl⟩
  · rw [hrun]
    right
    rcases hnew : c.new with _ | q
    · refine ⟨t2, by rw [Call.node, hnew]; rfl, hcl.wf,
        fun a ha => Nat.lt_succ_of_lt (hid2 a ha), ?_⟩
      intro i p
      rw [hcl.gives]
      split_ifs with hin
      · constructor
        · rintro ⟨-, hout | hout⟩
          · exact absurd hin.1 hout.not_ge
          · exact absurd hin.2 hout.not_gt
        · intro hp
          cases hp
      · refine ⟨And.left, fun hg => ⟨hg, ?_⟩⟩
        by_cases hsi : c.start ≤ i
        · exact .inr (not_lt.mp fun hie => hin ⟨hsi, hie⟩)
        · exact .inl (not_le.mp hsi)
    · obtain ⟨t', hins, hwf, hgives⟩ := hcl.insert sh
        (x := ⟨fresh + 1, c.start, c.stop, q⟩) ⟨rfl, rfl⟩ hlt fun a ha => (hid2 a ha).ne
      refine ⟨t', ?_, hwf, ?_, ?_⟩
      · rw [Call.node, hnew, Option.map_some]
        exact insertDone_of_some hins
      · intro a ha
        rcases mem_cons.mp ((perm_spInsert hins).mem_iff.mp ha) with rfl | ha
        · exact Nat.lt_succ_self _
        · exact Nat.lt_succ_of_lt (hid2 a ha)
      · intro i p
        rw [hgives, Option.some.injEq]

end

end

structure Inv (calls : ℕ → Call) (s : State) : Prop where
  bug   : s.bug = false
  wf    : Wf s.tree.inorder
  fresh : ∀ a ∈ s.tree.inorder, a.id < s.fresh
  gives : ∀ i p, Gives s.tree.inorder i p ↔ policyMap calls s.log i = some p
  nodup : s.log.Nodup
  done  : ∀ t, t ∈ s.log ↔ s.phase t = .done

section

variable {calls : ℕ → Call} {s s' : State} {e : Event} {t : ℕ} {sh : Shapes}

lemma inv_init : Inv calls init where
  bug := rfl
  wf := ⟨ordered_nil, nodup_nil⟩
  fresh := nofun
  gives _ _ := ⟨fun ⟨_, ha, _⟩ => absurd ha not_mem_nil, nofun⟩
  nodup := nodup_nil
  done _ := ⟨nofun, nofun⟩

lemma Inv.serial (h : Inv calls s) : Serial calls s := by
  refine ⟨h.wf.ordered, h.bug, s.log, h.nodup, h.done, ?_⟩
  intro i
  apply Option.ext
  intro p
  rw [mpolSharedPolicyLookup_eq_some h.wf, h.gives]

lemma done_update {phase : ℕ → Phase} {log : List ℕ} {ph : Phase}
    (h : ∀ u, u ∈ log ↔ phase u = .done) (ht : phase t ≠ .done) (hph : ph ≠ .done) (u : ℕ) :
    u ∈ log ↔ update phase t ph u = .done := by
  rcases eq_or_ne u t with rfl | hne
  · rw [update_self, h]
    exact iff_of_false ht hph
  · rw [update_of_ne hne, h]

lemma inv_lock {new2 : Option (ℕ × Policy)}
    (hne : ∀ t, (calls t).start < (calls t).stop) (h : Inv calls s)
    (hphase : s.phase t = .restart new2) (hcur : Current calls s (.lock t sh)) :
    Inv calls (s.afterSection t ((calls t).lockSection sh s.fresh new2 s.tree)) := by
  have hnotdone : s.phase t ≠ .done := by
    rw [hphase]
    nofun
  have hnew2 : ∀ r, new2 = some r → ∀ n ∈ s.tree.inorder,
      Spanning (calls t).start (calls t).stop n → r = (n.stop, n.policy) := by
    intro r hr
    exact hcur r (by rw [hphase, hr])
  rcases lockSection_current sh (calls t) h.wf (hne t) h.fresh hnew2 with
    ⟨n, hrun⟩ | ⟨t', hrun, hwf, hid, hgives⟩
  · rw [hrun]
    exact ⟨h.bug, h.wf, h.fresh, h.gives, h.nodup, done_update h.done hnotdone nofun⟩
  · rw [hrun]
    refine ⟨h.bug, hwf, hid, ?_, ?_, ?_⟩
    · intro i p
      dsimp only [State.afterSection]
      rw [hgives, policyMap, foldl_append]
      show _ ↔ (calls t).apply (policyMap calls s.log) i = _
      rw [Call.apply]
      split
      · rfl
      · exact h.gives i p
    · refine nodup_append.mpr ⟨h.nodup, nodup_singleton t, ?_⟩
      intro u hu v hv huv
      rw [mem_singleton] at hv
      exact hnotdone ((h.done t).mp (hv ▸ huv ▸ hu))
    · intro u
      dsimp only [State.afterSection]
      rw [mem_append, mem_singleton, h.done]
      rcases eq_or_ne u t with rfl | hut
      · rw [update_self]
        exact iff_of_true (.inr rfl) rfl
      · rw [update_of_ne hut]
        exact ⟨fun hu => hu.resolve_right hut, Or.inl⟩

lemma step_alloc {ok : Bool} {freed : ℕ × Policy} (h : step calls s (.alloc t ok freed) = some s') :
    ∃ n next, s.phase t = .unlocked n ∧ next ≠ .done ∧
      s' = { s with phase := update s.phase t next } := by
  rw [step] at h
  split at h
  · rename_i n hphase
    refine ⟨n, _, hphase, ?_, (Option.some.inj h).symm⟩
    cases ok <;> nofun
  · cases h

lemma inv_step (hne : ∀ t, (calls t).start < (calls t).stop) (h : Inv calls s)
    (hcur : Current calls s e) (hstep : step calls s e = some s') : Inv calls s' := by
  cases e with
  | lock t sh =>
    rw [step] at hstep
    split at hstep
    · rename_i hphase
      cases hstep
      exact inv_lock hne h hphase hcur
    · cases hstep
  | alloc t ok freed =>
    obtain ⟨n, next, hphase, hnext, rfl⟩ := step_alloc hstep
    refine ⟨h.bug, h.wf, h.fresh, h.gives, h.nodup, done_update h.done ?_ hnext⟩
    rw [hphase]
    nofun

end

/-- **Replacements are serial** as long as no task uses a prepared node that is out
of date. -/
theorem replace_serial (calls : ℕ → Call) (hne : ∀ t, (calls t).start < (calls t).stop)
    (es : List Event) (hcur : (machine calls).Guarded (Current calls) init es) :
    (machine calls).Always (Serial calls) init es := by
  apply Machine.Always.mono (machine calls) (fun s => Inv.serial)
  apply (machine calls).always_of_guarded ?_ inv_init hcur
  intro s e s' hinv hG hstep
  exact inv_step hne hinv hG hstep

def threeCalls : ℕ → Call
  | 0 => ⟨0, 100, some 1⟩
  | 1 => ⟨40, 50, some 2⟩
  | _ => ⟨60, 70, some 3⟩

def plainShapes : Shapes := ⟨Rebalance.none, Erasing.spine⟩

lemma threeCalls_lt (t : ℕ) : (threeCalls t).start < (threeCalls t).stop := by
  match t with
  | 0 => decide
  | 1 => decide
  | _ + 2 => exact Nat.lt_add_of_pos_right (by decide : 0 < 10)

/-- The calls of tasks 0 and 1 with nothing in between. -/
theorem replace_serial_alone : (machine threeCalls).Guarded (Current threeCalls) init
        [.lock 0 plainShapes, .lock 1 plainShapes, .alloc 1 true (0, 0), .lock 1 plainShapes] ∧
      (machine threeCalls).Always (Serial threeCalls) init
        [.lock 0 plainShapes, .lock 1 plainShapes, .alloc 1 true (0, 0), .lock 1 plainShapes] := by
  have hcur : (machine threeCalls).Guarded (Current threeCalls) init
      [.lock 0 plainShapes, .lock 1 plainShapes, .alloc 1 true (0, 0), .lock 1 plainShapes] := by
    decide +kernel
  exact ⟨hcur, replace_serial threeCalls threeCalls_lt _ hcur⟩

/-- Task 1 has read the end of the old node; task 2 splits that node; task 1 puts in
a node that reaches over the one of task 2. -/
def staleRun : List Event :=
  [.lock 0 plainShapes, .lock 1 plainShapes, .alloc 1 true (0, 0), .lock 2 plainShapes,
    .alloc 2 true (0, 0), .lock 2 plainShapes, .lock 1 plainShapes]

/-- **Two ranges of the tree overlap** after a task has used a node that was out of
date. -/
theorem replace_overlaps : (∀ t, (threeCalls t).start < (threeCalls t).stop) ∧
      ∃ s, (machine threeCalls).exec init staleRun = some s ∧
        (∃ a ∈ s.tree.inorder, ∃ b ∈ s.tree.inorder, a ≠ b ∧ a.start < b.stop ∧ b.start < a.stop) ∧
        ¬ Serial threeCalls s := by
  have hover : ∃ s, (machine threeCalls).exec init staleRun = some s ∧
      ∃ a ∈ s.tree.inorder, ∃ b ∈ s.tree.inorder, a ≠ b ∧ a.start < b.stop ∧ b.start < a.stop :=
    ⟨_, rfl, ⟨4, 50, 100, 1⟩, by decide +kernel, ⟨3, 60, 70, 3⟩, by decide +kernel, by decide,
      by decide, by decide⟩
  obtain ⟨s, hrun, a, ha, b, hb, hne, hab, hba⟩ := hover
  refine ⟨threeCalls_lt, s, hrun, ⟨a, ha, b, hb, hne, hab, hba⟩, ?_⟩
  intro hserial
  exact hne (hserial.1.eq_of_meet ha hb hab hba)

end Am335x.SharedPolicy
