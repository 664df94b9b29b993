import Mathlib.Data.List.Basic

/-!
# Circular doubly linked lists

A list is a ring of entries that know their neighbours, and any entry of it can be taken as its
head: an entry that is alone is its own neighbour on both sides. One memory (`Links`) holds all
rings over a type of entries.

`Ring L h l` says that the entries after `h` are those of `l`, in this order, and that then `h`
comes again.

`Cycle L l` is for rings without a head of their own: the entries of `l` are linked in this order,
and the last one to the first.
-/

structure Links (α : Type*) where
  next : α → α
  prev : α → α

namespace Links

open Function List

variable {α : Type*}

def alone : Links α := ⟨fun a => a, fun a => a⟩

/-- From `a` over the entries of the list to `b`. -/
def Path (L : Links α) : α → List α → α → Prop
  | a, [], b => L.next a = b ∧ L.prev b = a
  | a, x :: l, b => (L.next a = x ∧ L.prev x = a) ∧ Path L x l b

/-- The entries that follow `h`, until `h` is reached again. -/
def Ring (L : Links α) (h : α) (l : List α) : Prop :=
  (h :: l).Nodup ∧ L.Path h l h

variable {L : Links α} {l : List α} {a : α} {b x y h new next prev : α} {m : List α}

lemma path_append : L.Path a (l ++ x :: m) b ↔ L.Path a l x ∧ L.Path x m b := by
  induction l generalizing a with
  | nil => exact Iff.rfl
  | cons y l ih =>
    have hy := ih (a := y)
    exact (and_congr_right fun _ => hy).trans and_assoc.symm

variable {M : Links α}

lemma Path.congr (h : L.Path a l b) (hnext : ∀ x ∈ a :: l, M.next x = L.next x)
    (hprev : ∀ x ∈ b :: l, M.prev x = L.prev x) : M.Path a l b := by
  induction l generalizing a with
  | nil =>
    refine ⟨?_, ?_⟩
    · rw [hnext a mem_cons_self]
      exact h.1
    · rw [hprev b mem_cons_self]
      exact h.2
  | cons y l ih =>
    obtain ⟨⟨hay, hya⟩, hrest⟩ := h
    refine ⟨⟨?_, ?_⟩, ih hrest (fun x hx => hnext x (mem_cons_of_mem a hx)) ?_⟩
    · rw [hnext a mem_cons_self]
      exact hay
    · rw [hprev y (mem_cons_of_mem b mem_cons_self)]
      exact hya
    · intro x hx
      rcases mem_cons.mp hx with rfl | hx
      · exact hprev x mem_cons_self
      · exact hprev x (mem_cons_of_mem b (mem_cons_of_mem y hx))

lemma Path.prev_last (h : L.Path a (l ++ [y]) b) : L.prev b = y := (path_append.mp h).2.2

lemma ring_nil : L.Ring a [] ↔ L.next a = a ∧ L.prev a = a :=
  ⟨fun h => h.2, fun h => ⟨nodup_cons.mpr ⟨not_mem_nil, nodup_nil⟩, h⟩⟩

lemma ring_alone (a : α) : (alone : Links α).Ring a [] := ring_nil.mpr ⟨rfl, rfl⟩

lemma Ring.next_head (hr : L.Ring h (x :: l)) : L.next h = x := hr.2.1.1

lemma Ring.next_at (hr : L.Ring h (l ++ a :: x :: m)) : L.next a = x :=
  (path_append.mp hr.2).2.1.1

lemma Ring.next_last (hr : L.Ring h (l ++ [a])) : L.next a = h := (path_append.mp hr.2).2.1

lemma Ring.not_mem (hr : L.Ring h l) : h ∉ l := (nodup_cons.mp hr.1).1

lemma Ring.rotate (h : L.Ring a (l ++ b :: m)) : L.Ring b (m ++ a :: l) := by
  obtain ⟨hnodup, hpath⟩ := h
  obtain ⟨hab, hba⟩ := path_append.mp hpath
  refine ⟨?_, path_append.mpr ⟨hba, hab⟩⟩
  have hperm : (a :: l ++ b :: m).Perm (b :: m ++ a :: l) := perm_append_comm
  exact hperm.nodup_iff.mp hnodup

lemma Ring.at_mem (hr : L.Ring h l) (hx : x ∈ h :: l) :
    ∃ m, L.Ring x m ∧ (x :: m).Perm (h :: l) := by
  rcases mem_cons.mp hx with rfl | hx
  · exact ⟨l, hr, List.Perm.refl _⟩
  · obtain ⟨l1, l2, rfl⟩ := append_of_mem hx
    have hperm : (x :: l2 ++ h :: l1).Perm (h :: l1 ++ x :: l2) := perm_append_comm
    exact ⟨l2 ++ h :: l1, hr.rotate, hperm⟩

lemma Ring.mem_prev (h : L.Ring x l) : L.prev x ∈ x :: l := by
  rcases eq_nil_or_concat' l with rfl | ⟨l, y, rfl⟩
  · rw [h.2.2]
    exact mem_cons_self
  · rw [h.2.prev_last]
    exact mem_cons_of_mem x (mem_append_right l mem_cons_self)

lemma Ring.mem_next (h : L.Ring x l) : L.next x ∈ x :: l := by
  cases l with
  | nil =>
    rw [h.2.1]
    exact mem_cons_self
  | cons y l =>
    rw [h.next_head]
    exact mem_cons_of_mem x mem_cons_self

lemma ring_nil_congr (h : L.Ring a []) (hnext : M.next a = L.next a) (hprev : M.prev a = L.prev a)
    : M.Ring a [] :=
  ring_nil.mpr ⟨hnext.trans (ring_nil.mp h).1, hprev.trans (ring_nil.mp h).2⟩

def Cycle (L : Links α) : List α → Prop
  | [] => True
  | a :: l => L.Ring a l

lemma Cycle.ring_at (h : L.Cycle (l ++ a :: m)) : L.Ring a (m ++ l) := by
  cases l with
  | nil =>
    rw [append_nil]
    exact h
  | cons x l => exact Ring.rotate h

lemma Ring.cycle (h : L.Ring a (m ++ l)) : L.Cycle (l ++ a :: m) := by
  cases l with
  | nil =>
    rw [append_nil] at h
    exact h
  | cons x l => exact h.rotate

lemma Cycle.nodup (h : L.Cycle l) : l.Nodup := by
  cases l with
  | nil => exact nodup_nil
  | cons a l => exact h.1

lemma Cycle.next_at (h : L.Cycle (l ++ a :: b :: m)) : L.next a = b := h.ring_at.next_head

lemma Cycle.next_last (hl : l ++ [a] = b :: m) (h : L.Cycle (l ++ [a])) : L.next a = b := by
  have hr : L.Ring a l := h.ring_at
  cases l with
  | nil =>
    obtain ⟨rfl, -⟩ := List.cons.inj hl
    exact (ring_nil.mp hr).1
  | cons x l =>
    obtain ⟨rfl, -⟩ := List.cons.inj hl
    exact hr.next_head

variable [DecidableEq α]

/-- `__list_add` -/
def addBetween (L : Links α) (new prev next : α) : Links α :=
  { next := update (update L.next new next) prev new
    prev := update (update L.prev next new) new prev }

/-- `list_add` -/
def add (L : Links α) (new head : α) : Links α :=
  L.addBetween new head (L.next head)

/-- `list_add_tail` -/
def addTail (L : Links α) (new head : α) : Links α :=
  L.addBetween new (L.prev head) head

/-- `__list_del` -/
def delBetween (L : Links α) (prev next : α) : Links α :=
  { next := update L.next prev next
    prev := update L.prev next prev }

/-- `INIT_LIST_HEAD` -/
def init (L : Links α) (a : α) : Links α :=
  { next := update L.next a a
    prev := update L.prev a a }

/-- `list_del_init` -/
def delInit (L : Links α) (entry : α) : Links α :=
  (L.delBetween (L.prev entry) (L.next entry)).init entry

/-- `list_empty` -/
def isEmpty (L : Links α) (head : α) : Bool :=
  decide (L.next head = head)

lemma isEmpty_of_ring_nil (h : L.Ring a []) : L.isEmpty a = true :=
  decide_eq_true (ring_nil.mp h).1

lemma isEmpty_of_ring_cons (h : L.Ring a (x :: l)) : L.isEmpty a = false := by
  refine decide_eq_false ?_
  rw [h.next_head]
  rintro rfl
  exact h.not_mem mem_cons_self

lemma addBetween_next (hp : x ≠ prev) (hn : x ≠ new) :
    (L.addBetween new prev next).next x = L.next x := by
  exact (update_of_ne hp _ _).trans (update_of_ne hn _ _)

lemma addBetween_prev (hx : x ≠ next) (hn : x ≠ new) :
    (L.addBetween new prev next).prev x = L.prev x := by
  exact (update_of_ne hn _ _).trans (update_of_ne hx _ _)

lemma addBetween_path (hp : prev ≠ new) (hn : next ≠ new) :
    (L.addBetween new prev next).Path prev [new] next := by
  refine ⟨⟨?_, ?_⟩, ?_, ?_⟩
  · exact update_self _ _ _
  · exact update_self _ _ _
  · exact (update_of_ne (Ne.symm hp) _ _).trans (update_self _ _ _)
  · exact (update_of_ne hn _ _).trans (update_self _ _ _)

omit [DecidableEq α] in
lemma ends_apart (h : (x :: (l ++ [y])).Nodup) : y ∉ x :: l ∧ x ∉ y :: l := by
  refine ⟨?_, fun hx => (nodup_cons.mp h).1 ((perm_append_singleton y l).mem_iff.mpr hx)⟩
  rw [← cons_append, nodup_append] at h
  exact fun hy => h.2.2 y hy y mem_cons_self rfl

lemma Ring.addTail (h : L.Ring x l) (hnew : new ∉ x :: l) :
    (L.addTail new x).Ring x (l ++ [new]) := by
  obtain ⟨hnodup, hpath⟩ := h
  have hxnew : x ≠ new := fun heq => hnew (heq ▸ mem_cons_self)
  refine ⟨?_, ?_⟩
  · have hperm : ([new] ++ (x :: l)).Perm ((x :: l) ++ [new]) := perm_append_comm
    exact hperm.nodup_iff.mp (nodup_cons.mpr ⟨hnew, hnodup⟩)
  -- the entry before the head is the head itself or the last one of the list
  · rcases eq_nil_or_concat' l with rfl | ⟨l, y, rfl⟩
    · rw [Links.addTail, hpath.2]
      exact addBetween_path hxnew hxnew
    · rw [Links.addTail, hpath.prev_last]
      obtain ⟨hy, hx⟩ := ends_apart hnodup
      have hynew : y ≠ new := by
        rintro rfl
        exact hnew (mem_cons_of_mem x (mem_append_right l mem_cons_self))
      have hl : ∀ z ∈ l, z ≠ new := by
        rintro z hz rfl
        exact hnew (mem_cons_of_mem x (mem_append_left [y] hz))
      have hxl : ∀ z ∈ x :: l, z ≠ new := forall_mem_cons.mpr ⟨hxnew, hl⟩
      have hyl : ∀ z ∈ y :: l, z ≠ new := forall_mem_cons.mpr ⟨hynew, hl⟩
      rw [append_assoc]
      refine path_append.mpr ⟨(path_append.mp hpath).1.congr ?_ ?_, addBetween_path hynew hxnew⟩
      · exact fun z hz => addBetween_next (fun heq => hy (heq ▸ hz)) (hxl z hz)
      · exact fun z hz => addBetween_prev (fun heq => hx (heq ▸ hz)) (hyl z hz)

lemma Ring.add_eq_addTail (hr : L.Ring h (x :: l)) : L.add new h = L.addTail new x := by
  rw [Links.add, Links.addTail, hr.next_head, hr.2.1.2]

lemma delBetween_next (hp : x ≠ prev) : (L.delBetween prev next).next x = L.next x :=
  update_of_ne hp _ _

lemma delBetween_prev (hn : x ≠ next) : (L.delBetween prev next).prev x = L.prev x :=
  update_of_ne hn _ _

lemma delBetween_next_self : (L.delBetween prev next).next prev = next := update_self _ _ _

lemma delBetween_prev_self : (L.delBetween prev next).prev next = prev := update_self _ _ _

lemma init_next (h : x ≠ a) : (L.init a).next x = L.next x := update_of_ne h _ _

lemma init_prev (h : x ≠ a) : (L.init a).prev x = L.prev x := update_of_ne h _ _

lemma ring_delInit_self (L : Links α) (a : α) : (L.delInit a).Ring a [] :=
  ring_nil.mpr ⟨update_self _ _ _, update_self _ _ _⟩

lemma Ring.delInit (h : L.Ring a (y :: l)) : (L.delInit a).Ring y l := by
  obtain ⟨hnodup, hpath⟩ := h
  obtain ⟨hay, hnodup'⟩ := nodup_cons.mp hnodup
  have hya : y ≠ a := fun heq => hay (heq ▸ mem_cons_self)
  refine ⟨hnodup', ?_⟩
  rw [Links.delInit, hpath.1.1]
  rcases eq_nil_or_concat' l with rfl | ⟨l, z, rfl⟩
  -- two entries: the other one is left alone
  · rw [hpath.2.2]
    refine ⟨?_, ?_⟩
    · rw [init_next hya, delBetween_next_self]
    · rw [init_prev hya, delBetween_prev_self]
  · have hlast : L.prev a = z := Path.prev_last (l := y :: l) hpath
    rw [hlast]
    have hza : z ≠ a := by
      rintro rfl
      exact hay (mem_cons_of_mem y (mem_append_right l mem_cons_self))
    have hla : ∀ x ∈ l, x ≠ a := by
      rintro x hx rfl
      exact hay (mem_cons_of_mem y (mem_append_left [z] hx))
    obtain ⟨hz, hy⟩ := ends_apart hnodup'
    have hyl : ∀ x ∈ y :: l, x ≠ a := forall_mem_cons.mpr ⟨hya, hla⟩
    have hzl : ∀ x ∈ z :: l, x ≠ a := forall_mem_cons.mpr ⟨hza, hla⟩
    refine path_append.mpr ⟨(path_append.mp hpath.2).1.congr ?_ ?_, ?_, ?_⟩
    · intro x hx
      have hxz : x ≠ z := fun heq => hz (heq ▸ hx)
      rw [init_next (hyl x hx), delBetween_next hxz]
    · intro x hx
      have hxy : x ≠ y := fun heq => hy (heq ▸ hx)
      rw [init_prev (hzl x hx), delBetween_prev hxy]
    · rw [init_next hza, delBetween_next_self]
    · rw [init_prev hya, delBetween_prev_self]

lemma Ring.delInit_at (hr : L.Ring h (l ++ a :: m)) : (L.delInit a).Ring h (l ++ m) := by
  have hrot : L.Ring a (m ++ h :: l) := hr.rotate
  cases m with
  | nil =>
    rw [append_nil]
    exact Ring.delInit hrot
  | cons y m =>
    have hdel : (L.delInit a).Ring y (m ++ h :: l) := Ring.delInit hrot
    exact hdel.rotate

lemma Cycle.addTail_at (h : L.Cycle (l ++ x :: m)) (hnew : new ∉ l ++ x :: m)
    : (L.addTail new x).Cycle (l ++ new :: x :: m) := by
  have hperm : (l ++ x :: m).Perm (x :: m ++ l) := perm_append_comm
  have hadd := h.ring_at.addTail fun hmem => hnew (hperm.mem_iff.mpr hmem)
  rw [append_assoc] at hadd
  have hcycle := hadd.cycle
  rw [append_assoc] at hcycle
  exact hcycle

lemma Ring.addTail_at (hr : L.Ring h (l ++ x :: m)) (hnew : new ∉ h :: (l ++ x :: m))
    : (L.addTail new x).Ring h (l ++ new :: x :: m) :=
  Cycle.addTail_at (l := h :: l) hr hnew

lemma Cycle.delInit_at (h : L.Cycle (l ++ a :: m)) : (L.delInit a).Cycle (l ++ m) := by
  have hr : L.Ring a (m ++ l) := h.ring_at
  cases m with
  | nil =>
    rw [append_nil]
    cases l with
    | nil => trivial
    | cons x l => exact Ring.delInit hr
  | cons y m =>
    have hdel : (L.delInit a).Ring y (m ++ l) := Ring.delInit hr
    exact hdel.cycle

lemma addTail_frame (hr : L.Ring h l) (hx : x ∈ h :: l) (ha : a ∉ h :: l) (hnew : a ≠ new)
    (halone : L.Ring a []) : (L.addTail new x).Ring a [] := by
  obtain ⟨m, hm, hperm⟩ := hr.at_mem hx
  have hmem : ∀ y ∈ x :: m, a ≠ y := fun y hy heq => ha (hperm.mem_iff.mp (heq ▸ hy))
  exact ring_nil_congr halone (addBetween_next (hmem _ hm.mem_prev) hnew)
    (addBetween_prev (hmem x mem_cons_self) hnew)

lemma delInit_frame (hr : L.Ring h l) (hx : x ∈ h :: l) (ha : a ∉ h :: l) (halone : L.Ring a [])
    : (L.delInit x).Ring a [] := by
  obtain ⟨m, hm, hperm⟩ := hr.at_mem hx
  have hmem : ∀ y ∈ x :: m, a ≠ y := fun y hy heq => ha (hperm.mem_iff.mp (heq ▸ hy))
  have hax : a ≠ x := hmem x mem_cons_self
  refine ring_nil_congr halone ?_ ?_
  · rw [delInit, init_next hax, delBetween_next (hmem _ hm.mem_prev)]
  · rw [delInit, init_prev hax, delBetween_prev (hmem _ hm.mem_next)]

lemma Cycle.addTail_frame (hc : L.Cycle l) (hx : x ∈ l) (ha : a ∉ l) (hnew : a ≠ new)
    (halone : L.Ring a []) : (L.addTail new x).Ring a [] := by
  cases l with
  | nil => cases hx
  | cons h l => exact Links.addTail_frame hc hx ha hnew halone

lemma Cycle.delInit_frame (hc : L.Cycle l) (hx : x ∈ l) (ha : a ∉ l) (halone : L.Ring a [])
    : (L.delInit x).Ring a [] := by
  cases l with
  | nil => cases hx
  | cons h l => exact Links.delInit_frame hc hx ha halone

lemma delInit_of_alone (h : L.Ring a []) : L.delInit a = L := by
  obtain ⟨hnext, hprev⟩ := ring_nil.mp h
  have hn : update L.next a a = L.next := update_eq_self_iff.mpr hnext.symm
  have hp : update L.prev a a = L.prev := update_eq_self_iff.mpr hprev.symm
  rw [delInit, hnext, hprev, delBetween, hn, hp, init, hn, hp]

end Links
