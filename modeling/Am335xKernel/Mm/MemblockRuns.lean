import Am335xKernel.Lib.Refinement
import Am335xKernel.Mm.MemblockDouble

/-!
# Sequences of calls

The four calls, in any order, with the slab allocator coming up and resizing being allowed in
between. Beside the arrays a run carries the sets that the calls have asked for.

`__memblock_remove` looks at a region that begins where the range ends, and takes it for one whose
top has to be trimmed: its size becomes minus the size of the range. Calls that do not do that are
`Allowed`.
-/

namespace Am335x.Memblock

open Function

inductive Call where
  | add (kmalloc : ℕ → Option ℕ) (base size : ℕ)
  | remove (kmalloc : ℕ → Option ℕ) (base size : ℕ)
  | reserve (kmalloc : ℕ → Option ℕ) (base size : ℕ)
  | free (kmalloc : ℕ → Option ℕ) (base size : ℕ)
  /-- `slab_is_available()` from now on. -/
  | slabUp
  /-- `memblock_can_resize = 1`, as `memblock_analyze` leaves it. -/
  | allowResize
  /-- `memblock_set_current_limit`. -/
  | setLimit (limit : ℕ)

def Call.run (s : State) : Call → Result
  | .add kmalloc base size => memblockAdd kmalloc base size s
  | .remove kmalloc base size => memblockRemove kmalloc base size s
  | .reserve kmalloc base size => memblockReserve kmalloc base size s
  | .free kmalloc base size => memblockFree kmalloc base size s
  | .slabUp => .ok { s with slab := true }
  | .allowResize => .ok { s with canResize := true }
  | .setLimit limit => .ok { s with currentLimit := limit }

def Call.asks (given : Kind → Set ℕ) : Call → Kind → Set ℕ
  | .add _ base size => update given .memory (given .memory ∪ Set.Ico base (base + size))
  | .remove _ base size => update given .memory (given .memory \ Set.Ico base (base + size))
  | .reserve _ base size => update given .reserved (given .reserved ∪ Set.Ico base (base + size))
  | .free _ base size => update given .reserved (given .reserved \ Set.Ico base (base + size))
  | _ => given

/-- The machine with the sets that were asked for. The result is 0 or -1; a `BUG` ends the
run. -/
def call : Component (State × (Kind → Set ℕ)) Call ℤ
  | (s, given), c =>
    match c.run s with
    | .ok s' => some ((s', c.asks given), 0)
    | .error s' => some ((s', given), -1)
    | .bug => none
    | .deep => none

def InRange (base size : ℕ) : Prop := base + size < 2 ^ 32

def EndsClear (s : State) (k : Kind) (base size : ℕ) : Prop :=
  ∀ r ∈ (s.type k).regions, 0 < r.size → r.base ≠ base + size

/-- The calls: what is added is not empty, what is removed ends clear of the next region, and no
array takes a place of its own out of the memory. -/
def Allowed (t : State × (Kind → Set ℕ)) : Call → Prop
  | .add _ base size => InRange base size ∧ 0 < size ∧ Spare t.1 .memory
  | .reserve _ base size => InRange base size ∧ 0 < size ∧ Spare t.1 .reserved
  | .remove _ base size => InRange base size ∧ EndsClear t.1 .memory base size ∧ Spare t.1 .memory
  | .free _ base size => InRange base size ∧ EndsClear t.1 .reserved base size ∧ Spare t.1 .reserved
  | _ => True

def Valid (t : State × (Kind → Set ℕ)) : Prop :=
  Inv t.1 ∧ ∀ k, covered (t.1.type k).regions = t.2 k

/-- What a call comes to: what it is asked to do; or nothing, without a slot for another region. -/
def Call.Ends (t : State × (Kind → Set ℕ)) (c : Call) : Prop :=
  (∃ s', c.run t.1 = .ok s' ∧ Valid (s', c.asks t.2)) ∨
    c.run t.1 = .error t.1 ∧ ∃ k, (t.1.type k).regions.length + 1 = (t.1.type k).max

section

variable {k : Kind} {s : State} {given : Kind → Set ℕ} {target : Set ℕ} {c : Call}

lemma Answered.ends (h : Answered k s target (c.run s)) (hvalid : Valid (s, given))
    (hasks : c.asks given = update given k target) : c.Ends (s, given) := by
  have hcov : (fun k => covered (s.type k).regions) = given := funext hvalid.2
  rcases h with ⟨s', hrun, hinv, hsets⟩ | ⟨hrun, hfull⟩
  · refine .inl ⟨s', hrun, hinv, fun k' => ?_⟩
    rw [hsets, hcov, hasks]
  · exact .inr ⟨hrun, k, hfull⟩

/-- **One call** returns 0 and does what it is asked to, or returns -1 and does nothing. -/
lemma ends_of_allowed (hvalid : Valid (s, given)) (hallowed : Allowed (s, given) c) :
    c.Ends (s, given) := by
  have hinv : Inv s := hvalid.1
  have hgiven : ∀ k, covered (s.type k).regions = given k := hvalid.2
  have hadd : ∀ {k base size} (kmalloc : ℕ → Option ℕ), InRange base size → 0 < size → Spare s k →
      Answered k s (given k ∪ Set.Ico base (base + size))
        (addRegionWith (grow kmalloc) k base size s) := by
    intro k base size kmalloc hfit hpos hspare
    rw [← hgiven k]
    exact (addRegionWith_settles _ (hinv.regions k) (hinv.room k) hfit hpos).answered hinv hspare
  have hremove : ∀ {k base size} (kmalloc : ℕ → Option ℕ), InRange base size →
      EndsClear s k base size → Spare s k → Answered k s (given k \ Set.Ico base (base + size))
        (memblockRemoveWith (grow kmalloc) k base size s) := by
    intro k base size kmalloc hfit hclear hspare
    rw [← hgiven k]
    exact (memblockRemoveWith_settles _ (hinv.regions k) (hinv.room k) hfit hclear).answered hinv
      hspare
  cases c with
  | add kmalloc base size =>
    exact Answered.ends (hadd kmalloc hallowed.1 hallowed.2.1 hallowed.2.2) hvalid rfl
  | remove kmalloc base size =>
    exact Answered.ends (hremove kmalloc hallowed.1 hallowed.2.1 hallowed.2.2) hvalid rfl
  | reserve kmalloc base size =>
    refine Answered.ends (k := .reserved) ?_ hvalid rfl
    rw [Call.run, memblockReserve, if_neg hallowed.2.1.ne']
    exact hadd kmalloc hallowed.1 hallowed.2.1 hallowed.2.2
  | free kmalloc base size =>
    exact Answered.ends (hremove kmalloc hallowed.1 hallowed.2.1 hallowed.2.2) hvalid rfl
  | slabUp => exact .inl ⟨_, rfl, ⟨hinv.regions, hinv.room⟩, hvalid.2⟩
  | allowResize => exact .inl ⟨_, rfl, ⟨hinv.regions, hinv.room⟩, hvalid.2⟩
  | setLimit limit => exact .inl ⟨_, rfl, ⟨hinv.regions, hinv.room⟩, hvalid.2⟩

end

def start (limit : ℕ) : State × (Kind → Set ℕ) := (memblockInit limit, fun _ => ∅)

lemma reach_valid {limit : ℕ} {t : State × (Kind → Set ℕ)}
    (h : call.Reach Allowed (start limit) t) : Valid t := by
  refine h.invariant ⟨⟨fun _ => .inl rfl, fun _ => show 1 < 128 by decide⟩,
    fun _ => covered_filler⟩ ?_
  rintro ⟨s, given⟩ t' c ret hvalid hallowed hcall
  rcases ends_of_allowed hvalid hallowed with ⟨s', hrun, hvalid'⟩ | ⟨hrun, -⟩
  · rw [call, hrun] at hcall
    cases hcall
    exact hvalid'
  · rw [call, hrun] at hcall
    cases hcall
    exact hvalid

/-- In every state that calls lead to, each array is sorted, with gaps between its regions and none
of them empty, or it is the filler; it covers the addresses asked for. A call does what is asked of
it, or it returns an error, for want of a slot, and changes nothing. -/
theorem memblock_sets {limit : ℕ} {t : State × (Kind → Set ℕ)}
    (hreach : call.Reach Allowed (start limit) t) :
    (∀ k, Regions (t.1.type k).regions ∧ covered (t.1.type k).regions = t.2 k) ∧ ∀ c, Allowed t c →
        (∃ s', c.run t.1 = .ok s' ∧ ∀ k, covered (s'.type k).regions = c.asks t.2 k) ∨
          c.run t.1 = .error t.1 ∧ ∃ k, (t.1.type k).regions.length + 1 = (t.1.type k).max := by
  have hvalid := reach_valid hreach
  refine ⟨fun k => ⟨hvalid.1.regions k, hvalid.2 k⟩, fun c hallowed => ?_⟩
  exact (ends_of_allowed hvalid hallowed).imp_left fun ⟨s', hrun, _, hsets⟩ => ⟨s', hrun, hsets⟩

/-- A range is added, and one is cut out of it. -/
theorem memblock_sets_split : ∃ t, call.Reach Allowed (start 0) t ∧
      (t.1.type .memory).regions = [⟨100, 20⟩, ⟨130, 70⟩] ∧
      covered (t.1.type .memory).regions = t.2 .memory := by
  have hadd : Allowed (start 0) (.add (fun _ => none) 100 100) :=
    ⟨show 100 + 100 < 2 ^ 32 by decide, by decide, .inr (.inl rfl)⟩
  have hfirst : call.Reach Allowed (start 0) ((memblockInit 0).setRegions .memory [⟨100, 100⟩],
      Call.asks (fun _ => ∅) (.add (fun _ => none) 100 100)) := .call .start hadd rfl
  have hclear : ∀ r ∈ [(⟨100, 100⟩ : Region)], 0 < r.size → r.base ≠ 120 + 10 := by decide
  have hremove : Allowed ((memblockInit 0).setRegions .memory [⟨100, 100⟩],
      Call.asks (fun _ => ∅) (.add (fun _ => none) 100 100)) (.remove (fun _ => none) 120 10) :=
    ⟨show 120 + 10 < 2 ^ 32 by decide, hclear, .inr (.inl rfl)⟩
  have hreach := Component.Reach.call hfirst hremove rfl
  exact ⟨_, hreach, rfl, ((memblock_sets hreach).1 .memory).2⟩

/-- Counterexamples: a range that ends where a region begins is removed, and the region gets a
size close to 2^32; an empty range is added, and the array has an empty region beside another. -/
theorem remove_up_to_region :
    (∃ t, call.run (start 0) [.add (fun _ => none) 100 100, .remove (fun _ => none) 50 50] =
        some (t, [0, 0]) ∧ (t.1.type .memory).regions = [⟨100, 4294967246⟩] ∧
        ¬ Regions (t.1.type .memory).regions) ∧
      ∃ t, call.run (start 0) [.add (fun _ => none) 100 100, .add (fun _ => none) 300 0] =
        some (t, [0, 0]) ∧ (t.1.type .memory).regions = [⟨100, 100⟩, ⟨300, 0⟩] ∧
        ¬ Regions (t.1.type .memory).regions := by
  constructor
  · refine ⟨_, rfl, rfl, ?_⟩
    rintro (hfill | ⟨-, hs⟩)
    · cases hfill
    · exact absurd (hs.fit ⟨100, 4294967246⟩ List.mem_cons_self) (by decide)
  · refine ⟨_, rfl, rfl, ?_⟩
    rintro (hfill | ⟨-, hs⟩)
    · cases hfill
    · cases (hs.pos ⟨300, 0⟩ (List.mem_cons_of_mem _ List.mem_cons_self))

end Am335x.Memblock
