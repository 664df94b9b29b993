import Am335xKernel.Kernel.RadixTreeRuns

/-!
# The preloaded nodes of `lib/radix-tree.c`

After `radix_tree_preload` a CPU has `RADIX_TREE_MAX_PATH` nodes in store, and an
insertion into a tree without `__GFP_WAIT` takes its nodes from there. Here an
operation gives the number of nodes left, and `none` if the slab has to be asked
for one: then it may fail.

A path from the root down to an item has at most `RADIX_TREE_MAX_PATH` nodes. But an
insertion that makes the tree higher needs nodes above the old root besides those of
the path.
-/

namespace Am335x.RadixTree

open Function Nat

variable {α : Type*} {root root' : Root α} {h index nr n : ℕ} {height : ℕ}

/-- `radix_tree_node_alloc`, with the preloaded nodes. -/
def nodeAlloc : ℕ → Option ℕ
  | 0 => none
  | nr + 1 => some nr

/-- The allocations of `n` passes of the loop of `radix_tree_extend`. -/
def growAlloc : ℕ → ℕ → Option ℕ
  | 0, nr => some nr
  | n + 1, nr => (nodeAlloc nr).bind (growAlloc n)

/-- The allocations of `radix_tree_extend`. -/
def Root.extendAlloc (root : Root α) (index nr : ℕ) : Option ℕ :=
  if root.rnode.isNull then some nr
  else growAlloc (heightFor index maxPath (root.height + 1) - root.height) nr

/-- The slot that the loop of `radix_tree_insert` goes to; a new node has none. -/
def Ptr.slot (off : ℕ) : Ptr α → Ptr α
  | node _ _ slots _ => slots off
  | _ => null

/-- The allocations of the loop of `radix_tree_insert` with `h` levels left. -/
def insertAlloc (index : ℕ) : ℕ → Ptr α → ℕ → Option ℕ
  | 0, _, nr => some nr
  | h + 1, p, nr =>
    (if p.isNull then nodeAlloc nr else some nr).bind
      (insertAlloc index h (p.slot (offset h index)))

/-- The allocations of `radix_tree_insert`. -/
def Root.insertPreloaded (root : Root α) (index nr : ℕ) : Option ℕ :=
  if maxindex root.height < index then
    (root.extendAlloc index nr).bind fun nr =>
      (root.extend index).bind fun root => insertAlloc index root.height root.rnode nr
  else insertAlloc index root.height root.rnode nr

lemma growAlloc_eq (n nr : ℕ) : growAlloc n nr = if n ≤ nr then some (nr - n) else none := by
  induction n generalizing nr with
  | zero => rfl
  | succ n ih =>
    cases nr with
    | zero => rfl
    | succ nr =>
      show growAlloc n nr = _
      rw [ih nr, Nat.add_sub_add_right]
      simp only [Nat.add_le_add_iff_right]

lemma growAlloc_add (m n nr : ℕ) : growAlloc (m + n) nr = (growAlloc m nr).bind (growAlloc n) := by
  induction m generalizing nr with
  | zero => rw [zero_add, growAlloc, Option.bind_some]
  | succ m ih =>
    cases nr with
    | zero =>
      rw [add_right_comm]
      rfl
    | succ nr =>
      rw [add_right_comm]
      exact ih nr

/-- A branch that is not there yet takes a node for each level. -/
lemma insertAlloc_null (index h nr : ℕ) :
    insertAlloc index h (.null : Ptr α) nr = growAlloc h nr := by
  induction h generalizing nr with
  | zero => rfl
  | succ h ih => exact congrArg (nodeAlloc nr).bind (funext ih)

lemma insertAlloc_isSome (p : Ptr α) (hle : h ≤ nr) : (insertAlloc index h p nr).isSome := by
  induction h generalizing p nr with
  | zero => rfl
  | succ h ih =>
    obtain ⟨nr, rfl⟩ : ∃ m, nr = m + 1 := ⟨nr - 1, by omega⟩
    rw [insertAlloc]
    split_ifs
    · exact ih _ (le_of_succ_le_succ hle)
    · exact ih _ (by omega)

/-- The root node has nothing outside its first slot, as after a pass of the loop
of `radix_tree_extend`. -/
def Ptr.OnlyFirst (p : Ptr α) : Prop := p.isNull = false ∧ ∀ off ≠ 0, p.slot off = .null

lemma Root.onlyFirst_of_grow (hgrow : root.grow = some root') : root'.rnode.OnlyFirst := by
  unfold Root.grow Ptr.alloc at hgrow
  split_ifs at hgrow
  cases hgrow
  refine ⟨rfl, fun off hoff => ?_⟩
  show update (fun _ => Ptr.null) 0 root.rnode off = .null
  exact update_of_ne hoff _ _

lemma Root.onlyFirst_of_growTo (hgrow : root.growTo n = some root')
    (hfirst : n = 0 → root.rnode.OnlyFirst) : root'.rnode.OnlyFirst := by
  induction n generalizing root with
  | zero =>
    cases hgrow
    exact hfirst rfl
  | succ n ih =>
    obtain ⟨root1, hstep, hrest⟩ := Option.bind_eq_some_iff.mp hgrow
    exact ih hrest fun _ => onlyFirst_of_grow hstep

/-- The height that is found is the lowest one, from where the search begins. -/
lemma heightFor_le {fuel height : ℕ} (hindex : index < 2 ^ 32) (hle : height ≤ h)
    (hreach : index < mapSize ^ h) : heightFor index fuel height ≤ h := by
  induction fuel generalizing height with
  | zero => exact hle
  | succ fuel ih =>
    unfold heightFor
    split_ifs with hlow
    · rw [Root.maxindex_lt_iff hindex] at hlow
      exact ih (lt_of_le_of_ne hle (by rintro rfl; omega))
    · exact hle

/-- An insertion that makes a used tree higher takes the nodes above the old root,
and a node for each level of a new branch below the new one. -/
lemma Root.Inv.insertPreloaded_extend (hinv : root.Inv) (i : Index) (nr : ℕ)
    (hused : root.rnode.isNull = false) (hlow : mapSize ^ root.height ≤ (i : ℕ))
    (hlt : root.height + 1 ≤ maxPath)
    (hheight : heightFor i maxPath (root.height + 1) = height + 1) :
    root.insertPreloaded i nr = growAlloc (height + 1 - root.height + height) nr := by
  obtain ⟨hge, hle, hreach⟩ := heightFor_spec i.isLt hlt (le_add_left maxPath (root.height + 1))
  rw [hheight] at hge hle hreach
  obtain ⟨root', hgrow, -, hheight', -⟩ := hinv.growTo (height + 1 - root.height) hused (by omega)
  obtain ⟨hused', hslot⟩ := onlyFirst_of_growTo hgrow (by omega)
  -- the slot of the new root node on the way to such an index is not the first one
  have hoff : offset height i ≠ 0 := by
    intro hzero
    have hlt : (i : ℕ) < mapSize ^ height := DigitPath.lt_of_digit_eq_zero hreach hzero
    rcases eq_or_lt_of_le (show root.height ≤ height by omega) with heq | hgt
    · rw [heq] at hlow
      omega
    · have hmin : heightFor i maxPath (root.height + 1) ≤ height := heightFor_le i.isLt hgt hlt
      omega
  have hbranch (nr : ℕ) : insertAlloc i root'.height root'.rnode nr = growAlloc height nr := by
    rw [hheight', Nat.add_sub_cancel' (by omega), insertAlloc, if_neg (by simp [hused']),
      hslot _ hoff]
    exact insertAlloc_null _ _ _
  have hextend : root.extend i = some root' := by
    unfold Root.extend
    rw [if_neg (by simp [hused]), hheight, hgrow]
  rw [insertPreloaded, if_pos ((maxindex_lt_iff i.isLt).mpr hlow), extendAlloc,
    if_neg (by simp [hused]), hheight, hextend, growAlloc_add]
  exact congrArg _ (funext hbranch)

/-- **The preloaded nodes are enough for an insertion exactly if the tree is empty, or
the index is below `64 ^ ((height + 7) / 2)`.** -/
theorem preload_suffices_iff (root : Root α) (i : Index) (hinv : root.Inv) :
    (root.insertPreloaded i maxPath).isSome ↔
      root.rnode.isNull ∨ (i : ℕ) < mapSize ^ ((root.height + 7) / 2) := by
  have hmax : maxPath = 6 := rfl
  have hheight := hinv.height_le
  have hpow : mapSize ^ root.height ≤ mapSize ^ ((root.height + 7) / 2) :=
    Nat.pow_le_pow_right (by decide) (by omega)
  by_cases hlow : mapSize ^ root.height ≤ (i : ℕ)
  · have hlt : root.height + 1 ≤ maxPath := by
      refine lt_of_le_of_ne hheight fun heq => ?_
      rw [heq] at hlow
      exact absurd (i.isLt.trans_le (by decide)) (not_lt.mpr hlow)
    obtain ⟨hge, hle, hreach⟩ :=
      Root.heightFor_spec i.isLt hlt (le_add_left maxPath (root.height + 1))
    cases hused : root.rnode.isNull with
    | true =>
      -- only the height is set, and the path is all that is new
      rw [Root.insertPreloaded, if_pos ((Root.maxindex_lt_iff i.isLt).mpr hlow),
        Root.extendAlloc, Root.extend, if_pos hused, if_pos hused]
      exact iff_of_true (insertAlloc_isSome _ hle) (.inl rfl)
    | false =>
      obtain ⟨height, hh⟩ : ∃ height, heightFor i maxPath (root.height + 1) = height + 1 :=
        ⟨heightFor i maxPath (root.height + 1) - 1, by omega⟩
      rw [hinv.insertPreloaded_extend i maxPath hused hlow hlt hh, growAlloc_eq, Option.isSome_ite]
      constructor
      · intro hnodes
        refine .inr (hreach.trans_le (Nat.pow_le_pow_right (by decide) ?_))
        omega
      · rintro (hnull | hindex)
        · cases hnull
        · have hmin : heightFor i maxPath (root.height + 1) ≤ (root.height + 7) / 2 :=
            heightFor_le i.isLt (by omega) hindex
          omega
  · rw [Root.insertPreloaded, if_neg (by rwa [Root.maxindex_lt_iff i.isLt])]
    exact iff_of_true (insertAlloc_isSome _ hheight) (.inr (by omega))

/-- A tree with an item at 0 alone, and the highest index for which they are enough. -/
theorem preload_suffices_single :
    ((⟨0, fun _ => false, .item 'a', false, true⟩ : Root Char).insertPreloaded
      (262143 : Index) maxPath).isSome :=
  (preload_suffices_iff ⟨0, fun _ => false, .item 'a', false, true⟩ 262143
    ⟨trivial, by decide, fun _ => rfl, rfl⟩).mpr (.inr (by decide))

/-- With one item in the tree, at 0, an insertion at `ULONG_MAX` takes eleven nodes. -/
theorem preload_exhausted :
    ((Root.init.insert 0 'a').bind fun (root, _) => root.insertPreloaded (2 ^ 32 - 1) maxPath) =
      none ∧ ((Root.init.insert 0 'a').bind fun (root, _) => root.insertPreloaded (2 ^ 32 - 1) 11) =
      some 0 := by
  decide +kernel

end Am335x.RadixTree
