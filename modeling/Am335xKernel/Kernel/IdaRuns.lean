import Am335xKernel.Kernel.Ida
import Am335xKernel.Kernel.IdrAccess

/-!
# The ida as a set of ids

The bitmaps of an ida, read one after the other, are the set of the ids that are held. A slot
of the idr is taken when its bitmap is full; `getEmptySlot` then finds the first chunk with a
zero bit, and the search inside it the first id.
-/

namespace Am335x.Ids

open DigitPath Ptr Function Option Nat

def IdaBitmap.Full (b : IdaBitmap) : Prop := ∀ i < idaBitmapBits, b.bitmap i = true

/-- The number of chunks for the ids below `MAX_ID_BIT`. -/
def chunks : ℕ := 2164803

/-- The bitmap of a chunk: the counter is right, and all ids are below `MAX_ID_BIT`. -/
structure IdaBitmap.Ok (j : ℕ) (b : IdaBitmap) : Prop where
  nrBusy_eq : b.nrBusy = Nat.count (fun i => b.bitmap i = true) idaBitmapBits
  lt_chunks : j < chunks
  id_lt : ∀ i < idaBitmapBits, b.bitmap i = true → j * idaBitmapBits + i < maxIdBit

variable {j : ℕ}

lemma chunk_numbers : idaBitmapBits = 992 ∧ maxIdBit = 2147483648 ∧ chunks = 2164803 :=
  ⟨rfl, rfl, rfl⟩

lemma chunk_lt_iff (hj : j ≤ chunks) : ¬ maxIdBit ≤ j * idaBitmapBits % 2 ^ 32 ↔ j < chunks := by
  obtain ⟨hbits, hmax, hchunks⟩ := chunk_numbers
  rw [hchunks] at hj ⊢
  rw [hbits, hmax, mod_eq_of_lt (by omega)]
  omega

lemma div_lt_chunks {id : ℕ} (hid : id < maxIdBit) : id / idaBitmapBits < chunks := by
  obtain ⟨hbits, hmax, hchunks⟩ := chunk_numbers
  rw [hbits, hchunks]
  omega

lemma id_lt_word {i : ℕ} (hj : j < chunks) (hi : i < idaBitmapBits) :
    j * idaBitmapBits + i < 2 ^ 32 := by
  obtain ⟨hbits, -, hchunks⟩ := chunk_numbers
  rw [hchunks] at hj
  rw [hbits] at hi ⊢
  omega

namespace IdaBitmap

variable {b : IdaBitmap} {j i : ℕ}

abbrev set (b : IdaBitmap) (i : ℕ) : IdaBitmap :=
  ⟨b.nrBusy + 1, update b.bitmap i true⟩

lemma Ok.zero (hj : j < chunks) : IdaBitmap.zero.Ok j := by
  refine ⟨?_, hj, fun i _ hi => by cases hi⟩
  have hcount : count (fun i => IdaBitmap.zero.bitmap i = true) idaBitmapBits = 0 :=
    count_iff_forall_not.mpr fun _ _ => nofun
  rw [hcount]
  rfl

variable (h : b.Ok j)
include h

lemma Ok.set (hi : i < idaBitmapBits) (hbit : b.bitmap i = false)
    (hid : j * idaBitmapBits + i < maxIdBit) : (b.set i).Ok j := by
  refine ⟨?_, h.lt_chunks, fun k hk hset => ?_⟩
  · have hcount : count (fun k => update b.bitmap i true k = true) idaBitmapBits =
        count (fun k => b.bitmap k = true) idaBitmapBits + 1 := by
      refine SlotCount.count_add_one hi ?_ ?_ fun k _ hk => ?_
      · rw [hbit]
        exact nofun
      · rw [update_self]
      · rw [update_of_ne hk]
    rw [hcount]
    push_cast
    exact congrArg (· + 1) h.nrBusy_eq
  · rcases eq_or_ne k i with rfl | hne
    · exact hid
    · exact h.id_lt k hk ((update_of_ne hne _ _).symm.trans hset)

lemma Ok.clear (hi : i < idaBitmapBits) (hbit : b.bitmap i = true) :
    Ok j ⟨b.nrBusy - 1, update b.bitmap i false⟩ := by
  refine ⟨?_, h.lt_chunks, fun k hk hset => ?_⟩
  · have hcount : count (fun k => b.bitmap k = true) idaBitmapBits =
        count (fun k => update b.bitmap i false k = true) idaBitmapBits + 1 := by
      refine SlotCount.count_add_one hi ?_ hbit fun k _ hk => ?_
      · rw [update_self]
        exact nofun
      · rw [update_of_ne hk]
    rw [h.nrBusy_eq, hcount]
    push_cast
    exact add_sub_cancel_right _ _
  · rcases eq_or_ne k i with rfl | hne
    · cases ((update_self ..).symm.trans hset)
    · exact h.id_lt k hk ((update_of_ne hne _ _).symm.trans hset)

lemma Ok.full_iff : b.nrBusy = idaBitmapBits ↔ b.Full := by
  rw [h.nrBusy_eq, Nat.cast_inj]
  exact count_iff_forall

lemma Ok.empty_iff : b.nrBusy = 0 ↔ ∀ i < idaBitmapBits, b.bitmap i = false := by
  rw [h.nrBusy_eq, cast_eq_zero, count_iff_forall_not]
  simp

end IdaBitmap

namespace Ida

variable {ida : Ida} {idr : Idr IdaBitmap}

def held (idr : Idr IdaBitmap) : Set ℕ :=
  {id | ∃ b, idr.get (id / idaBitmapBits) = some b ∧ b.bitmap (id % idaBitmapBits) = true}

structure Inv (idr : Idr IdaBitmap) : Prop where
  inv : idr.InvBy IdaBitmap.Full
  ok : ∀ j b, idr.get j = some b → b.Ok j

variable {i j : ℕ}

lemma mul_add_div (j : ℕ) (hi : i < idaBitmapBits) :
    (j * idaBitmapBits + i) / idaBitmapBits = j := by
  rw [mul_comm, Nat.mul_add_div (by decide), Nat.div_eq_of_lt hi, add_zero]

lemma mul_add_mod (j : ℕ) (hi : i < idaBitmapBits) :
    (j * idaBitmapBits + i) % idaBitmapBits = i := by
  rw [mul_comm, Nat.mul_add_mod, Nat.mod_eq_of_lt hi]

variable {idr' : Idr IdaBitmap} {x : Option IdaBitmap}

lemma Inv.update (h : Inv idr) (hinv : idr'.InvBy IdaBitmap.Full)
    (hget : idr'.get = Function.update idr.get j x) (hok : ∀ b, x = some b → b.Ok j)
    : Inv idr' := by
  refine ⟨hinv, fun k b hk => ?_⟩
  rw [hget] at hk
  rcases eq_or_ne k j with rfl | hne
  · rw [update_self] at hk
    exact hok b hk
  · rw [update_of_ne hne] at hk
    exact h.ok k b hk

lemma held_update (hget : idr'.get = update idr.get j x) (id : ℕ) :
    id ∈ held idr' ↔ if id / idaBitmapBits = j then
      ∃ b, x = some b ∧ b.bitmap (id % idaBitmapBits) = true else id ∈ held idr := by
  show (∃ b, idr'.get (id / idaBitmapBits) = some b ∧ _) ↔ _
  rw [hget]
  split_ifs with hid
  · rw [hid, update_self]
  · rw [update_of_ne hid]
    rfl

section

variable {N t : ℕ} {p : Layer (Ptr IdaBitmap)} {path : List (Frame IdaBitmap)}
  {g : ℕ → Option IdaBitmap}

lemma bitmapAt_spec (hat : At IdaBitmap.Full N g 0 t p path) (freeBitmap : Bool) :
    (g t = none ∧ freeBitmap = false ∧ bitmapAt p (slotOf 0 t) freeBitmap = some none) ∨
    ∃ b free count, bitmapAt p (slotOf 0 t) freeBitmap = some (some (p.put t b count, b, free)) ∧
      (∀ b', count = used (update p.ary (slotOf 0 t) (.item b'))) ∧
      (g t = some b ∨ g t = none ∧ b = .zero) := by
  have hg : g t = (p.ary (slotOf 0 t)).get 0 t := hat.get_of_div rfl
  have hslot := (hat.wf.slot t).item_of_zero t
  rw [← hg] at hslot
  unfold bitmapAt
  cases hgt : g t with
  | none =>
    rw [hgt] at hslot
    have hnull : p.ary (slotOf 0 t) = .null := hslot
    rw [hnull]
    cases freeBitmap with
    | false => exact .inl ⟨rfl, rfl, rfl⟩
    | true =>
      refine .inr ⟨.zero, false, p.count + 1, rfl, fun b' => ?_, .inr ⟨rfl, rfl⟩⟩
      rw [used_update_add digit_lt hnull rfl]
      push_cast
      exact congrArg (· + 1) hat.wf.slots.count_eq
  | some b =>
    rw [hgt] at hslot
    have hitem : p.ary (slotOf 0 t) = .item b := hslot
    have hself : update p.ary (slotOf 0 t) (.item b) = p.ary := by
      rw [← hitem, update_eq_self]
    rw [hitem]
    refine .inr ⟨b, freeBitmap, p.count, ?_, fun b' => ?_, .inl rfl⟩
    · rw [Layer.put, hself]
    · rw [used_update_same (by rw [hitem]; rfl)]
      exact hat.wf.slots.count_eq

/-- What `ida_get_new_above` may do, for the ids from `lo` on. -/
def Outcome (idr : Idr IdaBitmap) (lo : ℕ) (idr' : Idr IdaBitmap) : ℤ ⊕ ℕ → Prop
  | .inl e => Inv idr' ∧ held idr' = held idr ∧
      (e = eagain ∨ e = enospc ∧ ∀ j, lo ≤ j → j < maxIdBit → j ∈ held idr)
  | .inr k => Inv idr' ∧ held idr' = insert k (held idr) ∧ k ∉ held idr ∧ lo ≤ k ∧ k < maxIdBit ∧
      ∀ j, lo ≤ j → j < k → j ∈ held idr

variable {idr1 : Idr IdaBitmap}

lemma Outcome.of_le {idr' : Idr IdaBitmap} {lo lo1 : ℕ} {r : ℤ ⊕ ℕ} (h : Outcome idr1 lo1 idr' r)
    (hheld : held idr1 = held idr) (hle : lo ≤ lo1) (hpassed : ∀ j, lo ≤ j → j < lo1 → j ∈ held idr)
    : Outcome idr lo idr' r := by
  have hfrom : ∀ k, (∀ j, lo1 ≤ j → j < k → j ∈ held idr) → ∀ j, lo ≤ j → j < k → j ∈ held idr := by
    intro k hk j hj hlt
    rcases lt_or_ge j lo1 with hbefore | hbehind
    · exact hpassed j hj hbefore
    · exact hk j hbehind hlt
  cases r with
  | inl e =>
    obtain ⟨hinv, hsame, he⟩ := h
    rw [hheld] at hsame he
    exact ⟨hinv, hsame, he.imp_right fun hfull => ⟨hfull.1, hfrom _ hfull.2⟩⟩
  | inr k =>
    obtain ⟨hinv, hsame, hfree, hlo, hmax, htaken⟩ := h
    rw [hheld] at hsame hfree htaken
    exact ⟨hinv, hsame, hfree, hle.trans hlo, hmax, hfrom k htaken⟩

variable {idrId : ℕ} {b : IdaBitmap}

lemma Inv.store (h : Inv idr) (hends : Idr.Ends IdaBitmap.Full idr idrId idr1 (.found t p path))
    (hb : b.Ok t) {count : ℤ} (hcount : count = used (Function.update p.ary (slotOf 0 t) (.item b)))
    {T : Layer (Ptr IdaBitmap)} (hT : Stored IdaBitmap.Full t b (p.put t b count) path T)
    {idFree : List (Layer (Ptr IdaBitmap))} (hblank : ∀ q ∈ idFree, q.Blank) :
    Inv ⟨.layer T, idr1.layers, idFree⟩ ∧ ∀ id, id ∈ held ⟨.layer T, idr1.layers, idFree⟩ ↔
        if id / idaBitmapBits = t then b.bitmap (id % idaBitmapBits) = true else id ∈ held idr := by
  obtain ⟨-, g, hat, hN, hfree, hlow, hhigh, hge, hlt, hspace, htaken⟩ := hends
  obtain ⟨hwf, hget⟩ := store_spec hat hspace b hcount hT
  have hstored : Idr.get ⟨.layer T, idr1.layers, idFree⟩ = Function.update idr.get t (some b) :=
    held_store hlt hlow hhigh hget
  refine ⟨h.update (Idr.inv_of_layer hwf hN hblank) hstored ?_, fun id => ?_⟩
  · intro b' hb'
    exact some.inj hb' ▸ hb
  · rw [held_update hstored]
    simp

lemma take_stored {i : ℕ} (hok : (b.set i).Ok t) (p : Layer (Ptr IdaBitmap)) (count : ℤ)
    (path : List (Frame IdaBitmap)) :
    Stored IdaBitmap.Full t (b.set i) (p.put t (b.set i) count) path
      (take (p.put t b count) path t i b) := by
  unfold Stored
  rw [← hok.full_iff]
  unfold take
  rw [and_mask]
  dsimp only
  rw [update_idem]
  split_ifs with hbusy
  · exact .inl ⟨hbusy, rfl⟩
  · exact .inr ⟨hbusy, rfl⟩

lemma found_bitmap (h : Inv idr)
    (hends : Idr.Ends IdaBitmap.Full idr idrId idr1 (.found t p path)) (ht : t < chunks)
    (freeBitmap : Bool) : bitmapAt p (slotOf 0 t) freeBitmap = some none ∨
    ∃ p' b free, bitmapAt p (slotOf 0 t) freeBitmap = some (some (p', b, free)) ∧ ¬ b.Full ∧
      (∀ id, id / idaBitmapBits = t → (id ∈ held idr ↔ b.bitmap (id % idaBitmapBits) = true)) ∧
      Inv { idr1 with top := .layer (rebuild p' path) } ∧
      held { idr1 with top := .layer (rebuild p' path) } = held idr ∧
      ∀ i < idaBitmapBits, b.bitmap i = false → t * idaBitmapBits + i < maxIdBit →
        ∀ idFree, (∀ q ∈ idFree, q.Blank) → Inv ⟨.layer (take p' path t i b), idr1.layers, idFree⟩ ∧
          held ⟨.layer (take p' path t i b), idr1.layers, idFree⟩ =
            insert (t * idaBitmapBits + i) (held idr) := by
  obtain ⟨-, g, hat, -, hfree, hlow, -, -, hlt, hspace, -⟩ := id hends
  rcases bitmapAt_spec hat freeBitmap with ⟨-, -, hnone⟩ | ⟨b, free, count, hsome, hcount, hcase⟩
  · exact .inl hnone
  have hok : b.Ok t := by
    rcases hcase with hg | ⟨-, rfl⟩
    · exact h.ok t b ((hlow t hlt).symm.trans hg)
    · exact .zero ht
  have hroom : ¬ b.Full := by
    rcases hcase with hg | ⟨-, rfl⟩
    · exact fun hfull => hspace ⟨b, hg, hfull⟩
    · exact fun hfull => Bool.false_ne_true (hfull 0 (by decide))
  have hbits : ∀ id, id / idaBitmapBits = t →
      (id ∈ held idr ↔ b.bitmap (id % idaBitmapBits) = true) := by
    intro id hid
    show (∃ b, idr.get (id / idaBitmapBits) = some b ∧ _) ↔ _
    rw [hid, ← hlow t hlt]
    rcases hcase with hg | ⟨hg, rfl⟩
    · rw [hg]
      simp
    · rw [hg]
      refine iff_of_false ?_ nofun
      rintro ⟨b, hb, -⟩
      cases hb
  obtain ⟨hinv, hheld⟩ := h.store hends hok (hcount b) (.inr ⟨hroom, rfl⟩) hfree
  refine .inr ⟨_, b, free, hsome, hroom, hbits, hinv, ?_, ?_⟩
  · ext id
    rw [hheld id]
    split_ifs with hid
    · exact (hbits id hid).symm
    · rfl
  · intro i hi hbit hmax idFree hblank
    have hok' := hok.set hi hbit hmax
    obtain ⟨hinv', hheld'⟩ :=
      h.store hends hok' (hcount _) (take_stored hok' p count path) hblank
    refine ⟨hinv', ?_⟩
    ext id
    rw [hheld' id, Set.mem_insert_iff]
    split_ifs with hid
    · show update b.bitmap i true (id % idaBitmapBits) = true ↔ _
      rw [hbits id hid, update_apply]
      have heq : id = t * idaBitmapBits + i ↔ id % idaBitmapBits = i := by
        have hdiv := div_add_mod' id idaBitmapBits
        rw [hid] at hdiv
        omega
      rw [heq]
      split_ifs with hmod
      · exact iff_of_true rfl (.inl hmod)
      · exact ⟨.inr, fun hor => hor.resolve_left hmod⟩
    · have hne : id ≠ t * idaBitmapBits + i := by
        rintro rfl
        exact hid (mul_add_div t hi)
      exact ⟨.inr, fun hor => hor.resolve_left hne⟩

lemma Inv.not_takes_chunks (h : Inv idr) : ¬ Takes IdaBitmap.Full (idr.get chunks) := by
  rintro ⟨b, hb, -⟩
  exact (h.ok chunks b hb).lt_chunks.ne rfl

/-- From the bit `o` on the chunk `t` is searched. -/
lemma first_bit {offset o : ℕ} (hge : idrId ≤ t) (hoff : offset < idaBitmapBits)
    (ho : o = if t ≠ idrId then 0 else offset) :
    o ≤ offset ∧ idrId * idaBitmapBits + offset ≤ t * idaBitmapBits + o ∧
      ∀ j, idrId * idaBitmapBits + offset ≤ j → j / idaBitmapBits = t → o ≤ j % idaBitmapBits := by
  split_ifs at ho with hne
  · have hnext := mul_le_mul_right idaBitmapBits (lt_of_le_of_ne hge hne.symm)
    rw [add_one_mul] at hnext
    exact ⟨by omega, by omega, fun _ _ _ => by omega⟩
  · obtain rfl := not_not.mp hne
    obtain rfl := ho
    refine ⟨le_rfl, le_rfl, fun j hj hdiv => ?_⟩
    have hmod := div_add_mod' j idaBitmapBits
    rw [hdiv] at hmod
    omega

/-- As far as the bits of the chunk `t` are set, nothing is free. -/
lemma held_of_searched {lo o k : ℕ} (hpassed : ∀ j, lo ≤ j → j / idaBitmapBits < t → j ∈ held idr)
    (hbits : ∀ j, j / idaBitmapBits = t → (j ∈ held idr ↔ b.bitmap (j % idaBitmapBits) = true))
    (hfrom : ∀ j, lo ≤ j → j / idaBitmapBits = t → o ≤ j % idaBitmapBits)
    (hset : ∀ i, o ≤ i → i < k → b.bitmap i = true) (hk : k ≤ idaBitmapBits) {j : ℕ} (hj : lo ≤ j)
    (hlt : j < t * idaBitmapBits + k) : j ∈ held idr := by
  rcases lt_or_ge (j / idaBitmapBits) t with hbefore | hbehind
  · exact hpassed j hj hbefore
  have hdiv : j / idaBitmapBits = t := by
    refine le_antisymm (le_of_lt_succ ((div_lt_iff_lt_mul (by decide)).mpr ?_)) hbehind
    rw [add_one_mul]
    omega
  have hmod := div_add_mod' j idaBitmapBits
  rw [hdiv] at hmod
  exact (hbits j hdiv).mpr (hset _ (hfrom j hj hdiv) (by omega))

lemma Inv.of_get (h : Inv idr) (hinv : idr1.InvBy IdaBitmap.Full) (hget : idr1.get = idr.get) :
    Inv idr1 ∧ held idr1 = held idr := by
  refine ⟨⟨hinv, fun j b => ?_⟩, ?_⟩
  · rw [hget]
    exact h.ok j b
  · unfold held
    rw [hget]

lemma newLoop_spec {fuel offset : ℕ} {ida : Ida} (h : Inv ida.idr) (hidr : idrId ≤ chunks)
    (hoff : offset < idaBitmapBits) (hfuel : 2 ≤ fuel ∨ 1 ≤ fuel ∧ offset = 0) :
    ∃ ida' r, newLoop fuel ida idrId offset = some (ida', r) ∧
      Outcome ida.idr (idrId * idaBitmapBits + offset) ida'.idr r := by
  induction fuel generalizing ida idrId offset with
  | zero => omega
  | succ fuel ih =>
    have hleft : ∃ k, idrId ≤ k ∧ k < 2 ^ 30 ∧ ¬ Takes IdaBitmap.Full (ida.idr.get k) :=
      ⟨chunks, hidr, by decide, h.not_takes_chunks⟩
    obtain ⟨idr, r, hslot, hends⟩ := h.inv.getEmptySlot (M := 0) hleft
      (lt_succ_of_le (sub_le maxLevel 1)) (.inl rfl)
    unfold newLoop
    rw [hslot]
    cases r with
    | failed errno =>
      obtain ⟨rfl, hinv, hget⟩ := hends
      obtain ⟨hinv, hheld⟩ := h.of_get hinv hget
      exact ⟨_, _, rfl, hinv, hheld, .inl rfl⟩
    | found t p path =>
      obtain ⟨hinv1, hheld⟩ := h.of_get hends.same.1 hends.same.2
      obtain ⟨-, -, -, -, hfree, -, -, hge, -, -, htaken⟩ := id hends
      have ht : t ≤ chunks := by
        by_contra hgt
        exact h.not_takes_chunks (htaken chunks hidr (lt_of_not_ge hgt))
      -- the chunks that the search has passed are full
      have hpassed : ∀ j, idrId * idaBitmapBits + offset ≤ j → j / idaBitmapBits < t →
          j ∈ held ida.idr := by
        intro j hj hlt
        have hge : idrId ≤ j / idaBitmapBits :=
          (le_div_iff_mul_le (by decide)).mpr ((le_add_right _ _).trans hj)
        obtain ⟨b, hb, hfull⟩ := htaken _ hge hlt
        exact ⟨b, hb, hfull _ (mod_lt _ (by decide))⟩
      dsimp only
      rw [and_mask]
      by_cases hmax : maxIdBit ≤ t * idaBitmapBits % 2 ^ 32
      · rw [if_pos hmax]
        refine ⟨_, _, rfl, hinv1, hheld, .inr ⟨rfl, fun j hj hlt => hpassed j hj ?_⟩⟩
        exact (div_lt_chunks hlt).trans_le (le_of_not_gt fun hlt => (chunk_lt_iff ht).mpr hlt hmax)
      rw [if_neg hmax]
      have ht' : t < chunks := (chunk_lt_iff ht).mp hmax
      obtain ⟨o, ho⟩ : ∃ o, o = if t ≠ idrId then 0 else offset := ⟨_, rfl⟩
      rw [← ho]
      obtain ⟨ho_le, hlo, hfrom⟩ := first_bit hge hoff ho
      have ho_lt : o < idaBitmapBits := ho_le.trans_lt hoff
      rcases found_bitmap h hends ht' ida.freeBitmap with
        hnone | ⟨p', b, free, hsome, hroom, hbits, hinv', hheld', htake⟩
      · rw [hnone]
        exact ⟨_, _, rfl, hinv1, hheld, .inl rfl⟩
      rw [hsome]
      dsimp only
      rcases b.bitmap.findNextZeroBit_cases ho_lt.le with ⟨hend, hset⟩ | ⟨hle, hlt, hzero⟩
      · -- only the chunk of `starting_id` is searched from another bit on
        rw [if_pos hend]
        have hfuel' : 2 ≤ fuel + 1 := by
          refine hfuel.resolve_right fun hlast => hroom fun i hi => hset i ?_ hi
          omega
        obtain ⟨next, heq⟩ : ∃ next : Ida,
            next = ⟨{ idr with top := .layer (rebuild p' path) }, free⟩ := ⟨_, rfl⟩
        rw [← heq]
        have hidr : next.idr = { idr with top := .layer (rebuild p' path) } := by rw [heq]
        rw [← hidr] at hinv' hheld'
        obtain ⟨ida', r, hloop, hout⟩ : ∃ ida' r, newLoop fuel next (t + 1) 0 = some (ida', r) ∧
            Outcome next.idr ((t + 1) * idaBitmapBits + 0) ida'.idr r :=
          ih hinv' ht' (by decide) (.inr ⟨by omega, rfl⟩)
        have hnext : (t + 1) * idaBitmapBits + 0 = t * idaBitmapBits + idaBitmapBits := by
          rw [add_zero, add_one_mul]
        rw [hnext] at hout
        refine ⟨ida', r, hloop, hout.of_le hheld' ?_ fun j hj hlt => ?_⟩
        · exact hlo.trans (Nat.add_le_add_left ho_lt.le _)
        · exact held_of_searched hpassed hbits hfrom hset le_rfl hj hlt
      · have hset : ∀ i, o ≤ i → i < b.bitmap.findNextZeroBit idaBitmapBits o →
            b.bitmap i = true := fun i hi => Bitmap.of_lt_findNextZeroBit hi
        generalize b.bitmap.findNextZeroBit idaBitmapBits o = bit at hle hlt hzero hset ⊢
        rw [if_neg hlt.ne, mod_eq_of_lt (id_lt_word ht' hlt)]
        by_cases hid : maxIdBit ≤ t * idaBitmapBits + bit
        · rw [if_pos hid]
          refine ⟨_, _, rfl, hinv', hheld', .inr ⟨rfl, fun j hj hjlt => ?_⟩⟩
          exact held_of_searched hpassed hbits hfrom hset hlt.le hj (hjlt.trans_le hid)
        · rw [if_neg hid]
          have hblank : ∀ q ∈ (if idr.idFree.length ≠ 0 ∨ free then idr.idFree.tail
              else idr.idFree), q.Blank := by
            intro q hq
            split_ifs at hq
            · exact hfree q (List.mem_of_mem_tail hq)
            · exact hfree q hq
          obtain ⟨hinv2, hheld2⟩ := htake bit hlt hzero (lt_of_not_ge hid) _ hblank
          refine ⟨_, _, rfl, hinv2, hheld2, ?_, ?_, lt_of_not_ge hid, fun j hj hjlt => ?_⟩
          · rw [hbits _ (mul_add_div t hlt), mul_add_mod t hlt, hzero]
            exact nofun
          · exact hlo.trans (Nat.add_le_add_left hle _)
          · exact held_of_searched hpassed hbits hfrom hset hlt.le hj hjlt

lemma Inv.getNewAbove (h : Inv ida.idr) {startingId : ℕ} (hstart : startingId < maxIdBit) :
    ∃ ida' r, ida.getNewAbove startingId = some (ida', r) ∧
      Outcome ida.idr startingId ida'.idr r := by
  have hloop := newLoop_spec h (div_lt_chunks hstart).le (mod_lt startingId (by decide))
    (.inl (le_refl 2))
  rwa [div_add_mod'] at hloop

end

section

variable {h id offset : ℕ} {c : Ptr IdaBitmap} {b : IdaBitmap}
  (hwf : c.WfBy IdaBitmap.Full (h + 1)) (hget : c.get (h + 1) id = some b)
  (hbit : b.bitmap offset = true)

include hwf hget hbit in
lemma clearDown_empty (hlast : b.nrBusy - 1 = 0) :
    ∃ c', clearDown id offset h c = some (c', .empty) ∧ Marked id h c' c := by
  induction h generalizing c with
  | zero =>
    obtain ⟨p, rfl, hget⟩ := hwf.layer_of_get hget
    have hitem : p.ary (slotOf 0 id) = .item b := (hwf.slot id).eq_item hget
    unfold clearDown
    dsimp only
    unfold clearBit
    rw [and_mask, hitem]
    dsimp only
    rw [if_pos hbit, if_pos hlast]
    refine ⟨_, rfl, update_self .., rfl, rfl, fun i hi => ⟨?_, ?_⟩⟩
    · exact (update_of_ne hi ..).trans (update_of_ne hi ..)
    · exact update_of_ne hi ..
  | succ h ih =>
    obtain ⟨p, rfl, hget⟩ := hwf.layer_of_get hget
    obtain ⟨c', hdown, hmarked⟩ := ih (hwf.slot id) hget
    unfold clearDown
    dsimp only
    rw [hdown]
    refine ⟨_, rfl, ?_, rfl, rfl, fun i hi => ⟨?_, ?_⟩⟩
    · show Marked id h (update p.ary (slotOf (h + 1) id) c' (slotOf (h + 1) id)) _
      rw [update_self]
      exact hmarked
    · exact update_of_ne hi ..
    · exact update_of_ne hi ..

include hwf hget hbit in
lemma clearDown_busy (hoff : offset < idaBitmapBits) (hmore : b.nrBusy - 1 ≠ 0) :
    ∃ c', clearDown id offset h c = some (c', .busy) ∧ c' ≠ .null ∧
      c'.WfBy IdaBitmap.Full (h + 1) ∧ ∀ j, c'.get (h + 1) j = if Agree idrBits (h + 1) id j then
        some ⟨b.nrBusy - 1, update b.bitmap offset false⟩ else c.get (h + 1) j := by
  have hspace : ¬ IdaBitmap.Full ⟨b.nrBusy - 1, update b.bitmap offset false⟩ := by
    intro hfull
    exact Bool.false_ne_true ((update_self ..).symm.trans (hfull offset hoff))
  induction h generalizing c with
  | zero =>
    obtain ⟨p, rfl, hget⟩ := hwf.layer_of_get hget
    have hitem : p.ary (slotOf 0 id) = .item b := (hwf.slot id).eq_item hget
    have hitem' : (Ptr.item (⟨b.nrBusy - 1, update b.bitmap offset false⟩ :
      IdaBitmap)).WfBy IdaBitmap.Full 0 := trivial
    unfold clearDown
    dsimp only
    unfold clearBit
    rw [and_mask, hitem]
    dsimp only
    rw [if_pos hbit, if_neg hmore]
    refine ⟨_, rfl, by simp, hwf.set_slot (by simp [hitem]) hitem' (by simp) ?_
      (fun i hi => update_of_ne hi _ _) fun _ => rfl⟩
    rw [update_self]
    refine iff_of_false nofun fun hfull => ?_
    obtain ⟨b', hb', hfull'⟩ := hfull id
    exact hspace (some.inj hb' ▸ hfull')
  | succ h ih =>
    obtain ⟨p, rfl, hchild⟩ := hwf.layer_of_get hget
    have hused := ne_null_of_get hchild
    obtain ⟨c', hdown, hnull, hwf', hget'⟩ := ih (hwf.slot id) hchild
    unfold clearDown
    dsimp only
    rw [hdown]
    refine ⟨_, rfl, by simp, hwf.set_slot hused hwf' hnull ?_ (fun i hi => update_of_ne hi _ _)
      hget'⟩
    rw [update_self]
    refine iff_of_false nofun fun hfull => ?_
    obtain ⟨b', hb', hfull'⟩ := hfull id
    rw [hget', if_pos (Agree.refl idrBits (h + 1) id)] at hb'
    exact hspace (some.inj hb' ▸ hfull')

/-- **An id that is held is free again**, and no other. -/
lemma Inv.remove (h : Inv ida.idr) {id : ℕ} (hid : id ∈ held ida.idr) :
    ∃ ida', ida.remove id = some ida' ∧ Inv ida'.idr ∧ held ida'.idr = held ida.idr \ {id} := by
  obtain ⟨b, hget, hbit⟩ := hid
  obtain ⟨l, hl, hlt, hwf, htop⟩ := h.inv.layers_of_get hget
  have hoff : id % idaBitmapBits < idaBitmapBits := mod_lt id (by decide)
  have hok := (h.ok _ b hget).clear hoff hbit
  obtain ⟨x, hx⟩ : ∃ x : Option IdaBitmap, x = if b.nrBusy - 1 = 0 then none
    else some ⟨b.nrBusy - 1, Function.update b.bitmap (id % idaBitmapBits) false⟩ := ⟨_, rfl⟩
  obtain ⟨ida', hremove, hinv, hget'⟩ : ∃ ida', ida.remove id = some ida' ∧
      ida'.idr.InvBy IdaBitmap.Full ∧
      ida'.idr.get = Function.update ida.idr.get (id / idaBitmapBits) x := by
    unfold Ida.remove
    rw [hl, Nat.add_sub_cancel]
    split_ifs at hx with hlast
    · obtain ⟨c, hdown, hmarked⟩ := clearDown_empty hwf htop hbit hlast
      have hsmall : id / idaBitmapBits % maxIdBit = id / idaBitmapBits :=
        Nat.mod_eq_of_lt (hok.lt_chunks.trans (by decide))
      obtain ⟨idr', hidr, hinv, hget'⟩ :=
        h.inv.remove (hsmall.symm ▸ hget) (by rw [hsmall, hl, Nat.add_sub_cancel]; exact hmarked)
      rw [hsmall] at hget'
      rw [hl] at hidr
      refine ⟨⟨idr', true⟩, ?_, hinv, hx ▸ hget'⟩
      simp only [hdown, hl, hidr, bind_eq_bind, bind_some, if_true]
      rfl
    · obtain ⟨c, hdown, hnull, hwf', hget'⟩ := clearDown_busy hwf htop hbit hoff hlast
      refine ⟨⟨⟨c, l + 1, ida.idr.idFree⟩, ida.freeBitmap⟩, ?_, ⟨hwf', ?_, ?_, h.inv.blank⟩, ?_⟩
      · simp only [hdown, hl, bind_eq_bind, bind_some]
        rfl
      · exact hl ▸ h.inv.layers_le
      · exact iff_of_false hnull l.succ_ne_zero
      · rw [Idr.get, Idr.get, hl, hx]
        exact held_set hlt hget'
  have hbits : ∀ i < idaBitmapBits, (∃ b', x = some b' ∧ b'.bitmap i = true) ↔
      b.bitmap i = true ∧ i ≠ id % idaBitmapBits := by
    intro i hi
    have hcleared : Function.update b.bitmap (id % idaBitmapBits) false i = true ↔
        b.bitmap i = true ∧ i ≠ id % idaBitmapBits := by
      rw [update_apply]
      split_ifs with heq
      · exact iff_of_false not_false fun hand => hand.2 heq
      · exact ⟨fun hset => ⟨hset, heq⟩, And.left⟩
    rw [← hcleared, hx]
    split_ifs with hlast
    · have hnone := hok.empty_iff.mp hlast i hi
      refine iff_of_false ?_ (Bool.not_eq_true _ ▸ hnone)
      rintro ⟨b', hb', -⟩
      cases hb'
    · simp
  refine ⟨ida', hremove, h.update hinv hget' ?_, ?_⟩
  · intro b' hb'
    rw [hx] at hb'
    split_ifs at hb'
    exact some.inj hb' ▸ hok
  · ext k
    rw [held_update hget' k, Set.mem_sdiff, Set.mem_singleton_iff]
    split_ifs with hk
    · have hsame : k ∈ held ida.idr ↔ b.bitmap (k % idaBitmapBits) = true := by
        show (∃ b, ida.idr.get (k / idaBitmapBits) = some b ∧ _) ↔ _
        rw [hk, hget]
        simp
      have heq : k = id ↔ k % idaBitmapBits = id % idaBitmapBits := by
        have hdivk := div_add_mod' k idaBitmapBits
        have hdiv := div_add_mod' id idaBitmapBits
        rw [hk] at hdivk
        omega
      rw [hbits _ (mod_lt k (by decide)), hsame, heq]
    · have hne : k ≠ id := fun heq => hk (heq ▸ rfl)
      exact ⟨fun hheld => ⟨hheld, hne⟩, And.left⟩

end

def contract : Contract (Set ℕ) IdaCall IdaReply where
  allowed s
    | .preGet _ _ => True
    | .getNewAbove startingId => startingId < maxIdBit
    | .remove id => id ∈ s
  ok s
    | .preGet _ _, r => r = .errno 0 ∨ r = .errno 1
    | .getNewAbove startingId, r => r = .errno eagain ∨
        (r = .errno enospc ∧ ∀ j, startingId ≤ j → j < maxIdBit → j ∈ s) ∨
        ∃ k, r = .id k ∧ startingId ≤ k ∧ k < maxIdBit ∧ k ∉ s ∧ ∀ j, startingId ≤ j → j < k → j ∈ s
    | .remove _, r => r = .errno 0
  next s
    | .getNewAbove _, .id k => insert k s
    | .remove id, _ => s \ {id}
    | _, _ => s

lemma Inv.preGet (h : Inv ida.idr) (mem : ℕ) (memBitmap : Bool) :
    Inv (ida.preGet mem memBitmap).1.idr ∧ held (ida.preGet mem memBitmap).1.idr = held ida.idr ∧
      ((ida.preGet mem memBitmap).2 = 0 ∨ (ida.preGet mem memBitmap).2 = 1) := by
  obtain ⟨hinv, hget⟩ := h.inv.preGet mem
  obtain ⟨hinv', hheld⟩ := h.of_get hinv hget
  unfold Ida.preGet
  dsimp only
  split_ifs
  · exact ⟨hinv', hheld, .inl rfl⟩
  · exact ⟨hinv', hheld, .inr rfl⟩
  · exact ⟨hinv', hheld, .inr rfl⟩
  · exact ⟨hinv', hheld, .inl rfl⟩

def Holds (s : Set ℕ) (ida : Ida) : Prop := Inv ida.idr ∧ held ida.idr = s

lemma Holds.step {s : Set ℕ} (h : Holds s ida) (c : IdaCall) (hallowed : contract.allowed s c) :
    ∃ ida' r, ida.call c = some (ida', r) ∧ contract.ok s c r ∧
      Holds (contract.next s c r) ida' := by
  obtain ⟨hinv, rfl⟩ := h
  cases c with
  | preGet mem memBitmap =>
    obtain ⟨hinv', hheld, hr⟩ := hinv.preGet mem memBitmap
    refine ⟨_, _, rfl, ?_, hinv', hheld⟩
    exact hr.imp (congrArg IdaReply.errno) (congrArg IdaReply.errno)
  | getNewAbove startingId =>
    obtain ⟨ida', r, hnew, hout⟩ := hinv.getNewAbove hallowed
    refine ⟨ida', _, by rw [Ida.call, hnew]; rfl, ?_⟩
    cases r with
    | inl e =>
      obtain ⟨hinv', hheld, he⟩ := hout
      refine ⟨?_, hinv', hheld⟩
      rcases he with rfl | ⟨rfl, hfull⟩
      · exact .inl rfl
      · exact .inr (.inl ⟨rfl, hfull⟩)
    | inr k =>
      obtain ⟨hinv', hheld, hfree, hle, hlt, htaken⟩ := hout
      exact ⟨.inr (.inr ⟨k, rfl, hle, hlt, hfree, htaken⟩), hinv', hheld⟩
  | remove id =>
    obtain ⟨ida', hremove, hinv', hheld⟩ := hinv.remove hallowed
    exact ⟨ida', _, by rw [Ida.call, hremove]; rfl, rfl, hinv', hheld⟩

lemma Holds.init : Holds ∅ Ida.init := by
  have hget : (Idr.init : Idr IdaBitmap).get = fun _ => none := by
    rw [Idr.get, Idr.init, held_null]
  refine ⟨⟨Idr.InvBy.init, fun j b hb => ?_⟩, Set.eq_empty_of_forall_notMem fun id hid => ?_⟩
  · have hnone := congrFun hget j
    cases hnone.symm.trans hb
  · obtain ⟨b, hb, -⟩ := hid
    have hnone := congrFun hget (id / idaBitmapBits)
    cases hnone.symm.trans hb

end Ida

/-- **The ida is a set of ids**: an id that is handed out is the first one that is free from
`starting_id` on, a failure means that there is no memory or no id, and the removal of an id
makes this one free. -/
theorem ida_right (calls : List IdaCall) :
    Ida.call.Keeps Ida.contract (fun s ida => Ida.held ida.idr = s) ∅ Ida.init calls :=
  Component.keeps_of_step (I := Ida.Holds) (fun _ _ h => h.2) (fun _ _ c h => h.step c)
    Ida.Holds.init calls

theorem ida_right_two : ∃ s ida rs, Ida.call.run Ida.init
    [.preGet 14 true, .getNewAbove 0, .getNewAbove 5] = some (ida, rs) ∧ Ida.held ida.idr = s := by
  refine (ida_right [.preGet 14 true, .getNewAbove 0, .getNewAbove 5]).run ?_
  simp [Contract.Allows, Ida.contract, maxIdBit]

end Am335x.Ids
