import Am335xKernel.Drivers.CpswAle

/-!
# The address table as a map

The operations of `CpswAle` on the table are operations on the map from keys to
entries. What an operation does to a field of an entry follows from the layout:
a field reads what was written to it, and the fields of one type of entry are
apart from one another, from the type and from the key.
-/

namespace Am335x.CpswAle

open Function BitField Option

open KeyedTable

variable {n : ℕ}

inductive Key where
  | addr (addr : Mac) (vid : BitVec 32)
  | vlan (vid : BitVec 32)
  deriving DecidableEq

def keyOf (e : Entry) : Option Key :=
  if isAddr e then some (.addr (cpswAleGetAddr e) (vlanId.get e))
  else if entryType.get e == typeVlan then some (.vlan (vlanId.get e))
  else none

variable {e : Entry}

lemma isAddr_of_type (h : entryType.get e = typeAddr ∨ entryType.get e = typeVlanAddr) :
    isAddr e = true := by
  rcases h with h | h <;> rw [isAddr, h] <;> rfl

lemma keyOf_eq_vlan (h : entryType.get e = typeVlan) : keyOf e = some (.vlan (vlanId.get e)) := by
  rw [keyOf, isAddr, h]
  rfl

lemma keyOf_eq_none (h : entryType.get e = typeFree) : keyOf e = none := by
  rw [keyOf, isAddr, h]
  rfl

variable {addr : Mac} {vid : BitVec 32}

lemma keyOf_eq_addr_iff : keyOf e = some (.addr addr vid) ↔
      isAddr e = true ∧ cpswAleGetAddr e = addr ∧ vlanId.get e = vid := by
  rw [keyOf]
  cases isAddr e <;> simp

lemma matchAddr_eq (ale : Ale n) (addr : Mac) (vid : BitVec 16) : cpswAleMatchAddr ale addr vid =
      search (fun e => keyOf e == some (.addr addr (vid.setWidth 32))) ale := by
  unfold cpswAleMatchAddr
  congr 1
  funext e
  rw [Bool.eq_iff_iff, beq_iff_eq, Bool.and_eq_true, Bool.and_eq_true, beq_iff_eq,
    decide_eq_true_eq,
    keyOf_eq_addr_iff, and_assoc, and_comm (a := vlanId.get e = _)]

lemma keyOf_eq_vlan_iff :
    keyOf e = some (.vlan vid) ↔ entryType.get e = typeVlan ∧ vlanId.get e = vid := by
  constructor
  · intro h
    rw [keyOf] at h
    split at h
    · simp at h
    · split at h
      · rename_i htype
        exact ⟨beq_iff_eq.mp htype, by simpa using h⟩
      · cases h
  · rintro ⟨htype, hvid⟩
    rw [keyOf_eq_vlan htype, hvid]

lemma matchVlan_eq (ale : Ale n) (vid : BitVec 16) :
    cpswAleMatchVlan ale vid = search (fun e => keyOf e == some (.vlan (vid.setWidth 32))) ale := by
  unfold cpswAleMatchVlan
  congr 1
  funext e
  rw [Bool.eq_iff_iff, beq_iff_eq, Bool.and_eq_true, beq_iff_eq, beq_iff_eq, keyOf_eq_vlan_iff]

variable {f : BitField 3 32}

lemma getAddr_set_of_apart {v : BitVec 32} (h : ∀ i, f.Apart (addrField i))
    : cpswAleGetAddr (f.set v e) = cpswAleGetAddr e := by
  funext i
  rw [cpswAleGetAddr, cpswAleGetAddr, get_set_of_apart (h i)]

lemma get_setAddr_of_apart (h : ∀ i, (addrField i).Apart f)
    : f.get (cpswAleSetAddr addr e) = f.get e :=
  get_setAll_of_apart fun i _ => h i

@[simp] lemma getAddr_setAddr (addr : Mac) (e : Entry) :
    cpswAleGetAddr (cpswAleSetAddr addr e) = addr := by
  funext i
  have hapart : ∀ i j, i ≠ j → (addrField i).Apart (addrField j) := by decide
  rw [cpswAleGetAddr, cpswAleSetAddr,
    get_setAll hapart (List.mem_finRange i) (List.nodup_finRange 6)]
  apply BitVec.eq_of_getLsbD_eq
  intro j hj
  have hbit : (addrField i).mask.getLsbD j = true := by
    rw [getLsbD_mask]
    exact decide_eq_true hj
  rw [BitVec.getLsbD_setWidth, BitVec.getLsbD_and, hbit, BitVec.getLsbD_setWidth]
  simp [hj, show j < 32 by omega]

@[simp] lemma keyOf_free (e : Entry) : keyOf (entryType.set typeFree e) = none := by
  apply keyOf_eq_none
  rw [get_set]
  rfl

@[simp] lemma keyOf_set_portMask (v : BitVec 32) (e : Entry) :
    keyOf (portMask.set v e) = keyOf e := by
  simp (disch := decide) [keyOf, isAddr, get_set_of_apart, getAddr_set_of_apart]

/-- `-ENOMEM` means that there is neither a free nor an ageable entry, and
nothing has changed. After a success the key has the entry that was wanted. All
other keys have theirs, except that of one ageable entry if no entry was free. -/
structure Added (ale ale' : Ale n) (ret : ℤ) (k : Key) (want : Option Entry → Entry → Prop) :
    Prop where
  ret_eq : ret = 0 ∨ ret = enomem
  full : ret = enomem → ale' = ale ∧ lookup keyOf ale k = none ∧
    (∀ i, entryType.get (ale i) ≠ typeFree) ∧ ∀ i, ageable (ale i) = false
  leaves : ret = 0 → ∃ e, lookup keyOf ale' k = some e ∧ want (lookup keyOf ale k) e
  others : (∀ k', k' ≠ k → lookup keyOf ale' k' = lookup keyOf ale k') ∨
    ∃ old ke, ke ≠ k ∧ lookup keyOf ale ke = some old ∧ ageable old = true ∧
      (∀ i, entryType.get (ale i) ≠ typeFree) ∧ lookup keyOf ale k = none ∧
      lookup keyOf ale' ke = none ∧
      ∀ k', k' ≠ k → k' ≠ ke → lookup keyOf ale' k' = lookup keyOf ale k'

structure Deleted (ale ale' : Ale n) (ret err : ℤ) (k : Key) (want : Entry → Option Entry) :
    Prop where
  absent : lookup keyOf ale k = none → ret = err ∧ ale' = ale
  present : ∀ e, lookup keyOf ale k = some e → ret = 0 ∧ lookup keyOf ale' k = want e
  others : ∀ k', k' ≠ k → lookup keyOf ale' k' = lookup keyOf ale k'

/-- A call that ends in `r` keeps keys unique and has added the entry. -/
def Adds (ale : Ale n) (r : Ale n × ℤ) (k : Key) (want : Option Entry → Entry → Prop) : Prop :=
  UniqueKeys keyOf r.1 ∧ Added ale r.1 r.2 k want

def Deletes (ale : Ale n) (r : Ale n × ℤ) (err : ℤ) (k : Key) (want : Entry → Option Entry) :
    Prop :=
  UniqueKeys keyOf r.1 ∧ Deleted ale r.1 r.2 err k want

lemma Added.mono {ale ale' : Ale n} {ret : ℤ} {k : Key} {want want' : Option Entry → Entry → Prop}
    (h : Added ale ale' ret k want)
    (hw : ∀ e, keyOf e = some k → want (lookup keyOf ale k) e → want' (lookup keyOf ale k) e) :
    Added ale ale' ret k want' where
  ret_eq := h.ret_eq
  full := h.full
  leaves := by
    intro hok
    obtain ⟨e, he, hwant⟩ := h.leaves hok
    exact ⟨e, he, hw e (key_of_lookup he) hwant⟩
  others := h.others

variable {ale : Ale n} {k : Key} {e : Entry}

lemma write_found (h : UniqueKeys keyOf ale) {i : Fin n} (hi : keyOf (ale i) = some k)
    (he : keyOf e = none ∨ keyOf e = some k) : UniqueKeys keyOf (update ale i e) ∧
      ∀ k', k' ≠ k → lookup keyOf (update ale i e) k' = lookup keyOf ale k' := by
  have hsome : keyOf (ale i) ≠ none := by rw [hi]; exact nofun
  have hunique : UniqueKeys keyOf (update ale i e) := by
    apply unique_update h
    intro j hj hne heq
    have hk := he.resolve_left hne
    exact hj (h i j hsome (hi.trans (hk.symm.trans heq.symm))).symm
  refine ⟨hunique, ?_⟩
  intro k' hk'
  apply lookup_update_of_ne hunique
  · rcases he with he | he
    · rw [he]
      exact nofun
    · rw [he]
      exact fun heq => hk' (some.inj heq).symm
  · rw [hi]
    exact fun heq => hk' (some.inj heq).symm

lemma unique_write_new (h : UniqueKeys keyOf ale) (hnone : lookup keyOf ale k = none)
    (he : keyOf e = some k) (i : Fin n) : UniqueKeys keyOf (update ale i e) := by
  apply unique_update h
  intro j _ _ heq
  exact lookup_eq_none_iff.mp hnone j (heq.trans he)

lemma ageable_key (h : ageable e = true) : ∃ k, keyOf e = some k := by
  rw [ageable, Bool.and_eq_true, Bool.and_eq_true, Bool.and_eq_true] at h
  exact ⟨_, if_pos h.1.1.1⟩

/-- **Adding an entry.** -/
lemma addEntry_right (h : UniqueKeys keyOf ale) (he : keyOf e = some k) :
    Adds ale (addEntry ale (search (fun e => keyOf e == some k) ale) e) k fun _ e' => e' = e := by
  cases hfound : search (fun e => keyOf e == some k) ale with
  | some i =>
    have hi := search_key hfound
    obtain ⟨hunique, hothers⟩ := write_found h hi (.inr he)
    have hadd : addEntry ale (some i) e = (update ale i e, 0) := rfl
    rw [hadd]
    refine ⟨hunique, .inl rfl, fun hret : 0 = enomem => absurd hret (by decide), ?_, .inl hothers⟩
    intro _
    exact ⟨e, lookup_update_self hunique he, rfl⟩
  | none =>
    have hnone : lookup keyOf ale k = none := by rw [lookup, hfound]; rfl
    have hne : ∀ {k'}, k' ≠ k → keyOf e ≠ some k' := by
      intro k' hk' heq
      exact hk' (some.inj (he.symm.trans heq)).symm
    cases hfree : cpswAleMatchFree ale with
    | some i =>
      have htype := search_eq_some (p := fun e => entryType.get e == typeFree) hfree
      have hi := keyOf_eq_none (beq_iff_eq.mp htype)
      have hunique := unique_write_new h hnone he i
      have hadd : addEntry ale none e = (update ale i e, 0) := by
        simp [addEntry, hfree]
      rw [hadd]
      refine ⟨hunique, .inl rfl, fun hret : 0 = enomem => absurd hret (by decide), ?_, .inl ?_⟩
      · intro _
        exact ⟨e, lookup_update_self hunique he, rfl⟩
      · intro k' hk'
        exact lookup_update_of_ne hunique (hne hk') (by rw [hi]; exact some_ne_none k' |>.symm)
    | none =>
      have hfull : ∀ i, entryType.get (ale i) ≠ typeFree := by
        intro i heq
        have hi := search_eq_none hfree i
        rw [heq] at hi
        cases hi
      cases hage : cpswAleFindAgeable ale with
      | some i =>
        have hi := search_eq_some hage
        obtain ⟨ke, hke⟩ := ageable_key hi
        have hkek : ke ≠ k := by
          rintro rfl
          exact lookup_eq_none_iff.mp hnone i hke
        have hunique := unique_write_new h hnone he i
        have hadd : addEntry ale none e = (update ale i e, 0) := by
          simp [addEntry, hfree, hage]
        rw [hadd]
        refine ⟨hunique, .inl rfl, fun hret : 0 = enomem => absurd hret (by decide),
          ?_, .inr ⟨ale i, ke, hkek, h.lookup_eq_some hke, hi, hfull, hnone, ?_, ?_⟩⟩
        · intro _
          exact ⟨e, lookup_update_self hunique he, rfl⟩
        · exact lookup_update_old h hke (hne hkek)
        · intro k' hk' hk'e
          refine lookup_update_of_ne hunique (hne hk') ?_
          rw [hke]
          exact fun heq => hk'e (some.inj heq).symm
      | none =>
        have hadd : addEntry ale none e = (ale, enomem) := by simp [addEntry, hfree, hage]
        rw [hadd]
        refine ⟨h, .inr rfl, fun _ => ⟨rfl, hnone, hfull, search_eq_none hage⟩,
          fun hret : enomem = 0 => absurd hret (by decide), .inl fun _ _ => rfl⟩

@[simp] lemma get_zeroEntry (f : BitField 3 32) : f.get zeroEntry = 0 := by
  simp [BitField.get, zeroEntry]

section

variable (addr : Mac) (port flags ports sup state vid : BitVec 32)

lemma ucastEntry_fields (type : BitVec 32) :
    entryType.get (ucastEntry type addr port flags) = type &&& entryType.mask ∧
      cpswAleGetAddr (ucastEntry type addr port flags) = addr ∧
      vlanId.get (ucastEntry type addr port flags) = 0 := by
  simp (disch := decide) [ucastEntry, get_set, get_set_of_apart, get_setAddr_of_apart,
    getAddr_set_of_apart, getAddr_setAddr, get_zeroEntry]

structure IsUcast (type port flags : BitVec 32) (e : Entry) : Prop where
  type_eq : entryType.get e = type
  ucast_eq : ucastType.get e = ucastPersistant
  secure_eq : secure.get e = if flags &&& aleSecure ≠ 0 then 1 else 0
  blocked_eq : blocked.get e = if flags &&& aleBlocked ≠ 0 then 1 else 0
  port_eq : portNum.get e = port &&& 3

lemma isUcast_ucastEntry (type : BitVec 32) (htype : type &&& entryType.mask = type) :
    IsUcast type port flags (ucastEntry type addr port flags) where
  type_eq := (ucastEntry_fields addr port flags type).1.trans htype
  ucast_eq := by
    simp (disch := decide) only [ucastEntry, get_set, get_set_of_apart]
    decide
  secure_eq := by
    simp (disch := decide) only [ucastEntry, get_set, get_set_of_apart]
    split <;> decide
  blocked_eq := by
    simp (disch := decide) only [ucastEntry, get_set, get_set_of_apart]
    split <;> decide
  port_eq := by
    simp (disch := decide) only [ucastEntry, get_set]
    rfl

variable {type : BitVec 32}

lemma keyOf_ucastEntry (htype : type = typeAddr ∨ type = typeVlanAddr) :
    keyOf (ucastEntry type addr port flags) = some (.addr addr 0) := by
  obtain ⟨htype', haddr, hvid⟩ := ucastEntry_fields addr port flags type
  have hmask : type &&& entryType.mask = type := by
    rcases htype with rfl | rfl <;> decide
  rw [keyOf, if_pos (isAddr_of_type (by rw [htype', hmask]; exact htype)), haddr, hvid]

lemma ouiEntry_fields :
    entryType.get (ouiEntry addr) = typeAddr ∧ ucastType.get (ouiEntry addr) = ucastOui := by
  simp (disch := decide) only [ouiEntry, get_set, get_set_of_apart, get_setAddr_of_apart]
  decide

lemma keyOf_ouiEntry : keyOf (ouiEntry addr) = some (.addr addr 0) := by
  rw [keyOf, if_pos (isAddr_of_type (.inl (ouiEntry_fields addr).1))]
  simp (disch := decide) [ouiEntry, get_set_of_apart, get_setAddr_of_apart, getAddr_set_of_apart,
    getAddr_setAddr, get_zeroEntry]

lemma keyOf_set_vlanId (he : isAddr e = true) (hvid : vid &&& vlanId.mask = vid) :
    keyOf (vlanId.set vid e) = some (.addr (cpswAleGetAddr e) vid) := by
  have haddr : isAddr (vlanId.set vid e) = true := by
    rw [isAddr, get_set_of_apart (by decide)]
    exact he
  rw [keyOf, if_pos haddr, get_set, hvid, getAddr_set_of_apart (by decide)]

structure IsMcast (type ports sup state : BitVec 32) (old : Option Entry) (e : Entry) : Prop where
  type_eq : entryType.get e = type
  state_eq : mcastState.get e = state &&& 3
  super_eq : super.get e = sup &&& 1
  ports_eq : portMask.get e = (ports ||| portMask.get (old.getD zeroEntry)) &&& 7

lemma isMcast_mcastEntry (htype : type &&& entryType.mask = type) {setVid : Entry → Entry}
    (hset : ∀ {f : BitField 3 32} {e : Entry}, vlanId.Apart f → f.get (setVid e) = f.get e)
    (old : Option Entry) : IsMcast type ports sup state old
      (mcastEntry type setVid addr ports sup state (old.getD zeroEntry)) where
  type_eq := by
    simp (disch := decide) only [mcastEntry, hset, get_set, get_set_of_apart, get_setAddr_of_apart]
    exact htype
  state_eq := by
    simp (disch := decide) only [mcastEntry, get_set, get_set_of_apart]
    rfl
  super_eq := by
    simp (disch := decide) only [mcastEntry, get_set, get_set_of_apart]
    rfl
  ports_eq := by
    simp (disch := decide) only [mcastEntry, hset, get_set, get_set_of_apart, get_setAddr_of_apart]
    rfl

lemma keyOf_mcastEntry (e : Entry) : keyOf (mcastEntry typeAddr id addr ports sup state e) =
      some (.addr addr (vlanId.get e)) := by
  have htype : entryType.get (mcastEntry typeAddr id addr ports sup state e) = typeAddr := by
    simp (disch := decide) only [mcastEntry, id, get_set, get_set_of_apart, get_setAddr_of_apart]
    decide
  rw [keyOf, if_pos (isAddr_of_type (.inl htype))]
  simp (disch := decide) [mcastEntry, id, get_set_of_apart, get_setAddr_of_apart,
    getAddr_set_of_apart, getAddr_setAddr]

lemma keyOf_mcastEntry_vlan (e : Entry) (hvid : vid &&& vlanId.mask = vid) :
    keyOf (mcastEntry typeVlanAddr (vlanId.set vid) addr ports sup state e) =
      some (.addr addr vid) := by
  have htype : entryType.get (mcastEntry typeVlanAddr (vlanId.set vid) addr ports sup state e) =
      typeVlanAddr := by
    simp (disch := decide) only [mcastEntry, get_set, get_set_of_apart, get_setAddr_of_apart]
    decide
  rw [keyOf, if_pos (isAddr_of_type (.inr htype))]
  simp (disch := decide) [mcastEntry, get_set, get_set_of_apart, getAddr_set_of_apart,
    getAddr_setAddr, hvid]

structure IsVlan (port untag regMcast unregMcast : BitVec 32) (e : Entry) : Prop where
  untag_eq : vlanUntagForce.get e = untag &&& 7
  reg_eq : vlanRegMcast.get e = regMcast &&& 7
  unreg_eq : vlanUnregMcast.get e = unregMcast &&& 7
  members_eq : vlanMemberList.get e = port &&& 7

variable (untag regMcast unregMcast : BitVec 32) (e : Entry)

lemma isVlan_vlanEntry :
    IsVlan port untag regMcast unregMcast (vlanEntry vid port untag regMcast unregMcast e) where
  untag_eq := by
    simp (disch := decide) only [vlanEntry, get_set, get_set_of_apart]
    rfl
  reg_eq := by
    simp (disch := decide) only [vlanEntry, get_set, get_set_of_apart]
    rfl
  unreg_eq := by
    simp (disch := decide) only [vlanEntry, get_set, get_set_of_apart]
    rfl
  members_eq := by
    simp (disch := decide) only [vlanEntry, get_set]
    rfl

lemma keyOf_vlanEntry (hvid : vid &&& vlanId.mask = vid) :
    keyOf (vlanEntry vid port untag regMcast unregMcast e) = some (.vlan vid) := by
  have htype : entryType.get (vlanEntry vid port untag regMcast unregMcast e) = typeVlan := by
    simp (disch := decide) only [vlanEntry, get_set, get_set_of_apart]
    decide
  rw [keyOf_eq_vlan htype]
  simp (disch := decide) [vlanEntry, get_set, get_set_of_apart, hvid]

end

def withoutPorts (ports : BitVec 32) (e : Entry) : Option Entry :=
  if portMask.get e &&& ports = 0 then some e
  else if portMask.get e &&& ~~~ports = 0 then none
  else some (portMask.set (portMask.get e &&& ~~~ports) e)

/-- What is left of an entry after `cpsw_ale_flush`. -/
def flushed (ports : BitVec 32) (e : Entry) : Option Entry :=
  if !isAddr e then some e
  else if mcast.get e ≠ 0 then withoutPorts ports e
  else if BitVec.twoPow 32 (portNum.get e).toNat &&& ports = 0 then some e
  else none

/-- What is left of an entry after `cpsw_ale_flush_multicast`. -/
def multicastFlushed (ports : BitVec 32) (e : Entry) : Option Entry :=
  if isAddr e ∧ mcast.get e ≠ 0 ∧ !isBroadcast (cpswAleGetAddr e) then withoutPorts ports e
  else some e

/-- What is left of an entry after `cpsw_ale_flush_vlan_multicast`. -/
def vlanMulticastFlushed (vid ports : BitVec 32) (e : Entry) : Option Entry :=
  if entryType.get e = typeVlanAddr ∧ vlanId.get e = vid ∧ mcast.get e ≠ 0 ∧
      !isBroadcast (cpswAleGetAddr e) then withoutPorts ports e
  else some e

/-- Of `e` is left what `left` says: nothing, or an entry `e'` with its key. -/
def LeftOf (e : Entry) (left : Option Entry) (e' : Entry) : Prop :=
  (left = none ∧ keyOf e' = none) ∨ (left = some e' ∧ keyOf e' = keyOf e)

lemma leftOf_self (e : Entry) : LeftOf e (some e) e := .inr ⟨rfl, rfl⟩

lemma leftOf_free (e : Entry) : LeftOf e none (entryType.set typeFree e) :=
  .inl ⟨rfl, keyOf_free e⟩

section

variable {p q r : Prop} [Decidable p] [Decidable q] [Decidable r] {l l' : Option Entry}
  {e1 e2 : Entry}

lemma leftOf_ite (h1 : LeftOf e l e1) (h2 : LeftOf e l' e2) :
    LeftOf e (if p then l else l') (if p then e1 else e2) := by
  by_cases hp : p
  · rw [if_pos hp, if_pos hp]
    exact h1
  · rw [if_neg hp, if_neg hp]
    exact h2

/-- A flush that passes over what is not `p` before it looks at `q`. -/
lemma leftOf_guarded (hr : r ↔ ¬p) (h1 : LeftOf e l e1) :
    LeftOf e (if p ∧ q then l else some e) (if r then e else if q then e1 else e) := by
  rw [ite_and]
  by_cases hp : p
  · rw [if_pos hp, if_neg (fun h => hr.mp h hp)]
    exact leftOf_ite h1 (leftOf_self e)
  · rw [if_neg hp, if_pos (hr.mpr hp)]
    exact leftOf_self e

end

def Leaves (left : Entry → Option Entry) (f : Entry → Entry) : Prop :=
  ∀ e, LeftOf e (left e) (f e)

section

variable (ports : BitVec 32)

lemma leaves_flushMcast : Leaves (withoutPorts ports) (cpswAleFlushMcast ports) := by
  intro e
  unfold withoutPorts cpswAleFlushMcast
  simp only [ne_eq, ite_not]
  exact leftOf_ite (leftOf_self e)
    (leftOf_ite (leftOf_free e) (.inr ⟨rfl, keyOf_set_portMask _ e⟩))

lemma leaves_flush : Leaves (flushed ports) (flushEntry ports) := by
  intro e
  exact leftOf_ite (leftOf_self e)
    (leftOf_ite (leaves_flushMcast ports e) (leftOf_ite (leftOf_self e) (leftOf_free e)))

end

variable {left : Entry → Option Entry}

/-- **Deleting or changing an entry.** -/
lemma changeEntry_right (h : UniqueKeys keyOf ale) (err : ℤ) {change : Entry → Entry}
    (hleft : ∀ e, keyOf e = some k → LeftOf e (left e) (change e)) :
    Deletes ale (changeEntry ale (search (fun e => keyOf e == some k) ale) err change) err k
      left := by
  cases hfound : search (fun e => keyOf e == some k) ale with
  | none =>
    have hnone : lookup keyOf ale k = none := by rw [lookup, hfound]; rfl
    refine ⟨h, fun _ => ⟨rfl, rfl⟩, ?_, fun _ _ => rfl⟩
    intro e he
    rw [hnone] at he
    cases he
  | some i =>
    have hi := search_key hfound
    have hlook := lookup_of_search hfound
    have hkey : keyOf (change (ale i)) = none ∨ keyOf (change (ale i)) = some k :=
      (hleft (ale i) hi).imp And.right fun h => h.2.trans hi
    obtain ⟨hunique, hothers⟩ := write_found h hi hkey
    refine ⟨hunique, ?_, ?_, hothers⟩
    · intro hnone
      rw [hlook] at hnone
      cases hnone
    · intro e he
      cases hlook.symm.trans he
      refine ⟨rfl, ?_⟩
      rcases hleft (ale i) hi with ⟨hl, hnone⟩ | ⟨hl, hsome⟩
      · rw [hl]
        exact lookup_update_old h hi (by rw [hnone]; exact some_ne_none k |>.symm)
      · rw [hl]
        exact lookup_update_self hunique (hsome.trans hi)

/-- **Flushing** an entry at a time is flushing the map. -/
lemma flush_right {f : Entry → Entry} (hf : Leaves left f) (h : UniqueKeys keyOf ale) :
    UniqueKeys keyOf (f ∘ ale) ∧
      ∀ k, lookup keyOf (f ∘ ale) k = (lookup keyOf ale k).bind left := by
  have hkey : ∀ e, keyOf (f e) = none ∨ keyOf (f e) = keyOf e := by
    intro e
    rcases hf e with ⟨_, hnone⟩ | ⟨_, hsame⟩
    · exact .inl hnone
    · exact .inr hsame
  refine ⟨unique_map h hkey, ?_⟩
  intro k
  rw [lookup_map h hkey]
  cases hl : lookup keyOf ale k with
  | none => rfl
  | some e =>
    rw [map_some, bind_some, filter_some]
    rcases hf e with ⟨hleft, hnone⟩ | ⟨hleft, hsame⟩
    · rw [hleft, hnone]
      rfl
    · rw [hleft, if_pos]
      rw [hsame, key_of_lookup hl, beq_self_eq_true]

inductive Op where
  | addUcast (addr : Mac) (port flags : BitVec 32)
  | vlanAddUcast (addr : Mac) (port flags : BitVec 32) (vid : BitVec 12)
  | addOui (addr : Mac)
  | delUcast (addr : Mac) (port : BitVec 32)
  | vlanDelUcast (addr : Mac) (port : BitVec 32) (vid : BitVec 12)
  | addMcast (addr : Mac) (ports sup state : BitVec 32)
  | vlanAddMcast (addr : Mac) (ports : BitVec 32) (vid : BitVec 12) (sup state : BitVec 32)
  | delMcast (addr : Mac) (ports : BitVec 32)
  | vlanDelMcast (addr : Mac) (ports : BitVec 32) (vid : BitVec 12)
  | addVlan (vid : BitVec 12) (port untag regMcast unregMcast : BitVec 32)
  | delVlan (vid : BitVec 12) (port : BitVec 32)
  | flush (ports : BitVec 32)
  | flushMulticast (ports : BitVec 32)
  | flushVlanMulticast (vid : BitVec 12) (ports : BitVec 32)

def Op.run (ale : Ale n) : Op → Ale n × ℤ
  | .addUcast addr port flags => cpswAleAddUcast ale addr port flags
  | .vlanAddUcast addr port flags vid => cpswAleVlanAddUcast ale addr port flags (vid.setWidth 16)
  | .addOui addr => cpswAleAddOui ale addr
  | .delUcast addr port => cpswAleDelUcast ale addr port
  | .vlanDelUcast addr port vid => cpswAleVlanDelUcast ale addr port (vid.setWidth 16)
  | .addMcast addr ports sup state => cpswAleAddMcast ale addr ports sup state
  | .vlanAddMcast addr ports vid sup state =>
    cpswAleVlanAddMcast ale addr ports (vid.setWidth 16) sup state
  | .delMcast addr ports => cpswAleDelMcast ale addr ports
  | .vlanDelMcast addr ports vid => cpswAleVlanDelMcast ale addr ports (vid.setWidth 16)
  | .addVlan vid port untag regMcast unregMcast =>
    cpswAleAddVlan ale (vid.setWidth 16) port untag regMcast unregMcast
  | .delVlan vid port => cpswAleDelVlan ale (vid.setWidth 16) port
  | .flush ports => cpswAleFlush ale ports
  | .flushMulticast ports => cpswAleFlushMulticast ale ports
  | .flushVlanMulticast vid ports => (cpswAleFlushVlanMulticast ale (vid.setWidth 16) ports, 0)

def vidWord (vid : BitVec 12) : BitVec 32 := (vid.setWidth 16).setWidth 32

lemma vidWord_and_mask (vid : BitVec 12) : vidWord vid &&& vlanId.mask = vidWord vid := by
  apply BitVec.eq_of_getLsbD_eq
  intro i _
  rw [BitVec.getLsbD_and, getLsbD_mask, vidWord, BitVec.getLsbD_setWidth, BitVec.getLsbD_setWidth]
  by_cases hi : i < 12
  · simp [hi, show vlanId.bits = 12 from rfl]
  · simp [BitVec.getLsbD_of_ge vid i (by omega)]

def keepPorts (ports : BitVec 32) (e : Entry) : Option Entry :=
  if ports ≠ 0 then some (portMask.set ports e) else none

def withoutMembers (port : BitVec 32) (e : Entry) : Option Entry :=
  if vlanMemberList.get e &&& ~~~port = 0 then none
  else some (vlanMemberList.set (vlanMemberList.get e &&& ~~~port) e)

def Op.Right (ale : Ale n) (op : Op) : Prop :=
  match op with
  | .addUcast addr port flags =>
    Added ale (op.run ale).1 (op.run ale).2 (.addr addr 0) fun _ => IsUcast typeAddr port flags
  | .vlanAddUcast addr port flags vid =>
    Added ale (op.run ale).1 (op.run ale).2 (.addr addr (vidWord vid)) fun _ =>
      IsUcast typeVlanAddr port flags
  | .addOui addr =>
    Added ale (op.run ale).1 (op.run ale).2 (.addr addr 0) fun _ e =>
      entryType.get e = typeAddr ∧ ucastType.get e = ucastOui
  | .delUcast addr _ =>
    Deleted ale (op.run ale).1 (op.run ale).2 enoent (.addr addr 0) fun _ => none
  | .vlanDelUcast addr _ vid =>
    Deleted ale (op.run ale).1 (op.run ale).2 enoent (.addr addr (vidWord vid)) fun _ => none
  | .addMcast addr ports sup state =>
    Added ale (op.run ale).1 (op.run ale).2 (.addr addr 0) (IsMcast typeAddr ports sup state)
  | .vlanAddMcast addr ports vid sup state =>
    Added ale (op.run ale).1 (op.run ale).2 (.addr addr (vidWord vid))
      (IsMcast typeVlanAddr ports sup state)
  | .delMcast addr ports =>
    Deleted ale (op.run ale).1 (op.run ale).2 einval (.addr addr 0) (keepPorts ports)
  | .vlanDelMcast addr ports vid =>
    Deleted ale (op.run ale).1 (op.run ale).2 einval (.addr addr (vidWord vid)) (keepPorts ports)
  | .addVlan vid port untag regMcast unregMcast =>
    Added ale (op.run ale).1 (op.run ale).2 (.vlan (vidWord vid)) fun _ =>
      IsVlan port untag regMcast unregMcast
  | .delVlan vid port =>
    Deleted ale (op.run ale).1 (op.run ale).2 enoent (.vlan (vidWord vid)) (withoutMembers port)
  | .flush ports => ∀ k, lookup keyOf (op.run ale).1 k = (lookup keyOf ale k).bind (flushed ports)
  | .flushMulticast ports =>
    ∀ k, lookup keyOf (op.run ale).1 k = (lookup keyOf ale k).bind (multicastFlushed ports)
  | .flushVlanMulticast vid ports =>
    ∀ k, lookup keyOf (op.run ale).1 k =
      (lookup keyOf ale k).bind (vlanMulticastFlushed (vidWord vid) ports)

section

variable (h : UniqueKeys keyOf ale)
include h

lemma addAddr_right (addr : Mac) (vid : BitVec 16) {e : Entry}
    {want : Option Entry → Entry → Prop} (he : keyOf e = some (.addr addr (vid.setWidth 32)))
    (hwant : want (lookup keyOf ale (.addr addr (vid.setWidth 32))) e) :
    Adds ale (addEntry ale (cpswAleMatchAddr ale addr vid) e) (.addr addr (vid.setWidth 32))
      want := by
  rw [matchAddr_eq]
  obtain ⟨hunique, hadd⟩ := addEntry_right h he
  refine ⟨hunique, hadd.mono ?_⟩
  rintro _ _ rfl
  exact hwant

lemma delUcast_right (addr : Mac) (port : BitVec 32) (vid : BitVec 16) :
    Deletes ale (cpswAleVlanDelUcast ale addr port vid) enoent (.addr addr (vid.setWidth 32))
      fun _ => none := by
  rw [cpswAleVlanDelUcast, matchAddr_eq]
  apply changeEntry_right h
  intro e _
  exact .inl ⟨rfl, keyOf_free zeroEntry⟩

lemma delMcast_right (addr : Mac) (ports : BitVec 32) (vid : BitVec 16) :
    Deletes ale (cpswAleVlanDelMcast ale addr ports vid) einval (.addr addr (vid.setWidth 32))
      (keepPorts ports) := by
  rw [cpswAleVlanDelMcast, matchAddr_eq]
  apply changeEntry_right h
  intro e _
  exact leftOf_ite (.inr ⟨rfl, keyOf_set_portMask ports e⟩) (leftOf_free e)

/-- **One operation** keeps keys unique and is right. -/
lemma op_right (op : Op) : UniqueKeys keyOf (op.run ale).1 ∧ op.Right ale := by
  cases op with
  | addUcast addr port flags =>
    exact addAddr_right h addr 0 (keyOf_ucastEntry addr port flags (.inl rfl))
      (isUcast_ucastEntry addr port flags typeAddr (by decide))
  | vlanAddUcast addr port flags vid =>
    have hucast := isUcast_ucastEntry addr port flags typeVlanAddr (by decide)
    have hkey := keyOf_set_vlanId (vidWord vid) (isAddr_of_type (.inr hucast.type_eq))
      (vidWord_and_mask vid)
    rw [(ucastEntry_fields addr port flags typeVlanAddr).2.1] at hkey
    refine addAddr_right h addr (vid.setWidth 16) hkey ⟨?_, ?_, ?_, ?_, ?_⟩
    · exact (get_set_of_apart (by decide)).trans hucast.type_eq
    · exact (get_set_of_apart (by decide)).trans hucast.ucast_eq
    · exact (get_set_of_apart (by decide)).trans hucast.secure_eq
    · exact (get_set_of_apart (by decide)).trans hucast.blocked_eq
    · exact (get_set_of_apart (by decide)).trans hucast.port_eq
  | addOui addr =>
    exact addAddr_right h addr 0 (keyOf_ouiEntry addr) (ouiEntry_fields addr)
  | delUcast addr port => exact delUcast_right h addr port 0
  | vlanDelUcast addr port vid => exact delUcast_right h addr port (vid.setWidth 16)
  | addMcast addr ports sup state =>
    have hold : readFound ale (cpswAleMatchAddr ale addr 0) =
        (lookup keyOf ale (.addr addr 0)).getD zeroEntry := by rw [matchAddr_eq]; rfl
    -- the entry that was found has no VLAN id, which is kept
    have hvid : vlanId.get ((lookup keyOf ale (.addr addr 0)).getD zeroEntry) = 0 := by
      cases hl : lookup keyOf ale (.addr addr 0) with
      | none => exact get_zeroEntry vlanId
      | some e => exact (keyOf_eq_addr_iff.mp (key_of_lookup hl)).2.2
    refine addAddr_right h addr 0 ?_ ?_
    · rw [hold, keyOf_mcastEntry, hvid]
      rfl
    · rw [hold]
      exact isMcast_mcastEntry addr ports sup state (by decide) (fun _ => rfl) _
  | vlanAddMcast addr ports vid sup state =>
    have hold : readFound ale (cpswAleMatchAddr ale addr (vid.setWidth 16)) =
        (lookup keyOf ale (.addr addr (vidWord vid))).getD zeroEntry := by
      rw [matchAddr_eq]
      rfl
    refine addAddr_right h addr (vid.setWidth 16) ?_ ?_
    · exact keyOf_mcastEntry_vlan addr ports sup state (vidWord vid) _ (vidWord_and_mask vid)
    · rw [hold]
      exact isMcast_mcastEntry addr ports sup state (by decide)
        (fun hf => get_set_of_apart hf) _
  | delMcast addr ports => exact delMcast_right h addr ports 0
  | vlanDelMcast addr ports vid => exact delMcast_right h addr ports (vid.setWidth 16)
  | addVlan vid port untag regMcast unregMcast =>
    have hkey := keyOf_vlanEntry port (vidWord vid) untag regMcast unregMcast
      (readFound ale (cpswAleMatchVlan ale (vid.setWidth 16))) (vidWord_and_mask vid)
    obtain ⟨hunique, hadd⟩ := addEntry_right h hkey
    have hmatch : cpswAleMatchVlan ale (vid.setWidth 16) =
        search (fun e => keyOf e == some (.vlan (vidWord vid))) ale := matchVlan_eq ..
    rw [← hmatch] at hunique hadd
    refine ⟨hunique, hadd.mono ?_⟩
    rintro _ _ rfl
    exact isVlan_vlanEntry ..
  | delVlan vid port =>
    show Deletes ale (cpswAleDelVlan ale (vid.setWidth 16) port) enoent _ _
    rw [cpswAleDelVlan, matchVlan_eq]
    apply changeEntry_right h
    intro e he
    obtain ⟨htype, hvid⟩ := keyOf_eq_vlan_iff.mp he
    refine leftOf_ite (leftOf_free e) (.inr ⟨rfl, ?_⟩)
    rw [he, keyOf_eq_vlan_iff, get_set_of_apart (by decide), get_set_of_apart (by decide)]
    exact ⟨htype, hvid⟩
  | flush ports => exact flush_right (leaves_flush ports) h
  | flushMulticast ports =>
    exact flush_right (fun e => leftOf_guarded (by simp) (leaves_flushMcast ports e)) h
  | flushVlanMulticast vid ports =>
    refine flush_right (fun e => ?_) h
    unfold vlanMulticastFlushed
    simp only [← and_assoc (a := entryType.get e = typeVlanAddr)]
    exact leftOf_guarded not_and_or.symm (leaves_flushMcast ports e)

end

def aleMachine (ale : Ale n) : Machine (Ale n) Op where
  init := ale
  step ale op := some (op.run ale).1

/-- From any table without a key twice, whatever the operations, no key ever occurs twice, and every
operation is right. -/
theorem ale_operations_right (ale : Ale n) (h : UniqueKeys keyOf ale) (ops : List Op) :
    (aleMachine ale).Always (UniqueKeys keyOf) ale ops ∧
      (aleMachine ale).Guarded (fun ale op => op.Right ale) ale ops := by
  have hunique : (aleMachine ale).Always (UniqueKeys keyOf) ale ops := by
    refine Machine.always_of_step _ ?_ h ops
    intro s op s' hs hstep
    exact Option.some.inj hstep ▸ (op_right hs op).1
  exact ⟨hunique, Machine.Always.guarded _ (fun s op _ hs _ => (op_right hs op).2) hunique⟩

def learned : Ale 4 :=
  update (fun _ => zeroEntry) 2
    (portNum.set 1 (ucastType.set 3 (cpswAleSetAddr (fun _ => 0x12)
      (entryType.set typeAddr zeroEntry))))

/-- The fifth operation finds no free entry and takes the learned one. -/
theorem ale_operations_right_learned : (aleMachine learned).Always (UniqueKeys keyOf) learned
        [.addVlan 5 7 0 7 7, .vlanAddMcast (fun _ => 0xff) 3 5 0 0, .addUcast (fun _ => 2) 0 1,
          .vlanAddMcast (fun _ => 0xff) 4 5 0 0, .addOui (fun _ => 4), .flush 1] ∧
      (aleMachine learned).Guarded (fun ale op => op.Right ale) learned
        [.addVlan 5 7 0 7 7, .vlanAddMcast (fun _ => 0xff) 3 5 0 0, .addUcast (fun _ => 2) 0 1,
          .vlanAddMcast (fun _ => 0xff) 4 5 0 0, .addOui (fun _ => 4), .flush 1] :=
  ale_operations_right learned (by decide +kernel) _

end Am335x.CpswAle
