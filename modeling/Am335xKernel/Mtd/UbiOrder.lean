import Am335xKernel.Mtd.UbiScan

/-!
# Which PEB is kept

`ubi_scan_add_used` settles which PEB of an LEB is kept in pairs, the one it has
against the one it is given. The PEB it has is always the newest that is not a
bad copy, or, when all are bad copies, the oldest (`Kept`). The invariant `Inv`
says this of every entry, and what the rest of the scan information is, in terms
of the PEBs that have been given, but not of their order.
-/

namespace Am335x.Ubi

open List SearchTree Prod UbiDevice

variable (ubi : UbiDevice)

def UbiDevice.leb (u : Used) : ℕ × ℕ := ((ubi.vidHdr u).volId, (ubi.vidHdr u).lnum)

def UbiDevice.sqnum (u : Used) : ℕ := (ubi.vidHdr u).sqnum

def UbiDevice.bad (u : Used) : Bool :=
  (ubi.vidHdr u).copyFlag &&
    ubi.crc32 ((ubi.peb u.pnum).data.take (ubi.vidHdr u).dataSize) ≠ (ubi.vidHdr u).dataCrc

/-- The PEB of its LEB with the highest sequence number among those that are not
bad copies; if all are, the one with the lowest. -/
structure Kept (pebs : List Used) (u : Used) : Prop where
  mem : u ∈ pebs
  newest : ubi.bad u = false →
    ∀ v ∈ pebs, ubi.leb v = ubi.leb u → ubi.bad v = false → ubi.sqnum v ≤ ubi.sqnum u
  oldest : ubi.bad u = true →
    ∀ v ∈ pebs, ubi.leb v = ubi.leb u → ubi.bad v = true ∧ ubi.sqnum u ≤ ubi.sqnum v

/-- The PEB `e` takes the place of `h`. -/
def UbiDevice.replaces (e h : Used) : Bool :=
  if ubi.sqnum h < ubi.sqnum e then !ubi.bad e else ubi.bad h

section

variable {ubi} {pebs done : List Used} {u v e h : Used}

lemma Kept.sqnum_eq (hu : Kept ubi pebs u) (hv : Kept ubi pebs v) (hleb : ubi.leb u = ubi.leb v) :
    ubi.sqnum u = ubi.sqnum v := by
  cases hbu : ubi.bad u with
  | false =>
    cases hbv : ubi.bad v with
    | false =>
      exact le_antisymm (hv.newest hbv u hu.mem hleb hbu)
        (hu.newest hbu v hv.mem hleb.symm hbv)
    | true =>
      have hbad := (hv.oldest hbv u hu.mem hleb).1
      rw [hbu] at hbad
      cases hbad
  | true =>
    obtain ⟨hbv, hle⟩ := hu.oldest hbu v hv.mem hleb.symm
    exact le_antisymm hle (hv.oldest hbv u hu.mem hleb).2

lemma Kept.of_cons (hu : Kept ubi (e :: done) u) (hmem : u ∈ done) : Kept ubi done u where
  mem := hmem
  newest hb v hv := hu.newest hb v (mem_cons_of_mem e hv)
  oldest hb v hv := hu.oldest hb v (mem_cons_of_mem e hv)

lemma Kept.cons_of_ne (hu : Kept ubi done u) (hleb : ubi.leb e ≠ ubi.leb u) :
    Kept ubi (e :: done) u where
  mem := mem_cons_of_mem e hu.mem
  newest := by
    intro hb v hv hvu
    rcases mem_cons.mp hv with rfl | hv
    · exact absurd hvu hleb
    · exact hu.newest hb v hv hvu
  oldest := by
    intro hb v hv hvu
    rcases mem_cons.mp hv with rfl | hv
    · exact absurd hvu hleb
    · exact hu.oldest hb v hv hvu

lemma kept_first (hfirst : ∀ v ∈ done, ubi.leb v ≠ ubi.leb e) : Kept ubi (e :: done) e where
  mem := mem_cons_self
  newest := by
    intro _ v hv hleb _
    rcases mem_cons.mp hv with rfl | hv
    · exact le_rfl
    · exact absurd hleb (hfirst v hv)
  oldest := by
    intro hb v hv hleb
    rcases mem_cons.mp hv with rfl | hv
    · exact ⟨hb, le_rfl⟩
    · exact absurd hleb (hfirst v hv)

lemma Kept.replaced (hh : Kept ubi done h) (hleb : ubi.leb h = ubi.leb e)
    (hne : ubi.sqnum h ≠ ubi.sqnum e) (hrep : ubi.replaces e h = true) :
    Kept ubi (e :: done) e := by
  unfold replaces at hrep
  refine ⟨mem_cons_self, ?_, ?_⟩
  · intro hbe v hv hvleb hbv
    rcases mem_cons.mp hv with rfl | hv
    · exact le_rfl
    · -- a PEB that is not bad was there before only if `h` is not bad
      have hbh : ubi.bad h = false := by
        by_contra hbh
        have hbad := (hh.oldest (by simpa using hbh) v hv (hvleb.trans hleb.symm)).1
        rw [hbv] at hbad
        cases hbad
      have hle := hh.newest hbh v hv (hvleb.trans hleb.symm) hbv
      split at hrep
      · omega
      · rw [hbh] at hrep
        cases hrep
  · intro hbe v hv hvleb
    rcases mem_cons.mp hv with rfl | hv
    · exact ⟨hbe, le_rfl⟩
    · split at hrep
      · rw [hbe] at hrep
        cases hrep
      · obtain ⟨hbv, hle⟩ := hh.oldest hrep v hv (hvleb.trans hleb.symm)
        exact ⟨hbv, by omega⟩

lemma Kept.stays (hh : Kept ubi done h) (hleb : ubi.leb h = ubi.leb e)
    (hne : ubi.sqnum h ≠ ubi.sqnum e) (hrep : ubi.replaces e h = false) :
    Kept ubi (e :: done) h := by
  unfold replaces at hrep
  refine ⟨mem_cons_of_mem e hh.mem, ?_, ?_⟩
  · intro hbh v hv hvleb hbv
    rcases mem_cons.mp hv with rfl | hv
    · split at hrep
      · rw [hbv] at hrep
        cases hrep
      · omega
    · exact hh.newest hbh v hv hvleb hbv
  · intro hbh v hv hvleb
    rcases mem_cons.mp hv with rfl | hv
    · split at hrep
      · exact ⟨by simpa using hrep, by omega⟩
      · rw [hbh] at hrep
        cases hrep
    · exact hh.oldest hbh v hv hvleb

lemma Kept.not_replaced (hh : Kept ubi pebs h) (he : e ∈ pebs) (hleb : ubi.leb h = ubi.leb e)
    (hne : ubi.sqnum h ≠ ubi.sqnum e) : ubi.replaces e h = false := by
  unfold replaces
  cases hbh : ubi.bad h with
  | false =>
    split
    · cases hbe : ubi.bad e with
      | true => rfl
      | false =>
        have hle := hh.newest hbh e he hleb.symm hbe
        omega
    · rfl
  | true =>
    obtain ⟨hbe, hle⟩ := hh.oldest hbh e he hleb.symm
    rw [if_pos (by omega), hbe]
    rfl

end

structure Describes (seb : ScanLeb) (u : Used) : Prop where
  ec : seb.ec = u.ec
  pnum : seb.pnum = u.pnum
  lnum : seb.lnum = (ubi.vidHdr u).lnum
  copyFlag : seb.copyFlag = (ubi.vidHdr u).copyFlag
  sqnum : seb.sqnum = ubi.sqnum u

lemma checkCopy_eq {ubi : UbiDevice} {u : Used} (hcopy : (ubi.vidHdr u).copyFlag = true)
    (second : Bool) : checkCopy ubi second u.pnum (ubi.vidHdr u) =
      if ubi.bad u then { secondIsNewer := !second, bitflips := false, corrupted := true }
      else
        { secondIsNewer := second, bitflips := (ubi.peb u.pnum).dataErr ≠ .none
          corrupted := false } := by
  simp [checkCopy, bad, hcopy]

/-- The result of the comparison: whether the second takes the place of the
first, and if it does, whether reading its data has reported bit-flips. -/
lemma compare_spec {ubi : UbiDevice} {seb : ScanLeb} {h e : Used} (hseb : Describes ubi seb h)
    (hne : ubi.sqnum h ≠ ubi.sqnum e) : ∃ res, compareLebs ubi seb e.pnum (ubi.vidHdr e) = .ok res ∧
      res.secondIsNewer = ubi.replaces e h ∧
      (ubi.replaces e h = true → res.bitflips = (decide (ubi.sqnum h < ubi.sqnum e) &&
        (ubi.vidHdr e).copyFlag && decide ((ubi.peb e.pnum).dataErr ≠ .none))) := by
  have hnot : ∀ u, (ubi.vidHdr u).copyFlag = false → ubi.bad u = false := by
    intro u hu
    rw [bad, hu, Bool.false_and]
  have hpeb : (ubi.peb seb.pnum).vidHdr = ubi.vidHdr h := by rw [hseb.pnum, vidHdr]
  have hsq : (ubi.vidHdr e).sqnum = ubi.sqnum e := rfl
  unfold compareLebs replaces
  rw [hseb.sqnum, hsq, if_neg (Ne.symm hne), hpeb, hseb.pnum, hseb.copyFlag]
  rcases lt_or_ge (ubi.sqnum h) (ubi.sqnum e) with hlt | hge
  · -- the second is newer: it is looked at
    rw [if_pos hlt, if_pos hlt, decide_eq_true hlt]
    cases hcopy : (ubi.vidHdr e).copyFlag with
    | false => exact ⟨_, rfl, by rw [hnot e hcopy]; rfl, fun _ => rfl⟩
    | true =>
      refine ⟨_, rfl, ?_, ?_⟩
      · rw [checkCopy_eq hcopy]
        cases ubi.bad e <;> rfl
      · intro hgood
        rw [checkCopy_eq hcopy, if_neg (by simpa using hgood)]
        rfl
  · have hnlt : ¬ ubi.sqnum h < ubi.sqnum e := by omega
    rw [if_neg hnlt, if_neg hnlt, decide_eq_false hnlt]
    cases hcopy : (ubi.vidHdr h).copyFlag with
    | false =>
      refine ⟨_, rfl, (hnot h hcopy).symm, ?_⟩
      intro hbad
      rw [hnot h hcopy] at hbad
      cases hbad
    | true =>
      refine ⟨_, rfl, ?_, ?_⟩
      · rw [checkCopy_eq hcopy]
        cases ubi.bad h <;> rfl
      · intro hbad
        rw [checkCopy_eq hcopy, if_pos hbad]
        rfl

/-- A header agrees with a volume in what `validate_vid_hdr` compares. -/
structure Fits (vidHdr : VidHdr) (sv : ScanVolume) : Prop where
  volId : vidHdr.volId = sv.volId
  volType : vidHdr.volType = sv.volType
  usedEbs : vidHdr.usedEbs = sv.usedEbs
  dataPad : vidHdr.dataPad = sv.dataPad

lemma Fits.validate {vidHdr : VidHdr} {sv : ScanVolume} (h : Fits vidHdr sv) :
    validateVidHdr vidHdr sv = 0 := by
  simp [validateVidHdr, h.volId, h.volType, h.usedEbs, h.dataPad]

structure Flips (pebs : List Used) (u : Used) : Prop where
  copy : (ubi.vidHdr u).copyFlag = true
  good : ubi.bad u = false
  dataErr : (ubi.peb u.pnum).dataErr ≠ .none
  older : ∃ v ∈ pebs, ubi.leb v = ubi.leb u ∧ ubi.sqnum v < ubi.sqnum u

structure Entry (done : List Used) (seb : ScanLeb) (u : Used) : Prop where
  kept : Kept ubi done u
  describes : Describes ubi seb u
  scrub : u.bitflips = true → seb.scrub = true
  noticed : seb.scrub = true → u.bitflips = true ∨ Flips ubi done u

def UbiDevice.ofVolume (pebs : List Used) (volId : ℕ) : List Used :=
  pebs.filter fun u => (ubi.vidHdr u).volId = volId

/-- A volume after the calls for the PEBs `done`. -/
structure VolInv (done : List Used) (volId : ℕ) (sv : ScanVolume) : Prop where
  volId_eq : sv.volId = volId
  sorted : sv.root.Sorted ScanLeb.lnum
  fits : ∀ u ∈ ubi.ofVolume done volId, Fits (ubi.vidHdr u) sv
  lebCount : sv.lebCount = sv.root.inorder.length
  absent : ∀ lnum, sv.findSeb lnum = none ↔ ∀ u ∈ done, ubi.leb u ≠ (volId, lnum)
  entry : ∀ lnum seb, sv.findSeb lnum = some seb →
    ∃ u, ubi.leb u = (volId, lnum) ∧ Entry ubi done seb u
  highest : sv.highestLnum =
    ((ubi.ofVolume done volId).map fun u => (ubi.vidHdr u).lnum).foldr max 0
  last : ubi.ofVolume done volId ≠ [] → ∃ u, Kept ubi done u ∧
    ubi.leb u = (volId, sv.highestLnum) ∧ sv.lastDataSize = some (ubi.vidHdr u).dataSize

/-- The scan information after the calls for the PEBs `done`. -/
structure Inv (done : List Used) (si : ScanInfo) : Prop where
  distinct : ∀ u ∈ done, ∀ v ∈ done, ubi.sqnum u = ubi.sqnum v → u = v
  sorted : si.volumes.Sorted ScanVolume.key
  absent : ∀ volId, si.findSv volId = none ↔ ubi.ofVolume done volId = []
  volume : ∀ volId sv, si.findSv volId = some sv → VolInv ubi done volId sv
  volsFound : si.volsFound = si.volumes.inorder.length
  highestVolId : si.highestVolId = (done.map fun u => (ubi.vidHdr u).volId).foldr max 0
  maxSqnum : si.maxSqnum = (done.map ubi.sqnum).foldr max 0
  erase_nodup : (si.erase.map Prod.fst).Nodup
  erase_mem : ∀ x, x ∈ si.erase ↔ ∃ u ∈ done, ¬ Kept ubi done u ∧ x = (u.pnum, u.ec)

/-- Two PEBs that may be on one device: they have different sequence numbers, and
if they are of one volume their headers agree. -/
structure Compatible (u v : Used) : Prop where
  sqnum : ubi.sqnum u ≠ ubi.sqnum v
  agree : (ubi.vidHdr u).volId = (ubi.vidHdr v).volId →
    (ubi.vidHdr u).volType = (ubi.vidHdr v).volType ∧
      (ubi.vidHdr u).usedEbs = (ubi.vidHdr v).usedEbs ∧
      (ubi.vidHdr u).dataPad = (ubi.vidHdr v).dataPad

def Next (done : List Used) (e : Used) : Prop := ∀ u ∈ done, Compatible ubi u e

/-- The state after `add_volume` for the PEB `e`. -/
structure Opened (done : List Used) (si : ScanInfo) (e : Used) (r : ScanInfo × ScanVolume) :
    Prop where
  found : r.1.findSv (ubi.vidHdr e).volId = some r.2
  volume : VolInv ubi done (ubi.vidHdr e).volId r.2
  fits : Fits (ubi.vidHdr e) r.2
  other : ∀ v, v ≠ (ubi.vidHdr e).volId → r.1.findSv v = si.findSv v
  sorted : r.1.volumes.Sorted ScanVolume.key
  volsFound : r.1.volsFound = r.1.volumes.inorder.length
  highestVolId : r.1.highestVolId = max (ubi.vidHdr e).volId si.highestVolId
  erase : r.1.erase = si.erase
  maxSqnum : r.1.maxSqnum = si.maxSqnum
  old : ∀ sv, si.findSv (ubi.vidHdr e).volId = some sv → r.2 = sv
  new : si.findSv (ubi.vidHdr e).volId = none →
    r.2 = newVolume (ubi.vidHdr e).volId (ubi.vidHdr e)

def ScanInfo.seb (si : ScanInfo) (leb : ℕ × ℕ) : Option ScanLeb :=
  (si.findSv leb.1).bind fun sv => sv.findSeb leb.2

def nextSeb (e : Used) : Option ScanLeb → Option ScanLeb
  | none => some (newLeb e.pnum e.ec (ubi.vidHdr e) e.bitflips)
  | some seb =>
    match compareLebs ubi seb e.pnum (ubi.vidHdr e) with
    | .ok res =>
      if res.secondIsNewer then
        some (newLeb e.pnum e.ec (ubi.vidHdr e) (res.bitflips || e.bitflips))
      else some seb
    | .error _ => some seb

structure Added (done : List Used) (si : ScanInfo) (e : Used) (si' : ScanInfo) : Prop where
  inv : Inv ubi (e :: done) si'
  seb : ∀ leb, si'.seb leb = if leb = ubi.leb e then nextSeb ubi e (si.seb leb) else si.seb leb
  compat : ∀ v sv, si.findSv v = some sv → ∃ sv', si'.findSv v = some sv' ∧ sv'.compat = sv.compat
  compat_new : si.findSv (ubi.vidHdr e).volId = none →
    ∃ sv', si'.findSv (ubi.vidHdr e).volId = some sv' ∧ sv'.compat = (ubi.vidHdr e).compat

structure Erased (done : List Used) (e : Used) (erase : List (ℕ × ℕ)) : Prop where
  nodup : (erase.map Prod.fst).Nodup
  mem : ∀ x, x ∈ erase ↔ ∃ u ∈ e :: done, ¬ Kept ubi (e :: done) u ∧ x = (u.pnum, u.ec)

section

variable {ubi} {done : List Used} {e h u : Used} {seb : ScanLeb} {sv : ScanVolume}
  {si : ScanInfo} {volId : ℕ} {lnum : ℕ}

lemma mem_ofVolume : u ∈ ubi.ofVolume done volId ↔ u ∈ done ∧ (ubi.vidHdr u).volId = volId := by
  simp [ofVolume]

lemma ofVolume_cons_self (e : Used) (done : List Used) :
    ubi.ofVolume (e :: done) (ubi.vidHdr e).volId =
      e :: ubi.ofVolume done (ubi.vidHdr e).volId := by
  rw [ofVolume, filter_cons_of_pos (by simp)]
  rfl

lemma ofVolume_cons_of_ne (hne : (ubi.vidHdr e).volId ≠ volId) :
    ubi.ofVolume (e :: done) volId = ubi.ofVolume done volId := by
  rw [ofVolume, filter_cons_of_neg (by simpa using hne)]
  rfl

lemma Flips.cons (h : Flips ubi done u) : Flips ubi (e :: done) u :=
  { h with
    older := by
      obtain ⟨v, hv, hold⟩ := h.older
      exact ⟨v, mem_cons_of_mem e hv, hold⟩ }

lemma Entry.cons (hu : Entry ubi done seb u) (hk : Kept ubi (e :: done) u) :
    Entry ubi (e :: done) seb u :=
  { hu with
    kept := hk
    noticed := fun hs => (hu.noticed hs).imp_right Flips.cons }

lemma describes_newLeb (e : Used) (scrub : Bool) :
    Describes ubi (newLeb e.pnum e.ec (ubi.vidHdr e) scrub) e := ⟨rfl, rfl, rfl, rfl, rfl⟩

/-! ### A volume -/

lemma VolInv.other (h : VolInv ubi done volId sv) (hne : (ubi.vidHdr e).volId ≠ volId) :
    VolInv ubi (e :: done) volId sv where
  volId_eq := h.volId_eq
  sorted := h.sorted
  fits := by
    rw [ofVolume_cons_of_ne hne]
    exact h.fits
  lebCount := h.lebCount
  absent := by
    intro lnum
    rw [h.absent, forall_mem_cons, and_iff_right]
    exact fun heq => hne (congrArg fst heq)
  entry := by
    intro lnum seb hseb
    obtain ⟨u, hleb, hu⟩ := h.entry lnum seb hseb
    refine ⟨u, hleb, hu.cons (hu.kept.cons_of_ne ?_)⟩
    rw [hleb]
    exact fun heq => hne (congrArg fst heq)
  highest := by
    rw [ofVolume_cons_of_ne hne]
    exact h.highest
  last := by
    rw [ofVolume_cons_of_ne hne]
    intro hsome
    obtain ⟨u, hk, hleb, hsize⟩ := h.last hsome
    refine ⟨u, hk.cons_of_ne ?_, hleb, hsize⟩
    rw [hleb]
    exact fun heq => hne (congrArg fst heq)

lemma highest_cons (e : Used) (done : List Used) :
    ((ubi.ofVolume (e :: done) (ubi.vidHdr e).volId).map fun u => (ubi.vidHdr u).lnum).foldr max 0 =
      max (ubi.vidHdr e).lnum
        (((ubi.ofVolume done (ubi.vidHdr e).volId).map fun u => (ubi.vidHdr u).lnum).foldr
          max 0) := by
  rw [ofVolume_cons_self, map_cons, foldr_cons]

lemma le_foldr_max {l : List ℕ} {n : ℕ} (h : n ∈ l) : n ≤ l.foldr max 0 := by
  induction l with
  | nil => cases h
  | cons m l ih =>
    rw [foldr_cons]
    rcases mem_cons.mp h with rfl | h
    · exact Nat.le_max_left _ _
    · exact (ih h).trans (Nat.le_max_right _ _)

lemma VolInv.lnum_le (hv : VolInv ubi done volId sv) (hu : u ∈ done)
    (hleb : ubi.leb u = (volId, lnum)) : lnum ≤ sv.highestLnum := by
  rw [hv.highest]
  refine le_foldr_max (mem_map.mpr ⟨u, mem_ofVolume.mpr ⟨hu, ?_⟩, ?_⟩)
  · exact congrArg fst hleb
  · exact congrArg snd hleb

section

variable (hv : VolInv ubi done (ubi.vidHdr e).volId sv)
include hv

lemma VolInv.fits_cons (hfits : Fits (ubi.vidHdr e) sv) (u : Used)
    (hu : u ∈ ubi.ofVolume (e :: done) (ubi.vidHdr e).volId) : Fits (ubi.vidHdr u) sv := by
  rw [ofVolume_cons_self] at hu
  rcases mem_cons.mp hu with rfl | hu
  · exact hfits
  · exact hv.fits u hu

lemma VolInv.entry_cons (hne : lnum ≠ (ubi.vidHdr e).lnum) (hseb : sv.findSeb lnum = some seb) :
    ∃ u, ubi.leb u = ((ubi.vidHdr e).volId, lnum) ∧ Entry ubi (e :: done) seb u := by
  obtain ⟨u, hleb, hu⟩ := hv.entry lnum seb hseb
  refine ⟨u, hleb, hu.cons (hu.kept.cons_of_ne ?_)⟩
  rw [hleb]
  exact fun heq => hne (congrArg snd heq).symm

end

lemma findSeb_insert (hsorted : sv.root.Sorted ScanLeb.lnum)
    (hnone : sv.findSeb (ubi.vidHdr e).lnum = none) (lnum : ℕ) :
    (sv.insert ubi e.pnum e.ec (ubi.vidHdr e) e.bitflips).findSeb lnum =
      if lnum = (ubi.vidHdr e).lnum then some (newLeb e.pnum e.ec (ubi.vidHdr e) e.bitflips)
      else sv.findSeb lnum :=
  find_insert (newLeb e.pnum e.ec (ubi.vidHdr e) e.bitflips) hsorted hnone
    (ubi.rbInsertColor.inorder_run _) lnum

lemma findSeb_replace (hsorted : sv.root.Sorted ScanLeb.lnum)
    (hseb : sv.findSeb (ubi.vidHdr e).lnum = some seb) (scrub : Bool) (lnum : ℕ) :
    (sv.replace e.pnum e.ec (ubi.vidHdr e) scrub).findSeb lnum =
      if lnum = (ubi.vidHdr e).lnum then some (newLeb e.pnum e.ec (ubi.vidHdr e) scrub)
      else sv.findSeb lnum := by
  have hlnum : seb.lnum = (ubi.vidHdr e).lnum := ((find_eq_some hsorted).mp hseb).2
  have hwrite : seb.write e.pnum e.ec (ubi.vidHdr e) scrub =
      newLeb e.pnum e.ec (ubi.vidHdr e) scrub := by
    rw [ScanLeb.write, newLeb, hlnum]
  have hf : ∀ seb : ScanLeb, (seb.write e.pnum e.ec (ubi.vidHdr e) scrub).lnum = seb.lnum :=
    fun _ => rfl
  refine (find_modify hf lnum).trans ?_
  rw [show sv.root.find ScanLeb.lnum (ubi.vidHdr e).lnum = some seb from hseb,
    Option.map_some, hwrite]
  rfl

section

variable (hv : VolInv ubi done (ubi.vidHdr e).volId sv)
include hv

variable (hfits : Fits (ubi.vidHdr e) sv)
include hfits

lemma VolInv.insert (hnone : sv.findSeb (ubi.vidHdr e).lnum = none) :
    VolInv ubi (e :: done) (ubi.vidHdr e).volId
      (sv.insert ubi e.pnum e.ec (ubi.vidHdr e) e.bitflips) := by
  have hrun := ubi.rbInsertColor.inorder_run
    (sv.root.link ScanLeb.lnum (newLeb e.pnum e.ec (ubi.vidHdr e) e.bitflips))
  have hfirst := (hv.absent _).mp hnone
  have hkept : Kept ubi (e :: done) e := kept_first hfirst
  have hfind := findSeb_insert hv.sorted hnone
  refine ⟨hv.volId_eq, ?_, ?_, ?_, ?_, ?_, ?_, ?_⟩
  · exact sorted_congr hrun
      (sorted_link hv.sorted ((find_eq_none hv.sorted).mp hnone))
  · intro u hu
    obtain ⟨hid, htype, hebs, hpad⟩ := hv.fits_cons hfits u hu
    exact ⟨hid, htype, hebs, hpad⟩
  · show sv.lebCount + 1 = (ubi.rbInsertColor.run _).inorder.length
    rw [hrun, length_link, hv.lebCount]
  · intro lnum
    rw [hfind, forall_mem_cons, ← hv.absent]
    split
    · rename_i heq
      simp [heq, leb]
    · rename_i hne
      refine (and_iff_right ?_).symm
      exact fun heq => hne (congrArg snd heq).symm
  · intro lnum seb hseb
    rw [hfind] at hseb
    split at hseb
    · rename_i heq
      cases hseb
      refine ⟨e, by rw [heq]; rfl, hkept, describes_newLeb e _, id, fun hs => .inl hs⟩
    · rename_i hne
      exact hv.entry_cons hne hseb
  · rw [highest_cons, ← hv.highest]
    show (if sv.highestLnum ≤ (ubi.vidHdr e).lnum then _ else _) = _
    split <;> omega
  · intro _
    rcases lt_or_ge (ubi.vidHdr e).lnum sv.highestLnum with hlt | hge
    · -- the volume has an LEB with a higher number
      have hsome : ubi.ofVolume done (ubi.vidHdr e).volId ≠ [] := by
        intro hnil
        have hzero := hv.highest
        rw [hnil] at hzero
        exact absurd hzero (by simp; omega)
      obtain ⟨u, hk, hleb, hsize⟩ := hv.last hsome
      refine ⟨u, hk.cons_of_ne ?_, ?_, ?_⟩
      · rw [hleb]
        exact fun heq => hlt.ne (congrArg snd heq)
      · show _ = (_, if sv.highestLnum ≤ (ubi.vidHdr e).lnum then _ else _)
        rw [if_neg (by omega)]
        exact hleb
      · show (if sv.highestLnum ≤ (ubi.vidHdr e).lnum then _ else _) = _
        rw [if_neg (by omega)]
        exact hsize
    · refine ⟨e, hkept, ?_, ?_⟩
      · show _ = (_, if sv.highestLnum ≤ (ubi.vidHdr e).lnum then _ else _)
        rw [if_pos hge]
        rfl
      · show (if sv.highestLnum ≤ (ubi.vidHdr e).lnum then _ else _) = _
        rw [if_pos hge]

variable (hseb : sv.findSeb (ubi.vidHdr e).lnum = some seb)
include hseb

lemma VolInv.replace
    (hkept : Kept ubi (e :: done) e) {scrub : Bool} (hscrub : e.bitflips = true → scrub = true)
    (hnoticed : scrub = true → e.bitflips = true ∨ Flips ubi (e :: done) e) :
    VolInv ubi (e :: done) (ubi.vidHdr e).volId (sv.replace e.pnum e.ec (ubi.vidHdr e) scrub) := by
  have hf : ∀ seb : ScanLeb, (seb.write e.pnum e.ec (ubi.vidHdr e) scrub).lnum = seb.lnum :=
    fun _ => rfl
  have hfind := findSeb_replace hv.sorted hseb scrub
  have hhighest : max (ubi.vidHdr e).lnum sv.highestLnum = sv.highestLnum := by
    obtain ⟨h, hleb, hh⟩ := hv.entry _ _ hseb
    exact Nat.max_eq_right (hv.lnum_le hh.kept.mem hleb)
  refine ⟨hv.volId_eq, ?_, ?_, ?_, ?_, ?_, ?_, ?_⟩
  · exact sorted_modify hf hv.sorted
  · intro u hu
    obtain ⟨hid, htype, hebs, hpad⟩ := hv.fits_cons hfits u hu
    exact ⟨hid, htype, hebs, hpad⟩
  · show sv.lebCount = (sv.root.modify _ _ _).inorder.length
    rw [length_modify hf, hv.lebCount]
  · intro lnum
    rw [hfind, forall_mem_cons, ← hv.absent]
    split
    · rename_i heq
      simp [heq, leb]
    · rename_i hne
      refine (and_iff_right ?_).symm
      exact fun heq => hne (congrArg snd heq).symm
  · intro lnum seb hseb
    rw [hfind] at hseb
    split at hseb
    · rename_i heq
      cases hseb
      exact ⟨e, by rw [heq]; rfl, hkept, describes_newLeb e _, hscrub, hnoticed⟩
    · rename_i hne
      exact hv.entry_cons hne hseb
  · rw [highest_cons, ← hv.highest, hhighest]
    rfl
  · intro _
    by_cases hlast : sv.highestLnum = (ubi.vidHdr e).lnum
    · refine ⟨e, hkept, ?_, if_pos hlast⟩
      show _ = (_, sv.highestLnum)
      rw [hlast]
      rfl
    · obtain ⟨h, hleb, hh⟩ := hv.entry _ _ hseb
      have hsome : ubi.ofVolume done (ubi.vidHdr e).volId ≠ [] :=
        ne_nil_of_mem (mem_ofVolume.mpr ⟨hh.kept.mem, congrArg fst hleb⟩)
      obtain ⟨u, hk, huleb, hsize⟩ := hv.last hsome
      refine ⟨u, hk.cons_of_ne ?_, huleb, (if_neg hlast).trans hsize⟩
      rw [huleb]
      exact fun heq => hlast (congrArg snd heq).symm

lemma VolInv.keep (hleb : ubi.leb h = ubi.leb e) (hh : Entry ubi done seb h)
    (hkept : Kept ubi (e :: done) h) (hsqnum : ∀ u ∈ done, ∀ v ∈ done,
      ubi.sqnum u = ubi.sqnum v → u = v) : VolInv ubi (e :: done) (ubi.vidHdr e).volId sv := by
  have hhighest : max (ubi.vidHdr e).lnum sv.highestLnum = sv.highestLnum :=
    Nat.max_eq_right (hv.lnum_le hh.kept.mem hleb)
  refine ⟨hv.volId_eq, hv.sorted, hv.fits_cons hfits, hv.lebCount, ?_, ?_, ?_, ?_⟩
  · intro lnum
    rw [forall_mem_cons, ← hv.absent]
    refine ⟨fun hnone => ⟨?_, hnone⟩, And.right⟩
    intro heq
    obtain rfl : (ubi.vidHdr e).lnum = lnum := congrArg snd heq
    rw [hseb] at hnone
    cases hnone
  · intro lnum seb' hseb'
    by_cases heq : lnum = (ubi.vidHdr e).lnum
    · subst heq
      cases hseb.symm.trans hseb'
      exact ⟨h, hleb, hh.cons hkept⟩
    · exact hv.entry_cons heq hseb'
  · rw [highest_cons, ← hv.highest, hhighest]
  · intro _
    have hsome : ubi.ofVolume done (ubi.vidHdr e).volId ≠ [] :=
      ne_nil_of_mem (mem_ofVolume.mpr ⟨hh.kept.mem, congrArg fst hleb⟩)
    obtain ⟨u, hk, huleb, hsize⟩ := hv.last hsome
    refine ⟨u, ?_, huleb, hsize⟩
    by_cases heq : ubi.leb e = ubi.leb u
    · rw [hsqnum u hk.mem h hh.kept.mem (hk.sqnum_eq hh.kept (heq.symm.trans hleb.symm))]
      exact hkept
    · exact hk.cons_of_ne heq

end

/-! ### The scan information -/

variable {f : ScanVolume → ScanVolume} {toHead : Bool} {si1 : ScanInfo} {pnum ec : ℕ}

lemma findSv_update (si : ScanInfo) (volId : ℕ)
    (hf : ∀ sv, (f sv).volId = sv.volId) (v : ℕ) : (si.update volId f).findSv v =
      if v = volId then (si.findSv volId).map f else si.findSv v := by
  have hkey : ∀ sv, (f sv).key = sv.key := by
    intro sv
    rw [ScanVolume.key, hf, ScanVolume.key]
  exact find_modify hkey (OrderDual.toDual v)

lemma Inv.volId_le (hi : Inv ubi done si) (hu : u ∈ done) :
    (ubi.vidHdr u).volId ≤ si.highestVolId := by
  rw [hi.highestVolId]
  exact le_foldr_max (mem_map.mpr ⟨u, hu, rfl⟩)

lemma volInv_newVolume (hnone : ubi.ofVolume done (ubi.vidHdr e).volId = []) :
    VolInv ubi done (ubi.vidHdr e).volId (newVolume (ubi.vidHdr e).volId (ubi.vidHdr e)) where
  volId_eq := rfl
  sorted := sorted_nil
  fits := by
    intro u hu
    rw [hnone] at hu
    cases hu
  lebCount := rfl
  absent := by
    intro lnum
    refine iff_of_true rfl ?_
    intro u hu hleb
    have hmem : u ∈ ubi.ofVolume done (ubi.vidHdr e).volId :=
      mem_ofVolume.mpr ⟨hu, congrArg fst hleb⟩
    rw [hnone] at hmem
    cases hmem
  entry := by
    intro lnum seb hseb
    cases hseb
  highest := by
    rw [hnone]
    rfl
  last := fun hsome => absurd hnone hsome

lemma Inv.addVolume (hi : Inv ubi done si) (hn : Next ubi done e) :
    Opened ubi done si e (Ubi.addVolume ubi si (ubi.vidHdr e).volId (ubi.vidHdr e)) := by
  unfold Ubi.addVolume
  rcases hfind : si.findSv (ubi.vidHdr e).volId with _ | sv
  · -- the volume is added
    have hnone := (hi.absent _).mp hfind
    have hrun := ubi.rbInsertColor.inorder_run
      (si.volumes.link ScanVolume.key (newVolume (ubi.vidHdr e).volId (ubi.vidHdr e)))
    have hins : ∀ k, SearchTree.find ScanVolume.key k (ubi.rbInsertColor.run _) = _ :=
      find_insert (newVolume (ubi.vidHdr e).volId (ubi.vidHdr e)) hi.sorted hfind hrun
    refine ⟨?_, volInv_newVolume hnone, ⟨rfl, rfl, rfl, rfl⟩, ?_, ?_, ?_, ?_, rfl, rfl, ?_,
      fun _ => rfl⟩
    · exact (hins _).trans (if_pos rfl)
    · intro v hv
      exact (hins _).trans (if_neg fun heq => hv (OrderDual.toDual_inj.mp heq))
    · exact sorted_congr hrun
        (sorted_link hi.sorted ((find_eq_none hi.sorted).mp hfind))
    · rw [hrun, length_link, hi.volsFound]
    · show (if si.highestVolId < _ then _ else _) = _
      split <;> omega
    · intro sv hsv
      rw [hfind] at hsv
      cases hsv
  · have hv := hi.volume _ _ hfind
    have hsome : ubi.ofVolume done (ubi.vidHdr e).volId ≠ [] := by
      intro hnil
      rw [(hi.absent _).mpr hnil] at hfind
      cases hfind
    obtain ⟨u, hu⟩ := exists_mem_of_ne_nil _ hsome
    have hfits := hv.fits u hu
    obtain ⟨hmem, hvol⟩ := mem_ofVolume.mp hu
    obtain ⟨htype, hebs, hpad⟩ := (hn u hmem).agree hvol
    refine ⟨hfind, hv, ⟨hv.volId_eq.symm, ?_, ?_, ?_⟩, fun _ _ => rfl, hi.sorted, hi.volsFound,
      ?_, rfl, rfl, ?_, ?_⟩
    · exact htype.symm.trans hfits.volType
    · exact hebs.symm.trans hfits.usedEbs
    · exact hpad.symm.trans hfits.dataPad
    · have hle := hi.volId_le hmem
      rw [hvol] at hle
      exact (Nat.max_eq_right hle).symm
    · intro sv' hsv'
      exact Option.some.inj (hfind.symm.trans hsv')
    · intro hnone
      rw [hfind] at hnone
      cases hnone

/-! ### The erase list -/

lemma sqnum_eq_of_pnum {u v : Used} (h : u.pnum = v.pnum) : ubi.sqnum u = ubi.sqnum v := by
  rw [sqnum, sqnum, vidHdr, vidHdr, h]

lemma mem_addToErase {x : ℕ × ℕ} :
    x ∈ (addToErase si pnum ec toHead).erase ↔ x = (pnum, ec) ∨ x ∈ si.erase := by
  unfold addToErase
  cases toHead with
  | true => exact mem_cons
  | false => simp [or_comm]

lemma erase_addToErase (herase : si1.erase = si.erase) {pnum ec m : ℕ}
    : (addToErase { si1 with maxSqnum := m } pnum ec toHead).erase =
      (addToErase si pnum ec toHead).erase := by
  unfold addToErase
  rw [herase]

lemma nodup_addToErase (h : (si.erase.map Prod.fst).Nodup) (hnew : pnum ∉ si.erase.map Prod.fst) :
    ((addToErase si pnum ec toHead).erase.map Prod.fst).Nodup := by
  unfold addToErase
  cases toHead with
  | true => exact nodup_cons.mpr ⟨hnew, h⟩
  | false =>
    simp only [Bool.false_eq_true, if_false, map_append, map_cons, map_nil]
    refine nodup_append.mpr ⟨h, nodup_singleton _, ?_⟩
    rintro a ha b hb rfl
    rw [mem_singleton.mp hb] at ha
    exact hnew ha

lemma kept_cons_iff (hu : u ∈ done)
    (hsame : Kept ubi done u → ubi.leb e = ubi.leb u → Kept ubi (e :: done) u) :
    Kept ubi (e :: done) u ↔ Kept ubi done u := by
  refine ⟨fun hk => hk.of_cons hu, fun hk => ?_⟩
  by_cases hleb : ubi.leb e = ubi.leb u
  · exact hsame hk hleb
  · exact hk.cons_of_ne hleb

lemma Inv.erased_first (hi : Inv ubi done si) (hfirst : ∀ v ∈ done, ubi.leb v ≠ ubi.leb e) :
    Erased ubi done e si.erase where
  nodup := hi.erase_nodup
  mem := by
    intro x
    have hiff : ∀ u ∈ done, (Kept ubi (e :: done) u ↔ Kept ubi done u) := by
      intro u hu
      exact kept_cons_iff hu fun _ hleb => absurd hleb.symm (hfirst u hu)
    rw [hi.erase_mem]
    constructor
    · rintro ⟨u, hu, hnot, rfl⟩
      exact ⟨u, mem_cons_of_mem e hu, (hiff u hu).not.mpr hnot, rfl⟩
    · rintro ⟨u, hu, hnot, rfl⟩
      rcases mem_cons.mp hu with rfl | hu
      · exact absurd (kept_first hfirst) hnot
      · exact ⟨u, hu, (hiff u hu).not.mp hnot, rfl⟩

/-- The one of two eraseblocks with a LEB that is not kept goes to the erase list. -/
lemma Inv.erased_add {w : Used} (hi : Inv ubi done si) (hw : w ∈ e :: done)
    (hlost : ¬ Kept ubi (e :: done) w) (hnew : ∀ u ∈ done, ¬ Kept ubi done u → u.pnum ≠ w.pnum)
    (he : e = w ∨ Kept ubi (e :: done) e)
    (hothers : ∀ u ∈ done, u ≠ w → Kept ubi done u → Kept ubi (e :: done) u) (toHead : Bool) :
    Erased ubi done e (addToErase si w.pnum w.ec toHead).erase := by
  refine ⟨nodup_addToErase hi.erase_nodup ?_, fun x => ?_⟩
  · intro hmem
    obtain ⟨x, hx, hpnum⟩ := mem_map.mp hmem
    obtain ⟨u, hu, hnot, rfl⟩ := (hi.erase_mem x).mp hx
    exact hnew u hu hnot hpnum
  · rw [mem_addToErase, hi.erase_mem]
    constructor
    · rintro (rfl | ⟨u, hu, hnot, rfl⟩)
      · exact ⟨w, hw, hlost, rfl⟩
      · exact ⟨u, mem_cons_of_mem e hu, fun hk => hnot (hk.of_cons hu), rfl⟩
    · rintro ⟨u, hu, hnot, rfl⟩
      by_cases huw : u = w
      · exact .inl (by rw [huw])
      · rcases mem_cons.mp hu with rfl | hu
        · exact absurd (he.resolve_left huw) hnot
        · exact .inr ⟨u, hu, fun hk => hnot (hothers u hu huw hk), rfl⟩

section

variable (hi : Inv ubi done si) (hn : Next ubi done e) (hh : Kept ubi done h)
  (hleb : ubi.leb h = ubi.leb e)
include hi hn hh hleb

lemma Inv.erased_old (hkept : Kept ubi (e :: done) e) (toHead : Bool) :
    Erased ubi done e (addToErase si h.pnum h.ec toHead).erase := by
  refine hi.erased_add (mem_cons_of_mem e hh.mem) ?_ ?_ (.inr hkept) ?_ toHead
  · intro hk
    exact (hn h hh.mem).sqnum (hk.sqnum_eq hkept hleb)
  · intro u hu hnot hpnum
    obtain rfl := hi.distinct u hu h hh.mem (sqnum_eq_of_pnum hpnum)
    exact hnot hh
  · intro u hu huh hk
    refine (kept_cons_iff hu ?_).mpr hk
    intro _ heq
    exact absurd (hi.distinct u hu h hh.mem (hk.sqnum_eq hh (heq.symm.trans hleb.symm))) huh

lemma Inv.erased_new (hkept : Kept ubi (e :: done) h) (toHead : Bool) :
    Erased ubi done e (addToErase si e.pnum e.ec toHead).erase := by
  refine hi.erased_add mem_cons_self ?_ ?_ (.inl rfl) ?_ toHead
  · intro hk
    exact (hn h hh.mem).sqnum (hkept.sqnum_eq hk hleb)
  · intro u hu _ hpnum
    exact (hn u hu).sqnum (sqnum_eq_of_pnum hpnum)
  · intro u hu _ hk
    refine (kept_cons_iff hu ?_).mpr hk
    intro _ heq
    rw [hi.distinct u hu h hh.mem (hk.sqnum_eq hh (heq.symm.trans hleb.symm))]
    exact hkept

end

/-! ### A call -/

lemma Opened.seb_eq {r : ScanInfo × ScanVolume} (ho : Opened ubi done si e r) (lnum : ℕ) :
    si.seb ((ubi.vidHdr e).volId, lnum) = r.2.findSeb lnum := by
  unfold ScanInfo.seb
  rcases hfind : si.findSv (ubi.vidHdr e).volId with _ | sv
  · rw [ho.new hfind]
    rfl
  · rw [ho.old sv hfind]
    rfl

section

variable {r : ScanInfo × ScanVolume} {si' : ScanInfo} (ho : Opened ubi done si e r)
  (hi : Inv ubi done si) (hn : Next ubi done e)
  (hfind : ∀ v, si'.findSv v = if v = (ubi.vidHdr e).volId then some sv else r.1.findSv v)
  (hsorted : si'.volumes.Sorted ScanVolume.key) (hvols : si'.volsFound = si'.volumes.inorder.length)
  (hhigh : si'.highestVolId = r.1.highestVolId)
  (hmax : si'.maxSqnum = max (ubi.sqnum e) r.1.maxSqnum)
  (hv : VolInv ubi (e :: done) (ubi.vidHdr e).volId sv) (herase : Erased ubi done e si'.erase)
include ho hi hn hfind hsorted hvols hhigh hmax hv herase

lemma Opened.close : Inv ubi (e :: done) si' where
  distinct := by
    intro u hu v hv hsq
    rcases mem_cons.mp hu with hue | hu'
    · rcases mem_cons.mp hv with hve | hv'
      · rw [hue, hve]
      · exact absurd (hue ▸ hsq.symm) ((hn v hv').sqnum)
    · rcases mem_cons.mp hv with hve | hv'
      · exact absurd (hve ▸ hsq) ((hn u hu').sqnum)
      · exact hi.distinct u hu' v hv' hsq
  sorted := hsorted
  absent := by
    intro v
    rw [hfind]
    split
    · rename_i heq
      rw [heq, ofVolume_cons_self]
      simp
    · rename_i hne
      rw [ho.other v hne, ofVolume_cons_of_ne (Ne.symm hne)]
      exact hi.absent v
  volume := by
    intro v sv' hsv'
    rw [hfind] at hsv'
    split at hsv'
    · rename_i heq
      cases hsv'
      exact heq ▸ hv
    · rename_i hne
      rw [ho.other v hne] at hsv'
      exact (hi.volume v sv' hsv').other (Ne.symm hne)
  volsFound := hvols
  highestVolId := by
    rw [hhigh, ho.highestVolId, hi.highestVolId, map_cons, foldr_cons]
  maxSqnum := by
    rw [hmax, ho.maxSqnum, hi.maxSqnum, map_cons, foldr_cons]
  erase_nodup := herase.nodup
  erase_mem := herase.mem

lemma Opened.added (hcompat : sv.compat = r.2.compat) (hseb : ∀ lnum, sv.findSeb lnum =
      if lnum = (ubi.vidHdr e).lnum then nextSeb ubi e (r.2.findSeb lnum) else r.2.findSeb lnum) :
    Added ubi done si e si' where
  inv := ho.close hi hn hfind hsorted hvols hhigh hmax hv herase
  seb := by
    rintro ⟨v, lnum⟩
    by_cases hvol : v = (ubi.vidHdr e).volId
    · subst hvol
      rw [ho.seb_eq]
      unfold ScanInfo.seb
      rw [hfind, if_pos rfl, Option.bind_some, hseb]
      congr 1
      simp [leb]
    · have hne : ((v, lnum) : ℕ × ℕ) ≠ ubi.leb e := fun heq => hvol (congrArg fst heq)
      unfold ScanInfo.seb
      rw [hfind, if_neg hvol, if_neg hne, ho.other v hvol]
  compat := by
    intro v sv' hsv'
    rw [hfind]
    by_cases hvol : v = (ubi.vidHdr e).volId
    · rw [if_pos hvol]
      subst hvol
      exact ⟨sv, rfl, by rw [hcompat, ho.old sv' hsv']⟩
    · rw [if_neg hvol, ho.other v hvol]
      exact ⟨sv', hsv', rfl⟩
  compat_new := by
    intro hnone
    rw [hfind, if_pos rfl]
    exact ⟨sv, rfl, by rw [hcompat, ho.new hnone]; rfl⟩

end

/-- The same for a change of the volume in place; `si1` is the state after
`add_volume` with other things changed. -/
lemma Opened.added_update {r : ScanInfo × ScanVolume} (ho : Opened ubi done si e r)
    (hi : Inv ubi done si) (hn : Next ubi done e)
    (hf : ∀ sv, (f sv).volId = sv.volId) (hvolumes : si1.volumes = r.1.volumes)
    (hvols : si1.volsFound = r.1.volsFound) (hhigh : si1.highestVolId = r.1.highestVolId)
    (hmax : si1.maxSqnum = max (ubi.sqnum e) r.1.maxSqnum)
    (hv : VolInv ubi (e :: done) (ubi.vidHdr e).volId (f r.2))
    (herase : Erased ubi done e si1.erase) (hcompat : (f r.2).compat = r.2.compat)
    (hseb : ∀ lnum, (f r.2).findSeb lnum =
      if lnum = (ubi.vidHdr e).lnum then nextSeb ubi e (r.2.findSeb lnum) else r.2.findSeb lnum) :
    Added ubi done si e (si1.update (ubi.vidHdr e).volId f) := by
  have hkey : ∀ sv, (f sv).key = sv.key := by
    intro sv
    rw [ScanVolume.key, hf, ScanVolume.key]
  have hsame : ∀ v, si1.findSv v = r.1.findSv v := by
    intro v
    rw [ScanInfo.findSv, hvolumes, ScanInfo.findSv]
  refine ho.added hi hn ?_ ?_ ?_ hhigh hmax hv herase hcompat hseb
  · intro v
    rw [findSv_update si1 _ hf, hsame, hsame, ho.found, Option.map_some]
  · refine sorted_modify hkey ?_
    rw [hvolumes]
    exact ho.sorted
  · show si1.volsFound = (si1.volumes.modify _ _ _).inorder.length
    rw [length_modify hkey, hvolumes, hvols, ho.volsFound]

lemma max_eq_ite (a b : ℕ) : (if a < b then b else a) = max b a := by
  split <;> omega

/-- **A call.** It succeeds, and keeps what is to be kept. -/
lemma Inv.add (hi : Inv ubi done si) (hn : Next ubi done e) :
    (si.add ubi e).2 = 0 ∧ Added ubi done si e (si.add ubi e).1 := by
  have ho := hi.addVolume hn
  unfold ScanInfo.add ubiScanAddUsed
  generalize Ubi.addVolume ubi si (ubi.vidHdr e).volId (ubi.vidHdr e) = r at ho
  rcases r with ⟨si1, sv⟩
  dsimp only
  rcases hfind : sv.findSeb (ubi.vidHdr e).lnum with _ | seb
  · -- the LEB is met for the first time
    rw [ho.fits.validate]
    refine ⟨rfl, ho.added_update hi hn (fun _ => rfl) rfl rfl rfl (max_eq_ite _ _)
      (ho.volume.insert ho.fits hfind) ?_ rfl ?_⟩
    · rw [ho.erase]
      exact hi.erased_first ((ho.volume.absent _).mp hfind)
    · intro lnum
      refine (findSeb_insert ho.volume.sorted hfind lnum).trans ?_
      split
      · rename_i heq
        rw [heq, hfind]
        rfl
      · rfl
  · obtain ⟨h, hleb, hh⟩ := ho.volume.entry _ _ hfind
    have hsq := (hn h hh.kept.mem).sqnum
    obtain ⟨res, hres, hnewer, hflips⟩ := compare_spec hh.describes hsq
    have hnext : nextSeb ubi e (some seb) = if res.secondIsNewer then
        some (newLeb e.pnum e.ec (ubi.vidHdr e) (res.bitflips || e.bitflips)) else some seb := by
      simp [nextSeb, hres]
    have hdiffer : ¬ (seb.sqnum = (ubi.vidHdr e).sqnum ∧ (ubi.vidHdr e).sqnum ≠ 0) := by
      rw [hh.describes.sqnum]
      exact fun heq => hsq heq.1
    dsimp only
    rw [if_neg hdiffer, hres]
    dsimp only
    rw [hnewer] at hnext
    rw [hnewer, ho.fits.validate]
    cases hrep : ubi.replaces e h with
    | true =>
      have hkept := hh.kept.replaced hleb hsq hrep
      rw [hrep] at hnext
      refine ⟨rfl, ho.added_update hi hn (fun _ => rfl) rfl rfl rfl (max_eq_ite _ _)
        (ho.volume.replace ho.fits hfind hkept (fun hb => by rw [hb, Bool.or_true]) ?_)
        ?_ rfl ?_⟩
      · intro hs
        rw [hflips hrep, Bool.or_eq_true, Bool.and_eq_true, Bool.and_eq_true,
          decide_eq_true_eq, decide_eq_true_eq] at hs
        rcases hs with ⟨⟨hlt, hcopy⟩, herr⟩ | hb
        · rw [replaces, if_pos hlt] at hrep
          exact .inr ⟨hcopy, by simpa using hrep, herr, h, mem_cons_of_mem e hh.kept.mem, hleb, hlt⟩
        · exact .inl hb
      · rw [erase_addToErase ho.erase, hh.describes.pnum, hh.describes.ec]
        exact hi.erased_old hn hh.kept hleb hkept _
      · intro lnum
        refine (findSeb_replace ho.volume.sorted hfind _ lnum).trans ?_
        split
        · rename_i heq
          rw [heq, hfind, hnext]
          rfl
        · rfl
    | false =>
      have hkept := hh.kept.stays hleb hsq hrep
      rw [hrep] at hnext
      refine ⟨rfl, ho.added hi hn ?_ ho.sorted ho.volsFound rfl (max_eq_ite _ _)
        (ho.volume.keep ho.fits hfind hleb hh hkept hi.distinct) ?_ rfl ?_⟩
      · intro v
        by_cases hvol : v = (ubi.vidHdr e).volId
        · rw [if_pos hvol, hvol]
          exact ho.found
        · rw [if_neg hvol]
          rfl
      · show Erased ubi done e (addToErase _ e.pnum e.ec res.corrupted).erase
        rw [erase_addToErase ho.erase]
        exact hi.erased_new hn hh.kept hleb hkept _
      · intro lnum
        split
        · rename_i heq
          rw [heq, hfind, hnext]
          rfl
        · rfl

end

end Am335x.Ubi
