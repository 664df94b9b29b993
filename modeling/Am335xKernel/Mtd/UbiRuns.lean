import Mathlib.Data.Finset.Card
import Am335xKernel.Mtd.UbiOrder

/-!
# The order of a scan

The PEBs that are kept, and those that are to be erased, are the same whatever
the order of the calls. Two fields of the result do depend on the order. If the
PEB that is kept is a copy, reading its data may report bit-flips; this makes it
a candidate for scrubbing when it is given after an older PEB, but not when it
comes first. And a volume gets the `compat` of the PEB that is given first.
-/

namespace Am335x.Ubi

open List SearchTree ScanInfo

variable (ubi : UbiDevice)

structure VolDescribed (pebs : List Used) (volId : ℕ) (sv : ScanVolume) : Prop where
  sorted : sv.root.Sorted ScanLeb.lnum
  absent : ∀ lnum, sv.findSeb lnum = none ↔ ∀ u ∈ pebs, ubi.leb u ≠ (volId, lnum)
  entry : ∀ lnum seb, sv.findSeb lnum = some seb →
    ∃ u, ubi.leb u = (volId, lnum) ∧ Kept ubi pebs u ∧ Describes ubi seb u
  lebCount : sv.lebCount =
    ((ubi.ofVolume pebs volId).map fun u => (ubi.vidHdr u).lnum).toFinset.card
  highest : sv.highestLnum =
    ((ubi.ofVolume pebs volId).map fun u => (ubi.vidHdr u).lnum).foldr max 0
  last : ∀ u, Kept ubi pebs u → ubi.leb u = (volId, sv.highestLnum) →
    sv.lastDataSize = some (ubi.vidHdr u).dataSize

/-- One entry for each LEB, which describes the PEB to be kept; every other PEB is
on the erase list once; and the numbers that go with this. -/
structure Described (pebs : List Used) (si : ScanInfo) : Prop where
  sorted : si.volumes.Sorted ScanVolume.key
  absent : ∀ volId, si.findSv volId = none ↔ ∀ u ∈ pebs, (ubi.vidHdr u).volId ≠ volId
  volume : ∀ volId sv, si.findSv volId = some sv → VolDescribed ubi pebs volId sv
  erase_nodup : (si.erase.map Prod.fst).Nodup
  erase_mem : ∀ x, x ∈ si.erase ↔ ∃ u ∈ pebs, ¬ Kept ubi pebs u ∧ x = (u.pnum, u.ec)
  maxSqnum : si.maxSqnum = (pebs.map ubi.sqnum).foldr max 0

def ScanVolume.view (sv : ScanVolume) : ScanVolume × List ScanLeb :=
  ({ sv with root := .nil }, sv.root.inorder)

def viewKey (p : ScanVolume × List ScanLeb) : ℕᵒᵈ := p.1.key

structure SameResult (si si' : ScanInfo) : Prop where
  volumes : si.volumes.inorder.map ScanVolume.view = si'.volumes.inorder.map ScanVolume.view
  erase : si.erase.Perm si'.erase
  volsFound : si.volsFound = si'.volsFound
  highestVolId : si.highestVolId = si'.highestVolId
  maxSqnum : si.maxSqnum = si'.maxSqnum

/-- The headers of a volume agree in `compat`; and a PEB whose data is read with
bit-flips after an older one was there has had bit-flips in its headers as well,
or is not the one to be kept. -/
structure Clean (pebs : List Used) : Prop where
  compat : ∀ u ∈ pebs, ∀ v ∈ pebs, (ubi.vidHdr u).volId = (ubi.vidHdr v).volId →
    (ubi.vidHdr u).compat = (ubi.vidHdr v).compat
  flips : ∀ u ∈ pebs, Flips ubi pebs u → u.bitflips = true ∨
    ∃ v ∈ pebs, ubi.leb v = ubi.leb u ∧ ubi.bad v = false ∧ ubi.sqnum u < ubi.sqnum v

section

variable {ubi} {done us pebs : List Used} {e h u v : Used} {seb : ScanLeb} {sv : ScanVolume}
  {si : ScanInfo}

lemma Compatible.symm (h : Compatible ubi u v) : Compatible ubi v u where
  sqnum := Ne.symm h.sqnum
  agree := by
    intro hvol
    obtain ⟨htype, hebs, hpad⟩ := h.agree hvol.symm
    exact ⟨htype.symm, hebs.symm, hpad.symm⟩

lemma inv_empty (ubi : UbiDevice) : Inv ubi [] ScanInfo.empty where
  distinct := nofun
  sorted := sorted_nil
  absent := fun _ => iff_of_true rfl rfl
  volume := nofun
  volsFound := rfl
  highestVolId := rfl
  maxSqnum := rfl
  erase_nodup := nodup_nil
  erase_mem := by
    intro x
    simp [empty]

lemma addAll_cons (h : (si.add ubi u).2 = 0) :
    si.addAll ubi (u :: us) = (si.add ubi u).1.addAll ubi us := if_neg (not_not.mpr h)

lemma next_of_pairwise (h : (done.reverse ++ e :: us).Pairwise (Compatible ubi)) :
    Next ubi done e := by
  intro u hu
  exact (pairwise_append.mp h).2.2 u (mem_reverse.mpr hu) e mem_cons_self

variable (hi : Inv ubi done si) (hus : (done.reverse ++ us).Pairwise (Compatible ubi))

include hi hus in
lemma Inv.addAll :
    (si.addAll ubi us).2 = 0 ∧ Inv ubi (us.reverse ++ done) (si.addAll ubi us).1 := by
  induction us generalizing done si with
  | nil => exact ⟨rfl, hi⟩
  | cons e us ih =>
    obtain ⟨hzero, hadd⟩ := hi.add (next_of_pairwise hus)
    rw [addAll_cons hzero, reverse_cons, append_assoc]
    exact ih hadd.inv (by simpa using hus)

variable {volId : ℕ}

include hi hus in
lemma Inv.compat_addAll (hsv : si.findSv volId = some sv) :
    ∃ sv', (si.addAll ubi us).1.findSv volId = some sv' ∧ sv'.compat = sv.compat := by
  induction us generalizing done si sv with
  | nil => exact ⟨sv, hsv, rfl⟩
  | cons e us ih =>
    obtain ⟨hzero, hadd⟩ := hi.add (next_of_pairwise hus)
    obtain ⟨sv1, hsv1, hcompat1⟩ := hadd.compat volId sv hsv
    rw [addAll_cons hzero]
    obtain ⟨sv', hsv', hcompat'⟩ := ih hadd.inv (by simpa using hus) hsv1
    exact ⟨sv', hsv', hcompat'.trans hcompat1⟩

lemma nextSeb_of_entry (hh : Entry ubi done seb h) (hsq : ubi.sqnum h ≠ ubi.sqnum e) :
    nextSeb ubi e (some seb) = if ubi.replaces e h then some (newLeb e.pnum e.ec (ubi.vidHdr e)
          (decide (ubi.sqnum h < ubi.sqnum e) && (ubi.vidHdr e).copyFlag &&
            decide ((ubi.peb e.pnum).dataErr ≠ .none) || e.bitflips)) else some seb := by
  obtain ⟨res, hres, hnewer, hflips⟩ := compare_spec hh.describes hsq
  simp only [nextSeb, hres, hnewer]
  cases hrep : ubi.replaces e h with
  | true => rw [if_pos rfl, if_pos rfl, hflips hrep]
  | false => rfl

include hi hus in
lemma Inv.seb_addAll (hkept : Kept ubi pebs u)
    (hsub : ∀ e ∈ us, e ∈ pebs) (hseb : si.seb (ubi.leb u) = some seb)
    (hu : Entry ubi done seb u) : (si.addAll ubi us).1.seb (ubi.leb u) = some seb := by
  induction us generalizing done si with
  | nil => exact hseb
  | cons e us ih =>
    have hn := next_of_pairwise hus
    have hsq := (hn u hu.kept.mem).sqnum
    obtain ⟨hzero, hadd⟩ := hi.add hn
    obtain ⟨hmem, hsub⟩ := forall_mem_cons.mp hsub
    rw [addAll_cons hzero]
    by_cases hleb : ubi.leb u = ubi.leb e
    · have hrep := hkept.not_replaced hmem hleb hsq
      refine ih hadd.inv (by simpa using hus) hsub ?_ (hu.cons (hu.kept.stays hleb hsq hrep))
      rw [hadd.seb, if_pos hleb, hseb, nextSeb_of_entry hu hsq, hrep]
      rfl
    · refine ih hadd.inv (by simpa using hus) hsub ?_
        (hu.cons (hu.kept.cons_of_ne (Ne.symm hleb)))
      rw [hadd.seb, if_neg hleb, hseb]

lemma Kept.congr (h : Kept ubi done u) (hmem : ∀ v, v ∈ done ↔ v ∈ pebs) : Kept ubi pebs u where
  mem := (hmem u).mp h.mem
  newest hb v hv := h.newest hb v ((hmem v).mpr hv)
  oldest hb v hv := h.oldest hb v ((hmem v).mpr hv)

lemma Entry.congr (h : Entry ubi done seb u) (hmem : ∀ v, v ∈ done ↔ v ∈ pebs) :
    Entry ubi pebs seb u :=
  { h with
    kept := h.kept.congr hmem
    noticed := by
      intro hs
      refine (h.noticed hs).imp_right ?_
      rintro ⟨hcopy, hgood, herr, v, hv, hold⟩
      exact ⟨hcopy, hgood, herr, v, (hmem v).mp hv, hold⟩ }

lemma VolInv.perm (h : VolInv ubi done volId sv) (hp : done.Perm pebs) :
    VolInv ubi pebs volId sv where
  volId_eq := h.volId_eq
  sorted := h.sorted
  fits u hu := h.fits u ((hp.filter _).mem_iff.mpr hu)
  lebCount := h.lebCount
  absent lnum := (h.absent lnum).trans (forall_congr' fun u => by rw [hp.mem_iff])
  entry := by
    intro lnum seb hseb
    obtain ⟨u, hleb, hu⟩ := h.entry lnum seb hseb
    exact ⟨u, hleb, hu.congr fun v => hp.mem_iff⟩
  highest := h.highest.trans (((hp.filter _).map _).foldr_eq 0)
  last := by
    intro hsome
    have hbefore : ubi.ofVolume done volId ≠ [] := by
      intro hnil
      exact hsome (List.Perm.eq_nil (hnil ▸ (hp.filter _).symm))
    obtain ⟨u, hk, hleb, hsize⟩ := h.last hbefore
    exact ⟨u, hk.congr fun v => hp.mem_iff, hleb, hsize⟩

lemma Inv.perm (h : Inv ubi done si) (hp : done.Perm pebs) : Inv ubi pebs si where
  distinct u hu v hv := h.distinct u (hp.mem_iff.mpr hu) v (hp.mem_iff.mpr hv)
  sorted := h.sorted
  absent := by
    intro volId
    refine (h.absent volId).trans ?_
    constructor
    · intro hnil
      exact List.Perm.eq_nil (hnil ▸ (hp.filter _).symm)
    · intro hnil
      exact List.Perm.eq_nil (hnil ▸ hp.filter _)
  volume volId sv hsv := (h.volume volId sv hsv).perm hp
  volsFound := h.volsFound
  highestVolId := h.highestVolId.trans ((hp.map _).foldr_eq 0)
  maxSqnum := h.maxSqnum.trans ((hp.map _).foldr_eq 0)
  erase_nodup := h.erase_nodup
  erase_mem := by
    intro x
    rw [h.erase_mem]
    refine exists_congr fun u => ?_
    have hk : Kept ubi done u ↔ Kept ubi pebs u :=
      ⟨fun hk => hk.congr fun v => hp.mem_iff, fun hk => hk.congr fun v => hp.symm.mem_iff⟩
    rw [hp.mem_iff, hk]

lemma VolInv.card (h : VolInv ubi pebs volId sv) :
    sv.lebCount = ((ubi.ofVolume pebs volId).map fun u => (ubi.vidHdr u).lnum).toFinset.card := by
  have hnodup : (sv.root.inorder.map ScanLeb.lnum).Nodup := h.sorted.imp fun hab => hab.ne
  rw [h.lebCount, ← length_map ScanLeb.lnum, ← toFinset_card_of_nodup hnodup]
  congr 1
  ext lnum
  rw [mem_toFinset, mem_toFinset, mem_map, mem_map]
  constructor
  · rintro ⟨seb, hseb, rfl⟩
    obtain ⟨u, hleb, hu⟩ := h.entry _ seb ((find_eq_some h.sorted).mpr ⟨hseb, rfl⟩)
    exact ⟨u, mem_ofVolume.mpr ⟨hu.kept.mem, congrArg Prod.fst hleb⟩, congrArg Prod.snd hleb⟩
  · rintro ⟨u, hu, rfl⟩
    obtain ⟨hmem, hvol⟩ := mem_ofVolume.mp hu
    rcases hfind : sv.findSeb (ubi.vidHdr u).lnum with _ | seb
    · have hleb : ubi.leb u = (volId, (ubi.vidHdr u).lnum) := Prod.ext hvol rfl
      exact absurd hleb ((h.absent _).mp hfind u hmem)
    · exact ⟨seb, (find_eq_some h.sorted).mp hfind⟩

lemma Inv.described (h : Inv ubi pebs si) : Described ubi pebs si where
  sorted := h.sorted
  absent := by
    intro volId
    rw [h.absent, UbiDevice.ofVolume, filter_eq_nil_iff]
    simp
  volume := by
    intro volId sv hsv
    have hv := h.volume volId sv hsv
    refine ⟨hv.sorted, hv.absent, ?_, hv.card, hv.highest, ?_⟩
    · intro lnum seb hseb
      obtain ⟨u, hleb, hu⟩ := hv.entry lnum seb hseb
      exact ⟨u, hleb, hu.kept, hu.describes⟩
    · intro u hk hleb
      have hsome : ubi.ofVolume pebs volId ≠ [] :=
        ne_nil_of_mem (mem_ofVolume.mpr ⟨hk.mem, congrArg Prod.fst hleb⟩)
      obtain ⟨v, hkv, hvleb, hsize⟩ := hv.last hsome
      rw [hsize, h.distinct u hk.mem v hkv.mem (hk.sqnum_eq hkv (hleb.trans hvleb.symm))]
  erase_nodup := h.erase_nodup
  erase_mem := h.erase_mem
  maxSqnum := h.maxSqnum

variable {order : List Used} (hpebs : pebs.Pairwise (Compatible ubi))

include hpebs in
lemma pairwise_order (hp : order.Perm pebs)
    : (([] : List Used).reverse ++ order).Pairwise (Compatible ubi) :=
  (hp.pairwise_iff fun h => Compatible.symm h).mpr hpebs

include hpebs in
lemma scan_inv (hp : order.Perm pebs) : (ScanInfo.empty.addAll ubi order).2 = 0 ∧
      Inv ubi pebs (ScanInfo.empty.addAll ubi order).1 := by
  obtain ⟨hzero, hinv⟩ := (inv_empty ubi).addAll (pairwise_order hpebs hp)
  refine ⟨hzero, hinv.perm ?_⟩
  rw [append_nil]
  exact (reverse_perm order).trans hp

/-- A volume has the `compat` of one of its PEBs. -/
def CompatOf (ubi : UbiDevice) (pebs : List Used) (si : ScanInfo) : Prop :=
  ∀ volId sv, si.findSv volId = some sv →
    ∃ u ∈ pebs, (ubi.vidHdr u).volId = volId ∧ sv.compat = (ubi.vidHdr u).compat

include hi hus in
lemma compatOf_addAll (hc : CompatOf ubi done si) :
    CompatOf ubi (us.reverse ++ done) (si.addAll ubi us).1 := by
  induction us generalizing done si with
  | nil => exact hc
  | cons e us ih =>
    obtain ⟨hzero, hadd⟩ := hi.add (next_of_pairwise hus)
    rw [addAll_cons hzero, reverse_cons, append_assoc]
    refine ih hadd.inv (by simpa using hus) ?_
    intro volId sv hsv
    rcases hold : si.findSv volId with _ | sv0
    · -- only the volume of the PEB can be new
      obtain rfl : (ubi.vidHdr e).volId = volId := by
        by_contra hne
        have hnil := (hi.absent volId).mp hold
        rw [← ofVolume_cons_of_ne hne, ← hadd.inv.absent, hsv] at hnil
        cases hnil
      obtain ⟨sv', hsv', hcompat⟩ := hadd.compat_new hold
      cases hsv.symm.trans hsv'
      exact ⟨e, mem_cons_self, rfl, hcompat⟩
    · obtain ⟨sv', hsv', hcompat⟩ := hadd.compat volId sv0 hold
      cases hsv.symm.trans hsv'
      obtain ⟨u, hu, hvol, hucompat⟩ := hc volId sv0 hold
      exact ⟨u, mem_cons_of_mem e hu, hvol, hcompat.trans hucompat⟩

include hpebs in
lemma scan_compatOf (hp : order.Perm pebs)
    : CompatOf ubi pebs (ScanInfo.empty.addAll ubi order).1 := by
  have hc := compatOf_addAll (inv_empty ubi) (pairwise_order hpebs hp) fun _ _ hsv => nomatch hsv
  intro volId sv hsv
  obtain ⟨u, hu, hcompat⟩ := hc volId sv hsv
  rw [append_nil, mem_reverse] at hu
  exact ⟨u, hp.mem_iff.mp hu, hcompat⟩

section

variable {si' : ScanInfo}

lemma Entry.scrub_eq (h : Entry ubi pebs seb u) (hclean : Clean ubi pebs) :
    seb.scrub = u.bitflips := by
  cases hb : u.bitflips with
  | true => exact h.scrub hb
  | false =>
    by_contra hs
    rcases h.noticed (by simpa using hs) with hb' | hflips
    · rw [hb] at hb'
      cases hb'
    · rcases hclean.flips u h.kept.mem hflips with hb' | ⟨v, hv, hleb, hgood, hlt⟩
      · rw [hb] at hb'
        cases hb'
      · have hle := h.kept.newest hflips.good v hv hleb hgood
        omega

variable {seb' : ScanLeb}

lemma Entry.eq (h : Entry ubi pebs seb u) (h' : Entry ubi pebs seb' u) (hclean : Clean ubi pebs)
    : seb = seb' := by
  have hscrub : seb.scrub = seb'.scrub := (h.scrub_eq hclean).trans (h'.scrub_eq hclean).symm
  obtain ⟨_, ⟨hec, hpnum, hlnum, hcopy, hsq⟩, _, _⟩ := h
  obtain ⟨_, ⟨hec', hpnum', hlnum', hcopy', hsq'⟩, _, _⟩ := h'
  cases seb
  cases seb'
  simp_all

variable {sv' : ScanVolume} {volId : ℕ}

section
variable (hinv : Inv ubi pebs si) (hv : VolInv ubi pebs volId sv)
  (hv' : VolInv ubi pebs volId sv') (hclean : Clean ubi pebs)
include hinv hv hv' hclean

lemma VolInv.inorder_eq : sv.root.inorder = sv'.root.inorder := by
  refine inorder_eq_of_find hv.sorted hv'.sorted ?_
  intro lnum
  show sv.findSeb lnum = sv'.findSeb lnum
  rcases hfind : sv.findSeb lnum with _ | seb
  · exact ((hv'.absent lnum).mpr ((hv.absent lnum).mp hfind)).symm
  · rcases hfind' : sv'.findSeb lnum with _ | seb'
    · rw [(hv.absent lnum).mpr ((hv'.absent lnum).mp hfind')] at hfind
      cases hfind
    · obtain ⟨u, hleb, hu⟩ := hv.entry lnum seb hfind
      obtain ⟨u', hleb', hu'⟩ := hv'.entry lnum seb' hfind'
      obtain rfl := hinv.distinct u hu.kept.mem u' hu'.kept.mem
        (hu.kept.sqnum_eq hu'.kept (hleb.trans hleb'.symm))
      rw [hu.eq hu' hclean]

lemma VolInv.view_eq (hsome : ubi.ofVolume pebs volId ≠ []) (hcompat : sv.compat = sv'.compat) :
    sv.view = sv'.view := by
  have hinorder := hv.inorder_eq hinv hv' hclean
  have hvolId : sv.volId = sv'.volId := hv.volId_eq.trans hv'.volId_eq.symm
  have hhighest : sv.highestLnum = sv'.highestLnum := hv.highest.trans hv'.highest.symm
  have hcount : sv.lebCount = sv'.lebCount := by
    rw [hv.lebCount, hv'.lebCount, hinorder]
  have hlast : sv.lastDataSize = sv'.lastDataSize := by
    obtain ⟨u, hk, hleb, hsize⟩ := hv.last hsome
    obtain ⟨u', hk', hleb', hsize'⟩ := hv'.last hsome
    rw [← hhighest] at hleb'
    rw [hsize, hsize', hinv.distinct u hk.mem u' hk'.mem (hk.sqnum_eq hk' (hleb.trans hleb'.symm))]
  obtain ⟨u, hu⟩ := exists_mem_of_ne_nil _ hsome
  obtain ⟨_, htype, hebs, hpad⟩ := hv.fits u hu
  obtain ⟨_, htype', hebs', hpad'⟩ := hv'.fits u hu
  unfold ScanVolume.view
  rw [hinorder, hvolId, hhighest, hcount, hlast, hcompat, htype.symm.trans htype',
    hebs.symm.trans hebs', hpad.symm.trans hpad']

end

lemma sameResult_of_clean (hinv : Inv ubi pebs si) (hinv' : Inv ubi pebs si')
    (hc : CompatOf ubi pebs si) (hc' : CompatOf ubi pebs si') (hclean : Clean ubi pebs) :
    SameResult si si' := by
  have hvolumes : si.volumes.inorder.map ScanVolume.view =
      si'.volumes.inorder.map ScanVolume.view := by
    have hkey : ∀ sv : ScanVolume, viewKey sv.view = sv.key := fun _ => rfl
    refine map_inorder_eq_of_find hkey hinv.sorted hinv'.sorted ?_
    intro k
    show (si.findSv (OrderDual.ofDual k)).map _ = (si'.findSv (OrderDual.ofDual k)).map _
    generalize OrderDual.ofDual k = volId
    rcases hfind : si.findSv volId with _ | sv
    · rw [(hinv'.absent volId).mpr ((hinv.absent volId).mp hfind)]
    · rcases hfind' : si'.findSv volId with _ | sv'
      · rw [(hinv.absent volId).mpr ((hinv'.absent volId).mp hfind')] at hfind
        cases hfind
      · have hsome : ubi.ofVolume pebs volId ≠ [] := by
          intro hnil
          rw [(hinv.absent volId).mpr hnil] at hfind
          cases hfind
        obtain ⟨u, hu, hvol, hcompat⟩ := hc volId sv hfind
        obtain ⟨u', hu', hvol', hcompat'⟩ := hc' volId sv' hfind'
        have heq := hclean.compat u hu u' hu' (hvol.trans hvol'.symm)
        rw [Option.map_some, Option.map_some,
          (hinv.volume volId sv hfind).view_eq hinv (hinv'.volume volId sv' hfind') hclean hsome
            (hcompat.trans (heq.trans hcompat'.symm))]
  refine ⟨hvolumes, ?_, ?_, hinv.highestVolId.trans hinv'.highestVolId.symm,
    hinv.maxSqnum.trans hinv'.maxSqnum.symm⟩
  · refine (perm_ext_iff_of_nodup (List.Nodup.of_map _ hinv.erase_nodup)
      (List.Nodup.of_map _ hinv'.erase_nodup)).mpr ?_
    intro x
    rw [hinv.erase_mem, hinv'.erase_mem]
  · have hlen := congrArg List.length hvolumes
    rw [length_map, length_map] at hlen
    rw [hinv.volsFound, hinv'.volsFound, hlen]

lemma SameResult.view_eq (h : SameResult si si') (hinv : Inv ubi pebs si)
    (hinv' : Inv ubi pebs si') (hsv : si.findSv volId = some sv)
    (hsv' : si'.findSv volId = some sv') : sv.view = sv'.view := by
  have hmem : sv.view ∈ si'.volumes.inorder.map ScanVolume.view := by
    rw [← h.volumes]
    exact mem_map.mpr ⟨sv, ((find_eq_some hinv.sorted).mp hsv).1, rfl⟩
  obtain ⟨sv'', hmem'', hview⟩ := mem_map.mp hmem
  have hkey : sv''.key = sv.key := congrArg (fun p => p.1.key) hview
  have hfind : si'.findSv volId = some sv'' := by
    refine (find_eq_some hinv'.sorted).mpr ⟨hmem'', hkey.trans ?_⟩
    exact ((find_eq_some hinv.sorted).mp hsv).2
  cases hsv'.symm.trans hfind
  exact hview.symm

lemma SameResult.seb_eq (h : SameResult si si') (hinv : Inv ubi pebs si)
    (hinv' : Inv ubi pebs si') {leb : ℕ × ℕ} (hseb : si.seb leb = some seb)
    (hseb' : si'.seb leb = some seb') : seb = seb' := by
  obtain ⟨sv, hsv, hfind⟩ := Option.bind_eq_some_iff.mp hseb
  obtain ⟨sv', hsv', hfind'⟩ := Option.bind_eq_some_iff.mp hseb'
  have hsorted := (hinv.volume _ sv hsv).sorted
  have hsorted' := (hinv'.volume _ sv' hsv').sorted
  have hinorder : sv.root.inorder = sv'.root.inorder :=
    congrArg Prod.snd (h.view_eq hinv hinv' hsv hsv')
  obtain ⟨hmem, hkey⟩ := (find_eq_some hsorted).mp hfind
  rw [hinorder] at hmem
  have hfound : sv'.findSeb leb.2 = some seb :=
    (find_eq_some hsorted').mpr ⟨hmem, hkey⟩
  exact Option.some.inj (hfound.symm.trans hfind')

end

lemma perm_cons_erase (hu : u ∈ pebs) : (u :: pebs.erase u).Perm pebs :=
  (List.perm_cons_erase hu).symm

include hpebs in
lemma compat_first (hu : u ∈ pebs) :
    ∃ sv, (ScanInfo.empty.addAll ubi (u :: pebs.erase u)).1.findSv (ubi.vidHdr u).volId = some sv ∧
      sv.compat = (ubi.vidHdr u).compat := by
  have horder := pairwise_order hpebs (perm_cons_erase hu)
  obtain ⟨hzero, hadd⟩ := (inv_empty ubi).add (next_of_pairwise horder)
  obtain ⟨sv, hsv, hcompat⟩ := hadd.compat_new rfl
  rw [addAll_cons hzero]
  obtain ⟨sv', hsv', hcompat'⟩ := hadd.inv.compat_addAll horder hsv
  exact ⟨sv', hsv', hcompat'.trans hcompat⟩

lemma entry_first (u : Used) : Entry ubi [u] (newLeb u.pnum u.ec (ubi.vidHdr u) u.bitflips) u where
  kept := by
    refine kept_first ?_
    intro v hv
    cases hv
  describes := describes_newLeb u _
  scrub := id
  noticed := .inl

include hpebs in
lemma seb_first (hk : Kept ubi pebs u) :
    (ScanInfo.empty.addAll ubi (u :: pebs.erase u)).1.seb (ubi.leb u) =
      some (newLeb u.pnum u.ec (ubi.vidHdr u) u.bitflips) := by
  have horder := pairwise_order hpebs (perm_cons_erase hk.mem)
  obtain ⟨hzero, hadd⟩ := (inv_empty ubi).add (next_of_pairwise horder)
  rw [addAll_cons hzero]
  refine hadd.inv.seb_addAll horder hk (fun e he => mem_of_mem_erase he) ?_ ?_
  · rw [hadd.seb, if_pos rfl]
    rfl
  · exact entry_first u

include hpebs in
lemma seb_second (hk : Kept ubi pebs u)
    (hleb : ubi.leb v = ubi.leb u) (hlt : ubi.sqnum v < ubi.sqnum u) (hflips : Flips ubi pebs u)
    (hp : (v :: u :: order).Perm pebs) :
    (ScanInfo.empty.addAll ubi (v :: u :: order)).1.seb (ubi.leb u) =
      some (newLeb u.pnum u.ec (ubi.vidHdr u) true) := by
  have horder := pairwise_order hpebs hp
  obtain ⟨hzero, hadd⟩ := (inv_empty ubi).add (next_of_pairwise horder)
  have hentry : Entry ubi [v] (newLeb v.pnum v.ec (ubi.vidHdr v) v.bitflips) v := entry_first v
  have hseb : (empty.add ubi v).1.seb (ubi.leb u) =
      some (newLeb v.pnum v.ec (ubi.vidHdr v) v.bitflips) := by
    rw [hadd.seb, if_pos hleb.symm]
    rfl
  have hrep : ubi.replaces u v = true := by
    rw [UbiDevice.replaces, if_pos hlt, hflips.good]
    rfl
  have hnext : Next ubi [v] u := next_of_pairwise horder
  obtain ⟨hzero', hadd'⟩ := hadd.inv.add hnext
  rw [addAll_cons hzero, addAll_cons hzero']
  refine hadd'.inv.seb_addAll horder hk ?_ ?_ ?_
  · intro e he
    exact hp.mem_iff.mp (mem_cons_of_mem v (mem_cons_of_mem u he))
  · rw [hadd'.seb, if_pos rfl, hseb, nextSeb_of_entry hentry hlt.ne, hrep, if_pos rfl,
      decide_eq_true hlt, hflips.copy, decide_eq_true hflips.dataErr]
    rfl
  · refine ⟨hentry.kept.replaced hleb hlt.ne hrep, describes_newLeb u _, fun _ => rfl, ?_⟩
    intro _
    exact .inr ⟨hflips.copy, hflips.good, hflips.dataErr, v, by simp, hleb, hlt⟩

/-- PEBs with different sequence numbers whose headers agree per volume are given in any order. All
calls succeed and the result is as it should be; and it is the same for all orders if and only if
the PEBs are clean. -/
theorem scan_order_iff (ubi : UbiDevice) (pebs : List Used)
    (hpebs : pebs.Pairwise (Compatible ubi)) :
    (∀ order, order.Perm pebs → (ScanInfo.empty.addAll ubi order).2 = 0 ∧
      Described ubi pebs (ScanInfo.empty.addAll ubi order).1 ∧ ∀ order', order'.Perm pebs →
        SameResult (ScanInfo.empty.addAll ubi order).1 (ScanInfo.empty.addAll ubi order').1) ↔
    Clean ubi pebs := by
  constructor
  · intro hall
    refine ⟨?_, ?_⟩
    · intro u hu v hv hvol
      obtain ⟨sv, hsv, hcompat⟩ := compat_first hpebs hu
      obtain ⟨sv', hsv', hcompat'⟩ := compat_first hpebs hv
      have hsame := (hall _ (perm_cons_erase hu)).2.2 _ (perm_cons_erase hv)
      have hview := hsame.view_eq (scan_inv hpebs (perm_cons_erase hu)).2
        (scan_inv hpebs (perm_cons_erase hv)).2 hsv (hvol ▸ hsv')
      rw [← hcompat, ← hcompat']
      exact congrArg (fun p => p.1.compat) hview
    · intro u hu hflips
      by_contra hnot
      rw [not_or] at hnot
      obtain ⟨hb, hnewer⟩ := hnot
      -- the PEB is the one to be kept; it is given first, and after an older one
      have hk : Kept ubi pebs u := by
        refine ⟨hu, ?_, ?_⟩
        · intro _ w hw hleb hgood
          by_contra hlt
          exact hnewer ⟨w, hw, hleb, hgood, by omega⟩
        · intro hbad
          rw [hflips.good] at hbad
          cases hbad
      obtain ⟨v, hv, hleb, hlt⟩ := hflips.older
      have hne : v ≠ u := fun heq => hlt.ne (congrArg _ heq)
      have hp : (v :: u :: (pebs.erase u).erase v).Perm pebs := by
        refine (List.Perm.swap u v _).trans ?_
        refine (List.Perm.cons u ?_).trans (perm_cons_erase hu)
        exact perm_cons_erase ((mem_erase_of_ne hne).mpr hv)
      have hsame := (hall _ (perm_cons_erase hu)).2.2 _ hp
      have heq := hsame.seb_eq (scan_inv hpebs (perm_cons_erase hu)).2 (scan_inv hpebs hp).2
        (seb_first hpebs hk) (seb_second hpebs hk hleb hlt hflips hp)
      exact hb (congrArg ScanLeb.scrub heq)
  · intro hclean order hp
    obtain ⟨hzero, hinv⟩ := scan_inv hpebs hp
    refine ⟨hzero, hinv.described, ?_⟩
    intro order' hp'
    exact sameResult_of_clean hinv (scan_inv hpebs hp').2 (scan_compatOf hpebs hp)
      (scan_compatOf hpebs hp') hclean

end

/-- A device on which PEB `n` is of LEB 0 of volume 0 with sequence number `n`; the
PEBs from 1 on are copies with the right CRC, and their data is read with
`dataErr`. -/
def oneLeb (dataErr : DataErr) : UbiDevice where
  peb n :=
    { vidHdr :=
        { volType := .dynamic, copyFlag := 0 < n, compat := 0, volId := 0, lnum := 0
          dataSize := 4, usedEbs := 0, dataPad := 0, dataCrc := 0, sqnum := n }
      data := [1, 2, 3, 4], dataErr := dataErr }
  crc32 _ := 0
  rbInsertColor := .none

def usedPeb (n : ℕ) : Used := { pnum := n, ec := 1, bitflips := false }

lemma compatible_oneLeb (dataErr : DataErr) :
    [usedPeb 0, usedPeb 1].Pairwise (Compatible (oneLeb dataErr)) := by
  refine pairwise_cons.mpr ⟨?_, pairwise_singleton _ _⟩
  intro v hv
  obtain rfl := mem_singleton.mp hv
  exact ⟨Nat.zero_ne_one, fun _ => ⟨rfl, rfl, rfl⟩⟩

/-- An LEB and a copy of it that is read without bit-flips. -/
theorem scan_order_clean : [usedPeb 0, usedPeb 1].Pairwise (Compatible (oneLeb .none)) ∧
      ∀ order, order.Perm [usedPeb 0, usedPeb 1] →
        (ScanInfo.empty.addAll (oneLeb .none) order).2 = 0 ∧
        Described (oneLeb .none) [usedPeb 0, usedPeb 1]
          (ScanInfo.empty.addAll (oneLeb .none) order).1 ∧
        ∀ order', order'.Perm [usedPeb 0, usedPeb 1] →
          SameResult (ScanInfo.empty.addAll (oneLeb .none) order).1
            (ScanInfo.empty.addAll (oneLeb .none) order').1 := by
  refine ⟨compatible_oneLeb _, (scan_order_iff (oneLeb .none) _ (compatible_oneLeb _)).mpr ?_⟩
  refine ⟨fun _ _ _ _ _ => rfl, ?_⟩
  intro u _ hflips
  exact absurd rfl hflips.dataErr

/-- An LEB and a copy of it whose data is read with bit-flips: the copy is kept, and marked for
scrubbing if it is given second but not if it is given first. -/
theorem scrub_depends_on_order : [usedPeb 0, usedPeb 1].Pairwise (Compatible (oneLeb .bitflips)) ∧
      (ScanInfo.empty.addAll (oneLeb .bitflips) [usedPeb 0, usedPeb 1]).1.seb (0, 0) =
        some { ec := 1, pnum := 1, lnum := 0, scrub := true, copyFlag := true, sqnum := 1 } ∧
      (ScanInfo.empty.addAll (oneLeb .bitflips) [usedPeb 1, usedPeb 0]).1.seb (0, 0) =
        some { ec := 1, pnum := 1, lnum := 0, scrub := false, copyFlag := true, sqnum := 1 } :=
  ⟨compatible_oneLeb _, by decide, by decide⟩

end Am335x.Ubi
