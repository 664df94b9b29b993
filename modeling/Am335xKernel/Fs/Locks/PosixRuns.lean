import Am335xKernel.Fs.Locks.Finish

/-!
# The POSIX locks of an inode, over all requests

For a program the locks of an inode are a table: what lock an owner has on a byte. The list
keeps the locks of each owner together, in order, and with as few locks as possible, and no
request leaves two owners with locks that exclude each other on one byte.
-/

namespace Am335x.Locks

open Function List

variable {ω : Type*}

/-- The lock of an owner on a byte, `unlck` if there is none. -/
abbrev Bytes (ω : Type*) : Type _ := ω → ℤ → LockType

def Excludes (t t' : LockType) : Prop := t ≠ .unlck ∧ t' ≠ .unlck ∧ (t = .wrlck ∨ t' = .wrlck)

def Blocked (s : Bytes ω) (fl : FileLock ω) : Prop :=
  ∃ o, o ≠ fl.flOwner ∧ ∃ x, fl.flStart ≤ x ∧ x ≤ fl.flEnd ∧ Excludes fl.flType (s o x)

def Bytes.set [DecidableEq ω] (s : Bytes ω) (fl : FileLock ω) : Bytes ω := fun o x =>
  if o = fl.flOwner ∧ fl.flStart ≤ x ∧ x ≤ fl.flEnd then fl.flType else s o x

/-- Requests of `__posix_lock_file`. One that would be in conflict is refused, or has to wait; of
the others one can fail for lack of memory, or because there was nothing to unlock. -/
def posixContract [DecidableEq ω] : Contract (Bytes ω) (Request ω) (Reply ω) where
  allowed _ r := r.lock.posix = true ∧
    0 ≤ r.lock.flStart ∧ r.lock.flStart ≤ r.lock.flEnd ∧ r.lock.flEnd ≤ offsetMax
  ok s r p :=
    (Blocked s r.lock → p.error =
      if r.flags.sleep = false then eagain else if r.deadlock then edeadlk else fileLockDeferred) ∧
    (¬ Blocked s r.lock → p.error = 0 ∨
      p.error = enoent ∧ r.flags.exist = true ∧ r.lock.flType = .unlck ∧
        (∀ x, r.lock.flStart ≤ x → x ≤ r.lock.flEnd → s r.lock.flOwner x = .unlck) ∨
      p.error = enolck ∧ (r.mem = false ∨ r.mem2 = false))
  next s r p := if p.error = 0 ∧ r.flags.access = false then s.set r.lock else s

def Inode.locksOf [DecidableEq ω] (inode : Inode ω) (o : ω) : List ℕ :=
  inode.iFlock.filter fun a => (inode.mem a).posix && decide ((inode.mem a).flOwner = o)

/-- The locks of an owner are one part of the list, in order, with no byte in two of them, and
no two of one type touch. The locks of two owners are never in conflict. -/
structure Right [DecidableEq ω] (s : Bytes ω) (inode : Inode ω) : Prop where
  contiguous : ∀ o, inode.locksOf o <:+: inode.iFlock
  normal : ∀ o, Runs.Normal (runs inode.mem (inode.locksOf o))
  type_ne : ∀ o, ∀ a ∈ inode.locksOf o, (inode.mem a).flType ≠ .unlck
  no_conflict : ∀ a ∈ inode.iFlock, ∀ b ∈ inode.iFlock, (inode.mem a).posix = true →
    posixLocksConflict (inode.mem a) (inode.mem b) = false
  bytes : ∀ o x t, t ≠ .unlck →
    (s o x = t ↔ Runs.Covers (runs inode.mem (inode.locksOf o)) x t)

structure OneOwner (mem : ℕ → FileLock ω) (o : ω) (l : List ℕ) : Prop where
  owner_eq : ∀ a ∈ l, (mem a).flOwner = o
  posix : ∀ a ∈ l, (mem a).posix = true
  type_ne : ∀ a ∈ l, (mem a).flType ≠ .unlck
  normal : Runs.Normal (runs mem l)

lemma OneOwner.nil (mem : ℕ → FileLock ω) (o : ω) : OneOwner mem o [] :=
  ⟨by simp, by simp, by simp, Runs.Normal.nil⟩

variable {mem mem' : ℕ → FileLock ω}

lemma OneOwner.congr {o : ω} {l : List ℕ} (h : OneOwner mem o l) (heq : ∀ a ∈ l, mem' a = mem a)
    : OneOwner mem' o l := by
  refine ⟨fun a ha => ?_, fun a ha => ?_, fun a ha => ?_, ?_⟩
  · rw [heq a ha]
    exact h.owner_eq a ha
  · rw [heq a ha]
    exact h.posix a ha
  · rw [heq a ha]
    exact h.type_ne a ha
  · rw [runs_congr heq]
    exact h.normal

lemma Granted.oneOwner {req : ℕ} {own own' : List ℕ} (h : Granted mem mem' req own own')
    : OneOwner mem' (mem req).flOwner own' :=
  ⟨h.owner_eq, h.posix, h.type_ne, h.normal⟩

structure Groups (mem : ℕ → FileLock ω) (gs : List (ω × List ℕ)) : Prop where
  keys : (gs.map Prod.fst).Nodup
  ne_nil : ∀ p ∈ gs, p.2 ≠ []
  group : ∀ p ∈ gs, OneOwner mem p.1 p.2

structure Cut (mem : ℕ → FileLock ω) (o : ω) (pre own post : List ℕ) : Prop where
  pre_ne : ∀ a ∈ pre, (mem a).posix = true → (mem a).flOwner ≠ o
  post_ne : ∀ a ∈ post, (mem a).flOwner ≠ o
  oneOwner : OneOwner mem o own

def Listed (mem : ℕ → FileLock ω) (iFlock : List ℕ) : Prop :=
  ∃ base gs, Groups mem gs ∧ iFlock = base ++ gs.flatMap Prod.snd ∧
    ∀ a ∈ base, (mem a).posix = false

section

variable {mem mem' : ℕ → FileLock ω} {iFlock : List ℕ} {gs : List (ω × List ℕ)}

lemma Groups.split (h : Groups mem gs) (o : ω) :
    ∃ gs1 G gs2, gs = gs1 ++ G ++ gs2 ∧ (∀ p ∈ gs1 ++ gs2, p.1 ≠ o) ∧
      (G = [] ∧ gs2 = [] ∨ ∃ g, G = [(o, g)]) := by
  by_cases ho : o ∈ gs.map Prod.fst
  · obtain ⟨p, hmem, rfl⟩ := mem_map.mp ho
    obtain ⟨gs1, gs2, rfl⟩ := append_of_mem hmem
    refine ⟨gs1, [p], gs2, by simp, fun q hq heq => ?_, .inr ⟨p.2, rfl⟩⟩
    have hkeys := h.keys
    rw [map_append, map_cons, nodup_middle, nodup_cons, ← map_append]
      at hkeys
    exact hkeys.1 (heq ▸ mem_map_of_mem hq)
  · refine ⟨gs, [], [], by simp, fun p hp heq => ho ?_, .inl ⟨rfl, rfl⟩⟩
    rw [append_nil] at hp
    exact heq ▸ mem_map_of_mem hp

lemma Listed.congr (h : Listed mem iFlock) (heq : ∀ a ∈ iFlock, mem' a = mem a) :
    Listed mem' iFlock := by
  obtain ⟨base, gs, hgroups, rfl, hbase⟩ := h
  refine ⟨base, gs, ⟨hgroups.keys, hgroups.ne_nil, fun p hp => ?_⟩, rfl, fun a ha => ?_⟩
  · refine (hgroups.group p hp).congr fun a ha => heq a ?_
    exact mem_append_right _ (mem_flatMap.mpr ⟨p, hp, ha⟩)
  · rw [heq a (mem_append_left _ ha)]
    exact hbase a ha

/-- **The place of an owner.** Other locks may be put there, as long as all others stay as they
are. -/
lemma Listed.cut (h : Listed mem iFlock) (o : ω) :
    ∃ pre own post, iFlock = pre ++ own ++ post ∧ Cut mem o pre own post ∧ (own = [] → post = []) ∧
      ∀ mem' own', OneOwner mem' o own' → (∀ a ∈ pre ++ post, mem' a = mem a) →
        Listed mem' (pre ++ own' ++ post) := by
  obtain ⟨base, gs, hgroups, rfl, hbase⟩ := h
  obtain ⟨gs1, G, gs2, rfl, hother, hG⟩ := hgroups.split o
  have hmem1 : ∀ p ∈ gs1, p ∈ gs1 ++ G ++ gs2 := fun p hp =>
    mem_append_left _ (mem_append_left _ hp)
  have hmem2 : ∀ p ∈ gs2, p ∈ gs1 ++ G ++ gs2 := fun p hp => mem_append_right _ hp
  refine ⟨base ++ gs1.flatMap Prod.snd, G.flatMap Prod.snd, gs2.flatMap Prod.snd, ?_, ?_,
    fun hnil => ?_, ?_⟩
  · simp
  · refine ⟨fun a ha hposix => ?_, fun a ha => ?_, ?_⟩
    · rcases mem_append.mp ha with ha | ha
      · rw [hbase a ha] at hposix
        cases hposix
      · obtain ⟨p, hp, hap⟩ := mem_flatMap.mp ha
        rw [(hgroups.group p (hmem1 p hp)).owner_eq a hap]
        exact hother p (mem_append_left _ hp)
    · obtain ⟨p, hp, hap⟩ := mem_flatMap.mp ha
      rw [(hgroups.group p (hmem2 p hp)).owner_eq a hap]
      exact hother p (mem_append_right _ hp)
    · rcases hG with ⟨rfl, -⟩ | ⟨g, rfl⟩
      · exact OneOwner.nil mem o
      · rw [flatMap_singleton]
        exact hgroups.group (o, g) (by simp)
  · rcases hG with ⟨-, rfl⟩ | ⟨g, rfl⟩
    · rfl
    · rw [flatMap_singleton] at hnil
      exact absurd hnil (hgroups.ne_nil (o, g) (by simp))
  · intro mem' own' hown' heq
    have hkeys : ((gs1 ++ gs2).map Prod.fst).Nodup := by
      refine hgroups.keys.sublist (List.Sublist.map _ ?_)
      exact List.Sublist.append (sublist_append_left gs1 G) (List.Sublist.refl gs2)
    have hold : ∀ p ∈ gs1 ++ gs2, p.2 ≠ [] ∧ OneOwner mem' p.1 p.2 := by
      intro p hp
      have hp' : p ∈ gs1 ++ G ++ gs2 := (mem_append.mp hp).elim (hmem1 p) (hmem2 p)
      refine ⟨hgroups.ne_nil p hp', (hgroups.group p hp').congr fun a ha => heq a ?_⟩
      rcases mem_append.mp hp with hp | hp
      · exact mem_append_left _ (mem_append_right _ (mem_flatMap.mpr ⟨p, hp, ha⟩))
      · exact mem_append_right _ (mem_flatMap.mpr ⟨p, hp, ha⟩)
    have hbase' : ∀ a ∈ base, (mem' a).posix = false := fun a ha => by
      rw [heq a (mem_append_left _ (mem_append_left _ ha))]
      exact hbase a ha
    by_cases hnil : own' = []
    · refine ⟨base, gs1 ++ gs2, ⟨hkeys, fun p hp => (hold p hp).1, fun p hp => (hold p hp).2⟩, ?_,
        hbase'⟩
      simp [hnil]
    · refine ⟨base, gs1 ++ (o, own') :: gs2, ⟨?_, fun p hp => ?_, fun p hp => ?_⟩, ?_, hbase'⟩
      · rw [map_append, map_cons, nodup_middle, nodup_cons, ← map_append]
        refine ⟨fun hmem => ?_, hkeys⟩
        obtain ⟨p, hp, hpo⟩ := mem_map.mp hmem
        exact hother p hp hpo
      · rcases mem_cons.mp (perm_middle.mem_iff.mp hp) with rfl | hp
        · exact hnil
        · exact (hold p hp).1
      · rcases mem_cons.mp (perm_middle.mem_iff.mp hp) with rfl | hp
        · exact hown'
        · exact (hold p hp).2
      · simp

variable {o : ω} {pre own post : List ℕ} {fl : FileLock ω}

lemma Cut.span [DecidableEq ω] (h : Cut mem o pre own post) (hnil : own = [] → post = [])
    (hfl : fl.flOwner = o) : (pre ++ own ++ post).takeWhile
        (fun a => !(mem a).posix || !posixSameOwner fl (mem a)) = pre ∧
      (pre ++ own ++ post).dropWhile
        (fun a => !(mem a).posix || !posixSameOwner fl (mem a)) = own ++ post := by
  have hpre : ∀ a ∈ pre, (!(mem a).posix || !posixSameOwner fl (mem a)) = true := by
    intro a ha
    unfold posixSameOwner
    cases hposix : (mem a).posix with
    | false => rfl
    | true =>
      have hne := h.pre_ne a ha hposix
      rw [← hfl] at hne
      simp [Ne.symm hne]
  rw [append_assoc, takeWhile_append_of_pos hpre, dropWhile_append_of_pos hpre]
  cases own with
  | nil =>
    rw [hnil rfl]
    simp
  | cons a own =>
    have ha : (!(mem a).posix || !posixSameOwner fl (mem a)) = false := by
      have hposix := h.oneOwner.posix a mem_cons_self
      have howner := h.oneOwner.owner_eq a mem_cons_self
      simp [posixSameOwner, hposix, howner, hfl]
    rw [cons_append, takeWhile_cons, dropWhile_cons, ha]
    simp

variable {x : ℤ} {t : LockType}

section

variable (h : Cut mem o pre own post)
include h

lemma Cut.congr {own' : List ℕ} (heq : ∀ a ∈ pre ++ post, mem' a = mem a)
    (hown' : OneOwner mem' o own') : Cut mem' o pre own' post := by
  refine ⟨fun a ha => ?_, fun a ha => ?_, hown'⟩
  · rw [heq a (mem_append_left _ ha)]
    exact h.pre_ne a ha
  · rw [heq a (mem_append_right _ ha)]
    exact h.post_ne a ha

lemma Cut.mem_own {a : ℕ} (ha : a ∈ pre ++ own ++ post) (hposix : (mem a).posix = true)
    (howner : (mem a).flOwner = o) : a ∈ own := by
  rcases mem_append.mp ha with ha | ha
  · exact (mem_append.mp ha).resolve_left fun ha => h.pre_ne a ha hposix howner
  · exact absurd howner (h.post_ne a ha)

lemma Cut.covers_self : (∃ a ∈ pre ++ own ++ post, (mem a).posix = true ∧ (mem a).flOwner = o ∧
      (mem a).run.Covers x t) ↔ Runs.Covers (runs mem own) x t := by
  rw [covers_runs]
  constructor
  · rintro ⟨a, ha, hposix, howner, hx⟩
    exact ⟨a, h.mem_own ha hposix howner, hx⟩
  · rintro ⟨a, ha, hx⟩
    exact ⟨a, mem_append_left _ (mem_append_right _ ha), h.oneOwner.posix a ha,
      h.oneOwner.owner_eq a ha, hx⟩

end

lemma OneOwner.covers_other (h : OneOwner mem o own) {o' : ω} (ho : o' ≠ o) :
    (∃ a ∈ pre ++ own ++ post, (mem a).posix = true ∧ (mem a).flOwner = o' ∧
      (mem a).run.Covers x t) ↔
      ∃ a ∈ pre ++ post, (mem a).posix = true ∧ (mem a).flOwner = o' ∧ (mem a).run.Covers x t := by
  refine exists_congr fun a => and_congr_left fun hx => ?_
  have hnot : a ∉ own := fun ha => ho (hx.2.1.symm.trans (h.owner_eq a ha))
  simp [hnot]

lemma Cut.locksOf [DecidableEq ω] (h : Cut mem o pre own post) (brk : ℕ) :
    Inode.locksOf ⟨mem, pre ++ own ++ post, brk⟩ o = own := by
  have hiff : ∀ a, ((mem a).posix && decide ((mem a).flOwner = o)) = true ↔
      (mem a).posix = true ∧ (mem a).flOwner = o := by simp
  have hpre : ∀ a ∈ pre, ¬ ((mem a).posix = true ∧ (mem a).flOwner = o) :=
    fun a ha hand => h.pre_ne a ha hand.1 hand.2
  have hpost : ∀ a ∈ post, ¬ ((mem a).posix = true ∧ (mem a).flOwner = o) :=
    fun a ha hand => h.post_ne a ha hand.2
  simp only [← hiff] at hpre hpost
  unfold Inode.locksOf
  rw [filter_append, filter_append, filter_eq_nil_iff.mpr hpre, filter_eq_nil_iff.mpr hpost,
    filter_eq_self.mpr, nil_append, append_nil]
  exact fun a ha => (hiff a).mpr ⟨h.oneOwner.posix a ha, h.oneOwner.owner_eq a ha⟩

lemma Cut.owned {mem : ℕ → FileLock ω} {brk : ℕ} {pre own post : List ℕ}
    (h : Cut mem fl.flOwner pre own post) (hnodup : (pre ++ own ++ post).Nodup)
    (hlt : ∀ a ∈ pre ++ own ++ post, a < brk) (hposix : fl.posix = true)
    (hle : fl.flStart ≤ fl.flEnd) : Owned (update mem brk fl) brk own := by
  have hown : ∀ a ∈ own, a < brk := fun a ha => hlt a (by simp [ha])
  have hone : OneOwner (update mem brk fl) fl.flOwner own :=
    h.oneOwner.congr fun a ha => update_of_ne (hown a ha).ne _ _
  refine ⟨?_, ?_, hone.normal, ?_, hone.posix, hone.type_ne, fun hmem => (hown brk hmem).false, ?_⟩
  · rw [update_self]
    exact hle
  · rw [update_self]
    exact hposix
  · rw [update_self]
    exact hone.owner_eq
  · exact (nodup_append.mp (nodup_append.mp hnodup).1).2.1

end

def Shows (s : Bytes ω) (mem : ℕ → FileLock ω) (iFlock : List ℕ) : Prop :=
  ∀ o x t, t ≠ .unlck → (s o x = t ↔
    ∃ a ∈ iFlock, (mem a).posix = true ∧ (mem a).flOwner = o ∧ (mem a).run.Covers x t)

structure Inv (s : Bytes ω) (inode : Inode ω) : Prop where
  listed : Listed inode.mem inode.iFlock
  nodup : inode.iFlock.Nodup
  lt_brk : ∀ a ∈ inode.iFlock, a < inode.brk
  shows : Shows s inode.mem inode.iFlock
  alone : ∀ o o' x, o ≠ o' → ¬ Excludes (s o x) (s o' x)
  range : ∀ o x, s o x ≠ .unlck → 0 ≤ x ∧ x ≤ offsetMax

section

variable {s : Bytes ω} {inode : Inode ω} {fl fl' : FileLock ω}

lemma exists_common (hle : fl.flStart ≤ fl.flEnd) (hle' : fl'.flStart ≤ fl'.flEnd)
    (hover : fl'.flStart ≤ fl.flEnd ∧ fl.flStart ≤ fl'.flEnd) :
    ∃ x, (fl.flStart ≤ x ∧ x ≤ fl.flEnd) ∧ fl'.flStart ≤ x ∧ x ≤ fl'.flEnd := by
  refine ⟨max fl.flStart fl'.flStart, ⟨le_max_left _ _, ?_⟩, le_max_right _ _, ?_⟩
  · exact max_le hle hover.1
  · exact max_le hover.2 hle'

variable {a addr : ℕ}

lemma Inv.lock_spec (h : Inv s inode) (ha : a ∈ inode.iFlock)
    (hposix : (inode.mem a).posix = true) :
    (inode.mem a).flType ≠ .unlck ∧ (inode.mem a).flStart ≤ (inode.mem a).flEnd ∧
      ∀ x, (inode.mem a).flStart ≤ x → x ≤ (inode.mem a).flEnd →
        s (inode.mem a).flOwner x = (inode.mem a).flType := by
  obtain ⟨pre, own, post, heq, hcut, -, -⟩ := h.listed.cut (inode.mem a).flOwner
  have hown : a ∈ own := hcut.mem_own (heq ▸ ha) hposix rfl
  have htype := hcut.oneOwner.type_ne a hown
  refine ⟨htype, hcut.oneOwner.normal.valid _ (mem_runs hown), fun x hlo hhi => ?_⟩
  exact (h.shows _ x _ htype).mpr ⟨a, ha, hposix, rfl, hlo, hhi, rfl⟩

variable {mem' : ℕ → FileLock ω}

lemma Inv.congr (h : Inv s inode) {brk' : ℕ} (heq : ∀ a ∈ inode.iFlock, mem' a = inode.mem a)
    (hbrk : inode.brk ≤ brk') : Inv s ⟨mem', inode.iFlock, brk'⟩ := by
  refine ⟨h.listed.congr heq, h.nodup, fun a ha => (h.lt_brk a ha).trans_le hbrk,
    fun o x t ht => ?_, h.alone, h.range⟩
  rw [h.shows o x t ht]
  refine exists_congr fun a => and_congr_right fun ha => ?_
  dsimp only
  rw [heq a ha]

lemma Inv.start (hnodup : inode.iFlock.Nodup) (hbrk : ∀ a ∈ inode.iFlock, a < inode.brk)
    (hposix : ∀ a ∈ inode.iFlock, (inode.mem a).posix = false) : Inv (fun _ _ => .unlck) inode := by
  refine ⟨⟨inode.iFlock, [], ⟨nodup_nil, by simp, by simp⟩, by simp, hposix⟩, hnodup, hbrk,
    fun o x t ht => ⟨fun heq => absurd heq.symm ht, ?_⟩, fun o o' x _ hex => hex.1 rfl,
    fun o x hne => absurd rfl hne⟩
  rintro ⟨a, ha, htrue, -⟩
  rw [hposix a ha] at htrue
  cases htrue

variable {own post pre : List ℕ}

lemma Inv.unlocked (h : Inv s inode) (htype : fl.flType = .unlck)
    (heq : inode.iFlock = pre ++ own ++ post) (hcut : Cut inode.mem fl.flOwner pre own post)
    (hmem : ∀ a ∈ own, mem' a = inode.mem a)
    (hgranted : Granted (update inode.mem inode.brk fl) mem' inode.brk own own) {x : ℤ}
    (hlo : fl.flStart ≤ x) (hhi : x ≤ fl.flEnd) : s fl.flOwner x = .unlck := by
  by_contra hne
  have hcovers := (h.shows _ x _ hne).mp rfl
  rw [heq, hcut.covers_self, ← runs_congr hmem, hgranted.covers, update_self] at hcovers
  rcases hcovers with ⟨-, hkeeps, -⟩ | ⟨hnot, -⟩
  · rw [keeps, update_self, htype] at hkeeps
    cases hkeeps
  · exact hnot ⟨hlo, hhi⟩

variable {r : Request ω} {found : Bool}

lemma newLock_eq_some (h : newLock r found addr = some a) : a = addr := by
  unfold newLock at h
  split_ifs at h
  exact (Option.some.inj h).symm

lemma eq_false_of_newLock (haccess : r.flags.access = false)
    (hneed : r.lock.flType ≠ .unlck ∨ r.lock.flStart ≠ 0) (h : newLock r found addr = none)
    : found = false := by
  have hmay : (!r.flags.access && (decide (r.lock.flType ≠ .unlck) || decide (r.lock.flStart ≠ 0) ||
      decide (r.lock.flEnd ≠ offsetMax))) = true := by
    rw [haccess]
    rcases hneed with hne | hne
    · simp [hne]
    · simp [hne]
  unfold newLock at h
  rw [if_pos hmay] at h
  split_ifs at h with hfound
  exact Bool.not_eq_true _ ▸ hfound

/-- What the request has made of the locks of its owner. -/
def Done (inode : Inode ω) (r : Request ω) (mem' : ℕ → FileLock ω) (own own' : List ℕ) (e : ℤ) :
    Prop :=
  Finished (update inode.mem inode.brk r.lock) mem' inode.brk r.flags.exist
    (newLock r r.mem (inode.brk + 1)) (newLock r r.mem2 (inode.brk + 2)) (inode.brk + 1)
    (inode.brk + 2) own own' e

variable [DecidableEq ω]

lemma posixLocksConflict_iff :
    posixLocksConflict fl fl' = true ↔ fl'.posix = true ∧ fl.flOwner ≠ fl'.flOwner ∧
      (fl'.flStart ≤ fl.flEnd ∧ fl.flStart ≤ fl'.flEnd) ∧
      (fl'.flType = .wrlck ∨ fl.flType = .wrlck) := by
  unfold posixLocksConflict posixSameOwner locksOverlap locksConflict
  cases fl'.posix with
  | false => simp
  | true =>
    by_cases howner : fl.flOwner = fl'.flOwner
    · simp [howner]
    · by_cases hover : fl'.flStart ≤ fl.flEnd ∧ fl.flStart ≤ fl'.flEnd
      · have hor : fl'.flType = .wrlck ∨ fl.flType = .wrlck ↔
            (if fl'.flType = .wrlck then true else if fl.flType = .wrlck then true else false) =
              true := by
          split_ifs with h h' <;> simp [*]
        rw [hor]
        simp [howner, hover]
      · rw [not_and_or] at hover
        simp only [howner, decide_false, Bool.not_true, Bool.or_false, Bool.false_eq_true,
          if_false, ge_iff_le, Bool.not_eq_true', Bool.and_eq_false_iff, decide_eq_false_iff_not,
          hover, if_true, false_iff, not_and]
        tauto

section

variable (h : Inv s inode)
include h

lemma Inv.right : Right s inode := by
  have hcut : ∀ o, ∃ pre own post, inode.iFlock = pre ++ own ++ post ∧
      Cut inode.mem o pre own post ∧ inode.locksOf o = own := by
    intro o
    obtain ⟨pre, own, post, heq, hcut, -, -⟩ := h.listed.cut o
    refine ⟨pre, own, post, heq, hcut, ?_⟩
    have hlocks := hcut.locksOf inode.brk
    rwa [← heq] at hlocks
  refine ⟨fun o => ?_, fun o => ?_, fun o => ?_, fun a ha b hb hposix => ?_, fun o x t ht => ?_⟩
  · obtain ⟨pre, own, post, heq, -, hown⟩ := hcut o
    rw [hown, heq]
    exact ⟨pre, post, rfl⟩
  · obtain ⟨pre, own, post, heq, hcut, hown⟩ := hcut o
    rw [hown]
    exact hcut.oneOwner.normal
  · obtain ⟨pre, own, post, heq, hcut, hown⟩ := hcut o
    rw [hown]
    exact hcut.oneOwner.type_ne
  · rw [← Bool.not_eq_true, posixLocksConflict_iff]
    rintro ⟨hposix', hne, hover, hwr⟩
    obtain ⟨htype, hle, hbytes⟩ := h.lock_spec ha hposix
    obtain ⟨htype', hle', hbytes'⟩ := h.lock_spec hb hposix'
    obtain ⟨x, hx, hx'⟩ := exists_common hle hle' hover
    refine h.alone _ _ x hne ?_
    rw [hbytes x hx.1 hx.2, hbytes' x hx'.1 hx'.2]
    exact ⟨htype, htype', hwr.symm⟩
  · obtain ⟨pre, own, post, heq, hcut, hown⟩ := hcut o
    rw [h.shows o x t ht, heq, hcut.covers_self, hown]

lemma Inv.blocked_iff (hle : fl.flStart ≤ fl.flEnd) : Blocked s fl ↔ fl.flType ≠ .unlck ∧
      ∃ a ∈ inode.iFlock, posixLocksConflict fl (inode.mem a) = true := by
  constructor
  · rintro ⟨o, ho, x, hlo, hhi, htype, htype', hwr⟩
    obtain ⟨a, ha, hposix, rfl, hlo', hhi', htag⟩ := (h.shows o x _ htype').mp rfl
    refine ⟨htype, a, ha, posixLocksConflict_iff.mpr
      ⟨hposix, ho.symm, ⟨hlo'.trans hhi, hlo.trans hhi'⟩, ?_⟩⟩
    have heq : (inode.mem a).flType = s (inode.mem a).flOwner x := htag
    rw [heq]
    exact hwr.symm
  · rintro ⟨htype, a, ha, hconflict⟩
    obtain ⟨hposix, hne, hover, hwr⟩ := posixLocksConflict_iff.mp hconflict
    obtain ⟨htype', hle', hbytes⟩ := h.lock_spec ha hposix
    obtain ⟨x, hx, hx'⟩ := exists_common hle hle' hover
    refine ⟨_, hne.symm, x, hx.1, hx.2, ?_⟩
    rw [hbytes x hx'.1 hx'.2]
    exact ⟨htype, htype', hwr.symm⟩

lemma Inv.alone_set (hfree : ¬ Blocked s fl) (o o' : ω) (x : ℤ) (hne : o ≠ o')
    : ¬ Excludes (s.set fl o x) (s.set fl o' x) := by
  rintro ⟨htype, htype', hwr⟩
  unfold Bytes.set at htype htype' hwr
  by_cases ho : o = fl.flOwner ∧ fl.flStart ≤ x ∧ x ≤ fl.flEnd
  · have ho' : ¬ (o' = fl.flOwner ∧ fl.flStart ≤ x ∧ x ≤ fl.flEnd) := fun heq =>
      hne (ho.1.trans heq.1.symm)
    rw [if_pos ho, if_neg ho'] at hwr
    rw [if_pos ho] at htype
    rw [if_neg ho'] at htype'
    exact hfree ⟨o', fun heq => hne (ho.1.trans heq.symm), x, ho.2.1, ho.2.2, htype, htype', hwr⟩
  · rw [if_neg ho] at htype hwr
    by_cases ho' : o' = fl.flOwner ∧ fl.flStart ≤ x ∧ x ≤ fl.flEnd
    · rw [if_pos ho'] at htype' hwr
      exact hfree ⟨o, fun heq => hne (heq.trans ho'.1.symm), x, ho'.2.1, ho'.2.2, htype', htype,
        hwr.symm⟩
    · rw [if_neg ho'] at htype' hwr
      exact h.alone o o' x hne ⟨htype, htype', hwr⟩

lemma Inv.installed (hfree : ¬ Blocked s fl) (hlo : 0 ≤ fl.flStart)
    (hhi : fl.flEnd ≤ offsetMax) {own' : List ℕ} (heq : inode.iFlock = pre ++ own ++ post)
    (hcut : Cut inode.mem fl.flOwner pre own post)
    (hlist : ∀ mem' own', OneOwner mem' fl.flOwner own' →
      (∀ a ∈ pre ++ post, mem' a = inode.mem a) → Listed mem' (pre ++ own' ++ post))
    (hinst : Installed (update inode.mem inode.brk fl) mem' inode.brk own own'
      (inode.brk + 1) (inode.brk + 2)) :
    Inv (s.set fl) ⟨mem', pre ++ own' ++ post, inode.brk + 3⟩ := by
  have hnodup := h.nodup
  have hlt := h.lt_brk
  rw [heq] at hnodup hlt
  have hreq : update inode.mem inode.brk fl inode.brk = fl := update_self ..
  have hown' : OneOwner mem' fl.flOwner own' := by
    have hone := hinst.granted.oneOwner
    rwa [hreq] at hone
  have hmem' : ∀ a ∈ pre ++ post, mem' a = inode.mem a := by
    intro a ha
    have hmem : a ∈ pre ++ own ++ post ∧ a ∉ own := by
      obtain ⟨hpo, -, hpp⟩ := nodup_append.mp hnodup
      obtain ⟨-, -, hpo'⟩ := nodup_append.mp hpo
      rcases mem_append.mp ha with ha | ha
      · exact ⟨by simp [ha], fun hown => hpo' a ha a hown rfl⟩
      · exact ⟨by simp [ha], fun hown => hpp a (mem_append_right _ hown) a ha rfl⟩
    have hbrk := hlt a hmem.1
    rw [hinst.frame a hmem.2 (by omega) (by omega) (by omega), update_of_ne (by omega)]
  have hown : ∀ a ∈ own, update inode.mem inode.brk fl a = inode.mem a := fun a ha =>
    update_of_ne (hlt a (by simp [ha])).ne _ _
  refine ⟨hlist mem' own' hown' hmem', ?_, fun a ha => ?_, fun o x t ht => ?_,
    h.alone_set hfree, fun o x hx => ?_⟩
  · refine nodup_splice hnodup hinst.nodup fun a ha => ?_
    rcases hinst.mem_own a ha with hmem | rfl | rfl
    · exact .inl hmem
    · exact .inr fun hmem => absurd (hlt _ hmem) (by omega)
    · exact .inr fun hmem => absurd (hlt _ hmem) (by omega)
  · dsimp only at ha ⊢
    by_cases hold : a ∈ pre ++ own ++ post
    · exact (hlt a hold).trans (by omega)
    · have hnew : a ∈ own' := by
        simp at ha hold
        tauto
      rcases hinst.mem_own a hnew with hmem | rfl | rfl
      · exact absurd (by simp [hmem]) hold
      · omega
      · omega
  · have hold := h.shows o x t ht
    rw [heq] at hold
    unfold Bytes.set
    by_cases ho : o = fl.flOwner
    · subst ho
      rw [hcut.covers_self] at hold
      rw [(hcut.congr hmem' hown').covers_self, hinst.granted.covers x t, runs_congr hown, hreq]
      by_cases hx : fl.flStart ≤ x ∧ x ≤ fl.flEnd
      · rw [if_pos ⟨rfl, hx⟩]
        unfold keeps
        rw [hreq, decide_eq_true_eq]
        constructor
        · rintro rfl
          exact .inl ⟨hx, ht, rfl⟩
        · rintro (⟨-, -, heq⟩ | ⟨hnot, -⟩)
          · exact heq
          · exact absurd hx hnot
      · rw [if_neg fun hand => hx hand.2, hold]
        simp [hx]
    · rw [if_neg fun hand => ho hand.1, hold, hcut.oneOwner.covers_other ho, hown'.covers_other ho]
      refine exists_congr fun a => and_congr_right fun ha => ?_
      rw [hmem' a ha]
  · unfold Bytes.set at hx
    split_ifs at hx with ho
    · exact ⟨hlo.trans ho.2.1, ho.2.2.trans hhi⟩
    · exact h.range o x hx

lemma Inv.conflict_eq_none (hle : fl.flStart ≤ fl.flEnd) :
    conflict inode fl = none ↔ ¬ Blocked s fl := by
  unfold conflict
  rw [h.blocked_iff hle]
  split_ifs with htype
  · rw [List.find?_eq_none]
    have hposix : ∀ a, ((inode.mem a).posix && posixLocksConflict fl (inode.mem a)) = true ↔
        posixLocksConflict fl (inode.mem a) = true := by
      intro a
      rw [Bool.and_eq_true]
      exact and_iff_right_of_imp fun hconflict => (posixLocksConflict_iff.mp hconflict).1
    simp [hposix, htype]
  · simp [htype]

end

/-- **The request**, once there is no conflict. -/
lemma Inv.finished (h : Inv s inode) (hposix : r.lock.posix = true)
    (hle : r.lock.flStart ≤ r.lock.flEnd) (hconflict : conflict inode r.lock = none)
    (haccess : r.flags.access = false) (heq : inode.iFlock = pre ++ own ++ post)
    (hcut : Cut inode.mem r.lock.flOwner pre own post) (hnil : own = [] → post = []) :
    ∃ mem' own' e, posixLockFile inode r =
        (⟨mem', pre ++ own' ++ post, inode.brk + 3⟩, { error := e, conflock := none }) ∧
      Done inode r mem' own own' e := by
  have hnodup := h.nodup
  have hlt := h.lt_brk
  rw [heq] at hnodup hlt
  have hreq : update inode.mem inode.brk r.lock inode.brk = r.lock :=
    update_self ..
  have hown := hcut.owned hnodup hlt hposix hle
  have hmem : ∀ a ∈ pre ++ own ++ post, update inode.mem inode.brk r.lock a = inode.mem a :=
    fun a ha => update_of_ne (hlt a ha).ne _ _
  have hcut' := hcut.congr (fun a ha => hmem a (by simp at ha ⊢; tauto))
    (hcut.oneOwner.congr fun a ha => hmem a (by simp [ha]))
  obtain ⟨htake, hdrop⟩ := hcut'.span hnil rfl
  have hfresh : Fresh inode.brk own (inode.brk + 1) (inode.brk + 2) := by
    refine ⟨fun hmem => ?_, fun hmem => ?_, by omega, by omega, by omega⟩
    · exact absurd (hlt (inode.brk + 1) (by simp [hmem])) (by omega)
    · exact absurd (hlt (inode.brk + 2) (by simp [hmem])) (by omega)
  have hwalked := Walked.start pre hown.posix_req
  have hpost : ∀ p ∈ post.head?, p ∉ [] ++ [] ++ own ∧ p ≠ inode.brk ∧
      (update inode.mem inode.brk r.lock p).flOwner ≠
        (update inode.mem inode.brk r.lock inode.brk).flOwner := by
    intro p hp
    have hmem := mem_of_mem_head? hp
    refine ⟨fun hown => ?_, (hlt p (by simp [hmem])).ne, ?_⟩
    · exact (nodup_append.mp hnodup).2.2 p (mem_append_right _ hown) p hmem rfl
    · rw [hreq]
      exact hcut'.post_ne p hmem
  obtain ⟨w, A, C, Q, hwalk, hAC, hstops⟩ := walk_spec hown hwalked hpost
  have hACQ : own = A ++ C ++ Q := hAC.symm
  subst hACQ
  obtain ⟨mem', own', e, hfinish, hfinished⟩ := finish_spec hown hstops hfresh
    (fun a (h : newLock r r.mem _ = some a) => newLock_eq_some h)
    (fun a (h : newLock r r.mem2 _ = some a) => newLock_eq_some h) r.flags.exist post
  refine ⟨mem', own', e, ?_, hfinished⟩
  unfold posixLockFile
  rw [hconflict]
  dsimp only
  rw [haccess, heq, htake, hdrop]
  rw [if_neg nofun, hwalk]
  rw [hfinish]

section

variable {r : Request ω} {pre own post own' : List ℕ} {mem' : ℕ → FileLock ω} {e : ℤ}
  (h : Inv s inode) (haccess : r.flags.access = false) (heq : inode.iFlock = pre ++ own ++ post)
  (hcut : Cut inode.mem r.lock.flOwner pre own post) (hf : Done inode r mem' own own' e)
include h haccess heq hcut hf

omit [DecidableEq ω] in
lemma Inv.reply (hle : r.lock.flStart ≤ r.lock.flEnd) :
    e = 0 ∨ e = enoent ∧ r.flags.exist = true ∧ r.lock.flType = .unlck ∧
        (∀ x, r.lock.flStart ≤ x → x ≤ r.lock.flEnd → s r.lock.flOwner x = .unlck) ∨
      e = enolck ∧ (r.mem = false ∨ r.mem2 = false) := by
  have hreq : update inode.mem inode.brk r.lock inode.brk = r.lock :=
    update_self ..
  have hmem0 : ∀ a ∈ own, a ≠ inode.brk ∧ update inode.mem inode.brk r.lock a = inode.mem a := by
    intro a ha
    have hlt := h.lt_brk a (heq ▸ by simp [ha])
    exact ⟨hlt.ne, update_of_ne hlt.ne _ _⟩
  cases hf with
  | granted h => exact .inl rfl
  | enoent hexist htype hown hmem hinst =>
    subst hown
    rw [hreq] at htype
    refine .inr (.inl ⟨rfl, hexist, htype, fun x hlo hhi => ?_⟩)
    refine h.unlocked htype heq hcut (fun a ha => ?_) hinst.granted hlo hhi
    exact (hmem a (hmem0 a ha).1).trans (hmem0 a ha).2
  | enolck hown hmem hnew =>
    refine .inr (.inr ⟨rfl, ?_⟩)
    rw [hreq] at hnew
    rcases hnew with ⟨hnone, htype⟩ | ⟨hnone, a, ha, hlt, hgt⟩
    · exact .inl (eq_false_of_newLock haccess (.inl htype) hnone)
    · rw [(hmem0 a ha).2] at hlt hgt
      -- the lock to be split begins behind byte 0, and the request behind the lock
      obtain ⟨htype, -, hbytes⟩ :=
        h.lock_spec (heq ▸ by simp [ha] : a ∈ inode.iFlock) (hcut.oneOwner.posix a ha)
      have hbyte := hbytes (inode.mem a).flStart le_rfl (by omega)
      have hrange := h.range _ (inode.mem a).flStart (hbyte ▸ htype)
      exact .inr (eq_false_of_newLock haccess (.inr (by omega)) hnone)

lemma Inv.next (hfree : ¬ Blocked s r.lock) (hlo : 0 ≤ r.lock.flStart)
    (hhi : r.lock.flEnd ≤ offsetMax) (hlist : ∀ mem' own', OneOwner mem' r.lock.flOwner own' →
      (∀ a ∈ pre ++ post, mem' a = inode.mem a) → Listed mem' (pre ++ own' ++ post)) :
    Inv (posixContract.next s r { error := e, conflock := none })
      ⟨mem', pre ++ own' ++ post, inode.brk + 3⟩ := by
  have hsame : own' = own → (∀ a, a ≠ inode.brk → mem' a = update inode.mem inode.brk r.lock a) →
      Inv s ⟨mem', pre ++ own' ++ post, inode.brk + 3⟩ := by
    rintro rfl hmem
    rw [← heq]
    refine h.congr (fun a ha => ?_) (by omega)
    have hne := (h.lt_brk a ha).ne
    rw [hmem a hne, update_of_ne hne]
  show Inv (if e = 0 ∧ r.flags.access = false then s.set r.lock else s) _
  cases hf with
  | granted hinst =>
    rw [if_pos ⟨rfl, haccess⟩]
    exact h.installed hfree hlo hhi heq hcut hlist hinst
  | enoent hexist htype hown hmem hinst | enolck hown hmem hnew =>
    rw [if_neg fun hand => absurd hand.1 (by decide)]
    exact hsame hown hmem

end

lemma Inv.request (h : Inv s inode) (ha : posixContract.allowed s r) :
    ∃ inode' p, call inode r = some (inode', p) ∧ posixContract.ok s r p ∧
      Inv (posixContract.next s r p) inode' := by
  obtain ⟨hposix, hlo, hle, hhi⟩ := ha
  cases hconflict : conflict inode r.lock with
  | some a =>
    have hblocked : Blocked s r.lock := by
      by_contra hfree
      rw [(h.conflict_eq_none hle).mpr hfree] at hconflict
      cases hconflict
    unfold call posixLockFile
    rw [hconflict]
    refine ⟨_, _, rfl,
      ⟨fun _ => rfl, fun hfree => absurd hblocked hfree⟩, ?_⟩
    have hne : ¬ ((if r.flags.sleep = false then eagain else if r.deadlock then edeadlk
        else fileLockDeferred) = 0 ∧ r.flags.access = false) := by
      rintro ⟨heq, -⟩
      split_ifs at heq <;> cases heq
    show Inv (if _ then _ else _) inode
    rw [if_neg hne]
    exact h
  | none =>
    have hfree := (h.conflict_eq_none hle).mp hconflict
    cases haccess : r.flags.access with
    | true =>
      unfold call posixLockFile
      rw [hconflict]
      dsimp only
      rw [if_pos haccess]
      refine ⟨_, _, rfl,
        ⟨fun hblocked => absurd hblocked hfree, fun _ => .inl rfl⟩, ?_⟩
      show Inv (if _ then _ else _) inode
      rw [if_neg fun hand => by rw [haccess] at hand; cases hand.2]
      exact h
    | false =>
      obtain ⟨pre, own, post, heq, hcut, hnil, hlist⟩ := h.listed.cut r.lock.flOwner
      obtain ⟨mem', own', e, hcall, hfinished⟩ :=
        h.finished hposix hle hconflict haccess heq hcut hnil
      refine ⟨_, _, congrArg some hcall, ⟨fun hblocked => absurd hblocked hfree, fun _ => ?_⟩, ?_⟩
      · exact h.reply haccess heq hcut hfinished hle
      · exact h.next haccess heq hcut hfinished hfree hlo hhi hlist

/-- Over any requests, whatever the allocations give, the locks of every owner stay together, in
order and apart, and no two owners exclude each other. A request that succeeds gives its range the
type that was asked for, and changes no other byte; a request that fails changes none. -/
theorem posix_locks_right (inode : Inode ω) (hnodup : inode.iFlock.Nodup)
    (hbrk : ∀ a ∈ inode.iFlock, a < inode.brk)
    (hposix : ∀ a ∈ inode.iFlock, (inode.mem a).posix = false) (rs : List (Request ω)) :
    call.Keeps posixContract Right (fun _ _ => .unlck) inode rs :=
  Component.keeps_of_step (fun _ _ h => Inv.right h) (fun _ _ _ h ha => h.request ha)
    (Inv.start hnodup hbrk hposix) rs

end

/-- An inode with no locks, and a write lock whose middle is unlocked again. -/
theorem posix_locks_right_empty : ∃ s inode rs,
    call.run (⟨fun _ => ⟨0, false, .unlck, 0, 0⟩, [], 0⟩ : Inode ℕ)
      [⟨⟨1, true, .wrlck, 0, 9⟩, ⟨false, false, false⟩, true, true, false⟩,
        ⟨⟨1, true, .unlck, 3, 5⟩, ⟨false, false, false⟩, true, true, false⟩] =
      some (inode, rs) ∧ Right s inode := by
  refine (posix_locks_right _ nodup_nil (by simp) (by simp) _).run ?_
  simp [Contract.Allows, posixContract, offsetMax]

end Am335x.Locks
