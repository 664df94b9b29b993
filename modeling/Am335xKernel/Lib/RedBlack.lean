import Mathlib.Algebra.Group.Nat.Defs
import Mathlib.Data.List.Nodup
import Mathlib.Data.Nat.Log

/-!
# Red-black trees and the places in them

Programs that change a red-black tree in place work at one node at a time; the rest of the tree is
then the list of the nodes above it, each with its other subtree (`Frame`, `plug`).

`Balanced t c n` says that `t` has a root of colour `c` and `n` black nodes on its paths, `Fits C c
n` that a subtree like this is what is missing in `C`.

Most of what is done to a tree has a mirror image, so a node is written as `fork d c t x s` where
`t` is its subtree on the side `d`, and `s` the one on the other side.
-/

namespace RedBlack

inductive Color where
  | red
  | black
deriving DecidableEq

inductive Side where
  | left
  | right
deriving DecidableEq

def Side.other : Side → Side
  | left => right
  | right => left

@[simp] lemma Side.other_other (d : Side) : d.other.other = d := by cases d <;> rfl

lemma Side.eq_or_eq_other (d e : Side) : e = d ∨ e = d.other := by
  cases d <;> cases e <;> decide

inductive Tree (ν : Type*) where
  | leaf
  | node (c : Color) (l : Tree ν) (x : ν) (r : Tree ν)

variable {ν : Type*}

namespace Tree

def color : Tree ν → Color
  | leaf => .black
  | node c _ _ _ => c

def root : Tree ν → Option ν
  | leaf => none
  | node _ _ x _ => some x

def inorder : Tree ν → List ν
  | leaf => []
  | node _ l x r => l.inorder ++ x :: r.inorder

def paint (c : Color) : Tree ν → Tree ν
  | leaf => leaf
  | node _ l x r => node c l x r

/-- A node with its subtrees on the side `d` and on the other side. -/
def fork : Side → Color → Tree ν → ν → Tree ν → Tree ν
  | .left, c, t, x, s => node c t x s
  | .right, c, t, x, s => node c s x t

section

variable (d : Side)

lemma fork_other (c : Color) (t s : Tree ν) (x : ν) : fork d.other c t x s = fork d c s x t := by
  cases d <;> rfl

@[simp] lemma color_fork (c : Color) (t s : Tree ν) (x : ν) : (fork d c t x s).color = c := by
  cases d <;> rfl

@[simp] lemma root_fork (c : Color) (t s : Tree ν) (x : ν) : (fork d c t x s).root = some x := by
  cases d <;> rfl

@[simp] lemma paint_fork (c c' : Color) (t s : Tree ν) (x : ν) :
    (fork d c t x s).paint c' = fork d c' t x s := by
  cases d <;> rfl

end

lemma paint_color (t : Tree ν) : t.paint t.color = t := by
  cases t <;> rfl

@[simp] lemma inorder_paint (c : Color) (t : Tree ν) : (t.paint c).inorder = t.inorder := by
  cases t <;> rfl

@[simp] lemma root_paint (c : Color) (t : Tree ν) : (t.paint c).root = t.root := by
  cases t <;> rfl

variable {d : Side} {c : Color} {s t : Tree ν} {x : ν}

lemma inorder_fork_congr {c' : Color} {t' s' : Tree ν} (ht : t.inorder = t'.inorder)
    (hs : s.inorder = s'.inorder) : (fork d c t x s).inorder = (fork d c' t' x s').inorder := by
  cases d
  · show t.inorder ++ x :: s.inorder = t'.inorder ++ x :: s'.inorder
    rw [ht, hs]
  · show s.inorder ++ x :: t.inorder = s'.inorder ++ x :: t'.inorder
    rw [ht, hs]

lemma inorder_rotate (d : Side) (c c' e e' : Color) (t s u : Tree ν) (x y : ν) :
    (fork d e (fork d e' t x s) y u).inorder = (fork d c t x (fork d c' s y u)).inorder := by
  cases d
  · show (t.inorder ++ x :: s.inorder) ++ y :: u.inorder =
      t.inorder ++ x :: (s.inorder ++ y :: u.inorder)
    rw [List.append_assoc, List.cons_append]
  · show u.inorder ++ y :: (s.inorder ++ x :: t.inorder) =
      (u.inorder ++ y :: s.inorder) ++ x :: t.inorder
    rw [List.append_assoc, List.cons_append]

lemma length_inorder_fork (d : Side) (c : Color) (t s : Tree ν) (x : ν) :
    (fork d c t x s).inorder.length = t.inorder.length + s.inorder.length + 1 := by
  cases d
  · exact List.length_append
  · refine List.length_append.trans ?_
    rw [List.length_cons]
    omega

lemma mem_inorder_fork {y : ν} :
    y ∈ (fork d c t x s).inorder ↔ y = x ∨ y ∈ t.inorder ∨ y ∈ s.inorder := by
  cases d
  · show y ∈ t.inorder ++ x :: s.inorder ↔ _
    rw [List.mem_append, List.mem_cons, or_left_comm]
  · show y ∈ s.inorder ++ x :: t.inorder ↔ _
    rw [List.mem_append, List.mem_cons, or_left_comm, or_comm (a := y ∈ s.inorder)]

lemma nodup_inorder_fork : (fork d c t x s).inorder.Nodup ↔
      x ∉ t.inorder ∧ x ∉ s.inorder ∧ t.inorder.Nodup ∧ s.inorder.Nodup ∧
        ∀ y ∈ t.inorder, y ∉ s.inorder := by
  have hfork : (fork d c t x s).inorder.Nodup ↔ (x :: (t.inorder ++ s.inorder)).Nodup := by
    cases d
    · exact List.nodup_middle
    · exact List.nodup_append_comm
  rw [hfork, List.nodup_cons, List.mem_append, not_or, List.nodup_append', and_assoc]
  rfl

lemma root_mem (h : t.root = some x) : x ∈ t.inorder := by
  cases t with
  | leaf => cases h
  | node c l y r =>
    cases h
    exact List.mem_append_right _ List.mem_cons_self

lemma exists_fork (d : Side) (h : t.root = some x) : ∃ s u, t = fork d t.color s x u := by
  cases t with
  | leaf => cases h
  | node c l y r =>
    cases h
    cases d
    · exact ⟨l, r, rfl⟩
    · exact ⟨r, l, rfl⟩

end Tree

open Tree List

/-- A node above the place, which is on its side `side`. -/
structure Frame (ν : Type*) where
  side : Side
  color : Color
  node : ν
  sibling : Tree ν

def Frame.plug (f : Frame ν) (t : Tree ν) : Tree ν := fork f.side f.color t f.node f.sibling

def plug : List (Frame ν) → Tree ν → Tree ν
  | [], t => t
  | f :: C, t => plug C (f.plug t)

lemma plug_cons (f : Frame ν) (C : List (Frame ν)) (t : Tree ν) :
    plug (f :: C) t = plug C (f.plug t) := rfl

lemma plug_append (C D : List (Frame ν)) (t : Tree ν) : plug (C ++ D) t = plug D (plug C t) := by
  induction C generalizing t with
  | nil => rfl
  | cons f C ih => exact ih (f.plug t)

def before : List (Frame ν) → List ν
  | [] => []
  | f :: C =>
    match f.side with
    | .left => before C
    | .right => before C ++ (f.sibling.inorder ++ [f.node])

def behind : List (Frame ν) → List ν
  | [] => []
  | f :: C =>
    match f.side with
    | .left => f.node :: (f.sibling.inorder ++ behind C)
    | .right => behind C

lemma inorder_plug (C : List (Frame ν)) (t : Tree ν) :
    (plug C t).inorder = before C ++ (t.inorder ++ behind C) := by
  induction C generalizing t with
  | nil => exact (append_nil _).symm
  | cons f C ih =>
    obtain ⟨d, c, x, s⟩ := f
    rw [plug_cons, ih]
    cases d
    · show before C ++ ((t.inorder ++ x :: s.inorder) ++ behind C) =
        before C ++ (t.inorder ++ (x :: (s.inorder ++ behind C)))
      rw [append_assoc, cons_append]
    · show before C ++ ((s.inorder ++ x :: t.inorder) ++ behind C) =
        (before C ++ (s.inorder ++ [x])) ++ (t.inorder ++ behind C)
      simp only [append_assoc, cons_append, nil_append]

variable {t s : Tree ν}

lemma inorder_plug_congr (C : List (Frame ν)) {t' : Tree ν} (h : t.inorder = t'.inorder) :
    (plug C t).inorder = (plug C t').inorder := by
  rw [inorder_plug, inorder_plug, h]

variable {C : List (Frame ν)} {x : ν}

lemma mem_inorder_plug (h : x ∈ t.inorder) : x ∈ (plug C t).inorder := by
  rw [inorder_plug]
  exact mem_append_right _ (mem_append_left _ h)

lemma exists_plug (h : x ∈ t.inorder) : ∃ C c l r, t = plug C (node c l x r) := by
  induction t with
  | leaf => cases h
  | node c l y r ihl ihr =>
    rcases mem_append.mp h with hl | hr
    · obtain ⟨C, c', l', r', rfl⟩ := ihl hl
      refine ⟨C ++ [⟨.left, c, y, r⟩], c', l', r', ?_⟩
      rw [plug_append]
      rfl
    · rcases mem_cons.mp hr with rfl | hr
      · exact ⟨[], c, l, r, rfl⟩
      · obtain ⟨C, c', l', r', rfl⟩ := ihr hr
        refine ⟨C ++ [⟨.right, c, y, l⟩], c', l', r', ?_⟩
        rw [plug_append]
        rfl

inductive Balanced : Tree ν → Color → ℕ → Prop
  | leaf : Balanced leaf .black 0
  | red {l r : Tree ν} {x : ν} {n : ℕ} (hl : Balanced l .black n) (hr : Balanced r .black n) :
      Balanced (node .red l x r) .red n
  | black {l r : Tree ν} {x : ν} {c c' : Color} {n : ℕ} (hl : Balanced l c n)
      (hr : Balanced r c' n) : Balanced (node .black l x r) .black (n + 1)

def IsRedBlack (t : Tree ν) : Prop := ∃ n, Balanced t .black n

variable {c : Color} {n : ℕ}

open Balanced

lemma Balanced.color_eq (h : Balanced t c n) : t.color = c := by
  cases h <;> rfl

variable {d : Side}

lemma Balanced.fork_red (ht : Balanced t .black n) (hs : Balanced s .black n)
    : Balanced (fork d .red t x s) .red n := by
  cases d
  · exact .red ht hs
  · exact .red hs ht

lemma Balanced.fork_black {c' : Color} (ht : Balanced t c n) (hs : Balanced s c' n) :
    Balanced (fork d .black t x s) .black (n + 1) := by
  cases d
  · exact .black ht hs
  · exact .black hs ht

lemma Balanced.of_fork_red (h : Balanced (fork d .red t x s) c n)
    : Balanced t .black n ∧ Balanced s .black n := by
  cases d
  · cases h with
    | red hl hr => exact ⟨hl, hr⟩
  · cases h with
    | red hl hr => exact ⟨hr, hl⟩

lemma Balanced.of_fork_black (h : Balanced (fork d .black t x s) c n) :
    ∃ k c1 c2, n = k + 1 ∧ Balanced t c1 k ∧ Balanced s c2 k := by
  cases d
  · cases h with
    | black hl hr => exact ⟨_, _, _, rfl, hl, hr⟩
  · cases h with
    | black hl hr => exact ⟨_, _, _, rfl, hr, hl⟩

lemma Balanced.exists_root (h : Balanced t c (n + 1)) : ∃ x, t.root = some x := by
  cases h <;> exact ⟨_, rfl⟩

lemma Balanced.exists_root_of_red (h : Balanced t .red n) : ∃ x, t.root = some x := by
  cases h with
  | red hl hr => exact ⟨_, rfl⟩

lemma Balanced.blacken (h : Balanced t c n) :
    ∃ k, Balanced (t.paint .black) .black k ∧ (c = .red → k = n + 1) := by
  cases h with
  | leaf => exact ⟨0, .leaf, nofun⟩
  | red hl hr => exact ⟨_, .black hl hr, fun _ => rfl⟩
  | black hl hr => exact ⟨_, .black hl hr, nofun⟩

inductive Fits : List (Frame ν) → Color → ℕ → Prop
  | root {n : ℕ} : Fits [] .black n
  | red {d : Side} {x : ν} {s : Tree ν} {C : List (Frame ν)} {n : ℕ} (hs : Balanced s .black n)
      (hC : Fits C .red n) : Fits (⟨d, .red, x, s⟩ :: C) .black n
  | black {d : Side} {x : ν} {s : Tree ν} {C : List (Frame ν)} {c c' : Color} {n : ℕ}
      (hs : Balanced s c' n) (hC : Fits C .black (n + 1)) : Fits (⟨d, .black, x, s⟩ :: C) c n

lemma Fits.of_red (h : Fits C .red n) : Fits C .black n := by
  cases h with
  | black hs hC => exact .black hs hC

lemma Fits.to_black (h : Fits C c n) : Fits C .black n := by
  cases c
  · exact h.of_red
  · exact h

lemma Fits.plug (h : Fits C c n) (ht : Balanced t c n) : IsRedBlack (plug C t) := by
  induction h generalizing t with
  | root => exact ⟨_, ht⟩
  | red hs hC ih => exact ih (fork_red ht hs)
  | black hs hC ih => exact ih (fork_black ht hs)

lemma fits_of_plug (h : IsRedBlack (plug C t)) : ∃ c n, Balanced t c n ∧ Fits C c n := by
  induction C generalizing t with
  | nil =>
    obtain ⟨n, hn⟩ := h
    exact ⟨.black, n, hn, .root⟩
  | cons f C ih =>
    obtain ⟨d, c, x, s⟩ := f
    obtain ⟨c', n, hbal, hfits⟩ := ih h
    cases c with
    | red =>
      obtain ⟨ht, hs⟩ := of_fork_red hbal
      obtain rfl : Color.red = c' := (color_fork d .red t s x).symm.trans hbal.color_eq
      exact ⟨.black, n, ht, .red hs hfits⟩
    | black =>
      obtain ⟨k, c1, c2, rfl, ht, hs⟩ := of_fork_black hbal
      exact ⟨c1, k, ht, .black hs hfits.to_black⟩

lemma Balanced.two_pow_le (h : Balanced t c n) : 2 ^ n ≤ t.inorder.length + 1 := by
  induction h with
  | leaf => exact Nat.le_refl 1
  | red hl hr ihl ihr =>
    rw [inorder, length_append]
    omega
  | black hl hr ihl ihr =>
    rw [inorder, length_append, length_cons, Nat.pow_succ]
    omega

/-- At least every other node on the way up is black. -/
lemma Fits.length_le (h : Fits C c n) (ht : Balanced t c n) : ∃ k,
    Balanced (RedBlack.plug C t) .black k ∧
      2 * n + C.length + (if c = .red then 1 else 0) ≤ 2 * k := by
  induction h generalizing t with
  | root => exact ⟨_, ht, Nat.le_refl _⟩
  | red hs hC ih => exact ih (fork_red ht hs)
  | black hs hC ih =>
    obtain ⟨k, hk, hle⟩ := ih (fork_black ht hs)
    rw [if_neg (by decide)] at hle
    refine ⟨k, hk, ?_⟩
    rw [length_cons]
    split_ifs <;> omega

lemma length_le_log (h : IsRedBlack (plug C t)) :
    C.length ≤ 2 * Nat.log 2 ((plug C t).inorder.length + 1) := by
  obtain ⟨c, n, ht, hC⟩ := fits_of_plug h
  obtain ⟨k, hk, hle⟩ := hC.length_le ht
  have hlog := Nat.le_log_of_pow_le Nat.one_lt_two hk.two_pow_le
  omega

/-- The paths through `t` have `n` black nodes, or one more if the root is made black. -/
structure Short (t : Tree ν) (n : ℕ) : Prop where
  black : t.color = .black → Balanced t .black n
  red : t.color = .red → Balanced (t.paint .black) .black (n + 1)

section

variable {C : List (Frame ν)} {d : Side} {c : Color} {t s s' : Tree ν} {p x : ν} {n : ℕ}

lemma fits_rebuild (h : Fits (⟨d, c, p, s⟩ :: C) .black n) (ht : Balanced t .black n)
    (hs' : Balanced s' .black n) : IsRedBlack (plug C (fork d c t x s')) := by
  cases h with
  | red hs hC => exact hC.plug (fork_red ht hs')
  | black hs hC => exact hC.plug (fork_black ht hs')

lemma Fits.short (h : Fits (⟨d, c, p, s⟩ :: C) .black (n + 1)) (ht : Balanced t .black n)
    (hs' : Balanced s' .red n) : ∃ k, Short (fork d c t p s') k ∧ Fits C .black (k + 1) := by
  cases h with
  | red hs hC =>
    refine ⟨n, ⟨fun hblack => ?_, fun _ => ?_⟩, hC.to_black⟩
    · rw [color_fork] at hblack
      cases hblack
    · rw [paint_fork]
      exact fork_black ht hs'
  | black hs hC =>
    refine ⟨n + 1, ⟨fun _ => fork_black ht hs', fun hred => ?_⟩, hC⟩
    rw [color_fork] at hred
    cases hred

lemma Fits.rename {R : List (Frame ν)} {y : ν} {c' : Color}
    (h : Fits (R ++ ⟨d, c, x, t⟩ :: C) c' n) :
    Fits (R ++ ⟨d, c, y, t⟩ :: C) c' n := by
  induction R generalizing c' n with
  | nil =>
    cases h with
    | red hs hC => exact .red hs hC
    | black hs hC => exact .black hs hC
  | cons f R ih =>
    cases h with
    | red hs hC => exact .red hs (ih hC)
    | black hs hC => exact .black hs (ih hC)

end

end RedBlack
