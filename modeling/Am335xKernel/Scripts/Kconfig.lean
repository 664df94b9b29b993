import Mathlib.Data.Nat.Notation

/-!
# `expr_trans_compare` of `scripts/kconfig/expr.c`

The function pushes a comparison with `y`, `m` or `n` down to the symbols of an
expression. Under a negation it turns `=` into `!=` and leaves the constant as
it is. With three values that is wrong: `!A != n` is `A != y`, and not `A = n`.
What comes out of a comparison with `n` is the value of the expression with each
symbol read as `y`, unless its string is "n".
-/

namespace Am335x.Kconfig

/-- `tristate`, in the order 0, 1, 2. -/
inductive Tristate where
  | no
  | mod
  | yes
  deriving DecidableEq

namespace Tristate

/-- `EXPR_AND`, the smaller one. -/
def and : Tristate → Tristate → Tristate
  | no, _ => no
  | mod, no => no
  | mod, _ => mod
  | yes, b => b

/-- `EXPR_OR`, the larger one. -/
def or : Tristate → Tristate → Tristate
  | yes, _ => yes
  | mod, yes => yes
  | mod, _ => mod
  | no, b => b

/-- `EXPR_NOT`, 2 less the value. -/
def not : Tristate → Tristate
  | no => yes
  | mod => mod
  | yes => no

def ofProp (p : Prop) [Decidable p] : Tristate := if p then yes else no

end Tristate

open Tristate

/-- The constants `symbol_yes`, `symbol_mod` and `symbol_no`, and all others. -/
inductive Sym where
  | yes
  | mod
  | no
  | other (i : ℕ)
  deriving DecidableEq

/-- `struct expr`, with the null pointer. -/
inductive Expr where
  | null
  | symbol (s : Sym)
  | and (l r : Expr)
  | or (l r : Expr)
  | not (e : Expr)
  | equal (s t : Sym)
  | unequal (s t : Sym)
  deriving DecidableEq

/-- `enum expr_type`, as far as it is an argument here. -/
inductive Cmp where
  | equal
  | unequal
  deriving DecidableEq

def Cmp.flip : Cmp → Cmp
  | equal => unequal
  | unequal => equal

/-- `if (type == E_UNEQUAL) e = expr_alloc_one(E_NOT, e)`. -/
def Cmp.finish (e : Expr) : Cmp → Expr
  | equal => e
  | unequal => .not e

/-- `expr_alloc_comp`. -/
def Cmp.comp (s t : Sym) : Cmp → Expr
  | equal => .equal s t
  | unequal => .unequal s t

/-- A comparison under a comparison is `y` or `n`. -/
def transComp (e : Expr) : Cmp → Sym → Expr
  | .equal, .yes => e
  | .equal, .mod => .symbol .no
  | .equal, .no => .not e
  | .unequal, .yes => .not e
  | .unequal, .mod => .symbol .yes
  | .unequal, .no => e
  | _, .other _ => .null

/-- With a symbol that is neither `y` nor `n`, the cases of `E_AND` and `E_OR` give
the expression itself. -/
def transCompare : Expr → Cmp → Sym → Expr
  | .null, type, sym => type.finish (.symbol sym)
  | .and l r, type, sym =>
    let e1 := transCompare l .equal sym
    let e2 := transCompare r .equal sym
    type.finish <|
      if sym = .yes then .and e1 e2 else if sym = .no then .or e1 e2 else .and l r
  | .or l r, type, sym =>
    let e1 := transCompare l .equal sym
    let e2 := transCompare r .equal sym
    type.finish <|
      if sym = .yes then .or e1 e2 else if sym = .no then .and e1 e2 else .or l r
  | .not e, type, sym => transCompare e type.flip sym
  | .equal s t, type, sym => transComp (.equal s t) type sym
  | .unequal s t, type, sym => transComp (.unequal s t) type sym
  | .symbol s, type, sym => type.comp s sym

/-- `expr_calc_value`; `tri` and `str` are what `sym_calc_value` and
`sym_get_string_value` give. -/
def calcValue (tri : Sym → Tristate) (str : Sym → String) : Expr → Tristate
  | .null => .yes
  | .symbol s => tri s
  | .and l r => (calcValue tri str l).and (calcValue tri str r)
  | .or l r => (calcValue tri str l).or (calcValue tri str r)
  | .not e => (calcValue tri str e).not
  | .equal s t => ofProp (str s = str t)
  | .unequal s t => ofProp (str s ≠ str t)

/-- The values of all symbols, from those of the symbols that are not constant. -/
def symTri (tri : ℕ → Tristate) : Sym → Tristate
  | .yes => .yes
  | .mod => .mod
  | .no => .no
  | .other i => tri i

def symStr (str : ℕ → String) : Sym → String
  | .yes => "y"
  | .mod => "m"
  | .no => "n"
  | .other i => str i

/-- A symbol read as `y` or `n`. -/
def readBool (str : Sym → String) (s : Sym) : Tristate := ofProp (str s ≠ "n")

section

variable (tri : ℕ → Tristate) (str : ℕ → String)

/-- With the symbols read like this there is no `m`. -/
lemma calcValue_readBool_ne (e : Expr) :
    calcValue (readBool (symStr str)) (symStr str) e ≠ .mod := by
  have hof (p : Prop) [Decidable p] : ofProp p ≠ .mod := by
    unfold ofProp
    split <;> simp
  induction e with
  | null => nofun
  | symbol s => exact hof _
  | and l r ihl ihr | or l r ihl ihr =>
    rw [calcValue]
    revert ihl ihr
    cases calcValue _ _ l <;> cases calcValue _ _ r <;> decide
  | not e ih =>
    rw [calcValue]
    revert ih
    cases calcValue _ _ e <;> decide
  | equal s t | unequal s t => exact hof _

/-- The value of a comparison with `n`, given that of the expression. -/
def Cmp.withNo (v : Tristate) : Cmp → Tristate
  | equal => v.not
  | unequal => v

/-- **What a comparison with `n` comes to.** -/
lemma calcValue_transCompare (e : Expr) (type : Cmp) :
    calcValue (symTri tri) (symStr str) (transCompare e type .no) =
      type.withNo (calcValue (readBool (symStr str)) (symStr str) e) := by
  have hfinish (e : Expr) (v : Tristate) (h : calcValue (symTri tri) (symStr str) e = v.not)
      (type : Cmp) : calcValue (symTri tri) (symStr str) (type.finish e) = type.withNo v := by
    cases type with
    | equal => exact h
    | unequal =>
      change (calcValue (symTri tri) (symStr str) e).not = v
      rw [h]
      cases v <;> rfl
  induction e generalizing type with
  | null => cases type <;> rfl
  | symbol s =>
    cases type with
    | equal =>
      change ofProp (symStr str s = "n") = (ofProp (symStr str s ≠ "n")).not
      by_cases h : symStr str s = "n" <;> simp [ofProp, h, Tristate.not]
    | unequal => rfl
  | and l r ihl ihr | or l r ihl ihr =>
    apply hfinish
    rw [if_neg nofun, if_pos rfl]
    simp only [calcValue, ihl, ihr, Cmp.withNo]
    cases calcValue (readBool _) _ l <;> cases calcValue (readBool _) _ r <;> rfl
  | not e ih =>
    rw [transCompare, ih]
    cases type with
    | equal =>
      change _ = (calcValue _ _ e).not.not
      cases calcValue (readBool _) _ e <;> rfl
    | unequal => rfl
  | equal s t | unequal s t => cases type <;> rfl

/-- **A comparison `!= n` is right exactly if it makes no difference whether the
expression is `n` when its symbols are read as `y` or `n`**, for all values and
strings of the symbols. -/
theorem trans_compare_iff (e : Expr) :
    calcValue (symTri tri) (symStr str) (transCompare e .unequal .no) =
        ofProp (calcValue (symTri tri) (symStr str) e ≠ .no) ↔
      (calcValue (symTri tri) (symStr str) e = .no ↔
        calcValue (readBool (symStr str)) (symStr str) e = .no) := by
  rw [calcValue_transCompare]
  have hne := calcValue_readBool_ne str e
  revert hne
  cases calcValue (readBool _) _ e <;> cases calcValue (symTri tri) _ e <;> decide

end

/-- `!A != n` with `A` set to `m`: the negation is `m`, and the comparison `n`. -/
theorem trans_compare_not_mod :
    let tri := symTri fun _ => .mod
    let str := symStr fun _ => "m"
    let e := Expr.not (.symbol (.other 0))
    calcValue tri str e = .mod ∧ transCompare e .unequal .no = .equal (.other 0) .no ∧
      calcValue tri str (transCompare e .unequal .no) = .no := by
  decide

end Am335x.Kconfig
