import Mathlib.Data.List.Basic
import Am335xKernel.Kernel.Interface

/-!
# One pin of `drivers/gpio/gpiolib.c`

The pin is valid and has a chip whose module can be taken. What the chip's own
operations return is a parameter.

In this tree `gpio_direction_output` does not reserve the pin: its call of
`gpio_ensure_requested` is commented out.
-/

namespace Am335x.Gpio

structure Chip where
  request : ℤ
  directionOutput : ℤ
  deriving DecidableEq

/-- `struct gpio_desc` with the level of the pin. `driven` is a history
variable: the levels it was driven to, the latest first. -/
structure Desc where
  requested : Bool
  isOut : Bool
  activeLow : Bool
  level : Bool
  driven : List Bool
  deriving DecidableEq

def gpioRequest (c : Chip) (p : Desc) : Desc × ℤ :=
  if p.requested = false then
    if c.request < 0 then ({ p with requested := false }, c.request)
    else ({ p with requested := true }, c.request)
  else (p, ebusy)

/-- `gpio_free`; on a pin that is not requested it only warns. -/
def gpioFree (p : Desc) : Desc :=
  if p.requested then { p with activeLow := false, requested := false } else p

def gpioDirectionOutput (c : Chip) (value : Bool) (p : Desc) : Desc × ℤ :=
  if c.directionOutput = 0 then
    ({ p with isOut := true, level := value, driven := value :: p.driven }, 0)
  else (p, c.directionOutput)

/-- `gpio_request_one` with `GPIOF_DIR_OUT`; `initHigh` is `GPIOF_INIT_HIGH`. -/
def gpioRequestOne (c : Chip) (initHigh : Bool) (p : Desc) : Desc × ℤ :=
  let r := gpioRequest c p
  if r.2 ≠ 0 then r
  else
    let q := gpioDirectionOutput c initHigh r.1
    if q.2 ≠ 0 then (gpioFree q.1, q.2) else q

structure Chip.Ok (c : Chip) : Prop where
  request : c.request = 0
  directionOutput : c.directionOutput = 0

lemma gpioRequestOne_busy (c : Chip) (v : Bool) {p : Desc} (hp : p.requested = true) :
    gpioRequestOne c v p = (p, ebusy) := by
  simp [gpioRequestOne, gpioRequest, hp, ebusy]

lemma gpioRequestOne_free {c : Chip} (h : c.Ok) (v : Bool) {p : Desc} (hp : p.requested = false) :
    gpioRequestOne c v p =
      ({ p with requested := true, isOut := true, level := v, driven := v :: p.driven }, 0) := by
  simp [gpioRequestOne, gpioRequest, hp, h.request, gpioDirectionOutput, h.directionOutput]

lemma gpioFree_requested (p : Desc) : (gpioFree p).requested = false := by
  unfold gpioFree
  by_cases hp : p.requested = true <;> simp [hp]

lemma gpioFree_level (p : Desc) : (gpioFree p).level = p.level := by
  unfold gpioFree
  split <;> rfl

end Am335x.Gpio
