import Am335xKernel.Lib.Machine
import Am335xKernel.Kernel.Gpiolib

/-!
# The external watchdog of `drivers/watchdog/ext_hw_watchdog.c`

The watchdog is fed by toggling pin 1_30. Opening the device reserves the pin
and toggles it twice, a keepalive toggles it once, and a release gives the pin
back. The toggle is a static flag that survives all of this.

`ext_watchdog_init` discards the result of its request and `ext_wdt_release`
frees whatever the number of open descriptors, so the first of two descriptors
that is closed takes the pin from the other. The feeding is always right.
-/

namespace Am335x.ExtWatchdog

open Gpio List

/-- The pin, the static `flag` of `ext_watchdog_reset`, and the open
descriptors. -/
structure Device where
  pin : Desc
  flag : ℤ
  fds : List ℕ
  deriving DecidableEq

/-- `ext_watchdog_reset`; `~flag` is `-flag - 1`. -/
def extWatchdogReset (c : Chip) (d : Device) : Device :=
  { d with
    pin := (gpioDirectionOutput c (if d.flag ≠ 0 then false else true) d.pin).1
    flag := -d.flag - 1 }

/-- `ext_watchdog_init`: 0 whatever the request returned. -/
def extWatchdogInit (c : Chip) (d : Device) : Device × ℤ :=
  ({ d with pin := (gpioRequestOne c false d.pin).1 }, 0)

def extWdtOpen (c : Chip) (d : Device) : Device × ℤ :=
  let r := extWatchdogInit c d
  if 0 = r.2 then (extWatchdogReset c (extWatchdogReset c r.1), r.2) else r

def extWdtRelease (d : Device) : Device := { d with pin := gpioFree d.pin }

/-- `EXT_WDT_CMD_KEEPALIVE`, that is `_IOR('W', 5, int)`. -/
def extWdtCmdKeepalive : ℕ := 0x80045705

def extWdtIoctl (c : Chip) (cmd : ℕ) (d : Device) : Device :=
  if cmd = extWdtCmdKeepalive then extWatchdogReset c d else d

inductive Event where
  | open (fd : ℕ)
  | ioctl (fd cmd : ℕ)
  | release (fd : ℕ)
  deriving DecidableEq

/-- A new descriptor exists once `open` has returned 0; `ioctl` and `release`
are for open ones. -/
def Device.step (c : Chip) (d : Device) : Event → Option Device
  | .open fd =>
    if fd ∈ d.fds then none
    else
      let r := extWdtOpen c d
      some (if r.2 = 0 then { r.1 with fds := fd :: d.fds } else r.1)
  | .ioctl fd cmd => if fd ∈ d.fds then some (extWdtIoctl c cmd d) else none
  | .release fd =>
    if fd ∈ d.fds then some { extWdtRelease d with fds := d.fds.erase fd } else none

def machine (c : Chip) (level : Bool) : Machine Device Event where
  init :=
    { pin := { requested := false, isOut := false, activeLow := false, level := level,
               driven := [] }
      flag := 0
      fds := [] }
  step := Device.step c

variable {d d' : Device} {e : Event}

lemma Device.step_cases {c : Chip} (h : d.step c e = some d') :
    (∃ fd, e = .open fd ∧ d' = { (extWdtOpen c d).1 with fds := fd :: d.fds }) ∨
      (∃ fd cmd, e = .ioctl fd cmd ∧ fd ∈ d.fds ∧ d' = extWdtIoctl c cmd d) ∨
      (∃ fd, e = .release fd ∧ fd ∈ d.fds ∧
        d' = { extWdtRelease d with fds := d.fds.erase fd }) := by
  cases e with
  | «open» fd =>
    simp only [Device.step] at h
    split at h <;> cases h
    exact .inl ⟨fd, rfl, rfl⟩
  | ioctl fd cmd =>
    simp only [Device.step] at h
    split at h <;> cases h
    rename_i hfd
    exact .inr (.inl ⟨fd, cmd, rfl, hfd, rfl⟩)
  | release fd =>
    simp only [Device.step] at h
    split at h <;> cases h
    rename_i hfd
    exact .inr (.inr ⟨fd, rfl, hfd, rfl⟩)

def Device.Reserved (d : Device) : Prop := d.pin.requested = true ↔ d.fds ≠ []

def Event.feeds : Event → Bool
  | .open _ => true
  | .ioctl _ cmd => cmd = extWdtCmdKeepalive
  | .release _ => false

def Device.feeds (c : Chip) (d : Device) (e : Event) : Prop :=
  e.feeds = true → ∀ d', d.step c e = some d' →
    ∃ vs, d'.pin.driven = vs ++ d.pin.driven ∧ ∃ v ∈ vs, v ≠ d.pin.level

def Device.releasesLast (d : Device) : Event → Prop
  | .release fd => d.fds = [fd]
  | _ => True

instance (d : Device) : ∀ e, Decidable (d.releasesLast e)
  | .release _ => inferInstanceAs (Decidable (_ = _))
  | .open _ | .ioctl _ _ => inferInstanceAs (Decidable True)

structure Toggle (d : Device) : Prop where
  flag : d.flag = 0 ∨ d.flag = -1
  level : d.fds ≠ [] → (d.pin.level = true ↔ d.flag ≠ 0)

lemma extWatchdogReset_flag (c : Chip) {d : Device} (h : d.flag = 0 ∨ d.flag = -1) :
    (extWatchdogReset c d).flag = 0 ∨ (extWatchdogReset c d).flag = -1 := by
  simp only [extWatchdogReset]
  omega

section

variable {c : Chip} (hc : c.Ok)

include hc

lemma extWatchdogReset_pin (d : Device) : (extWatchdogReset c d).pin =
      { d.pin with isOut := true, level := decide (d.flag = 0),
                   driven := decide (d.flag = 0) :: d.pin.driven } := by
  simp only [extWatchdogReset, gpioDirectionOutput, if_pos hc.directionOutput]
  by_cases h : d.flag = 0 <;> simp [h]

lemma extWatchdogReset_level {d : Device} (h : d.flag = 0 ∨ d.flag = -1) :
    (extWatchdogReset c d).pin.level = true ↔ (extWatchdogReset c d).flag ≠ 0 := by
  rw [extWatchdogReset_pin hc]
  simp only [extWatchdogReset, decide_eq_true_eq]
  omega

lemma gpioRequestOne_requested (p : Desc) : (gpioRequestOne c false p).1.requested = true := by
  cases hp : p.requested with
  | false => rw [gpioRequestOne_free hc false hp]
  | true => rw [gpioRequestOne_busy c false hp]; exact hp

lemma gpioRequestOne_driven (p : Desc) :
    ∃ vs, (gpioRequestOne c false p).1.driven = vs ++ p.driven := by
  cases hp : p.requested with
  | false =>
    rw [gpioRequestOne_free hc false hp]
    exact ⟨[false], rfl⟩
  | true =>
    rw [gpioRequestOne_busy c false hp]
    exact ⟨[], rfl⟩

lemma extWdtOpen_spec (d : Device) :
    (extWdtOpen c d).2 = 0 ∧ (extWdtOpen c d).1.pin.requested = true ∧ ((d.flag = 0 ∨ d.flag = -1) →
        ((extWdtOpen c d).1.flag = 0 ∨ (extWdtOpen c d).1.flag = -1) ∧
        ((extWdtOpen c d).1.pin.level = true ↔ (extWdtOpen c d).1.flag ≠ 0) ∧
        ∃ vs, (extWdtOpen c d).1.pin.driven = vs ++ d.pin.driven ∧ ∃ v ∈ vs, v ≠ d.pin.level) := by
  refine ⟨rfl, ?_, ?_⟩
  · show (extWatchdogReset c (extWatchdogReset c _)).pin.requested = true
    rw [extWatchdogReset_pin hc, extWatchdogReset_pin hc]
    exact gpioRequestOne_requested hc d.pin
  · intro hflag
    have hflag1 : (extWatchdogReset c (extWatchdogInit c d).1).flag = 0 ∨
        (extWatchdogReset c (extWatchdogInit c d).1).flag = -1 := extWatchdogReset_flag c hflag
    refine ⟨extWatchdogReset_flag c hflag1, extWatchdogReset_level hc hflag1, ?_⟩
    obtain ⟨vs, hvs⟩ := gpioRequestOne_driven hc d.pin
    have hdriven : (extWdtOpen c d).1.pin.driven =
        [decide (-d.flag - 1 = 0), decide (d.flag = 0)] ++ vs ++ d.pin.driven := by
      show (extWatchdogReset c (extWatchdogReset c _)).pin.driven = _
      rw [extWatchdogReset_pin hc, extWatchdogReset_pin hc]
      show _ :: _ :: (gpioRequestOne c false d.pin).1.driven = _
      rw [hvs]
      rfl
    -- the two resets drive the pin to both levels
    have hboth : ∀ v, v ∈ [decide (-d.flag - 1 = 0), decide (d.flag = 0)] := by
      intro v
      rcases hflag with h | h <;> cases v <;> simp [h]
    exact ⟨_, hdriven, !d.pin.level, mem_append_left vs (hboth _), by simp⟩

lemma toggle_step (h : Toggle d) (hstep : d.step c e = some d') : Toggle d' := by
  rcases Device.step_cases hstep with
    ⟨fd, rfl, rfl⟩ | ⟨fd, cmd, rfl, hfd, rfl⟩ | ⟨fd, rfl, hfd, rfl⟩
  · obtain ⟨hflag, hlevel, _⟩ := (extWdtOpen_spec hc d).2.2 h.flag
    exact ⟨hflag, fun _ => hlevel⟩
  · unfold extWdtIoctl
    split
    · exact ⟨extWatchdogReset_flag c h.flag, fun _ => extWatchdogReset_level hc h.flag⟩
    · exact h
  · refine ⟨h.flag, fun _ => ?_⟩
    simp only [extWdtRelease, gpioFree_level]
    exact h.level (ne_nil_of_mem hfd)

lemma feeds_of_toggle {d : Device} (h : Toggle d) (e : Event) : d.feeds c e := by
  intro hfeeds d' hstep
  rcases Device.step_cases hstep with
    ⟨fd, rfl, rfl⟩ | ⟨fd, cmd, rfl, hfd, rfl⟩ | ⟨fd, rfl, hfd, rfl⟩
  · exact ((extWdtOpen_spec hc d).2.2 h.flag).2.2
  · have hlevel := h.level (ne_nil_of_mem hfd)
    have hcmd : cmd = extWdtCmdKeepalive := by simpa [Event.feeds] using hfeeds
    refine ⟨[decide (d.flag = 0)], ?_, _, mem_singleton_self _, ?_⟩
    · simp only [extWdtIoctl, if_pos hcmd, extWatchdogReset_pin hc, singleton_append]
    · -- the flag tells the old level, and the new one is the other
      intro heq
      rw [← heq] at hlevel
      by_cases h0 : d.flag = 0 <;> simp [h0] at hlevel
  · cases hfeeds

lemma reserved_step (h : d.Reserved) (hlast : d.releasesLast e)
    (hstep : d.step c e = some d') : d'.Reserved := by
  rcases Device.step_cases hstep with
    ⟨fd, rfl, rfl⟩ | ⟨fd, cmd, rfl, hfd, rfl⟩ | ⟨fd, rfl, hfd, rfl⟩
  · simp [Device.Reserved, (extWdtOpen_spec hc d).2.1]
  · unfold extWdtIoctl
    split
    · unfold Device.Reserved
      rw [extWatchdogReset_pin hc]
      exact h
    · exact h
  · have hfds : d.fds = [fd] := hlast
    simp [Device.Reserved, extWdtRelease, gpioFree_requested, hfds]

omit hc in
lemma not_reserved_of_release (hlast : ¬ d.releasesLast e)
    (hstep : d.step c e = some d') : ¬ d'.Reserved := by
  rcases Device.step_cases hstep with ⟨fd, rfl, rfl⟩ | ⟨fd, cmd, rfl, _, _⟩ | ⟨fd, rfl, hfd, rfl⟩
  · exact absurd trivial hlast
  · exact absurd trivial hlast
  · -- another descriptor stays open
    have hne : d.fds.erase fd ≠ [] := by
      intro hnil
      apply hlast
      have hlen := length_erase_of_mem hfd
      rw [hnil] at hlen
      have hpos := length_pos_of_mem hfd
      obtain ⟨a, ha⟩ := length_eq_one_iff.mp
        (show d.fds.length = 1 by simp at hlen; omega)
      rw [ha, mem_singleton] at hfd
      rw [Device.releasesLast, ha, hfd]
    simp [Device.Reserved, extWdtRelease, gpioFree_requested, hne]

end

/-- With a chip that works, the pin is reserved exactly while a descriptor is open, and every open
and every keepalive feeds the watchdog, if and only if every release closes the last descriptor. -/
theorem reserved_iff_releases_last {c : Chip} (hc : c.Ok) (level : Bool) (es : List Event) :
    (machine c level).Always Device.Reserved (machine c level).init es ∧
        (machine c level).Guarded (Device.feeds c) (machine c level).init es ↔
      (machine c level).Guarded Device.releasesLast (machine c level).init es := by
  have hinit : (machine c level).init.Reserved := by simp [Device.Reserved, machine]
  have hfeeds : (machine c level).Guarded (Device.feeds c) (machine c level).init es := by
    have htoggle := Machine.always_of_step (machine c level) (fun _ _ _ => toggle_step hc)
      (show Toggle (machine c level).init from ⟨.inl rfl, fun h => absurd rfl h⟩) es
    exact Machine.Always.guarded _ (fun d e _ h _ => feeds_of_toggle hc h e) htoggle
  have hiff := Machine.always_iff_guarded (machine c level) (fun _ h => h)
    (fun _ _ _ => reserved_step hc)
    (fun _ _ _ _ hlast hstep => not_reserved_of_release hlast hstep) hinit es
  exact ⟨fun h => hiff.mp h.1, fun h => ⟨hiff.mpr h, hfeeds⟩⟩

/-- One descriptor after the other. -/
theorem reserved_of_one_after_the_other :
    (machine ⟨0, 0⟩ true).Always Device.Reserved (machine ⟨0, 0⟩ true).init
        [.open 3, .ioctl 3 extWdtCmdKeepalive, .release 3, .open 4, .release 4] ∧
      (machine ⟨0, 0⟩ true).Guarded (Device.feeds ⟨0, 0⟩) (machine ⟨0, 0⟩ true).init
        [.open 3, .ioctl 3 extWdtCmdKeepalive, .release 3, .open 4, .release 4] := by
  refine (reserved_iff_releases_last ⟨rfl, rfl⟩ true _).mpr ?_
  decide +kernel

/-- **The first close of two frees the pin.** -/
theorem close_of_two_frees_pin : ∃ d, (machine ⟨0, 0⟩ false).exec (machine ⟨0, 0⟩ false).init
        [.open 3, .open 4, .release 3] = some d ∧ d.fds = [4] ∧ d.pin.requested = false :=
  ⟨_, rfl, rfl, rfl⟩

end Am335x.ExtWatchdog
