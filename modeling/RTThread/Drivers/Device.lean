import RTThread.Drivers.SerialOpen

set_option autoImplicit false

/-! # Opening and closing any device (`device.c`)

The functions of the driver are not known: one may be missing, and what it answers is told with the call.
A driver may change the modes in `open_flag`; one that fails leaves the bit `RT_DEVICE_OFLAG_OPEN` as it
is. The counter of the openers goes up behind `open`, and down before `close`.
-/

namespace RTThread.Devices

open Drivers

/-- `rt_err_t`. The codes are returned with a minus sign. -/
def RT_EOK : Int := 0
def RT_ERROR : Int := 1
def RT_ENOSYS : Int := 6
def RT_EBUSY : Int := 7

def RT_DEVICE_OFLAG_MASK : BitVec 16 := 0xf0f#16

/-- `struct rt_device`: the flags, the counter, which is a byte, and which functions the driver has. -/
structure Device where
  flag : BitVec 16
  openFlag : BitVec 16
  refCount : Nat
  hasInit : Bool
  hasOpen : Bool
  hasClose : Bool
  deriving DecidableEq

/-- `result == RT_EOK || result == -RT_ENOSYS`. -/
def Done (result : Int) : Prop := result = RT_EOK ∨ result = -RT_ENOSYS

instance (result : Int) : Decidable (Done result) := inferInstanceAs (Decidable (_ ∨ _))

/-- What `open` or `close` of the driver answers, and the modes it sets. -/
structure Answer where
  result : Int
  modes : BitVec 16

/-- The open flag behind a function of the driver. -/
def Answer.leave (a : Answer) (openFlag : BitVec 16) : BitVec 16 :=
  if Done a.result then a.modes
  else a.modes &&& ~~~RT_DEVICE_OFLAG_OPEN ||| openFlag &&& RT_DEVICE_OFLAG_OPEN

/-! ## The functions -/

namespace Device

/-- How `rt_device_open` initializes a device. -/
def deviceInit (d : Device) (init : Int) : Int × Device :=
  if Has d.flag RT_DEVICE_FLAG_ACTIVATED then (RT_EOK, d)
  else if d.hasInit = true ∧ init ≠ RT_EOK then (init, d)
  else (RT_EOK, { d with flag := d.flag ||| RT_DEVICE_FLAG_ACTIVATED })

/-- The device is a stand alone device and opened. -/
def Busy (d : Device) : Prop :=
  Has d.flag RT_DEVICE_FLAG_STANDALONE ∧ Has d.openFlag RT_DEVICE_OFLAG_OPEN

instance (d : Device) : Decidable d.Busy := inferInstanceAs (Decidable (_ ∧ _))

/-- `rt_device_open` behind the tests. There is no result where the counter overflows. -/
def callOpen (d : Device) (oflag : BitVec 16) (a : Answer) : Option (Int × Device) :=
  let result := if d.hasOpen then a.result else RT_EOK
  let openFlag := if d.hasOpen then a.leave d.openFlag else oflag &&& RT_DEVICE_OFLAG_MASK
  -- set open flag
  if Done result then
    if (d.refCount + 1) % 256 = 0 then none
    else
      some (result,
        { d with openFlag := openFlag ||| RT_DEVICE_OFLAG_OPEN, refCount := d.refCount + 1 })
  else some (result, { d with openFlag })

def rtDeviceOpen (d : Device) (oflag : BitVec 16) (init : Int) (a : Answer) : Option (Int × Device) :=
  let (result, d) := d.deviceInit init
  if result ≠ RT_EOK then some (result, d)
  else if d.Busy then some (-RT_EBUSY, d)
  else d.callOpen oflag a

/-- `rt_device_close` of the last opener, where the counter is 0 again. -/
def callClose (d : Device) (a : Answer) : Int × Device :=
  let result := if d.hasClose then a.result else RT_EOK
  let openFlag := if d.hasClose then a.leave d.openFlag else d.openFlag
  -- set open flag
  (result, { d with openFlag := if Done result then RT_DEVICE_OFLAG_CLOSE else openFlag })

/-- The result, whether `close` of the driver was called, and the device. -/
def rtDeviceClose (d : Device) (a : Answer) : Int × Bool × Device :=
  if d.refCount = 0 then (-RT_ERROR, false, d)
  else
    let d := { d with refCount := d.refCount - 1 }
    if d.refCount ≠ 0 then (RT_EOK, false, d)
    else ((d.callClose a).1, d.hasClose, (d.callClose a).2)

end Device

/-! ## Runs -/

/-- A call, with the answers of the driver. -/
inductive DevCall
  | openDev (oflag : BitVec 16) (init : Int) (a : Answer)
  | closeDev (a : Answer)

def DevCall.exec (d : Device) : DevCall → Option Device
  | .openDev oflag init a => (d.rtDeviceOpen oflag init a).map Prod.snd
  | .closeDev a => some (d.rtDeviceClose a).2.2

/-- A registered device. -/
def Device.Init (d : Device) : Prop := d.refCount = 0 ∧ d.openFlag = 0

/-- The flag and the counter agree. -/
def Device.Agrees (d : Device) : Prop := Has d.openFlag RT_DEVICE_OFLAG_OPEN ↔ 0 < d.refCount

/-- What is asked of a call with this result: the flag and the counter agree behind it, and one that fails
leaves the device as open as it was. -/
structure Device.After (d : Device) (result : Int) (d' : Device) : Prop where
  agrees : d'.Agrees
  failed : ¬ Done result → d'.refCount = d.refCount ∧
    (Has d'.openFlag RT_DEVICE_OFLAG_OPEN ↔ Has d.openFlag RT_DEVICE_OFLAG_OPEN)

/-- What is asked of a call. `close` of the driver is called exactly for the last opener. -/
def DevCall.Ok (d : Device) : DevCall → Prop
  | .openDev oflag init a => ∀ result d', d.rtDeviceOpen oflag init a = some (result, d') →
      d.After result d'
  | .closeDev a => d.After (d.rtDeviceClose a).1 (d.rtDeviceClose a).2.2 ∧
      ((d.rtDeviceClose a).2.1 = true ↔ d.hasClose = true ∧ d.refCount = 1)

/-- `close` of the driver does not fail. -/
def DevCall.Careful (d : Device) : DevCall → Prop
  | .openDev _ _ _ => True
  | .closeDev a => d.hasClose = true → d.refCount = 1 → Done a.result

instance DevCall.decidableCareful (d : Device) : (c : DevCall) → Decidable (c.Careful d)
  | .openDev _ _ _ => inferInstanceAs (Decidable True)
  | .closeDev _ => inferInstanceAs (Decidable (_ → _ → _))

/-- What is asked of a device: besides the flag, that a closed one can be opened, a stand alone one too. -/
structure Device.Sound (d : Device) : Prop where
  agrees : d.Agrees
  reopen : d.refCount = 0 → ∀ oflag a, (d.hasOpen = true → Done a.result) →
    ∃ result d', d.rtDeviceOpen oflag RT_EOK a = some (result, d') ∧ Done result ∧ d'.refCount = 1

variable {d d' : Device} {a : Answer} {oflag : BitVec 16} {init result : Int}

/-! ## One call -/

theorem has_open_self : Has RT_DEVICE_OFLAG_OPEN RT_DEVICE_OFLAG_OPEN := by decide

theorem not_has_close : ¬ Has RT_DEVICE_OFLAG_CLOSE RT_DEVICE_OFLAG_OPEN := by decide

/-- A function of the driver that fails leaves the bit as it is. -/
theorem Answer.has_leave (h : ¬ Done a.result) (x : BitVec 16) :
    Has (a.leave x) RT_DEVICE_OFLAG_OPEN ↔ Has x RT_DEVICE_OFLAG_OPEN := by
  unfold Answer.leave
  have h₁ : ¬ Has (a.modes &&& ~~~RT_DEVICE_OFLAG_OPEN) RT_DEVICE_OFLAG_OPEN := not_has_and (by decide)
  rw [if_neg h, has_or, or_iff_right h₁, has_and_of_mask (BitVec.and_self)]

namespace Device

theorem deviceInit_eq (d : Device) (init : Int) : (d.deviceInit init).2.refCount = d.refCount ∧
    (d.deviceInit init).2.openFlag = d.openFlag ∧ (d.deviceInit init).2.hasOpen = d.hasOpen := by
  unfold deviceInit
  split_ifs <;> exact ⟨rfl, rfl, rfl⟩

theorem callOpen_after (h : d.Agrees) (he : d.callOpen oflag a = some (result, d')) :
    d.After result d' := by
  have hleave : ¬ Done (if d.hasOpen = true then a.result else RT_EOK) →
      (Has (if d.hasOpen = true then a.leave d.openFlag else oflag &&& RT_DEVICE_OFLAG_MASK)
        RT_DEVICE_OFLAG_OPEN ↔ Has d.openFlag RT_DEVICE_OFLAG_OPEN) := by
    intro hfail
    split_ifs at hfail ⊢
    · exact a.has_leave hfail d.openFlag
    · exact absurd (Or.inl rfl) hfail
  unfold callOpen at he
  dsimp only at he
  generalize (if d.hasOpen = true then a.result else RT_EOK) = r at he hleave
  generalize (if d.hasOpen = true then a.leave d.openFlag else oflag &&& RT_DEVICE_OFLAG_MASK) = x
    at he hleave
  by_cases hdone : Done r
  · rw [if_pos hdone] at he
    split_ifs at he
    cases he
    refine ⟨iff_of_true (has_or.mpr (Or.inr has_open_self)) (Nat.succ_pos _), fun hno => ?_⟩
    exact absurd hdone hno
  · rw [if_neg hdone] at he
    cases he
    exact ⟨(hleave hdone).trans h, fun _ => ⟨rfl, hleave hdone⟩⟩

/-- **Opening**, whatever the driver answers. -/
theorem open_after (h : d.Agrees) (he : d.rtDeviceOpen oflag init a = some (result, d')) :
    d.After result d' := by
  obtain ⟨href, hflag, -⟩ := d.deviceInit_eq init
  unfold rtDeviceOpen at he
  generalize d.deviceInit init = x at he href hflag
  obtain ⟨r, d₁⟩ := x
  have h₁ : d₁.Agrees := by
    unfold Agrees
    rw [show d₁.openFlag = d.openFlag from hflag, show d₁.refCount = d.refCount from href]
    exact h
  have hsame : ∀ {d₂ : Device}, d₁.After result d₂ → d.After result d₂ := by
    intro d₂ h₂
    have h₃ := h₂.failed
    rw [show d₁.refCount = d.refCount from href, show d₁.openFlag = d.openFlag from hflag] at h₃
    exact ⟨h₂.agrees, h₃⟩
  dsimp only at he
  split_ifs at he
  · cases he
    exact hsame ⟨h₁, fun _ => ⟨rfl, Iff.rfl⟩⟩
  · cases he
    exact hsame ⟨h₁, fun _ => ⟨rfl, Iff.rfl⟩⟩
  · exact hsame (callOpen_after h₁ he)

/-- The three ways of `rt_device_close`. -/
theorem close_cases (d : Device) (a : Answer) :
    (d.refCount = 0 ∧ d.rtDeviceClose a = (-RT_ERROR, false, d)) ∨
    (1 < d.refCount ∧
      d.rtDeviceClose a = (RT_EOK, false, { d with refCount := d.refCount - 1 })) ∨
    (d.refCount = 1 ∧ d.rtDeviceClose a = ((callClose { d with refCount := 0 } a).1, d.hasClose,
      (callClose { d with refCount := 0 } a).2)) := by
  unfold rtDeviceClose
  by_cases h₀ : d.refCount = 0
  · exact Or.inl ⟨h₀, if_pos h₀⟩
  · rw [if_neg h₀]
    dsimp only
    by_cases h₁ : d.refCount = 1
    · rw [h₁]
      exact Or.inr (Or.inr ⟨rfl, if_neg (by decide)⟩)
    · exact Or.inr (Or.inl ⟨by omega, if_pos (by omega)⟩)

/-- `close` of the driver is called for the last opener. -/
theorem close_called : (d.rtDeviceClose a).2.1 = true ↔ d.hasClose = true ∧ d.refCount = 1 := by
  rcases d.close_cases a with ⟨h₀, he⟩ | ⟨h₁, he⟩ | ⟨h₁, he⟩
  · rw [he]
    exact iff_of_false Bool.false_ne_true fun h => by omega
  · rw [he]
    exact iff_of_false Bool.false_ne_true fun h => by omega
  · rw [he]
    exact (and_iff_left h₁).symm

/-- The last opener closes: all is well exactly where `close` of the driver does not fail. -/
theorem callClose_after_iff (h₁ : d.refCount = 1) :
    d.After (callClose { d with refCount := 0 } a).1 (callClose { d with refCount := 0 } a).2 ↔
      (d.hasClose = true → Done a.result) := by
  unfold callClose
  dsimp only
  by_cases hdone : d.hasClose = true → Done a.result
  · have hres : Done (if d.hasClose = true then a.result else RT_EOK) := by
      split_ifs with hclose
      · exact hdone hclose
      · exact Or.inl rfl
    refine iff_of_true ⟨?_, fun hno => absurd hres hno⟩ hdone
    unfold Agrees
    dsimp only
    rw [if_pos hres]
    exact iff_of_false not_has_close (Nat.lt_irrefl 0)
  · obtain ⟨hclose, hfail⟩ := Classical.not_imp.mp hdone
    refine iff_of_false (fun hafter => ?_) hdone
    -- the counter is 0 for a device that was not closed
    have h₂ := hafter.failed
    rw [if_pos hclose] at h₂
    have h₃ := (h₂ hfail).1
    dsimp only at h₃
    omega

/-- **Closing**: all is well exactly where `close` of the driver does not fail. -/
theorem close_after_iff (h : d.Agrees) :
    d.After (d.rtDeviceClose a).1 (d.rtDeviceClose a).2.2 ↔
      (d.hasClose = true → d.refCount = 1 → Done a.result) := by
  rcases d.close_cases a with ⟨h₀, he⟩ | ⟨h₁, he⟩ | ⟨h₁, he⟩
  · rw [he]
    exact iff_of_true ⟨h, fun _ => ⟨rfl, Iff.rfl⟩⟩ fun _ h₁ => by omega
  · rw [he]
    have hopen : Has d.openFlag RT_DEVICE_OFLAG_OPEN := h.mpr (by omega)
    have hpos : 0 < d.refCount - 1 := by omega
    exact iff_of_true ⟨iff_of_true hopen hpos, fun hno => absurd (Or.inl rfl) hno⟩
      fun _ h₂ => by omega
  · rw [he]
    refine (callClose_after_iff h₁).trans ?_
    exact ⟨fun hd hc _ => hd hc, fun hd hc => hd hc h₁⟩

theorem sound_of_agrees (h : d.Agrees) : d.Sound := by
  refine ⟨h, fun h₀ oflag a hopen => ?_⟩
  have hnot : ¬ Has d.openFlag RT_DEVICE_OFLAG_OPEN := fun hh => absurd (h.mp hh) (by omega)
  obtain ⟨href, hflag, hhas⟩ := d.deviceInit_eq RT_EOK
  have hres : (d.deviceInit RT_EOK).1 = RT_EOK := by
    unfold deviceInit
    split_ifs with h₁ h₂
    · rfl
    · exact absurd rfl h₂.2
    · rfl
  unfold rtDeviceOpen
  generalize d.deviceInit RT_EOK = x at href hflag hhas hres
  obtain ⟨r, d₁⟩ := x
  dsimp only at href hflag hhas hres ⊢
  have hdone : Done (if d₁.hasOpen then a.result else RT_EOK) := by
    split_ifs with h₁
    · exact hopen (hhas ▸ h₁)
    · exact Or.inl rfl
  have hbusy : ¬ d₁.Busy := fun hb => hnot (hflag ▸ hb.2)
  rw [if_neg (not_not.mpr hres), if_neg hbusy]
  unfold callOpen
  dsimp only
  rw [if_pos hdone, href, h₀, if_neg (by decide)]
  exact ⟨_, _, rfl, hdone, rfl⟩

end Device

theorem DevCall.ok_iff (h : d.Agrees) (c : DevCall) : c.Ok d ↔ c.Careful d := by
  cases c with
  | openDev oflag init a => exact iff_of_true (fun _ _ he => Device.open_after h he) trivial
  | closeDev a => exact (and_iff_left Device.close_called).trans (Device.close_after_iff h)

theorem DevCall.agrees {c : DevCall} (h : d.Agrees) (hc : c.Careful d) (he : c.exec d = some d') :
    d'.Agrees := by
  have hok := (c.ok_iff h).mpr hc
  cases c with
  | openDev oflag init a =>
      obtain ⟨⟨result, d₁⟩, hr, rfl⟩ := Option.map_eq_some_iff.mp he
      exact (hok result d₁ hr).agrees
  | closeDev a =>
      cases he
      exact hok.1.agrees

/-- **The counter and the flag of a device agree**, as long as no `close` of the driver fails; and a call is
what it is to be exactly where that does not. -/
theorem device_open_count
    (hr : Trans.Reachable Device.Init (fun d c d' => DevCall.exec d c = some d' ∧ c.Careful d) d) :
    d.Sound ∧ ∀ c : DevCall, c.Ok d ↔ c.Careful d := by
  have hagrees : d.Agrees := by
    refine hr.invariant (I := Device.Agrees) (fun d h₀ => ?_)
      fun _ _ _ _ h hc => DevCall.agrees h hc.2 hc.1
    unfold Device.Agrees
    rw [h₀.1, h₀.2]
    decide
  exact ⟨Device.sound_of_agrees hagrees, DevCall.ok_iff hagrees⟩

/-- A stand alone device whose driver has an `open` and a `close`. -/
def alone : Device := ⟨RT_DEVICE_FLAG_STANDALONE, 0, 0, false, true, true⟩

theorem alone_init : alone.Init := ⟨rfl, rfl⟩

/-- An `open` that fails, one that does not, and a `close` for which nothing was to be done. -/
theorem device_open_count_closed : ∃ d : Device, d.refCount = 0 ∧ d.Sound ∧
    (DevCall.openDev 0x3#16 0 ⟨0, 0x3#16⟩).Ok d := by
  have hrun : (Trans.runList (Trans.stepIf DevCall.exec fun d c => c.Careful d) alone
      [.openDev 0x3#16 0 ⟨-8, 0⟩, .openDev 0x3#16 0 ⟨0, 0x3#16⟩, .closeDev ⟨-6, 0⟩]).map
        (fun d => decide (d.refCount = 0)) = some true := by
    decide +kernel
  obtain ⟨d, hd, hdec⟩ := Option.map_eq_some_iff.mp hrun
  have hr : Trans.Reachable Device.Init _ d := Trans.reachable_of_runList_stepIf alone_init hd
  obtain ⟨hsound, hok⟩ := device_open_count hr
  exact ⟨d, of_decide_eq_true hdec, hsound, (hok (.openDev 0x3#16 0 ⟨0, 0x3#16⟩)).mpr trivial⟩

/-- `close` of the driver fails: the device is marked as opened, without an opener, and is busy. -/
theorem device_stuck :
    ¬ ∀ d, Trans.Reachable Device.Init (fun d c d' => DevCall.exec d c = some d') d →
      d.Sound ∧ ∀ c : DevCall, c.Ok d := by
  have hrun : (Trans.runList DevCall.exec alone
      [.openDev 0x3#16 0 ⟨0, 0x3#16⟩, .closeDev ⟨-8, 0x3#16⟩]).map (fun d =>
        decide (d.refCount = 0 ∧ Has d.openFlag RT_DEVICE_OFLAG_OPEN)) = some true := by
    decide +kernel
  obtain ⟨d, hd, hdec⟩ := Option.map_eq_some_iff.mp hrun
  obtain ⟨href, hopen⟩ := of_decide_eq_true hdec
  intro hclaim
  have hpos := (hclaim d (Trans.reachable_of_runList (.init alone_init) hd)).1.agrees.mp hopen
  omega

end RTThread.Devices
