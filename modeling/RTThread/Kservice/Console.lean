import RTThread.Kservice.Truncation

set_option autoImplicit false

/-! # The console (`rt_kprintf`)

`rt_vsnprintf` is given one byte less than the buffer has, so that of a text which is too long it keeps all
but two of the buffer's size. The length for the device is bounded by the size less one, and
the terminator goes with such a text.
-/

namespace RTThread.Ks

/-- Stream mode. -/
def RT_DEVICE_FLAG_STREAM : Nat := 0x040

/-- The console device. -/
structure Device where
  openFlag : Nat
  deriving DecidableEq, Repr

/-- What the console gets: bytes for its device, with the flags that the device has then, or the address
of a string for the hardware. -/
inductive Output
  | device (dev : Device) (pos : Nat) (bytes : List Char)
  | hardware (str : Nat)
  deriving DecidableEq, Repr

/-- `rt_kprintf`, with `rt_log_buf` of `RT_CONSOLEBUF_SIZE` bytes. -/
def rtKprintf (console : Option Device) (rtLogBuf rtConsolebufSize : Nat) (fmt : List Char)
    (args : List Arg) (mem : Mem) : Option (Mem × Output × Option Device) :=
  (rtVsnprintf rtLogBuf (rtConsolebufSize - 1) fmt args mem).map fun (mem, r) =>
    let length := u32 r
    let length := if length > rtConsolebufSize - 1 then rtConsolebufSize - 1 else length
    match console with
    | none => (mem, .hardware rtLogBuf, none)
    | some dev =>
        let oldFlag := dev.openFlag
        let dev := { dev with openFlag := dev.openFlag ||| RT_DEVICE_FLAG_STREAM }
        let out := .device dev 0 (textAt mem rtLogBuf length)
        (mem, out, some { dev with openFlag := oldFlag })

variable {fmt : List Char} {args : List Arg} {text : List Char} {buf size : Nat} {dev : Device}

/-- The device gets the text as far as it fits in `n` bytes with its terminator, and nothing else. -/
structure SendsText (text : List Char) (n : Nat) (bytes : List Char) : Prop where
  isPrefix : bytes <+: text
  noTerminator : NUL ∉ bytes
  whole : text.length < n → bytes = text

/-- The bytes of a call. -/
def KprintfSends (dev : Device) (buf size : Nat) (fmt : List Char) (args : List Arg) (mem : Mem)
    (text : List Char) : Prop :=
  ∃ mem' bytes, rtKprintf (some dev) buf size fmt args mem =
      some (mem', .device ⟨dev.openFlag ||| RT_DEVICE_FLAG_STREAM⟩ 0 bytes, some dev) ∧
    SendsText text (size - 1) bytes

/-- What the buffer holds, and how much of it is sent. -/
theorem rtKprintf_eq (h : formatted fmt args = some text) (hsize : 1 < size)
    (hbuf : buf + size ≤ 4294967296) (hspace : buf + text.length < 4294967296) (dev : Device)
    (mem : Mem) :
    ∃ mem', rtKprintf (some dev) buf size fmt args mem =
        some (mem', .device ⟨dev.openFlag ||| RT_DEVICE_FLAG_STREAM⟩ 0
          (textAt mem' buf (min (size - 1) text.length)), some dev) ∧
      textAt mem' buf (min (size - 2) text.length) = text.take (size - 2) ∧
      mem' (buf + min (size - 2) text.length) = NUL := by
  obtain ⟨m, hm, hrun⟩ := rtVsnprintf_mem (n := size - 1) (by omega) h hspace mem
  have husable : usable buf (size - 1) = size - 1 := Nat.min_eq_left (by omega)
  rw [husable] at hm hrun
  rw [if_pos (by omega), show size - 1 - 1 = size - 2 by omega] at hrun
  have hlength : (if u32 (i32 text.length) > size - 1 then size - 1 else u32 (i32 text.length)) =
      min (size - 1) text.length := by
    have hu : u32 (i32 text.length) = text.length := by
      unfold u32 i32 signed
      norm_num
      split_ifs <;> omega
    rw [hu]
    split_ifs <;> omega
  refine ⟨Function.update m (buf + min (size - 2) text.length) NUL, ?_, ?_, Function.update_self ..⟩
  · unfold rtKprintf
    rw [hrun, Option.map_some]
    dsimp only
    rw [hlength]
  · apply List.ext_getElem
    · simp [textAt]
    · intro i h₁ h₂
      have hi : i < min (size - 2) text.length := by simpa [textAt] using h₁
      simp only [textAt, List.getElem_map, List.getElem_range, List.getElem_take]
      rw [Function.update_of_ne (by omega), hm, if_pos (by omega), Nat.add_sub_cancel_left,
        List.getElem?_eq_getElem (by omega), Option.getD_some]

/-- **The console gets exactly the text** if the text fits in front of the terminator and has none of its
own: a longer one is sent with the terminator. -/
theorem kprintf_sends_text_iff (h : formatted fmt args = some text) (hsize : 1 < size)
    (hbuf : buf + size ≤ 4294967296) (hspace : buf + text.length < 4294967296) (dev : Device)
    (mem : Mem) :
    KprintfSends dev buf size fmt args mem text ↔ text.length < size - 1 ∧ NUL ∉ text := by
  obtain ⟨mem', hrun, hkept, hnul⟩ := rtKprintf_eq h hsize hbuf hspace dev mem
  constructor
  · rintro ⟨mem₁, bytes, hrun₁, hsends⟩
    rw [hrun, Option.some.injEq] at hrun₁
    obtain ⟨-, hrun₁⟩ := Prod.mk.inj hrun₁
    obtain ⟨-, -, rfl⟩ := Output.device.inj (Prod.mk.inj hrun₁).1
    have hlen : text.length < size - 1 := by
      by_contra hlong
      -- the last byte that is sent is the terminator
      refine hsends.noTerminator ?_
      rw [show min (size - 1) text.length = size - 2 + 1 by omega]
      rw [show min (size - 2) text.length = size - 2 by omega] at hnul
      exact List.mem_map.mpr ⟨size - 2, List.mem_range.mpr (Nat.lt_succ_self _), hnul⟩
    exact ⟨hlen, hsends.whole hlen ▸ hsends.noTerminator⟩
  · rintro ⟨hlen, htext⟩
    refine ⟨mem', _, hrun, ?_⟩
    rw [show min (size - 2) text.length = min (size - 1) text.length by omega,
      List.take_of_length_le (by omega)] at hkept
    rw [hkept]
    exact ⟨List.prefix_rfl, htext, fun _ => rfl⟩

/-- A line about a thread. -/
theorem kprintf_sends_line :
    KprintfSends ⟨3⟩ 536870912 256 "thread %d".toList [.int 7] (fun _ => NUL) "thread 7".toList :=
  (kprintf_sends_text_iff (by decide +kernel) (by decide) (by decide) (by decide) ⟨3⟩ fun _ => NUL).mpr
    (by decide)

/-- A format without directives is the text. -/
theorem formatted_plain (hfmt : '%' ∉ fmt) (args : List Arg) : formatted fmt args = some fmt := by
  have hrun : ∀ o, format Sink.snoc fmt args o = some (o ++ fmt) := by
    induction fmt with
    | nil => exact fun o => by rw [format, List.append_nil]
    | cons c fmt ih =>
        intro o
        rw [List.mem_cons, not_or] at hfmt
        rw [format, if_pos (Ne.symm hfmt.1), ih hfmt.2, Sink.snoc, List.append_assoc]
        rfl
  exact hrun []

/-- A text of one character less than the size the formatter is given. -/
theorem kprintf_sends_terminator :
    ¬ KprintfSends ⟨3⟩ 536870912 256 (List.replicate 255 'a') [] (fun _ => NUL)
      (List.replicate 255 'a') := by
  have htext : formatted (List.replicate 255 'a') [] = some (List.replicate 255 'a') :=
    formatted_plain (fun h => absurd (List.eq_of_mem_replicate h) (by decide)) []
  rw [kprintf_sends_text_iff htext (by decide) (by decide) (by rw [List.length_replicate]; decide),
    List.length_replicate]
  omega

end RTThread.Ks
