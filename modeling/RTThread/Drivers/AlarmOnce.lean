import RTThread.Drivers.Alarm

set_option autoImplicit false

/-! # How often an alarm rings (`alarm_update`)

`alarm_update` looks at every alarm each time it runs and keeps no note of the ones it has served, so that
an alarm rings at each run within the delay of its set time. `alarm_rings_once_iff` says for a list of
times when no occurrence of an alarm is served twice.
-/

namespace RTThread.Rtc

open Libc Calendar

/-! ## Alarms that are set up -/

/-- The fields of an alarm that is set up. -/
structure Alarm.Fits (a : Alarm) : Prop where
  sec : 0 ≤ a.wktime.tmSec ∧ a.wktime.tmSec ≤ 59
  min : 0 ≤ a.wktime.tmMin ∧ a.wktime.tmMin ≤ 59
  hour : 0 ≤ a.wktime.tmHour ∧ a.wktime.tmHour ≤ 23
  wday : a.mode = RT_ALARM_WEEKLY → 0 ≤ a.wktime.tmWday ∧ a.wktime.tmWday ≤ 6

structure Alarm.Ok (a : Alarm) : Prop where
  inited : a.started = true → a.inited = true
  fits : a.inited = true → a.Fits

structure Container.Inv (s : Container) : Prop where
  nodup : s.head.Nodup
  ok : ∀ id ∈ s.head, (s.alarm id).Ok

theorem careOr_mem {lo hi now : Int} (v : Int) (h : lo ≤ now ∧ now ≤ hi) :
    lo ≤ careOr lo hi v now ∧ careOr lo hi v now ≤ hi := by
  unfold careOr
  split_ifs <;> omega

/-- The date is set up apart from the time of day. -/
theorem setupDate_time {mode : Nat} {w now w' : Tm} (h : setupDate mode w now = some w') :
    w'.tmSec = w.tmSec ∧ w'.tmMin = w.tmMin ∧ w'.tmHour = w.tmHour ∧
      (mode = RT_ALARM_WEEKLY → w'.tmWday = careOr 0 6 w.tmWday now.tmWday) := by
  unfold setupDate at h
  dsimp only at h
  split_ifs at h
  all_goals cases h
  all_goals refine ⟨rfl, rfl, rfl, fun hm => ?_⟩
  all_goals first | rfl | (subst hm; contradiction)

/-- **An alarm that is set up** has the fields of a time of day. -/
theorem alarmSetup_ok {a : Alarm} (hi : a.inited = false) (hs : a.started = false) (now : Nat) :
    (alarmSetup a (gmtimeR now)).2.Ok ∧ (alarmSetup a (gmtimeR now)).2.started = false ∧
      ((alarmSetup a (gmtimeR now)).1 = RT_EOK → (alarmSetup a (gmtimeR now)).2.inited = true) := by
  have hplain : ∀ w, ({ a with wktime := w } : Alarm).Ok := fun w =>
    ⟨fun h => by simp [hs] at h, fun h => by simp [hi] at h⟩
  unfold alarmSetup
  simp only
  cases hd : setupDate a.mode (setupTime a.wktime (gmtimeR now)) (gmtimeR now) with
  | none => exact ⟨hplain _, hs, fun h => by cases h⟩
  | some w =>
      obtain ⟨hsec, hmin, hhour, hwday⟩ := setupDate_time hd
      rw [gmtimeR_eq] at hsec hmin hhour hwday
      have h₁ := careOr_mem a.wktime.tmSec (show (0 : Int) ≤ (now % 86400 % 60 : Nat) ∧ _ ≤ 59 by omega)
      have h₂ := careOr_mem a.wktime.tmMin (show (0 : Int) ≤ (now % 86400 / 60 % 60 : Nat) ∧ _ ≤ 59 by omega)
      have h₃ := careOr_mem a.wktime.tmHour (show (0 : Int) ≤ (now % 86400 / 60 / 60 : Nat) ∧ _ ≤ 23 by omega)
      simp only [setupTime, Tm.of] at hsec hmin hhour hwday
      rw [← hsec] at h₁
      rw [← hmin] at h₂
      rw [← hhour] at h₃
      have hfits : ({ a with wktime := insure w, inited := true } : Alarm).Fits := by
        refine ⟨?_, ?_, ?_, ?_⟩
        · simp only [insure, RT_ALARM_DELAY]
          split_ifs
          · norm_num
          · exact h₁
        · simp only [insure]
          split_ifs <;> exact h₂
        · simp only [insure]
          split_ifs <;> exact h₃
        · intro hm
          have hw : (insure w).tmWday = w.tmWday := by
            unfold insure
            split_ifs <;> rfl
          simp only [hw, hwday hm]
          exact careOr_mem _ (by omega)
      simp only
      split_ifs
      · exact ⟨hplain _, hs, fun h => by cases h⟩
      · exact ⟨⟨fun _ => rfl, fun _ => hfits⟩, hs, fun _ => rfl⟩

namespace Container

variable {s s' : Container} {id t : Nat}

/-- The alarms are as before, but some may be stopped. -/
structure Calmer (s s' : Container) : Prop where
  head : s'.head = s.head
  alarm : ∀ id, s'.alarm id = s.alarm id ∨ s'.alarm id = { s.alarm id with started := false }

theorem Calmer.inv (h : Calmer s s') (hi : Inv s) : Inv s' := by
  refine ⟨h.head ▸ hi.nodup, fun id hid => ?_⟩
  have hok := hi.ok id (h.head ▸ hid)
  rcases h.alarm id with h₁ | h₁
  · rw [h₁]
    exact hok
  · rw [h₁]
    exact ⟨fun hs => (by cases hs), fun h => ⟨(hok.fits h).sec, (hok.fits h).min, (hok.fits h).hour, (hok.fits h).wday⟩⟩

/-! ## `alarm_update` -/

/-- The alarm after `alarm_wakeup`. -/
def served (a : Alarm) (now : Tm) : Alarm := if a.fires now then { a with started := false } else a

/-- The callback is called. -/
def rings (now : Tm) (a : Alarm) : Bool := a.started && a.wakeup now && a.callback

theorem alarmWakeup_spec (now : Tm) (s : Container) (id : Nat) :
    (s.alarmWakeup now id).head = s.head ∧ (s.alarmWakeup now id).now = s.now ∧
    (s.alarmWakeup now id).alarm = Function.update s.alarm id (served (s.alarm id) now) ∧
    (s.alarmWakeup now id).called =
      s.called ++ if rings now (s.alarm id) then [(id, s.now)] else [] := by
  by_cases hw : (s.alarm id).started = true ∧ (s.alarm id).wakeup now = true
  · by_cases hm : (s.alarm id).mode = RT_ALARM_ONESHOT
    · cases hc : (s.alarm id).callback <;>
        simp [alarmWakeup, served, rings, Alarm.fires, hw, hm, hc, setAlarm, alarmSet]
    · cases hc : (s.alarm id).callback <;>
        simp [alarmWakeup, served, rings, Alarm.fires, hw, hm, hc]
  · have hr : ((s.alarm id).started && (s.alarm id).wakeup now) = false := by simpa using hw
    simp [alarmWakeup, served, rings, Alarm.fires, hw, hr]

/-- The first loop, over alarms that are all different. -/
theorem foldl_spec (now : Tm) {l : List Nat} (hl : l.Nodup) (s : Container) :
    (l.foldl (alarmWakeup now) s).head = s.head ∧ (l.foldl (alarmWakeup now) s).now = s.now ∧
    (∀ id, (l.foldl (alarmWakeup now) s).alarm id =
      if id ∈ l then served (s.alarm id) now else s.alarm id) ∧
    (l.foldl (alarmWakeup now) s).called =
      s.called ++ (l.filter fun id => rings now (s.alarm id)).map (·, s.now) := by
  induction l generalizing s with
  | nil => simp
  | cons x l ih =>
      obtain ⟨hx, hl⟩ := List.nodup_cons.mp hl
      obtain ⟨h₁, h₂, h₃, h₄⟩ := alarmWakeup_spec now s x
      obtain ⟨g₁, g₂, g₃, g₄⟩ := ih hl (s.alarmWakeup now x)
      have hother : ∀ id ∈ l, (s.alarmWakeup now x).alarm id = s.alarm id := by
        intro id hid
        rw [h₃, Function.update_of_ne (by rintro rfl; exact hx hid)]
      have hfilter : (l.filter fun id => rings now ((s.alarmWakeup now x).alarm id)) =
          l.filter fun id => rings now (s.alarm id) :=
        List.filter_congr fun id hid => by rw [hother id hid]
      refine ⟨g₁.trans h₁, g₂.trans h₂, fun id => ?_, ?_⟩
      · rw [List.foldl_cons, g₃]
        by_cases hid : id ∈ l
        · rw [if_pos hid, if_pos (List.mem_cons_of_mem _ hid), hother id hid]
        · by_cases he : id = x
          · rw [if_neg hid, he, if_pos List.mem_cons_self, h₃, Function.update_self]
          · rw [if_neg hid, if_neg (by simp [hid, he]), h₃, Function.update_of_ne he]
      · rw [List.foldl_cons, g₄, h₄, h₂, hfilter, List.filter_cons]
        split_ifs <;> simp

/-- The second loop changes no alarm. -/
theorem select_frame (s : Container) : s.select.head = s.head ∧ s.select.alarm = s.alarm ∧
    s.select.called = s.called := by
  have harm : ∀ o, (s.arm o).head = s.head ∧ (s.arm o).alarm = s.alarm ∧ (s.arm o).called = s.called := by
    rintro (_ | id) <;> exact ⟨rfl, rfl, rfl⟩
  unfold select
  dsimp only
  split_ifs
  · exact harm _
  · exact harm _
  · exact ⟨rfl, rfl, rfl⟩

/-- **An update** calls the callbacks of the alarms that are due and stops those that ring once. -/
theorem alarmUpdate_spec (s : Container) (hs : s.head.Nodup) :
    s.alarmUpdate.head = s.head ∧
    (∀ id, s.alarmUpdate.alarm id =
      if id ∈ s.head then served (s.alarm id) (gmtimeR s.now) else s.alarm id) ∧
    s.alarmUpdate.called =
      s.called ++ (s.head.filter fun id => rings (gmtimeR s.now) (s.alarm id)).map (·, s.now) := by
  unfold alarmUpdate
  split_ifs with h
  · simp [h]
  · obtain ⟨h₁, -, h₃, h₄⟩ := foldl_spec (gmtimeR s.now) hs s
    obtain ⟨g₁, g₂, g₃⟩ := select_frame s.wake
    rw [g₁, g₂, g₃]
    exact ⟨h₁, h₃, h₄⟩

theorem alarmUpdate_calmer (hs : s.head.Nodup) : Calmer s s.alarmUpdate := by
  obtain ⟨h₁, h₂, -⟩ := alarmUpdate_spec s hs
  refine ⟨h₁, fun id => ?_⟩
  rw [h₂]
  unfold served
  split_ifs
  · exact .inr rfl
  · exact .inl rfl
  · exact .inl rfl

/-! ## The calls keep the alarms in order -/

/-- One alarm is replaced. -/
theorem Inv.setAlarm (hi : Inv s) (id : Nat) {a : Alarm} (ha : a.Ok) : Inv (s.setAlarm id a) := by
  refine ⟨hi.nodup, fun id' hid => ?_⟩
  show (Function.update s.alarm id a id').Ok
  by_cases h : id' = id
  · rw [h, Function.update_self]
    exact ha
  · rw [Function.update_of_ne h]
    exact hi.ok id' hid

theorem Inv.congr (hi : Inv s) (hh : s'.head = s.head) (ha : s'.alarm = s.alarm) : Inv s' :=
  ⟨hh ▸ hi.nodup, fun id hid => ha ▸ hi.ok id (hh ▸ hid)⟩

theorem stopped_ok {a : Alarm} (h : a.Ok) : ({ a with started := false } : Alarm).Ok :=
  ⟨fun hs => (by cases hs), fun hi => ⟨(h.fits hi).sec, (h.fits hi).min, (h.fits hi).hour, (h.fits hi).wday⟩⟩

theorem Inv.dropCurrent (hi : Inv s) (id : Nat) : Inv (s.dropCurrent id) := by
  have h : Inv { s.alarmSet id with current := none } := hi.congr rfl rfl
  exact (alarmUpdate_calmer h.nodup).inv h

theorem Inv.stop (hi : Inv s) (hid : id ∈ s.head) : Inv (s.rtAlarmStop id).2 := by
  have h := hi.setAlarm id (stopped_ok (hi.ok id hid))
  unfold rtAlarmStop
  dsimp only
  split_ifs
  · exact hi
  · exact h.dropCurrent id
  · exact h

theorem Inv.arm (hi : Inv s) (o : Option Nat) : Inv (s.arm o) := by
  cases o with
  | none => exact hi
  | some id => exact hi.congr rfl rfl

/-- An alarm is started once it is set up. -/
theorem Inv.start (hi : Inv s) (hid : id ∈ s.head) : Inv (s.rtAlarmStart id).2 := by
  have hgo : ∀ {s : Container}, Inv s → id ∈ s.head → (s.alarm id).inited = true →
      Inv (s.startAlarm id).2 := by
    intro s hi hid hin
    have hf := (hi.ok id hid).fits hin
    have h := hi.setAlarm id (a := { s.alarm id with started := true })
      ⟨fun _ => hin, fun _ => ⟨hf.sec, hf.min, hf.hour, hf.wday⟩⟩
    unfold startAlarm
    split_ifs
    · exact hi
    · dsimp only
      split
      · exact h.arm (some id)
      · split_ifs
        · exact h.arm (some id)
        · exact h
  unfold rtAlarmStart ensureSetup
  dsimp only
  cases hin : (s.alarm id).inited with
  | true => exact hgo hi hid hin
  | false =>
      have hstop : (s.alarm id).started = false := by
        by_contra h
        rw [(hi.ok id hid).inited (by simpa using h)] at hin
        cases hin
      obtain ⟨hok, -, hset⟩ := alarmSetup_ok hin hstop s.now
      have h := hi.setAlarm id hok
      simp only [Bool.false_eq_true, if_false]
      split_ifs with hret
      · exact h
      · refine hgo h hid ?_
        simp only [Container.setAlarm, Function.update_self]
        exact hset (not_not.mp hret)

/-- **The calls keep the alarms in order.** -/
theorem Inv.step (hi : Inv s) {a : Action} (hs : s.Step a s') : Inv s' := by
  unfold Step exec at hs
  cases a with
  | create id flag wktime callback =>
      dsimp only at hs
      split_ifs at hs with hid
      cases hs
      have hnew : (⟨flag &&& 0xFF00, false, false, callback, wktime⟩ : Alarm).Ok :=
        ⟨fun h => (by cases h), fun h => (by cases h)⟩
      refine ⟨List.nodup_cons.mpr ⟨hid, hi.nodup⟩, fun id' hid' => ?_⟩
      rcases List.mem_cons.mp hid' with rfl | h
      · simpa [rtAlarmCreate, Container.setAlarm] using hnew
      · exact (hi.setAlarm id hnew).ok id' h
  | modify id flag wktime =>
      dsimp only at hs
      split_ifs at hs with hid
      cases hs
      exact (hi.stop hid).setAlarm id (alarmSetup_ok rfl rfl _).1
  | start id =>
      dsimp only at hs
      split_ifs at hs with hid
      cases hs
      exact hi.start hid
  | stop id =>
      dsimp only at hs
      split_ifs at hs with hid
      cases hs
      exact hi.stop hid
  | delete id =>
      dsimp only at hs
      split_ifs at hs with hid
      cases hs
      have h := hi.setAlarm id (stopped_ok (hi.ok id hid))
      have herase : ∀ {s : Container}, Inv s → Inv { s with head := s.head.erase id } := fun hi =>
        ⟨hi.nodup.erase id, fun id' h => hi.ok id' (List.mem_of_mem_erase h)⟩
      unfold rtAlarmDelete
      dsimp only
      split_ifs
      · exact herase (h.dropCurrent id)
      · exact herase h
  | update =>
      cases hs
      exact (alarmUpdate_calmer hi.nodup).inv hi
  | tick =>
      cases hs
      have h : Inv { s with now := s.now + 1 } := hi.congr rfl rfl
      unfold tick
      dsimp only
      split_ifs
      · exact (alarmUpdate_calmer h.nodup).inv h
      · exact h

theorem reachable_inv (h : Trans.Reachable Init Step s) : Inv s :=
  h.invariant (fun s h => ⟨by simp [h.1], by simp [h.1]⟩) fun _ _ _ _ hi hs => hi.step hs

end Container

/-! ## Occurrences -/

variable {a : Alarm} {o o' t t' : Nat}

/-- A time of the day that the alarm is set to. -/
def Alarm.onDay (a : Alarm) (now : Tm) : Prop :=
  (a.mode = RT_ALARM_DAILY) ∨ (a.mode = RT_ALARM_WEEKLY ∧ now.tmWday = a.wktime.tmWday) ∨
  (a.mode = RT_ALARM_MONTHLY ∧ now.tmMday = a.wktime.tmMday) ∨
  (a.mode = RT_ALARM_YAERLY ∧ now.tmMday = a.wktime.tmMday ∧ now.tmMon = a.wktime.tmMon)

/-- The alarm is set to the time, one that rings once on a date and the others again and again. -/
def Alarm.Occurs (a : Alarm) (o : Nat) : Prop :=
  if a.mode = RT_ALARM_ONESHOT then o = mktime32 a.wktime
  else o % 86400 = alarmMkdaysec a.wktime ∧ a.onDay (gmtimeR o)

/-- The occurrence is the last one up to the time. -/
def Alarm.Last (a : Alarm) (o t : Nat) : Prop := a.Occurs o ∧ o ≤ t ∧ ∀ o', a.Occurs o' → o' ≤ t → o' ≤ o

/-- The days, or the weeks from Sunday on, in which an alarm compares the times. -/
def Alarm.span (a : Alarm) (t : Nat) : Nat :=
  if a.mode = RT_ALARM_WEEKLY then (t / 86400 + 4) / 7 else t / 86400

/-- A time within the delay of the occurrence. -/
def Alarm.Window (a : Alarm) (o t : Nat) : Prop := o ≤ t ∧ t ≤ o + RT_ALARM_DELAY ∧ a.span o = a.span t

theorem mkdaysec_gmtime (t : Nat) : alarmMkdaysec (gmtimeR t) = t % 86400 := by
  rw [gmtimeR_eq, alarmMkdaysec, u32]
  simp only [Tm.of]
  omega

theorem wday_gmtime (t : Nat) : (gmtimeR t).tmWday = ((4 + t / 86400) % 7 : Nat) := by
  rw [gmtimeR_eq, Tm.of, (dateOf_spec _).2.1]

theorem date_gmtime (h : o / 86400 = t / 86400) :
    (gmtimeR o).tmMday = (gmtimeR t).tmMday ∧ (gmtimeR o).tmMon = (gmtimeR t).tmMon := by
  rw [gmtimeR_eq, gmtimeR_eq, h]
  exact ⟨rfl, rfl⟩

theorem Alarm.Fits.daysec (h : a.Fits) : ∃ d, alarmMkdaysec a.wktime = d ∧ d < 86400 := by
  have h₁ := h.sec
  have h₂ := h.min
  have h₃ := h.hour
  refine ⟨_, rfl, ?_⟩
  rw [alarmMkdaysec, u32, Int.emod_eq_of_lt (by omega) (by omega)]
  omega

/-- Occurrences of an alarm that rings again are days apart. -/
theorem Alarm.Occurs.last (hm : a.mode ≠ RT_ALARM_ONESHOT) (h : a.Occurs o) (hw : a.Window o t) :
    a.Last o t := by
  refine ⟨h, hw.1, fun o' h' hle => ?_⟩
  have hlt := hw.2.1
  unfold Occurs at h h'
  rw [if_neg hm] at h h'
  simp only [RT_ALARM_DELAY] at hlt
  omega

theorem overtime_iff (now alarm : Nat) (h : now < 4294967296) :
    overtime now alarm = true ↔ alarm ≤ now ∧ now ≤ alarm + RT_ALARM_DELAY := by
  rw [overtime, decide_eq_true_iff]
  unfold u32 RT_ALARM_DELAY
  omega

/-- When an alarm that rings again is due. -/
theorem wakeup_iff (hf : a.Fits) (hm : a.mode ≠ RT_ALARM_ONESHOT) :
    a.wakeup (gmtimeR t) = true ↔
      if a.mode = RT_ALARM_WEEKLY then
        alarmMkdaysec a.wktime + a.wktime.tmWday.toNat * 86400 ≤ t % 86400 + (4 + t / 86400) % 7 * 86400 ∧
        t % 86400 + (4 + t / 86400) % 7 * 86400 ≤
          alarmMkdaysec a.wktime + a.wktime.tmWday.toNat * 86400 + RT_ALARM_DELAY
      else alarmMkdaysec a.wktime ≤ t % 86400 ∧ t % 86400 ≤ alarmMkdaysec a.wktime + RT_ALARM_DELAY ∧
        a.onDay (gmtimeR t) := by
  obtain ⟨d, hd, hlt⟩ := hf.daysec
  unfold Alarm.wakeup Alarm.onDay
  simp only [hd, mkdaysec_gmtime, if_neg hm]
  by_cases h₁ : a.mode = RT_ALARM_DAILY
  · rw [if_pos h₁, if_neg (by rw [h₁]; decide), overtime_iff _ _ (by omega)]
    simp [h₁]
  · rw [if_neg h₁]
    by_cases h₂ : a.mode = RT_ALARM_WEEKLY
    · obtain ⟨hw, hw'⟩ := hf.wday h₂
      have hX : u32 (d + a.wktime.tmWday * 24 * 3600) = d + a.wktime.tmWday.toNat * 86400 := by
        rw [u32, Int.emod_eq_of_lt (by omega) (by omega)]
        omega
      have hN : u32 (↑(t % 86400) + (gmtimeR t).tmWday * 24 * 3600) =
          t % 86400 + (4 + t / 86400) % 7 * 86400 := by
        rw [wday_gmtime, u32, Int.emod_eq_of_lt (by omega) (by omega)]
        omega
      rw [if_pos h₂, if_pos h₂, hX, hN, overtime_iff _ _ (by omega)]
    · have hdelay : u32 (↑(t % 86400) - ↑d) ≤ RT_ALARM_DELAY ↔ d ≤ t % 86400 ∧ t % 86400 ≤ d + RT_ALARM_DELAY := by
        unfold u32 RT_ALARM_DELAY
        omega
      rw [if_neg h₂, if_neg h₂]
      by_cases h₃ : a.mode = RT_ALARM_MONTHLY
      · rw [if_pos h₃, decide_eq_true_iff, hdelay]
        simp [h₃, RT_ALARM_DAILY, RT_ALARM_MONTHLY, RT_ALARM_WEEKLY, RT_ALARM_YAERLY, eq_comm]
        tauto
      · rw [if_neg h₃]
        by_cases h₄ : a.mode = RT_ALARM_YAERLY
        · rw [if_pos h₄, decide_eq_true_iff, hdelay]
          simp [h₄, RT_ALARM_DAILY, RT_ALARM_MONTHLY, RT_ALARM_WEEKLY, RT_ALARM_YAERLY, eq_comm]
          tauto
        · simp [h₁, h₂, h₃, h₄]

/-- **An alarm that rings again** is due within the delay of its last occurrence. -/
theorem Alarm.Last.wakeup_iff (hf : a.Fits) (hm : a.mode ≠ RT_ALARM_ONESHOT) (hl : a.Last o t) :
    a.wakeup (gmtimeR t) = true ↔ a.Window o t := by
  obtain ⟨ho, hle, hlast⟩ := hl
  obtain ⟨d, hd, hlt⟩ := hf.daysec
  unfold Occurs at ho hlast
  simp only [if_neg hm, hd] at ho hlast
  rw [Rtc.wakeup_iff hf hm, hd]
  unfold Window span RT_ALARM_DELAY
  split_ifs with hw
  · obtain ⟨hw₀, hw₁⟩ := hf.wday hw
    have hday : ∀ o, a.onDay (gmtimeR o) ↔ (4 + o / 86400) % 7 = a.wktime.tmWday.toNat := by
      intro o
      have h : a.onDay (gmtimeR o) ↔ (gmtimeR o).tmWday = a.wktime.tmWday := by
        simp [onDay, hw, RT_ALARM_DAILY, RT_ALARM_MONTHLY, RT_ALARM_WEEKLY, RT_ALARM_YAERLY]
      rw [h, wday_gmtime]
      omega
    simp only [hday] at ho hlast
    constructor
    · rintro ⟨h₁, h₂⟩
      have h := hlast (t - (t % 86400 + (4 + t / 86400) % 7 * 86400 - (d + a.wktime.tmWday.toNat * 86400)))
      omega
    · omega
  · have hday : ∀ o, o / 86400 = t / 86400 → (a.onDay (gmtimeR o) ↔ a.onDay (gmtimeR t)) := by
      intro o h
      obtain ⟨h₁, h₂⟩ := date_gmtime h
      simp only [onDay, hw, false_and, h₁, h₂]
    constructor
    · rintro ⟨h₁, h₂, h₃⟩
      have hsame : (t - (t % 86400 - d)) / 86400 = t / 86400 := by omega
      have h := hlast (t - (t % 86400 - d)) ⟨by omega, (hday _ hsame).mpr h₃⟩ (by omega)
      omega
    · rintro ⟨h₁, h₂, h₃⟩
      exact ⟨by omega, by omega, (hday o h₃).mp ho.2⟩

namespace Container

variable {s s' : Container} {id : Nat} {ts : List Nat}

/-! ## Runs of updates -/

/-- The callbacks that updates at the times call. -/
def callsOf (s : Container) : List Nat → List (Nat × Nat)
  | [] => []
  | t :: ts =>
      (s.head.filter fun id => rings (gmtimeR t) (s.alarm id)).map (·, t) ++ callsOf (s.updateAt t) ts

/-- `alarm_update` runs at the times. -/
def updates (s : Container) (ts : List Nat) : Container := ts.foldl updateAt s

theorem updateAt_spec (hs : s.head.Nodup) (t : Nat) :
    (s.updateAt t).head = s.head ∧
    (∀ id, (s.updateAt t).alarm id =
      if id ∈ s.head then served (s.alarm id) (gmtimeR t) else s.alarm id) ∧
    (s.updateAt t).called =
      s.called ++ (s.head.filter fun id => rings (gmtimeR t) (s.alarm id)).map (·, t) :=
  alarmUpdate_spec { s with now := t } hs

theorem updates_called (hs : s.head.Nodup) (ts : List Nat) :
    (s.updates ts).called = s.called ++ s.callsOf ts := by
  induction ts generalizing s with
  | nil => simp [updates, callsOf]
  | cons t ts ih =>
      obtain ⟨h₁, -, h₃⟩ := updateAt_spec hs t
      show ((s.updateAt t).updates ts).called = _
      rw [ih (h₁ ▸ hs), h₃, callsOf, List.append_assoc]

/-- A call is one of an alarm that is due at the time. -/
theorem mem_callsOf (hs : s.head.Nodup) {c : Nat × Nat} (hc : c ∈ s.callsOf ts) :
    c.2 ∈ ts ∧ c.1 ∈ s.head ∧ rings (gmtimeR c.2) (s.alarm c.1) = true := by
  induction ts generalizing s with
  | nil => cases hc
  | cons t ts ih =>
      obtain ⟨h₁, h₂, -⟩ := updateAt_spec hs t
      rcases List.mem_append.mp hc with h | h
      · obtain ⟨id, hid, rfl⟩ := List.mem_map.mp h
        obtain ⟨hmem, hr⟩ := List.mem_filter.mp hid
        exact ⟨List.mem_cons_self, hmem, hr⟩
      · obtain ⟨hts, hid, hr⟩ := ih (h₁ ▸ hs) h
        rw [h₁] at hid
        rw [h₂, if_pos hid] at hr
        refine ⟨List.mem_cons_of_mem _ hts, hid, ?_⟩
        unfold served at hr
        split_ifs at hr
        · cases hr
        · exact hr

/-- An alarm that rings again is served each time it is due. -/
theorem callsOf_mem (hs : s.head.Nodup) {t : Nat} (ht : t ∈ ts) (hid : id ∈ s.head)
    (hm : (s.alarm id).mode ≠ RT_ALARM_ONESHOT) (hr : rings (gmtimeR t) (s.alarm id) = true) :
    (id, t) ∈ s.callsOf ts := by
  induction ts generalizing s with
  | nil => cases ht
  | cons x ts ih =>
      obtain ⟨h₁, h₂, -⟩ := updateAt_spec hs x
      have hsame : (s.updateAt x).alarm id = s.alarm id := by
        rw [h₂, if_pos hid]
        exact if_neg (by simp [Alarm.fires, hm])
      rcases List.mem_cons.mp ht with rfl | ht
      · exact List.mem_append_left _ (List.mem_map.mpr ⟨id, List.mem_filter.mpr ⟨hid, hr⟩, rfl⟩)
      · exact List.mem_append_right _ (ih (h₁ ▸ hs) ht (h₁ ▸ hid) (hsame ▸ hm) (hsame ▸ hr))

/-- Two calls of an alarm are at two times, and it is one that rings again. -/
theorem callsOf_pairwise (hs : s.head.Nodup) (hts : ts.Pairwise (· < ·)) :
    (s.callsOf ts).Pairwise fun c c' =>
      c.1 = c'.1 → c.2 < c'.2 ∧ (s.alarm c.1).mode ≠ RT_ALARM_ONESHOT := by
  induction ts generalizing s with
  | nil => exact .nil
  | cons t ts ih =>
      obtain ⟨h₁, h₂, -⟩ := updateAt_spec hs t
      obtain ⟨hlt, hts⟩ := List.pairwise_cons.mp hts
      have hmode : ∀ id, ((s.updateAt t).alarm id).mode = (s.alarm id).mode := by
        intro id
        rw [h₂]
        unfold served
        split_ifs <;> rfl
      refine List.pairwise_append.mpr ⟨?_, ?_, ?_⟩
      · refine List.pairwise_map.mpr ((hs.filter _).imp fun hne he => absurd he hne)
      · exact (ih (h₁ ▸ hs) hts).imp fun h he => (hmode _) ▸ h he
      · rintro ⟨id, x⟩ hc ⟨id', t'⟩ hc' rfl
        obtain ⟨id₀, hid₀, he⟩ := List.mem_map.mp hc
        cases he
        obtain ⟨hid, hr⟩ := List.mem_filter.mp hid₀
        obtain ⟨ht', -, hr'⟩ := mem_callsOf (h₁ ▸ hs) hc'
        refine ⟨hlt t' ht', fun hm => ?_⟩
        -- an alarm that rings once is stopped
        rw [h₂, if_pos hid] at hr'
        have hfires : (s.alarm id).fires (gmtimeR t) = true := by
          simp only [rings, Bool.and_eq_true] at hr
          simp [Alarm.fires, hr.1.1, hr.1.2, hm]
        simp [served, hfires, rings] at hr'

/-- **An alarm rings at most once for each occurrence** when the updates are at increasing times, if and
only if no two of them are within the delay of one occurrence of a started alarm that rings again. -/
theorem alarm_rings_once_iff (s : Container) (h : Trans.Reachable Init Step s) (ts : List Nat)
    (hts : ts.Pairwise (· < ·)) :
    (({ s with called := [] } : Container).updates ts).called.Pairwise (fun c c' =>
      ∀ o, ¬ (c.1 = c'.1 ∧ (s.alarm c.1).Last o c.2 ∧ (s.alarm c.1).Last o c'.2)) ↔
    ∀ id ∈ s.head, (s.alarm id).started = true → (s.alarm id).callback = true →
      (s.alarm id).mode ≠ RT_ALARM_ONESHOT → ∀ o, (s.alarm id).Occurs o → ∀ t ∈ ts, ∀ t' ∈ ts, t < t' →
        ¬ ((s.alarm id).Window o t ∧ (s.alarm id).Window o t') := by
  have hi := reachable_inv h
  have hfits : ∀ id ∈ s.head, (s.alarm id).started = true → (s.alarm id).Fits := fun id hid hst =>
    (hi.ok id hid).fits ((hi.ok id hid).inited hst)
  have hcalls := updates_called (s := { s with called := [] }) hi.nodup ts
  rw [hcalls, List.nil_append]
  constructor
  · intro hp id hid hst hcb hm o ho t ht t' ht' hlt ⟨hw, hw'⟩
    have hring : ∀ t ∈ ts, (s.alarm id).Window o t → (id, t) ∈ callsOf { s with called := [] } ts := by
      intro t ht hw
      refine callsOf_mem (s := { s with called := [] }) hi.nodup ht hid hm ?_
      simp [rings, hst, hcb, ((ho.last hm hw).wakeup_iff (hfits id hid hst) hm).mpr hw]
    have hsymm : Std.Symm fun c c' : Nat × Nat =>
        ∀ o, ¬ (c.1 = c'.1 ∧ (s.alarm c.1).Last o c.2 ∧ (s.alarm c.1).Last o c'.2) := by
      refine ⟨fun c c' hn o ⟨he, h₁, h₂⟩ => ?_⟩
      rw [he] at h₁ h₂
      exact hn o ⟨he.symm, h₂, h₁⟩
    have hne : (id, t) ≠ (id, t') := fun he => by
      injection he with _ he
      omega
    exact hp.forall (hring t ht hw) (hring t' ht' hw') hne o ⟨rfl, ho.last hm hw, ho.last hm hw'⟩
  · intro hcond
    refine List.Pairwise.imp_of_mem ?_ (callsOf_pairwise (s := { s with called := [] }) hi.nodup hts)
    rintro ⟨id, t⟩ ⟨id', t'⟩ hc hc' hord o ⟨rfl, hl, hl'⟩
    obtain ⟨hlt, hm⟩ := hord rfl
    obtain ⟨ht, hid, hr⟩ := mem_callsOf (s := { s with called := [] }) hi.nodup hc
    obtain ⟨ht', -, hr'⟩ := mem_callsOf (s := { s with called := [] }) hi.nodup hc'
    simp only [rings, Bool.and_eq_true] at hr hr'
    have hf := hfits id hid hr.1.1
    exact hcond id hid hr.1.1 hr.2 hm o hl.1 t ht t' ht' hlt
      ⟨(hl.wakeup_iff hf hm).mp hr.1.2, (hl'.wakeup_iff hf hm).mp hr'.1.2⟩

/-- Two daily alarms, a second apart. -/
def twoAlarms : List Action :=
  [.create 0 RT_ALARM_DAILY ⟨0, 0, 9, 1, 0, 70, 0, 0⟩ true, .start 0,
    .create 1 RT_ALARM_DAILY ⟨1, 0, 9, 1, 0, 70, 0, 0⟩ true, .start 1]

/-- No alarm at midnight. -/
def noAlarms : Container := ⟨[], fun _ => ⟨0, false, false, false, gmtimeR 0⟩, none, ⟨false, 0, 0, 0⟩, 0, []⟩

theorem twoAlarms_reachable (s : Container) (h : Trans.runList exec noAlarms twoAlarms = some s) :
    Trans.Reachable Init Step s :=
  Trans.reachable_of_runList (.init ⟨rfl, rfl⟩) h

/-- One update at nine. -/
theorem alarm_rings_once_nine :
    (({ (Trans.runList exec noAlarms twoAlarms).getD noAlarms with called := [] } : Container).updates
      [32400]).called.Pairwise (fun c c' => ∀ o, ¬ (c.1 = c'.1 ∧
        (((Trans.runList exec noAlarms twoAlarms).getD noAlarms).alarm c.1).Last o c.2 ∧
        (((Trans.runList exec noAlarms twoAlarms).getD noAlarms).alarm c.1).Last o c'.2)) :=
  (alarm_rings_once_iff _ (twoAlarms_reachable _ rfl) [32400] (List.pairwise_singleton ..)).mpr
    fun _ _ _ _ _ _ _ t ht t' ht' hlt => by
      rw [List.mem_singleton.mp ht, List.mem_singleton.mp ht'] at hlt
      exact absurd hlt (lt_irrefl _)

/-- The update for the second alarm rings the first one again. -/
theorem alarm_rings_twice : ∃ s, Trans.Reachable Init Step s ∧
    ¬ (({ s with called := [] } : Container).updates [32400, 32401]).called.Pairwise (fun c c' =>
      ∀ o, ¬ (c.1 = c'.1 ∧ (s.alarm c.1).Last o c.2 ∧ (s.alarm c.1).Last o c'.2)) := by
  refine ⟨(Trans.runList exec noAlarms twoAlarms).getD noAlarms, twoAlarms_reachable _ rfl, ?_⟩
  generalize hs : (Trans.runList exec noAlarms twoAlarms).getD noAlarms = s
  have hcalled : (({ s with called := [] } : Container).updates [32400, 32401]).called =
      [(0, 32400), (1, 32401), (0, 32401)] := by
    rw [← hs]
    decide
  have hset : (s.alarm 0).mode ≠ RT_ALARM_ONESHOT ∧ (s.alarm 0).Occurs 32400 ∧
      (s.alarm 0).Window 32400 32400 ∧ (s.alarm 0).Window 32400 32401 := by
    rw [← hs]
    exact ⟨by decide, ⟨by decide, .inl (by decide)⟩, ⟨by decide, by decide, by decide⟩, by decide, by decide, by decide⟩
  obtain ⟨hm, ho, h₁, h₂⟩ := hset
  rw [hcalled]
  intro hp
  exact (List.pairwise_cons.mp hp).1 (0, 32401) (by decide) 32400 ⟨rfl, ho.last hm h₁, ho.last hm h₂⟩

end Container

end RTThread.Rtc
