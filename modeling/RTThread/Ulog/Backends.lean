import Mathlib.Tactic

set_option autoImplicit false

/-! # The backends of the log (`ulog.c`)

`ulog_output_to_all_backend` gives a line to all backends, to those without colour support without the
colour sequences at its ends. A backend is given a start in the line and a size. The build has
`ULOG_USING_COLOR` and no `ULOG_USING_SYSLOG`. `color` is `color_output_info`, whose entries can be configured,
and `null` is what `rt_strlen` finds at the null pointer.
-/

namespace RTThread.Ulog

abbrev Text := List Char

/-- `CSI_START` -/
def CSI_START : Text := ['\x1b', '[']

/-- `CSI_END` -/
def CSI_END : Text := ['\x1b', '[', '0', 'm']

def LOG_LVL_DBG : Nat := 7

/-- `color_output_info` with the default colours -/
def colorOutputInfo : Nat → Option Text
  | 0 => some ['3', '5', 'm']
  | 3 => some ['3', '1', 'm']
  | 4 => some ['3', '3', 'm']
  | 6 => some ['3', '2', 'm']
  | _ => none

/-- `struct ulog_backend` -/
structure UlogBackend where
  supportColor : Bool

/-- `rt_strlen` -/
def rtStrlen (null : Nat) : Option Text → Nat
  | some t => t.length
  | none => null

/-- The loop over the backends, from the start `log` of the line. An unsigned size that is too small wraps. -/
def outputLoop (color : Nat → Option Text) (null level size : Nat) : List UlogBackend → Nat → List (Nat × Nat)
  | [], _ => []
  | backend :: rest, log =>
      if backend.supportColor then (log, size) :: outputLoop color null level size rest log
      else
        let colorInfoLen := rtStrlen null (color level)
        if colorInfoLen ≠ 0 then
          let colorHdrLen := CSI_START.length + colorInfoLen
          (log + colorHdrLen, (size + 2 ^ 32 - (colorHdrLen + CSI_END.length)) % 2 ^ 32) ::
            outputLoop color null level size rest (log + colorHdrLen)
        else (log, size) :: outputLoop color null level size rest log

/-- `ulog_output_to_all_backend`, with what each backend is given -/
def ulogOutputToAllBackend (color : Nat → Option Text) (null : Nat) (initOk : Bool)
    (backends : List UlogBackend) (level size : Nat) : List (Nat × Nat) :=
  if initOk then outputLoop color null level size backends 0 else []

/-! ## Lines -/

/-- A line of `ulog_formater` with its text between the colour sequences, or one of `ulog_raw`. -/
inductive Line
  | formatted (level : Nat) (body : Text)
  | raw (text : Text)

namespace Line

def level : Line → Nat
  | formatted level _ => level
  | raw _ => LOG_LVL_DBG

def isRaw : Line → Bool
  | formatted _ _ => false
  | raw _ => true

/-- The line without colours. -/
def plain : Line → Text
  | formatted _ body => body
  | raw text => text

/-- The sequence in front of the line. -/
def start (color : Nat → Option Text) : Line → Text
  | formatted level _ => (color level).elim [] (CSI_START ++ ·)
  | raw _ => []

/-- The sequence behind the line. -/
def stop (color : Nat → Option Text) : Line → Text
  | formatted level _ => (color level).elim [] fun _ => CSI_END
  | raw _ => []

def text (color : Nat → Option Text) (l : Line) : Text := l.start color ++ l.plain ++ l.stop color

/-- What a backend should be given. -/
def due (color : Nat → Option Text) (l : Line) (b : UlogBackend) : Nat × Nat :=
  if b.supportColor then (0, (l.text color).length) else ((l.start color).length, l.plain.length)

end Line

/-- The part of a text that a backend is given. -/
def part (t : Text) (g : Nat × Nat) : Text := (t.drop g.1).take g.2

variable {color : Nat → Option Text} {null level size : Nat} {l : Line} {bs : List UlogBackend}

/-- What is due is the line, with or without its colours. -/
theorem part_due (b : UlogBackend) :
    part (l.text color) (l.due color b) = if b.supportColor then l.text color else l.plain := by
  unfold part Line.due
  split_ifs
  · exact List.take_length
  · rw [Line.text, List.append_assoc, List.drop_left, List.take_left]

/-- Where there is no colour each backend is given the whole line. -/
theorem outputLoop_whole (h : rtStrlen null (color level) = 0) (log : Nat) :
    outputLoop color null level size bs log = bs.map fun _ => (log, size) := by
  induction bs with
  | nil => rfl
  | cons b bs ih =>
      rw [outputLoop, if_neg (not_not.mpr h), ih]
      exact ite_self _

/-- The start and the size that the first backend without colour support is given. -/
def moved (null : Nat) (c : Option Text) (size : Nat) : Nat × Nat :=
  (CSI_START.length + rtStrlen null c,
    (size + 2 ^ 32 - (CSI_START.length + rtStrlen null c + CSI_END.length)) % 2 ^ 32)

/-- Behind a backend without colour support nothing is right. -/
theorem outputLoop_behind {q : Nat × Nat} {b : UlogBackend} {log : Nat} (hlog : 0 < log)
    (h : rtStrlen null (color level) ≠ 0) (hq : q.1 ≤ log) :
    outputLoop color null level size (b :: bs) log ≠
      (b :: bs).map fun b => if b.supportColor then (0, size) else q := by
  intro he
  rw [outputLoop, List.map_cons] at he
  cases hb : b.supportColor with
  | true =>
      rw [if_pos hb, if_pos hb] at he
      have h₁ := congrArg Prod.fst (List.cons.inj he).1
      exact hlog.ne' h₁
  | false =>
      simp only [hb, Bool.false_eq_true, if_false] at he
      rw [if_pos h] at he
      have h₁ : log + (CSI_START.length + rtStrlen null (color level)) = q.1 :=
        congrArg Prod.fst (List.cons.inj he).1
      omega

/-- Where there is a colour a backend without colour support moves the line for those behind it. -/
theorem outputLoop_moved {q : Nat × Nat} (h : rtStrlen null (color level) ≠ 0) :
    outputLoop color null level size bs 0 = bs.map (fun b => if b.supportColor then (0, size) else q) ↔
      (∀ b ∈ bs, b.supportColor = true) ∨
        q = moved null (color level) size ∧ ∀ b ∈ bs.dropLast, b.supportColor = true := by
  have hpos : 0 < (moved null (color level) size).1 := Nat.add_pos_left (by simp [CSI_START]) _
  induction bs with
  | nil => simp [outputLoop]
  | cons b bs ih =>
      cases hb : b.supportColor with
      | true =>
          have hloop : outputLoop color null level size (b :: bs) 0 =
              (0, size) :: outputLoop color null level size bs 0 := by
            rw [outputLoop, if_pos hb]
          rw [hloop, List.map_cons, if_pos hb, List.cons.injEq, and_iff_right rfl]
          refine ih.trans ?_
          cases bs with
          | nil => simp [hb]
          | cons b' bs => simp [hb]
      | false =>
          have hloop : outputLoop color null level size (b :: bs) 0 = moved null (color level) size ::
              outputLoop color null level size bs (moved null (color level) size).1 := by
            simp only [outputLoop, hb, Bool.false_eq_true, if_false]
            rw [if_pos h, Nat.zero_add]
            rfl
          rw [hloop, List.map_cons, if_neg (by simp [hb]), List.cons.injEq]
          cases bs with
          | nil =>
              simp only [outputLoop, List.map_nil, and_true, List.mem_singleton, forall_eq, hb, Bool.false_eq_true,
                false_or, List.dropLast_singleton, List.not_mem_nil, false_implies, implies_true]
              exact eq_comm
          | cons b' bs =>
              constructor
              · rintro ⟨rfl, he⟩
                exact absurd he (outputLoop_behind hpos h le_rfl)
              · simp [hb]

/-- What a backend without colour support is given first is right for a line with colours. -/
theorem moved_eq_iff (hsize : (l.text color).length < 2 ^ 32) (h : rtStrlen null (color l.level) ≠ 0) :
    ((l.start color).length, l.plain.length) = moved null (color l.level) (l.text color).length ↔
      l.isRaw = false ∧ color l.level ≠ none := by
  have hpos : (moved null (color l.level) (l.text color).length).1 ≠ 0 := by simp [moved, CSI_START]
  cases l with
  | raw text => exact ⟨fun he => absurd (congrArg Prod.fst he).symm hpos, fun h => by cases h.1⟩
  | formatted level body =>
      cases hc : color level with
      | none =>
          have hstart : (Line.start color (.formatted level body)).length = 0 := by simp [Line.start, hc]
          exact ⟨fun he => absurd ((congrArg Prod.fst he).symm.trans hstart) hpos, fun h => absurd hc h.2⟩
      | some c =>
          simp only [Line.text, Line.start, Line.stop, Line.plain, Line.level, moved, rtStrlen, hc, Option.elim_some,
            List.length_append, Prod.mk.injEq, true_and, Line.isRaw, ne_eq, reduceCtorEq, not_false_eq_true,
            and_self, iff_true] at hsize ⊢
          omega

/-- Without a colour the whole line is right for a line without one. -/
theorem whole_eq_iff (h : rtStrlen null (color l.level) = 0) :
    ((l.start color).length, l.plain.length) = (0, (l.text color).length) ↔
      l.isRaw = true ∨ color l.level = none := by
  cases l with
  | raw text => simp [Line.text, Line.start, Line.stop, Line.plain, Line.isRaw]
  | formatted level body =>
      cases hc : color level with
      | none => simp [Line.text, Line.start, Line.stop, Line.plain, Line.level, hc]
      | some c => simp [Line.start, CSI_START, Line.isRaw, Line.level, hc]

/-- **Every backend gets the same text**, with or without its colours, if and only if all of them support
colours, or there is none in the line nor for its level, or the line has colours and only the last backend
does not support them. -/
theorem backends_same_text_iff (color : Nat → Option Text) (null : Nat) (bs : List UlogBackend) (l : Line)
    (hsize : (l.text color).length < 2 ^ 32) :
    (∀ b, part (l.text color) (l.due color b) = if b.supportColor then l.text color else l.plain) ∧
    (ulogOutputToAllBackend color null true bs l.level (l.text color).length = bs.map (l.due color) ↔
      (∀ b ∈ bs, b.supportColor = true) ∨
      if rtStrlen null (color l.level) = 0 then l.isRaw = true ∨ color l.level = none
      else (l.isRaw = false ∧ color l.level ≠ none) ∧ ∀ b ∈ bs.dropLast, b.supportColor = true) := by
  refine ⟨part_due, ?_⟩
  rw [ulogOutputToAllBackend, if_pos rfl]
  unfold Line.due
  split_ifs with h
  · rw [outputLoop_whole h, ← whole_eq_iff h, List.map_inj_left]
    constructor
    · intro hall
      by_contra hno
      obtain ⟨hc, hne⟩ := not_or.mp hno
      apply hc
      intro b hb
      by_contra hcolor
      have he := hall b hb
      rw [if_neg hcolor] at he
      exact hne he.symm
    · rintro (hall | he) b hb
      · rw [if_pos (hall b hb)]
      · rw [he, ite_self]
  · rw [outputLoop_moved h, moved_eq_iff hsize h]

/-- A red line for a backend that supports colours and one that does not. -/
theorem backends_same_text_two :
    ulogOutputToAllBackend colorOutputInfo 0 true [⟨true⟩, ⟨false⟩] 3 10 = [(0, 10), (5, 1)] :=
  (backends_same_text_iff colorOutputInfo 0 [⟨true⟩, ⟨false⟩] (.formatted 3 ['x']) (by decide)).2.mpr
    (.inr (by decide))

/-- In the other order the backend behind is given the end of the line and what follows it. -/
theorem backends_moved :
    ulogOutputToAllBackend colorOutputInfo 0 true [⟨false⟩, ⟨true⟩] 3 10 = [(5, 1), (5, 10)] ∧
      [(5, 1), (5, 10)] ≠ [⟨false⟩, ⟨true⟩].map (Line.due colorOutputInfo (.formatted 3 ['x'])) := by
  decide

end RTThread.Ulog
