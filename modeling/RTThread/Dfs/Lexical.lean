import RTThread.Dfs.Normalize

set_option autoImplicit false

/-! # Normalized paths

The loop of `dfs_normalize_path` is followed component by component. In front of `dst` stand the names
that are kept, each with its slash behind it; a `..` at the root removes the slash of the root, and from
there on the path is one without root, whose result does not start with a slash. So the function agrees
with the resolution of the components, unless they lead one level above the root and not further.
-/

namespace RTThread.Dfs

open Paths

/-! ## The loop, component by component -/

/-- `..`: the last name goes, or the root, below which nothing can go. -/
def popUp (rooted : Bool) (stack : List (List Char)) : Option (Bool × List (List Char)) :=
  if stack = [] then if rooted then some (false, []) else none
  else some (rooted, stack.dropLast)

/-- The components in the loop: whether the root is still there, and the names that are kept. -/
def walk : Bool → List (List Char) → List (List Char) → Option (Bool × List (List Char))
  | rooted, stack, [] => some (rooted, stack)
  | rooted, stack, c :: cs =>
      if c = ['.'] then walk rooted stack cs
      else if c = ['.', '.'] then (popUp rooted stack).bind fun x => walk x.1 x.2 cs
      else walk rooted (stack ++ [c]) cs

/-- What stands in front of `dst`. -/
def kept (rooted : Bool) (stack : List (List Char)) : List Char :=
  (if rooted then ['/'] else []) ++ trail '/' stack

/-- What stands there at the end: the last name may be without slash. -/
def Ends (rooted : Bool) (stack : List (List Char)) (w : List Char) : Prop :=
  w = kept rooted stack ∨ ∃ st c, stack = st ++ [c] ∧ NameOf c ∧ w = kept rooted st ++ c

/-- The loop ends as the components say. -/
def Follows (res : Except Fault (Option (Buffer × Nat))) : Option (Bool × List (List Char)) → Prop
  | none => res = .ok none
  | some x => ∃ b src w, res = .ok (some (b, w.length)) ∧ At b src w.length w [] ∧
      Ends x.1 x.2 w ∧ ∀ c ∈ x.2, NameOf c

section Loop

variable {b : Buffer} {src dst fuel : Nat} {r name : List Char} {rooted : Bool}
  {stack cs : List (List Char)}

theorem kept_append (rooted : Bool) (stack : List (List Char)) (c : List Char) :
    kept rooted (stack ++ [c]) = kept rooted stack ++ (c ++ ['/']) := by
  rw [kept, kept, trail_append, trail_cons, trail_nil, List.append_assoc]

theorem kept_end (rooted : Bool) (stack : List (List Char)) :
    kept rooted stack = [] ∨ ∃ v, kept rooted stack = v ++ ['/'] := by
  induction stack using List.reverseRecOn with
  | nil =>
    cases rooted
    · exact Or.inl rfl
    · exact Or.inr ⟨[], rfl⟩
  | append_singleton stack c ih =>
    refine Or.inr ⟨kept rooted stack ++ c, ?_⟩
    rw [kept_append, List.append_assoc]

/-- What is left to read, at the start of a component. -/
theorem name_cases (hnul : '\x00' ∉ r) (hhead : r.head? ≠ some '/') :
    r = [] ∨ ∃ name rest, r = name ++ rest ∧ NameOf name ∧ (rest = [] ∨ ∃ t, rest = '/' :: t) := by
  cases r with
  | nil => exact Or.inl rfl
  | cons a r =>
    have ha : a ≠ '/' := fun he => hhead (by rw [he]; rfl)
    refine Or.inr ⟨(a :: r).takeWhile (· ≠ '/'), (a :: r).dropWhile (· ≠ '/'),
      List.takeWhile_append_dropWhile.symm, ⟨⟨?_, ?_⟩, ?_⟩, ?_⟩
    · rw [List.takeWhile_cons_of_pos (by simpa using ha)]
      exact List.cons_ne_nil _ _
    · intro h
      simpa using List.mem_takeWhile_imp h
    · intro h
      exact hnul ((List.takeWhile_prefix _).subset h)
    · cases hd : (a :: r).dropWhile (· ≠ '/') with
      | nil => exact Or.inl rfl
      | cons x t =>
        have h₁ := List.head?_dropWhile_not (· ≠ '/') (a :: r)
        rw [hd] at h₁
        have hx : x = '/' := by simpa using h₁
        exact Or.inr ⟨t, by rw [hx]⟩

theorem dropWhile_slashes (hnul : '\x00' ∉ r) :
    '\x00' ∉ r.dropWhile (· = '/') ∧ (r.dropWhile (· = '/')).head? ≠ some '/' ∧
      (r.dropWhile (· = '/')).length ≤ r.length := by
  refine ⟨fun h => hnul ((List.dropWhile_suffix _).subset h), fun h => ?_,
    (List.dropWhile_suffix _).length_le⟩
  have h₁ := List.head?_dropWhile_not (· = '/') r
  rw [h] at h₁
  simp at h₁

/-- `up_one`. -/
theorem upOne_kept (h : At b src dst (kept rooted stack) r) (hst : ∀ c ∈ stack, NameOf c) :
    match popUp rooted stack with
    | none => upOne b src dst = .ok .freed
    | some x => ∃ dst', upOne b src dst = .ok (.goOn b src dst') ∧ At b src dst' (kept x.1 x.2) r ∧
        ∀ c ∈ x.2, NameOf c := by
  induction stack using List.reverseRecOn with
  | nil =>
    cases rooted
    · exact upOne_nil h
    · have h' : At b src dst ([] ++ ([] ++ ['/'])) r := h
      obtain ⟨heq, hat⟩ := upOne_spec h' List.not_mem_nil (Or.inl rfl)
      exact ⟨_, heq, hat, hst⟩
  | append_singleton stack c =>
    rw [popUp, if_neg (by simp), List.dropLast_concat]
    rw [kept_append] at h
    have hc : NameOf c := hst c (by simp)
    obtain ⟨heq, hat⟩ := upOne_spec h hc.1.2 (kept_end rooted stack)
    exact ⟨_, heq, hat, fun d hd => hst d (List.mem_append_left _ hd)⟩

theorem normalizeLoop_goOn {b' : Buffer} {src' dst' : Nat}
    (h : round b src dst = .ok (.goOn b' src' dst')) :
    normalizeLoop (fuel + 1) b src dst = normalizeLoop fuel b' src' dst' := by
  rw [normalizeLoop, h]
  rfl

theorem normalizeLoop_leave {b' : Buffer} {dst' : Nat} (h : round b src dst = .ok (.leave b' dst')) :
    normalizeLoop (fuel + 1) b src dst = .ok (some (b', dst')) := by
  rw [normalizeLoop, h]
  rfl

theorem normalizeLoop_freed (h : round b src dst = .ok .freed) :
    normalizeLoop (fuel + 1) b src dst = .ok none := by
  rw [normalizeLoop, h]
  rfl

/-- The induction is on the fuel; each round takes a component. -/
theorem normalizeLoop_follows (h : At b src dst (kept rooted stack) r) (hnul : '\x00' ∉ r)
    (hhead : r.head? ≠ some '/') (hst : ∀ c ∈ stack, NameOf c) (hf : r.length < fuel) :
    Follows (normalizeLoop fuel b src dst) (walk rooted stack (components '/' r)) := by
  induction fuel generalizing b src dst rooted stack r with
  | zero => exact absurd hf (Nat.not_lt_zero _)
  | succ fuel ih =>
    -- a round that leaves the stack as it is and the path at its end
    have leave : ∀ b' src', round b src dst = .ok (.leave b' (kept rooted stack).length) →
        At b' src' (kept rooted stack).length (kept rooted stack) [] →
        Follows (normalizeLoop (fuel + 1) b src dst) (some (rooted, stack)) := by
      intro b' src' hround hat
      exact ⟨b', src', _, normalizeLoop_leave hround, hat, Or.inl rfl, hst⟩
    -- a round that ends at `up_one`
    have pop : ∀ src' t, round b src dst = upOne b src' dst → At b src' dst (kept rooted stack) t →
        '\x00' ∉ t → t.head? ≠ some '/' → t.length < fuel →
        Follows (normalizeLoop (fuel + 1) b src dst)
          ((popUp rooted stack).bind fun x => walk x.1 x.2 (components '/' t)) := by
      intro src' t hround hat hnul' hhead' hlen
      have hup := upOne_kept hat hst
      cases hp : popUp rooted stack with
      | none =>
        rw [hp] at hup
        exact normalizeLoop_freed (hround.trans hup)
      | some x =>
        rw [hp] at hup
        obtain ⟨dst', heq, hat', hst'⟩ := hup
        rw [normalizeLoop_goOn (hround.trans heq)]
        exact ih hat' hnul' hhead' hst' hlen
    rcases name_cases hnul hhead with rfl | ⟨name, rest, rfl, hname, hrest⟩
    · obtain ⟨b', src', hround, hat⟩ := round_nil h
      exact leave b' src' hround hat
    have hnulRest : '\x00' ∉ rest := fun hm => hnul (List.mem_append_right _ hm)
    rw [List.length_append] at hf
    have hpos := List.length_pos_of_ne_nil hname.1.1
    by_cases hdot : name = ['.']
    · rcases hrest with rfl | ⟨t, rfl⟩
      · rw [hdot, List.append_nil] at h ⊢
        obtain ⟨b', src', hround, hat⟩ := round_dot_last h
        exact leave b' src' hround hat
      · obtain ⟨hnul', hhead', hlen⟩ := dropWhile_slashes fun hm => hnulRest (List.mem_cons_of_mem _ hm)
        rw [components_name_cons hname.1, walk, if_pos hdot, ← components_dropWhile]
        rw [hdot] at h
        obtain ⟨src', hround, hat⟩ := round_dot h
        rw [normalizeLoop_goOn hround]
        rw [List.length_cons] at hf
        exact ih hat hnul' hhead' hst (by omega)
    by_cases hdots : name = ['.', '.']
    · rcases hrest with rfl | ⟨t, rfl⟩
      · rw [List.append_nil, components_name hname.1, walk, if_neg hdot, if_pos hdots]
        rw [hdots, List.append_nil] at h
        obtain ⟨hround, hat⟩ := round_dots_last h
        exact pop _ [] hround hat List.not_mem_nil (by simp) (by simp; omega)
      · obtain ⟨hnul', hhead', hlen⟩ := dropWhile_slashes fun hm => hnulRest (List.mem_cons_of_mem _ hm)
        rw [components_name_cons hname.1, walk, if_neg hdot, if_pos hdots, ← components_dropWhile]
        rw [hdots] at h
        obtain ⟨src', hround, hat⟩ := round_dots h
        rw [List.length_cons] at hf
        exact pop _ _ hround hat hnul' hhead' (by omega)
    · have hst' : ∀ c ∈ stack ++ [name], NameOf c := by
        intro c hc
        rcases List.mem_append.mp hc with hc | hc
        · exact hst c hc
        · rw [List.mem_singleton.mp hc]
          exact hname
      rcases hrest with rfl | ⟨t, rfl⟩
      · rw [List.append_nil] at h ⊢
        rw [components_name hname.1, walk, if_neg hdot, if_neg hdots]
        obtain ⟨b', src', hround, hat⟩ := round_last h hname hdot hdots
        exact ⟨b', src', _, normalizeLoop_leave hround, hat, Or.inr ⟨stack, name, rfl, hname, rfl⟩, hst'⟩
      · obtain ⟨hnul', hhead', hlen⟩ := dropWhile_slashes fun hm => hnulRest (List.mem_cons_of_mem _ hm)
        rw [components_name_cons hname.1, walk, if_neg hdot, if_neg hdots, ← components_dropWhile]
        obtain ⟨b', src', dst', hround, hat⟩ := round_name h hname hdot hdots
        rw [normalizeLoop_goOn hround]
        rw [← kept_append] at hat
        rw [List.length_cons] at hf
        exact ih hat hnul' hhead' hst' (by omega)

end Loop

/-! ## What follows the loop -/

/-- The slash at the end is removed, unless it is the only character. -/
def strip (w : List Char) : List Char :=
  if 1 < w.length ∧ w.getLast? = some '/' then w.dropLast else w

section Finish

variable {b : Buffer} {src : Nat} {w : List Char} {rooted : Bool} {stack : List (List Char)}

theorem str_append (hw : '\x00' ∉ w) (t : List Char) : Buffer.str (w ++ '\x00' :: t) = ⟨w, hw⟩ := by
  have h : (w ++ '\x00' :: t).takeWhile (· ≠ '\x00') = w := by
    rw [List.takeWhile_append_of_pos]
    · simp
    · intro c hc
      have hne : c ≠ '\x00' := fun he => hw (he ▸ hc)
      simpa using hne
  unfold Buffer.str
  simp only [h]

theorem rd_append {v t : List Char} {c : Char} : Buffer.rd (v ++ c :: t) v.length = .ok c := by
  unfold Buffer.rd
  rw [List.getElem?_append_right (le_refl _), Nat.sub_self]
  rfl

theorem wr_append {v t : List Char} {c : Char} (c' : Char) :
    Buffer.wr (v ++ c :: t) v.length c' = .ok (v ++ c' :: t) := by
  unfold Buffer.wr
  rw [if_pos (by simp), List.set_append_right (h := le_refl _), Nat.sub_self, List.set_cons_zero]

theorem finishPath_nil (h : At b src 0 [] []) : finishPath b 0 = .error .outside := by
  have hlen := h.length
  have hwr : b.wr 0 '\x00' = .ok (b.set 0 '\x00') := if_pos (by omega)
  rw [finishPath, hwr]
  rfl

/-- The first character is left alone. -/
theorem ensureRoot_cons {x : Char} (hx : x ≠ '\x00') (t : List Char) :
    ensureRoot (x :: t) = .ok (x :: t) :=
  if_neg hx

theorem cutSlash_spec (v : List Char) (c : Char) (t : List Char) : ∃ u,
    cutSlash (v ++ c :: '\x00' :: t) v.length = .ok (strip (v ++ [c]) ++ '\x00' :: u) := by
  have hlen : (v ++ [c]).length = v.length + 1 := by simp
  have hlast : (v ++ [c]).getLast? = some c := by simp
  have hkeep : v ++ c :: '\x00' :: t = (v ++ [c]) ++ '\x00' :: t := by simp
  unfold cutSlash strip
  by_cases hv : v.length ≠ 0
  · rw [if_pos hv, rd_append, hlast, hlen]
    by_cases hc : c = '/'
    · rw [if_pos ⟨by omega, by rw [hc]⟩, List.dropLast_concat]
      refine ⟨'\x00' :: t, ?_⟩
      refine (if_pos hc).trans ?_
      exact wr_append _
    · rw [if_neg fun hand => hc (Option.some.inj hand.2), hkeep]
      exact ⟨t, if_neg hc⟩
  · rw [if_neg hv, hlen, if_neg fun hand => hv (by omega), hkeep]
    exact ⟨t, rfl⟩

theorem strip_cons {w : List Char} (hw : w ≠ []) : ∃ x t t', w = x :: t ∧ strip w = x :: t' := by
  obtain ⟨x, t, rfl⟩ := List.exists_cons_of_ne_nil hw
  unfold strip
  by_cases h : 1 < (x :: t).length ∧ (x :: t).getLast? = some '/'
  · obtain ⟨y, u, rfl⟩ : ∃ y u, t = y :: u := by
      apply List.exists_cons_of_ne_nil
      rintro rfl
      exact absurd h.1 (by simp)
    rw [if_pos h]
    exact ⟨x, y :: u, _, rfl, rfl⟩
  · rw [if_neg h]
    exact ⟨x, t, t, rfl, rfl⟩

theorem strip_subset {w : List Char} {c : Char} (h : c ∈ strip w) : c ∈ w := by
  unfold strip at h
  split_ifs at h
  · exact List.dropLast_subset w h
  · exact h

theorem finishPath_spec (h : At b src w.length w []) (hw : w ≠ []) (hnul : '\x00' ∉ w) :
    ∃ b', finishPath b w.length = .ok b' ∧ b'.str.chars = strip w := by
  obtain ⟨y, t, rfl⟩ : ∃ y t, b = w ++ y :: t := by
    obtain ⟨gap, hb, -, -⟩ := h
    cases gap with
    | nil => exact ⟨'\x00', [], hb⟩
    | cons x gap =>
      refine ⟨x, gap ++ ([] ++ ['\x00']), ?_⟩
      rw [hb, List.cons_append]
  -- the null character stands behind `w`, and perhaps another one at its last character
  obtain ⟨v, c, rfl⟩ : ∃ v c, w = v ++ [c] := ⟨_, _, (List.dropLast_append_getLast hw).symm⟩
  obtain ⟨u, hcut⟩ := cutSlash_spec v c t
  obtain ⟨x, t₁, t₂, hx, hs⟩ := strip_cons hw
  have hxnul : x ≠ '\x00' := by
    rintro rfl
    apply hnul
    rw [hx]
    exact List.mem_cons_self
  have hsnul : '\x00' ∉ strip (v ++ [c]) := fun hm => hnul (strip_subset hm)
  refine ⟨strip (v ++ [c]) ++ '\x00' :: u, ?_, ?_⟩
  · have hlen : (v ++ [c]).length = v.length + 1 := by simp
    have hbuf : v ++ [c] ++ '\x00' :: t = v ++ c :: '\x00' :: t := by simp
    have hrest : (do
        let b ← cutSlash (v ++ c :: '\x00' :: t) v.length
        ensureRoot b) = (.ok (strip (v ++ [c]) ++ '\x00' :: u) : Except Fault Buffer) := by
      rw [hcut, hs]
      exact ensureRoot_cons hxnul _
    rw [finishPath, wr_append, hbuf, hlen]
    exact hrest
  · rw [str_append hsnul]

end Finish

/-! ## The result -/

section Result

variable {rooted : Bool} {stack cs : List (List Char)} {w : List Char}

theorem kept_true (stack : List (List Char)) : kept true stack = stem '/' stack ++ ['/'] :=
  cons_trail '/' stack

theorem strip_concat_slash (w : List Char) : strip (w ++ ['/']) = if w = [] then ['/'] else w := by
  unfold strip
  by_cases hw : w = []
  · rw [hw]
    rfl
  · have hlen := List.length_pos_of_ne_nil hw
    rw [if_neg hw, if_pos ⟨by rw [List.length_append, List.length_singleton]; omega, by simp⟩,
      List.dropLast_concat]

theorem strip_append_name {c : List Char} (hc : NameOf c) (w : List Char) : strip (w ++ c) = w ++ c := by
  obtain ⟨v, x, rfl⟩ : ∃ v x, c = v ++ [x] :=
    ⟨_, _, (List.dropLast_append_getLast hc.1.1).symm⟩
  have hx : x ≠ '/' := (hc.char x (by simp)).2
  refine if_neg fun h => hx ?_
  have hlast : (w ++ (v ++ [x])).getLast? = some x := by simp
  rw [hlast] at h
  exact Option.some.inj h.2

/-- With the root, the written form of the names is left. -/
theorem strip_rooted (h : Ends true stack w) : strip w = render '/' stack := by
  rcases h with rfl | ⟨st, c, rfl, hc, rfl⟩
  · rw [kept_true, strip_concat_slash, render]
    by_cases hs : stack = []
    · rw [hs]
      rfl
    · rw [if_neg hs, if_neg (mt stem_eq_nil.mp hs)]
  · rw [strip_append_name hc, kept_true, render_of_ne (by simp), stem_append]
    simp

theorem head_name {c u : List Char} (hc : NameOf c) (hw : w = c ++ u) :
    w ≠ [] ∧ w.head? ≠ some '/' := by
  obtain ⟨x, t, rfl⟩ := List.exists_cons_of_ne_nil hc.1.1
  have hx : x ≠ '/' := (hc.char x List.mem_cons_self).2
  rw [hw]
  refine ⟨List.cons_ne_nil _ _, ?_⟩
  simpa using hx

/-- Without the root, no slash is left in front. -/
theorem head_unrooted (h : Ends false stack w) (hst : ∀ c ∈ stack, NameOf c) (hne : stack ≠ []) :
    w ≠ [] ∧ w.head? ≠ some '/' := by
  rcases h with rfl | ⟨st, c, rfl, hc, rfl⟩
  · obtain ⟨d, ds, rfl⟩ := List.exists_cons_of_ne_nil hne
    exact head_name (hst d List.mem_cons_self) trail_cons
  · cases st with
    | nil => exact head_name hc (List.append_nil c).symm
    | cons d ds =>
      refine head_name (u := '/' :: trail '/' ds ++ c) (hst d List.mem_cons_self) ?_
      rw [kept, trail_cons]
      simp

end Result

/-- What the function returns, for the components of the path. -/
def Returns (res : Except Fault (Option CString)) : Option (Bool × List (List Char)) → Prop
  | none => res = .ok none
  | some (true, stack) => ∃ s, res = .ok (some s) ∧ s.chars = render '/' stack
  | some (false, []) => res = .error .outside
  | some (false, _ :: _) => ∃ s, res = .ok (some s) ∧ s.chars.head? ≠ some '/'

theorem Ends.notMem {w : List Char} {rooted : Bool} {stack : List (List Char)} (he : Ends rooted stack w) (hst : ∀ c ∈ stack, NameOf c) :
    '\x00' ∉ w := by
  have hkept : ∀ st : List (List Char), (∀ c ∈ st, NameOf c) → '\x00' ∉ kept rooted st := by
    intro st hst hm
    rcases List.mem_append.mp hm with hm | hm
    · cases rooted <;> simp at hm
    · obtain ⟨c, hc, hm⟩ := List.mem_flatMap.mp hm
      rcases List.mem_append.mp hm with hm | hm
      · exact (hst c hc).2 hm
      · simp at hm
  rcases he with rfl | ⟨st, c, rfl, hc, rfl⟩
  · exact hkept stack hst
  · intro hm
    rcases List.mem_append.mp hm with hm | hm
    · exact hkept st (fun d hd => hst d (List.mem_append_left _ hd)) hm
    · exact hc.2 hm

theorem dfsNormalizePath_returns {wd f : CString} {d : Option CString} {r : List Char}
    (hfull : fullPath wd d f = '/' :: r) (hnul : '\x00' ∉ r) :
    Returns (dfsNormalizePath true wd d f) (walk true [] (components '/' (fullPath wd d f))) := by
  obtain ⟨hnul', hhead, hlen⟩ := dropWhile_slashes hnul
  generalize hb : fullPath wd d f ++ ['\x00'] = b
  have hstart : At b 0 0 [] ([] ++ '/' :: r) := ⟨[], by rw [← hb, hfull]; rfl, rfl, rfl⟩
  have hlength := hstart.length
  -- the first round takes the root
  obtain ⟨b₁, src₁, dst₁, hcopy, hat₁⟩ := copyUp_name hstart fun c hc => absurd hc List.not_mem_nil
  have hround : round b 0 0 = .ok (.goOn b₁ src₁ dst₁) := by
    rw [← hcopy, round, At.rd_cons hstart]
    rfl
  have hat₁' : At b₁ src₁ dst₁ (kept true []) (r.dropWhile (· = '/')) := hat₁
  have hloop := normalizeLoop_follows hat₁' hnul' hhead (fun c hc => absurd hc List.not_mem_nil)
    (show (r.dropWhile (· = '/')).length < b.length by
      rw [List.nil_append, List.length_cons] at hlength
      omega)
  rw [← normalizeLoop_goOn hround, components_dropWhile, ← components_cons_sep, ← hfull] at hloop
  cases hw : walk true [] (components '/' (fullPath wd d f)) with
  | none =>
    rw [hw] at hloop
    exact dfsNormalizePath_none hb hloop
  | some x =>
    obtain ⟨rooted, stack⟩ := x
    rw [hw] at hloop
    obtain ⟨b₂, src₂, w, heq, hat₂, hends, hst⟩ := hloop
    have hres₂ : dfsNormalizePath true wd d f =
        (finishPath b₂ w.length >>= fun b => .ok (some b.str)) := dfsNormalizePath_some hb heq
    have hfinish : w ≠ [] → ∃ s, dfsNormalizePath true wd d f = .ok (some s) ∧ s.chars = strip w := by
      intro hw'
      obtain ⟨b₃, hfin, hstr⟩ := finishPath_spec hat₂ hw' (hends.notMem hst)
      refine ⟨b₃.str, ?_, hstr⟩
      rw [hres₂, hfin]
      rfl
    cases rooted with
    | true =>
      have hstrip := strip_rooted hends
      obtain ⟨t, ht⟩ := head_render '/' stack
      obtain ⟨s, hs, hchars⟩ := hfinish (by
        rintro rfl
        rw [ht] at hstrip
        exact absurd hstrip (by simp [strip]))
      exact ⟨s, hs, hchars.trans hstrip⟩
    | false =>
      cases stack with
      | nil =>
        obtain rfl : w = [] := by
          rcases hends with h | ⟨st, c, h, -⟩
          · exact h
          · exact absurd h (by simp)
        change dfsNormalizePath true wd d f = .error .outside
        rw [hres₂]
        have hfin : finishPath b₂ 0 = .error .outside := finishPath_nil hat₂
        rw [List.length_nil, hfin]
        rfl
      | cons c cs =>
        obtain ⟨hne, hhead⟩ := head_unrooted hends hst (List.cons_ne_nil c cs)
        obtain ⟨s, hs, hchars⟩ := hfinish hne
        obtain ⟨x, t, t', hx, hsx⟩ := strip_cons hne
        refine ⟨s, hs, ?_⟩
        rw [hchars, hsx]
        rw [hx] at hhead
        exact hhead

/-! ## The components and their resolution -/

section Walk

variable {stack cs : List (List Char)}

/-- `here` and `up` of the resolution. -/
abbrev resolveNames (stack cs : List (List Char)) : Option (List (List Char)) :=
  resolve ['.'] ['.', '.'] stack cs

def lowestLevel (cs : List (List Char)) : Int := lowest ['.'] ['.', '.'] cs

theorem lowestLevel_nonpos (cs : List (List Char)) : lowestLevel cs ≤ 0 := lowest_nonpos cs

theorem lowestLevel_dot (cs : List (List Char)) : lowestLevel (['.'] :: cs) = lowestLevel cs := by
  have hle := lowestLevel_nonpos cs
  change min 0 (0 + lowestLevel cs) = _
  omega

theorem lowestLevel_dots (cs : List (List Char)) :
    lowestLevel (['.', '.'] :: cs) = lowestLevel cs - 1 := by
  have hle := lowestLevel_nonpos cs
  change min 0 (-1 + lowestLevel cs) = _
  omega

theorem lowestLevel_name {c : List Char} (hdot : c ≠ ['.']) (hdots : c ≠ ['.', '.'])
    (cs : List (List Char)) : lowestLevel (c :: cs) = min 0 (1 + lowestLevel cs) := by
  rw [lowestLevel, lowest, if_neg hdot, if_neg hdots]
  rfl

theorem walk_false (stack cs : List (List Char)) :
    (stack.length + lowestLevel cs < 0 ∧ walk false stack cs = none) ∨
      0 ≤ stack.length + lowestLevel cs ∧ ∃ st, walk false stack cs = some (false, st) := by
  induction cs generalizing stack with
  | nil => exact Or.inr ⟨by simp [lowestLevel, lowest], stack, rfl⟩
  | cons c cs ih =>
    have hle := lowestLevel_nonpos cs
    unfold walk
    by_cases h₁ : c = ['.']
    · rw [if_pos h₁, h₁, lowestLevel_dot]
      exact ih stack
    by_cases h₂ : c = ['.', '.']
    · rw [if_neg h₁, if_pos h₂, h₂, lowestLevel_dots]
      by_cases h₃ : stack = []
      · rw [h₃, List.length_nil]
        exact Or.inl ⟨by omega, rfl⟩
      · have hlen := List.length_pos_of_ne_nil h₃
        have h₄ := ih stack.dropLast
        rw [List.length_dropLast] at h₄
        rw [popUp, if_neg h₃, Option.bind_some]
        exact h₄.imp (fun h => ⟨by omega, h.2⟩) fun h => ⟨by omega, h.2⟩
    · rw [if_neg h₁, if_neg h₂, lowestLevel_name h₁ h₂]
      have h₃ := ih (stack ++ [c])
      rw [List.length_append, List.length_singleton] at h₃
      exact h₃.imp (fun h => ⟨by omega, h.2⟩) fun h => ⟨by omega, h.2⟩

/-- **The loop resolves the components**, until they lead above the root: one level, and the root is
gone; two levels, and there is no result. -/
theorem walk_true (stack cs : List (List Char)) :
    (∃ out, resolveNames stack cs = some out ∧ walk true stack cs = some (true, out)) ∨
      resolveNames stack cs = none ∧
        (stack.length + lowestLevel cs = -1 ∧ (∃ st, walk true stack cs = some (false, st)) ∨
          stack.length + lowestLevel cs < -1 ∧ walk true stack cs = none) := by
  induction cs generalizing stack with
  | nil => exact Or.inl ⟨stack, rfl, rfl⟩
  | cons c cs ih =>
    have hle := lowestLevel_nonpos cs
    unfold walk resolveNames resolve
    by_cases h₁ : c = ['.']
    · rw [if_pos h₁, if_pos h₁, h₁, lowestLevel_dot]
      exact ih stack
    by_cases h₂ : c = ['.', '.']
    · rw [if_neg h₁, if_neg h₁, if_pos h₂, if_pos h₂, h₂, lowestLevel_dots]
      by_cases h₃ : stack = []
      · have hpop : popUp true stack = some (false, []) := by rw [h₃]; rfl
        rw [if_pos h₃, hpop, Option.bind_some, h₃, List.length_nil]
        refine Or.inr ⟨rfl, ?_⟩
        have h₄ := walk_false [] cs
        rw [List.length_nil] at h₄
        rcases h₄ with ⟨hlow, hw⟩ | ⟨hlow, hw⟩
        · exact Or.inr ⟨by omega, hw⟩
        · exact Or.inl ⟨by omega, hw⟩
      · have hlen := List.length_pos_of_ne_nil h₃
        have h₄ := ih stack.dropLast
        rw [List.length_dropLast] at h₄
        rw [if_neg h₃, popUp, if_neg h₃, Option.bind_some]
        exact h₄.imp id fun h =>
          ⟨h.1, h.2.imp (fun h => ⟨by omega, h.2⟩) fun h => ⟨by omega, h.2⟩⟩
    · rw [if_neg h₁, if_neg h₁, if_neg h₂, if_neg h₂, lowestLevel_name h₁ h₂]
      have h₃ := ih (stack ++ [c])
      rw [List.length_append, List.length_singleton] at h₃
      exact h₃.imp id fun h => ⟨h.1, h.2.imp (fun h => ⟨by omega, h.2⟩) fun h => ⟨by omega, h.2⟩⟩

end Walk

/-! ## Normal paths -/

/-- A name that is not resolved away. -/
def ProperName (c : List Char) : Prop := IsName '/' c ∧ c ≠ ['.'] ∧ c ≠ ['.', '.']

/-- The string starts with a slash, and no component is empty, `.` or `..`, so that no slash stands at
the end, except in `/` itself. -/
def CString.Normal (s : CString) : Prop :=
  ∃ t, s.chars = '/' :: t ∧ (t = [] ∨ ∀ c ∈ t.splitOn '/', c ≠ [] ∧ c ≠ ['.'] ∧ c ≠ ['.', '.'])

/-- A normal path is the written form of proper names. -/
theorem CString.normal_iff {s : CString} :
    s.Normal ↔ ∃ cs, s.chars = render '/' cs ∧ ∀ c ∈ cs, ProperName c := by
  constructor
  · rintro ⟨t, hs, rfl | ht⟩
    · exact ⟨[], hs, fun c hc => absurd hc List.not_mem_nil⟩
    · refine ⟨t.splitOn '/', ?_, ?_⟩
      · rw [hs, render_eq_intercalate, List.intercalate_splitOn]
      · intro c hc
        obtain ⟨h₁, h₂⟩ := ht c hc
        have hmem : c ∈ components '/' t := List.mem_filter.mpr ⟨hc, by simpa using h₁⟩
        exact ⟨isName_of_mem_components hmem, h₂⟩
  · rintro ⟨cs, hs, hcs⟩
    rw [render_eq_intercalate] at hs
    refine ⟨_, hs, ?_⟩
    by_cases hne : cs = []
    · left
      rw [hne]
      rfl
    · right
      rw [List.splitOn_intercalate '/' (fun c hc => (hcs c hc).1.2) hne]
      intro c hc
      exact ⟨(hcs c hc).1.1, (hcs c hc).2⟩

theorem CString.ext_chars {s t : CString} (h : s.chars = t.chars) : s = t := by
  cases s
  cases t
  congr

instance decEqCString : DecidableEq CString := fun s t =>
  decidable_of_iff (s.chars = t.chars) ⟨CString.ext_chars, fun h => congrArg CString.chars h⟩

/-! ## The theorem -/

/-- The components that a directory and a file name stand for: a file name that starts at the root
stands for itself. -/
def requested (directory : Option CString) (filename : CString) : List (List Char) :=
  if filename.Absolute then components '/' filename.chars
  else directory.elim [] (fun d => components '/' d.chars) ++ components '/' filename.chars

/-- The directory is absolute, and without directory the file name is. -/
def Proper (directory : Option CString) (filename : CString) : Prop :=
  (∀ d, directory = some d → d.Absolute) ∧ (directory = none → filename.Absolute)

/-- **The function resolves the path lexically**: it returns nothing if the allocation fails or the path
leads above the root, and else the normal path of the names that are left, whatever the spelling of the
path; a path that was returned is returned again. No access leaves the buffer. -/
def Normalizes (workingDirectory : CString) (directory : Option CString) (filename : CString) : Prop :=
  ∀ alloc, match dfsNormalizePath alloc workingDirectory directory filename with
    | .error _ => False
    | .ok none => alloc = false ∨ resolveNames [] (requested directory filename) = none
    | .ok (some s) => ∃ cs, resolveNames [] (requested directory filename) = some cs ∧
        s.chars = render '/' cs ∧ s.Normal ∧
        dfsNormalizePath true workingDirectory none s = .ok (some s) ∧
        ∀ d f, Proper d f → resolveNames [] (requested d f) = some cs →
          dfsNormalizePath true workingDirectory d f = .ok (some s)

section Main

variable {wd f : CString} {d : Option CString}

theorem absolute_iff (s : CString) : s.Absolute ↔ ∃ r, s.chars = '/' :: r := by
  unfold CString.Absolute CString.get
  constructor
  · intro h
    cases hs : s.chars with
    | nil =>
      rw [hs] at h
      exact absurd h (by decide)
    | cons a r =>
      rw [hs] at h
      exact ⟨r, by rw [show a = '/' from h]⟩
  · rintro ⟨r, hr⟩
    rw [hr]
    rfl

/-- The path in the buffer starts at the root, and has the components that are asked for. -/
theorem fullPath_eq (wd : CString) (h : Proper d f) : ∃ r, fullPath wd d f = '/' :: r ∧ '\x00' ∉ r ∧
    components '/' (fullPath wd d f) = requested d f := by
  unfold fullPath requested
  by_cases hf : f.Absolute
  · have hf' : ¬ f.get 0 ≠ '/' := not_not.mpr hf
    obtain ⟨r, hr⟩ := (absolute_iff f).mp hf
    rw [if_neg hf', if_pos hf]
    refine ⟨r, hr, fun hm => f.noNul ?_, rfl⟩
    rw [hr]
    exact List.mem_cons_of_mem _ hm
  · have hf' : f.get 0 ≠ '/' := hf
    rw [if_pos hf', if_neg hf]
    cases d with
    | none => exact absurd (h.2 rfl) hf
    | some d =>
      obtain ⟨r, hr⟩ := (absolute_iff d).mp (h.1 d rfl)
      refine ⟨r ++ '/' :: f.chars, ?_, ?_, components_append_cons _ _⟩
      · change d.chars ++ '/' :: f.chars = _
        rw [hr, List.cons_append]
      · intro hm
        rcases List.mem_append.mp hm with hm | hm
        · apply d.noNul
          rw [hr]
          exact List.mem_cons_of_mem _ hm
        · rcases List.mem_cons.mp hm with hm | hm
          · exact absurd hm (by decide)
          · exact f.noNul hm

/-- Proper names are what a path resolves to. -/
theorem properName_of_resolve {cs : List (List Char)}
    (h : resolveNames [] (requested d f) = some cs) : ∀ c ∈ cs, ProperName c := by
  refine resolve_forall (fun c hc => absurd hc List.not_mem_nil) (fun c hc h₁ h₂ => ⟨?_, h₁, h₂⟩) h
  unfold requested at hc
  split_ifs at hc
  · exact isName_of_mem_components hc
  · rcases List.mem_append.mp hc with hc | hc
    · cases d with
      | none => exact absurd hc List.not_mem_nil
      | some d => exact isName_of_mem_components hc
    · exact isName_of_mem_components hc

/-- A path that resolves is returned, in its written form. -/
theorem dfsNormalizePath_eq (h : Proper d f) {cs : List (List Char)}
    (hcs : resolveNames [] (requested d f) = some cs) {s : CString} (hs : s.chars = render '/' cs) :
    dfsNormalizePath true wd d f = .ok (some s) := by
  obtain ⟨r, hfull, hnul, hcomp⟩ := fullPath_eq wd h
  have hret := dfsNormalizePath_returns hfull hnul
  rw [hcomp] at hret
  rcases walk_true [] (requested d f) with ⟨out, hout, hw⟩ | ⟨hnone, -⟩
  · obtain rfl : out = cs := Option.some.inj (hout.symm.trans hcs)
    rw [hw] at hret
    obtain ⟨s', hs', hchars⟩ := hret
    rw [hs', CString.ext_chars (hchars.trans hs.symm)]
  · rw [hnone] at hcs
    cases hcs

theorem normalizes_of_some {cs : List (List Char)} {s : CString}
    (hcs : resolveNames [] (requested d f) = some cs) (hs : s.chars = render '/' cs) :
    ∃ cs, resolveNames [] (requested d f) = some cs ∧ s.chars = render '/' cs ∧ s.Normal ∧
      dfsNormalizePath true wd none s = .ok (some s) ∧
      ∀ d f, Proper d f → resolveNames [] (requested d f) = some cs →
        dfsNormalizePath true wd d f = .ok (some s) := by
  have hproper := properName_of_resolve hcs
  obtain ⟨t, ht⟩ := head_render '/' cs
  have habs : s.Absolute := (absolute_iff s).mpr ⟨t, hs.trans ht⟩
  have hagain : resolveNames [] (requested none s) = some cs := by
    have hreq : requested none s = cs := by
      rw [requested, if_pos habs, hs]
      exact components_render fun c hc => (hproper c hc).1
    rw [hreq]
    exact resolve_names fun c hc => (hproper c hc).2
  refine ⟨cs, hcs, hs, CString.normal_iff.mpr ⟨cs, hs, hproper⟩, ?_, ?_⟩
  · exact dfsNormalizePath_eq ⟨by simp, fun _ => habs⟩ hagain hs
  · intro d' f' h' hcs'
    exact dfsNormalizePath_eq h' hcs' hs

/-- **`dfs_normalize_path` resolves a path lexically** exactly when its components do not lead one level
above the root and not further: there it reads in front of its buffer, or returns a path without slash. -/
theorem normalizes_iff (h : Proper d f) : Normalizes wd d f ↔ lowestLevel (requested d f) ≠ -1 := by
  obtain ⟨r, hfull, hnul, hcomp⟩ := fullPath_eq wd h
  have hret := dfsNormalizePath_returns hfull hnul
  rw [hcomp] at hret
  have hsome : (resolveNames [] (requested d f)).isSome ↔ 0 ≤ lowestLevel (requested d f) := by
    simpa [lowestLevel] using resolve_isSome [] (requested d f)
  constructor
  · intro hn hlow
    have hn' := hn true
    rcases walk_true [] (requested d f) with ⟨out, hout, -⟩ | ⟨hnone, hw⟩
    · have h₁ := hsome.mp (by rw [hout]; rfl)
      omega
    · rw [List.length_nil] at hw
      rcases hw with ⟨-, st, hw⟩ | ⟨hlow', -⟩
      · rw [hw] at hret
        cases st with
        | nil =>
          have hret' : dfsNormalizePath true wd d f = .error .outside := hret
          rw [hret'] at hn'
          exact hn'
        | cons c cs =>
          obtain ⟨s, hs, -⟩ := hret
          rw [hs] at hn'
          obtain ⟨cs, hcs, -⟩ := hn'
          rw [hnone] at hcs
          cases hcs
      · have h₁ : lowestLevel (requested d f) < -1 := by simpa using hlow'
        omega
  · intro hlow alloc
    cases alloc with
    | false => exact Or.inl rfl
    | true =>
      rcases walk_true [] (requested d f) with ⟨out, hout, hw⟩ | ⟨hnone, hw⟩
      · rw [hw] at hret
        obtain ⟨s, hs, hchars⟩ := hret
        rw [hs]
        exact normalizes_of_some hout hchars
      · rw [List.length_nil] at hw
        rcases hw with ⟨hlow', -⟩ | ⟨-, hw⟩
        · exact absurd (by simpa using hlow') hlow
        · rw [hw] at hret
          have hret' : dfsNormalizePath true wd d f = .ok none := hret
          rw [hret']
          exact Or.inr hnone

end Main

section Cases

/-- The directory `/`. -/
def rootDirectory : CString := ⟨['/'], by decide⟩

/-- `b` beside the directory `/a`. -/
theorem normalizes_beside :
    Normalizes rootDirectory (some ⟨['/', 'a'], by decide⟩) ⟨['.', '.', '/', '/', 'b'], by decide⟩ := by
  refine (normalizes_iff ⟨fun d hd => ?_, fun h => absurd h (by simp)⟩).mpr (by decide)
  cases hd
  decide

/-- `/../a` is returned as `a`. -/
theorem normalize_loses_root :
    ¬ Normalizes rootDirectory none ⟨['/', '.', '.', '/', 'a'], by decide⟩ := by
  intro h
  have hres : dfsNormalizePath true rootDirectory none ⟨['/', '.', '.', '/', 'a'], by decide⟩ =
      .ok (some ⟨['a'], by decide⟩) := rfl
  have h' := h true
  rw [hres] at h'
  obtain ⟨cs, hcs, -⟩ := h'
  have hnone : resolveNames []
      (requested none ⟨['/', '.', '.', '/', 'a'], by decide⟩) = none := by decide
  rw [hnone] at hcs
  cases hcs

/-- At `/..` the character in front of the buffer is read. -/
example : dfsNormalizePath true rootDirectory none ⟨['/', '.', '.'], by decide⟩ = .error .outside := rfl

end Cases

end RTThread.Dfs
