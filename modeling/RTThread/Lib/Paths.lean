import Mathlib.Data.List.Basic
import Mathlib.Tactic.Common
import Mathlib.Order.Lattice

set_option autoImplicit false

/-! # Paths over an alphabet with a separator

A path is a list of names, written with a separator in front of each name. This file has the written
forms of a path, the components of a string, and the resolution of components from left to right with a
stack, where one component stands for the directory itself and one for the directory above.
-/

namespace RTThread.Paths

variable {α : Type}

/-- Each name behind a separator: the written form of a path, except that of the root, which is empty. -/
def stem (sep : α) (cs : List (List α)) : List α := cs.flatMap (sep :: ·)

/-- The written form of a path. -/
def render (sep : α) (cs : List (List α)) : List α := if cs = [] then [sep] else stem sep cs

/-- Each name in front of a separator. -/
def trail (sep : α) (cs : List (List α)) : List α := cs.flatMap (· ++ [sep])

/-- A name that can be written: not empty, and without separator. -/
def IsName (sep : α) (c : List α) : Prop := c ≠ [] ∧ sep ∉ c

section Written

variable {sep : α} {cs ds : List (List α)} {c : List α}

@[simp] theorem stem_nil : stem sep [] = [] := rfl

@[simp] theorem stem_cons : stem sep (c :: cs) = sep :: c ++ stem sep cs := rfl

@[simp] theorem stem_append : stem sep (cs ++ ds) = stem sep cs ++ stem sep ds :=
  List.flatMap_append

@[simp] theorem trail_nil : trail sep [] = [] := rfl

@[simp] theorem trail_cons : trail sep (c :: cs) = c ++ sep :: trail sep cs := by
  simp [trail]

@[simp] theorem trail_append : trail sep (cs ++ ds) = trail sep cs ++ trail sep ds :=
  List.flatMap_append

/-- The separators in front of the names, or behind them. -/
theorem cons_trail (sep : α) (cs : List (List α)) : sep :: trail sep cs = stem sep cs ++ [sep] := by
  induction cs with
  | nil => rfl
  | cons c cs ih => rw [trail_cons, stem_cons, List.append_assoc, ← ih, List.cons_append]

theorem stem_eq_nil : stem sep cs = [] ↔ cs = [] := by
  cases cs <;> simp

theorem render_of_ne (h : cs ≠ []) : render sep cs = stem sep cs := if_neg h

theorem head_render (sep : α) (cs : List (List α)) : ∃ t, render sep cs = sep :: t := by
  cases cs with
  | nil => exact ⟨[], rfl⟩
  | cons c cs => exact ⟨c ++ stem sep cs, rfl⟩

/-- A written path is the separator, and then the names with separators between them. -/
theorem render_eq_intercalate (sep : α) (cs : List (List α)) :
    render sep cs = sep :: [sep].intercalate cs := by
  cases cs with
  | nil => rfl
  | cons c cs =>
    rw [render_of_ne (List.cons_ne_nil c cs), stem_cons, List.cons_append]
    congr 1
    induction cs generalizing c with
    | nil => simp
    | cons d cs ih => rw [List.intercalate_cons_cons, stem_cons, List.cons_append, ih d]; simp

end Written

/-! ## Components -/

section Components

variable [DecidableEq α] {sep : α} {cs ds : List (List α)} {c s t : List α}

/-- The names of a string: what stands between separators and is not empty. -/
def components (sep : α) (s : List α) : List (List α) := (s.splitOn sep).filter fun c => c ≠ []

@[simp] theorem components_nil : components sep ([] : List α) = [] := rfl

theorem components_append_cons (s t : List α) :
    components sep (s ++ sep :: t) = components sep s ++ components sep t := by
  rw [components, List.splitOn_append_cons_self, List.filter_append]
  rfl

@[simp] theorem components_cons_sep (t : List α) : components sep (sep :: t) = components sep t :=
  components_append_cons [] t

/-- A string without separator is at most one name. -/
theorem components_of_notMem (h : sep ∉ s) : components sep s = if s = [] then [] else [s] := by
  rw [components, List.splitOn_eq_singleton h]
  by_cases hs : s = []
  · rw [hs]
    rfl
  · rw [if_neg hs, List.filter_cons_of_pos (by simpa using hs), List.filter_nil]

theorem components_name (h : IsName sep c) : components sep c = [c] := by
  rw [components_of_notMem h.2, if_neg h.1]

theorem components_name_cons (h : IsName sep c) (t : List α) :
    components sep (c ++ sep :: t) = c :: components sep t := by
  rw [components_append_cons, components_name h, List.singleton_append]

theorem components_dropWhile (s : List α) :
    components sep (s.dropWhile (· = sep)) = components sep s := by
  induction s with
  | nil => rfl
  | cons a s ih =>
    by_cases h : a = sep
    · rw [h, List.dropWhile_cons_of_pos (by simp), ih, components_cons_sep]
    · rw [List.dropWhile_cons_of_neg (by simpa using h)]

/-- **What is written is read back.** -/
theorem components_stem (h : ∀ c ∈ cs, IsName sep c) : components sep (stem sep cs) = cs := by
  induction cs with
  | nil => rfl
  | cons c cs ih =>
    have hcs := ih fun d hd => h d (List.mem_cons_of_mem _ hd)
    have hc := h c List.mem_cons_self
    cases cs with
    | nil =>
      rw [stem_cons, stem_nil, List.append_nil, components_cons_sep, components_name hc]
    | cons d ds =>
      rw [stem_cons, List.cons_append, components_cons_sep, stem_cons, List.cons_append,
        components_name_cons hc]
      rw [stem_cons, List.cons_append, components_cons_sep] at hcs
      rw [hcs]

theorem components_render (h : ∀ c ∈ cs, IsName sep c) : components sep (render sep cs) = cs := by
  by_cases hcs : cs = []
  · rw [hcs]
    simp [render]
  · rw [render_of_ne hcs, components_stem h]

theorem stem_inj (hc : ∀ c ∈ cs, IsName sep c) (hd : ∀ d ∈ ds, IsName sep d)
    (h : stem sep cs = stem sep ds) : cs = ds := by
  rw [← components_stem hc, h, components_stem hd]

theorem isName_of_mem_components {x : List α} (hx : x ∈ components sep s) : IsName sep x := by
  rw [components, List.mem_filter] at hx
  refine ⟨by simpa using hx.2, fun hmem => ?_⟩
  have hno : ∀ (s : List α), ∀ x ∈ s.splitOn sep, sep ∉ x := by
    intro s
    induction s with
    | nil => simp
    | cons a s ih =>
      rw [List.splitOn_cons_eq_if_modifyHead]
      by_cases ha : a = sep
      · simpa [ha] using ih
      · rw [if_neg (by simpa using ha)]
        obtain ⟨y, ys, hys⟩ := List.exists_cons_of_ne_nil (List.splitOn_ne_nil sep s)
        rw [hys] at ih ⊢
        intro x hx
        rw [List.modifyHead_cons] at hx
        rcases List.mem_cons.mp hx with rfl | hx
        · rw [List.mem_cons, not_or]
          exact ⟨fun he => ha he.symm, ih y List.mem_cons_self⟩
        · exact ih x (List.mem_cons_of_mem _ hx)
  exact hno s x hx.1 hmem

/-- **The names of one path start those of another** exactly when its written form does, and ends there
at a separator or at the end. -/
theorem prefix_iff (hc : ∀ c ∈ cs, IsName sep c) (hd : ∀ d ∈ ds, IsName sep d) :
    cs <+: ds ↔ ∃ t, stem sep ds = stem sep cs ++ t ∧ (t = [] ∨ ∃ u, t = sep :: u) := by
  constructor
  · rintro ⟨es, rfl⟩
    refine ⟨stem sep es, stem_append, ?_⟩
    cases es with
    | nil => exact Or.inl rfl
    | cons e es => exact Or.inr ⟨e ++ stem sep es, rfl⟩
  · rintro ⟨t, ht, rfl | ⟨u, rfl⟩⟩
    · rw [List.append_nil] at ht
      exact (stem_inj hd hc ht).symm ▸ List.prefix_refl cs
    · refine ⟨components sep u, ?_⟩
      rw [← components_stem hd, ht, components_append_cons, components_stem hc]

end Components

/-! ## Resolution -/

section Resolution

variable [DecidableEq α] (here up : List α)

/-- The components are resolved from left to right; the last name of the stack is its top. -/
def resolve : List (List α) → List (List α) → Option (List (List α))
  | stack, [] => some stack
  | stack, c :: cs =>
      if c = here then resolve stack cs
      else if c = up then if stack = [] then none else resolve stack.dropLast cs
      else resolve (stack ++ [c]) cs

/-- How far above the start the components lead, at the highest: the least sum of a front part, where a
name counts one and `up` counts one less. -/
def lowest : List (List α) → Int
  | [] => 0
  | c :: cs => min 0 ((if c = here then 0 else if c = up then -1 else 1) + lowest cs)

variable {here up}

theorem lowest_nonpos (cs : List (List α)) : lowest here up cs ≤ 0 := by
  cases cs with
  | nil => exact le_refl 0
  | cons c cs => exact min_le_left _ _

/-- The resolution fails exactly when the components lead above the root. -/
theorem resolve_isSome (stack cs : List (List α)) :
    (resolve here up stack cs).isSome ↔ 0 ≤ stack.length + lowest here up cs := by
  induction cs generalizing stack with
  | nil => simp [resolve, lowest]
  | cons c cs ih =>
    have hle : lowest here up cs ≤ 0 := lowest_nonpos cs
    unfold resolve lowest
    by_cases h₁ : c = here
    · rw [if_pos h₁, if_pos h₁, ih]
      omega
    · rw [if_neg h₁, if_neg h₁]
      by_cases h₂ : c = up
      · rw [if_pos h₂, if_pos h₂]
        by_cases h₃ : stack = []
        · rw [if_pos h₃, h₃]
          simp only [Option.isSome_none, Bool.false_eq_true, List.length_nil, false_iff]
          omega
        · have hlen := List.length_pos_of_ne_nil h₃
          rw [if_neg h₃, ih, List.length_dropLast]
          omega
      · rw [if_neg h₂, if_neg h₂, ih, List.length_append, List.length_singleton]
        omega

/-- What is resolved is made of the names that were there. -/
theorem resolve_forall {P : List α → Prop} {stack cs out : List (List α)}
    (hstack : ∀ c ∈ stack, P c) (hcs : ∀ c ∈ cs, c ≠ here → c ≠ up → P c)
    (h : resolve here up stack cs = some out) : ∀ c ∈ out, P c := by
  induction cs generalizing stack with
  | nil =>
    cases h
    exact hstack
  | cons c cs ih =>
    have hcs' := fun d hd => hcs d (List.mem_cons_of_mem _ hd)
    unfold resolve at h
    by_cases h₁ : c = here
    · rw [if_pos h₁] at h
      exact ih hstack hcs' h
    · rw [if_neg h₁] at h
      by_cases h₂ : c = up
      · rw [if_pos h₂] at h
        by_cases h₃ : stack = []
        · rw [if_pos h₃] at h
          cases h
        · rw [if_neg h₃] at h
          exact ih (fun d hd => hstack d (List.dropLast_subset stack hd)) hcs' h
      · rw [if_neg h₂] at h
        refine ih (fun d hd => ?_) hcs' h
        rcases List.mem_append.mp hd with hd | hd
        · exact hstack d hd
        · rw [List.mem_singleton.mp hd]
          exact hcs c List.mem_cons_self h₁ h₂

/-- Names are only put on the stack. -/
theorem resolve_names {stack cs : List (List α)} (h : ∀ c ∈ cs, c ≠ here ∧ c ≠ up) :
    resolve here up stack cs = some (stack ++ cs) := by
  induction cs generalizing stack with
  | nil => rw [List.append_nil]; rfl
  | cons c cs ih =>
    obtain ⟨h₁, h₂⟩ := h c List.mem_cons_self
    unfold resolve
    rw [if_neg h₁, if_neg h₂, ih fun d hd => h d (List.mem_cons_of_mem _ hd), List.append_assoc,
      List.singleton_append]

end Resolution

end RTThread.Paths
