import RTThread.Lib.Commute

set_option autoImplicit false

/-! # Programs on channels

A program reads symbols, with or without a waiting time, and writes symbols. It is run alone on a stream,
where the time is over at the end of the stream (`feed`), or by two parties over two channels that lose nothing
(`Net`). A party is a table of programs that end by naming the next one or with a result, so it may go on
forever. Two parties commute: what one writes is behind all that the other can read.
-/

namespace Channel

/-- A program over the symbols `β` with a result in `α`. -/
inductive Prog (β α : Type)
  | ret (a : α)
  /-- read a symbol, or `none` when the waiting time is over -/
  | read (k : Option β → Prog β α)
  /-- read a symbol, and wait forever -/
  | wait (k : β → Prog β α)
  | write (b : β) (k : Prog β α)

namespace Prog

variable {α β γ : Type} {n m : Nat} {b : β} {bs i i' o o' : List β}

def bind (p : Prog β α) (f : α → Prog β γ) : Prog β γ :=
  match p with
  | ret a => f a
  | read k => read fun x => (k x).bind f
  | wait k => wait fun b => (k b).bind f
  | write b k => write b (k.bind f)

instance : Monad (Prog β) where
  pure := ret
  bind := bind

@[simp] theorem ret_bind (a : α) (f : α → Prog β γ) : (ret a : Prog β α) >>= f = f a := rfl
@[simp] theorem read_bind (k : Option β → Prog β α) (f : α → Prog β γ) :
    read k >>= f = read fun x => k x >>= f := rfl
@[simp] theorem wait_bind (k : β → Prog β α) (f : α → Prog β γ) :
    wait k >>= f = wait fun b => k b >>= f := rfl
@[simp] theorem write_bind (k : Prog β α) (f : α → Prog β γ) :
    write b k >>= f = write b (k >>= f) := rfl

theorem bind_ret (p : Prog β α) : p.bind ret = p := by
  induction p with
  | ret a => rfl
  | read k ih => exact congrArg read (funext ih)
  | wait k ih => exact congrArg wait (funext ih)
  | write b k ih => exact congrArg (write b) ih

theorem bind_bind {δ : Type} (p : Prog β α) (f : α → Prog β γ) (g : γ → Prog β δ) :
    (p.bind f).bind g = p.bind fun a => (f a).bind g := by
  induction p with
  | ret a => rfl
  | read k ih => exact congrArg read (funext ih)
  | wait k ih => exact congrArg wait (funext ih)
  | write b k ih => exact congrArg (write b) ih

instance : LawfulMonad (Prog β) :=
  LawfulMonad.mk' (Prog β) bind_ret (fun _ _ => rfl) bind_bind

/-- Write all of a list. -/
def writes : List β → Prog β Unit
  | [] => ret ()
  | b :: bs => write b (writes bs)

/-- Read `n` symbols, or fewer when the time is over. -/
def reads : Nat → Prog β (List β)
  | 0 => ret []
  | n + 1 => read fun x =>
      match x with
      | some b => (reads n).bind fun bs => ret (b :: bs)
      | none => ret []

/-- The program in the case that the time of its first `m` readings is over. -/
def expire : Nat → Prog β α → Prog β α
  | 0, p => p
  | _ + 1, ret a => ret a
  | m + 1, read k => expire m (k none)
  | m + 1, wait k => wait fun b => expire (m + 1) (k b)
  | m + 1, write b k => write b (expire (m + 1) k)

/-! ## A program alone -/

/-- The result, the rest of the stream and what was written; `none` if the program waits forever. -/
def feed : Prog β α → List β → Option (α × List β × List β)
  | ret a, i => some (a, i, [])
  | read k, [] => (k none).feed []
  | read k, b :: i => (k (some b)).feed i
  | wait _, [] => none
  | wait k, b :: i => (k b).feed i
  | write b k, i => (k.feed i).map fun r => (r.1, r.2.1, b :: r.2.2)

theorem feed_bind (p : Prog β α) (f : α → Prog β γ) (i : List β) :
    (p >>= f).feed i = (p.feed i).bind fun r =>
      ((f r.1).feed r.2.1).map fun r' => (r'.1, r'.2.1, r.2.2 ++ r'.2.2) := by
  induction p generalizing i with
  | ret a =>
      simp [feed]
  | read k ih =>
      cases i with
      | nil => exact ih none []
      | cons b i => exact ih (some b) i
  | wait k ih =>
      cases i with
      | nil => rfl
      | cons b i => exact ih b i
  | write b k ih =>
      rw [write_bind, feed, ih, feed]
      cases k.feed i with
      | none => rfl
      | some r =>
          simp only [Option.bind_some, Option.map_some, Option.map_map]
          rfl

theorem feed_reads (i : List β) : (reads n).feed i = some (i.take n, i.drop n, []) := by
  induction n generalizing i with
  | zero => simp [reads, feed]
  | succ n ih =>
      cases i with
      | nil => rfl
      | cons b i =>
          change ((reads n) >>= fun bs => ret (b :: bs)).feed i = _
          rw [feed_bind, ih]
          rfl

theorem feed_writes (bs : List β) (k : Unit → Prog β α) (i : List β) :
    (writes bs >>= k).feed i = ((k ()).feed i).map fun r => (r.1, r.2.1, bs ++ r.2.2) := by
  induction bs with
  | nil =>
      change (k ()).feed i = _
      cases (k ()).feed i <;> rfl
  | cons b bs ih =>
      change (write b (writes bs >>= k)).feed i = _
      rw [feed, ih]
      cases (k ()).feed i <;> rfl

/-! ## A party -/

variable {ℓ ρ : Type} {body : ℓ → Prog β (ℓ ⊕ ρ)} {p p' p'' : Prog β (ℓ ⊕ ρ)}

/-- A party alone on a stream, with at most `n` programs. -/
def runParty (body : ℓ → Prog β (ℓ ⊕ ρ)) : Nat → Prog β (ℓ ⊕ ρ) → List β → Option (ρ × List β × List β)
  | 0, _, _ => none
  | n + 1, p, i =>
      (p.feed i).bind fun r =>
        match r.1 with
        | .inr a => some (a, r.2)
        | .inl l => (runParty body n (body l) r.2.1).map fun r' => (r'.1, r'.2.1, r.2.2 ++ r'.2.2)

theorem runParty_stop {a : ρ} (h : p.feed i = some (.inr a, i', o)) :
    runParty body (n + 1) p i = some (a, i', o) := by
  rw [runParty, h]
  rfl

theorem runParty_next {l : ℓ} (h : p.feed i = some (.inl l, i', o)) :
    runParty body (n + 1) p i =
      (runParty body n (body l) i').map fun r => (r.1, r.2.1, o ++ r.2.2) := by
  rw [runParty, h]
  rfl

/-- One step of a party that can read the stream, with the rest of the stream and what is written. -/
def next (body : ℓ → Prog β (ℓ ⊕ ρ)) : Prog β (ℓ ⊕ ρ) → List β →
    Option (Prog β (ℓ ⊕ ρ) × List β × List β)
  | ret (.inl l), i => some (body l, i, [])
  | ret (.inr _), _ => none
  | read k, b :: i => some (k (some b), i, [])
  | read _, [] => none
  | wait k, b :: i => some (k b, i, [])
  | wait _, [] => none
  | write b k, i => some (k, i, [b])

/-- What comes later does not change a step. -/
theorem next_append (h : p.next body i = some (p', i', o)) (r : List β) :
    p.next body (i ++ r) = some (p', i' ++ r, o) := by
  cases p with
  | ret a =>
      cases a with
      | inl l =>
          cases h
          rfl
      | inr a => cases h
  | read k =>
      cases i with
      | nil => cases h
      | cons b i =>
          cases h
          rfl
  | wait k =>
      cases i with
      | nil => cases h
      | cons b i =>
          cases h
          rfl
  | write b k =>
      cases h
      rfl

/-- A party reads all of `i`, writes `o` and goes on as `p'`. -/
inductive Goes (body : ℓ → Prog β (ℓ ⊕ ρ)) :
    Prog β (ℓ ⊕ ρ) → List β → Prog β (ℓ ⊕ ρ) → List β → Prop
  | refl (p : Prog β (ℓ ⊕ ρ)) : Goes body p [] p []
  | enter {l : ℓ} {p' : Prog β (ℓ ⊕ ρ)} {i o : List β} (h : Goes body (body l) i p' o) :
      Goes body (ret (.inl l)) i p' o
  | read {k : Option β → Prog β (ℓ ⊕ ρ)} {b : β} {p' : Prog β (ℓ ⊕ ρ)} {i o : List β}
      (h : Goes body (k (some b)) i p' o) : Goes body (read k) (b :: i) p' o
  | wait {k : β → Prog β (ℓ ⊕ ρ)} {b : β} {p' : Prog β (ℓ ⊕ ρ)} {i o : List β}
      (h : Goes body (k b) i p' o) : Goes body (wait k) (b :: i) p' o
  | write {k : Prog β (ℓ ⊕ ρ)} {b : β} {p' : Prog β (ℓ ⊕ ρ)} {i o : List β}
      (h : Goes body k i p' o) : Goes body (write b k) i p' (b :: o)

theorem Goes.trans (h : Goes body p i p' o) (h' : Goes body p' i' p'' o') :
    Goes body p (i ++ i') p'' (o ++ o') := by
  induction h with
  | refl p => exact h'
  | enter _ ih => exact .enter (ih h')
  | read _ ih => exact .read (ih h')
  | wait _ ih => exact .wait (ih h')
  | write _ ih => exact .write (ih h')

theorem goes_writes (bs : List β) {k : Unit → Prog β (ℓ ⊕ ρ)} (h : Goes body (k ()) i p' o) :
    Goes body (writes bs >>= k) i p' (bs ++ o) := by
  induction bs with
  | nil => exact h
  | cons b bs ih => exact .write ih

theorem goes_reads (bs : List β) {k : List β → Prog β (ℓ ⊕ ρ)} (h : Goes body (k bs) i p' o) :
    Goes body (reads bs.length >>= k) (bs ++ i) p' o := by
  induction bs generalizing k with
  | nil => exact h
  | cons b bs ih =>
      apply Goes.read
      change Goes body ((reads bs.length >>= fun bs => ret (b :: bs)) >>= k) (bs ++ i) p' o
      rw [bind_assoc]
      exact ih h

end Prog

/-! ## Two parties -/

open Trans Prog

/-- Two parties, and what each has written that the other has not read. -/
structure Net (β ℓ ρ ℓ' ρ' : Type) where
  left : Prog β (ℓ ⊕ ρ)
  right : Prog β (ℓ' ⊕ ρ')
  toRight : List β
  toLeft : List β

inductive Side
  | left | right
  deriving DecidableEq

variable {β ℓ ρ ℓ' ρ' : Type}

namespace Net

def step (body : ℓ → Prog β (ℓ ⊕ ρ)) (body' : ℓ' → Prog β (ℓ' ⊕ ρ')) (n : Net β ℓ ρ ℓ' ρ') :
    Side → Option (Net β ℓ ρ ℓ' ρ')
  | .left => (n.left.next body n.toLeft).map fun r =>
      { n with left := r.1, toLeft := r.2.1, toRight := n.toRight ++ r.2.2 }
  | .right => (n.right.next body' n.toRight).map fun r =>
      { n with right := r.1, toRight := r.2.1, toLeft := n.toLeft ++ r.2.2 }

variable {body : ℓ → Prog β (ℓ ⊕ ρ)} {body' : ℓ' → Prog β (ℓ' ⊕ ρ')} {n n' m : Net β ℓ ρ ℓ' ρ'}

/-- **The parties commute.** -/
theorem step_left_right {u v : Net β ℓ ρ ℓ' ρ'} (hl : n.step body body' .left = some u)
    (hr : n.step body body' .right = some v) :
    ∃ w, u.step body body' .right = some w ∧ v.step body body' .left = some w := by
  obtain ⟨⟨p, i, o⟩, hp, rfl⟩ := Option.map_eq_some_iff.mp hl
  obtain ⟨⟨q, i', o'⟩, hq, rfl⟩ := Option.map_eq_some_iff.mp hr
  refine ⟨⟨p, q, i' ++ o, i ++ o'⟩, ?_, ?_⟩
  · simp only [step, next_append hq, Option.map_some]
  · simp only [step, next_append hp, Option.map_some]

theorem commutes : Commutes (step body body') := by
  intro n a b u v hab ha hb
  cases a with
  | left =>
      cases b with
      | left => exact absurd rfl hab
      | right => exact step_left_right ha hb
  | right =>
      cases b with
      | left =>
          obtain ⟨w, hw, hw'⟩ := step_left_right hb ha
          exact ⟨w, hw', hw⟩
      | right => exact absurd rfl hab

/-- Some interleaving leads from one state to the other. -/
def Reaches (body : ℓ → Prog β (ℓ ⊕ ρ)) (body' : ℓ' → Prog β (ℓ' ⊕ ρ')) (n m : Net β ℓ ρ ℓ' ρ') : Prop :=
  ∃ as, runList (step body body') n as = some m

theorem Reaches.refl (n : Net β ℓ ρ ℓ' ρ') : Reaches body body' n n := ⟨[], rfl⟩

theorem Reaches.head {a : Side} (ha : n.step body body' a = some n') (h : Reaches body body' n' m) :
    Reaches body body' n m := by
  obtain ⟨as, has⟩ := h
  refine ⟨a :: as, ?_⟩
  rw [runList, ha]
  exact has

theorem Reaches.trans (h : Reaches body body' n n') (h' : Reaches body body' n' m) :
    Reaches body body' n m := by
  obtain ⟨as, has⟩ := h
  obtain ⟨bs, hbs⟩ := h'
  refine ⟨as ++ bs, ?_⟩
  rw [runList_append, has]
  exact hbs

/-- What the left party does alone, it does beside the right one. -/
theorem Reaches.left {p p' : Prog β (ℓ ⊕ ρ)} {i o : List β} (h : Goes body p i p' o)
    (q : Prog β (ℓ' ⊕ ρ')) (c r : List β) :
    Reaches body body' ⟨p, q, c, i ++ r⟩ ⟨p', q, c ++ o, r⟩ := by
  induction h generalizing c with
  | refl p =>
      rw [List.append_nil]
      exact .refl _
  | enter _ ih => exact .head (a := .left) (by simp [step, next]) (ih c)
  | read _ ih => exact .head (a := .left) (by simp [step, next]) (ih c)
  | wait _ ih => exact .head (a := .left) (by simp [step, next]) (ih c)
  | write _ ih =>
      rw [List.append_cons]
      exact .head (a := .left) (by simp [step, next]) (ih _)

/-- What the right party does alone, it does beside the left one. -/
theorem Reaches.right {q q' : Prog β (ℓ' ⊕ ρ')} {i o : List β} (h : Goes body' q i q' o)
    (p : Prog β (ℓ ⊕ ρ)) (c r : List β) :
    Reaches body body' ⟨p, q, i ++ r, c⟩ ⟨p, q', r, c ++ o⟩ := by
  induction h generalizing c with
  | refl p =>
      rw [List.append_nil]
      exact .refl _
  | enter _ ih => exact .head (a := .right) (by simp [step, next]) (ih c)
  | read _ ih => exact .head (a := .right) (by simp [step, next]) (ih c)
  | wait _ ih => exact .head (a := .right) (by simp [step, next]) (ih c)
  | write _ ih =>
      rw [List.append_cons]
      exact .head (a := .right) (by simp [step, next]) (ih _)

/-- One party writes what the other one reads, and waits for an answer. -/
theorem Reaches.exchange {p p' : Prog β (ℓ ⊕ ρ)} {q q' : Prog β (ℓ' ⊕ ρ')} {i o i' : List β}
    (hp : Goes body p i p' o) (hq : Goes body' q o q' i') :
    Reaches body body' ⟨p, q, [], i⟩ ⟨p', q', [], i'⟩ := by
  have hleft := @Reaches.left _ _ _ _ _ _ body' _ _ _ _ hp q [] []
  have hright := @Reaches.right _ _ _ _ _ body _ _ _ _ _ hq p' [] []
  rw [List.append_nil] at hleft hright
  exact hleft.trans hright

/-- A party that has a result keeps it. -/
theorem run_left_done {a : ρ} {as : List Side} (h : runList (step body body') n as = some n')
    (hn : n.left = .ret (.inr a)) : n'.left = .ret (.inr a) := by
  induction as generalizing n with
  | nil =>
      obtain rfl := Option.some.inj h
      exact hn
  | cons x as ih =>
      obtain ⟨v, hv, hrest⟩ := Option.bind_eq_some_iff.mp h
      apply ih hrest
      cases x with
      | left =>
          rw [step, hn] at hv
          cases hv
      | right =>
          obtain ⟨r, -, rfl⟩ := Option.map_eq_some_iff.mp hv
          exact hn

theorem run_right_done {a : ρ'} {as : List Side} (h : runList (step body body') n as = some n')
    (hn : n.right = .ret (.inr a)) : n'.right = .ret (.inr a) := by
  induction as generalizing n with
  | nil =>
      obtain rfl := Option.some.inj h
      exact hn
  | cons x as ih =>
      obtain ⟨v, hv, hrest⟩ := Option.bind_eq_some_iff.mp h
      apply ih hrest
      cases x with
      | left =>
          obtain ⟨r, -, rfl⟩ := Option.map_eq_some_iff.mp hv
          exact hn
      | right =>
          rw [step, hn] at hv
          cases hv

end Net

end Channel
