import RTThread.Dfs.Ramfs

set_option autoImplicit false

/-! # Seeking in a ramfs file

`dfs_ramfs_lseek` stores the offset and then returns it; `dfs_file_lseek` takes a negative result for an
error. A negative offset is both: the call fails, and the position is in front of the file. From there a
read computes its length by a subtraction that leaves the file.
-/

namespace RTThread.Dfs

open Trans (Reachable)

variable {file : FileData} {fd fd' : RamfsFd} {offset : Int} {count : Nat}

/-- The length that `dfs_ramfs_read` copies. -/
def readLength (fd : RamfsFd) (count : Nat) : Nat :=
  if count < u32 (fd.size - fd.pos) then count else u32 (fd.size - fd.pos)

/-- What is asked of `dfs_file_lseek`: a position in the file, or an error and the position as it was. -/
def LseekOk (fd : RamfsFd) (offset : Int) : Prop :=
  let r := dfsFileLseek fd offset
  (0 ≤ r.1 ∧ r.1 = r.2.pos ∧ 0 ≤ r.2.pos ∧ r.2.pos ≤ r.2.size) ∨ (r.1 < 0 ∧ r.2.pos = fd.pos)

/-- What is asked of `dfs_ramfs_read`: the length is that of bytes of the file. -/
structure ReadOk (file : FileData) (fd : RamfsFd) (count : Nat) : Prop where
  length_le : (readLength fd count : Int) ≤ fd.size - fd.pos
  start : 0 ≤ fd.pos
  copied : (ramfsRead file fd count).isSome

/-- The calls on a descriptor of a file that nobody else changes. -/
inductive SeekCall
  | lseek (offset : Int)
  | read (count : Nat)

def SeekCall.exec (file : FileData) (fd : RamfsFd) : SeekCall → Option RamfsFd
  | .lseek offset => some (dfsFileLseek fd offset).2
  | .read count => (ramfsRead file fd count).map Prod.snd

/-- A descriptor of the file, with a position in it. -/
structure Within (file : FileData) (fd : RamfsFd) : Prop where
  size_eq : fd.size = file.data.length
  size_lt : fd.size < 4294967296
  pos_nonneg : 0 ≤ fd.pos
  pos_le : fd.pos ≤ fd.size
  pos_lt : fd.pos < 2147483648

/-- An offset is not negative, or the size is so large that it is refused as one; and a read ends at a
position that an `off_t` can hold. -/
def SeekCall.Careful (fd : RamfsFd) : SeekCall → Prop
  | .lseek offset => 0 ≤ offset ∨ i32 fd.size < offset
  | .read count => fd.pos + min (count : Int) (fd.size - fd.pos) < 2147483648

instance SeekCall.decidableCareful (fd : RamfsFd) : (c : SeekCall) → Decidable (c.Careful fd)
  | .lseek _ => inferInstanceAs (Decidable (_ ∨ _))
  | .read _ => inferInstanceAs (Decidable (_ < _))

/-! ## One call -/

/-- A size as an `off_t`. -/
theorem i32_size (h : fd.size < 4294967296) : i32 fd.size ≤ fd.size ∧ i32 fd.size < 2147483648 := by
  unfold i32
  rw [Int.bmod_def]
  split_ifs <;> omega

/-- The position and the result of a seek. -/
theorem dfsFileLseek_eq (fd : RamfsFd) (offset : Int) : dfsFileLseek fd offset =
    if offset ≤ i32 fd.size then (offset, { fd with pos := offset }) else (-5, fd) := by
  unfold dfsFileLseek ramfsLseek
  split_ifs with hle
  · -- The position is stored again where the result is not negative.
    dsimp only
    split_ifs <;> rfl
  · rfl

namespace Within

/-- **Seeking**, exactly where it is what it is to be. -/
theorem lseekOk_iff (h : Within file fd) : LseekOk fd offset ↔ 0 ≤ offset ∨ i32 fd.size < offset := by
  have hsize := i32_size h.size_lt
  have hpos := h.pos_nonneg
  unfold LseekOk
  rw [dfsFileLseek_eq]
  by_cases hle : offset ≤ i32 fd.size
  · rw [if_pos hle]
    dsimp only
    omega
  · rw [if_neg hle]
    have hneg : (-5 : Int) < 0 := by decide
    exact iff_of_true (Or.inr ⟨hneg, rfl⟩) (Or.inr (Int.not_le.mp hle))

theorem lseek (h : Within file fd) (hc : 0 ≤ offset ∨ i32 fd.size < offset) :
    Within file (dfsFileLseek fd offset).2 := by
  have hsize := i32_size h.size_lt
  rw [dfsFileLseek_eq]
  split_ifs with hle
  · have hpos : 0 ≤ offset := by omega
    exact ⟨h.size_eq, h.size_lt, hpos, hle.trans hsize.1, hle.trans_lt hsize.2⟩
  · exact h

theorem readLength_eq (h : Within file fd) (count : Nat) :
    (readLength fd count : Int) = min (count : Int) (fd.size - fd.pos) := by
  have h₁ := h.size_lt
  have h₂ := h.pos_nonneg
  have h₃ := h.pos_le
  have hrest : (u32 (fd.size - fd.pos) : Int) = fd.size - fd.pos := by
    unfold u32
    omega
  unfold readLength
  split_ifs <;> omega

/-- **Reading** from a position in the file. -/
theorem read_eq (h : Within file fd) (count : Nat) : ∃ buf, ramfsRead file fd count =
    some (buf, { fd with pos := i32 (fd.pos + readLength fd count) }) := by
  have hlen := h.readLength_eq count
  have h₁ := h.size_eq
  have h₂ := h.pos_nonneg
  have h₃ := h.pos_le
  have hload : ∃ buf, loadBytes file.data fd.pos (readLength fd count) = some buf := by
    unfold loadBytes
    split_ifs with h₀ hin
    · exact ⟨_, rfl⟩
    · exact ⟨_, rfl⟩
    · exact absurd ⟨h₂, by omega⟩ hin
  obtain ⟨buf, hload⟩ := hload
  refine ⟨buf, ?_⟩
  unfold ramfsRead
  show (loadBytes file.data fd.pos (readLength fd count) >>= fun buf =>
    some (buf, { fd with pos := i32 (fd.pos + readLength fd count) })) = _
  rw [hload]
  rfl

theorem readOk (h : Within file fd) (count : Nat) : ReadOk file fd count := by
  obtain ⟨buf, hread⟩ := h.read_eq count
  refine ⟨?_, h.pos_nonneg, ?_⟩
  · rw [h.readLength_eq]
    exact min_le_right _ _
  · rw [hread]
    rfl

theorem step {c : SeekCall} (h : Within file fd) (hc : c.Careful fd) (he : c.exec file fd = some fd') :
    Within file fd' := by
  cases c with
  | lseek offset =>
      have hfd : (dfsFileLseek fd offset).2 = fd' := Option.some.inj he
      rw [← hfd]
      exact h.lseek hc
  | read count =>
      obtain ⟨buf, hread⟩ := h.read_eq count
      have hlen := h.readLength_eq count
      have hend : fd.pos + min (count : Int) (fd.size - fd.pos) < 2147483648 := hc
      have h₁ := h.pos_nonneg
      have h₂ := h.pos_le
      have hpos : i32 (fd.pos + readLength fd count) = fd.pos + readLength fd count := by
        unfold i32
        rw [Int.bmod_def]
        split_ifs <;> omega
      simp only [SeekCall.exec, hread, Option.map_some, Option.some.injEq] at he
      rw [← he, hpos]
      exact ⟨h.size_eq, h.size_lt, by dsimp only; omega, by dsimp only; omega, by dsimp only; omega⟩

end Within

/-- **Positions stay in the file**, in runs of careful calls; a seek is what it is to be exactly where it is
careful, and every read copies bytes of the file. -/
theorem ramfs_positions
    (hr : Reachable (Within file) (fun fd c fd' => SeekCall.exec file fd c = some fd' ∧ c.Careful fd) fd) :
    (0 ≤ fd.pos ∧ fd.pos ≤ fd.size) ∧
      (∀ offset, LseekOk fd offset ↔ SeekCall.Careful fd (.lseek offset)) ∧
        ∀ count, ReadOk file fd count := by
  have hin : Within file fd :=
    hr.invariant (fun _ h₀ => h₀) fun _ _ _ _ h hc => h.step hc.2 hc.1
  exact ⟨⟨hin.pos_nonneg, hin.pos_le⟩, fun _ => hin.lseekOk_iff, hin.readOk⟩

/-- A file of four bytes. -/
def fourByteFile : FileData := ⟨[1, 2, 3, 4], 4⟩

theorem within_fourByteFile : Within fourByteFile ⟨4, 0⟩ :=
  ⟨rfl, by decide, by decide, by decide, by decide⟩

/-- To the third byte, a read behind the end, and a seek behind it. -/
theorem ramfs_positions_end : ∃ fd, fd.pos = 4 ∧ ReadOk fourByteFile fd 10 := by
  have hrun : (Trans.runList (Trans.stepIf (SeekCall.exec fourByteFile) fun fd c => c.Careful fd) ⟨4, 0⟩
      [.lseek 2, .read 10, .lseek 5]).map (fun fd => decide (fd.pos = 4)) = some true := by
    decide +kernel
  obtain ⟨fd, hd, hdec⟩ := Option.map_eq_some_iff.mp hrun
  have hr : Reachable (Within fourByteFile) _ fd :=
    Trans.reachable_of_runList_stepIf within_fourByteFile hd
  exact ⟨fd, of_decide_eq_true hdec, (ramfs_positions hr).2.2 10⟩

/-- Seeking to `-1` fails, and the position is `-1`. -/
theorem ramfs_lseek_negative : ¬ ∀ (file : FileData) (fd : RamfsFd),
    Reachable (Within file) (fun fd c fd' => SeekCall.exec file fd c = some fd') fd →
      (∀ offset, -2147483648 ≤ offset → offset < 2147483648 → LseekOk fd offset) ∧
        ∀ count, ReadOk file fd count := by
  intro hclaim
  have hok := (hclaim fourByteFile ⟨4, 0⟩ (.init within_fourByteFile)).1 (-1) (by decide) (by decide)
  exact absurd (within_fourByteFile.lseekOk_iff.mp hok) (by decide)

end RTThread.Dfs
