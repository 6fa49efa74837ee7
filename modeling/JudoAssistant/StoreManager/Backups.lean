import JudoAssistant.Lib.Shift

/-!
# The backups of a save file

Before `MasterStoreManager::write` writes a file it moves the file that is there to the first backup, that to
the second one and so on (`src/ui/store_managers/master_store_manager.cpp`).  The recursion ends at the first
number without a file or at the number of backups to keep, and the files are moved from there down.
-/

namespace JudoAssistant

open Shift

/-- What is stored under the names of a file system. -/
abbrev FileSystem (α : Type) : Type := String → Option α

variable {α : Type}

/-- `boost::filesystem::rename`, which replaces the target and throws for the pairs of `fails`. -/
def FileSystem.rename (fails : String → String → Bool) (files : FileSystem α) (name newName : String) :
    Option (FileSystem α) :=
  if fails name newName then none else some (move files name newName)

theorem UInt32.toNat_sub_succ_lt {n count : UInt32} (h : n ≠ count) :
    (count - (n + 1)).toNat < (count - n).toNat := by
  have hne : n.toNat ≠ count.toNat := fun heq => h (UInt32.toNat_inj.1 heq)
  have hn := n.toNat_lt
  have hcount := count.toNat_lt
  have hone : (1 : UInt32).toNat = 1 := rfl
  rw [UInt32.toNat_sub, UInt32.toNat_sub, UInt32.toNat_add, hone]
  omega

namespace MasterStoreManager

variable (fails : String → String → Bool)

/-- `MasterStoreManager::moveBackup`, with the value that it returns. -/
def moveBackup (files : FileSystem α) (base : String) (n : UInt32) (extension : String) (backupCount : UInt32) :
    FileSystem α × Bool :=
  if n = backupCount then (files, true)
  else
    let name := if n = 0 then base ++ extension else base ++ "_backup-" ++ toString n ++ extension
    if (files name).isNone then (files, true)
    else
      let newName := base ++ "_backup-" ++ toString (n + 1) ++ extension
      -- the value of the recursive call is not looked at
      let files := (moveBackup files base (n + 1) extension backupCount).1
      match files.rename fails name newName with
      | none => (files, false)
      | some files => (files, true)
termination_by (backupCount - n).toNat
decreasing_by exact UInt32.toNat_sub_succ_lt ‹_›

/-- The name of a backup; the file itself has the number zero. -/
def backupName (base extension : String) (i : ℕ) : String :=
  if i = 0 then base ++ extension else base ++ "_backup-" ++ toString i ++ extension

theorem toString_injective {i j : ℕ} (h : toString i = toString j) : i = j := by
  have hdigits : Nat.toDigits 10 i = Nat.toDigits 10 j := by
    have hlist := congrArg String.toList h
    simpa only [Nat.toString_eq_repr, Nat.repr, String.toList_ofList] using hlist
  rw [← @Nat.ofDigitChars_ten_toDigits i, hdigits, Nat.ofDigitChars_ten_toDigits]

theorem injective_backupName (base extension : String) : Function.Injective (backupName base extension) := by
  have hfile : ∀ i : ℕ, base ++ extension ≠ base ++ "_backup-" ++ toString i ++ extension := by
    intro i h
    have hlength := congrArg String.length h
    simp only [String.length_append] at hlength
    have hbackup : "_backup-".length = 8 := rfl
    omega
  intro i j h
  unfold backupName at h
  split_ifs at h with hi hj hj
  · rw [hi, hj]
  · exact absurd h (hfile j)
  · exact absurd h.symm (hfile i)
  · rw [String.append_left_inj, String.append_right_inj] at h
    exact toString_injective h

/-- The files with the numbers below `r` exist, and no more of them unless `r` is the count. -/
structure ContiguousRun (files : ℕ → Option α) (count r : ℕ) : Prop where
  le : r ≤ count
  exist : ∀ i, i < r → (files i).isSome
  gap : r < count → files r = none

variable {fails : String → String → Bool} {files : FileSystem α} {base extension : String} {backupCount n : UInt32}

/-- One call moves the files of the run that begins at its number. -/
theorem moveBackup_spec (hrename : ∀ name newName, fails name newName = false) (k : ℕ)
    (hk : n.toNat + k = backupCount.toNat) :
    ∃ r, n.toNat ≤ r ∧ r ≤ backupCount.toNat ∧
      (∀ i, n.toNat ≤ i → i < r → (files (backupName base extension i)).isSome) ∧
      (r < backupCount.toNat → files (backupName base extension r) = none) ∧
      (moveBackup fails files base n extension backupCount).2 = true ∧
      Shifted (backupName base extension) n.toNat r files (moveBackup fails files base n extension backupCount).1 := by
  have hstop : ∀ {r : ℕ} {i : ℕ}, r ≤ i → ¬i < r := fun h => Nat.not_lt.2 h
  induction k generalizing n with
  | zero =>
    have hn : n = backupCount := UInt32.toNat_inj.1 hk
    rw [moveBackup, if_pos hn]
    refine ⟨n.toNat, le_rfl, hk.le, fun i hle hlt => absurd hlt (hstop hle), fun hlt => ?_, rfl, .refl _ _ _⟩
    exact absurd hlt (hk ▸ Nat.lt_irrefl _)
  | succ k ih =>
    have hn : n ≠ backupCount := fun heq => by rw [heq] at hk; omega
    have hsucc : (n + 1).toNat = n.toNat + 1 := by
      have hcount := backupCount.toNat_lt
      have hone : (1 : UInt32).toNat = 1 := rfl
      rw [UInt32.toNat_add, hone]
      omega
    have hname : (if n = 0 then base ++ extension else base ++ "_backup-" ++ toString n ++ extension) =
        backupName base extension n.toNat := by
      have hzero : n = 0 ↔ n.toNat = 0 := UInt32.toNat_inj.symm
      unfold backupName
      simp only [hzero]
      rfl
    have hnewName : base ++ "_backup-" ++ toString (n + 1) ++ extension = backupName base extension (n.toNat + 1) := by
      rw [← hsucc, backupName, if_neg (by omega)]
      rfl
    rw [moveBackup, if_neg hn]
    simp only [hname, hnewName]
    split
    · next hgap =>
      refine ⟨n.toNat, le_rfl, by omega, fun i hle hlt => absurd hlt (hstop hle), fun _ => ?_, rfl, .refl _ _ _⟩
      exact Option.isNone_iff_eq_none.1 hgap
    · next hfile =>
      obtain ⟨r, hr, hcount, hexist, hgap, -, hshifted⟩ := @ih (n + 1) (by omega)
      rw [hsucc] at hr hexist hshifted
      rw [FileSystem.rename, hrename, if_neg Bool.false_ne_true]
      refine ⟨r, n.toNat.le_succ.trans hr, hcount, fun i hle hlt => ?_, hgap, rfl,
        hshifted.move (injective_backupName base extension) hr⟩
      obtain rfl | hlt' := hle.eq_or_lt
      · exact Option.isSome_iff_ne_none.2 fun hnone => hfile (Option.isNone_iff_eq_none.2 hnone)
      · exact hexist i hlt' hlt

/-- The backups after the files with the numbers below `r` were moved. -/
structure Rotated (name : ℕ → String) (count r : ℕ) (files files' : FileSystem α) : Prop where
  moved : ∀ i < r, files' (name (i + 1)) = files (name i)
  vacated : 0 < r → files' (name 0) = none
  untouched : ∀ x, (0 < r → ∀ i ≤ r, x ≠ name i) → files' x = files x
  kept : ∀ x, x ≠ name count → (files x).isSome →
    files' x = files x ∨ ∃ i < r, x = name i ∧ files' (name (i + 1)) = files x

/-- When all renames succeed, the files of the longest run from the file itself on are moved to the next number, every
other file is left as it is, and only the content of the last backup can be lost. -/
theorem moveBackup_rotates (fails : String → String → Bool) (files : FileSystem α) (base extension : String)
    (backupCount : UInt32) (hrename : ∀ name newName, fails name newName = false) :
    ∃ r, ContiguousRun (fun i => files (backupName base extension i)) backupCount.toNat r ∧
      (moveBackup fails files base 0 extension backupCount).2 = true ∧
      Rotated (backupName base extension) backupCount.toNat r files
        (moveBackup fails files base 0 extension backupCount).1 := by
  obtain ⟨r, -, hcount, hexist, hgap, htrue, hshifted⟩ :=
    @moveBackup_spec α fails files base extension backupCount 0
    hrename backupCount.toNat (Nat.zero_add _)
  refine ⟨r, ⟨hcount, fun i => hexist i (Nat.zero_le i), hgap⟩, htrue, fun i => hshifted.moved i (Nat.zero_le i),
    hshifted.vacated, fun x hx => hshifted.untouched x fun hr i _ => hx hr i, fun x hx hsome => ?_⟩
  refine (hshifted.kept fun _ heq => ?_).imp_right fun ⟨i, _, hi⟩ => ⟨i, hi⟩
  obtain rfl | hlt := hcount.eq_or_lt
  · exact hx heq
  · rw [heq, hgap hlt] at hsome
    cases hsome

/-- A file and one backup, with a second backup to be made. -/
def oneBackup : FileSystem ℕ := fun name =>
  if name = "games.judo" then some 3 else if name = "games_backup-1.judo" then some 2 else none

theorem moveBackup_rotates_oneBackup : ∃ r,
    ContiguousRun (fun i => (oneBackup (backupName "games" ".judo" i))) 2 r ∧
    (moveBackup (fun _ _ => false) oneBackup "games" 0 ".judo" 2).2 = true ∧
    Rotated (backupName "games" ".judo") 2 r oneBackup
      (moveBackup (fun _ _ => false) oneBackup "games" 0 ".judo" 2).1 :=
  moveBackup_rotates (fun _ _ => false) oneBackup "games" ".judo" 2 fun _ _ => rfl

end MasterStoreManager

end JudoAssistant
