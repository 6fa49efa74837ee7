import Mathlib.Data.List.DropRight
import JudoAssistant.StoreManager.Backups
import JudoAssistant.StoreManager.SaveFile

/-!
# What the backups hold

`MasterStoreManager::write` moves the backups, opens the file anew, which empties it, and then writes a
header with two sizes and the compressed archive of the tournament.  `read` is its inverse, and over a
run of writes the backup with the number `k` holds the tournament that was written `k` writes before the
last one.
-/

namespace JudoAssistant

open Effect

/-- What the machine does when a file is saved.  Opening a file for writing can fail, and a stream does not throw where
a file takes fewer bytes than are written to it. -/
structure SavePlatform extends Platform where
  compressBound : ℕ → ℕ
  renameFails : String → String → Bool
  opens : String → Bool
  stored : String → Bytes → Bytes

/-- `boost::filesystem::extension` -/
def extension (path : String) : String :=
  let filename := path.toList.rtakeWhile (· ≠ '/')
  if filename = ['.'] ∨ filename = ['.', '.'] ∨ '.' ∉ filename then ""
  else String.ofList ('.' :: filename.rtakeWhile (· ≠ '.'))

/-- The path without its extension. -/
def withoutExtension (path : String) : String :=
  String.ofList (path.toList.take (path.length - (extension path).length))

namespace MasterStoreManager

variable {T : Type} {K : ActionModel T} [Serializable T]

/-- The archive of the header of a file. -/
def saveSizes (compressedSize uncompressedSize : ℕ) : Bytes :=
  1 :: (Bytes.ofNat 8 compressedSize ++ Bytes.ofNat 8 uncompressedSize)

/-- The content of the file that is written for what the tournament compresses to. -/
def fileContent (tournament : T) (compressed : Bytes) : Bytes :=
  saveSizes compressed.length (PortableArchive.save tournament).length ++ compressed

/-- `MasterStoreManager::write`: the files after it and the value that it returns. -/
def writeFile (platform : SavePlatform) (tournament : T) (files : FileSystem Bytes) (path : String)
    (backupCount : UInt32) : Except StdException (FileSystem Bytes × Bool) :=
  let files := (moveBackup platform.renameFails files (withoutExtension path) 0 (extension path) backupCount).1
  if platform.opens path = false then return (files, false)
  else do
    let files := Function.update files path (some [])
    let uncompressed := PortableArchive.save tournament
    -- what the serialisation throws is caught
    if platform.memory < uncompressed.length then return (files, false)
    else do
      platform.allocate (platform.compressBound uncompressed.length)
      match platform.compress uncompressed with
      | none => return (files, false)
      | some compressed =>
        return (Function.update files path (some (platform.stored path (fileContent tournament compressed))), true)

/-- The master with the files, the call and the flag of `writeFile`. -/
def save (platform : SavePlatform) (m : MasterStoreManager K) (files : FileSystem Bytes) (path : String)
    (backupCount : UInt32) : Except StdException (MasterStoreManager K × FileSystem Bytes × Bool) := do
  let (files, success) ← writeFile platform m.manager.tournament files path backupCount
  return (m.write success, files, success)

/-! ### The names -/

theorem extension_suffix (path : String) : (extension path).toList <:+ path.toList := by
  unfold extension
  simp only
  split_ifs with h
  · exact List.nil_suffix
  · have hmem : '.' ∈ path.toList.rtakeWhile (· ≠ '/') := by
      by_contra hnone
      exact h (.inr (.inr hnone))
    rw [String.toList_ofList]
    refine List.IsSuffix.trans ?_ (List.rtakeWhile_suffix (· ≠ '/') path.toList)
    generalize path.toList.rtakeWhile (· ≠ '/') = filename at hmem ⊢
    -- the character before the longest suffix without a dot is a dot
    induction filename using List.reverseRecOn with
    | nil => cases hmem
    | append_singleton cs c ih =>
      by_cases hc : c = '.'
      · rw [List.rtakeWhile_concat, if_neg (by simpa using hc), hc]
        exact List.suffix_append cs ['.']
      · rw [List.rtakeWhile_concat, if_pos (by simpa using hc), ← List.cons_append]
        have hcs : '.' ∈ cs := by
          rw [List.mem_append, List.mem_singleton] at hmem
          exact hmem.resolve_right fun heq => hc heq.symm
        obtain ⟨front, hfront⟩ := ih hcs
        exact ⟨front, by rw [← List.append_assoc, hfront]⟩

theorem withoutExtension_append_extension (path : String) : withoutExtension path ++ extension path = path := by
  obtain ⟨front, hfront⟩ := extension_suffix path
  have hlength : path.length - (extension path).length = front.length := by
    rw [← String.length_toList, ← String.length_toList, ← hfront, List.length_append]
    omega
  have htake : path.toList.take front.length = front := by rw [← hfront, List.take_left]
  rw [withoutExtension, hlength, htake, ← String.toList_inj, String.toList_append, String.toList_ofList, hfront]

/-- The name of a backup of a file; the file itself has the number zero. -/
def backupPath (path : String) (i : ℕ) : String := backupName (withoutExtension path) (extension path) i

theorem backupPath_zero (path : String) : backupPath path 0 = path := withoutExtension_append_extension path

theorem injective_backupPath (path : String) : Function.Injective (backupPath path) := injective_backupName _ _

/-! ### One file -/

/-- The compression and the archives lose nothing, what is written is stored, and files can be renamed. -/
structure Keeps (platform : SavePlatform) (T : Type) [Serializable T] : Prop where
  decompress : ∀ {bytes compressed : Bytes}, platform.compress bytes = some compressed →
    platform.decompress compressed bytes.length = some bytes
  compressed_le : ∀ {bytes compressed : Bytes}, platform.compress bytes = some compressed →
    compressed.length ≤ platform.compressBound bytes.length
  stored : ∀ path bytes, platform.stored path bytes = bytes
  rename : ∀ name newName, platform.renameFails name newName = false
  load : ∀ tournament : T, ∃ rest, Serializable.load false (Serializable.save tournament) = .ok (tournament, rest)
  memory : platform.memory < 2 ^ 64

variable {platform : SavePlatform} {files files' : FileSystem Bytes} {path : String} {backupCount : UInt32}
  {tournament : T} {success : Bool}

theorem loadSizes_saveSizes {compressedSize uncompressedSize : ℕ} (hc : compressedSize < 2 ^ 64)
    (hu : uncompressedSize < 2 ^ 64) :
    loadSizes (saveSizes compressedSize uncompressedSize) = .ok (compressedSize, uncompressedSize) := by
  have hlast : PortableArchive.loadNumber false 8 (Bytes.ofNat 8 uncompressedSize) = .ok (uncompressedSize, []) := by
    have hread := NetworkMessage.loadNumber_ofNat (w := 8) hu []
    rwa [List.append_nil] at hread
  have hflag : PortableArchive.loadFlag (saveSizes compressedSize uncompressedSize) =
      .ok (false, Bytes.ofNat 8 compressedSize ++ Bytes.ofNat 8 uncompressedSize) := rfl
  exact except_bind_ok.2 ⟨_, hflag, except_bind_ok.2 ⟨_, NetworkMessage.loadNumber_ofNat hc _,
    except_bind_ok.2 ⟨_, hlast, rfl⟩⟩⟩

theorem resize_append {front back : Bytes} {n : ℕ} (h : front.length = n) :
    Bytes.resize (front ++ back) n = front := by
  have hpadding : n - (front ++ back).length = 0 := by rw [List.length_append]; omega
  rw [Bytes.resize, List.take_left' h, hpadding, List.replicate_zero, List.append_nil]

theorem resize_length (bytes : Bytes) : Bytes.resize bytes bytes.length = bytes := by
  rw [Bytes.resize, List.take_length, Nat.sub_self, List.replicate_zero, List.append_nil]

/-- A tournament is read as it was written. -/
theorem readFile_fileContent (hkeeps : Keeps platform T) (m : MasterStoreManager K) {compressed : Bytes}
    (hcompress : platform.compress (PortableArchive.save tournament) = some compressed)
    (hbound : platform.compressBound (PortableArchive.save tournament).length ≤ platform.memory)
    (hu : (PortableArchive.save tournament).length ≤ platform.memory) :
    m.readFile platform.toPlatform (fileContent tournament compressed) = .ok (m.read (some tournament), true) := by
  have hc : compressed.length ≤ platform.memory := (hkeeps.compressed_le hcompress).trans hbound
  have hheader : (saveSizes compressed.length (PortableArchive.save tournament).length).length = fileHeaderSize := by
    rw [saveSizes, List.length_cons, List.length_append, Bytes.length_ofNat, Bytes.length_ofNat]
    rfl
  have hsizes := loadSizes_saveSizes (hc.trans_lt hkeeps.memory) (hu.trans_lt hkeeps.memory)
  obtain ⟨rest, hrest⟩ := hkeeps.load tournament
  have hload : loadTournament platform.toPlatform compressed (PortableArchive.save tournament).length =
      some tournament := by
    have harchive : PortableArchive.load (PortableArchive.save tournament) = .ok (tournament, rest) := hrest
    rw [loadTournament, hkeeps.decompress hcompress]
    simp only
    rw [resize_length, harchive]
  unfold readFile fileContent
  rw [resize_append hheader, hsizes, List.drop_left' hheader]
  simp only
  rw [resize_length, (Platform.allocate_ok (u := ())).2 hc, (Platform.allocate_ok (u := ())).2 hu, hload]
  rfl

/-- The content of a file that the tournament was written to. -/
def Saved (platform : SavePlatform) (tournament : T) (content : Option Bytes) : Prop :=
  ∃ compressed, platform.compress (PortableArchive.save tournament) = some compressed ∧
    platform.compressBound (PortableArchive.save tournament).length ≤ platform.memory ∧
    (PortableArchive.save tournament).length ≤ platform.memory ∧ content = some (fileContent tournament compressed)

/-- A write that succeeds puts the tournament into the file after the backups were moved. -/
theorem writeFile_ok (hkeeps : Keeps platform T)
    (h : writeFile platform tournament files path backupCount = .ok (files', true)) :
    Saved platform tournament (files' path) ∧ ∀ name, name ≠ path → files' name =
      (moveBackup platform.renameFails files (withoutExtension path) 0 (extension path) backupCount).1 name := by
  unfold writeFile at h
  simp only at h
  split_ifs at h with hopens hsize
  · cases h
  · cases h
  · obtain ⟨u, hmemory, h⟩ := except_bind_ok.1 h
    cases hcompress : platform.compress (PortableArchive.save tournament) with
    | none =>
      rw [hcompress] at h
      cases h
    | some compressed =>
      rw [hcompress] at h
      cases h
      rw [hkeeps.stored, Function.update_idem]
      refine ⟨⟨compressed, hcompress, Platform.allocate_ok.1 hmemory, Nat.le_of_not_lt hsize, ?_⟩,
        fun name hname => ?_⟩
      · exact Function.update_self _ _ _
      · exact Function.update_of_ne hname _ _

/-! ### A run of writes -/

/-- The tournaments that were written, the last one first, with the numbers of backups to keep: every backup that no
write since has pushed out holds its tournament. -/
def Recalls (platform : SavePlatform) (path : String) (files : FileSystem Bytes) (saves : List (UInt32 × T)) : Prop :=
  ∀ k (hk : k < saves.length), (∀ j (hj : j < k), k ≤ j + (saves[j].1).toNat) →
    Saved platform saves[k].2 (files (backupPath path k))

/-- Every other file is as it was before the writes. -/
def SameElsewhere (path : String) (files files' : FileSystem Bytes) : Prop :=
  ∀ name, (∀ i, name ≠ backupPath path i) → files' name = files name

/-- One more write. -/
theorem Recalls.write {saves : List (UInt32 × T)} (hkeeps : Keeps platform T) (h : Recalls platform path files saves)
    (hwrite : writeFile platform tournament files path backupCount = .ok (files', true)) :
    Recalls platform path files' ((backupCount, tournament) :: saves) ∧ SameElsewhere path files files' := by
  obtain ⟨hsaved, hrest⟩ := writeFile_ok hkeeps hwrite
  obtain ⟨r, hrun, -, hrotated⟩ := moveBackup_rotates platform.renameFails files (withoutExtension path)
    (extension path) backupCount hkeeps.rename
  refine ⟨fun k hk hcounts => ?_, fun name hname => ?_⟩
  · cases k with
    | zero => rwa [backupPath_zero]
    | succ k =>
      have hk' : k < saves.length := Nat.lt_of_succ_lt_succ hk
      have hcount : k + 1 ≤ backupCount.toNat := (hcounts 0 k.succ_pos).trans_eq (Nat.zero_add _)
      -- the files up to the number `k` are there, so that they are all moved
      have hexist : ∀ i (hi : i < saves.length), i ≤ k →
          Saved platform saves[i].2 (files (backupPath path i)) := by
        intro i hi hik
        refine h i hi fun j hj => ?_
        have hsince := hcounts (j + 1) (Nat.succ_lt_succ (hj.trans_le hik))
        rw [List.getElem_cons_succ] at hsince
        omega
      have hr : k < r := by
        by_contra hle
        have hgap := hrun.gap (by omega)
        obtain ⟨compressed, -, -, -, hsome⟩ :=
          hexist r ((Nat.le_of_not_lt hle).trans_lt hk') (Nat.le_of_not_lt hle)
        exact absurd (hgap.symm.trans hsome) (by rintro ⟨⟩)
      have hname : backupPath path (k + 1) ≠ path := fun heq =>
        k.succ_ne_zero (injective_backupPath path (heq.trans (backupPath_zero path).symm))
      rw [hrest _ hname, List.getElem_cons_succ]
      exact (hrotated.moved k hr).symm ▸ hexist k hk' le_rfl
  · have hfile : name ≠ path := fun heq => hname 0 (heq.trans (backupPath_zero path).symm)
    rw [hrest name hfile]
    exact hrotated.untouched name fun _ i _ => hname i

/-- A master with the files of its machine.  `saves` is no field of the source: the tournaments that were written. -/
structure SaveSession (K : ActionModel T) where
  master : MasterStoreManager K
  files : FileSystem Bytes
  saves : List (UInt32 × T)

namespace SaveSession

/-- A call of the user or of the network interface, or a write of the file. -/
inductive Event (K : ActionModel T) where
  | call (call : MasterCall K)
  | save (backupCount : UInt32)

/-- The call is a write, which is an event of its own. -/
def isWrite : MasterCall K → Bool
  | .write _ => true
  | _ => false

/-- One event.  A write that fails ends the run. -/
def step (platform : SavePlatform) (path : String) (s : SaveSession K) : Event K → Option (SaveSession K)
  | .call call => if isWrite call then none else (s.master.step call).map fun master => { s with master := master }
  | .save backupCount =>
    match s.master.save platform s.files path backupCount with
    | .ok (master, files, true) => some ⟨master, files, (backupCount, s.master.manager.tournament) :: s.saves⟩
    | _ => none

theorem step_call {s s' : SaveSession K} {call : MasterCall K} (h : s.step platform path (.call call) = some s') :
    s'.files = s.files ∧ s'.saves = s.saves := by
  simp only [step] at h
  split_ifs at h
  obtain ⟨master, -, rfl⟩ := Option.map_eq_some_iff.1 h
  exact ⟨rfl, rfl⟩

theorem step_save {s s' : SaveSession K} (h : s.step platform path (.save backupCount) = some s') :
    writeFile platform s.master.manager.tournament s.files path backupCount = .ok (s'.files, true) ∧
      s'.saves = (backupCount, s.master.manager.tournament) :: s.saves := by
  cases hwrite : writeFile platform s.master.manager.tournament s.files path backupCount with
  | error e =>
    simp only [step, MasterStoreManager.save, hwrite, bind, Except.bind] at h
    cases h
  | ok written =>
    obtain ⟨files', success⟩ := written
    simp only [step, MasterStoreManager.save, hwrite, bind, Except.bind, pure, Except.pure] at h
    cases success with
    | false => cases h
    | true =>
      cases h
      exact ⟨rfl, rfl⟩

/-- In every run of a master that writes its tournament again and again to one file: the backup with the number `k`
holds the tournament of the write that was `k` writes before the last, if every write since kept enough backups, and it
is read as it was written.  Files with other names are left alone. -/
theorem run_recalls (platform : SavePlatform) (hkeeps : Keeps platform T) (path : String) (id : ℕ) (tournament : T)
    (files : FileSystem Bytes) (events : List (Event K)) (s : SaveSession K)
    (hrun : Runs.run (step platform path) events ⟨init K id tournament, files, []⟩ = some s) :
    (∀ k (hk : k < s.saves.length), (∀ j (hj : j < k), k ≤ j + (s.saves[j].1).toNat) →
      ∃ content, s.files (backupPath path k) = some content ∧ ∀ m : MasterStoreManager K,
        m.readFile platform.toPlatform content = .ok (m.read (some s.saves[k].2), true)) ∧
    SameElsewhere path files s.files := by
  have h : Recalls platform path s.files s.saves ∧ SameElsewhere path files s.files := by
    refine @Runs.run_inv _ _ (step platform path) (fun _ _ => True)
      (fun s => Recalls platform path s.files s.saves ∧ SameElsewhere path files s.files) ?_ events _ s ?_
      (Runs.guarded_of_forall (fun _ _ _ => trivial) _) hrun
    · rintro s e s' ⟨hrecalls, hsame⟩ - hstep
      cases e with
      | call call =>
        obtain ⟨hfiles, hsaves⟩ := step_call hstep
        rw [hfiles, hsaves]
        exact ⟨hrecalls, hsame⟩
      | save backupCount =>
        obtain ⟨hwrite, hsaves⟩ := step_save hstep
        obtain ⟨hrecalls', hsame'⟩ := hrecalls.write hkeeps hwrite
        rw [hsaves]
        exact ⟨hrecalls', fun name hname => (hsame' name hname).trans (hsame name hname)⟩
    · exact ⟨fun k hk => absurd hk k.not_lt_zero, fun _ _ => rfl⟩
  refine ⟨fun k hk hcounts => ?_, h.2⟩
  obtain ⟨compressed, hcompress, hbound, hsize, hcontent⟩ := h.1 k hk hcounts
  exact ⟨_, hcontent, fun m => readFile_fileContent hkeeps m hcompress hbound hsize⟩

end SaveSession

/-! ### An example -/

instance : Serializable UInt8 where
  save b := [b]
  load
    | _, [] => .error .archive
    | _, b :: bytes => .ok (b, bytes)

/-- Actions that replace a byte. -/
def byteActions : ActionModel UInt8 where
  Param := UInt8
  Memo := UInt8
  init := 0
  redo p _ t := (t, p)
  undo _ old t := (t, old)
  tournamentId _ := 0

/-- A machine of a kilobyte that does not compress. -/
def plainSavePlatform : SavePlatform where
  memory := 1024
  compress := some
  decompress bytes size := if bytes.length ≤ size then some bytes else none
  compressBound size := size
  renameFails _ _ := false
  opens _ := true
  stored _ bytes := bytes

theorem keeps_plainSavePlatform : Keeps plainSavePlatform UInt8 where
  decompress h := by
    cases h
    exact if_pos le_rfl
  compressed_le h := by
    cases h
    exact le_rfl
  stored _ _ := rfl
  rename _ _ := rfl
  load tournament := ⟨[], rfl⟩
  memory := by decide

/-- Three tournaments that are written with two backups. -/
def threeSaves : List (SaveSession.Event byteActions) :=
  [.save 2, .call (.dispatch [0] (5 : UInt8)), .save 2, .call (.dispatch [1] (9 : UInt8)), .save 2]

theorem SaveSession.run_recalls_threeSaves : ∃ s, Runs.run (step plainSavePlatform "games.judo") threeSaves
      ⟨init byteActions 1 (3 : UInt8), fun _ => none, []⟩ = some s ∧ s.saves = [(2, 9), (2, 5), (2, 3)] ∧
    ∃ content, s.files (backupPath "games.judo" 2) = some content ∧ ∀ m : MasterStoreManager byteActions,
      m.readFile plainSavePlatform.toPlatform content = .ok (m.read (some (3 : UInt8)), true) := by
  refine ⟨_, rfl, rfl, ?_⟩
  exact (run_recalls plainSavePlatform keeps_plainSavePlatform "games.judo" 1 (3 : UInt8) (fun _ => none) threeSaves _
    rfl).1 2 (by decide) (by decide)

end MasterStoreManager

end JudoAssistant
