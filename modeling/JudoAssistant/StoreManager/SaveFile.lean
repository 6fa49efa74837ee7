import JudoAssistant.Network.Message
import JudoAssistant.StoreManager.Master

/-!
# Save files and messages that cannot be read

`MasterStoreManager::read` takes two sizes from the header of a file, allocates that much and decompresses
and loads the tournament.  Like the decoding of a message it allocates before it looks at the content, and
an allocation that fails is not caught there.
-/

namespace JudoAssistant

open Effect

variable {T : Type} {K : ActionModel T}

/-- `FILE_HEADER_SIZE` -/
def fileHeaderSize : ℕ := 17

/-- The archive of the header of a file: the sizes of the compressed and of the uncompressed tournament. -/
def loadSizes (header : Bytes) : Except StdException (ℕ × ℕ) := do
  let (convert, bytes) ← PortableArchive.loadFlag header
  let (compressedSize, bytes) ← PortableArchive.loadNumber convert 8 bytes
  let (uncompressedSize, _) ← PortableArchive.loadNumber convert 8 bytes
  return (compressedSize, uncompressedSize)

namespace MasterStoreManager

variable (platform : Platform) [Serializable T]

/-- The decompression and the archive of the tournament. -/
def loadTournament (compressed : Bytes) (uncompressedSize : ℕ) : Option T :=
  match platform.decompress compressed uncompressedSize with
  | none => none
  | some uncompressed =>
    match PortableArchive.load (Bytes.resize uncompressed uncompressedSize) with
    | .error _ => none
    | .ok (tournament, _) => some tournament

/-- `MasterStoreManager::read` for the content of a file, with the value that it returns.  Where the file ends early,
the buffers keep their zeros. -/
def readFile (m : MasterStoreManager K) (file : Bytes) : Except StdException (MasterStoreManager K × Bool) :=
  match loadSizes (Bytes.resize file fileHeaderSize) with
  | .error _ => .ok (m, false)
  | .ok (compressedSize, uncompressedSize) => do
    platform.allocate compressedSize
    platform.allocate uncompressedSize
    match loadTournament platform (Bytes.resize (file.drop fileHeaderSize) compressedSize) uncompressedSize with
    | none => return (m, false)
    | some tournament => return (m.read (some tournament), true)

/-- The content of a save file: sizes, and what decompresses to the archive of a tournament. -/
def WellFormed (file : Bytes) (tournament : T) : Prop :=
  ∃ compressedSize uncompressedSize uncompressed rest,
    loadSizes (Bytes.resize file fileHeaderSize) = .ok (compressedSize, uncompressedSize) ∧
    platform.decompress (Bytes.resize (file.drop fileHeaderSize) compressedSize) uncompressedSize =
      some uncompressed ∧
    PortableArchive.load (Bytes.resize uncompressed uncompressedSize) = .ok (tournament, rest)

/-- There is memory for the sizes that the header says. -/
def SizesFit (file : Bytes) : Prop :=
  ∀ compressedSize uncompressedSize, loadSizes (Bytes.resize file fileHeaderSize) = .ok
    (compressedSize, uncompressedSize) →
    compressedSize ≤ platform.memory ∧ uncompressedSize ≤ platform.memory

variable {platform} {m : MasterStoreManager K} {file : Bytes}

theorem loadTournament_eq_some {compressed : Bytes} {uncompressedSize : ℕ} {tournament : T}
    (h : loadTournament platform compressed uncompressedSize = some tournament) :
    ∃ uncompressed rest, platform.decompress compressed uncompressedSize = some uncompressed ∧
      PortableArchive.load (Bytes.resize uncompressed uncompressedSize) = .ok (tournament, rest) := by
  unfold loadTournament at h
  split at h
  · cases h
  · next uncompressed hdata =>
    split at h
    · cases h
    · next rest hload =>
      cases h
      exact ⟨uncompressed, rest, hdata, hload⟩

/-- Reading returns where there is memory for the sizes, and then a file without a tournament changes nothing. -/
theorem readFile_iff :
    (∃ m' success, m.readFile platform file = .ok (m', success) ∧
        ((¬∃ tournament : T, WellFormed platform file tournament) → success = false ∧ m' = m)) ↔
      SizesFit platform file := by
  unfold readFile
  cases hsizes : loadSizes (Bytes.resize file fileHeaderSize) with
  | error e =>
    refine iff_of_true ⟨m, false, rfl, fun _ => ⟨rfl, rfl⟩⟩ fun _ _ h => ?_
    rw [hsizes] at h
    cases h
  | ok sizes =>
    obtain ⟨compressedSize, uncompressedSize⟩ := sizes
    simp only
    constructor
    · rintro ⟨m', success, hok, -⟩ c u hcu
      rw [hsizes] at hcu
      cases hcu
      obtain ⟨_, hcompressed, hok⟩ := except_bind_ok.1 hok
      obtain ⟨_, huncompressed, -⟩ := except_bind_ok.1 hok
      exact ⟨Platform.allocate_ok.1 hcompressed, Platform.allocate_ok.1 huncompressed⟩
    · intro hfit
      obtain ⟨hcompressed, huncompressed⟩ := hfit _ _ hsizes
      rw [(Platform.allocate_ok (u := ())).2 hcompressed, (Platform.allocate_ok (u := ())).2 huncompressed]
      cases hload : (loadTournament platform (Bytes.resize (file.drop fileHeaderSize) compressedSize) uncompressedSize :
        Option T) with
      | none => exact ⟨m, false, rfl, fun _ => ⟨rfl, rfl⟩⟩
      | some tournament =>
        refine ⟨_, true, rfl, fun hnone => (hnone ?_).elim⟩
        obtain ⟨uncompressed, rest, hdata, hload⟩ := loadTournament_eq_some hload
        exact ⟨tournament, _, _, uncompressed, rest, hsizes, hdata, hload⟩

/-- `decodeHeader` returns for every header.  The other decodings return if and only if there is memory for the
uncompressed size of the message, and `read` returns, without a change where the file holds no tournament, if and only
if there is memory for the sizes of the file. -/
theorem decoding_iff (platform : Platform) (T : Type) [Serializable T] (K : ActionModel T) :
    (∀ header : Bytes, ∃ r, NetworkMessage.decodeHeader platform header = .ok r) ∧
    (∀ (α : Type) [Serializable α] (message : NetworkMessage),
      (∃ r, NetworkMessage.decode platform α message = .ok r) ↔
        message.uncompressedSize.toNat ≤ platform.memory) ∧
    ∀ (m : MasterStoreManager K) (file : Bytes),
      (∃ m' success, m.readFile platform file = .ok (m', success) ∧
        ((¬∃ tournament : T, WellFormed platform file tournament) → success = false ∧ m' = m)) ↔
      SizesFit platform file :=
  ⟨NetworkMessage.exists_decodeHeader platform, fun _ _ _ => NetworkMessage.exists_decode_iff,
    fun _ _ => readFile_iff⟩

/-- The largest allocation that a string allows. -/
def maxSizePlatform : Platform where
  memory := 2 ^ 63 - 1
  compress := some
  decompress bytes size := if bytes.length ≤ size then some bytes else none

/-- A header without a body that asks for all memory. -/
def hugeHeader : Bytes := NetworkMessage.encodeHeader NetworkMessageType.action.value (UInt64.ofNat (2 ^ 64 - 1)) 0

/-- A file that has only a header, which asks for all memory. -/
def hugeFile : Bytes := 1 :: List.replicate 16 255

/-- The decoding of a message throws, and so does reading a file. -/
theorem not_decoding_huge :
    (∃ message, NetworkMessage.decodeHeader maxSizePlatform hugeHeader = .ok (some message) ∧
      ∀ (α : Type) [Serializable α], NetworkMessage.decode maxSizePlatform α message = .error .allocation) ∧
    ∀ (T : Type) [Serializable T] (K : ActionModel T) (m : MasterStoreManager K),
      m.readFile maxSizePlatform hugeFile = .error .allocation := by
  refine ⟨⟨_, NetworkMessage.decodeHeader_encodeHeader (by decide) (by decide), fun α _ => rfl⟩,
    fun T _ K m => rfl⟩

end MasterStoreManager

end JudoAssistant
