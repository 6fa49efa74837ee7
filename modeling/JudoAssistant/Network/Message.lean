import JudoAssistant.Lib.Bytes
import JudoAssistant.Lib.Effect
import JudoAssistant.StoreManager.Model

/-!
# Messages

`NetworkMessage` (`src/core/network/network_message.cpp`) has a header and a body.  The body is serialised
and compressed; the header says the type, the size of the body before its compression and its size.  Memory
and the compression are parameters, and so is how a value is serialised.
-/

namespace JudoAssistant

open Effect

/-- The exceptions of the standard library and of the archives: an allocation that is too large, an archive that
ends early or holds no such value, and a compression that fails. -/
inductive StdException where
  | allocation
  | archive
  | runtimeError
  deriving DecidableEq, Repr

/-- What the machine and `ZSTD` do.  An allocation of more than `memory` bytes throws, and `none` is an error code. -/
structure Platform where
  memory : ℕ
  compress : Bytes → Option Bytes
  decompress : Bytes → ℕ → Option Bytes

/-- Allocate a number of bytes. -/
def Platform.allocate (platform : Platform) (size : ℕ) : Except StdException Unit :=
  if size ≤ platform.memory then .ok () else .error .allocation

theorem Platform.allocate_ok {platform : Platform} {size : ℕ} {u : Unit} :
    platform.allocate size = .ok u ↔ size ≤ platform.memory := by
  unfold Platform.allocate
  split
  · next hle => exact iff_of_true rfl hle
  · next hlt => exact iff_of_false (fun h => (nomatch h)) hlt

/-- `cereal` for a type.  `load` is told whether numbers have to be converted, and gives the value and the bytes that
follow. -/
class Serializable (α : Type) where
  save : α → Bytes
  load : Bool → Bytes → Except StdException (α × Bytes)

instance {α β : Type} [Serializable α] [Serializable β] : Serializable (α × β) where
  save x := Serializable.save x.1 ++ Serializable.save x.2
  load convert bytes := do
    let (a, bytes) ← Serializable.load convert bytes
    let (b, bytes) ← Serializable.load convert bytes
    return ((a, b), bytes)

/-! ### Portable archives -/

/-- A portable archive begins with a flag for little endian. -/
def PortableArchive.loadFlag : Bytes → Except StdException (Bool × Bytes)
  | [] => .error .archive
  | b :: bytes => .ok (decide (b ≠ 1), bytes)

/-- `loadBinary` for a number of `w` bytes.  The bytes are reversed where the archive is not little endian. -/
def PortableArchive.loadNumber (convert : Bool) (w : ℕ) (bytes : Bytes) : Except StdException (ℕ × Bytes) :=
  if bytes.length < w then .error .archive
  else .ok (Bytes.toNat (if convert then (bytes.take w).reverse else bytes.take w), bytes.drop w)

/-- The archive of a value. -/
def PortableArchive.save {α : Type} [Serializable α] (a : α) : Bytes := 1 :: Serializable.save a

/-- Read a value from an archive. -/
def PortableArchive.load {α : Type} [Serializable α] (bytes : Bytes) : Except StdException (α × Bytes) := do
  let (convert, bytes) ← PortableArchive.loadFlag bytes
  Serializable.load convert bytes

/-- `NetworkMessage::Type` -/
inductive NetworkMessageType where
  | handshake
  | sync
  | syncAck
  | action
  | actionAck
  | undo
  | undoAck
  | quit
  | clockSync
  | clockSyncRequest
  | requestWebToken
  | requestWebTokenResponse
  | validateWebToken
  | validateWebTokenResponse
  | registerWebName
  | registerWebNameResponse
  | checkWebName
  | checkWebNameResponse
  deriving DecidableEq, Repr

/-- The underlying value of a type. -/
def NetworkMessageType.value : NetworkMessageType → UInt32
  | handshake => 0
  | sync => 1
  | syncAck => 2
  | action => 3
  | actionAck => 4
  | undo => 5
  | undoAck => 6
  | quit => 7
  | clockSync => 8
  | clockSyncRequest => 9
  | requestWebToken => 10
  | requestWebTokenResponse => 11
  | validateWebToken => 12
  | validateWebTokenResponse => 13
  | registerWebName => 14
  | registerWebNameResponse => 15
  | checkWebName => 16
  | checkWebNameResponse => 17

/-- `NetworkMessage`.  The type is the underlying value, which need not be that of an enumerator. -/
structure NetworkMessage where
  type : UInt32
  uncompressedSize : UInt64
  header : Bytes
  body : Bytes
  deriving DecidableEq, Repr

namespace NetworkMessage

/-- `HEADER_LENGTH` -/
def headerLength : ℕ := 21

/-- `NetworkMessage::encodeHeader` -/
def encodeHeader (type : UInt32) (uncompressedSize : UInt64) (bodyLength : ℕ) : Bytes :=
  1 :: (Bytes.ofNat 4 type.toNat ++ (Bytes.ofNat 8 uncompressedSize.toNat ++ Bytes.ofNat 8 bodyLength))

/-- A message with its encoded header. -/
def encoded (type : NetworkMessageType) (uncompressedSize : UInt64) (body : Bytes) : NetworkMessage where
  type := type.value
  uncompressedSize := uncompressedSize
  header := encodeHeader type.value uncompressedSize body.length
  body := body

/-- The archive of the header: the type, the uncompressed size and the length of the body. -/
def loadHeader (header : Bytes) : Except StdException (UInt32 × UInt64 × ℕ) := do
  let (convert, bytes) ← PortableArchive.loadFlag header
  let (type, bytes) ← PortableArchive.loadNumber convert 4 bytes
  let (uncompressedSize, bytes) ← PortableArchive.loadNumber convert 8 bytes
  let (bodyLength, _) ← PortableArchive.loadNumber convert 8 bytes
  return (UInt32.ofNat type, UInt64.ofNat uncompressedSize, bodyLength)

variable (platform : Platform)

/-- `NetworkMessage::decodeHeader`, or none where it returns false.  The body gets its size. -/
def decodeHeader (header : Bytes) : Except StdException (Option NetworkMessage) :=
  tryCatch (do
    let (type, uncompressedSize, bodyLength) ← loadHeader header
    platform.allocate bodyLength
    return some {
      type := type
      uncompressedSize := uncompressedSize
      header := header
      body := List.replicate bodyLength 0 }) fun _ => return none

/-- `serializeAndCompress` -/
def serializeAndCompress {α : Type} [Serializable α] (a : α) : Except StdException (Bytes × UInt64) :=
  let uncompressed := PortableArchive.save a
  match platform.compress uncompressed with
  | none => .error .runtimeError
  | some compressed => .ok (compressed, UInt64.ofNat uncompressed.length)

/-- `deserializeAndCompress`, or none where it returns false. -/
def deserializeAndCompress (α : Type) [Serializable α] (uncompressedSize : ℕ) (compressed : Bytes) :
    Except StdException (Option α) := do
  platform.allocate uncompressedSize
  match platform.decompress compressed uncompressedSize with
  | none => return none
  | some uncompressed =>
    tryCatch (do
      let (a, _) ← PortableArchive.load (Bytes.resize uncompressed uncompressedSize)
      return some a) fun _ => return none

/-- The part that the encodings with a body share. -/
def encode {α : Type} [Serializable α] (type : NetworkMessageType) (a : α) : Except StdException NetworkMessage := do
  let (body, uncompressedSize) ← serializeAndCompress platform a
  return encoded type uncompressedSize body

/-- The part that the decodings share. -/
def decode (α : Type) [Serializable α] (m : NetworkMessage) : Except StdException (Option α) :=
  deserializeAndCompress platform α m.uncompressedSize.toNat m.body

/-! ### The header -/

variable {platform} {type : UInt32} {uncompressedSize : UInt64} {bodyLength : ℕ}

@[simp] theorem length_encodeHeader : (encodeHeader type uncompressedSize bodyLength).length = headerLength := by
  simp [encodeHeader, headerLength]

theorem loadNumber_ofNat {w n : ℕ} (hn : n < 256 ^ w) (bytes : Bytes) :
    PortableArchive.loadNumber false w (Bytes.ofNat w n ++ bytes) = .ok (n, bytes) := by
  have hw : (Bytes.ofNat w n).length = w := Bytes.length_ofNat w n
  unfold PortableArchive.loadNumber
  rw [if_neg (by rw [List.length_append, hw]; omega), if_neg Bool.false_ne_true, List.take_left' hw,
    List.drop_left' hw, Bytes.toNat_ofNat hn]

theorem loadHeader_encodeHeader (hlength : bodyLength < 2 ^ 64) :
    loadHeader (encodeHeader type uncompressedSize bodyLength) = .ok (type, uncompressedSize, bodyLength) := by
  have htype : type.toNat < 256 ^ 4 := type.toNat_lt
  have hsize : uncompressedSize.toNat < 256 ^ 8 := uncompressedSize.toNat_lt
  have hbody : PortableArchive.loadNumber false 8 (Bytes.ofNat 8 bodyLength) = .ok (bodyLength, []) := by
    have hread := loadNumber_ofNat (w := 8) hlength []
    rwa [List.append_nil] at hread
  have hflag : PortableArchive.loadFlag (encodeHeader type uncompressedSize bodyLength) =
      .ok (false, Bytes.ofNat 4 type.toNat ++ (Bytes.ofNat 8 uncompressedSize.toNat ++ Bytes.ofNat 8 bodyLength)) := rfl
  refine except_bind_ok.2 ⟨_, hflag, except_bind_ok.2 ⟨_, loadNumber_ofNat htype _, except_bind_ok.2 ⟨_,
    loadNumber_ofNat hsize _, except_bind_ok.2 ⟨_, hbody, ?_⟩⟩⟩⟩
  rw [except_pure_ok, UInt32.ofNat_toNat, UInt64.ofNat_toNat]

/-- A header is read as it was written, if there is memory for the body. -/
theorem decodeHeader_encodeHeader (hlength : bodyLength < 2 ^ 64) (hmemory : bodyLength ≤ platform.memory) :
    decodeHeader platform (encodeHeader type uncompressedSize bodyLength) = .ok (some {
      type := type
      uncompressedSize := uncompressedSize
      header := encodeHeader type uncompressedSize bodyLength
      body := List.replicate bodyLength 0 }) := by
  have hallocate : platform.allocate bodyLength = .ok () := Platform.allocate_ok.2 hmemory
  unfold decodeHeader
  rw [loadHeader_encodeHeader hlength]
  show tryCatch (platform.allocate bodyLength >>= _) _ = _
  rw [hallocate]
  rfl

theorem exists_tryCatch {α : Type} (x : Except StdException α) (a : α) :
    ∃ r, tryCatch x (fun _ => pure a) = .ok r := by
  cases x with
  | error e => exact ⟨a, rfl⟩
  | ok r => exact ⟨r, rfl⟩

/-- No header makes `decodeHeader` throw. -/
theorem exists_decodeHeader (platform : Platform) (header : Bytes) : ∃ r, decodeHeader platform header = .ok r :=
  exists_tryCatch _ none

/-! ### The body -/

/-- The decoding returns where there is memory for the size that the header says. -/
theorem exists_decode_iff {α : Type} [Serializable α] {m : NetworkMessage} :
    (∃ r, decode platform α m = .ok r) ↔ m.uncompressedSize.toNat ≤ platform.memory := by
  constructor
  · rintro ⟨r, h⟩
    obtain ⟨u, hu, -⟩ := except_bind_ok.1 h
    exact Platform.allocate_ok.1 hu
  · intro hle
    have hrest : ∃ r, (match platform.decompress m.body m.uncompressedSize.toNat with
        | none => return none
        | some uncompressed => tryCatch (do
            let (a, _) ← PortableArchive.load (Bytes.resize uncompressed m.uncompressedSize.toNat)
            return some a) fun _ => return none : Except StdException (Option α)) = .ok r := by
      cases platform.decompress m.body m.uncompressedSize.toNat with
      | none => exact ⟨none, rfl⟩
      | some uncompressed => exact exists_tryCatch _ none
    obtain ⟨r, hr⟩ := hrest
    exact ⟨r, except_bind_ok.2 ⟨(), Platform.allocate_ok.2 hle, hr⟩⟩

variable (platform)

/-! ### The messages without a body -/

def encodeSyncAck : NetworkMessage := encoded .syncAck 0 []

def encodeQuit : NetworkMessage := encoded .quit 0 []

def encodeClockSyncRequest : NetworkMessage := encoded .clockSyncRequest 0 []

/-! ### The messages of the parties -/

section

variable {Version Tournament Action Time : Type} [Serializable Version] [Serializable Tournament]
  [Serializable ClientActionId] [Serializable (Option Action)] [Serializable (List (ClientActionId × Option Action))]
  [Serializable Time]

def encodeHandshake (version : Version) : Except StdException NetworkMessage := encode platform .handshake version

def decodeHandshake (m : NetworkMessage) : Except StdException (Option Version) := decode platform Version m

def encodeSync (tournament : Tournament) (actionStack : List (ClientActionId × Option Action)) :
    Except StdException NetworkMessage := encode platform .sync (tournament, actionStack)

def decodeSync (m : NetworkMessage) :
    Except StdException (Option (Tournament × List (ClientActionId × Option Action))) :=
  decode platform (Tournament × List (ClientActionId × Option Action)) m

/-- An action is a pointer, which may be null. -/
def encodeAction (actionId : ClientActionId) (action : Option Action) : Except StdException NetworkMessage :=
  encode platform .action (actionId, action)

def decodeAction (m : NetworkMessage) : Except StdException (Option (ClientActionId × Option Action)) :=
  decode platform (ClientActionId × Option Action) m

def encodeActionAck (actionId : ClientActionId) : Except StdException NetworkMessage :=
  encode platform .actionAck actionId

def decodeActionAck (m : NetworkMessage) : Except StdException (Option ClientActionId) :=
  decode platform ClientActionId m

def encodeUndo (actionId : ClientActionId) : Except StdException NetworkMessage := encode platform .undo actionId

def decodeUndo (m : NetworkMessage) : Except StdException (Option ClientActionId) := decode platform ClientActionId m

def encodeUndoAck (actionId : ClientActionId) : Except StdException NetworkMessage := encode platform .undoAck actionId

def decodeUndoAck (m : NetworkMessage) : Except StdException (Option ClientActionId) :=
  decode platform ClientActionId m

def encodeClockSync (time : Time) : Except StdException NetworkMessage := encode platform .clockSync time

def decodeClockSync (m : NetworkMessage) : Except StdException (Option Time) := decode platform Time m

end

/-! ### The messages of the web server -/

section

variable {Token TournamentId TokenRequestResponse TokenValidationResponse NameRegistrationResponse
    NameCheckResponse : Type}
  [Serializable String] [Serializable Token] [Serializable (Option Token)] [Serializable TournamentId]
  [Serializable TokenRequestResponse] [Serializable TokenValidationResponse] [Serializable NameRegistrationResponse]
  [Serializable NameCheckResponse]

def encodeRequestWebToken (email password : String) : Except StdException NetworkMessage :=
  encode platform .requestWebToken (email, password)

def decodeRequestWebToken (m : NetworkMessage) : Except StdException (Option (String × String)) :=
  decode platform (String × String) m

def encodeRequestWebTokenResponse (response : TokenRequestResponse) (token : Option Token) :
    Except StdException NetworkMessage := encode platform .requestWebTokenResponse (response, token)

def decodeRequestWebTokenResponse (m : NetworkMessage) :
    Except StdException (Option (TokenRequestResponse × Option Token)) :=
  decode platform (TokenRequestResponse × Option Token) m

def encodeValidateWebToken (email : String) (token : Token) : Except StdException NetworkMessage :=
  encode platform .validateWebToken (email, token)

def decodeValidateWebToken (m : NetworkMessage) : Except StdException (Option (String × Token)) :=
  decode platform (String × Token) m

def encodeValidateWebTokenResponse (response : TokenValidationResponse) : Except StdException NetworkMessage :=
  encode platform .validateWebTokenResponse response

def decodeValidateWebTokenResponse (m : NetworkMessage) : Except StdException (Option TokenValidationResponse) :=
  decode platform TokenValidationResponse m

def encodeRegisterWebName (id : TournamentId) (webName : String) : Except StdException NetworkMessage :=
  encode platform .registerWebName (id, webName)

def decodeRegisterWebName (m : NetworkMessage) : Except StdException (Option (TournamentId × String)) :=
  decode platform (TournamentId × String) m

def encodeRegisterWebNameResponse (response : NameRegistrationResponse) : Except StdException NetworkMessage :=
  encode platform .registerWebNameResponse response

def decodeRegisterWebNameResponse (m : NetworkMessage) : Except StdException (Option NameRegistrationResponse) :=
  decode platform NameRegistrationResponse m

def encodeCheckWebName (id : TournamentId) (webName : String) : Except StdException NetworkMessage :=
  encode platform .checkWebName (id, webName)

def decodeCheckWebName (m : NetworkMessage) : Except StdException (Option (TournamentId × String)) :=
  decode platform (TournamentId × String) m

def encodeCheckWebNameResponse (response : NameCheckResponse) : Except StdException NetworkMessage :=
  encode platform .checkWebNameResponse response

def decodeCheckWebNameResponse (m : NetworkMessage) : Except StdException (Option NameCheckResponse) :=
  decode platform NameCheckResponse m

end

end NetworkMessage

end JudoAssistant
