import JudoAssistant.Network.Message

/-!
# Messages on a byte stream

`NetworkConnection` (`src/core/network/network_connection.cpp`) writes the header of a message and then its
body, and reads the header and then as many bytes as the header says.  The stream delivers the bytes in
order and in chunks of any size; a read ends when its buffer is full.
-/

namespace JudoAssistant

open Effect

namespace NetworkConnection

/-- The buffers that `asyncWrite` hands to the socket.  There is no write for an empty body. -/
def asyncWrite (m : NetworkMessage) : List Bytes := m.header :: if m.body.length = 0 then [] else [m.body]

/-- What the messages are on the stream. -/
def written (messages : List NetworkMessage) : Bytes := (messages.flatMap asyncWrite).flatten

/-- The read that waits for bytes, with those that are there. -/
inductive Reading where
  | readHeader (buffer : Bytes)
  | readBody (m : NetworkMessage) (buffer : Bytes)
  | failed
  deriving DecidableEq, Repr

/-- The reading end, with the messages that have been read. -/
structure Reader where
  reading : Reading := .readHeader []
  messages : List NetworkMessage := []
  deriving DecidableEq, Repr

/-- The handler of `asyncRead` is called, and the next message is read. -/
def Reader.complete (r : Reader) (m : NetworkMessage) : Reader := ⟨.readHeader [], r.messages ++ [m]⟩

/-- `NetworkConnection::readBody`.  A read of no bytes ends at once. -/
def Reader.readBody (r : Reader) (m : NetworkMessage) : Reader :=
  if m.body.length = 0 then r.complete m else { r with reading := .readBody m [] }

variable (platform : Platform)

/-- The next byte of the stream. -/
def Reader.receiveByte (r : Reader) (b : UInt8) : Reader :=
  match r.reading with
  | .readHeader buffer =>
    if (buffer ++ [b]).length < NetworkMessage.headerLength then { r with reading := .readHeader (buffer ++ [b]) }
    else match NetworkMessage.decodeHeader platform (buffer ++ [b]) with
      | .ok (some m) => r.readBody m
      | _ => { r with reading := .failed }
  | .readBody m buffer =>
    if (buffer ++ [b]).length < m.body.length then { r with reading := .readBody m (buffer ++ [b]) }
    else r.complete { m with body := buffer ++ [b] }
  | .failed => r

/-- The next chunk of the stream. -/
def Reader.receive (r : Reader) (chunk : Bytes) : Reader := chunk.foldl (Reader.receiveByte platform) r

/-- The chunks of the stream in order. -/
def Reader.receiveAll (chunks : List Bytes) : Reader := chunks.foldl (Reader.receive platform) {}

variable {platform} {r : Reader} {m : NetworkMessage} {bytes : Bytes}

theorem receive_append (bytes bytes' : Bytes) :
    r.receive platform (bytes ++ bytes') = (r.receive platform bytes).receive platform bytes' := List.foldl_append

theorem receive_singleton (r : Reader) (b : UInt8) : r.receive platform [b] = r.receiveByte platform b := rfl

/-- The chunks do not matter. -/
theorem receiveAll_eq (chunks : List Bytes) :
    Reader.receiveAll platform chunks = ({} : Reader).receive platform chunks.flatten := by
  unfold Reader.receiveAll Reader.receive
  rw [List.foldl_flatten]

/-- A read that does not end with the bytes keeps them in its buffer. -/
theorem receive_readHeader {buffer : Bytes} (hreading : r.reading = .readHeader buffer)
    (hlength : (buffer ++ bytes).length < NetworkMessage.headerLength) :
    r.receive platform bytes = { r with reading := .readHeader (buffer ++ bytes) } := by
  induction bytes generalizing r buffer with
  | nil =>
    rw [List.append_nil, ← hreading]
    rfl
  | cons b bytes ih =>
    rw [List.append_cons] at hlength ⊢
    have hshort : (buffer ++ [b]).length < NetworkMessage.headerLength := by
      rw [List.length_append] at hlength
      omega
    have hbyte : r.receiveByte platform b = { r with reading := .readHeader (buffer ++ [b]) } := by
      simp only [Reader.receiveByte, hreading, if_pos hshort]
    show (r.receiveByte platform b).receive platform bytes = _
    rw [hbyte]
    exact ih rfl hlength

theorem receive_readBody {buffer : Bytes} (hreading : r.reading = .readBody m buffer)
    (hlength : (buffer ++ bytes).length < m.body.length) :
    r.receive platform bytes = { r with reading := .readBody m (buffer ++ bytes) } := by
  induction bytes generalizing r buffer with
  | nil =>
    rw [List.append_nil, ← hreading]
    rfl
  | cons b bytes ih =>
    rw [List.append_cons] at hlength ⊢
    have hshort : (buffer ++ [b]).length < m.body.length := by
      rw [List.length_append] at hlength
      omega
    have hbyte : r.receiveByte platform b = { r with reading := .readBody m (buffer ++ [b]) } := by
      simp only [Reader.receiveByte, hreading, if_pos hshort]
    show (r.receiveByte platform b).receive platform bytes = _
    rw [hbyte]
    exact ih rfl hlength

/-- A header is read. -/
theorem receive_header (hreading : r.reading = .readHeader []) {header : Bytes}
    (hlength : header.length = NetworkMessage.headerLength)
    (hdecode : NetworkMessage.decodeHeader platform header = .ok (some m)) :
    r.receive platform header = r.readBody m := by
  obtain rfl | ⟨front, b, rfl⟩ := List.eq_nil_or_concat' header
  · cases hlength
  · have hfront : ([] ++ front).length < NetworkMessage.headerLength := by
      rw [List.nil_append, ← hlength, List.length_append]
      exact Nat.lt_succ_self _
    rw [receive_append, receive_readHeader hreading hfront, receive_singleton]
    unfold Reader.receiveByte
    simp only [List.nil_append, if_neg hlength.not_lt, hdecode]
    rfl

/-- A body is read. -/
theorem receive_body {body : Bytes} (hbody : m.body.length = body.length) :
    (r.readBody m).receive platform body = r.complete { m with body := body } := by
  unfold Reader.readBody
  obtain rfl | ⟨front, b, rfl⟩ := List.eq_nil_or_concat' body
  · obtain ⟨type, uncompressedSize, header, body⟩ := m
    obtain rfl : body = [] := List.length_eq_zero_iff.1 hbody
    rfl
  · have hfront : ([] ++ front).length < m.body.length := by
      rw [hbody, List.nil_append, List.length_append]
      exact Nat.lt_succ_self _
    rw [if_neg (Nat.ne_of_gt (Nat.zero_lt_of_lt hfront)), receive_append, receive_readBody rfl hfront,
      receive_singleton]
    unfold Reader.receiveByte
    simp only [List.nil_append, if_neg hbody.le.not_gt]
    rfl

/-- The message has the header that encodes it. -/
def Encoded (m : NetworkMessage) : Prop :=
  m.header = NetworkMessage.encodeHeader m.type m.uncompressedSize m.body.length

theorem encoded_encoded (type : NetworkMessageType) (uncompressedSize : UInt64) (body : Bytes) :
    Encoded (.encoded type uncompressedSize body) := rfl

/-- A message is read as it was written. -/
theorem receive_asyncWrite (hreading : r.reading = .readHeader []) (hm : Encoded m) (hlength : m.body.length < 2 ^ 64)
    (hmemory : m.body.length ≤ platform.memory) : r.receive platform (asyncWrite m).flatten = r.complete m := by
  have hbytes : (asyncWrite m).flatten = m.header ++ m.body := by
    unfold asyncWrite
    split
    · next hempty => rw [List.length_eq_zero_iff.1 hempty]; rfl
    · simp
  have hheader : m.header.length = NetworkMessage.headerLength := by
    rw [hm]
    exact NetworkMessage.length_encodeHeader
  have hdecode : NetworkMessage.decodeHeader platform m.header =
      .ok (some { m with body := List.replicate m.body.length 0 }) := by
    rw [hm]
    exact NetworkMessage.decodeHeader_encodeHeader hlength hmemory
  rw [hbytes, receive_append, receive_header hreading hheader hdecode, receive_body (List.length_replicate)]

/-- All messages are read as they were written, and no byte is left. -/
theorem receive_written {messages : List NetworkMessage} (hreading : r.reading = .readHeader [])
    (hencoded : ∀ m ∈ messages, Encoded m) (hlength : ∀ m ∈ messages, m.body.length < 2 ^ 64)
    (hmemory : ∀ m ∈ messages, m.body.length ≤ platform.memory) :
    r.receive platform (written messages) = ⟨.readHeader [], r.messages ++ messages⟩ := by
  induction messages generalizing r with
  | nil =>
    rw [List.append_nil, ← hreading]
    rfl
  | cons m messages ih =>
    have hcons : written (m :: messages) = (asyncWrite m).flatten ++ written messages := by
      unfold written
      rw [List.flatMap_cons, List.flatten_append]
    rw [hcons, receive_append, receive_asyncWrite hreading (hencoded m List.mem_cons_self)
      (hlength m List.mem_cons_self) (hmemory m List.mem_cons_self)]
    have hrest := ih (r := r.complete m) rfl (fun m' hm' => hencoded m' (List.mem_cons_of_mem m hm'))
      (fun m' hm' => hlength m' (List.mem_cons_of_mem m hm')) fun m' hm' => hmemory m' (List.mem_cons_of_mem m hm')
    rw [hrest, Reader.complete, List.append_assoc]
    rfl

theorem prefix_readBody (r : Reader) (m : NetworkMessage) :
    r.messages <+: (r.readBody m).messages ∧ (r.readBody m).reading ≠ .failed := by
  unfold Reader.readBody
  split
  · exact ⟨List.prefix_append _ _, fun h => (nomatch h)⟩
  · exact ⟨List.prefix_refl _, fun h => (nomatch h)⟩

/-- Messages that have been read stay. -/
theorem prefix_receiveByte (r : Reader) (b : UInt8) : r.messages <+: (r.receiveByte platform b).messages := by
  unfold Reader.receiveByte
  split
  · split
    · exact List.prefix_refl _
    · split
      · exact (prefix_readBody r _).1
      · exact List.prefix_refl _
  · split
    · exact List.prefix_refl _
    · exact List.prefix_append _ _
  · exact List.prefix_refl _

theorem prefix_receive (r : Reader) (bytes : Bytes) : r.messages <+: (r.receive platform bytes).messages := by
  induction bytes generalizing r with
  | nil => exact List.prefix_refl _
  | cons b bytes ih => exact (prefix_receiveByte r b).trans (ih (r.receiveByte platform b))

/-- A failed reader stays failed. -/
theorem receive_failed (hfailed : r.reading = .failed) (bytes : Bytes) : r.receive platform bytes = r := by
  induction bytes with
  | nil => rfl
  | cons b bytes ih =>
    have hbyte : r.receiveByte platform b = r := by simp only [Reader.receiveByte, hfailed]
    show (r.receiveByte platform b).receive platform bytes = r
    rw [hbyte]
    exact ih

/-- Messages that are written one after the other are read as they were written, however the stream cuts them into
chunks: the messages that have been read are always the first of those that were written, and when all chunks are
there all messages have been read and no byte is left over. -/
theorem receiveAll_written (platform : Platform) (messages : List NetworkMessage)
    (hencoded : ∀ m ∈ messages, Encoded m)
    (hlength : ∀ m ∈ messages, m.body.length < 2 ^ 64)
    (hmemory : ∀ m ∈ messages, m.body.length ≤ platform.memory) :
    (∀ chunks : List Bytes, chunks.flatten = written messages →
      Reader.receiveAll platform chunks = ⟨.readHeader [], messages⟩) ∧
    ∀ chunks : List Bytes, chunks.flatten <+: written messages →
      (Reader.receiveAll platform chunks).messages <+: messages ∧
      (Reader.receiveAll platform chunks).reading ≠ .failed := by
  have hall : ({} : Reader).receive platform (written messages) = ⟨.readHeader [], messages⟩ :=
    receive_written rfl hencoded hlength hmemory
  refine ⟨fun chunks hchunks => ?_, fun chunks hchunks => ?_⟩
  · rw [receiveAll_eq, hchunks, hall]
  · obtain ⟨rest, hrest⟩ := hchunks
    rw [receiveAll_eq]
    rw [← hrest, receive_append] at hall
    constructor
    · have hmore := @prefix_receive platform (({} : Reader).receive platform chunks.flatten) rest
      rwa [hall] at hmore
    · intro hfailed
      rw [receive_failed hfailed] at hall
      rw [hall] at hfailed
      cases hfailed

/-- A machine of a kilobyte that does not compress. -/
def plainPlatform : Platform where
  memory := 1024
  compress := some
  decompress bytes size := if bytes.length ≤ size then some bytes else none

/-- A message without a body between two messages. -/
def threeMessages : List NetworkMessage :=
  [.encoded .actionAck 3 [1, 2, 3], NetworkMessage.encodeSyncAck, .encoded .undo 2 [4, 5]]

/-- The stream is cut within the second header. -/
example : Reader.receiveAll plainPlatform [(written threeMessages).take 30, (written threeMessages).drop 30] =
    ⟨.readHeader [], threeMessages⟩ := by decide +kernel

theorem receiveAll_written_three :
    (∀ chunks : List Bytes, chunks.flatten = written threeMessages →
      Reader.receiveAll plainPlatform chunks = ⟨.readHeader [], threeMessages⟩) ∧
    ∀ chunks : List Bytes, chunks.flatten <+: written threeMessages →
      (Reader.receiveAll plainPlatform chunks).messages <+: threeMessages ∧
      (Reader.receiveAll plainPlatform chunks).reading ≠ .failed :=
  receiveAll_written plainPlatform threeMessages
    (by simp [threeMessages, NetworkMessage.encodeSyncAck, encoded_encoded]) (by decide) (by decide)

end NetworkConnection

end JudoAssistant
