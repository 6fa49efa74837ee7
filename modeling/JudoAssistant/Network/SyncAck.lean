import Mathlib.Data.Fintype.Basic
import JudoAssistant.Network.Steps
import JudoAssistant.StoreManager.Runs

/-!
# Acknowledged syncs

A participant drops the actions of its client while it is syncing, and one flag says whether it is.
If no `SYNC` is sent to a participant that is still syncing, every accepted action was sent after
the client had processed the last `SYNC` delivered to it.  Two overlapping `SYNC` messages break
this: the acknowledgement of the first one clears the flag for the second.
-/

namespace JudoAssistant

open Undoable

variable {T : Type} {K : ActionModel T}

namespace Connection

/-- No `SYNC_ACK` is under way. -/
def NoAck (up : List (ℕ × ClientMessage K)) : Prop := ∀ m ∈ up, isAck m = false

/-- All messages were sent when the client had processed `n` `SYNC` messages, and none is a
`SYNC_ACK`. -/
def SentAt (n : ℕ) (up : List (ℕ × ClientMessage K)) : Prop := ∀ m ∈ up, isAck m = false ∧ m.1 = n

/-- One `SYNC_ACK` is under way; what follows it was sent when the client had processed `n` `SYNC`
messages. -/
def AckedAt (n : ℕ) (up : List (ℕ × ClientMessage K)) : Prop :=
  ∃ pre ack post, up = pre ++ ack :: post ∧ isAck ack = true ∧ NoAck pre ∧ SentAt n post

/-- What the participant of a connection will accept is current. -/
def Current (l : Connection K) : Prop :=
  match l.participant with
  | .left => True
  | .waiting => NoAck l.up
  | .joined false => SentAt l.delivered l.up
  | .joined true => NoAck l.up ∨ AckedAt l.delivered l.up

/-- The `SYNC` messages under way on a connection that the client has not closed. -/
def Tracked (l : Connection K) : Prop :=
  match l.participant with
  | .left => True
  | .waiting => l.down = [] ∧ l.processed = l.delivered
  | .joined false => l.down.countP isSync = 0 ∧ l.processed = l.delivered
  | .joined true =>
    NoAck l.up ∧ l.down.countP isSync = 1 ∧ l.processed + 1 = l.delivered ∨
      AckedAt l.delivered l.up ∧ l.down.countP isSync = 0 ∧ l.processed = l.delivered

/-- Is the participant among `mParticipants` and syncing? -/
def syncing (l : Connection K) : Bool := l.inParticipants && decide (l.participant = .joined true)

theorem noAck_append {up up' : List (ℕ × ClientMessage K)} (h : NoAck up) (h' : NoAck up') :
    NoAck (up ++ up') := fun m hm => (List.mem_append.1 hm).elim (h m) (h' m)

theorem SentAt.append {n : ℕ} {up up' : List (ℕ × ClientMessage K)} (h : SentAt n up)
    (h' : SentAt n up') : SentAt n (up ++ up') :=
  fun m hm => (List.mem_append.1 hm).elim (h m) (h' m)

theorem SentAt.noAck {n : ℕ} {up : List (ℕ × ClientMessage K)} (h : SentAt n up) : NoAck up :=
  fun m hm => (h m hm).1

theorem AckedAt.append {n : ℕ} {up up' : List (ℕ × ClientMessage K)} (h : AckedAt n up)
    (h' : SentAt n up') : AckedAt n (up ++ up') := by
  obtain ⟨pre, ack, post, rfl, hack, hpre, hpost⟩ := h
  exact ⟨pre, ack, post ++ up', by simp, hack, hpre, hpost.append h'⟩

theorem SentAt.take {n : ℕ} {up : List (ℕ × ClientMessage K)} (h : SentAt n up) (sent : ℕ) :
    SentAt n (up.take sent) := fun m hm => h m (List.mem_of_mem_take hm)

theorem NoAck.take {up : List (ℕ × ClientMessage K)} (h : NoAck up) (sent : ℕ) :
    NoAck (up.take sent) := fun m hm => h m (List.mem_of_mem_take hm)

/-- A message after the `SYNC_ACK` may or may not reach the server. -/
theorem AckedAt.take {n : ℕ} {up : List (ℕ × ClientMessage K)} (h : AckedAt n up) (sent : ℕ) :
    NoAck (up.take sent) ∨ AckedAt n (up.take sent) := by
  obtain ⟨pre, ack, post, rfl, hack, hpre, hpost⟩ := h
  rw [List.take_append]
  cases hs : sent - pre.length with
  | zero =>
    left
    simpa using hpre.take sent
  | succ r =>
    right
    have : pre.take sent = pre := List.take_of_length_le (by omega)
    rw [this, List.take_succ_cons]
    exact ⟨pre, ack, post.take r, rfl, hack, hpre, hpost.take r⟩

/-- An `AckedAt` queue starts with the `SYNC_ACK` or with a message that is not one. -/
theorem AckedAt.uncons {n : ℕ} {m : ℕ × ClientMessage K} {up : List (ℕ × ClientMessage K)}
    (h : AckedAt n (m :: up)) :
    isAck m = true ∧ SentAt n up ∨ isAck m = false ∧ AckedAt n up := by
  obtain ⟨pre, ack, post, hup, hack, hpre, hpost⟩ := h
  cases pre with
  | nil =>
    obtain ⟨rfl, rfl⟩ := List.cons.inj hup
    exact .inl ⟨hack, hpost⟩
  | cons m' pre =>
    obtain ⟨rfl, rfl⟩ := List.cons.inj hup
    exact .inr ⟨hpre m (by simp), pre, ack, post, rfl, hack, fun x hx => hpre x (by simp [hx]),
      hpost⟩

/-! ## The client's side -/

/-- The client sends a message other than `SYNC_ACK`. -/
theorem send_current {l : Connection K} {m : ClientMessage K} (hm : isAck (l.processed, m) = false)
    (hc : l.Current) (ht : l.Tracked) : (l.send m).Current ∧ (l.send m).Tracked := by
  have hno : NoAck [(l.processed, m)] := by simpa [NoAck] using hm
  have hat : l.processed = l.delivered → SentAt l.delivered [(l.processed, m)] := by
    intro hp
    simpa [SentAt, hp] using hm
  rcases l with ⟨up, down, participant, processed, delivered, removed⟩
  cases participant with
  | left => exact ⟨trivial, trivial⟩
  | waiting => exact ⟨noAck_append hc hno, ht⟩
  | joined syncing =>
    cases syncing with
    | false => exact ⟨SentAt.append hc (hat ht.2), ht⟩
    | true =>
      rcases ht with ⟨hup, hsync, hp⟩ | ⟨hup, hsync, hp⟩
      · exact ⟨.inl (noAck_append hup hno), .inl ⟨noAck_append hup hno, hsync, hp⟩⟩
      · exact ⟨.inr (hup.append (hat hp)), .inr ⟨hup.append (hat hp), hsync, hp⟩⟩

/-- The client reads a message other than `SYNC`. -/
theorem drop_current {l : Connection K} {m : ServerMessage K} {down : List (ServerMessage K)}
    (hd : l.down = m :: down) (hm : isSync m = false) (hc : l.Current) (ht : l.Tracked) :
    Current { l with down := down } ∧ Tracked { l with down := down } := by
  rcases l with ⟨up, down', participant, processed, delivered, removed⟩
  obtain rfl : down' = m :: down := hd
  cases participant with
  | left => exact ⟨trivial, trivial⟩
  | waiting => exact absurd ht.1 (by simp)
  | joined syncing =>
    refine ⟨hc, ?_⟩
    cases syncing <;> simpa [Tracked, hm] using ht

/-- The client reads a `SYNC` and acknowledges it. -/
theorem ack_current {l : Connection K} {m : ServerMessage K} {down : List (ServerMessage K)}
    (hd : l.down = m :: down) (hm : isSync m = true) (ht : l.Tracked) :
    (send { l with down := down, processed := l.processed + 1 } .syncAck).Current ∧
      (send { l with down := down, processed := l.processed + 1 } .syncAck).Tracked := by
  rcases l with ⟨up, down', participant, processed, delivered, removed⟩
  obtain rfl : down' = m :: down := hd
  cases participant with
  | left => exact ⟨trivial, trivial⟩
  | waiting => exact absurd ht.1 (by simp)
  | joined syncing =>
    cases syncing with
    | false => exact absurd ht.1 (by simp [hm])
    | true =>
      rcases ht with ⟨hup, hsync, hp⟩ | ⟨-, hsync, -⟩
      · have hack : AckedAt delivered (up ++ [(processed + 1, .syncAck)]) :=
          ⟨up, _, [], rfl, rfl, hup, by simp [SentAt]⟩
        refine ⟨.inr hack, .inr ⟨hack, ?_, hp⟩⟩
        simpa [send, hm] using hsync
      · simp [hm] at hsync

/-! ## The server's side -/

theorem noAck_cons {m : ℕ × ClientMessage K} {up : List (ℕ × ClientMessage K)} :
    NoAck (m :: up) ↔ isAck m = false ∧ NoAck up := List.forall_mem_cons

/-- The participant reads a message and accepts none. -/
theorem read_current {server : NetworkServer K} {l l' : Connection K}
    (h : Reads server l (.done l')) (hc : l.Current) : l'.Current := by
  rcases l with ⟨up, down, participant, processed, delivered, removed⟩
  generalize hr : Reading.done l' = r at h
  cases h with
  | start hp hup =>
    cases hr
    obtain rfl : participant = .waiting := hp
    obtain rfl : up = _ := hup
    exact .inl (noAck_cons.1 hc).2
  | kick hup =>
    cases hr
    trivial
  | @ack b _ _ hp hup hm =>
    cases hr
    obtain rfl : participant = .joined b := hp
    obtain rfl : up = _ := hup
    cases b with
    | false =>
      have := (hc _ (List.mem_cons_self ..)).1
      simp [hm] at this
    | true =>
      rcases hc with hc | hc
      · have := (noAck_cons.1 hc).1
        simp [hm] at this
      · rcases hc.uncons with ⟨-, hpost⟩ | ⟨hm', -⟩
        · exact hpost
        · simp [hm] at hm'
  | @skip b _ _ hp hup hm =>
    cases hr
    obtain rfl : participant = .joined b := hp
    obtain rfl : up = _ := hup
    cases b with
    | false => exact fun m' hm' => hc m' (List.mem_cons_of_mem _ hm')
    | true =>
      rcases hc with hc | hc
      · exact .inl (noAck_cons.1 hc).2
      · rcases hc.uncons with ⟨hm', -⟩ | ⟨-, hc⟩
        · simp [hm] at hm'
        · exact .inr hc
  | accept => cases hr

/-- An accepted action was sent after the last delivered `SYNC` had been processed. -/
theorem accept_current {server : NetworkServer K} {l l' : Connection K} {a : Acceptance}
    {p : K.Param} (h : Reads server l (.accept l' a p)) (hc : l.Current) :
    a.epoch = a.delivered ∧ l'.Current ∧ (l.Tracked → l'.Tracked) ∧
      l'.participant = .joined false := by
  rcases l with ⟨up, down, participant, processed, delivered, removed⟩
  cases h with
  | accept hp hup =>
    obtain rfl : participant = .joined false := hp
    obtain rfl : up = _ := hup
    exact ⟨(hc _ (List.mem_cons_self ..)).2, fun m' hm' => hc m' (List.mem_cons_of_mem _ hm'),
      fun ht => ht, rfl⟩

theorem read_tracked {server : NetworkServer K} {l l' : Connection K}
    (h : Reads server l (.done l')) (hc : l.Current) (ht : l.Tracked) : l'.Tracked := by
  rcases l with ⟨up, down, participant, processed, delivered, removed⟩
  generalize hr : Reading.done l' = r at h
  cases h with
  | start hp hup =>
    cases hr
    obtain rfl : participant = .waiting := hp
    obtain rfl : up = _ := hup
    obtain ⟨rfl, hd⟩ : down = [] ∧ processed = delivered := ht
    refine .inl ⟨(noAck_cons.1 hc).2, rfl, ?_⟩
    simp [hd]
  | kick hup =>
    cases hr
    trivial
  | @ack b _ _ hp hup hm =>
    cases hr
    obtain rfl : participant = .joined b := hp
    obtain rfl : up = _ := hup
    cases b with
    | false => exact ht
    | true =>
      rcases ht with ⟨hno, -⟩ | ⟨-, ht⟩
      · have := (noAck_cons.1 hno).1
        simp [hm] at this
      · exact ht
  | @skip b _ _ hp hup hm =>
    cases hr
    obtain rfl : participant = .joined b := hp
    obtain rfl : up = _ := hup
    cases b with
    | false => exact ht
    | true =>
      rcases ht with ⟨hno, ht⟩ | ⟨hack, ht⟩
      · exact .inl ⟨(noAck_cons.1 hno).2, ht⟩
      · rcases hack.uncons with ⟨hm', -⟩ | ⟨-, hack⟩
        · simp [hm] at hm'
        · exact .inr ⟨hack, ht⟩
  | accept => cases hr

/-- The server delivers a message other than `SYNC`. -/
theorem deliver_current {l : Connection K} {m : ServerMessage K} (hm : isSync m = false)
    (hc : l.Current) (ht : l.Tracked) : (l.deliver m).Current ∧ (l.deliver m).Tracked := by
  cases hl : l.inParticipants with
  | false =>
    rw [deliver_of_not_mem hl]
    exact ⟨hc, ht⟩
  | true =>
    obtain ⟨⟨b, hp⟩, -⟩ := inParticipants_iff.1 hl
    rw [deliver_of_mem hl]
    rcases l with ⟨up, down, participant, processed, delivered, removed⟩
    obtain rfl : participant = .joined b := hp
    refine ⟨hc, ?_⟩
    cases b <;> simpa [Tracked, hm] using ht

/-- The server delivers a `SYNC` to a participant that is not syncing. -/
theorem deliverSync_current {l : Connection K} {m : ServerMessage K} (hp : l.syncing = false)
    (hc : l.Current) : (l.deliverSync m).Current ∧
      (isSync m = true → l.Tracked → (l.deliverSync m).Tracked) := by
  cases hl : l.inParticipants with
  | false =>
    rw [deliverSync_of_not_mem hl]
    exact ⟨hc, fun _ ht => ht⟩
  | true =>
    obtain ⟨⟨b, hb⟩, -⟩ := inParticipants_iff.1 hl
    obtain rfl : b = false := by simpa [syncing, hl, hb] using hp
    rw [deliverSync_of_mem hl]
    rcases l with ⟨up, down, participant, processed, delivered, removed⟩
    obtain rfl : participant = .joined false := hb
    have hno : NoAck up := SentAt.noAck hc
    refine ⟨.inl hno, fun hm ht => .inl ⟨hno, ?_, ?_⟩⟩
    · have h0 : down.countP isSync = 0 := ht.1
      simp [hm, h0]
    · exact congrArg (· + 1) ht.2

end Connection

/-! ## The invariant of a client -/

namespace Client

/-- The connections of a client are current. -/
structure Current (c : Client K) : Prop where
  live : ∀ l, c.connection = some l → l.Current ∧ l.Tracked
  stale : ∀ l ∈ c.stale, l.Current

variable {c c' : Client K}

/-- Changes of the live connection alone. -/
theorem Current.map (h : c.Current) {f : Connection K → Connection K}
    (hf : ∀ l, l.Current → l.Tracked → (f l).Current ∧ (f l).Tracked)
    (hc : c'.connection = c.connection.map f) (hs : c'.stale = c.stale) : c'.Current where
  live := by
    intro l' hl'
    rw [hc] at hl'
    obtain ⟨l, hl, rfl⟩ := Option.map_eq_some_iff.1 hl'
    exact hf l (h.live l hl).1 (h.live l hl).2
  stale := by
    rw [hs]
    exact h.stale

theorem Current.set (h : c.Current) {l : Connection K} (l' : Connection K) (hl : c.connection = some l)
    (hf : l.Current → l.Tracked → l'.Current ∧ l'.Tracked)
    (hc : c'.connection = some l') (hs : c'.stale = c.stale) : c'.Current := by
  refine h.map (f := fun _ => l') (fun _ _ _ => hf (h.live l hl).1 (h.live l hl).2) ?_ hs
  rw [hc, hl, Option.map_some]

/-- Changes of one stale connection. -/
theorem Current.setStale (h : c.Current) {n : ℕ} {l' : Connection K} (hl' : l'.Current)
    (hc : c'.connection = c.connection) (hs : c'.stale = c.stale.set n l') : c'.Current where
  live := by
    rw [hc]
    exact h.live
  stale := by
    rw [hs]
    intro l hl
    rcases List.mem_or_eq_of_mem_set hl with hl | rfl
    · exact h.stale l hl
    · exact hl'

theorem Current.broadcast (h : c.Current) {m : ServerMessage K} (hm : isSync m = false) :
    (c.broadcast m).Current :=
  h.map (fun _ => Connection.deliver_current hm) rfl rfl

theorem Current.deliver (h : c.Current) {m : ClientMessage K} (hm : ∀ n, isAck (n, m) = false)
    (hc : c'.connection = c.connection) (hs : c'.stale = c.stale) : (c'.deliver m).Current :=
  h.map (f := fun l => l.send m) (fun l => Connection.send_current (hm l.processed))
    (by simp [Client.deliver, hc]) (by simp [Client.deliver, hs])

/-- Messages other than `SYNC_ACK`, sent one after the other. -/
theorem Current.resend (h : c.Current) (l : List (ClientActionId × K.Param)) :
    (l.foldl (fun (c : Client K) a => c.deliver (.action a.1 a.2)) c).Current := by
  induction l generalizing c with
  | nil => exact h
  | cons a l ih => exact ih (h.deliver (fun _ => rfl) rfl rfl)

/-- What is left of a closed connection is current; the `SYNC` messages for the client are lost. -/
theorem current_kill {l : Connection K} (hl : c.connection = some l) (hcur : l.Current)
    (hs : ∀ l ∈ c.stale, l.Current) (sent : ℕ) : (c.killConnection sent).Current := by
  simp only [killConnection, hl]
  refine ⟨fun l' hl' => by simp at hl', ?_⟩
  intro l' hl'
  rcases List.mem_append.1 hl' with hl' | hl'
  · exact hs l' hl'
  · obtain rfl := List.mem_singleton.1 hl'
    rcases l with ⟨up, down, participant, processed, delivered, removed⟩
    cases participant with
    | left => trivial
    | waiting => exact Connection.NoAck.take hcur sent
    | joined b =>
      cases b with
      | false => exact Connection.SentAt.take hcur sent
      | true =>
        rcases hcur with hcur | hcur
        · exact .inl (hcur.take sent)
        · exact hcur.take sent

/-- The client takes a message from its connection: other messages than `SYNC` ask for nothing, a
`SYNC` is acknowledged. -/
theorem Current.received (h : c.Current) {l : Connection K} {m : ServerMessage K}
    {down : List (ServerMessage K)} (hl : c.connection = some l) (hd : l.down = m :: down) :
    (isSync m = false → (c.received l m down).Current) ∧
      (isSync m = true → ((c.received l m down).deliver .syncAck).Current) := by
  constructor
  · intro hm
    refine h.set { l with down := down } hl (Connection.drop_current hd hm) ?_ rfl
    cases m <;> simp_all [Client.received, isSync]
  · intro hm
    refine h.set (Connection.send { l with down := down, processed := l.processed + 1 } .syncAck) hl
      (fun _ ht => Connection.ack_current hd hm ht) ?_ rfl
    cases m <;> simp_all [Client.received, Client.deliver, isSync]

theorem Current.of_connections (h : c.Current) (hc : c'.connection = c.connection)
    (hs : c'.stale = c.stale) : c'.Current :=
  h.map (f := id) (fun _ h h' => ⟨h, h'⟩) (by simp [hc]) hs

theorem Current.handleIdle (h : c.Current) {l : Connection K} {m : ServerMessage K}
    {down : List (ServerMessage K)} (hl : c.connection = some l) (hd : l.down = m :: down) :
    ((c.received l m down).handleIdle m).Current := by
  obtain ⟨hno, hyes⟩ := h.received hl hd
  cases m with
  | sync t actions => exact (hyes rfl).of_connections rfl rfl
  | actionAck k =>
    simp only [Client.handleIdle]
    split
    · exact (hno rfl).of_connections rfl rfl
    · exact hno rfl
  | action k p => exact (hno rfl).of_connections rfl rfl
  | undo k => exact (hno rfl).of_connections rfl rfl
  | clockSync => exact (hno rfl).of_connections rfl rfl

theorem Current.read (h : c.Current) (hr : c.read = some c') : c'.Current := by
  obtain ⟨l, m, down, hl, hd, hcases⟩ := Client.read_cases hr
  obtain ⟨hno, hyes⟩ := h.received hl hd
  cases hcases with
  | clock hp hm => exact (hno (by rw [hm]; rfl)).of_connections rfl rfl
  | kill hp sent => exact current_kill (c := c.received l m down) rfl (h.live l hl).1 h.stale sent
  | sync hp hm =>
    subst hm
    unfold Client.handleSync
    refine Current.of_connections (Current.resend ?_ _) rfl rfl
    exact (hyes rfl).of_connections rfl rfl
  | idle hp => exact h.handleIdle hl hd
  | last hp => exact (h.handleIdle hl hd).of_connections rfl rfl

end Client

/-! ## Runs -/

variable {ι : Type} [DecidableEq ι]

namespace System

/-- No participant is syncing. -/
def Settled (s : System ι K) : Prop :=
  ∀ j, (∀ l ∈ (s.clients j).connection, l.syncing = false) ∧
    ∀ l ∈ (s.clients j).stale, l.syncing = false

/-- Does the step send a `SYNC` to the participants? -/
def sendsSync (s : System ι K) (e : Event ι K) : Bool :=
  match e, s.master.posted with
  | .serverPost, .postSync _ :: _ => true
  | _, _ => false

/-- A `SYNC` is sent only when no participant is still syncing. -/
def SyncsApart (s : System ι K) (e : Event ι K) : Prop := s.sendsSync e = true → s.Settled

instance [Fintype ι] (s : System ι K) : Decidable s.Settled :=
  inferInstanceAs (Decidable (∀ j, (∀ l ∈ (s.clients j).connection, l.syncing = false) ∧
    ∀ l ∈ (s.clients j).stale, l.syncing = false))

instance [Fintype ι] (s : System ι K) (e : Event ι K) : Decidable (s.SyncsApart e) :=
  inferInstanceAs (Decidable (s.sendsSync e = true → s.Settled))

/-- Every accepted action was sent after the client had processed the last `SYNC` delivered to it,
and so will be the ones under way. -/
structure AcceptsCurrent (s : System ι K) : Prop where
  history : ∀ a ∈ s.history, a.epoch = a.delivered
  clients : ∀ j, (s.clients j).Current

omit [DecidableEq ι] in
theorem clientStep_current {s : System ι K} {j : ι} {e : Event ι K} {server' : NetworkServer K}
    {new : List Acceptance} {c' : Client K} (hs : s.AcceptsCurrent) (hok : s.SyncsApart e)
    (h : ClientStep s j e server' new c') : c'.Current := by
  have hc := hs.clients j
  cases h with
  | stay => exact hc
  | dispatch => exact hc.of_connections rfl rfl
  | post => exact hc.deliver (fun _ => rfl) rfl rfl
  | signal => exact hc.of_connections rfl rfl
  | connect =>
    refine ⟨?_, hc.stale⟩
    rintro l ⟨⟩
    exact ⟨by simp [Connection.Current, Connection.NoAck, Connection.init],
      by simp [Connection.Tracked, Connection.init]⟩
  | join => exact hc.deliver (fun _ => rfl) rfl rfl
  | read hr => exact hc.read hr
  | quit => exact hc.deliver (fun _ => rfl) rfl rfl
  | kill hl =>
    obtain ⟨l, hl⟩ := Option.isSome_iff_exists.1 hl
    exact Client.current_kill hl (hc.live l hl).1 hc.stale _
  | serverRead hl hr =>
    have hr := Connection.read_cases hr
    exact hc.set _ hl (fun h ht => ⟨Connection.read_current hr h, Connection.read_tracked hr h ht⟩)
      rfl rfl
  | accept hl hr hp =>
    obtain ⟨-, h', ht', -⟩ := Connection.accept_current (Connection.read_cases hr) (hc.live _ hl).1
    exact hc.set _ hl (fun _ ht => Connection.deliver_current rfl h' (ht' ht)) rfl rfl
  | serverReadStale hl hr =>
    have h' := Connection.read_current (Connection.read_cases hr)
      (hc.stale _ (List.mem_of_getElem? hl))
    refine hc.setStale ?_ rfl rfl
    exact h'
  | acceptStale hl hr hp =>
    obtain ⟨-, h', -, -⟩ := Connection.accept_current (Connection.read_cases hr)
      (hc.stale _ (List.mem_of_getElem? hl))
    refine Client.Current.broadcast ?_ rfl
    exact hc.setStale h' rfl rfl
  | leave hl =>
    refine hc.set _ hl ?_ rfl rfl
    exact fun _ _ => ⟨trivial, trivial⟩
  | leaveStale hl =>
    refine hc.setStale ?_ rfl rfl
    trivial
  | @remove l hl => exact hc.set { l with removed := true } hl (fun h ht => ⟨h, ht⟩) rfl rfl
  | @removeStale n l hl =>
    have hl' : ({ l with removed := true } : Connection K).Current := hc.stale l (List.mem_of_getElem? hl)
    exact hc.setStale hl' rfl rfl
  | masterAction => exact hc.broadcast rfl
  | masterUndo => exact hc.broadcast rfl
  | @masterSync t posted hp =>
    obtain ⟨hlive, hstale⟩ := hok (by simp only [sendsSync, hp]) j
    constructor
    · intro l' hl'
      obtain ⟨l, hl, rfl⟩ := Option.map_eq_some_iff.1 hl'
      obtain ⟨h, h'⟩ := Connection.deliverSync_current (m := .sync t []) (hlive l hl) (hc.live l hl).1
      exact ⟨h, h' rfl (hc.live l hl).2⟩
    · intro l' hl'
      obtain ⟨l, hl, rfl⟩ := List.mem_map.1 hl'
      exact (Connection.deliverSync_current (hstale l hl) (hc.stale l hl)).1
  | otherAction => exact hc.broadcast rfl
  | otherStaleAction => exact hc.broadcast rfl

omit [DecidableEq ι] in
/-- What a step executes is current. -/
theorem executes_current {s : System ι K} {e : Event ι K} {new : List Acceptance}
    (hs : s.AcceptsCurrent) (h : Executes s e new) : ∀ a ∈ new, a.epoch = a.delivered := by
  cases h with
  | nothing => simp
  | master => simp
  | @live i l l' a p hl hr =>
    have := Connection.accept_current (Connection.read_cases hr) ((hs.clients i).live l hl).1
    simpa using this.1
  | @stale i n l l' a p hl hr =>
    have := Connection.accept_current (Connection.read_cases hr)
      ((hs.clients i).stale l (List.mem_of_getElem? hl))
    simpa using this.1

theorem step_acceptsCurrent {s s' : System ι K} {e : Event ι K} (hs : s.AcceptsCurrent)
    (hok : s.SyncsApart e) (h : s.step e = some s') : s'.AcceptsCurrent := by
  obtain ⟨new, hnew, hh, hstep⟩ := step_affects h
  refine ⟨?_, fun j => clientStep_current hs hok (hstep j)⟩
  rw [hh]
  intro a ha
  rcases List.mem_append.1 ha with ha | ha
  · exact hs.history a ha
  · exact executes_current hs hnew a ha

omit [DecidableEq ι] in
theorem init_acceptsCurrent (masterId : ℕ) (t : T) (ids : ι → ℕ) (ts : ι → T) :
    (init K masterId t ids ts).AcceptsCurrent where
  history := by simp [init]
  clients j := ⟨fun l hl => by simp [init, Client.init] at hl, by simp [init, Client.init]⟩

/-- In every run in which a `SYNC` is sent only when no participant is still syncing, every accepted
action was sent after the client had processed the last `SYNC` delivered to it. -/
theorem run_accepts_current (masterId : ℕ) (t : T) (ids : ι → ℕ) (ts : ι → T)
    (es : List (Event ι K)) (hes : Runs.Guarded step SyncsApart es (init K masterId t ids ts))
    {s : System ι K} (hrun : Runs.run step es (init K masterId t ids ts) = some s) :
    ∀ a ∈ s.history, a.epoch = a.delivered :=
  (Runs.run_inv (fun _ _ _ => step_acceptsCurrent) (init_acceptsCurrent masterId t ids ts) hes
    hrun).history

/-- The one client of a small system connects, and its first `SYNC` is acknowledged. -/
def connecting : List (Event (Fin 1) scoreActions) :=
  [.clientConnect 0, .clientJoin 0, .serverRead 0, .clientRead 0, .clientRead 0, .serverRead 0]

/-- A master and one client. -/
def pair : System (Fin 1) scoreActions := init scoreActions 0 (0 : ℤ) (fun _ => 1) fun _ => (0 : ℤ)

/-- After a sync of the master, an action of the client is accepted. -/
def syncThenAction : List (Event (Fin 1) scoreActions) :=
  connecting ++ [.masterSync (5 : ℤ), .serverPost, .clientRead 0, .clientDispatch 0 [0] (1 : ℤ),
    .clientPost 0, .serverRead 0, .serverRead 0]

theorem run_accepts_current_syncThenAction :
    ∃ s, Runs.run step syncThenAction pair = some s ∧ s.history = [⟨⟨1, 0⟩, 2, 2⟩] ∧
      ∀ a ∈ s.history, a.epoch = a.delivered := by
  have h : (Runs.run step syncThenAction pair).map (·.history) = some [⟨⟨1, 0⟩, 2, 2⟩] := by decide
  obtain ⟨s, hs, hh⟩ := Option.map_eq_some_iff.1 h
  exact ⟨s, hs, hh, run_accepts_current 0 (0 : ℤ) _ _ syncThenAction (by decide) hs⟩

/-- Two syncs of the master follow each other; the client answers the first one and then dispatches
an action. -/
def overlappingSyncs : List (Event (Fin 1) scoreActions) :=
  connecting ++ [.masterSync (5 : ℤ), .serverPost, .masterSync (6 : ℤ), .serverPost, .clientRead 0,
    .clientDispatch 0 [0] (1 : ℤ), .clientPost 0, .serverRead 0, .serverRead 0]

/-- The acknowledgement of the first of two overlapping `SYNC` messages makes the server accept an
action that was sent before the second one was processed. -/
theorem overlapping_syncs_accept_outdated :
    ∃ s, Runs.run step overlappingSyncs pair = some s ∧ ∃ a ∈ s.history, a.epoch < a.delivered := by
  have h : (Runs.run step overlappingSyncs pair).map (·.history) = some [⟨⟨1, 0⟩, 2, 3⟩] := by
    decide
  obtain ⟨s, hs, hh⟩ := Option.map_eq_some_iff.1 h
  exact ⟨s, hs, ⟨⟨1, 0⟩, 2, 3⟩, by simp [hh], by decide⟩

end System

end JudoAssistant
