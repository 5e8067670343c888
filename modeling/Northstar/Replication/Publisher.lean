import Northstar.Replication.Protocol
import Northstar.Lib.Runs
import Mathlib.Data.List.Perm.Basic
import Mathlib.Logic.Function.Basic

/-!
# Publisher — the primary's side, step by step

`replication/publisher.rs`.  Every step below is what one task does under one lock, so that a list of
events is an interleaving of the tasks: calls of `publish` and of `track_replica_position`, the accept
task, the handlers of the connections and the heartbeat.  The counters wrap at 2^64, and a connection
keeps the messages it has queued, not their bytes.  Locks are taken and released in one step, but for the
read lock that a publish holds while it goes through the connections.  Left out is that a publish which
finds the backpressure on takes the lock of the state before that of the buffer, a push and a release the
other way round, so that they can wait for one another for ever.  Timestamps are left out.
-/

namespace Northstar.Replication

open Bytes
open Txn (CommitRecord)

structure BufferedRecord where
  lsn : UInt64
  sequence : Nat
  recordBytes : Bytes
  checksum : UInt64
  deriving Repr, DecidableEq

def BufferedRecord.size (r : BufferedRecord) : Nat := r.recordBytes.length

abbrev ReplicaId := Nat

structure PrimaryConfig where
  maxReplicas : Nat
  replicationBufferSize : Nat
  deriving Repr, DecidableEq

/-- `BUFFER_HIGH_WATERMARK_PCT` is 80. -/
def PrimaryConfig.highWatermark (config : PrimaryConfig) : Nat := config.replicationBufferSize * 80 / 100

/-- `BUFFER_LOW_WATERMARK_PCT` is 60. -/
def PrimaryConfig.lowWatermark (config : PrimaryConfig) : Nat := config.replicationBufferSize * 60 / 100

structure ReplicationBuffer where
  records : List BufferedRecord
  maxSize : Nat
  currentSize : Nat
  lowWatermark : Nat
  highWatermark : Nat
  deriving Repr, DecidableEq

namespace ReplicationBuffer

def fromConfig (config : PrimaryConfig) : ReplicationBuffer where
  records := []
  maxSize := config.replicationBufferSize
  currentSize := 0
  lowWatermark := config.lowWatermark
  highWatermark := config.highWatermark

def push (b : ReplicationBuffer) (record : BufferedRecord) : Except ReplicationError ReplicationBuffer :=
  if b.currentSize + record.size > b.maxSize then
    .error (.bufferOverflow (b.currentSize + record.size) b.maxSize)
  else .ok { b with records := b.records ++ [record], currentSize := b.currentSize + record.size }

def popFront (b : ReplicationBuffer) : Option BufferedRecord × ReplicationBuffer :=
  match b.records with
  | [] => (none, b)
  | record :: records => (some record, { b with records, currentSize := b.currentSize - record.size })

/-- The loop of `release_up_to`, over the records it finds. -/
def releaseLoop (minAckSequence : Nat) : List BufferedRecord → ReplicationBuffer → ReplicationBuffer
  | [], b => b
  | record :: records, b =>
    if record.sequence ≤ minAckSequence then releaseLoop minAckSequence records b.popFront.2 else b

def releaseUpTo (b : ReplicationBuffer) (minAckSequence : Nat) : ReplicationBuffer :=
  releaseLoop minAckSequence b.records b

def shouldApplyBackpressure (b : ReplicationBuffer) : Bool := b.currentSize ≥ b.highWatermark

def shouldRelieveBackpressure (b : ReplicationBuffer) : Bool := b.currentSize < b.lowWatermark

/-- `replica_acks` is a list of ids that differ, each with a value. -/
def getMinSequence (replicaAcks : List (ReplicaId × Nat)) : Option Nat :=
  (replicaAcks.map Prod.snd).min?

theorem records_releaseUpTo (b : ReplicationBuffer) (m : Nat) :
    (b.releaseUpTo m).records = b.records.dropWhile (·.sequence ≤ m) := by
  have hloop : ∀ (records : List BufferedRecord) (b : ReplicationBuffer), b.records = records →
      (releaseLoop m records b).records = records.dropWhile (·.sequence ≤ m) := by
    intro records
    induction records with
    | nil => exact fun b hb => hb
    | cons record records ih =>
      intro b hb
      unfold releaseLoop
      by_cases hle : record.sequence ≤ m
      · rw [if_pos hle, List.dropWhile_cons_of_pos (by simpa using hle)]
        apply ih
        unfold popFront
        rw [hb]
      · rw [if_neg hle, List.dropWhile_cons_of_neg (by simpa using hle)]
        exact hb
  exact hloop b.records b rfl

theorem records_push {b b' : ReplicationBuffer} {record : BufferedRecord} (h : b.push record = .ok b') :
    b'.records = b.records ++ [record] := by
  unfold push at h
  split at h
  · cases h
  · cases h
    rfl

end ReplicationBuffer

inductive BackpressureState where
  | normal
  | applying
  | relieving
  deriving Repr, DecidableEq

inductive ConnectionState where
  | disconnected
  | connecting
  | connected
  | catchup
  | bootstrapping
  | error
  deriving Repr, DecidableEq

def ConnectionState.canSend : ConnectionState → Bool
  | .connected | .catchup => true
  | _ => false

inductive Queued where
  | commitRecord (sequence : Nat) (record : CommitRecord)
  | heartbeat (sequence : Nat)
  deriving Repr, DecidableEq

structure ReplicaConnection where
  state : ConnectionState
  sendSequence : Nat
  lastAckSequence : Nat
  writeBuffer : List Queued
  -- what has been flushed to the socket
  sent : List Queued
  deriving Repr, DecidableEq

namespace ReplicaConnection

def new : ReplicaConnection := ⟨.connecting, 0, 0, [], []⟩

def queueMessage (c : ReplicaConnection) (message : Queued) : ReplicaConnection :=
  { c with writeBuffer := c.writeBuffer ++ [message] }

def flush (c : ReplicaConnection) : ReplicaConnection :=
  { c with sent := c.sent ++ c.writeBuffer, writeBuffer := [] }

def updateAck (c : ReplicaConnection) (sequence : Nat) : ReplicaConnection :=
  { c with lastAckSequence := max sequence c.lastAckSequence }

/-- The sequence numbers of all commit records that the write buffer has received. -/
def received (c : ReplicaConnection) : List Nat :=
  (c.sent ++ c.writeBuffer).filterMap fun
    | .commitRecord sequence _ => some sequence
    | .heartbeat _ => none

end ReplicaConnection

/-- How far a call of `publish` is. -/
inductive PublishPhase where
  | idle
  | admitted (record : CommitRecord) (recordBytes : Bytes) (checksum : UInt64)
  | numbered (sequence : Nat) (record : CommitRecord) (recordBytes : Bytes) (checksum : UInt64)
  | buffered (sequence : Nat) (record : CommitRecord)
  -- with the connections that are left
  | sending (sequence : Nat) (record : CommitRecord) (left : List ReplicaId)
  | returned (result : Except ReplicationError Unit)

/-- How far a task is that stores an acknowledgment and releases records. -/
inductive ReleasePhase where
  | idle
  -- a handler has found its connection fit for sending, and waits for bytes
  | reading
  | closed
  | storing (replicaId : ReplicaId) (ackSequence : Nat)
  | measuring
  | releasing (minSequence : Nat)
  deriving Repr, DecidableEq

/-- The handler of a connection, or a call of `track_replica_position`. -/
inductive Releaser where
  | handler (replicaId : ReplicaId)
  | call (task : Nat)
  deriving Repr, DecidableEq

structure Publisher where
  config : PrimaryConfig
  buffer : ReplicationBuffer
  sequenceCounter : Nat
  backpressureState : BackpressureState
  replicas : List (ReplicaId × ReplicaConnection)
  replicaAcks : List (ReplicaId × Nat)
  nextReplicaId : Nat
  -- a connection that is in `replicas`, and not yet in `replica_acks`
  accepting : Option ReplicaId
  publishing : Nat → PublishPhase
  -- calls of `publish` that hold the read lock of `replicas`
  readers : Nat
  releasing : Releaser → ReleasePhase
  -- the bytes that have come from each replica, and the sequences it has acknowledged
  inbox : ReplicaId → Bytes
  confirmed : ReplicaId → List Nat

/-- `serde_json::to_vec` of a commit record, and the hash of the standard library. -/
structure Env where
  toJson : CommitRecord → Except String Bytes
  hash : Bytes → UInt64

/-- The messages that a stream of bytes holds, up to the first that is not whole. -/
def messagesIn : Nat → Bytes → List ReplicationMessage
  | 0, _ => []
  | fuel + 1, data =>
    match receiveMessage data with
    | .ok (message, rest) => message :: messagesIn fuel rest
    | .error _ => []

/-- The acknowledgments in a stream of bytes. -/
def acksIn (data : Bytes) : List Nat :=
  ((messagesIn data.length data).filter (·.messageType = .ack)).map (·.sequence.toNat)

namespace Publisher

/-- `start`. -/
def start (config : PrimaryConfig) : Publisher where
  config := config
  buffer := .fromConfig config
  sequenceCounter := 0
  backpressureState := .normal
  replicas := []
  replicaAcks := []
  nextReplicaId := 1
  accepting := none
  publishing := fun _ => .idle
  readers := 0
  releasing := fun _ => .idle
  inbox := fun _ => []
  confirmed := fun _ => []

def connection (p : Publisher) (replicaId : ReplicaId) : Option ReplicaConnection :=
  p.replicas.lookup replicaId

def modifyConnection (p : Publisher) (replicaId : ReplicaId) (f : ReplicaConnection → ReplicaConnection) :
    Publisher :=
  { p with replicas := p.replicas.map fun c => if c.1 = replicaId then (c.1, f c.2) else c }

def setPublish (p : Publisher) (task : Nat) (phase : PublishPhase) : Publisher :=
  { p with publishing := Function.update p.publishing task phase }

@[simp] theorem publishing_setPublish (p : Publisher) (task other : Nat) (phase : PublishPhase) :
    (p.setPublish task phase).publishing other = if other = task then phase else p.publishing other :=
  Function.update_apply ..

def setRelease (p : Publisher) (releaser : Releaser) (phase : ReleasePhase) : Publisher :=
  { p with releasing := Function.update p.releasing releaser phase }

@[simp] theorem releasing_setRelease (p : Publisher) (releaser other : Releaser) (phase : ReleasePhase) :
    (p.setRelease releaser phase).releasing other = if other = releaser then phase else p.releasing other :=
  Function.update_apply ..

/-- `acks.insert(replica_id, sequence)`. -/
def insertAck (p : Publisher) (replicaId : ReplicaId) (sequence : Nat) : Publisher :=
  { p with replicaAcks := (replicaId, sequence) :: p.replicaAcks.filter (·.1 ≠ replicaId) }

inductive Event where
  | begin (task : Nat) (record : CommitRecord)
  | number (task : Nat)
  | push (task : Nat)
  -- the order in which the map of the connections is gone through
  | enter (task : Nat) (order : List ReplicaId)
  | queue (task : Nat)
  | accept
  | initAck
  | check (replicaId : ReplicaId)
  | receive (replicaId : ReplicaId) (chunk : Bytes)
  | timeout (replicaId : ReplicaId)
  | close (replicaId : ReplicaId)
  | releaseBuffered (task : Nat)
  | track (task : Nat) (replicaId : ReplicaId) (ackSequence : Nat)
  | storeAck (releaser : Releaser)
  | measure (releaser : Releaser)
  | release (releaser : Releaser)
  | flush (replicaId : ReplicaId)
  | heartbeat (replicaId : ReplicaId)
  | disconnect (replicaId : ReplicaId)

/-- The check of the backpressure, and the serialization. -/
def admitRecord (env : Env) (p : Publisher) (record : CommitRecord) : PublishPhase :=
  if p.backpressureState = .applying then
    .returned (.error (.bufferOverflow p.buffer.currentSize p.config.replicationBufferSize))
  else
    match env.toJson record with
    | .error e => .returned (.error (.invalidMessage ("Failed to serialize: " ++ e)))
    | .ok recordBytes => .admitted record recordBytes (env.hash recordBytes)

/-- `publish` is called. -/
def begin (p : Publisher) (env : Env) (task : Nat) (record : CommitRecord) : Option Publisher :=
  match p.publishing task with
  | .idle | .returned _ => some (p.setPublish task (p.admitRecord env record))
  | _ => none

/-- `sequence_counter.fetch_add(1)`. -/
def number (p : Publisher) (task : Nat) : Option Publisher :=
  match p.publishing task with
  | .admitted record recordBytes checksum =>
    some ({ p with sequenceCounter := (p.sequenceCounter + 1) % 2 ^ 64 }.setPublish task
      (.numbered p.sequenceCounter record recordBytes checksum))
  | _ => none

def push (p : Publisher) (task : Nat) : Option Publisher :=
  match p.publishing task with
  | .numbered sequence record recordBytes checksum =>
    match p.buffer.push ⟨record.txnId, sequence, recordBytes, checksum⟩ with
    | .error e => some (p.setPublish task (.returned (.error e)))
    | .ok buffer =>
      let backpressureState :=
        if buffer.shouldApplyBackpressure then BackpressureState.applying else p.backpressureState
      some ({ p with buffer, backpressureState }.setPublish task (.buffered sequence record))
  | _ => none

def enter (p : Publisher) (task : Nat) (order : List ReplicaId) : Option Publisher :=
  match p.publishing task with
  | .buffered sequence record =>
    if order.Perm (p.replicas.map Prod.fst) then
      some ({ p with readers := p.readers + 1 }.setPublish task (.sending sequence record order))
    else none
  | _ => none

/-- The next connection, or the end of the loop. -/
def queue (p : Publisher) (task : Nat) : Option Publisher :=
  match p.publishing task with
  | .sending _ _ [] => some ({ p with readers := p.readers - 1 }.setPublish task (.returned (.ok ())))
  | .sending sequence record (replicaId :: left) =>
    some ((p.modifyConnection replicaId fun c =>
      if c.state.canSend then
        { c with sendSequence := (sequence + 1) % 2 ^ 64 }.queueMessage (.commitRecord sequence record)
      else c).setPublish task (.sending sequence record left))
  | _ => none

/-- A connection comes in; the write lock waits for every publish that holds the read lock. -/
def accept (p : Publisher) : Option Publisher :=
  if p.accepting ≠ none then none
  else
    let nextReplicaId := (p.nextReplicaId + 1) % 2 ^ 64
    if p.replicas.length ≥ p.config.maxReplicas then some { p with nextReplicaId }
    else if p.readers ≠ 0 then none
    else some { p with
      nextReplicaId
      replicas := p.replicas.filter (·.1 ≠ p.nextReplicaId) ++
        [(p.nextReplicaId, { ReplicaConnection.new with state := .connected })]
      accepting := some p.nextReplicaId }

def initAck (p : Publisher) : Option Publisher :=
  match p.accepting with
  | some replicaId => some { p.insertAck replicaId 0 with accepting := none }
  | none => none

/-- The handler of a connection starts a round; it is spawned after the first acknowledgment. -/
def check (p : Publisher) (replicaId : ReplicaId) : Option Publisher :=
  match p.connection replicaId with
  | some c =>
    if p.releasing (.handler replicaId) = .idle ∧ p.accepting ≠ some replicaId ∧ c.state.canSend then
      some (p.setRelease (.handler replicaId) .reading)
    else none
  | none => none

/-- The handler reads bytes: "for now just acknowledge". -/
def receive (p : Publisher) (replicaId : ReplicaId) (chunk : Bytes) : Option Publisher :=
  match p.connection replicaId with
  | some c =>
    if p.releasing (.handler replicaId) = .reading ∧ chunk ≠ [] ∧ chunk.length ≤ 4096 then
      let inbox := p.inbox replicaId ++ chunk
      some ({ p with
        inbox := Function.update p.inbox replicaId inbox
        confirmed := Function.update p.confirmed replicaId (p.confirmed replicaId ++ acksIn inbox)
        }.setRelease (.handler replicaId) (.storing replicaId c.sendSequence))
    else none
  | none => none

/-- The heartbeats have timed out, or a flush has failed. -/
def disconnect (p : Publisher) (replicaId : ReplicaId) : Publisher :=
  p.modifyConnection replicaId ({ · with state := .disconnected })

/-- No bytes within a second. -/
def timeout (p : Publisher) (replicaId : ReplicaId) : Option Publisher :=
  if p.releasing (.handler replicaId) = .reading then some (p.setRelease (.handler replicaId) .idle)
  else none

/-- The connection is closed, or a read fails: the handler ends. -/
def close (p : Publisher) (replicaId : ReplicaId) : Option Publisher :=
  if p.releasing (.handler replicaId) = .reading then
    some ((p.disconnect replicaId).setRelease (.handler replicaId) .closed)
  else none

/-- `release_buffered_records` is called on its own. -/
def releaseBuffered (p : Publisher) (task : Nat) : Option Publisher :=
  if p.releasing (.call task) = .idle then some (p.setRelease (.call task) .measuring) else none

/-- `track_replica_position` is called with what the replica has acknowledged. -/
def track (p : Publisher) (task : Nat) (replicaId : ReplicaId) (ackSequence : Nat) : Option Publisher :=
  if p.releasing (.call task) = .idle then
    some ({ p with
      confirmed := Function.update p.confirmed replicaId (p.confirmed replicaId ++ [ackSequence])
      }.setRelease (.call task) (.storing replicaId ackSequence))
  else none

/-- The acknowledgment is stored; `track_replica_position` stores it in the connection, too. -/
def storeAck (p : Publisher) (releaser : Releaser) : Option Publisher :=
  match p.releasing releaser with
  | .storing replicaId ackSequence =>
    let p := p.insertAck replicaId ackSequence
    let p :=
      match releaser with
      | .call _ => p.modifyConnection replicaId (·.updateAck ackSequence)
      | .handler _ => p
    some (p.setRelease releaser .measuring)
  | _ => none

def measure (p : Publisher) (releaser : Releaser) : Option Publisher :=
  match p.releasing releaser with
  | .measuring =>
    match ReplicationBuffer.getMinSequence p.replicaAcks with
    | some minSequence => some (p.setRelease releaser (.releasing minSequence))
    | none => some (p.setRelease releaser .idle)
  | _ => none

def release (p : Publisher) (releaser : Releaser) : Option Publisher :=
  match p.releasing releaser with
  | .releasing minSequence =>
    let buffer := p.buffer.releaseUpTo minSequence
    let backpressureState :=
      if buffer.shouldRelieveBackpressure then BackpressureState.relieving else p.backpressureState
    some ({ p with buffer, backpressureState }.setRelease releaser .idle)
  | _ => none

/-- A heartbeat takes a sequence number of its own. -/
def heartbeat (p : Publisher) (replicaId : ReplicaId) : Option Publisher :=
  match p.connection replicaId with
  | some c =>
    if c.state.canSend then
      some ({ p with sequenceCounter := (p.sequenceCounter + 1) % 2 ^ 64 }.modifyConnection replicaId
        (·.queueMessage (.heartbeat p.sequenceCounter)))
    else none
  | none => none

/-- The handler writes what is queued to the socket. -/
def flush (p : Publisher) (replicaId : ReplicaId) : Option Publisher :=
  if p.releasing (.handler replicaId) = .reading then some (p.modifyConnection replicaId (·.flush)) else none

/-- What an event does; `none` where it cannot happen. -/
def step (env : Env) (p : Publisher) : Event → Option Publisher
  | .begin task record => p.begin env task record
  | .number task => p.number task
  | .push task => p.push task
  | .enter task order => p.enter task order
  | .queue task => p.queue task
  | .accept => p.accept
  | .initAck => p.initAck
  | .check replicaId => p.check replicaId
  | .receive replicaId chunk => p.receive replicaId chunk
  | .timeout replicaId => p.timeout replicaId
  | .close replicaId => p.close replicaId
  | .releaseBuffered task => p.releaseBuffered task
  | .track task replicaId ackSequence => p.track task replicaId ackSequence
  | .storeAck releaser => p.storeAck releaser
  | .measure releaser => p.measure releaser
  | .release releaser => p.release releaser
  | .flush replicaId => p.flush replicaId
  | .heartbeat replicaId => p.heartbeat replicaId
  | .disconnect replicaId => some (p.disconnect replicaId)

/-- An interleaving. -/
abbrev run (env : Env) : Publisher → List Event → Option Publisher := Runs.run (step env)

/-- Every step of an interleaving finds the condition in the state it starts from. -/
abbrev RunMeets (env : Env) (C : Publisher → Event → Prop) : Publisher → List Event → Prop := Runs.Meets (step env) C

/-- The call whose step it is. -/
def Event.publisher? : Event → Option Nat
  | .begin task _ | .number task | .push task | .enter task _ | .queue task => some task
  | _ => none

theorem publishing_step {env : Env} {p q : Publisher} {e : Event} {other : Nat}
    (hother : e.publisher? ≠ some other) (hstep : p.step env e = some q) :
    q.publishing other = p.publishing other := by
  have hset : ∀ (p : Publisher) (task : Nat) (phase : PublishPhase), some task ≠ some other →
      (p.setPublish task phase).publishing other = p.publishing other := by
    intro p task phase hne
    rw [publishing_setPublish, if_neg fun heq => hne (by rw [heq])]
  cases e with
  | begin task record =>
    change p.begin env task record = some q at hstep
    unfold Publisher.begin at hstep
    split at hstep <;> cases hstep
    · exact hset p task _ hother
    · exact hset p task _ hother
  | number task =>
    change p.number task = some q at hstep
    unfold Publisher.number at hstep
    split at hstep <;> cases hstep
    exact hset _ task _ hother
  | push task =>
    change p.push task = some q at hstep
    unfold Publisher.push at hstep
    split at hstep
    · split at hstep <;> cases hstep
      · exact hset _ task _ hother
      · exact hset _ task _ hother
    · cases hstep
  | enter task order =>
    change p.enter task order = some q at hstep
    unfold Publisher.enter at hstep
    split at hstep
    · split at hstep <;> cases hstep
      exact hset _ task _ hother
    · cases hstep
  | queue task =>
    change p.queue task = some q at hstep
    unfold Publisher.queue at hstep
    split at hstep <;> cases hstep
    · exact hset _ task _ hother
    · exact hset _ task _ hother
  | storeAck releaser =>
    change p.storeAck releaser = some q at hstep
    unfold Publisher.storeAck at hstep
    split at hstep <;> cases hstep
    cases releaser <;> rfl
  | _ =>
    simp only [Publisher.step, Publisher.accept, Publisher.initAck, Publisher.check, Publisher.receive,
      Publisher.timeout, Publisher.close, Publisher.releaseBuffered, Publisher.track, Publisher.measure,
      Publisher.release, Publisher.flush, Publisher.heartbeat, Publisher.disconnect] at hstep
    repeat' split at hstep
    all_goals cases hstep
    all_goals rfl

/-- A commit record without mutations, as `serde_json` writes it, and its hash. -/
def emptyRecord : CommitRecord := ⟨1, 100, [], 0⟩

def emptyRecordEnv : Env where
  toJson _ := .ok [123, 34, 116, 120, 110, 95, 105, 100, 34, 58, 49, 44, 34, 114, 111, 111, 116, 95, 112, 97,
    103, 101, 95, 105, 100, 34, 58, 49, 48, 48, 44, 34, 109, 117, 116, 97, 116, 105, 111, 110, 115, 34, 58,
    91, 93, 44, 34, 99, 104, 101, 99, 107, 115, 117, 109, 34, 58, 48, 125]
  hash _ := 0xd4c2b9543834eb89

def defaultConfig : PrimaryConfig := ⟨10, 104857600⟩

end Publisher

end Northstar.Replication
