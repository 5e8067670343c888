import Northstar.Replication.Publisher
import Mathlib.Data.List.TakeWhile

/-!
# Acks — which records are given up

A record leaves the buffer when a task that has measured the minimum of `replica_acks` gets the lock of the
buffer.  What is stored in `replica_acks` is 0 for a replica that has just connected, although record 0 has
that number, the number after the last one sent for a replica that has sent any bytes, and otherwise what
`track_replica_position` has been told.
-/

namespace Northstar.Replication

open Bytes
open Txn (CommitRecord)

namespace Publisher

/-- The replica has acknowledged this record, or a later one. -/
def Confirmed (p : Publisher) (replicaId : ReplicaId) (s : Nat) : Prop :=
  ∃ acknowledged ∈ p.confirmed replicaId, s ≤ acknowledged

/-- All replicas that are in `replica_acks` have acknowledged the records up to `m`. -/
def Covered (p : Publisher) (m : Nat) : Prop :=
  ∀ record ∈ p.buffer.records, record.sequence ≤ m →
    ∀ ack ∈ p.replicaAcks, p.Confirmed ack.1 record.sequence

/-- A task has measured this minimum, and is about to release the records up to it. -/
def Pending (p : Publisher) (m : Nat) : Prop := ∃ releaser, p.releasing releaser = .releasing m

/-- When the minimum is measured, a record that is not above it has been acknowledged by all replicas; and
while a task waits with the minimum, nothing comes in that has not been acknowledged. -/
def Honest (p : Publisher) : Event → Prop
  | .measure releaser => p.releasing releaser = .measuring →
      ∀ record ∈ p.buffer.records, (∀ ack ∈ p.replicaAcks, record.sequence ≤ ack.2) →
        ∀ ack ∈ p.replicaAcks, p.Confirmed ack.1 record.sequence
  | .push task => ∀ s record recordBytes checksum, p.publishing task = .numbered s record recordBytes checksum →
      ∀ m, p.Pending m → s ≤ m → ∀ ack ∈ p.replicaAcks, p.Confirmed ack.1 s
  | .initAck => ∀ replicaId, p.accepting = some replicaId →
      ∀ m, p.Pending m → ∀ record ∈ p.buffer.records, record.sequence ≤ m →
        p.Confirmed replicaId record.sequence
  | .storeAck releaser => ∀ replicaId sequence, p.releasing releaser = .storing replicaId sequence →
      replicaId ∉ p.replicaAcks.map Prod.fst →
        ∀ m, p.Pending m → ∀ record ∈ p.buffer.records, record.sequence ≤ m →
          p.Confirmed replicaId record.sequence
  | _ => True

/-- The minimum of a task that is about to release records is covered. -/
def Sound (p : Publisher) : Prop := ∀ m, p.Pending m → p.Covered m

namespace Sound

variable {env : Env} {p q : Publisher}

theorem start (config : PrimaryConfig) : Sound (start config) := by
  rintro m ⟨releaser, hreleaser⟩
  exact nomatch hreleaser

theorem of_less (h : Sound p) (hrecords : ∀ record ∈ q.buffer.records, record ∈ p.buffer.records)
    (hacks : ∀ ack ∈ q.replicaAcks, ∃ old ∈ p.replicaAcks, old.1 = ack.1)
    (hpending : ∀ m, q.Pending m → p.Pending m)
    (hconfirmed : ∀ replicaId s, p.Confirmed replicaId s → q.Confirmed replicaId s) : Sound q := by
  intro m hm record hrecord hle ack hack
  rcases hacks ack hack with ⟨old, hold, heq⟩
  rw [← heq]
  exact hconfirmed _ _ (h m (hpending m hm) record (hrecords record hrecord) hle old hold)

theorem congr (h : Sound p) (hrecords : q.buffer = p.buffer) (hacks : q.replicaAcks = p.replicaAcks)
    (hreleasing : q.releasing = p.releasing) (hconfirmed : q.confirmed = p.confirmed) : Sound q := by
  unfold Sound Covered Pending Confirmed
  rw [hrecords, hacks, hreleasing, hconfirmed]
  exact h

variable {releaser : Releaser}

theorem pending_setRelease {phase : ReleasePhase} {m : Nat}
    (hphase : ∀ m, phase ≠ .releasing m) (hm : (p.setRelease releaser phase).Pending m) : p.Pending m := by
  rcases hm with ⟨other, hother⟩
  rw [releasing_setRelease] at hother
  split at hother
  · exact absurd hother (hphase m)
  · exact ⟨other, hother⟩

theorem setRelease (h : Sound p) {phase : ReleasePhase}
    (hphase : ∀ m, phase ≠ .releasing m) : Sound (p.setRelease releaser phase) :=
  h.of_less (fun _ hrecord => hrecord) (fun ack hack => ⟨ack, hack, rfl⟩)
    (fun _ hm => pending_setRelease hphase hm) fun _ _ hs => hs

theorem confirm (h : Sound p) (replicaId : ReplicaId) (more : List Nat) (inbox : ReplicaId → Bytes) :
    Sound { p with
      inbox
      confirmed := Function.update p.confirmed replicaId (p.confirmed replicaId ++ more) } := by
  refine h.of_less (fun _ hrecord => hrecord) (fun ack hack => ⟨ack, hack, rfl⟩) (fun _ hm => hm) ?_
  rintro other s ⟨acknowledged, hmem, hle⟩
  refine ⟨acknowledged, ?_, hle⟩
  show acknowledged ∈ Function.update p.confirmed replicaId (p.confirmed replicaId ++ more) other
  rw [Function.update_apply]
  split
  next heq =>
    subst heq
    exact List.mem_append_left _ hmem
  next => exact hmem

/-- A value is stored for a replica; if the replica is new, it has acknowledged what is pending. -/
theorem insertAck (h : Sound p) {replicaId : ReplicaId} (sequence : Nat)
    (hnew : replicaId ∉ p.replicaAcks.map Prod.fst → ∀ m, p.Pending m →
      ∀ record ∈ p.buffer.records, record.sequence ≤ m → p.Confirmed replicaId record.sequence) :
    Sound (p.insertAck replicaId sequence) := by
  intro m hm record hrecord hle ack hack
  rcases List.mem_cons.mp hack with rfl | hack
  · show p.Confirmed replicaId record.sequence
    by_cases hmem : replicaId ∈ p.replicaAcks.map Prod.fst
    · rcases List.mem_map.mp hmem with ⟨old, hold, rfl⟩
      exact h m hm record hrecord hle old hold
    · exact hnew hmem m hm record hrecord hle
  · exact h m hm record hrecord hle ack (List.mem_of_mem_filter hack)

theorem push (h : Sound p) {task : Nat} (hhonest : p.Honest (.push task)) (hstep : p.push task = some q) :
    Sound q := by
  unfold Publisher.push at hstep
  split at hstep
  case h_1 sequence record recordBytes checksum hphase =>
    split at hstep
    case h_1 =>
      cases hstep
      exact h.congr rfl rfl rfl rfl
    case h_2 buffer hbuffer =>
      cases hstep
      intro m hm other hother hle ack hack
      have hother : other ∈ p.buffer.records ++ [⟨record.txnId, sequence, recordBytes, checksum⟩] := by
        rw [← ReplicationBuffer.records_push hbuffer]
        exact hother
      rcases List.mem_append.mp hother with hold | hnew
      · exact h m hm other hold hle ack hack
      · rw [List.mem_singleton.mp hnew] at hle ⊢
        exact hhonest sequence record recordBytes checksum hphase m hm hle ack hack
  case h_2 => cases hstep

theorem storeAck (h : Sound p) (hhonest : p.Honest (.storeAck releaser))
    (hstep : p.storeAck releaser = some q) : Sound q := by
  unfold Publisher.storeAck at hstep
  split at hstep
  case h_1 replicaId ackSequence hphase =>
    have hstored : Sound (p.insertAck replicaId ackSequence) :=
      h.insertAck ackSequence (hhonest replicaId ackSequence hphase)
    cases hstep
    apply Sound.setRelease
    · cases releaser with
      | handler _ => exact hstored
      | call _ => exact hstored.congr rfl rfl rfl rfl
    · exact fun m hm => nomatch hm
  case h_2 => cases hstep

theorem measure (h : Sound p) (hhonest : p.Honest (.measure releaser))
    (hstep : p.measure releaser = some q) : Sound q := by
  unfold Publisher.measure at hstep
  split at hstep
  case h_1 hphase =>
    split at hstep
    case h_1 minSequence hmin =>
      cases hstep
      rintro m ⟨other, hother⟩ record hrecord hle ack hack
      rw [releasing_setRelease] at hother
      split at hother
      · cases hother
        refine hhonest hphase record hrecord ?_ ack hack
        -- the minimum is not above any value
        intro each heach
        have hleast := (List.min?_eq_some_iff.mp hmin).2 each.2 (List.mem_map_of_mem heach)
        exact Nat.le_trans hle hleast
      · exact h m ⟨other, hother⟩ record hrecord hle ack hack
    case h_2 =>
      cases hstep
      exact h.setRelease fun m hm => nomatch hm
  case h_2 => cases hstep

theorem release (h : Sound p) (hstep : p.release releaser = some q) : Sound q := by
  unfold Publisher.release at hstep
  split at hstep
  case h_1 minSequence _ =>
    cases hstep
    apply Sound.setRelease
    · refine h.of_less ?_ (fun ack hack => ⟨ack, hack, rfl⟩) (fun _ hm => hm) fun _ _ hs => hs
      intro record hrecord
      have hrecord : record ∈ (p.buffer.releaseUpTo minSequence).records := hrecord
      rw [ReplicationBuffer.records_releaseUpTo] at hrecord
      exact (List.dropWhile_sublist _).subset hrecord
    · exact fun m hm => nomatch hm
  case h_2 => cases hstep

theorem step (h : Sound p) {e : Event} (hhonest : p.Honest e) (hstep : p.step env e = some q) :
    Sound q := by
  cases e with
  | push task => exact h.push hhonest hstep
  | storeAck releaser => exact h.storeAck hhonest hstep
  | measure releaser => exact h.measure hhonest hstep
  | release releaser => exact h.release hstep
  | initAck =>
    change p.initAck = some q at hstep
    unfold Publisher.initAck at hstep
    split at hstep
    case h_1 replicaId haccepting =>
      cases hstep
      have hstored : Sound (p.insertAck replicaId 0) :=
        h.insertAck 0 fun _ => hhonest replicaId haccepting
      exact hstored.congr rfl rfl rfl rfl
    case h_2 => cases hstep
  | receive replicaId chunk =>
    change p.receive replicaId chunk = some q at hstep
    unfold Publisher.receive at hstep
    split at hstep
    · split at hstep
      · cases hstep
        exact (h.confirm replicaId _ _).setRelease fun m hm => nomatch hm
      · cases hstep
    · cases hstep
  | track task replicaId ackSequence =>
    change p.track task replicaId ackSequence = some q at hstep
    unfold Publisher.track at hstep
    split at hstep
    · cases hstep
      exact (h.confirm replicaId [ackSequence] p.inbox).setRelease fun m hm => nomatch hm
    · cases hstep
  | check replicaId =>
    change p.check replicaId = some q at hstep
    unfold Publisher.check at hstep
    split at hstep
    · split at hstep
      · cases hstep
        exact h.setRelease fun m hm => nomatch hm
      · cases hstep
    · cases hstep
  | timeout replicaId =>
    change p.timeout replicaId = some q at hstep
    unfold Publisher.timeout at hstep
    split at hstep
    · cases hstep
      exact h.setRelease fun m hm => nomatch hm
    · cases hstep
  | close replicaId =>
    change p.close replicaId = some q at hstep
    unfold Publisher.close at hstep
    split at hstep
    · cases hstep
      have hclosed : Sound (p.disconnect replicaId) := h.congr rfl rfl rfl rfl
      exact hclosed.setRelease fun m hm => nomatch hm
    · cases hstep
  | releaseBuffered task =>
    change p.releaseBuffered task = some q at hstep
    unfold Publisher.releaseBuffered at hstep
    split at hstep
    · cases hstep
      exact h.setRelease fun m hm => nomatch hm
    · cases hstep
  | _ =>
    -- publishing, connecting and sending touch neither the buffer nor the acknowledgments
    simp only [Publisher.step, Publisher.begin, Publisher.number, Publisher.enter, Publisher.queue,
      Publisher.accept, Publisher.flush, Publisher.heartbeat, Publisher.disconnect] at hstep
    repeat' split at hstep
    all_goals cases hstep
    all_goals exact h.congr rfl rfl rfl rfl

end Sound

theorem records_step {env : Env} {p q : Publisher} {e : Event} (hstep : p.step env e = some q) :
    (∃ added, q.buffer.records = p.buffer.records ++ added) ∨
      ∃ m, p.Pending m ∧ q.buffer.records = p.buffer.records.dropWhile (·.sequence ≤ m) := by
  cases e with
  | push task =>
    change p.push task = some q at hstep
    unfold Publisher.push at hstep
    split at hstep
    · split at hstep
      case h_1 =>
        cases hstep
        exact .inl ⟨[], (List.append_nil _).symm⟩
      case h_2 buffer hbuffer =>
        cases hstep
        exact .inl ⟨_, ReplicationBuffer.records_push hbuffer⟩
    · cases hstep
  | release releaser =>
    change p.release releaser = some q at hstep
    unfold Publisher.release at hstep
    split at hstep
    case h_1 minSequence hphase =>
      cases hstep
      exact .inr ⟨minSequence, ⟨releaser, hphase⟩, ReplicationBuffer.records_releaseUpTo ..⟩
    case h_2 => cases hstep
  | storeAck releaser =>
    change p.storeAck releaser = some q at hstep
    unfold Publisher.storeAck at hstep
    split at hstep <;> cases hstep
    cases releaser <;> exact .inl ⟨[], (List.append_nil _).symm⟩
  | _ =>
    simp only [Publisher.step, Publisher.begin, Publisher.number, Publisher.enter, Publisher.queue,
      Publisher.accept, Publisher.initAck, Publisher.check, Publisher.receive, Publisher.timeout,
      Publisher.close, Publisher.releaseBuffered, Publisher.track, Publisher.measure, Publisher.flush,
      Publisher.heartbeat, Publisher.disconnect] at hstep
    repeat' split at hstep
    all_goals cases hstep
    all_goals exact .inl ⟨[], (List.append_nil _).symm⟩

/-- The record is in the buffer, and the step takes it out. -/
def Leaves (p q : Publisher) (record : BufferedRecord) : Prop :=
  q.buffer.records.count record < p.buffer.records.count record

theorem Sound.confirmed_of_leaves {env : Env} {p q : Publisher} {e : Event} (h : Sound p)
    (hstep : p.step env e = some q) {record : BufferedRecord} (hleaves : Leaves p q record) :
    ∀ ack ∈ p.replicaAcks, p.Confirmed ack.1 record.sequence := by
  unfold Leaves at hleaves
  rcases records_step hstep with ⟨added, hadded⟩ | ⟨m, hm, hrest⟩
  · rw [hadded, List.count_append] at hleaves
    omega
  · rw [hrest] at hleaves
    have hsplit := congrArg (List.count record)
      (List.takeWhile_append_dropWhile (p := fun r : BufferedRecord => r.sequence ≤ m)
        (l := p.buffer.records))
    rw [List.count_append] at hsplit
    have hmem : record ∈ p.buffer.records.takeWhile (·.sequence ≤ m) := by
      apply List.count_pos_iff.mp
      omega
    have hle : record.sequence ≤ m := by simpa using List.mem_takeWhile_imp hmem
    exact h m hm record ((List.takeWhile_sublist _).subset hmem) hle

theorem acknowledged_of_leaves (env : Env) (config : PrimaryConfig) (events : List Event) (p : Publisher)
    (hhonest : RunMeets env Honest (start config) events)
    (hrun : (start config).run env events = some p) :
    ∀ e q, p.step env e = some q → ∀ record, Leaves p q record →
      ∀ ack ∈ p.replicaAcks, p.Confirmed ack.1 record.sequence := by
  intro e q hstep record hleaves
  have hsound : Sound p := Runs.invariant (fun _ _ _ h hhonest hstep => h.step hhonest hstep)
    (Sound.start config) hhonest hrun
  exact hsound.confirmed_of_leaves hstep hleaves

/-- Record 0 is published, a replica connects and acknowledges record 0. -/
def acknowledgedEvents : List Event :=
  [.begin 0 emptyRecord, .number 0, .push 0, .accept, .initAck, .check 1,
    .receive 1 (ReplicationMessage.ack 0).serialize, .storeAck (.handler 1), .measure (.handler 1)]

theorem acknowledged_of_leaves_record_zero :
    ∃ p q record, (start defaultConfig).run emptyRecordEnv acknowledgedEvents = some p ∧
      p.step emptyRecordEnv (.release (.handler 1)) = some q ∧ Leaves p q record ∧ record.sequence = 0 ∧
        p.replicaAcks.map Prod.fst = [1] ∧ ∀ ack ∈ p.replicaAcks, p.Confirmed ack.1 record.sequence := by
  have hhonest : RunMeets emptyRecordEnv Honest (start defaultConfig) acknowledgedEvents := by
    refine ⟨trivial, fun _ h => ?_⟩
    cases h
    refine ⟨trivial, fun _ h => ?_⟩
    cases h
    refine ⟨?_, fun _ h => ?_⟩
    · rintro s record recordBytes checksum - m ⟨releaser, hreleaser⟩
      exact nomatch hreleaser
    cases h
    refine ⟨trivial, fun _ h => ?_⟩
    cases h
    refine ⟨?_, fun _ h => ?_⟩
    · rintro replicaId - m ⟨releaser, hreleaser⟩
      exact nomatch hreleaser
    cases h
    refine ⟨trivial, fun _ h => ?_⟩
    cases h
    refine ⟨trivial, fun _ h => ?_⟩
    cases h
    refine ⟨?_, fun _ h => ?_⟩
    · intro replicaId sequence hphase hnew
      cases hphase
      exact absurd (List.mem_singleton_self 1) hnew
    cases h
    refine ⟨?_, fun _ _ => trivial⟩
    intro m
    refine List.forall_mem_singleton.mpr fun _ => List.forall_mem_singleton.mpr ?_
    exact ⟨0, List.mem_singleton_self 0, Nat.le_refl 0⟩
  have hrun : ∃ p q record, (start defaultConfig).run emptyRecordEnv acknowledgedEvents = some p ∧
      p.step emptyRecordEnv (.release (.handler 1)) = some q ∧ p.buffer.records = [record] ∧
        q.buffer.records = [] ∧ record.sequence = 0 ∧ p.replicaAcks.map Prod.fst = [1] :=
    ⟨_, _, _, rfl, rfl, rfl, rfl, rfl, rfl⟩
  rcases hrun with ⟨p, q, record, hrun, hstep, hbefore, hafter, hsequence, hacks⟩
  have hleaves : Leaves p q record := by
    unfold Leaves
    rw [hbefore, hafter, List.count_nil, List.count_singleton_self]
    exact Nat.one_pos
  exact ⟨p, q, record, hrun, hstep, hleaves, hsequence, hacks,
    acknowledged_of_leaves _ _ _ p hhonest hrun _ q hstep record hleaves⟩

/-- A replica connects, record 0 is published, and the replica sends a byte that acknowledges nothing. -/
theorem any_bytes_release : ¬ ∀ env config events p, (start config).run env events = some p →
      ∀ e q, p.step env e = some q → ∀ record, Leaves p q record →
        ∀ ack ∈ p.replicaAcks, p.Confirmed ack.1 record.sequence := by
  intro hclaim
  have hrun : ∃ p q record, (start defaultConfig).run emptyRecordEnv [.accept, .initAck,
      .begin 0 emptyRecord, .number 0, .push 0, .check 1, .receive 1 [1], .storeAck (.handler 1),
      .measure (.handler 1)] = some p ∧ p.step emptyRecordEnv (.release (.handler 1)) = some q ∧
        p.buffer.records = [record] ∧ q.buffer.records = [] ∧ p.replicaAcks = [(1, 0)] ∧
          p.confirmed 1 = [] := ⟨_, _, _, rfl, rfl, rfl, rfl, rfl, rfl⟩
  rcases hrun with ⟨p, q, record, hrun, hstep, hbefore, hafter, hacks, hconfirmed⟩
  have hleaves : Leaves p q record := by
    unfold Leaves
    rw [hbefore, hafter, List.count_nil, List.count_singleton_self]
    exact Nat.one_pos
  have hack : (1, 0) ∈ p.replicaAcks := by
    rw [hacks]
    exact List.mem_singleton_self _
  rcases hclaim _ _ _ p hrun _ q hstep record hleaves _ hack with ⟨acknowledged, hmem, -⟩
  rw [hconfirmed] at hmem
  exact absurd hmem List.not_mem_nil

end Publisher

end Northstar.Replication
