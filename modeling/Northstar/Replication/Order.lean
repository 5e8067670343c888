import Northstar.Replication.Publisher

/-!
# Order — the order of the records

A call of `publish` takes its sequence number before it takes the lock of the buffer, and no lock is held
from the one to the other.  A call that took a later number can overtake it, in front of the buffer and in
front of a connection.  Without such an overtaking the orders are the order of the numbers.
-/

namespace Northstar.Replication

open Bytes
open Txn (CommitRecord)

variable {phase : PublishPhase} {replicaId : ReplicaId}

namespace PublishPhase

/-- The number that a call has taken, until it returns. -/
def sequence? : PublishPhase → Option Nat
  | numbered s _ _ _ | buffered s _ | sending s _ _ => some s
  | _ => none

/-- The call has still to push the record with this number. -/
def Numbered : PublishPhase → Nat → Prop
  | numbered s _ _ _, sequence => s = sequence
  | _, _ => False

/-- The call has still to come to this connection, with the record of this number. -/
def Owes : PublishPhase → ReplicaId → Nat → Prop
  | numbered s _ _ _, _, sequence | buffered s _, _, sequence => s = sequence
  | sending s _ left, replicaId, sequence => s = sequence ∧ replicaId ∈ left
  | _, _, _ => False

def Once : PublishPhase → Prop
  | sending _ _ left => left.Nodup
  | _ => True

theorem sequence?_of_numbered {s : Nat} (h : phase.Numbered s) : phase.sequence? = some s := by
  cases phase <;> simp_all [Numbered, sequence?]

theorem sequence?_of_owes {s : Nat} (h : phase.Owes replicaId s) : phase.sequence? = some s := by
  cases phase <;> simp_all [Owes, sequence?]

/-- What has still to be done in the one phase has to be done in the other. -/
structure Within (phase phase' : PublishPhase) : Prop where
  sequence : ∀ s, phase.sequence? = some s → phase'.sequence? = some s
  numbered : ∀ s, phase.Numbered s → phase'.Numbered s
  owes : ∀ replicaId s, phase.Owes replicaId s → phase'.Owes replicaId s

theorem within_returned (result : Except ReplicationError Unit) (phase : PublishPhase) :
    (returned result).Within phase :=
  ⟨fun _ h => (nomatch h), fun _ h => h.elim, fun _ _ h => h.elim⟩

theorem within_admit (env : Env) (p : Publisher) (record : CommitRecord) (phase : PublishPhase) :
    (p.admitRecord env record).Within phase ∧ (p.admitRecord env record).Once := by
  unfold Publisher.admitRecord
  split
  · exact ⟨within_returned _ _, trivial⟩
  · split
    · exact ⟨within_returned _ _, trivial⟩
    · exact ⟨⟨fun _ h => (nomatch h), fun _ h => h.elim, fun _ _ h => h.elim⟩, trivial⟩

end PublishPhase

namespace Publisher

/-- No record is behind a larger one, `release_up_to` removes what is not larger than the threshold, and no
connection has received a record after a larger one. -/
structure Ordered (p : Publisher) : Prop where
  buffer : (p.buffer.records.map (·.sequence)).Pairwise (· < ·)
  releases : ∀ m, (p.buffer.releaseUpTo m).records = p.buffer.records.filter (m < ·.sequence)
  replicas : ∀ c ∈ p.replicas, c.2.received.Pairwise (· < ·)

/-- The calls come to the buffer, and to each connection that takes messages, in the order of their
numbers, and no counter wraps. -/
def InTurn (p : Publisher) : Event → Prop
  | .number _ | .heartbeat _ => p.sequenceCounter + 1 < 2 ^ 64
  | .accept => p.nextReplicaId + 1 < 2 ^ 64
  | .push task => ∀ s, (p.publishing task).Numbered s →
      ∀ other s', (p.publishing other).Numbered s' → s ≤ s'
  | .queue task => ∀ s record replicaId left, p.publishing task = .sending s record (replicaId :: left) →
      ∀ c, (replicaId, c) ∈ p.replicas → c.state.canSend →
        ∀ other s', (p.publishing other).Owes replicaId s' → s ≤ s'
  | _ => True

structure Orderly (p : Publisher) : Prop where
  taken : ∀ task s, (p.publishing task).sequence? = some s → s < p.sequenceCounter
  distinct : ∀ task other s, (p.publishing task).sequence? = some s →
    (p.publishing other).sequence? = some s → task = other
  once : ∀ task, (p.publishing task).Once
  buffer : (p.buffer.records.map (·.sequence)).Pairwise (· < ·)
  below : ∀ s ∈ p.buffer.records.map (·.sequence), s < p.sequenceCounter
  pending : ∀ task s, (p.publishing task).Numbered s → ∀ s' ∈ p.buffer.records.map (·.sequence), s' < s
  replicas : ∀ c ∈ p.replicas, c.2.received.Pairwise (· < ·)
  received : ∀ c ∈ p.replicas, ∀ s ∈ c.2.received, s < p.sequenceCounter
  owed : ∀ c ∈ p.replicas, ∀ task s, (p.publishing task).Owes c.1 s → ∀ s' ∈ c.2.received, s' < s
  ids : (p.replicas.map Prod.fst).Nodup
  fresh : ∀ c ∈ p.replicas, c.1 < p.nextReplicaId

namespace Orderly

variable {env : Env} {p q : Publisher}

theorem start (config : PrimaryConfig) : Orderly (start config) where
  taken _ _ h := nomatch h
  distinct _ _ _ h := nomatch h
  once _ := trivial
  buffer := List.Pairwise.nil
  below _ h := nomatch h
  pending _ _ h := h.elim
  replicas _ h := nomatch h
  received _ h := nomatch h
  owed _ h := nomatch h
  ids := List.nodup_nil
  fresh _ h := nomatch h

theorem congr (h : Orderly p) (hcounter : q.sequenceCounter = p.sequenceCounter)
    (hrecords : q.buffer.records = p.buffer.records) (hreplicas : q.replicas = p.replicas)
    (hnext : q.nextReplicaId = p.nextReplicaId) (hpublishing : q.publishing = p.publishing) : Orderly q where
  taken := by rw [hpublishing, hcounter]; exact h.taken
  distinct := by rw [hpublishing]; exact h.distinct
  once := by rw [hpublishing]; exact h.once
  buffer := by rw [hrecords]; exact h.buffer
  below := by rw [hrecords, hcounter]; exact h.below
  pending := by rw [hpublishing, hrecords]; exact h.pending
  replicas := by rw [hreplicas]; exact h.replicas
  received := by rw [hreplicas, hcounter]; exact h.received
  owed := by rw [hreplicas, hpublishing]; exact h.owed
  ids := by rw [hreplicas]; exact h.ids
  fresh := by rw [hreplicas, hnext]; exact h.fresh

variable {task : Nat}

theorem setPublish (h : Orderly p)
    (hwithin : phase.Within (p.publishing task)) (honce : phase.Once) :
    Orderly (p.setPublish task phase) := by
  have hphase : ∀ other, ((p.setPublish task phase).publishing other).Within (p.publishing other) := by
    intro other
    rw [publishing_setPublish]
    split
    next heq =>
      subst heq
      exact hwithin
    next => exact ⟨fun _ hs => hs, fun _ hs => hs, fun _ _ hs => hs⟩
  exact
    { taken := fun other s hs => h.taken other s ((hphase other).sequence s hs)
      distinct := fun t other s hs hs' =>
        h.distinct t other s ((hphase t).sequence s hs) ((hphase other).sequence s hs')
      once := by
        intro other
        rw [publishing_setPublish]
        split
        · exact honce
        · exact h.once other
      buffer := h.buffer
      below := h.below
      pending := fun other s hs => h.pending other s ((hphase other).numbered s hs)
      replicas := h.replicas
      received := h.received
      owed := fun c hc other s hs => h.owed c hc other s ((hphase other).owes c.1 s hs)
      ids := h.ids
      fresh := h.fresh }

variable {f : ReplicaConnection → ReplicaConnection}

/-- A connection that receives what is larger than before, and smaller than what is to come. -/
theorem modifyConnection (h : Orderly p)
    (hf : ∀ c, (replicaId, c) ∈ p.replicas → (f c).received.Pairwise (· < ·) ∧
      (∀ s ∈ (f c).received, s < p.sequenceCounter) ∧
      ∀ task s, (p.publishing task).Owes replicaId s → ∀ s' ∈ (f c).received, s' < s) :
    Orderly (p.modifyConnection replicaId f) := by
  have hids : (p.modifyConnection replicaId f).replicas.map Prod.fst = p.replicas.map Prod.fst := by
    show (p.replicas.map _).map Prod.fst = _
    rw [List.map_map]
    apply List.map_congr_left
    intro c _
    show (if c.1 = replicaId then (c.1, f c.2) else c).1 = c.1
    split <;> rfl
  have hmem : ∀ c ∈ (p.modifyConnection replicaId f).replicas,
      c ∈ p.replicas ∨ ∃ c', (replicaId, c') ∈ p.replicas ∧ c = (replicaId, f c') := by
    intro c hc
    rcases List.mem_map.mp hc with ⟨c', hc', rfl⟩
    by_cases heq : c'.1 = replicaId
    · subst heq
      rw [if_pos rfl]
      exact .inr ⟨c'.2, hc', rfl⟩
    · rw [if_neg heq]
      exact .inl hc'
  exact
    { taken := h.taken
      distinct := h.distinct
      once := h.once
      buffer := h.buffer
      below := h.below
      pending := h.pending
      replicas := by
        intro c hc
        rcases hmem c hc with hc | ⟨c', hc', rfl⟩
        · exact h.replicas c hc
        · exact (hf c' hc').1
      received := by
        intro c hc
        rcases hmem c hc with hc | ⟨c', hc', rfl⟩
        · exact h.received c hc
        · exact (hf c' hc').2.1
      owed := by
        intro c hc
        rcases hmem c hc with hc | ⟨c', hc', rfl⟩
        · exact h.owed c hc
        · exact (hf c' hc').2.2
      ids := by
        rw [hids]
        exact h.ids
      fresh := by
        intro c hc
        rcases hmem c hc with hc | ⟨c', hc', rfl⟩
        · exact h.fresh c hc
        · exact h.fresh (replicaId, c') hc' }

theorem modifyConnection_same (h : Orderly p) (hf : ∀ c, (f c).received = c.received) :
    Orderly (p.modifyConnection replicaId f) := by
  apply h.modifyConnection
  intro c hc
  rw [hf c]
  exact ⟨h.replicas _ hc, h.received _ hc, h.owed _ hc⟩

theorem bump (h : Orderly p) : Orderly { p with sequenceCounter := p.sequenceCounter + 1 } :=
  { h with
    taken := fun task s hs => Nat.lt_succ_of_lt (h.taken task s hs)
    below := fun s hs => Nat.lt_succ_of_lt (h.below s hs)
    received := fun c hc s hs => Nat.lt_succ_of_lt (h.received c hc s hs) }

theorem number (h : Orderly p) (hturn : p.InTurn (.number task)) (hstep : p.number task = some q) :
    Orderly q := by
  unfold Publisher.number at hstep
  rw [Nat.mod_eq_of_lt hturn] at hstep
  split at hstep
  case h_1 record recordBytes checksum _ =>
    cases hstep
    refine { h.bump with taken := ?_, distinct := ?_, once := ?_, pending := ?_, owed := ?_ }
    · intro other s hs
      show s < p.sequenceCounter + 1
      rw [publishing_setPublish] at hs
      split at hs
      · cases hs
        exact Nat.lt_succ_self _
      · exact Nat.lt_succ_of_lt (h.taken other s hs)
    · intro t other s ht hother
      rw [publishing_setPublish] at ht hother
      -- the new number is larger than all others
      split at ht <;> split at hother
      next hteq hotherEq => rw [hteq, hotherEq]
      next =>
        cases ht
        exact absurd (h.taken other _ hother) (Nat.lt_irrefl _)
      next =>
        cases hother
        exact absurd (h.taken t _ ht) (Nat.lt_irrefl _)
      next => exact h.distinct t other s ht hother
    · intro other
      rw [publishing_setPublish]
      split
      · trivial
      · exact h.once other
    · intro other s hs
      rw [publishing_setPublish] at hs
      split at hs
      · cases hs
        exact h.below
      · exact h.pending other s hs
    · intro c hc other s hs
      rw [publishing_setPublish] at hs
      split at hs
      · cases hs
        exact h.received c hc
      · exact h.owed c hc other s hs
  case h_2 => cases hstep

theorem push (h : Orderly p) (hturn : p.InTurn (.push task)) (hstep : p.push task = some q) :
    Orderly q := by
  unfold Publisher.push at hstep
  split at hstep
  case h_1 sequence record recordBytes checksum hphase =>
    have hnumbered : (p.publishing task).Numbered sequence := by
      rw [hphase]
      exact rfl
    split at hstep
    case h_1 e _ =>
      cases hstep
      exact h.setPublish (PublishPhase.within_returned _ _) trivial
    case h_2 buffer hbuffer =>
      have hwithin : (PublishPhase.buffered sequence record).Within (p.publishing task) := by
        rw [hphase]
        exact ⟨fun _ hs => hs, fun _ hs => hs.elim, fun _ _ hs => hs⟩
      have hold := h.setPublish hwithin trivial
      have hrecords : buffer.records.map (·.sequence) = p.buffer.records.map (·.sequence) ++ [sequence] := by
        rw [ReplicationBuffer.records_push hbuffer, List.map_append]
        rfl
      cases hstep
      refine { hold with buffer := ?_, below := ?_, pending := ?_ }
      · show (buffer.records.map (·.sequence)).Pairwise (· < ·)
        rw [hrecords, List.pairwise_append]
        refine ⟨h.buffer, List.pairwise_singleton _ _, ?_⟩
        intro s hs s' hs'
        rw [List.mem_singleton.mp hs']
        exact h.pending task sequence hnumbered s hs
      · show ∀ s ∈ buffer.records.map (·.sequence), s < p.sequenceCounter
        rw [hrecords]
        intro s hs
        rcases List.mem_append.mp hs with hs | hs
        · exact h.below s hs
        · rw [List.mem_singleton.mp hs]
          exact h.taken task sequence (PublishPhase.sequence?_of_numbered hnumbered)
      · intro other s hs
        show ∀ s' ∈ buffer.records.map (·.sequence), s' < s
        rw [publishing_setPublish] at hs
        split at hs
        next => exact hs.elim
        next hne =>
          have hs : (p.publishing other).Numbered s := hs
          rw [hrecords]
          intro s' hs'
          rcases List.mem_append.mp hs' with hs' | hs'
          · exact h.pending other s hs s' hs'
          · rw [List.mem_singleton.mp hs']
            -- the call is in turn, and no two calls have the same number
            have hle := hturn sequence hnumbered other s hs
            have hdiff : sequence ≠ s := by
              intro heq
              subst heq
              exact hne (h.distinct other task sequence (PublishPhase.sequence?_of_numbered hs)
                (PublishPhase.sequence?_of_numbered hnumbered))
            omega
  case h_2 => cases hstep

theorem enter (h : Orderly p) {order : List ReplicaId} (hstep : p.enter task order = some q) :
    Orderly q := by
  unfold Publisher.enter at hstep
  split at hstep
  case h_1 sequence record hphase =>
    split at hstep
    case isTrue hperm =>
      cases hstep
      have hwithin : (PublishPhase.sending sequence record order).Within (p.publishing task) := by
        rw [hphase]
        exact ⟨fun _ hs => hs, fun _ hs => hs.elim, fun _ _ hs => hs.1⟩
      exact (h.setPublish hwithin (hperm.nodup_iff.mpr h.ids)).congr rfl rfl rfl rfl rfl
    case isFalse => cases hstep
  case h_2 => cases hstep

theorem queue (h : Orderly p) (hturn : p.InTurn (.queue task)) (hstep : p.queue task = some q) :
    Orderly q := by
  unfold Publisher.queue at hstep
  split at hstep
  case h_1 =>
    cases hstep
    exact (h.setPublish (PublishPhase.within_returned _ _) trivial).congr rfl rfl rfl rfl rfl
  case h_2 sequence record replicaId left hphase =>
    cases hstep
    have honce : (replicaId :: left).Nodup := by
      have hold := h.once task
      rw [hphase] at hold
      exact hold
    have howes : (p.publishing task).Owes replicaId sequence := by
      rw [hphase]
      exact ⟨rfl, List.mem_cons_self ..⟩
    have hwithin : (PublishPhase.sending sequence record left).Within (p.publishing task) := by
      rw [hphase]
      exact ⟨fun _ hs => hs, fun _ hs => hs.elim, fun _ _ hs => ⟨hs.1, List.mem_cons_of_mem _ hs.2⟩⟩
    have hnext := h.setPublish hwithin (List.nodup_cons.mp honce).2
    refine hnext.modifyConnection (f := fun c =>
      if c.state.canSend then
        { c with sendSequence := (sequence + 1) % 2 ^ 64 }.queueMessage (.commitRecord sequence record)
      else c) ?_
    intro c hc
    split
    case isTrue hsend =>
      have hreceived : ReplicaConnection.received
          ({ c with sendSequence := (sequence + 1) % 2 ^ 64 }.queueMessage (.commitRecord sequence record)) =
            c.received ++ [sequence] := by
        show ((c.sent ++ (c.writeBuffer ++ [_])).filterMap _) = _
        rw [← List.append_assoc, List.filterMap_append]
        rfl
      rw [hreceived]
      refine ⟨?_, ?_, ?_⟩
      · rw [List.pairwise_append]
        refine ⟨h.replicas _ hc, List.pairwise_singleton _ _, ?_⟩
        intro s hs s' hs'
        rw [List.mem_singleton.mp hs']
        exact h.owed _ hc task sequence howes s hs
      · intro s hs
        rcases List.mem_append.mp hs with hs | hs
        · exact h.received _ hc s hs
        · rw [List.mem_singleton.mp hs]
          exact h.taken task sequence (PublishPhase.sequence?_of_owes howes)
      · intro other s hs s' hs'
        rw [publishing_setPublish] at hs
        split at hs
        next => exact absurd hs.2 (List.nodup_cons.mp honce).1
        next hne =>
          rcases List.mem_append.mp hs' with hs' | hs'
          · exact h.owed _ hc other s hs s' hs'
          · rw [List.mem_singleton.mp hs']
            have hle := hturn sequence record replicaId left hphase c hc hsend other s hs
            have hdiff : sequence ≠ s := by
              intro heq
              subst heq
              exact hne (h.distinct other task sequence (PublishPhase.sequence?_of_owes hs)
                (PublishPhase.sequence?_of_owes howes))
            omega
    case isFalse => exact ⟨hnext.replicas _ hc, hnext.received _ hc, hnext.owed _ hc⟩
  case h_3 => cases hstep

theorem accept (h : Orderly p) (hturn : p.InTurn .accept) (hstep : p.accept = some q) : Orderly q := by
  have hfresh : p.replicas.filter (·.1 ≠ p.nextReplicaId) = p.replicas :=
    List.filter_eq_self.mpr fun c hc => decide_eq_true (Nat.ne_of_lt (h.fresh c hc))
  unfold Publisher.accept at hstep
  rw [Nat.mod_eq_of_lt hturn, hfresh] at hstep
  split at hstep
  · cases hstep
  · split at hstep
    · cases hstep
      exact { h with fresh := fun c hc => Nat.lt_succ_of_lt (h.fresh c hc) }
    · split at hstep
      · cases hstep
      · cases hstep
        have hmem : ∀ c ∈ p.replicas ++ [(p.nextReplicaId,
            { ReplicaConnection.new with state := .connected })],
            c ∈ p.replicas ∨ (c.1 = p.nextReplicaId ∧ c.2.received = []) := by
          intro c hc
          rcases List.mem_append.mp hc with hc | hc
          · exact .inl hc
          · rw [List.mem_singleton.mp hc]
            exact .inr ⟨rfl, rfl⟩
        refine { h with replicas := ?_, received := ?_, owed := ?_, ids := ?_, fresh := ?_ }
        · intro c hc
          rcases hmem c hc with hc | ⟨-, hnone⟩
          · exact h.replicas c hc
          · rw [hnone]
            exact List.Pairwise.nil
        · intro c hc s hs
          rcases hmem c hc with hc | ⟨-, hnone⟩
          · exact h.received c hc s hs
          · rw [hnone] at hs
            exact absurd hs List.not_mem_nil
        · intro c hc task s hs s' hs'
          rcases hmem c hc with hc | ⟨-, hnone⟩
          · exact h.owed c hc task s hs s' hs'
          · rw [hnone] at hs'
            exact absurd hs' List.not_mem_nil
        · show ((p.replicas ++ [_]).map Prod.fst).Nodup
          rw [List.map_append, List.nodup_append]
          refine ⟨h.ids, List.pairwise_singleton _ _, ?_⟩
          intro replicaId hid other hother heq
          rcases List.mem_map.mp hid with ⟨c, hc, rfl⟩
          rw [List.mem_singleton.mp hother] at heq
          exact absurd heq (Nat.ne_of_lt (h.fresh c hc))
        · intro c hc
          show c.1 < p.nextReplicaId + 1
          rcases hmem c hc with hc | ⟨heq, -⟩
          · exact Nat.lt_succ_of_lt (h.fresh c hc)
          · rw [heq]
            exact Nat.lt_succ_self _

theorem release (h : Orderly p) {releaser : Releaser} (hstep : p.release releaser = some q) : Orderly q := by
  unfold Publisher.release at hstep
  split at hstep
  case h_1 minSequence _ =>
    cases hstep
    have hsub : ((p.buffer.releaseUpTo minSequence).records.map (·.sequence)).Sublist
        (p.buffer.records.map (·.sequence)) := by
      rw [ReplicationBuffer.records_releaseUpTo]
      exact (List.dropWhile_sublist _).map _
    exact
      { h with
        buffer := h.buffer.sublist hsub
        below := fun s hs => h.below s (hsub.subset hs)
        pending := fun task s hs s' hs' => h.pending task s hs s' (hsub.subset hs') }
  case h_2 => cases hstep

theorem received_flush (c : ReplicaConnection) : c.flush.received = c.received := by
  show ((c.sent ++ c.writeBuffer) ++ []).filterMap _ = _
  rw [List.append_nil]
  rfl

theorem received_heartbeat (c : ReplicaConnection) (s : Nat) :
    (c.queueMessage (.heartbeat s)).received = c.received := by
  show (c.sent ++ (c.writeBuffer ++ [_])).filterMap _ = _
  rw [← List.append_assoc, List.filterMap_append]
  exact List.append_nil _

theorem disconnect (h : Orderly p) (replicaId : ReplicaId) : Orderly (p.disconnect replicaId) :=
  h.modifyConnection_same fun _ => rfl

theorem storeAck (h : Orderly p) {releaser : Releaser} (hstep : p.storeAck releaser = some q) :
    Orderly q := by
  unfold Publisher.storeAck at hstep
  split at hstep
  case h_1 replicaId ackSequence _ =>
    cases hstep
    cases releaser with
    | handler _ => exact h.congr rfl rfl rfl rfl rfl
    | call _ =>
      have hacked : Orderly (p.insertAck replicaId ackSequence) := h.congr rfl rfl rfl rfl rfl
      have hupdated : Orderly ((p.insertAck replicaId ackSequence).modifyConnection replicaId
          (·.updateAck ackSequence)) := hacked.modifyConnection_same fun _ => rfl
      exact hupdated.congr rfl rfl rfl rfl rfl
  case h_2 => cases hstep

theorem step (h : Orderly p) {e : Event} (hturn : p.InTurn e) (hstep : p.step env e = some q) :
    Orderly q := by
  cases e with
  | begin task record =>
    change p.begin env task record = some q at hstep
    unfold Publisher.begin at hstep
    have hadmit := PublishPhase.within_admit env p record (p.publishing task)
    split at hstep
    · cases hstep
      exact h.setPublish hadmit.1 hadmit.2
    · cases hstep
      exact h.setPublish hadmit.1 hadmit.2
    · cases hstep
  | number task => exact h.number hturn hstep
  | push task => exact h.push hturn hstep
  | enter task order => exact h.enter hstep
  | queue task => exact h.queue hturn hstep
  | accept => exact h.accept hturn hstep
  | storeAck releaser => exact h.storeAck hstep
  | release releaser => exact h.release hstep
  | disconnect replicaId =>
    cases hstep
    exact h.disconnect replicaId
  | heartbeat replicaId =>
    change p.heartbeat replicaId = some q at hstep
    unfold Publisher.heartbeat at hstep
    rw [Nat.mod_eq_of_lt hturn] at hstep
    split at hstep
    · split at hstep
      · cases hstep
        exact h.bump.modifyConnection_same fun c => received_heartbeat c p.sequenceCounter
      · cases hstep
    · cases hstep
  | flush replicaId =>
    change p.flush replicaId = some q at hstep
    unfold Publisher.flush at hstep
    split at hstep
    · cases hstep
      exact h.modifyConnection_same received_flush
    · cases hstep
  | close replicaId =>
    change p.close replicaId = some q at hstep
    unfold Publisher.close at hstep
    split at hstep
    · cases hstep
      exact (h.disconnect replicaId).congr rfl rfl rfl rfl rfl
    · cases hstep
  | initAck =>
    change p.initAck = some q at hstep
    unfold Publisher.initAck at hstep
    split at hstep
    · cases hstep
      exact h.congr rfl rfl rfl rfl rfl
    · cases hstep
  | check replicaId =>
    change p.check replicaId = some q at hstep
    unfold Publisher.check at hstep
    split at hstep
    · split at hstep
      · cases hstep
        exact h.congr rfl rfl rfl rfl rfl
      · cases hstep
    · cases hstep
  | receive replicaId chunk =>
    change p.receive replicaId chunk = some q at hstep
    unfold Publisher.receive at hstep
    split at hstep
    · split at hstep
      · cases hstep
        exact h.congr rfl rfl rfl rfl rfl
      · cases hstep
    · cases hstep
  | timeout replicaId =>
    change p.timeout replicaId = some q at hstep
    unfold Publisher.timeout at hstep
    split at hstep
    · cases hstep
      exact h.congr rfl rfl rfl rfl rfl
    · cases hstep
  | releaseBuffered task =>
    change p.releaseBuffered task = some q at hstep
    unfold Publisher.releaseBuffered at hstep
    split at hstep
    · cases hstep
      exact h.congr rfl rfl rfl rfl rfl
    · cases hstep
  | track task replicaId ackSequence =>
    change p.track task replicaId ackSequence = some q at hstep
    unfold Publisher.track at hstep
    split at hstep
    · cases hstep
      exact h.congr rfl rfl rfl rfl rfl
    · cases hstep
  | measure releaser =>
    change p.measure releaser = some q at hstep
    unfold Publisher.measure at hstep
    split at hstep
    · split at hstep
      · cases hstep
        exact h.congr rfl rfl rfl rfl rfl
      · cases hstep
        exact h.congr rfl rfl rfl rfl rfl
    · cases hstep

end Orderly

theorem releaseUpTo_eq_filter {b : ReplicationBuffer}
    (h : (b.records.map (·.sequence)).Pairwise (· < ·)) (m : Nat) :
    (b.releaseUpTo m).records = b.records.filter (m < ·.sequence) := by
  rw [ReplicationBuffer.records_releaseUpTo]
  generalize b.records = records at h
  induction records with
  | nil => rfl
  | cons record records ih =>
    rw [List.map_cons, List.pairwise_cons] at h
    by_cases hle : record.sequence ≤ m
    · rw [List.dropWhile_cons_of_pos (by simpa using hle), List.filter_cons_of_neg (by simpa using hle)]
      exact ih h.2
    · rw [List.dropWhile_cons_of_neg (by simpa using hle)]
      symm
      apply List.filter_eq_self.mpr
      intro other hother
      rcases List.mem_cons.mp hother with rfl | hother
      · simpa using hle
      · have hlt := h.1 other.sequence (List.mem_map_of_mem hother)
        simp only [decide_eq_true_eq]
        omega

theorem Orderly.ordered {p : Publisher} (h : Orderly p) : Ordered p where
  buffer := h.buffer
  releases := releaseUpTo_eq_filter h.buffer
  replicas := h.replicas

theorem ordered_of_inTurn (env : Env) (config : PrimaryConfig) (events : List Event) (p : Publisher)
    (hturns : RunMeets env InTurn (start config) events)
    (hrun : (start config).run env events = some p) : Ordered p := by
  have horderly : Orderly p := Runs.invariant (fun _ _ _ h hturn hstep => h.step hturn hstep)
    (Orderly.start config) hturns hrun
  exact horderly.ordered

/-- The counters are below their last values. -/
def Unwrapped (p : Publisher) : Event → Prop
  | .number _ | .heartbeat _ => p.sequenceCounter + 1 < 2 ^ 64
  | .accept => p.nextReplicaId + 1 < 2 ^ 64
  | _ => True

instance (p : Publisher) (e : Event) : Decidable (p.Unwrapped e) := by
  cases e <;> unfold Unwrapped <;> infer_instance

theorem inTurn_of_alone {env : Env} {p : Publisher} {events : List Event} (task : Nat)
    (hidle : ∀ other, other ≠ task → p.publishing other = .idle)
    (htask : ∀ e ∈ events, ∀ other, e.publisher? = some other → other = task)
    (hcounters : RunMeets env Unwrapped p events) : RunMeets env InTurn p events := by
  induction events generalizing p with
  | nil => trivial
  | cons e es ih =>
    refine ⟨?_, ?_⟩
    · have hself : ∀ other, e.publisher? = some other → other = task := htask e (List.mem_cons_self ..)
      cases e with
      | number | heartbeat | accept => exact hcounters.1
      | push own =>
        cases hself own rfl
        intro s hs other s' hs'
        by_cases heq : other = task
        · subst heq
          have hsame := (PublishPhase.sequence?_of_numbered hs).symm.trans
            (PublishPhase.sequence?_of_numbered hs')
          cases hsame
          exact Nat.le_refl s
        · rw [hidle other heq] at hs'
          exact hs'.elim
      | queue own =>
        cases hself own rfl
        intro s record replicaId left hphase c _ _ other s' hs'
        by_cases heq : other = task
        · subst heq
          rw [hphase] at hs'
          exact Nat.le_of_eq hs'.1
        · rw [hidle other heq] at hs'
          exact hs'.elim
      | _ => trivial
    · intro q hstep
      apply ih
      · intro other hne
        rw [publishing_step _ hstep, hidle other hne]
        intro heq
        exact hne (htask e (List.mem_cons_self ..) other heq)
      · exact fun e' he' => htask e' (List.mem_cons_of_mem _ he')
      · exact hcounters.2 q hstep

/-- A replica is connected, and two records are published, one after the other. -/
theorem ordered_of_inTurn_two_records :
    ∃ p, (start defaultConfig).run emptyRecordEnv [.accept, .initAck, .begin 0 emptyRecord, .number 0,
      .push 0, .enter 0 [1], .queue 0, .queue 0, .begin 0 emptyRecord, .number 0, .push 0] = some p ∧
        Ordered p := by
  have hturns : RunMeets emptyRecordEnv InTurn (start defaultConfig) [.accept, .initAck,
      .begin 0 emptyRecord, .number 0, .push 0, .enter 0 [1], .queue 0, .queue 0, .begin 0 emptyRecord,
      .number 0, .push 0] :=
    inTurn_of_alone 0 (fun _ _ => rfl) (by decide) (by decide +kernel)
  have hrun : ∃ p, (start defaultConfig).run emptyRecordEnv [.accept, .initAck, .begin 0 emptyRecord,
      .number 0, .push 0, .enter 0 [1], .queue 0, .queue 0, .begin 0 emptyRecord, .number 0, .push 0] =
        some p := ⟨_, rfl⟩
  rcases hrun with ⟨p, hrun⟩
  exact ⟨p, hrun, ordered_of_inTurn _ _ _ p hturns hrun⟩

/-- Two calls take the numbers 0 and 1, and the second is the first to get the lock of the buffer: record 1
is in front of record 0, and no acknowledgment of record 0 removes it. -/
theorem publish_overtaken :
    ¬ ∀ env config events p, (start config).run env events = some p → Ordered p := by
  intro hclaim
  have hrun : ∃ p, (start defaultConfig).run emptyRecordEnv [.begin 0 emptyRecord, .begin 1 emptyRecord,
      .number 0, .number 1, .push 1, .push 0] = some p ∧
        p.buffer.records.map (·.sequence) = [1, 0] := ⟨_, rfl, rfl⟩
  rcases hrun with ⟨p, hrun, hrecords⟩
  have hordered := (hclaim _ _ _ p hrun).buffer
  rw [hrecords] at hordered
  exact absurd hordered (by decide)

end Publisher

end Northstar.Replication
