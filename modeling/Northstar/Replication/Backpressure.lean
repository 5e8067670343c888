import Northstar.Replication.Publisher
import Mathlib.Algebra.BigOperators.Group.List.Basic

/-!
# Backpressure — the size of the buffer and the state of the publisher

The state is written by two operations only, each under the lock of the buffer: a push that reaches the high
watermark applies the backpressure, and a release that falls below the low watermark relieves it.  Between
the watermarks neither writes.
-/

namespace Northstar.Replication

open Bytes
open Txn (CommitRecord)

namespace ReplicationBuffer

/-- The bytes of the records. -/
def used (b : ReplicationBuffer) : Nat := (b.records.map BufferedRecord.size).sum

/-- The counter is the sum of the sizes, and fits. -/
structure Counted (b : ReplicationBuffer) : Prop where
  size : b.currentSize = b.used
  fits : b.currentSize ≤ b.maxSize

/-- Neither the capacity nor the watermarks change. -/
structure SameBounds (b b' : ReplicationBuffer) : Prop where
  maxSize : b'.maxSize = b.maxSize
  lowWatermark : b'.lowWatermark = b.lowWatermark
  highWatermark : b'.highWatermark = b.highWatermark

theorem SameBounds.refl (b : ReplicationBuffer) : b.SameBounds b := ⟨rfl, rfl, rfl⟩

variable {b : ReplicationBuffer}

theorem SameBounds.trans {c d : ReplicationBuffer} (h : b.SameBounds c) (h' : c.SameBounds d) :
    b.SameBounds d where
  maxSize := h'.maxSize.trans h.maxSize
  lowWatermark := h'.lowWatermark.trans h.lowWatermark
  highWatermark := h'.highWatermark.trans h.highWatermark

theorem counted_push {b' : ReplicationBuffer} {record : BufferedRecord} (h : b.Counted)
    (hpush : b.push record = .ok b') :
    b'.Counted ∧ b.SameBounds b' ∧ b.currentSize ≤ b'.currentSize := by
  unfold push at hpush
  by_cases hover : b.currentSize + record.size > b.maxSize
  · rw [if_pos hover] at hpush
    cases hpush
  · rw [if_neg hover] at hpush
    cases hpush
    have hused : b.currentSize + record.size = ((b.records ++ [record]).map BufferedRecord.size).sum := by
      rw [List.map_append, List.sum_append, h.size]
      rfl
    exact ⟨⟨hused, Nat.le_of_not_lt hover⟩, ⟨rfl, rfl, rfl⟩, Nat.le_add_right _ _⟩

theorem counted_popFront (h : b.Counted) :
    b.popFront.2.Counted ∧ b.SameBounds b.popFront.2 ∧ b.popFront.2.currentSize ≤ b.currentSize := by
  unfold popFront
  cases hrecords : b.records with
  | nil => exact ⟨h, .refl b, Nat.le_refl _⟩
  | cons record records =>
    have hsize : b.currentSize = record.size + (records.map BufferedRecord.size).sum := by
      rw [h.size]
      unfold used
      rw [hrecords]
      rfl
    have hfits := h.fits
    constructor
    · constructor
      · show b.currentSize - record.size = (records.map BufferedRecord.size).sum
        omega
      · show b.currentSize - record.size ≤ b.maxSize
        omega
    · exact ⟨⟨rfl, rfl, rfl⟩, Nat.sub_le _ _⟩

theorem counted_releaseUpTo (h : b.Counted) (m : Nat) :
    (b.releaseUpTo m).Counted ∧ b.SameBounds (b.releaseUpTo m) ∧
      (b.releaseUpTo m).currentSize ≤ b.currentSize := by
  have hloop : ∀ (records : List BufferedRecord) (b : ReplicationBuffer), b.Counted →
      (releaseLoop m records b).Counted ∧ b.SameBounds (releaseLoop m records b) ∧
        (releaseLoop m records b).currentSize ≤ b.currentSize := by
    intro records
    induction records with
    | nil => exact fun b hb => ⟨hb, .refl b, Nat.le_refl _⟩
    | cons record records ih =>
      intro b hb
      unfold releaseLoop
      by_cases hle : record.sequence ≤ m
      · rw [if_pos hle]
        have hpop := counted_popFront hb
        have hrest := ih b.popFront.2 hpop.1
        exact ⟨hrest.1, hpop.2.1.trans hrest.2.1, Nat.le_trans hrest.2.2 hpop.2.2⟩
      · rw [if_neg hle]
        exact ⟨hb, .refl b, Nat.le_refl _⟩
  exact hloop b.records b h

end ReplicationBuffer

namespace Publisher

variable {env : Env} {p q : Publisher} {e : Event}

/-- `start`, with a buffer of any capacity and any watermarks. -/
def startWith (config : PrimaryConfig) (buffer : ReplicationBuffer) : Publisher :=
  { start config with buffer }

theorem buffer_step (h : p.step env e = some q) :
    (q.buffer = p.buffer ∧ q.backpressureState = p.backpressureState) ∨
    (∃ task record, e = .push task ∧ p.buffer.push record = .ok q.buffer ∧
      q.backpressureState = if q.buffer.shouldApplyBackpressure then .applying else p.backpressureState) ∨
    (∃ releaser m, e = .release releaser ∧ q.buffer = p.buffer.releaseUpTo m ∧
      q.backpressureState = if q.buffer.shouldRelieveBackpressure then .relieving else p.backpressureState) := by
  cases e with
  | push task =>
    change p.push task = some q at h
    unfold Publisher.push at h
    split at h
    · split at h
      · cases h
        exact .inl ⟨rfl, rfl⟩
      next buffer hbuffer =>
        cases h
        exact .inr (.inl ⟨task, _, rfl, hbuffer, rfl⟩)
    · cases h
  | release releaser =>
    change p.release releaser = some q at h
    unfold Publisher.release at h
    split at h
    · cases h
      exact .inr (.inr ⟨releaser, _, rfl, rfl, rfl⟩)
    · cases h
  | begin task record =>
    change p.begin env task record = some q at h
    unfold Publisher.begin at h
    split at h <;> cases h <;> exact .inl ⟨rfl, rfl⟩
  | number task =>
    change p.number task = some q at h
    unfold Publisher.number at h
    split at h <;> cases h
    exact .inl ⟨rfl, rfl⟩
  | enter task order =>
    change p.enter task order = some q at h
    unfold enter at h
    split at h
    · split at h <;> cases h
      exact .inl ⟨rfl, rfl⟩
    · cases h
  | queue task =>
    change p.queue task = some q at h
    unfold queue at h
    split at h <;> cases h <;> exact .inl ⟨rfl, rfl⟩
  | storeAck releaser =>
    change p.storeAck releaser = some q at h
    unfold storeAck at h
    split at h
    · cases h
      exact .inl (by cases releaser <;> exact ⟨rfl, rfl⟩)
    · cases h
  | _ =>
    simp only [Publisher.step, Publisher.accept, Publisher.initAck, Publisher.check, Publisher.receive,
      Publisher.timeout, Publisher.close, Publisher.releaseBuffered, Publisher.track, Publisher.measure,
      Publisher.flush, Publisher.heartbeat, Publisher.disconnect] at h
    repeat' split at h
    all_goals cases h
    all_goals exact .inl ⟨rfl, rfl⟩

/-- The backpressure is on from the high watermark, and off below the low one. -/
structure Regulated (p : Publisher) : Prop where
  counted : p.buffer.Counted
  applies : p.buffer.highWatermark ≤ p.buffer.currentSize → p.backpressureState = .applying
  relieves : p.backpressureState = .applying → p.buffer.lowWatermark ≤ p.buffer.currentSize

theorem regulated_step (hwater : p.buffer.lowWatermark ≤ p.buffer.highWatermark)
    (h : p.Regulated) (hstep : p.step env e = some q) : q.Regulated ∧ p.buffer.SameBounds q.buffer := by
  rcases buffer_step hstep with ⟨hbuffer, hstate⟩ | ⟨task, record, _, hpush, hstate⟩ |
    ⟨releaser, m, _, hbuffer, hstate⟩
  · constructor
    · constructor
      · rw [hbuffer]
        exact h.counted
      · rw [hbuffer, hstate]
        exact h.applies
      · rw [hbuffer, hstate]
        exact h.relieves
    · rw [hbuffer]
      exact .refl _
  · have hcounted := ReplicationBuffer.counted_push h.counted hpush
    refine ⟨⟨hcounted.1, ?_, ?_⟩, hcounted.2.1⟩
    · intro hhigh
      rw [hstate]
      exact if_pos (decide_eq_true hhigh)
    · intro happlying
      by_cases hhigh : q.buffer.highWatermark ≤ q.buffer.currentSize
      · rw [hcounted.2.1.highWatermark] at hhigh
        rw [hcounted.2.1.lowWatermark]
        exact Nat.le_trans hwater hhigh
      · -- the state was applying before
        rw [hstate, if_neg (by simpa [ReplicationBuffer.shouldApplyBackpressure] using hhigh)] at happlying
        rw [hcounted.2.1.lowWatermark]
        exact Nat.le_trans (h.relieves happlying) hcounted.2.2
  · have hcounted := ReplicationBuffer.counted_releaseUpTo h.counted m
    rw [← hbuffer] at hcounted
    refine ⟨⟨hcounted.1, ?_, ?_⟩, hcounted.2.1⟩
    · intro hhigh
      have hkept : p.backpressureState = .applying := by
        apply h.applies
        rw [← hcounted.2.1.highWatermark]
        exact Nat.le_trans hhigh hcounted.2.2
      have hlow : ¬ q.buffer.currentSize < q.buffer.lowWatermark := by
        rw [hcounted.2.1.lowWatermark]
        rw [hcounted.2.1.highWatermark] at hhigh
        omega
      rw [hstate, if_neg (by simpa [ReplicationBuffer.shouldRelieveBackpressure] using hlow)]
      exact hkept
    · intro happlying
      by_cases hlow : q.buffer.currentSize < q.buffer.lowWatermark
      · have hrelieve : q.buffer.shouldRelieveBackpressure = true := decide_eq_true hlow
        rw [hstate, if_pos hrelieve] at happlying
        cases happlying
      · exact Nat.le_of_not_lt hlow

theorem regulated_run {es : List Event} (hwater : p.buffer.lowWatermark ≤ p.buffer.highWatermark)
    (h : p.Regulated) (hrun : p.run env es = some q) : q.Regulated ∧ p.buffer.SameBounds q.buffer := by
  apply Runs.invariant (I := fun r => r.Regulated ∧ p.buffer.SameBounds r.buffer) ?_ ⟨h, .refl _⟩ Runs.meets_true hrun
  rintro r e s ⟨hr, hbounds⟩ _ hstep
  have hwater' : r.buffer.lowWatermark ≤ r.buffer.highWatermark := by
    rw [hbounds.lowWatermark, hbounds.highWatermark]
    exact hwater
  have hs := regulated_step hwater' hr hstep
  exact ⟨hs.1, hbounds.trans hs.2⟩

end Publisher

/-- The record of the call is in the buffer; what is left cannot fail. -/
def PublishPhase.Pushed : PublishPhase → Prop
  | buffered _ _ | sending _ _ _ | returned (.ok _) => True
  | _ => False

namespace Publisher

variable {env : Env} {p q : Publisher} {e : Event} {task : Nat}

theorem pushed_step (hstep : p.step env e = some q)
    (hnew : ∀ record, e ≠ .begin task record) (h : (p.publishing task).Pushed) :
    (q.publishing task).Pushed := by
  by_cases hof : e.publisher? = some task
  · cases e with
    | begin t record =>
      have heq : t = task := Option.some.inj hof
      subst heq
      exact absurd rfl (hnew record)
    | number t =>
      have heq : t = task := Option.some.inj hof
      subst heq
      change p.number t = some q at hstep
      unfold Publisher.number at hstep
      split at hstep
      next hphase =>
        rw [hphase] at h
        exact h.elim
      next => cases hstep
    | push t =>
      have heq : t = task := Option.some.inj hof
      subst heq
      change p.push t = some q at hstep
      unfold Publisher.push at hstep
      split at hstep
      next hphase =>
        rw [hphase] at h
        exact h.elim
      next => cases hstep
    | enter t order =>
      have heq : t = task := Option.some.inj hof
      subst heq
      change p.enter t order = some q at hstep
      unfold enter at hstep
      split at hstep
      · split at hstep <;> cases hstep
        rw [publishing_setPublish, if_pos rfl]
        trivial
      · cases hstep
    | queue t =>
      have heq : t = task := Option.some.inj hof
      subst heq
      change p.queue t = some q at hstep
      unfold queue at hstep
      split at hstep <;> cases hstep <;> rw [publishing_setPublish, if_pos rfl] <;> trivial
    | _ => cases hof
  · rw [publishing_step hof hstep]
    exact h

theorem pushed_of_buffer_ne (hstep : p.step env e = some q) (hof : e.publisher? = some task)
    (hbuffer : q.buffer ≠ p.buffer) : (q.publishing task).Pushed := by
  cases e with
  | push t =>
    have heq : t = task := Option.some.inj hof
    subst heq
    change p.push t = some q at hstep
    unfold Publisher.push at hstep
    split at hstep
    · split at hstep
      · cases hstep
        exact absurd rfl hbuffer
      · cases hstep
        rw [publishing_setPublish, if_pos rfl]
        trivial
    · cases hstep
  | release releaser => cases hof
  | _ =>
    rcases buffer_step hstep with ⟨heq, _⟩ | ⟨t, record, heq, _⟩ | ⟨r, m, heq, _⟩
    · exact absurd heq hbuffer
    · cases heq
    · cases heq

theorem pushed_run {es : List Event} (hrun : p.run env es = some q)
    (hnew : ∀ record, .begin task record ∉ es) (h : (p.publishing task).Pushed) :
    (q.publishing task).Pushed := by
  have hmeets : RunMeets env (fun _ e => True ∧ ∀ record, e ≠ .begin task record) p es :=
    Runs.meets_and Runs.meets_true fun e he record heq => hnew record (heq ▸ he)
  exact Runs.invariant (I := fun r => (r.publishing task).Pushed)
    (fun r e s hr hne hstep => pushed_step hstep hne.2 hr) h hmeets hrun

/-- The last call of the task has returned an error. -/
def Failed (p : Publisher) (task : Nat) : Prop :=
  ∃ e, p.publishing task = .returned (.error e)

/-- In every interleaving the counter is the size of the buffer, and fits; the backpressure is on from the
high watermark, and off below the low one; and no step of a call that returns an error changes the buffer. -/
theorem backpressure_hysteresis (env : Env) (config : PrimaryConfig) (buffer : ReplicationBuffer)
    (hempty : buffer.records = [] ∧ buffer.currentSize = 0) (hlow : 0 < buffer.lowWatermark)
    (hwater : buffer.lowWatermark ≤ buffer.highWatermark) (_hmax : buffer.highWatermark ≤ buffer.maxSize)
    {es : List Event} {p : Publisher} (hrun : (startWith config buffer).run env es = some p) :
    p.buffer.currentSize = (p.buffer.records.map BufferedRecord.size).sum ∧
      p.buffer.currentSize ≤ buffer.maxSize ∧
      (buffer.highWatermark ≤ p.buffer.currentSize → p.backpressureState = .applying) ∧
      (p.backpressureState = .applying → buffer.lowWatermark ≤ p.buffer.currentSize) ∧
      ∀ task e q es' r, p.step env e = some q → e.publisher? = some task → q.run env es' = some r →
        (∀ record, .begin task record ∉ es') → r.Failed task → q.buffer = p.buffer := by
  have hstart : (startWith config buffer).Regulated := by
    constructor
    · constructor
      · show buffer.currentSize = (buffer.records.map BufferedRecord.size).sum
        rw [hempty.1, hempty.2]
        rfl
      · show buffer.currentSize ≤ buffer.maxSize
        rw [hempty.2]
        exact Nat.zero_le _
    · intro hhigh
      have hhigh : buffer.highWatermark ≤ buffer.currentSize := hhigh
      rw [hempty.2] at hhigh
      omega
    · intro happlying
      cases happlying
  have hreached := regulated_run hwater hstart hrun
  have hbounds : buffer.SameBounds p.buffer := hreached.2
  refine ⟨hreached.1.counted.size, ?_, ?_, ?_, ?_⟩
  · rw [← hbounds.maxSize]
    exact hreached.1.counted.fits
  · rw [← hbounds.highWatermark]
    exact hreached.1.applies
  · rw [← hbounds.lowWatermark]
    exact hreached.1.relieves
  · intro task e q es' r hstep hof hrest hnew hfailed
    by_cases hbuffer : q.buffer = p.buffer
    · exact hbuffer
    · have hpushed := pushed_run hrest hnew (pushed_of_buffer_ne hstep hof hbuffer)
      cases hfailed with
      | intro err herr =>
        rw [herr] at hpushed
        exact hpushed.elim

/-- Two calls, and the first record brings the buffer over its high watermark. -/
def twoCalls : List Event :=
  [.begin 0 emptyRecord, .begin 1 emptyRecord, .number 0, .number 1, .push 0, .push 1]

/-- Records of 59 bytes: the second does not fit. -/
theorem backpressure_hysteresis_refused :
    ∃ p, (startWith ⟨10, 100⟩ ⟨[], 100, 0, 40, 50⟩).run emptyRecordEnv twoCalls = some p ∧
      p.Failed 1 ∧ p.backpressureState = .applying ∧ 40 ≤ p.buffer.currentSize :=
  ⟨_, rfl, ⟨_, rfl⟩, rfl, (@backpressure_hysteresis emptyRecordEnv ⟨10, 100⟩ ⟨[], 100, 0, 40, 50⟩ ⟨rfl, rfl⟩
    (by decide) (by decide) (by decide) twoCalls _ rfl).2.2.2.1 rfl⟩

end Publisher

end Northstar.Replication
