import Mathlib.Algebra.Group.Int.Defs
import Mathlib.Algebra.Group.Nat.Defs
import Northstar.Lib.Except
import Northstar.Lib.Runs

/-!
# Zig.Reconnect — how long a replica waits for its primary

The wait doubles with the attempts and is spread by the clock.  The spread is meant to go both ways and is computed
without a sign, so that a clock in the lower half of its period ends the program.
-/

namespace Northstar.Zig

inductive SubscriberState
  | initializing
  | bootstrapping
  | connecting
  | catchup
  | replicating
  | disconnected
  deriving Repr, DecidableEq

inductive DisconnectError
  | maxReconnectAttemptsExceeded
  | panic
  deriving Repr, DecidableEq

structure ReplicaConfig where
  reconnectIntervalMs : Nat
  maxReconnectAttempts : Nat
  deriving Repr, DecidableEq

structure ReplicationSubscriber where
  cfg : ReplicaConfig
  state : SubscriberState
  reconnectAttempts : Nat
  stream : Option Nat
  deriving Repr, DecidableEq

def ReplicationSubscriber.init (cfg : ReplicaConfig) : ReplicationSubscriber := ⟨cfg, .initializing, 0, none⟩

/-- The result of an operation on unsigned integers of `width` bits. -/
def unsigned (width n : Nat) : Except DisconnectError Nat := if n < 2 ^ width then .ok n else .error .panic

def unsignedSub (a b : Nat) : Except DisconnectError Nat := if b ≤ a then .ok (a - b) else .error .panic

def unsignedMod (a b : Nat) : Except DisconnectError Nat := if b = 0 then .error .panic else .ok (a % b)

/-- `@as(u64, @intCast(time))`. -/
def castU64 (time : Int) : Except DisconnectError Nat :=
  if 0 ≤ time ∧ time < 2 ^ 64 then .ok time.toNat else .error .panic

namespace ReplicationSubscriber

/-- The argument of `sleep`, in nanoseconds. -/
def wait (s : ReplicationSubscriber) (nanoTimestamp : Int) : Except DisconnectError Nat := do
  let baseBackoff := s.cfg.reconnectIntervalMs
  let exponentialFactor ← unsigned 64 (2 ^ min s.reconnectAttempts 10)
  let backoffMs ← unsigned 64 (baseBackoff * exponentialFactor)
  let jitter := backoffMs / 4
  let time ← castU64 nanoTimestamp
  let period ← unsigned 64 (2 * jitter)
  let phase ← unsignedMod time period
  let randomOffset ← unsignedSub phase jitter
  let finalBackoff ← unsigned 64 (backoffMs + randomOffset)
  let _ ← unsigned 32 (s.reconnectAttempts + 1)
  unsigned 64 (finalBackoff * 1000000)

def handleDisconnect (s : ReplicationSubscriber) (nanoTimestamp : Int) :
    Except DisconnectError Nat × ReplicationSubscriber :=
  let s := { s with state := .disconnected, stream := none }
  if s.cfg.maxReconnectAttempts > 0 ∧ s.reconnectAttempts ≥ s.cfg.maxReconnectAttempts then
    (.error .maxReconnectAttemptsExceeded, s)
  else
    match s.wait nanoTimestamp with
    | .error e => (.error e, s)
    | .ok slept => (.ok slept, { s with reconnectAttempts := s.reconnectAttempts + 1, state := .connecting })

end ReplicationSubscriber

/-- The milliseconds before the attempt after `succeeded` others. -/
def ReplicaConfig.backoff (cfg : ReplicaConfig) (succeeded : Nat) : Nat :=
  cfg.reconnectIntervalMs * 2 ^ min succeeded 10

def ReplicaConfig.Refuses (cfg : ReplicaConfig) (succeeded : Nat) : Prop :=
  0 < cfg.maxReconnectAttempts ∧ cfg.maxReconnectAttempts ≤ succeeded

/-- A wait is within a quarter of the backoff, and only attempts above the limit fail. -/
inductive ReplicaConfig.Expected (cfg : ReplicaConfig) (succeeded : Nat) : Except DisconnectError Nat → Prop
  | waits {slept : Nat} (hallowed : ¬ cfg.Refuses succeeded)
      (hlow : 3 * (cfg.backoff succeeded * 1000000) ≤ 4 * slept)
      (hhigh : 4 * slept ≤ 5 * (cfg.backoff succeeded * 1000000)) : cfg.Expected succeeded (.ok slept)
  | refuses (hrefuses : cfg.Refuses succeeded) : cfg.Expected succeeded (.error .maxReconnectAttemptsExceeded)

/-- The clock fits 64 bits and is in the upper half of a period that is not empty. -/
def ReplicaConfig.Calm (cfg : ReplicaConfig) (succeeded : Nat) (nanoTimestamp : Int) : Prop :=
  let jitter := cfg.backoff succeeded / 4
  0 ≤ nanoTimestamp ∧ nanoTimestamp < 2 ^ 64 ∧ 0 < jitter ∧ jitter ≤ nanoTimestamp.toNat % (2 * jitter) ∧
    succeeded + 1 < 2 ^ 32

variable {cfg : ReplicaConfig} {s : ReplicationSubscriber} {nanoTimestamp : Int}

theorem backoff_le (hfits : cfg.reconnectIntervalMs * 2 ^ 10 * 1250000 < 2 ^ 64) (succeeded : Nat) :
    cfg.backoff succeeded * 1250000 < 2 ^ 64 := by
  apply Nat.lt_of_le_of_lt _ hfits
  apply Nat.mul_le_mul_right
  exact Nat.mul_le_mul_left _ (Nat.pow_le_pow_right (by decide) (Nat.min_le_right ..))

instance decidableCalm (cfg : ReplicaConfig) (succeeded : Nat) (nanoTimestamp : Int) :
    Decidable (cfg.Calm succeeded nanoTimestamp) := by
  unfold ReplicaConfig.Calm
  infer_instance

theorem unsigned_of_lt {width n : Nat} (h : n < 2 ^ width) : unsigned width n = .ok n := if_pos h

/-- Where the configuration fits, the clock and the number of attempts decide. -/
theorem wait_eq (hfits : s.cfg.reconnectIntervalMs * 2 ^ 10 * 1250000 < 2 ^ 64) (nanoTimestamp : Int) :
    let backoff := s.cfg.backoff s.reconnectAttempts
    s.wait nanoTimestamp =
      if s.cfg.Calm s.reconnectAttempts nanoTimestamp then
        .ok ((backoff + (nanoTimestamp.toNat % (2 * (backoff / 4)) - backoff / 4)) * 1000000)
      else .error .panic := by
  intro backoff
  have hbackoff : backoff * 1250000 < 2 ^ 64 := backoff_le hfits s.reconnectAttempts
  have hexponent : min s.reconnectAttempts 10 < 64 := by omega
  have hfactor : 2 ^ min s.reconnectAttempts 10 < 2 ^ 64 := Nat.pow_lt_pow_right (by decide) hexponent
  have hmul : unsigned 64 (s.cfg.reconnectIntervalMs * 2 ^ min s.reconnectAttempts 10) = .ok backoff :=
    unsigned_of_lt (by show backoff < _; omega)
  unfold ReplicationSubscriber.wait
  dsimp only
  rw [unsigned_of_lt hfactor, Except.ok_bind, hmul, Except.ok_bind]
  -- the steps that can panic, in their order: the cast of the clock
  by_cases htime : 0 ≤ nanoTimestamp ∧ nanoTimestamp < 2 ^ 64
  · have hcast : castU64 nanoTimestamp = .ok nanoTimestamp.toNat := if_pos htime
    have hperiod : unsigned 64 (2 * (backoff / 4)) = .ok (2 * (backoff / 4)) := unsigned_of_lt (by omega)
    rw [hcast, Except.ok_bind, hperiod, Except.ok_bind]
    -- a period of zero
    by_cases hpos : 0 < backoff / 4
    · have hmod : unsignedMod nanoTimestamp.toNat (2 * (backoff / 4)) =
          .ok (nanoTimestamp.toNat % (2 * (backoff / 4))) := if_neg (by omega)
      have hlt : nanoTimestamp.toNat % (2 * (backoff / 4)) < 2 * (backoff / 4) := Nat.mod_lt _ (by omega)
      rw [hmod, Except.ok_bind]
      -- the spread below zero
      by_cases hphase : backoff / 4 ≤ nanoTimestamp.toNat % (2 * (backoff / 4))
      · have hsub : unsignedSub (nanoTimestamp.toNat % (2 * (backoff / 4))) (backoff / 4) =
            .ok (nanoTimestamp.toNat % (2 * (backoff / 4)) - backoff / 4) := if_pos hphase
        rw [hsub, Except.ok_bind, unsigned_of_lt (by omega), Except.ok_bind]
        -- the counter
        by_cases hattempts : s.reconnectAttempts + 1 < 2 ^ 32
        · have hoffset : 4 * (nanoTimestamp.toNat % (2 * (backoff / 4)) - backoff / 4) ≤ backoff := by omega
          have hslept : (backoff + (nanoTimestamp.toNat % (2 * (backoff / 4)) - backoff / 4)) * 1000000 < 2 ^ 64 := by
            apply Nat.lt_of_le_of_lt _ hbackoff
            omega
          rw [unsigned_of_lt hattempts, Except.ok_bind, unsigned_of_lt hslept,
            if_pos ⟨htime.1, htime.2, hpos, hphase, hattempts⟩]
        · have hover : unsigned 32 (s.reconnectAttempts + 1) = .error .panic := if_neg hattempts
          rw [hover, Except.error_bind, if_neg (fun hcalm => hattempts hcalm.2.2.2.2)]
      · have hunder : unsignedSub (nanoTimestamp.toNat % (2 * (backoff / 4))) (backoff / 4) = .error .panic :=
          if_neg hphase
        rw [hunder, Except.error_bind, if_neg (fun hcalm => hphase hcalm.2.2.2.1)]
    · have hzero : unsignedMod nanoTimestamp.toNat (2 * (backoff / 4)) = .error .panic := if_pos (by omega)
      rw [hzero, Except.error_bind, if_neg (fun hcalm => hpos hcalm.2.2.1)]
  · have hcast : castU64 nanoTimestamp = .error .panic := if_neg htime
    rw [hcast, Except.error_bind, if_neg (fun hcalm => htime ⟨hcalm.1, hcalm.2.1⟩)]

structure ReconnectRun where
  subscriber : ReplicationSubscriber
  outcomes : List (Except DisconnectError Nat)

namespace ReconnectRun

def start (cfg : ReplicaConfig) : ReconnectRun := ⟨.init cfg, []⟩

/-- A call at the reading of the clock.  None follows a panic. -/
def call (session : ReconnectRun) (nanoTimestamp : Int) : Option ReconnectRun :=
  match session.outcomes.getLast? with
  | some (.error .panic) => none
  | _ =>
    let (outcome, subscriber) := session.subscriber.handleDisconnect nanoTimestamp
    some ⟨subscriber, session.outcomes ++ [outcome]⟩

def succeeded (outcomes : List (Except DisconnectError Nat)) : Nat := outcomes.countP Except.isOk

/-- Every outcome is as expected after those before it. -/
def AsExpected (cfg : ReplicaConfig) (outcomes : List (Except DisconnectError Nat)) : Prop :=
  ∀ before outcome, before ++ [outcome] <+: outcomes → cfg.Expected (succeeded before) outcome

/-- What is asked of the clock before a call: nothing where the call is refused. -/
def Ready (session : ReconnectRun) (nanoTimestamp : Int) : Prop :=
  let s := session.subscriber
  s.cfg.Refuses s.reconnectAttempts ∨ s.cfg.Calm s.reconnectAttempts nanoTimestamp

structure Counts (cfg : ReplicaConfig) (session : ReconnectRun) : Prop where
  cfg : session.subscriber.cfg = cfg
  attempts : session.subscriber.reconnectAttempts = succeeded session.outcomes

variable {session next : ReconnectRun}

theorem asExpected_concat {outcomes : List (Except DisconnectError Nat)} {outcome : Except DisconnectError Nat} :
    AsExpected cfg (outcomes ++ [outcome]) ↔
      AsExpected cfg outcomes ∧ cfg.Expected (succeeded outcomes) outcome := by
  constructor
  · intro h
    exact ⟨fun before o hbefore => h before o (hbefore.trans (List.prefix_append ..)), h _ _ (List.prefix_refl _)⟩
  · intro ⟨hbefore, hlast⟩ before o hprefix
    rcases List.prefix_concat_iff.mp hprefix with heq | hshort
    · rcases List.append_inj' heq rfl with ⟨rfl, hsame⟩
      cases hsame
      exact hlast
    · exact hbefore before o hshort

theorem succeeded_concat (outcomes : List (Except DisconnectError Nat)) (outcome : Except DisconnectError Nat) :
    succeeded (outcomes ++ [outcome]) = succeeded outcomes + if outcome.isOk then 1 else 0 := by
  unfold succeeded
  rw [List.countP_append, List.countP_singleton]

/-- One call: the outcome is as expected exactly where the clock was ready, and the count goes on. -/
theorem call_spec (hfits : cfg.reconnectIntervalMs * 2 ^ 10 * 1250000 < 2 ^ 64) (hcounts : session.Counts cfg)
    (hcall : session.call nanoTimestamp = some next) :
    next.Counts cfg ∧ ∃ outcome, next.outcomes = session.outcomes ++ [outcome] ∧
      (cfg.Expected (succeeded session.outcomes) outcome ↔ session.Ready nanoTimestamp) := by
  rcases hcounts with ⟨rfl, hattempts⟩
  have hready : session.Ready nanoTimestamp ↔ session.subscriber.cfg.Refuses (succeeded session.outcomes) ∨
      session.subscriber.cfg.Calm (succeeded session.outcomes) nanoTimestamp := by
    rw [← hattempts]
    rfl
  unfold call at hcall
  split at hcall
  · cases hcall
  rw [Option.some.injEq] at hcall
  subst hcall
  rw [hready]
  unfold ReplicationSubscriber.handleDisconnect
  dsimp only
  have hrefuses : (session.subscriber.cfg.maxReconnectAttempts > 0 ∧
      session.subscriber.reconnectAttempts ≥ session.subscriber.cfg.maxReconnectAttempts) ↔
      session.subscriber.cfg.Refuses (succeeded session.outcomes) := by
    rw [← hattempts]
    rfl
  by_cases hr : session.subscriber.cfg.Refuses (succeeded session.outcomes)
  · rw [if_pos (hrefuses.mpr hr)]
    refine ⟨⟨rfl, ?_⟩, _, rfl, fun _ => .inl hr, fun _ => .refuses hr⟩
    rw [succeeded_concat]
    exact hattempts
  · have hwait : ({ session.subscriber with state := .disconnected, stream := none } : ReplicationSubscriber).wait
        nanoTimestamp = session.subscriber.wait nanoTimestamp := rfl
    rw [if_neg (mt hrefuses.mp hr), hwait, wait_eq hfits]
    rw [hattempts]
    by_cases hcalm : session.subscriber.cfg.Calm (succeeded session.outcomes) nanoTimestamp
    · rw [if_pos hcalm]
      have hlt := Nat.mod_lt nanoTimestamp.toNat (Nat.mul_pos (by decide : 0 < 2) hcalm.2.2.1)
      refine ⟨⟨rfl, ?_⟩, _, rfl, fun _ => .inr hcalm, fun _ => .waits hr ?_ ?_⟩
      · rw [succeeded_concat]
        rfl
      · omega
      · omega
    · rw [if_neg hcalm]
      have hpanic : ¬ session.subscriber.cfg.Expected (succeeded session.outcomes) (.error .panic) :=
        fun h => nomatch h
      refine ⟨⟨rfl, ?_⟩, _, rfl, iff_of_false hpanic (not_or.mpr ⟨hr, hcalm⟩)⟩
      rw [succeeded_concat]
      rfl

end ReconnectRun

/-- A run of calls is as expected in every state exactly where the clock was ready for every call. -/
theorem handleDisconnect_iff (cfg : ReplicaConfig) (hfits : cfg.reconnectIntervalMs * 2 ^ 10 * 1250000 < 2 ^ 64)
    (clock : List Int) (last : ReconnectRun) (hrun : Runs.run ReconnectRun.call (.start cfg) clock = some last) :
    Runs.Meets ReconnectRun.call ReconnectRun.Ready (.start cfg) clock ↔
      ∀ before session, before <+: clock → Runs.run ReconnectRun.call (.start cfg) before = some session →
        ReconnectRun.AsExpected cfg session.outcomes := by
  apply Runs.meets_iff (I := ReconnectRun.Counts cfg) (F := fun _ _ => True)
    (fun s e t hs _ hcall => (ReconnectRun.call_spec hfits hs hcall).1) _ ⟨rfl, rfl⟩ _ Runs.meets_true hrun
  · intro s e t hs hP _ hcall
    rcases (ReconnectRun.call_spec hfits hs hcall).2 with ⟨outcome, hout, hiff⟩
    rw [hout, ReconnectRun.asExpected_concat, ← hiff]
    exact and_iff_right hP
  · intro before outcome hprefix
    rcases hprefix with ⟨rest, hrest⟩
    simp [ReconnectRun.start] at hrest

/-- One wait of a second, and then the limit. -/
theorem upper_half_waits :
    ∃ last, Runs.run ReconnectRun.call (.start ⟨1000, 1⟩) [1250, 0] = some last ∧
      ∀ before session, before <+: [1250, 0] →
        Runs.run ReconnectRun.call (.start ⟨1000, 1⟩) before = some session →
          ReconnectRun.AsExpected ⟨1000, 1⟩ session.outcomes := by
  refine ⟨_, rfl, (handleDisconnect_iff ⟨1000, 1⟩ (by decide) [1250, 0] _ rfl).mp ?_⟩
  refine ⟨.inr (by decide), fun next hnext => ?_⟩
  cases hnext
  exact ⟨.inl ⟨Nat.one_pos, Nat.le_refl 1⟩, fun _ _ => trivial⟩

/-- With the default interval and no limit, a clock at a multiple of half a second ends the program. -/
theorem lower_half_panics :
    ∃ last, Runs.run ReconnectRun.call (.start ⟨1000, 0⟩) [500] = some last ∧
      last.outcomes = [.error .panic] ∧ ¬ ReconnectRun.AsExpected ⟨1000, 0⟩ last.outcomes :=
  ⟨_, rfl, rfl, fun h => nomatch h [] (.error .panic) (List.prefix_refl _)⟩

end Northstar.Zig
