import Mathlib.Data.List.Infix
import Northstar.Cloud.Encrypt

/-!
# Cloud.Retry — operations that are tried again

The delay before a try is computed from its number in 32 bits, which hold 2 ^ attempt for 32 attempts only, and
the log line of every failure adds one to the largest number of retries.  A sum or power that does not fit its
type ends the call.
-/

namespace Northstar.Cloud

def contains (text part : String) : Bool := part.toList <:+: text.toList

/-- Lower case is that of Unicode, a parameter here. -/
def CloudError.isRetryable (toLowercase : String → String) : CloudError → Bool
  | networkError _ => true
  | timeout _ => true
  | quotaExceeded msg =>
    let msgLower := toLowercase msg
    contains msgLower "rate limit" || contains msgLower "throttl" || contains msgLower "429" ||
      contains msgLower "slowdown"
  | other msg =>
    let msgLower := toLowercase msg
    contains msgLower "rate limit" || contains msgLower "throttling" || contains msgLower "5" ||
      contains msgLower "timeout" || contains msgLower "connection"
  | _ => false

/-- Seconds in 64 bits and a billion nanoseconds in each. -/
def Duration.maxNanos : Nat := 2 ^ 64 * 10 ^ 9 - 1

abbrev Duration := { nanos : Nat // nanos ≤ Duration.maxNanos }

namespace Duration

def saturatingMul (d : Duration) (rhs : Nat) : Duration := ⟨min (d.1 * rhs) maxNanos, min_le_right ..⟩

def fromMillis (millis : UInt64) : Duration :=
  ⟨millis.toNat * 10 ^ 6, by
    have hlt := millis.toNat_lt
    unfold maxNanos
    omega⟩

protected def min (d other : Duration) : Duration := ⟨Min.min d.1 other.1, (min_le_left ..).trans d.2⟩

def asMillis (d : Duration) : Nat := d.1 / 10 ^ 6

end Duration

inductive ArithmeticFault
  | overflow
  deriving Repr, DecidableEq

/-- `2_u32.pow`. -/
def twoPow (exponent : Nat) : Except ArithmeticFault Nat :=
  if 2 ^ exponent < 2 ^ 32 then .ok (2 ^ exponent) else .error .overflow

/-- `+ 1` of a `usize`. -/
def addOne (n : Nat) : Except ArithmeticFault Nat := if n + 1 < 2 ^ 64 then .ok (n + 1) else .error .overflow

structure RetryPolicy where
  maxAttempts : UInt64
  baseDelay : Duration
  maxDelay : Duration
  jitter : Bool
  deriving DecidableEq

/-- `genRange` is the number drawn up to a bound. -/
def RetryPolicy.calculateDelay (policy : RetryPolicy) (genRange : UInt64 → UInt64) (attempt : Nat) :
    Except ArithmeticFault Duration := do
  let factor ← twoPow (attempt % 2 ^ 32)
  let exponentialDelay := policy.baseDelay.saturatingMul factor
  let cappedDelay := exponentialDelay.min policy.maxDelay
  if policy.jitter then
    let delayMs := UInt64.ofNat cappedDelay.asMillis
    return .fromMillis (genRange delayMs)
  else
    return cappedDelay

variable {T : Type}

/-- A call that returned, with what it did on its way. -/
structure Retried (T : Type) where
  calls : Nat
  sleeps : List Duration
  outcome : Except CloudError T

/-- What the operation returns is `outcomes`, from its call number `attempt` on. -/
def retryLoop (toLowercase : String → String) (genRange : Nat → UInt64 → UInt64)
    (outcomes : Nat → Except CloudError T) (policy : RetryPolicy) (attempt : Nat) (sleeps : List Duration) :
    Except ArithmeticFault (Retried T) :=
  match outcomes attempt with
  | .ok result => .ok ⟨attempt + 1, sleeps, .ok result⟩
  | .error error =>
    if error.isRetryable toLowercase ∧ attempt < policy.maxAttempts.toNat then do
      let delay ← policy.calculateDelay (genRange attempt) attempt
      let _ ← addOne attempt
      let _ ← addOne policy.maxAttempts.toNat
      retryLoop toLowercase genRange outcomes policy (attempt + 1) (sleeps ++ [delay])
    else do
      let _ ← addOne attempt
      let _ ← addOne policy.maxAttempts.toNat
      return ⟨attempt + 1, sleeps, .error error⟩
termination_by policy.maxAttempts.toNat - attempt

def withRetry (toLowercase : String → String) (genRange : Nat → UInt64 → UInt64)
    (outcomes : Nat → Except CloudError T) (policy : RetryPolicy) : Except ArithmeticFault (Retried T) :=
  retryLoop toLowercase genRange outcomes policy 0 []

def retryable (toLowercase : String → String) : Except CloudError T → Bool
  | .ok _ => false
  | .error error => error.isRetryable toLowercase

def RetryPolicy.backoff (policy : RetryPolicy) (attempt : Nat) : Nat :=
  min (policy.baseDelay.1 * 2 ^ attempt) policy.maxDelay.1

/-- What the call did is what its documentation says. -/
structure Retried.AsDocumented (toLowercase : String → String) (outcomes : Nat → Except CloudError T)
    (policy : RetryPolicy) (r : Retried T) : Prop where
  bounded : r.calls ≤ policy.maxAttempts.toNat + 1
  retried : ∀ i, i + 1 < r.calls → retryable toLowercase (outcomes i)
  outcome : ∃ last, last + 1 = r.calls ∧ r.outcome = outcomes last
  stopped : retryable toLowercase r.outcome → r.calls = policy.maxAttempts.toNat + 1
  sleeps : r.sleeps.map Subtype.val = (List.range (r.calls - 1)).map policy.backoff
  ascending : r.sleeps.Pairwise fun a b => a.1 ≤ b.1

/-- Thirty-three failures that are all to be tried again: the last of them needs 2 ^ 32. -/
def TooMany (toLowercase : String → String) (outcomes : Nat → Except CloudError T) (policy : RetryPolicy) : Prop :=
  32 < policy.maxAttempts.toNat ∧ ∀ i < 33, retryable toLowercase (outcomes i)

/-- A failure whose log line needs the successor of the largest `usize`. -/
def FailsAtMax (outcomes : Nat → Except CloudError T) (policy : RetryPolicy) : Prop :=
  policy.maxAttempts.toNat + 1 = 2 ^ 64 ∧ ∃ error, outcomes 0 = .error error

variable {toLowercase : String → String} {genRange : Nat → UInt64 → UInt64} {outcomes : Nat → Except CloudError T}
  {policy : RetryPolicy} {attempt : Nat} {sleeps : List Duration}

theorem backoff_mono (policy : RetryPolicy) {i j : Nat} (h : i ≤ j) : policy.backoff i ≤ policy.backoff j :=
  min_le_min_right _ (Nat.mul_le_mul_left _ (Nat.pow_le_pow_right (by decide) h))

theorem pairwise_of_backoff {n : Nat} (h : sleeps.map Subtype.val = (List.range n).map policy.backoff) :
    sleeps.Pairwise fun a b => a.1 ≤ b.1 := by
  have hpairs : ((List.range n).map policy.backoff).Pairwise (· ≤ ·) :=
    List.pairwise_map.mpr (List.pairwise_lt_range.imp fun hlt => backoff_mono policy hlt.le)
  rw [← h] at hpairs
  exact List.pairwise_map.mp hpairs

/-- Up to the 31st power of two nothing is lost: a product above the largest duration is above `maxDelay`. -/
theorem calculateDelay_of_lt (hjitter : policy.jitter = false) (h : attempt < 32) (draw : UInt64 → UInt64) :
    ∃ delay, policy.calculateDelay draw attempt = .ok delay ∧ delay.1 = policy.backoff attempt := by
  have hfactor : twoPow (attempt % 2 ^ 32) = .ok (2 ^ attempt) := by
    unfold twoPow
    rw [Nat.mod_eq_of_lt (by omega), if_pos (Nat.pow_lt_pow_right (by decide) h)]
  refine ⟨(policy.baseDelay.saturatingMul (2 ^ attempt)).min policy.maxDelay, ?_, ?_⟩
  · unfold RetryPolicy.calculateDelay
    rw [hfactor, Except.ok_bind, hjitter]
    rfl
  · show min (min (policy.baseDelay.1 * 2 ^ attempt) Duration.maxNanos) policy.maxDelay.1 = _
    rw [min_assoc, min_eq_right policy.maxDelay.2]
    rfl

theorem calculateDelay_32 (draw : UInt64 → UInt64) : policy.calculateDelay draw 32 = .error .overflow := rfl

theorem retryLoop_of_not (hroom : policy.maxAttempts.toNat + 1 < 2 ^ 64) (hattempt : attempt ≤ policy.maxAttempts.toNat)
    (hlast : ¬ (retryable toLowercase (outcomes attempt) ∧ attempt < policy.maxAttempts.toNat)) :
    retryLoop toLowercase genRange outcomes policy attempt sleeps = .ok ⟨attempt + 1, sleeps, outcomes attempt⟩ := by
  rw [retryLoop]
  cases hout : outcomes attempt with
  | ok result => rfl
  | error error =>
    have hone : addOne attempt = .ok (attempt + 1) := if_pos (by omega)
    have hmax : addOne policy.maxAttempts.toNat = .ok (policy.maxAttempts.toNat + 1) := if_pos hroom
    have hstop : ¬ (error.isRetryable toLowercase ∧ attempt < policy.maxAttempts.toNat) := by rwa [hout] at hlast
    dsimp only
    rw [if_neg hstop, hone, hmax]
    rfl

theorem retryLoop_of_retryable (hroom : policy.maxAttempts.toNat + 1 < 2 ^ 64)
    (hretry : retryable toLowercase (outcomes attempt)) (hlt : attempt < policy.maxAttempts.toNat) :
    retryLoop toLowercase genRange outcomes policy attempt sleeps =
      policy.calculateDelay (genRange attempt) attempt >>= fun delay =>
        retryLoop toLowercase genRange outcomes policy (attempt + 1) (sleeps ++ [delay]) := by
  rw [retryLoop]
  cases hout : outcomes attempt with
  | ok result =>
    rw [hout] at hretry
    cases hretry
  | error error =>
    have hone : addOne attempt = .ok (attempt + 1) := if_pos (by omega)
    have hmax : addOne policy.maxAttempts.toNat = .ok (policy.maxAttempts.toNat + 1) := if_pos hroom
    have hagain : error.isRetryable toLowercase := by rwa [hout] at hretry
    dsimp only
    rw [if_pos ⟨hagain, hlt⟩, hone, hmax]
    rfl

theorem retryLoop_overflow (hjitter : policy.jitter = false) (hroom : policy.maxAttempts.toNat + 1 < 2 ^ 64)
    (hmany : TooMany toLowercase outcomes policy) (hle : attempt ≤ 32) :
    retryLoop toLowercase genRange outcomes policy attempt sleeps = .error .overflow := by
  have hmax := hmany.1
  have hretry : retryable toLowercase (outcomes attempt) := hmany.2 attempt (by omega)
  induction hn : 32 - attempt generalizing attempt sleeps with
  | zero =>
    -- the 33rd failure: the power does not fit
    have hattempt : attempt = 32 := by omega
    subst hattempt
    rw [retryLoop_of_retryable hroom hretry hmax, calculateDelay_32, Except.error_bind]
  | succ n ih =>
    have hlt : attempt < 32 := by omega
    rcases calculateDelay_of_lt hjitter hlt (genRange attempt) with ⟨delay, hdelay, -⟩
    rw [retryLoop_of_retryable hroom hretry (by omega), hdelay, Except.ok_bind]
    have hnext : attempt + 1 ≤ 32 := by omega
    exact ih hnext (hmany.2 (attempt + 1) (by omega)) (by omega)

theorem asDocumented_of_not (hattempt : attempt ≤ policy.maxAttempts.toNat)
    (hlast : ¬ (retryable toLowercase (outcomes attempt) ∧ attempt < policy.maxAttempts.toNat))
    (hretried : ∀ i < attempt, retryable toLowercase (outcomes i))
    (hsleeps : sleeps.map Subtype.val = (List.range attempt).map policy.backoff) :
    Retried.AsDocumented toLowercase outcomes policy ⟨attempt + 1, sleeps, outcomes attempt⟩ where
  bounded := Nat.succ_le_succ hattempt
  retried i hi := hretried i (Nat.lt_of_succ_lt_succ hi)
  outcome := ⟨attempt, rfl, rfl⟩
  stopped h := by
    have hle : ¬ attempt < policy.maxAttempts.toNat := fun hlt => hlast ⟨h, hlt⟩
    show attempt + 1 = policy.maxAttempts.toNat + 1
    omega
  sleeps := hsleeps
  ascending := pairwise_of_backoff hsleeps

theorem retryLoop_asDocumented (hjitter : policy.jitter = false) (hroom : policy.maxAttempts.toNat + 1 < 2 ^ 64)
    (hfew : ¬ TooMany toLowercase outcomes policy) (hattempt : attempt ≤ policy.maxAttempts.toNat) (hle : attempt ≤ 32)
    (hretried : ∀ i < attempt, retryable toLowercase (outcomes i))
    (hsleeps : sleeps.map Subtype.val = (List.range attempt).map policy.backoff) :
    ∃ r, retryLoop toLowercase genRange outcomes policy attempt sleeps = .ok r ∧
      r.AsDocumented toLowercase outcomes policy := by
  induction hn : policy.maxAttempts.toNat - attempt generalizing attempt sleeps with
  | zero =>
    have hlast : ¬ (retryable toLowercase (outcomes attempt) ∧ attempt < policy.maxAttempts.toNat) := by omega
    exact ⟨_, retryLoop_of_not hroom hattempt hlast, asDocumented_of_not hattempt hlast hretried hsleeps⟩
  | succ n ih =>
    by_cases hretry : retryable toLowercase (outcomes attempt)
    · have hretried' : ∀ i < attempt + 1, retryable toLowercase (outcomes i) := by
        intro i hi
        by_cases heq : i = attempt
        · exact heq ▸ hretry
        · exact hretried i (by omega)
      have hlt : attempt < 32 := by
        -- a 33rd failure to be tried again makes too many
        by_contra hge
        exact hfew ⟨by omega, fun i hi => hretried' i (by omega)⟩
      rcases calculateDelay_of_lt hjitter hlt (genRange attempt) with ⟨delay, hdelay, hnanos⟩
      rw [retryLoop_of_retryable hroom hretry (by omega), hdelay, Except.ok_bind]
      apply ih (by omega) (by omega) hretried'
      · rw [List.map_append, hsleeps, List.range_succ, List.map_append, List.map_singleton, List.map_singleton, hnanos]
      · omega
    · have hlast : ¬ (retryable toLowercase (outcomes attempt) ∧ attempt < policy.maxAttempts.toNat) :=
        fun h => hretry h.1
      exact ⟨_, retryLoop_of_not hroom hattempt hlast, asDocumented_of_not hattempt hlast hretried hsleeps⟩

/-- The log line of the first failure, whether it is tried again or not. -/
theorem withRetry_of_failsAtMax (hjitter : policy.jitter = false) (hfails : FailsAtMax outcomes policy) :
    withRetry toLowercase genRange outcomes policy = .error .overflow := by
  rcases hfails with ⟨hmax, error, hout⟩
  have hzero : 0 < 32 := by decide
  rcases calculateDelay_of_lt hjitter hzero (genRange 0) with ⟨delay, hdelay, -⟩
  have hone : addOne 0 = .ok 1 := rfl
  -- `max_retries + 1` of the log line, after the delay
  have hover : addOne policy.maxAttempts.toNat = .error .overflow := if_neg (by omega)
  unfold withRetry
  rw [retryLoop, hout]
  dsimp only
  rw [hdelay, hone, hover]
  split <;> rfl

/-- A call without jitter behaves as documented exactly where no sum and no power overflows. -/
theorem withRetry_iff (toLowercase : String → String) (genRange : Nat → UInt64 → UInt64)
    (outcomes : Nat → Except CloudError T) (policy : RetryPolicy) (hjitter : policy.jitter = false) :
    (∃ r, withRetry toLowercase genRange outcomes policy = .ok r ∧ r.AsDocumented toLowercase outcomes policy) ↔
      ¬ TooMany toLowercase outcomes policy ∧ ¬ FailsAtMax outcomes policy := by
  have hmax := policy.maxAttempts.toNat_lt
  constructor
  · intro ⟨r, hr, _⟩
    have hcalm : ¬ FailsAtMax outcomes policy := by
      intro hfails
      rw [withRetry_of_failsAtMax hjitter hfails] at hr
      cases hr
    refine ⟨?_, hcalm⟩
    -- too many failures begin with a first one, whose log line then has room
    intro hmany
    have herror : ∃ error, outcomes 0 = .error error := by
      have hretry := hmany.2 0 (by decide)
      cases hout : outcomes 0 with
      | ok result =>
        rw [hout] at hretry
        cases hretry
      | error error => exact ⟨error, rfl⟩
    have hroom : policy.maxAttempts.toNat + 1 < 2 ^ 64 := by
      by_contra hge
      exact hcalm ⟨by omega, herror⟩
    unfold withRetry at hr
    rw [retryLoop_overflow hjitter hroom hmany (by decide)] at hr
    cases hr
  · intro ⟨hfew, hcalm⟩
    by_cases hroom : policy.maxAttempts.toNat + 1 < 2 ^ 64
    · exact retryLoop_asDocumented hjitter hroom hfew (Nat.zero_le _) (by decide) (by simp) rfl
    · cases hout : outcomes 0 with
      | error error => exact absurd ⟨by omega, error, hout⟩ hcalm
      | ok result =>
        -- a first success logs nothing
        have hlast : ¬ (retryable toLowercase (outcomes 0) ∧ 0 < policy.maxAttempts.toNat) := by
          rw [hout]
          exact fun h => nomatch h.1
        refine ⟨⟨1, [], outcomes 0⟩, ?_, asDocumented_of_not (Nat.zero_le _) hlast (by simp) rfl⟩
        unfold withRetry
        rw [retryLoop, hout]

/-- Without jitter, from one millisecond up to a minute. -/
def patientPolicy (maxAttempts : UInt64) : RetryPolicy :=
  ⟨maxAttempts, .fromMillis 1, .fromMillis 60000, false⟩

/-- The network is down for three calls. -/
def comesBack (attempt : Nat) : Except CloudError Nat := if attempt < 3 then .error (.networkError "down") else .ok 7

theorem fourth_succeeds : ∃ r, withRetry id (fun _ draw => draw) comesBack (patientPolicy 40) = .ok r ∧
    r.AsDocumented id comesBack (patientPolicy 40) :=
  (withRetry_iff _ _ _ _ rfl).mpr
    ⟨fun h => absurd (h.2 3 (by decide)) (by decide), fun h => absurd h.1 (by decide)⟩

/-- A network that stays down ends the call at the 33rd failure, seven retries before the limit. -/
theorem withRetry_overflows :
    withRetry (T := Nat) id (fun _ draw => draw) (fun _ => .error (.networkError "down")) (patientPolicy 40) =
      .error .overflow :=
  retryLoop_overflow rfl (by decide) ⟨by decide, fun _ _ => rfl⟩ (by decide)

end Northstar.Cloud
