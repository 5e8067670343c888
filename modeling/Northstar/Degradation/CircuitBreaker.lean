import Northstar.Lib.Runs

/-!
# CircuitBreaker — calls to a service that may be down

`degradation/circuit_breaker.rs`.  The breaker keeps the state as a number and two counters, and writes them
in several places around the operation.  A reference automaton is given beside it that has no counters: it
keeps the past, and decides by what it finds there.

A time is a reading of the clock in nanoseconds.  The calls are made one after another, so an atomic is its
value.
-/

namespace Northstar.Degradation

inductive CircuitState
  | closed
  | opened
  | halfOpen
  deriving DecidableEq, Repr

structure CircuitOpenError where
  retryAfter : Nat
  deriving DecidableEq, Repr

inductive CircuitBreakerError (ε : Type*)
  | circuitOpen (err : CircuitOpenError)
  | operationError (err : ε)
  deriving DecidableEq, Repr

structure CircuitBreaker where
  state : UInt8
  failureCount : UInt32
  successCount : UInt32
  lastFailureTime : Option Nat
  lastSuccessTime : Option Nat
  openThreshold : UInt32
  halfOpenAttempts : UInt32
  timeout : Nat
  deriving DecidableEq, Repr

def stateClosed : UInt8 := 0
def stateOpen : UInt8 := 1
def stateHalfOpen : UInt8 := 2

namespace CircuitBreaker

def new (openThreshold halfOpenAttempts : UInt32) (timeout : Nat) : CircuitBreaker where
  state := stateClosed
  failureCount := 0
  successCount := 0
  lastFailureTime := none
  lastSuccessTime := none
  openThreshold := openThreshold
  halfOpenAttempts := halfOpenAttempts
  timeout := timeout

def defaultConfig : CircuitBreaker := new 5 3 60000000000

/-- `state()`. -/
def circuitState (b : CircuitBreaker) : CircuitState :=
  if b.state = stateClosed then .closed
  else if b.state = stateOpen then .opened
  else if b.state = stateHalfOpen then .halfOpen
  else .closed

def setState (b : CircuitBreaker) (newState : CircuitState) : CircuitBreaker :=
  { b with
    state :=
      match newState with
      | .closed => stateClosed
      | .opened => stateOpen
      | .halfOpen => stateHalfOpen }

/-- `Instant::elapsed` is no less than zero. -/
def checkOpenTimeout (b : CircuitBreaker) (now : Nat) : Bool :=
  match b.lastFailureTime with
  | some last => b.timeout ≤ now - last
  | none => false

/-- `fetch_add` wraps. -/
def recordSuccess (b : CircuitBreaker) (now : Nat) : CircuitBreaker :=
  { b with
    successCount := b.successCount + 1
    failureCount := 0
    lastSuccessTime := some now }

def recordFailure (b : CircuitBreaker) (now : Nat) : CircuitBreaker :=
  { b with
    failureCount := b.failureCount + 1
    successCount := 0
    lastFailureTime := some now }

def reset (b : CircuitBreaker) : CircuitBreaker :=
  { b.setState .closed with
    failureCount := 0
    successCount := 0
    lastFailureTime := none
    lastSuccessTime := none }

/-- The clock is read a second time for the error. -/
def allowRequest (b : CircuitBreaker) (now later : Nat) : Except CircuitOpenError Unit × CircuitBreaker :=
  match b.circuitState with
  | .closed => (.ok (), b)
  | .opened =>
    if b.checkOpenTimeout now then (.ok (), { b.setState .halfOpen with successCount := 0 })
    else
      match b.lastFailureTime with
      | some last => (.error ⟨b.timeout - (later - last)⟩, b)
      | none => (.error ⟨0⟩, b)
  | .halfOpen => (.ok (), b)

/-- The first arm of `circuit_breaker_call`. -/
def succeeded (b : CircuitBreaker) (now : Nat) : CircuitBreaker :=
  let b := b.recordSuccess now
  if b.circuitState = .halfOpen then
    if b.successCount ≥ b.halfOpenAttempts then b.setState .closed else b
  else b

/-- The second arm. -/
def failed (b : CircuitBreaker) (now : Nat) : CircuitBreaker :=
  let b := b.recordFailure now
  if b.failureCount ≥ b.openThreshold then b.setState .opened
  -- "Any failure in HalfOpen opens the circuit"
  else if b.circuitState = .halfOpen then b.setState .opened
  else b

end CircuitBreaker

/-- What the clock says when the timeout is checked, when the time that remains is computed, and after the
operation. -/
structure Readings where
  checked : Nat
  remaining : Nat
  recorded : Nat
  deriving DecidableEq, Repr

section Calls

variable {ω ε α : Type*}

/-- The operation may change the world, which is unchanged where it does not run. -/
def circuitBreakerCall (breaker : CircuitBreaker) (times : Readings) (operation : ω → Except ε α × ω) (w : ω) :
    Except (CircuitBreakerError ε) α × CircuitBreaker × ω :=
  match breaker.allowRequest times.checked times.remaining with
  | (.error err, breaker) => (.error (.circuitOpen err), breaker, w)
  | (.ok (), breaker) =>
    match operation w with
    | (.ok result, w) => (.ok result, breaker.succeeded times.recorded, w)
    | (.error err, w) => (.error (.operationError err), breaker.failed times.recorded, w)

inductive Request (ω ε α : Type*)
  | call (times : Readings) (operation : ω → Except ε α × ω)
  | reset

/-- What a request gives back: nothing for a reset. -/
abbrev Answer (ε α : Type*) := Option (Except (CircuitBreakerError ε) α)

def serve : CircuitBreaker × ω → Request ω ε α → Answer ε α × CircuitBreaker × ω
  | (b, w), .call times operation =>
    (some (circuitBreakerCall b times operation w).1, (circuitBreakerCall b times operation w).2)
  | (b, w), .reset => (none, b.reset, w)

end Calls

inductive Entry
  | success
  | failure (time : Nat)
  | rejected
  | reset
  deriving DecidableEq, Repr

/-- The failures since the last success or reset.  A past begins with its latest entry. -/
def failures : List Entry → Nat
  | .failure _ :: past => failures past + 1
  | .rejected :: past => failures past
  | _ => 0

/-- The successes since the last failure or reset. -/
def successes : List Entry → Nat
  | .success :: past => successes past + 1
  | .rejected :: past => successes past
  | _ => 0

def lastFailure : List Entry → Option Nat
  | [] => none
  | .failure time :: _ => some time
  | _ :: past => lastFailure past

structure Automaton where
  mode : CircuitState
  past : List Entry
  deriving DecidableEq, Repr

namespace Automaton

variable {ω ε α : Type*} (openThreshold halfOpenAttempts : UInt32) (timeout : Nat)

def start : Automaton := ⟨.closed, []⟩

/-- The timeout has elapsed since the last failure. -/
def Elapsed (past : List Entry) (now : Nat) : Prop := ∃ time, lastFailure past = some time ∧ timeout ≤ now - time

instance (past : List Entry) (now : Nat) : Decidable (Elapsed timeout past now) :=
  match hlast : lastFailure past with
  | none => .isFalse fun ⟨_, htime, _⟩ => nomatch hlast.symm.trans htime
  | some time => decidable_of_iff (timeout ≤ now - time)
      ⟨fun h => ⟨time, hlast, h⟩, fun ⟨_, htime, h⟩ => Option.some.inj (hlast.symm.trans htime) ▸ h⟩

/-- Half open closes with the last of the successes asked for. -/
def onSuccess (mode : CircuitState) (past : List Entry) : Automaton :=
  if mode = .halfOpen ∧ successes (.success :: past) = halfOpenAttempts.toNat then ⟨.closed, .success :: past⟩
  else ⟨mode, .success :: past⟩

/-- Closed stays closed but for the failure that reaches the threshold. -/
def onFailure (mode : CircuitState) (past : List Entry) (now : Nat) : Automaton :=
  if mode = .closed ∧ failures (.failure now :: past) ≠ openThreshold.toNat then ⟨.closed, .failure now :: past⟩
  else ⟨.opened, .failure now :: past⟩

def execute (mode : CircuitState) (past : List Entry) (now : Nat) (operation : ω → Except ε α × ω) (w : ω) :
    Except (CircuitBreakerError ε) α × Automaton × ω :=
  match operation w with
  | (.ok result, w) => (.ok result, onSuccess halfOpenAttempts mode past, w)
  | (.error err, w) => (.error (.operationError err), onFailure openThreshold mode past now, w)

/-- Open executes nothing before the timeout has elapsed, and is half open then. -/
def call (a : Automaton) (times : Readings) (operation : ω → Except ε α × ω) (w : ω) :
    Except (CircuitBreakerError ε) α × Automaton × ω :=
  if a.mode = .opened then
    if Elapsed timeout a.past times.checked then
      execute openThreshold halfOpenAttempts .halfOpen a.past times.recorded operation w
    else
      let waited := times.remaining - (lastFailure a.past).getD 0
      (.error (.circuitOpen ⟨timeout - waited⟩), ⟨.opened, .rejected :: a.past⟩, w)
  else execute openThreshold halfOpenAttempts a.mode a.past times.recorded operation w

def serve : Automaton × ω → Request ω ε α → Answer ε α × Automaton × ω
  | (a, w), .call times operation =>
    let (result, next) := a.call openThreshold halfOpenAttempts timeout times operation w
    (some result, next)
  | (a, w), .reset => (none, ⟨.closed, .reset :: a.past⟩, w)

end Automaton

namespace CircuitBreaker

@[simp] theorem circuitState_setState (b : CircuitBreaker) (s : CircuitState) : (b.setState s).circuitState = s := by
  cases s <;> rfl

theorem circuitState_congr {b b' : CircuitBreaker} (h : b'.state = b.state) : b'.circuitState = b.circuitState := by
  unfold circuitState
  rw [h]

end CircuitBreaker

open CircuitBreaker Automaton

variable {ω ε α : Type*} {openThreshold halfOpenAttempts : UInt32} {timeout : Nat} {b b' : CircuitBreaker}
  {a : Automaton} {mode : CircuitState} {past : List Entry} {now : Nat}

/-- The fields that no operation writes. -/
structure Configured (openThreshold halfOpenAttempts : UInt32) (timeout : Nat) (b : CircuitBreaker) : Prop where
  openThreshold : b.openThreshold = openThreshold
  halfOpenAttempts : b.halfOpenAttempts = halfOpenAttempts
  timeout : b.timeout = timeout

/-- The counter that the state reads is that of the past, below its limit.  The other one may have any value. -/
def Agrees (openThreshold halfOpenAttempts : UInt32) (b : CircuitBreaker) (past : List Entry) :
    CircuitState → Prop
  | .closed => b.failureCount.toNat = failures past ∧ failures past < openThreshold.toNat
  | .opened => b.lastFailureTime = lastFailure past ∧ (lastFailure past).isSome ∧ successes past = 0
  | .halfOpen => b.successCount.toNat = successes past ∧ successes past < halfOpenAttempts.toNat

structure Follows (openThreshold halfOpenAttempts : UInt32) (timeout : Nat) (b : CircuitBreaker) (a : Automaton) :
    Prop where
  configured : Configured openThreshold halfOpenAttempts timeout b
  state : b.circuitState = a.mode
  agrees : Agrees openThreshold halfOpenAttempts b a.past a.mode

theorem Configured.congr (h : Configured openThreshold halfOpenAttempts timeout b)
    (hthreshold : b'.openThreshold = b.openThreshold) (hattempts : b'.halfOpenAttempts = b.halfOpenAttempts)
    (htimeout : b'.timeout = b.timeout) : Configured openThreshold halfOpenAttempts timeout b' where
  openThreshold := hthreshold.trans h.openThreshold
  halfOpenAttempts := hattempts.trans h.halfOpenAttempts
  timeout := htimeout.trans h.timeout

theorem allowRequest_of_ne {later : Nat} (hmode : b.circuitState ≠ .opened) :
    b.allowRequest now later = (.ok (), b) := by
  unfold allowRequest
  cases hstate : b.circuitState with
  | closed => rfl
  | opened => exact absurd hstate hmode
  | halfOpen => rfl

theorem checkOpenTimeout_iff (htimeout : b.timeout = timeout) (hlast : b.lastFailureTime = lastFailure past) :
    b.checkOpenTimeout now = true ↔ Elapsed timeout past now := by
  unfold checkOpenTimeout Elapsed
  rw [hlast, htimeout]
  cases lastFailure past with
  | none => simp
  | some time => simp

theorem toNat_add_one {n : UInt32} {k : Nat} {m : UInt32} (h : n.toNat = k) (hlt : k < m.toNat) :
    (n + 1).toNat = k + 1 := by
  have hm := m.toNat_lt
  rw [UInt32.toNat_add, h]
  exact Nat.mod_eq_of_lt (by show k + 1 < 2 ^ 32; omega)

/-- In half open the counter of the failures may be anything, and the failure opens whatever it is. -/
theorem failed_follows (hconfig : Configured openThreshold halfOpenAttempts timeout b)
    (hstate : b.circuitState = mode) (hmode : mode ≠ .opened)
    (hagrees : Agrees openThreshold halfOpenAttempts b past mode) :
    Follows openThreshold halfOpenAttempts timeout (b.failed now) (onFailure openThreshold mode past now) := by
  have hopened : Follows openThreshold halfOpenAttempts timeout ((b.recordFailure now).setState .opened)
      ⟨.opened, .failure now :: past⟩ :=
    ⟨hconfig.congr rfl rfl rfl, circuitState_setState .., rfl, rfl, rfl⟩
  have hrecorded : (b.recordFailure now).circuitState = mode := (circuitState_congr rfl).trans hstate
  have hlimit : (b.recordFailure now).openThreshold = openThreshold := hconfig.openThreshold
  unfold failed onFailure
  cases mode with
  | opened => exact absurd rfl hmode
  | halfOpen =>
    simp only [hrecorded, if_true, ite_self, reduceCtorEq, false_and, if_false]
    exact hopened
  | closed =>
    have hcount : (b.recordFailure now).failureCount.toNat = failures past + 1 :=
      toNat_add_one hagrees.1 hagrees.2
    have hbelow := hagrees.2
    simp only [true_and, ge_iff_le, hlimit, UInt32.le_iff_toNat_le, hcount, hrecorded, failures]
    by_cases hreached : failures past + 1 = openThreshold.toNat
    · rw [if_pos (by omega), if_neg (by omega)]
      exact hopened
    · rw [if_neg (by omega), if_neg (fun h => nomatch h), if_pos hreached]
      refine ⟨hconfig.congr rfl rfl rfl, hrecorded, hcount, ?_⟩
      show failures past + 1 < openThreshold.toNat
      omega

section

variable (hthreshold : 1 ≤ openThreshold) (hattempts : 1 ≤ halfOpenAttempts)

include hthreshold

theorem threshold_pos : 0 < openThreshold.toNat := UInt32.le_iff_toNat_le.mp hthreshold

theorem succeeded_follows (hconfig : Configured openThreshold halfOpenAttempts timeout b)
    (hstate : b.circuitState = mode) (hmode : mode ≠ .opened)
    (hagrees : Agrees openThreshold halfOpenAttempts b past mode) :
    Follows openThreshold halfOpenAttempts timeout (b.succeeded now) (onSuccess halfOpenAttempts mode past) := by
  have hpos := threshold_pos hthreshold
  have hrecorded : (b.recordSuccess now).circuitState = mode := (circuitState_congr rfl).trans hstate
  have hlimit : (b.recordSuccess now).halfOpenAttempts = halfOpenAttempts := hconfig.halfOpenAttempts
  unfold succeeded onSuccess
  cases mode with
  | opened => exact absurd rfl hmode
  | closed =>
    simp only [hrecorded, reduceCtorEq, false_and, if_false]
    exact ⟨hconfig.congr rfl rfl rfl, hrecorded, rfl, hpos⟩
  | halfOpen =>
    have hcount : (b.recordSuccess now).successCount.toNat = successes past + 1 :=
      toNat_add_one hagrees.1 hagrees.2
    have hbelow := hagrees.2
    simp only [true_and, ge_iff_le, hlimit, UInt32.le_iff_toNat_le, hcount, hrecorded, if_true, successes]
    by_cases hreached : successes past + 1 = halfOpenAttempts.toNat
    · rw [if_pos (by omega), if_pos hreached]
      exact ⟨hconfig.congr rfl rfl rfl, circuitState_setState .., rfl, hpos⟩
    · rw [if_neg (by omega), if_neg hreached]
      refine ⟨hconfig.congr rfl rfl rfl, hrecorded, hcount, ?_⟩
      show successes past + 1 < halfOpenAttempts.toNat
      omega

theorem executed_follows (hconfig : Configured openThreshold halfOpenAttempts timeout b)
    (hstate : b.circuitState = mode) (hmode : mode ≠ .opened)
    (hagrees : Agrees openThreshold halfOpenAttempts b past mode) {times : Readings}
    {breaker : CircuitBreaker} {operation : ω → Except ε α × ω} {w : ω}
    (hallow : breaker.allowRequest times.checked times.remaining = (.ok (), b)) :
    let called := circuitBreakerCall breaker times operation w
    let executed := execute openThreshold halfOpenAttempts mode past times.recorded operation w
    called.1 = executed.1 ∧
      Follows openThreshold halfOpenAttempts timeout called.2.1 executed.2.1 ∧ called.2.2 = executed.2.2 := by
  intro called executed
  have hcalled : called = circuitBreakerCall breaker times operation w := rfl
  have hexecuted : executed = execute openThreshold halfOpenAttempts mode past times.recorded operation w := rfl
  unfold circuitBreakerCall at hcalled
  unfold execute at hexecuted
  rw [hallow] at hcalled
  rcases hresult : operation w with ⟨result, w'⟩
  rw [hresult] at hcalled hexecuted
  cases result with
  | ok result =>
    rw [hcalled, hexecuted]
    exact ⟨rfl, succeeded_follows hthreshold hconfig hstate hmode hagrees, rfl⟩
  | error err =>
    rw [hcalled, hexecuted]
    exact ⟨rfl, failed_follows hconfig hstate hmode hagrees, rfl⟩

include hattempts

theorem call_follows (h : Follows openThreshold halfOpenAttempts timeout b a) (times : Readings)
    (operation : ω → Except ε α × ω) (w : ω) :
    let called := circuitBreakerCall b times operation w
    let reference := a.call openThreshold halfOpenAttempts timeout times operation w
    called.1 = reference.1 ∧
      Follows openThreshold halfOpenAttempts timeout called.2.1 reference.2.1 ∧ called.2.2 = reference.2.2 := by
  have hstate := h.state
  have hagrees := h.agrees
  unfold Automaton.call
  by_cases hmode : a.mode = .opened
  · rw [if_pos hmode]
    rw [hmode] at hstate hagrees
    rcases hagrees with ⟨hlast, hsome, hzero⟩
    have hready : b.checkOpenTimeout times.checked = true ↔ Elapsed timeout a.past times.checked :=
      checkOpenTimeout_iff h.configured.timeout hlast
    by_cases helapsed : Elapsed timeout a.past times.checked
    · -- the counter starts again, and the latest entry of the past that counts is a failure
      rw [if_pos helapsed]
      apply executed_follows hthreshold (b := { b.setState .halfOpen with successCount := 0 })
      · exact h.configured.congr rfl rfl rfl
      · exact (circuitState_congr rfl).trans (circuitState_setState b .halfOpen)
      · exact fun h => nomatch h
      · constructor
        · exact hzero.symm
        · rw [hzero]
          exact UInt32.le_iff_toNat_le.mp hattempts
      · unfold allowRequest
        rw [hstate]
        simp only [hready.mpr helapsed, if_true]
    · rw [if_neg helapsed]
      have hclosed : b.checkOpenTimeout times.checked = false := by
        rw [← Bool.not_eq_true, hready]
        exact helapsed
      obtain ⟨time, htime⟩ := Option.isSome_iff_exists.mp hsome
      have hrefuse : b.allowRequest times.checked times.remaining
          = (.error ⟨timeout - (times.remaining - time)⟩, b) := by
        unfold allowRequest
        rw [hstate]
        simp only [hclosed, hlast, htime, h.configured.timeout, Bool.false_eq_true, if_false]
      unfold circuitBreakerCall
      rw [hrefuse, htime]
      exact ⟨rfl, ⟨h.configured, hstate, hlast, hsome, hzero⟩, rfl⟩
  · rw [if_neg hmode]
    rw [← hstate] at hmode
    exact executed_follows hthreshold h.configured hstate (hstate ▸ hmode) hagrees (allowRequest_of_ne hmode)

theorem serve_simulates : Machine.Simulates (serve (ω := ω) (ε := ε) (α := α))
    (Automaton.serve openThreshold halfOpenAttempts timeout)
    (fun s t => Follows openThreshold halfOpenAttempts timeout s.1 t.1 ∧ s.2 = t.2) := by
  rintro ⟨b, w⟩ ⟨a, w'⟩ request ⟨h, hw⟩
  cases hw
  cases request with
  | call times operation =>
    have hcall := call_follows hthreshold hattempts h times operation w
    exact ⟨congrArg some hcall.1, hcall.2⟩
  | reset =>
    have hpos := threshold_pos hthreshold
    exact ⟨rfl, ⟨h.configured.congr rfl rfl rfl, circuitState_setState b .closed, rfl, hpos⟩, rfl⟩

end

theorem follows_start (hthreshold : 1 ≤ openThreshold) :
    Follows openThreshold halfOpenAttempts timeout (new openThreshold halfOpenAttempts timeout) start :=
  ⟨⟨rfl, rfl, rfl⟩, rfl, rfl, threshold_pos hthreshold⟩

/-- Answers, state and world are those of the reference automaton. -/
theorem breaker_is_automaton (openThreshold halfOpenAttempts : UInt32) (timeout : Nat)
    (hthreshold : 1 ≤ openThreshold) (hattempts : 1 ≤ halfOpenAttempts) (requests : List (Request ω ε α)) (w : ω) :
    let actual := Machine.run serve (new openThreshold halfOpenAttempts timeout, w) requests
    let reference := Machine.run (Automaton.serve openThreshold halfOpenAttempts timeout) (start, w) requests
    actual.1 = reference.1 ∧ actual.2.1.circuitState = reference.2.1.mode ∧ actual.2.2 = reference.2.2 := by
  have hstart : Follows openThreshold halfOpenAttempts timeout (new openThreshold halfOpenAttempts timeout) start :=
    follows_start hthreshold
  have hrun := Machine.run_simulates (serve_simulates hthreshold hattempts) ⟨hstart, rfl⟩ requests
    (s := (new openThreshold halfOpenAttempts timeout, w)) (t := (start, w))
  exact ⟨hrun.1, hrun.2.1.state, hrun.2.2⟩

/-- A service that is down twice and then up: the second failure opens, the next call comes too early, the one
behind it closes. -/
def outage : List (Request Nat Unit Nat) :=
  [.call ⟨0, 0, 1⟩ fun w => (.error (), w + 1), .call ⟨2, 2, 3⟩ fun w => (.error (), w + 1),
    .call ⟨5, 6, 7⟩ fun w => (.ok w, w + 1), .call ⟨13, 13, 14⟩ fun w => (.ok w, w + 1)]

theorem breaker_is_automaton_outage : (Machine.run (Automaton.serve 2 1 10) (start, 0) outage).1
      = [some (.error (.operationError ())), some (.error (.operationError ())),
          some (.error (.circuitOpen ⟨7⟩)), some (.ok 2)] ∧
    (Machine.run serve (new 2 1 10, 0) outage).1 = (Machine.run (Automaton.serve 2 1 10) (start, 0) outage).1 ∧
    (Machine.run serve (new 2 1 10, 0) outage).2.1.circuitState = .closed := by
  have h := breaker_is_automaton 2 1 10 (by decide) (by decide) outage 0
  exact ⟨rfl, h.1, h.2.1⟩

end Northstar.Degradation
