import Northstar.Db.Db
import Northstar.Lib.Runs

/-!
# Concurrency — registering snapshots from several threads

`snap/registry.rs` over `snap/concurrency.rs`.  A call of `register_snapshot` takes the lock three times:
it reads the current id, looks the new id up, and inserts it.  Between these steps other calls go on, and
the insertion overwrites what it finds.
-/

namespace Northstar

open Runs

/-- How far a call of `register_snapshot` is. -/
inductive RegisterPhase where
  | idle
  -- the root is a data page
  | validated (txnId : UInt64) (rootPageId : PageId)
  | read (txnId : UInt64) (rootPageId : PageId) (current : UInt64)
  -- all checks are passed
  | checked (txnId : UInt64) (rootPageId : PageId)
  | returned (result : Except Error Unit)

/-- What a call is about to register, once the page is checked. -/
def RegisterPhase.target? : RegisterPhase → Option (UInt64 × PageId)
  | validated txnId rootPageId | read txnId rootPageId _ | checked txnId rootPageId => some (txnId, rootPageId)
  | _ => none

/-- The data behind the lock, and the calls. -/
structure SnapshotConcurrency where
  inner : RegistryData
  calls : Nat → RegisterPhase

inductive RegisterEvent where
  | begin (call : Nat) (txnId : UInt64) (rootPageId : PageId)
  | readCurrent (call : Nat)
  | check (call : Nat)
  | register (call : Nat)
  deriving Repr, DecidableEq

namespace SnapshotConcurrency

/-- `new` has the first data page and id 0, `with_genesis` has id 0. -/
def withTxnId (genesisPageId : PageId) (currentTxnId : UInt64) : SnapshotConcurrency where
  inner := RegistryData.withTxnId genesisPageId currentTxnId
  calls := fun _ => .idle

def setCall (s : SnapshotConcurrency) (call : Nat) (phase : RegisterPhase) : SnapshotConcurrency :=
  { s with calls := Function.update s.calls call phase }

@[simp] theorem calls_setCall (s : SnapshotConcurrency) (call other : Nat) (phase : RegisterPhase) :
    (s.setCall call phase).calls other = if other = call then phase else s.calls other :=
  Function.update_apply ..

def begin (s : SnapshotConcurrency) (call : Nat) (txnId : UInt64) (rootPageId : PageId) :
    Option SnapshotConcurrency :=
  match s.calls call with
  | .idle | .returned _ =>
    some (s.setCall call
      (if ¬ rootPageId.isDataPage then .returned (.error (.validation (.invalidChildPageId rootPageId)))
      else .validated txnId rootPageId))
  | _ => none

def readCurrent (s : SnapshotConcurrency) (call : Nat) : Option SnapshotConcurrency :=
  match s.calls call with
  | .validated txnId rootPageId => some (s.setCall call (.read txnId rootPageId s.inner.currentTxnId))
  | _ => none

/-- The lookup under the lock, and the comparison with the id that was read before. -/
def check (s : SnapshotConcurrency) (call : Nat) : Option SnapshotConcurrency :=
  match s.calls call with
  | .read txnId rootPageId current =>
    some (s.setCall call
      (if (s.inner.getSnapshotRoot txnId).isSome then
        .returned (.error (.validation (.generic ("Snapshot already exists for txn_id " ++ toString txnId))))
      else if txnId ≤ current then
        .returned (.error (.validation (.generic ("txn_id " ++ toString txnId ++
          " is not greater than current " ++ toString current))))
      else .checked txnId rootPageId))
  | _ => none

def register (s : SnapshotConcurrency) (call : Nat) : Option SnapshotConcurrency :=
  match s.calls call with
  | .checked txnId rootPageId =>
    some ({ s with inner := s.inner.register txnId rootPageId }.setCall call (.returned (.ok ())))
  | _ => none

def step (s : SnapshotConcurrency) : RegisterEvent → Option SnapshotConcurrency
  | .begin call txnId rootPageId => s.begin call txnId rootPageId
  | .readCurrent call => s.readCurrent call
  | .check call => s.check call
  | .register call => s.register call

variable {s s' : SnapshotConcurrency} {e : RegisterEvent}

/-- What an event makes of its call, and of the registry. -/
inductive Turn (s : SnapshotConcurrency) : RegisterEvent → Nat → RegisterPhase → RegistryData → Prop
  | refused {call : Nat} {e : RegisterEvent} (error : Error) (other : ∀ call, e ≠ .register call) :
      Turn s e call (.returned (.error error)) s.inner
  | validated {call : Nat} {txnId : UInt64} {rootPageId : PageId} (page : rootPageId.isDataPage) :
      Turn s (.begin call txnId rootPageId) call (.validated txnId rootPageId) s.inner
  | read {call : Nat} {txnId : UInt64} {rootPageId : PageId} (before : s.calls call = .validated txnId rootPageId) :
      Turn s (.readCurrent call) call (.read txnId rootPageId s.inner.currentTxnId) s.inner
  | checked {call : Nat} {txnId current : UInt64} {rootPageId : PageId}
      (before : s.calls call = .read txnId rootPageId current) (new : s.inner.getSnapshotRoot txnId = none)
      (greater : current < txnId) : Turn s (.check call) call (.checked txnId rootPageId) s.inner
  | registered {call : Nat} {txnId : UInt64} {rootPageId : PageId} (before : s.calls call = .checked txnId rootPageId) :
      Turn s (.register call) call (.returned (.ok ())) (s.inner.register txnId rootPageId)

theorem step_cases (h : s.step e = some s') :
    ∃ call phase inner, Turn s e call phase inner ∧ s' = { s with inner }.setCall call phase := by
  cases e with
  | begin call txnId rootPageId =>
    change s.begin call txnId rootPageId = some s' at h
    unfold SnapshotConcurrency.begin at h
    split at h <;> cases h
    all_goals
      refine ⟨call, _, s.inner, ?_, rfl⟩
      by_cases hpage : rootPageId.isDataPage
      · rw [if_neg (not_not_intro hpage)]
        exact .validated hpage
      · rw [if_pos hpage]
        exact .refused _ nofun
  | readCurrent call =>
    change s.readCurrent call = some s' at h
    unfold readCurrent at h
    split at h <;> cases h
    next hphase => exact ⟨call, _, s.inner, .read hphase, rfl⟩
  | check call =>
    change s.check call = some s' at h
    unfold SnapshotConcurrency.check at h
    split at h <;> cases h
    next txnId rootPageId current hphase =>
      refine ⟨call, _, s.inner, ?_, rfl⟩
      by_cases hold : (s.inner.getSnapshotRoot txnId).isSome
      · rw [if_pos hold]
        exact .refused _ nofun
      · rw [if_neg hold]
        by_cases hle : txnId ≤ current
        · rw [if_pos hle]
          exact .refused _ nofun
        · rw [if_neg hle]
          exact .checked hphase (by simpa using hold) (UInt64.not_le.mp hle)
  | register call =>
    change s.register call = some s' at h
    unfold SnapshotConcurrency.register at h
    split at h <;> cases h
    next hphase => exact ⟨call, _, _, .registered hphase, rfl⟩

theorem inner_step (h : s.step e = some s') :
    s'.inner = s.inner ∨ ∃ call txnId rootPageId, s.calls call = .checked txnId rootPageId ∧
      s'.inner = s.inner.register txnId rootPageId := by
  rcases step_cases h with ⟨call, phase, inner, hturn, rfl⟩
  cases hturn with
  | registered before => exact .inr ⟨_, _, _, before, rfl⟩
  | refused | validated | read | checked => exact .inl rfl

theorem target_step (h : s.step e = some s') {call : Nat} {txnId : UInt64} {rootPageId : PageId}
    (htarget : (s'.calls call).target? = some (txnId, rootPageId)) :
    rootPageId.isDataPage ∨ (s.calls call).target? = some (txnId, rootPageId) := by
  rcases step_cases h with ⟨other, phase, inner, hturn, rfl⟩
  rw [calls_setCall] at htarget
  by_cases heq : call = other
  · rw [if_pos heq] at htarget
    rw [heq]
    cases hturn with
    | refused | registered => cases htarget
    | validated page =>
      cases htarget
      exact .inl page
    | read before | checked before =>
      rw [before]
      exact .inr htarget
  · rw [if_neg heq] at htarget
    exact .inr htarget

theorem checked_step (h : s.step e = some s') {call : Nat} {txnId : UInt64} {rootPageId : PageId}
    (hchecked : s'.calls call = .checked txnId rootPageId) :
    (s.calls call = .checked txnId rootPageId ∧ e ≠ .register call) ∨
      ∃ current, e = .check call ∧ s.calls call = .read txnId rootPageId current ∧
        s.inner.getSnapshotRoot txnId = none ∧ current < txnId := by
  rcases step_cases h with ⟨other, phase, inner, hturn, rfl⟩
  rw [calls_setCall] at hchecked
  by_cases heq : call = other
  · rw [if_pos heq] at hchecked
    subst heq hchecked
    cases hturn with
    | checked before new greater => exact .inr ⟨_, rfl, before, new, greater⟩
  · rw [if_neg heq] at hchecked
    refine .inl ⟨hchecked, ?_⟩
    rintro rfl
    cases hturn with
    | refused _ other => exact absurd rfl (other call)
    | registered => exact heq rfl

end SnapshotConcurrency

namespace RegistryData

theorem getSnapshotRoot_register_eq (data : RegistryData) (txnId other : UInt64) (rootPageId : PageId) :
    (data.register txnId rootPageId).getSnapshotRoot other =
      if other = txnId then some rootPageId else data.getSnapshotRoot other := by
  show ((txnId, rootPageId) :: data.snapshots).lookup other = _
  by_cases heq : other = txnId
  · rw [if_pos heq, heq, List.lookup_cons_self]
  · rw [if_neg heq, List.lookup_cons, beq_false_of_ne heq]
    rfl

/-- The current id is the greatest one that is registered, and every root is a data page. -/
structure Consistent (data : RegistryData) : Prop where
  registered : (data.getSnapshotRoot data.currentTxnId).isSome
  greatest : ∀ txnId, (data.getSnapshotRoot txnId).isSome → txnId ≤ data.currentTxnId
  dataPages : ∀ txnId rootPageId, data.getSnapshotRoot txnId = some rootPageId → rootPageId.isDataPage

theorem consistent_withTxnId {genesisPageId : PageId} (h : genesisPageId.isDataPage) (txnId : UInt64) :
    (withTxnId genesisPageId txnId).Consistent := by
  have hroot : ∀ other, (withTxnId genesisPageId txnId).getSnapshotRoot other =
      if other = txnId then some genesisPageId else none :=
    fun other => getSnapshotRoot_register_eq ⟨[], txnId⟩ txnId other genesisPageId
  constructor
  · show ((withTxnId genesisPageId txnId).getSnapshotRoot txnId).isSome
    rw [hroot, if_pos rfl]
    rfl
  · intro other hother
    show other ≤ txnId
    by_cases heq : other = txnId
    · rw [heq]
      exact UInt64.le_refl txnId
    · rw [hroot, if_neg heq] at hother
      cases hother
  · intro other rootPageId hother
    rw [hroot] at hother
    split at hother <;> cases hother
    exact h

theorem Consistent.register {data : RegistryData} (h : data.Consistent) {txnId : UInt64}
    {rootPageId : PageId} (hpage : rootPageId.isDataPage) :
    (data.register txnId rootPageId).Consistent ∧
      data.currentTxnId ≤ (data.register txnId rootPageId).currentTxnId := by
  have hcurrent : (data.register txnId rootPageId).currentTxnId =
      if data.currentTxnId < txnId then txnId else data.currentTxnId := rfl
  constructor
  · constructor
    · rw [getSnapshotRoot_register_eq, hcurrent]
      by_cases hlt : data.currentTxnId < txnId
      · rw [if_pos hlt, if_pos rfl]
        rfl
      · rw [if_neg hlt]
        split
        · rfl
        · exact h.registered
    · intro other hother
      rw [getSnapshotRoot_register_eq] at hother
      rw [hcurrent]
      by_cases heq : other = txnId
      · rw [heq]
        split
        · exact UInt64.le_refl txnId
        next hlt => exact UInt64.not_lt.mp hlt
      · rw [if_neg heq] at hother
        have hle := h.greatest other hother
        split
        next hlt => exact UInt64.le_trans hle (UInt64.le_of_lt hlt)
        next => exact hle
    · intro other root hother
      rw [getSnapshotRoot_register_eq] at hother
      split at hother
      · cases hother
        exact hpage
      · exact h.dataPages other root hother
  · rw [hcurrent]
    split
    next hlt => exact UInt64.le_of_lt hlt
    next => exact UInt64.le_refl _

theorem Consistent.latest {data : RegistryData} (h : data.Consistent) :
    ∃ rootPageId, data.getSnapshotRoot data.currentTxnId = some rootPageId ∧
      data.getLatestSnapshot = some (data.currentTxnId, rootPageId) := by
  have hsome := Option.isSome_iff_exists.mp h.registered
  cases hsome with
  | intro rootPageId hroot =>
    refine ⟨rootPageId, hroot, ?_⟩
    unfold getLatestSnapshot
    rw [hroot]
    rfl

end RegistryData

namespace SnapshotConcurrency

variable {s s' : SnapshotConcurrency} {e : RegisterEvent}

/-- The data are consistent, and only data pages are about to be registered. -/
structure Sound (s : SnapshotConcurrency) : Prop where
  consistent : s.inner.Consistent
  targets : ∀ call txnId rootPageId, (s.calls call).target? = some (txnId, rootPageId) → rootPageId.isDataPage

theorem sound_step (h : s.Sound) (hstep : s.step e = some s') :
    s'.Sound ∧ s.inner.currentTxnId ≤ s'.inner.currentTxnId := by
  have htargets : ∀ call txnId rootPageId, (s'.calls call).target? = some (txnId, rootPageId) →
      rootPageId.isDataPage := by
    intro call txnId rootPageId htarget
    cases target_step hstep htarget with
    | inl hpage => exact hpage
    | inr hbefore => exact h.targets call txnId rootPageId hbefore
  cases inner_step hstep with
  | inl hinner =>
    rw [hinner]
    exact ⟨⟨hinner ▸ h.consistent, htargets⟩, UInt64.le_refl _⟩
  | inr hregister =>
    rcases hregister with ⟨call, txnId, rootPageId, hphase, hinner⟩
    have hpage : rootPageId.isDataPage := by
      apply h.targets call txnId
      rw [hphase]
      rfl
    have hregistered := @RegistryData.Consistent.register _ h.consistent txnId _ hpage
    rw [hinner]
    exact ⟨⟨hinner ▸ hregistered.1, htargets⟩, hregistered.2⟩

/-- When a call passes its checks, no other call is between its checks and its insertion with the same id and
another root. -/
def Alone (s : SnapshotConcurrency) (e : RegisterEvent) : Prop :=
  ∀ call txnId rootPageId current, e = .check call → s.calls call = .read txnId rootPageId current →
    s.inner.getSnapshotRoot txnId = none → current < txnId →
      ∀ other rootPageId', s.calls other = .checked txnId rootPageId' → rootPageId' = rootPageId

/-- What a call will insert is not bound to another root, neither in the map nor by another call. -/
structure Unclaimed (s : SnapshotConcurrency) : Prop where
  map : ∀ call txnId rootPageId, s.calls call = .checked txnId rootPageId →
    ∀ rootPageId', s.inner.getSnapshotRoot txnId = some rootPageId' → rootPageId' = rootPageId
  calls : ∀ call other txnId rootPageId rootPageId', s.calls call = .checked txnId rootPageId →
    s.calls other = .checked txnId rootPageId' → rootPageId' = rootPageId

/-- Every root that is registered stays. -/
def Keeps (s s' : SnapshotConcurrency) : Prop :=
  ∀ txnId rootPageId, s.inner.getSnapshotRoot txnId = some rootPageId →
    s'.inner.getSnapshotRoot txnId = some rootPageId

theorem unclaimed_step (h : s.Unclaimed) (halone : s.Alone e) (hstep : s.step e = some s') :
    s'.Unclaimed ∧ s.Keeps s' := by
  have hcalls : ∀ call other txnId rootPageId rootPageId', s'.calls call = .checked txnId rootPageId →
      s'.calls other = .checked txnId rootPageId' → rootPageId' = rootPageId := by
    intro call other txnId rootPageId rootPageId' hcall hother
    cases checked_step hstep hcall with
    | inl hbefore =>
      cases checked_step hstep hother with
      | inl hother => exact h.calls call other txnId _ _ hbefore.1 hother.1
      | inr hnew =>
        rcases hnew with ⟨current, he, hread, hnone, hlt⟩
        exact (halone other txnId _ current he hread hnone hlt call _ hbefore.1).symm
    | inr hnew =>
      rcases hnew with ⟨current, he, hread, hnone, hlt⟩
      cases checked_step hstep hother with
      | inl hother => exact halone call txnId _ current he hread hnone hlt other _ hother.1
      | inr hnew' =>
        -- both checks are this step
        rcases hnew' with ⟨current', he', hread', _, _⟩
        rw [he] at he'
        cases he'
        rw [hread] at hread'
        cases hread'
        rfl
  cases inner_step hstep with
  | inl hinner =>
    constructor
    · constructor
      · rw [hinner]
        intro call txnId rootPageId hcall rootPageId' hroot
        cases checked_step hstep hcall with
        | inl hbefore => exact h.map call txnId rootPageId hbefore.1 rootPageId' hroot
        | inr hnew =>
          rcases hnew with ⟨_, _, _, hnone, _⟩
          rw [hnone] at hroot
          cases hroot
      · exact hcalls
    · unfold Keeps
      rw [hinner]
      exact fun _ _ hroot => hroot
  | inr hregister =>
    rcases hregister with ⟨own, txnId, rootPageId, hown, hinner⟩
    constructor
    · constructor
      · rw [hinner]
        intro call txnId' root hcall root' hroot
        rw [RegistryData.getSnapshotRoot_register_eq] at hroot
        cases checked_step hstep hcall with
        | inl hbefore =>
          by_cases heq : txnId' = txnId
          · rw [if_pos heq] at hroot
            cases hroot
            rw [heq] at hbefore
            exact h.calls call own txnId root rootPageId hbefore.1 hown
          · rw [if_neg heq] at hroot
            exact h.map call txnId' root hbefore.1 root' hroot
        | inr hnew =>
          -- a step that checks does not register
          rcases hnew with ⟨current, he, hread, hnone, _⟩
          subst he
          change s.check call = some s' at hstep
          unfold SnapshotConcurrency.check at hstep
          rw [hread] at hstep
          cases hstep
          have hlength := congrArg (fun data => data.snapshots.length) hinner
          exact absurd hlength (Nat.ne_of_lt (Nat.lt_succ_self _))
      · exact hcalls
    · intro txnId' root hroot
      rw [hinner, RegistryData.getSnapshotRoot_register_eq]
      by_cases heq : txnId' = txnId
      · rw [if_pos heq]
        rw [heq] at hroot
        rw [h.map own txnId rootPageId hown root hroot]
      · rw [if_neg heq]
        exact hroot

/-- In every interleaving the current id is the greatest one that is registered, the latest snapshot is its
root, and roots are data pages; the current id never decreases; and where no call passes its checks beside
another one that is about to insert the same id, a root that is registered stays. -/
theorem registry_consistent (genesisPageId : PageId) (initialTxnId : UInt64)
    (hgenesis : genesisPageId.isDataPage) {es es' : List RegisterEvent} {p q : SnapshotConcurrency}
    (hrun : run step (withTxnId genesisPageId initialTxnId) es = some p) (hrest : run step p es' = some q) :
    p.inner.Consistent ∧
      (∃ rootPageId, p.inner.getSnapshotRoot p.inner.currentTxnId = some rootPageId ∧
        p.inner.getLatestSnapshot = some (p.inner.currentTxnId, rootPageId)) ∧
      p.inner.currentTxnId ≤ q.inner.currentTxnId ∧
      (Meets step Alone (withTxnId genesisPageId initialTxnId) (es ++ es') →
        ∀ txnId rootPageId, p.inner.getSnapshotRoot txnId = some rootPageId →
          q.inner.getSnapshotRoot txnId = some rootPageId) := by
  have hstart : (withTxnId genesisPageId initialTxnId).Sound := by
    constructor
    · exact RegistryData.consistent_withTxnId hgenesis initialTxnId
    · intro call txnId rootPageId htarget
      cases htarget
  have hsound : p.Sound :=
    invariant_of_forall (fun _ _ _ hs hstep => (sound_step hs hstep).1) hstart hrun
  refine ⟨hsound.consistent, hsound.consistent.latest, ?_, ?_⟩
  · apply related (R := fun s s' => s.inner.currentTxnId ≤ s'.inner.currentTxnId) ?_ ?_ ?_ hsound meets_true hrest
    · exact fun _ => UInt64.le_refl _
    · exact fun _ _ _ => UInt64.le_trans
    · exact fun _ _ _ hs _ hstep => sound_step hs hstep
  · intro hmeets
    have hboth := meets_append hmeets
    have hunclaimed : p.Unclaimed := by
      apply invariant (fun _ _ _ hs halone hstep => (unclaimed_step hs halone hstep).1) _ hboth.1 hrun
      constructor
      · intro call txnId rootPageId hcall
        cases hcall
      · intro call other txnId rootPageId rootPageId' hcall
        cases hcall
    apply related (R := Keeps) ?_ ?_ ?_ hunclaimed (hboth.2 p hrun) hrest
    · exact fun _ _ _ hroot => hroot
    · exact fun _ _ _ h h' txnId root hroot => h' txnId root (h txnId root hroot)
    · exact fun _ _ _ hs halone hstep => unclaimed_step hs halone hstep

theorem alone_of_ne (h : ∀ call, e ≠ .check call) : s.Alone e :=
  fun call _ _ _ he => absurd he (h call)

theorem alone_of_unchecked (h : ∀ other txnId rootPageId, s.calls other ≠ .checked txnId rootPageId) :
    s.Alone e :=
  fun _ txnId _ _ _ _ _ _ other rootPageId hother => absurd hother (h other txnId rootPageId)

def firstCall : List RegisterEvent := [.begin 0 1 10, .readCurrent 0, .check 0, .register 0]

def secondCall : List RegisterEvent := [.begin 1 2 11, .readCurrent 1, .check 1, .register 1]

theorem meets_two_calls : Meets step Alone (withTxnId 2 0) (firstCall ++ secondCall) := by
  refine ⟨alone_of_ne nofun, fun s hs => ⟨alone_of_ne nofun, fun s' hs' => ⟨alone_of_unchecked ?_,
    fun t ht => ⟨alone_of_ne nofun, fun t' ht' => ⟨alone_of_ne nofun, fun u hu => ⟨alone_of_ne nofun,
      fun u' hu' => ⟨alone_of_unchecked ?_, fun v hv => ⟨alone_of_ne nofun, fun _ _ => trivial⟩⟩⟩⟩⟩⟩⟩⟩
  · cases hs
    cases hs'
    intro other txnId rootPageId hother
    rw [calls_setCall, calls_setCall] at hother
    split at hother
    · cases hother
    · cases hother
  · cases hs
    cases hs'
    cases ht
    cases ht'
    cases hu
    cases hu'
    intro other txnId rootPageId hother
    by_cases hsecond : other = 1
    · rw [hsecond] at hother
      cases hother
    · by_cases hfirst : other = 0
      · rw [hfirst] at hother
        cases hother
      · simp only [calls_setCall, if_neg hsecond, if_neg hfirst] at hother
        cases hother

/-- After the second call the root of the first is still there. -/
theorem registry_consistent_two_calls :
    ∃ p q, run step (withTxnId 2 0) firstCall = some p ∧ run step p secondCall = some q ∧
      p.inner.getSnapshotRoot 1 = some 10 ∧ q.inner.getSnapshotRoot 1 = some 10 :=
  ⟨_, _, rfl, rfl, rfl, (@registry_consistent 2 0 (by decide) firstCall secondCall _ _ rfl rfl).2.2.2
    meets_two_calls 1 10 rfl⟩

/-- Two calls register id 1; both pass their checks before either inserts, and the root of the first is
replaced. -/
theorem registered_root_replaced :
    ¬ ∀ (genesisPageId : PageId) (initialTxnId : UInt64), genesisPageId.isDataPage →
      ∀ (es es' : List RegisterEvent) (p q : SnapshotConcurrency),
        run step (withTxnId genesisPageId initialTxnId) es = some p → run step p es' = some q →
          ∀ txnId rootPageId, p.inner.getSnapshotRoot txnId = some rootPageId →
            q.inner.getSnapshotRoot txnId = some rootPageId := by
  intro hclaim
  have hkept := hclaim 2 0 (by decide)
    [.begin 0 1 10, .begin 1 1 11, .readCurrent 0, .readCurrent 1, .check 0, .check 1, .register 0]
    [.register 1] _ _ rfl rfl 1 10 rfl
  exact absurd hkept (by decide)

end SnapshotConcurrency

end Northstar
