import Northstar.Lib.Runs
import Mathlib.Logic.Function.Basic

/-!
# Writers — handles that collect operations for a shared store

Any number of handles is open at once.  A handle collects operations, and a commit applies what it has
collected to the store, in one step.  Two implementations are compared through what a handle holds and what a
commit does; the simplest one, the journal, keeps the committed lists of operations.
-/

namespace Northstar.Writers

open Runs

inductive Handle (α : Type*) where
  | unused
  | opened (pending : α)
  | committed
  | aborted

inductive Event (Op : Type*) where
  | beginWrite (handle : Nat)
  | mutate (handle : Nat) (op : Op)
  | commit (handle : Nat)
  | abort (handle : Nat)
  deriving Repr, DecidableEq

/-- What the handles of a store collect, and how it is applied; `none` is an error that changes nothing. -/
structure Store (μ α Op : Type*) where
  empty : α
  mutate : α → Op → α
  commit : μ → α → Option μ

structure Session (μ α : Type*) where
  model : μ
  handles : Nat → Handle α

variable {μ μ' α α' Op : Type*}

namespace Session

def init (model : μ) : Session μ α := ⟨model, fun _ => .unused⟩

def setHandle (s : Session μ α) (handle : Nat) (h : Handle α) : Session μ α :=
  { s with handles := Function.update s.handles handle h }

@[simp] theorem handles_setHandle (s : Session μ α) (handle other : Nat) (h : Handle α) :
    (s.setHandle handle h).handles other = if other = handle then h else s.handles other :=
  Function.update_apply ..

end Session

namespace Store

variable (S : Store μ α Op) (s : Session μ α) (handle : Nat)

def beginHandle : Option (Session μ α) :=
  match s.handles handle with
  | .unused => some (s.setHandle handle (.opened S.empty))
  | _ => none

def mutateHandle (op : Op) : Option (Session μ α) :=
  match s.handles handle with
  | .opened pending => some (s.setHandle handle (.opened (S.mutate pending op)))
  | _ => none

def commitHandle : Option (Session μ α) :=
  match s.handles handle with
  | .opened pending =>
    match S.commit s.model pending with
    | some model => some ({ s with model }.setHandle handle .committed)
    | none => some s
  | .committed => some s
  | _ => none

def abortHandle : Option (Session μ α) :=
  match s.handles handle with
  | .opened _ => some (s.setHandle handle .aborted)
  | _ => none

/-- A handle that is finished is not used again, but for that second commit. -/
def step : Event Op → Option (Session μ α)
  | .beginWrite handle => S.beginHandle s handle
  | .mutate handle op => S.mutateHandle s handle op
  | .commit handle => S.commitHandle s handle
  | .abort handle => abortHandle s handle

end Store

/-- The lists of operations that have been committed, in order. -/
def journal (Op : Type*) : Store (List (List Op)) (List Op) Op where
  empty := []
  mutate := fun ops op => ops ++ [op]
  commit := fun committed ops => some (committed ++ [ops])

theorem step_model {S : Store μ α Op} {s t : Session μ α} {e : Event Op} (h : S.step s e = some t) :
    t.model = s.model ∨ ∃ handle pending, e = .commit handle ∧ s.handles handle = .opened pending ∧
      S.commit s.model pending = some t.model := by
  cases e with
  | beginWrite handle =>
    change S.beginHandle s handle = some t at h
    unfold Store.beginHandle at h
    split at h <;> cases h
    exact .inl rfl
  | mutate handle op =>
    change S.mutateHandle s handle op = some t at h
    unfold Store.mutateHandle at h
    split at h <;> cases h
    exact .inl rfl
  | commit handle =>
    change S.commitHandle s handle = some t at h
    unfold Store.commitHandle at h
    split at h
    next pending hhandle =>
      split at h
      next model hcommit =>
        cases h
        exact .inr ⟨handle, pending, rfl, hhandle, hcommit⟩
      next =>
        cases h
        exact .inl rfl
    next =>
      cases h
      exact .inl rfl
    next => cases h
  | abort handle =>
    change Store.abortHandle s handle = some t at h
    unfold Store.abortHandle at h
    split at h <;> cases h
    exact .inl rfl

theorem step_commit {S : Store μ α Op} {s : Session μ α} {handle : Nat} {pending : α} {model : μ}
    (hhandle : s.handles handle = .opened pending) (hcommit : S.commit s.model pending = some model) :
    S.step s (.commit handle) = some ({ s with model }.setHandle handle .committed) := by
  show S.commitHandle s handle = _
  unfold Store.commitHandle
  rw [hhandle]
  show (match S.commit s.model pending with | some model => _ | none => _) = _
  rw [hcommit]

inductive Handle.Rel (Q : α → α' → Prop) : Handle α → Handle α' → Prop
  | unused : Rel Q .unused .unused
  | opened {a : α} {a' : α'} (h : Q a a') : Rel Q (.opened a) (.opened a')
  | committed : Rel Q .committed .committed
  | aborted : Rel Q .aborted .aborted

structure Related (R : μ → μ' → Prop) (Q : α → α' → Prop) (s : Session μ α) (s' : Session μ' α') : Prop where
  model : R s.model s'.model
  handles : ∀ handle, (s.handles handle).Rel Q (s'.handles handle)

/-- What the handles hold is related, and a commit keeps the stores related. -/
structure Simulates (S : Store μ α Op) (S' : Store μ' α' Op) (R : μ → μ' → Prop) (Q : α → α' → Prop) : Prop where
  empty : Q S.empty S'.empty
  mutate : ∀ a a' op, Q a a' → Q (S.mutate a op) (S'.mutate a' op)
  commit : ∀ m m' a a', R m m' → Q a a' →
    ∃ n n', S.commit m a = some n ∧ S'.commit m' a' = some n' ∧ R n n'

variable {S : Store μ α Op} {S' : Store μ' α' Op} {R : μ → μ' → Prop} {Q : α → α' → Prop}
  {s t : Session μ α} {s' t' : Session μ' α'} {e : Event Op} {es : List (Event Op)}

theorem related_init {model : μ} {model' : μ'} (h : R model model') :
    Related R Q (Session.init model) (Session.init model') :=
  ⟨h, fun _ => .unused⟩

theorem Related.setHandle (h : Related R Q s s') (handle : Nat) {a : Handle α} {a' : Handle α'}
    (ha : a.Rel Q a') : Related R Q (s.setHandle handle a) (s'.setHandle handle a') := by
  refine ⟨h.model, ?_⟩
  intro other
  rw [Session.handles_setHandle, Session.handles_setHandle]
  by_cases heq : other = handle
  · rw [if_pos heq, if_pos heq]
    exact ha
  · rw [if_neg heq, if_neg heq]
    exact h.handles other

theorem simulate_step (hsim : Simulates S S' R Q) (h : Related R Q s s') (hstep : S.step s e = some t) :
    ∃ t', S'.step s' e = some t' ∧ Related R Q t t' := by
  cases e with
  | beginWrite handle =>
    have hrel := h.handles handle
    change S.beginHandle s handle = some t at hstep
    show ∃ t', S'.beginHandle s' handle = some t' ∧ _
    unfold Store.beginHandle at hstep ⊢
    split at hstep <;> cases hstep
    next hunused =>
      rw [hunused] at hrel
      generalize s'.handles handle = a' at hrel
      cases hrel
      exact ⟨_, rfl, h.setHandle handle (.opened hsim.empty)⟩
  | mutate handle op =>
    have hrel := h.handles handle
    change S.mutateHandle s handle op = some t at hstep
    show ∃ t', S'.mutateHandle s' handle op = some t' ∧ _
    unfold Store.mutateHandle at hstep ⊢
    split at hstep <;> cases hstep
    next pending hopened =>
      rw [hopened] at hrel
      generalize s'.handles handle = a' at hrel
      cases hrel with
      | opened hQ => exact ⟨_, rfl, h.setHandle handle (.opened (hsim.mutate _ _ op hQ))⟩
  | commit handle =>
    have hrel := h.handles handle
    change S.commitHandle s handle = some t at hstep
    show ∃ t', S'.commitHandle s' handle = some t' ∧ _
    unfold Store.commitHandle at hstep ⊢
    split at hstep
    next pending hopened =>
      rw [hopened] at hrel
      generalize s'.handles handle = a' at hrel
      cases hrel with
      | opened hQ =>
        rcases hsim.commit _ _ _ _ h.model hQ with ⟨n, n', hn, hn', hR⟩
        rw [hn] at hstep
        cases hstep
        refine ⟨{ s' with model := n' }.setHandle handle .committed, ?_, ?_⟩
        · show (match S'.commit s'.model _ with | some model => _ | none => _) = _
          rw [hn']
        · have hmodel : Related R Q { s with model := n } { s' with model := n' } := ⟨hR, h.handles⟩
          exact hmodel.setHandle handle .committed
    next hcommitted =>
      cases hstep
      rw [hcommitted] at hrel
      generalize s'.handles handle = a' at hrel
      cases hrel
      exact ⟨s', rfl, h⟩
    next => cases hstep
  | abort handle =>
    have hrel := h.handles handle
    change Store.abortHandle s handle = some t at hstep
    show ∃ t', Store.abortHandle s' handle = some t' ∧ _
    unfold Store.abortHandle at hstep ⊢
    split at hstep <;> cases hstep
    next pending hopened =>
      rw [hopened] at hrel
      generalize s'.handles handle = a' at hrel
      cases hrel
      exact ⟨_, rfl, h.setHandle handle .aborted⟩

theorem simulate_run (hsim : Simulates S S' R Q) (h : Related R Q s s') (hrun : run S.step s es = some t) :
    ∃ t', run S'.step s' es = some t' ∧ Related R Q t t' := by
  induction es generalizing s s' with
  | nil =>
    cases hrun
    exact ⟨s', rfl, h⟩
  | cons e es ih =>
    rcases run_cons.mp hrun with ⟨r, hr, hrest⟩
    rcases simulate_step hsim h hr with ⟨r', hr', hrelated⟩
    rcases ih hrelated hrest with ⟨t', ht', hend⟩
    exact ⟨t', run_cons.mpr ⟨r', hr', ht'⟩, hend⟩

end Northstar.Writers
