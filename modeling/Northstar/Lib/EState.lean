import Mathlib.Logic.Basic

/-!
# EState — running calls on a mutable state

`&mut self` methods that return `Result` are `EStateM` programs: a failed call keeps the state it
has reached.  The rules below run a sequence one call at a time, forwards from the outcome of a
call and backwards from a successful end.
-/

namespace EStateM

variable {ε σ τ α β : Type}

variable {a : α} {e : ε} {x : EStateM ε σ α}

theorem run_bind_of_ok {f : α → EStateM ε σ β} {s s' : σ}
    (h : x.run s = .ok a s') : (x >>= f).run s = (f a).run s' := by
  rw [run_bind, h]

theorem run_bind_of_error {f : α → EStateM ε σ β} {s s' : σ}
    (h : x.run s = .error e s') : (x >>= f).run s = .error e s' := by
  rw [run_bind, h]

theorem run_bind_eq_ok_iff {f : α → EStateM ε σ β} {s s'' : σ} {b : β} :
    (x >>= f).run s = .ok b s'' ↔ ∃ a s', x.run s = .ok a s' ∧ (f a).run s' = .ok b s'' := by
  constructor
  · intro h
    cases hx : x.run s with
    | ok a s' => exact ⟨a, s', rfl, by rwa [run_bind_of_ok hx] at h⟩
    | error e s' =>
      rw [run_bind_of_error hx] at h
      cases h
  · rintro ⟨a, s', hx, hf⟩
    rwa [run_bind_of_ok hx]

@[simp] theorem run_throw_any (e : ε) (s : σ) :
    (throw e : EStateM ε σ α).run s = .error e s := rfl

theorem run_getThe_bind (f : σ → EStateM ε σ α) (s : σ) : (getThe σ >>= f).run s = (f s).run s := rfl

/-- A call that only computes. -/
def lift (x : Except ε α) : EStateM ε σ α := fun s =>
  match x with
  | .ok a => .ok a s
  | .error e => .error e s

/-- A call on a part of the state. -/
def zoom (get : σ → τ) (set : σ → τ → σ) (x : EStateM ε τ α) : EStateM ε σ α := fun s =>
  match x.run (get s) with
  | .ok a t => .ok a (set s t)
  | .error e t => .error e (set s t)

/-- `if let Ok(a) = x { .. }`: an error that `caught` accepts becomes `none`, any other goes on. -/
def attempt (caught : ε → Bool) (x : EStateM ε σ α) : EStateM ε σ (Option α) := fun s =>
  match x.run s with
  | .ok a s' => .ok (some a) s'
  | .error e s' => if caught e then .ok none s' else .error e s'

@[simp] theorem run_lift_ok (a : α) (s : σ) :
    (lift (.ok a) : EStateM ε σ α).run s = .ok a s := rfl

@[simp] theorem run_lift_error (e : ε) (s : σ) :
    (lift (.error e) : EStateM ε σ α).run s = .error e s := rfl

theorem run_lift_eq_ok_iff {x : Except ε α} {s s' : σ} :
    (lift x).run s = .ok a s' ↔ x = .ok a ∧ s' = s := by
  cases x with
  | ok b =>
    rw [run_lift_ok, Result.ok.injEq, Except.ok.injEq]
    exact and_congr_right fun _ => eq_comm
  | error e =>
    rw [run_lift_error]
    exact ⟨(nomatch ·), fun h => (nomatch h.1)⟩

theorem run_zoom_of_ok {get : σ → τ} {set : σ → τ → σ} {x : EStateM ε τ α} {s : σ} {t : τ}
    (h : x.run (get s) = .ok a t) : (zoom get set x).run s = .ok a (set s t) := by
  show (match x.run (get s) with | .ok a t => _ | .error e t => _) = _
  rw [h]

theorem run_zoom_of_error {get : σ → τ} {set : σ → τ → σ} {x : EStateM ε τ α} {s : σ} {t : τ}
    (h : x.run (get s) = .error e t) : (zoom get set x).run s = .error e (set s t) := by
  show (match x.run (get s) with | .ok a t => _ | .error e t => _) = _
  rw [h]

theorem run_zoom_eq_ok_iff {get : σ → τ} {set : σ → τ → σ} {x : EStateM ε τ α} {s s' : σ} :
    (zoom get set x).run s = .ok a s' ↔ ∃ t, x.run (get s) = .ok a t ∧ s' = set s t := by
  cases hx : x.run (get s) with
  | ok b t =>
    rw [run_zoom_of_ok hx, Result.ok.injEq]
    constructor
    · rintro ⟨rfl, rfl⟩
      exact ⟨t, rfl, rfl⟩
    · rintro ⟨t', h, rfl⟩
      cases h
      exact ⟨rfl, rfl⟩
  | error e t =>
    rw [run_zoom_of_error hx]
    exact ⟨(nomatch ·), fun h => (nomatch h.choose_spec.1)⟩

theorem run_attempt_of_ok {caught : ε → Bool} {s s' : σ}
    (h : x.run s = .ok a s') : (attempt caught x).run s = .ok (some a) s' := by
  show (match x.run s with | .ok a s' => _ | .error e s' => _) = _
  rw [h]

theorem run_attempt_of_error {caught : ε → Bool} {s s' : σ}
    (h : x.run s = .error e s') (hcaught : caught e = true) : (attempt caught x).run s = .ok none s' := by
  show (match x.run s with | .ok a s' => _ | .error e s' => _) = _
  simp only [h, hcaught, if_true]

/-- A run of `x` from `s` ends well in a state with `P`, or in an error with `Q`. -/
def Ends (x : EStateM ε σ α) (s : σ) (P : α → σ → Prop) (Q : ε → σ → Prop) : Prop :=
  match x.run s with
  | .ok a s' => P a s'
  | .error e s' => Q e s'

section Ends

variable {s s' : σ} {P : α → σ → Prop} {Q : ε → σ → Prop}

theorem ends_of_ok (h : x.run s = .ok a s') (hp : P a s') : Ends x s P Q := by
  rw [Ends, h]
  exact hp

theorem ends_of_error (h : x.run s = .error e s') (hq : Q e s') : Ends x s P Q := by
  rw [Ends, h]
  exact hq

theorem Ends.of_run_ok (h : Ends x s P Q) (hrun : x.run s = .ok a s') : P a s' := by
  rw [Ends, hrun] at h
  exact h

theorem Ends.of_run_error (h : Ends x s P Q) (hrun : x.run s = .error e s') : Q e s' := by
  rw [Ends, hrun] at h
  exact h

theorem Ends.mono {P' : α → σ → Prop} {Q' : ε → σ → Prop} (h : Ends x s P Q)
    (hp : ∀ a s', P a s' → P' a s') (hq : ∀ e s', Q e s' → Q' e s') : Ends x s P' Q' := by
  cases hx : x.run s with
  | ok a s' => exact ends_of_ok hx (hp a s' (h.of_run_ok hx))
  | error e s' => exact ends_of_error hx (hq e s' (h.of_run_error hx))

theorem Ends.bind {f : α → EStateM ε σ β} {R : β → σ → Prop} (h : Ends x s P Q)
    (hf : ∀ a s', x.run s = .ok a s' → P a s' → Ends (f a) s' R Q) : Ends (x >>= f) s R Q := by
  cases hx : x.run s with
  | ok a s' =>
    have hrest := hf a s' hx (h.of_run_ok hx)
    rw [Ends, run_bind_of_ok hx]
    exact hrest
  | error e s' => exact ends_of_error (run_bind_of_error hx) (h.of_run_error hx)

theorem ends_bind_of_ok {f : α → EStateM ε σ β} {R : β → σ → Prop} (h : x.run s = .ok a s')
    (hf : Ends (f a) s' R Q) : Ends (x >>= f) s R Q := by
  rw [Ends, run_bind_of_ok h]
  exact hf

theorem ends_getThe_bind {f : σ → EStateM ε σ β} {R : β → σ → Prop} (h : Ends (f s) s R Q) :
    Ends (getThe σ >>= f) s R Q := h

theorem Ends.attempt {caught : ε → Bool} {P Q : σ → Prop} (h : Ends x s (fun _ => P) (fun _ => Q))
    (hQP : ∀ s', Q s' → P s') : Ends (EStateM.attempt caught x) s (fun _ => P) (fun _ => Q) := by
  cases hx : x.run s with
  | ok a s' => exact ends_of_ok (run_attempt_of_ok hx) (h.of_run_ok hx)
  | error e s' =>
    have hQ := h.of_run_error hx
    by_cases hcaught : caught e = true
    · exact ends_of_ok (run_attempt_of_error hx hcaught) (hQP s' hQ)
    · refine ends_of_error (show (EStateM.attempt caught x).run s = .error e s' from ?_) hQ
      show (match x.run s with | .ok a s' => _ | .error e s' => _) = _
      simp only [hx, hcaught, Bool.false_eq_true, if_false]

theorem ends_lift {x : Except ε α} (hok : ∀ a, x = .ok a → P a s) (herror : ∀ e, x = .error e → Q e s) :
    Ends (lift x) s P Q := by
  cases x with
  | ok a => exact ends_of_ok (run_lift_ok a s) (hok a rfl)
  | error e => exact ends_of_error (run_lift_error e s) (herror e rfl)

end Ends

/-- However a call ends, it keeps the invariant. -/
structure Preserves (I : σ → Prop) (x : EStateM ε σ α) : Prop where
  ends : ∀ s, I s → Ends x s (fun _ => I) (fun _ => I)

section Preserves

variable {I : σ → Prop}

theorem Preserves.of_run_ok (h : Preserves I x) {s s' : σ} (hs : I s) (hrun : x.run s = .ok a s') : I s' :=
  (h.ends s hs).of_run_ok hrun

theorem Preserves.of_run_error (h : Preserves I x) {s s' : σ} (hs : I s) (hrun : x.run s = .error e s') :
    I s' := (h.ends s hs).of_run_error hrun

theorem preserves_pure (a : α) : Preserves I (pure a : EStateM ε σ α) :=
  ⟨fun s hs => ends_of_ok (run_pure a s) hs⟩

theorem preserves_throw (e : ε) : Preserves I (throw e : EStateM ε σ α) :=
  ⟨fun s hs => ends_of_error (run_throw_any e s) hs⟩

theorem preserves_lift (x : Except ε α) : Preserves I (lift x : EStateM ε σ α) :=
  ⟨fun _ hs => ends_lift (fun _ _ => hs) (fun _ _ => hs)⟩

theorem Preserves.bind {f : α → EStateM ε σ β} (h : Preserves I x) (hf : ∀ a, Preserves I (f a)) :
    Preserves I (x >>= f) := ⟨fun s hs => (h.ends s hs).bind fun a s' _ hs' => (hf a).ends s' hs'⟩

theorem Preserves.attempt {caught : ε → Bool} (h : Preserves I x) : Preserves I (EStateM.attempt caught x) :=
  ⟨fun s hs => (h.ends s hs).attempt fun _ hs' => hs'⟩

theorem preserves_get_bind {f : σ → EStateM ε σ α}
    (h : ∀ s, I s → Ends (f s) s (fun _ => I) (fun _ => I)) : Preserves I (get >>= f) := by
  constructor
  intro s hs
  rw [Ends, run_bind_of_ok (run_get s), ← Ends]
  exact h s hs

end Preserves

variable {ι : Type}

/-- `for x in xs { f(x)?; }`. -/
def forEach (f : ι → EStateM ε σ Unit) : List ι → EStateM ε σ Unit
  | [] => pure ()
  | x :: xs => do
    f x
    forEach f xs

variable {f : ι → EStateM ε σ Unit}

theorem run_forEach_append {xs ys : List ι} {s s' s'' : σ}
    (hxs : (forEach f xs).run s = .ok () s') (hys : (forEach f ys).run s' = .ok () s'') :
    (forEach f (xs ++ ys)).run s = .ok () s'' := by
  induction xs generalizing s with
  | nil =>
    cases hxs
    exact hys
  | cons x xs ih =>
    rcases run_bind_eq_ok_iff.mp hxs with ⟨_, t, hx, hrest⟩
    exact (run_bind_of_ok hx).trans (ih hrest)

/-- Every turn of the loop finds the condition in the state it starts from. -/
def Meets (f : ι → EStateM ε σ Unit) (C : σ → ι → Prop) : List ι → σ → Prop
  | [], _ => True
  | x :: xs, s => C s x ∧ ∀ s', (f x).run s = .ok () s' → Meets f C xs s'

theorem meets_snoc {C : σ → ι → Prop} {xs : List ι} {x : ι} {s s' : σ}
    (h : Meets f C xs s) (hrun : (forEach f xs).run s = .ok () s') (hx : C s' x) : Meets f C (xs ++ [x]) s := by
  induction xs generalizing s with
  | nil =>
    cases hrun
    exact ⟨hx, fun _ _ => trivial⟩
  | cons y ys ih =>
    refine ⟨h.1, fun t ht => ih (h.2 t ht) ?_⟩
    rw [forEach, run_bind_of_ok ht] at hrun
    exact hrun

/-- The loop rule: an invariant over what has been done so far. -/
theorem ends_forEach {f : ι → EStateM ε σ Unit} {C : σ → ι → Prop} {P : List ι → σ → Prop}
    {Q : ε → σ → Prop}
    (hstep : ∀ done x s, P done s → C s x → Ends (f x) s (fun _ => P (done ++ [x])) Q)
    {xs done : List ι} {s : σ} (hinit : P done s) (hmeets : Meets f C xs s) :
    Ends (forEach f xs) s (fun _ => P (done ++ xs)) Q := by
  induction xs generalizing done s with
  | nil =>
    apply ends_of_ok (run_pure () s)
    rw [List.append_nil]
    exact hinit
  | cons x xs ih =>
    apply (hstep done x s hinit hmeets.1).bind
    intro _ s' hrun hinv
    have hrest := ih hinv (hmeets.2 s' hrun)
    rwa [List.append_assoc, List.singleton_append] at hrest

end EStateM

/-!
# Traced — the states a program can be stopped in

A process that stops leaves what it has written so far.  A traced program notes the state behind each of its
writes; without the notes, it is a program.
-/

def Traced (ε σ α : Type) : Type := σ → EStateM.Result ε σ α × List σ

namespace Traced

open EStateM

variable {ε σ τ α β ι : Type}

/-- The program without the notes. -/
def erase (x : Traced ε σ α) : EStateM ε σ α := fun s => (x s).1

/-- The states behind the writes. -/
def stops (x : Traced ε σ α) (s : σ) : List σ := (x s).2

/-- A call that writes nothing. -/
def quiet (x : EStateM ε σ α) : Traced ε σ α := fun s => (x.run s, [])

def reached : Result ε σ α → σ
  | .ok _ s => s
  | .error _ s => s

def write (x : EStateM ε σ α) : Traced ε σ α := fun s => (x.run s, [reached (x.run s)])

instance : Monad (Traced ε σ) where
  pure a := quiet (pure a)
  bind x f := fun s =>
    match x s with
    | (.ok a t, noted) => ((f a t).1, noted ++ (f a t).2)
    | (.error e t, noted) => (.error e t, noted)

/-- A call on a part of the state. -/
def zoom (get : σ → τ) (set : σ → τ → σ) (x : Traced ε τ α) : Traced ε σ α := fun s =>
  ((EStateM.zoom get set x.erase).run s, (x.stops (get s)).map (set s))

/-- `for x in xs { f(x)?; }`. -/
def forEach (f : ι → Traced ε σ Unit) : List ι → Traced ε σ Unit
  | [] => pure ()
  | x :: xs => do
    f x
    forEach f xs

@[simp] theorem erase_quiet (x : EStateM ε σ α) : (quiet x).erase = x := (rfl)
@[simp] theorem erase_write (x : EStateM ε σ α) : (write x).erase = x := (rfl)
@[simp] theorem erase_pure (a : α) : (pure a : Traced ε σ α).erase = pure a := (rfl)
@[simp] theorem erase_zoom (get : σ → τ) (set : σ → τ → σ) (x : Traced ε τ α) :
    (zoom get set x).erase = EStateM.zoom get set x.erase := rfl

@[simp] theorem erase_bind (x : Traced ε σ α) (f : α → Traced ε σ β) :
    (x >>= f).erase = x.erase >>= fun a => (f a).erase := by
  funext s
  show (match x s with
    | (.ok a t, noted) => ((f a t).1, noted ++ (f a t).2)
    | (.error e t, noted) => (.error e t, noted)).1 = (x.erase >>= fun a => (f a).erase).run s
  rw [run_bind]
  show _ = match (x s).1 with | .ok a t => (f a t).1 | .error e t => .error e t
  rcases x s with ⟨r, noted⟩
  cases r with
  | ok a t => rfl
  | error e t => rfl

theorem erase_forEach {f : ι → Traced ε σ Unit} {g : ι → EStateM ε σ Unit} (h : ∀ x, (f x).erase = g x)
    (xs : List ι) : (forEach f xs).erase = EStateM.forEach g xs := by
  induction xs with
  | nil => rfl
  | cons x xs ih =>
    rw [forEach, erase_bind, EStateM.forEach, h]
    congr 1
    funext _
    exact ih

theorem stops_bind_of_ok {x : Traced ε σ α} {f : α → Traced ε σ β} {s t : σ} {a : α}
    (h : x.erase.run s = .ok a t) : (x >>= f).stops s = x.stops s ++ (f a).stops t := by
  have hx : (x s).1 = .ok a t := h
  show (match x s with
    | (.ok a t, noted) => ((f a t).1, noted ++ (f a t).2)
    | (.error e t, noted) => (.error e t, noted)).2 = (x s).2 ++ (f a t).2
  rcases hrun : x s with ⟨r, noted⟩
  rw [hrun] at hx
  cases hx
  rfl

theorem stops_bind_of_error {x : Traced ε σ α} {f : α → Traced ε σ β} {s t : σ} {e : ε}
    (h : x.erase.run s = .error e t) : (x >>= f).stops s = x.stops s := by
  have hx : (x s).1 = .error e t := h
  show (match x s with
    | (.ok a t, noted) => ((f a t).1, noted ++ (f a t).2)
    | (.error e t, noted) => (.error e t, noted)).2 = (x s).2
  rcases hrun : x s with ⟨r, noted⟩
  rw [hrun] at hx
  cases hx
  rfl

theorem stops_bind_pure (x : Traced ε σ α) (f : α → β) (s : σ) :
    (x >>= fun a => pure (f a)).stops s = x.stops s := by
  cases hrun : x.erase.run s with
  | ok a t =>
    rw [stops_bind_of_ok hrun]
    exact List.append_nil _
  | error e t => exact stops_bind_of_error hrun

/-- From a state with `C`, every stop and the end are related to the start by `R`; if the program returns,
its result has `P`. -/
def Along (C : σ → Prop) (R : σ → σ → Prop) (x : Traced ε σ α) (P : α → Prop) : Prop :=
  ∀ s, C s → (∀ t ∈ x.stops s, R s t) ∧ Ends x.erase s (fun a t => R s t ∧ P a) (fun _ t => R s t)

section Along

variable {C : σ → Prop} {R : σ → σ → Prop} {x : Traced ε σ α} {P : α → Prop} {Q : β → Prop}

theorem along_quiet {x : EStateM ε σ α}
    (h : ∀ s, C s → Ends x s (fun a t => R s t ∧ P a) (fun _ t => R s t)) : Along C R (quiet x) P :=
  fun s hs => ⟨fun _ ht => absurd ht List.not_mem_nil, h s hs⟩

theorem along_write {x : EStateM ε σ α}
    (h : ∀ s, C s → Ends x s (fun a t => R s t ∧ P a) (fun _ t => R s t)) : Along C R (write x) P := by
  intro s hs
  have hends := h s hs
  refine ⟨fun t ht => ?_, hends⟩
  rw [List.mem_singleton.mp ht]
  cases hrun : x.run s with
  | ok a t => exact (hends.of_run_ok hrun).1
  | error e t => exact hends.of_run_error hrun

theorem Along.mono {P' : α → Prop} (h : Along C R x P) (hP : ∀ a, P a → P' a) : Along C R x P' :=
  fun s hs => ⟨(h s hs).1, (h s hs).2.mono (fun a _ ha => ⟨ha.1, hP a ha.2⟩) fun _ _ ht => ht⟩

theorem Along.bind {f : α → Traced ε σ β} (hC : ∀ {s t}, C s → R s t → C t)
    (hR : ∀ {s t u}, R s t → R t u → R s u) (hx : Along C R x P) (hf : ∀ a, P a → Along C R (f a) Q) :
    Along C R (x >>= f) Q := by
  intro s hs
  rcases hx s hs with ⟨hstops, hends⟩
  unfold Ends
  rw [erase_bind]
  cases hrun : x.erase.run s with
  | error e t =>
    rw [stops_bind_of_error hrun, run_bind_of_error hrun]
    exact ⟨hstops, hends.of_run_error hrun⟩
  | ok a t =>
    have hreached := hends.of_run_ok hrun
    rcases hf a hreached.2 t (hC hs hreached.1) with ⟨hstops', hends'⟩
    rw [stops_bind_of_ok hrun, run_bind_of_ok hrun]
    refine ⟨fun u hu => ?_, ?_⟩
    · rcases List.mem_append.mp hu with hu | hu
      · exact hstops u hu
      · exact hR hreached.1 (hstops' u hu)
    · exact hends'.mono (fun b u hb => ⟨hR hreached.1 hb.1, hb.2⟩) (fun _ u hu => hR hreached.1 hu)

/-- The loop rule: what every turn keeps between its start and its stops, the loop keeps. -/
theorem along_forEach {f : ι → Traced ε σ Unit} {D : σ → ι → Prop} (hrefl : ∀ s, R s s)
    (htrans : ∀ {s t u}, R s t → R t u → R s u)
    (hturn : ∀ s i, D s i → (∀ t ∈ (f i).stops s, R s t) ∧
      Ends (f i).erase s (fun _ t => R s t) (fun _ t => R s t)) {is : List ι} {s : σ}
    (hmeets : Meets (fun i => (f i).erase) D is s) :
    (∀ t ∈ (forEach f is).stops s, R s t) ∧
      Ends (forEach f is).erase s (fun _ t => R s t) (fun _ t => R s t) := by
  induction is generalizing s with
  | nil => exact ⟨fun _ ht => absurd ht List.not_mem_nil, hrefl s⟩
  | cons i is ih =>
    rcases hturn s i hmeets.1 with ⟨hstops, hends⟩
    unfold Ends
    rw [forEach, erase_bind]
    cases hrun : (f i).erase.run s with
    | error e t =>
      rw [stops_bind_of_error hrun, run_bind_of_error hrun]
      exact ⟨hstops, hends.of_run_error hrun⟩
    | ok a t =>
      have hreached := hends.of_run_ok hrun
      rcases ih (hmeets.2 t hrun) with ⟨hstops', hends'⟩
      rw [stops_bind_of_ok hrun, run_bind_of_ok hrun]
      refine ⟨fun u hu => ?_, ?_⟩
      · rcases List.mem_append.mp hu with hu | hu
        · exact hstops u hu
        · exact htrans hreached (hstops' u hu)
      · exact hends'.mono (fun _ u hu => htrans hreached hu) (fun _ u hu => htrans hreached hu)

end Along

end Traced

/-!
# Mutex — calls that hold mutexes

A mutex that is not reentrant is held or free.  One thread that waits for a mutex it holds waits for ever; such a
call ends here with the mutex it waits for.  A program whose mutexes are all free when it takes them computes what
it does to the data, and leaves the mutexes as they were.
-/

namespace Northstar.Mutex

structure Guarded (μ σ : Type) where
  held : List μ
  data : σ

abbrev MutexM (μ σ : Type) := EStateM μ (Guarded μ σ)

variable {μ σ α β : Type}

def onData (f : σ → α × σ) : MutexM μ σ α := fun s => .ok (f s.data).1 { s with data := (f s.data).2 }

/-- The program does to the data what the function does, and holds at the end what it held before. -/
def Computes (held : List μ) (x : MutexM μ σ α) (f : σ → α × σ) : Prop :=
  ∀ d, x.run ⟨held, d⟩ = .ok (f d).1 ⟨held, (f d).2⟩

variable {held : List μ} {x : MutexM μ σ α} {f : σ → α × σ} {t : Guarded μ σ} {m n : μ}

theorem computes_pure (held : List μ) (a : α) : Computes held (pure a : MutexM μ σ α) fun d => (a, d) := fun _ => rfl

theorem computes_onData (held : List μ) (f : σ → α × σ) : Computes held (onData f) f := fun _ => rfl

theorem Computes.bind {y : α → MutexM μ σ β} {g : α → σ → β × σ} (hx : Computes held x f)
    (hy : ∀ a, Computes held (y a) (g a)) : Computes held (x >>= y) fun d => g (f d).1 (f d).2 := by
  intro d
  rw [EStateM.run_bind_of_ok (hx d)]
  exact hy (f d).1 (f d).2

variable [DecidableEq μ]

def lock (m : μ) : MutexM μ σ Unit := fun s => if m ∈ s.held then .error m s else .ok () { s with held := m :: s.held }

def unlock (m : μ) : MutexM μ σ Unit := fun s => .ok () { s with held := s.held.erase m }

def withLock (m : μ) (x : MutexM μ σ α) : MutexM μ σ α := do
  lock m
  let a ← x
  unlock m
  return a

variable {d : σ}

theorem run_lock_free (h : m ∉ held) : (lock m).run ⟨held, d⟩ = .ok () ⟨m :: held, d⟩ := if_neg h

theorem run_lock_held (h : m ∈ held) : (lock m).run ⟨held, d⟩ = .error m ⟨held, d⟩ := if_pos h

theorem run_withLock_held (x : MutexM μ σ α) (h : m ∈ held) : (withLock m x).run ⟨held, d⟩ = .error m ⟨held, d⟩ :=
  EStateM.run_bind_of_error (run_lock_held h)

theorem run_withLock_of_error (h : m ∉ held) (hx : x.run ⟨m :: held, d⟩ = .error n t) :
    (withLock m x).run ⟨held, d⟩ = .error n t := by
  unfold withLock
  rw [EStateM.run_bind_of_ok (run_lock_free h)]
  exact EStateM.run_bind_of_error hx

theorem Computes.withLock (hfree : m ∉ held) (hx : Computes (m :: held) x f) :
    Computes held (Mutex.withLock m x) f := by
  intro d
  unfold Mutex.withLock
  rw [EStateM.run_bind_of_ok (run_lock_free hfree), EStateM.run_bind_of_ok (hx d)]
  show EStateM.Result.ok (f d).1 (⟨(m :: held).erase m, (f d).2⟩ : Guarded μ σ) = _
  rw [List.erase_cons_head]

end Northstar.Mutex
