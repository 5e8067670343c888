import Mathlib.Data.Option.Basic
import Mathlib.Data.List.Basic

/-!
# Runs — the runs of a partial step function

A system is given by what an event does to its state, with `none` where the event cannot happen.  A list of
events is a run, or an interleaving where each event says which party it belongs to.
-/

namespace Northstar.Runs

variable {σ ε : Type*} {step : σ → ε → Option σ} {C : σ → ε → Prop} {s t u : σ} {e : ε} {es es' : List ε}

def run (step : σ → ε → Option σ) : σ → List ε → Option σ
  | s, [] => some s
  | s, e :: es => (step s e).bind fun t => run step t es

/-- Every step of the run finds the condition in the state it starts from. -/
def Meets (step : σ → ε → Option σ) (C : σ → ε → Prop) : σ → List ε → Prop
  | _, [] => True
  | s, e :: es => C s e ∧ ∀ t, step s e = some t → Meets step C t es

@[simp] theorem run_nil : run step s [] = some s := rfl

theorem run_cons : run step s (e :: es) = some u ↔ ∃ t, step s e = some t ∧ run step t es = some u :=
  Option.bind_eq_some_iff

theorem run_append : run step s (es ++ es') = some u ↔ ∃ t, run step s es = some t ∧ run step t es' = some u := by
  induction es generalizing s with
  | nil =>
    constructor
    · exact fun h => ⟨s, rfl, h⟩
    · rintro ⟨t, ht, h⟩
      cases ht
      exact h
  | cons e es ih =>
    rw [List.cons_append, run_cons]
    constructor
    · rintro ⟨r, hr, h⟩
      rcases ih.mp h with ⟨t, ht, h⟩
      exact ⟨t, run_cons.mpr ⟨r, hr, ht⟩, h⟩
    · rintro ⟨t, ht, h⟩
      rcases run_cons.mp ht with ⟨r, hr, ht⟩
      exact ⟨r, hr, ih.mpr ⟨t, ht, h⟩⟩

theorem exists_run (htotal : ∀ s e, ∃ t, step s e = some t) (s : σ) (es : List ε) : ∃ t, run step s es = some t := by
  induction es generalizing s with
  | nil => exact ⟨s, rfl⟩
  | cons e es ih =>
    rcases htotal s e with ⟨r, hr⟩
    rcases ih r with ⟨t, ht⟩
    exact ⟨t, run_cons.mpr ⟨r, hr, ht⟩⟩

theorem meets_append (h : Meets step C s (es ++ es')) :
    Meets step C s es ∧ ∀ t, run step s es = some t → Meets step C t es' := by
  induction es generalizing s with
  | nil =>
    refine ⟨trivial, ?_⟩
    intro t ht
    cases ht
    exact h
  | cons e es ih =>
    constructor
    · exact ⟨h.1, fun r hr => (ih (h.2 r hr)).1⟩
    · intro t ht
      rcases run_cons.mp ht with ⟨r, hr, ht⟩
      exact (ih (h.2 r hr)).2 t ht

theorem meets_and {P : ε → Prop} (h : Meets step C s es) (hall : ∀ e ∈ es, P e) :
    Meets step (fun s e => C s e ∧ P e) s es := by
  induction es generalizing s with
  | nil => trivial
  | cons e es ih =>
    exact ⟨⟨h.1, hall e (List.mem_cons_self ..)⟩, fun t ht => ih (h.2 t ht) fun e' he' => hall e' (List.mem_cons_of_mem _ he')⟩

theorem meets_true : Meets step (fun _ _ => True) s es := by
  induction es generalizing s with
  | nil => trivial
  | cons e es ih => exact ⟨trivial, fun _ _ => ih⟩

instance decidableMeets [∀ s e, Decidable (C s e)] : (s : σ) → (es : List ε) → Decidable (Meets step C s es)
  | _, [] => .isTrue trivial
  | s, e :: es =>
    match hstep : step s e with
    | none => decidable_of_iff (C s e) ⟨fun hc => ⟨hc, fun _ ht => nomatch hstep.symm.trans ht⟩, And.left⟩
    | some t =>
      have := decidableMeets t es
      decidable_of_iff (C s e ∧ Meets step C t es)
        ⟨fun h => ⟨h.1, fun _ ht => Option.some.inj (hstep.symm.trans ht) ▸ h.2⟩, fun h => ⟨h.1, h.2 t hstep⟩⟩

variable {I : σ → Prop}

/-- What every step keeps holds in every state reached. -/
theorem invariant (hstep : ∀ s e t, I s → C s e → step s e = some t → I t)
    (hinit : I s) (hmeets : Meets step C s es) (hrun : run step s es = some t) : I t := by
  induction es generalizing s with
  | nil =>
    cases hrun
    exact hinit
  | cons e es ih =>
    rcases run_cons.mp hrun with ⟨r, hr, hrest⟩
    exact ih (hstep s e r hinit hmeets.1 hr) (hmeets.2 r hr) hrest

/-- Where a step without the condition leads to a state that is bad for ever, a run to a state that is not bad
has met the condition. -/
theorem meets_of_not {I B : σ → Prop} (hstep : ∀ s e t, I s → step s e = some t → I t)
    (hbad : ∀ s e t, I s → step s e = some t → ¬ C s e → B t)
    (hkeep : ∀ s e t, I s → B s → step s e = some t → B t)
    (hinit : I s) (hrun : run step s es = some t) (hnot : ¬ B t) : Meets step C s es := by
  have hlater : ∀ {s : σ} {es : List ε}, I s → B s → run step s es = some t → B t := by
    intro s es
    induction es generalizing s with
    | nil =>
      intro _ hs hrun
      cases hrun
      exact hs
    | cons e es ih =>
      intro hI hs hrun
      rcases run_cons.mp hrun with ⟨r, hr, hrest⟩
      exact ih (hstep s e r hI hr) (hkeep s e r hI hs hr) hrest
  induction es generalizing s with
  | nil => trivial
  | cons e es ih =>
    rcases run_cons.mp hrun with ⟨r, hr, hrest⟩
    constructor
    · by_contra hc
      exact hnot (hlater (hstep s e r hinit hr) (hbad s e r hinit hr hc) hrest)
    · intro t' ht'
      rw [hr] at ht'
      cases ht'
      exact ih (hstep s e r hinit hr) hrest

/-- Where a step keeps the property exactly when it meets the condition, a run meets the condition at every
step exactly when every state on its way has the property. -/
theorem meets_iff {I P : σ → Prop} {F : σ → ε → Prop} (hstep : ∀ s e t, I s → F s e → step s e = some t → I t)
    (hiff : ∀ s e t, I s → P s → F s e → step s e = some t → (P t ↔ C s e))
    (hinit : I s) (hP : P s) (hfits : Meets step F s es) (hrun : run step s es = some t) :
    Meets step C s es ↔ ∀ before r, before <+: es → run step s before = some r → P r := by
  induction es generalizing s with
  | nil =>
    constructor
    · intro _ before r hbefore hr
      rw [List.prefix_nil.mp hbefore] at hr
      cases hr
      exact hP
    · exact fun _ => trivial
  | cons e es ih =>
    rcases run_cons.mp hrun with ⟨r, hr, hrest⟩
    have hsplit := hiff s e r hinit hP hfits.1 hr
    have hlater := hfits.2 r hr
    constructor
    · intro h before u hbefore hu
      cases before with
      | nil =>
        cases hu
        exact hP
      | cons e' before =>
        obtain ⟨rfl, htail⟩ := List.cons_prefix_cons.mp hbefore
        rcases run_cons.mp hu with ⟨r', hr', hu⟩
        rw [hr] at hr'
        cases hr'
        have hI := hstep s _ r hinit hfits.1 hr
        exact (ih hI (hsplit.mpr h.1) hlater hrest).mp (h.2 r hr) before u htail hu
    · intro h
      have hPr : P r := by
        apply h [e] r (List.cons_prefix_cons.mpr ⟨rfl, List.nil_prefix⟩)
        exact run_cons.mpr ⟨r, hr, rfl⟩
      refine ⟨hsplit.mp hPr, ?_⟩
      intro r' hr'
      rw [hr] at hr'
      cases hr'
      apply (ih (hstep s e r hinit hfits.1 hr) hPr hlater hrest).mpr
      intro before u hbefore hu
      exact h (e :: before) u (List.cons_prefix_cons.mpr ⟨rfl, hbefore⟩) (run_cons.mpr ⟨r, hr, hu⟩)

theorem invariant_of_forall (hstep : ∀ s e t, I s → step s e = some t → I t)
    (hinit : I s) (hrun : run step s es = some t) : I t :=
  invariant (fun s e t hs _ => hstep s e t hs) hinit meets_true hrun

/-- A preorder that every step respects relates the ends of a run. -/
theorem related {R : σ → σ → Prop} (hrefl : ∀ s, R s s) (htrans : ∀ r s t, R r s → R s t → R r t)
    (hstep : ∀ s e t, I s → C s e → step s e = some t → I t ∧ R s t)
    (hinit : I s) (hmeets : Meets step C s es) (hrun : run step s es = some t) : R s t := by
  induction es generalizing s with
  | nil =>
    cases hrun
    exact hrefl _
  | cons e es ih =>
    rcases run_cons.mp hrun with ⟨r, hr, hrest⟩
    have hr' := hstep s e r hinit hmeets.1 hr
    exact htrans _ _ _ hr'.2 (ih hr'.1 (hmeets.2 r hr) hrest)

end Northstar.Runs

/-! ## Two machines that answer alike

A machine answers every request and changes its state.  A relation that one request keeps, and under which
the answers agree, makes all the answers of a run agree.
-/

namespace Northstar.Machine

variable {σ τ ι ο : Type*}

def run (step : σ → ι → ο × σ) : σ → List ι → List ο × σ
  | s, [] => ([], s)
  | s, i :: is => ((step s i).1 :: (run step (step s i).2 is).1, (run step (step s i).2 is).2)

/-- One request keeps the relation, and both give the same answer. -/
def Simulates (step : σ → ι → ο × σ) (step' : τ → ι → ο × τ) (R : σ → τ → Prop) : Prop :=
  ∀ s t i, R s t → (step s i).1 = (step' t i).1 ∧ R (step s i).2 (step' t i).2

variable {step : σ → ι → ο × σ} {step' : τ → ι → ο × τ} {R : σ → τ → Prop}

theorem run_simulates (h : Simulates step step' R) {s : σ} {t : τ} (hR : R s t) (is : List ι) :
    (run step s is).1 = (run step' t is).1 ∧ R (run step s is).2 (run step' t is).2 := by
  induction is generalizing s t with
  | nil => exact ⟨rfl, hR⟩
  | cons i is ih =>
    have hstep := h s t i hR
    have hrest := ih hstep.2
    constructor
    · show (step s i).1 :: _ = (step' t i).1 :: _
      rw [hstep.1, hrest.1]
    · exact hrest.2

end Northstar.Machine
