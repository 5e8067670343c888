import Northstar.Cartridge.Temporal
import Northstar.Lib.Greatest

/-!
# AsOf — the last change of an entity at a time

`src/cartridges/temporal.zig`: `TemporalIndex.queryAsOf`.  It looks only into the chunks whose bounds contain the
time, and all entities whose names are formatted alike share their chunks.
-/

namespace Northstar.Cartridge.TemporalIndex

open Latest

variable {ρ : Type}

/-- The latest change so far, and its time. -/
abbrev Found : Type := Option StateChange × Int

/-- "Find last change before or at timestamp". -/
def findLatest (timestamp : Int) (found : Found) : List StateChange → Except CartridgeError Found
  | [] => .ok found
  | change :: changes => do
    let changeTime ← change.timestamp.value
    findLatest timestamp
      (if changeTime ≤ timestamp ∧ changeTime > found.2 then (some change, changeTime) else found) changes

def searchChunk (timestamp : Int) (found : Found) (chunk : TimeChunk) : Except CartridgeError Found := do
  let chunkStart ← chunk.startTimestamp.value
  let chunkEnd ← chunk.endTimestamp.value
  -- "Skip if timestamp is outside chunk range"
  if timestamp < chunkStart ∨ timestamp > chunkEnd then .ok found else findLatest timestamp found chunk.changes

/-- The first time is `minInt(i64)`. -/
def queryAsOf (self : TemporalIndex ρ) (entityNamespace entityLocalId : Bytes) (timestamp : Int) :
    Except CartridgeError (Option StateChange) :=
  match self.entityChunks.lookup (entityKey entityNamespace entityLocalId) with
  | none => .ok none
  | some chunks => do
    let found ← chunks.foldlM (searchChunk timestamp) (none, -2 ^ 63)
    .ok found.1

variable {index : TemporalIndex ρ} {added changes : List StateChange} {chunk : TimeChunk} {timestamp : Int}
  {best : Option StateChange}

/-- The search at a change that it holds. -/
def foundAt (best : Option StateChange) : Found := (best, best.elim (-2 ^ 63) StateChange.time)

theorem findLatest_eq (hfits : ∀ change ∈ changes, change.timestamp.Fits) (htimes : ∀ change ∈ changes, 0 ≤ change.time) :
    findLatest timestamp (foundAt best) changes
      = .ok (foundAt (later StateChange.time best (changes.filter fun change => change.time ≤ timestamp))) := by
  induction changes generalizing best with
  | nil => rfl
  | cons change changes ih =>
    have hvalue : change.timestamp.value = .ok change.time := hfits change (List.mem_cons_self ..)
    have htime : 0 ≤ change.time := htimes change (List.mem_cons_self ..)
    have hfits' : ∀ c ∈ changes, c.timestamp.Fits := fun c hc => hfits c (List.mem_cons_of_mem _ hc)
    have htimes' : ∀ c ∈ changes, 0 ≤ c.time := fun c hc => htimes c (List.mem_cons_of_mem _ hc)
    unfold findLatest
    rw [hvalue, Except.ok_bind, List.filter_cons]
    by_cases hbefore : change.time ≤ timestamp
    · have hnext : (if change.time ≤ timestamp ∧ change.time > (foundAt best).2 then (some change, change.time)
          else foundAt best) = foundAt (next StateChange.time best change) := by
        cases best with
        | none =>
          -- no time of a change is as low as the first one
          rw [if_pos ⟨hbefore, show -2 ^ 63 < change.time by omega⟩]
          rfl
        | some b =>
          by_cases hgreater : b.time < change.time
          · rw [if_pos ⟨hbefore, hgreater⟩]
            show _ = foundAt (if b.time < change.time then some change else some b)
            rw [if_pos hgreater]
            rfl
          · rw [if_neg fun h => hgreater h.2]
            show _ = foundAt (if b.time < change.time then some change else some b)
            rw [if_neg hgreater]
      rw [hnext, ih hfits' htimes', if_pos (decide_eq_true hbefore)]
      rfl
    · rw [if_neg fun h => hbefore h.1, ih hfits' htimes', if_neg (by rwa [decide_eq_true_eq])]

/-- What a chunk has up to a time, where its bounds contain the time. -/
def visible (timestamp : Int) (chunk : TimeChunk) : List StateChange :=
  if timestamp < chunk.first ∨ timestamp > chunk.last then []
  else chunk.changes.filter fun change => change.time ≤ timestamp

theorem searchChunk_eq (h : Bounded chunk) (htimes : ∀ change ∈ chunk.changes, 0 ≤ change.time) :
    searchChunk timestamp (foundAt best) chunk
      = .ok (foundAt (later StateChange.time best (visible timestamp chunk))) := by
  have hfirst : chunk.startTimestamp.value = .ok chunk.first := h.first
  have hlast : chunk.endTimestamp.value = .ok chunk.last := h.last
  unfold searchChunk visible
  rw [hfirst, Except.ok_bind, hlast, Except.ok_bind]
  by_cases hskip : timestamp < chunk.first ∨ timestamp > chunk.last
  · rw [if_pos hskip, if_pos hskip]
    rfl
  · rw [if_neg hskip, if_neg hskip, findLatest_eq h.fits htimes]

theorem searchChunks_eq {chunks : List TimeChunk} (h : ∀ chunk ∈ chunks, Bounded chunk)
    (htimes : ∀ chunk ∈ chunks, ∀ change ∈ chunk.changes, 0 ≤ change.time) :
    chunks.foldlM (searchChunk timestamp) (foundAt best)
      = .ok (foundAt (later StateChange.time best (chunks.flatMap (visible timestamp)))) := by
  induction chunks generalizing best with
  | nil => rfl
  | cons chunk chunks ih =>
    rw [List.foldlM_cons, searchChunk_eq (h chunk (List.mem_cons_self ..)) (htimes chunk (List.mem_cons_self ..)),
      Except.ok_bind, ih (fun c hc => h c (List.mem_cons_of_mem _ hc)) fun c hc => htimes c (List.mem_cons_of_mem _ hc),
      List.flatMap_cons, later_append]

/-- The changes that a query goes through. -/
def candidates (index : TemporalIndex ρ) (entityNamespace entityLocalId : Bytes) (timestamp : Int) : List StateChange :=
  (index.chunksOf (entityKey entityNamespace entityLocalId)).flatMap (visible timestamp)

theorem queryAsOf_eq (h : index.Holds added) (htimes : ∀ change ∈ added, 0 ≤ change.time)
    (entityNamespace entityLocalId : Bytes) (timestamp : Int) :
    index.queryAsOf entityNamespace entityLocalId timestamp
      = .ok (latest? StateChange.time (index.candidates entityNamespace entityLocalId timestamp)) := by
  have hcontents := h.contents (entityKey entityNamespace entityLocalId)
  have hbounded := h.bounded (entityKey entityNamespace entityLocalId)
  have hpositive : ∀ chunk ∈ index.chunksOf (entityKey entityNamespace entityLocalId),
      ∀ change ∈ chunk.changes, 0 ≤ change.time := by
    intro chunk hchunk change hchange
    have hmem := List.mem_flatMap.mpr ⟨chunk, hchunk, hchange⟩
    rw [hcontents] at hmem
    exact htimes change (List.mem_of_mem_filter hmem)
  unfold candidates
  unfold chunksOf at hbounded hpositive ⊢
  unfold queryAsOf
  cases hlookup : index.entityChunks.lookup (entityKey entityNamespace entityLocalId) with
  | none => rfl
  | some chunks =>
    rw [hlookup] at hbounded hpositive
    have hsearch : chunks.foldlM (searchChunk timestamp) (foundAt none)
        = .ok (foundAt (later StateChange.time none (chunks.flatMap (visible timestamp)))) :=
      searchChunks_eq hbounded hpositive
    show (do
      let found ← chunks.foldlM (searchChunk timestamp) (foundAt none)
      Except.ok found.1) = _
    rw [hsearch]
    rfl

/-- The change belongs to the entity with these very names. -/
abbrev Own (entityNamespace entityLocalId : Bytes) (change : StateChange) : Prop :=
  change.entityNamespace = entityNamespace ∧ change.entityLocalId = entityLocalId

/-- The changes of an entity up to a time. -/
def history (added : List StateChange) (entityNamespace entityLocalId : Bytes) (timestamp : Int) : List StateChange :=
  added.filter fun change => Own entityNamespace entityLocalId change ∧ change.time ≤ timestamp

/-- The latest change of the entity is in a chunk whose bounds contain the time, and no change of another entity in
    such a chunk comes out before those of the entity. -/
structure Shows (index : TemporalIndex ρ) (added : List StateChange) (entityNamespace entityLocalId : Bytes)
    (timestamp : Int) : Prop where
  latest : ∀ change, IsLatest StateChange.time (history added entityNamespace entityLocalId timestamp) change →
    ((index.candidates entityNamespace entityLocalId timestamp).filter fun c =>
      Own entityNamespace entityLocalId c ∧ c.time = change.time).head? = some change
  foreign : ∀ before change after,
    index.candidates entityNamespace entityLocalId timestamp = before ++ change :: after →
    ¬ Own entityNamespace entityLocalId change →
      (∃ c ∈ before, Own entityNamespace entityLocalId c ∧ change.time ≤ c.time) ∨
        ∃ c ∈ after, Own entityNamespace entityLocalId c ∧ change.time < c.time

variable {entityNamespace entityLocalId : Bytes}

theorem mem_history_of_candidate (h : index.Holds added) {change : StateChange}
    (hmem : change ∈ index.candidates entityNamespace entityLocalId timestamp)
    (hown : Own entityNamespace entityLocalId change) :
    change ∈ history added entityNamespace entityLocalId timestamp := by
  obtain ⟨chunk, hchunk, hvisible⟩ := List.mem_flatMap.mp hmem
  unfold visible at hvisible
  split at hvisible
  · exact absurd hvisible List.not_mem_nil
  · obtain ⟨hchange, htime⟩ := List.mem_filter.mp hvisible
    have hadded := List.mem_flatMap.mpr ⟨chunk, hchunk, hchange⟩
    rw [h.contents] at hadded
    exact List.mem_filter.mpr ⟨List.mem_of_mem_filter hadded, decide_eq_true ⟨hown, of_decide_eq_true htime⟩⟩

theorem Shows.own_of_isLatest (h : index.Shows added entityNamespace entityLocalId timestamp) {change : StateChange}
    (hlatest : IsLatest StateChange.time (index.candidates entityNamespace entityLocalId timestamp) change) :
    Own entityNamespace entityLocalId change := by
  by_contra hforeign
  rcases hlatest with ⟨before, after, hsplit, hbefore, hafter⟩
  rcases h.foreign before change after hsplit hforeign with ⟨c, hc, -, hle⟩ | ⟨c, hc, -, hlt⟩
  · exact absurd (hbefore c hc) (not_lt.mpr hle)
  · exact absurd (hafter c hc) (not_le.mpr hlt)

theorem latest?_eq_of_shows (hholds : index.Holds added) (h : index.Shows added entityNamespace entityLocalId timestamp) :
    latest? StateChange.time (index.candidates entityNamespace entityLocalId timestamp)
      = latest? StateChange.time (history added entityNamespace entityLocalId timestamp) := by
  cases hexpected : latest? StateChange.time (history added entityNamespace entityLocalId timestamp) with
  | none =>
    have hempty := latest?_eq_none_iff.mp hexpected
    cases hfound : latest? StateChange.time (index.candidates entityNamespace entityLocalId timestamp) with
    | none => rfl
    | some change =>
      have hlatest := latest?_eq_some_iff.mp hfound
      have hmem := mem_history_of_candidate hholds hlatest.mem (h.own_of_isLatest hlatest)
      rw [hempty] at hmem
      exact absurd hmem List.not_mem_nil
  | some change =>
    have hchange := latest?_eq_some_iff.mp hexpected
    have hhead := h.latest change hchange
    have hvisible : change ∈ index.candidates entityNamespace entityLocalId timestamp :=
      List.mem_of_mem_filter (List.mem_of_head? hhead)
    cases hfound : latest? StateChange.time (index.candidates entityNamespace entityLocalId timestamp) with
    | none =>
      rw [latest?_eq_none_iff.mp hfound] at hvisible
      exact absurd hvisible List.not_mem_nil
    | some found =>
      have hlatest := latest?_eq_some_iff.mp hfound
      have hown := h.own_of_isLatest hlatest
      have htime : found.time = change.time :=
        le_antisymm (hchange.le (mem_history_of_candidate hholds hlatest.mem hown)) (hlatest.le hvisible)
      -- both are the first candidate of the entity with that time
      rcases hlatest with ⟨before, after, hsplit, hbefore, -⟩
      have hnone : (before.filter fun c => Own entityNamespace entityLocalId c ∧ c.time = change.time) = [] := by
        rw [List.filter_eq_nil_iff]
        intro c hc
        rw [decide_eq_true_eq, ← htime]
        exact fun h => absurd h.2 (ne_of_lt (hbefore c hc))
      rw [hsplit, List.filter_append, hnone, List.nil_append, List.filter_cons, if_pos (decide_eq_true ⟨hown, htime⟩),
        List.head?_cons] at hhead
      exact hhead

theorem shows_of_latest?_eq
    (h : latest? StateChange.time (index.candidates entityNamespace entityLocalId timestamp)
      = latest? StateChange.time (history added entityNamespace entityLocalId timestamp)) :
    index.Shows added entityNamespace entityLocalId timestamp := by
  have hown : ∀ change, IsLatest StateChange.time (history added entityNamespace entityLocalId timestamp) change →
      Own entityNamespace entityLocalId change := by
    intro change hchange
    exact (of_decide_eq_true (List.mem_filter.mp hchange.mem).2).1
  constructor
  · intro change hchange
    rw [latest?_eq_some_iff.mpr hchange, latest?_eq_some_iff] at h
    rcases h with ⟨before, after, hsplit, hbefore, -⟩
    have hnone : (before.filter fun c => Own entityNamespace entityLocalId c ∧ c.time = change.time) = [] := by
      rw [List.filter_eq_nil_iff]
      intro c hc
      rw [decide_eq_true_eq]
      exact fun h => absurd h.2 (ne_of_lt (hbefore c hc))
    rw [hsplit, List.filter_append, hnone, List.nil_append, List.filter_cons,
      if_pos (decide_eq_true ⟨hown change hchange, rfl⟩), List.head?_cons]
  · intro before change after hsplit hforeign
    rcases latest?_spec StateChange.time (history added entityNamespace entityLocalId timestamp) with
      ⟨-, hnone⟩ | ⟨found, hfound, hlatest⟩
    · rw [hnone, latest?_eq_none_iff, hsplit] at h
      exact absurd h (List.append_ne_nil_of_right_ne_nil _ (List.cons_ne_nil _ _))
    · rw [hfound, latest?_eq_some_iff] at h
      rcases h with ⟨before', after', hsplit', hbefore, hafter⟩
      rw [hsplit] at hsplit'
      have hfoundOwn := hown found hlatest
      rcases List.append_eq_append_iff.mp hsplit' with ⟨middle, hlong, htail⟩ | ⟨middle, hlong, htail⟩
      · cases middle with
        | nil =>
          -- the foreign change is not the one that is found
          have heq : change = found := (List.cons.inj htail).1
          exact absurd (heq ▸ hfoundOwn) hforeign
        | cons c middle =>
          have hhead : change = c := (List.cons.inj htail).1
          have hrest : after = middle ++ found :: after' := (List.cons.inj htail).2
          right
          refine ⟨found, by rw [hrest]; exact List.mem_append_right _ (List.mem_cons_self ..), hfoundOwn, ?_⟩
          exact hbefore change (by rw [hlong, hhead]; exact List.mem_append_right _ (List.mem_cons_self ..))
      · cases middle with
        | nil =>
          have heq : found = change := (List.cons.inj htail).1
          exact absurd (heq ▸ hfoundOwn) hforeign
        | cons c middle =>
          have hhead : found = c := (List.cons.inj htail).1
          have hrest : after' = middle ++ change :: after := (List.cons.inj htail).2
          left
          refine ⟨found, by rw [hlong, hhead]; exact List.mem_append_right _ (List.mem_cons_self ..), hfoundOwn, ?_⟩
          exact hafter change (by rw [hrest]; exact List.mem_append_right _ (List.mem_cons_self ..))

/-- A sequence of additions succeeds and a query behind it finds the latest change of its entity, if and only if no
    change that is kept lies before 1970 and the index shows the entity at that time. -/
theorem queryAsOf_latest_iff (sample : ρ → Bytes → Bool) (policy : RetentionPolicy ρ) (calls : List Addition)
    (hdecided : Decided sample policy calls) (entityNamespace entityLocalId : Bytes) (timestamp : Int) :
    (∃ index, run sample (init policy) calls = .ok index ∧ index.queryAsOf entityNamespace entityLocalId timestamp
        = .ok (latest? StateChange.time (history (kept sample policy calls) entityNamespace entityLocalId timestamp))) ↔
      (∀ change ∈ kept sample policy calls, 0 ≤ change.time) ∧
        ∀ index, run sample (init policy) calls = .ok index →
          index.Shows (kept sample policy calls) entityNamespace entityLocalId timestamp := by
  have hinit : Decided sample (init policy).retentionPolicy calls := hdecided
  constructor
  · rintro ⟨index, hrun, hquery⟩
    have htimes := times_of_run hinit (holds_init policy) hrun
    obtain ⟨index', hrun', hholds⟩ := run_holds hinit (holds_init policy) htimes
    rw [hrun] at hrun'
    cases hrun'
    refine ⟨htimes, ?_⟩
    intro index' hrun'
    rw [hrun] at hrun'
    cases hrun'
    rw [queryAsOf_eq hholds htimes] at hquery
    exact shows_of_latest?_eq (Except.ok.inj hquery)
  · rintro ⟨htimes, hshows⟩
    obtain ⟨index, hrun, hholds⟩ := run_holds hinit (holds_init policy) htimes
    refine ⟨index, hrun, ?_⟩
    rw [queryAsOf_eq hholds htimes]
    exact congrArg Except.ok (latest?_eq_of_shows hholds (hshows index hrun))

/-- Two changes to the file `a`, with one to the file `b` between them. -/
def editsOfTwoFiles : List Addition :=
  [⟨edit 0, 1700000100, 1700000100⟩, ⟨{ edit 30 with entityLocalId := [98] }, 1700000100, 1700000100⟩,
    ⟨edit 40, 1700000100, 1700000100⟩]

/-- Between the time of the changes and the time at which their chunks were made. -/
theorem queryAsOf_latest_edit :
    (∀ change ∈ kept (fun _ _ => false) (.default ()) editsOfTwoFiles, 0 ≤ change.time) ∧
      ∀ index, run (fun _ _ => false) (init (.default ())) editsOfTwoFiles = .ok index →
        index.Shows (kept (fun _ _ => false) (.default ()) editsOfTwoFiles) [102] [97] 1700000050 := by
  have hquery : ((run (fun _ _ => false) (init (.default ())) editsOfTwoFiles).toOption.bind
      fun index => (index.queryAsOf [102] [97] 1700000050).toOption) = some (some (edit 40)) := by
    decide +kernel
  obtain ⟨index, hindex, hfound⟩ := Option.bind_eq_some_iff.mp hquery
  have hdecided : Decided (fun _ _ => false) (.default ()) editsOfTwoFiles := by
    unfold editsOfTwoFiles Decided
    simp only [List.forall_mem_cons]
    exact ⟨⟨true, by decide +kernel⟩, ⟨true, by decide +kernel⟩, ⟨true, by decide +kernel⟩, nofun⟩
  apply (queryAsOf_latest_iff _ _ editsOfTwoFiles hdecided _ _ _).mp
  refine ⟨index, Except.toOption_eq_some.mp hindex, ?_⟩
  rw [Except.toOption_eq_some.mp hfound]
  exact congrArg Except.ok (by decide +kernel)

/-- Behind the time at which the chunk was made, the change is no longer found. -/
theorem queryAsOf_misses :
    history (kept (fun _ _ => false) (.default ()) [⟨edit 0, 1700000100, 1700000100⟩]) [102] [97] 1700000200
        = [edit 0] ∧
      ((run (fun _ _ => false) (init (.default ())) [⟨edit 0, 1700000100, 1700000100⟩]).toOption.bind fun index =>
        (index.queryAsOf [102] [97] 1700000200).toOption) = some none := by
  constructor
  · decide +kernel
  · decide +kernel

end Northstar.Cartridge.TemporalIndex
