import Northstar.Cache.Capacity

/-!
# Cache.Entries — a shard without its policy

What the calls of a shard do to its map.  Which entries a `put` evicts, and whether it gives up, is the policy's
business: here both come from outside, so that what is shown of this shard holds under every policy.
-/

namespace Northstar.Cache

abbrev Entries (K V : Type*) := AList fun _ : K => CacheEntry V

/-- What a `put` that needs room evicts, and whether it finds too little in the end. -/
structure Eviction (K : Type*) where
  victims : List K
  full : Bool
  deriving Repr, DecidableEq

namespace Entries

variable {K V : Type*} [DecidableEq K] {m : Entries K V} {key other : K} {value : V} {size : Nat}
  {config : CacheConfig} {eviction : Eviction K}

def get (m : Entries K V) (key : K) : Entries K V × Option V :=
  match m.lookup key with
  | none => (m, none)
  | some entry => (HashMap.modify m key .recordAccess, some entry.value)

def evict (m : Entries K V) (victims : List K) : Entries K V := victims.foldl (fun m victim => m.erase victim) m

def put (m : Entries K V) (config : CacheConfig) (key : K) (value : V) (size : Nat) (eviction : Eviction K) :
    Entries K V × Except CacheError Unit :=
  if size > config.maxSize then (m, .error (.entryTooLarge size config.maxSize))
  else if key ∈ m then (HashMap.modify m key fun entry => { entry with value }.recordAccess, .ok ())
  else if eviction.full then (evict m eviction.victims, .error .cacheFull)
  else ((evict m eviction.victims).insert key (.new value size), .ok ())

-- Pinned or not.
def invalidate (m : Entries K V) (key : K) : Entries K V × Bool :=
  match m.lookup key with
  | some _ => (m.erase key, true)
  | none => (m, false)

def pin (m : Entries K V) (key : K) : Entries K V × Bool :=
  if key ∈ m then (HashMap.modify m key .pin, true) else (m, false)

def unpin (m : Entries K V) (key : K) : Entries K V × Bool :=
  match m.lookup key with
  | some _ => (HashMap.modify m key .unpin, true)
  | none => (m, false)

def clear (m : Entries K V) : Entries K V × ClearResult :=
  (∅, ⟨m.entries.length, m.entries.countP fun e => e.2.dirty, HashMap.total (fun _ entry => entry.size) m⟩)

theorem isSome_lookup_modify (f : CacheEntry V → CacheEntry V) :
    ((HashMap.modify m key f).lookup other).isSome = (m.lookup other).isSome := by
  rw [HashMap.lookup_modify, Option.isSome_map]

theorem snd_get : (get m key).2 = (m.lookup key).map CacheEntry.value := by
  unfold get
  cases m.lookup key with
  | none => rfl
  | some entry => rfl

theorem isSome_lookup_get : ((get m key).1.lookup other).isSome = (m.lookup other).isSome := by
  unfold get
  cases m.lookup key with
  | none => rfl
  | some entry => exact isSome_lookup_modify _

theorem isSome_lookup_pin : ((pin m key).1.lookup other).isSome = (m.lookup other).isSome := by
  unfold pin
  split
  · exact isSome_lookup_modify _
  · rfl

theorem isSome_lookup_unpin : ((unpin m key).1.lookup other).isSome = (m.lookup other).isSome := by
  unfold unpin
  cases m.lookup key with
  | none => rfl
  | some entry => exact isSome_lookup_modify _

theorem lookup_invalidate : (invalidate m key).1.lookup other = if other = key then none else m.lookup other := by
  by_cases heq : other = key
  · subst heq
    rw [if_pos rfl]
    unfold invalidate
    cases hlookup : m.lookup other with
    | none => exact hlookup
    | some entry => exact AList.lookup_erase ..
  · rw [if_neg heq]
    unfold invalidate
    cases m.lookup key with
    | none => rfl
    | some entry => exact AList.lookup_erase_ne heq

theorem lookup_evict_of_some {victims : List K} {entry : CacheEntry V}
    (h : (evict m victims).lookup other = some entry) : m.lookup other = some entry := by
  induction victims generalizing m with
  | nil => exact h
  | cons victim victims ih =>
    have hrest : (m.erase victim).lookup other = some entry := ih h
    by_cases heq : other = victim
    · rw [heq, AList.lookup_erase] at hrest
      cases hrest
    · rw [AList.lookup_erase_ne heq] at hrest
      exact hrest

theorem lookup_put {entry : CacheEntry V}
    (h : (put m config key value size eviction).1.lookup other = some entry) :
    (put m config key value size eviction).2 = .ok () ∧ other = key ∧ entry.value = value ∨
      ((put m config key value size eviction).2 = .ok () → other ≠ key) ∧ m.lookup other = some entry := by
  unfold put at h ⊢
  by_cases hsize : size > config.maxSize
  · rw [if_pos hsize] at h ⊢
    exact .inr ⟨nofun, h⟩
  rw [if_neg hsize] at h ⊢
  by_cases hkey : key ∈ m
  · rw [if_pos hkey] at h ⊢
    rw [HashMap.lookup_modify] at h
    rcases Option.map_eq_some_iff.mp h with ⟨old, hold, rfl⟩
    by_cases heq : other = key
    · exact .inl ⟨rfl, heq, by rw [if_pos heq]; rfl⟩
    · rw [if_neg heq]
      exact .inr ⟨fun _ => heq, hold⟩
  rw [if_neg hkey] at h ⊢
  by_cases hfull : eviction.full
  · rw [if_pos hfull] at h ⊢
    exact .inr ⟨nofun, lookup_evict_of_some h⟩
  · rw [if_neg hfull] at h ⊢
    by_cases heq : other = key
    · rw [heq, AList.lookup_insert] at h
      cases h
      exact .inl ⟨rfl, heq, rfl⟩
    · rw [AList.lookup_insert_ne heq] at h
      exact .inr ⟨fun _ => heq, lookup_evict_of_some h⟩

theorem isSome_of_put_error {e : CacheError} (h : (put m config key value size eviction).2 = .error e)
    (hin : ((put m config key value size eviction).1.lookup other).isSome) : (m.lookup other).isSome := by
  obtain ⟨entry, hentry⟩ := Option.isSome_iff_exists.mp hin
  rcases lookup_put hentry with ⟨hok, -⟩ | ⟨-, hold⟩
  · cases hok.symm.trans h
  · exact Option.isSome_of_eq_some hold

theorem isSome_of_put_ok (hne : other ≠ key)
    (hin : ((put m config key value size eviction).1.lookup other).isSome) : (m.lookup other).isSome := by
  obtain ⟨entry, hentry⟩ := Option.isSome_iff_exists.mp hin
  rcases lookup_put hentry with ⟨-, heq, -⟩ | ⟨-, hold⟩
  · exact absurd heq hne
  · exact Option.isSome_of_eq_some hold

end Entries

namespace CacheShard

variable {K V : Type*} [DecidableEq K] {s t : CacheShard K V} {key : K} {value : V} {size : Nat}

@[simp] theorem entries_removePolicyTracking (s : CacheShard K V) (key : K) :
    (s.removePolicyTracking key).entries = s.entries := by
  unfold removePolicyTracking
  cases s.policy <;> rfl

theorem get_entries : ((s.get key).1.entries, (s.get key).2) = Entries.get s.entries key := by
  unfold get Entries.get
  cases s.entries.lookup key with
  | none => rfl
  | some entry =>
    show (({ s with entries := HashMap.modify s.entries key .recordAccess } : CacheShard K V).updatePolicyTracking
      key |>.entries, some entry.value) = _
    rw [(sameMap_updatePolicyTracking _ key).entries]

theorem invalidate_entries : ((s.invalidate key).1.entries, (s.invalidate key).2) = Entries.invalidate s.entries key := by
  unfold invalidate Entries.invalidate
  cases s.entries.lookup key with
  | none => rfl
  | some entry =>
    show (((s.removeEntry key entry.size).removePolicyTracking key).entries, true) = _
    rw [entries_removePolicyTracking]
    rfl

theorem pin_entries : ((s.pin key).1.entries, (s.pin key).2) = Entries.pin s.entries key := by
  unfold pin Entries.pin
  by_cases hin : key ∈ s.entries
  · rw [if_pos hin, if_pos hin]
  · rw [if_neg hin, if_neg hin]

theorem unpin_entries : ((s.unpin key).1.entries, (s.unpin key).2) = Entries.unpin s.entries key := by
  unfold unpin Entries.unpin
  cases s.entries.lookup key with
  | none => rfl
  | some entry => rfl

theorem evictFrom_entries {requiredBytes requiredEntries attempts freedBytes freedEntries : Nat}
    {result : Except CacheError Unit}
    (h : evictFrom requiredBytes requiredEntries attempts freedBytes freedEntries s = (t, result)) :
    (∃ victims, t.entries = Entries.evict s.entries victims) ∧ (result = .ok () ∨ result = .error .cacheFull) := by
  induction attempts generalizing s freedBytes freedEntries with
  | zero =>
    cases h
    exact ⟨⟨[], rfl⟩, .inl rfl⟩
  | succ attempts ih =>
    unfold evictFrom at h
    by_cases henough : freedBytes ≥ requiredBytes ∧ freedEntries ≥ requiredEntries
    · rw [if_pos henough] at h
      cases h
      exact ⟨⟨[], rfl⟩, .inl rfl⟩
    rw [if_neg henough] at h
    rcases hvictim : s.evictVictim with ⟨next, none | ⟨victim, bytes, dirty⟩⟩
    · rw [hvictim] at h
      have hsame := (evictVictim_none hvictim).1.entries
      dsimp only at h
      split at h
      · cases h
        exact ⟨⟨[], hsame⟩, .inr rfl⟩
      · cases h
        exact ⟨⟨[], hsame⟩, .inl rfl⟩
    · rw [hvictim] at h
      have hsame := (evictVictim_some hvictim).entries
      dsimp only at h
      by_cases hin : victim ∈ next.entries
      · rw [if_pos hin] at h
        obtain ⟨⟨victims, hvictims⟩, hresult⟩ := ih h
        refine ⟨⟨victim :: victims, ?_⟩, hresult⟩
        rw [hvictims, ← hsame]
        rfl
      · rw [if_neg hin] at h
        rw [← hsame]
        exact ih h

theorem put_entries : ∃ eviction, ((s.put key value size).1.entries, (s.put key value size).2) =
      Entries.put s.entries s.config key value size eviction := by
  unfold put Entries.put
  by_cases hsize : size > s.config.maxSize
  · refine ⟨⟨[], false⟩, ?_⟩
    rw [if_pos hsize, if_pos hsize]
  rw [if_neg hsize]
  by_cases hkey : key ∈ s.entries
  · refine ⟨⟨[], false⟩, ?_⟩
    rw [if_pos hkey, if_neg hsize, if_pos hkey]
  rw [if_neg hkey]
  simp only [if_neg hsize, if_neg hkey]
  split
  · -- the shard is over a limit, and its policy is asked
    rcases hevict : s.evict (usize (s.stats.currentSize + size) - s.config.maxSize)
      (s.stats.currentEntries + 1 - s.config.maxEntries) with ⟨t, result⟩
    obtain ⟨⟨victims, hvictims⟩, rfl | rfl⟩ := evictFrom_entries hevict
    · refine ⟨⟨victims, false⟩, ?_⟩
      rw [if_neg Bool.false_ne_true]
      show ((t.insertEntry key value size).entries, _) = _
      rw [entries_insertEntry, hvictims]
    · refine ⟨⟨victims, true⟩, ?_⟩
      rw [if_pos rfl, ← hvictims]
  · refine ⟨⟨[], false⟩, ?_⟩
    rw [if_neg Bool.false_ne_true]
    show ((s.insertEntry key value size).entries, _) = _
    rw [entries_insertEntry]
    rfl

end CacheShard

/-- A shard beside what its callers have stored and not taken back. -/
structure Recorded (K V : Type*) where
  shard : CacheShard K V
  stored : K → Option V

namespace Recorded

open Runs

variable {K V : Type*} [DecidableEq K] {r t : Recorded K V} {key : K}

-- A `put` that fails stores nothing, and the old value stays.
def step (r : Recorded K V) (c : CacheShard.Call K V) : Option (Recorded K V) :=
  (r.shard.step c).map fun shard => ⟨shard, match c with
    | .put key value size =>
      match (r.shard.put key value size).2 with
      | .ok () => Function.update r.stored key (some value)
      | .error _ => r.stored
    | .invalidate key => Function.update r.stored key none
    | .clear => fun _ => none
    | _ => r.stored⟩

/-- What is in the shard is what has been stored. -/
def Faithful (r : Recorded K V) : Prop :=
  ∀ key entry, r.shard.entries.lookup key = some entry → r.stored key = some entry.value

theorem faithful_put (h : r.Faithful) {value : V} {size : Nat} (hstep : r.step (.put key value size) = some t) :
    t.Faithful := by
  obtain ⟨eviction, hput⟩ := @CacheShard.put_entries K V _ r.shard key value size
  have hentries := congrArg Prod.fst hput
  have hresult := congrArg Prod.snd hput
  dsimp only at hentries hresult
  cases hstep
  intro other entry hentry
  dsimp only at hentry ⊢
  rw [hentries] at hentry
  rcases Entries.lookup_put hentry with ⟨hok, rfl, rfl⟩ | ⟨hne, hold⟩
  · rw [hresult, hok]
    exact Function.update_self ..
  · rw [hresult]
    cases hok : (Entries.put r.shard.entries r.shard.config key value size eviction).2 with
    | ok _ => exact (Function.update_of_ne (hne hok) ..).trans (h other entry hold)
    | error e => exact h other entry hold

theorem faithful_modify (h : r.Faithful) {s : CacheShard K V} {f : CacheEntry V → CacheEntry V}
    (hs : s.entries = HashMap.modify r.shard.entries key f) (hf : ∀ entry, (f entry).value = entry.value) :
    Faithful ⟨s, r.stored⟩ := by
  intro other entry hentry
  dsimp only at hentry
  rw [hs, HashMap.lookup_modify] at hentry
  rcases Option.map_eq_some_iff.mp hentry with ⟨old, hold, rfl⟩
  rw [h other old hold]
  split
  · rw [hf]
  · rfl

theorem faithful_same (h : r.Faithful) {s : CacheShard K V} (hs : s.entries = r.shard.entries) :
    Faithful ⟨s, r.stored⟩ := by
  intro other entry hentry
  dsimp only at hentry
  rw [hs] at hentry
  exact h other entry hentry

theorem faithful_step {c : CacheShard.Call K V} (h : r.Faithful) (hstep : r.step c = some t) : t.Faithful := by
  cases c with
  | put key value size => exact faithful_put h hstep
  | get key =>
    have hget := congrArg Prod.fst (@CacheShard.get_entries K V _ r.shard key)
    cases hstep
    unfold Entries.get at hget
    split at hget
    · exact faithful_same h hget
    · exact faithful_modify h hget fun _ => rfl
  | pin key =>
    have hpin := congrArg Prod.fst (@CacheShard.pin_entries K V _ r.shard key)
    cases hstep
    unfold Entries.pin at hpin
    split at hpin
    · exact faithful_modify h hpin fun _ => rfl
    · exact faithful_same h hpin
  | unpin key =>
    have hunpin := congrArg Prod.fst (@CacheShard.unpin_entries K V _ r.shard key)
    cases hstep
    unfold Entries.unpin at hunpin
    split at hunpin
    · exact faithful_modify h hunpin fun _ => rfl
    · exact faithful_same h hunpin
  | invalidate key =>
    have hgone := congrArg Prod.fst (@CacheShard.invalidate_entries K V _ r.shard key)
    cases hstep
    intro other entry hentry
    dsimp only at hentry hgone ⊢
    rw [hgone, Entries.lookup_invalidate] at hentry
    split at hentry
    · cases hentry
    next hne => rw [Function.update_of_ne hne, h other entry hentry]
  | clear =>
    have hempty : r.shard.clear.1.entries = ∅ := by
      unfold CacheShard.clear
      cases r.shard.policy <;> rfl
    cases hstep
    intro other entry hentry
    dsimp only at hentry
    rw [hempty] at hentry
    cases hentry
  | rehash key =>
    rcases Option.map_eq_some_iff.mp hstep with ⟨shard, hshard, rfl⟩
    unfold CacheShard.step at hshard
    dsimp only at hshard
    split at hshard
    next found hfound =>
      cases hshard
      intro other entry hentry
      dsimp only at hentry
      by_cases heq : other = key
      · rw [heq, AList.lookup_insert] at hentry
        rw [heq]
        exact h key entry (hfound.trans hentry)
      · rw [AList.lookup_insert_ne heq] at hentry
        exact h other entry hentry
    next =>
      cases hshard
      exact h

/-- **Nothing else is returned.**  Whatever the policy evicts, a lookup finds the value that was stored last and not
taken back, or none. -/
theorem get_eq_stored (policy : CachePolicy) (config : CacheConfig) (calls : List (CacheShard.Call K V))
    (hrun : run step ⟨.new policy config, fun _ => none⟩ calls = some r) (key : K) :
    (r.shard.get key).2 = none ∨ (r.shard.get key).2 = r.stored key := by
  have hstart : Faithful (⟨.new policy config, fun _ => none⟩ : Recorded K V) := by
    intro key entry hentry
    cases hentry
  have hfaithful := invariant_of_forall (fun _ _ _ => faithful_step) hstart hrun
  have hget := congrArg Prod.snd (@CacheShard.get_entries K V _ r.shard key)
  rw [Entries.snd_get] at hget
  rw [show (r.shard.get key).2 = _ from hget]
  cases hlookup : r.shard.entries.lookup key with
  | none => exact .inl rfl
  | some entry => exact .inr (hfaithful key entry hlookup).symm

theorem get_eq_stored_evicted : ∃ r : Recorded Nat Nat,
    run step ⟨.new .lru ⟨10, 1⟩, fun _ => none⟩ [.put 1 5 1, .put 1 6 1, .put 2 7 1] = some r ∧
      ((r.shard.get 1).2 = none ∨ (r.shard.get 1).2 = r.stored 1) :=
  ⟨_, rfl, get_eq_stored .lru ⟨10, 1⟩ [.put 1 5 1, .put 1 6 1, .put 2 7 1] rfl 1⟩

end Recorded

end Northstar.Cache
