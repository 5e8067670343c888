import Northstar.Cache.Shard
import Northstar.Lib.Runs

/-!
# Cache.Capacity — the accounts of a shard, and when it finds no room

The counters follow the map through every call, and an eviction that succeeds has made the room that was asked
for.  What it cannot take is what is pinned and what the policy does not list: LRU drops the pinned keys it
passes from its list.
-/

namespace Northstar.Cache.CacheShard

variable {K V : Type*} {s t u : CacheShard K V} {key : K} {size : Nat}

def sizeOf (s : CacheShard K V) (p : K → CacheEntry V → Bool) : Nat := HashMap.totalWhere CacheEntry.size p s.entries

def countOf (s : CacheShard K V) (p : K → CacheEntry V → Bool) : Nat := HashMap.totalWhere (fun _ => 1) p s.entries

def totalSize (s : CacheShard K V) : Nat := HashMap.total (fun _ entry => entry.size) s.entries

def len (s : CacheShard K V) : Nat := s.entries.entries.length

/-- The counters say what the map holds. -/
structure Accounted (s : CacheShard K V) : Prop where
  entries : s.stats.currentEntries = s.len
  size : s.stats.currentSize = s.totalSize
  bounded : s.totalSize < 2 ^ 64

structure SameMap (s t : CacheShard K V) : Prop where
  entries : t.entries = s.entries
  stats : t.stats = s.stats
  config : t.config = s.config
  policy : t.policy = s.policy

namespace SameMap

theorem totalSize_eq (h : SameMap s t) : t.totalSize = s.totalSize := by
  unfold totalSize
  rw [h.entries]

theorem len_eq (h : SameMap s t) : t.len = s.len := by
  unfold len
  rw [h.entries]

theorem accounted (h : SameMap s t) (hacc : s.Accounted) : t.Accounted := by
  refine ⟨?_, ?_, ?_⟩
  · rw [h.stats, h.len_eq, hacc.entries]
  · rw [h.stats, h.totalSize_eq, hacc.size]
  · rw [h.totalSize_eq]
    exact hacc.bounded

end SameMap

/-- The accounts are right and, if any entry is allowed, the limits are kept. -/
structure Good (policy : CachePolicy) (config : CacheConfig) (s : CacheShard K V) : Prop where
  sameConfig : s.config = config
  samePolicy : s.policy = policy
  accounted : s.Accounted
  within : 1 ≤ config.maxEntries → s.totalSize ≤ config.maxSize ∧ s.len ≤ config.maxEntries

variable {policy : CachePolicy} {config : CacheConfig}

theorem good_new : Good policy config (new policy config : CacheShard K V) where
  sameConfig := rfl
  samePolicy := rfl
  accounted := ⟨rfl, rfl, (by decide : 0 < 2 ^ 64)⟩
  within _ := ⟨Nat.zero_le _, Nat.zero_le _⟩

namespace Good

theorem of_counts (h : Good policy config s) (hconfig : t.config = s.config) (hpolicy : t.policy = s.policy)
    (hsize : t.totalSize = s.totalSize) (hlen : t.len = s.len) (hcurrent : t.stats.currentSize = s.stats.currentSize)
    (hentries : t.stats.currentEntries = s.stats.currentEntries) : Good policy config t where
  sameConfig := hconfig.trans h.sameConfig
  samePolicy := hpolicy.trans h.samePolicy
  accounted := ⟨by rw [hentries, hlen, h.accounted.entries], by rw [hcurrent, hsize, h.accounted.size], by
    rw [hsize]
    exact h.accounted.bounded⟩
  within := by
    rw [hsize, hlen]
    exact h.within

theorem of_sameMap (h : Good policy config s) (hsame : SameMap s t) : Good policy config t := by
  apply h.of_counts hsame.config hsame.policy hsame.totalSize_eq hsame.len_eq
  · rw [hsame.stats]
  · rw [hsame.stats]

end Good

variable [DecidableEq K]

/-- The policy may pick the key. -/
def listed (s : CacheShard K V) (key : K) : Bool :=
  match s.policy with
  | .lru => key ∈ s.lruList
  | .arc => key ∈ s.arcState.keysToTry
  | .fifo | .lifo => true

def evictable (s : CacheShard K V) (key : K) (entry : CacheEntry V) : Bool := !entry.isPinned && s.listed key

variable {entries : AList fun _ : K => CacheEntry V} {keys : List K} {dirty : Bool} {entry : CacheEntry V}

theorem firstUnpinned_some (h : firstUnpinned entries keys = some (key, size, dirty)) :
    key ∈ keys ∧ ∃ entry, entries.lookup key = some entry ∧ entry.isPinned = false ∧ entry.size = size := by
  induction keys with
  | nil => cases h
  | cons k keys ih =>
    unfold firstUnpinned at h
    cases hk : entries.lookup k with
    | none =>
      rw [hk] at h
      exact (ih h).imp_left (List.mem_cons_of_mem _)
    | some entry =>
      rw [hk] at h
      dsimp only at h
      by_cases hpin : entry.isPinned
      · rw [if_pos hpin] at h
        exact (ih h).imp_left (List.mem_cons_of_mem _)
      · rw [if_neg hpin] at h
        cases h
        exact ⟨List.mem_cons_self .., entry, hk, Bool.eq_false_iff.mpr hpin, rfl⟩

theorem firstUnpinned_none (h : firstUnpinned entries keys = none) (hentry : entries.lookup key = some entry)
    (hfree : entry.isPinned = false) : key ∉ keys := by
  induction keys with
  | nil => exact List.not_mem_nil
  | cons k keys ih =>
    unfold firstUnpinned at h
    rw [List.mem_cons, not_or]
    cases hk : entries.lookup k with
    | none =>
      rw [hk] at h
      refine ⟨?_, ih h⟩
      rintro rfl
      cases hk.symm.trans hentry
    | some other =>
      rw [hk] at h
      dsimp only at h
      by_cases hpin : other.isPinned
      · rw [if_pos hpin] at h
        refine ⟨?_, ih h⟩
        rintro rfl
        cases hk.symm.trans hentry
        exact absurd hpin (Bool.eq_false_iff.mp hfree)
      · rw [if_neg hpin] at h
        cases h

theorem popUnpinned_some {rest : List K}
    (h : popUnpinned entries keys = (rest, some (key, size, dirty))) :
    (key ∈ keys ∧ ∃ entry, entries.lookup key = some entry ∧ entry.isPinned = false ∧ entry.size = size) ∧
      ∀ other entry, entries.lookup other = some entry → entry.isPinned = false → other ≠ key →
        (other ∈ rest ↔ other ∈ keys) := by
  induction keys with
  | nil => cases h
  | cons k keys ih =>
    unfold popUnpinned at h
    rw [List.mem_cons]
    -- a key that is skipped is stale or pinned, and so none of the others
    have hskip : popUnpinned entries keys = (rest, some (key, size, dirty)) →
        (∀ entry, entries.lookup k = some entry → entry.isPinned = true) →
        ((key = k ∨ key ∈ keys) ∧ ∃ entry, entries.lookup key = some entry ∧ entry.isPinned = false ∧
          entry.size = size) ∧ ∀ other entry, entries.lookup other = some entry → entry.isPinned = false →
            other ≠ key → (other ∈ rest ↔ other ∈ k :: keys) := by
      intro hrest hpinned
      obtain ⟨hvictim, hothers⟩ := ih hrest
      refine ⟨⟨.inr hvictim.1, hvictim.2⟩, ?_⟩
      intro other entry hentry hfree hne
      rw [hothers other entry hentry hfree hne, List.mem_cons]
      constructor
      · exact .inr
      · rintro (rfl | hin)
        · rw [hpinned entry hentry] at hfree
          cases hfree
        · exact hin
    cases hk : entries.lookup k with
    | none =>
      rw [hk] at h
      exact hskip h fun entry hentry => nomatch hk.symm.trans hentry
    | some first =>
      rw [hk] at h
      dsimp only at h
      by_cases hpin : first.isPinned
      · rw [if_pos hpin] at h
        apply hskip h
        intro entry hentry
        cases hk.symm.trans hentry
        exact hpin
      · rw [if_neg hpin] at h
        cases h
        refine ⟨⟨.inl rfl, first, hk, Bool.eq_false_iff.mpr hpin, rfl⟩, ?_⟩
        intro other entry _ _ hne
        rw [List.mem_cons]
        exact ⟨.inr, fun hin => hin.resolve_left hne⟩

theorem popUnpinned_none {rest : List K}
    (h : popUnpinned entries keys = (rest, none)) : rest = [] ∧ firstUnpinned entries keys = none := by
  induction keys with
  | nil =>
    cases h
    exact ⟨rfl, rfl⟩
  | cons k keys ih =>
    unfold popUnpinned at h
    unfold firstUnpinned
    cases hk : entries.lookup k with
    | none =>
      rw [hk] at h
      exact ih h
    | some entry =>
      rw [hk] at h
      dsimp only at h ⊢
      by_cases hpin : entry.isPinned
      · rw [if_pos hpin] at h ⊢
        exact ih h
      · rw [if_neg hpin] at h
        cases h

/-- What is known of a victim: nobody has pinned it, and the other candidates stay candidates. -/
structure Picks (s t : CacheShard K V) (key : K) (size : Nat) : Prop extends SameMap s t where
  victim : ∃ entry, s.entries.lookup key = some entry ∧ entry.isPinned = false ∧ entry.size = size
  listed : s.listed key = true
  others : ∀ other entry, s.entries.lookup other = some entry → entry.isPinned = false → other ≠ key →
    t.listed other = s.listed other

theorem picks_of_firstUnpinned (hlisted : ∀ other, s.listed other = true)
    (hfirst : firstUnpinned s.entries keys = some (key, size, dirty)) : Picks s s key size :=
  ⟨⟨rfl, rfl, rfl, rfl⟩, (firstUnpinned_some hfirst).2, hlisted key, fun _ _ _ _ _ => rfl⟩

theorem evictVictim_some (h : s.evictVictim = (t, some (key, size, dirty))) : Picks s t key size := by
  unfold evictVictim at h
  cases hpolicy : s.policy with
  | lru =>
    rw [hpolicy] at h
    dsimp only [evictLru] at h
    rcases hpop : popUnpinned s.entries s.lruList with ⟨rest, victim⟩
    rw [hpop] at h
    cases h
    obtain ⟨hvictim, hothers⟩ := popUnpinned_some hpop
    refine ⟨⟨rfl, rfl, rfl, rfl⟩, hvictim.2, ?_, ?_⟩
    · rw [CacheShard.listed, hpolicy]
      exact decide_eq_true hvictim.1
    · intro other entry hentry hfree hne
      simp only [CacheShard.listed, hpolicy]
      exact decide_eq_decide.mpr (hothers other entry hentry hfree hne)
  | arc =>
    rw [hpolicy] at h
    dsimp only [evictArc] at h
    cases hfirst : firstUnpinned s.entries s.arcState.keysToTry with
    | none =>
      rw [hfirst] at h
      cases h
    | some victim =>
      obtain ⟨k, n, d⟩ := victim
      rw [hfirst] at h
      cases h
      obtain ⟨hin, hvictim⟩ := firstUnpinned_some hfirst
      refine ⟨⟨rfl, rfl, rfl, rfl⟩, hvictim, ?_, ?_⟩
      · rw [CacheShard.listed, hpolicy]
        exact decide_eq_true hin
      · intro other entry _ _ hne
        simp only [CacheShard.listed, hpolicy]
        apply decide_eq_decide.mpr
        unfold ArcState.keysToTry ArcState.remove
        dsimp only
        by_cases hdelta : s.arcState.deltaT1 > s.arcState.deltaT2
        · rw [if_pos hdelta, if_pos hdelta, List.mem_filter]
          exact ⟨And.left, fun hin => ⟨hin, decide_eq_true hne⟩⟩
        · rw [if_neg hdelta, if_neg hdelta, List.mem_filter]
          exact ⟨And.left, fun hin => ⟨hin, decide_eq_true hne⟩⟩
  | fifo =>
    rw [hpolicy] at h
    injection h with ht hfirst
    subst ht
    exact picks_of_firstUnpinned (fun other => by rw [CacheShard.listed, hpolicy]) hfirst
  | lifo =>
    rw [hpolicy] at h
    injection h with ht hfirst
    subst ht
    exact picks_of_firstUnpinned (fun other => by rw [CacheShard.listed, hpolicy]) hfirst

theorem evictVictim_none (h : s.evictVictim = (t, none)) :
    SameMap s t ∧ ∀ key entry, s.entries.lookup key = some entry → entry.isPinned = false →
      s.listed key = false ∧ t.listed key = false := by
  -- a search through all keys finds an entry that is not pinned, if there is one
  have hall : ∀ {keys : List K}, firstUnpinned s.entries keys = none → (∀ k ∈ s.entries.keys, k ∈ keys) →
      SameMap s s ∧ ∀ key entry, s.entries.lookup key = some entry → entry.isPinned = false →
        s.listed key = false ∧ s.listed key = false := by
    intro keys hnone hkeys
    refine ⟨⟨rfl, rfl, rfl, rfl⟩, ?_⟩
    intro key entry hentry hfree
    have hin : key ∈ s.entries.keys := AList.lookup_isSome.mp (Option.isSome_of_eq_some hentry)
    exact absurd (hkeys key hin) (firstUnpinned_none hnone hentry hfree)
  unfold evictVictim at h
  cases hpolicy : s.policy with
  | lru =>
    rw [hpolicy] at h
    dsimp only [evictLru] at h
    rcases hpop : popUnpinned s.entries s.lruList with ⟨rest, victim⟩
    rw [hpop] at h
    cases h
    obtain ⟨hrest, hnone⟩ := popUnpinned_none hpop
    refine ⟨⟨rfl, rfl, rfl, rfl⟩, ?_⟩
    intro key entry hentry hfree
    simp only [listed, hpolicy, hrest]
    exact ⟨decide_eq_false (firstUnpinned_none hnone hentry hfree), decide_eq_false List.not_mem_nil⟩
  | arc =>
    rw [hpolicy] at h
    dsimp only [evictArc] at h
    cases hfirst : firstUnpinned s.entries s.arcState.keysToTry with
    | some victim =>
      rw [hfirst] at h
      cases h
    | none =>
      rw [hfirst] at h
      cases h
      refine ⟨⟨rfl, rfl, rfl, rfl⟩, ?_⟩
      intro key entry hentry hfree
      simp only [listed, hpolicy]
      have hnot := decide_eq_false (firstUnpinned_none hfirst hentry hfree)
      exact ⟨hnot, hnot⟩
  | fifo =>
    rw [hpolicy] at h
    injection h with ht hfirst
    subst ht
    exact hall hfirst fun _ hin => hin
  | lifo =>
    rw [hpolicy] at h
    injection h with ht hfirst
    subst ht
    exact hall hfirst fun _ hin => List.mem_reverse.mpr hin

theorem totalSize_removeEntry (h : s.entries.lookup key = some entry) :
    s.totalSize = (s.removeEntry key entry.size).totalSize + entry.size :=
  (HashMap.total_erase h).symm

theorem len_removeEntry (h : s.entries.lookup key = some entry) :
    s.len = (s.removeEntry key entry.size).len + 1 :=
  (HashMap.length_erase h).symm

theorem Accounted.removeEntry (h : s.Accounted) (hentry : s.entries.lookup key = some entry) :
    (s.removeEntry key entry.size).Accounted := by
  have hsize := totalSize_removeEntry hentry
  have hbounded := h.bounded
  refine ⟨?_, ?_, ?_⟩
  · show s.stats.currentEntries - 1 = _
    rw [h.entries, len_removeEntry hentry, Nat.add_sub_cancel]
  · show usize (s.stats.currentSize + 2 ^ 64 - entry.size) = _
    rw [h.size, usize_sub (by omega) hbounded]
    omega
  · omega

/-- So many entries of so many bytes have been evicted, every one of them a candidate. -/
structure Evicts (s t : CacheShard K V) (bytes count : Nat) : Prop where
  config : t.config = s.config
  policy : t.policy = s.policy
  size : s.totalSize = t.totalSize + bytes
  len : s.len = t.len + count
  evictableSize : s.sizeOf s.evictable = t.sizeOf t.evictable + bytes
  evictableCount : s.countOf s.evictable = t.countOf t.evictable + count
  kept : ∀ key entry, t.entries.lookup key = some entry → s.entries.lookup key = some entry
  pinned : ∀ key entry, s.entries.lookup key = some entry → entry.isPinned = true → t.entries.lookup key = some entry
  accounted : s.Accounted → t.Accounted

namespace Evicts

theorem of_sameMap (h : SameMap s t) (hlisted : ∀ key entry, s.entries.lookup key = some entry →
    entry.isPinned = false → t.listed key = s.listed key) : Evicts s t 0 0 := by
  -- pinned entries are no candidates, whatever the policy lists
  have hevictable : ∀ e ∈ s.entries.entries, s.evictable e.1 e.2 = t.evictable e.1 e.2 := by
    intro e he
    unfold CacheShard.evictable
    cases hpin : e.2.isPinned with
    | true => rfl
    | false => rw [hlisted e.1 e.2 (HashMap.lookup_of_mem he) hpin]
  refine ⟨h.config, h.policy, h.totalSize_eq.symm, h.len_eq.symm, ?_, ?_, ?_, ?_, h.accounted⟩
  · unfold sizeOf
    rw [h.entries]
    exact HashMap.totalWhere_congr hevictable
  · unfold countOf
    rw [h.entries]
    exact HashMap.totalWhere_congr hevictable
  · intro key entry hentry
    rw [h.entries] at hentry
    exact hentry
  · intro key entry hentry _
    rw [h.entries]
    exact hentry

theorem trans {bytes count bytes' count' : Nat} (h : Evicts s t bytes count) (h' : Evicts t u bytes' count') :
    Evicts s u (bytes + bytes') (count + count') where
  config := h'.config.trans h.config
  policy := h'.policy.trans h.policy
  size := by
    rw [h.size, h'.size]
    omega
  len := by
    rw [h.len, h'.len]
    omega
  evictableSize := by
    rw [h.evictableSize, h'.evictableSize]
    omega
  evictableCount := by
    rw [h.evictableCount, h'.evictableCount]
    omega
  kept key entry hentry := h.kept key entry (h'.kept key entry hentry)
  pinned key entry hentry hpin := h'.pinned key entry (h.pinned key entry hentry hpin) hpin
  accounted hacc := h'.accounted (h.accounted hacc)

end Evicts

theorem Picks.evicts (h : Picks s t key size) : Evicts s (t.removeEntry key size) size 1 := by
  obtain ⟨entry, hentry, hfree, rfl⟩ := h.victim
  have hentries : (t.removeEntry key entry.size).entries = s.entries.erase key := by
    rw [← h.entries]
    rfl
  have hvictim : t.entries.lookup key = some entry := by
    rw [h.entries]
    exact hentry
  have hevictable : s.evictable key entry = true := by
    unfold evictable
    rw [hfree, h.listed]
    rfl
  have hothers : ∀ e ∈ (s.entries.erase key).entries,
      s.evictable e.1 e.2 = (t.removeEntry key entry.size).evictable e.1 e.2 := by
    intro e he
    show (!e.2.isPinned && s.listed e.1) = (!e.2.isPinned && t.listed e.1)
    cases hpin : e.2.isPinned with
    | true => rfl
    | false =>
      have hold := HashMap.lookup_of_mem (HashMap.mem_of_mem_erase he)
      rw [h.others e.1 e.2 hold hpin (HashMap.ne_of_mem_erase he)]
  refine ⟨h.config, h.policy, ?_, ?_, ?_, ?_, ?_, ?_, ?_⟩
  · rw [← h.totalSize_eq, totalSize_removeEntry hvictim]
  · rw [← h.len_eq, len_removeEntry hvictim]
  · unfold sizeOf
    rw [HashMap.totalWhere_erase hentry hevictable, hentries, HashMap.totalWhere_congr hothers]
  · unfold countOf
    rw [HashMap.totalWhere_erase hentry hevictable, hentries, HashMap.totalWhere_congr hothers]
  · intro other e hother
    rw [hentries] at hother
    exact HashMap.lookup_of_mem (HashMap.mem_of_mem_erase (HashMap.mem_of_lookup hother))
  · intro other e hother hpin
    rw [hentries, AList.lookup_erase_ne]
    · exact hother
    · rintro rfl
      rw [hentry] at hother
      cases hother
      rw [hfree] at hpin
      cases hpin
  · exact fun hacc => (h.toSameMap.accounted hacc).removeEntry hvictim

theorem evictFrom_spec {requiredBytes requiredEntries attempts freedBytes freedEntries : Nat} (h : s.Accounted)
    (hfreed : freedBytes + s.totalSize < 2 ^ 64) :
    ∃ t bytes count, Evicts s t bytes count ∧
      (evictFrom requiredBytes requiredEntries attempts freedBytes freedEntries s = (t, .ok ()) ∧
        (s.len ≤ attempts → requiredBytes ≤ freedBytes + s.totalSize → requiredEntries ≤ freedEntries + s.len →
          requiredBytes ≤ freedBytes + bytes ∧ requiredEntries ≤ freedEntries + count) ∨
      evictFrom requiredBytes requiredEntries attempts freedBytes freedEntries s = (t, .error .cacheFull) ∧
        t.sizeOf t.evictable = 0 ∧ t.countOf t.evictable = 0 ∧
        (freedBytes + bytes < requiredBytes ∨ freedEntries + count < requiredEntries)) := by
  have hrefl : Evicts s s 0 0 := .of_sameMap ⟨rfl, rfl, rfl, rfl⟩ fun _ _ _ _ => rfl
  induction attempts generalizing s freedBytes freedEntries with
  | zero =>
    refine ⟨s, 0, 0, hrefl, .inl ⟨rfl, ?_⟩⟩
    -- no attempt is left, and no entry either
    intro hlen hbytes hcount
    have hnil : s.entries.entries = [] := List.length_eq_zero_iff.mp (Nat.le_zero.mp hlen)
    have hzero : s.totalSize = 0 := by
      unfold totalSize HashMap.total
      rw [hnil]
      rfl
    have hlen := Nat.le_zero.mp hlen
    omega
  | succ attempts ih =>
    unfold evictFrom
    by_cases hdone : freedBytes ≥ requiredBytes ∧ freedEntries ≥ requiredEntries
    · rw [if_pos hdone]
      exact ⟨s, 0, 0, hrefl, .inl ⟨rfl, fun _ _ _ => hdone⟩⟩
    · rw [if_neg hdone]
      rcases hvictim : s.evictVictim with ⟨t, _ | ⟨key, size, dirty⟩⟩
      · -- no victim, so that no candidate is left either
        obtain ⟨hsame, hnone⟩ := evictVictim_none hvictim
        have hevicts : Evicts s t 0 0 := .of_sameMap hsame fun key entry hentry hfree => by
          rw [(hnone key entry hentry hfree).1, (hnone key entry hentry hfree).2]
        have hzero : ∀ e ∈ t.entries.entries, t.evictable e.1 e.2 = false := by
          intro e he
          unfold evictable
          rw [hsame.entries] at he
          cases hpin : e.2.isPinned with
          | true => rfl
          | false => rw [(hnone e.1 e.2 (HashMap.lookup_of_mem he) hpin).2]; rfl
        have hmissing : freedBytes < requiredBytes ∨ freedEntries < requiredEntries := by omega
        exact ⟨t, 0, 0, hevicts, .inr ⟨if_pos hmissing, HashMap.totalWhere_eq_zero hzero,
            HashMap.totalWhere_eq_zero hzero, hmissing⟩⟩
      · -- the victim is counted, and the loop goes on from the shard without it
        have hpicks := evictVictim_some hvictim
        have hevicts := hpicks.evicts
        have hsize := hevicts.size
        have hlen := hevicts.len
        obtain ⟨entry, hentry, -, -⟩ := hpicks.victim
        have hin : key ∈ t.entries := by
          rw [hpicks.entries]
          exact AList.lookup_isSome.mp (Option.isSome_of_eq_some hentry)
        have hwrap : usize (freedBytes + size) = freedBytes + size := usize_of_lt (by omega)
        dsimp only
        rw [if_pos hin, hwrap]
        obtain ⟨u, bytes, count, hrest, hend⟩ := @ih (t.removeEntry key size) (freedBytes + size) (freedEntries + 1)
          (hevicts.accounted h) (by omega) (.of_sameMap ⟨rfl, rfl, rfl, rfl⟩ fun _ _ _ _ => rfl)
        refine ⟨u, size + bytes, 1 + count, hevicts.trans hrest, ?_⟩
        rcases hend with ⟨hok, hroom⟩ | ⟨herr, hzeroSize, hzeroCount, hmissing⟩
        · refine .inl ⟨hok, ?_⟩
          intro hattempts hbytes hcount
          have hroom := hroom (by omega) (by omega) (by omega)
          omega
        · exact .inr ⟨herr, hzeroSize, hzeroCount, by omega⟩

theorem sameMap_updatePolicyTracking (s : CacheShard K V) (key : K) : SameMap s (s.updatePolicyTracking key) := by
  unfold updatePolicyTracking
  split
  · exact ⟨rfl, rfl, rfl, rfl⟩
  · split
    · exact ⟨rfl, rfl, rfl, rfl⟩
    · split <;> exact ⟨rfl, rfl, rfl, rfl⟩
  · exact ⟨rfl, rfl, rfl, rfl⟩
  · exact ⟨rfl, rfl, rfl, rfl⟩

theorem sameMap_removePolicyTracking (s : CacheShard K V) (key : K) : SameMap s (s.removePolicyTracking key) := by
  unfold removePolicyTracking
  split <;> exact ⟨rfl, rfl, rfl, rfl⟩

theorem entries_insertEntry (s : CacheShard K V) (key : K) (value : V) (size : Nat) :
    (s.insertEntry key value size).entries = s.entries.insert key (.new value size) :=
  (sameMap_updatePolicyTracking _ key).entries

section insertEntry

variable (hkey : key ∉ s.entries) (value : V)

include hkey

theorem totalSize_insertEntry : (s.insertEntry key value size).totalSize = s.totalSize + size := by
  unfold totalSize
  rw [entries_insertEntry, HashMap.total_insert_new (AList.lookup_eq_none.mpr hkey)]
  exact Nat.add_comm ..

theorem len_insertEntry : (s.insertEntry key value size).len = s.len + 1 := by
  unfold len
  rw [entries_insertEntry, HashMap.length_insert_new (AList.lookup_eq_none.mpr hkey)]

theorem Accounted.insertEntry (h : s.Accounted) (hbound : s.totalSize + size < 2 ^ 64) :
    (s.insertEntry key value size).Accounted := by
  have hstats := (sameMap_updatePolicyTracking { s with
    entries := s.entries.insert key (.new value size)
    stats := { s.stats with
      currentSize := usize (s.stats.currentSize + size)
      currentEntries := s.stats.currentEntries + 1 } } key).stats
  refine ⟨?_, ?_, ?_⟩
  · rw [len_insertEntry hkey, ← h.entries]
    exact congrArg CacheStats.currentEntries hstats
  · rw [totalSize_insertEntry hkey, ← usize_of_lt hbound, ← h.size]
    exact congrArg CacheStats.currentSize hstats
  · rw [totalSize_insertEntry hkey]
    exact hbound

end insertEntry

theorem Evicts.notMem {bytes count : Nat} (h : Evicts s t bytes count) (hkey : key ∉ s.entries) : key ∉ t.entries := by
  rw [← AList.lookup_eq_none] at hkey ⊢
  cases hlookup : t.entries.lookup key with
  | none => rfl
  | some entry => cases hkey.symm.trans (h.kept key entry hlookup)

theorem put_new (h : s.Accounted) (hsize : size ≤ s.config.maxSize) (hkey : key ∉ s.entries)
    (hover : s.stats.currentSize + size < 2 ^ 64) (value : V) :
    ∃ t bytes count, Evicts s t bytes count ∧
      (s.put key value size = (t.insertEntry key value size, .ok ()) ∧
        (1 ≤ s.config.maxEntries → s.len ≤ s.config.maxEntries →
          t.totalSize + size ≤ s.config.maxSize ∧ t.len + 1 ≤ s.config.maxEntries) ∨
      s.put key value size = (t, .error .cacheFull) ∧ t.sizeOf t.evictable = 0 ∧ t.countOf t.evictable = 0 ∧
        (s.config.maxSize < t.totalSize + size ∨ s.config.maxEntries < t.len + 1)) := by
  rw [h.size] at hover
  unfold put
  rw [if_neg (Nat.not_lt.mpr hsize), if_neg hkey, h.size, h.entries, usize_of_lt hover]
  dsimp only
  by_cases hfull : s.totalSize + size > s.config.maxSize ∨ s.len + 1 > s.config.maxEntries
  · rw [if_pos hfull]
    obtain ⟨t, bytes, count, hevicts, hend⟩ := @evictFrom_spec K V s _ (s.totalSize + size - s.config.maxSize)
      (s.len + 1 - s.config.maxEntries) s.config.maxEntries 0 0 h (by omega)
    have hbytes := hevicts.size
    have hcount := hevicts.len
    refine ⟨t, bytes, count, hevicts, ?_⟩
    unfold evict
    rcases hend with ⟨hok, hroom⟩ | ⟨herr, hzeroSize, hzeroCount, hmissing⟩
    · rw [hok]
      refine .inl ⟨rfl, ?_⟩
      intro hmax hlen
      have hroom := hroom hlen (by omega) (by omega)
      omega
    · rw [herr]
      exact .inr ⟨rfl, hzeroSize, hzeroCount, by omega⟩
  · rw [if_neg hfull]
    have hrefl : Evicts s s 0 0 := .of_sameMap ⟨rfl, rfl, rfl, rfl⟩ fun _ _ _ _ => rfl
    exact ⟨s, 0, 0, hrefl, .inl ⟨rfl, fun _ _ => by omega⟩⟩

theorem put_tooLarge (hsize : ¬ size ≤ s.config.maxSize) (value : V) :
    s.put key value size = (s, .error (.entryTooLarge size s.config.maxSize)) :=
  if_pos (Nat.not_le.mp hsize)

theorem put_update (hsize : size ≤ s.config.maxSize) (hkey : key ∈ s.entries) (value : V) :
    s.put key value size =
      ({ s with entries := HashMap.modify s.entries key fun entry => { entry with value }.recordAccess }, .ok ()) := by
  unfold put
  rw [if_neg (Nat.not_lt.mpr hsize), if_pos hkey]

inductive Call (K V : Type*) where
  | put (key : K) (value : V) (size : Nat)
  | get (key : K)
  | invalidate (key : K)
  | pin (key : K)
  | unpin (key : K)
  | clear
  /-- The map is iterated in another order from now on: the entry of the key comes first. -/
  | rehash (key : K)
  deriving Repr, DecidableEq

def step (s : CacheShard K V) : Call K V → Option (CacheShard K V)
  | .put key value size => some (s.put key value size).1
  | .get key => some (s.get key).1
  | .invalidate key => some (s.invalidate key).1
  | .pin key => some (s.pin key).1
  | .unpin key => some (s.unpin key).1
  | .clear => some s.clear.1
  | .rehash key =>
    match s.entries.lookup key with
    | some entry => some { s with entries := s.entries.insert key entry }
    | none => some s

/-- A put of a new key does not take the sum of the sizes past the largest `usize`. -/
def NoOverflow (s : CacheShard K V) : Call K V → Prop
  | .put key _ size => size ≤ s.config.maxSize → key ∉ s.entries → s.stats.currentSize + size < 2 ^ 64
  | _ => True

namespace Good

theorem modify (h : Good policy config s) (key : K) (f : CacheEntry V → CacheEntry V)
    (hf : ∀ entry, (f entry).size = entry.size) (pinCount : UInt64) :
    Good policy config
      { s with entries := HashMap.modify s.entries key f, stats := { s.stats with pinCount } } :=
  h.of_counts rfl rfl (HashMap.total_modify s.entries key fun _ => hf) (HashMap.length_modify ..) rfl rfl

theorem removeEntry (h : Good policy config s) (hentry : s.entries.lookup key = some entry) :
    Good policy config (s.removeEntry key entry.size) where
  sameConfig := h.sameConfig
  samePolicy := h.samePolicy
  accounted := h.accounted.removeEntry hentry
  within hmax := by
    have hwithin := h.within hmax
    have hsize := totalSize_removeEntry hentry
    have hlen := len_removeEntry hentry
    omega

theorem put (h : Good policy config s) {value : V} (hover : s.NoOverflow (.put key value size)) :
    Good policy config (s.put key value size).1 := by
  by_cases hsize : size ≤ s.config.maxSize
  · by_cases hkey : key ∈ s.entries
    · rw [put_update hsize hkey]
      exact h.modify key (fun entry => { entry with value }.recordAccess) (fun _ => rfl) s.stats.pinCount
    · obtain ⟨t, bytes, count, hevicts, hend⟩ := put_new h.accounted hsize hkey (hover hsize hkey) value
      have hover := hover hsize hkey
      have hacc := hevicts.accounted h.accounted
      have hbytes := hevicts.size
      have hcount := hevicts.len
      have hnew := hevicts.notMem hkey
      rw [h.accounted.size] at hover
      rcases hend with ⟨hok, hroom⟩ | ⟨herr, -⟩
      · -- the entry comes beside what the eviction has left
        rw [hok]
        have hsame := sameMap_updatePolicyTracking { t with
          entries := t.entries.insert key (.new value size)
          stats := { t.stats with
            currentSize := usize (t.stats.currentSize + size)
            currentEntries := t.stats.currentEntries + 1 } } key
        refine ⟨(hsame.config.trans hevicts.config).trans h.sameConfig,
          (hsame.policy.trans hevicts.policy).trans h.samePolicy,
          hacc.insertEntry hnew value (by omega), ?_⟩
        intro hmax
        rw [totalSize_insertEntry hnew, len_insertEntry hnew]
        rw [h.sameConfig] at hroom
        exact hroom hmax (h.within hmax).2
      · rw [herr]
        refine ⟨hevicts.config.trans h.sameConfig, hevicts.policy.trans h.samePolicy, hacc, ?_⟩
        intro hmax
        have hwithin := h.within hmax
        dsimp only
        omega
  · rw [put_tooLarge hsize]
    exact h

theorem step {c : Call K V} (h : Good policy config s) (hover : s.NoOverflow c) (hstep : s.step c = some t) :
    Good policy config t := by
  cases c with
  | put key value size =>
    cases hstep
    exact h.put hover
  | get key =>
    cases hstep
    unfold CacheShard.get
    cases s.entries.lookup key with
    | none => exact h
    | some entry =>
      exact (h.modify key .recordAccess (fun _ => rfl) s.stats.pinCount).of_sameMap (sameMap_updatePolicyTracking ..)
  | invalidate key =>
    cases hstep
    unfold CacheShard.invalidate
    cases hentry : s.entries.lookup key with
    | none => exact h
    | some entry => exact (h.removeEntry hentry).of_sameMap (sameMap_removePolicyTracking ..)
  | pin key =>
    cases hstep
    unfold CacheShard.pin
    by_cases hkey : key ∈ s.entries
    · rw [if_pos hkey]
      exact h.modify key .pin (fun _ => rfl) _
    · rw [if_neg hkey]
      exact h
  | unpin key =>
    cases hstep
    unfold CacheShard.unpin
    cases s.entries.lookup key with
    | none => exact h
    | some entry => exact h.modify key .unpin (fun _ => rfl) _
  | clear =>
    cases hstep
    have hclear : ∀ (lruList : List K) (arcState : ArcState K), Good policy config
        ({ s with entries := ∅, stats := { s.stats with currentSize := 0, currentEntries := 0 }, lruList, arcState } :
          CacheShard K V) :=
      fun _ _ => ⟨h.sameConfig, h.samePolicy, ⟨rfl, rfl, (by decide : 0 < 2 ^ 64)⟩, fun _ => ⟨Nat.zero_le _, Nat.zero_le _⟩⟩
    unfold CacheShard.clear
    dsimp only
    split <;> exact hclear ..
  | rehash key =>
    unfold CacheShard.step at hstep
    dsimp only at hstep
    cases hentry : s.entries.lookup key with
    | none =>
      rw [hentry] at hstep
      cases hstep
      exact h
    | some entry =>
      rw [hentry] at hstep
      cases hstep
      exact h.of_counts (t := { s with entries := s.entries.insert key entry }) rfl rfl
        (HashMap.total_insert_same hentry) (HashMap.length_erase hentry) rfl rfl

end Good

open Runs

theorem good_of_run {calls : List (Call K V)} (hmeets : Meets step NoOverflow (new policy config) calls)
    (hrun : run step (new policy config) calls = some t) : Good policy config t :=
  invariant (fun _ _ _ hs hover hstep => hs.step hover hstep) good_new hmeets hrun

theorem put_pinned (h : s.Accounted) {value : V} (hover : s.NoOverflow (.put key value size)) {other : K}
    (hentry : s.entries.lookup other = some entry) (hpin : entry.isPinned = true) :
    ∃ entry', (s.put key value size).1.entries.lookup other = some entry' ∧ entry'.pinCount = entry.pinCount := by
  by_cases hsize : size ≤ s.config.maxSize
  · by_cases hkey : key ∈ s.entries
    · rw [put_update hsize hkey]
      refine ⟨_, (HashMap.lookup_modify ..).trans (congrArg (Option.map _) hentry), ?_⟩
      split <;> rfl
    · obtain ⟨t, bytes, count, hevicts, hend⟩ := put_new h hsize hkey (hover hsize hkey) value
      have hkept := hevicts.pinned other entry hentry hpin
      rcases hend with ⟨hok, -⟩ | ⟨herr, -⟩
      · rw [hok]
        refine ⟨entry, ?_, rfl⟩
        rw [entries_insertEntry, AList.lookup_insert_ne]
        · exact hkept
        · rintro rfl
          exact hkey (AList.lookup_isSome.mp (Option.isSome_of_eq_some hentry))
      · rw [herr]
        exact ⟨entry, hkept, rfl⟩
  · rw [put_tooLarge hsize]
    exact ⟨entry, hentry, rfl⟩

/-- In every state of a run the counters say what the map holds; a put that succeeds keeps the limits, and no put
evicts a pinned entry. -/
theorem accounts_and_limits (hmax : 1 ≤ config.maxEntries) {calls : List (Call K V)}
    (hmeets : Meets step NoOverflow (new policy config) calls) (hrun : run step (new policy config) calls = some t) :
    t.stats.currentEntries = t.entries.entries.length ∧
      t.stats.currentSize = (t.entries.entries.map fun e => e.2.size).sum ∧
      ∀ key value size, t.NoOverflow (.put key value size) →
        ((t.put key value size).2 = .ok () →
          (t.put key value size).1.stats.currentSize ≤ config.maxSize ∧
          (t.put key value size).1.stats.currentEntries ≤ config.maxEntries) ∧
        ∀ other entry, t.entries.lookup other = some entry → entry.isPinned = true →
          ∃ entry', (t.put key value size).1.entries.lookup other = some entry' ∧
            entry'.pinCount = entry.pinCount := by
  have hgood := good_of_run hmeets hrun
  refine ⟨hgood.accounted.entries, hgood.accounted.size, ?_⟩
  intro key value size hover
  have hput := hgood.put hover
  have hwithin := hput.within hmax
  constructor
  · intro _
    rw [hput.accounted.size, hput.accounted.entries]
    exact hwithin
  · exact fun other entry hentry hpin => put_pinned hgood.accounted hover hentry hpin

instance (s : CacheShard K V) (c : Call K V) : Decidable (s.NoOverflow c) := by
  cases c <;> unfold NoOverflow <;> infer_instance

/-- The third entry takes the place of the second, as the first is pinned. -/
theorem accounts_and_limits_evicted :
    ∃ t : CacheShard Nat Unit, run step (new .lru ⟨10, 2⟩) [.put 1 () 4, .pin 1, .put 2 () 4, .put 3 () 4] = some t ∧
      t.entries.lookup 2 = none ∧ t.stats.currentEntries = t.entries.entries.length ∧
      ∃ entry, (t.put 4 () 4).1.entries.lookup 1 = some entry ∧ entry.pinCount = 1 := by
  refine ⟨_, rfl, rfl, ?_⟩
  have hmeets : Meets step NoOverflow (new .lru ⟨10, 2⟩ : CacheShard Nat Unit)
      [.put 1 () 4, .pin 1, .put 2 () 4, .put 3 () 4] := by decide +kernel
  obtain ⟨hentries, -, hput⟩ := accounts_and_limits (by decide) hmeets rfl
  exact ⟨hentries, (hput 4 () 4 fun _ _ => by decide).2 1 _ rfl rfl⟩

/-- With room for no entry a put succeeds all the same; and two entries may have the sum of their sizes wrap. -/
theorem limits_fail : ((new .lru ⟨10, 0⟩ : CacheShard Nat Unit).put 1 () 1).2 = .ok () ∧
      ((new .lru ⟨10, 0⟩ : CacheShard Nat Unit).put 1 () 1).1.stats.currentEntries = 1 ∧
    ∃ t : CacheShard Nat Unit, run step (new .lru ⟨2 ^ 64 - 1, 2⟩) [.put 1 () (2 ^ 63), .put 2 () (2 ^ 63)] = some t ∧
      t.stats.currentSize = 0 ∧ (t.entries.entries.map fun e => e.2.size).sum = 2 ^ 64 := by
  refine ⟨rfl, rfl, _, rfl, ?_, ?_⟩
  · decide
  · decide

/-- With the entries of a kind kept, and no other, there is room for one more of the size. -/
def RoomBeside (s : CacheShard K V) (p : K → CacheEntry V → Bool) (size : Nat) : Prop :=
  s.sizeOf p + size ≤ s.config.maxSize ∧ s.countOf p + 1 ≤ s.config.maxEntries

instance (s : CacheShard K V) (p : K → CacheEntry V → Bool) (size : Nat) : Decidable (s.RoomBeside p size) :=
  inferInstanceAs (Decidable (_ ∧ _))

def pinned (_ : CacheShard K V) (_ : K) (entry : CacheEntry V) : Bool := entry.isPinned

/-- What eviction cannot take: what is pinned, and what the policy does not list. -/
def stuck (s : CacheShard K V) (key : K) (entry : CacheEntry V) : Bool := !s.evictable key entry

theorem Good.cacheFull_iff (h : Good policy config s) (hmax : 1 ≤ config.maxEntries) {value : V}
    (hover : s.NoOverflow (.put key value size)) (hsize : size ≤ config.maxSize) (hkey : key ∉ s.entries) :
    (s.put key value size).2 = .error .cacheFull ↔ ¬ s.RoomBeside s.stuck size := by
  rw [← h.sameConfig] at hmax hsize
  have hlen : s.len ≤ s.config.maxEntries := by
    have hwithin := h.within (h.sameConfig ▸ hmax)
    rw [h.sameConfig]
    exact hwithin.2
  obtain ⟨t, bytes, count, hevicts, hend⟩ := put_new h.accounted hsize hkey (hover hsize hkey) value
  -- what is stuck before is what is left when the candidates are evicted
  have hsizes : s.sizeOf s.evictable + s.sizeOf s.stuck = s.totalSize := HashMap.totalWhere_add_not ..
  have hcounts : s.countOf s.evictable + s.countOf s.stuck = s.len :=
    (HashMap.totalWhere_add_not ..).trans (HashMap.total_one _)
  have hbytes := hevicts.size
  have hcount := hevicts.len
  have hevictableSize := hevicts.evictableSize
  have hevictableCount := hevicts.evictableCount
  unfold RoomBeside
  rcases hend with ⟨hok, hroom⟩ | ⟨herr, hzeroSize, hzeroCount, hmissing⟩
  · rw [hok]
    have hroom := hroom hmax hlen
    apply iff_of_false
    · exact fun heq => nomatch heq
    · rw [not_not]
      omega
  · rw [herr]
    apply iff_of_true rfl
    omega

/-- A put fails for want of room only where evicting all that is not pinned would not make it, exactly when the
key is there already, or the policy lists enough of what is not pinned. -/
theorem finds_victim_iff {calls : List (Call K V)} (hmeets : Meets step NoOverflow (new policy config) calls)
    (hrun : run step (new policy config) calls = some t) {value : V} (hsize : size ≤ config.maxSize)
    (hover : t.NoOverflow (.put key value size)) :
    ((t.put key value size).2 = .error .cacheFull → ¬ t.RoomBeside t.pinned size) ↔
      key ∈ t.entries ∨ (t.RoomBeside t.pinned size → t.RoomBeside t.stuck size) := by
  have hgood := good_of_run hmeets hrun
  by_cases hkey : key ∈ t.entries
  · apply iff_of_true _ (.inl hkey)
    rw [put_update (hgood.sameConfig ▸ hsize) hkey]
    exact fun heq => nomatch heq
  · by_cases hmax : 1 ≤ config.maxEntries
    · rw [hgood.cacheFull_iff hmax hover hsize hkey]
      constructor
      · exact fun h => .inr fun hpinned => not_not.mp fun hstuck => h hstuck hpinned
      · exact fun h hstuck hpinned => hstuck (h.resolve_left hkey hpinned)
    · -- no entry is allowed, so that no eviction is enough
      have hnone : ¬ t.RoomBeside t.pinned size := by
        rintro ⟨-, hcount⟩
        rw [hgood.sameConfig] at hcount
        omega
      exact iff_of_true (fun _ => hnone) (.inr fun hpinned => absurd hpinned hnone)

/-- One entry is pinned, and the other one is not. -/
theorem finds_victim_beside_pinned :
    ∃ t : CacheShard Nat Unit, run step (new .lru ⟨10, 2⟩) [.put 1 () 4, .pin 1, .put 2 () 4] = some t ∧
      ((t.put 3 () 4).2 = .error .cacheFull → ¬ t.RoomBeside t.pinned 4) := by
  refine ⟨_, rfl, ?_⟩
  have hmeets : Meets step NoOverflow (new .lru ⟨10, 2⟩ : CacheShard Nat Unit)
      [.put 1 () 4, .pin 1, .put 2 () 4] := by decide +kernel
  exact (finds_victim_iff hmeets rfl (by decide) (fun _ _ => by decide)).mpr (.inr (by decide))

/-- Pinned while a put passed it, an entry is never a victim again, pinned or not. -/
theorem unpinned_entry_is_not_found :
    ∃ t : CacheShard Nat Unit, run step (new .lru ⟨10, 1⟩) [.put 1 () 4, .pin 1, .put 2 () 4, .unpin 1] = some t ∧
      (t.put 2 () 4).2 = .error .cacheFull ∧ t.RoomBeside t.pinned 4 := by
  refine ⟨_, rfl, rfl, ?_⟩
  decide

end Northstar.Cache.CacheShard
