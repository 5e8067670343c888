import Northstar.Btree.Pages

/-!
# Chain — writing and reading the pages of a large value

The pages of a chain are allocated one after the other, so their ids increase along the chain: the
check for cycles never fires, and the length check does not for a value the tree accepts.
-/

namespace Northstar.Btree

open Bytes EStateM

/-- `Chain crc d n pageId value`: `n` pages from `pageId` on hold `value`. -/
inductive Chain (crc : Crc) (d : Disk) : Nat → PageId → Bytes → Prop
  | last {pageId : PageId} {page : OverflowPage} (owns : d.Owns pageId)
      (at_ : OverflowAt crc d pageId page) (final : page.nextPage = 0) :
      Chain crc d 1 pageId page.data
  | next {n : Nat} {pageId : PageId} {page : OverflowPage} {rest : Bytes} (owns : d.Owns pageId)
      (at_ : OverflowAt crc d pageId page) (more : page.nextPage ≠ 0)
      (increasing : pageId.toNat < page.nextPage.toNat) (tail : Chain crc d n page.nextPage rest) :
      Chain crc d (n + 1) pageId (page.data ++ rest)

/-- A change of the table that leaves every page alone that does not hold a node. -/
structure KeepsOverflow (d d' : Disk) : Prop where
  grows : d.next.toNat ≤ d'.next.toNat
  pages : ∀ pageId, d.Owns pageId → nodeAt d pageId = none → d'.pages pageId = d.pages pageId

variable {n : Nat} {pageId : PageId} {value : Bytes} {pager : Pager}

variable {crc : Crc} {d' : Disk} {d : Disk}

theorem Chain.keep (hkeep : KeepsOverflow d d') (h : Chain crc d n pageId value) :
    Chain crc d' n pageId value := by
  induction h with
  | last owns at_ final =>
    exact .last ⟨owns.1, owns.2.trans_le hkeep.grows⟩
      (at_.congr (hkeep.pages _ owns at_.nodeAt_eq_none)) final
  | next owns at_ more increasing _ ih =>
    exact .next ⟨owns.1, owns.2.trans_le hkeep.grows⟩
      (at_.congr (hkeep.pages _ owns at_.nodeAt_eq_none)) more increasing ih

theorem Chain.nodeAt_eq_none (h : Chain crc d n pageId value) : nodeAt d pageId = none := by
  cases h with
  | last _ at_ _ => exact at_.nodeAt_eq_none
  | next _ at_ _ _ _ => exact at_.nodeAt_eq_none

/-- A table with `n` more pages, none of which holds a node. -/
structure Grows (d d' : Disk) (n : Nat) : Prop where
  next : d'.next.toNat = d.next.toNat + n
  pages : ∀ pageId, d.Owns pageId → d'.pages pageId = d.pages pageId
  fresh : ∀ pageId, d'.Owns pageId → ¬ d.Owns pageId → nodeAt d' pageId = none

theorem Grows.refl (d : Disk) : Grows d d 0 := ⟨rfl, fun _ _ => rfl, fun _ h h' => absurd h h'⟩

theorem Grows.owns (h : Grows d d' n) (howns : d.Owns pageId) : d'.Owns pageId :=
  ⟨howns.1, by have := howns.2; have := h.next; omega⟩

section calls

variable {env : Env} {m : MetaState}

theorem run_readChain (hchain : Chain env.crc d n pageId value) (h : Shows env pager d m)
    {fuel : Nat} {visited : List PageId} (buffer : Bytes) (hfuel : n ≤ fuel)
    (hvisited : ∀ v ∈ visited, v.toNat < pageId.toNat) (hlength : visited.length + n ≤ 2000) :
    ∃ pager', (Pager.readChain env fuel visited pageId buffer).run pager =
      .ok (buffer ++ value) pager' ∧ Shows env pager' d m := by
  induction hchain generalizing pager fuel visited buffer with
  | @last pageId page owns at_ final =>
    rcases Nat.exists_eq_add_of_le hfuel with ⟨fuel, rfl⟩
    rcases run_readOverflowPage h owns at_ with ⟨pager', hread, hshows⟩
    have hfresh : pageId ∉ visited := fun hmem => Nat.lt_irrefl _ (hvisited _ hmem)
    have hlast : page.isLast = true := by simp [OverflowPage.isLast, final]
    refine ⟨pager', ?_, hshows⟩
    rw [Nat.add_comm 1 fuel]
    unfold Pager.readChain
    rw [if_neg hfresh, if_neg (by omega), run_bind_of_ok hread]
    simp only [hlast, if_true, run_pure]
  | @next n pageId page rest owns at_ more increasing tail ih =>
    rcases run_readOverflowPage h owns at_ with ⟨pager', hread, hshows⟩
    have hfresh : pageId ∉ visited := fun hmem => Nat.lt_irrefl _ (hvisited _ hmem)
    have hlast : page.isLast = false := by simp [OverflowPage.isLast, more]
    have hvisited' : ∀ v ∈ pageId :: visited, v.toNat < page.nextPage.toNat := by
      intro v hv
      rcases List.mem_cons.mp hv with rfl | hv
      · exact increasing
      · exact (hvisited v hv).trans increasing
    cases fuel with
    | zero => omega
    | succ fuel =>
      rcases ih hshows (buffer ++ page.data) (Nat.le_of_succ_le_succ hfuel) hvisited'
        (by rw [List.length_cons]; omega) with ⟨pager'', hrest, hshows'⟩
      refine ⟨pager'', ?_, hshows'⟩
      unfold Pager.readChain
      rw [if_neg hfresh, if_neg (by omega), run_bind_of_ok hread]
      simp only [hlast, Bool.false_eq_true, if_false]
      rw [hrest, List.append_assoc]

theorem toNat_next_succ (hroom : Room env (d.next.toNat + 1)) :
    (d.next + 1).toNat = d.next.toNat + 1 := by
  have hlt := hroom.lt_size
  rw [UInt64.toNat_add]
  exact Nat.mod_eq_of_lt (by show d.next.toNat + 1 < 2 ^ 64; omega)

theorem owns_of_owns_succ {d d₁ : Disk} (hnext : d₁.next.toNat = d.next.toNat + 1)
    (howns : d₁.Owns pageId) (hne : pageId ≠ d.next) : d.Owns pageId := by
  have hne' : pageId.toNat ≠ d.next.toNat := fun heq => hne (UInt64.toNat_inj.mp heq)
  exact ⟨howns.1, by have := howns.2; omega⟩

theorem run_allocateOverflowPage (h : Shows env pager d m)
    (hroom : Room env (d.next.toNat + 1)) {chunk : Bytes} (hchunk : chunk.length ≤ overflowDataSize) :
    ∃ pager₁ pager₂ d', (Pager.allocateOverflowPage env).run pager = .ok d.next pager₁ ∧
      (Pager.writeOverflowPage env d.next (OverflowPage.withData chunk 0)).run pager₁ =
        .ok () pager₂ ∧
      Shows env pager₂ d' m ∧ d'.next.toNat = d.next.toNat + 1 ∧
      (∀ pageId, pageId ≠ d.next → d'.pages pageId = d.pages pageId) ∧
      OverflowAt env.crc d' d.next (OverflowPage.withData chunk 0) := by
  have hsucc := toNat_next_succ hroom
  rcases h.run_allocatePage hroom with ⟨pager₀, halloc, hshows₀⟩
  have howns : (d.allocate env.crc).Owns d.next := by
    constructor
    · have hfirst := h.first
      omega
    · show d.next.toNat < (d.next + 1).toNat
      omega
  have hnew : OverflowPage.new.validate = .ok () :=
    (OverflowPage.validate_eq_ok_iff _).mpr ⟨rfl, Nat.zero_le _⟩
  have hvalid : (OverflowPage.withData chunk 0).validate = .ok () :=
    (OverflowPage.validate_eq_ok_iff _).mpr ⟨rfl, hchunk⟩
  rcases run_writeOverflowPage hshows₀ howns hnew with ⟨pager₁, hwrite₁, hshows₁⟩
  rcases run_writeOverflowPage hshows₁ howns.write hvalid with ⟨pager₂, hwrite₂, hshows₂⟩
  refine ⟨pager₁, pager₂, _, ?_, hwrite₂, hshows₂, hsucc, ?_, overflowAt_write _ _ _ hvalid⟩
  · unfold Pager.allocateOverflowPage
    rw [run_bind_of_ok halloc, run_bind_of_ok hwrite₁, run_pure]
  · intro pageId hne
    rw [Disk.write_pages_ne _ _ hne, Disk.write_pages_ne _ _ hne, Disk.allocate_pages_ne _ _ hne]

/-- The chunks from the `i`-th on are appended to a chain that ends in `prev` so far. -/
theorem run_allocateChunks (value : Bytes) (first : PageId) (n i : Nat) {prev : PageId}
    {done : Bytes} (h : Shows env pager d m)
    (hroom : Room env (d.next.toNat + n)) (howns : d.Owns prev)
    (hdone : done.length ≤ overflowDataSize)
    (hat : OverflowAt env.crc d prev (OverflowPage.withData done 0)) :
    ∃ pager' d', (Pager.allocateChunks env value n i (some first) (some prev)).run pager =
        .ok (some first) pager' ∧ Shows env pager' d' m ∧ d'.next.toNat = d.next.toNat + n ∧
      (∀ pageId, d.Owns pageId → pageId ≠ prev → d'.pages pageId = d.pages pageId) ∧
      (∀ pageId, d'.Owns pageId → ¬ d.Owns pageId → nodeAt d' pageId = none) ∧
      Chain env.crc d' (n + 1) prev
        (done ++ window value (i * overflowDataSize) (n * overflowDataSize)) := by
  induction n generalizing i prev done d pager with
  | zero =>
    refine ⟨pager, d, rfl, h, rfl, fun _ _ _ => rfl, fun _ hown hnot => absurd hown hnot, ?_⟩
    rw [Nat.zero_mul, window, List.take_zero, List.append_nil]
    exact .last howns hat rfl
  | succ n ih =>
    let chunk := window value (i * overflowDataSize) overflowDataSize
    have hchunk : chunk.length ≤ overflowDataSize := List.length_take_le ..
    rcases run_allocateOverflowPage h (hroom.mono (by omega)) hchunk
      with ⟨pager₁, pager₂, d₁, halloc, hwrite, hshows₁, hnext₁, hkeep₁, hat₁⟩
    have hne : prev ≠ d.next := howns.ne_next
    have howns₁ : d₁.Owns prev := ⟨howns.1, by have := howns.2; omega⟩
    -- the link from the page in front
    have hprev := hat.congr (hkeep₁ prev hne)
    rcases run_readOverflowPage hshows₁ howns₁ hprev with ⟨pager₃, hread, hshows₃⟩
    have hlink : (OverflowPage.withData done d.next).validate = .ok () :=
      (OverflowPage.validate_eq_ok_iff _).mpr ⟨rfl, hdone⟩
    rcases run_writeOverflowPage hshows₃ howns₁ hlink with ⟨pager₄, hrelink, hshows₄⟩
    have hownsNew : d₁.Owns d.next := ⟨by have := h.first; omega, by omega⟩
    have hatNew := hat₁.congr (Disk.write_pages_ne d₁
      (overflowBytes env.crc prev (OverflowPage.withData done d.next)) hne.symm)
    have hroom' : Room env (d₁.next.toNat + n) := hroom.mono (by omega)
    rcases ih (i + 1) hshows₄ hroom' hownsNew hchunk hatNew
      with ⟨pager', d', hrest, hshows', hnext', hkeep', hfresh, hchain⟩
    have hnext : d'.next.toNat = d.next.toNat + (n + 1) := by
      have hsame : (d₁.write prev (overflowBytes env.crc prev
          (OverflowPage.withData done d.next))).next = d₁.next := rfl
      rw [hnext', hsame, hnext₁]
      omega
    refine ⟨pager', d', ?_, hshows', hnext, ?_, ?_, ?_⟩
    · unfold Pager.allocateChunks
      rw [run_bind_of_ok halloc]
      show EStateM.run (Pager.writeOverflowPage env d.next (OverflowPage.withData chunk 0) >>= _)
        pager₁ = _
      rw [run_bind_of_ok hwrite]
      show EStateM.run (Pager.readOverflowPage env prev >>= _) pager₂ = _
      rw [run_bind_of_ok hread]
      show EStateM.run (Pager.writeOverflowPage env prev (OverflowPage.withData done d.next) >>= _)
        pager₃ = _
      rw [run_bind_of_ok hrelink]
      exact hrest
    · intro pageId hown hother
      have hown₁ : d₁.Owns pageId := ⟨hown.1, by have := hown.2; omega⟩
      rw [hkeep' pageId hown₁ hown.ne_next, Disk.write_pages_ne _ _ hother,
        hkeep₁ pageId hown.ne_next]
    · intro pageId hown hnot
      by_cases heq : pageId = d.next
      · rw [heq]
        exact hchain.nodeAt_eq_none
      · apply hfresh pageId hown
        intro hown₁
        exact hnot (owns_of_owns_succ hnext₁ hown₁ heq)
    · have hpage := (overflowAt_write env.crc d₁ prev hlink).congr (hkeep' prev howns₁ hne)
      have hdata : window value (i * overflowDataSize) ((n + 1) * overflowDataSize) =
          chunk ++ window value ((i + 1) * overflowDataSize) (n * overflowDataSize) := by
        rw [Nat.succ_mul, Nat.add_comm (n * _), window_split, Nat.succ_mul]
      rw [hdata]
      apply Chain.next _ hpage
      · intro hzero
        have hfirst := h.first
        rw [show d.next = 0 from hzero] at hfirst
        exact absurd hfirst (by decide)
      · exact howns.2
      · exact hchain
      · exact ⟨howns.1, by have := howns.2; omega⟩

theorem run_allocateOverflowChain (h : Shows env pager d m) (hne : value ≠ [])
    (hroom : Room env (d.next.toNat + OverflowPage.pagesNeeded value.length)) :
    ∃ pager' d', (Pager.allocateOverflowChain env value).run pager = .ok d.next pager' ∧
      Shows env pager' d' m ∧ Grows d d' (OverflowPage.pagesNeeded value.length) ∧
      Chain env.crc d' (OverflowPage.pagesNeeded value.length) d.next value := by
  rcases OverflowPage.exists_chunks hne with ⟨n, hn, hall⟩
  rw [hn] at hroom ⊢
  let chunk := window value (0 * overflowDataSize) overflowDataSize
  have hchunk : chunk.length ≤ overflowDataSize := List.length_take_le ..
  rcases run_allocateOverflowPage h (hroom.mono (by omega)) hchunk
    with ⟨pager₁, pager₂, d₁, halloc, hwrite, hshows₁, hnext₁, hkeep₁, hat₁⟩
  have hownsNew : d₁.Owns d.next := ⟨by have := h.first; omega, by omega⟩
  have hroom' : Room env (d₁.next.toNat + n) := hroom.mono (by omega)
  rcases run_allocateChunks value d.next n 1 hshows₁ hroom' hownsNew hchunk hat₁ with
    ⟨pager', d', hrest, hshows', hnext', hkeep', hfresh, hchain⟩
  refine ⟨pager', d', ?_, hshows', ⟨by omega, ?_, ?_⟩, ?_⟩
  · have hloop : (Pager.allocateChunks env value (n + 1) 0 none none).run pager =
        .ok (some d.next) pager' := by
      unfold Pager.allocateChunks
      rw [run_bind_of_ok halloc]
      show EStateM.run (Pager.writeOverflowPage env d.next (OverflowPage.withData chunk 0) >>= _)
        pager₁ = _
      rw [run_bind_of_ok hwrite]
      exact hrest
    unfold Pager.allocateOverflowChain
    rw [if_neg (by simpa using hne), hn, run_bind_of_ok hloop]
    exact run_pure ..
  · intro pageId hown
    have hown₁ : d₁.Owns pageId := ⟨hown.1, by have := hown.2; omega⟩
    rw [hkeep' pageId hown₁ hown.ne_next, hkeep₁ pageId hown.ne_next]
  · intro pageId hown hnot
    by_cases heq : pageId = d.next
    · rw [heq]
      exact hchain.nodeAt_eq_none
    · apply hfresh pageId hown
      intro hown₁
      exact hnot (owns_of_owns_succ hnext₁ hown₁ heq)
  · rw [hall] at hchain
    exact hchain

end calls

/-- Ten bytes that start with the marker: a value the readers take for a reference. -/
def looksLikeReference (value : Bytes) : Bool :=
  value.length == 10 && readU16 (window value 0 2) == overflowValueMarker

/-- The value a reader finds for an entry. -/
inductive Reads (crc : Crc) (d : Disk) (e : Entry) : Bytes → Prop
  | inline (plain : looksLikeReference e.value = false) : Reads crc d e e.value
  | chain {n : Nat} {pageId : PageId} {value : Bytes} (reference : looksLikeReference e.value = true)
      (decodes : ValueStorage.decode e.value = .ok (.overflow pageId)) (short : n ≤ 2000)
      (pages : Chain crc d n pageId value) : Reads crc d e value

theorem Reads.keep (hkeep : KeepsOverflow d d') {e : Entry}
    (h : Reads crc d e value) : Reads crc d' e value := by
  cases h with
  | inline plain => exact .inline plain
  | chain reference decodes short pages => exact .chain reference decodes short (pages.keep hkeep)

def overflowPages (length : Nat) : Nat :=
  if OverflowPage.shouldStoreInline length then 0 else OverflowPage.pagesNeeded length

/-- The entry `prepare_entry_value` makes: a chain starts at the next page of the allocator. -/
def preparedEntry (d : Disk) (key value : Bytes) (lsn : UInt64) : Entry :=
  if OverflowPage.shouldStoreInline value.length then ⟨key, value, lsn⟩
  else ⟨key, (ValueStorage.overflow d.next).encode, lsn⟩

theorem preparedEntry_inline (h : value.length ≤ inlineThreshold) (d : Disk)
    (key : Bytes) (lsn : UInt64) : preparedEntry d key value lsn = ⟨key, value, lsn⟩ := by
  unfold preparedEntry
  rw [if_pos (by simpa [OverflowPage.shouldStoreInline] using h)]

@[simp] theorem preparedEntry_key (d : Disk) (key value : Bytes) (lsn : UInt64) :
    (preparedEntry d key value lsn).key = key := by
  unfold preparedEntry
  split <;> rfl

@[simp] theorem preparedEntry_lsn (d : Disk) (key value : Bytes) (lsn : UInt64) :
    (preparedEntry d key value lsn).lsn = lsn := by
  unfold preparedEntry
  split <;> rfl

theorem length_preparedEntry_value (d : Disk) (key value : Bytes) (lsn : UInt64) :
    (preparedEntry d key value lsn).value.length ≤ inlineThreshold := by
  unfold preparedEntry
  split
  · next hinline => simpa [OverflowPage.shouldStoreInline] using hinline
  · show (u16 overflowValueMarker ++ u64 d.next).length ≤ inlineThreshold
    rw [List.length_append, length_u16, length_u64]
    decide

section prepare

variable {env : Env} {m : MetaState}

theorem run_prepareEntryValue (h : Shows env pager d m) (key : Bytes)
    (lsn : UInt64) (hsize : value.length ≤ maxValueSize)
    (hroom : Room env (d.next.toNat + overflowPages value.length)) :
    ∃ pager' d', (prepareEntryValue env key value lsn).run pager =
        .ok (preparedEntry d key value lsn) pager' ∧ Shows env pager' d' m ∧
      Grows d d' (overflowPages value.length) ∧
      (looksLikeReference value = false →
        Reads env.crc d' (preparedEntry d key value lsn) value) := by
  unfold prepareEntryValue preparedEntry overflowPages at *
  rw [if_neg (Nat.not_lt.mpr hsize)]
  by_cases hinline : OverflowPage.shouldStoreInline value.length = true
  · simp only [if_pos hinline] at hroom ⊢
    exact ⟨pager, d, rfl, h, .refl d, fun hplain => .inline hplain⟩
  · simp only [if_neg hinline] at hroom ⊢
    have hne : value ≠ [] := by
      intro hnil
      rw [hnil] at hinline
      exact hinline rfl
    have hshort : OverflowPage.pagesNeeded value.length ≤ 2000 := by
      unfold OverflowPage.pagesNeeded
      simp only [overflowDataSize, maxValueSize] at hsize ⊢
      split
      · omega
      · omega
    rcases run_allocateOverflowChain h hne hroom with ⟨pager', d', hrun, hshows, hgrows, hchain⟩
    refine ⟨pager', d', ?_, hshows, hgrows, fun _ => ?_⟩
    · rw [run_bind_of_ok hrun, run_pure]
    · exact .chain (isOverflowValue_encode key d.next lsn) (decode_encode_overflow d.next) hshort hchain

theorem run_prepareEntryValue_error (pager : Pager) (key : Bytes) {value : Bytes} (lsn : UInt64)
    (hsize : maxValueSize < value.length) :
    ∃ e, (prepareEntryValue env key value lsn).run pager = .error (.err e) pager := by
  unfold prepareEntryValue
  rw [if_pos hsize]
  exact ⟨_, run_throw_any ..⟩

end prepare

end Northstar.Btree
