import Northstar.Events.Storage
import Northstar.Lib.Runs

/-!
# Persistence — events over appends, reopenings and torn files

An entry of the index does not fit into the buffer it is written through, so a store that holds an event
panics when it is closed and leaves an empty index file; what is in the events file is never indexed again.
The ids go on behind the highest id that the scan of the events file finds.
-/

namespace Northstar.Events

open Bytes Runs

def EventHeader.recordHeader (event : EventHeader) (payloadLen : Nat) : EventRecordHeader where
  eventId := event.eventId
  eventType := event.eventType.toInt
  timestamp := event.timestamp
  actorId := event.actorId
  payloadLen := payloadLen

def EventHeader.indexEntry (event : EventHeader) (fileOffset : Nat) : EventIndexEntry where
  fileOffset := fileOffset
  eventType := event.eventType
  timestamp := event.timestamp
  actorId := event.actorId
  sessionId := event.sessionId
  visibility := event.visibility

def recordSize (payload : Bytes) : Nat := eventHeaderSize + payload.length + eventTrailerSize

def record (event : EventHeader) (payload : Bytes) : Bytes :=
  (event.recordHeader payload.length).bytes ++ (payload ++ trailerBytes (recordSize payload))

theorem EventRecordHeader.length_bytes (header : EventRecordHeader) :
    header.bytes.length = eventHeaderSize := by
  simp [EventRecordHeader.bytes, eventHeaderSize]

theorem length_trailerBytes (totalLen : Nat) : (trailerBytes totalLen).length = eventTrailerSize := by
  simp [trailerBytes, eventTrailerSize]

theorem length_record (event : EventHeader) (payload : Bytes) :
    (record event payload).length = recordSize payload := by
  unfold record
  rw [List.length_append, List.length_append, EventRecordHeader.length_bytes, length_trailerBytes,
    recordSize, Nat.add_assoc]

theorem headerPayloadLen_bytes {header : EventRecordHeader} (h : header.payloadLen < 2 ^ 32) :
    headerPayloadLen header.bytes = header.payloadLen := by
  have hfront : header.bytes = (le 8 header.eventId ++ (u64 header.timestamp.toUInt64 ++
      u64 header.actorId)) ++ (le 4 header.payloadLen ++ (u16 header.eventType ++ [0, 0])) := by
    simp only [EventRecordHeader.bytes, List.append_assoc]
  unfold headerPayloadLen
  rw [hfront, window_append_middle (by simp) (length_le ..), toNat_le_of_lt (by omega)]

theorem trailerMagic_bytes (totalLen : Nat) : trailerMagic (trailerBytes totalLen) = eventMagic := by
  unfold trailerMagic trailerBytes
  rw [window_head (length_u32 _), readU32_u32]

section Read

variable (event : EventHeader) (payload pre post : Bytes)

theorem window_header : window (pre ++ (record event payload ++ post)) pre.length eventHeaderSize =
    (event.recordHeader payload.length).bytes := by
  unfold record
  rw [List.append_assoc]
  exact window_append_middle rfl (EventRecordHeader.length_bytes _)

theorem window_payload : window (pre ++ (record event payload ++ post)) (pre.length + eventHeaderSize)
    payload.length = payload := by
  have hfront : pre ++ (record event payload ++ post) = (pre ++ (event.recordHeader payload.length).bytes) ++
      (payload ++ (trailerBytes (recordSize payload) ++ post)) := by
    simp only [record, List.append_assoc]
  rw [hfront]
  apply window_append_middle _ rfl
  rw [List.length_append, EventRecordHeader.length_bytes]

theorem window_trailer : window (pre ++ (record event payload ++ post))
    (pre.length + eventHeaderSize + payload.length) eventTrailerSize = trailerBytes (recordSize payload) := by
  have hfront : pre ++ (record event payload ++ post) =
      (pre ++ (event.recordHeader payload.length).bytes ++ payload) ++
        (trailerBytes (recordSize payload) ++ post) := by
    simp only [record, List.append_assoc]
  rw [hfront]
  apply window_append_middle _ (length_trailerBytes _)
  rw [List.length_append, List.length_append, EventRecordHeader.length_bytes]

end Read

variable {n : Nat}

namespace EventStore

variable {s : EventStore} {event : EventHeader} {payload : Bytes} {err : StoreError}

theorem entryBuf_eq (id : Nat) (entry : EventIndexEntry) : entryBuf id entry = .error .panic := by
  have hstep : ∀ (buf : Bytes) (offset : Nat) (field : Bytes), buf.length = 31 →
      offset + field.length ≤ 31 → ∃ next, putField buf offset field = .ok next ∧ next.length = 31 := by
    intro buf offset field hbuf hroom
    unfold putField
    cases hwrite : writeAt buf offset field with
    | none =>
      unfold writeAt at hwrite
      rw [if_pos (by omega)] at hwrite
      cases hwrite
    | some next => exact ⟨next, rfl, (writeAt_length hwrite).trans hbuf⟩
  rcases hstep (List.replicate 31 0) 0 (le 8 id) (List.length_replicate) (by simp) with ⟨b₁, h₁, hlen₁⟩
  rcases hstep b₁ 8 (le 8 entry.fileOffset) hlen₁ (by simp) with ⟨b₂, h₂, hlen₂⟩
  rcases hstep b₂ 16 (u16 entry.eventType.toInt) hlen₂ (by simp) with ⟨b₃, h₃, hlen₃⟩
  rcases hstep b₃ 18 (u64 entry.timestamp.toUInt64) hlen₃ (by simp) with ⟨b₄, h₄, hlen₄⟩
  -- 26 bytes are written, and 8 more come
  have h₅ : putField b₄ 26 (u64 entry.actorId) = .error .panic := by
    unfold putField writeAt
    rw [if_neg (by rw [length_u64, hlen₄]; omega)]
  unfold entryBuf
  simp only [h₁, h₂, h₃, h₄, h₅, Except.ok_bind, Except.error_bind]

theorem deinit_eq (s : EventStore) : s.deinit = [] := by
  unfold deinit saveIndex
  cases s.index.entries with
  | nil => rfl
  | cons e entries =>
    unfold saveEntries
    rw [entryBuf_eq]

theorem openFiles_nil {eventsFile : Bytes} {maxPayloadSize : UInt32}
    (h : openFiles eventsFile [] maxPayloadSize = .ok s) :
    firstId eventsFile = .ok s.nextEventId ∧ s.eventsFile = eventsFile ∧ s.indexFile = [] ∧
      s.index = ∅ ∧ s.maxPayloadSize = maxPayloadSize := by
  unfold openFiles at h
  rcases Except.bind_eq_ok_iff.mp h with ⟨index, hindex, h⟩
  rcases Except.bind_eq_ok_iff.mp h with ⟨next, hnext, h⟩
  cases h
  cases hindex
  exact ⟨hnext, rfl, rfl, rfl, rfl⟩

/-- The store behind an append that wrote its record. -/
def appended (s : EventStore) (event : EventHeader) (payload : Bytes) : EventStore :=
  { s with
    nextEventId := s.nextEventId + 1
    eventsFile := s.eventsFile ++ record { event with eventId := s.nextEventId } payload
    index := s.index.insert s.nextEventId (event.indexEntry s.eventsFile.length) }

theorem appendEvent_cases (s : EventStore) (event : EventHeader) (payload : Bytes) :
    (s.appendEvent event payload).1 = .error .panic ∨
    (∃ err, (s.appendEvent event payload).1 = .error err ∧ err ≠ .panic ∧
      ∃ next, s.nextEventId ≤ next ∧ (s.appendEvent event payload).2 = { s with nextEventId := next }) ∨
    (payload.length ≤ s.maxPayloadSize.toNat ∧ s.nextEventId + 1 < 2 ^ 64 ∧ recordSize payload < 2 ^ 32 ∧
      s.appendEvent event payload = (.ok s.nextEventId, s.appended event payload)) := by
  unfold appendEvent
  by_cases hlarge : payload.length > s.maxPayloadSize.toNat
  · rw [if_pos hlarge]
    right; left
    exact ⟨.payloadTooLarge, rfl, by decide, s.nextEventId, Nat.le_refl _, rfl⟩
  rw [if_neg hlarge]
  by_cases hid : 2 ^ 64 ≤ s.nextEventId + 1
  · rw [if_pos hid]
    exact .inl rfl
  rw [if_neg hid]
  dsimp only
  by_cases hvalid : event.payloadLen > maxEventPayloadSize
  · have herr : EventHeader.validate { event with eventId := s.nextEventId } = .error .payloadTooLarge :=
      if_pos hvalid
    rw [herr]
    right; left
    exact ⟨.payloadTooLarge, rfl, by decide, s.nextEventId + 1, Nat.le_succ _, rfl⟩
  have hok : EventHeader.validate { event with eventId := s.nextEventId } = .ok () := if_neg hvalid
  rw [hok]
  dsimp only
  by_cases hsize : 2 ^ 32 ≤ eventHeaderSize + payload.length + eventTrailerSize
  · rw [if_pos hsize]
    exact .inl rfl
  · rw [if_neg hsize]
    right; right
    refine ⟨Nat.le_of_not_lt hlarge, Nat.lt_of_not_le hid, Nat.lt_of_not_le hsize, ?_⟩
    unfold appended record
    rw [← List.append_assoc, ← List.append_assoc]
    rfl

/-- The event stands in the events file where the index has it. -/
structure Holds (s : EventStore) (offset : Nat) (event : EventHeader) (payload : Bytes) : Prop where
  indexed : s.index.lookup event.eventId = some (event.indexEntry offset)
  stands : ∃ pre post, s.eventsFile = pre ++ (record event payload ++ post) ∧ pre.length = offset
  fits : payload.length ≤ s.maxPayloadSize.toNat

variable {offset : Nat}

theorem readEventPayload_record
    (hstands : ∃ pre post, s.eventsFile = pre ++ (record event payload ++ post) ∧ pre.length = offset)
    (hfits : payload.length ≤ s.maxPayloadSize.toNat) : s.readEventPayload offset = .ok payload := by
  obtain ⟨pre, post, hfile, rfl⟩ := hstands
  have hlen : headerPayloadLen (event.recordHeader payload.length).bytes = payload.length := by
    apply headerPayloadLen_bytes
    have := s.maxPayloadSize.toNat_lt
    show payload.length < _
    omega
  unfold readEventPayload
  rw [hfile, window_header]
  dsimp only
  rw [EventRecordHeader.length_bytes, if_neg (Nat.lt_irrefl _), hlen, if_neg (Nat.not_lt.mpr hfits),
    window_payload, if_neg (Nat.lt_irrefl _), window_trailer, length_trailerBytes, if_neg (Nat.lt_irrefl _),
    trailerMagic_bytes, if_neg (not_not.mpr rfl)]

theorem Holds.getEvent (h : s.Holds offset event payload) : s.getEvent event.eventId =
      .ok (some { header := { event with payloadLen := payload.length }, payload }) := by
  unfold EventStore.getEvent
  rw [h.indexed]
  dsimp only
  rw [show (event.indexEntry offset).fileOffset = offset from rfl,
    readEventPayload_record h.stands h.fits, Except.ok_bind]
  rfl

theorem Holds.appended (h : s.Holds offset event payload) (hid : event.eventId < s.nextEventId)
    (event' : EventHeader) (payload' : Bytes) : (s.appended event' payload').Holds offset event payload where
  indexed := by
    have hne : event.eventId ≠ s.nextEventId := by omega
    show (s.index.insert _ _).lookup _ = _
    rw [AList.lookup_insert_ne hne, h.indexed]
  stands := by
    obtain ⟨pre, post, hfile, hpre⟩ := h.stands
    refine ⟨pre, post ++ record { event' with eventId := s.nextEventId } payload', ?_, hpre⟩
    show s.eventsFile ++ _ = _
    rw [hfile]
    simp only [List.append_assoc]
  fits := h.fits

theorem holds_appended (s : EventStore) (event : EventHeader) (payload : Bytes)
    (hfits : payload.length ≤ s.maxPayloadSize.toNat) :
    (s.appended event payload).Holds s.eventsFile.length { event with eventId := s.nextEventId } payload where
  indexed := AList.lookup_insert _
  stands := by
    refine ⟨s.eventsFile, [], ?_, rfl⟩
    rw [List.append_nil]
    rfl
  fits := hfits

theorem scanFrom_torn (hn : n < (record event payload).length)
    (hsize : recordSize payload < 2 ^ 32) (fuel maxId : Nat) :
    scanFrom ((record event payload).take n) fuel 0 maxId = .ok maxId := by
  have hlength : ((record event payload).take n).length = n := by
    rw [List.length_take]
    omega
  cases fuel with
  | zero => rfl
  | succ fuel =>
    unfold scanFrom
    by_cases hpos : 0 < ((record event payload).take n).length
    · rw [if_pos hpos]
      dsimp only
      by_cases hheader : (window ((record event payload).take n) 0 eventHeaderSize).length < eventHeaderSize
      · rw [if_pos hheader]
      rw [if_neg hheader]
      -- the header is whole, so it tells the length, and the trailer is not
      have hwhole : window ((record event payload).take n) 0 eventHeaderSize =
          (event.recordHeader payload.length).bytes := by
        rw [length_window, hlength] at hheader
        have hsplit := @window_append_left ((record event payload).take n) ((record event payload).drop n) 0
          eventHeaderSize (by omega)
        have hread := window_header event payload [] []
        rw [List.nil_append, List.append_nil] at hread
        rw [← hsplit, List.take_append_drop]
        exact hread
      have hlen : headerPayloadLen (event.recordHeader payload.length).bytes = payload.length := by
        apply headerPayloadLen_bytes
        show payload.length < _
        unfold recordSize at hsize
        omega
      rw [hwhole, hlen, if_neg]
      rintro ⟨htrailer, -⟩
      rw [length_window, hlength] at htrailer
      rw [length_record] at hn
      unfold recordSize eventHeaderSize eventTrailerSize at *
      omega
    · rw [if_neg hpos]

theorem firstId_torn (hn : n < (record event payload).length) (hpos : 0 < n)
    (hsize : recordSize payload < 2 ^ 32) : firstId ((record event payload).take n) = .ok 1 := by
  have hlength : ((record event payload).take n).length = n := by
    rw [List.length_take]
    omega
  unfold firstId
  rw [if_pos (by omega)]
  unfold scanHighestEventId
  rw [scanFrom_torn hn hsize, Except.ok_bind]
  rfl

end EventStore

/-- An event as it was written: where, and what `getEvent` should return. -/
structure Written where
  offset : Nat
  result : EventResult
  deriving Repr, DecidableEq

/-- The events file ends behind the event. -/
def Written.stop (w : Written) : Nat := w.offset + recordSize w.result.payload

/-- A store, with the ids that its appends have returned, the events completely written, and where the last
record of the events file begins. -/
structure History where
  store : EventStore
  returned : List Nat
  complete : List Written
  last : Option Nat
  deriving DecidableEq

inductive Action where
  | append (event : EventHeader) (payload : Bytes)
  -- `deinit`, then `open`
  | reopen
  -- the events file is cut to `length`, then `open`; the store may have been closed before
  | cut (closed : Bool) (length : Nat)
  deriving Repr, DecidableEq

namespace History

def start (maxPayloadSize : UInt32) : History := ⟨⟨[], [], 0, ∅, maxPayloadSize⟩, [], [], none⟩

/-- A panic of an append or of an open ends the run; one of a close ends the process, and the next one opens
the files as they are. -/
def step (h : History) : Action → Option History
  | .append event payload =>
    match h.store.appendEvent event payload with
    | (.ok id, store) => some
        { store
          returned := h.returned ++ [id]
          complete := h.complete ++ [⟨h.store.eventsFile.length,
            { event with eventId := id, payloadLen := payload.length }, payload⟩]
          last := some h.store.eventsFile.length }
    | (.error .panic, _) => none
    | (.error _, store) => some { h with store }
  | .reopen =>
    match EventStore.openFiles h.store.eventsFile h.store.deinit h.store.maxPayloadSize with
    | .ok store => some { h with store }
    | .error _ => none
  | .cut closed length =>
    match h.last with
    | none => none
    | some start =>
      if start < length ∧ length < h.store.eventsFile.length then
        let indexFile := if closed then h.store.deinit else h.store.indexFile
        match EventStore.openFiles (h.store.eventsFile.take length) indexFile h.store.maxPayloadSize with
        | .ok store => some { h with store, complete := h.complete.filter (·.stop ≤ length) }
        | .error _ => none
      else none

/-- Every event completely written is returned as it was written, and no id has been returned twice. -/
def Kept (h : History) : Prop :=
  (∀ w ∈ h.complete, h.store.getEvent w.result.header.eventId = .ok (some w.result)) ∧ h.returned.Nodup

instance (h : History) : Decidable h.Kept := inferInstanceAs (Decidable (_ ∧ _))

/-- A store is closed and opened only while no event is completely written, and the file is cut only while
event 0 is the only one ever appended. -/
def Spared (h : History) : Action → Prop
  | .append _ _ => True
  | .reopen => h.complete = []
  | .cut _ _ => h.returned = [0]

instance (h : History) (a : Action) : Decidable (h.Spared a) :=
  match a with
  | .append _ _ => inferInstanceAs (Decidable True)
  | .reopen => inferInstanceAs (Decidable (_ = _))
  | .cut _ _ => inferInstanceAs (Decidable (_ = _))

/-- The ids go on behind those returned, the index has every event, and a file without a complete event is
empty or the front of the first record. -/
structure Sound (h : History) : Prop where
  indexFile : h.store.indexFile = []
  ids : ∀ id ∈ h.returned, id < h.store.nextEventId
  nodup : h.returned.Nodup
  holds : ∀ w ∈ h.complete, ∃ event, h.store.Holds w.offset event w.result.payload ∧
    w.result.header = { event with payloadLen := w.result.payload.length } ∧ event.eventId ∈ h.returned
  fresh : h.returned = [] → h.store.eventsFile = [] ∧ h.complete = [] ∧ h.last = none
  first : h.returned = [0] → h.last = some 0 ∧ ∃ event payload n, recordSize payload < 2 ^ 32 ∧
    0 < n ∧ n ≤ recordSize payload ∧ h.store.eventsFile = (record event payload).take n ∧
    (h.complete = [] → n < recordSize payload) ∧ ∀ w ∈ h.complete, w.offset = 0 ∧ w.result.payload = payload
  incomplete : h.complete = [] → h.returned = [] ∨ h.returned = [0]

variable {h h' : History} {maxPayloadSize : UInt32}

theorem sound_start (maxPayloadSize : UInt32) : (start maxPayloadSize).Sound where
  indexFile := rfl
  ids := by intro id hid; cases hid
  nodup := List.nodup_nil
  holds := by intro w hw; cases hw
  fresh := fun _ => ⟨rfl, rfl, rfl⟩
  first := by intro hno; cases hno
  incomplete := fun _ => .inl rfl

theorem Sound.kept (hs : h.Sound) : h.Kept := by
  refine ⟨?_, hs.nodup⟩
  intro w hw
  rcases hs.holds w hw with ⟨event, hholds, hheader, -⟩
  have hid : w.result.header.eventId = event.eventId := by rw [hheader]
  rw [hid, hholds.getEvent, ← hheader]

variable {event : EventHeader}

theorem step_append_cases {payload : Bytes} (hstep : h.step (.append event payload) = some h') :
    (∃ next, h.store.nextEventId ≤ next ∧ h' = { h with store := { h.store with nextEventId := next } }) ∨
    (payload.length ≤ h.store.maxPayloadSize.toNat ∧ recordSize payload < 2 ^ 32 ∧
      h' = { store := h.store.appended event payload
             returned := h.returned ++ [h.store.nextEventId]
             complete := h.complete ++ [⟨h.store.eventsFile.length,
               { event with eventId := h.store.nextEventId, payloadLen := payload.length }, payload⟩]
             last := some h.store.eventsFile.length }) := by
  unfold step at hstep
  dsimp only at hstep
  rcases h.store.appendEvent_cases event payload with hpanic | ⟨err, herr, hne, next, hnext, hstore⟩ |
    ⟨hfits, -, hsize, hok⟩
  · rw [← Prod.mk.eta (p := h.store.appendEvent event payload), hpanic] at hstep
    cases hstep
  · left
    refine ⟨next, hnext, ?_⟩
    rw [← Prod.mk.eta (p := h.store.appendEvent event payload), herr, hstore] at hstep
    cases err with
    | panic => exact absurd rfl hne
    | payloadTooLarge | corruptEvent | corruptIndex | endOfStream => exact (Option.some.inj hstep).symm
  · right
    refine ⟨hfits, hsize, ?_⟩
    rw [hok] at hstep
    exact (Option.some.inj hstep).symm

theorem Sound.append (hs : h.Sound) {payload : Bytes}
    (hstep : h.step (.append event payload) = some h') : h'.Sound := by
  rcases step_append_cases hstep with ⟨next, hnext, rfl⟩ | ⟨hfits, hsize, rfl⟩
  · exact
      { indexFile := hs.indexFile
        ids := fun id hid => (hs.ids id hid).trans_le hnext
        nodup := hs.nodup
        holds := by
          intro w hw
          rcases hs.holds w hw with ⟨event, hholds, hheader, hid⟩
          exact ⟨event, ⟨hholds.indexed, hholds.stands, hholds.fits⟩, hheader, hid⟩
        fresh := hs.fresh
        first := hs.first
        incomplete := hs.incomplete }
  · exact
      { indexFile := hs.indexFile
        ids := by
          intro id hid
          show id < h.store.nextEventId + 1
          rcases List.mem_append.mp hid with hid | hid
          · have := hs.ids id hid
            omega
          · rw [List.mem_singleton.mp hid]
            exact Nat.lt_succ_self _
        nodup := by
          show (h.returned ++ [h.store.nextEventId]).Nodup
          apply List.nodup_append.mpr
          refine ⟨hs.nodup, List.pairwise_singleton .., ?_⟩
          intro id hid new hnew
          have := hs.ids id hid
          rw [List.mem_singleton.mp hnew]
          omega
        holds := by
          intro w hw
          rcases List.mem_append.mp hw with hw | hw
          · rcases hs.holds w hw with ⟨old, hholds, hheader, hid⟩
            exact ⟨old, hholds.appended (hs.ids _ hid) event payload, hheader, List.mem_append_left _ hid⟩
          · rw [List.mem_singleton.mp hw]
            exact ⟨{ event with eventId := h.store.nextEventId }, h.store.holds_appended event payload hfits,
              rfl, List.mem_append_right _ (List.mem_singleton_self _)⟩
        fresh := fun hno => absurd hno (List.append_ne_nil_of_right_ne_nil _ (List.cons_ne_nil _ _))
        first := by
          intro honly
          -- the only id is that of this append, and nothing was written before
          have hsplit : h.returned ++ [h.store.nextEventId] = [] ++ [0] := honly
          obtain ⟨hnil, -⟩ := List.append_inj' hsplit rfl
          obtain ⟨hfile, hcomplete, -⟩ := hs.fresh hnil
          refine ⟨?_, { event with eventId := h.store.nextEventId }, payload, recordSize payload, hsize, ?_,
            Nat.le_refl _, ?_, ?_, ?_⟩
          · show some h.store.eventsFile.length = some 0
            rw [hfile]
            rfl
          · unfold recordSize eventHeaderSize
            omega
          · show h.store.eventsFile ++ _ = _
            rw [hfile, List.nil_append, ← length_record, List.take_length]
          · exact fun hno => absurd hno (List.append_ne_nil_of_right_ne_nil _ (List.cons_ne_nil _ _))
          · intro w hw
            have hw : w ∈ h.complete ++ [_] := hw
            rw [hcomplete, List.nil_append, List.mem_singleton] at hw
            rw [hw, hfile]
            exact ⟨rfl, rfl⟩
        incomplete := fun hno => absurd hno (List.append_ne_nil_of_right_ne_nil _ (List.cons_ne_nil _ _)) }

theorem sound_torn {payload : Bytes} {store : EventStore}
    (hsize : recordSize payload < 2 ^ 32) (hpos : 0 < n) (hn : n < recordSize payload)
    (hopen : EventStore.openFiles ((record event payload).take n) [] maxPayloadSize = .ok store) :
    Sound ⟨store, [0], [], some 0⟩ := by
  obtain ⟨hnext, hfile, hindexFile, -, -⟩ := EventStore.openFiles_nil hopen
  rw [EventStore.firstId_torn (by rw [length_record]; exact hn) hpos hsize] at hnext
  exact
    { indexFile := hindexFile
      ids := by
        intro id hid
        rw [List.mem_singleton.mp hid]
        show 0 < store.nextEventId
        rw [← Except.ok.inj hnext]
        exact Nat.one_pos
      nodup := List.pairwise_singleton ..
      holds := by intro w hw; cases hw
      fresh := by intro hno; cases hno
      first := by
        intro _
        refine ⟨rfl, event, payload, n, hsize, hpos, Nat.le_of_lt hn, hfile, fun _ => hn, ?_⟩
        intro w hw
        cases hw
      incomplete := fun _ => .inr rfl }

theorem Sound.reopen (hs : h.Sound) (hnone : h.complete = []) (hstep : h.step .reopen = some h') : h'.Sound := by
  unfold step at hstep
  dsimp only at hstep
  rw [EventStore.deinit_eq] at hstep
  cases hopen : EventStore.openFiles h.store.eventsFile [] h.store.maxPayloadSize with
  | error err =>
    rw [hopen] at hstep
    cases hstep
  | ok store =>
    rw [hopen] at hstep
    rcases h with ⟨old, returned, complete, last⟩
    obtain rfl : complete = [] := hnone
    cases Option.some.inj hstep
    rcases hs.incomplete rfl with hnil | hone
    · obtain rfl : returned = [] := hnil
      obtain ⟨hfile, -, hlast⟩ := hs.fresh rfl
      obtain ⟨-, hkept, hindexFile, -, -⟩ := EventStore.openFiles_nil hopen
      exact
        { indexFile := hindexFile
          ids := by intro id hid; cases hid
          nodup := List.nodup_nil
          holds := by intro w hw; cases hw
          fresh := fun _ => ⟨hkept.trans hfile, rfl, hlast⟩
          first := by intro hno; cases hno
          incomplete := fun _ => .inl rfl }
    · obtain rfl : returned = [0] := hone
      obtain ⟨hlast, event, payload, n, hsize, hpos, -, hfile, htorn, -⟩ := hs.first rfl
      obtain rfl : last = some 0 := hlast
      have hfile : old.eventsFile = (record event payload).take n := hfile
      dsimp only at hopen
      rw [hfile] at hopen
      exact sound_torn hsize hpos (htorn rfl) hopen

theorem Sound.cut (hs : h.Sound) (hone : h.returned = [0]) {closed : Bool} {length : Nat}
    (hstep : h.step (.cut closed length) = some h') : h'.Sound := by
  obtain ⟨hlast, event, payload, n, hsize, hpos, hn, hfile, -, honly⟩ := hs.first hone
  have hlength : h.store.eventsFile.length = n := by
    rw [hfile, List.length_take, length_record]
    omega
  have hindex : (if closed then h.store.deinit else h.store.indexFile) = [] := by
    rw [EventStore.deinit_eq, hs.indexFile, ite_self]
  unfold step at hstep
  dsimp only at hstep
  rw [hlast] at hstep
  dsimp only at hstep
  by_cases hinside : 0 < length ∧ length < h.store.eventsFile.length
  · rw [if_pos hinside, hindex, hfile, List.take_take, Nat.min_eq_left (by omega)] at hstep
    -- the only record that there may be is the one that is cut
    have hcomplete : h.complete.filter (·.stop ≤ length) = [] := by
      apply List.filter_eq_nil_iff.mpr
      intro w hw
      obtain ⟨hoffset, hpayload⟩ := honly w hw
      unfold Written.stop
      rw [hoffset, hpayload, decide_eq_true_iff]
      omega
    cases hopen : EventStore.openFiles ((record event payload).take length) [] h.store.maxPayloadSize with
    | error err =>
      rw [hopen] at hstep
      cases hstep
    | ok store =>
      rw [hopen, hcomplete, hone] at hstep
      cases Option.some.inj hstep
      exact sound_torn hsize hinside.1 (by omega) hopen
  · rw [if_neg hinside] at hstep
    cases hstep

theorem Sound.step (hs : h.Sound) {a : Action} (ha : h.Spared a) (hstep : h.step a = some h') : h'.Sound := by
  cases a with
  | append event payload => exact hs.append hstep
  | reopen => exact hs.reopen ha hstep
  | cut closed length => exact hs.cut ha hstep

/-- In a run whose closes, opens and cuts are all spared, the events are kept and no id is returned twice. -/
theorem events_kept (maxPayloadSize : UInt32) (actions : List Action)
    (hmeets : Meets step Spared (start maxPayloadSize) actions)
    (hrun : run step (start maxPayloadSize) actions = some h) : h.Kept := by
  have hsound : h.Sound :=
    invariant (fun _ _ _ hs ha hstep => hs.step ha hstep) (sound_start maxPayloadSize) hmeets hrun
  exact hsound.kept

def sampleNote : EventHeader where
  eventId := 0
  eventType := .reviewNote
  timestamp := 1
  actorId := 99
  sessionId := some 5
  visibility := .team
  payloadLen := 0

/-- The only event is torn, the store is closed and opened, and the next event is event 1. -/
def tornFirst : List Action :=
  [.append sampleNote [7, 8], .cut false 20, .reopen, .append sampleNote [9]]

theorem events_kept_torn_first : ∃ h, run step (start 1000) tornFirst = some h ∧ h.returned = [0, 1] ∧ h.Kept :=
  ⟨_, rfl, rfl, events_kept 1000 tornFirst (by decide) rfl⟩

/-- After a close and an open, the only event is not there; after a cut inside event 1, an append returns id 1
again. -/
theorem reopen_loses_events :
    (∃ h, run step (start 1000) [.append sampleNote [7, 8], .reopen] = some h ∧
      h.complete.map (·.result.header.eventId) = [0] ∧ h.store.getEvent 0 = .ok none ∧ ¬ h.Kept) ∧
    ∃ h, run step (start 1000) [.append sampleNote [7], .append sampleNote [8], .cut false 50,
      .append sampleNote [9]] = some h ∧ h.returned = [0, 1, 1] ∧ ¬ h.Kept :=
  ⟨⟨_, rfl, rfl, rfl, by decide⟩, ⟨_, rfl, rfl, by decide⟩⟩

end History

end Northstar.Events
