import Northstar.Zig.Replay
import Northstar.Zig.TimeTravel

/-!
# Readers — two readers of one log

The engine stops at the first frame that is not a commit record with a right checksum and a right trailer.
The log's own replay goes over 1000 frames, passes those it does not take, and never looks at a trailer.
-/

namespace Northstar.Zig

open Bytes

namespace Mutation

/-- What the key holds behind the mutation. -/
def outcome : Mutation → Option Bytes
  | .put _ value => some value
  | .delete _ => none

def lastOf (key : Bytes) (ms : List Mutation) : Option Mutation := (ms.filter (·.getKey = key)).getLast?

theorem foldl_mutate (ms : List Mutation) (state : SnapshotState) (key : Bytes) :
    ms.foldl Model.mutate state key = ((lastOf key ms).map outcome).getD (state key) := by
  induction ms generalizing state with
  | nil => rfl
  | cons m ms ih =>
    rw [List.foldl_cons, ih, lastOf, lastOf]
    by_cases hkey : m.getKey = key
    · rw [List.filter_cons_of_pos (by simpa using hkey), List.getLast?_cons]
      have hone : Model.mutate state m key = m.outcome := by
        subst hkey
        cases m with
        | put key value => exact Function.update_self ..
        | delete key => exact Function.update_self ..
      rw [hone]
      cases (ms.filter (·.getKey = key)).getLast? <;> rfl
    · have hother : Model.mutate state m key = state key := by
        cases m with
        | put _ value => exact Function.update_of_ne (Ne.symm hkey) ..
        | delete _ => exact Function.update_of_ne (Ne.symm hkey) ..
      rw [List.filter_cons_of_neg (by simpa using hkey), hother]

/-- The mutations of `extra` leave every key as those of `base` have left it. -/
def Repeats (base extra : List Mutation) : Prop :=
  ∀ key, ∀ m, lastOf key extra = some m → m.outcome = ((lastOf key base).map outcome).getD none

theorem repeats_iff (base extra : List Mutation) :
    Repeats base extra ↔ (base ++ extra).foldl Model.mutate (fun _ => none) =
      base.foldl Model.mutate (fun _ => none) := by
  rw [List.foldl_append, funext_iff]
  apply forall_congr'
  intro key
  rw [foldl_mutate extra, foldl_mutate base]
  cases lastOf key extra with
  | none => exact ⟨fun _ => rfl, fun _ _ hno => nomatch hno⟩
  | some m =>
    constructor
    · exact fun h => h m rfl
    · rintro h m' hm'
      cases hm'
      exact h

theorem repeats_nil (base : List Mutation) : Repeats base [] := fun _ _ hno => nomatch hno

end Mutation

namespace LogFrame

def record? (f : LogFrame) : Option CommitRecord := (CommitRecord.deserialize f.payload).toOption

/-- A commit record for the replay of the log. -/
def Logged (f : LogFrame) : Prop := f.header.recordType = 0 ∧ f.Intact

instance (f : LogFrame) : Decidable f.Logged := inferInstanceAs (Decidable (_ ∧ _))

def mutations (fs : List LogFrame) : List Mutation := (fs.filterMap record?).flatMap CommitRecord.mutations

theorem mutations_append (fs fs' : List LogFrame) : mutations (fs ++ fs') = mutations fs ++ mutations fs' := by
  unfold mutations
  rw [List.filterMap_append, List.flatMap_append]

/-- The payload is decoded, and the engine survives it. -/
def Taken (f : LogFrame) : Prop := ∃ r, f.record? = some r ∧ r.Harmless

/-- The first frame that is not taken is one that is not decoded. -/
def Refused : List LogFrame → Prop
  | [] => False
  | f :: fs => f.record? = none ∨ f.Taken ∧ Refused fs

/-- The frames that the engine reads. -/
def front (fs : List LogFrame) : List LogFrame := fs.takeWhile (·.Good)

/-- The frames that the replay decodes. -/
def logged (turns : Nat) (fs : List LogFrame) : List LogFrame := (fs.take turns).filter (·.Logged)

theorem not_refused {fs : List LogFrame} (h : ∀ f ∈ fs, f.Taken) : ¬ Refused fs := by
  induction fs with
  | nil => exact fun hno => hno
  | cons f fs ih =>
    rcases List.forall_mem_cons.mp h with ⟨⟨r, hr, -⟩, hrest⟩
    rintro (hnone | ⟨-, hrefused⟩)
    · rw [hr] at hnone
      cases hnone
    · exact ih hrest hrefused

theorem record?_eq_some {f : LogFrame} {r : CommitRecord} :
    f.record? = some r ↔ CommitRecord.deserialize f.payload = .ok r := Except.toOption_eq_some

theorem record?_eq_none {f : LogFrame} :
    f.record? = none ↔ ∃ err, CommitRecord.deserialize f.payload = .error err := by
  unfold record?
  cases CommitRecord.deserialize f.payload with
  | ok r =>
    constructor
    · intro hno
      cases hno
    · rintro ⟨err, hno⟩
      cases hno
  | error err => exact ⟨fun _ => ⟨err, rfl⟩, fun _ => rfl⟩

theorem rebuilt_all (fs : List LogFrame) (m : Rebuilt) :
    ((∀ f ∈ front fs, f.Taken) → rebuilt (UInt64.ofNat (2 ^ 64 - 1)) fs m =
      .ok (((front fs).filterMap record?).foldl Rebuilt.apply m)) ∧
    (Refused (front fs) → ∃ err, rebuilt (UInt64.ofNat (2 ^ 64 - 1)) fs m = .error (.log err)) ∧
    ((¬ ∀ f ∈ front fs, f.Taken) → ¬ Refused (front fs) →
      rebuilt (UInt64.ofNat (2 ^ 64 - 1)) fs m = .error .invalidFree) := by
  induction fs generalizing m with
  | nil =>
    exact ⟨fun _ => rfl, fun hno => hno.elim, fun hno => absurd (fun _ hmem => absurd hmem List.not_mem_nil) hno⟩
  | cons f fs ih =>
    rw [rebuilt]
    by_cases hf : f.Good
    · have hfront : front (f :: fs) = f :: front fs := List.takeWhile_cons_of_pos (decide_eq_true hf)
      rw [if_pos hf, hfront, List.forall_mem_cons, Refused]
      cases hrecord : CommitRecord.deserialize f.payload with
      | error err =>
        have hnone : f.record? = none := record?_eq_none.mpr ⟨err, hrecord⟩
        have hnot : ¬ f.Taken := by
          rintro ⟨r, hr, -⟩
          rw [hnone] at hr
          cases hr
        exact ⟨fun hall => absurd hall.1 hnot, fun _ => ⟨err, rfl⟩, fun _ hno => absurd (Or.inl hnone) hno⟩
      | ok r =>
        have hsome : f.record? = some r := record?_eq_some.mpr hrecord
        have htarget : ¬ r.txnId > UInt64.ofNat (2 ^ 64 - 1) :=
          UInt64.not_lt.mpr (UInt64.le_iff_toNat_le.mpr (Nat.le_of_lt_succ r.txnId.toNat_lt))
        have hdecoded : f.record? ≠ none := by
          rw [hsome]
          exact Option.some_ne_none r
        dsimp only
        rw [if_neg htarget]
        by_cases hharmless : r.Harmless
        · have htaken : f.Taken := ⟨r, hsome, hharmless⟩
          rcases ih (m.apply r) with ⟨hok, hlog, hfree⟩
          rw [if_pos hharmless]
          refine ⟨fun hall => ?_, ?_, fun hno hnot => hfree ?_ ?_⟩
          · rw [hok hall.2, List.filterMap_cons_some hsome]
            rfl
          · rintro (hnone | ⟨-, hrefused⟩)
            · exact absurd hnone hdecoded
            · exact hlog hrefused
          · exact fun hall => hno ⟨htaken, hall⟩
          · exact fun hrefused => hnot (Or.inr ⟨htaken, hrefused⟩)
        · have hnot : ¬ f.Taken := by
            rintro ⟨r', hr', hharmless'⟩
            rw [hsome] at hr'
            cases hr'
            exact hharmless hharmless'
          rw [if_neg hharmless]
          refine ⟨fun hall => absurd hall.1 hnot, ?_, fun _ _ => rfl⟩
          rintro (hnone | ⟨htaken, -⟩)
          · exact absurd hnone hdecoded
          · exact absurd htaken hnot
    · have hfront : front (f :: fs) = [] := List.takeWhile_cons_of_neg (by simpa using hf)
      rw [if_neg hf, hfront]
      exact ⟨fun _ => rfl, fun hno => hno.elim,
        fun hno => absurd (fun _ hmem => absurd hmem List.not_mem_nil) hno⟩

end LogFrame

namespace WriteAheadLog

open LogFrame (logged)

theorem replayLoop_bytes (f : LogFrame) (pre post : Bytes) (turns lsn : Nat) (result : ReplayResult) :
    (f.Logged → replayLoop (pre ++ (f.bytes ++ post)) 0 (turns + 1) pre.length lsn result =
      CommitRecord.deserialize f.payload >>= fun record =>
        replayLoop (pre ++ (f.bytes ++ post)) 0 turns (pre.length + f.bytes.length) (lsn + 1)
          { result with commitRecords := result.commitRecords ++ [record], lastLsn := lsn }) ∧
    (¬ f.Logged → ∃ lsn' result', result'.commitRecords = result.commitRecords ∧
      replayLoop (pre ++ (f.bytes ++ post)) 0 (turns + 1) pre.length lsn result =
        replayLoop (pre ++ (f.bytes ++ post)) 0 turns (pre.length + f.bytes.length) lsn' result') := by
  have hlength := f.length_bytes
  have htotal : (pre ++ (f.bytes ++ post)).length = pre.length + f.bytes.length + post.length := by
    rw [List.length_append, List.length_append, Nat.add_assoc]
  have hsize : RecordHeader.size = 40 := rfl
  have hpayloadLen : f.readHeader.payloadLen.toNat = f.payload.length := f.payloadLen
  have hcrc : f.readHeader.payloadCrc32c = f.header.payloadCrc32c := rfl
  have hloop : replayLoop (pre ++ (f.bytes ++ post)) 0 (turns + 1) pre.length lsn result =
      if Crc32.hash f.payload ≠ f.header.payloadCrc32c then
        replayLoop (pre ++ (f.bytes ++ post)) 0 turns (pre.length + f.bytes.length) lsn result
      else result.take f.readHeader f.payload >>= fun result =>
        replayLoop (pre ++ (f.bytes ++ post)) 0 turns (pre.length + f.bytes.length) (lsn + 1)
          { result with lastLsn := lsn } := by
    rw [replayLoop, if_pos (by omega), if_neg (by omega), f.validHeaderAt_bytes]
    dsimp only
    rw [f.recordSize_readHeader, if_neg (by omega), if_neg (Nat.not_lt_zero _), hpayloadLen,
      f.window_payload, if_neg (Nat.lt_irrefl _), hcrc]
  rw [hloop]
  constructor
  · intro hlogged
    rw [if_neg (fun hno => hno hlogged.2), ReplayResult.take, if_pos (show f.readHeader.recordType = 0 from hlogged.1),
      bind_assoc]
    rfl
  · intro hnot
    by_cases hintact : f.Intact
    · have htype : f.header.recordType ≠ 0 := fun htype => hnot ⟨htype, hintact⟩
      have htake : ∃ result', result.take f.readHeader f.payload = .ok result' ∧
          result'.commitRecords = result.commitRecords := by
        unfold ReplayResult.take
        rw [if_neg (show ¬ f.readHeader.recordType = 0 from htype)]
        split
        · split <;> exact ⟨_, rfl, rfl⟩
        · split <;> exact ⟨_, rfl, rfl⟩
      rcases htake with ⟨result', htake, hrecords⟩
      refine ⟨lsn + 1, { result' with lastLsn := lsn }, hrecords, ?_⟩
      rw [if_neg (fun hno => hno hintact), htake]
      rfl
    · exact ⟨lsn, result, rfl, if_pos hintact⟩

/-- The replay of frames: the records of the first `turns` frames, unless one is not decoded. -/
theorem replayLoop_file (fs : List LogFrame) (pre : Bytes) (turns lsn : Nat) (result : ReplayResult) :
    ((∀ f ∈ logged turns fs, f.record? ≠ none) → ∃ res,
      replayLoop (pre ++ LogFrame.file fs) 0 turns pre.length lsn result = .ok res ∧
        res.commitRecords = result.commitRecords ++ (logged turns fs).filterMap LogFrame.record?) ∧
    ((¬ ∀ f ∈ logged turns fs, f.record? ≠ none) → ∃ err,
      replayLoop (pre ++ LogFrame.file fs) 0 turns pre.length lsn result = .error err) := by
  induction turns generalizing fs pre lsn result with
  | zero =>
    refine ⟨fun _ => ⟨result, rfl, (List.append_nil _).symm⟩, fun hno => absurd ?_ hno⟩
    exact fun _ hmem => absurd hmem List.not_mem_nil
  | succ turns ih =>
    cases fs with
    | nil =>
      have hend : replayLoop (pre ++ LogFrame.file []) 0 (turns + 1) pre.length lsn result = .ok result := by
        rw [LogFrame.file, List.flatMap_nil, List.append_nil]
        exact replayLoop_end ..
      refine ⟨fun _ => ⟨result, hend, (List.append_nil _).symm⟩, fun hno => absurd ?_ hno⟩
      exact fun _ hmem => absurd hmem List.not_mem_nil
    | cons f fs =>
      have hnext : pre ++ LogFrame.file (f :: fs) = pre ++ f.bytes ++ LogFrame.file fs :=
        (List.append_assoc pre f.bytes _).symm
      have hfile : pre ++ LogFrame.file (f :: fs) = pre ++ (f.bytes ++ LogFrame.file fs) := rfl
      rcases replayLoop_bytes f pre (LogFrame.file fs) turns lsn result with ⟨hlogged, hpassed⟩
      rw [← hfile, hnext, ← List.length_append] at hlogged hpassed
      rw [hnext]
      by_cases hf : f.Logged
      · have hcons : logged (turns + 1) (f :: fs) = f :: logged turns fs :=
          List.filter_cons_of_pos (decide_eq_true hf)
        rw [hlogged hf, hcons, List.forall_mem_cons]
        cases hrecord : CommitRecord.deserialize f.payload with
        | error err =>
          refine ⟨fun hall => absurd (LogFrame.record?_eq_none.mpr ⟨err, hrecord⟩) hall.1, fun _ => ?_⟩
          exact ⟨err, rfl⟩
        | ok record =>
          have hsome : f.record? = some record := LogFrame.record?_eq_some.mpr hrecord
          have hdecoded : f.record? ≠ none := by
            rw [hsome]
            exact Option.some_ne_none record
          rcases ih fs (pre ++ f.bytes) (lsn + 1)
            { result with commitRecords := result.commitRecords ++ [record], lastLsn := lsn } with ⟨hok, herror⟩
          rw [Except.ok_bind]
          refine ⟨fun hall => ?_, fun hno => herror fun hall => hno ⟨hdecoded, hall⟩⟩
          rcases hok hall.2 with ⟨res, hres, hrecords⟩
          refine ⟨res, hres, ?_⟩
          rw [hrecords, List.filterMap_cons_some hsome, List.append_assoc]
          rfl
      · have hskip : logged (turns + 1) (f :: fs) = logged turns fs :=
          List.filter_cons_of_neg (by simpa using hf)
        rcases hpassed hf with ⟨lsn', result', hrecords, hrun⟩
        rw [hrun, hskip, ← hrecords]
        exact ih fs (pre ++ f.bytes) lsn' result'

end WriteAheadLog

namespace LogFrame

theorem front_logged (turns : Nat) (fs : List LogFrame) :
    logged turns fs = (front fs).take turns ++ (logged turns fs).drop (front fs).length ∧
      ((front fs).drop turns = [] ∨ (logged turns fs).drop (front fs).length = []) := by
  have hgood : ∀ f ∈ (front fs).take turns, decide f.Logged = true := by
    intro f hf
    have hf : f.Good := by simpa using List.mem_takeWhile_imp (List.mem_of_mem_take hf)
    exact decide_eq_true ⟨hf.1, hf.2.1⟩
  have hsplit : logged turns fs =
      (front fs).take turns ++ ((fs.dropWhile (·.Good)).take (turns - (front fs).length)).filter (·.Logged) := by
    unfold logged
    conv_lhs => rw [← List.takeWhile_append_dropWhile (p := fun f : LogFrame => decide f.Good) (l := fs)]
    rw [List.take_append, List.filter_append]
    congr 1
    exact List.filter_eq_self.mpr hgood
  by_cases hle : (front fs).length ≤ turns
  · rw [List.take_of_length_le hle] at hsplit
    refine ⟨?_, Or.inl (List.drop_eq_nil_of_le hle)⟩
    rw [List.take_of_length_le hle]
    conv_rhs => rw [hsplit, List.drop_left]
    exact hsplit
  · have hnone : turns - (front fs).length = 0 := by omega
    rw [hnone, List.take_zero, List.filter_nil, List.append_nil] at hsplit
    have hdrop : (logged turns fs).drop (front fs).length = [] := by
      apply List.drop_eq_nil_of_le
      rw [hsplit, List.length_take]
      omega
    refine ⟨?_, Or.inr hdrop⟩
    rw [hdrop, List.append_nil]
    exact hsplit

end LogFrame

/-- The two folds are the same exactly if the rest of the frames repeats what the common ones have left. -/
theorem LogFrame.fold_eq_iff (fs : List LogFrame) (turns : Nat) :
    (mutations (front fs)).foldl Model.mutate (fun _ => none) =
        (mutations (logged turns fs)).foldl Model.mutate (fun _ => none) ↔
      Mutation.Repeats (mutations ((front fs).take turns))
        (mutations ((front fs).drop turns ++ (logged turns fs).drop (front fs).length)) := by
  rcases front_logged turns fs with ⟨hlogged, hone⟩
  have hfront := congrArg mutations (List.take_append_drop turns (front fs))
  have hlogged := congrArg mutations hlogged
  rw [mutations_append] at hfront hlogged
  rw [Mutation.repeats_iff, hlogged, ← hfront]
  rcases hone with hnone | hnone
  · rw [hnone, List.nil_append]
    show (_ ++ []).foldl _ _ = _ ↔ _
    rw [List.append_nil]
    exact eq_comm
  · rw [hnone, List.append_nil]
    show _ = (_ ++ []).foldl _ _ ↔ _
    rw [List.append_nil]

open LogFrame (front logged mutations)

namespace ReplayEngine

/-- Both readers return, and show the same map; or both return an error of the log. -/
def AgreesWithLog (e : ReplayEngine) (log : Bytes) : Prop :=
  (∃ result e' res, (rebuildAll (some log)).run e = .ok result e' ∧
    (WriteAheadLog.openFile log).replayFrom 0 = .ok res ∧
    ∀ key, e'.get key =
      (res.commitRecords.flatMap CommitRecord.mutations).foldl Model.mutate (fun _ => none) key) ∨
  (∃ err e' err', (rebuildAll (some log)).run e = .error (.log err) e' ∧
    (WriteAheadLog.openFile log).replayFrom 0 = .error err')

/-- **Readers.**  The engine and the replay of the log agree exactly if both decode what they read, nothing
is freed twice, and what only one of them reads leaves every key as it was; or if both meet a record that is
not decoded. -/
theorem agreesWithLog_iff {calls : List (Option Bytes × UInt64)} {e : ReplayEngine}
    (hreached : runCalls init calls = some e) (fs : List LogFrame) :
    e.AgreesWithLog (LogFrame.file fs) ↔
      ((∀ f ∈ front fs, f.Taken) ∧ (∀ f ∈ logged 1000 fs, f.record? ≠ none) ∧
        Mutation.Repeats (mutations ((front fs).take 1000))
          (mutations ((front fs).drop 1000 ++ (logged 1000 fs).drop (front fs).length))) ∨
      (LogFrame.Refused (front fs) ∧ ¬ ∀ f ∈ logged 1000 fs, f.record? ≠ none) := by
  have hshows := (keeps_init.runCalls hreached).shows_rebuildToTxnId (UInt64.ofNat (2 ^ 64 - 1)) fs
  rcases LogFrame.rebuilt_all fs {} with ⟨hok, hlog, hfree⟩
  rcases WriteAheadLog.replayLoop_file fs [] 1000 1 {} with ⟨hok', herror'⟩
  unfold AgreesWithLog rebuildAll WriteAheadLog.replayFrom WriteAheadLog.openFile WriteAheadLog.maxIterations
  rw [List.nil_append, List.length_nil] at hok' herror'
  by_cases htaken : ∀ f ∈ front fs, f.Taken
  · have hno := LogFrame.not_refused htaken
    rw [hok htaken] at hshows
    rcases hshows with ⟨result, e', hrun, -, hstate, -, -⟩
    rw [(Rebuilt.foldl_apply {} _).1] at hstate
    rw [hrun]
    by_cases hdecoded : ∀ f ∈ logged 1000 fs, f.record? ≠ none
    · rcases hok' hdecoded with ⟨res, hres, hrecords⟩
      rw [List.nil_append] at hrecords
      rw [hres, ← LogFrame.fold_eq_iff]
      have hagree : (∀ key, e'.get key =
          (res.commitRecords.flatMap CommitRecord.mutations).foldl Model.mutate (fun _ => none) key) ↔
          (mutations (front fs)).foldl Model.mutate (fun _ => none) =
            (mutations (logged 1000 fs)).foldl Model.mutate (fun _ => none) := by
        rw [← funext_iff, hrecords]
        show e'.state = _ ↔ _
        rw [hstate]
        rfl
      constructor
      · rintro (⟨_, _, _, hrun', hres', heq⟩ | ⟨_, _, _, hrun', -⟩)
        · cases hrun'
          cases hres'
          exact Or.inl ⟨htaken, hdecoded, hagree.mp heq⟩
        · cases hrun'
      · rintro (⟨-, -, heq⟩ | ⟨hrefused, -⟩)
        · exact Or.inl ⟨result, e', res, rfl, rfl, hagree.mpr heq⟩
        · exact absurd hrefused hno
    · rcases herror' hdecoded with ⟨err, herr⟩
      rw [herr]
      constructor
      · rintro (⟨_, _, _, -, hres, -⟩ | ⟨_, _, _, hrun', -⟩)
        · cases hres
        · cases hrun'
      · rintro (⟨-, hall, -⟩ | ⟨hrefused, -⟩)
        · exact absurd hall hdecoded
        · exact absurd hrefused hno
  · by_cases hrefused : LogFrame.Refused (front fs)
    · rcases hlog hrefused with ⟨err, herr⟩
      rw [herr] at hshows
      rcases hshows with ⟨e', hrun⟩
      rw [hrun]
      by_cases hdecoded : ∀ f ∈ logged 1000 fs, f.record? ≠ none
      · rcases hok' hdecoded with ⟨res, hres, -⟩
        rw [hres]
        constructor
        · rintro (⟨_, _, _, hrun', -⟩ | ⟨_, _, _, -, hres'⟩)
          · cases hrun'
          · cases hres'
        · rintro (⟨hall, -⟩ | ⟨-, hnot⟩)
          · exact absurd hall htaken
          · exact absurd hdecoded hnot
      · rcases herror' hdecoded with ⟨err', herr'⟩
        rw [herr']
        exact ⟨fun _ => Or.inr ⟨hrefused, hdecoded⟩, fun _ => Or.inr ⟨err, e', err', rfl, rfl⟩⟩
    · rw [hfree htaken hrefused] at hshows
      rcases hshows with ⟨e', hrun⟩
      rw [hrun]
      constructor
      · rintro (⟨_, _, _, hrun', -⟩ | ⟨_, _, _, hrun', -⟩)
        · cases hrun'
        · cases hrun'
      · rintro (⟨hall, -⟩ | ⟨hrefused', -⟩)
        · exact absurd hall htaken
        · exact absurd hrefused' hrefused

theorem agreesWithLog_two_puts : init.AgreesWithLog (LogFrame.file twoPuts) := by
  have hrecords : ∀ f ∈ twoPuts, ∃ r, f.record? = some r ∧ r.Harmless := by
    unfold twoPuts
    rw [List.forall_mem_cons, List.forall_mem_singleton]
    constructor
    · exact ⟨firstPut, LogFrame.record?_eq_some.mpr
        (LogFrame.carries_ofRecord 0 firstPut_accepted (by decide +kernel)).2, by decide⟩
    · exact ⟨secondPuts, LogFrame.record?_eq_some.mpr
        (LogFrame.carries_ofRecord 1 secondPuts_accepted (by decide +kernel)).2, by decide⟩
  have hfront : (front twoPuts).length = 2 := by decide +kernel
  have hlogged : (logged 1000 twoPuts).length = 2 := by decide +kernel
  have hreached : runCalls init [] = some init := rfl
  rw [agreesWithLog_iff hreached]
  left
  refine ⟨?_, ?_, ?_⟩
  · exact fun f hf => hrecords f ((List.takeWhile_sublist _).subset hf)
  · intro f hf hnone
    rcases hrecords f (List.mem_of_mem_take (List.mem_of_mem_filter hf)) with ⟨r, hr, -⟩
    rw [hnone] at hr
    cases hr
  · rw [List.drop_eq_nil_of_le (by omega), List.drop_eq_nil_of_le (by omega)]
    exact Mutation.repeats_nil _

def checkpoint : LogFrame where
  header :=
    { recordType := 1, flags := 0, txnId := 1, prevLsn := 1, payloadLen := 8, headerCrc32c := 0
      payloadCrc32c := Crc32.hash (u64 1) }
  payload := u64 1
  trailer := firstPut.frameTrailer
  magic := rfl
  payloadLen := by decide
  trailerLength := firstPut.length_frameTrailer

def withCheckpoint : List LogFrame :=
  [.ofRecord 0 firstPut firstPut_accepted, checkpoint, .ofRecord 2 secondPuts secondPuts_accepted]

/-- The engine stops at the checkpoint, and the replay of the log passes it. -/
theorem checkpoint_hides_the_rest : ¬ init.AgreesWithLog (LogFrame.file withCheckpoint) := by
  intro hagree
  have hengine : (match (rebuildAll (some (LogFrame.file withCheckpoint))).run init with
      | .ok _ e' => e'.get [7]
      | .error _ _ => none) = some [8] := by decide +kernel
  have hlog : (match (WriteAheadLog.openFile (LogFrame.file withCheckpoint)).replayFrom 0 with
      | .ok res => (res.commitRecords.flatMap CommitRecord.mutations).foldl Model.mutate (fun _ => none) [7]
      | .error _ => none) = some [9] := by decide +kernel
  rcases hagree with ⟨result, e', res, hrun, hres, hmap⟩ | ⟨err, e', err', hrun, -⟩
  · rw [hrun] at hengine
    rw [hres] at hlog
    have hseven : (some [8] : Option Bytes) = some [9] := hengine.symm.trans ((hmap [7]).trans hlog)
    exact absurd hseven (by decide)
  · rw [hrun] at hengine
    cases hengine

end ReplayEngine

end Northstar.Zig
