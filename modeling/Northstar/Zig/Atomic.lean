import Northstar.Zig.Isolation
import Northstar.Zig.Recovery

/-!
# Atomic — commits that fail or are stopped

The mutations are written to the tree before the record goes to the log and the root to a meta page.  Until
then the file opens with the committed root, so all turns on the pages that lookups from it read: the tree
is changed in place.
-/

namespace Northstar.Zig

open Bytes EStateM

namespace Db

/-- `get` of a new reader returns the value. -/
def Returns (db : Db) (key : Bytes) (value : Option Bytes) : Prop :=
  ∃ read fuel, db.beginReadLatest = .ok read ∧ read.get db fuel key = .ok value

/-- Every key has the value before. -/
def Unchanged (db db' : Db) : Prop := ∀ key value, db'.Returns key value ↔ db.Returns key value

/-- Every key has the value behind the mutations. -/
def Applied (mutations : List Mutation) (db db' : Db) : Prop :=
  ∀ key value, db.Returns key value → db'.Returns key (mutations.foldl Model.mutate (fun _ => value) key)

end Db

namespace FileState

/-- All of the mutations or none, and none as long as the log has no record of them. -/
def AllOrNothing (file : FileState) (mutations : List Mutation) (db : Db) (log : Bytes) (db' : Db) : Prop :=
  db.Unchanged db' ∨ log ≠ file.log ∧ Db.Applied mutations db db'

/-- The file that is left is opened, and the database has `P`; a part of a page may stand behind the last
one. -/
def Reopens (file : FileState) (P : Db → Prop) : Prop :=
  ∀ fileSize, fileSize / defaultPageSize = file.pager.pages.length →
    ∃ p, (∀ fuel, Pager.openPages (fuel + 2) file.pager.pages fileSize = some (.ok p)) ∧
      P (Db.openWithPager p file.log)

/-- The states between two writes of a commit; the last of its writes is the meta page. -/
def Between (file : FileState) (fuel txnId : Nat) (mutations : List Mutation) (stop : FileState) : Prop :=
  stop = file ∨ stop ∈ (prepareCommitT fuel txnId mutations).stops file

/-- A commit from `file` that fails or is stopped has all of its mutations or none. -/
structure Atomic (db : Db) (file : FileState) (fuel txnId : Nat) (mutations : List Mutation) : Prop where
  failed : ∀ e file', (executeTwoPhaseCommit fuel txnId mutations).run file = .error e file' →
    file.AllOrNothing mutations db file'.log { db with file := some file' } ∧
      file'.Reopens (file.AllOrNothing mutations db file'.log)
  stopped : ∀ stop, file.Between fuel txnId mutations stop →
    stop.Reopens (file.AllOrNothing mutations db stop.log)

end FileState

namespace Pager

open Traced (quiet write)

def PutFails (p : Pager) (fuel : Nat) (key value : Bytes) (txnId : Nat) : Prop :=
  p.getRootPageId ≠ 0 ∧ ∀ leaf above, p.findBtreePath fuel key = .ok (leaf, above) →
    ∃ e, e ≠ .leafFull ∧
      (copyOnWritePage leaf.2 txnId >>= fun copy => addEntryToBtreeLeaf copy key value) = .error e

def DeletesNothing (p : Pager) (fuel : Nat) (key : Bytes) (txnId : Nat) : Prop :=
  ∀ leaf above, p.findBtreePath fuel key = .ok (leaf, above) →
    ∀ value, getValueFromBtreeLeaf leaf.2 key = .ok (some value) →
      ∀ page, (copyOnWritePage leaf.2 txnId >>= fun copy => removeFromLeaf copy key) ≠ .ok (some page)

/-- The mutation ends before its first write. -/
def Idle (p : Pager) (fuel txnId : Nat) : Mutation → Prop
  | .put key value => p.PutFails fuel key value txnId
  | .delete key => p.DeletesNothing fuel key txnId

/-- Wherever the program is stopped and however it ends, nothing has been written. -/
def WritesNothing {α : Type} (x : PagerT α) (P : α → Prop) : Prop :=
  Traced.Along (fun _ => True) (fun p q => q = p) x P

section Idle

variable {α β : Type} {P : α → Prop} {Q : β → Prop} {p : Pager}

theorem WritesNothing.bind {x : PagerT α} {f : α → PagerT β} (hx : WritesNothing x P)
    (hf : ∀ a, P a → WritesNothing (f a) Q) : WritesNothing (x >>= f) Q :=
  Traced.Along.bind (fun _ _ => trivial) (fun hpq hqr => hqr.trans hpq) hx hf

theorem writesNothing_lift (x : Except PagerError α) : WritesNothing (quiet (EStateM.lift x)) (x = .ok ·) :=
  Traced.along_quiet fun _ _ => ends_lift (fun _ ha => ⟨rfl, ha⟩) (fun _ _ => rfl)

theorem writesNothing_throw (e : PagerError) (P : α → Prop) : WritesNothing (quiet (throw e)) P :=
  Traced.along_quiet fun p _ => ends_of_error (run_throw_any e p) rfl

theorem writesNothing_pure (a : α) (P : α → Prop) (h : P a) : WritesNothing (pure a) P :=
  Traced.along_quiet fun p _ => ends_of_ok (run_pure a p) ⟨rfl, h⟩

theorem writesNothing_get_bind {f : Pager → PagerT α} (h : WritesNothing (f p) P) :
    (∀ q ∈ (quiet get >>= f).stops p, q = p) ∧
      Ends (quiet get >>= f).erase p (fun _ q => q = p) (fun _ q => q = p) := by
  have hget : ((quiet get : PagerT Pager).erase).run p = .ok p p := run_get p
  unfold Ends
  rw [Traced.stops_bind_of_ok hget, Traced.erase_bind, run_bind_of_ok hget]
  rcases h p trivial with ⟨hstops, hends⟩
  exact ⟨hstops, hends.mono (fun _ _ hq => hq.1) (fun _ _ hq => hq)⟩

theorem idle_putBtreeValueT {fuel txnId : Nat} {key value : Bytes} (h : p.PutFails fuel key value txnId) :
    (∀ q ∈ (putBtreeValueT fuel key value txnId).stops p, q = p) ∧
      Ends (putBtreeValueT fuel key value txnId).erase p (fun _ q => q = p) (fun _ q => q = p) := by
  apply writesNothing_get_bind (P := fun _ => True)
  rw [if_neg h.1]
  apply (writesNothing_lift (p.findBtreePath fuel key)).bind
  rintro ⟨leaf, above⟩ hpath
  rcases h.2 leaf above hpath with ⟨e, hfull, hfails⟩
  apply (writesNothing_lift (copyOnWritePage leaf.2 txnId)).bind
  intro leafCopy hcopy
  rw [hcopy, Except.ok_bind] at hfails
  rw [hfails]
  cases e with
  | leafFull => exact absurd rfl hfull
  | _ => exact writesNothing_throw _ _

theorem idle_deleteBtreeValueT {fuel txnId : Nat} {key : Bytes} (h : p.DeletesNothing fuel key txnId) :
    (∀ q ∈ (deleteBtreeValueT fuel key txnId).stops p, q = p) ∧
      Ends (deleteBtreeValueT fuel key txnId).erase p (fun _ q => q = p) (fun _ q => q = p) := by
  apply writesNothing_get_bind (P := fun _ => True)
  by_cases hroot : p.getRootPageId = 0
  · rw [if_pos hroot]
    exact writesNothing_pure false _ trivial
  · rw [if_neg hroot]
    apply (writesNothing_lift (p.findBtreePath fuel key)).bind
    rintro ⟨leaf, above⟩ hpath
    apply (writesNothing_lift (getValueFromBtreeLeaf leaf.2 key)).bind
    intro found hfound
    cases found with
    | none => exact writesNothing_pure false _ trivial
    | some value =>
      apply (writesNothing_lift (copyOnWritePage leaf.2 txnId)).bind
      intro leafCopy hcopy
      apply (writesNothing_lift (removeFromLeaf leafCopy key)).bind
      intro removed hremoved
      cases removed with
      | none => exact writesNothing_pure false _ trivial
      | some page =>
        have hfails := h leaf above hpath value hfound page
        rw [hcopy, Except.ok_bind] at hfails
        exact absurd hremoved hfails

end Idle

/-- The meta pages, and the pages that lookups from the committed root read. -/
def Committed (p : Pager) (rootPageId pageId : Nat) : Prop := pageId < 2 ∨ p.Reads rootPageId pageId

/-- The mutation writes nothing, or it writes in place none of the pages of the set, and the allocator has
none of them. -/
def Harmless (S : Nat → Prop) (fuel txnId : Nat) (p : Pager) (mutation : Mutation) : Prop :=
  p.Idle fuel txnId mutation ∨ OutOfReach S p ∧ Avoids S fuel p mutation

end Pager

namespace FileState

open Zig.Pager
open Traced (quiet write)

variable {S : Nat → Prop} {fuel txnId : Nat} {mutations : List Mutation}

theorem idle_applyMutationT {p : Pager} {mutation : Mutation} (h : p.Idle fuel txnId mutation) :
    (∀ q ∈ (applyMutationT fuel txnId mutation).stops p, q = p) ∧
      Ends (applyMutationT fuel txnId mutation).erase p (fun _ q => q = p) (fun _ q => q = p) := by
  cases mutation with
  | put key value => exact idle_putBtreeValueT h
  | delete key =>
    rcases idle_deleteBtreeValueT h with ⟨hstops, hends⟩
    unfold applyMutationT
    rw [Traced.stops_bind_pure, Traced.erase_bind]
    exact ⟨hstops, hends.bind fun _ q _ hq => ends_of_ok (run_pure () q) hq⟩

theorem spares_applyMutationT {p : Pager} {mutation : Mutation} (h : Harmless S fuel txnId p mutation) :
    (∀ q ∈ (applyMutationT fuel txnId mutation).stops p, Spares S p q) ∧
      Ends (applyMutationT fuel txnId mutation).erase p (fun _ q => Spares S p q)
        (fun _ q => Spares S p q) := by
  rcases h with hidle | ⟨hout, havoids⟩
  · rcases idle_applyMutationT hidle with ⟨hstops, hends⟩
    have hsame : ∀ q, q = p → Spares S p q := by
      rintro q rfl
      exact .refl S q
    exact ⟨fun q hq => hsame q (hstops q hq), hends.mono (fun _ q => hsame q) fun _ q => hsame q⟩
  · exact spares_of_avoids havoids hout txnId

theorem spares_applyMutationsT {p : Pager}
    (hmeets : Meets (applyMutation fuel txnId) (Harmless S fuel txnId) mutations p) :
    (∀ q ∈ (Traced.forEach (applyMutationT fuel txnId) mutations).stops p, Spares S p q) ∧
      Ends (forEach (applyMutation fuel txnId) mutations) p (fun _ q => Spares S p q)
        (fun _ q => Spares S p q) := by
  have herase : (fun m => (applyMutationT fuel txnId m).erase) = applyMutation fuel txnId :=
    funext (erase_applyMutationT fuel txnId)
  rw [← Traced.erase_forEach (erase_applyMutationT fuel txnId) mutations]
  apply Traced.along_forEach (D := Harmless S fuel txnId) (Spares.refl S) Spares.trans
  · exact fun p mutation h => spares_applyMutationT h
  · rw [herase]
    exact hmeets

theorem pager_logRecordT (file : FileState) :
    ∀ stop ∈ (logRecordT txnId mutations file).stops file, stop.pager = file.pager := by
  let C : FileState → Prop := fun reached => reached.pager = file.pager
  have hlift : ∀ {α : Type} (x : Except PagerError α),
      Traced.Along C (fun _ => C) (quiet (EStateM.lift x) : FileT α) (x = .ok ·) :=
    fun _ => Traced.along_quiet fun _ hreached => ends_lift (fun _ ha => ⟨hreached, ha⟩) (fun _ _ => hreached)
  have halong : Traced.Along C (fun _ => C) (logRecordT txnId mutations file) (fun _ => True) := by
    apply Traced.Along.bind (C := C) (R := fun _ => C) (fun _ h => h) (fun _ h => h) (hlift _)
    intro record _
    apply Traced.Along.bind (C := C) (R := fun _ => C) (fun _ h => h) (fun _ h => h) (hlift _)
    intro frame _
    exact Traced.along_write fun reached _ => ends_of_ok (run_set _ reached) ⟨rfl, trivial⟩
  exact (halong file rfl).1

theorem spares_prepareCommitT {file : FileState}
    (hmeets : Meets (applyMutation fuel txnId) (Harmless S fuel txnId) mutations file.pager) :
    ∀ stop ∈ (prepareCommitT fuel txnId mutations).stops file, Spares S file.pager stop.pager := by
  rcases spares_applyMutationsT hmeets with ⟨hstops, hends⟩
  intro stop hstop
  have hmapped : ∀ stop ∈ (onPagerT (Traced.forEach (applyMutationT fuel txnId) mutations)).stops file,
      Spares S file.pager stop.pager := by
    intro stop hstop
    rcases List.mem_map.mp hstop with ⟨q, hq, rfl⟩
    exact hstops q hq
  have herase : (onPagerT (Traced.forEach (applyMutationT fuel txnId) mutations)).erase =
      onPager (forEach (applyMutation fuel txnId) mutations) := by
    unfold onPagerT onPager
    rw [Traced.erase_zoom, Traced.erase_forEach (erase_applyMutationT fuel txnId)]
  unfold prepareCommitT at hstop
  cases hrun : (forEach (applyMutation fuel txnId) mutations).run file.pager with
  | error e q =>
    have happly := congrArg (fun x => x.run file) herase
    rw [Traced.stops_bind_of_error (happly.trans (run_zoom_of_error hrun))] at hstop
    exact hmapped stop hstop
  | ok _ q =>
    have happly := congrArg (fun x => x.run file) herase
    have hget : ((quiet get : FileT FileState).erase).run { file with pager := q } =
        .ok { file with pager := q } { file with pager := q } := run_get _
    rw [Traced.stops_bind_of_ok (happly.trans (run_zoom_of_ok hrun)), Traced.stops_bind_of_ok hget] at hstop
    rcases List.mem_append.mp hstop with hstop | hstop
    · exact hmapped stop hstop
    · have hpager : stop.pager = q := pager_logRecordT { file with pager := q } stop hstop
      rw [hpager]
      exact hends.of_run_ok hrun

theorem ends_writePage_of_error (p : Pager) (pageId : Nat) (page : Page) :
    Ends (writePage pageId page) p (fun _ _ => True) (fun _ q => q = p) := by
  unfold Ends writePage
  cases hvalid : validatePage page with
  | error e =>
    rw [run_bind_of_error (run_lift_error e p)]
  | ok header =>
    rw [run_bind_of_ok (run_lift_ok header p)]
    by_cases hid : header.pageId ≠ pageId
    · rw [if_pos hid]
      rfl
    · rw [if_neg hid]
      by_cases hbeyond : pageId > p.pages.length
      · simp [hbeyond]
      · simp [hbeyond]

theorem ends_writeMeta_of_error (p : Pager) (txnId : Nat) :
    Ends (writeMeta txnId) p (fun _ _ => True) (fun _ q => q = p) := by
  unfold Ends writeMeta
  rw [run_bind_of_ok (run_get p)]
  cases hopposite : getOppositeMetaId p.currentMeta.pageId with
  | error e => rw [run_bind_of_error (run_lift_error e p)]
  | ok oppositeMetaId =>
    rw [run_bind_of_ok (run_lift_ok oppositeMetaId p)]
    exact (ends_writePage_of_error p oppositeMetaId _).bind fun _ _ _ _ => trivial

theorem ends_executeTwoPhaseCommit_of_error {file : FileState}
    (hmeets : Meets (applyMutation fuel txnId) (Harmless S fuel txnId) mutations file.pager) :
    Ends (executeTwoPhaseCommit fuel txnId mutations) file (fun _ _ => True)
      (fun _ file' => file'.registry = file.registry ∧ Spares S file.pager file'.pager) := by
  have hends := (spares_applyMutationsT hmeets).2
  unfold executeTwoPhaseCommit onPager
  cases hrun : (forEach (applyMutation fuel txnId) mutations).run file.pager with
  | error e q =>
    exact ends_of_error (run_bind_of_error (run_zoom_of_error hrun)) ⟨rfl, hends.of_run_error hrun⟩
  | ok _ q =>
    have hspares := hends.of_run_ok hrun
    unfold Ends
    rw [run_bind_of_ok (run_zoom_of_ok hrun), run_bind_of_ok (run_get _)]
    cases hrecord : createCommitRecord txnId q.getRootPageId mutations with
    | error e =>
      rw [run_bind_of_error (run_lift_error e _)]
      exact ⟨rfl, hspares⟩
    | ok record =>
      rw [run_bind_of_ok (run_lift_ok record _)]
      cases hframe : framedRecord record with
      | error e =>
        rw [run_bind_of_error (run_lift_error e _)]
        exact ⟨rfl, hspares⟩
      | ok frame =>
        rw [run_bind_of_ok (run_lift_ok frame _), run_bind_of_ok (run_set _ _)]
        cases hmeta : (writeMeta txnId).run q with
        | error e r =>
          rw [run_bind_of_error (run_zoom_of_error hmeta)]
          rw [(ends_writeMeta_of_error q txnId).of_run_error hmeta]
          exact ⟨rfl, hspares⟩
        | ok _ r =>
          rw [run_bind_of_ok (run_zoom_of_ok hmeta)]
          trivial

end FileState

namespace Pager

/-- The file opens with this root: it is the one of the meta page that is preferred, whatever is appended
to the file. -/
structure Anchored (p : Pager) (rootPageId : Nat) : Prop where
  preferred : ∃ m, m.payload.rootPageId = rootPageId ∧ m.payload.pageSize = defaultPageSize ∧
    ∀ fileSize, (rootPageId = 0 ∨ rootPageId < fileSize / defaultPageSize) → Preferred p.pages fileSize m
  bodies : ∀ pageId page, (pageId = metaAPageId ∨ pageId = metaBPageId) → p.pages[pageId]? = some page →
    page.body.length = Page.bodySize
  format : NoForeignFormat p.pages
  inFile : rootPageId = 0 ∨ rootPageId < p.pages.length
  root : RootReadable p.pages rootPageId

theorem preferred_congr {pages pages' : List Page} {fileSize : Nat} {m : MetaState}
    (hpages : ∀ pageId, pageId < 2 → pages'[pageId]? = pages[pageId]?)
    (h : Preferred pages fileSize m) : Preferred pages' fileSize m := by
  have hvalid : ∀ m', ValidMeta pages' fileSize m' ↔ ValidMeta pages fileSize m' := by
    intro m'
    apply and_congr_right
    intro hplace
    have hlt : m'.pageId < 2 := by
      rcases hplace with hid | hid
      · rw [hid]
        decide
      · rw [hid]
        decide
    rw [hpages m'.pageId hlt]
  exact ⟨(hvalid m).mpr h.1, fun m' hm' => h.2 m' ((hvalid m').mp hm')⟩

section Anchored

variable {p q : Pager} {rootPageId : Nat}

theorem committed_root (hroot : rootPageId ≠ 0) : Committed p rootPageId rootPageId := by
  right
  refine ⟨hroot, [], 1, ?_⟩
  unfold walk
  split
  · exact List.mem_cons_self ..
  · exact List.mem_cons_self ..

theorem Anchored.of_spares (h : Anchored p rootPageId) (hspares : Spares (Committed p rootPageId) p q) :
    Anchored q rootPageId := by
  have hmeta : ∀ pageId, pageId < 2 → q.pages[pageId]? = p.pages[pageId]? :=
    fun pageId hlt => hspares.pages pageId (Or.inl hlt)
  have hplace : ∀ pageId, pageId = metaAPageId ∨ pageId = metaBPageId →
      q.pages[pageId]? = p.pages[pageId]? := by
    rintro pageId (rfl | rfl)
    · exact hmeta metaAPageId (by decide)
    · exact hmeta metaBPageId (by decide)
  have hinFile : rootPageId = 0 ∨ rootPageId < q.pages.length := by
    rcases h.inFile with hzero | hlt
    · exact Or.inl hzero
    · by_cases hzero : rootPageId = 0
      · exact Or.inl hzero
      · have hsame := hspares.pages rootPageId (committed_root hzero)
        rw [List.getElem?_eq_getElem hlt] at hsame
        exact Or.inr (List.getElem?_eq_some_iff.mp hsame).1
  rcases h.preferred with ⟨m, hroot, hsize, hpreferred⟩
  refine ⟨⟨m, hroot, hsize, fun fileSize hfile => preferred_congr hmeta (hpreferred fileSize hfile)⟩,
    fun pageId page hid hpage => h.bodies pageId page hid (hplace pageId hid ▸ hpage),
    fun pageId page hid hpage => h.format pageId page hid (hplace pageId hid ▸ hpage), hinFile, ?_⟩
  by_cases hzero : rootPageId = 0
  · left
    omega
  · rcases h.root with hlt | hbehind | hpage
    · exact Or.inl hlt
    · rcases h.inFile with hno | hlt
      · exact absurd hno hzero
      · omega
    · right
      right
      rw [hspares.pages rootPageId (committed_root hzero)]
      exact hpage

theorem Anchored.openPages_eq (h : Anchored p rootPageId) {fileSize : Nat}
    (hfile : fileSize / defaultPageSize = p.pages.length) :
    ∃ q, (∀ fuel, openPages (fuel + 2) p.pages fileSize = some (.ok q)) ∧ q.getRootPageId = rootPageId ∧
      q.pages = p.pages := by
  rcases h.preferred with ⟨m, hroot, hsize, hpreferred⟩
  have hinside : rootPageId = 0 ∨ rootPageId < fileSize / defaultPageSize := by
    rw [hfile]
    exact h.inFile
  have hbest := (bestMeta_preferred h.bodies (hpreferred fileSize hinside)).1 h.format
  rw [if_neg (not_not.mpr hsize)] at hbest
  have hreadable : RootReadable p.pages m.payload.rootPageId := by
    rw [hroot]
    exact h.root
  rcases (initAllocator_iff ⟨p.pages, m, [], 0⟩).1 hreadable with ⟨q, ⟨hmeta, hpages⟩, hinit⟩
  refine ⟨q, fun fuel => ?_, ?_, hpages⟩
  · unfold openPages
    rw [hbest]
    exact hinit fuel
  · unfold getRootPageId
    rw [hmeta]
    exact hroot

end Anchored

end Pager

namespace Db

open Zig.Pager

variable {db db' : Db} {file file' : FileState} {key : Bytes} {value : Option Bytes}

theorem returns_iff (hfile : db.file = some file) : db.Returns key value ↔ ∃ fuel,
      orElse (file.pager.getBtreeValueAtRoot fuel key 4096 file.registry.currentRootPageId) none = .ok value := by
  have hread : db.beginReadLatest =
      .ok ⟨fun _ => none, file.registry.getCurrentTxnId, file.registry.getLatestSnapshot⟩ := by
    unfold beginReadLatest
    rw [hfile]
  unfold Returns ReadTxn.get
  rw [hread, hfile]
  constructor
  · rintro ⟨read, fuel, hread, hget⟩
    cases hread
    exact ⟨fuel, hget⟩
  · rintro ⟨fuel, hget⟩
    exact ⟨_, fuel, rfl, hget⟩

theorem unchanged_of_pages (hfile : db.file = some file) (hfile' : db'.file = some file')
    (hroot : file'.registry.currentRootPageId = file.registry.currentRootPageId)
    (hpages : ∀ pageId, file.pager.Reads file.registry.currentRootPageId pageId →
      file'.pager.pages[pageId]? = file.pager.pages[pageId]?) : db.Unchanged db' := by
  intro key value
  rw [returns_iff hfile, returns_iff hfile', hroot]
  have hsame : ∀ fuel, file'.pager.getBtreeValueAtRoot fuel key 4096 file.registry.currentRootPageId =
      file.pager.getBtreeValueAtRoot fuel key 4096 file.registry.currentRootPageId := by
    intro fuel
    unfold getBtreeValueAtRoot
    by_cases hzero : file.registry.currentRootPageId = 0
    · rw [if_pos hzero, if_pos hzero]
    · rw [if_neg hzero, if_neg hzero]
      exact getValueFrom_congr fun pageId hwalk => hpages pageId ⟨hzero, key, fuel, hwalk⟩
  simp only [hsame]

end Db

namespace FileState

open Zig.Pager

variable {db : Db} {file : FileState} {fuel txnId : Nat} {mutations : List Mutation}

theorem unchanged_reopened (hfile : db.file = some file)
    (hanchored : file.pager.Anchored file.registry.currentRootPageId) {stop : FileState}
    (hspares : Spares (file.pager.Committed file.registry.currentRootPageId) file.pager stop.pager) :
    stop.Reopens db.Unchanged := by
  intro fileSize hsize
  rcases (hanchored.of_spares hspares).openPages_eq hsize with ⟨p, hopen, hroot, hpages⟩
  have hreopened : (Db.openWithPager p stop.log).file =
      some ⟨p, .init p.getCommittedTxnId p.getRootPageId, stop.log⟩ := rfl
  refine ⟨p, hopen, Db.unchanged_of_pages hfile hreopened hroot fun pageId hread => ?_⟩
  rw [hpages]
  exact hspares.pages pageId (Or.inr hread)

/-- **Atomicity.**  A commit that fails or is stopped has changed nothing if the file opens with the
committed root, and if every mutation writes nothing or writes in place neither a meta page nor a page that
lookups from the committed root read, with none of these left to the allocator. -/
theorem atomic_of_harmless (db : Db) (file : FileState) (hfile : db.file = some file) (fuel txnId : Nat)
    (mutations : List Mutation) (hanchored : file.pager.Anchored file.registry.currentRootPageId)
    (hmeets : Meets (applyMutation fuel txnId)
      (Harmless (file.pager.Committed file.registry.currentRootPageId) fuel txnId) mutations file.pager) :
    Atomic db file fuel txnId mutations := by
  have hreopens : ∀ stop : FileState,
      Spares (file.pager.Committed file.registry.currentRootPageId) file.pager stop.pager →
        stop.Reopens (file.AllOrNothing mutations db stop.log) := by
    intro stop hspares fileSize hsize
    rcases unchanged_reopened hfile hanchored hspares fileSize hsize with ⟨p, hopen, hunchanged⟩
    exact ⟨p, hopen, Or.inl hunchanged⟩
  constructor
  · intro e file' hrun
    rcases (ends_executeTwoPhaseCommit_of_error hmeets).of_run_error hrun with ⟨hregistry, hspares⟩
    have hleft : { db with file := some file' }.file = some file' := rfl
    have hroot : file'.registry.currentRootPageId = file.registry.currentRootPageId := by rw [hregistry]
    refine ⟨Or.inl (Db.unchanged_of_pages hfile hleft hroot fun pageId hread => ?_), hreopens file' hspares⟩
    exact hspares.pages pageId (Or.inr hread)
  · rintro stop (rfl | hstop)
    · exact hreopens stop (.refl _ _)
    · exact hreopens stop (spares_prepareCommitT hmeets stop hstop)

/-! ### The first commit of a new file -/

theorem not_foreign_of_decode {page : Page} {pageId : Nat} {m : MetaState}
    (hbody : page.body.length = Page.bodySize) (hdecode : decodeMetaPage page pageId = .ok m) :
    ¬ ForeignFormat page pageId := by
  intro hforeign
  have habsent := absentOrElse_decode hbody pageId
  rw [hdecode, if_pos hforeign] at habsent
  cases habsent

theorem anchored_create : Pager.create.Anchored 0 := by
  have hbody : ∀ pageId m, (encodeMetaPage pageId m).body.length = Page.bodySize := by
    intro pageId m
    show (MetaPayload.encode _ ++ List.replicate _ _).length = _
    rw [List.length_append, MetaPayload.length_encode, List.length_replicate]
    rfl
  have hdecode : ∀ pageId, (pageId = metaAPageId ∨ pageId = metaBPageId) →
      ∃ page m, Pager.create.pages[pageId]? = some page ∧ page.body.length = Page.bodySize ∧
        decodeMetaPage page pageId = .ok m ∧ m.payload = Pager.create.currentMeta.payload ∧
        (pageId = metaAPageId → m = Pager.create.currentMeta) := by
    rintro pageId (rfl | rfl)
    · refine ⟨_, _, rfl, hbody .., decodeMetaPage_encodeMetaPage rfl rfl ?_ _, rfl, fun _ => rfl⟩
      exact ⟨by decide, by decide, by decide, by decide, by decide⟩
    · refine ⟨_, _, rfl, hbody .., decodeMetaPage_encodeMetaPage rfl rfl ?_ _, rfl, fun hno => absurd hno ?_⟩
      · exact ⟨by decide, by decide, by decide, by decide, by decide⟩
      · decide
  rcases hdecode metaAPageId (Or.inl rfl) with ⟨first, m, hfirst, _, hm, _, hsame⟩
  have hvalid : ∀ fileSize, ValidMeta Pager.create.pages fileSize Pager.create.currentMeta := by
    intro fileSize
    have hdecoded : decodeMetaPage first metaAPageId = .ok Pager.create.currentMeta := by
      rw [← hsame rfl]
      exact hm
    refine ⟨Or.inl rfl, ⟨first, hfirst, hdecoded⟩, ?_⟩
    unfold MetaState.isTornWrite
    by_cases hsmall : fileSize < defaultPageSize * 3
    · rw [if_pos hsmall]
    · rw [if_neg hsmall]
      rfl
  refine ⟨⟨Pager.create.currentMeta, rfl, rfl, fun fileSize _ => ⟨hvalid fileSize, fun m' hm' => ?_⟩⟩,
    fun pageId page hid hpage => ?_, fun pageId page hid hpage => ?_, Or.inl rfl, Or.inl (by decide)⟩
  · -- both meta pages are of one transaction
    right
    right
    rcases hm' with ⟨hid, ⟨page, hpage, hdecoded⟩, -⟩
    rcases hdecode m'.pageId hid with ⟨page', m'', hpage', _, hdecoded', hpayload, _⟩
    rw [hpage] at hpage'
    cases hpage'
    rw [hdecoded] at hdecoded'
    cases hdecoded'
    exact ⟨rfl, by rw [hpayload]⟩
  · rcases hdecode pageId hid with ⟨page', _, hpage', hlength, _⟩
    rw [hpage] at hpage'
    cases hpage'
    exact hlength
  · rcases hdecode pageId hid with ⟨page', _, hpage', hlength, hdecoded, _⟩
    rw [hpage] at hpage'
    cases hpage'
    exact not_foreign_of_decode hlength hdecoded

/-- Apart from the meta pages, one leaf is all that the mutations write. -/
theorem harmless_of_oneLeaf {S : Nat → Prop} {p : Pager} {es : List (Nat × BtreeLeafEntry)} (h : OneLeaf p es)
    (hmeta : ∀ pageId, S pageId → pageId < 2) (fuel txnId : Nat) (m : Mutation) :
    p.Harmless S (fuel + 1) txnId m := by
  refine Or.inr ⟨fun pageId hread => ?_, ?_⟩
  · have hlt := (hmeta pageId hread).trans_le h.pages
    rw [h.free, h.last]
    exact ⟨List.not_mem_nil, hlt, hlt⟩
  · have havoids : ∀ key, PathAvoids S p (fuel + 1) key := by
      intro key leaf above hpath x hx hread
      rcases h.tree with ⟨hzero, -⟩ | ⟨htwo, -⟩
      · -- the tree is empty, and there is no path
        have hempty : p.findBtreePath (fuel + 1) key = .error .treeEmpty := if_pos hzero
        cases hempty.symm.trans hpath
      · rcases (h.rootLeaf (by omega)).findBtreePath_eq fuel key with ⟨page, hroot, -⟩
        cases hroot.symm.trans hpath
        have hlow := hmeta _ hread
        rw [List.mem_singleton.mp hx] at hlow
        exact absurd htwo (Nat.ne_of_lt hlow)
    cases m with
    | put key => exact havoids key
    | delete key => exact Or.inr (havoids key)

theorem atomic_first_commit :
    Atomic (Db.openWithPager Pager.create []) ⟨Pager.create, .init 0 0, []⟩ 1 1
      [.put [1] [10], .put [2] [20], .delete [3]] := by
  have hmeta : ∀ pageId, Committed Pager.create 0 pageId → pageId < 2 := by
    rintro pageId (hlt | ⟨hno, -⟩)
    · exact hlt
    · exact absurd rfl hno
  have hempty : OneLeaf Pager.create [] := ⟨rfl, rfl, Nat.le_refl _, Nat.zero_le _, .inl ⟨rfl, rfl, rfl⟩⟩
  apply atomic_of_harmless (Db.openWithPager Pager.create []) ⟨Pager.create, .init 0 0, []⟩ rfl 1 1 _ anchored_create
  refine ⟨harmless_of_oneLeaf hempty hmeta 0 1 _, fun p₁ hfirst => ?_⟩
  rcases hempty.run_applyMutation .nil (show Contents.Plain [] (.put [1] [10]) by decide) 0 1 with
    ⟨_, es₁, hrun₁, hone₁, hpacked₁, -⟩
  cases hrun₁.symm.trans hfirst
  refine ⟨harmless_of_oneLeaf hone₁ hmeta 0 1 _, fun p₂ hsecond => ?_⟩
  rcases hone₁.run_applyMutation hpacked₁ (show Contents.Plain [([1], [10])] (.put [2] [20]) by decide) 0 1 with
    ⟨_, es₂, hrun₂, hone₂, -⟩
  cases hrun₂.symm.trans hsecond
  exact ⟨harmless_of_oneLeaf hone₂ hmeta 0 1 _, fun _ _ => trivial⟩

/-! ### A commit whose record does not fit -/

theorem framedRecord_of_unfit {record : CommitRecord} (hunfit : ¬ ∀ m ∈ record.mutations, m.Fits) :
    ∃ e, framedRecord record = .error e := by
  have hserialize : ∃ e, record.serialize = .error e := by
    cases hrun : record.serialize with
    | error e => exact ⟨e, rfl⟩
    | ok b => exact absurd ((CommitRecord.serialize_eq_ok_iff record b).mp hrun).2.1 hunfit
  rcases hserialize with ⟨e, hserialize⟩
  have happend : ∃ e, WriteAheadLog.create.appendCommitRecord record = .error e := by
    unfold WriteAheadLog.appendCommitRecord
    cases record.validateChecksum with
    | error e' => exact ⟨e', rfl⟩
    | ok valid =>
      rw [Except.ok_bind]
      by_cases hvalid : ¬ valid
      · rw [if_pos hvalid]
        exact ⟨_, rfl⟩
      · rw [if_neg hvalid, hserialize]
        exact ⟨e, rfl⟩
  rcases happend with ⟨e', happend⟩
  unfold framedRecord
  rw [happend]
  exact ⟨_, rfl⟩

theorem run_executeTwoPhaseCommit_of_unfit {q : Pager}
    (happly : (forEach (applyMutation fuel txnId) mutations).run file.pager = .ok () q)
    (hunfit : ¬ ∀ m ∈ mutations, m.Fits) :
    ∃ e, (executeTwoPhaseCommit fuel txnId mutations).run file = .error e { file with pager := q } := by
  unfold executeTwoPhaseCommit onPager
  rw [run_bind_of_ok (run_zoom_of_ok happly), run_bind_of_ok (run_get _)]
  cases hrecord : createCommitRecord txnId q.getRootPageId mutations with
  | error e => exact ⟨e, run_bind_of_error (run_lift_error e _)⟩
  | ok record =>
    have hmutations : record.mutations = mutations := by
      unfold createCommitRecord at hrecord
      dsimp only at hrecord
      split at hrecord
      · cases hrecord
        rfl
      · cases hrecord
    rw [← hmutations] at hunfit
    rcases framedRecord_of_unfit hunfit with ⟨e, hframe⟩
    rw [run_bind_of_ok (run_lift_ok record _), hframe]
    exact ⟨e, run_bind_of_error (run_lift_error e _)⟩

/-- The key is too long for the log, and the put in front of it can be read when the commit has failed. -/
theorem failed_commit_is_seen : ∃ (db : Db) (file : FileState),
      (Db.runTxns 1 [[.put [1] [10]]]).run (Db.openWithPager Pager.create []) = .ok () db ∧
      db.file = some file ∧
      ¬ Atomic db file 1 2 [.put [2] [20], .delete (List.replicate 5000 0)] := by
  rcases Db.exists_onePut with ⟨db, inMemory, file, es, hrun, h⟩
  refine ⟨db, file, hrun, h.has_file, fun hatomic => ?_⟩
  have hlong : ∀ key : Bytes, key.length < 5000 → key ≠ List.replicate 5000 0 := by
    rintro key hlt rfl
    rw [List.length_replicate] at hlt
    exact Nat.lt_irrefl _ hlt
  have hplain : Contents.PlainRun [([1], [10])] [.put [2] [20], .delete (List.replicate 5000 0)] := by
    refine ⟨by decide, Or.inl ?_, trivial⟩
    show ∀ e ∈ [(([1], [10]) : Bytes × Bytes), ([2], [20])], e.1 ≠ List.replicate 5000 0
    rw [List.forall_mem_cons, List.forall_mem_singleton]
    exact ⟨hlong _ (by decide), hlong _ (by decide)⟩
  have hunfit : ¬ ∀ m ∈ [Mutation.put [2] [20], .delete (List.replicate 5000 0)], m.Fits := by
    intro hfits
    have hkey := (hfits _ (List.mem_cons_of_mem _ (List.mem_singleton_self _))).1
    unfold Mutation.getKey at hkey
    dsimp only at hkey
    rw [List.length_replicate] at hkey
    exact absurd hkey (by decide)
  rcases h.oneLeaf.run_applyMutations h.packed hplain 0 2 with ⟨q, es', happly, hone, hpacked, hmap⟩
  rcases run_executeTwoPhaseCommit_of_unfit happly hunfit with ⟨e, hfailed⟩
  have hbefore : leafMap es [2] = none := by
    unfold leafMap
    rw [SortedEntries.lookup_eq_none (h.packed.absent (by decide))]
    rfl
  have hafter : leafMap es' [2] = some [20] := by
    rw [hmap]
    show Function.update (Function.update (leafMap es) [2] (some [20])) (List.replicate 5000 0) none [2] = _
    rw [Function.update_of_ne (hlong _ (by decide)), Function.update_self]
  -- the tree has been its root, and still is
  have hroot : file.pager.getRootPageId = 2 := by
    have hone' : leafMap es [1] = some [10] :=
      h.packed.leafMap_of_mem h.oneLeaf.sorted (List.mem_singleton_self _)
    rcases h.oneLeaf.tree with ⟨_, rfl, _⟩ | ⟨htwo, _⟩
    · cases hone'
    · exact htwo
  have hroot' : q.getRootPageId = 2 := by
    rcases hone.tree with ⟨_, rfl, _⟩ | ⟨htwo, _⟩
    · cases hafter
    · exact htwo
  have hnotThere : ¬ db.Returns [2] (some [20]) := by
    rw [Db.returns_iff h.has_file, h.root]
    rintro ⟨fuel, hget⟩
    cases fuel with
    | zero =>
      unfold getBtreeValueAtRoot at hget
      rw [if_neg (by rw [hroot]; decide)] at hget
      cases hget
    | succ fuel =>
      rw [h.oneLeaf.getBtreeValueAtRoot_eq, hbefore] at hget
      cases hget
  have hthere : Db.Returns { db with file := some { file with pager := q } } [2] (some [20]) := by
    apply (Db.returns_iff rfl).mpr
    refine ⟨1, ?_⟩
    show orElse (q.getBtreeValueAtRoot 1 [2] 4096 file.registry.currentRootPageId) none = _
    rw [h.root, hroot, ← hroot', hone.getBtreeValueAtRoot_eq, hafter]
    rfl
  rcases (hatomic.failed e _ hfailed).1 with hunchanged | ⟨hlog, -⟩
  · exact hnotThere ((hunchanged [2] (some [20])).mp hthere)
  · exact hlog rfl

end FileState

end Northstar.Zig
