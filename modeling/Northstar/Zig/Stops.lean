import Northstar.Zig.Spare

/-!
# Stops — the pages between two writes

Puts, deletes and commits again, with the state behind each of their writes.  What a program spares, it spares
at every stop.  An allocation that takes a page from the free list is noted as well, although it writes
nothing.
-/

namespace Northstar.Zig

open Bytes EStateM

abbrev PagerT := Traced PagerError Pager

variable {p : Pager}

namespace Pager

open Traced (quiet write erase_bind erase_quiet erase_write erase_pure)

def splitLeafNodeT (leaf : Page) (txnId : Nat) : PagerT SplitResult := do
  let rightPageId ← write allocatePage
  let (left, right, separatorKey) ← quiet (EStateM.lift (splitLeaf leaf rightPageId txnId))
  write (writePage left.header.pageId left)
  write (writePage rightPageId right)
  return ⟨left.header.pageId, rightPageId, separatorKey⟩

def copyUpT (txnId : Nat) : List (Nat × Page) → PagerT Unit
  | [] => pure ()
  | (pageId, page) :: rest => do
    let copy ← quiet (EStateM.lift (copyOnWritePage page txnId))
    write (writePage pageId copy)
    copyUpT txnId rest

def growRootT (split : SplitResult) (txnId : Nat) : PagerT Unit := do
  let newRootId ← write allocatePage
  let root ← quiet (EStateM.lift do
    let empty ← createEmptyBtreeInternal newRootId 1 txnId 0 split.leftPageId
    let payloadGrowth := 8 + 2 + split.separatorKey.length
    let body ← BtreeInternalPayload.addChildExpand empty.body empty.header.payloadLen split.separatorKey
      split.rightPageId payloadGrowth
    return Page.rehash
      { empty with header := { empty.header with payloadLen := empty.header.payloadLen + payloadGrowth },
                   body })
  write (writePage newRootId root)
  quiet (modify (·.setRootPageId newRootId))

def insertIntoParentT (split : SplitResult) (leafPageId txnId : Nat) (parent : Nat × Page)
    (rest : List (Nat × Page)) : PagerT Unit := do
  let copy ← quiet (EStateM.lift (copyOnWritePage parent.2 txnId))
  match insertIntoInternalNode copy split.separatorKey split.rightPageId with
  | .ok copy =>
    let copy ← quiet (EStateM.lift (relinkParent copy leafPageId split.leftPageId))
    write (writePage parent.1 copy)
    copyUpT txnId rest
  | .error .internalNodeFull => write (discard (splitInternalNode copy txnId))
  | .error .panic => quiet (throw .panic)
  | .error _ => quiet (throw .leafFull)

def splitAndPutT (key value : Bytes) (txnId : Nat) (leaf : Nat × Page) (leafCopy : Page)
    (above : List (Nat × Page)) : PagerT Unit := do
  let split ← splitLeafNodeT leafCopy txnId
  if key < split.separatorKey then write (addToHalf split.leftPageId key value)
  else write (addToHalf split.rightPageId key value)
  match above with
  | [] => growRootT split txnId
  | parent :: rest => insertIntoParentT split leaf.1 txnId parent rest

def putBtreeValueT (fuel : Nat) (key value : Bytes) (txnId : Nat) : PagerT Unit := do
  let p ← quiet get
  if p.getRootPageId = 0 then
    let newRootId ← write allocatePage
    let page ← quiet (EStateM.lift (addEntryToBtreeLeaf (createEmptyBtreeLeaf newRootId txnId 0) key value))
    write (writePage newRootId page)
    quiet (modify (·.setRootPageId newRootId))
  else
    let (leaf, above) ← quiet (EStateM.lift (p.findBtreePath fuel key))
    let leafCopy ← quiet (EStateM.lift (copyOnWritePage leaf.2 txnId))
    match addEntryToBtreeLeaf leafCopy key value with
    | .ok page =>
      write (writePage leaf.1 page)
      copyUpT txnId above
    | .error .leafFull => splitAndPutT key value txnId leaf leafCopy above
    | .error e => quiet (throw e)

def deleteBtreeValueT (fuel : Nat) (key : Bytes) (txnId : Nat) : PagerT Bool := do
  let p ← quiet get
  if p.getRootPageId = 0 then return false
  else
    let (leaf, above) ← quiet (EStateM.lift (p.findBtreePath fuel key))
    match ← quiet (EStateM.lift (getValueFromBtreeLeaf leaf.2 key)) with
    | none => return false
    | some _ =>
      let leafCopy ← quiet (EStateM.lift (copyOnWritePage leaf.2 txnId))
      match ← quiet (EStateM.lift (removeFromLeaf leafCopy key)) with
      | none => return false
      | some page =>
        write (writePage leaf.1 page)
        copyUpT txnId above
        return true

theorem erase_splitLeafNodeT (leaf : Page) (txnId : Nat) :
    (splitLeafNodeT leaf txnId).erase = splitLeafNode leaf txnId := by
  unfold splitLeafNodeT splitLeafNode
  simp only [erase_bind, erase_quiet, erase_write, erase_pure]

theorem erase_copyUpT (txnId : Nat) (path : List (Nat × Page)) :
    (copyUpT txnId path).erase = copyUp txnId path := by
  induction path with
  | nil => rfl
  | cons head rest ih =>
    rw [copyUpT, copyUp]
    simp only [erase_bind, erase_quiet, erase_write, ih]

theorem erase_growRootT (split : SplitResult) (txnId : Nat) :
    (growRootT split txnId).erase = growRoot split txnId := by
  unfold growRootT growRoot
  rw [erase_bind, erase_write]
  congr 1
  funext newRootId
  rw [erase_bind, erase_quiet]
  congr 1
  funext root
  rw [erase_bind, erase_write]
  rfl

theorem erase_insertIntoParentT (split : SplitResult) (leafPageId txnId : Nat) (parent : Nat × Page)
    (rest : List (Nat × Page)) :
    (insertIntoParentT split leafPageId txnId parent rest).erase =
      insertIntoParent split leafPageId txnId parent rest := by
  unfold insertIntoParentT insertIntoParent
  rw [erase_bind]
  congr 1
  funext copy
  cases insertIntoInternalNode copy split.separatorKey split.rightPageId with
  | ok copy => simp only [erase_bind, erase_quiet, erase_write, erase_copyUpT]
  | error e =>
    cases e with
    | internalNodeFull => exact erase_write (discard (splitInternalNode copy txnId))
    | _ => exact erase_quiet (throw _)

theorem erase_splitAndPutT (key value : Bytes) (txnId : Nat) (leaf : Nat × Page) (leafCopy : Page)
    (above : List (Nat × Page)) :
    (splitAndPutT key value txnId leaf leafCopy above).erase =
      splitAndPut key value txnId leaf leafCopy above := by
  unfold splitAndPutT splitAndPut
  rw [erase_bind, erase_splitLeafNodeT]
  congr 1
  funext split
  have hrest : (match above with
      | [] => growRootT split txnId
      | parent :: rest => insertIntoParentT split leaf.1 txnId parent rest).erase =
      match above with
      | [] => growRoot split txnId
      | parent :: rest => insertIntoParent split leaf.1 txnId parent rest := by
    cases above with
    | nil => exact erase_growRootT split txnId
    | cons parent rest => exact erase_insertIntoParentT split leaf.1 txnId parent rest
  by_cases hlt : key < split.separatorKey
  · rw [if_pos hlt, if_pos hlt, erase_bind, erase_write]
    congr 1
    funext _
    exact hrest
  · rw [if_neg hlt, if_neg hlt, erase_bind, erase_write]
    congr 1
    funext _
    exact hrest

theorem erase_putBtreeValueT (fuel : Nat) (key value : Bytes) (txnId : Nat) :
    (putBtreeValueT fuel key value txnId).erase = putBtreeValue fuel key value txnId := by
  unfold putBtreeValueT putBtreeValue
  rw [erase_bind]
  congr 1
  funext p
  by_cases hroot : p.getRootPageId = 0
  · rw [if_pos hroot, if_pos hroot]
    simp only [erase_bind, erase_quiet, erase_write]
  · rw [if_neg hroot, if_neg hroot, erase_bind]
    congr 1
    funext path
    rw [erase_bind]
    congr 1
    funext leafCopy
    cases addEntryToBtreeLeaf leafCopy key value with
    | ok page => simp only [erase_bind, erase_write, erase_copyUpT]
    | error e =>
      cases e with
      | leafFull => exact erase_splitAndPutT ..
      | _ => exact erase_quiet (throw _)

theorem erase_deleteBtreeValueT (fuel : Nat) (key : Bytes) (txnId : Nat) :
    (deleteBtreeValueT fuel key txnId).erase = deleteBtreeValue fuel key txnId := by
  unfold deleteBtreeValueT deleteBtreeValue
  rw [erase_bind]
  congr 1
  funext p
  by_cases hroot : p.getRootPageId = 0
  · rw [if_pos hroot, if_pos hroot]
    rfl
  · rw [if_neg hroot, if_neg hroot, erase_bind]
    congr 1
    funext path
    rw [erase_bind]
    congr 1
    funext found
    cases found with
    | none => rfl
    | some value =>
      dsimp only
      rw [erase_bind]
      congr 1
      funext leafCopy
      rw [erase_bind]
      congr 1
      funext removed
      cases removed with
      | none => rfl
      | some page => simp only [erase_bind, erase_write, erase_copyUpT, erase_pure]

/-- Whatever the outcome and wherever the program is stopped, the set is spared. -/
def SparingT {α : Type} (S : Nat → Prop) (x : PagerT α) (P : α → Prop) : Prop :=
  Traced.Along (OutOfReach S) (Spares S) x P

section Sparing

variable {α β : Type} {S : Nat → Prop} {P : α → Prop} {Q : β → Prop}

theorem SparingT.bind {x : PagerT α} {f : α → PagerT β} (hx : SparingT S x P)
    (hf : ∀ a, P a → SparingT S (f a) Q) : SparingT S (x >>= f) Q :=
  Traced.Along.bind (fun hout hspares => hspares.outOfReach hout) Spares.trans hx hf

theorem SparingT.mono {P' : α → Prop} {x : PagerT α} (hx : SparingT S x P) (h : ∀ a, P a → P' a) :
    SparingT S x P' :=
  Traced.Along.mono hx h

theorem Sparing.quiet {x : PagerM α} (hx : Sparing S x P) : SparingT S (quiet x) P := Traced.along_quiet hx

theorem Sparing.write {x : PagerM α} (hx : Sparing S x P) : SparingT S (write x) P := Traced.along_write hx

theorem sparingT_lift (x : Except PagerError α) : SparingT S (quiet (EStateM.lift x)) (x = .ok ·) :=
  (sparing_lift x).quiet

theorem sparingT_throw (e : PagerError) (P : α → Prop) : SparingT S (quiet (throw e)) P :=
  (sparing_throw e P).quiet

theorem sparingT_pure (a : α) (P : α → Prop) (h : P a) : SparingT S (pure a) P :=
  (sparing_pure a).quiet.mono fun _ heq => heq ▸ h

theorem sparingT_copyUpT (txnId : Nat) {path : List (Nat × Page)} (hpath : ∀ x ∈ path, ¬ S x.1) :
    SparingT S (copyUpT txnId path) (fun _ => True) := by
  induction path with
  | nil => exact sparingT_pure () _ trivial
  | cons head rest ih =>
    rcases head with ⟨pageId, page⟩
    apply (sparingT_lift (copyOnWritePage page txnId)).bind
    intro copy _
    apply (sparing_writePage (hpath _ (List.mem_cons_self ..)) copy).write.bind
    intro _ _
    exact ih fun x hx => hpath x (List.mem_cons_of_mem _ hx)

theorem sparingT_splitLeafNodeT {leaf : Page} (hS : ¬ S leaf.header.pageId) (txnId : Nat) :
    SparingT S (splitLeafNodeT leaf txnId) (fun split => ¬ S split.leftPageId ∧ ¬ S split.rightPageId) := by
  apply sparing_allocatePage.write.bind
  intro rightPageId hright
  apply (sparingT_lift (splitLeaf leaf rightPageId txnId)).bind
  rintro ⟨left, right, separatorKey⟩ hsplit
  have hleft : ¬ S left.header.pageId := by
    rw [pageId_splitLeaf hsplit]
    exact hS
  apply (sparing_writePage hleft left).write.bind
  intro _ _
  apply (sparing_writePage hright right).write.bind
  intro _ _
  exact sparingT_pure _ _ ⟨hleft, hright⟩

theorem sparingT_growRootT (split : SplitResult) (txnId : Nat) :
    SparingT S (growRootT split txnId) (fun _ => True) := by
  apply sparing_allocatePage.write.bind
  intro newRootId hroot
  apply (sparingT_lift _).bind
  intro root _
  apply (sparing_writePage hroot root).write.bind
  intro _ _
  exact (sparing_setRootPageId newRootId).quiet

theorem sparingT_insertIntoParentT (split : SplitResult) (leafPageId txnId : Nat) {parent : Nat × Page}
    {rest : List (Nat × Page)} (hpath : ∀ x ∈ parent :: rest, ¬ S x.1) :
    SparingT S (insertIntoParentT split leafPageId txnId parent rest) (fun _ => True) := by
  apply (sparingT_lift (copyOnWritePage parent.2 txnId)).bind
  intro copy _
  split
  · apply (sparingT_lift _).bind
    intro copy _
    apply (sparing_writePage (hpath _ (List.mem_cons_self ..)) copy).write.bind
    intro _ _
    exact sparingT_copyUpT txnId fun x hx => hpath x (List.mem_cons_of_mem _ hx)
  · have hdiscard : Sparing S (discard (splitInternalNode copy txnId)) (fun _ => True) := by
      apply (sparing_splitInternalNode copy txnId).bind
      intro _ _
      exact (sparing_pure ()).mono fun _ _ => trivial
    exact hdiscard.write
  · exact sparingT_throw _ _
  · exact sparingT_throw _ _

theorem sparingT_splitAndPutT (key value : Bytes) (txnId : Nat) {leaf : Nat × Page} {leafCopy : Page}
    {above : List (Nat × Page)} (hpath : ∀ x ∈ leaf :: above, ¬ S x.1)
    (hcopy : leafCopy.header.pageId = leaf.1) :
    SparingT S (splitAndPutT key value txnId leaf leafCopy above) (fun _ => True) := by
  have hleaf : ¬ S leafCopy.header.pageId := by
    rw [hcopy]
    exact hpath leaf (List.mem_cons_self ..)
  apply (sparingT_splitLeafNodeT hleaf txnId).bind
  intro split hsplit
  have hrest : SparingT S (match above with
      | [] => growRootT split txnId
      | parent :: rest => insertIntoParentT split leaf.1 txnId parent rest) (fun _ => True) := by
    cases above with
    | nil => exact sparingT_growRootT split txnId
    | cons parent rest =>
      exact sparingT_insertIntoParentT split leaf.1 txnId fun x hx => hpath x (List.mem_cons_of_mem _ hx)
  by_cases hlt : key < split.separatorKey
  · rw [if_pos hlt]
    apply (sparing_addToHalf hsplit.1 key value).write.bind
    intro _ _
    exact hrest
  · rw [if_neg hlt]
    apply (sparing_addToHalf hsplit.2 key value).write.bind
    intro _ _
    exact hrest

theorem spares_get_bind {f : Pager → PagerT α} (hout : OutOfReach S p)
    (h : SparingT S (f p) (fun _ => True)) : (∀ q ∈ (quiet get >>= f).stops p, Spares S p q) ∧
      Ends (quiet get >>= f).erase p (fun _ q => Spares S p q) (fun _ q => Spares S p q) := by
  have hget : ((quiet get : PagerT Pager).erase).run p = .ok p p := run_get p
  unfold Ends
  rw [Traced.stops_bind_of_ok hget, Traced.erase_bind, run_bind_of_ok hget]
  exact ⟨(h p hout).1, (h p hout).2.mono (fun _ _ hq => hq.1) fun _ _ hq => hq⟩

theorem spares_putBtreeValueT {fuel : Nat} {key : Bytes} (havoids : PathAvoids S p fuel key)
    (hout : OutOfReach S p) (value : Bytes) (txnId : Nat) :
    (∀ q ∈ (putBtreeValueT fuel key value txnId).stops p, Spares S p q) ∧
      Ends (putBtreeValueT fuel key value txnId).erase p (fun _ q => Spares S p q) (fun _ q => Spares S p q) := by
  apply spares_get_bind hout
  by_cases hroot : p.getRootPageId = 0
  · rw [if_pos hroot]
    apply sparing_allocatePage.write.bind
    intro newRootId hnew
    generalize addEntryToBtreeLeaf (createEmptyBtreeLeaf newRootId txnId 0) key value = added
    apply (sparingT_lift added).bind
    intro page _
    apply (sparing_writePage hnew page).write.bind
    intro _ _
    exact (sparing_setRootPageId newRootId).quiet
  · rw [if_neg hroot]
    apply (sparingT_lift (p.findBtreePath fuel key)).bind
    rintro ⟨leaf, above⟩ hpath
    have hspared := havoids leaf above hpath
    have hread := onFile_findBtreePath hpath leaf (List.mem_cons_self ..)
    apply (sparingT_lift (copyOnWritePage leaf.2 txnId)).bind
    intro leafCopy hcopy
    split
    · next page _ =>
      apply (sparing_writePage (hspared leaf (List.mem_cons_self ..)) page).write.bind
      intro _ _
      exact sparingT_copyUpT txnId fun x hx => hspared x (List.mem_cons_of_mem _ hx)
    · apply sparingT_splitAndPutT key value txnId hspared
      rw [pageId_copyOnWritePage hcopy]
      exact (readPage_eq_ok hread).2.2
    · exact sparingT_throw _ _

theorem spares_deleteBtreeValueT {fuel : Nat} {key : Bytes}
    (havoids : KeyAbsent p fuel key ∨ PathAvoids S p fuel key) (hout : OutOfReach S p) (txnId : Nat) :
    (∀ q ∈ (deleteBtreeValueT fuel key txnId).stops p, Spares S p q) ∧
      Ends (deleteBtreeValueT fuel key txnId).erase p (fun _ q => Spares S p q) (fun _ q => Spares S p q) := by
  apply spares_get_bind hout
  by_cases hroot : p.getRootPageId = 0
  · rw [if_pos hroot]
    exact sparingT_pure false _ trivial
  · rw [if_neg hroot]
    apply (sparingT_lift (p.findBtreePath fuel key)).bind
    rintro ⟨leaf, above⟩ hpath
    apply (sparingT_lift (getValueFromBtreeLeaf leaf.2 key)).bind
    intro found hfound
    cases found with
    | none => exact sparingT_pure false _ trivial
    | some value =>
      -- the key is there, so the path is spared
      have hspared : ∀ x ∈ leaf :: above, ¬ S x.1 := by
        rcases havoids with habsent | havoids
        · have hnone := habsent leaf above hpath
          rw [hfound] at hnone
          cases hnone
        · exact havoids leaf above hpath
      apply (sparingT_lift (copyOnWritePage leaf.2 txnId)).bind
      intro leafCopy _
      apply (sparingT_lift (removeFromLeaf leafCopy key)).bind
      intro removed _
      cases removed with
      | none => exact sparingT_pure false _ trivial
      | some page =>
        apply (sparing_writePage (hspared leaf (List.mem_cons_self ..)) page).write.bind
        intro _ _
        apply (sparingT_copyUpT txnId fun x hx => hspared x (List.mem_cons_of_mem _ hx)).bind
        intro _ _
        exact sparingT_pure true _ trivial

end Sparing

end Pager

abbrev FileT := Traced PagerError FileState

namespace FileState

open Zig.Pager
open Traced (quiet write)

def applyMutationT (fuel txnId : Nat) : Mutation → PagerT Unit
  | .put key value => putBtreeValueT fuel key value txnId
  | .delete key => do
    let _ ← deleteBtreeValueT fuel key txnId
    return ()

def onPagerT {α : Type} (x : PagerT α) : FileT α :=
  Traced.zoom FileState.pager (fun file pager => { file with pager }) x

def logRecordT (txnId : Nat) (mutations : List Mutation) (file : FileState) : FileT Unit := do
  let record ← quiet (EStateM.lift (createCommitRecord txnId file.pager.getRootPageId mutations))
  let frame ← quiet (EStateM.lift (framedRecord record))
  write (set { file with log := file.log ++ frame })

/-- A commit up to the meta page: the mutations, and the record in the log. -/
def prepareCommitT (fuel txnId : Nat) (mutations : List Mutation) : FileT Unit := do
  onPagerT (Traced.forEach (applyMutationT fuel txnId) mutations)
  let file ← quiet get
  logRecordT txnId mutations file

def executeTwoPhaseCommitT (fuel txnId : Nat) (mutations : List Mutation) : FileT Nat := do
  prepareCommitT fuel txnId mutations
  write (onPager (writeMeta txnId))
  quiet (modify fun file => { file with
    registry := file.registry.registerSnapshot txnId file.pager.getRootPageId })
  return txnId

theorem erase_applyMutationT (fuel txnId : Nat) (mutation : Mutation) :
    (applyMutationT fuel txnId mutation).erase = applyMutation fuel txnId mutation := by
  cases mutation with
  | put key value => exact erase_putBtreeValueT fuel key value txnId
  | delete key =>
    unfold applyMutationT
    rw [Traced.erase_bind, erase_deleteBtreeValueT]
    rfl

theorem erase_executeTwoPhaseCommitT (fuel txnId : Nat) (mutations : List Mutation) :
    (executeTwoPhaseCommitT fuel txnId mutations).erase = executeTwoPhaseCommit fuel txnId mutations := by
  unfold executeTwoPhaseCommitT prepareCommitT logRecordT executeTwoPhaseCommit onPagerT
  simp only [Traced.erase_bind, Traced.erase_quiet, Traced.erase_write, Traced.erase_pure, Traced.erase_zoom,
    Traced.erase_forEach (erase_applyMutationT fuel txnId), bind_assoc]
  rfl

variable {fuel txnId : Nat} {S : Nat → Prop}

theorem spares_of_avoids {mutation : Mutation} (havoids : Avoids S fuel p mutation)
    (hout : OutOfReach S p) (txnId : Nat) :
    (∀ q ∈ (applyMutationT fuel txnId mutation).stops p, Spares S p q) ∧
      Ends (applyMutationT fuel txnId mutation).erase p (fun _ q => Spares S p q) (fun _ q => Spares S p q) := by
  cases mutation with
  | put key value => exact spares_putBtreeValueT havoids hout value txnId
  | delete key =>
    rcases spares_deleteBtreeValueT havoids hout txnId with ⟨hstops, hends⟩
    unfold applyMutationT
    rw [Traced.stops_bind_pure, Traced.erase_bind]
    exact ⟨hstops, hends.bind fun _ q _ hq => ends_of_ok (run_pure () q) hq⟩

theorem ends_applyMutations {mutations : List Mutation}
    (hmeets : Meets (applyMutation fuel txnId) (Avoids S fuel) mutations p) (hout : OutOfReach S p) :
    Ends (forEach (applyMutation fuel txnId) mutations) p (fun _ q => Spares S p q)
      (fun _ q => Spares S p q) := by
  apply @ends_forEach _ _ _ _ (Avoids S fuel) (fun _ q => Spares S p q) _ _ _ [] p (.refl S p) hmeets
  intro done mutation q hq havoids
  rw [← erase_applyMutationT]
  exact (spares_of_avoids havoids (hq.outOfReach hout) txnId).2.mono
    (fun _ r hr => hq.trans hr) (fun _ r hr => hq.trans hr)

theorem ends_onPager {α : Type} {x : PagerM α} {file : FileState} {P : α → Pager → Prop}
    {Q : PagerError → Pager → Prop} (h : Ends x file.pager P Q) :
    Ends (onPager x) file (fun a file' => P a file'.pager) (fun e file' => Q e file'.pager) := by
  cases hrun : x.run file.pager with
  | ok a q => exact ends_of_ok (run_zoom_of_ok hrun) (h.of_run_ok hrun)
  | error e q => exact ends_of_error (run_zoom_of_error hrun) (h.of_run_error hrun)

theorem ends_executeTwoPhaseCommit {file : FileState} {mutations : List Mutation}
    (hmeta : ∀ pageId, S pageId → 2 ≤ pageId) (hout : OutOfReach S file.pager)
    (hmeets : Meets (applyMutation fuel txnId) (Avoids S fuel) mutations file.pager) :
    Ends (executeTwoPhaseCommit fuel txnId mutations) file
      (fun _ file' => Spares S file.pager file'.pager)
      (fun _ file' => Spares S file.pager file'.pager) := by
  apply (ends_onPager (ends_applyMutations hmeets hout)).bind
  intro _ applied _ happlied
  unfold Ends
  rw [run_bind_of_ok (run_get applied)]
  apply (ends_lift (fun _ _ => happlied) (fun _ _ => happlied) :
    Ends _ applied (fun _ file' => Spares S file.pager file'.pager)
      (fun _ file' => Spares S file.pager file'.pager)).bind
  intro record reached _ hreached
  apply (ends_lift (fun _ _ => hreached) (fun _ _ => hreached) :
    Ends _ reached (fun _ file' => Spares S file.pager file'.pager)
      (fun _ file' => Spares S file.pager file'.pager)).bind
  intro frame logging _ _
  unfold Ends
  rw [run_bind_of_ok (run_set _ _)]
  have hwritten := sparing_writeMeta hmeta txnId applied.pager (happlied.outOfReach hout)
  have hwritten' : Ends (writeMeta txnId) applied.pager (fun _ q => Spares S file.pager q)
      (fun _ q => Spares S file.pager q) :=
    hwritten.mono (fun _ _ h => happlied.trans h.1) (fun _ _ h => happlied.trans h)
  apply (@ends_onPager _ _ { applied with log := applied.log ++ frame } _ _ hwritten').bind
  intro _ written _ hspares
  exact hspares

end FileState

end Northstar.Zig
