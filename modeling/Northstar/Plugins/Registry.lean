import Northstar.Lib.HashMap
import Northstar.Lib.Runs

/-!
# Plugins.Registry — plugins come and go

A call of the registry takes a lock several times, for a check, for the map of plugins and for the map of their
metadata, and what it has checked is checked no more when it writes.  A system is the registry with its calls,
each of them in front of its next lock.

A registration that is added as its checks left it keeps the registry right, and so does a removal that nothing
depends on.  The metadata of a name follow its plugin as soon as the last call that is about to write them has
done so, if that call finds the plugin as it has left it.
-/

namespace Northstar.Plugins

structure Plugin where
  name : String
  version : String
  dependencies : List String
  deriving Repr, DecidableEq

/-- The two maps of the source, by hook, are empty in what a registration makes. -/
structure PluginResourceUsage where
  pluginName : String
  memoryBytes : UInt64
  cpuTimeNs : UInt64
  errorCount : UInt64
  deriving Repr, DecidableEq

structure PluginInfo where
  name : String
  version : String
  enabled : Bool
  hooks : List String
  resourceUsage : PluginResourceUsage
  deriving Repr, DecidableEq

inductive PluginError where
  | loadFailed (plugin : String)
  | validationError (plugin : String)
  | notRegistered (plugin : String)
  deriving Repr, DecidableEq

structure PluginRegistry where
  plugins : AList fun _ : String => Plugin
  metadata : AList fun _ : String => PluginInfo
  maxPlugins : Nat

namespace PluginRegistry

def new (maxPlugins : Nat) : PluginRegistry := ⟨∅, ∅, maxPlugins⟩

def checkName (r : PluginRegistry) (plugin : Plugin) : Except PluginError Unit :=
  if plugin.name ∈ r.plugins then .error (.loadFailed plugin.name)
  else if r.plugins.entries.length ≥ r.maxPlugins then
    .error (.validationError ("maximum plugin limit (" ++ toString r.maxPlugins ++ ") reached"))
  else .ok ()

def checkDependencies (r : PluginRegistry) (plugin : Plugin) : Except PluginError Unit :=
  match plugin.dependencies.find? (· ∉ r.plugins) with
  | some dep =>
    .error (.validationError ("'" ++ plugin.name ++ "' depends on '" ++ dep ++ "' which is not registered"))
  | none => .ok ()

/-- With the plugin that `insert` gives back and the source drops. -/
def addPlugin (r : PluginRegistry) (plugin : Plugin) : PluginRegistry × Option Plugin :=
  ({ r with plugins := r.plugins.insert plugin.name plugin }, r.plugins.lookup plugin.name)

def info (plugin : Plugin) : PluginInfo where
  name := plugin.name
  version := plugin.version
  enabled := true
  hooks := []
  resourceUsage := ⟨plugin.name, 0, 0, 0⟩

def addMetadata (r : PluginRegistry) (plugin : Plugin) : PluginRegistry :=
  { r with metadata := r.metadata.insert plugin.name (info plugin) }

def removePlugin (r : PluginRegistry) (name : String) : Except PluginError (PluginRegistry × Plugin) :=
  match r.plugins.lookup name with
  | some plugin => .ok ({ r with plugins := r.plugins.erase name }, plugin)
  | none => .error (.notRegistered name)

def removeMetadata (r : PluginRegistry) (name : String) : PluginRegistry :=
  { r with metadata := r.metadata.erase name }

end PluginRegistry

/-- The next lock of a call, or its result. -/
inductive Progress where
  | checkName (plugin : Plugin)
  | checkDependencies (plugin : Plugin)
  | addPlugin (plugin : Plugin)
  | addMetadata (plugin : Plugin)
  | registered (result : Except PluginError PluginInfo)
  | removePlugin (name : String)
  | removeMetadata (name : String) (plugin : Plugin)
  | unregistered (result : Except PluginError Plugin)

namespace Progress

def finished : Progress → Bool
  | .registered _ | .unregistered _ => true
  | _ => false

/-- The name whose metadata the call writes next. -/
def describes : Progress → Option String
  | .addMetadata plugin => some plugin.name
  | .removeMetadata name _ => some name
  | _ => none

end Progress

structure System where
  registry : PluginRegistry
  calls : List Progress
  /-- The plugins that an insertion has pushed out. -/
  replaced : List Plugin

namespace System

def start (maxPlugins : Nat) : System := ⟨.new maxPlugins, [], []⟩

inductive Event where
  | register (plugin : Plugin)
  | unregister (name : String)
  /-- The next lock of a call. -/
  | next (call : Nat)
  deriving Repr, DecidableEq

def advance (r : PluginRegistry) : Progress → Option (PluginRegistry × Progress × Option Plugin)
  | .checkName plugin =>
    match r.checkName plugin with
    | .error e => some (r, .registered (.error e), none)
    | .ok () => some (r, .checkDependencies plugin, none)
  | .checkDependencies plugin =>
    match r.checkDependencies plugin with
    | .error e => some (r, .registered (.error e), none)
    | .ok () => some (r, .addPlugin plugin, none)
  | .addPlugin plugin =>
    let (r, old) := r.addPlugin plugin
    some (r, .addMetadata plugin, old)
  | .addMetadata plugin => some (r.addMetadata plugin, .registered (.ok (PluginRegistry.info plugin)), none)
  | .removePlugin name =>
    match r.removePlugin name with
    | .error e => some (r, .unregistered (.error e), none)
    | .ok (r, plugin) => some (r, .removeMetadata name plugin, none)
  | .removeMetadata name plugin => some (r.removeMetadata name, .unregistered (.ok plugin), none)
  | .registered _ | .unregistered _ => none

def step (s : System) : Event → Option System
  | .register plugin => some { s with calls := s.calls ++ [.checkName plugin] }
  | .unregister name => some { s with calls := s.calls ++ [.removePlugin name] }
  | .next i =>
    match s.calls[i]? with
    | none => none
    | some call =>
      (advance s.registry call).map fun (registry, call, old) =>
        ⟨registry, s.calls.set i call, s.replaced ++ old.toList⟩

variable {s t : System} {r r' : PluginRegistry} {p p' : Progress} {old : Option Plugin} {i : Nat} {name : String}

/-- Every dependency of a registered plugin is registered. -/
def Closed (r : PluginRegistry) : Prop :=
  ∀ e ∈ r.plugins.entries, ∀ dep ∈ e.2.dependencies, dep ∈ r.plugins

/-- Exactly the registered plugins have metadata. -/
def Described (r : PluginRegistry) : Prop := ∀ name, name ∈ r.plugins ↔ name ∈ r.metadata

/-- No more plugins than allowed, none pushed out, every dependency there and, when no call is in progress, the
right metadata. -/
structure Consistent (s : System) : Prop where
  capacity : s.registry.plugins.entries.length ≤ s.registry.maxPlugins
  replaced : s.replaced = []
  closed : Closed s.registry
  described : (∀ p ∈ s.calls, p.finished) → Described s.registry

/-- What the call relies on when it writes. -/
def Holds (r : PluginRegistry) : Progress → Prop
  | .addPlugin plugin => plugin.name ∉ r.plugins ∧ r.plugins.entries.length < r.maxPlugins ∧
      ∀ dep ∈ plugin.dependencies, dep ∈ r.plugins
  | .addMetadata plugin => plugin.name ∈ r.plugins
  | .removePlugin name => ∀ e ∈ r.plugins.entries, name ∉ e.2.dependencies
  | .removeMetadata name _ => name ∉ r.plugins
  | _ => True

instance decidableHolds (r : PluginRegistry) (p : Progress) : Decidable (Holds r p) := by
  cases p <;> unfold Holds <;> infer_instance

/-- Another call will write the same metadata later. -/
def Awaited (calls : List Progress) (i : Nat) (p : Progress) : Prop :=
  ∃ q ∈ calls.eraseIdx i, q.describes.isSome ∧ q.describes = p.describes

instance decidableAwaited (calls : List Progress) (i : Nat) (p : Progress) : Decidable (Awaited calls i p) := by
  unfold Awaited
  infer_instance

def Undisturbed (s : System) : Event → Prop
  | .next i => ∀ p ∈ s.calls[i]?, Holds s.registry p ∨ Awaited s.calls i p
  | _ => True

instance decidableUndisturbed (s : System) (e : Event) : Decidable (Undisturbed s e) := by
  cases e with
  | next i =>
    unfold Undisturbed
    infer_instance
  | register plugin => exact .isTrue trivial
  | unregister name => exact .isTrue trivial

/-- A name is described rightly, or a call is about to write its metadata. -/
structure Good (s : System) : Prop where
  capacity : s.registry.plugins.entries.length ≤ s.registry.maxPlugins
  replaced : s.replaced = []
  closed : Closed s.registry
  described : ∀ name, (name ∈ s.registry.plugins ↔ name ∈ s.registry.metadata) ∨
    ∃ q ∈ s.calls, q.describes = some name

theorem good_start (maxPlugins : Nat) : Good (start maxPlugins) where
  capacity := Nat.zero_le _
  replaced := rfl
  closed _ he := absurd he List.not_mem_nil
  described _ := .inl Iff.rfl

theorem Good.consistent (h : Good s) : Consistent s where
  capacity := h.capacity
  replaced := h.replaced
  closed := h.closed
  described hdone name := by
    rcases h.described name with hname | ⟨q, hq, hdescribes⟩
    · exact hname
    · -- a finished call describes nothing
      have hfinished := hdone q hq
      cases q <;> cases hfinished <;> cases hdescribes

variable {calls : List Progress}

theorem mem_set_of_mem_eraseIdx {q : Progress} (hq : q ∈ calls.eraseIdx i) : q ∈ calls.set i p := by
  obtain ⟨j, hne, hj⟩ := List.mem_eraseIdx_iff_getElem?.mp hq
  apply List.mem_of_getElem? (i := j)
  -- every other place keeps its call
  rw [List.getElem?_set_ne (Ne.symm hne)]
  exact hj

theorem mem_set_of_ne {q : Progress} (hi : calls[i]? = some p) (hq : q ∈ calls) (hne : q ≠ p) :
    q ∈ calls.set i p' := by
  obtain ⟨j, hj⟩ := List.getElem?_of_mem hq
  apply List.mem_of_getElem? (i := j)
  rw [List.getElem?_set_ne]
  · exact hj
  · rintro rfl
    exact hne (Option.some.inj (hj.symm.trans hi))

theorem advance_cases (h : advance r p = some (r', p', old)) :
    (r' = r ∧ p.describes = none ∧ old = none) ∨
    (∃ plugin, p = .addPlugin plugin ∧ r' = { r with plugins := r.plugins.insert plugin.name plugin } ∧
      p' = .addMetadata plugin ∧ old = r.plugins.lookup plugin.name) ∨
    (∃ plugin, p = .addMetadata plugin ∧
      r' = { r with metadata := r.metadata.insert plugin.name (PluginRegistry.info plugin) } ∧ old = none) ∨
    (∃ name plugin, p = .removePlugin name ∧ r' = { r with plugins := r.plugins.erase name } ∧
      p' = .removeMetadata name plugin ∧ old = none) ∨
    (∃ name plugin, p = .removeMetadata name plugin ∧ r' = { r with metadata := r.metadata.erase name } ∧
      old = none) := by
  cases p with
  -- a check changes nothing, whether it passes or not
  | checkName plugin =>
    unfold advance at h
    dsimp only at h
    cases hcheck : r.checkName plugin with
    | error e =>
      rw [hcheck] at h
      cases h
      exact .inl ⟨rfl, rfl, rfl⟩
    | ok u =>
      rw [hcheck] at h
      cases h
      exact .inl ⟨rfl, rfl, rfl⟩
  | checkDependencies plugin =>
    unfold advance at h
    dsimp only at h
    cases hcheck : r.checkDependencies plugin with
    | error e =>
      rw [hcheck] at h
      cases h
      exact .inl ⟨rfl, rfl, rfl⟩
    | ok u =>
      rw [hcheck] at h
      cases h
      exact .inl ⟨rfl, rfl, rfl⟩
  | addPlugin plugin =>
    cases h
    exact .inr (.inl ⟨plugin, rfl, rfl, rfl, rfl⟩)
  | addMetadata plugin =>
    cases h
    exact .inr (.inr (.inl ⟨plugin, rfl, rfl, rfl⟩))
  | removePlugin name =>
    unfold advance PluginRegistry.removePlugin at h
    dsimp only at h
    cases hlookup : r.plugins.lookup name with
    | none =>
      rw [hlookup] at h
      cases h
      exact .inl ⟨rfl, rfl, rfl⟩
    | some plugin =>
      rw [hlookup] at h
      cases h
      exact .inr (.inr (.inr (.inl ⟨name, plugin, rfl, rfl, rfl, rfl⟩)))
  | removeMetadata name plugin =>
    cases h
    exact .inr (.inr (.inr (.inr ⟨name, plugin, rfl, rfl, rfl⟩)))
  | registered result => cases h
  | unregistered result => cases h

theorem closed_insert {plugin : Plugin} (h : Closed r) (hdeps : ∀ dep ∈ plugin.dependencies, dep ∈ r.plugins) :
    Closed { r with plugins := r.plugins.insert plugin.name plugin } := by
  intro e he dep hdep
  apply (AList.mem_insert _).mpr
  rcases HashMap.mem_insert he with rfl | hold
  · exact .inr (hdeps dep hdep)
  · exact .inr (h e hold dep hdep)

theorem closed_erase (h : Closed r) (hfree : ∀ e ∈ r.plugins.entries, name ∉ e.2.dependencies) :
    Closed { r with plugins := r.plugins.erase name } := by
  intro e he dep hdep
  have hold : e ∈ r.plugins.entries := HashMap.mem_of_mem_erase he
  apply AList.mem_erase.mpr
  refine ⟨?_, h e hold dep hdep⟩
  rintro rfl
  exact hfree e hold hdep

theorem described_of_other (hi : calls[i]? = some p) (hne : p.describes ≠ some name)
    (h : (name ∈ r.plugins ↔ name ∈ r.metadata) ∨ ∃ q ∈ calls, q.describes = some name)
    (hplugins : name ∈ r'.plugins ↔ name ∈ r.plugins) (hmetadata : name ∈ r'.metadata ↔ name ∈ r.metadata) :
    (name ∈ r'.plugins ↔ name ∈ r'.metadata) ∨ ∃ q ∈ calls.set i p', q.describes = some name := by
  rcases h with hname | ⟨q, hq, hdescribes⟩
  · left
    rw [hplugins, hmetadata]
    exact hname
  · right
    refine ⟨q, mem_set_of_ne hi hq ?_, hdescribes⟩
    rintro rfl
    exact hne hdescribes

theorem good_next (h : Good s) (hi : s.calls[i]? = some p) (hfit : Holds s.registry p ∨ Awaited s.calls i p)
    (hadvance : advance s.registry p = some (r', p', old)) :
    Good ⟨r', s.calls.set i p', s.replaced ++ old.toList⟩ := by
  rcases advance_cases hadvance with ⟨rfl, hnone, rfl⟩ | ⟨plugin, rfl, rfl, rfl, rfl⟩ | ⟨plugin, rfl, rfl, rfl⟩ |
    ⟨name, plugin, rfl, rfl, rfl, rfl⟩ | ⟨name, plugin, rfl, rfl, rfl⟩
  · -- a check, or a name that is not there
    refine ⟨h.capacity, ?_, h.closed, ?_⟩
    · rw [h.replaced]
      rfl
    · intro name
      have hne : p.describes ≠ some name := by
        rw [hnone]
        exact nofun
      exact described_of_other hi hne (h.described name) Iff.rfl Iff.rfl
  · -- the plugin is added as the checks left it, and its metadata are still to come
    rcases hfit with ⟨hnew, hroom, hdeps⟩ | ⟨q, -, hsome, hsame⟩
    · have hlookup := AList.lookup_eq_none.mpr hnew
      refine ⟨?_, ?_, closed_insert h.closed hdeps, ?_⟩
      · show (s.registry.plugins.insert plugin.name plugin).entries.length ≤ s.registry.maxPlugins
        rw [HashMap.length_insert_new hlookup]
        exact hroom
      · rw [h.replaced, hlookup]
        rfl
      · intro other
        by_cases heq : other = plugin.name
        · right
          refine ⟨.addMetadata plugin, ?_, ?_⟩
          · exact List.mem_set (List.getElem?_eq_some_iff.mp hi).1 _
          · rw [heq]
            rfl
        · refine described_of_other hi nofun (h.described other) ?_ Iff.rfl
          exact (AList.mem_insert _).trans (or_iff_right heq)
    · rw [hsame] at hsome
      cases hsome
  · -- the metadata of the plugin
    refine ⟨h.capacity, ?_, h.closed, ?_⟩
    · rw [h.replaced]
      rfl
    · intro other
      by_cases heq : other = plugin.name
      · rcases hfit with hin | ⟨q, hq, -, hsame⟩
        · left
          rw [heq]
          exact ⟨fun _ => (AList.mem_insert _).mpr (.inl rfl), fun _ => hin⟩
        · exact .inr ⟨q, mem_set_of_mem_eraseIdx hq, hsame.trans (congrArg some heq.symm)⟩
      · refine described_of_other hi ?_ (h.described other) Iff.rfl ?_
        · exact fun hsome => heq (Option.some.inj hsome).symm
        · exact (AList.mem_insert _).trans (or_iff_right heq)
  · -- nothing depends on the plugin that goes
    rcases hfit with hfree | ⟨q, -, hsome, hsame⟩
    · refine ⟨?_, ?_, closed_erase h.closed hfree, ?_⟩
      · exact Nat.le_trans (List.kerase_sublist name s.registry.plugins.entries).length_le h.capacity
      · rw [h.replaced]
        rfl
      · intro other
        by_cases heq : other = name
        · right
          refine ⟨.removeMetadata name plugin, ?_, ?_⟩
          · exact List.mem_set (List.getElem?_eq_some_iff.mp hi).1 _
          · rw [heq]
            rfl
        · refine described_of_other hi nofun (h.described other) ?_ Iff.rfl
          exact AList.mem_erase.trans (and_iff_right heq)
    · rw [hsame] at hsome
      cases hsome
  · -- the metadata of a plugin that is gone
    refine ⟨h.capacity, ?_, h.closed, ?_⟩
    · rw [h.replaced]
      rfl
    · intro other
      by_cases heq : other = name
      · rcases hfit with hout | ⟨q, hq, -, hsame⟩
        · left
          rw [heq]
          exact ⟨fun hin => absurd hin hout, fun hin => absurd rfl (AList.mem_erase.mp hin).1⟩
        · exact .inr ⟨q, mem_set_of_mem_eraseIdx hq, hsame.trans (congrArg some heq.symm)⟩
      · refine described_of_other hi ?_ (h.described other) Iff.rfl ?_
        · exact fun hsome => heq (Option.some.inj hsome).symm
        · exact AList.mem_erase.trans (and_iff_right heq)

theorem good_append (h : Good s) (p : Progress) : Good { s with calls := s.calls ++ [p] } where
  capacity := h.capacity
  replaced := h.replaced
  closed := h.closed
  described name := by
    apply (h.described name).imp_right
    rintro ⟨q, hq, hdescribes⟩
    exact ⟨q, List.mem_append_left _ hq, hdescribes⟩

theorem good_step (e : Event) (h : Good s) (hfit : Undisturbed s e) (hstep : step s e = some t) : Good t := by
  cases e with
  | register plugin =>
    cases hstep
    exact good_append h _
  | unregister name =>
    cases hstep
    exact good_append h _
  | next i =>
    unfold step at hstep
    dsimp only at hstep
    cases hi : s.calls[i]? with
    | none =>
      rw [hi] at hstep
      cases hstep
    | some p =>
      rw [hi] at hstep
      obtain ⟨⟨r', p', old⟩, hadvance, rfl⟩ := Option.map_eq_some_iff.mp hstep
      exact good_next h hi (hfit p hi) hadvance

/-- In every interleaving in which nothing comes between a call and what it relies on, the registry is right. -/
theorem consistent_of_undisturbed {maxPlugins : Nat} {events : List Event}
    (hmeets : Runs.Meets step Undisturbed (start maxPlugins) events)
    (hrun : Runs.run step (start maxPlugins) events = some s) : Consistent s :=
  (Runs.invariant (fun _ e _ hgood hfit hstep => good_step e hgood hfit hstep) (good_start maxPlugins) hmeets
    hrun).consistent

/-- A plugin by its name, its version and what it depends on. -/
def audit : Plugin := ⟨"audit", "1.0.0", []⟩
def auditNext : Plugin := ⟨"audit", "2.0.0", []⟩
def report : Plugin := ⟨"report", "1.0.0", ["audit"]⟩

/-- A call from its first lock to its last. -/
def alone (call : Nat) : List Event := List.replicate 4 (.next call)

/-- The checks of two calls, then what they add. -/
def overlapped : List Event := [.next 0, .next 0, .next 1, .next 1, .next 0, .next 1, .next 0, .next 1]

/-- One call after another, and the plugin that depends on the other goes first. -/
def inOrder : List Event :=
  [.register audit] ++ alone 0 ++ [.register report] ++ alone 1 ++ [.unregister "report", .next 2, .next 2,
    .unregister "audit", .next 3, .next 3]

theorem inOrder_consistent : ∃ s, Runs.run step (start 2) inOrder = some s ∧ Consistent s :=
  ⟨_, rfl, consistent_of_undisturbed (by decide +kernel : Runs.Meets step Undisturbed (start 2) inOrder) rfl⟩

/-- Two registrations that overlap exceed the limit or push one plugin out; a removal leaves a dependency open;
and the metadata of a registration come after those of the removal. -/
theorem disturbed_runs :
    (∃ s, Runs.run step (start 1) ([.register audit, .register ⟨"index", "1.0.0", []⟩] ++ overlapped) = some s ∧
      ¬ s.registry.plugins.entries.length ≤ s.registry.maxPlugins) ∧
    (∃ s, Runs.run step (start 2) ([.register audit, .register auditNext] ++ overlapped) = some s ∧
      s.replaced ≠ []) ∧
    (∃ s, Runs.run step (start 2) ([.register audit] ++ alone 0 ++ [.register report] ++ alone 1 ++
      [.unregister "audit", .next 2, .next 2]) = some s ∧ ¬ Closed s.registry) ∧
    ∃ s, Runs.run step (start 2) [.register audit, .next 0, .next 0, .next 0, .unregister "audit", .next 1, .next 1,
      .next 0] = some s ∧ (∀ p ∈ s.calls, p.finished) ∧ ¬ Described s.registry := by
  refine ⟨⟨_, rfl, by decide +kernel⟩, ⟨_, rfl, by decide +kernel⟩, ⟨_, rfl, ?_⟩, ⟨_, rfl, by decide +kernel, ?_⟩⟩
  · unfold Closed
    decide +kernel
  · intro h
    have hin := (h "audit").mpr
    revert hin
    decide +kernel

end System

end Northstar.Plugins
