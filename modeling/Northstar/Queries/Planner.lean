import Northstar.Lib.Except
import Northstar.Queries.Optimizer

/-!
# Queries.Planner — plans run on the cartridges

The loop over the relationships of an entity is written three times.  The one for both directions looks at the
target of every relationship, also of those that it has found by their target.
-/

namespace Northstar.Queries

open Relations (Relationship RelationshipCartridge RelationshipType)

inductive EntityType
  | file
  | function
  | person
  | topic
  | config
  deriving Repr, DecidableEq

def EntityType.fromStr : String → Option EntityType
  | "file" => some .file
  | "function" => some .function
  | "person" => some .person
  | "topic" => some .topic
  | "config" => some .config
  | _ => none

/-- The confidence is the bit pattern of a float. -/
structure Entity where
  id : String
  entityType : EntityType
  name : String
  commitId : UInt64
  confidence : UInt32
  metadata : List (String × String)
  deriving Repr, DecidableEq

structure EntityCartridge where
  entities : AList fun _ : String => Entity
  byType : Relations.Index EntityType
  byName : AList fun _ : String => String
  byCommit : Relations.Index UInt64

namespace EntityCartridge

def new : EntityCartridge := ⟨∅, ∅, ∅, ∅⟩

def insert (c : EntityCartridge) (entity : Entity) : EntityCartridge where
  entities := c.entities.insert entity.id entity
  byType := c.byType.push entity.entityType entity.id
  byName := c.byName.insert entity.name entity.id
  byCommit := c.byCommit.push entity.commitId entity.id

def getById (c : EntityCartridge) (id : String) : Option Entity := c.entities.lookup id

def getByName (c : EntityCartridge) (name : String) : Option Entity :=
  (c.byName.lookup name).bind fun id => c.entities.lookup id

def getByType (c : EntityCartridge) (entityType : EntityType) : List Entity :=
  ((c.byType.lookup entityType).getD []).filterMap fun id => c.entities.lookup id

inductive Call
  | insert (entity : Entity)
  | clear
  deriving Repr, DecidableEq

def apply (c : EntityCartridge) : Call → EntityCartridge
  | .insert entity => c.insert entity
  | .clear => new

def run (calls : List Call) : EntityCartridge := calls.foldl apply new

theorem getById_run {calls : List Call} {id : String} {entity : Entity}
    (h : (run calls).getById id = some entity) : entity.id = id := by
  induction calls using List.reverseRecOn generalizing id entity with
  | nil => cases h
  | append_singleton calls call ih =>
    unfold run at h
    rw [List.foldl_concat] at h
    cases call with
    | clear => cases h
    | insert new =>
      unfold getById apply insert at h
      by_cases hid : id = new.id
      · rw [hid, AList.lookup_insert] at h
        cases h
        exact hid.symm
      · rw [AList.lookup_insert_ne hid] at h
        exact ih h

end EntityCartridge

variable {Json : Type}

inductive QueryIntent (Json : Type)
  | pointLookup
  | rangeScan
  | semanticSearch
  | aggregation (aggType : AggregationType) (field : String)
  | relationshipTraversal (relType : RelationshipType) (direction : TraversalDirection)
  | timeTravel (lsn : UInt64)
  | complex (operations : List (QueryOperation Json))

structure QueryPlan (Json : Type) where
  intent : QueryIntent Json
  operations : List (QueryOperation Json)
  entityLinks : List (String × String)

/-- The ranking of semantic queries goes by floats. -/
structure QueryPlanner (Json : Type) where
  entityCartridge : EntityCartridge
  relationshipCartridge : RelationshipCartridge
  rank : List Entity → QueryPlan Json → List Entity

namespace QueryPlanner

def lookup (p : QueryPlanner Json) (lookupType : LookupType) (key : String) : Except String (Option Entity) :=
  match lookupType with
  | .byId => .ok (p.entityCartridge.getById key)
  | .byName => .ok (p.entityCartridge.getByName key)
  | .byType =>
    match EntityType.fromStr key with
    | none => .error ("Invalid entity type: " ++ key)
    | some entityType => .ok (p.entityCartridge.getByType entityType).head?
  | _ => .ok none

/-- The loop over relationships: the entities at one of their ends. -/
def neighbours (c : EntityCartridge) (relType : RelationshipType) (neighbour : Relationship → String)
    (rels : List Relationship) : List Entity :=
  (rels.filter fun rel => rel.relType = relType).filterMap fun rel => c.getById (neighbour rel)

def traverse (p : QueryPlanner Json) (fromEntity : String) (relType : RelationshipType) :
    TraversalDirection → List Entity
  | .outgoing =>
    neighbours p.entityCartridge relType Relationship.toEntity (p.relationshipCartridge.getFromEntity fromEntity)
  | .incoming =>
    neighbours p.entityCartridge relType Relationship.fromEntity (p.relationshipCartridge.getToEntity fromEntity)
  | .both =>
    let outgoing := p.relationshipCartridge.getFromEntity fromEntity
    let incoming := p.relationshipCartridge.getToEntity fromEntity
    neighbours p.entityCartridge relType Relationship.toEntity (outgoing ++ incoming)

/-- What an operation adds to the results.  A topic is looked up and left out. -/
def executeOperation (p : QueryPlanner Json) : QueryOperation Json → Except String (List Entity)
  | .entityLookup .entity lookupType key => (p.lookup lookupType key).map Option.toList
  | .relationshipTraversal fromEntity relType direction _ => .ok (p.traverse fromEntity relType direction)
  | _ => .ok []

def execute (p : QueryPlanner Json) (plan : QueryPlan Json) : Except String (List Entity) := do
  let found ← plan.operations.mapM p.executeOperation
  match plan.intent with
  | .semanticSearch => return p.rank found.flatten plan
  | _ => return found.flatten

def traversal (intent : QueryIntent Json) (links : List (String × String)) (fromEntity : String)
    (relType : RelationshipType) (direction : TraversalDirection) (maxDepth : Nat) : QueryPlan Json :=
  ⟨intent, [.relationshipTraversal fromEntity relType direction maxDepth], links⟩

variable {p : QueryPlanner Json} {c : EntityCartridge}
  {intent : QueryIntent Json}

theorem execute_traversal (hintent : intent ≠ .semanticSearch) (links : List (String × String)) (fromEntity : String)
    (relType : RelationshipType) (direction : TraversalDirection) (maxDepth : Nat) :
    p.execute (traversal intent links fromEntity relType direction maxDepth) =
      .ok (p.traverse fromEntity relType direction) := by
  have hfound : (traversal intent links fromEntity relType direction maxDepth).operations.mapM p.executeOperation =
      .ok [p.traverse fromEntity relType direction] := rfl
  have hflat : [p.traverse fromEntity relType direction].flatten = p.traverse fromEntity relType direction :=
    List.append_nil _
  unfold execute
  rw [hfound, Except.ok_bind, hflat]
  cases intent with
  | semanticSearch => exact absurd rfl hintent
  | _ => rfl

def presentEnds (c : EntityCartridge) (relType : RelationshipType) (neighbour : Relationship → String)
    (rels : List Relationship) : List String :=
  ((rels.filter fun rel => rel.relType = relType).map neighbour).filter fun id => (c.getById id).isSome

theorem neighbours_eq (c : EntityCartridge) (relType : RelationshipType) (neighbour : Relationship → String)
    (rels : List Relationship) :
    neighbours c relType neighbour rels = (presentEnds c relType neighbour rels).filterMap c.getById := by
  unfold neighbours presentEnds
  induction rels.filter fun rel => rel.relType = relType with
  | nil => rfl
  | cons rel rest ih =>
    rw [List.filterMap_cons, List.map_cons]
    cases hfound : c.getById (neighbour rel) with
    | none => rw [List.filter_cons_of_neg (by rw [hfound]; decide), ← ih]
    | some entity => rw [List.filter_cons_of_pos (by rw [hfound]; rfl), List.filterMap_cons, hfound, ← ih]

theorem ids_neighbours (hid : ∀ id entity, c.getById id = some entity → entity.id = id) (relType : RelationshipType)
    (neighbour : Relationship → String) (rels : List Relationship) :
    (neighbours c relType neighbour rels).map Entity.id = presentEnds c relType neighbour rels := by
  unfold neighbours presentEnds
  induction rels.filter fun rel => rel.relType = relType with
  | nil => rfl
  | cons rel rest ih =>
    rw [List.filterMap_cons, List.map_cons]
    cases hfound : c.getById (neighbour rel) with
    | none =>
      rw [List.filter_cons_of_neg (by rw [hfound]; decide)]
      exact ih
    | some entity =>
      rw [List.filter_cons_of_pos (by rw [hfound]; rfl), List.map_cons, ih, hid _ _ hfound]

/-- The relationships of the type that are found by their target have, in this order, the same present entities as
targets and as sources. -/
def Mirrored (p : QueryPlanner Json) (fromEntity : String) (relType : RelationshipType) : Prop :=
  presentEnds p.entityCartridge relType Relationship.toEntity (p.relationshipCartridge.getToEntity fromEntity) =
    presentEnds p.entityCartridge relType Relationship.fromEntity (p.relationshipCartridge.getToEntity fromEntity)

instance decidableMirrored (p : QueryPlanner Json) (fromEntity : String) (relType : RelationshipType) :
    Decidable (p.Mirrored fromEntity relType) := by
  unfold Mirrored
  infer_instance

theorem traverse_both_iff (hid : ∀ id entity, p.entityCartridge.getById id = some entity → entity.id = id)
    (fromEntity : String) (relType : RelationshipType) :
    p.traverse fromEntity relType .both =
        p.traverse fromEntity relType .outgoing ++ p.traverse fromEntity relType .incoming ↔
      p.Mirrored fromEntity relType := by
  have hboth : p.traverse fromEntity relType .both = p.traverse fromEntity relType .outgoing ++
      neighbours p.entityCartridge relType Relationship.toEntity (p.relationshipCartridge.getToEntity fromEntity) := by
    unfold traverse neighbours
    dsimp only
    rw [List.filter_append, List.filterMap_append]
  rw [hboth, List.append_cancel_left_eq]
  unfold traverse Mirrored
  constructor
  · intro h
    have hids := congrArg (List.map Entity.id) h
    rwa [ids_neighbours hid, ids_neighbours hid] at hids
  · intro h
    show neighbours _ _ _ _ = neighbours _ _ _ _
    rw [neighbours_eq, neighbours_eq, h]

def entity (id : String) (entityType : EntityType) : Entity := ⟨id, entityType, id, 1, 0x3F800000, []⟩

/-- A traversal in both directions is the one along the relationships and then the one against them exactly where
the relationships that lead to the entity have the same present entities at both ends. -/
theorem both_iff (entities : List EntityCartridge.Call) (relationships : List Relations.Call)
    (rank : List Entity → QueryPlan Json → List Entity) (fromEntity : String) (relType : RelationshipType)
    (intent : QueryIntent Json) (links : List (String × String)) (maxDepth : Nat) (hintent : intent ≠ .semanticSearch) :
    let p : QueryPlanner Json := ⟨.run entities, Relations.run relationships, rank⟩
    let run := fun direction => p.execute (traversal intent links fromEntity relType direction maxDepth)
    (run .both = do
      let outgoing ← run .outgoing
      let incoming ← run .incoming
      return outgoing ++ incoming) ↔ p.Mirrored fromEntity relType := by
  intro p run
  have hid : ∀ id entity, p.entityCartridge.getById id = some entity → entity.id = id :=
    fun _ _ => EntityCartridge.getById_run
  have hrun : ∀ direction, run direction = .ok (p.traverse fromEntity relType direction) :=
    fun direction => execute_traversal hintent links fromEntity relType direction maxDepth
  rw [hrun, hrun, hrun, Except.ok_bind, Except.ok_bind, ← traverse_both_iff hid]
  exact ⟨Except.ok.inj, congrArg Except.ok⟩

/-- A file that calls itself. -/
theorem selfLoop_agrees :
    let loop := { Relations.sample "file-1" with relType := .calls }
    let p : QueryPlanner Unit :=
      ⟨.run [.insert (entity "file-1" .file)], Relations.run [.insert loop], fun found _ => found⟩
    let run := fun direction => p.execute (traversal .pointLookup [] "file-1" .calls direction 1)
    run .both = do
      let outgoing ← run .outgoing
      let incoming ← run .incoming
      return outgoing ++ incoming :=
  (both_iff _ _ _ _ _ _ _ _ (by intro h; cases h)).mpr (by decide +kernel)

/-- A function that is contained in a file: both directions find the function itself and not the file. -/
theorem contained_in_itself :
    let p : QueryPlanner Unit :=
      ⟨.run [.insert (entity "file-1" .file), .insert (entity "function-1" .function)],
        Relations.run [.insert (Relations.sample "function-1")], fun found _ => found⟩
    let run := fun direction => p.execute (traversal .pointLookup [] "function-1" .contains direction 1)
    run .outgoing = .ok [] ∧ run .incoming = .ok [entity "file-1" .file] ∧
      run .both = .ok [entity "function-1" .function] := by
  decide +kernel

end QueryPlanner

end Northstar.Queries
