import FetchOData.Schema.Entity
import FetchOData.Json.Field

namespace FetchOData.Schema
open Json

def AttributeKind.ofJson (j : Json) : Decoded AttributeKind := do
  return ofName (← Json.string j)

namespace Attribute

def ofJson (j : Json) : Decoded Attribute := do
  let fs ← fields j
  return {
    name := ← required string fs "LogicalName"
    kind := ← required AttributeKind.ofJson fs "AttributeType"
    targets := ← orElse (listOf string) [] fs "Targets"
    innerKind := ← optional AttributeKind.ofJson fs "ValueAttributeTypeCode" }

def toJson (a : Attribute) : Json :=
  .obj [("LogicalName", .str a.name), ("AttributeType", .str a.kind.name),
    ("Targets", ofList .str a.targets),
    ("ValueAttributeTypeCode", ofOption (fun kind => .str kind.name) a.innerKind)]

end Attribute

namespace Reference

def ofJson (j : Json) : Decoded Reference := do
  let fs ← fields j
  return {
    schemaName := ← required string fs "SchemaName"
    referencedEntity := ← required string fs "ReferencedEntity"
    referencedAttribute := ← optional string fs "ReferencedAttribute"
    referencingEntity := ← required string fs "ReferencingEntity"
    referencingAttribute := ← required string fs "ReferencingAttribute"
    referencedNavigation := ← optional string fs "ReferencedEntityNavigationPropertyName"
    referencingNavigation := ← optional string fs "ReferencingEntityNavigationPropertyName" }

def toJson (r : Reference) : Json :=
  .obj [("SchemaName", .str r.schemaName), ("ReferencedEntity", .str r.referencedEntity),
    ("ReferencedAttribute", ofOption .str r.referencedAttribute),
    ("ReferencingEntity", .str r.referencingEntity),
    ("ReferencingAttribute", .str r.referencingAttribute),
    ("ReferencedEntityNavigationPropertyName", ofOption .str r.referencedNavigation),
    ("ReferencingEntityNavigationPropertyName", ofOption .str r.referencingNavigation)]

end Reference

namespace Association

def ofJson (j : Json) : Decoded Association := do
  let fs ← fields j
  return {
    schemaName := ← required string fs "SchemaName"
    intersectEntity := ← required string fs "IntersectEntityName"
    first := {
      entity := ← required string fs "Entity1LogicalName"
      intersectAttribute := ← optional string fs "Entity1IntersectAttribute"
      navigation := ← optional string fs "Entity1NavigationPropertyName" }
    second := {
      entity := ← required string fs "Entity2LogicalName"
      intersectAttribute := ← optional string fs "Entity2IntersectAttribute"
      navigation := ← optional string fs "Entity2NavigationPropertyName" } }

def toJson (a : Association) : Json :=
  .obj [("SchemaName", .str a.schemaName), ("Entity1LogicalName", .str a.first.entity),
    ("Entity2LogicalName", .str a.second.entity),
    ("Entity1NavigationPropertyName", ofOption .str a.first.navigation),
    ("Entity2NavigationPropertyName", ofOption .str a.second.navigation),
    ("IntersectEntityName", .str a.intersectEntity),
    ("Entity1IntersectAttribute", ofOption .str a.first.intersectAttribute),
    ("Entity2IntersectAttribute", ofOption .str a.second.intersectAttribute)]

end Association

namespace Entity

def ofJson (j : Json) : Decoded Entity := do
  let fs ← fields j
  return {
    name := ← required string fs "LogicalName"
    setName := ← optional string fs "EntitySetName"
    collectionName := ← optional string fs "LogicalCollectionName"
    primaryKey := ← required string fs "PrimaryIdAttribute"
    typeCode := ← optional int32 fs "ObjectTypeCode"
    attributes := ← orElse (listOf Attribute.ofJson) [] fs "Attributes"
    oneToMany := ← orElse (listOf Reference.ofJson) [] fs "OneToManyRelationships"
    manyToOne := ← orElse (listOf Reference.ofJson) [] fs "ManyToOneRelationships"
    manyToMany := ← orElse (listOf Association.ofJson) [] fs "ManyToManyRelationships" }

def toJson (e : Entity) : Json :=
  .obj [("LogicalName", .str e.name), ("EntitySetName", ofOption .str e.setName),
    ("LogicalCollectionName", ofOption .str e.collectionName),
    ("PrimaryIdAttribute", .str e.primaryKey),
    ("ObjectTypeCode", ofOption (fun code => .int code.toInt) e.typeCode),
    ("Attributes", ofList Attribute.toJson e.attributes),
    ("OneToManyRelationships", ofList Reference.toJson e.oneToMany),
    ("ManyToOneRelationships", ofList Reference.toJson e.manyToOne),
    ("ManyToManyRelationships", ofList Association.toJson e.manyToMany)]

/-- The records of a definition list: a bare list, or a list under `value`. -/
def listOfDefinitions : Json → Decoded (List Entity)
  | .obj fs => required (listOf ofJson) fs "value"
  | j => listOf ofJson j

end Entity

end FetchOData.Schema
