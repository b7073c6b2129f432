namespace FetchOData.Schema

/-- A relationship between one referenced row and many rows that refer to it, with the navigation
property that each side has for the other. -/
structure Reference where
  schemaName : String
  referencedEntity : String
  referencedAttribute : Option String := none
  referencingEntity : String
  referencingAttribute : String
  referencedNavigation : Option String := none
  referencingNavigation : Option String := none
deriving DecidableEq, Repr

/-- The children are reached by the name of the relationship, and the parent by the attribute that
refers to it. -/
def Reference.named (schemaName referencedEntity referencedAttribute referencingEntity
    referencingAttribute : String) : Reference :=
  { schemaName, referencedEntity, referencedAttribute := some referencedAttribute,
    referencingEntity, referencingAttribute, referencedNavigation := some schemaName,
    referencingNavigation := some referencingAttribute }

def Reference.withNavigation (r : Reference) (referenced referencing : String) : Reference :=
  { r with referencedNavigation := some referenced, referencingNavigation := some referencing }

/-- One side of an association: its entity, the attribute of the intersect entity that refers to it
and the navigation property that leads from it to the other side. -/
structure Side where
  entity : String
  intersectAttribute : Option String := none
  navigation : Option String := none
deriving DecidableEq, Repr

/-- A relationship between many rows on both sides, kept in an intersect entity. -/
structure Association where
  schemaName : String
  intersectEntity : String
  first : Side
  second : Side
deriving DecidableEq, Repr

/-- Both sides are reached by the name of the relationship. -/
def Association.named (schemaName intersectEntity : String) (first second : String × String) :
    Association :=
  { schemaName, intersectEntity,
    first := ⟨first.1, some first.2, some schemaName⟩
    second := ⟨second.1, some second.2, some schemaName⟩ }

/-- The association seen from each of its sides: the near one and the far one. -/
def Association.orientations (a : Association) : List (Side × Side) :=
  [(a.first, a.second), (a.second, a.first)]

end FetchOData.Schema
