import FetchOData.Query.Tree
import FetchOData.Fault

namespace FetchOData.Query

def Condition.invert (c : Condition) : Except Unsupported Condition :=
  match c.operator.inverse? with
  | some operator => .ok { c with operator }
  | none => .error (.nonInvertibleOperator c.operator)

/-- A link is inverted as a whole; its own filters stay as they are. -/
def Link.invert (l : Link) : Except Unsupported Link :=
  match l.join.kind.negate? with
  | some kind => .ok { l with join := { l.join with kind } }
  | none => .error (.nonInvertibleLink l.join.kind)

mutual
def Filter.invert : Filter → Except Unsupported Filter
  | ⟨connective, conditions, filters, links⟩ => do
    let conditions ← conditions.mapM Condition.invert
    let links ← links.mapM Link.invert
    let filters ← Filter.invertAll filters
    return ⟨connective.flip, conditions, filters, links⟩
def Filter.invertAll : List Filter → Except Unsupported (List Filter)
  | [] => .ok []
  | f :: fs => do return (← f.invert) :: (← Filter.invertAll fs)
end

end FetchOData.Query
