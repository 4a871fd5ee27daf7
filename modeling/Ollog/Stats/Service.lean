import Ollog.Callsign.Resolver
import Ollog.Lib.Tally
import Ollog.Qso.Listing

/-!
# Statistics of a log

`get_stats` asks the server for four aggregations over the active QSOs of an operator: the counts of
each band, of each mode and of each call, and the number of all of them.  It resolves the calls to
countries, adds up the counts of calls of one country, and shows the eight largest countries and the
rest.
-/

set_option autoImplicit false

namespace Ollog

open OrderedDict Tally

/-- `pycountry.countries.get(alpha_2=iso).name`, with `none` for a code that is not listed. -/
class Countries where
  name : String → Option String

/-- The server returns groups in an order of its own. -/
class GroupOrder where
  arranged : List (Value × Nat) → List (Value × Nat)
  arranged_perm : ∀ groups : List (Value × Nat), (arranged groups).Perm groups

/-- What `get_stats` returns. -/
structure Stats where
  bandCounts : OrderedDict Value Nat := []
  modeCounts : OrderedDict Value Nat := []
  entityCounts : List (String × Nat) := []
  uniqueEntityCount : Nat := 0
  totalQsos : Nat := 0

/-- The key `$group` has for a document; a missing field is grouped with `null`. -/
def groupKey (field : String) (d : Doc) : Value := (d[field]?).getD .null

/-- `aggregate([{"$match": query}, {"$group": {"_id": "$" + field, "count": {"$sum": 1}}}])`. -/
def groupCounts [GroupOrder] (query : Doc → Bool) (field : String) : Db (List (Value × Nat)) := do
  return GroupOrder.arranged (tally (groupKey field) (fun _ ↦ 1) ((← get).docs.filter query))

mutual
/-- The check `dict` makes of a key.  The hash of a `DBRef` is the one of its parts. -/
def hashKey : Value → Except PyErr Unit
  | .list _ => .error (.typeError "unhashable type: 'list'")
  | .dict _ => .error (.typeError "unhashable type: 'dict'")
  | .dbRef _ id _ extra => do
    hashKey id
    hashFields extra
  | _ => .ok ()

/-- The check of the further fields of a `DBRef`. -/
def hashFields : List (String × Value) → Except PyErr Unit
  | [] => .ok ()
  | (_, v) :: ps => do
    hashKey v
    hashFields ps
end

/-- `{doc["_id"]: doc["count"] for doc in results if doc["_id"]}`. -/
def namedCounts (groups : List (Value × Nat)) : Except PyErr (OrderedDict Value Nat) := do
  let named := groups.filter fun group ↦ group.1.truthy
  named.forM fun group ↦ hashKey group.1
  return ofItems named

/-- What an entity is called. -/
def entityName [Countries] : Option String → String
  | none => "Unknown"
  | some iso => (Countries.name iso).getD iso

/-- The entities with the largest counts, and all others in one. -/
def topEntities (sorted : List (String × Nat)) : List (String × Nat) :=
  if sorted.length ≤ 8 then sorted
  else sorted.take 8 ++ [("Other", ((sorted.drop 8).map (·.2)).sum)]

section

variable [UnicodeData] [UnicodeDigits] [Countries]

/-- `lookup_prefix(doc["_id"])`. -/
def resolveKey : Value → Except PyErr (Option String)
  | .str s => .ok (Callsign.lookupPrefix s)
  | v => .error (.attributeError ("'" ++ typeName v ++ "' object has no attribute 'upper'"))

/-- One round of the loop over the groups of calls: `entity_totals` and `iso_seen`. -/
def rollUp (acc : OrderedDict String Nat × List String) (group : Value × Nat) :
    Except PyErr (OrderedDict String Nat × List String) := do
  let iso ← resolveKey group.1
  let seen := match iso with
    | none => acc.2
    | some iso => if iso ∈ acc.2 then acc.2 else acc.2 ++ [iso]
  return (add acc.1 (entityName iso) group.2, seen)

/-- `get_stats`. -/
def getStats [GroupOrder] (callsign : String) : Db Stats := do
  let bandCounts ← ofExcept (namedCounts (← groupCounts (activeQuery callsign) "BAND"))
  let modeCounts ← ofExcept (namedCounts (← groupCounts (activeQuery callsign) "MODE"))
  let totalQsos ← countDocuments (activeQuery callsign)
  let calls ← groupCounts (activeQuery callsign) "CALL"
  if totalQsos = 0 then return {}
  let rolled ← ofExcept (calls.foldlM rollUp ([], []))
  let unknown := if "Unknown" ∈ rolled.1.map (·.1) then 1 else 0
  return {
    bandCounts, modeCounts, totalQsos
    uniqueEntityCount := rolled.2.length + unknown
    entityCounts := topEntities (rolled.1.insertionSort fun x y ↦ y.2 ≤ x.2) }

end

end Ollog
