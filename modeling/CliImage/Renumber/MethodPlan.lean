import CliImage.Image.Basic
import CliImage.Renumber.RidMap

/-!
The order of the method rows once added methods stand with those of their types.
-/

namespace CliImage

inductive PlannedMethod
  | existing (rid : Nat)
  | added (method : Nat)
  deriving DecidableEq, Repr, Inhabited

/-- The planned rows, the new number of each old row, and for each type its first row. -/
structure MethodPlan where
  rows : Array PlannedMethod
  rids : RidMap
  firstRows : Array UInt32

namespace MethodPlan

/-- A plan under construction: `next` is the lowest old row not yet passed. -/
structure Draft where
  rows : Array PlannedMethod
  targets : Array UInt32
  firstRows : Array UInt32
  next : Nat

namespace Draft

def place (d : Draft) (rid : Nat) : Draft :=
  let rows := d.rows.push (.existing rid)
  { d with rows, targets := d.targets.setIfInBounds (rid - 1) (UInt32.ofNat rows.size) }

/-- Places the old rows below a number that have not been passed. -/
def placeBelow (d : Draft) (stop : Nat) : Draft :=
  let rows := List.range' d.next (stop - d.next)
  { rows.foldl place d with next := max d.next stop }

def placeMethod (image : Image) (d : Draft) (method : Nat) : Draft :=
  match (image.methods[method]?).bind Method.rid with
  | some rid =>
    let d := d.place rid
    { d with next := max d.next (rid + 1) }
  | none => { d with rows := d.rows.push (.added method) }

/-- Rows that no type owns keep their place before the next type that owns an old row. -/
def placeType (image : Image) (d : Draft) (t : TypeDef) : Draft :=
  let d :=
    match t.methods.toList.findSome? fun i => (image.methods[i]?).bind Method.rid with
    | some first => d.placeBelow first
    | none => d
  let d := { d with firstRows := d.firstRows.push (UInt32.ofNat (d.rows.size + 1)) }
  t.methods.foldl (placeMethod image) d

end Draft

def ofImage (image : Image) : MethodPlan :=
  let old := image.metadata.tables.count .methodDef
  let start : Draft := ⟨#[], Array.replicate old 0, #[], 1⟩
  let d := (image.types.foldl (Draft.placeType image) start).placeBelow (old + 1)
  ⟨d.rows, ⟨.methodDef, d.targets⟩, d.firstRows⟩

/-- The added methods with their new row numbers. -/
def added (plan : MethodPlan) : List (Nat × Nat) :=
  plan.rows.toList.zipIdx.filterMap fun (row, i) =>
    match row with
    | .added method => some (i + 1, method)
    | .existing _ => none

def isUnchanged (plan : MethodPlan) : Bool := plan.added.isEmpty && plan.rids.isIdentity

/-- The rows of the plan, added ones made by a function. -/
def newRows (plan : MethodPlan) (old : Tables) (addedRow : Nat → Result Row) :
    Result (List Row) :=
  plan.rows.toList.mapM fun planned =>
    match planned with
    | .existing rid =>
      match old.row? .methodDef rid with
      | some row => .ok row
      | none => .error (.fault (.methodRow rid))
    | .added method => addedRow method

/-- Gives added methods an empty run of parameters, at the start of the next old row's run. -/
def fillParams (stop : UInt32) : List (PlannedMethod × Row) → List Row × UInt32
  | [] => ([], stop)
  | (planned, row) :: rest =>
    let (rows, next) := fillParams stop rest
    match planned with
    | .added _ => (row.setIfInBounds 5 next :: rows, next)
    | .existing _ => (row :: rows, row.getD 5 0)

def setFirstRows (firstRows : Array UInt32) (types : Array Row) : Array Row :=
  types.mapIdx fun i row =>
    match firstRows[i]? with
    | some first => row.setIfInBounds 5 first
    | none => row

/-- Puts the method rows in their planned order. -/
def apply (plan : MethodPlan) (ts : Tables) (addedRow : Nat → Result Row) : Result Tables := do
  let rows ← plan.newRows ts addedRow
  let (rows, _) := fillParams (UInt32.ofNat (ts.count .param + 1)) (plan.rows.toList.zip rows)
  let ts := ts.setTable .methodDef rows.toArray
  .ok (ts.setTable .typeDef (setFirstRows plan.firstRows (ts.table .typeDef)))

end MethodPlan

end CliImage
