import CliImage.Renumber.Columns

/-!
Sorting the tables that are flagged as sorted. Rows that move are renumbered where they are
referenced, in the PDB's tables too.
-/

namespace CliImage

/-- Whether a row may stand before another, by the columns of a key. -/
def keyLe : List Nat → Row → Row → Bool
  | [], _, _ => true
  | column :: rest, a, b =>
    let x := a.getD column 0
    let y := b.getD column 0
    x < y || (x == y && keyLe rest a b)

namespace Tables

/-- The places of the rows in sorted order; rows with equal keys stay in their order. -/
def sortedOrder (key : List Nat) (rows : Array Row) : List Nat :=
  (List.range rows.size).mergeSort fun i j => keyLe key (rows.getD i #[]) (rows.getD j #[])

/-- From an order of places to the new number of each row. -/
def ridMapOf (t : TableId) (order : List Nat) : RidMap :=
  ⟨t, order.zipIdx.foldl (fun targets (old, new) =>
    targets.setIfInBounds old (UInt32.ofNat (new + 1))) (Array.replicate order.length 0)⟩

/-- Sorts one table; no map where every row stays. -/
def sortTable (ts : Tables) (t : TableId) : Tables × Option RidMap :=
  match t.sortKey? with
  | none => (ts, none)
  | some key =>
    let rows := ts.table t
    let order := sortedOrder key rows
    if order = List.range rows.size then (ts, none)
    else (ts.setTable t (order.map fun i => rows.getD i #[]).toArray, some (ridMapOf t order))

end Tables

/-- The tables of an image and of its PDB. -/
structure TablePair where
  image : Tables
  symbols : Option Tables

namespace TablePair

/-- The sorted image tables that name other rows by number come behind those they name. -/
def imageOrder : List TableId :=
  let sorted := TableId.all.filter fun t => t.sortKey?.isSome && !t.isDebug
  [.genericParam] ++ sorted.filter (fun t => t ≠ .genericParam ∧ t ≠ .customAttribute)
    ++ [.customAttribute]

def symbolOrder : List TableId := TableId.all.filter fun t => t.isDebug && t.sortKey?.isSome

def sortImage : List TableId → TablePair → TablePair × Option Error
  | [], pair => (pair, none)
  | t :: rest, pair =>
    if pair.image.isSorted t then
      match pair.image.sortTable t with
      | (_, none) => sortImage rest pair
      | (image, some map) =>
        let image := image.renumber map
        match image.failure with
        | some e => ({ pair with image := image.value }, some e)
        | none =>
          match pair.symbols with
          | none => sortImage rest { pair with image := image.value }
          | some symbols =>
            let symbols := symbols.renumber map
            match symbols.failure with
            | some e => (⟨image.value, some symbols.value⟩, some e)
            | none => sortImage rest ⟨image.value, some symbols.value⟩
    else sortImage rest pair

def sortSymbols : List TableId → Tables → Tables × Option Error
  | [], symbols => (symbols, none)
  | t :: rest, symbols =>
    if symbols.isSorted t then
      match symbols.sortTable t with
      | (_, none) => sortSymbols rest symbols
      | (symbols, some map) =>
        let symbols := symbols.renumber map
        match symbols.failure with
        | some e => (symbols.value, some e)
        | none => sortSymbols rest symbols.value
    else sortSymbols rest symbols

/-- Sorts the image's tables, then the PDB's; the tables as they are where it ends early. -/
def sort (pair : TablePair) : TablePair × Option Error :=
  match sortImage imageOrder pair with
  | (pair, some e) => (pair, some e)
  | (pair, none) =>
    match pair.symbols with
    | none => (pair, none)
    | some symbols =>
      let (symbols, failure) := sortSymbols symbolOrder symbols
      (⟨pair.image, some symbols⟩, failure)

def sorted (pair : TablePair) : Result TablePair :=
  match pair.sort with
  | (_, some e) => .error e
  | (pair, none) => .ok pair

end TablePair

end CliImage
