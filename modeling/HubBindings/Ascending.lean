/-!
Sets and tables as ascending lists without repetitions. The order in which elements arrive leaves
no trace, so two lists with the same elements are equal.
-/

namespace HubBindings.Ascending

variable {α κ ν : Type} [Ord α] [Ord κ]

/-- Inserts an element into an ascending list, unless it is there. -/
def insert (a : α) : List α → List α
  | [] => [a]
  | b :: rest =>
    match compare a b with
    | .lt => a :: b :: rest
    | .eq => b :: rest
    | .gt => b :: insert a rest

/-- Inserts elements one after the other. -/
def insertAll (as : List α) (set : List α) : List α := as.foldl (fun s a => insert a s) set

/-- The ascending list of the elements of a list. -/
def ofList (as : List α) : List α := insertAll as []

/-- Changes the value under a key of an ascending table; `change none` makes a new entry. -/
def alter (key : κ) (change : Option ν → ν) : List (κ × ν) → List (κ × ν)
  | [] => [(key, change none)]
  | (k, v) :: rest =>
    match compare key k with
    | .lt => (key, change none) :: (k, v) :: rest
    | .eq => (k, change (some v)) :: rest
    | .gt => (k, v) :: alter key change rest

/-- Writes a value under a key; a later value replaces an earlier one. -/
def put (key : κ) (v : ν) (table : List (κ × ν)) : List (κ × ν) := alter key (fun _ => v) table

/-- Groups values by key. Keys ascend, and the values of one key keep their order. -/
def group (pairs : List (κ × ν)) : List (κ × List ν) :=
  pairs.foldl (fun table (k, v) => alter k (fun vs => vs.getD [] ++ [v]) table) []

/-- Groups values by key. Keys ascend, and so do the values of one key. -/
def groupSets (pairs : List (κ × α)) : List (κ × List α) :=
  pairs.foldl (fun table (k, a) => alter k (fun s => insert a (s.getD [])) table) []

end HubBindings.Ascending
