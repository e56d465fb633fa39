/-
Module: LightClient.Table
Purpose: Finite maps kept as lists of pairs, each key once, in the order of first insertion.
Main exports: Table, Table.get?, Table.insert, Table.erase, Table.modify, Table.keys
-/

namespace LightClient

/-- A finite map. -/
abbrev Table (κ ν : Type) := List (κ × ν)

namespace Table

variable {κ ν : Type} [DecidableEq κ]

/-- The value of a key. -/
def get? (t : Table κ ν) (k : κ) : Option ν :=
  match t with
  | [] => none
  | (a, v) :: rest => if a = k then some v else get? rest k

/-- The key has a value. -/
def contains (t : Table κ ν) (k : κ) : Bool :=
  (t.get? k).isSome

/-- Sets the value of a key. -/
def insert (t : Table κ ν) (k : κ) (v : ν) : Table κ ν :=
  match t with
  | [] => [(k, v)]
  | (a, w) :: rest => if a = k then (k, v) :: rest else (a, w) :: insert rest k v

def erase (t : Table κ ν) (k : κ) : Table κ ν :=
  t.filter fun p => p.1 ≠ k

/-- Changes the value of a key that has one. -/
def modify (t : Table κ ν) (k : κ) (f : ν → ν) : Table κ ν :=
  match t with
  | [] => []
  | (a, v) :: rest => if a = k then (a, f v) :: rest else (a, v) :: modify rest k f

def keys (t : Table κ ν) : List κ :=
  t.map Prod.fst

def values (t : Table κ ν) : List ν :=
  t.map Prod.snd

end Table

end LightClient
