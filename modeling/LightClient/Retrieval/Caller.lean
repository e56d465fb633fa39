/-
Module: LightClient.Retrieval.Caller
Purpose: The calls for data, and how far each of them is.
Main exports: Retrieved, Caller, Caller.Stage, Caller.result?
-/
import LightClient.Retrieval.Query
import LightClient.Request.Key

namespace LightClient

/-- What a retrieval comes to. -/
abbrev Retrieved := Except RetrievalError Item

namespace Caller

/-- The place of a caller at a flight. -/
structure Seat where
  key : RequestKey
  flight : Nat
  waiter : Nat
  deriving DecidableEq

/-- How far a call is. -/
inductive Stage where
  | asking
  /-- The root of a section is being looked up. -/
  | resolving (trie : HelperTrie) (sectionIndex : UInt64) (key : Bytes) (minHead : UInt64)
  /-- The request is known, and the flights have not been looked at. -/
  | bound (request : Request)
  /-- The caller waits for a flight. -/
  | waiting (seat : Seat)
  /-- The flight has landed, and the caller has not yet taken what it brought. -/
  | handed (seat : Seat) (result : Retrieved)
  | returned (result : Retrieved)
  /-- The caller is gone without a result. -/
  | dropped

end Caller

/-- A call for data. -/
structure Caller where
  query : Query
  /-- The caller no longer wants the data. -/
  canceled : Bool
  stage : Caller.Stage

namespace Caller

def fresh (q : Query) : Caller :=
  ⟨q, false, .asking⟩

def result? (c : Caller) : Option Retrieved :=
  match c.stage with
  | .returned r => some r
  | _ => none

def isOver (c : Caller) : Bool :=
  match c.stage with
  | .returned _ => true
  | .dropped => true
  | _ => false

/-- The place a caller holds at a flight. -/
def seat? (c : Caller) : Option Seat :=
  match c.stage with
  | .waiting seat => some seat
  | .handed seat _ => some seat
  | _ => none

end Caller

end LightClient
