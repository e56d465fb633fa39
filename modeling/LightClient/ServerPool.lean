/-
Module: LightClient.ServerPool
Purpose: The addresses of possible peers, which of them are worth dialing, and which are connected.
Main exports: ServerPool, ServerPool.addKnown, ServerPool.suggest, ServerPool.report,
  ServerPool.connected, ServerPool.disconnected, ServerPool.preferred, ServerPool.hear
-/
import LightClient.Registry
import LightClient.ServerPool.BackOff

namespace LightClient

/-- What is going on at an address. -/
inductive Candidacy where
  | known
  | dialing
  | connected
  deriving Repr, DecidableEq

/-- An address and the results of dialing it. -/
structure Candidate where
  /-- The place in the order of first mention. -/
  seq : Nat
  successes : Nat
  failures : Nat
  /-- Failures since the last success. -/
  consecutiveFailures : Nat
  state : Candidacy
  deriving Repr, DecidableEq

namespace Candidate

def fresh (seq : Nat) : Candidate :=
  ⟨seq, 0, 0, 0, .known⟩

/-- The share of successes, starting from one of each kind, so that a fresh address has one half. -/
def successRatio (c : Candidate) : Float :=
  (Float.ofNat c.successes + 1.0) / (Float.ofNat (c.successes + c.failures) + 2.0)

/-- One candidate ranks before another: by success ratio downwards, then by successes downwards,
then by first mention. -/
def ranksBefore (a b : Candidate) : Bool :=
  let x := Decimal.orderKey a.successRatio
  let y := Decimal.orderKey b.successRatio
  if x ≠ y then y < x
  else if a.successes ≠ b.successes then b.successes < a.successes
  else a.seq < b.seq

end Candidate

/-- The addresses of possible peers. -/
structure ServerPool [DelaySeries] where
  settings : PoolSettings
  candidates : Table PeerAddr Candidate
  backOffs : Table PeerAddr BackOff
  nextSeq : Nat

namespace ServerPool

variable [DelaySeries]

def empty (s : PoolSettings) : ServerPool :=
  ⟨s, [], [], 0⟩

/-- Mentions an address; one that is known stays as it is. -/
def mention (p : ServerPool) (a : PeerAddr) : ServerPool :=
  if p.candidates.contains a then p
  else
    { p with
      candidates := p.candidates.insert a (Candidate.fresh p.nextSeq)
      nextSeq := p.nextSeq + 1 }

def addKnown (p : ServerPool) (addrs : List PeerAddr) : ServerPool :=
  addrs.foldl mention p

def update (p : ServerPool) (a : PeerAddr) (f : Candidate → Candidate) : ServerPool :=
  { p with candidates := p.candidates.modify a f }

/-- Begins the next interval for an address. -/
def backOff (p : ServerPool) (now : Nat) (a : PeerAddr) : ServerPool :=
  let next := match p.backOffs.get? a with
    | some b => b.again now
    | none => BackOff.begin p.settings now
  { p with backOffs := p.backOffs.insert a next }

/-- Ends the series of intervals of an address. -/
def clearBackOff (p : ServerPool) (a : PeerAddr) : ServerPool :=
  { p with backOffs := p.backOffs.erase a }

def forget (p : ServerPool) (a : PeerAddr) : ServerPool :=
  { p with candidates := p.candidates.erase a, backOffs := p.backOffs.erase a }

/-- The address is left alone. -/
def isBackedOff (p : ServerPool) (now : Nat) (a : PeerAddr) : Bool :=
  (p.backOffs.get? a).any (BackOff.isActive now)

/-- The candidates that pass the filter and are not left alone, best first. -/
def ranked (p : ServerPool) (now : Nat) (accept : Candidate → Bool) : List PeerAddr :=
  let available := p.candidates.filter fun c => accept c.2 && !p.isBackedOff now c.1
  (available.mergeSort fun a b => !Candidate.ranksBefore b.2 a.2).map Prod.fst

/-- The best address that is neither connected nor being dialed; it counts as being dialed now. -/
def suggest (p : ServerPool) (now : Nat) : Option PeerAddr × ServerPool :=
  match (p.ranked now fun c => c.state = .known).head? with
  | some a => (some a, p.update a fun c => { c with state := .dialing })
  | none => (none, p)

/-- Takes up the result of dialing an address. After too many failures in a row it is forgotten. -/
def report (p : ServerPool) (now : Nat) (a : PeerAddr) (success : Bool) : ServerPool :=
  let p := p.mention a
  if success then
    (p.update a fun c =>
      { c with successes := c.successes + 1, consecutiveFailures := 0, state := .connected }
      ).clearBackOff a
  else
    let p := p.update a fun c =>
      { c with
        failures := c.failures + 1
        consecutiveFailures := c.consecutiveFailures + 1
        state := .known }
    let failures := ((p.candidates.get? a).map Candidate.consecutiveFailures).getD 0
    if p.settings.maxConsecutiveFailures.toNat ≤ failures then p.forget a else p.backOff now a

/-- A peer at the address is connected. -/
def connected (p : ServerPool) (a : PeerAddr) : ServerPool :=
  ((p.mention a).update a fun c => { c with state := .connected }).clearBackOff a

/-- The peer at the address is gone; after an eviction the address is left alone for a while. -/
def disconnected (p : ServerPool) (now : Nat) (a : PeerAddr) (evicted : Bool) : ServerPool :=
  if p.candidates.contains a then
    let p := p.update a fun c => { c with state := .known }
    if evicted then p.backOff now a else p
  else p

/-- All addresses that are not left alone, best first; with a limit, the best of them. -/
def preferred (p : ServerPool) (now : Nat) (limit : Option Nat) : List PeerAddr :=
  let all := p.ranked now fun _ => true
  match limit with
  | some n => all.take n
  | none => all

/-- Follows a change of the registry. -/
def hear (p : ServerPool) (now : Nat) (e : Registry.Event) : ServerPool :=
  match e with
  | .registered info =>
    match info.addr with
    | some a => p.connected a
    | none => p
  | .removed info reason =>
    match info.addr with
    | some a => p.disconnected now a (reason = .evicted)
    | none => p
  | .updated _ => p

end ServerPool

end LightClient
