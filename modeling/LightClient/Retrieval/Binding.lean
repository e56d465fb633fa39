/-
Module: LightClient.Retrieval.Binding
Purpose: Ties a query to the trusted root that its answer is checked against.
Main exports: Binding, saturatingAdd, sectionEnd, Query.binding, Query.request
-/
import LightClient.HelperTrie
import LightClient.Request
import LightClient.Retrieval.Query
import LightClient.SectionRoots
import LightClient.Settings.Modules

namespace LightClient

/-- How far a query is tied to a root. -/
inductive Binding where
  /-- The root is known from the query itself. -/
  | complete (request : Request)
  /-- The root of a section is still to be looked up. -/
  | perSection (trie : HelperTrie) (sectionIndex : UInt64) (key : Bytes) (minHead : UInt64)
  deriving DecidableEq

/-- The sum of two words; the largest word if the sum is no word. -/
def saturatingAdd (a b : UInt64) : UInt64 :=
  if a.toNat + b.toNat < UInt64.size then a + b else UInt64.ofNat (UInt64.size - 1)

theorem toNat_saturatingAdd (a b : UInt64) :
    (saturatingAdd a b).toNat = min (a.toNat + b.toNat) (UInt64.size - 1) := by
  unfold saturatingAdd
  split
  next hfits =>
    rw [UInt64.toNat_add, Nat.mod_eq_of_lt hfits, Nat.min_eq_left (Nat.le_sub_one_of_lt hfits)]
  next hfull =>
    have htop : (UInt64.ofNat (UInt64.size - 1)).toNat = UInt64.size - 1 := by decide
    omega

/-- The word after the last one, which is no word, is above no word. -/
theorem saturatingAdd_one_lt_iff {a b : UInt64} :
    saturatingAdd a 1 < b ↔ a.toNat + 1 < b.toNat := by
  have hb : b.toNat < UInt64.size := b.toNat_lt
  have hone : (1 : UInt64).toNat = 1 := rfl
  rw [UInt64.lt_iff_toNat_lt, toNat_saturatingAdd, hone]
  omega

/-- The last block of a section. Sections whose end is not a block number are refused. -/
def sectionEnd (index size : UInt64) : Except RetrievalError UInt64 :=
  if (index.toNat + 1) * size.toNat < UInt64.size then
    .ok (UInt64.ofNat ((index.toNat + 1) * size.toNat - 1))
  else
    .error (.sectionPastLastBlock index size)

namespace Query

/-- Ties a query to its root as far as this is possible without looking anything up. A header
range must not be empty and must not start before the first block; every count fits below the top
block. -/
def binding (s : RetrievalSettings) : Query → Except RetrievalError Binding
  | headers anchor anchorNumber count =>
    if count = 0 ∨ saturatingAdd anchorNumber 1 < count then
      .error (.invalidRange count anchorNumber)
    else
      .ok (.complete (.headerRange anchor anchorNumber count))
  | body h => .ok (.complete (.body h.hash h.number h.transactionsRoot h.ommersHash))
  | receipts h => .ok (.complete (.receipts h.hash h.number h.receiptsRoot))
  | account h key => .ok (.complete (.stateProof h.hash h.number h.stateRoot key))
  | storage h root key => .ok (.complete (.stateProof h.hash h.number root key))
  | code h codeHash => .ok (.complete (.code h.hash h.number codeHash))
  | canonicalHeader number => do
    let index := number / s.canonicalHashSection
    let last ← sectionEnd index s.canonicalHashSection
    .ok (.perSection .canonicalHash index (HelperTrie.blockKey number) last)
  | bloomBits bit index => do
    let last ← sectionEnd index s.bloomSection
    .ok (.perSection .bloom index (HelperTrie.bitKey bit index) last)

end Query

/-- Ties a query to its root, given the answers to lookups. -/
def Query.request (s : RetrievalSettings) (lookup : HelperTrie → UInt64 → SectionRoots.Answer)
    (q : Query) : Except RetrievalError Request := do
  match ← q.binding s with
  | .complete r => .ok r
  | .perSection trie index key minHead =>
    let root ← SectionRoots.accept trie index (lookup trie index)
    .ok (.helperTrieProof trie index root key minHead)

end LightClient
