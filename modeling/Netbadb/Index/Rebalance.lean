import Netbadb.Index.Node

/-!
Splits at a deterministic encoded-byte boundary, byte-aware merges, and the
encoders with the length of the payload they produce.
-/

namespace Netbadb

/-- The lexicographically smaller of the best `(imbalance, position)` so far
and a new candidate. -/
def betterSplit (best : Option (Nat × Nat)) (imbalance position : Nat) : Option (Nat × Nat) :=
  match best with
  | none => some (imbalance, position)
  | some (bestImbalance, bestPosition) =>
    if imbalance < bestImbalance ∨ (imbalance = bestImbalance ∧ position < bestPosition) then
      some (imbalance, position)
    else best

/-- Tries every position in turn and keeps the most balanced one whose two
halves both fit. -/
def chooseSplit (capacity : Nat) (sizes : Nat → Except IndexError (Nat × Nat))
    (positions : List Nat) : Except IndexError (Option (Nat × Nat)) :=
  positions.foldlM (fun best position => do
    let (leftSize, rightSize) ← sizes position
    if leftSize ≤ capacity ∧ rightSize ≤ capacity then
      return betterSplit best ((leftSize - rightSize) + (rightSize - leftSize)) position
    else return best) none

variable (spec : IndexSpec)

/-- Chooses an encoded-byte boundary and links two fitting leaves. -/
def splitLeaf (entries : List IndexEntry) (oldNext : Option BTreePageRef) (rightPage : BTreePageRef)
    (capacity : Nat) : Except IndexError (LeafNode × LeafNode × IndexEntryKey) := do
  validateRef rightPage
  if entries.length < 2 then throw (.nodeTooLarge (encodedEntriesSize entries) capacity)
  let generated := rightPage.generation.isSome
  let leftAt (split : Nat) : LeafNode :=
    { entries := entries.take split, nextLeaf := some rightPage }
  let rightAt (split : Nat) : LeafNode :=
    { entries := entries.drop split, nextLeaf := oldNext }
  let sizes (split : Nat) : Except IndexError (Nat × Nat) := do
    let leftSize ← leafEncodedLen spec (leftAt split) generated
    let rightSize ← leafEncodedLen spec (rightAt split) generated
    return (leftSize, rightSize)
  match ← chooseSplit capacity sizes (List.range' 1 (entries.length - 1)) with
  | none => throw (.nodeTooLarge (encodedEntriesSize entries) capacity)
  | some (_, split) =>
    match (rightAt split).entries.head? with
    | none => throw .invalidEntryOrder
    | some promoted => return (leftAt split, rightAt split, promoted)

/-- Promotes one full separator at an encoded-byte boundary. The boundary may
be the first or the last separator, which leaves a node with one child. -/
def splitInternal (node : InternalNode) (capacity : Nat) :
    Except IndexError (InternalNode × IndexEntryKey × InternalNode) := do
  validateInternal spec node
  let halves (middle : Nat) (promoted : InternalSeparator) : InternalNode × InternalNode :=
    ({ firstChild := node.firstChild, separators := node.separators.take middle },
      { firstChild := promoted.rightChild, separators := node.separators.drop (middle + 1) })
  let sizes (middle : Nat) : Except IndexError (Nat × Nat) :=
    match node.separators[middle]? with
    | none => throw .invalidNodeType
    | some promoted => do
        let leftSize ← internalEncodedLen spec (halves middle promoted).1
        let rightSize ← internalEncodedLen spec (halves middle promoted).2
        return (leftSize, rightSize)
  match ← chooseSplit capacity sizes (List.range node.separators.length) with
  | none => do
      let size ← internalEncodedLen spec node
      throw (.nodeTooLarge size capacity)
  | some (_, middle) =>
    match node.separators[middle]? with
    | none => throw .invalidNodeType
    | some promoted =>
      return ((halves middle promoted).1, promoted.key, (halves middle promoted).2)

/-- Merges adjacent leaves when the result fits one page. The caller keeps the
left physical page. -/
def mergeLeavesIfFits (left right : LeafNode) (capacity : Nat) :
    Except IndexError (Option LeafNode) := do
  let merged : LeafNode :=
    { entries := left.entries ++ right.entries, nextLeaf := right.nextLeaf }
  let generated := left.nextLeaf.any (·.generation.isSome)
  let size ← leafEncodedLen spec merged generated
  return if size ≤ capacity then some merged else none

/-- Merges adjacent internal nodes through their parent's fence when the
result fits one page. -/
def mergeInternalsIfFits (left : InternalNode) (parentFence : IndexEntryKey)
    (right : InternalNode) (capacity : Nat) : Except IndexError (Option InternalNode) := do
  spec.validateKey parentFence.key
  validateRowId parentFence.rowId
  validateRef right.firstChild
  let merged : InternalNode :=
    { firstChild := left.firstChild
      separators := left.separators ++
        { key := parentFence, rightChild := right.firstChild } :: right.separators }
  let size ← internalEncodedLen spec merged
  return if size ≤ capacity then some merged else none

/-- The common header of a payload: magic, version, and the identity words. -/
def commonHeaderGeneration (owner : Option Nat) (generation : Option Nat) :
    Except IndexError Nat := do
  if generation.isSome ∧ owner.isNone then throw (.invalidIndexId 0)
  if let some owner := owner then
    if owner = 0 then throw (.invalidIndexId owner)
  if let some generation := generation then validateGeneration generation
  return commonHeaderSize + (if owner.isSome then 8 else 0) + (if generation.isSome then 8 else 0)

/-- One encoded pointer. A payload holds legacy or allocated pointers
throughout. -/
def encodePageRef (reference : Option BTreePageRef) (generated : Bool) : Except IndexError Nat := do
  if let some reference := reference then
    validateRef reference
    if reference.generation.isSome ≠ generated then throw .invalidNodeType
  return pointerWidth generated

def encodeMeta (node : MetaNode) : Except IndexError Nat := do
  validateMeta node
  let header ← commonHeaderGeneration node.owner node.generation
  let root ← encodePageRef (some node.rootPage) node.generation.isSome
  return header + root + 4 + 4 + (4 + (utf8Bytes (node.spec.dataType.name.getD "")).length)

def encodeLeafGeneration (node : LeafNode) (owner : Option Nat)
    (generation : Option Nat) : Except IndexError Nat := do
  validateLeaf spec node
  let header ← commonHeaderGeneration owner generation
  let next ← encodePageRef node.nextLeaf generation.isSome
  return header + 4 + next + (node.entries.map encodedEntryLen).sum

def encodeInternalGeneration (node : InternalNode) (owner : Option Nat)
    (generation : Option Nat) : Except IndexError Nat := do
  validateInternal spec node
  let header ← commonHeaderGeneration owner generation
  let first ← encodePageRef (some node.firstChild) generation.isSome
  node.separators.forM fun separator => do
    let _ ← encodePageRef (some separator.rightChild) generation.isSome
  return header + 4 + first + (node.separators.map fun separator =>
    encodedEntryLen separator.key + pointerWidth generation.isSome).sum

def validateBTreeOwner (expected actual : Option Nat) : Except IndexError Unit :=
  if expected ≠ actual then .error (.ownerMismatch expected actual) else .ok ()

def validateBTreeGeneration (expected actual : Option Nat) : Except IndexError Unit :=
  if expected ≠ actual then .error (.generationMismatch expected actual) else .ok ()

end Netbadb
