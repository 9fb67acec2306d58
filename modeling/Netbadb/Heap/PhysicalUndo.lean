import Mathlib.Tactic

/-!
Physical rollback: a transaction's page records are undone from the newest to the
oldest by putting their before-images back. Pages are seen as the buffer pool
shows them; a page that a transaction appended to the file has the page of zeros
as its before-image and is cut off again.

A rollback may fail at every record and is then called again and starts over from
the newest record.
-/

namespace Netbadb.Heap

abbrev PageId := Nat
abbrev PageGeneration := Nat

structure AllocationIdentity where
  generation : PageGeneration
  owner : Nat
  deriving DecidableEq

structure PageImages (Page : Type) where
  zero : Page
  valid : Page → Bool
  /-- Only B+Tree pages have an allocation generation. -/
  generation : Page → Option PageGeneration
  identity : Page → Option AllocationIdentity
  retired : Page → Bool
  generation_of_identity : ∀ page i, identity page = some i → generation page = some i.generation

inductive UndoError where
  | generationMismatch
  | invalidBeforeImage
  | pageOutsideFile (pageId : PageId)
  | pageCannotBeRemoved (pageId : PageId)
  | invalidTransition
  | unrelatedAllocation
  | io
  deriving DecidableEq

/-- A page record of a transaction. -/
inductive PageChange (Page : Type) where
  | update (pageId : PageId) (before after : Page)
  | transition (pageId : PageId) (before after : Page)

namespace PageChange

variable {Page : Type}

def pageId : PageChange Page → PageId
  | update i _ _ | transition i _ _ => i

def before : PageChange Page → Page
  | update _ b _ | transition _ b _ => b

def after : PageChange Page → Page
  | update _ _ a | transition _ _ a => a

end PageChange

section Undo

variable {Page : Type} [DecidableEq Page] (images : PageImages Page)

/-- `allocation_transition::validate`. -/
def validateTransition (before after : Page) : Except UndoError Unit :=
  match images.identity before, images.identity after with
  | some old, some new =>
    if new.generation ≤ old.generation ∨ (¬ images.retired before ∧ old.owner = new.owner) ∨
        images.retired after then .error .invalidTransition
    else .ok ()
  | _, _ => .error .invalidTransition

/-- Whether the before-image of a transition still has to be restored. -/
def undoTransition (current before after : Page) : Except UndoError Bool :=
  match validateTransition images before after with
  | .error e => .error e
  | .ok _ =>
    if images.identity current = images.identity before then
      if current = before then .ok false else .error .invalidTransition
    else if images.identity current = images.identity after then .ok true
    else .error .unrelatedAllocation

variable (pages : List Page) (pageId : PageId) (before after : Page)

def undoPageUpdate : Except UndoError (List Page) :=
  if ∃ current ∈ pages[pageId]?, current ≠ images.zero ∧
      images.generation current ≠ images.generation after then .error .generationMismatch
  else if before = images.zero then
    if pages.length ≤ pageId then .ok pages
    else if pageId + 1 ≠ pages.length ∨ pageId = 0 then .error (.pageCannotBeRemoved pageId)
    else .ok (pages.take pageId)
  else if ¬ images.valid before then .error .invalidBeforeImage
  else if pages.length ≤ pageId then .error (.pageOutsideFile pageId)
  else .ok (pages.set pageId before)

def undoPageTransition : Except UndoError (List Page) :=
  match pages[pageId]? with
  | none => .error (.pageOutsideFile pageId)
  | some current =>
    match undoTransition images current before after with
    | .error e => .error e
    | .ok false => .ok pages
    | .ok true => .ok (pages.set pageId before)

/-- The allocations whose transition an earlier attempt has already undone. -/
def undoneAllocations (pages : List Page) :
    List (PageChange Page) → Except UndoError (List (PageId × PageGeneration))
  | [] => .ok []
  | .update _ _ _ :: rest => undoneAllocations pages rest
  | .transition pageId before after :: rest =>
    match pages[pageId]? with
    | none => .error (.pageOutsideFile pageId)
    | some current =>
      match undoTransition images current before after, undoneAllocations pages rest with
      | .error e, _ => .error e
      | .ok _, .error e => .error e
      | .ok true, .ok undone => .ok undone
      | .ok false, .ok undone =>
        .ok ((images.generation after).toList.map (pageId, ·) ++ undone)

def undoChange (undone : List (PageId × PageGeneration)) (pages : List Page) :
    PageChange Page → Except UndoError (List Page)
  | .update pageId before after =>
    if ∃ g ∈ images.generation after, (pageId, g) ∈ undone then .ok pages
    else undoPageUpdate images pages pageId before after
  | .transition pageId before after => undoPageTransition images pages pageId before after

/-- What becomes of one record that is undone. -/
inductive FileResult (Page : Type) where
  | done
  /-- The page is pinned, or could not be read or given a frame. -/
  | failedBefore
  /-- The before-image is in its frame or in the file, but a write or a sync failed. -/
  | failedAfter
  /-- The frame of the page was dropped and the file could not be changed: the
  page is what the file has for it, which a torn write makes any page. -/
  | dropped (page : Page)

/-- Undo the records from the newest on. Records beyond the given results are
undone without a failure. -/
def undoChanges (undone : List (PageId × PageGeneration)) :
    List Page → List (PageChange Page) → List (FileResult Page) →
      Except UndoError Unit × List Page
  | pages, [], _ => (.ok (), pages)
  | pages, change :: rest, results =>
    match results.head?.getD .done, undoChange images undone pages change with
    | .failedBefore, _ => (.error .io, pages)
    | _, .error e => (.error e, pages)
    | .failedAfter, .ok pages => (.error .io, pages)
    | .dropped page, .ok _ => (.error .io, pages.set change.pageId page)
    | .done, .ok pages => undoChanges undone pages rest results.tail

def undoRecords (pages : List Page) (changes : List (PageChange Page))
    (results : List (FileResult Page)) : Except UndoError Unit × List Page :=
  match undoneAllocations images pages changes with
  | .error e => (.error e, pages)
  | .ok undone => undoChanges images undone pages changes results

end Undo

end Netbadb.Heap
