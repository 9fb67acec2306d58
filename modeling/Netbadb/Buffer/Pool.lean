import Netbadb.Wal.Manager

/-!
The buffer pool: a bounded list of frames over the page file, filled on a miss,
emptied round-robin among the frames nobody has pinned, and written back only
after the log is durable up to the page's position.

Page bytes are a parameter. The page file is the list of its pages; a write that
fails may leave anything in its page. Calls that fail return the pool they leave,
since an error does not undo what was done before it.
-/

namespace Netbadb.Buffer

open Netbadb.Wal (Lsn WalManager WalError reaches)

abbrev PageId := Nat
abbrev PageGeneration := Nat

inductive PageError where
  | invalidHeader
  | generationMismatch
  deriving DecidableEq

/-- What the pool reads from page bytes. -/
structure PageBytes (Page : Type) where
  zero : Page
  isZero : Page → Bool
  /-- The pageLSN of a page with a valid header. -/
  pageLsn : Page → Except PageError (Option Lsn)
  validateAllocation : Page → Option PageGeneration → Except PageError Unit
  zero_unlogged : ∀ lsn, pageLsn zero ≠ .ok (some lsn)

inductive BufferError where
  | exhausted (capacity : Nat)
  | pagePinned (pageId : PageId)
  | pinCountOverflow (pageId : PageId)
  | pageNotCached (pageId : PageId)
  | walUnavailable (pageId : PageId) (pageLsn : Lsn)
  | page (error : PageError)
  | wal (error : WalError)
  | pageOutsideFile (pageId : PageId)
  | pageCannotBeRemoved (pageId : PageId)
  | pageOffsetOverflow (pageId : PageId)
  | io

structure BufferFrame (Page : Type) where
  pageId : PageId
  page : Page
  pinCount : Nat
  writer : Bool
  dirty : Bool

/-- An image handed to the page file, with the durable position at that moment. -/
structure PageWrite (Page : Type) where
  pageId : PageId
  page : Page
  durableLsn : Option Lsn

structure BufferState (Page : Type) where
  disk : List Page
  frames : List (BufferFrame Page)
  capacity : Nat
  nextVictim : Nat
  wal : Option WalManager
  /-- Every image handed to the page file so far. -/
  written : List (PageWrite Page)

inductive WriteResult (Page : Type) where
  | done
  /-- The write failed and may have left other bytes in the page. -/
  | failed (left : Option Page)

structure FileResults (Page : Type) where
  read : Bool
  walSync : PageId → Bool
  write : PageId → WriteResult Page
  extend : Bool
  truncate : Bool
  sync : Bool

abbrev Call (Page α : Type) := Except BufferError α × BufferState Page

namespace BufferState

variable {Page : Type} (bytes : PageBytes Page) (files : FileResults Page) (pool : BufferState Page)
  (pageId : PageId)

def findFrame : Option Nat :=
  pool.frames.findIdx? fun frame => frame.pageId = pageId

def removeFrame (index : Nat) : BufferState Page :=
  let frames := pool.frames.eraseIdx index
  { pool with frames := frames, nextVictim := min pool.nextVictim (frames.length - 1) }

def readPage : Except BufferError Page :=
  match pool.disk[pageId]? with
  | none => .error (.pageOutsideFile pageId)
  | some page => if files.read then .ok page else .error .io

def writePage (page : Page) : Call Page Unit :=
  if pool.disk.length ≤ pageId then (.error (.pageOutsideFile pageId), pool)
  else
    let write : PageWrite Page := ⟨pageId, page, pool.wal.bind (·.durableLsn)⟩
    let pool := { pool with written := pool.written ++ [write] }
    match files.write pageId with
    | .done => (.ok (), { pool with disk := pool.disk.set pageId page })
    | .failed none => (.error .io, pool)
    | .failed (some left) => (.error .io, { pool with disk := pool.disk.set pageId left })

def syncDisk : Call Page Unit := (if files.sync then .ok () else .error .io, pool)

def syncLog (page : Page) : Except BufferError (Option WalManager) :=
  if pageId = 0 then .ok pool.wal
  else
    match bytes.pageLsn page with
    | .error e => .error (.page e)
    | .ok none => .ok pool.wal
    | .ok (some lsn) =>
      match pool.wal with
      | none => .error (.walUnavailable pageId lsn)
      | some wal =>
        match wal.flushThrough lsn with
        | .error e => .error (.wal e)
        | .ok wal' =>
          if reaches wal.durableLsn lsn ∨ files.walSync pageId then .ok (some wal')
          else .error .io

def flushFrame (index : Nat) : Call Page Unit :=
  match pool.frames[index]? with
  | none => (.error (.exhausted pool.capacity), pool)
  | some frame =>
    if frame.writer then (.error (.pagePinned frame.pageId), pool)
    else if frame.dirty then
      match pool.syncLog bytes files frame.pageId frame.page with
      | .error e => (.error e, pool)
      | .ok wal =>
        match { pool with wal := wal }.writePage files frame.pageId frame.page with
        | (.error e, pool) => (.error e, pool)
        | (.ok _, pool) =>
          (.ok (), { pool with frames := pool.frames.set index { frame with dirty := false } })
    else (.ok (), pool)

/-- The first frame nobody has pinned, round-robin from the last victim. -/
def victim : Option Nat :=
  ((List.range pool.frames.length).map fun offset =>
    (pool.nextVictim + offset) % pool.frames.length).find? fun index =>
      (pool.frames[index]?).any fun frame => frame.pinCount = 0

def prepareFrame : Call Page Nat :=
  if pool.frames.length < pool.capacity then (.ok pool.frames.length, pool)
  else
    match pool.victim with
    | none => (.error (.exhausted pool.capacity), pool)
    | some index =>
      match pool.flushFrame bytes files index with
      | (.error e, pool) => (.error e, pool)
      | (.ok _, pool) =>
        (.ok index, { pool with nextVictim := (index + 1) % pool.frames.length })

def installFrame (index : Nat) (frame : BufferFrame Page) : BufferState Page :=
  if index = pool.frames.length then { pool with frames := pool.frames ++ [frame] }
  else { pool with frames := pool.frames.set index frame }

/-- Read a page that is not cached into a frame of its own. -/
def loadPage (writer : Bool) : Call Page Page :=
  match pool.readPage files pageId with
  | .error e => (.error e, pool)
  | .ok page =>
    match pool.prepareFrame bytes files with
    | (.error e, pool) => (.error e, pool)
    | (.ok index, pool) => (.ok page, pool.installFrame index ⟨pageId, page, 1, writer, false⟩)

def pinRead : Call Page Page :=
  match pool.findFrame pageId with
  | some index =>
    match pool.frames[index]? with
    | none => (.error .io, pool)
    | some frame =>
      if frame.writer then (.error (.pagePinned pageId), pool)
      else if 2 ^ 32 ≤ frame.pinCount + 1 then (.error (.pinCountOverflow pageId), pool)
      else
        (.ok frame.page, { pool with
          frames := pool.frames.set index { frame with pinCount := frame.pinCount + 1 } })
  | none => pool.loadPage bytes files pageId false

def pinWrite : Call Page Page :=
  match pool.findFrame pageId with
  | some index =>
    match pool.frames[index]? with
    | none => (.error .io, pool)
    | some frame =>
      if frame.pinCount ≠ 0 then (.error (.pagePinned pageId), pool)
      else
        (.ok frame.page, { pool with
          frames := pool.frames.set index { frame with pinCount := 1, writer := true } })
  | none => pool.loadPage bytes files pageId true

/-- A frame is reserved before the file grows. -/
def allocatePage : Call Page PageId :=
  match pool.prepareFrame bytes files with
  | (.error e, pool) => (.error e, pool)
  | (.ok index, pool) =>
    let pageId := pool.disk.length
    if 2 ^ 64 ≤ pageId + 1 then (.error (.pageOffsetOverflow pageId), pool)
    else if ¬ files.extend then (.error .io, pool)
    else
      let write : PageWrite Page := ⟨pageId, bytes.zero, pool.wal.bind (·.durableLsn)⟩
      let pool := { pool with
        disk := pool.disk ++ [bytes.zero]
        written := pool.written ++ [write] }
      (.ok pageId, pool.installFrame index ⟨pageId, bytes.zero, 1, true, false⟩)

def releaseRead : BufferState Page :=
  match pool.findFrame pageId with
  | none => pool
  | some index => { pool with
      frames := pool.frames.modify index fun frame =>
        { frame with pinCount := frame.pinCount - 1 } }

def releaseWrite (page : Page) (dirty : Bool) : BufferState Page :=
  match pool.findFrame pageId with
  | none => pool
  | some index => { pool with
      frames := pool.frames.modify index fun frame =>
        { frame with
          page := page
          dirty := frame.dirty || dirty
          writer := false
          pinCount := frame.pinCount - 1 } }

def flushPage : Call Page Unit :=
  match pool.findFrame pageId with
  | none => (.error (.pageNotCached pageId), pool)
  | some index =>
    match pool.flushFrame bytes files index with
    | (.error e, pool) => (.error e, pool)
    | (.ok _, pool) => pool.syncDisk files

def flushFrames : List Nat → BufferState Page → Call Page Unit
  | [], pool => (.ok (), pool)
  | index :: rest, pool =>
    match pool.flushFrame bytes files index with
    | (.error e, pool) => (.error e, pool)
    | (.ok _, pool) => flushFrames rest pool

def flushAll : Call Page Unit :=
  match pool.frames.find? (·.writer) with
  | some frame => (.error (.pagePinned frame.pageId), pool)
  | none =>
    match flushFrames bytes files (List.range pool.frames.length) pool with
    | (.error e, pool) => (.error e, pool)
    | (.ok _, pool) => pool.syncDisk files

/-- The page that is being undone belongs to the expected allocation. -/
def validateCurrent (expected : Option PageGeneration) : Except BufferError Unit :=
  let validate (page : Page) : Except BufferError Unit :=
    if bytes.isZero page then .ok ()
    else
      match bytes.validateAllocation page expected with
      | .error e => .error (.page e)
      | .ok _ => .ok ()
  if pageId < pool.disk.length then
    match (pool.findFrame pageId).bind (pool.frames[·]?) with
    | some frame =>
      if frame.pinCount ≠ 0 then .error (.pagePinned pageId) else validate frame.page
    | none =>
      match pool.readPage files pageId with
      | .error e => .error e
      | .ok page => validate page
  else .ok ()

/-- Put the before-image into the page's frame, as a page still to be written. -/
def restoreFrame (before : Page) : Call Page Nat :=
  if pool.disk.length ≤ pageId then (.error (.pageOutsideFile pageId), pool)
  else
    match pool.findFrame pageId with
    | some index => (.ok index, { pool with
        frames := pool.frames.modify index fun frame =>
          { frame with page := before, dirty := true } })
    | none =>
      match pool.prepareFrame bytes files with
      | (.error e, pool) => (.error e, pool)
      | (.ok index, pool) =>
        (.ok index, pool.installFrame index ⟨pageId, before, 0, false, true⟩)

def discardFrame : BufferState Page :=
  match pool.findFrame pageId with
  | none => pool
  | some index => pool.removeFrame index

def removeTrailingPage : Call Page Unit :=
  if pageId = pool.disk.length then (if files.truncate then .ok () else .error .io, pool)
  else if pageId + 1 ≠ pool.disk.length ∨ pageId = 0 then
    (.error (.pageCannotBeRemoved pageId), pool)
  else if files.truncate then (.ok (), { pool with disk := pool.disk.take pageId })
  else (.error .io, pool)

def undoAllocation : Call Page Unit :=
  if pool.disk.length < pageId then (.ok (), pool)
  else
    match (if pageId = pool.disk.length then pool else pool.discardFrame pageId).removeTrailingPage
      files pageId with
    | (.error e, pool) => (.error e, pool)
    | (.ok _, pool) => pool.syncDisk files

def undoExisting (before : Page) : Call Page Unit :=
  match bytes.pageLsn before with
  | .error e => (.error (.page e), pool)
  | .ok _ =>
    match pool.restoreFrame bytes files pageId before with
    | (.error e, pool) => (.error e, pool)
    | (.ok index, pool) =>
      match pool.flushFrame bytes files index with
      | (.error e, pool) => (.error e, pool)
      | (.ok _, pool) => pool.syncDisk files

def undoPageUpdate (before : Page) (expected : Option PageGeneration) : Call Page Unit :=
  match pool.validateCurrent bytes files pageId expected with
  | .error e => (.error e, pool)
  | .ok _ =>
    if bytes.isZero before then pool.undoAllocation files pageId
    else pool.undoExisting bytes files pageId before

end BufferState

end Netbadb.Buffer
