import PersonalDashboard.LedgerHandlers

/-! The handlers of notes, over a database of the tables that they read. -/

set_option autoImplicit false

namespace PersonalDashboard.NoteHandlers

open PersonalDashboard.LedgerHandlers
open PersonalDashboard.ReadCommitted
open PersonalDashboard.RowStatements
open PersonalDashboard.RowStore
open PersonalDashboard.Schema
open PersonalDashboard.Validation

structure NoteRow where
  userId : Uuid
  title : String
  body : String
  isMarkdown : Bool
  isPinned : Bool
  categoryId : Option Uuid
  createdAt : Timestamp
  updatedAt : Timestamp
  deriving DecidableEq, Repr

inductive NoteKey where
  | note (id : Uuid)
  | category (id : Uuid)
  deriving DecidableEq

@[reducible]
def NoteTable : NoteKey → Type
  | .note _ => NoteRow
  | .category _ => CategoryRow

abbrev NoteDb := Store NoteTable

abbrev NoteHandler (α : Type) := Prog NoteTable SqlState AppError α

structure PatchNoteRequest where
  title : Option String
  body : Option String
  isMarkdown : Option Bool
  isPinned : Option Bool
  categoryId : Option Uuid

def maxTitleLen : Nat :=
  200

def maxBodyBytes : Nat :=
  1_048_576

def validateNoteBody (value : Option String) : Except AppError Unit :=
  match value with
  | some text =>
      if maxBodyBytes < byteLen text || containsNul text then
        .error (.validation s!"body must be at most {maxBodyBytes} bytes")
      else .ok ()
  | none => .ok ()

def validateNotePatch (body : PatchNoteRequest) : Except AppError Unit :=
  if body.title.isNone && body.body.isNone && body.isMarkdown.isNone &&
      body.isPinned.isNone && body.categoryId.isNone then
    .error (.validation "no updatable fields provided")
  else .ok ()

/-- `CATEGORY_OWNERSHIP_SQL`. -/
def ownsCategory (categoryId userId : Uuid) (s : NoteDb) : Bool :=
  found (NoteKey.category categoryId) (fun c : CategoryRow => c.userId = userId) s

def ensureNoteCategory (categoryId : Option Uuid) (userId : Uuid) : NoteHandler Unit :=
  match categoryId with
  | some categoryId => do
      let owned ← select (ownsCategory categoryId userId)
      failIf (!owned) (.validation "category must be an owned category")
  | none => pure ()

def mapNoteDbErr : SqlState → AppError
  | .uniqueViolation => .conflict "note already exists"
  | .foreignKeyViolation | .checkViolation | .invalidText => .validation "invalid note data"
  | .numericOutOfRange => .internal

def ownNote (userId : Uuid) (n : NoteRow) : Bool :=
  n.userId = userId

def getNoteSql (id userId : Uuid) (s : NoteDb) : Option NoteRow :=
  (s.lookup (NoteKey.note id)).filter (ownNote userId)

structure NotePatch where
  title : Option String
  body : Option String
  isMarkdown : Option Bool
  isPinned : Option Bool
  categoryId : Option Uuid

/-- `PATCH_NOTE_SQL`: omitted fields keep their stored value. -/
def NotePatch.merge (patch : NotePatch) (now : Timestamp) (old : NoteRow) : NoteRow :=
  { old with
    title := patch.title.getD old.title
    body := patch.body.getD old.body
    isMarkdown := patch.isMarkdown.getD old.isMarkdown
    isPinned := patch.isPinned.getD old.isPinned
    categoryId := patch.categoryId.or old.categoryId
    updatedAt := now }

def updateNoteSql (id userId : Uuid) (new : NoteRow) :
    Statement NoteTable SqlState (Option NoteRow) :=
  updateRow .noKeyUpdate exclusive_noKeyUpdate (NoteKey.note id) (ownNote userId) fun _ _ => .ok new

def updateNote (id userId : Uuid) (patch : NotePatch) (now : Timestamp) : NoteHandler NoteRow := do
  let old ← fetchOr mapNoteDbErr .notFound
    (selectFor .noKeyUpdate (NoteKey.note id) (ownNote userId) fun n : NoteRow => n)
  let new := patch.merge now old
  let _ ← execSql mapNoteDbErr (updateNoteSql id userId new)
  whenever (old.categoryId ≠ new.categoryId)
    (foreignKeyOpt mapNoteDbErr .foreignKeyViolation NoteKey.category new.categoryId)
  pure new

def patchNoteHandler (caller : Caller) (id : Uuid) (body : PatchNoteRequest) :
    NoteHandler (Stored NoteRow) := do
  ofExcept (validateNotePatch body)
  let stored ← select (getNoteSql id caller.userId)
  let _ ← ofOption .notFound stored
  let title ← ofExcept (validateOpt (validateRequiredText · maxTitleLen "title") body.title)
  ofExcept (validateNoteBody body.body)
  ensureNoteCategory body.categoryId caller.userId
  beginTx
  let row ← updateNote id caller.userId
    { title := title, body := body.body, isMarkdown := body.isMarkdown
      isPinned := body.isPinned, categoryId := body.categoryId } caller.now
  commitTx
  pure ⟨id, row⟩

end PersonalDashboard.NoteHandlers
