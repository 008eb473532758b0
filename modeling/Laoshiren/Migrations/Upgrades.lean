import Laoshiren.Foundation.Jsonb
import Laoshiren.Foundation.Table
import Laoshiren.Identity.Entities
import Laoshiren.PersonalState.Repositories
import Laoshiren.Sources.ContextChunks
import Laoshiren.Sources.Entities

/-!
# Upgrades of the schema that move data

The revisions before and after an upgrade, as databases whose tables meet their unique constraints and whose
rows refer to rows that are there. An upgrade is refused as a whole where one of its statements breaks a
constraint of the new revision.
-/

namespace Migrations

open Runtime Sources
open PersonalState (ThingDate ThingDateType DatePrecision DateCertainty)
open Automations (PushEndpoint)
open Identity (Device)

/-! ## The kinds of dates -/

inductive LegacyDatePrecision where
  | date
  | datetime
  deriving DecidableEq, Repr

/-- A row of `thing_dates` whose kind is any text. -/
structure LegacyThingDate where
  thingId : UUID
  kind : String
  value : Timestamp
  timezoneName : String
  precision : LegacyDatePrecision
  certainty : DateCertainty
  id : UUID
  isPrimary : Bool := false
  sourceId : Option UUID := none
  version : ℕ := 1
  createdAt : Timestamp
  updatedAt : Timestamp
  deriving DecidableEq

/-- `uq_thing_dates_primary_kind`. -/
instance : Row LegacyThingDate where
  conflict r r' := r.id = r'.id ∨
    r.thingId = r'.thingId ∧ r.kind = r'.kind ∧ r.isPrimary = true ∧ r'.isPrimary = true
  decConflict _ _ := inferInstanceAs (Decidable (_ ∨ _))
  symm _ _ := Or.imp Eq.symm fun ⟨hthing, hkind, hr, hr'⟩ => ⟨hthing.symm, hkind.symm, hr', hr⟩

structure Revision0032 where
  things : List UUID
  thingDates : Table LegacyThingDate
  date_thing : ∀ date ∈ thingDates.rows, date.thingId ∈ things

structure Revision0033 where
  things : List UUID
  thingDates : Table ThingDate
  date_thing : ∀ date ∈ thingDates.rows, date.thingId ∈ things

/-- The type of a kind; `upper` is that of the database. -/
def dateType (upper : String → String) (kind : String) : ThingDateType :=
  if upper kind = "EVENT" then .event
  else if upper kind = "MILESTONE" then .milestone
  else .deadline

def datePrecision : LegacyDatePrecision → DatePrecision
  | .date => .date
  | .datetime => .dateTime

/-- A date after the upgrade: its label is what its kind was. -/
def freezeDate (upper : String → String) (date : LegacyThingDate) : ThingDate where
  thingId := date.thingId
  kind := dateType upper date.kind
  value := date.value
  timezoneName := date.timezoneName
  precision := datePrecision date.precision
  certainty := date.certainty
  label := some date.kind
  id := date.id
  isPrimary := date.isPrimary
  sourceId := date.sourceId
  version := date.version
  createdAt := date.createdAt
  updatedAt := date.updatedAt

/-- The upgrade to 0033, `thing_date_semantics`. -/
def thingDateSemantics (upper : String → String) (db : Revision0032) : Option Revision0033 := do
  let thingDates : Table ThingDate ← Table.load? (db.thingDates.rows.map (freezeDate upper))
  if h : ∀ date ∈ thingDates.rows, date.thingId ∈ db.things then
    return { things := db.things, thingDates, date_thing := h }
  else none

/-! ## Files -/

structure Revision0035 where
  users : List UUID
  sources : Table Source
  sourceChunks : Table SourceChunk
  source_user : ∀ s ∈ sources.rows, s.userId ∈ users
  chunk_source : ∀ c ∈ sourceChunks.rows, ∃ s ∈ sources.rows, s.id = c.sourceId

structure Revision0036 extends Revision0035 where
  files : Table File
  generations : Table FileProcessingGeneration
  segments : Table RetrievalSegment
  file_user : ∀ f ∈ files.rows, f.ownerUserId ∈ users
  generation_file : ∀ g ∈ generations.rows, ∃ f ∈ files.rows, f.id = g.fileId
  segment_file : ∀ r ∈ segments.rows, ∃ f ∈ files.rows, f.id = r.fileId
  segment_generation : ∀ r ∈ segments.rows, ∃ g ∈ generations.rows, g.id = r.generationId

/-- The row of `files` that is selected from a Source. -/
def selectFile (s : Source) : File where
  id := s.id
  ownerUserId := s.userId
  originalFilename := some s.title
  validatedMimeType := s.mimeType
  mediaKind :=
    if s.sourceType = .image then .image
    else if s.sourceType ∈ [.pdf, .word, .ppt] then .document
    else if s.sourceType = .audio then .audio
    else .other
  sizeBytes := s.size
  contentSha256 := s.contentHash
  storageKey := s.objectKey
  assetStatus := if s.deletedAt ≠ none then .deleted else .active
  version := 1
  idempotencyKey := s.idempotencyKey
  deletedAt := s.deletedAt
  createdAt := s.createdAt

/-- The row of `file_processing_generations` that is selected from a Source; `text` is how `->>` writes a
value that is not a text. -/
def selectGeneration (text : Json → String) (id : UUID) (s : Source) : FileProcessingGeneration where
  id
  fileId := s.id
  profileName := "default"
  parserVersion := (s.metadata.textAt text "parser_version").getD "legacy"
  chunkVersion := (s.metadata.textAt text "chunk_version").getD "legacy"
  embeddingModelVersion := s.metadata.textAt text "embedding_model_version"
  status := .ready
  isActive := true
  createdAt := s.processedAt.getD s.createdAt
  readyAt := some (s.processedAt.getD s.createdAt)

/-- The locator of a chunk. -/
def locator (c : SourceChunk) : Dict :=
  ((Dict.ofFields
    [("char_start", .num c.charStart), ("char_end", .num c.charEnd),
      ("page_number", (c.pageNumber.map fun n => Json.num n).getD .null)]).merge
        c.metadata).stripNulls

/-- The row of `retrieval_segments` that is selected from a chunk and a generation. -/
def selectSegment (c : SourceChunk) (g : FileProcessingGeneration) : RetrievalSegment where
  id := c.id
  fileId := c.sourceId
  generationId := g.id
  segmentOrder := c.ordinal
  representationKind := if c.pageNumber ≠ none then .pageText else .textSpan
  content := c.content
  locator := locator c
  embedding := c.embedding
  createdAt := c.createdAt

/-- The rows of the second statement; `fresh` are the values of `gen_random_uuid()`. -/
def selectGenerations (text : Json → String) (fresh : ℕ → UUID) (sources : Table Source) :
    List FileProcessingGeneration :=
  (sources.select fun s => s.processingStatus = .ready).mapIdx fun n s =>
    selectGeneration text (fresh n) s

/-- The generations that a chunk is joined with. -/
def joined (generations : Table FileProcessingGeneration) (c : SourceChunk) :
    List FileProcessingGeneration :=
  generations.select fun g => g.fileId = c.sourceId ∧ g.isActive = true

/-- The rows of the third statement. -/
def selectSegments (generations : Table FileProcessingGeneration) (chunks : Table SourceChunk) :
    List RetrievalSegment :=
  chunks.rows.flatMap fun c => (joined generations c).map (selectSegment c)

/-- The upgrade to 0036, `expand_files`. -/
def expandFiles (text : Json → String) (fresh : ℕ → UUID) (db : Revision0035) :
    Option Revision0036 := do
  let files : Table File ← Table.load? (db.sources.rows.map selectFile)
  let generations : Table FileProcessingGeneration ← Table.load? (selectGenerations text fresh db.sources)
  let segments : Table RetrievalSegment ← Table.load? (selectSegments generations db.sourceChunks)
  if h : (∀ f ∈ files.rows, f.ownerUserId ∈ db.users) ∧
      (∀ g ∈ generations.rows, ∃ f ∈ files.rows, f.id = g.fileId) ∧
      (∀ r ∈ segments.rows, ∃ f ∈ files.rows, f.id = r.fileId) ∧
      ∀ r ∈ segments.rows, ∃ g ∈ generations.rows, g.id = r.generationId then
    return { db with
      files, generations, segments
      file_user := h.1
      generation_file := h.2.1
      segment_file := h.2.2.1
      segment_generation := h.2.2.2 }
  else none

/-! ## Devices -/

structure Revision0040 where
  users : List UUID
  pushEndpoints : Table PushEndpoint
  endpoint_user : ∀ pe ∈ pushEndpoints.rows, pe.userId ∈ users

structure Revision0041 extends Revision0040 where
  devices : Table Device
  device_user : ∀ d ∈ devices.rows, d.userId ∈ users
  endpoint_device : ∀ pe ∈ pushEndpoints.rows, ∃ d ∈ devices.rows, d.id = pe.deviceId

/-- The row of `devices` that is selected from an endpoint. -/
def selectDevice (now : Timestamp) (pe : PushEndpoint) : Device where
  id := pe.deviceId
  userId := pe.userId
  platform := .harmonyos
  timezoneName := "UTC"
  active := true
  lastSeenAt := now
  createdAt := now
  updatedAt := now

/-- `SELECT DISTINCT`, of the endpoints whose device is not yet in `devices`. -/
def selectDevices (now : Timestamp) (devices : Table Device) (pushEndpoints : Table PushEndpoint) :
    List Device :=
  ((pushEndpoints.select fun pe => (devices.get fun d => d.id = pe.deviceId) = none).map
    (selectDevice now)).dedup

/-- The upgrade to 0041, `identity_platform`: `devices` was created without rows. -/
def identityPlatform (now : Timestamp) (db : Revision0040) : Option Revision0041 := do
  let devices : Table Device ← Table.load? (selectDevices now .empty db.pushEndpoints)
  if h : (∀ d ∈ devices.rows, d.userId ∈ db.users) ∧
      ∀ pe ∈ db.pushEndpoints.rows, ∃ d ∈ devices.rows, d.id = pe.deviceId then
    return { db with devices, device_user := h.1, endpoint_device := h.2 }
  else none

/-! ## What an upgrade keeps -/

/-- The upgrade completes, and every date is still there. -/
def DatesKept (upper : String → String) (db : Revision0032) : Prop :=
  ∃ db', thingDateSemantics upper db = some db' ∧ ∀ date ∈ db.thingDates.rows,
    ∃ date' ∈ db'.thingDates.rows, date'.id = date.id ∧ date'.thingId = date.thingId ∧
      date'.value = date.value ∧ date'.label = some date.kind

/-- The upgrade completes, every Source and chunk is still there, and every Source is a File. -/
def SourcesKept (text : Json → String) (fresh : ℕ → UUID) (db : Revision0035) : Prop :=
  ∃ db', expandFiles text fresh db = some db' ∧ db'.sources = db.sources ∧
    db'.sourceChunks = db.sourceChunks ∧
      ∀ s ∈ db.sources.rows, ∃ f ∈ db'.files.rows, f.id = s.id

/-- The upgrade completes, and every endpoint is still there. -/
def EndpointsKept (now : Timestamp) (db : Revision0040) : Prop :=
  ∃ db', identityPlatform now db = some db' ∧ db'.pushEndpoints = db.pushEndpoints

/-- No two primary dates of one Thing are of kinds that become one type. -/
def TypesApart (upper : String → String) (db : Revision0032) : Prop :=
  ∀ date ∈ db.thingDates.rows, ∀ date' ∈ db.thingDates.rows, date.thingId = date'.thingId →
    date.isPrimary = true → date'.isPrimary = true →
      dateType upper date.kind = dateType upper date'.kind → date = date'

/-- The endpoints of one device belong to one user. -/
def OneUserEach (db : Revision0040) : Prop :=
  ∀ pe ∈ db.pushEndpoints.rows, ∀ pe' ∈ db.pushEndpoints.rows, pe.deviceId = pe'.deviceId →
    pe.userId = pe'.userId

end Migrations

/-!
## The backfill of Files and the mirror

What a Source is as a File after the upgrade, to be compared with what the application makes of it.
-/

namespace Migrations

open Runtime Sources

/-- The metadata of a chunk as the application writes it: nothing on its place in the text, and its page if
anything on that. -/
structure Written (c : SourceChunk) : Prop where
  sorted : c.metadata.SortedKeys
  charStart : c.metadata.get "char_start" = none
  charEnd : c.metadata.get "char_end" = none
  pageNumber : c.metadata.get "page_number" = none ∨
    c.metadata.get "page_number" = some ((c.pageNumber.map fun n => Json.num n).getD .null)

/-- What is shown of a chunk, but for its id. -/
structure Evidence where
  ordinal : ℕ
  content : String
  charStart : ℤ
  charEnd : ℤ
  pageNumber : Option ℤ
  deriving DecidableEq

def evidenceOfChunk (c : SourceChunk) : Evidence where
  ordinal := c.ordinal
  content := c.content
  charStart := c.charStart
  charEnd := c.charEnd
  pageNumber := c.pageNumber

/-- What `segment_to_context_chunk` shows of a segment. -/
def evidenceOfSegment (r : RetrievalSegment) : Evidence :=
  let c := segmentToContextChunk r
  { ordinal := c.ordinal
    content := c.content
    charStart := c.charStart
    charEnd := c.charEnd
    pageNumber := c.pageNumber }

/-- The segments correspond to the chunks one to one, and show what the chunks say. -/
def Mirrors (segments : List RetrievalSegment) (chunks : List SourceChunk) : Prop :=
  segments.map evidenceOfSegment = chunks.map evidenceOfChunk

/-- The chunks of a Source. -/
def chunksOf (db : Revision0035) (s : Source) : List SourceChunk :=
  db.sourceChunks.select fun c => c.sourceId = s.id

/-- The files, generations and segments after the upgrade are those of the Sources and chunks before it. -/
structure Backfilled (db : Revision0035) (db' : Revision0036) : Prop where
  files : db'.files.rows = db.sources.rows.map fileFromSource
  ready : ∀ s ∈ db.sources.rows, s.processingStatus = .ready →
    ∃! g, g ∈ db'.generations.rows ∧ g.fileId = s.id ∧ g.isActive = true
  others : ∀ s ∈ db.sources.rows, s.processingStatus ≠ .ready →
    ∀ g ∈ db'.generations.rows, g.fileId = s.id → g.isActive = false
  segments : ∀ s ∈ db.sources.rows, ∀ g ∈ db'.generations.rows, g.fileId = s.id →
    g.isActive = true →
      Mirrors (db'.segments.select fun r => r.generationId = g.id) (chunksOf db s)

end Migrations
