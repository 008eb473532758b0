import Mathlib.Tactic.IntervalCases
import Laoshiren.Migrations.Upgrades
import Laoshiren.Sources.Proofs.ContextProofs

/-!
# Proofs: what the upgrades do to a database

The expansion of Files succeeds on every database. The other two map rows to fewer ones: primary dates of
kinds that become one type break the unique index of the dates, and a device that two users have endpoints
for would be two devices.
-/

namespace Migrations

open Runtime Sources
open PersonalState (ThingDate)
open Automations (PushEndpoint)
open Identity (Device)

variable {upper : String → String} {text : Json → String} {fresh : ℕ → UUID} {now : Timestamp}

/-! ## The kinds of dates -/

section Dates

variable {db : Revision0032} {db' : Revision0033}

theorem thingDateSemantics_rows (h : thingDateSemantics upper db = some db') :
    db'.thingDates.rows = db.thingDates.rows.map (freezeDate upper) := by
  obtain ⟨thingDates, hload, h⟩ := Option.bind_eq_some_iff.mp h
  split at h
  · obtain rfl := Option.some.inj h
    exact Table.rows_load? hload
  · cases h

/-- Two dates of a table become rows that conflict if and only if the upgrade makes one type of them. -/
theorem conflict_freezeDate {date date' : LegacyThingDate} :
    Row.conflict (freezeDate upper date) (freezeDate upper date') ↔ date.id = date'.id ∨
      date.thingId = date'.thingId ∧ dateType upper date.kind = dateType upper date'.kind ∧
        date.isPrimary = true ∧ date'.isPrimary = true := Iff.rfl

theorem exists_load?_dates (hapart : TypesApart upper db) :
    ∃ thingDates, Table.load? (db.thingDates.rows.map (freezeDate upper)) = some thingDates := by
  refine Table.exists_load?_map db.thingDates fun date hdate date' hdate' hc => ?_
  rcases conflict_freezeDate.mp hc with hid | ⟨hthing, htype, hprimary, hprimary'⟩
  · exact .inl hid
  · rw [hapart date hdate date' hdate' hthing hprimary hprimary' htype]
    exact .inl rfl

/-- The upgrade completes if and only if no two primary dates of a Thing become one type. -/
theorem exists_thingDateSemantics_iff :
    (∃ db', thingDateSemantics upper db = some db') ↔ TypesApart upper db := by
  constructor
  · rintro ⟨db', h⟩
    obtain ⟨thingDates, hload, -⟩ := Option.bind_eq_some_iff.mp h
    intro date hdate date' hdate' hthing hprimary hprimary' htype
    have heq := Table.eq_of_load? hload (List.mem_map_of_mem hdate) (List.mem_map_of_mem hdate')
      (conflict_freezeDate.mpr (.inr ⟨hthing, htype, hprimary, hprimary'⟩))
    exact db.thingDates.eq_of_conflict hdate hdate' (.inl (congrArg ThingDate.id heq))
  · intro hapart
    obtain ⟨thingDates, hload⟩ := exists_load?_dates hapart
    have hthing : ∀ date ∈ thingDates.rows, date.thingId ∈ db.things := by
      intro date' hdate'
      rw [Table.rows_load? hload] at hdate'
      obtain ⟨date, hdate, rfl⟩ := List.mem_map.mp hdate'
      exact db.date_thing date hdate
    refine ⟨{ things := db.things, thingDates, date_thing := hthing }, ?_⟩
    refine Option.bind_eq_some_iff.mpr ⟨thingDates, hload, ?_⟩
    rw [dif_pos hthing]
    rfl

theorem datesKept_iff : DatesKept upper db ↔ TypesApart upper db := by
  rw [← exists_thingDateSemantics_iff]
  constructor
  · rintro ⟨db', h, -⟩
    exact ⟨db', h⟩
  · rintro ⟨db', h⟩
    refine ⟨db', h, fun date hdate => ⟨freezeDate upper date, ?_, rfl, rfl, rfl, rfl⟩⟩
    rw [thingDateSemantics_rows h]
    exact List.mem_map_of_mem hdate

end Dates

/-! ## Files -/

/-- The values of `gen_random_uuid()` are different, as many as there are Sources. -/
def Fresh (fresh : ℕ → UUID) (db : Revision0035) : Prop :=
  ∀ i < db.sources.rows.length, ∀ j < db.sources.rows.length, fresh i = fresh j → i = j

section Files

variable {db : Revision0035} {generations : Table FileProcessingGeneration}
  {g g' : FileProcessingGeneration}

theorem mem_selectGenerations :
    g ∈ selectGenerations text fresh db.sources ↔
      ∃ i, ∃ hi : i < (db.sources.select fun s => s.processingStatus = .ready).length,
        selectGeneration text (fresh i)
          (db.sources.select fun s => s.processingStatus = .ready)[i] = g := List.mem_mapIdx

/-- The Source that a generation was selected from. -/
theorem source_of_generation (h : g ∈ selectGenerations text fresh db.sources) :
    ∃ s ∈ db.sources.rows, s.processingStatus = .ready ∧ ∃ id, g = selectGeneration text id s := by
  obtain ⟨i, hi, rfl⟩ := mem_selectGenerations.mp h
  obtain ⟨hs, hready⟩ := Table.mem_select.mp (List.getElem_mem hi)
  exact ⟨_, hs, of_decide_eq_true hready, fresh i, rfl⟩

/-- A Source has one generation at most. -/
theorem eq_of_fileId (hg : g ∈ selectGenerations text fresh db.sources)
    (hg' : g' ∈ selectGenerations text fresh db.sources) (h : g.fileId = g'.fileId) : g = g' := by
  obtain ⟨i, hi, rfl⟩ := mem_selectGenerations.mp hg
  obtain ⟨j, hj, rfl⟩ := mem_selectGenerations.mp hg'
  have hpairs := List.pairwise_iff_getElem.mp (db.sources.consistent.filter fun s =>
    decide (s.processingStatus = .ready))
  have hij : i = j := by
    rcases lt_trichotomy i j with hlt | heq | hlt
    · exact absurd (.inl h) (hpairs i j hi hj hlt)
    · exact heq
    · exact absurd (.inl h.symm) (hpairs j i hj hi hlt)
  subst hij
  rfl

theorem exists_load?_files (db : Revision0035) :
    ∃ files, Table.load? (db.sources.rows.map selectFile) = some files :=
  Table.exists_load?_map db.sources fun _ _ _ _ hc => hc

theorem exists_load?_generations (text : Json → String) (hfresh : Fresh fresh db) :
    ∃ generations, Table.load? (selectGenerations text fresh db.sources) = some generations := by
  refine Table.exists_load?_iff.mpr (List.pairwise_iff_getElem.mpr fun i j hi hj hlt hc => ?_)
  have hlength : (selectGenerations text fresh db.sources).length ≤ db.sources.rows.length := by
    unfold selectGenerations
    rw [List.length_mapIdx]
    exact List.length_filter_le _ _
  have hid : fresh i = fresh j := by
    have hat : ∀ n (hn : n < (selectGenerations text fresh db.sources).length),
        (selectGenerations text fresh db.sources)[n].id = fresh n := by
      intro n hn
      simp only [selectGenerations, List.getElem_mapIdx, selectGeneration]
    have hc : (selectGenerations text fresh db.sources)[i].id =
      (selectGenerations text fresh db.sources)[j].id := hc
    rw [← hat i hi, ← hat j hj, hc]
  have heq := hfresh i (by omega) j (by omega) hid
  omega

/-- Every chunk is joined with one generation at most, and chunks of one place are of different Sources. -/
theorem exists_load?_segments
    (hload : Table.load? (selectGenerations text fresh db.sources) = some generations) :
    ∃ segments, Table.load? (selectSegments generations db.sourceChunks) = some segments := by
  have hjoined : ∀ {c g}, g ∈ joined generations c →
      g ∈ selectGenerations text fresh db.sources ∧ g.fileId = c.sourceId := by
    intro c g hg
    obtain ⟨hmem, hp⟩ := Table.mem_select.mp hg
    rw [← Table.mem_rows, Table.rows_load? hload] at hmem
    exact ⟨hmem, (of_decide_eq_true hp).1⟩
  refine Table.exists_load?_iff.mpr (List.pairwise_flatMap.mpr ⟨fun c _ => ?_, ?_⟩)
  · refine List.pairwise_map.mpr ((generations.consistent.filter _).imp_of_mem ?_)
    intro g g' hg hg' hne _
    obtain ⟨hmem, hfile⟩ := hjoined hg
    obtain ⟨hmem', hfile'⟩ := hjoined hg'
    exact hne (congrArg _ (eq_of_fileId hmem hmem' (hfile.trans hfile'.symm)))
  · refine db.sourceChunks.consistent.imp fun {c c'} hne r hr r' hr' hc => hne ?_
    obtain ⟨g, hg, rfl⟩ := List.mem_map.mp hr
    obtain ⟨g', hg', rfl⟩ := List.mem_map.mp hr'
    rcases hc with hid | ⟨hgeneration, hordinal⟩
    · exact .inl hid
    · obtain ⟨-, hfile⟩ := hjoined hg
      obtain ⟨-, hfile'⟩ := hjoined hg'
      obtain rfl := generations.eq_of_conflict (Table.mem_select.mp hg).1 (Table.mem_select.mp hg').1
        hgeneration
      exact .inr ⟨hfile.symm.trans hfile', hordinal⟩

/-- The tables that the upgrade has made. -/
structure Expanded (text : Json → String) (fresh : ℕ → UUID) (db : Revision0035)
    (db' : Revision0036) : Prop where
  old : db'.toRevision0035 = db
  files : db'.files.rows = db.sources.rows.map selectFile
  generations : db'.generations.rows = selectGenerations text fresh db.sources
  segments : db'.segments.rows = selectSegments db'.generations db.sourceChunks

/-- The upgrade completes on every database. -/
theorem exists_expandFiles (text : Json → String) (hfresh : Fresh fresh db) :
    ∃ db', expandFiles text fresh db = some db' ∧ Expanded text fresh db db' := by
  obtain ⟨files, hfiles⟩ := exists_load?_files db
  obtain ⟨generations, hgenerations⟩ := exists_load?_generations text hfresh
  obtain ⟨segments, hsegments⟩ := exists_load?_segments hgenerations
  have hfile : ∀ s ∈ db.sources.rows, ∃ f ∈ files.rows, f.id = s.id := by
    intro s hs
    rw [Table.rows_load? hfiles]
    exact ⟨selectFile s, List.mem_map_of_mem hs, rfl⟩
  have hmem : ∀ r ∈ segments.rows, ∃ c ∈ db.sourceChunks.rows, ∃ g ∈ generations.rows,
      r = selectSegment c g := by
    intro r hr
    rw [Table.rows_load? hsegments] at hr
    obtain ⟨c, hc, hr⟩ := List.mem_flatMap.mp hr
    obtain ⟨g, hg, rfl⟩ := List.mem_map.mp hr
    exact ⟨c, hc, g, (Table.mem_select.mp hg).1, rfl⟩
  have hrefers : (∀ f ∈ files.rows, f.ownerUserId ∈ db.users) ∧
      (∀ g ∈ generations.rows, ∃ f ∈ files.rows, f.id = g.fileId) ∧
      (∀ r ∈ segments.rows, ∃ f ∈ files.rows, f.id = r.fileId) ∧
      ∀ r ∈ segments.rows, ∃ g ∈ generations.rows, g.id = r.generationId := by
    refine ⟨fun f hf => ?_, fun g hg => ?_, fun r hr => ?_, fun r hr => ?_⟩
    · rw [Table.rows_load? hfiles] at hf
      obtain ⟨s, hs, rfl⟩ := List.mem_map.mp hf
      exact db.source_user s hs
    · rw [Table.rows_load? hgenerations] at hg
      obtain ⟨s, hs, -, id, rfl⟩ := source_of_generation hg
      exact hfile s hs
    · obtain ⟨c, hc, g, -, rfl⟩ := hmem r hr
      obtain ⟨s, hs, hsource⟩ := db.chunk_source c hc
      obtain ⟨f, hf, hid⟩ := hfile s hs
      exact ⟨f, hf, hid.trans hsource⟩
    · obtain ⟨c, -, g, hg, rfl⟩ := hmem r hr
      exact ⟨g, hg, rfl⟩
  refine ⟨{ db with
    files, generations, segments
    file_user := hrefers.1
    generation_file := hrefers.2.1
    segment_file := hrefers.2.2.1
    segment_generation := hrefers.2.2.2 }, ?_, rfl, Table.rows_load? hfiles,
      Table.rows_load? hgenerations, Table.rows_load? hsegments⟩
  refine Option.bind_eq_some_iff.mpr ⟨files, hfiles, ?_⟩
  refine Option.bind_eq_some_iff.mpr ⟨generations, hgenerations, ?_⟩
  refine Option.bind_eq_some_iff.mpr ⟨segments, hsegments, ?_⟩
  rw [dif_pos hrefers]
  rfl

theorem sourcesKept (text : Json → String) (hfresh : Fresh fresh db) : SourcesKept text fresh db := by
  obtain ⟨db', h, hdb'⟩ := exists_expandFiles text hfresh
  refine ⟨db', h, congrArg Revision0035.sources hdb'.old,
    congrArg Revision0035.sourceChunks hdb'.old, fun s hs => ⟨selectFile s, ?_, rfl⟩⟩
  rw [hdb'.files]
  exact List.mem_map_of_mem hs

end Files

/-! ## Devices -/

section Devices

variable {db : Revision0040}

theorem mem_selectDevices {d : Device} :
    d ∈ selectDevices now .empty db.pushEndpoints ↔
      ∃ pe ∈ db.pushEndpoints.rows, selectDevice now pe = d := by
  unfold selectDevices
  rw [List.mem_dedup, List.mem_map]
  refine exists_congr fun pe => and_congr_left' ?_
  rw [Table.mem_select]
  exact and_iff_left rfl

/-- The devices can be loaded if and only if no device has endpoints of two users. -/
theorem exists_load?_devices_iff :
    (∃ devices, Table.load? (selectDevices now .empty db.pushEndpoints) = some devices) ↔
      OneUserEach db := by
  constructor
  · rintro ⟨devices, hload⟩ pe hpe pe' hpe' hdevice
    have heq := Table.eq_of_load? hload (mem_selectDevices.mpr ⟨pe, hpe, rfl⟩)
      (mem_selectDevices.mpr ⟨pe', hpe', rfl⟩) hdevice
    exact congrArg Device.userId heq
  · intro hone
    have hnodup : (selectDevices now .empty db.pushEndpoints).Nodup := List.nodup_dedup _
    refine Table.exists_load?_iff.mpr (hnodup.imp_of_mem fun {d d'} hd hd' hne hc => hne ?_)
    obtain ⟨pe, hpe, rfl⟩ := mem_selectDevices.mp hd
    obtain ⟨pe', hpe', rfl⟩ := mem_selectDevices.mp hd'
    have hdevice : pe.deviceId = pe'.deviceId := hc
    unfold selectDevice
    rw [hdevice, hone pe hpe pe' hpe' hdevice]

theorem endpointsKept_iff : EndpointsKept now db ↔ OneUserEach db := by
  rw [← exists_load?_devices_iff]
  constructor
  · rintro ⟨db', h, -⟩
    obtain ⟨devices, hload, -⟩ := Option.bind_eq_some_iff.mp h
    exact ⟨devices, hload⟩
  · rintro ⟨devices, hload⟩
    have hrefers : (∀ d ∈ devices.rows, d.userId ∈ db.users) ∧
        ∀ pe ∈ db.pushEndpoints.rows, ∃ d ∈ devices.rows, d.id = pe.deviceId := by
      rw [Table.rows_load? hload]
      refine ⟨fun d hd => ?_, fun pe hpe => ⟨_, mem_selectDevices.mpr ⟨pe, hpe, rfl⟩, rfl⟩⟩
      obtain ⟨pe, hpe, rfl⟩ := mem_selectDevices.mp hd
      exact db.endpoint_user pe hpe
    refine ⟨{ db with devices, device_user := hrefers.1, endpoint_device := hrefers.2 }, ?_, rfl⟩
    refine Option.bind_eq_some_iff.mpr ⟨devices, hload, ?_⟩
    rw [dif_pos hrefers]
    rfl

end Devices

/-! ## All three -/

/-- The upgrades complete and keep their rows if and only if no two primary dates of a Thing become one type,
and no device has endpoints of two users. -/
theorem upgrades_succeed_iff (upper : String → String) (text : Json → String) (fresh : ℕ → UUID)
    (now : Timestamp) (dates : Revision0032) (sources : Revision0035) (endpoints : Revision0040)
    (hfresh : Fresh fresh sources) :
    (DatesKept upper dates ∧ SourcesKept text fresh sources ∧ EndpointsKept now endpoints) ↔
      TypesApart upper dates ∧ OneUserEach endpoints := by
  rw [datesKept_iff, endpointsKept_iff]
  exact and_congr_right' (and_iff_right (sourcesKept text hfresh))

/-! ## Two primary dates that become deadlines -/

/-- A primary date of Thing 1. -/
def legacyDate (id : UUID) (kind : String) : LegacyThingDate where
  thingId := 1
  kind
  value := 0
  timezoneName := "UTC"
  precision := .date
  certainty := .confirmed
  id
  isPrimary := true
  createdAt := 0
  updatedAt := 0

/-- A Thing with a primary date of each of the two kinds. -/
def datesOfKinds (kind kind' : String) (h : kind ≠ kind') : Revision0032 where
  things := [1]
  thingDates := ⟨[legacyDate 10 kind, legacyDate 11 kind'], by
    refine List.pairwise_pair.mpr ?_
    rintro (hid | ⟨-, hkind, -⟩)
    · exact absurd hid (by simp [legacyDate])
    · exact h hkind⟩
  date_thing date hdate := by
    rcases List.mem_pair.mp hdate with rfl | rfl <;> exact .head _

/-- An endpoint of device 5. -/
def endpointOf (id userId : UUID) : PushEndpoint where
  userId
  deviceId := 5
  pushToken := "token"
  id
  lastRegisteredAt := 0
  createdAt := 0
  updatedAt := 0

/-- A device with an endpoint of each of the two users. -/
def endpointsOfUsers (userId userId' : UUID) (h : userId ≠ userId') : Revision0040 where
  users := [userId, userId']
  pushEndpoints := ⟨[endpointOf 20 userId, endpointOf 21 userId'], by
    refine List.pairwise_pair.mpr ?_
    rintro (hid | ⟨huser, -⟩)
    · exact absurd hid (by simp [endpointOf])
    · exact h huser⟩
  endpoint_user pe hpe := by
    rcases List.mem_pair.mp hpe with rfl | rfl
    · exact .head _
    · exact .tail _ (.head _)

/-- A parsed document, and a note that was deleted. -/
def librarySources : List Source :=
  [{ userId := 1
     sourceType := .pdf
     origin := .upload
     title := "paper.pdf"
     mimeType := "application/pdf"
     objectKey := "1/paper.pdf"
     contentHash := "hash"
     size := 2048
     idempotencyKey := "upload-1"
     id := 30
     metadata := Dict.ofFields [("parser_version", .str "text-source-v1")]
     processingStatus := .ready
     extractedText := some "One.\n\nTwo."
     processedAt := some 5
     createdAt := 0 },
    { userId := 1
      sourceType := .other
      origin := .upload
      title := "note.txt"
      mimeType := "text/plain"
      objectKey := "1/note.txt"
      contentHash := "hash"
      size := 16
      idempotencyKey := "upload-2"
      id := 31
      processingStatus := .failed
      deletedAt := some 9
      createdAt := 1 }]

/-- A page of the document. -/
def libraryChunk (id : UUID) (ordinal : ℕ) (content : String) (charStart charEnd : ℕ) : SourceChunk where
  sourceId := 30
  ordinal
  content
  charStart
  charEnd
  pageNumber := some (ordinal + 1)
  id
  metadata := Dict.ofFields
    [("evidence_type", .str "TEXT_SPAN"), ("page_number", .num (ordinal + 1))]
  createdAt := 5

def library : Revision0035 where
  users := [1]
  sources := ⟨librarySources, by decide⟩
  sourceChunks := ⟨[libraryChunk 40 0 "One." 0 4, libraryChunk 41 1 "Two." 6 10], by decide⟩
  source_user := by decide
  chunk_source := by decide

/-- Numbers for the generations. -/
def numbered (n : ℕ) : UUID := BitVec.ofNat 128 (100 + n)

theorem numbered_fresh : Fresh numbered library := by
  intro i hi j hj
  have hlength : library.sources.rows.length = 2 := rfl
  rw [hlength] at hi hj
  interval_cases i <;> interval_cases j <;> decide

/-- An endpoint of one user. -/
def oneEndpoint : Revision0040 where
  users := [1]
  pushEndpoints := ⟨[endpointOf 20 1], List.pairwise_singleton _ _⟩
  endpoint_user := by decide

/-- An event and a deadline stay apart. -/
theorem upgrades_succeed_library :
    DatesKept String.toUpper (datesOfKinds "event" "deadline" (by decide)) ∧
      SourcesKept (fun _ => "") numbered library ∧ EndpointsKept 0 oneEndpoint := by
  refine (upgrades_succeed_iff String.toUpper (fun _ => "") numbered 0
    (datesOfKinds "event" "deadline" (by decide)) library oneEndpoint numbered_fresh).mpr ⟨?_, ?_⟩
  · have htypes : dateType String.toUpper "event" ≠ dateType String.toUpper "deadline" := by
      decide +kernel
    intro date hdate date' hdate' _ _ _ htype
    rcases List.mem_pair.mp hdate with rfl | rfl <;>
      rcases List.mem_pair.mp hdate' with rfl | rfl
    · rfl
    · exact absurd htype htypes
    · exact absurd htype.symm htypes
    · rfl
  · intro pe hpe pe' hpe' _
    rw [List.mem_singleton.mp hpe, List.mem_singleton.mp hpe']

/-- A submission and a deadline are both deadlines after the upgrade, and a device that was handed on is the
device of two users: neither upgrade completes. -/
theorem upgrades_break_constraints :
    ¬DatesKept String.toUpper (datesOfKinds "submission" "deadline" (by decide)) ∧
      ¬EndpointsKept 0 (endpointsOfUsers 1 2 (by decide)) := by
  constructor
  · rw [datesKept_iff]
    intro hapart
    have heq := hapart (legacyDate 10 "submission") (.head _) (legacyDate 11 "deadline")
      (.tail _ (.head _)) rfl rfl rfl (by decide +kernel)
    exact absurd (congrArg LegacyThingDate.kind heq) (by decide)
  · rw [endpointsKept_iff]
    intro hone
    exact absurd (hone (endpointOf 20 1) (.head _) (endpointOf 21 2) (.tail _ (.head _)) rfl)
      (by decide)

end Migrations

/-!
## Proofs: the backfill of Files agrees with the mirror

Column by column the statements of the upgrade are `file_from_source` and the segments of the mirror. What a
chunk's metadata says on its page is merged over the page itself, and says the same.
-/

namespace Migrations

open Runtime Sources Raise

variable {text : Json → String} {fresh : ℕ → UUID}

/-! ## Metadata that the application writes -/

/-- The chunks of a parse are written so. -/
theorem lasting_written {settings : Settings} {sourceId : UUID} :
    Lasting settings sourceId Written where
  cut h := by
    have hmetadata := (chunkAt_sourceId h).2
    refine ⟨?_, ?_, ?_, .inl ?_⟩ <;> rw [hmetadata]
    · exact Dict.sortedKeys_ofFields _
    · exact Dict.get_ofFields_of_not_mem (by decide)
    · exact Dict.get_ofFields_of_not_mem (by decide)
    · exact Dict.get_ofFields_of_not_mem (by decide)
  page h := ⟨h.sorted.set _ _, (Dict.get_set_ne (by decide) _ _).trans h.charStart,
    (Dict.get_set_ne (by decide) _ _).trans h.charEnd, .inr (Dict.get_set_self _ _ _)⟩
  versions {chunk} h := by
    have hkept : ∀ key ∈ ["char_start", "char_end", "page_number"],
        (withVersions settings chunk).metadata.get key = chunk.metadata.get key := by
      intro key hkey
      refine Dict.get_merge_of_none (Dict.get_ofFields_of_not_mem fun hmem => ?_)
      have hapart : ∀ key ∈ ["char_start", "char_end", "page_number"],
          key ∉ ["parser_version", "chunk_version", "embedding_model_version"] := by decide
      exact hapart key hkey hmem
    refine ⟨h.sorted.merge _, (hkept _ (by decide)).trans h.charStart,
      (hkept _ (by decide)).trans h.charEnd, ?_⟩
    rw [hkept _ (by decide)]
    exact h.pageNumber
  embedding h := ⟨h.sorted, h.charStart, h.charEnd, h.pageNumber⟩

/-! ## One segment -/

theorem asInt?_intCast (n : ℤ) : asInt? (.num n) = some n := by
  simp [asInt?]

/-- A segment shows what its locator says. -/
theorem evidenceOfSegment_eq {r : RetrievalSegment} {c : SourceChunk}
    (hordinal : r.segmentOrder = c.ordinal) (hcontent : r.content = c.content)
    (hstart : r.locator.get "char_start" = some (.num c.charStart))
    (hend : r.locator.get "char_end" = some (.num c.charEnd))
    (hpage : (r.locator.get "page_number").bind asInt? = c.pageNumber) :
    evidenceOfSegment r = evidenceOfChunk c := by
  unfold evidenceOfSegment evidenceOfChunk segmentToContextChunk
  simp only [hordinal, hcontent, hstart, hend, hpage, Option.getD_some, asInt?_natCast]

/-- The locator of a chunk before its fields that are `null` go. -/
def fullLocator (c : SourceChunk) : Dict :=
  (Dict.ofFields
    [("char_start", .num c.charStart), ("char_end", .num c.charEnd),
      ("page_number", (c.pageNumber.map fun n => Json.num n).getD .null)]).merge c.metadata

theorem fullLocator_sorted (c : SourceChunk) : (fullLocator c).SortedKeys :=
  (Dict.sortedKeys_ofFields _).merge _

theorem fullLocator_page {c : SourceChunk} (h : Written c) :
    (fullLocator c).get "page_number" =
      some ((c.pageNumber.map fun n => Json.num n).getD .null) := by
  unfold fullLocator
  rw [Dict.get_merge_of_sortedKeys h.sorted]
  rcases h.pageNumber with hpage | hpage
  · rw [hpage, Dict.get_ofFields]
    rfl
  · rw [hpage]
    rfl

/-- The segment that is selected from a chunk shows the chunk. -/
theorem evidence_selectSegment {c : SourceChunk} (h : Written c) (g : FileProcessingGeneration) :
    evidenceOfSegment (selectSegment c g) = evidenceOfChunk c := by
  have hstart : (fullLocator c).get "char_start" = some (.num c.charStart) := by
    unfold fullLocator
    rw [Dict.get_merge_of_none h.charStart, Dict.get_ofFields]
    simp [List.lookup_cons]
  have hend : (fullLocator c).get "char_end" = some (.num c.charEnd) := by
    unfold fullLocator
    rw [Dict.get_merge_of_none h.charEnd, Dict.get_ofFields]
    simp [List.lookup_cons]
  refine evidenceOfSegment_eq rfl rfl (Dict.get_stripNulls hstart rfl)
    (Dict.get_stripNulls hend rfl) ?_
  have hpage := fullLocator_page h
  show ((fullLocator c).stripNulls.get "page_number").bind asInt? = c.pageNumber
  cases hnumber : c.pageNumber with
  | none =>
    rw [hnumber] at hpage
    rw [(fullLocator_sorted c).get_stripNulls_of_null hpage]
    rfl
  | some n =>
    rw [hnumber] at hpage
    rw [Dict.get_stripNulls hpage rfl]
    exact asInt?_intCast n

/-- The segment that the mirror makes of a chunk shows the chunk. -/
theorem evidence_segmentOf {c : SourceChunk} (h : Written c) (fileId generationId : UUID)
    (stamp : Stamp) :
    evidenceOfSegment (segmentOf fileId generationId c stamp) = evidenceOfChunk c := by
  refine evidenceOfSegment_eq rfl rfl ?_ ?_ ?_ <;> unfold segmentOf
  · rw [Dict.get_merge_of_none h.charStart, Dict.get_ofFields]
    cases c.pageNumber <;> simp [List.lookup_cons]
  · rw [Dict.get_merge_of_none h.charEnd, Dict.get_ofFields]
    cases c.pageNumber <;> simp [List.lookup_cons]
  · rw [Dict.get_merge_of_sortedKeys h.sorted, Dict.get_ofFields]
    rcases h.pageNumber with hpage | hpage <;> rw [hpage] <;> cases c.pageNumber <;>
      simp [List.lookup_cons, asInt?]

/-! ## The segments of a generation -/

theorem mirrors_segmentsOf {chunks : List SourceChunk} (h : ∀ c ∈ chunks, Written c)
    (fileId generationId : UUID) (stamps : ℕ → Stamp) :
    Mirrors (segmentsOf fileId generationId chunks stamps) chunks := by
  unfold Mirrors segmentsOf
  refine List.ext_getElem (by simp) fun n hn hn' => ?_
  rw [List.length_map] at hn'
  rw [List.getElem_map, List.getElem_map, List.getElem_mapIdx]
  exact evidence_segmentOf (h _ (List.getElem_mem hn')) fileId generationId (stamps n)

/-- The segments that a mirrored generation has are those of the chunks. -/
theorem mirrors_mirrorProcessingComplete {settings : Settings} {s : Source}
    {chunks : List SourceChunk} {stamp : Stamp} {stamps : ℕ → Stamp} {st st' : State}
    (hwritten : ∀ c ∈ chunks, Written c)
    (h : mirrorProcessingComplete settings s chunks stamp stamps st = .ok st') :
    Mirrors (st'.segments.select fun r => r.generationId = stamp.id) chunks := by
  obtain ⟨-, -, hsegments, -⟩ := mirrorProcessingComplete_ok h
  have hselect : (st'.segments.select fun r => r.generationId = stamp.id) =
      segmentsOf s.id stamp.id chunks stamps := by
    refine Table.select_insertAll?_eq hsegments (fun r hr => (Table.mem_delete.mp hr).2) ?_
    intro r hr
    obtain ⟨n, hn, rfl⟩ := List.mem_mapIdx.mp hr
    exact decide_eq_true rfl
  rw [hselect]
  exact mirrors_segmentsOf hwritten s.id stamp.id stamps

/-- The segments of a generation are selected from the chunks of its Source. -/
theorem filter_selectSegments {generations : Table FileProcessingGeneration}
    {g : FileProcessingGeneration} (hg : g ∈ generations) (hactive : g.isActive = true)
    (hone : ∀ g' ∈ generations, g'.fileId = g.fileId → g' = g) (chunks : Table SourceChunk) :
    (selectSegments generations chunks).filter (fun r => r.generationId = g.id) =
      (chunks.select fun c => c.sourceId = g.fileId).map fun c => selectSegment c g := by
  have hown : ∀ c : SourceChunk, c.sourceId = g.fileId → joined generations c = [g] := by
    intro c hc
    refine Table.select_eq_singleton hg (by simp [hc, hactive]) rfl fun g' hg' hp => ?_
    exact hone g' hg' ((of_decide_eq_true hp).1.trans hc)
  have hother : ∀ c : SourceChunk, c.sourceId ≠ g.fileId →
      ((joined generations c).map (selectSegment c)).filter (fun r => r.generationId = g.id) = [] := by
    intro c hc
    refine List.filter_eq_nil_iff.mpr fun r hr hid => hc ?_
    obtain ⟨g', hg', rfl⟩ := List.mem_map.mp hr
    obtain ⟨hmem, hp⟩ := Table.mem_select.mp hg'
    obtain rfl := generations.eq_of_conflict hmem hg (of_decide_eq_true hid)
    exact (of_decide_eq_true hp).1.symm
  unfold selectSegments Table.select
  induction chunks.rows with
  | nil => rfl
  | cons c cs ih =>
    rw [List.flatMap_cons, List.filter_append, ih]
    by_cases hc : c.sourceId = g.fileId
    · rw [hown c hc, List.filter_cons_of_pos (by simpa using hc)]
      simp [selectSegment]
    · rw [hother c hc, List.filter_cons_of_neg (by simpa using hc)]
      rfl

/-! ## The whole backfill -/

/-- The `CASE` of the statement is `media_kind_from_source_type`. -/
theorem selectFile_eq (s : Source) : selectFile s = fileFromSource s := by
  unfold selectFile fileFromSource
  congr 1
  · cases s.sourceType <;> rfl
  · cases s.deletedAt <;> rfl

variable {db : Revision0035} {db' : Revision0036}

/-- A Source that is ready has a generation. -/
theorem exists_generation {s : Source} (hs : s ∈ db.sources.rows)
    (hready : s.processingStatus = .ready) :
    ∃ g ∈ selectGenerations text fresh db.sources, g.fileId = s.id ∧ g.isActive = true := by
  have hmem : s ∈ db.sources.select fun s => s.processingStatus = .ready :=
    Table.mem_select.mpr ⟨hs, decide_eq_true hready⟩
  obtain ⟨i, hi, hat⟩ := List.getElem_of_mem hmem
  refine ⟨_, mem_selectGenerations.mpr ⟨i, hi, rfl⟩, ?_, rfl⟩
  rw [hat]
  rfl

theorem Expanded.backfilled (h : Expanded text fresh db db')
    (hwritten : ∀ c ∈ db.sourceChunks.rows, Written c) : Backfilled db db' where
  files := by
    rw [h.files]
    exact List.map_congr_left fun s _ => selectFile_eq s
  ready s hs hready := by
    rw [h.generations]
    obtain ⟨g, hg, hfile, hactive⟩ := exists_generation hs hready
    refine ⟨g, ⟨hg, hfile, hactive⟩, ?_⟩
    rintro g' ⟨hg', hfile', -⟩
    exact eq_of_fileId hg' hg (hfile'.trans hfile.symm)
  others s hs hnot g hg hfile := by
    rw [h.generations] at hg
    obtain ⟨s', hs', hready, id, rfl⟩ := source_of_generation hg
    obtain rfl := db.sources.eq_of_conflict hs' hs (.inl hfile)
    exact absurd hready hnot
  segments s hs g hg hfile hactive := by
    have hone : ∀ g' ∈ db'.generations, g'.fileId = g.fileId → g' = g := by
      intro g' hg' heq
      rw [← Table.mem_rows, h.generations] at hg'
      rw [h.generations] at hg
      exact eq_of_fileId hg' hg heq
    have hselect : (db'.segments.select fun r => r.generationId = g.id) =
        (chunksOf db s).map fun c => selectSegment c g := by
      unfold Table.select
      rw [h.segments, filter_selectSegments hg hactive hone, hfile]
      rfl
    unfold Mirrors
    rw [hselect, List.map_map]
    refine List.map_congr_left fun c hc => ?_
    exact evidence_selectSegment (hwritten c (Table.mem_select.mp hc).1) g

/-- After the upgrade the Files, generations and segments are what the mirror would have made of the Sources
and their chunks. -/
theorem backfill_agrees (text : Json → String) (fresh : ℕ → UUID) (db : Revision0035)
    (hfresh : Fresh fresh db) (hwritten : ∀ c ∈ db.sourceChunks.rows, Written c) :
    ∃ db', expandFiles text fresh db = some db' ∧ Backfilled db db' ∧
      ∀ s ∈ db.sources.rows, ∀ (settings : Settings) (stamp : Stamp) (stamps : ℕ → Stamp)
        (st st' : State),
        mirrorProcessingComplete settings s (chunksOf db s) stamp stamps st = .ok st' →
          Mirrors (st'.segments.select fun r => r.generationId = stamp.id) (chunksOf db s) := by
  obtain ⟨db', h, hdb'⟩ := exists_expandFiles text hfresh
  refine ⟨db', h, hdb'.backfilled hwritten, fun s hs settings stamp stamps st st' hmirror => ?_⟩
  refine mirrors_mirrorProcessingComplete (fun c hc => ?_) hmirror
  exact hwritten c (Table.mem_select.mp hc).1

/-- The document and the note are Files, and the segments of the document are its pages. -/
theorem backfill_agrees_library :
    ∃ db', expandFiles (fun _ => "") numbered library = some db' ∧ Backfilled library db' ∧
      ∀ s ∈ library.sources.rows, ∀ (settings : Settings) (stamp : Stamp) (stamps : ℕ → Stamp)
        (st st' : State),
        mirrorProcessingComplete settings s (chunksOf library s) stamp stamps st = .ok st' →
          Mirrors (st'.segments.select fun r => r.generationId = stamp.id) (chunksOf library s) := by
  refine backfill_agrees (fun _ => "") numbered library numbered_fresh fun c hc => ?_
  have hchunk : ∃ id ordinal content charStart charEnd,
      c = libraryChunk id ordinal content charStart charEnd := by
    rcases List.mem_pair.mp hc with rfl | rfl <;> exact ⟨_, _, _, _, _, rfl⟩
  obtain ⟨id, ordinal, content, charStart, charEnd, rfl⟩ := hchunk
  refine ⟨Dict.sortedKeys_ofFields _, Dict.get_ofFields_of_not_mem (by simp),
    Dict.get_ofFields_of_not_mem (by simp), .inr ?_⟩
  show (Dict.ofFields _).get "page_number" = _
  rw [Dict.get_ofFields]
  simp [libraryChunk]

end Migrations
