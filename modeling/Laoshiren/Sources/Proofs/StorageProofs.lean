import Laoshiren.Sources.Proofs.DeletionProofs
import Laoshiren.Sources.Proofs.FileProofs

/-!
# Proofs: the objects of the Files that are there

An object is stored before its File is committed, and no lock says that an upload is under way. So a scan
that read the Files before takes the object for one that nobody wants.
-/

namespace Sources

open Runtime Raise Table
open PersonalState (Calendar DeleteFile)

variable {cal : Calendar} {settings : Settings} {op : Op} {view : ℕ → World} {w w' : World}
  {s : State} {f f' : File} {process p : UUID} {key : String} {reply : Reply}
  {h : History World Op Reply}

/-! ## Conditions -/

/-- The object of an upload that is under way, or failed. -/
def Activity.uploadKey : Activity → Option String
  | .stored source => some source.objectKey
  | .refused key => some key
  | _ => none

/-- No File and no upload has the key. -/
def KeyFree (w : World) (key : String) : Prop :=
  (∀ f ∈ w.files, f.storageKey ≠ key) ∧ ∀ process, (w.activities process).uploadKey ≠ some key

/-- The key that an upload draws for its object. -/
def Op.draws : Op → Option String
  | .put _ upload name _ _ _ => some (upload.objectKey name)
  | .refuse _ upload name => some (upload.objectKey name)
  | _ => none

/-- An upload is about to add a File with the key. -/
def UnderWay (w : World) (key : String) : Prop :=
  ∃ process source, w.activities process = .stored source ∧ source.objectKey = key

/-- The key is the one of a File that is not deleted, or of an upload under way. -/
def Wanted (w : World) (key : String) : Prop :=
  (∃ f ∈ w.files, f.deletedAt = none ∧ f.storageKey = key) ∨ UnderWay w key

/-- Uploads draw new keys, and a scan that comes to an object which is wanted read its key before. -/
structure Op.Careful (op : Op) (w : World) : Prop where
  draws : ∀ key ∈ op.draws, KeyFree w key
  sweep : ∀ process limit known key found removed, op = .sweep process limit →
    w.activities process = .sweeping known (key :: found) removed → Wanted w key → key ∈ known

/-! ## Files -/

/-- What a step makes of a File. -/
structure FileMove (f f' : File) : Prop where
  id : f'.id = f.id
  owner : f'.ownerUserId = f.ownerUserId
  storageKey : f'.storageKey = f.storageKey
  deleted : f.deletedAt.isSome = true → f'.deletedAt.isSome = true

theorem FileMove.refl (f : File) : FileMove f f := ⟨rfl, rfl, rfl, fun hdeleted => hdeleted⟩

theorem SameFile.move (h : SameFile f f') : FileMove f f' :=
  ⟨h.id, h.owner, h.storageKey, fun hdeleted => by rwa [h.deletedAt]⟩

/-- A step moves the Files, and an upload adds one. -/
theorem writes_files (h : Writes settings op view w s reply)
    (hmirrors : Mirrors w.sources w.files) :
    Grows FileMove (fun f => ∃ process attachment source, op = .addUpload process attachment ∧
      w.activities process = .stored source ∧ f = fileFromSource source) w.files s.files := by
  cases h with
  | nothing | claimed | renewed | failed => exact .refl .refl _
  | uploaded hop hactivity hsources hfiles hsame =>
    rcases hfiles with hinsert | ⟨hsame, -⟩
    · exact .insert? .refl ⟨_, _, _, hop, hactivity, rfl⟩ hinsert
    · rw [hsame]
      exact .refl .refl _
  | deleted hop hdeletes =>
    rw [hdeletes.files]
    refine .update .refl fun f _ _ => ⟨rfl, rfl, rfl, fun _ => ?_⟩
    rfl
  | completed hop hactivity hcompletes =>
    obtain ⟨normalized, chunks, -, -, hsources, -⟩ := hcompletes.parsed
    obtain ⟨r', hr', hid, hmirrored⟩ := hcompletes.mirrored
    obtain ⟨r, hr, hheld⟩ := hcompletes.held
    have hid₀ : r.id = _ := (of_decide_eq_true hheld).1
    rw [hmirrors.eq_of_mirrored hr (hid.trans hid₀.symm) hmirrored]
    exact .refl .refl _
  | purged hop hidle hpurged =>
    exact .of_moves (hpurged.files.2.imp fun _ _ hsame => hsame.move)
  | @foreign change hforeign hop =>
    rw [(hforeign w.toState).files]
    exact .refl .refl _

/-! ## The invariant -/

/-- The objects that are wanted are stored, and what is to be deleted from the storage is not wanted. -/
structure Kept (w : World) : Prop where
  file : ∀ f ∈ w.files, f.deletedAt = none → f.storageKey ∈ w.objects
  upload : ∀ process source, w.activities process = .stored source → source.objectKey ∈ w.objects
  apart : ∀ process key, (w.activities process).uploadKey = some key →
    (∀ f ∈ w.files, f.storageKey ≠ key) ∧
      ∀ other, (w.activities other).uploadKey = some key → other = process
  purged : ∀ process key, w.activities process = .purged key →
    ∃ f ∈ w.files, f.deletedAt.isSome = true ∧ f.storageKey = key

/-- What an upload is under way for is no File's yet. -/
theorem Kept.not_wanted_of_refused (h : Kept w) (hrefused : w.activities process = .refused key) :
    ¬Wanted w key := by
  have hkey : (w.activities process).uploadKey = some key := by rw [hrefused]; rfl
  obtain ⟨hfiles, huploads⟩ := h.apart process key hkey
  rintro (⟨f, hf, -, hsame⟩ | ⟨other, source, hstored, hsame⟩)
  · exact hfiles f hf hsame
  · have hother := huploads other (by rw [hstored]; exact congrArg some hsame)
    rw [hother, hrefused] at hstored
    cases hstored

theorem Kept.not_wanted_of_purged (h : Kept w) (hpurged : w.activities process = .purged key) :
    ¬Wanted w key := by
  obtain ⟨f, hf, hdeleted, rfl⟩ := h.purged process key hpurged
  rintro (⟨f', hf', hlive, hsame⟩ | ⟨other, source, hstored, hsame⟩)
  · obtain rfl := eq_of_conflict hf hf' (.inr (.inr hsame.symm))
    rw [hlive] at hdeleted
    cases hdeleted
  · have hkey : (w.activities other).uploadKey = some source.objectKey := by rw [hstored]; rfl
    exact (h.apart other _ hkey).1 f hf hsame.symm

/-- A step deletes no object that is wanted. -/
theorem Kept.objects (h : Kept w) (hcareful : op.Careful w) (hwanted : Wanted w key)
    (hkey : key ∈ w.objects) : key ∈ (World.commit cal settings op view w).1.objects := by
  generalize hobjects : (World.commit cal settings op view w).1.objects = objects
  have hmove := commit_objects cal settings op view (w := w)
  rw [hobjects] at hmove
  cases hmove with
  | kept => exact hkey
  | put => exact Finset.mem_insert_of_mem hkey
  | cleanedUp hop hrefused =>
    refine Finset.mem_erase.mpr ⟨?_, hkey⟩
    rintro rfl
    exact h.not_wanted_of_refused hrefused hwanted
  | erased hop hpurged =>
    refine Finset.mem_erase.mpr ⟨?_, hkey⟩
    rintro rfl
    exact h.not_wanted_of_purged hpurged hwanted
  | swept hop hsweeping hunknown =>
    refine Finset.mem_erase.mpr ⟨?_, hkey⟩
    rintro rfl
    exact hunknown (hcareful.sweep _ _ _ _ _ _ hop hsweeping hwanted)

/-! ## Steps -/

/-- The process that draws a key. -/
def Op.drawer : Op → Option UUID
  | .put process _ _ _ _ _ | .refuse process _ _ => some process
  | _ => none

/-- The object of an upload is one that it had before, or it is drawn. -/
theorem ActivityMove.uploadKey {a a' : Activity} (h : ActivityMove settings op view w process a a')
    (hkey : a'.uploadKey = some key) :
    a.uploadKey = some key ∨ op.draws = some key ∧ op.drawer = some process := by
  cases h with
  | kept | notAdded => exact .inl hkey
  | put hop =>
    rw [hop]
    refine .inr ⟨?_, rfl⟩
    rw [← hkey]
    exact congrArg some objectKey_source.symm
  | refused hop =>
    rw [hop]
    exact .inr ⟨hkey, rfl⟩
  | added | cleanedUp | claimed | renewed | parsed | lost | raised | completed | notCompleted
    | failed | purged | erased | scanned | listed | swept | stopped | crashed => cases hkey

/-- The File that a purge worker purged is deleted. -/
theorem Purged.file {owner : String} {lease : ℤ} {now : Timestamp} {reached locked : UUID → Bool}
    (h : Purged owner lease now reached locked w.toState s (some key)) (hfiled : Filed w) :
    ∃ f ∈ w.files, f.deletedAt.isSome = true ∧ f.storageKey = key := by
  generalize hobjectKey : some key = objectKey at h
  cases h with
  | rolledBack | passed => cases hobjectKey
  | purged hjob hpurges hjobs hsettled hsame =>
    obtain ⟨hfound, -⟩ := Option.filter_eq_some_iff.mp hobjectKey.symm
    rw [hpurges.objectKey] at hfound
    obtain ⟨f, hf, hstorageKey⟩ := Option.map_eq_some_iff.mp hfound
    obtain ⟨hmem, hwhere⟩ := get_eq_some hf
    obtain ⟨r, hr, hid, hdeleted, -⟩ := hfiled.jobs.purges hjob hpurges
    obtain ⟨f', hf', hmirror⟩ := hfiled.mirrors.file r hr
    obtain rfl := file_eq hmem hf' ((of_decide_eq_true hwhere).1.trans (hid.symm.trans hmirror.id.symm))
    exact ⟨f, hmem, hmirror.deleted.trans hdeleted, hstorageKey⟩

/-- A process that purged a File did so before, or it purges one that is deleted. -/
theorem ActivityMove.purged_file {a a' : Activity} (hfiled : Filed w)
    (h : ActivityMove settings op view w process a a') (hpurged : a' = .purged key) :
    a = .purged key ∨ ∃ f ∈ w.files, f.deletedAt.isSome = true ∧ f.storageKey = key := by
  cases h with
  | kept => exact .inl hpurged
  | purged hop hcommitted =>
    obtain rfl := Activity.purged.inj hpurged
    exact .inr ((purgeFile_ok hcommitted).file hfiled)
  | put | refused | added | notAdded | cleanedUp | claimed | renewed | parsed | lost | raised
    | completed | notCompleted | failed | erased | scanned | listed | swept | stopped
    | crashed => cases hpurged

/-- What an upload stored is stored. -/
theorem commit_stored {source : Source}
    (h : (World.commit cal settings op view w).1.activities process = .stored source) :
    w.activities process = .stored source ∨
      source.objectKey ∈ (World.commit cal settings op view w).1.objects := by
  have hmove := commit_activity cal settings op view
    (w := w) process
  rw [h] at hmove
  generalize hbefore : w.activities process = a at hmove
  generalize hafter : Activity.stored source = a' at hmove
  cases hmove with
  | kept => exact .inl rfl
  | @put upload name size contentHash stamp sourceType hop =>
    subst hop
    simp only [World.commit, hbefore] at h ⊢
    split at h
    next found sourceType hfound htype =>
      obtain rfl := Activity.stored.inj ((Function.update_self ..).symm.trans h)
      exact .inr (Finset.mem_insert_self ..)
    next => cases hbefore.symm.trans h
    next => cases hbefore.symm.trans h
  | refused | added | notAdded | cleanedUp | claimed | renewed | parsed | lost | raised
    | completed | notCompleted | failed | purged | erased | scanned | listed | swept | stopped
    | crashed => cases hafter

/-- An upload that added its File is over. -/
theorem commit_addUpload {attachment : Raises Unit} {source : Source}
    (hstored : w.activities process = .stored source) :
    (World.commit cal settings (.addUpload process attachment) view w).1.toState = w.toState ∨
      ((World.commit cal settings (.addUpload process attachment) view w).1.activities
        process).uploadKey = none := by
  simp only [World.commit, hstored]
  split
  · have hidle : Function.update w.activities process .idle process = .idle :=
      Function.update_self _ _ _
    exact .inr (congrArg Activity.uploadKey hidle)
  · exact .inl rfl

theorem Kept.step (h : Kept w) (hfiled : Filed w) (hcareful : op.Careful w) :
    Kept (World.commit cal settings op view w).1 := by
  have hfiles := writes_files (commit_writes cal settings op view (w := w)) hfiled.mirrors
  constructor
  · intro f' hf' hlive
    rcases hfiles.origin f' hf' with ⟨f, hf, hmove⟩ | ⟨q, attachment, source, -, hstored, rfl⟩
    · have hlive₀ : f.deletedAt = none := by
        by_contra hdeleted
        have hdeleted' := hmove.deleted (Option.isSome_iff_ne_none.mpr hdeleted)
        rw [hlive] at hdeleted'
        cases hdeleted'
      rw [hmove.storageKey]
      exact h.objects hcareful (.inl ⟨f, hf, hlive₀, rfl⟩) (h.file f hf hlive₀)
    · exact h.objects hcareful (.inr ⟨q, source, hstored, rfl⟩) (h.upload q source hstored)
  · intro q source hstored
    rcases commit_stored hstored with hbefore | hput
    · exact h.objects hcareful (.inr ⟨q, source, hbefore, rfl⟩) (h.upload q source hbefore)
    · exact hput
  · intro q key hkey
    have hsource := (commit_activity cal settings op view (w := w) q).uploadKey hkey
    constructor
    · intro f' hf' hsame
      rcases hfiles.origin f' hf' with ⟨f, hf, hmove⟩ | ⟨other, attachment, source, rfl, hstored, rfl⟩
      · rcases hsource with hbefore | ⟨hdrawn, -⟩
        · exact (h.apart q key hbefore).1 f hf (hmove.storageKey.symm.trans hsame)
        · exact (hcareful.draws key hdrawn).1 f hf (hmove.storageKey.symm.trans hsame)
      · rcases hsource with hbefore | ⟨hdrawn, -⟩
        · have hother : (w.activities other).uploadKey = some key := by
            rw [hstored]
            exact congrArg some hsame
          obtain rfl := (h.apart q key hbefore).2 other hother
          rcases commit_addUpload hstored with htables | hover
          · rw [htables] at hf'
            exact (h.apart other key hbefore).1 _ hf' hsame
          · rw [hover] at hkey
            cases hkey
        · cases hdrawn
    · intro other hother
      have hsource' := (commit_activity cal settings op view (w := w) other).uploadKey hother
      rcases hsource with hbefore | ⟨hdrawn, hdrawer⟩
      · rcases hsource' with hbefore' | ⟨hdrawn', -⟩
        · exact (h.apart q key hbefore).2 other hbefore'
        · exact absurd hbefore ((hcareful.draws key hdrawn').2 q)
      · rcases hsource' with hbefore' | ⟨-, hdrawer'⟩
        · exact absurd hbefore' ((hcareful.draws key hdrawn).2 other)
        · exact Option.some.inj (hdrawer'.symm.trans hdrawer)
  · intro q key hpurged
    have hmove := commit_activity cal settings op view
      (w := w) q
    obtain ⟨f, hf, hdeleted, hsame⟩ : ∃ f ∈ w.files, f.deletedAt.isSome = true ∧
        f.storageKey = key := by
      rcases hmove.purged_file hfiled hpurged with hbefore | hfound
      · exact h.purged q key hbefore
      · exact hfound
    obtain ⟨f', hf', hmoved⟩ := hfiles.kept f hf
    exact ⟨f', hf', hmoved.deleted hdeleted, hmoved.storageKey.trans hsame⟩

/-! ## Every run -/

theorem stable_kept : Program.Stable (system cal settings) (fun op _ w => op.Careful w)
    (fun w => Filed w ∧ Kept w) SourcesLater := by
  refine stable_filed.strengthen Kept ?_ fun op view w hfiled h _ hcareful => h.step hfiled hcareful
  intro w hw
  obtain rfl : w = {} := hw
  constructor
  · exact fun f hf => absurd hf not_mem_empty
  · exact fun _ _ h => nomatch h
  · exact fun _ _ h => nomatch h
  · exact fun _ _ h => nomatch h

/-- Where uploads draw new keys, and every scan read the key of each wanted object that it comes to, the
object of every File that is not deleted is there. -/
theorem objects_outlive_rows
    (hreachable : (system cal settings).ReachableIf (fun op _ w => op.Careful w) h)
    (hf : f ∈ h.cur.files) (hlive : f.deletedAt = none) : f.storageKey ∈ h.cur.objects :=
  (stable_kept.inv_cur hreachable).2.file f hf hlive

/-! ## A scan during an upload -/

/-- Scanner 5 reads the keys, walks the storage and looks at the note. -/
def scannedNote : List Op :=
  uploadNote ++ [.readKeys 5, .listObjects 5 [note.objectKey 7], .sweep 5 100]

/-- A step that draws no key and does not sweep. -/
theorem Op.Careful.of_plain (hdraws : op.draws = none) (hsweep : ∀ process limit,
    op ≠ .sweep process limit) : op.Careful w where
  draws key hkey := by
    rw [hdraws] at hkey
    cases hkey
  sweep process limit _ _ _ _ hop := absurd hop (hsweep process limit)

theorem scannedNote_careful : (system PersonalState.tallies twoAttempts).SerialMeets
    (fun op _ w => op.Careful w) ⟨{}, [], []⟩ scannedNote := by
  refine ⟨⟨?_, nofun⟩, .of_plain rfl nofun, .of_plain rfl nofun, .of_plain rfl nofun, ⟨?_, ?_⟩,
    trivial⟩
  · exact fun key _ => ⟨fun f hf => absurd hf not_mem_empty, fun process => nofun⟩
  · exact fun key hkey => nomatch hkey
  · intro process limit known key found removed hop hsweeping _
    obtain ⟨rfl, -⟩ := Op.sweep.inj hop
    have hactivity : ((system PersonalState.tallies twoAttempts).serial {} (uploadNote ++
        [.readKeys 5, .listObjects 5 [note.objectKey 7]])).cur.activities 5 =
          .sweeping [note.objectKey 7] [note.objectKey 7] 0 := by
      decide +kernel
    obtain ⟨rfl, hfound, -⟩ := Activity.sweeping.inj (hactivity.symm.trans hsweeping)
    rw [hfound]
    exact .head _

/-- The scan leaves the note alone. -/
theorem objects_outlive_rows_scanned :
    ∃ f ∈ ((system PersonalState.tallies twoAttempts).serial {} scannedNote).cur.files,
      f.storageKey ∈ ((system PersonalState.tallies twoAttempts).serial {} scannedNote).cur.objects := by
  have hrow : ∃ f ∈ ((system PersonalState.tallies twoAttempts).serial {}
      scannedNote).cur.files.rows, f.deletedAt = none := by
    decide +kernel
  obtain ⟨f, hf, hlive⟩ := hrow
  exact ⟨f, hf, objects_outlive_rows
    ((system _ _).serial_reachableIf rfl _ scannedNote_careful) hf hlive⟩

/-- Scanner 5 reads the keys before the note is uploaded, and walks the storage while it is. -/
def scannedBetween : List Op :=
  [.readKeys 5, .put 1 note 7 2 "hash" ⟨10, 0⟩, .listObjects 5 [note.objectKey 7],
    .addUpload 1 (pure ()), .sweep 5 100]

/-- The scan deletes the object of the note that was just uploaded. -/
theorem row_outlives_object :
    ∃ h : History World Op Reply, (system PersonalState.tallies twoAttempts).Reachable h ∧
      ∃ f ∈ h.cur.files, f.deletedAt = none ∧ f.storageKey ∉ h.cur.objects := by
  refine ⟨_, (system PersonalState.tallies twoAttempts).serial_reachable rfl scannedBetween, ?_⟩
  have hrow : ∃ f ∈ ((system PersonalState.tallies twoAttempts).serial {}
      scannedBetween).cur.files.rows, f.deletedAt = none ∧
        f.storageKey ∉ ((system PersonalState.tallies twoAttempts).serial {}
          scannedBetween).cur.objects := by
    decide +kernel
  exact hrow

end Sources
