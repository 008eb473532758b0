import Laoshiren.Sources.Proofs.WriteProofs

/-!
# Proofs: who holds a Source

A claim has no token of its own: a worker is known by its id, and a Source by the number of its attempts.
A worker holds the Source that it is at only under the attempt that it claimed.
-/

namespace Sources

open Runtime Raise Table
open PersonalState (Calendar)

variable {cal : Calendar} {settings : Settings} {op : Op} {view : ℕ → World} {w : World}
  {r r' : Source} {job : SourceProcessingJob} {process : UUID}

theorem workerOwner_injective : Function.Injective workerOwner :=
  fun _ _ h => UUID.str_injective ((String.append_right_inj _).mp h)

theorem claimedBy_iff {sourceId : UUID} {owner : String} :
    SourceRepository.claimedBy sourceId owner r = true ↔
      r.id = sourceId ∧ r.processingStatus = .pending ∧ r.processingClaimOwner = some owner := by
  simp [SourceRepository.claimedBy]

/-- The worker still holds the Source that it is at. -/
def Holds (w : World) (process : UUID) (job : SourceProcessingJob) (r : Source) : Prop :=
  (w.activities process).job = some job ∧
    SourceRepository.claimedBy job.id (workerOwner process) r = true

/-- What a worker is at is a Source that was tried as often as when the worker claimed it, or more often,
and then the worker does not hold it any more. -/
structure Tried (job : SourceProcessingJob) (owner : String) (r : Source) : Prop where
  id : r.id = job.id
  attempts : job.attemptCount ≤ r.processingAttemptCount
  held : SourceRepository.claimedBy job.id owner r = true →
    r.processingAttemptCount = job.attemptCount

/-- Every worker is at a Source that it tried. -/
def AllTried (w : World) : Prop :=
  ∀ process job, (w.activities process).job = some job →
    ∃ r ∈ w.sources, Tried job (workerOwner process) r

/-- A claim of a Source that is held was held before, but where a worker claims it. -/
theorem SourceMove.held {sourceId : UUID} {owner : String}
    (h : SourceMove settings op view w r r')
    (hheld : SourceRepository.claimedBy sourceId owner r' = true) :
    SourceRepository.claimedBy sourceId owner r = true ∧
        r'.processingAttemptCount = r.processingAttemptCount ∨
      ∃ process userId now locked, op = .claim process userId now locked ∧
        w.activities process = .idle ∧ owner = workerOwner process := by
  obtain ⟨hid, hpending, howner⟩ := claimedBy_iff.mp hheld
  cases h with
  | kept => exact .inl ⟨hheld, rfl⟩
  | @deleted c fresh loaded hop hnew hloaded hid' =>
    refine .inl ⟨claimedBy_iff.mpr ⟨hid, ?_, howner⟩, rfl⟩
    have hpending : SourceRepository.flushed loaded.processingStatus .failed r.processingStatus =
        .pending := hpending
    unfold SourceRepository.flushed at hpending
    split at hpending
    · exact hpending
    · cases hpending
  | claimed hop hidle hclaimable =>
    exact .inr ⟨_, _, _, _, hop, hidle, (Option.some.inj howner).symm⟩
  | renewed hop hjob hheld' => exact .inl ⟨claimedBy_iff.mpr ⟨hid, hpending, howner⟩, rfl⟩
  | completed => cases hpending
  | failed => cases hpending

/-- What a worker holds after a step it held before, or it claims it. -/
theorem SourceMove.held_by {sourceId : UUID} (h : SourceMove settings op view w r r')
    (hbusy : (w.activities process).job = some job)
    (hheld : SourceRepository.claimedBy sourceId (workerOwner process) r' = true) :
    SourceRepository.claimedBy sourceId (workerOwner process) r = true ∧
      r'.processingAttemptCount = r.processingAttemptCount := by
  rcases h.held hheld with hbefore | ⟨other, _, _, _, -, hidle, howner⟩
  · exact hbefore
  · rw [workerOwner_injective howner, hidle] at hbusy
    cases hbusy

theorem Tried.step (h : Tried job (workerOwner process) r)
    (hmove : SourceMove settings op view w r r')
    (hbusy : (w.activities process).job = some job) : Tried job (workerOwner process) r' where
  id := hmove.later.id.trans h.id
  attempts := h.attempts.trans hmove.later.attempts
  held hheld := by
    obtain ⟨hbefore, hsame⟩ := hmove.held_by hbusy hheld
    exact hsame.trans (h.held hbefore)

/-- A worker is at what it was at, or it claimed it. -/
theorem ActivityMove.busy {a a' : Activity} (h : ActivityMove settings op view w process a a')
    (hjob : a'.job = some job) : a.job = some job ∨ ∃ userId now locked s,
      a = .idle ∧ op = .claim process userId now locked ∧
        claimNextProcessing settings (workerOwner process) userId now locked w.toState =
          .ok (s, some job) := by
  cases h with
  | kept | renewed | parsed | raised | notCompleted => exact .inl hjob
  | claimed hop hclaimed =>
    obtain rfl := Option.some.inj hjob
    exact .inr ⟨_, _, _, _, rfl, hop, hclaimed⟩
  | put | refused | added | notAdded | cleanedUp | lost | completed | failed | purged | erased
    | scanned | listed | swept | stopped | crashed => cases hjob

/-- What a claim makes of the system. -/
theorem commit_claim {userId : Option UUID} {now : Timestamp} {locked : UUID → Bool} {s : State}
    (hidle : w.activities process = .idle)
    (hclaimed : claimNextProcessing settings (workerOwner process) userId now locked w.toState =
      .ok (s, some job)) :
    World.commit cal settings (.claim process userId now locked) view w =
      ({ w with toState := s }.setActivity process (.parsing job false), .claimed job) := by
  simp only [World.commit, hidle, hclaimed]

theorem allTried_step (h : AllTried w) : AllTried (World.commit cal settings op view w).1 := by
  intro process job hjob
  rcases (commit_activity _ _ _ _ process).busy hjob with hbusy | ⟨userId, now, locked, s, hidle, hop, hclaimed⟩
  · obtain ⟨r, hr, htried⟩ := h process job hbusy
    obtain ⟨r', hr', hmove⟩ := (writes_sources (commit_writes ..)).kept r hr
    exact ⟨r', hr', htried.step hmove hbusy⟩
  · subst hop
    rw [commit_claim hidle hclaimed]
    obtain ⟨source, hsource, -, hid, hattempt, rfl⟩ := claimNextProcessing_ok hclaimed
    refine ⟨_, mem_update_of_pos hsource (decide_eq_true rfl), hid.symm, hattempt.le, fun _ => ?_⟩
    exact hattempt.symm

theorem stable_tried {ok : Op → (ℕ → World) → World → Prop} :
    Program.Stable (system cal settings) ok (fun w => NewUploads w ∧ AllTried w) SourcesLater := by
  refine stable_sources.strengthen AllTried ?_ fun _ _ _ _ h _ _ => allTried_step h
  intro w hw
  obtain rfl : w = {} := hw
  exact fun _ _ h => nomatch h

end Sources
