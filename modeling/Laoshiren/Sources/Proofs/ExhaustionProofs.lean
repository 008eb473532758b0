import Laoshiren.Sources.Proofs.ClaimProofs
import Laoshiren.Sources.Proofs.DeletionProofs

/-!
# Proofs: Sources that used up their attempts

A Source at its last attempt is out of reach of every claim, so only the worker that holds it can end its
wait. It does, in whatever way its round ends, but for a crash.
-/

namespace Sources

open Runtime Raise Table
open PersonalState (Calendar)

variable {cal : Calendar} {settings : Settings} {op : Op} {view : ℕ → World} {w : World}
  {s s' : State} {r r' : Source} {job : SourceProcessingJob} {process : UUID}
  {h : History World Op Reply}

/-! ## What a round leaves -/

theorem rowcount_claimedBy {sourceId : UUID} {owner : String} {t : Table Source} (hr : r ∈ t)
    (hheld : SourceRepository.claimedBy sourceId owner r = true) :
    t.rowcount (SourceRepository.claimedBy sourceId owner) = 1 :=
  rowcount_eq_one (fun _ _ hp hp' =>
    .inl ((claimedBy_iff.mp hp).1.trans (claimedBy_iff.mp hp').1.symm)) hr hheld

/-- After `complete_processing` returned, the worker does not hold the Source. -/
theorem completeProcessing_releases {owner : String} {content : ParsedSourceContent}
    {drawn : Processing} {now : Timestamp} {success : Bool}
    (h : completeProcessing settings job.id owner content drawn now s = .ok (s', success))
    (hr : r ∈ s'.sources) : SourceRepository.claimedBy job.id owner r ≠ true := by
  cases success with
  | true =>
    obtain ⟨normalized, chunks, -, -, hsources, -⟩ := (completeProcessing_ok h).parsed
    rw [hsources] at hr
    have hr : r ∈ s.sources.update (SourceRepository.claimedBy job.id owner)
        (SourceRepository.completeValues normalized.text now) fun _ _ _ h => h := hr
    rcases mem_update_cases _ hr with ⟨r, -, -, rfl⟩ | ⟨-, hfree⟩
    · intro hheld
      cases (claimedBy_iff.mp hheld).2.1
    · exact fun hheld => Bool.false_ne_true (hfree.symm.trans hheld)
  | false =>
    obtain rfl := completeProcessing_lost h
    intro hheld
    simp only [completeProcessing, bind_eq_ok] at h
    obtain ⟨normalized, -, chunks, -, h⟩ := h
    rw [if_pos] at h
    · simp only [bind_eq_ok] at h
      obtain ⟨table, -, h⟩ := h
      split at h
      · simp only [bind_eq_ok, pure_eq_ok, Prod.mk.injEq] at h
        obtain ⟨_, -, -, h⟩ := h
        cases h
      · cases (Prod.mk.inj (pure_eq_ok.mp h)).2
    · exact beq_iff_eq.mpr (rowcount_claimedBy hr hheld)

theorem failProcessing_releases {owner errorCode : String} {retryDelay : Option ℤ}
    {now : Timestamp} (hr : r ∈ (failProcessing job.id owner errorCode retryDelay now s).1.sources) :
    SourceRepository.claimedBy job.id owner r ≠ true := by
  have hr : r ∈ s.sources.update (SourceRepository.claimedBy job.id owner)
      (SourceRepository.failValues errorCode now (retryDelay.map fun delay => now + delay))
      fun _ _ _ h => h := hr
  rcases mem_update_cases _ hr with ⟨r, -, -, rfl⟩ | ⟨-, hfree⟩
  · exact fun hheld => nomatch (claimedBy_iff.mp hheld).2.1
  · exact fun hheld => Bool.false_ne_true (hfree.symm.trans hheld)

/-- A heartbeat of a worker that holds the Source renews the lease. -/
theorem renewProcessingLease_held {owner : String} {now : Timestamp} (hr : r ∈ s.sources)
    (hheld : SourceRepository.claimedBy job.id owner r = true) :
    (renewProcessingLease settings job.id owner now s).2 = true :=
  beq_iff_eq.mpr (rowcount_claimedBy hr hheld)

/-! ## The invariant -/

/-- The Source waits, and used up its attempts. -/
structure Spent (settings : Settings) (r : Source) : Prop where
  live : r.deletedAt = none
  pending : r.processingStatus = .pending
  attempts : settings.maxAttempts ≤ r.processingAttemptCount

/-- The worker heard from its heartbeat that it lost the Source. -/
def Activity.leaseLost : Activity → Bool
  | .parsing _ leaseLost => leaseLost
  | _ => false

/-- A worker holds the Source and goes on with it. -/
def Attended (w : World) (r : Source) : Prop :=
  ∃ process job, Holds w process job r ∧ (w.activities process).leaseLost = false

/-- A worker attends every Source that used up its attempts. -/
def AllAttended (settings : Settings) (w : World) : Prop :=
  ∀ r ∈ w.sources, Spent settings r → Attended w r

/-- No worker crashes that holds a Source at its last attempt, but for a deleted one. -/
def Op.SparesLast (settings : Settings) (op : Op) (w : World) : Prop :=
  ∀ process, op = .crash process → ∀ r ∈ w.sources, r.deletedAt = none →
    ∀ job, Holds w process job r → job.attemptCount < settings.maxAttempts

/-- A Source that is spent was spent before, under the same worker, or it is claimed. -/
theorem SourceMove.spent (h : SourceMove settings op view w r r') (hspent : Spent settings r') :
    Spent settings r ∧ r'.id = r.id ∧ r'.processingClaimOwner = r.processingClaimOwner ∨
      ∃ process userId now locked, op = .claim process userId now locked := by
  cases h with
  | kept => exact .inl ⟨hspent, rfl, rfl⟩
  | @deleted c fresh loaded hop hnew hloaded hid =>
    have hlive : loaded.deletedAt = none := (of_decide_eq_true (get_eq_some hloaded).2).2.2
    have hdeletedAt : SourceRepository.flushed loaded.deletedAt (some (fresh 0).now) r.deletedAt =
        none := hspent.live
    rw [hlive, SourceRepository.flushed, if_neg (Option.some_ne_none _)] at hdeletedAt
    cases hdeletedAt
  | claimed hop => exact .inr ⟨_, _, _, _, hop⟩
  | renewed => exact .inl ⟨⟨hspent.live, hspent.pending, hspent.attempts⟩, rfl, rfl⟩
  | completed => cases hspent.pending
  | failed => cases hspent.pending

/-- What a claim makes of the system: nothing, or the worker is at the Source that it claims. -/
theorem commit_claim_cases {userId : Option UUID} {now : Timestamp} {locked : UUID → Bool} :
    (World.commit cal settings (.claim process userId now locked) view w).1 = w ∨
      ∃ job source, w.activities process = .idle ∧ source ∈ w.sources ∧ job.id = source.id ∧
        (World.commit cal settings (.claim process userId now locked) view w).1 =
          { w with
            sources := w.sources.update (fun r => r.id = source.id)
              (SourceRepository.claimValues (workerOwner process) now (now + settings.lease))
              fun _ _ _ h => h }.setActivity process (.parsing job false) := by
  simp only [World.commit]
  split
  next hidle =>
    split
    next s job hclaimed =>
      obtain ⟨source, hsource, -, hid, -, rfl⟩ := claimNextProcessing_ok hclaimed
      exact .inr ⟨job, source, hidle, hsource, hid, rfl⟩
    next => exact .inl rfl
    next => exact .inl rfl
  next => exact .inl rfl

/-- A claim leaves every Source that is spent attended. -/
theorem allAttended_claim {userId : Option UUID} {now : Timestamp} {locked : UUID → Bool}
    (h : AllAttended settings w) : AllAttended settings
      (World.commit cal settings (.claim process userId now locked) view w).1 := by
  rcases commit_claim_cases (w := w) with
    hsame | ⟨job, source, hidle, hsource, hid, hcommit⟩
  · rw [hsame]
    exact h
  rw [hcommit]
  have hself : Function.update w.activities process (.parsing job false) process =
      .parsing job false := Function.update_self _ _ _
  intro r' hr' hspent
  have hr' : r' ∈ w.sources.update (fun r => r.id = source.id)
      (SourceRepository.claimValues (workerOwner process) now (now + settings.lease))
      fun _ _ _ h => h := hr'
  rcases mem_update_cases _ hr' with ⟨r, hr, hwhere, rfl⟩ | ⟨hr, hwhere⟩
  · refine ⟨process, job, ⟨?_, claimedBy_iff.mpr ⟨?_, rfl, rfl⟩⟩, ?_⟩
    · exact congrArg Activity.job hself
    · exact (of_decide_eq_true hwhere).trans hid.symm
    · exact congrArg Activity.leaseLost hself
  · obtain ⟨other, job', ⟨hbusy, hheld⟩, hlease⟩ := h r' hr hspent
    have hother : other ≠ process := by
      rintro rfl
      rw [hidle] at hbusy
      cases hbusy
    have hactivity : Function.update w.activities process (.parsing job false) other =
        w.activities other := Function.update_of_ne hother ..
    exact ⟨other, job', ⟨(congrArg Activity.job hactivity).trans hbusy, hheld⟩,
      (congrArg Activity.leaseLost hactivity).trans hlease⟩

/-- What a worker that attends a Source goes on with, unless it ends its round or crashes. -/
theorem ActivityMove.attends {a a' : Activity} (h : ActivityMove settings op view w process a a')
    (hbusy : a.job = some job) (hlease : a.leaseLost = false) (hr : r ∈ w.sources)
    (hheld : SourceRepository.claimedBy job.id (workerOwner process) r = true) :
    a'.job = some job ∧ a'.leaseLost = false ∨ op = .crash process ∨
      (∃ content drawn now s success, a = .parsed job content ∧ op = .complete process drawn now ∧
        completeProcessing settings job.id (workerOwner process) content drawn now w.toState =
          .ok (s, success)) ∨
      ∃ failure now, a = .failing job failure ∧ op = .fail process now := by
  cases h with
  | kept => exact .inl ⟨hbusy, hlease⟩
  | renewed hop =>
    obtain rfl := Option.some.inj hbusy
    refine .inl ⟨rfl, ?_⟩
    show (!(renewProcessingLease settings _ (workerOwner process) _ w.toState).2) = false
    rw [renewProcessingLease_held hr hheld]
    rfl
  | parsed | raised | notCompleted => exact .inl ⟨hbusy, rfl⟩
  | lost => cases hlease
  | completed hop hcompleted =>
    obtain rfl := Option.some.inj hbusy
    exact .inr (.inr (.inl ⟨_, _, _, _, _, rfl, hop, hcompleted⟩))
  | failed hop =>
    obtain rfl := Option.some.inj hbusy
    exact .inr (.inr (.inr ⟨_, _, rfl, hop⟩))
  | crashed hop => exact .inr (.inl hop)
  | put | refused | added | notAdded | cleanedUp | claimed | purged | erased | scanned | listed
    | swept | stopped => cases hbusy

theorem allAttended_step (htried : AllTried w) (h : AllAttended settings w)
    (hnew : NewUploads w) (hspares : op.SparesLast settings w) :
    AllAttended settings (World.commit cal settings op view w).1 := by
  intro r' hr' hspent
  by_cases hclaims : ∃ process userId now locked, op = .claim process userId now locked
  · obtain ⟨process, userId, now, locked, rfl⟩ := hclaims
    exact allAttended_claim h r' hr' hspent
  rcases (writes_sources (commit_writes ..)).origin r' hr' with ⟨r, hr, hmove⟩ | ⟨_, _, -, hstored⟩
  · rcases hmove.spent hspent with ⟨hbefore, hid, howner⟩ | hclaimed
    · obtain ⟨process, job, ⟨hbusy, hheld⟩, hlease⟩ := h r hr hbefore
      obtain ⟨hjob, -, hby⟩ := claimedBy_iff.mp hheld
      have hheld' : SourceRepository.claimedBy job.id (workerOwner process) r' = true :=
        claimedBy_iff.mpr ⟨hid.trans hjob, hspent.pending, howner.trans hby⟩
      rcases (commit_activity _ _ _ _ process).attends hbusy hlease hr hheld with
        ⟨hbusy', hlease'⟩ | hcrash | ⟨content, drawn, now, s, success, hactivity, hop, hcompleted⟩ |
        ⟨failure, now, hactivity, hop⟩
      · exact ⟨process, job, ⟨hbusy', hheld'⟩, hlease'⟩
      · -- the worker holds the Source at its last attempt
        obtain ⟨r₀, hr₀, htried₀⟩ := htried process job hbusy
        obtain rfl := source_eq hr hr₀ (hjob.trans htried₀.id.symm)
        have hlast := hspares process hcrash r hr hbefore.live job ⟨hbusy, hheld⟩
        have hattempts := htried₀.held hheld
        have hspent := hbefore.attempts
        omega
      · subst hop
        have hcommit : (World.commit cal settings (.complete process drawn now) view w).1.sources =
            s.sources := by
          simp only [World.commit, hactivity, hcompleted]
          rfl
        rw [hcommit] at hr'
        exact absurd hheld' (completeProcessing_releases hcompleted hr')
      · subst hop
        have hcommit : (World.commit cal settings (.fail process now) view w).1.sources =
            (failProcessing job.id (workerOwner process) (failureOf settings job failure).1
              (failureOf settings job failure).2 now w.toState).1.sources := by
          simp only [World.commit, hactivity]
          rfl
        rw [hcommit] at hr'
        exact absurd hheld' (failProcessing_releases hr')
    · exact absurd hclaimed hclaims
  · have hattempts := hspent.attempts
    rw [(hnew _ r' hstored).attempts] at hattempts
    exact absurd settings.maxAttempts_pos (Nat.not_lt.mpr hattempts)

/-! ## Every run -/

theorem stable_attended : Program.Stable (system cal settings)
    (fun op _ w => op.SparesLast settings w)
    (fun w => (NewUploads w ∧ AllTried w) ∧ AllAttended settings w) SourcesLater := by
  refine stable_tried.strengthen (AllAttended settings) ?_ ?_
  · intro w hw
    obtain rfl : w = {} := hw
    exact fun r hr => absurd hr not_mem_empty
  · intro op view w hinv h _ hspares
    exact allAttended_step hinv.2 h hinv.1 hspares

/-- Where no worker crashes at the last attempt of a Source, and each one at a last attempt renews its lease
in time, a Source whose lease is over can be claimed, and one that used up its attempts does not wait. -/
theorem no_source_is_stuck
    (hreachable : (system cal settings).ReachableIf (fun op _ w => op.SparesLast settings w) h)
    {now : Timestamp} (hr : r ∈ h.cur.sources) (hlive : r.deletedAt = none)
    (hmime : r.mimeType ∈ processableMimeTypes)
    (hrenewed : ∀ process job, Holds h.cur process job r → settings.maxAttempts ≤ job.attemptCount →
      ∃ t ∈ r.processingLeaseExpiresAt, now < t)
    (hover : ∀ t ∈ r.processingLeaseExpiresAt, t ≤ now) :
    (r.processingStatus = .pending → ∃ locked, SourceRepository.candidate none processableMimeTypes
        settings.maxAttempts now locked h.cur.sources = some r) ∧
      (settings.maxAttempts ≤ r.processingAttemptCount →
        r.processingStatus = .ready ∨ r.processingStatus = .failed) := by
  obtain ⟨⟨-, htried⟩, hattended⟩ := stable_attended.inv_cur hreachable
  have hopen : r.processingStatus = .pending → r.processingAttemptCount < settings.maxAttempts := by
    intro hpending
    by_contra hspent
    obtain ⟨process, job, hholds, -⟩ := hattended r hr ⟨hlive, hpending, Nat.not_lt.mp hspent⟩
    obtain ⟨r₀, hr₀, htried₀⟩ := htried process job hholds.1
    obtain rfl := source_eq hr hr₀ ((claimedBy_iff.mp hholds.2).1.trans htried₀.id.symm)
    rw [htried₀.held hholds.2] at hspent
    obtain ⟨t, ht, hlater⟩ := hrenewed process job hholds (Nat.not_lt.mp hspent)
    exact absurd (hover t ht) (not_le.mpr hlater)
  constructor
  · intro hpending
    refine ⟨fun id => id ≠ r.id, ?_⟩
    have hclaimable : SourceRepository.claimableWhere processableMimeTypes settings.maxAttempts now
        r = true :=
      decide_eq_true ⟨hlive, hmime, hopen hpending, .inl ⟨hpending, hover⟩⟩
    have hselected : h.cur.sources.select (fun r' =>
        SourceRepository.claimableWhere processableMimeTypes settings.maxAttempts now r' &&
          (none : Option UUID).all (r'.userId = ·) && !decide (r'.id ≠ r.id)) = [r] := by
      refine select_eq_singleton hr ?_ (.inl rfl) fun r' hr' hp => ?_
      · simp [hclaimable]
      · simp only [Bool.and_eq_true, Bool.not_eq_true', decide_eq_false_iff_not, not_not] at hp
        exact source_eq hr' hr hp.2
    unfold SourceRepository.candidate
    rw [hselected]
    rfl
  · intro hattempts
    cases hstatus : r.processingStatus with
    | pending => exact absurd (hopen hstatus) (Nat.not_lt.mpr hattempts)
    | ready => exact .inl rfl
    | failed => exact .inr rfl

/-! ## A crash at the last attempt -/

/-- Worker 2 claims the note and crashes, before its last attempt. -/
def crashedOnce : List Op := uploadNote ++ [.claim 2 none 1 fun _ => false, .crash 2]

theorem crashedOnce_spares : (system PersonalState.tallies twoAttempts).SerialMeets
    (fun op _ w => op.SparesLast twoAttempts w) ⟨{}, [], []⟩ crashedOnce := by
  refine ⟨nofun, nofun, nofun, ?_, trivial⟩
  intro process hop r hr _ job hholds
  obtain rfl := Op.crash.inj hop
  have hbusy : ((system PersonalState.tallies twoAttempts).serial {} (uploadNote ++
      [.claim 2 none 1 fun _ => false])).cur.activities 2 = .parsing
        ⟨10, 1, "note.txt", "text/plain", note.objectKey 7, 1⟩ false := by
    decide +kernel
  have hjob := hholds.1
  obtain rfl := Option.some.inj ((congrArg Activity.job hbusy).symm.trans hjob)
  decide

/-- After the crash the note can be claimed again, as soon as the lease is over. -/
theorem no_source_is_stuck_crashedOnce :
    ∃ r ∈ ((system PersonalState.tallies twoAttempts).serial {} crashedOnce).cur.sources,
      r.processingStatus = .pending ∧
      (r.processingStatus = .pending → ∃ locked, SourceRepository.candidate none
        processableMimeTypes twoAttempts.maxAttempts 20 locked
        ((system PersonalState.tallies twoAttempts).serial {} crashedOnce).cur.sources = some r) ∧
      (twoAttempts.maxAttempts ≤ r.processingAttemptCount →
        r.processingStatus = .ready ∨ r.processingStatus = .failed) := by
  have hrow : ∃ r ∈ ((system PersonalState.tallies twoAttempts).serial {}
      crashedOnce).cur.sources.rows, r.processingStatus = .pending ∧ r.deletedAt = none ∧
        r.mimeType ∈ processableMimeTypes ∧ r.processingClaimOwner = some (workerOwner 2) ∧
        ∀ t ∈ r.processingLeaseExpiresAt, t ≤ 20 := by
    decide +kernel
  obtain ⟨r, hr, hpending, hlive, hmime, howner, hover⟩ := hrow
  have hidle : ((system PersonalState.tallies twoAttempts).serial {}
      crashedOnce).cur.activities 2 = .idle := by
    decide +kernel
  refine ⟨r, hr, hpending, no_source_is_stuck ((system _ _).serial_reachableIf rfl _
    crashedOnce_spares) hr hlive hmime (fun process job hholds _ => ?_) hover⟩
  -- the worker that claimed the note is idle
  have hprocess := workerOwner_injective
    (Option.some.inj ((claimedBy_iff.mp hholds.2).2.2.symm.trans howner))
  have hbusy := hholds.1
  rw [hprocess, hidle] at hbusy
  cases hbusy

/-- Worker 3 claims the note for the last time and crashes as well. -/
def crashedTwice : List Op := crashedOnce ++ [.claim 3 none 20 fun _ => false, .crash 3]

/-- A Source waits for ever: it is PENDING, its lease is over and its attempts are used up, so no claim
selects it at any time. -/
theorem source_is_stuck :
    ∃ h : History World Op Reply, (system PersonalState.tallies twoAttempts).Reachable h ∧
      ∃ r ∈ h.cur.sources, r.deletedAt = none ∧ r.mimeType ∈ processableMimeTypes ∧
        r.processingStatus = .pending ∧ twoAttempts.maxAttempts ≤ r.processingAttemptCount ∧
        (∀ t ∈ r.processingLeaseExpiresAt, t ≤ 100) ∧
        ∀ userId now locked, SourceRepository.candidate userId processableMimeTypes
          twoAttempts.maxAttempts now locked h.cur.sources ≠ some r := by
  refine ⟨_, (system PersonalState.tallies twoAttempts).serial_reachable rfl crashedTwice, ?_⟩
  have hrow : ∃ r ∈ ((system PersonalState.tallies twoAttempts).serial {}
      crashedTwice).cur.sources.rows, r.deletedAt = none ∧ r.mimeType ∈ processableMimeTypes ∧
        r.processingStatus = .pending ∧ twoAttempts.maxAttempts ≤ r.processingAttemptCount ∧
        ∀ t ∈ r.processingLeaseExpiresAt, t ≤ 100 := by
    decide +kernel
  obtain ⟨r, hr, hlive, hmime, hpending, hspent, hover⟩ := hrow
  refine ⟨r, hr, hlive, hmime, hpending, hspent, hover, fun userId now locked hcandidate => ?_⟩
  have hclaimable := (mem_of_candidate hcandidate).2
  have hattempts := (of_decide_eq_true hclaimable).2.2.1
  exact absurd hattempts (Nat.not_lt.mpr hspent)

end Sources
