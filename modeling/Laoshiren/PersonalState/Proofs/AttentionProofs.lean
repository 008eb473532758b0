import Laoshiren.Foundation.RankFusion
import Laoshiren.PersonalState.Attention

/-!
# Proofs: what is brought to attention follows the feedback

No feedback is lost: whatever runs beside it, the row of a subject is what the log of the recorded
feedback tells (`rowOf_eq_told`). The candidates are therefore those that the log leaves awake,
in the order of their urgency (`attention_follows`).
-/

namespace PersonalState

namespace Attention

open Runtime Raise Table AttentionRepository

variable {h : History World Op Reply} {userId subjectId : UUID}
  {subjectType : AttentionSubjectType} {now : Timestamp} {t t' : Table AttentionFeedback}
  {log : Log} {request : FeedbackRequest} {subject : UUID × AttentionSubjectType × UUID}
  {candidate : AttentionCandidate} {view : ℕ → State} {dueSoonHours : ℤ} {limit : ℕ}

/-! ## One feedback -/

/-- The row of a subject before the first feedback on it. -/
def unrecorded (request : FeedbackRequest) : AttentionFeedback where
  userId := request.userId
  subjectType := request.subjectType
  subjectId := request.subjectId
  updatedAt := request.now

/-- What a request makes of the row of its subject. -/
def recordedOn (request : FeedbackRequest) (item : Option AttentionFeedback) : AttentionFeedback :=
  feedbackValues request.action request.now request.dismissedUntil (item.getD (unrecorded request))

/-- The row of a subject. -/
def rowOf (subject : UUID × AttentionSubjectType × UUID) (t : Table AttentionFeedback) :
    Option AttentionFeedback := t.get fun r => r.subject = subject

theorem subject_feedbackValues {action : AttentionFeedbackAction}
    {dismissedUntil : Option Timestamp} (item : AttentionFeedback) :
    (feedbackValues action now dismissedUntil item).subject = item.subject := by
  cases action <;> rfl

theorem subject_recordedOn : (recordedOn request none).subject = request.subject :=
  subject_feedbackValues _

/-- The first feedback on a subject adds its row. -/
theorem rowOf_inserted (subject : UUID × AttentionSubjectType × UUID)
    (h : t.insert? (recordedOn request none) = some t') :
    rowOf request.subject t = none ∧
      rowOf subject t' =
        if request.subject = subject then some (recordedOn request none) else rowOf subject t := by
  have hnone : rowOf request.subject t = none :=
    get_eq_none.mpr fun r hr => decide_eq_false fun hsame =>
      not_conflict_of_insert? h hr (hsame.trans subject_recordedOn.symm)
  refine ⟨hnone, (get_insert? h _).trans ?_⟩
  rw [subject_recordedOn]
  by_cases hsame : request.subject = subject
  · subst hsame
    have hget : (t.get fun r => decide (r.subject = request.subject)) = none := hnone
    rw [hget, if_pos rfl, if_pos (decide_eq_true rfl), Option.none_or]
  · rw [if_neg hsame, if_neg (by simpa using hsame), Option.or_none]
    rfl

/-- Any further one updates it, and no other row. -/
theorem rowOf_updated (h : t.insert? (recordedOn request none) = none) :
    rowOf subject (t.update (fun r => r.subject = request.subject)
        (feedbackValues request.action request.now request.dismissedUntil)
        (feedback_keeps _ request.action request.now request.dismissedUntil)) =
      if request.subject = subject then some (recordedOn request (rowOf request.subject t))
      else rowOf subject t := by
  obtain ⟨item, hitem, hconflict⟩ := conflict_of_insert? h
  have hsubject : item.subject = request.subject := Eq.trans hconflict subject_recordedOn
  have hrow : rowOf request.subject t = some item :=
    get_of_mem hitem (decide_eq_true hsubject) fun r' hr' =>
      (of_decide_eq_true hr').trans hsubject.symm
  refine (get_update fun r => by rw [subject_feedbackValues]).trans ?_
  show (rowOf subject t).map _ = _
  by_cases hsame : request.subject = subject
  · subst hsame
    rw [if_pos rfl, hrow, Option.map_some,
      updateRow_pos (p := fun r : AttentionFeedback => r.subject = request.subject)
        (decide_eq_true hsubject)]
    rfl
  · rw [if_neg hsame]
    cases hother : rowOf subject t with
    | none => rfl
    | some r =>
      have hr : r.subject = subject := of_decide_eq_true (get_eq_some hother).2
      have hne : r.subject ≠ request.subject := fun heq => hsame (heq.symm.trans hr)
      rw [Option.map_some,
        updateRow_neg (p := fun r : AttentionFeedback => r.subject = request.subject)
          (decide_eq_false hne)]

/-- A request writes the row of its subject, and no other one. -/
theorem rowOf_recordFeedback :
    rowOf subject (AttentionRepository.recordFeedback request.userId request.subjectType
        request.subjectId request.action request.now request.dismissedUntil t) =
      if request.subject = subject then some (recordedOn request (rowOf request.subject t))
      else rowOf subject t := by
  unfold AttentionRepository.recordFeedback
  dsimp only
  split
  next t' hinsert =>
    obtain ⟨hnone, hrow⟩ := rowOf_inserted subject hinsert
    rw [hnone]
    exact hrow
  next hinsert => exact rowOf_updated hinsert

/-- One more feedback on a subject changes what its log tells as it changes the row. -/
theorem told_cons (hlog : ∀ request' ∈ log, request'.subject = request.subject) :
    Log.told (request :: log) = some (recordedOn request log.told) := by
  have hids : ∀ request' ∈ log.head?, request'.userId = request.userId ∧
      request'.subjectType = request.subjectType ∧ request'.subjectId = request.subjectId := by
    intro request' hhead
    have hsame := hlog request' (List.mem_of_mem_head? hhead)
    unfold FeedbackRequest.subject at hsame
    simp only [Prod.mk.injEq] at hsame
    exact hsame
  cases log with
  | nil =>
    cases haction : request.action <;>
      simp [Log.told, recordedOn, unrecorded, feedbackValues, Log.lastSurfaced,
        Log.lastAcknowledged, Log.lastDismissed, Log.surfaceCount, Log.latest, haction]
  | cons latest log =>
    obtain ⟨huser, htype, hid⟩ := hids latest rfl
    cases haction : request.action <;>
      simp [Log.told, recordedOn, feedbackValues, Log.lastSurfaced, Log.lastAcknowledged,
        Log.lastDismissed, Log.surfaceCount, Log.latest, haction, huser, htype, hid]

/-! ## Every run -/

theorem subject_of_mem_logOf {replies : List (Op × Reply)} (h : request ∈ logOf replies subject) :
    request.subject = subject := of_decide_eq_true (List.mem_filter.mp h).2

/-- No feedback is lost: the row of a subject is what the log of the feedback on it tells. -/
theorem rowOf_eq_told (hreachable : system.Reachable h) :
    rowOf subject h.cur.feedback = (logOf h.replies subject).told := by
  induction hreachable with
  | init hs =>
    obtain rfl := hs
    rfl
  | @commit h _ op view _ _ ih =>
    show rowOf subject (commit op view h.cur).1.feedback =
      (logOf ((op, (commit op view h.cur).2) :: h.replies) subject).told
    cases op with
    | personalState s => exact ih
    | recordFeedback request =>
      unfold commit
      cases hrecorded : recordFeedback request.userId request.subjectType request.subjectId
          request.action request.now request.dismissedUntil (view 0).personalState
          h.cur.feedback with
      | error error =>
        simp only [hrecorded]
        exact ih
      | ok feedback =>
        simp only [hrecorded]
        simp only [recordFeedback, bind_eq_ok, ensure_eq_ok, pure_eq_ok] at hrecorded
        obtain ⟨-, -, -, -, rfl⟩ := hrecorded
        rw [rowOf_recordFeedback]
        by_cases hsame : request.subject = subject
        · subst hsame
          have hlog : logOf ((.recordFeedback request, .done) :: h.replies) request.subject =
              request :: logOf h.replies request.subject := by
            simp [logOf, recordedBy]
          rw [if_pos rfl, ih, hlog, told_cons fun request' => subject_of_mem_logOf]
        · have hlog : logOf ((.recordFeedback request, .done) :: h.replies) subject =
              logOf h.replies subject := by
            simp [logOf, recordedBy, hsame]
          rw [if_neg hsame, ih, hlog]

/-! ## The candidates -/

theorem lastAcknowledged_eq_none :
    log.lastAcknowledged = none ↔ ∀ request ∈ log, request.action ≠ .acknowledged := by
  simp [Log.lastAcknowledged, Log.latest, List.find?_eq_none]

/-- A subject is left alone where its log does not leave it awake. -/
theorem rests_told : (log.told.any fun item => item.rests now) = false ↔ Awake log now := by
  have hfields : Awake log now ↔ log.lastAcknowledged = none ∧
      (∀ t ∈ log.lastDismissed, t ≤ now) ∧
        ∀ t ∈ log.lastSurfaced, attentionSurfaceCooldown ≤ now - t := by
    rw [lastAcknowledged_eq_none]
    exact ⟨fun h => ⟨h.unacknowledged, h.undismissed, h.unsurfaced⟩,
      fun h => ⟨h.1, h.2.1, h.2.2⟩⟩
  rw [hfields]
  cases log with
  | nil => simp [Log.told, Log.lastAcknowledged, Log.lastDismissed, Log.lastSurfaced, Log.latest]
  | cons request log =>
    simp only [Log.told, List.head?_cons, Option.map_some, Option.any_some, AttentionFeedback.rests,
      decide_eq_false_iff_not, not_or, not_not, Option.any_eq_true, decide_eq_true_eq, not_exists,
      not_and, not_lt]
    rfl

/-- A candidate that is not left alone says what the log says. -/
theorem surfaced_told (hawake : Awake log now) :
    surfaced log.told candidate = shownAs log candidate := by
  have hnone := lastAcknowledged_eq_none.mpr hawake.unacknowledged
  cases log with
  | nil => rfl
  | cons request log => simp [surfaced, shownAs, Log.told, hnone]

theorem candidate?_eq_some {updatedAt : Timestamp} {p : AttentionCandidate × Timestamp}
    (hrow : rowOf (userId, candidate.subjectType, candidate.subjectId) t = log.told) :
    candidate? userId now t candidate updatedAt = some p ↔
      Awake log now ∧ p = (shownAs log candidate, updatedAt) := by
  have hfeedback : feedback userId candidate.subjectType candidate.subjectId t = log.told := hrow
  unfold candidate?
  rw [hfeedback]
  by_cases hawake : Awake log now
  · simp only [rests_told.mpr hawake, Bool.false_eq_true, if_false, surfaced_told hawake,
      Option.some.injEq]
    exact ⟨fun h => ⟨hawake, h.symm⟩, fun h => h.2.symm⟩
  · have hrests : (log.told.any fun item => item.rests now) = true := by
      by_contra hfalse
      exact hawake (rests_told.mp (Bool.eq_false_iff.mpr hfalse))
    simp [hrests, hawake]

/-- What `get_candidates` finds, before it sorts. -/
def found (userId : UUID) (now : Timestamp) (dueSoonHours : ℤ) (t : Table AttentionFeedback)
    (view : ℕ → State) : List (AttentionCandidate × Timestamp) :=
  ((dueThings userId now dueSoonHours (view 0).things).filterMap fun thing =>
    thing.deadlineAt.bind fun deadline =>
      candidate? userId now t (deadlineCandidate now thing deadline) thing.updatedAt) ++
  (openBlockers userId (view 1).things (view 1).blockers).filterMap fun blocker =>
    candidate? userId now t (blockerCandidate now blocker) blocker.updatedAt

theorem getCandidates_eq_found : getCandidates userId now dueSoonHours limit t view =
    (((found userId now dueSoonHours t view).insertionSort (before now)).map Prod.fst).take limit :=
  rfl

/-- Every subject that is due and awake is found, and no other one. -/
theorem exists_mem_found {log : UUID × AttentionSubjectType × UUID → Log}
    (hrows : ∀ subject, rowOf subject t = (log subject).told) {candidate' : AttentionCandidate} :
    (∃ updatedAt, (candidate', updatedAt) ∈ found userId now dueSoonHours t view) ↔
      ∃ candidate, Raised userId now dueSoonHours view candidate ∧
        Awake (log (userId, candidate.subjectType, candidate.subjectId)) now ∧
        candidate' = shownAs (log (userId, candidate.subjectType, candidate.subjectId))
          candidate := by
  constructor
  · rintro ⟨updatedAt, hmem⟩
    rcases List.mem_append.mp hmem with hmem | hmem
    · obtain ⟨thing, hthing, hcandidate⟩ := List.mem_filterMap.mp hmem
      obtain ⟨deadline, hdeadline, hcandidate⟩ := Option.bind_eq_some_iff.mp hcandidate
      obtain ⟨hawake, heq⟩ := (candidate?_eq_some (hrows _)).mp hcandidate
      exact ⟨_, .deadline hthing hdeadline, hawake, congrArg Prod.fst heq⟩
    · obtain ⟨blocker, hblocker, hcandidate⟩ := List.mem_filterMap.mp hmem
      obtain ⟨hawake, heq⟩ := (candidate?_eq_some (hrows _)).mp hcandidate
      exact ⟨_, .blocker hblocker, hawake, congrArg Prod.fst heq⟩
  · rintro ⟨candidate, hraised, hawake, rfl⟩
    cases hraised with
    | @deadline thing deadline hthing hdeadline =>
      refine ⟨thing.updatedAt, List.mem_append_left _ (List.mem_filterMap.mpr ⟨thing, hthing, ?_⟩)⟩
      rw [hdeadline, Option.bind_some]
      exact (candidate?_eq_some (hrows _)).mpr ⟨hawake, rfl⟩
    | @blocker blocker hblocker =>
      refine ⟨blocker.updatedAt,
        List.mem_append_right _ (List.mem_filterMap.mpr ⟨blocker, hblocker, ?_⟩)⟩
      exact (candidate?_eq_some (hrows _)).mpr ⟨hawake, rfl⟩

/-! ## Their order -/

theorem pairwise_sorted (l : List (AttentionCandidate × Timestamp)) :
    (l.insertionSort (before now)).Pairwise (before now) := by
  have htotal : Std.Total (before now) := ⟨fun p p' => le_total _ _⟩
  have htrans : IsTrans _ (before now) := ⟨fun p p' p'' h h' => le_trans h h'⟩
  exact List.pairwise_insertionSort _ l

/-- Nothing comes before what is urgent but what is urgent too. -/
theorem urgent_of_before {p p' : AttentionCandidate × Timestamp} (h : before now p p')
    (hurgent : p'.1.severity = "high") : p.1.severity = "high" := by
  by_contra hnot
  unfold before at h
  simp only [if_pos hurgent, if_neg hnot, Prod.Lex.toLex_le_toLex] at h
  omega

/-- In every run, whatever the Personal State holds, the candidates follow the feedback that was
recorded on them. -/
theorem attention_follows (hreachable : system.Reachable h) (userId : UUID) (now : Timestamp)
    (dueSoonHours : ℤ) (limit : ℕ) (view : ℕ → State) :
    Follows (logOf h.replies) userId now dueSoonHours limit view
      (getCandidates userId now dueSoonHours limit h.cur.feedback view) := by
  have hrows : ∀ subject, rowOf subject h.cur.feedback = (logOf h.replies subject).told :=
    fun subject => rowOf_eq_told hreachable
  rw [getCandidates_eq_found, ← List.map_take]
  constructor
  · intro candidate' hmem
    obtain ⟨⟨_, updatedAt⟩, hp, rfl⟩ := List.mem_map.mp hmem
    exact (exists_mem_found hrows).mp
      ⟨updatedAt, (List.mem_insertionSort _).mp (List.mem_of_mem_take hp)⟩
  · intro candidate hraised hawake
    obtain ⟨updatedAt, hfound⟩ := (exists_mem_found hrows).mpr ⟨candidate, hraised, hawake, rfl⟩
    have hsorted := (List.mem_insertionSort (before now)).mpr hfound
    rcases (pairwise_sorted _).mem_take_or hsorted limit with hshown | ⟨hlength, hbefore⟩
    · exact .inl (List.mem_map_of_mem hshown)
    · refine .inr ⟨by rw [List.length_map, hlength], fun hurgent candidate' hmem => ?_⟩
      obtain ⟨p, hp, rfl⟩ := List.mem_map.mp hmem
      exact urgent_of_before (hbefore p hp) hurgent

/-- User 1 moves house soon. -/
def move : Thing where
  userId := 1
  name := "搬家"
  id := 10
  deadlineAt := some 100
  createdAt := 1
  updatedAt := 1

def dueMove : State where
  things := ⟨[move], List.pairwise_singleton _ _⟩

/-- He dismisses the deadline until 50. -/
def dismissedMove : History World Op Reply :=
  system.serial {} [.personalState dueMove,
    .recordFeedback ⟨1, .deadline, 10, .dismissed, 5, some 50⟩]

/-- The deadline is not shown at 40, and it is shown at 60. -/
theorem attention_follows_dismissed :
    getCandidates 1 40 72 5 dismissedMove.cur.feedback (fun _ => dueMove) = [] ∧
      (getCandidates 1 60 72 5 dismissedMove.cur.feedback fun _ => dueMove).map
        AttentionCandidate.subjectId = [10] ∧
      Follows (logOf dismissedMove.replies) 1 60 72 5 (fun _ => dueMove)
        (getCandidates 1 60 72 5 dismissedMove.cur.feedback fun _ => dueMove) :=
  ⟨by decide +kernel, by decide +kernel,
    attention_follows (system.serial_reachable rfl _) 1 60 72 5 fun _ => dueMove⟩

end Attention

end PersonalState
