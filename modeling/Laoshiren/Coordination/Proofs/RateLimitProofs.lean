import Laoshiren.Coordination.RateLimit

/-!
# Proofs: how many requests pass

A counter lets no more requests through than its limit, and it lives for a minute at least, so that
a minute sees two counters of a key at most (`rate_bounded`). A counter whose expiry was lost stays:
once it is full nothing passes on its key any more (`shut_for_good`).
-/

namespace Coordination

variable {limit : RateLimit} {s : Limiter} {key : String} {counter : Counter} {events : ℕ → Event}

/-! ## Counters -/

theorem counters_count_self : (s.count key).counters key = some (s.counted key) :=
  Function.update_self ..

theorem counters_count_of_ne {key' : String} (hne : key' ≠ key) :
    (s.count key).counters key' = s.counters key' := Function.update_of_ne hne ..

theorem counters_expire_self : (s.expire key).counters key =
    (s.counters key).map fun counter => { counter with expiresAt := some (s.now + minute) } :=
  Function.update_self ..

theorem counters_expire_of_ne {key' : String} (hne : key' ≠ key) :
    (s.expire key).counters key' = s.counters key' := Function.update_of_ne hne ..

/-! ## What they let through -/

/-- What was let through on a key agrees with its counter. -/
structure Agrees (limit : RateLimit) (s : Limiter) (key : String) (counter : Counter) : Prop where
  started : counter.startedAt ≤ s.now
  lives : ∀ t ∈ counter.expiresAt, counter.startedAt + minute ≤ t
  counts : (s.passages.countP fun p => p.key = key ∧ p.startedAt = counter.startedAt) ≤
    counter.value
  before : ∀ p ∈ s.passages, p.key = key → p.startedAt = counter.startedAt ∨
    p.startedAt + minute ≤ counter.startedAt ∧ p.countedAt ≤ counter.startedAt

/-- The passages of a key come from counters that follow each other, each of which let no more
through than the limit. -/
structure Limited (limit : RateLimit) (s : Limiter) : Prop where
  counted : ∀ p ∈ s.passages, p.startedAt ≤ p.countedAt ∧ p.countedAt ≤ s.now
  bounded : ∀ key start, (s.passages.countP fun p => p.key = key ∧ p.startedAt = start) ≤
    limit.requestsPerMinute
  apart : ∀ p ∈ s.passages, ∀ p' ∈ s.passages, p.key = p'.key → p.startedAt < p'.startedAt →
    p.startedAt + minute ≤ p'.startedAt ∧ p.countedAt ≤ p'.startedAt
  gone : ∀ key, s.counters key = none → ∀ p ∈ s.passages, p.key = key →
    p.startedAt + minute ≤ s.now
  agrees : ∀ key counter, s.counters key = some counter → Agrees limit s key counter

theorem limited_start : Limited limit {} where
  counted p hp := absurd hp List.not_mem_nil
  bounded _ _ := Nat.zero_le _
  apart p hp := absurd hp List.not_mem_nil
  gone _ _ p hp := absurd hp List.not_mem_nil
  agrees _ _ h := absurd h (by simp)

/-- Which processes are about to send `EXPIRE` does not matter. -/
theorem Limited.expiring (h : Limited limit s) (expiring : List String) :
    Limited limit { s with expiring } := by
  refine ⟨h.counted, h.bounded, h.apart, h.gone, fun key counter hcounter => ?_⟩
  have hagrees := h.agrees key counter hcounter
  exact ⟨hagrees.started, hagrees.lives, hagrees.counts, hagrees.before⟩

/-- Time lets counters expire. -/
theorem Limited.pass (h : Limited limit s) (time : ℕ) : Limited limit (s.pass time) where
  counted p hp := by
    obtain ⟨hstarted, hnow⟩ := h.counted p hp
    exact ⟨hstarted, le_trans hnow (Nat.le_add_right _ _)⟩
  bounded := h.bounded
  apart := h.apart
  gone key hnone p hp hkey := by
    have hnow : s.now ≤ s.now + time := Nat.le_add_right _ _
    cases hcounter : s.counters key with
    | none => exact le_trans (h.gone key hcounter p hp hkey) hnow
    | some counter =>
      have hexpired : counter.at (s.now + time) = none := by
        have hbind : (s.counters key).bind (Counter.at (s.now + time)) = none := hnone
        rwa [hcounter] at hbind
      have hagrees := h.agrees key counter hcounter
      have hlived : counter.startedAt + minute ≤ s.now + time := by
        unfold Counter.at at hexpired
        split at hexpired
        next hpast =>
          obtain ⟨t, ht, hle⟩ := (Option.any_eq_true _ _).mp hpast
          exact le_trans (hagrees.lives t ht) (of_decide_eq_true hle)
        next => cases hexpired
      rcases hagrees.before p hp hkey with hsame | ⟨hearlier, -⟩
      · rw [hsame]
        exact hlived
      · have hstarted := hagrees.started
        show p.startedAt + minute ≤ s.now + time
        omega
  agrees key counter hcounter := by
    have hbind : (s.counters key).bind (Counter.at (s.now + time)) = some counter := hcounter
    obtain ⟨counter', hcounter', hat⟩ := Option.bind_eq_some_iff.mp hbind
    unfold Counter.at at hat
    split at hat
    next => cases hat
    next =>
      obtain rfl := Option.some.inj hat
      have hagrees := h.agrees key counter' hcounter'
      exact ⟨le_trans hagrees.started (Nat.le_add_right _ _), hagrees.lives, hagrees.counts,
        hagrees.before⟩

/-- A counter may be replaced by one that agrees with what was let through. -/
theorem Limited.update (h : Limited limit s) (key : String)
    {counters : String → Option Counter}
    (hother : ∀ key' ≠ key, counters key' = s.counters key')
    (hnone : counters key = none → s.counters key = none)
    (hagrees : ∀ counter, counters key = some counter → Agrees limit s key counter) :
    Limited limit { s with counters } := by
  refine ⟨h.counted, h.bounded, h.apart, fun key' hgone => ?_, fun key' counter hcounter => ?_⟩
  · refine h.gone key' ?_
    by_cases hsame : key' = key
    · subst hsame
      exact hnone hgone
    · rw [← hother key' hsame]
      exact hgone
  · have hthis : Agrees limit s key' counter := by
      by_cases hsame : key' = key
      · subst hsame
        exact hagrees counter hcounter
      · exact h.agrees key' counter ((hother key' hsame).symm.trans hcounter)
    exact ⟨hthis.started, hthis.lives, hthis.counts, hthis.before⟩

/-- `EXPIRE` gives a counter a minute from now on. -/
theorem Limited.expire (h : Limited limit s) (key : String) : Limited limit (s.expire key) := by
  have hupdated : Limited limit { s with
      counters := Function.update s.counters key ((s.counters key).map fun counter =>
        { counter with expiresAt := some (s.now + minute) }) } := by
    refine h.update key (fun key' hne => Function.update_of_ne hne _ _) (fun hnone => ?_)
      fun counter hcounter => ?_
    · rw [Function.update_self] at hnone
      exact Option.map_eq_none_iff.mp hnone
    · rw [Function.update_self] at hcounter
      obtain ⟨counter', hcounter', rfl⟩ := Option.map_eq_some_iff.mp hcounter
      have hagrees := h.agrees key counter' hcounter'
      refine ⟨hagrees.started, fun t ht => ?_, hagrees.counts, hagrees.before⟩
      obtain rfl := Option.some.inj ht
      exact Nat.add_le_add_right hagrees.started _
  exact hupdated.expiring _

/-- The counter after `INCR` agrees with what was let through, and it has counted one request more.
-/
theorem Limited.next (h : Limited limit s) (key : String) :
    Agrees limit s key (s.counted key) ∧
      (s.passages.countP fun p => p.key = key ∧ p.startedAt = (s.counted key).startedAt) <
        (s.counted key).value := by
  unfold Limiter.counted
  cases hcounter : s.counters key with
  | none =>
    have hgone : ∀ p ∈ s.passages, p.key = key → p.startedAt + minute ≤ s.now :=
      h.gone key hcounter
    have hnone : (s.passages.countP fun p => p.key = key ∧ p.startedAt = s.now) = 0 := by
      refine List.countP_eq_zero.mpr fun p hp hboth => ?_
      obtain ⟨hkey, hstarted⟩ := of_decide_eq_true hboth
      have hlived := hgone p hp hkey
      unfold minute at hlived
      omega
    refine ⟨⟨le_rfl, ?_, ?_, fun p hp hkey => ?_⟩, ?_⟩
    · intro t ht
      cases ht
    · exact le_of_eq_of_le hnone (Nat.zero_le 1)
    · exact .inr ⟨hgone p hp hkey, (h.counted p hp).2⟩
    · exact lt_of_eq_of_lt hnone Nat.one_pos
  | some counter =>
    have hagrees := h.agrees key counter hcounter
    refine ⟨⟨hagrees.started, hagrees.lives, ?_, hagrees.before⟩, ?_⟩
    · exact le_trans hagrees.counts (Nat.le_succ _)
    · exact Nat.lt_succ_of_le hagrees.counts

theorem Limited.count (h : Limited limit s) (key : String) : Limited limit (s.count key) := by
  refine h.update key (fun key' hne => Function.update_of_ne hne _ _) (fun hnone => ?_)
    fun counter hcounter => ?_
  · rw [Function.update_self] at hnone
    cases hnone
  · rw [Function.update_self] at hcounter
    obtain rfl := Option.some.inj hcounter
    exact (h.next key).1

/-- A passage more, of a counter that has room for it. -/
theorem Limited.letThrough (h : Limited limit s) (hcounter : s.counters key = some counter)
    (hmore : (s.passages.countP fun p => p.key = key ∧ p.startedAt = counter.startedAt) <
      counter.value) (hroom : counter.value ≤ limit.requestsPerMinute) :
    Limited limit (s.letThrough key counter) := by
  have hagrees := h.agrees key counter hcounter
  have hthis : ((s.letThrough key counter).passages.countP fun p =>
      p.key = key ∧ p.startedAt = counter.startedAt) ≤ counter.value := by
    unfold Limiter.letThrough
    rw [List.countP_cons_of_pos (by simp)]
    exact hmore
  have hothers : ∀ key' start, ¬(key = key' ∧ counter.startedAt = start) →
      ((s.letThrough key counter).passages.countP fun p => p.key = key' ∧ p.startedAt = start) =
        s.passages.countP fun p => p.key = key' ∧ p.startedAt = start := by
    intro key' start hnot
    unfold Limiter.letThrough
    rw [List.countP_cons_of_neg (by simpa using hnot)]
  refine ⟨fun p hp => ?_, fun key' start => ?_, fun p hp p' hp' hkey hlt => ?_,
    fun key' hnone p hp hkey => ?_, fun key' counter' hcounter' => ?_⟩
  · rcases List.mem_cons.mp hp with rfl | hold
    · exact ⟨hagrees.started, le_rfl⟩
    · exact h.counted p hold
  · by_cases hsame : key = key' ∧ counter.startedAt = start
    · obtain ⟨rfl, rfl⟩ := hsame
      exact le_trans hthis hroom
    · rw [hothers key' start hsame]
      exact h.bounded key' start
  · rcases List.mem_cons.mp hp with rfl | hold
    · rcases List.mem_cons.mp hp' with rfl | hold'
      · exact absurd hlt (lt_irrefl _)
      · -- no passage is from a later counter
        have hlt' : counter.startedAt < p'.startedAt := hlt
        rcases hagrees.before p' hold' hkey.symm with hsame | ⟨hearlier, -⟩
        · omega
        · omega
    · rcases List.mem_cons.mp hp' with rfl | hold'
      · have hlt' : p.startedAt < counter.startedAt := hlt
        rcases hagrees.before p hold hkey with hsame | hearlier
        · omega
        · exact hearlier
      · exact h.apart p hold p' hold' hkey hlt
  · rcases List.mem_cons.mp hp with rfl | hold
    · have hsome : s.counters key' = some counter := by rw [← hkey]; exact hcounter
      have hnone' : s.counters key' = none := hnone
      rw [hsome] at hnone'
      cases hnone'
    · exact h.gone key' hnone p hold hkey
  · have hold := h.agrees key' counter' hcounter'
    by_cases hsame : key' = key
    · subst hsame
      obtain rfl : counter = counter' := Option.some.inj (hcounter.symm.trans hcounter')
      refine ⟨hold.started, hold.lives, hthis, fun p hp hkey => ?_⟩
      rcases List.mem_cons.mp hp with rfl | hp
      · exact .inl rfl
      · exact hold.before p hp hkey
    · refine ⟨hold.started, hold.lives, ?_, fun p hp hkey => ?_⟩
      · rw [hothers key' counter'.startedAt fun hboth => hsame hboth.1.symm]
        exact hold.counts
      · rcases List.mem_cons.mp hp with rfl | hp
        · exact absurd hkey.symm hsame
        · exact hold.before p hp hkey

/-- A request that was counted is let through where its counter is not over the limit. -/
theorem Limited.answer (h : Limited limit s) (key : String) :
    Limited limit ((s.count key).answer limit key (s.counted key)) := by
  have hcount := h.count key
  have hmore := (h.next key).2
  have hthrough : ∀ expiring, Limited limit { s.count key with expiring } →
      Limited limit (if limit.refuses (s.counted key).value then { s.count key with expiring }
        else Limiter.letThrough { s.count key with expiring } key (s.counted key)) := by
    intro expiring hlimited
    by_cases hrefuses : limit.refuses (s.counted key).value
    · rw [if_pos hrefuses]
      exact hlimited
    · rw [if_neg hrefuses]
      refine hlimited.letThrough counters_count_self hmore ?_
      simpa [RateLimit.refuses] using hrefuses
  unfold Limiter.answer
  by_cases hfirst : (s.counted key).value = 1
  · rw [if_pos hfirst]
    exact hthrough _ (hcount.expiring _)
  · rw [if_neg hfirst]
    exact hthrough _ hcount

theorem Limited.step (h : Limited limit s) (event : Event) :
    Limited limit (Coordination.step limit s event) := by
  cases event with
  | pass time => exact h.pass time
  | incr request answered =>
    show Limited limit (if limit.counts request then _ else s)
    by_cases hcounts : limit.counts request
    · rw [if_pos hcounts]
      cases answered with
      | true => exact h.answer request.key
      | false => exact h.count request.key
    · rw [if_neg hcounts]
      exact h
  | expire key =>
    show Limited limit (if key ∈ s.expiring then _ else s)
    by_cases hexpiring : key ∈ s.expiring
    · rw [if_pos hexpiring]
      exact h.expire key
    · rw [if_neg hexpiring]
      exact h
  | lose key => exact h.expiring _

/-! ## A minute -/

theorem Limited.run (events : ℕ → Event) (n : ℕ) : Limited limit (limit.run events n) :=
  Machine.run_invariant limited_start (fun _ event h => h.step event) events n

/-- Passages of one key from one counter are within the limit. -/
theorem Limited.countP_le (h : Limited limit s) (key : String) {p : Passage → Bool}
    (hkey : ∀ passage ∈ s.passages, p passage = true → passage.key = key)
    (hsame : ∀ passage ∈ s.passages, p passage = true → ∀ passage' ∈ s.passages,
      p passage' = true → passage.startedAt = passage'.startedAt) :
    s.passages.countP p ≤ limit.requestsPerMinute := by
  by_cases hany : ∃ passage ∈ s.passages, p passage = true
  · obtain ⟨first, hfirst, hp⟩ := hany
    refine le_trans (List.countP_mono_left fun passage hpassage hp' => ?_)
      (h.bounded key first.startedAt)
    exact decide_eq_true ⟨hkey passage hpassage hp', hsame passage hpassage hp' first hfirst hp⟩
  · have hzero : s.passages.countP p = 0 :=
      List.countP_eq_zero.mpr fun passage hpassage hp => hany ⟨passage, hpassage, hp⟩
    rw [hzero]
    exact Nat.zero_le _

/-- In every run, whatever commands fail and however the requests come, no more than twice the limit
passes on a key in a minute on an answer of Redis. -/
theorem rate_bounded (limit : RateLimit) (events : ℕ → Event) (n : ℕ) (key : String) (start : ℕ) :
    (limit.run events n).passedWithin key start ≤ 2 * limit.requestsPerMinute := by
  have hlimited : Limited limit (limit.run events n) := .run events n
  generalize limit.run events n = s at hlimited
  unfold Limiter.passedWithin
  -- the counters that were started before the minute, and those that were started within it
  have hsplit := List.countP_eq_countP_filter_add s.passages
    (fun p => decide (p.key = key ∧ start ≤ p.countedAt ∧ p.countedAt < start + minute))
    fun p => p.startedAt < start
  rw [List.countP_filter, List.countP_filter] at hsplit
  rw [hsplit, Nat.two_mul]
  refine Nat.add_le_add (hlimited.countP_le key (fun p _ hp => ?_) ?_)
    (hlimited.countP_le key (fun p _ hp => ?_) ?_)
  · simp only [Bool.and_eq_true, decide_eq_true_eq] at hp
    exact hp.1.1
  · intro p hp hin p' hp' hin'
    simp only [Bool.and_eq_true, decide_eq_true_eq] at hin hin'
    rcases lt_trichotomy p.startedAt p'.startedAt with hlt | heq | hgt
    · have hapart := hlimited.apart p hp p' hp' (hin.1.1.trans hin'.1.1.symm) hlt
      omega
    · exact heq
    · have hapart := hlimited.apart p' hp' p hp (hin'.1.1.trans hin.1.1.symm) hgt
      omega
  · simp only [Bool.and_eq_true, decide_eq_true_eq] at hp
    exact hp.1.1
  · intro p hp hin p' hp' hin'
    simp only [Bool.and_eq_true, decide_eq_true_eq, Bool.not_eq_true', decide_eq_false_iff_not,
      not_lt] at hin hin'
    have hcounted := hlimited.counted p hp
    have hcounted' := hlimited.counted p' hp'
    rcases lt_trichotomy p.startedAt p'.startedAt with hlt | heq | hgt
    · have hapart := hlimited.apart p hp p' hp' (hin.1.1.trans hin'.1.1.symm) hlt
      omega
    · exact heq
    · have hapart := hlimited.apart p' hp' p hp (hin'.1.1.trans hin.1.1.symm) hgt
      omega

/-! ## A counter that does not expire -/

theorem counters_answer : (s.answer limit key counter).counters = s.counters := by
  unfold Limiter.answer
  dsimp only
  split <;> split <;> rfl

theorem mem_expiring_answer {key' : String} :
    key' ∈ (s.answer limit key counter).expiring ↔
      key' ∈ s.expiring ∨ key' = key ∧ counter.value = 1 := by
  unfold Limiter.answer Limiter.letThrough
  by_cases hfirst : counter.value = 1
  · simp only [hfirst, if_true]
    split <;> simp [or_comm]
  · simp only [hfirst, if_false, and_false, or_false]
    split <;> rfl

/-- A counter does not expire where its `EXPIRE` is still to come, or was lost. -/
def Awaited (s : Limiter) (key : String) (lost : Prop) : Prop :=
  ∀ counter, s.counters key = some counter → counter.expiresAt = none → key ∈ s.expiring ∨ lost

theorem Awaited.step {lost : Prop} (h : Awaited s key lost) (event : Event) :
    Awaited (Coordination.step limit s event) key (lost ∨ event.Loses key) := by
  intro counter hcounter hlasting
  cases event with
  | pass time =>
    have hbind : (s.counters key).bind (Counter.at (s.now + time)) = some counter := hcounter
    obtain ⟨counter', hcounter', hat⟩ := Option.bind_eq_some_iff.mp hbind
    unfold Counter.at at hat
    split at hat
    next => cases hat
    next =>
      obtain rfl := Option.some.inj hat
      exact (h counter' hcounter' hlasting).imp id .inl
  | incr request answered =>
    unfold Coordination.step at hcounter ⊢
    dsimp only at hcounter ⊢
    by_cases hcounts : limit.counts request
    · rw [if_pos hcounts] at hcounter ⊢
      have hstored : (s.count request.key).counters key = some counter := by
        cases answered with
        | true => exact (congrFun counters_answer key).symm.trans hcounter
        | false => exact hcounter
      have hstays : key ∈ s.expiring → key ∈ (if answered then
          (s.count request.key).answer limit request.key (s.counted request.key)
          else s.count request.key).expiring := by
        intro hmem
        cases answered with
        | true => exact mem_expiring_answer.mpr (.inl hmem)
        | false => exact hmem
      by_cases hsame : key = request.key
      · subst hsame
        rw [counters_count_self] at hstored
        obtain rfl := Option.some.inj hstored
        cases hold : s.counters request.key with
        | none =>
          have hfirst : (s.counted request.key).value = 1 := by
            unfold Limiter.counted
            rw [hold]
          cases answered with
          | true => exact .inl (mem_expiring_answer.mpr (.inr ⟨rfl, hfirst⟩))
          | false => exact .inr (.inr ⟨rfl, rfl⟩)
        | some counter' =>
          have hlasting' : counter'.expiresAt = none := by
            unfold Limiter.counted at hlasting
            rw [hold] at hlasting
            exact hlasting
          exact (h counter' hold hlasting').imp hstays .inl
      · rw [counters_count_of_ne hsame] at hstored
        exact (h counter hstored hlasting).imp hstays .inl
    · rw [if_neg hcounts] at hcounter ⊢
      exact (h counter hcounter hlasting).imp id .inl
  | expire key' =>
    unfold Coordination.step at hcounter ⊢
    dsimp only at hcounter ⊢
    by_cases hexpiring : key' ∈ s.expiring
    · rw [if_pos hexpiring] at hcounter ⊢
      by_cases hsame : key = key'
      · subst hsame
        rw [counters_expire_self] at hcounter
        obtain ⟨counter', -, rfl⟩ := Option.map_eq_some_iff.mp hcounter
        cases hlasting
      · rw [counters_expire_of_ne hsame] at hcounter
        refine (h counter hcounter hlasting).imp (fun hmem => ?_) .inl
        exact (List.mem_erase_of_ne hsame).mpr hmem
    · rw [if_neg hexpiring] at hcounter ⊢
      exact (h counter hcounter hlasting).imp id .inl
  | lose key' =>
    by_cases hsame : key' = key
    · exact .inr (.inr hsame)
    · refine (h counter hcounter hlasting).imp (fun hmem => ?_) .inl
      exact (List.mem_erase_of_ne fun heq => hsame heq.symm).mpr hmem

/-- Where a counter does not expire and no process is going to let it, a command was lost. -/
theorem awaited_run (events : ℕ → Event) (n : ℕ) :
    Awaited (limit.run events n) key (∃ m < n, (events m).Loses key) := by
  induction n with
  | zero =>
    intro counter hcounter
    cases hcounter
  | succ n ih =>
    intro counter hcounter hlasting
    have hstep : Awaited (step limit (limit.run events n) (events n)) key _ := ih.step (events n)
    rcases hstep counter hcounter hlasting with
      hexpiring | ⟨m, hm, hloses⟩ | hloses
    · exact .inl hexpiring
    · exact .inr ⟨m, Nat.lt_succ_of_lt hm, hloses⟩
    · exact .inr ⟨n, Nat.lt_succ_self n, hloses⟩

/-- The passages of a key. -/
def Limiter.passagesOf (s : Limiter) (key : String) : List Passage :=
  s.passages.filter fun p => p.key = key

theorem passagesOf_answer {key' : String} (hne : key ≠ key') :
    (s.answer limit key counter).passagesOf key' = s.passagesOf key' := by
  have hcons : ∀ passages : List Passage, List.filter (fun p => decide (p.key = key'))
      (⟨key, s.now, counter.startedAt⟩ :: passages) =
        passages.filter fun p => p.key = key' :=
    fun passages => List.filter_cons_of_neg (by simpa using hne)
  unfold Limiter.answer Limiter.letThrough Limiter.passagesOf
  dsimp only
  by_cases hrefuses : limit.refuses counter.value
  · rw [if_pos hrefuses]
    split <;> rfl
  · rw [if_neg hrefuses]
    split <;> exact hcons _

/-- A key that is shut stays shut, and nothing passes on it. -/
theorem Limiter.Shut.step (h : s.Shut limit key counter) (event : Event) :
    (∃ counter', (Coordination.step limit s event).Shut limit key counter') ∧
      (Coordination.step limit s event).passagesOf key = s.passagesOf key := by
  cases event with
  | pass time =>
    refine ⟨⟨counter, ?_, h.lasting, h.forgotten, h.full⟩, rfl⟩
    show (s.counters key).bind (Counter.at (s.now + time)) = some counter
    rw [h.stored, Option.bind_some]
    unfold Counter.at
    rw [h.lasting]
    rfl
  | incr request answered =>
    unfold Coordination.step
    dsimp only
    by_cases hcounts : limit.counts request
    · rw [if_pos hcounts]
      by_cases hsame : request.key = key
      · subst hsame
        have hcounted : s.counted request.key = { counter with value := counter.value + 1 } := by
          unfold Limiter.counted
          rw [h.stored]
        have hpositive : 0 < limit.requestsPerMinute := by
          simp only [RateLimit.counts, Bool.and_eq_true, decide_eq_true_eq] at hcounts
          exact hcounts.1.2
        have hfull := h.full
        have hrefuses : limit.refuses (counter.value + 1) = true :=
          decide_eq_true (Nat.lt_succ_of_le hfull)
        have hnotFirst : ¬counter.value + 1 = 1 := by omega
        -- the request is counted and refused, and it is not the first one
        have hcount : (if answered = true then
            (s.count request.key).answer limit request.key (s.counted request.key)
            else s.count request.key) = s.count request.key := by
          unfold Limiter.answer
          rw [hcounted]
          simp only [hrefuses, hnotFirst, if_true, if_false, ite_self]
        rw [hcount]
        refine ⟨⟨s.counted request.key, counters_count_self, ?_, h.forgotten, ?_⟩, rfl⟩
        · rw [hcounted]
          exact h.lasting
        · rw [hcounted]
          exact le_trans hfull (Nat.le_succ _)
      · have hstored : (s.count request.key).counters key = some counter :=
          (counters_count_of_ne fun heq => hsame heq.symm).trans h.stored
        cases answered with
        | true =>
          refine ⟨⟨counter, (congrFun counters_answer key).trans hstored, h.lasting,
            fun hmem => ?_, h.full⟩, passagesOf_answer hsame⟩
          rcases mem_expiring_answer.mp hmem with hold | ⟨heq, -⟩
          · exact h.forgotten hold
          · exact hsame heq.symm
        | false => exact ⟨⟨counter, hstored, h.lasting, h.forgotten, h.full⟩, rfl⟩
    · rw [if_neg hcounts]
      exact ⟨⟨counter, h⟩, rfl⟩
  | expire key' =>
    unfold Coordination.step
    dsimp only
    by_cases hexpiring : key' ∈ s.expiring
    · rw [if_pos hexpiring]
      have hne : key ≠ key' := by
        rintro rfl
        exact h.forgotten hexpiring
      refine ⟨⟨counter, (counters_expire_of_ne hne).trans h.stored, h.lasting,
        fun hmem => h.forgotten (List.mem_of_mem_erase hmem), h.full⟩, rfl⟩
    · rw [if_neg hexpiring]
      exact ⟨⟨counter, h⟩, rfl⟩
  | lose key' =>
    exact ⟨⟨counter, h.stored, h.lasting, fun hmem => h.forgotten (List.mem_of_mem_erase hmem),
      h.full⟩, rfl⟩

/-- A key is shut only after a command was lost, and then it is shut for good: nothing passes on it
any more on an answer of Redis, whatever comes. -/
theorem shut_for_good (limit : RateLimit) (events : ℕ → Event) (n : ℕ)
    (hshut : (limit.run events n).Shut limit key counter) :
    (∃ m < n, (events m).Loses key) ∧
      ∀ n' ≥ n, (limit.run events n').passagesOf key = (limit.run events n).passagesOf key := by
  refine ⟨(awaited_run events n counter hshut.stored hshut.lasting).resolve_left hshut.forgotten,
    fun n' hn' => ?_⟩
  suffices hkept : (∃ counter', (limit.run events n').Shut limit key counter') ∧
      (limit.run events n').passagesOf key = (limit.run events n).passagesOf key from hkept.2
  induction hn' with
  | refl => exact ⟨⟨counter, hshut⟩, rfl⟩
  | @step n' _ ih =>
    obtain ⟨⟨counter', hshut'⟩, hpassages⟩ := ih
    obtain ⟨hstill, hsame⟩ := hshut'.step (events n')
    exact ⟨hstill, hsame.trans hpassages⟩

/-- One request for a minute, from one client. -/
def oneRequest : RateLimit where
  requestsPerMinute := 1

/-- The first request of a client is counted, and its process stops before it sends `EXPIRE`. -/
def crashedProcess : ℕ → Event
  | 0 => .incr ⟨some "10.0.0.7", "/api/v1/things"⟩ true
  | 1 => .lose "rate-limit:10.0.0.7:/api/v1/things"
  | _ => .pass minute

/-- The client is shut out for good. -/
theorem shut_for_good_crashed :
    (oneRequest.run crashedProcess 2).passedWithin "rate-limit:10.0.0.7:/api/v1/things" 0 = 1 ∧
      (∃ m < 2, (crashedProcess m).Loses "rate-limit:10.0.0.7:/api/v1/things") ∧
      ∀ n' ≥ 2, (oneRequest.run crashedProcess n').passagesOf
        "rate-limit:10.0.0.7:/api/v1/things" =
          (oneRequest.run crashedProcess 2).passagesOf "rate-limit:10.0.0.7:/api/v1/things" :=
  have hshut : (oneRequest.run crashedProcess 2).Shut oneRequest
      "rate-limit:10.0.0.7:/api/v1/things" ⟨1, none, 0⟩ :=
    ⟨by decide +kernel, rfl, by decide +kernel, le_rfl⟩
  ⟨by decide +kernel, shut_for_good oneRequest crashedProcess 2 hshut⟩

end Coordination
