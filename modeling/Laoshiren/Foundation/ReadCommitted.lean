import Mathlib.Data.List.Basic

/-!
# Transactions under READ COMMITTED

A database is used by any number of clients at once. A transaction reads with one or more
statements and then writes. Under READ COMMITTED every reading statement sees *some* committed
state, possibly an old one by the time the transaction writes, and different statements of one
transaction may see different states. The conditional updates lock the rows they match until the
transaction ends, so they act on the rows as they are when the transaction commits: a commit is one
atomic change of the committed state. A transaction that raises, is rolled back or whose client dies
before the commit changes nothing and needs no step of its own.

A `Program` gives that change: `commit op view s` is what transaction `op` makes of the state `s`
(and what it answers) when its `n`-th reading statement saw `view n`. `Reachable` interleaves the
transactions in every way: each view is any state committed so far.
-/

/-- What happened to a database: the committed state, the states committed before it (latest first),
and the answers given (latest first). -/
structure History (σ ι ο : Type*) where
  /-- The committed state. -/
  cur : σ
  /-- The states committed earlier. -/
  past : List σ
  /-- The transactions that committed, with their answers. -/
  replies : List (ι × ο)

/-- Every state committed so far. -/
def History.states {σ ι ο : Type*} (h : History σ ι ο) : List σ := h.cur :: h.past

/-- The states in the order of their commits, the first one at 0. -/
def History.stateAt {σ ι ο : Type*} (h : History σ ι ο) (i : Fin h.states.length) : σ :=
  h.states[h.states.length - 1 - i]

theorem History.stateAt_mem {σ ι ο : Type*} (h : History σ ι ο) (i : Fin h.states.length) :
    h.stateAt i ∈ h.states := List.getElem_mem _

/-- A database and the transactions its clients run. -/
structure Program (σ ι ο : Type*) where
  /-- The states a history starts from. -/
  init : σ → Prop
  /-- The state and the answer that a transaction leaves. -/
  commit : ι → (ℕ → σ) → σ → σ × ο

namespace Program

variable {σ ι ο : Type*} (P : Program σ ι ο)

/-- The history after one more commit. -/
def extend (h : History σ ι ο) (op : ι) (view : ℕ → σ) : History σ ι ο :=
  ⟨(P.commit op view h.cur).1, h.states, (op, (P.commit op view h.cur).2) :: h.replies⟩

/-- The histories in which every commit meets `ok`, a condition on the transaction, on what it read
and on the state it commits on. -/
inductive ReachableIf (ok : ι → (ℕ → σ) → σ → Prop) : History σ ι ο → Prop
  | init {s : σ} (hs : P.init s) : ReachableIf ok ⟨s, [], []⟩
  | commit {h : History σ ι ο} (hr : ReachableIf ok h) (op : ι) (view : ℕ → σ)
      (hview : ∀ n, view n ∈ h.states) (hok : ok op view h.cur) : ReachableIf ok (P.extend h op view)

/-- The histories of any interleaving of any transactions. -/
abbrev Reachable : History σ ι ο → Prop := P.ReachableIf fun _ _ _ => True

/-- The history in which each transaction reads the state that it commits on. -/
def serial (s : σ) (ops : List ι) : History σ ι ο :=
  ops.foldl (fun h op => P.extend h op fun _ => h.cur) ⟨s, [], []⟩

/-- The transactions, one after the other from `h` on, each meet `ok`. -/
def SerialMeets (ok : ι → (ℕ → σ) → σ → Prop) (h : History σ ι ο) : List ι → Prop
  | [] => True
  | op :: ops =>
    ok op (fun _ => h.cur) h.cur ∧ SerialMeets ok (P.extend h op fun _ => h.cur) ops

instance decidableSerialMeets (ok : ι → (ℕ → σ) → σ → Prop)
    [∀ op view s, Decidable (ok op view s)] :
    (h : History σ ι ο) → (ops : List ι) → Decidable (P.SerialMeets ok h ops)
  | _, [] => inferInstanceAs (Decidable True)
  | h, op :: ops =>
    have := decidableSerialMeets ok (P.extend h op fun _ => h.cur) ops
    inferInstanceAs (Decidable (_ ∧ _))

/-- Transactions one after the other are one of the interleavings. -/
theorem serial_reachableIf {ok : ι → (ℕ → σ) → σ → Prop} {s : σ} (hs : P.init s) (ops : List ι)
    (hok : P.SerialMeets ok ⟨s, [], []⟩ ops) : P.ReachableIf ok (P.serial s ops) := by
  have hfold : ∀ (ops : List ι) (h : History σ ι ο), P.SerialMeets ok h ops → P.ReachableIf ok h →
      P.ReachableIf ok (ops.foldl (fun h op => P.extend h op fun _ => h.cur) h) := by
    intro ops
    induction ops with
    | nil => exact fun h _ hr => hr
    | cons op ops ih =>
      intro h hok hr
      exact ih _ hok.2 (hr.commit op _ (fun _ => List.mem_cons_self) hok.1)
  exact hfold ops _ hok (.init hs)

/-- Transactions that meet `ok` on every state that they read and commit on. -/
theorem serialMeets_of_same {ok : ι → (ℕ → σ) → σ → Prop} {ops : List ι}
    (hok : ∀ op ∈ ops, ∀ s, ok op (fun _ => s) s) (h : History σ ι ο) : P.SerialMeets ok h ops := by
  induction ops generalizing h with
  | nil => trivial
  | cons op ops ih =>
    exact ⟨hok op (.head _) _, ih (fun op' hop' => hok op' (.tail _ hop')) _⟩

/-- Transactions that meet `ok` on every state. -/
theorem serialMeets_of_forall {ok : ι → (ℕ → σ) → σ → Prop} {ops : List ι}
    (hok : ∀ op ∈ ops, ∀ view s, ok op view s) (h : History σ ι ο) : P.SerialMeets ok h ops :=
  P.serialMeets_of_same (fun op hop s => hok op hop (fun _ => s) s) h

theorem serial_reachable {s : σ} (hs : P.init s) (ops : List ι) : P.Reachable (P.serial s ops) :=
  P.serial_reachableIf hs ops (P.serialMeets_of_forall (fun _ _ _ _ => trivial) _)

variable {P} {ok : ι → (ℕ → σ) → σ → Prop}

/-- A restricted history is a history. -/
theorem ReachableIf.reachable {h : History σ ι ο} (hr : P.ReachableIf ok h) : P.Reachable h := by
  induction hr with
  | init hs => exact .init hs
  | commit _ op view hview _ ih => exact ih.commit op view hview trivial

/-- The commit behind an answer, and the history before it. -/
theorem ReachableIf.answered {h : History σ ι ο} (hr : P.ReachableIf ok h) {j : ℕ} {op : ι}
    {reply : ο} (hj : h.replies[j]? = some (op, reply)) :
    ∃ h₀ view, P.ReachableIf ok h₀ ∧ (∀ n, view n ∈ h₀.states) ∧ ok op view h₀.cur ∧
      (P.commit op view h₀.cur).2 = reply ∧ h.states.drop j = (P.extend h₀ op view).states := by
  induction hr generalizing j with
  | init hs => simp at hj
  | @commit h hr op' view hview hok ih =>
    cases j with
    | zero =>
      obtain ⟨rfl, hreply⟩ := Prod.mk.inj (Option.some.inj hj)
      exact ⟨h, view, hr, hview, hok, hreply, rfl⟩
    | succ j =>
      obtain ⟨h₀, view₀, hr₀, hview₀, hok₀, hreply, hstates⟩ := ih hj
      exact ⟨h₀, view₀, hr₀, hview₀, hok₀, hreply, hstates⟩

/-- The commit behind an answer, between two states of the history. -/
theorem ReachableIf.answered_at {h : History σ ι ο} (hr : P.ReachableIf ok h) {j : ℕ} {op : ι}
    {reply : ο} (hj : h.replies[j]? = some (op, reply)) :
    ∃ view s, h.states[j + 1]? = some s ∧ h.states[j]? = some (P.commit op view s).1 ∧
      (P.commit op view s).2 = reply := by
  obtain ⟨h₀, view, -, -, -, hreply, hstates⟩ := hr.answered hj
  refine ⟨view, h₀.cur, ?_, ?_, hreply⟩
  · have hsecond := congrArg (fun states => states[1]?) hstates
    simp only [List.getElem?_drop] at hsecond
    exact hsecond
  · have hfirst := congrArg List.head? hstates
    rw [List.head?_drop] at hfirst
    exact hfirst

/-- Every committed state ends a history that the later answers go on from. -/
theorem ReachableIf.exists_of_mem {h : History σ ι ο} (hr : P.ReachableIf ok h) {s : σ}
    (hs : s ∈ h.states) : ∃ h₀, P.ReachableIf ok h₀ ∧ h₀.cur = s ∧ h₀.replies <:+ h.replies := by
  induction hr with
  | init hinit =>
    obtain rfl := List.mem_singleton.mp hs
    exact ⟨_, .init hinit, rfl, List.suffix_rfl⟩
  | @commit h hr op view hview hok ih =>
    rcases List.mem_cons.mp hs with rfl | hs
    · exact ⟨_, hr.commit op view hview hok, rfl, List.suffix_rfl⟩
    · obtain ⟨h₀, hr₀, hcur, hreplies⟩ := ih hs
      exact ⟨h₀, hr₀, hcur, hreplies.trans (List.suffix_cons _ _)⟩

/-- `inv` holds of every committed state and the preorder `rel` relates every state to every later
one. `rel` is what a transaction may still rely on, when it commits, of a state that it read
earlier; so a step may assume both of each of its views. -/
structure Stable (P : Program σ ι ο) (ok : ι → (ℕ → σ) → σ → Prop) (inv : σ → Prop)
    (rel : σ → σ → Prop) : Prop where
  init : ∀ s, P.init s → inv s
  refl : ∀ s, rel s s
  trans : ∀ u v w, rel u v → rel v w → rel u w
  step : ∀ op view s, inv s → (∀ n, inv (view n) ∧ rel (view n) s) → ok op view s →
    inv (P.commit op view s).1 ∧ rel s (P.commit op view s).1

variable {inv : σ → Prop} {rel : σ → σ → Prop}

/-- The induction over a history: the committed state meets the invariant, and so does every earlier
state, which is related to it. -/
theorem Stable.states (hS : Stable P ok inv rel) {h : History σ ι ο} (hr : P.ReachableIf ok h) :
    inv h.cur ∧ ∀ v ∈ h.states, inv v ∧ rel v h.cur := by
  induction hr with
  | @init s hs =>
    have hi := hS.init _ hs
    refine ⟨hi, fun v hv => ?_⟩
    obtain rfl : v = s := by simpa [History.states] using hv
    exact ⟨hi, hS.refl _⟩
  | @commit h _ op view hview hok ih =>
    obtain ⟨hcur, hall⟩ := ih
    obtain ⟨hnew, hstep⟩ := hS.step op view _ hcur (fun n => hall _ (hview n)) hok
    refine ⟨hnew, fun v hv => ?_⟩
    rcases List.mem_cons.mp hv with rfl | hv
    · exact ⟨hnew, hS.refl _⟩
    · exact ⟨(hall v hv).1, hS.trans _ _ _ (hall v hv).2 hstep⟩

theorem Stable.inv_cur (hS : Stable P ok inv rel) {h : History σ ι ο}
    (hr : P.ReachableIf ok h) : inv h.cur := (hS.states hr).1

theorem Stable.inv_mem (hS : Stable P ok inv rel) {h : History σ ι ο} (hr : P.ReachableIf ok h)
    {v : σ} (hv : v ∈ h.states) : inv v := ((hS.states hr).2 v hv).1

theorem Stable.rel_mem (hS : Stable P ok inv rel) {h : History σ ι ο} (hr : P.ReachableIf ok h)
    {v : σ} (hv : v ∈ h.states) : rel v h.cur := ((hS.states hr).2 v hv).2

/-- Any two states of a history are related, the earlier one to the later one. -/
theorem Stable.pairwise (hS : Stable P ok inv rel) {h : History σ ι ο} (hr : P.ReachableIf ok h) :
    h.states.Pairwise fun later earlier => rel earlier later := by
  induction hr with
  | init hs => simp [History.states]
  | commit hr op view hview hok ih =>
    refine List.pairwise_cons.mpr ⟨fun v hv => ?_, ih⟩
    exact hS.rel_mem (hr.commit op view hview hok) (List.mem_cons_of_mem _ hv)

/-- A state is related to every one that was committed after it. -/
theorem Stable.rel_stateAt (hS : Stable P ok inv rel) {h : History σ ι ο} (hr : P.ReachableIf ok h)
    {i j : Fin h.states.length} (hij : i ≤ j) : rel (h.stateAt i) (h.stateAt j) := by
  by_cases hsame : i = j
  · rw [hsame]
    exact hS.refl _
  · have hj := j.isLt
    have hle : i.val ≤ j.val := hij
    have hne : i.val ≠ j.val := fun h => hsame (Fin.ext h)
    exact List.pairwise_iff_getElem.mp (hS.pairwise hr) _ _ (by omega) (by omega) (by omega)

/-- A state that was committed before an answer is related to every one since. -/
theorem Stable.rel_since (hS : Stable P ok inv rel) {h : History σ ι ο} (hr : P.ReachableIf ok h)
    {j : ℕ} {u v : σ} (hu : u ∈ h.states.drop j) (hv : v ∈ h.states.take (j + 1)) : rel u v := by
  obtain ⟨a, ha, rfl⟩ := List.mem_take_iff_getElem.mp hv
  obtain ⟨b, hb, rfl⟩ := List.mem_drop_iff_getElem.mp hu
  by_cases hsame : j + b = a
  · simp only [hsame]
    exact hS.refl _
  · exact List.pairwise_iff_getElem.mp (hS.pairwise hr) _ _ (by omega) (by omega) (by omega)

/-- A state of a history is related to the ones at the smaller indices. -/
theorem Stable.rel_getElem? (hS : Stable P ok inv rel) {h : History σ ι ο} (hr : P.ReachableIf ok h)
    {a b : ℕ} {u v : σ} (hu : h.states[a]? = some u) (hv : h.states[b]? = some v) (hba : b ≤ a) :
    rel u v := by
  obtain ⟨ha, rfl⟩ := List.getElem?_eq_some_iff.mp hu
  obtain ⟨hb, rfl⟩ := List.getElem?_eq_some_iff.mp hv
  refine hS.rel_since hr (j := a) ?_ ?_
  · exact List.mem_drop_iff_getElem.mpr ⟨0, by omega, by simp⟩
  · exact List.mem_take_iff_getElem.mpr ⟨b, by omega, rfl⟩

/-- A stable invariant of all histories is one of the restricted histories. -/
theorem Stable.restrict {p : ι → (ℕ → σ) → σ → Prop} (hS : Stable P ok inv rel)
    (hok : ∀ op view s, p op view s → ok op view s) : Stable P p inv rel where
  init := hS.init
  refl := hS.refl
  trans := hS.trans
  step op view s hinv hviews h := hS.step op view s hinv hviews (hok op view s h)

/-- Two stable invariants hold together. -/
theorem Stable.and {inv' : σ → Prop} {rel' : σ → σ → Prop} (hS : Stable P ok inv rel)
    (hS' : Stable P ok inv' rel') :
    Stable P ok (fun s => inv s ∧ inv' s) (fun v s => rel v s ∧ rel' v s) where
  init s hs := ⟨hS.init s hs, hS'.init s hs⟩
  refl s := ⟨hS.refl s, hS'.refl s⟩
  trans u v w h h' := ⟨hS.trans u v w h.1 h'.1, hS'.trans u v w h.2 h'.2⟩
  step op view s hinv hviews hok := by
    obtain ⟨hi, hr⟩ :=
      hS.step op view s hinv.1 (fun n => ⟨(hviews n).1.1, (hviews n).2.1⟩) hok
    obtain ⟨hi', hr'⟩ :=
      hS'.step op view s hinv.2 (fun n => ⟨(hviews n).1.2, (hviews n).2.2⟩) hok
    exact ⟨⟨hi, hi'⟩, hr, hr'⟩

/-- One more invariant, each of whose steps may use what is stable already. -/
theorem Stable.strengthen (hS : Stable P ok inv rel) (law : σ → Prop)
    (h0 : ∀ s, P.init s → law s)
    (h1 : ∀ op view s, inv s → law s → (∀ n, inv (view n) ∧ law (view n) ∧ rel (view n) s) →
      ok op view s → law (P.commit op view s).1) :
    Stable P ok (fun s => inv s ∧ law s) rel where
  init s hs := ⟨hS.init s hs, h0 s hs⟩
  refl := hS.refl
  trans := hS.trans
  step op view s hinv hviews hok := by
    obtain ⟨hi, hr⟩ := hS.step op view s hinv.1 (fun n => ⟨(hviews n).1.1, (hviews n).2⟩) hok
    exact ⟨⟨hi, h1 op view s hinv.1 hinv.2
      (fun n => ⟨(hviews n).1.1, (hviews n).1.2, (hviews n).2⟩) hok⟩, hr⟩

/-- The induction over the answers of a history: `log` relates the answers given so far to the
committed state. -/
theorem Stable.log_induction (hS : Stable P ok inv rel) (log : List (ι × ο) → σ → Prop)
    (h0 : ∀ s, P.init s → log [] s)
    (h1 : ∀ op view s replies, inv s → (∀ n, inv (view n) ∧ rel (view n) s) → ok op view s →
      log replies s → log ((op, (P.commit op view s).2) :: replies) (P.commit op view s).1)
    {h : History σ ι ο} (hr : P.ReachableIf ok h) : log h.replies h.cur := by
  induction hr with
  | init hs => exact h0 _ hs
  | @commit h hr op view hview hok ih =>
    exact h1 op view _ _ (hS.inv_cur hr)
      (fun n => ⟨hS.inv_mem hr (hview n), hS.rel_mem hr (hview n)⟩) hok ih

/-- What every step does relates each state of a history to the next one. -/
theorem Stable.adjacent (hS : Stable P ok inv rel) {R : σ → σ → Prop}
    (hstep : ∀ op view s, inv s → (∀ n, inv (view n) ∧ rel (view n) s) → ok op view s →
      R s (P.commit op view s).1)
    {h : History σ ι ο} (hr : P.ReachableIf ok h) {k : ℕ} {u v : σ} (hu : h.states[k + 1]? = some u)
    (hv : h.states[k]? = some v) : R u v := by
  induction hr generalizing k with
  | init hs => simp [History.states] at hu
  | @commit h hr op view hview hok ih =>
    cases k with
    | zero =>
      obtain rfl : h.cur = u := Option.some.inj hu
      obtain rfl : (P.commit op view h.cur).1 = v := Option.some.inj hv
      exact hstep op view _ (hS.inv_cur hr)
        (fun n => ⟨hS.inv_mem hr (hview n), hS.rel_mem hr (hview n)⟩) hok
    | succ k => exact ih hu hv

/-- A law that some transactions keep: it holds from a state on, as long as no other transaction
commits after that state. -/
theorem Stable.persists (hS : Stable P ok inv rel) (law : σ → Prop) (keeps : ι → Prop)
    (hstep : ∀ op view s, inv s → (∀ n, inv (view n) ∧ rel (view n) s) → ok op view s → keeps op →
      law s → law (P.commit op view s).1)
    {h : History σ ι ο} (hr : P.ReachableIf ok h) {i : Fin h.states.length}
    (hkeeps : ∀ entry ∈ h.replies.take (h.states.length - 1 - i), keeps entry.1)
    (hlaw : law (h.stateAt i)) : law h.cur := by
  -- counted from the present state back, the `k`-th state has `k` commits after it
  suffices hback : ∀ k v, h.states[k]? = some v → (∀ entry ∈ h.replies.take k, keeps entry.1) →
      law v → law h.cur by
    exact hback _ _ (List.getElem?_eq_getElem (by omega)) hkeeps hlaw
  clear hkeeps hlaw i
  induction hr with
  | @init s hs =>
    intro k v hv _ hlaw
    obtain rfl : v = s := by simpa [History.states] using List.mem_of_getElem? hv
    exact hlaw
  | @commit h hr op view hview hok ih =>
    intro k v hv hkeeps hlaw
    cases k with
    | zero =>
      obtain rfl : (P.commit op view h.cur).1 = v := by simpa [History.states, extend] using hv
      exact hlaw
    | succ k =>
      refine hstep op view _ (hS.inv_cur hr)
        (fun n => ⟨hS.inv_mem hr (hview n), hS.rel_mem hr (hview n)⟩) hok (hkeeps _ (.head _)) ?_
      exact ih k v hv (fun entry hentry => hkeeps entry (.tail _ hentry)) hlaw

/-- A law that holds after some commit holds from then on, as long as no answer since broke it. -/
theorem Stable.lasts (hS : Stable P ok inv rel) (law : σ → Prop) (keeps : ι × ο → Prop)
    (hstep : ∀ op view s, inv s → (∀ n, inv (view n) ∧ rel (view n) s) → ok op view s →
      keeps (op, (P.commit op view s).2) → law s → law (P.commit op view s).1)
    {h : History σ ι ο} (hr : P.ReachableIf ok h) {k : ℕ} {v : σ} (hv : h.states[k]? = some v)
    (hkeeps : ∀ entry ∈ h.replies.take k, keeps entry) (hlaw : law v) :
    ∀ u ∈ h.states.take (k + 1), law u := by
  induction hr generalizing k v with
  | @init s hs =>
    intro u hu
    obtain rfl : v = s := by simpa [History.states] using List.mem_of_getElem? hv
    obtain rfl : u = v := by simpa [History.states] using List.mem_of_mem_take hu
    exact hlaw
  | @commit h hr op view hview hok ih =>
    intro u hu
    cases k with
    | zero =>
      obtain rfl : (P.commit op view h.cur).1 = v := Option.some.inj hv
      obtain rfl : u = (P.commit op view h.cur).1 := by simpa [History.states, extend] using hu
      exact hlaw
    | succ k =>
      have hearlier := ih hv (fun entry hentry => hkeeps entry (.tail _ hentry)) hlaw
      rcases List.mem_cons.mp hu with rfl | hu
      · exact hstep op view _ (hS.inv_cur hr)
          (fun n => ⟨hS.inv_mem hr (hview n), hS.rel_mem hr (hview n)⟩) hok (hkeeps _ (.head _))
          (hearlier _ (.head _))
      · exact hearlier u hu

/-- What every step keeps while a law holds relates the states among the last ones, counted from the
present one back. -/
theorem Stable.rel_back (hS : Stable P ok inv rel) (law : σ → Prop) {R : σ → σ → Prop}
    (hrefl : ∀ s, R s s) (htrans : ∀ u v w, R u v → R v w → R u w)
    (hstep : ∀ op view s, inv s → (∀ n, inv (view n) ∧ rel (view n) s) → ok op view s → law s →
      R s (P.commit op view s).1)
    {h : History σ ι ο} (hr : P.ReachableIf ok h) {a b : ℕ} {u v : σ} (hab : a ≤ b)
    (hu : h.states[a]? = some u) (hv : h.states[b]? = some v)
    (hlaw : ∀ c w, a < c → c ≤ b → h.states[c]? = some w → law w) : R v u := by
  induction hr generalizing a b u v with
  | @init s hs =>
    obtain rfl : u = s := by simpa [History.states] using List.mem_of_getElem? hu
    obtain rfl : v = u := by simpa [History.states] using List.mem_of_getElem? hv
    exact hrefl v
  | @commit h hr op view hview hok ih =>
    cases b with
    | zero =>
      obtain rfl := Nat.le_zero.mp hab
      obtain rfl := Option.some.inj (hu.symm.trans hv)
      exact hrefl u
    | succ b =>
      have hv' : h.states[b]? = some v := hv
      cases a with
      | zero =>
        obtain rfl : (P.commit op view h.cur).1 = u := by simpa [History.states, extend] using hu
        have hcur : h.states[0]? = some h.cur := rfl
        refine htrans _ _ _ (ih (Nat.zero_le b) hcur hv' fun c w hc hcb hw => ?_) ?_
        · exact hlaw (c + 1) w (Nat.succ_pos c) (Nat.succ_le_succ hcb) hw
        · exact hstep op view _ (hS.inv_cur hr)
            (fun n => ⟨hS.inv_mem hr (hview n), hS.rel_mem hr (hview n)⟩) hok
            (hlaw 1 h.cur Nat.one_pos (Nat.succ_le_succ (Nat.zero_le b)) hcur)
      | succ a =>
        have hu' : h.states[a]? = some u := hu
        refine ih (Nat.le_of_succ_le_succ hab) hu' hv' fun c w hc hcb hw => ?_
        exact hlaw (c + 1) w (Nat.succ_lt_succ hc) (Nat.succ_le_succ hcb) hw

/-- What every step keeps while a law holds relates two states between which the law held. -/
theorem Stable.rel_while (hS : Stable P ok inv rel) (law : σ → Prop) {R : σ → σ → Prop}
    (hrefl : ∀ s, R s s) (htrans : ∀ u v w, R u v → R v w → R u w)
    (hstep : ∀ op view s, inv s → (∀ n, inv (view n) ∧ rel (view n) s) → ok op view s → law s →
      R s (P.commit op view s).1)
    {h : History σ ι ο} (hr : P.ReachableIf ok h) {i j : Fin h.states.length} (hij : i ≤ j)
    (hlaw : ∀ k, i ≤ k → k < j → law (h.stateAt k)) : R (h.stateAt i) (h.stateAt j) := by
  obtain ⟨i, hi⟩ := i
  obtain ⟨j, hj⟩ := j
  have hle : i ≤ j := hij
  refine hS.rel_back law hrefl htrans hstep hr (a := h.states.length - 1 - j)
    (b := h.states.length - 1 - i) (by omega) (List.getElem?_eq_getElem (by omega))
    (List.getElem?_eq_getElem (by omega)) fun c w hac hcb hw => ?_
  obtain ⟨hc, rfl⟩ := List.getElem?_eq_some_iff.mp hw
  have hback : h.states.length - 1 - (h.states.length - 1 - c) = c := by omega
  have hat : h.stateAt ⟨h.states.length - 1 - c, by omega⟩ = h.states[c] := by
    simp only [History.stateAt, hback]
  rw [← hat]
  refine hlaw _ ?_ ?_
  · show i ≤ h.states.length - 1 - c
    omega
  · show h.states.length - 1 - c < j
    omega

end Program
