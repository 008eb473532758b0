import Laoshiren.Memories.Extractor

/-!
# Proofs: the reply of the extractor is read item by item

Every item is a candidate or is left out, but for the items with a number that `float` overflows on:
that error is in no list of caught ones.
-/

namespace Memories

open Raise
open PersonalState (MemoryType)

variable {py : Interpreter} {fields : Dict} {item value : Json} {c : ExtractedCandidate} {s : Scalars}
  {error : ExtractorError}

/-! ## What is caught -/

theorem orNone_eq_some {α : Type} {caught : ExtractorError → Bool}
    {body : Except ExtractorError (Option α)} {a : α} :
    orNone caught body = .ok (some a) ↔ body = .ok (some a) := by
  unfold orNone
  cases body with
  | ok result => exact Iff.rfl
  | error error =>
    dsimp only
    split
    · exact ⟨nofun, nofun⟩
    · exact ⟨nofun, nofun⟩

theorem orNone_eq_error {α : Type} {caught : ExtractorError → Bool}
    {body : Except ExtractorError (Option α)} :
    orNone caught body = .error error ↔ body = .error error ∧ caught error = false := by
  unfold orNone
  cases body with
  | ok result => exact ⟨nofun, fun h => nomatch h.1⟩
  | error raised =>
    dsimp only
    split
    · rename_i hcaught
      refine ⟨nofun, fun ⟨herror, hnot⟩ => ?_⟩
      rw [Except.error.inj herror, hnot] at hcaught
      cases hcaught
    · rename_i hnot
      refine ⟨fun h => ⟨h, ?_⟩, And.left⟩
      rw [← Except.error.inj h]
      exact Bool.eq_false_iff.mpr hnot

theorem isKeyValueOrType_of_isValueOrType (h : error.isValueOrType = true) :
    error.isKeyValueOrType = true := by
  cases error with
  | valueError _ | typeError => rfl
  | keyError _ | overflowError | memoryExtractorError _ => cases h

/-! ## What is read of a value -/

theorem str_eq_ok {text : String} : py.str value = .ok text ↔ py.str? value = some text :=
  orRaise_eq_ok

theorem str_caught (h : py.str value = .error error) : error.isValueOrType = true := by
  obtain ⟨rfl, _⟩ := orRaise_eq_error.mp h
  rfl

theorem float_huge (h : Huge value) : py.float value = .error .overflowError := by
  obtain ⟨q, rfl, hq⟩ := h
  exact if_pos hq

theorem float_of_lt {q : ℚ} (h : |q| < floatOverflow) : py.float (.num q) = .ok (.finite q) :=
  if_neg (not_le.mpr h)

/-- A number that cannot be read raises an error that is caught, unless it is too large. -/
theorem float_eq_error (h : py.float value = .error error) :
    error.isKeyValueOrType = true ∨ error = .overflowError ∧ Huge value := by
  cases value with
  | num q =>
    unfold Interpreter.float at h
    dsimp only at h
    split at h
    · rename_i hq
      exact Or.inr ⟨(Except.error.inj h).symm, q, rfl, hq⟩
    · cases h
  | bool b => cases h
  | str text =>
    obtain ⟨rfl, _⟩ := orRaise_eq_error.mp h
    exact Or.inl rfl
  | null | arr _ | obj _ =>
    obtain rfl : ExtractorError.typeError = error := Except.error.inj h
    exact Or.inl rfl

theorem ofText_eq_some {text : String} {action : CandidateAction} :
    CandidateAction.ofText text = some action ↔ text = action.value := by
  constructor
  · intro h
    have hvalue := List.find?_some h
    exact (of_decide_eq_true hvalue).symm
  · rintro rfl
    cases action <;> rfl

theorem memoryTypeOfText_eq_some {text : String} {memoryType : MemoryType} :
    memoryTypeOfText text = some memoryType ↔ text = memoryType.value := by
  constructor
  · intro h
    have hvalue := List.find?_some h
    exact (of_decide_eq_true hvalue).symm
  · rintro rfl
    cases memoryType <;> rfl

theorem inUnit_eq_some {x : FloatValue} {q : { q : ℚ // 0 ≤ q ∧ q ≤ 1 }} :
    x.inUnit = some q ↔ x = .finite q := by
  obtain ⟨q, hq⟩ := q
  cases x with
  | finite r =>
    unfold FloatValue.inUnit
    dsimp only
    split
    · simp
    · rename_i hr
      refine ⟨nofun, fun h => ?_⟩
      rw [FloatValue.finite.inj h] at hr
      exact absurd hq hr
  | infinity _ | nan => exact ⟨nofun, nofun⟩

/-! ## The first `try` -/

/-- The scalars of an object. -/
structure Reads (py : Interpreter) (fields : Dict) (s : Scalars) : Prop where
  memoryType : (fields.get "memory_type").bind py.str? = some s.memoryType.value
  action : (fields.get "action").bind py.str? = some s.action.value
  content : ((fields.get "content").bind py.str?).map Text.strip = some s.content
  reason : py.str? ((fields.get "reason").getD (.str "")) = some s.reason
  importance : py.float ((fields.get "importance").getD (.num (3 / 5))) = .ok s.importance
  confidence : py.float ((fields.get "confidence").getD (.num (7 / 10))) = .ok s.confidence

/-- A field that is there, as a text. -/
theorem fieldText_eq_ok {key text : String} :
    fieldText py fields key = .ok text ↔ (fields.get key).bind py.str? = some text := by
  simp only [fieldText, bind_eq_ok, orRaise_eq_ok, str_eq_ok, Option.bind_eq_some_iff]

theorem fieldText_caught {key : String} (h : fieldText py fields key = .error error) :
    error.isKeyValueOrType = true := by
  rcases bind_eq_error.mp h with hfield | ⟨value, _, hstr⟩
  · obtain ⟨rfl, _⟩ := orRaise_eq_error.mp hfield
    rfl
  · exact isKeyValueOrType_of_isValueOrType (str_caught hstr)

theorem readScalars_eq_ok : readScalars py fields = .ok s ↔ Reads py fields s := by
  simp only [readScalars, bind_eq_ok, fieldText_eq_ok, orRaise_eq_ok, str_eq_ok, pure_eq_ok,
    memoryTypeOfText_eq_some, ofText_eq_some]
  constructor
  · rintro ⟨_, htype, memoryType, rfl, _, haction, action, rfl, content, hcontent, reason, hreason,
      importance, himportance, confidence, hconfidence, rfl⟩
    exact ⟨htype, haction, by rw [hcontent]; rfl, hreason, himportance, hconfidence⟩
  · rintro ⟨htype, haction, hcontent, hreason, himportance, hconfidence⟩
    obtain ⟨content, hread, hstrip⟩ := Option.map_eq_some_iff.mp hcontent
    refine ⟨_, htype, _, rfl, _, haction, _, rfl, content, hread, _, hreason, _, himportance, _,
      hconfidence, ?_⟩
    rw [hstrip]

/-- An object that no scalars are read of raises an error that is caught, or overflows. -/
theorem readScalars_eq_error (h : readScalars py fields = .error error) :
    error.isKeyValueOrType = true ∨
      error = .overflowError ∧ Overflows py (.obj fields) fields := by
  unfold readScalars at h
  rcases bind_eq_error.mp h with hraised | ⟨typeText, htype, hrest⟩
  · exact Or.inl (fieldText_caught hraised)
  rcases bind_eq_error.mp hrest with hraised | ⟨memoryType, hmemoryType, hrest⟩
  · exact Or.inl (by rw [← (orRaise_eq_error.mp hraised).1]; rfl)
  rcases bind_eq_error.mp hrest with hraised | ⟨actionText, hactionText, hrest⟩
  · exact Or.inl (fieldText_caught hraised)
  rcases bind_eq_error.mp hrest with hraised | ⟨action, haction, hrest⟩
  · exact Or.inl (by rw [← (orRaise_eq_error.mp hraised).1]; rfl)
  rcases bind_eq_error.mp hrest with hraised | ⟨content, hcontent, hrest⟩
  · exact Or.inl (fieldText_caught hraised)
  rcases bind_eq_error.mp hrest with hraised | ⟨reason, hreason, hrest⟩
  · exact Or.inl (isKeyValueOrType_of_isValueOrType (str_caught hraised))
  have hoverflows : ∀ hhuge, Overflows py (.obj fields) fields := fun hhuge =>
    ⟨rfl, ⟨memoryType, memoryTypeOfText_eq_some.mp (orRaise_eq_ok.mp hmemoryType) ▸
        fieldText_eq_ok.mp htype⟩,
      ⟨action, ofText_eq_some.mp (orRaise_eq_ok.mp haction) ▸ fieldText_eq_ok.mp hactionText⟩,
      Option.isSome_of_eq_some (fieldText_eq_ok.mp hcontent),
      Option.isSome_of_eq_some (str_eq_ok.mp hreason), hhuge⟩
  rcases bind_eq_error.mp hrest with hraised | ⟨importance, himportance, hrest⟩
  · refine (float_eq_error hraised).imp_right ?_
    rintro ⟨rfl, hhuge⟩
    exact ⟨rfl, hoverflows (Or.inl hhuge)⟩
  rcases bind_eq_error.mp hrest with hraised | ⟨confidence, _, hrest⟩
  · refine (float_eq_error hraised).imp_right ?_
    rintro ⟨rfl, hhuge⟩
    exact ⟨rfl, hoverflows (Or.inr ⟨⟨importance, himportance⟩, hhuge⟩)⟩
  · cases hrest

theorem readScalars_overflows (h : Overflows py item fields) :
    readScalars py fields = .error .overflowError := by
  obtain ⟨_, ⟨memoryType, htype⟩, ⟨action, haction⟩, hcontent, hreason, hhuge⟩ := h
  obtain ⟨content, hcontent⟩ := Option.isSome_iff_exists.mp hcontent
  obtain ⟨reason, hreason⟩ := Option.isSome_iff_exists.mp hreason
  unfold readScalars
  rw [bind_of_ok (fieldText_eq_ok.mpr htype), bind_of_orRaise (memoryTypeOfText_eq_some.mpr rfl),
    bind_of_ok (fieldText_eq_ok.mpr haction), bind_of_orRaise (ofText_eq_some.mpr rfl),
    bind_of_ok (fieldText_eq_ok.mpr hcontent), bind_of_ok (str_eq_ok.mpr hreason)]
  rcases hhuge with hhuge | ⟨⟨importance, himportance⟩, hhuge⟩
  · rw [float_huge hhuge]
    rfl
  · rw [bind_of_ok himportance, float_huge hhuge]
    rfl

/-! ## The second `try` -/

theorem readId_eq_ok {id : Option UUID} : readId py value = .ok id ↔ NamesId py value id := by
  unfold readId NamesId
  split
  · simp only [bind_eq_ok, orRaise_eq_ok, str_eq_ok, pure_eq_ok]
    constructor
    · rintro ⟨text, htext, u, hu, hid⟩
      exact ⟨text, u, htext, hu, hid.symm⟩
    · rintro ⟨text, u, htext, hu, hid⟩
      exact ⟨text, htext, u, hu, hid.symm⟩
  · rw [pure_eq_ok]
    exact eq_comm

theorem readId_caught (h : readId py value = .error error) : error.isValueOrType = true := by
  unfold readId at h
  split at h
  · rcases bind_eq_error.mp h with h | ⟨text, _, h⟩
    · exact str_caught h
    · rcases bind_eq_error.mp h with h | ⟨id, _, h⟩
      · rw [← (orRaise_eq_error.mp h).1]
        rfl
      · cases h
  · cases h

/-- The scalars of a candidate. -/
def ExtractedCandidate.scalars (c : ExtractedCandidate) : Scalars :=
  ⟨c.memoryType, c.action, c.content, c.reason, .finite c.importance, .finite c.confidence⟩

/-- A candidate is made of its own values, and of no others. -/
theorem newCandidate_eq_ok {thingId targetId : Option UUID} :
    newCandidate s thingId targetId = .ok c ↔
      s = c.scalars ∧ thingId = c.thingId ∧ targetId = c.targetMemoryId ∧ c.sourceRefs = [] := by
  constructor
  · intro h
    unfold newCandidate at h
    split at h
    · cases h
    split at h
    · rename_i importance _ confidence _ himportance hconfidence
      split at h
      · obtain rfl := pure_eq_ok.mp h
        refine ⟨?_, rfl, rfl, rfl⟩
        unfold ExtractedCandidate.scalars
        rw [← inUnit_eq_some.mp himportance, ← inUnit_eq_some.mp hconfidence]
      · cases h
    · cases h
  · rintro ⟨rfl, rfl, rfl, hrefs⟩
    have himportance : c.scalars.importance.inUnit = some ⟨c.importance, c.importance_ok⟩ :=
      inUnit_eq_some.mpr rfl
    have hconfidence : c.scalars.confidence.inUnit = some ⟨c.confidence, c.confidence_ok⟩ :=
      inUnit_eq_some.mpr rfl
    unfold newCandidate
    rw [dif_neg (show ¬Text.strip c.scalars.content = "" from c.content_ok), himportance, hconfidence]
    dsimp only
    rw [dif_pos (show c.scalars.action.requiresTarget = true → _ from c.target_ok)]
    cases c
    cases hrefs
    rfl

theorem newCandidate_caught {thingId targetId : Option UUID}
    (h : newCandidate s thingId targetId = .error error) : error.isValueOrType = true := by
  unfold newCandidate at h
  split at h
  · rw [← Except.error.inj h]
    rfl
  split at h
  · split at h
    · cases h
    · rw [← Except.error.inj h]
      rfl
  · rw [← Except.error.inj h]
    rfl

/-- No error gets out of the second `try`. -/
theorem makeCandidate_ne_error : makeCandidate py fields s ≠ .error error := by
  intro h
  unfold makeCandidate at h
  split at h
  · cases h
  obtain ⟨hbody, hcaught⟩ := orNone_eq_error.mp h
  rw [Bool.eq_false_iff] at hcaught
  apply hcaught
  rcases bind_eq_error.mp hbody with h | ⟨thingId, _, h⟩
  · exact readId_caught h
  rcases bind_eq_error.mp h with h | ⟨targetId, _, h⟩
  · exact readId_caught h
  rcases bind_eq_error.mp h with h | ⟨candidate, _, h⟩
  · exact newCandidate_caught h
  · cases h

theorem makeCandidate_eq_some : makeCandidate py fields s = .ok (some c) ↔
    s = c.scalars ∧ NamesId py ((fields.get "thing_id").getD .null) c.thingId ∧
      NamesId py ((fields.get "target_memory_id").getD .null) c.targetMemoryId ∧
      c.sourceRefs = [] := by
  have hbody : (do
      let thingId ← readId py ((fields.get "thing_id").getD .null)
      let targetId ← readId py ((fields.get "target_memory_id").getD .null)
      let candidate ← newCandidate s thingId targetId
      return some candidate : Except ExtractorError (Option ExtractedCandidate)) = .ok (some c) ↔
      s = c.scalars ∧ NamesId py ((fields.get "thing_id").getD .null) c.thingId ∧
        NamesId py ((fields.get "target_memory_id").getD .null) c.targetMemoryId ∧
        c.sourceRefs = [] := by
    simp only [bind_eq_ok, readId_eq_ok, newCandidate_eq_ok, pure_eq_ok, Option.some.injEq]
    constructor
    · rintro ⟨_, hthing, _, htarget, _, ⟨hs, rfl, rfl, hrefs⟩, rfl⟩
      exact ⟨hs, hthing, htarget, hrefs⟩
    · rintro ⟨hs, hthing, htarget, hrefs⟩
      exact ⟨_, hthing, _, htarget, c, ⟨hs, rfl, rfl, hrefs⟩, rfl⟩
  unfold makeCandidate
  split
  · rename_i hout
    refine ⟨fun hnone => (by cases hnone), ?_⟩
    rintro ⟨rfl, _⟩
    exfalso
    rcases hout with hcontent | himportance | hconfidence
    · apply c.content_ok
      rw [show c.content = "" from hcontent]
      rfl
    · rw [show c.scalars.importance.inUnit = some ⟨c.importance, c.importance_ok⟩ from
        inUnit_eq_some.mpr rfl] at himportance
      cases himportance
    · rw [show c.scalars.confidence.inUnit = some ⟨c.confidence, c.confidence_ok⟩ from
        inUnit_eq_some.mpr rfl] at hconfidence
      cases hconfidence
  · rw [orNone_eq_some]
    exact hbody

/-! ## An item -/

theorem parseCandidate_eq_some :
    parseCandidate py item = .ok (some c) ↔ ∃ fields, Proposes py item c fields := by
  cases item with
  | obj fields =>
    have hscalars : ∀ s, Reads py fields s ∧ makeCandidate py fields s = .ok (some c) ↔
        s = c.scalars ∧ Proposes py (.obj fields) c fields := by
      intro s
      rw [makeCandidate_eq_some]
      constructor
      · rintro ⟨⟨htype, haction, hcontent, hreason, himportance, hconfidence⟩, rfl, hthing, htarget,
          hrefs⟩
        exact ⟨rfl, rfl, htype, haction, hcontent, hreason, himportance, hconfidence, hthing, htarget,
          hrefs⟩
      · rintro ⟨rfl, _, htype, haction, hcontent, hreason, himportance, hconfidence, hthing, htarget,
          hrefs⟩
        exact ⟨⟨htype, haction, hcontent, hreason, himportance, hconfidence⟩, rfl, hthing, htarget,
          hrefs⟩
    have hmade : parseCandidate py (.obj fields) = .ok (some c) ↔
        ∃ s, Reads py fields s ∧ makeCandidate py fields s = .ok (some c) := by
      unfold parseCandidate
      rw [bind_eq_ok]
      constructor
      · rintro ⟨scalars, hread, h⟩
        cases scalars with
        | none => cases h
        | some s =>
          have hread := orNone_eq_some.mp hread
          cases hs : readScalars py fields with
          | ok s' =>
            rw [hs] at hread
            obtain rfl : s' = s := Option.some.inj (Except.ok.inj hread)
            exact ⟨s', readScalars_eq_ok.mp hs, h⟩
          | error error =>
            rw [hs] at hread
            cases hread
      · rintro ⟨s, hreads, h⟩
        refine ⟨some s, orNone_eq_some.mpr ?_, h⟩
        rw [readScalars_eq_ok.mpr hreads]
        rfl
    rw [hmade]
    constructor
    · rintro ⟨s, hs⟩
      exact ⟨fields, ((hscalars s).mp hs).2⟩
    · rintro ⟨fields', hproposes⟩
      obtain rfl : fields = fields' := Json.obj.inj hproposes.isObject
      exact ⟨c.scalars, (hscalars _).mpr ⟨rfl, hproposes⟩⟩
  | null | bool _ | num _ | str _ | arr _ =>
    refine ⟨nofun, ?_⟩
    rintro ⟨fields, hproposes⟩
    cases hproposes.isObject

/-- The one error that gets out of an item. -/
theorem parseCandidate_eq_error : parseCandidate py item = .error error ↔
    error = .overflowError ∧ ∃ fields, Overflows py item fields := by
  cases item with
  | obj fields =>
    constructor
    · intro h
      rcases bind_eq_error.mp h with hread | ⟨scalars, _, h⟩
      · obtain ⟨hmap, hcaught⟩ := orNone_eq_error.mp hread
        cases hs : readScalars py fields with
        | ok s =>
          rw [hs] at hmap
          cases hmap
        | error raised =>
          rw [hs] at hmap
          obtain rfl : raised = error := Except.error.inj hmap
          rcases readScalars_eq_error hs with hkey | ⟨rfl, hoverflows⟩
          · rw [hkey] at hcaught
            cases hcaught
          · exact ⟨rfl, fields, hoverflows⟩
      · cases scalars with
        | none => cases h
        | some s => exact absurd h makeCandidate_ne_error
    · rintro ⟨rfl, fields', hoverflows⟩
      obtain rfl : fields = fields' := Json.obj.inj hoverflows.isObject
      unfold parseCandidate
      dsimp only
      rw [readScalars_overflows hoverflows]
      rfl
  | null | bool _ | num _ | str _ | arr _ =>
    refine ⟨nofun, ?_⟩
    rintro ⟨_, fields, hoverflows⟩
    cases hoverflows.isObject

/-! ## The list -/

/-- Where no item overflows, the candidates are those of the valid items. -/
theorem parseItems_valid {items : List Json}
    (h : ∀ item ∈ items, ∀ fields, ¬ Overflows py item fields) :
    ∃ cs, parseItems py items = .ok cs ∧ ValidItems py items cs := by
  induction items with
  | nil => exact ⟨[], rfl, .nil⟩
  | cons item items ih =>
    obtain ⟨cs, hcs, hvalid⟩ := ih fun item hitem => h item (List.mem_cons_of_mem _ hitem)
    cases hparsed : parseCandidate py item with
    | error error =>
      obtain ⟨_, fields, hoverflows⟩ := parseCandidate_eq_error.mp hparsed
      exact absurd hoverflows (h item List.mem_cons_self fields)
    | ok candidate =>
      have hitems : parseItems py (item :: items) = .ok (candidate.toList ++ cs) := by
        unfold parseItems
        rw [bind_of_ok hparsed, bind_of_ok hcs]
        rfl
      cases candidate with
      | some c =>
        obtain ⟨fields, hproposes⟩ := parseCandidate_eq_some.mp hparsed
        exact ⟨_, hitems, .valid hproposes hvalid⟩
      | none =>
        refine ⟨_, hitems, .malformed (fun c fields hproposes => ?_) hvalid⟩
        rw [parseCandidate_eq_some.mpr ⟨fields, hproposes⟩] at hparsed
        cases hparsed

/-- An item that overflows leaves nothing of the list. -/
theorem parseItems_overflows {items : List Json}
    (h : ∃ item ∈ items, ∃ fields, Overflows py item fields) :
    parseItems py items = .error .overflowError := by
  induction items with
  | nil =>
    obtain ⟨item, hitem, _⟩ := h
    cases hitem
  | cons item items ih =>
    unfold parseItems
    cases hparsed : parseCandidate py item with
    | error error =>
      obtain ⟨rfl, _⟩ := parseCandidate_eq_error.mp hparsed
      rfl
    | ok candidate =>
      obtain ⟨other, hother, fields, hoverflows⟩ := h
      rcases List.mem_cons.mp hother with rfl | hother
      · rw [parseCandidate_eq_error.mpr ⟨rfl, fields, hoverflows⟩] at hparsed
        cases hparsed
      · rw [bind_of_ok rfl, ih ⟨other, hother, fields, hoverflows⟩]
        rfl

/-- An item that is valid for any number between 0 and 1. -/
def oneFact (importance : ℚ) : Json :=
  .obj [("action", .str "CREATE"), ("content", .str "Tea in the morning."),
    ("importance", .num importance), ("memory_type", .str "PROFILE")]

def plainReader : Interpreter := ⟨fun _ => none, fun _ => none⟩

/-- Half as important as can be. -/
def teaFact : ExtractedCandidate where
  memoryType := .profile
  content := "Tea in the morning."
  action := .create
  importance := 1 / 2
  content_ok := by decide +kernel
  importance_ok := by decide +kernel
  confidence_ok := by decide +kernel
  target_ok := nofun

theorem teaFact_proposed : ∃ fields, Proposes plainReader (oneFact (1 / 2)) teaFact fields :=
  ⟨_, rfl, rfl, rfl, by decide +kernel, rfl, float_of_lt (by decide +kernel),
    float_of_lt (by decide +kernel), rfl, rfl, rfl⟩

theorem oneFact_overflows : ∃ fields, Overflows plainReader (oneFact (10 ^ 400)) fields :=
  ⟨_, rfl, ⟨.profile, rfl⟩, ⟨.create, rfl⟩, rfl, rfl, Or.inl ⟨_, rfl, by decide +kernel⟩⟩

end Memories
