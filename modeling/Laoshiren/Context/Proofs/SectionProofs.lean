import Laoshiren.Context.Sections

/-!
# Proofs: whether a section fits its budget

Taking fields and items away makes the text of a section shorter. So the trimmed payload of a Thing fits
where the smallest one does that the trimming can come to; and the trimmed overview fits where no section
is too much by its name alone, after all the sections before it.
-/

namespace Context

variable {py : Interpreter} {budget : ℕ}

/-! ## The active Thing -/

/-- A field with half of its items, as the trimming leaves it. -/
def halved (field : String × Json) : String × Json :=
  match field.2 with
  | .arr (item :: items) =>
    (field.1, .arr ((item :: items).take (max 1 ((item :: items).length / 2))))
  | _ => field

/-- The fields, with half of the items under some keys. -/
def halvedAt (keys : List String) (data : List (String × Json)) : List (String × Json) :=
  data.map fun field => if field.1 ∈ keys then halved field else field

/-- The least that the trimming leaves of a payload: no blockers and primary dates, and half of the open
tasks and candidates. -/
def core (data : List (String × Json)) : List (String × Json) :=
  (halvedAt ["open_tasks", "candidates"] data).filter fun field =>
    field.1 ∉ ["blockers", "primary_dates"]

theorem halved_fst (field : String × Json) : (halved field).1 = field.1 := by
  unfold halved
  split <;> rfl

theorem size_halved_le (field : String × Json) :
    Json.size py.num (halved field).2 ≤ Json.size py.num field.2 := by
  unfold halved
  split
  · rename_i item items hvalue
    rw [hvalue]
    exact Json.size_arr_le (List.take_sublist _ _)
  · exact le_rfl

/-- The fields under other keys are as they were. -/
theorem get_halvedAt {keys : List String} {key : String} (hkey : key ∉ keys)
    (data : List (String × Json)) : Dict.get (halvedAt keys data) key = Dict.get data key := by
  unfold Dict.get halvedAt
  induction data with
  | nil => rfl
  | cons field data ih =>
    rw [List.map_cons, List.lookup_cons, List.lookup_cons, ih]
    by_cases hfield : field.1 ∈ keys
    · have hne : (key == field.1) = false := beq_false_of_ne fun h => hkey (h ▸ hfield)
      rw [if_pos hfield, halved_fst, hne]
    · rw [if_neg hfield]

/-- The value of a key is the one of its field. -/
theorem value_of_get {data : List (String × Json)} {key : String} {value : Json}
    (hkeys : (data.map Prod.fst).Nodup) (hget : Dict.get data key = some value)
    {field : String × Json} (hfield : field ∈ data) (hkey : field.1 = key) : field.2 = value := by
  obtain ⟨before, after, hsplit, hbefore⟩ := List.lookup_eq_some_iff.mp hget
  have hmem : (key, value) ∈ data := by
    rw [hsplit]
    simp
  have hsame : field = (key, value) := List.inj_on_of_nodup_map hkeys hfield hmem hkey
  rw [hsame]

/-- One round of the first loop: the items under one more key are halved. -/
theorem halvedAt_append {done : List String} {key : String} {data : List (String × Json)}
    {item : Json} {items : List Json} (hkeys : (data.map Prod.fst).Nodup) (hdone : key ∉ done)
    (hget : Dict.get data key = some (.arr (item :: items))) :
    assign (halvedAt done data) key
        (.arr ((item :: items).take (max 1 ((item :: items).length / 2)))) =
      halvedAt (done ++ [key]) data := by
  unfold assign halvedAt
  rw [List.map_map]
  refine List.map_congr_left fun field hfield => ?_
  by_cases hkey : field.1 = key
  · have hvalue := value_of_get hkeys hget hfield hkey
    have hnot : field.1 ∉ done := hkey ▸ hdone
    have hhalved : halved field =
        (key, .arr ((item :: items).take (max 1 ((item :: items).length / 2)))) := by
      unfold halved
      rw [hvalue, hkey]
    have hin : field.1 ∈ done ++ [key] := by simp [hkey]
    show (if (if field.1 ∈ done then halved field else field).1 = key then _ else _) = _
    rw [if_neg hnot, if_pos hkey, if_pos hin, hhalved]
  · by_cases hmem : field.1 ∈ done
    · simp [hmem, hkey, halved_fst]
    · simp [hmem, hkey]

/-- A round that halves nothing. -/
theorem halvedAt_append_of_get {done : List String} {key : String} {data : List (String × Json)}
    (hkeys : (data.map Prod.fst).Nodup)
    (hget : ∀ item items, Dict.get data key ≠ some (.arr (item :: items))) :
    halvedAt (done ++ [key]) data = halvedAt done data := by
  unfold halvedAt
  refine List.map_congr_left fun field hfield => ?_
  by_cases hkey : field.1 = key
  · have hself : halved field = field := by
      unfold halved
      split
      · rename_i item items hvalue
        have hlookup : Dict.get data key = some field.2 := by
          cases hget' : Dict.get data key with
          | none =>
            have hnone := List.lookup_eq_none_iff.mp hget' field hfield
            simp [hkey] at hnone
          | some value => rw [value_of_get hkeys hget' hfield hkey]
        exact absurd (hlookup.trans (congrArg some hvalue)) (hget item items)
      · rfl
    simp [hself]
  · simp [hkey]

variable (py budget) in
/-- The first loop stops at fields that fit, or halves the items under all keys. -/
theorem halveLists_spec {data : List (String × Json)} (hkeys : (data.map Prod.fst).Nodup)
    (done keys : List String) (hnodup : (done ++ keys).Nodup) :
    ((halveLists py budget keys (halvedAt done data)).1 = true ∧
      py.cost (halveLists py budget keys (halvedAt done data)).2 ≤ budget ∧
      ∃ some_ ⊆ done ++ keys,
        (halveLists py budget keys (halvedAt done data)).2 = halvedAt some_ data) ∨
    ((halveLists py budget keys (halvedAt done data)).1 = false ∧
      (halveLists py budget keys (halvedAt done data)).2 = halvedAt (done ++ keys) data) := by
  induction keys generalizing done with
  | nil => exact Or.inr ⟨rfl, by rw [List.append_nil]; rfl⟩
  | cons key keys ih =>
    have hdone : key ∉ done := fun hmem =>
      (List.nodup_append.mp hnodup).2.2 key hmem key List.mem_cons_self rfl
    have hnodup' : ((done ++ [key]) ++ keys).Nodup := by
      rw [List.append_assoc]
      exact hnodup
    have hnext := ih _ hnodup'
    rw [List.append_assoc, List.singleton_append] at hnext
    unfold halveLists
    rw [get_halvedAt hdone]
    split
    · rename_i item items hget
      dsimp only
      rw [halvedAt_append hkeys hdone hget]
      split
      · rename_i hfits
        exact Or.inl ⟨rfl, hfits, done ++ [key], by simp, rfl⟩
      · exact hnext
    · rename_i hget
      rw [halvedAt_append_of_get hkeys fun item items h => hget item items h] at hnext
      exact hnext

variable (py) in
/-- The core of a payload is no longer than the payload with half of the items under some of the keys. -/
theorem cost_core_le {keys : List String} (data : List (String × Json))
    (hkeys : keys ⊆ ["blockers", "primary_dates", "open_tasks", "candidates"]) :
    py.cost (core data) ≤ py.cost (halvedAt keys data) := by
  refine Json.size_obj_le ?_
  unfold core halvedAt
  induction data with
  | nil => exact .nil
  | cons field data ih =>
    rw [List.map_cons, List.map_cons, List.filter_cons]
    have hfst : ∀ keys : List String, (if field.1 ∈ keys then halved field else field).1 = field.1 := by
      intro keys
      split
      · exact halved_fst field
      · rfl
    by_cases hdrop : field.1 ∈ ["blockers", "primary_dates"]
    · rw [if_neg (by rw [hfst]; exact fun h => of_decide_eq_true h hdrop)]
      exact .cons_right ih
    · rw [if_pos (by rw [hfst]; exact decide_eq_true hdrop)]
      refine .cons ⟨(hfst _).trans (hfst _).symm, ?_⟩ ih
      by_cases hhalf : field.1 ∈ ["open_tasks", "candidates"]
      · rw [if_pos hhalf]
        split
        · exact le_rfl
        · exact size_halved_le field
      · have hnot : field.1 ∉ keys := by
          intro hmem
          have hfour := hkeys hmem
          simp only [List.mem_cons, List.not_mem_nil, or_false] at hfour hhalf hdrop
          tauto
        rw [if_neg hhalf, if_neg hnot]

/-- The core of a payload is what is left of it with half of the items under all four keys. -/
theorem core_eq (data : List (String × Json)) :
    (halvedAt ["blockers", "primary_dates", "open_tasks", "candidates"] data).filter
        (fun field => field.1 ∉ ["blockers", "primary_dates"]) = core data := by
  unfold core halvedAt
  rw [List.filter_map, List.filter_map]
  have hfilter : ∀ keys : List String,
      data.filter ((fun field : String × Json => decide (field.1 ∉ ["blockers", "primary_dates"])) ∘
        fun field => if field.1 ∈ keys then halved field else field) =
      data.filter fun field => decide (field.1 ∉ ["blockers", "primary_dates"]) := by
    intro keys
    refine List.filter_congr fun field _ => ?_
    show decide ((if field.1 ∈ keys then halved field else field).1 ∉ _) = _
    split
    · rw [halved_fst]
    · rfl
  rw [hfilter, hfilter]
  refine List.map_congr_left fun field hfield => ?_
  have hnot : field.1 ∉ ["blockers", "primary_dates"] := of_decide_eq_true (List.mem_filter.mp hfield).2
  simp only [List.mem_cons, List.not_mem_nil, or_false, not_or] at hnot
  simp [hnot.1, hnot.2]

/-- The trimmed payload fits exactly if its core does. -/
theorem trimJsonDict_fits_iff (data : Payload) (hempty : py.cost [] ≤ budget) :
    py.cost (trimJsonDict py data.fields budget) ≤ budget ↔ py.cost (core data.fields) ≤ budget := by
  have hself : halvedAt [] data.fields = data.fields := by
    unfold halvedAt
    simp
  have hcore := cost_core_le py data.fields (List.nil_subset _)
  rw [hself] at hcore
  unfold trimJsonDict
  split
  · rename_i hnil
    rw [hnil]
    exact iff_of_true hempty hempty
  split
  · rename_i hfits
    exact iff_of_true hfits (hcore.trans hfits)
  have hspec := halveLists_spec py budget data.keys []
    ["blockers", "primary_dates", "open_tasks", "candidates"] (by decide)
  rw [hself, List.nil_append] at hspec
  rcases hspec with ⟨hstops, hfits, keys, hkeys, hreduced⟩ | ⟨hgoes, hreduced⟩
  · split
    · rename_i reduced hresult
      rw [hresult] at hfits hreduced
      refine iff_of_true hfits (le_trans ?_ hfits)
      rw [hreduced]
      exact cost_core_le py data.fields hkeys
    · rename_i reduced hresult
      rw [hresult] at hstops
      cases hstops
  · split
    · rename_i reduced hresult
      rw [hresult] at hgoes
      cases hgoes
    · rename_i reduced hresult
      rw [hresult] at hreduced
      dsimp only at hreduced
      rw [hreduced, core_eq]

/-! ## The overview -/

/-- No section of an overview is too much by its name alone: where the sections before it fit, they fit
with its name. -/
def NamesFit (py : Interpreter) (budget : ℕ) (result sections : List Section) : Prop :=
  ∀ before name items after, sections = before ++ (name, items) :: after →
    py.cost (fieldsOf (result ++ before)) ≤ budget →
      py.cost (fieldsOf (result ++ before ++ [(name, [])])) ≤ budget

theorem cost_append_le (result sections : List Section) :
    py.cost (fieldsOf result) ≤ py.cost (fieldsOf (result ++ sections)) := by
  refine Json.size_obj_le ?_
  unfold fieldsOf
  rw [List.map_append]
  induction result with
  | nil => exact .nil
  | cons s result ih => exact .cons ⟨rfl, le_rfl⟩ ih

theorem cost_section_le (result after : List Section) (name : String) {kept items : List Json}
    (h : kept <+: items) :
    py.cost (fieldsOf (result ++ [(name, kept)])) ≤
      py.cost (fieldsOf (result ++ (name, items) :: after)) := by
  refine Json.size_obj_le ?_
  unfold fieldsOf
  rw [List.map_append, List.map_append]
  induction result with
  | nil => exact .cons ⟨rfl, Json.size_arr_le h.sublist⟩ .nil
  | cons s result ih => exact .cons ⟨rfl, le_rfl⟩ ih

/-- The inner loop keeps the first items of a section. It stops at one with which the overview does not
fit, and what it keeps fits unless it is nothing. -/
theorem trimSection_spec (result : List Section) (name : String) (kept items : List Json) :
    ∃ taken rest, items = taken ++ rest ∧
      (trimSection py budget result name kept items).2 = result ++ [(name, kept ++ taken)] ∧
      (taken = [] ∨ py.cost (fieldsOf (result ++ [(name, kept ++ taken)])) ≤ budget) ∧
      ((trimSection py budget result name kept items).1 = true ∧ rest = [] ∨
        (trimSection py budget result name kept items).1 = false ∧ ∃ item left, rest = item :: left ∧
          budget < py.cost (fieldsOf (result ++ [(name, kept ++ taken ++ [item])]))) := by
  induction items generalizing kept with
  | nil =>
    refine ⟨[], [], rfl, ?_, Or.inl rfl, Or.inl ⟨rfl, rfl⟩⟩
    rw [List.append_nil]
    rfl
  | cons item items ih =>
    unfold trimSection
    by_cases hexceeds : py.cost (fieldsOf (result ++ [(name, kept ++ [item])])) > budget
    · rw [if_pos hexceeds]
      refine ⟨[], item :: items, rfl, ?_, Or.inl rfl, Or.inr ⟨rfl, item, items, rfl, ?_⟩⟩
      · rw [List.append_nil]
      · rw [List.append_nil]
        exact hexceeds
    · rw [if_neg hexceeds]
      obtain ⟨taken, rest, rfl, hresult, hfits, hrest⟩ := ih (kept ++ [item])
      refine ⟨item :: taken, rest, rfl, ?_, Or.inr ?_, ?_⟩
      · rw [hresult, List.append_assoc, List.singleton_append]
      · rcases hfits with rfl | hfits
        · exact not_lt.mp hexceeds
        · rw [List.append_assoc, List.singleton_append] at hfits
          exact hfits
      · rw [List.append_assoc, List.singleton_append] at hrest
        exact hrest

/-- The outer loop keeps what it has. -/
theorem cost_le_trimSections (result sections : List Section) :
    py.cost (fieldsOf result) ≤ py.cost (fieldsOf (trimSections py budget result sections)) := by
  induction sections generalizing result with
  | nil => exact le_rfl
  | cons s sections ih =>
    obtain ⟨name, items⟩ := s
    obtain ⟨taken, _, _, hresult, _⟩ := trimSection_spec result name []
      items
    have hle : py.cost (fieldsOf result) ≤
        py.cost (fieldsOf (trimSection py budget result name [] items).2) := by
      rw [hresult]
      exact cost_append_le result _
    unfold trimSections
    split
    · rename_i result' hsection
      rw [hsection] at hle
      exact hle.trans (ih result')
    · rename_i result' hsection
      rw [hsection] at hle
      exact hle

/-- From an overview that fits, the outer loop comes to one that fits exactly if no section is too much
by its name alone. -/
theorem trimSections_fits_iff {result : List Section} (sections : List Section)
    (hfits : py.cost (fieldsOf result) ≤ budget) :
    py.cost (fieldsOf (trimSections py budget result sections)) ≤ budget ↔
      NamesFit py budget result sections := by
  induction sections generalizing result with
  | nil =>
    refine iff_of_true hfits fun before name items after hsplit => ?_
    exact absurd hsplit (by simp)
  | cons s sections ih =>
    obtain ⟨name, items⟩ := s
    obtain ⟨taken, rest, rfl, hresult, htaken, hrest⟩ :=
      trimSection_spec result name [] items
    rw [List.nil_append] at hresult htaken
    -- the name of the section is the first thing that has to fit
    have hname : NamesFit py budget result ((name, taken ++ rest) :: sections) →
        py.cost (fieldsOf (result ++ [(name, [])])) ≤ budget := fun h => by
      have hfirst := h [] name (taken ++ rest) sections rfl
      rw [List.append_nil] at hfirst
      exact hfirst hfits
    have hnil : py.cost (fieldsOf (result ++ [(name, [])])) ≤
        py.cost (fieldsOf (result ++ [(name, taken)])) :=
      cost_section_le result [] name List.nil_prefix
    unfold trimSections
    rcases hrest with ⟨hthrough, rfl⟩ | ⟨hstops, item, left, rfl, hexceeds⟩
    · rw [List.append_nil] at hthrough hresult hname ⊢
      split
      · rename_i result' hsection
        rw [hsection] at hresult
        obtain rfl : result' = result ++ [(name, taken)] := hresult
        by_cases hfits' : py.cost (fieldsOf (result ++ [(name, taken)])) ≤ budget
        · rw [ih hfits']
          constructor
          · intro h before name' items' after hsplit hbefore
            cases before with
            | nil =>
              obtain ⟨hsection', rfl⟩ := List.cons.inj hsplit
              obtain ⟨rfl, rfl⟩ := Prod.mk.inj hsection'
              rw [List.append_nil]
              exact hnil.trans hfits'
            | cons first before =>
              obtain ⟨rfl, hsections⟩ := List.cons.inj hsplit
              have hnext := h before name' items' after hsections
              rw [List.append_assoc result, List.singleton_append] at hnext
              exact hnext hbefore
          · intro h before name' items' after hsplit hbefore
            have hnext := h ((name, taken) :: before) name' items' after (by rw [hsplit]; rfl)
            rw [List.append_assoc result, List.singleton_append] at hbefore ⊢
            exact hnext hbefore
        · refine iff_of_false (fun h => hfits' ((cost_le_trimSections _ _).trans h)) fun h => ?_
          rcases htaken with rfl | hle
          · exact hfits' (hname h)
          · exact hfits' hle
      · rename_i result' hsection
        rw [hsection] at hthrough
        cases hthrough
    · split
      · rename_i result' hsection
        rw [hsection] at hstops
        cases hstops
      · rename_i result' hsection
        rw [hsection] at hresult
        obtain rfl : result' = result ++ [(name, taken)] := hresult
        rw [List.nil_append] at hexceeds
        have hlater : ∀ before,
            ¬ py.cost (fieldsOf (result ++ (name, taken ++ item :: left) :: before)) ≤ budget := by
          intro before hle
          have hprefix : taken ++ [item] <+: taken ++ item :: left :=
            ⟨left, by rw [List.append_assoc, List.singleton_append]⟩
          have hmore := (cost_section_le result before name hprefix).trans hle
          omega
        constructor
        · intro h before name' items' after hsplit hbefore
          cases before with
          | nil =>
            obtain ⟨hsection', rfl⟩ := List.cons.inj hsplit
            obtain ⟨rfl, rfl⟩ := Prod.mk.inj hsection'
            rw [List.append_nil]
            exact hnil.trans h
          | cons first before =>
            obtain ⟨rfl, _⟩ := List.cons.inj hsplit
            exact absurd hbefore (hlater before)
        · intro h
          rcases htaken with rfl | hle
          · exact hname h
          · exact hle

/-- The trimmed overview fits exactly if no section is too much by its name alone. -/
theorem trimOverview_fits_iff (data : List Section) (hempty : py.cost [] ≤ budget) :
    py.cost (fieldsOf (trimOverview py data budget)) ≤ budget ↔ NamesFit py budget [] data := by
  unfold trimOverview
  split
  · rename_i hnil
    rw [hnil]
    refine iff_of_true hempty fun before name items after hsplit => ?_
    exact absurd hsplit (by simp)
  split
  · rename_i hfits
    refine iff_of_true hfits fun before name items after hsplit _ => ?_
    rw [hsplit] at hfits
    exact (cost_section_le before after name List.nil_prefix).trans hfits
  · exact trimSections_fits_iff data hempty

/-! ## The budgets -/

/-- The text of an empty object is no longer than that of any other. -/
theorem cost_nil_le (fields : List (String × Json)) : py.cost [] ≤ py.cost fields :=
  Json.size_obj_le .nil

/-- The trimmed payload of a Thing keeps to its budget exactly if the payload without its blockers and
primary dates and with half of its open tasks and candidates does. The trimmed overview keeps to its
budget exactly if no section is too much by its name alone, after the whole sections before it. -/
theorem sections_fit_iff (py : Interpreter) (budget : ℕ) :
    (∀ data : Payload, py.cost [] ≤ budget →
      (py.cost (trimJsonDict py data.fields budget) ≤ budget ↔ py.cost (core data.fields) ≤ budget)) ∧
    ∀ overview : StateOverview, py.cost (fieldsOf (overviewToPromptData py {})) ≤ budget →
      (py.cost (fieldsOf (trimOverview py (overviewToPromptData py overview) budget)) ≤ budget ↔
        NamesFit py budget [] (overviewToPromptData py overview)) :=
  ⟨fun data hempty => trimJsonDict_fits_iff data hempty,
    fun overview hskeleton =>
      trimOverview_fits_iff (overviewToPromptData py overview) ((cost_nil_le _).trans hskeleton)⟩

/-- An interpreter that prints whole numbers, at one point in time. -/
def september : Interpreter where
  builtins := ⟨fun _ => none, fun _ => ""⟩
  num q := q.num.repr.toList
  isoformat _ := "2026-09-01T08:00:00+00:00"

/-- A Thing without tasks, blockers and dates. -/
def bareThing : Payload where
  fields :=
    [("match_status", .str "resolved"), ("match_reason", .str "active_thread"),
      ("thing", .obj [("name", .str "搬家"), ("status", .str "ACTIVE"), ("version", .num 1)]),
      ("open_tasks", .arr []), ("blockers", .arr []), ("primary_dates", .arr [])]

/-- An overview with one deadline. -/
def oneDeadline : StateOverview := { upcoming := [⟨"搬家", 0, 2⟩] }

/-- A payload that has nothing to trim is left as it is, and an overview that fills its budget with its
first section gets the names of the others besides. -/
theorem sections_exceed :
    september.cost (trimJsonDict september bareThing.fields 60) = 138 ∧
    september.cost (fieldsOf (overviewToPromptData september {})) ≤ 88 ∧
    september.cost (fieldsOf (trimOverview september (overviewToPromptData september oneDeadline) 88))
      = 131 := by
  refine ⟨by decide +kernel, by decide +kernel, by decide +kernel⟩

end Context
