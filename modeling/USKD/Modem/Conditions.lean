import USKD.Modem.Config

/-!
# The conditions of a configuration

The answer of the server to `api/config/get`: a list of configurations, each of which has up to
three conditions.  A condition is `null` or an object with the members `max`, `min` and `deviation`.
`Answer` is such an answer with one condition picked out, the first one of its name; `Answer.text`
is its compact JSON.

* The search for a name passes by everything that stands in front of the condition
  (`absent_before`): other names, strings, numbers, objects.
* `parseConfigField_of_limits` says what is stored once `max` has been found in an object.  If it is
  the object of the condition, these are its members as `unsigned int`.
* If the condition is `null`, the search goes on behind it, and stops at the next object
  (`leads_behind_condition`).
* `parsed_iff` says for which answers `ParseConfigField` does what it is for.
-/

namespace USKD

open KeySearch USKD.Parser

/-- The members of the object of a condition. -/
structure Limits where
  max : Option ℤ
  min : Option ℤ
  deviation : Option ℤ

/-- The names of conditions. -/
inductive ConditionName
  | temperatureCondition
  | humidityCondition
  | externalTemperatureCondition

/-- A member of a configuration. -/
inductive Member
  | id (value : ℤ)
  | name (value : Str)
  | reportTime (value : Option ℤ)
  | checkTime (value : Option ℤ)
  | condition (name : ConditionName) (value : Option Limits)

/-- The letters of the name. -/
def ConditionName.letters : ConditionName → List UInt8
  | .temperatureCondition => ascii "temperatureCondition"
  | .humidityCondition => ascii "humidityCondition"
  | .externalTemperatureCondition => ascii "externalTemperatureCondition"

/-- A number, or `null`. -/
def scalar : Option ℤ → List UInt8
  | none => ascii "null"
  | some z => integer z

/-- What is written of an object behind `"deviation":`, with the text behind it. -/
def Limits.last (l : Limits) (rest : List UInt8) : List UInt8 := scalar l.deviation ++ 0x7D :: rest

/-- What is written of it behind `"min":`. -/
def Limits.middle (l : Limits) (rest : List UInt8) : List UInt8 :=
  scalar l.min ++ comma :: (key (ascii "deviation") ++ l.last rest)

/-- What is written of it behind `"max":`. -/
def Limits.front (l : Limits) (rest : List UInt8) : List UInt8 :=
  scalar l.max ++ comma :: (key (ascii "min") ++ l.middle rest)

/-- An object in a text. -/
def Limits.text (l : Limits) : List UInt8 := 0x7B :: (key (ascii "max") ++ l.front [])

namespace Member

/-- The letters of the name of a member. -/
def letters : Member → List UInt8
  | id _ => ascii "id"
  | name _ => ascii "name"
  | reportTime _ => ascii "reportTime"
  | checkTime _ => ascii "checkTime"
  | condition key _ => key.letters

/-- The value of a member in a text. -/
def value : Member → List UInt8
  | id z => integer z
  | name s => s.text
  | reportTime v => scalar v
  | checkTime v => scalar v
  | condition _ none => ascii "null"
  | condition _ (some l) => l.text

/-- A member in a text. -/
def text (m : Member) : List UInt8 := key m.letters ++ m.value

/-- The value is an object. -/
def isObject : Member → Bool
  | condition _ (some _) => true
  | _ => false

end Member

/-- A configuration in a text. -/
def configText (config : List Member) : List UInt8 := 0x7B :: listed 0x7D (config.map Member.text)

example : configText [.id 1, .name (.ofPlain (ascii "Long") (by decide)), .reportTime none,
      .condition .humidityCondition (some ⟨some 80, some (-10), none⟩)] =
    ascii "\x7b\"id\":1,\"name\":\"Long\",\"reportTime\":null," ++
      ascii "\"humidityCondition\":\x7b\"max\":80,\"min\":-10,\"deviation\":null\x7d\x7d" := by
  decide +kernel

/-- The members of an object with integers. -/
def ConfigField.limits (o : ConfigField) : Limits := ⟨some o.max, some o.min, some o.deviation⟩

/-- The integers are `int`s. -/
def ConfigField.Fits (o : ConfigField) : Prop :=
  (-2 ^ 31 ≤ o.max ∧ o.max < 2 ^ 31) ∧ (-2 ^ 31 ≤ o.min ∧ o.min < 2 ^ 31) ∧
    (-2 ^ 31 ≤ o.deviation ∧ o.deviation < 2 ^ 31)

/-- **An answer with a condition**, the first one of its name: the configurations in front of the
one it belongs to, the members in front of it, and what follows. -/
structure Answer where
  status : Str
  before : List (List Member)
  front : List Member
  name : ConditionName
  value : Option ConfigField
  back : List Member
  behind : List (List Member)
  first : ∀ m ∈ before.flatten ++ front, m.letters ≠ name.letters
  fits : ∀ o ∈ value, o.Fits

namespace Answer

/-- The condition. -/
def condition (a : Answer) : Member := .condition a.name (a.value.map ConfigField.limits)

/-- All configurations. -/
def configs (a : Answer) : List (List Member) :=
  a.before ++ (a.front ++ a.condition :: a.back) :: a.behind

/-- **The text of the answer.** -/
def text (a : Answer) : List UInt8 :=
  0x7B :: (key (ascii "status") ++ (a.status.text ++ comma ::
    (key (ascii "configs") ++ 0x5B :: (listed 0x5D (a.configs.map configText) ++ [0x7D]))))

/-- The text in front of the condition. -/
def beforeText (a : Answer) : List UInt8 :=
  [0x7B] ++ (key (ascii "status") ++ ((a.status.text ++ [comma]) ++
    (key (ascii "configs") ++ ([0x5B] ++
      ((a.before.map configText).flatMap (· ++ [comma]) ++
        ([0x7B] ++ (a.front.map Member.text).flatMap (· ++ [comma])))))))

/-- The text behind the condition. -/
def behindText (a : Answer) : List UInt8 :=
  KeySearch.behind 0x7D (a.back.map Member.text) ++
    (KeySearch.behind 0x5D (a.behind.map configText) ++ [0x7D])

theorem text_eq (a : Answer) : a.text = a.beforeText ++ (a.condition.text ++ a.behindText) := by
  have hconfig : configText (a.front ++ a.condition :: a.back) =
      [0x7B] ++ ((a.front.map Member.text).flatMap (· ++ [comma]) ++
        (a.condition.text ++ KeySearch.behind 0x7D (a.back.map Member.text))) := by
    rw [configText, List.map_append, List.map_cons, listed_append]
    rfl
  have hconfigs : listed 0x5D (a.configs.map configText) =
      (a.before.map configText).flatMap (· ++ [comma]) ++
        (configText (a.front ++ a.condition :: a.back) ++
          KeySearch.behind 0x5D (a.behind.map configText)) := by
    rw [configs, List.map_append, List.map_cons, listed_append]
  rw [text, hconfigs, hconfig, beforeText, behindText]
  simp only [List.cons_append, List.nil_append, List.append_assoc]

end Answer

/-! ## What is passed by -/

/-- The names in an answer. -/
def names : List (List UInt8) :=
  [ascii "status", ascii "configs", ascii "id", ascii "name", ascii "reportTime",
    ascii "checkTime", ascii "temperatureCondition", ascii "humidityCondition",
    ascii "externalTemperatureCondition", ascii "max", ascii "min", ascii "deviation"]

/-- The names of the members of an object. -/
def limitNames : List (List UInt8) := [ascii "max", ascii "min", ascii "deviation"]

/-- The names that are looked for. -/
def searched : List (List UInt8) :=
  [ascii "temperatureCondition", ascii "humidityCondition", ascii "externalTemperatureCondition"] ++
    limitNames

/-- No name that is looked for begins with the byte. -/
def isOther (b : UInt8) : Bool := b < 0x61 ∨ 0x7A < b ∨ b ∈ ascii "nul"

variable {w k x y : List UInt8} {c : UInt8} {m : Member} {config : List Member} {l : Limits}

theorem plain_of_searched (hw : w ∈ searched) : Plain w := by
  have hall : ∀ w ∈ searched, w ≠ [] ∧ quote ∉ w ∧ colon ∉ w ∧ backslash ∉ w := by decide
  obtain ⟨hnil, hquote, hcolon, hbackslash⟩ := hall w hw
  exact ⟨hnil, hquote, hcolon, hbackslash⟩

theorem absent_of_other (hw : w ∈ searched) (h : ∀ b ∈ x, isOther b = true) :
    Absent (needle w) x := by
  have hall : ∀ w ∈ searched, (w.head?.all fun a => !isOther a) = true := by decide
  refine (plain_of_searched hw).absent fun a ha hmem => ?_
  have hother := hall w hw
  rw [Option.mem_def.mp ha, Option.all_some, h a hmem] at hother
  exact absurd hother (by decide)

/-- A byte that no name begins with. -/
theorem absent_byte (hw : w ∈ searched) {b : UInt8} (hb : isOther b = true) :
    Absent (needle w) [b] :=
  absent_of_other hw fun b' hb' => by rwa [List.mem_singleton.mp hb']

/-- **Another name** is passed by: none of them ends as one that is looked for. -/
theorem absent_name (hw : w ∈ searched) (hk : k ∈ names) (hne : w ≠ k) :
    Absent (needle w) (key k) := by
  have hquote : ∀ k ∈ names, quote ∉ k := by decide
  have hsuffix : ∀ w ∈ searched, ∀ k ∈ names, w <:+ k → w = k := by decide
  exact absent_key (plain_of_searched hw) (hquote k hk) fun hend => hne (hsuffix w hw k hk hend)

theorem absent_scalar (hw : w ∈ searched) (v : Option ℤ) : Absent (needle w) (scalar v) := by
  refine absent_of_other hw ?_
  intro b hb
  cases v with
  | none =>
      have hnull : ascii "null" ⊆ ascii "nul" := by decide
      exact decide_eq_true (.inr (.inr (hnull hb)))
  | some z =>
      rcases mem_integer hb with rfl | hdigit
      · decide
      · simp only [isDigit, isOther, decide_eq_true_eq, UInt8.le_iff_toNat_le,
          UInt8.lt_iff_toNat_lt, UInt8.reduceToNat] at hdigit ⊢
        omega

/-- **An object** is passed by in the search for a condition. -/
theorem absent_limits (hw : w ∈ searched) (hlimit : w ∉ limitNames) (l : Limits) :
    Absent (needle w) l.text := by
  have hopen : Absent (needle w) [0x7B] := absent_byte hw (by decide)
  have hcomma : Absent (needle w) [comma] := absent_byte hw (by decide)
  have hclose : Absent (needle w) [0x7D] := absent_byte hw (by decide)
  have hnames : limitNames ⊆ names := by decide
  have hkey : ∀ k ∈ limitNames, Absent (needle w) (key k) := fun k hk =>
    absent_name hw (hnames hk) fun heq => hlimit (heq ▸ hk)
  have hmax := (hkey (ascii "max") (by decide)).append (absent_scalar hw l.max)
  have hmin := (hkey (ascii "min") (by decide)).append (absent_scalar hw l.min)
  have hdeviation := (hkey (ascii "deviation") (by decide)).append (absent_scalar hw l.deviation)
  have htext := ((((hopen.append hmax).append hcomma).append hmin).append hcomma).append
    (hdeviation.append hclose)
  simpa only [Limits.text, Limits.front, Limits.middle, Limits.last, List.append_assoc,
    List.cons_append, List.nil_append] using htext

theorem letters_mem (m : Member) : m.letters ∈ names := by
  cases m with
  | condition key v => cases key <;> simp [Member.letters, ConditionName.letters, names]
  | _ => simp [Member.letters, names]

/-- The member is passed by in the search for the name. -/
def Member.Free (w : List UInt8) (m : Member) : Prop :=
  w ≠ m.letters ∧ (m.isObject = true → w ∉ limitNames)

/-- **A member** is passed by. -/
theorem absent_member (hw : w ∈ searched) (hm : m.Free w) (hc : c = comma ∨ c = 0x7D) :
    Absent (needle w) (m.text ++ [c]) := by
  have hall : ∀ w ∈ searched, comma ∉ w ∧ 0x7D ∉ w := by decide
  have hclose : Absent (needle w) [c] := by
    rcases hc with rfl | rfl <;> exact absent_byte hw (by decide)
  rw [Member.text, List.append_assoc]
  refine (absent_name hw (letters_mem m) hm.1).append ?_
  cases m with
  | id z => exact (absent_scalar hw (some z)).append hclose
  | name s =>
      refine absent_str (plain_of_searched hw) s ?_ ?_
      · rcases hc with rfl | rfl <;> decide
      · rcases hc with rfl | rfl
        · exact (hall w hw).1
        · exact (hall w hw).2
  | reportTime v => exact (absent_scalar hw v).append hclose
  | checkTime v => exact (absent_scalar hw v).append hclose
  | condition key v =>
      cases v with
      | none => exact (absent_scalar hw none).append hclose
      | some l => exact (absent_limits hw (hm.2 rfl) l).append hclose

theorem absent_members (hw : w ∈ searched) (h : ∀ m ∈ config, m.Free w) :
    ∀ x ∈ config.map Member.text, ∀ c, c = comma ∨ c = 0x7D → Absent (needle w) (x ++ [c]) := by
  intro x hx c hc
  obtain ⟨m, hm, rfl⟩ := List.mem_map.mp hx
  exact absent_member hw (h m hm) hc

/-- **A configuration** is passed by. -/
theorem absent_config (hw : w ∈ searched) (h : ∀ m ∈ config, m.Free w)
    (hc : c = comma ∨ c = 0x5D) : Absent (needle w) (configText config ++ [c]) := by
  have hopen : Absent (needle w) [0x7B] := absent_byte hw (by decide)
  have hclose : Absent (needle w) [0x7D] := absent_byte hw (by decide)
  have hlast : Absent (needle w) [c] := by
    rcases hc with rfl | rfl <;> exact absent_byte hw (by decide)
  exact (hopen.append (absent_listed hclose (absent_members hw h))).append hlast

theorem ConditionName.searched (name : ConditionName) : name.letters ∈ USKD.searched := by
  cases name <;> decide

/-- The names of members are none of those inside an object. -/
theorem letters_not_limit (m : Member) : m.letters ∉ limitNames := by
  cases m with
  | id _ => exact (by decide : ascii "id" ∉ limitNames)
  | name _ => exact (by decide : ascii "name" ∉ limitNames)
  | reportTime _ => exact (by decide : ascii "reportTime" ∉ limitNames)
  | checkTime _ => exact (by decide : ascii "checkTime" ∉ limitNames)
  | condition key _ =>
      show key.letters ∉ limitNames
      cases key <;> decide

/-- **In front of the condition** its name is not found. -/
theorem Answer.absent_before (a : Answer) : Absent (needle a.name.letters) a.beforeText := by
  have hw := a.name.searched
  have hne : ∀ k ∈ [ascii "status", ascii "configs"], a.name.letters ≠ k := by
    cases a.name <;> decide
  have hfree : ∀ m ∈ a.before.flatten ++ a.front, m.Free a.name.letters := fun m hm =>
    ⟨fun heq => a.first m hm heq.symm, fun _ => letters_not_limit (.condition a.name none)⟩
  have hconfigs : Absent (needle a.name.letters)
      ((a.before.map configText).flatMap (· ++ [comma])) := by
    refine Absent.flatMap fun x hx => ?_
    obtain ⟨config, hconfig, rfl⟩ := List.mem_map.mp hx
    exact absent_config hw (fun m hm => hfree m (List.mem_append_left _
      (List.mem_flatten_of_mem hconfig hm))) (.inl rfl)
  have hfront : Absent (needle a.name.letters)
      ((a.front.map Member.text).flatMap (· ++ [comma])) := by
    refine Absent.flatMap fun x hx => ?_
    obtain ⟨m, hm, rfl⟩ := List.mem_map.mp hx
    exact absent_member hw (hfree m (List.mem_append_right _ hm)) (.inl rfl)
  have hstatus : Absent (needle a.name.letters) (a.status.text ++ [comma]) := by
    refine absent_str (plain_of_searched hw) a.status (by decide) ?_
    cases a.name <;> decide
  refine (absent_byte hw (by decide)).append ?_
  refine (absent_name hw (by decide) (hne _ (by decide))).append ?_
  refine hstatus.append ?_
  refine (absent_name hw (by decide) (hne _ (by decide))).append ?_
  refine (absent_byte hw (by decide)).append ?_
  exact hconfigs.append ((absent_byte hw (by decide)).append hfront)

/-! ## What is found -/

/-- Behind a piece that is passed by stands the key, and behind it what is returned. -/
theorem afterSubString_key (hw : w ∈ searched) (hx : Absent (needle w) x) (y : List UInt8) :
    SU.afterSubString (x ++ (key w ++ y)) (needle w) 0 = some y := by
  apply SU.afterSubString_of_find
  rw [hx.find, find_key (plain_of_searched hw)]

theorem Limits.front_append (l : Limits) (rest : List UInt8) :
    l.front [] ++ rest = l.front rest := by
  simp only [front, middle, last, List.append_assoc, List.cons_append, List.nil_append]

/-- **What is stored of an object**, once `max` has been found in it. -/
theorem parseConfigField_of_limits {string name entry rest : List UInt8} (field : ConfigField)
    (hname : SU.afterSubString string name 0 = some entry)
    (hmax : SU.afterSubString entry (ascii "max\":") 0 = some (l.front rest)) :
    parseConfigField string name field =
      (number (l.front rest)).bind fun max =>
        (number (l.middle rest)).bind fun min =>
          (number (l.last rest)).bind fun deviation =>
            some (some (l.last rest), ⟨min, max, deviation⟩) := by
  have hskip : ∀ w ∈ limitNames, ∀ v, Absent (needle w) (scalar v ++ [comma]) := by
    intro w hw v
    have hw : w ∈ searched := List.mem_append_right _ hw
    exact (absent_scalar hw v).append (absent_byte hw (by decide))
  have hmin : SU.afterSubString (l.front rest) (ascii "min\":") 0 = some (l.middle rest) := by
    have hkey := afterSubString_key (show ascii "min" ∈ searched by decide)
      (hskip (ascii "min") (by decide) l.max) (l.middle rest)
    rwa [List.append_assoc] at hkey
  have hdeviation :
      SU.afterSubString (l.middle rest) (ascii "deviation\":") 0 = some (l.last rest) := by
    have hkey := afterSubString_key (show ascii "deviation" ∈ searched by decide)
      (hskip (ascii "deviation") (by decide) l.min) (l.last rest)
    rwa [List.append_assoc] at hkey
  unfold parseConfigField
  simp only [hname, hmax, hmin, hdeviation, Option.bind_eq_bind]

/-! ### Behind a condition that is `null` -/

/-- The text goes on with the members of an object. -/
def AtObject (entry : List UInt8) : Prop :=
  ∃ (l : Limits) (rest : List UInt8), entry = needle (ascii "max") ++ l.front rest

theorem max_searched : ascii "max" ∈ searched := by decide

theorem leads_member (hm : m.isObject = true) :
    Leads (needle (ascii "max")) AtObject m.text := by
  cases m with
  | condition key v =>
      cases v with
      | none => exact absurd hm Bool.false_ne_true
      | some l =>
          have hkey : Absent (needle (ascii "max")) (KeySearch.key key.letters) := by
            refine absent_name max_searched (letters_mem (.condition key none)) ?_
            cases key <;> decide
          have hopen : Absent (needle (ascii "max")) [0x7B] :=
            absent_byte max_searched (by decide)
          refine hkey.leads (hopen.leads fun y => ?_)
          have hfound := find_key (plain_of_searched max_searched) (l.front [] ++ y)
          rw [l.front_append] at hfound
          refine ⟨needle (ascii "max") ++ l.front y, ?_, l, y, rfl⟩
          rw [← hfound, ← l.front_append y]
          congr 1
  | _ => exact absurd hm Bool.false_ne_true

theorem free_max (hm : m.isObject = false) : m.Free (ascii "max") := by
  refine ⟨fun heq => ?_, fun hobject => absurd (hm.symm.trans hobject) (by decide)⟩
  have hlimit : ascii "max" ∈ limitNames := by decide
  exact letters_not_limit m (heq ▸ hlimit)

/-- A member leads to its object or is passed by. -/
theorem absent_or_leads_members :
    ∀ x ∈ config.map Member.text, Absent (needle (ascii "max")) (x ++ [comma]) ∨
      Leads (needle (ascii "max")) AtObject x := by
  intro x hx
  obtain ⟨m, hm, rfl⟩ := List.mem_map.mp hx
  cases hobject : m.isObject with
  | true => exact .inr (leads_member hobject)
  | false => exact .inl (absent_member max_searched (free_max hobject) (.inl rfl))

/-- **A configuration with an object** leads to it. -/
theorem leads_config (h : ∃ m ∈ config, m.isObject = true) :
    Leads (needle (ascii "max")) AtObject (configText config) := by
  obtain ⟨m, hm, hobject⟩ := h
  have hopen : Absent (needle (ascii "max")) [0x7B] := absent_byte max_searched (by decide)
  exact hopen.leads (leads_listed absent_or_leads_members
    ⟨m.text, List.mem_map_of_mem hm, leads_member hobject⟩)

namespace Answer

variable {a : Answer}

/-- **The next object** behind the condition is found. -/
theorem leads_behind_condition
    (h : ∃ m ∈ a.back ++ a.behind.flatten, m.isObject = true) :
    Leads (needle (ascii "max")) AtObject a.behindText := by
  have hcomma : Absent (needle (ascii "max")) [comma] := absent_byte max_searched (by decide)
  have hclose : Absent (needle (ascii "max")) [0x7D] := absent_byte max_searched (by decide)
  by_cases hback : ∃ m ∈ a.back, m.isObject = true
  · obtain ⟨m, hm, hobject⟩ := hback
    exact (leads_behind hcomma absent_or_leads_members
      ⟨m.text, List.mem_map_of_mem hm, leads_member hobject⟩).append _
  · have hfree : ∀ m ∈ a.back, m.Free (ascii "max") := fun m hm =>
      free_max (Bool.eq_false_iff.mpr fun hobject => hback ⟨m, hm, hobject⟩)
    obtain ⟨m, hm, hobject⟩ := h
    have hm : m ∈ a.behind.flatten :=
      (List.mem_append.mp hm).resolve_left fun hmem => hback ⟨m, hmem, hobject⟩
    obtain ⟨config, hconfig, hm⟩ := List.mem_flatten.mp hm
    refine (absent_behind hcomma hclose (absent_members max_searched hfree)).leads ?_
    refine (leads_behind hcomma (fun x hx => ?_)
      ⟨configText config, List.mem_map_of_mem hconfig, leads_config ⟨m, hm, hobject⟩⟩).append _
    obtain ⟨config', -, rfl⟩ := List.mem_map.mp hx
    by_cases hobjects : ∃ m ∈ config', m.isObject = true
    · exact .inr (leads_config hobjects)
    · refine .inl (absent_config max_searched (fun m hm => ?_) (.inl rfl))
      exact free_max (Bool.eq_false_iff.mpr fun hobject => hobjects ⟨m, hm, hobject⟩)

/-- **Without an object behind the condition** nothing is found. -/
theorem absent_behind_condition
    (h : ∀ m ∈ a.back ++ a.behind.flatten, m.isObject = false) :
    Absent (needle (ascii "max")) a.behindText := by
  have hcomma : Absent (needle (ascii "max")) [comma] := absent_byte max_searched (by decide)
  have hclose : Absent (needle (ascii "max")) [0x7D] := absent_byte max_searched (by decide)
  have hend : Absent (needle (ascii "max")) [0x5D] := absent_byte max_searched (by decide)
  have hback := absent_behind hcomma hclose (absent_members max_searched fun m hm =>
    free_max (h m (List.mem_append_left _ hm)))
  refine hback.append ((absent_behind hcomma hend fun x hx c hc => ?_).append hclose)
  obtain ⟨config, hconfig, rfl⟩ := List.mem_map.mp hx
  exact absent_config max_searched (fun m hm => free_max (h m (List.mem_append_right _
    (List.mem_flatten_of_mem hconfig hm)))) hc

/-! ### The condition -/

/-- What `ParseConfigField` looks for is behind the name of the condition. -/
theorem afterSubString_name (a : Answer) {start : List UInt8} (hstart : start <:+ a.beforeText) :
    SU.afterSubString (start ++ (a.condition.text ++ a.behindText)) (needle a.name.letters) 0 =
      some (a.condition.value ++ a.behindText) := by
  rw [Member.text, List.append_assoc]
  exact afterSubString_key a.name.searched (a.absent_before.suffix hstart) _

/-- At most three brackets follow in one word. -/
theorem length_word_behind (a : Answer) :
    (a.behindText.takeWhile fun c => !isSeparator c).length ≤ 3 := by
  unfold behindText
  cases a.back with
  | nil =>
      cases a.behind with
      | nil => decide
      | cons config behind =>
          rw [List.map_nil, List.map_cons, KeySearch.behind, KeySearch.behind, List.cons_append,
            List.nil_append, List.cons_append, List.takeWhile_cons_of_pos (by decide),
            List.takeWhile_cons_of_neg (by decide)]
          decide
  | cons m back =>
      rw [List.map_cons, KeySearch.behind, List.cons_append,
        List.takeWhile_cons_of_neg (by decide)]
      exact Nat.zero_le _

/-- **What is stored of the object of the condition**, and where the pointer goes. -/
theorem parseConfigField_object {o : ConfigField} (hvalue : a.value = some o) {start : List UInt8}
    (hstart : start <:+ a.beforeText) (field : ConfigField) :
    parseConfigField (start ++ (a.condition.text ++ a.behindText)) (needle a.name.letters) field =
      some (some (o.limits.last a.behindText),
        ⟨o.min % 2 ^ 32, o.max % 2 ^ 32, o.deviation % 2 ^ 32⟩) := by
  obtain ⟨⟨hmax, hmax'⟩, ⟨hmin, hmin'⟩, ⟨hdeviation, hdeviation'⟩⟩ := a.fits o hvalue
  have hname := a.afterSubString_name hstart
  have hobject : a.condition.value ++ a.behindText =
      [0x7B] ++ (key (ascii "max") ++ o.limits.front a.behindText) := by
    rw [condition, hvalue]
    show o.limits.text ++ a.behindText = _
    rw [Limits.text, ← o.limits.front_append a.behindText, List.cons_append, List.append_assoc]
    rfl
  have hfound := afterSubString_key max_searched
    (absent_byte max_searched (show isOther 0x7B = true by decide))
    (o.limits.front a.behindText)
  -- a number in front of a comma is a word of its own
  have hcomma : ∀ rest : List UInt8,
      ((comma :: rest).takeWhile fun c => !isSeparator c).length ≤ 100 := by
    intro rest
    rw [List.takeWhile_cons_of_neg (by decide)]
    exact Nat.zero_le _
  have hlast : ((0x7D :: a.behindText).takeWhile fun c => !isSeparator c).length ≤ 100 := by
    have hbehind := a.length_word_behind
    rw [List.takeWhile_cons_of_pos (by decide), List.length_cons]
    omega
  have hnumber : number (o.limits.front a.behindText) = some (o.max % 2 ^ 32) :=
    number_integer hmax hmax' (by decide) (hcomma _)
  have hnumber' : number (o.limits.middle a.behindText) = some (o.min % 2 ^ 32) :=
    number_integer hmin hmin' (by decide) (hcomma _)
  have hnumber'' : number (o.limits.last a.behindText) = some (o.deviation % 2 ^ 32) :=
    number_integer hdeviation hdeviation' (by decide) hlast
  rw [hobject] at hname
  rw [parseConfigField_of_limits field hname hfound, hnumber, hnumber', hnumber'']
  rfl

/-- **If the condition is `null`** and no object follows, nothing is stored. -/
theorem parseConfigField_null (hvalue : a.value = none) {start : List UInt8}
    (hstart : start <:+ a.beforeText) (field : ConfigField) :
    parseConfigField (start ++ (a.condition.text ++ a.behindText)) (needle a.name.letters) field =
        some (none, field) ↔
      ∀ m ∈ a.back ++ a.behind.flatten, m.isObject = false := by
  have hname := a.afterSubString_name hstart
  have hcondition : a.condition.value = scalar none := by rw [condition, hvalue]; rfl
  rw [hcondition] at hname
  have hnull : Absent (needle (ascii "max")) (scalar none) := absent_scalar max_searched none
  constructor
  · intro hparse m hm
    by_contra hobject
    rw [Bool.not_eq_false] at hobject
    obtain ⟨-, hentry, l, rest, rfl⟩ :=
      hnull.leads (leads_behind_condition ⟨m, hm, hobject⟩) []
    rw [List.append_nil] at hentry
    rw [parseConfigField_of_limits field hname (SU.afterSubString_of_find hentry)] at hparse
    -- if all three numbers are read, a pointer is returned
    simp only [Option.bind_eq_some_iff, Option.some.injEq, Prod.mk.injEq] at hparse
    obtain ⟨-, -, -, -, -, -, hpointer, -⟩ := hparse
    exact absurd hpointer (by simp)
  · intro hfree
    have habsent := hnull.append (absent_behind_condition hfree)
    have hmax : SU.afterSubString (scalar none ++ a.behindText) (ascii "max\":") 0 = none := by
      apply SU.afterSubString_of_none
      rw [← List.append_nil (scalar none ++ a.behindText)]
      exact habsent.find []
    unfold parseConfigField
    simp only [hname, hmax]

/-- The pointer points inside the object: something of it is in front, and something behind. -/
def Inside (object rest pointer : List UInt8) : Prop :=
  ∃ front back, object = front ++ back ∧ front ≠ [] ∧ back ≠ [] ∧ pointer = back ++ rest

/-- **The condition is parsed**: of an object the three integers are stored, and a pointer into it
is returned; for `null` the field stays as it was, and `nullptr` is returned. -/
def Parsed (a : Answer) (string : List UInt8) (field : ConfigField) : Prop :=
  match a.value with
  | some o => ∃ pointer,
      parseConfigField string (needle a.name.letters) field = some (some pointer, o) ∧
        Inside o.limits.text a.behindText pointer
  | none => parseConfigField string (needle a.name.letters) field = some (none, field)

/-- None of the integers is negative; or no object follows the `null`. -/
def Readable (a : Answer) : Prop :=
  match a.value with
  | some o => 0 ≤ o.max ∧ 0 ≤ o.min ∧ 0 ≤ o.deviation
  | none => ∀ m ∈ a.back ++ a.behind.flatten, m.isObject = false

/-- The number of the deviation is inside the object. -/
theorem inside_last (l : Limits) (rest : List UInt8) : Inside l.text rest (l.last rest) := by
  refine ⟨0x7B :: (key (ascii "max") ++ (scalar l.max ++ comma :: (key (ascii "min") ++
    (scalar l.min ++ comma :: key (ascii "deviation"))))), l.last [], ?_, by simp, ?_, ?_⟩
  · simp only [Limits.text, Limits.front, Limits.middle, List.append_assoc, List.cons_append]
  · simp [Limits.last]
  · simp only [Limits.last, List.append_assoc, List.cons_append, List.nil_append]

/-- **When a condition is parsed**, in the text of an answer, or in an end of it that the condition
is part of. -/
theorem parsed_iff (a : Answer) (string : List UInt8) (field : ConfigField)
    (hstring : string <:+ a.text) (hcondition : a.condition.text ++ a.behindText <:+ string) :
    a.Parsed string field ↔ a.Readable := by
  obtain ⟨start, rfl⟩ := hcondition
  have hstart : start <:+ a.beforeText := by
    obtain ⟨skipped, htext⟩ := hstring
    rw [text_eq, ← List.append_assoc] at htext
    exact ⟨skipped, List.append_cancel_right htext⟩
  unfold Parsed Readable
  cases hvalue : a.value with
  | none => exact parseConfigField_null hvalue hstart field
  | some o =>
      simp only
      obtain ⟨⟨hmax, hmax'⟩, ⟨hmin, hmin'⟩, ⟨hdeviation, hdeviation'⟩⟩ := a.fits o hvalue
      rw [parseConfigField_object hvalue hstart]
      constructor
      · rintro ⟨pointer, hparse, -⟩
        obtain ⟨-, hfield⟩ := Prod.mk.inj (Option.some.inj hparse)
        have hmaxEq := congrArg ConfigField.max hfield
        have hminEq := congrArg ConfigField.min hfield
        have hdeviationEq := congrArg ConfigField.deviation hfield
        simp only at hmaxEq hminEq hdeviationEq
        omega
      · rintro ⟨hmax₀, hmin₀, hdeviation₀⟩
        refine ⟨o.limits.last a.behindText, ?_, inside_last o.limits a.behindText⟩
        rw [Int.emod_eq_of_lt hmin₀ (by omega), Int.emod_eq_of_lt hmax₀ (by omega),
          Int.emod_eq_of_lt hdeviation₀ (by omega)]

/-- An answer with one configuration, the temperature condition of which is picked out. -/
def ofTemperature (value : Option ConfigField) (h : ∀ o ∈ value, o.Fits) : Answer where
  status := .ofPlain (ascii "Success") (by decide)
  before := []
  front := [.id 1, .name (.ofPlain (ascii "Standard") (by decide)), .reportTime (some 180),
    .checkTime (some 60)]
  name := .temperatureCondition
  value := value
  back := [.condition .humidityCondition (some ⟨some 80, some 10, some 3⟩),
    .condition .externalTemperatureCondition (some ⟨some 50, some 10, none⟩)]
  behind := []
  first := by decide
  fits := h

/-- Between 4 and 10 degrees. -/
def temperate : Answer :=
  ofTemperature (some ⟨4, 10, 2⟩) (by rintro o ⟨⟩; exact ⟨by decide, by decide, by decide⟩)

theorem parsed_temperate : temperate.Parsed temperate.text ⟨0, 0, 0⟩ :=
  (parsed_iff temperate temperate.text ⟨0, 0, 0⟩ List.suffix_rfl
    ⟨_, (text_eq temperate).symm⟩).mpr ⟨by decide, by decide, by decide⟩

/-- **Without a temperature condition** the humidity is stored for it. -/
theorem not_parsed_null :
    ¬ ∀ (a : Answer) (string : List UInt8) (field : ConfigField), string <:+ a.text →
        a.condition.text ++ a.behindText <:+ string → a.Parsed string field := by
  intro hall
  have hparsed := hall (ofTemperature none (by simp)) _ ⟨0, 0, 0⟩ List.suffix_rfl
    ⟨_, (text_eq _).symm⟩
  rw [text_eq] at hparsed
  have hfree := (parseConfigField_null rfl List.suffix_rfl ⟨0, 0, 0⟩).mp hparsed
  exact absurd (hfree _ List.mem_cons_self) (by decide)

end Answer

end USKD
