import Mathlib.Algebra.Group.Nat.Defs
import Neurochip.Json.Codec
import Neurochip.Proofs.Error.Acceptance
import Neurochip.Proofs.Json.Edits

namespace Neurochip

/-!
# Laws of codecs

What a lawful codec writes is read back.  If fields with a default have been left
out, these and only these are read as their defaults, and a member too many is
refused or ignored wherever it stands.  The codecs of numbers, texts, truth values
and names are lawful, and a list is if its items are.
-/

namespace Json

/-- A value in which nothing can be left out and no member added. -/
structure Flat (json : Json) : Prop where
  without : ∀ omitted, json.without omitted = json
  notObject : ∀ place members, json.at? place ≠ some (.obj members)

theorem flat_bool (value : Bool) : (bool value).Flat := by
  refine ⟨fun _ => rfl, fun place members => ?_⟩
  rcases place with _ | ⟨_ | _, _⟩ <;> simp [at?, member?]

theorem flat_int (value : Int) : (int value).Flat := by
  refine ⟨fun _ => rfl, fun place members => ?_⟩
  rcases place with _ | ⟨_ | _, _⟩ <;> simp [at?, member?]

theorem flat_str (value : String) : (str value).Flat := by
  refine ⟨fun _ => rfl, fun place members => ?_⟩
  rcases place with _ | ⟨_ | _, _⟩ <;> simp [at?, member?]

/-- An array of which all items are flat is flat. -/
theorem flat_arr {items : List Json} (flat : ∀ item ∈ items, item.Flat) : (arr items).Flat := by
  constructor
  · intro omitted
    rw [without, withoutItems_eq_mapIdx]
    refine congrArg arr (List.ext_getElem (List.length_mapIdx) fun index _ inside => ?_)
    rw [List.getElem_mapIdx]
    exact (flat _ (List.getElem_mem inside)).without _
  · rintro (_ | ⟨_ | index, rest⟩) members <;> simp only [at?, member?]
    · simp
    · simp
    · cases found : items[index]? with
      | none => simp
      | some item => exact (flat item (List.mem_of_getElem? found)).notObject rest members

/-- What is wrong with an object once it has one more member.  An object with a single key names an
alternative of a type, any other is a record. -/
def refusal (key : String) (members : List (String × Json)) : Problem :=
  if members.length = 1 then
    .notSingleKey
  else
    .unknownField key (members.map Prod.fst)

namespace Codec

/-- The laws of a codec for values that fit.  Records with one more field are refused if they are
closed, and are otherwise read as if it were not there. -/
structure Lawful
    (closed : Bool)
    (defaulted : List String)
    (codec : Codec α)
    (Fits : α → Prop)
    (withDefaults : Places → α → α) :
    Prop where
  withDefaults_nowhere : ∀ value, withDefaults .nowhere value = value
  read_without : ∀ value omitted, Fits value → omitted.OnlyFields defaulted →
    codec.read ((codec.write value).without omitted) = .ok (withDefaults omitted value)
  read_extended : ∀ value place before after key added, Fits value →
    (codec.write value).at? place = some (.obj (before ++ after)) →
    key ∉ (before ++ after).map Prod.fst →
    codec.read ((codec.write value).replacing place (.obj (before ++ (key, added) :: after))) =
      if closed then .error (refusal key (before ++ after)) else .ok value

variable {closed : Bool} {defaulted : List String}

/-- What is written is read back. -/
theorem Lawful.read_write
    {codec : Codec α}
    {Fits : α → Prop}
    {withDefaults : Places → α → α}
    (lawful : codec.Lawful closed defaulted Fits withDefaults)
    {value : α}
    (fits : Fits value) :
    codec.read (codec.write value) = .ok value := by
  have whole := lawful.read_without value .nowhere fits (Places.onlyFields_nowhere _)
  rwa [without_nowhere, lawful.withDefaults_nowhere] at whole

/-- Codecs that write flat values only have to read them back. -/
theorem lawful_of_flat
    {codec : Codec α}
    {Fits : α → Prop}
    (flat : ∀ value, (codec.write value).Flat)
    (readBack : ∀ value, Fits value → codec.read (codec.write value) = .ok value) :
    codec.Lawful closed defaulted Fits (fun _ value => value) where
  withDefaults_nowhere _ := rfl
  read_without value omitted fits _ := by
    rw [(flat value).without]
    exact readBack value fits
  read_extended value place before after _ _ _ found :=
    absurd found ((flat value).notObject place (before ++ after))

theorem lawful_integer (name : String) (range : Bounds) :
    (integer name range).Lawful closed defaulted range.Contains (fun _ value => value) :=
  lawful_of_flat flat_int fun _ fits => if_pos fits

/-- Natural numbers that fill a word with some number of bits. -/
theorem lawful_natural
    {name : String}
    {maximum bits : Nat}
    (last : maximum + 1 = 2 ^ bits) :
    (natural name maximum).Lawful closed defaulted (· < 2 ^ bits) (fun _ value => value) := by
  refine lawful_of_flat (fun value => flat_int value) fun value fits => ?_
  have inside : (⟨0, maximum, Int.natCast_nonneg maximum⟩ : Bounds).Contains value :=
    ⟨Int.natCast_nonneg value,
      Int.ofNat_le.mpr (Nat.le_of_lt_succ (Nat.lt_of_lt_of_eq fits last.symm))⟩
  have read : (integer name ⟨0, maximum, Int.natCast_nonneg maximum⟩).read (.int value) =
      .ok (value : Int) :=
    if_pos inside
  exact congrArg (Except.map Int.toNat) read

theorem lawful_unsigned8 :
    unsigned8.Lawful closed defaulted (· < 2 ^ 8) (fun _ value => value) :=
  lawful_natural (by decide)

theorem lawful_unsigned16 :
    unsigned16.Lawful closed defaulted (· < 2 ^ 16) (fun _ value => value) :=
  lawful_natural (by decide)

theorem lawful_unsigned32 :
    unsigned32.Lawful closed defaulted (· < 2 ^ 32) (fun _ value => value) :=
  lawful_natural (by decide)

theorem lawful_unsigned64 :
    unsigned64.Lawful closed defaulted (· < 2 ^ 64) (fun _ value => value) :=
  lawful_natural (by decide)

theorem lawful_size :
    size.Lawful closed defaulted (· < 2 ^ 64) (fun _ value => value) :=
  lawful_natural (by decide)

theorem lawful_flag :
    flag.Lawful closed defaulted (fun _ => True) (fun _ value => value) :=
  lawful_of_flat flat_bool fun _ _ => rfl

theorem lawful_string :
    string.Lawful closed defaulted (fun _ => True) (fun _ value => value) :=
  lawful_of_flat flat_str fun _ _ => rfl

/-- Names are lawful if each finds its own value. -/
theorem lawful_names
    {name : α → String}
    {values : List α}
    (findsOwn : ∀ value, (names name values).read (.str (name value)) = .ok value) :
    (names name values).Lawful closed defaulted (fun _ => True) (fun _ value => value) :=
  lawful_of_flat (fun value => flat_str (name value)) fun value _ => findsOwn value

/-- Alternatives that are written with a flat content only have to be read back.  With one more
member an object has no single key any more. -/
theorem lawful_variants
    {write : α → Json}
    {alternatives : List (Variant α)}
    {Fits : α → Prop}
    (single : ∀ value, ∃ name content,
      write value = .obj [(name, content)] ∧ content.Flat ∧ name ∉ defaulted)
    (readBack : ∀ value, Fits value →
      (variants write alternatives).read (write value) = .ok value) :
    (variants write alternatives).Lawful true defaulted Fits (fun _ value => value) where
  withDefaults_nowhere _ := rfl
  read_without value omitted fits only := by
    obtain ⟨name, content, written, flat, other⟩ := single value
    have same : (write value).without omitted = write value := by
      rw [written, without, withoutMembers, only.eq_false other, if_neg Bool.false_ne_true,
        flat.without, withoutMembers]
    exact (congrArg _ same).trans (readBack value fits)
  read_extended value place before after key added _ found _ := by
    obtain ⟨name, content, written, flat, _⟩ := single value
    replace found : (obj [(name, content)]).at? place = some (.obj (before ++ after)) :=
      written ▸ found
    rcases place with _ | ⟨field | index, rest⟩
    · have members : [(name, content)] = before ++ after := obj.inj (Option.some.inj found)
      have count : (before ++ after).length = 1 := members ▸ rfl
      rw [refusal, if_pos count, if_pos rfl]
      obtain ⟨rfl, rfl⟩ | ⟨rfl, rfl⟩ := List.append_eq_singleton_iff.mp members.symm <;> rfl
    · obtain ⟨part, looked, foundBelow⟩ := Option.bind_eq_some_iff.mp found
      have same : content = part := by
        rw [member?, List.lookup_cons] at looked
        split at looked
        · exact Option.some.inj looked
        · cases looked
      exact absurd (same ▸ foundBelow) (flat.notObject rest _)
    · cases found

section Lists

variable {codec : Codec α} {Fits : α → Prop} {withDefaults : Places → α → α}

/-- Items that are read one by one are read together. -/
theorem mapM_read_eq_ok
    {items : List Json}
    {results : List α}
    (sameLength : items.length = results.length)
    (each : ∀ index (inside : index < items.length) (insideResults : index < results.length),
      codec.read items[index] = .ok results[index]) :
    items.mapM codec.read = .ok results :=
  mapM_eq_ok_iff.mpr (List.forall₂_iff_get.mpr ⟨sameLength, each⟩)

/-- A list with one item that is refused is refused for the same reason. -/
theorem mapM_read_eq_error
    {items : List Json}
    {problem : Problem}
    {refused : Json}
    (member : refused ∈ items)
    (reason : codec.read refused = .error problem)
    (others : ∀ item ∈ items, item = refused ∨ ∃ value, codec.read item = .ok value) :
    items.mapM codec.read = .error problem := by
  have refuses : Refuses codec.read refused := ⟨problem, reason⟩
  obtain ⟨index, item, first⟩ := exists_isFirst_iff.mpr ⟨refused, member, refuses⟩
  refine mapM_eq_error_iff.mpr ⟨index, item, first, ?_⟩
  rcases others item (List.mem_of_getElem? first.found) with rfl | ⟨value, read⟩
  · exact reason
  · obtain ⟨other, failed⟩ := first.holds
    cases read.symm.trans failed

/-- Lists of values with a lawful codec. -/
theorem Lawful.list (lawful : codec.Lawful closed defaulted Fits withDefaults) :
    codec.list.Lawful closed defaulted (fun values => ∀ value ∈ values, Fits value)
      (fun omitted values =>
        values.mapIdx fun index value => withDefaults (omitted.inside (.item index)) value) where
  withDefaults_nowhere values := by
    apply List.ext_getElem
    · exact List.length_mapIdx
    · intro index _ _
      rw [List.getElem_mapIdx, Places.inside_nowhere, lawful.withDefaults_nowhere]
  read_without values omitted fits only := by
    show (withoutItems omitted 0 (values.map codec.write)).mapM codec.read = _
    rw [withoutItems_eq_mapIdx]
    refine mapM_read_eq_ok (by simp) fun index inside insideResults => ?_
    rw [List.getElem_mapIdx, List.getElem_mapIdx, List.getElem_map, Nat.zero_add]
    exact lawful.read_without _ _ (fits _ (List.getElem_mem _)) (only.inside _)
  read_extended values place before after key added fits found unknown := by
    rcases place with _ | ⟨_ | index, rest⟩
    · cases found
    · cases found
    · obtain ⟨item, place, foundItem⟩ := Option.bind_eq_some_iff.mp found
      rw [List.getElem?_map] at place
      obtain ⟨value, placeValue, rfl⟩ := Option.map_eq_some_iff.mp place
      have extended := lawful.read_extended value rest before after key added
        (fits value (List.mem_of_getElem? placeValue)) foundItem unknown
      generalize Json.obj (before ++ (key, added) :: after) = part at extended
      show ((values.map codec.write).modify index (·.replacing rest part)).mapM codec.read = _
      obtain ⟨inside, rfl⟩ := List.getElem?_eq_some_iff.mp placeValue
      cases closed with
      | false =>
          refine mapM_read_eq_ok (by simp) fun position within withinResults => ?_
          rw [List.getElem_modify, List.getElem_map]
          split
          · rename_i same
            subst same
            exact extended
          · exact lawful.read_write (fits _ (List.getElem_mem _))
      | true =>
          have reason : codec.read ((codec.write values[index]).replacing rest part) =
              .error (refusal key (before ++ after)) := extended
          refine mapM_read_eq_error ?_ reason fun item member => ?_
          · refine List.mem_iff_getElem.mpr ⟨index, by simpa using inside, ?_⟩
            rw [List.getElem_modify, if_pos rfl, List.getElem_map]
          · obtain ⟨position, within, rfl⟩ := List.mem_iff_getElem.mp member
            rw [List.getElem_modify, List.getElem_map]
            split
            · rename_i same
              subst same
              exact .inl rfl
            · exact .inr ⟨_, lawful.read_write (fits _ (List.getElem_mem _))⟩

/-- Lists of values of which nothing can be left out. -/
theorem Lawful.list_whole (lawful : codec.Lawful closed defaulted Fits fun _ value => value) :
    codec.list.Lawful closed defaulted (fun values => ∀ value ∈ values, Fits value)
      (fun _ values => values) := by
  have same : ∀ values : List α, values.mapIdx (fun _ value => value) = values := fun values =>
    List.ext_getElem List.length_mapIdx fun index _ _ => List.getElem_mapIdx
  simpa only [same] using lawful.list

end Lists

end Codec

end Json

end Neurochip
