import Mathlib.Data.List.Pairwise
import Mathlib.Data.List.Perm.Basic
import Neurochip.Json.Record
import Neurochip.Proofs.Json.Lawful

namespace Neurochip.Json

/-!
# Records are lawful

The members of an object are read in the order of their keys, not in the order in
which they were written.  As the fields of a record are independent of each other,
both orders make the same record.  Therefore a record is lawful if its fields are,
whichever fields it has.
-/

/-- Where keys are distinct, each item is found by its key. -/
theorem find?_of_nodup
    {key : α → String}
    {items : List α}
    (distinct : (items.map key).Nodup)
    {item : α}
    (member : item ∈ items) :
    items.find? (fun other => key other == key item) = some item := by
  induction items with
  | nil => cases member
  | cons first rest inductionHypothesis =>
      obtain ⟨new, distinctRest⟩ := List.nodup_cons.mp distinct
      rw [List.find?_cons]
      rcases List.mem_cons.mp member with rfl | later
      · rw [beq_self_eq_true]
      · have other : (key first == key item) = false :=
          beq_eq_false_iff_ne.mpr fun same => new (same ▸ List.mem_map_of_mem later)
        rw [other]
        exact inductionHypothesis distinctRest later

namespace Field

/-- The laws of a field.  `take omitted value result` is the record `result` with the field of
`value`, as far as it has not been left out. -/
structure Takes
    (closed : Bool)
    (defaulted : List String)
    (Fits : α → Prop)
    (field : Field α)
    (take : Places → α → α → α) :
    Prop where
  required : field.required = true → field.name ∉ defaulted
  take_omitted : ∀ omitted value result, omitted.OnlyFields defaulted →
    omitted [.field field.name] = true → take omitted value result = result
  read_without : ∀ omitted value result, omitted [.field field.name] = false → Fits value →
    omitted.OnlyFields defaulted →
    field.read ((field.write value).without (omitted.inside (.field field.name))) result =
      .ok (take omitted value result)
  read_extended : ∀ value result place before after key added, Fits value →
    (field.write value).at? place = some (.obj (before ++ after)) →
    key ∉ (before ++ after).map Prod.fst →
    field.read ((field.write value).replacing place (.obj (before ++ (key, added) :: after)))
        result =
      if closed then .error (refusal key (before ++ after)) else .ok (take .nowhere value result)

/-- What a field that has to be present takes over. -/
def taking
    (name : String)
    (withDefaults : Places → β → β)
    (get : α → β)
    (set : α → β → α)
    (omitted : Places)
    (value result : α) :
    α :=
  set result (withDefaults (omitted.inside (.field name)) (get value))

/-- What a field that may be left out takes over. -/
def takingIfPresent
    (name : String)
    (withDefaults : Places → β → β)
    (get : α → β)
    (set : α → β → α)
    (omitted : Places)
    (value result : α) :
    α :=
  set result
    (omitted.orDefault name (get result) (withDefaults (omitted.inside (.field name)) (get value)))

variable {closed : Bool} {defaulted : List String} {Fits : α → Prop} {name : String}
  {codec : Codec β} {CodecFits : β → Prop} {withDefaults : Places → β → β}
  {get : α → β} {set : α → β → α}

/-- A field with a codec takes over what is read, unless it has been left out. -/
theorem takes_ofCodec
    {required : Bool}
    {take : Places → α → α → α}
    (lawful : codec.Lawful closed defaulted CodecFits withDefaults)
    (fits : ∀ value, Fits value → CodecFits (get value))
    (present : required = true → name ∉ defaulted)
    (take_kept : ∀ omitted value result, omitted [.field name] = false →
      take omitted value result =
        set result (withDefaults (omitted.inside (.field name)) (get value)))
    (take_omitted : ∀ omitted value result, omitted.OnlyFields defaulted →
      omitted [.field name] = true → take omitted value result = result) :
    (Field.ofCodec name required codec get set).Takes closed defaulted Fits take where
  required := present
  take_omitted := take_omitted
  read_without omitted value result kept fit only := by
    have read := lawful.read_without (get value) (omitted.inside (.field name)) (fits value fit)
      (only.inside _)
    rw [take_kept omitted value result kept]
    exact congrArg (Except.map (set result)) read
  read_extended value result place before after key added fit found unknown := by
    have read := lawful.read_extended (get value) place before after key added (fits value fit)
      found unknown
    rw [take_kept .nowhere value result rfl, Places.inside_nowhere, lawful.withDefaults_nowhere]
    refine (congrArg (Except.map (set result)) read).trans ?_
    cases closed <;> rfl

theorem takes_optional
    (lawful : codec.Lawful closed defaulted CodecFits withDefaults)
    (keeps : ∀ result, set result (get result) = result)
    (fits : ∀ value, Fits value → CodecFits (get value)) :
    (Field.optional name codec get set).Takes closed defaulted Fits
      (takingIfPresent name withDefaults get set) := by
  refine takes_ofCodec lawful fits (fun impossible => absurd impossible Bool.false_ne_true) ?_ ?_
  · intro omitted value result kept
    rw [takingIfPresent, Places.orDefault, kept, if_neg Bool.false_ne_true]
  · intro omitted value result _ absent
    rw [takingIfPresent, Places.orDefault, absent, if_pos rfl, keeps]

theorem takes_mandatory
    (lawful : codec.Lawful closed defaulted CodecFits withDefaults)
    (fits : ∀ value, Fits value → CodecFits (get value))
    (present : name ∉ defaulted) :
    (Field.mandatory name codec get set).Takes closed defaulted Fits
      (taking name withDefaults get set) := by
  refine takes_ofCodec lawful fits (fun _ => present) (fun _ _ _ _ => rfl) ?_
  intro omitted value result only absent
  rw [only.eq_false present] at absent
  cases absent

end Field

namespace Record

/-- The names of the fields that may be left out. -/
def optionalNames (record : Record α) : List String :=
  (record.fields.filter fun field => !field.required).map (·.name)

variable {record : Record α}

/-- Reads one member into a record. -/
def readMember (record : Record α) (result : α) (member : String × Json) : Except Problem α :=
  match record.fields.find? (·.name == member.1) with
  | some field => field.read member.2 result
  | none =>
      if record.closed then
        .error (.unknownField member.1 record.fieldNames)
      else
        .ok result

theorem readMembers_eq_foldlM (result : α) (members : List (String × Json)) :
    record.readMembers result members = members.foldlM record.readMember result := by
  induction members generalizing result with
  | nil => rfl
  | cons member rest inductionHypothesis =>
      obtain ⟨key, json⟩ := member
      rw [readMembers, List.foldlM_cons, readMember]
      cases record.fields.find? (·.name == key) with
      | some field => simp only [inductionHypothesis]
      | none =>
          cases record.closed with
          | true => rfl
          | false => exact inductionHypothesis result

/-- Members that are all read are taken over one after the other. -/
theorem foldlM_readMember_eq_ok
    {members : List (String × Json)}
    {apply : String × Json → α → α}
    (reads : ∀ member ∈ members, ∀ result,
      record.readMember result member = .ok (apply member result))
    (result : α) :
    members.foldlM record.readMember result =
      .ok (members.foldl (fun result member => apply member result) result) := by
  induction members generalizing result with
  | nil => rfl
  | cons member rest inductionHypothesis =>
      rw [List.foldlM_cons, reads member List.mem_cons_self result]
      exact inductionHypothesis (fun other later => reads other (List.mem_cons_of_mem _ later)) _

/-- A member that is refused is refused wherever it stands among members that are read. -/
theorem foldlM_readMember_eq_error
    {members : List (String × Json)}
    {refused : String × Json}
    {problem : Problem}
    (member : refused ∈ members)
    (reason : ∀ result, record.readMember result refused = .error problem)
    (others : ∀ other ∈ members, other = refused ∨
      ∀ result, ∃ after, record.readMember result other = .ok after)
    (result : α) :
    members.foldlM record.readMember result = .error problem := by
  induction members generalizing result with
  | nil => cases member
  | cons first rest inductionHypothesis =>
      rw [List.foldlM_cons]
      rcases others first List.mem_cons_self with rfl | reads
      · rw [reason]
        rfl
      · obtain ⟨after, read⟩ := reads result
        have later : refused ∈ rest := by
          refine (List.mem_cons.mp member).resolve_left fun same => ?_
          rw [← same, reason] at read
          cases read
        rw [read]
        exact inductionHypothesis later
          (fun other inRest => others other (List.mem_cons_of_mem _ inRest)) after

/-- Members that are read independently of each other are taken over in the order in which they are
written. -/
theorem read_obj_eq_ok
    {members : List (String × Json)}
    {apply : String × Json → α → α}
    (reads : ∀ member ∈ members, ∀ result,
      record.readMember result member = .ok (apply member result))
    (independent : ∀ member ∈ members, ∀ other ∈ members, ∀ result,
      apply other (apply member result) = apply member (apply other result))
    (present : ∀ field ∈ record.fields, field.required = true →
      field.name ∈ members.map Prod.fst) :
    record.read (.obj members) =
      .ok (members.foldl (fun result member => apply member result) record.blank) := by
  have sorted : (sortMembers members).Perm members := List.mergeSort_perm _ _
  have ordered : (sortMembers members).foldl (fun result member => apply member result)
      record.blank = members.foldl (fun result member => apply member result) record.blank :=
    (sorted.symm.foldl_eq' (fun member here other there result =>
      independent member here other there result) _).symm
  have complete : checkPresent record.fields (members.map (·.1)) = .ok () := by
    have none : record.fields.find?
        (fun field => field.required && !(members.map (·.1)).contains field.name) = none := by
      refine List.find?_eq_none.mpr fun field member missing => ?_
      obtain ⟨required, absent⟩ := Bool.and_eq_true_iff.mp missing
      have contained := List.contains_iff_mem.mpr (present field member required)
      rw [contained] at absent
      cases absent
    rw [checkPresent, none]
  rw [read, readMembers_eq_foldlM,
    foldlM_readMember_eq_ok (fun member here => reads member (sorted.mem_iff.mp here)), ordered]
  simp only [complete]
  rfl

/-- A record with a member that is refused is refused for the same reason. -/
theorem read_obj_eq_error
    {members : List (String × Json)}
    {refused : String × Json}
    {problem : Problem}
    (member : refused ∈ members)
    (reason : ∀ result, record.readMember result refused = .error problem)
    (others : ∀ other ∈ members, other = refused ∨
      ∀ result, ∃ after, record.readMember result other = .ok after) :
    record.read (.obj members) = .error problem := by
  have sorted : (sortMembers members).Perm members := List.mergeSort_perm _ _
  rw [read, readMembers_eq_foldlM, foldlM_readMember_eq_error (sorted.mem_iff.mpr member) reason
    fun other here => others other (sorted.mem_iff.mp here)]
  rfl

/-- What is written with another part in one field. -/
theorem replacing_write (value : α) (name : String) (place : Path) (part : Json) :
    (record.write value).replacing (.field name :: place) part =
      .obj (record.fields.map fun field =>
        (field.name,
          if field.name = name then
            (field.write value).replacing place part
          else
            field.write value)) := by
  rw [write, replacing, List.map_map]
  rfl

/-- Two fields that do not affect each other. -/
def Independent (first second : Places → α → α → α) : Prop :=
  ∀ omitted value result,
    first omitted value (second omitted value result) =
      second omitted value (first omitted value result)

instance : Std.Symm (Independent (α := α)) :=
  ⟨fun _ _ independent omitted value result => (independent omitted value result).symm⟩

/-- The laws of a record: those of its fields, which have different names and do not affect each
other. -/
structure Regular
    (closed : Bool)
    (defaulted : List String)
    (Fits : α → Prop)
    (record : Record α)
    (takes : List (Places → α → α → α)) :
    Prop where
  fields : List.Forall₂ (Field.Takes closed defaulted Fits) record.fields takes
  distinct : record.fieldNames.Nodup
  independent : takes.Pairwise Independent
  policy : record.closed = closed
  several : closed = true → record.fields.length ≠ 1

/-- What the member with a key makes of a record. -/
def takeNamed
    (record : Record α)
    (takes : List (Places → α → α → α))
    (omitted : Places)
    (value : α)
    (key : String)
    (result : α) :
    α :=
  match (record.fields.zip takes).find? (·.1.name == key) with
  | some column => column.2 omitted value result
  | none => result

namespace Regular

variable {closed : Bool} {defaulted : List String} {Fits : α → Prop}
  {takes : List (Places → α → α → α)} {value : α}

theorem map_fst_columns (regular : Regular closed defaulted Fits record takes) :
    (record.fields.zip takes).map Prod.fst = record.fields :=
  List.map_fst_zip (Nat.le_of_eq regular.fields.length_eq)

theorem map_snd_columns (regular : Regular closed defaulted Fits record takes) :
    (record.fields.zip takes).map Prod.snd = takes :=
  List.map_snd_zip (Nat.le_of_eq regular.fields.length_eq.symm)

theorem takes_of_mem
    (regular : Regular closed defaulted Fits record takes)
    {column : Field α × (Places → α → α → α)}
    (member : column ∈ record.fields.zip takes) :
    column.1.Takes closed defaulted Fits column.2 :=
  (List.forall₂_iff_zip.mp regular.fields).2 member

/-- Every field is found by its name. -/
theorem find?_field
    (regular : Regular closed defaulted Fits record takes)
    {field : Field α}
    (member : field ∈ record.fields) :
    record.fields.find? (·.name == field.name) = some field :=
  find?_of_nodup regular.distinct member

/-- Fields with the same name are the same. -/
theorem eq_of_name_eq
    (regular : Regular closed defaulted Fits record takes)
    {field other : Field α}
    (member : field ∈ record.fields)
    (memberOther : other ∈ record.fields)
    (same : field.name = other.name) :
    field = other := by
  have found := regular.find?_field member
  rw [same, regular.find?_field memberOther] at found
  exact (Option.some.inj found).symm

/-- The member with the name of a field is taken over as this field. -/
theorem takeNamed_eq
    (regular : Regular closed defaulted Fits record takes)
    {column : Field α × (Places → α → α → α)}
    (member : column ∈ record.fields.zip takes)
    (omitted : Places)
    (value result : α) :
    record.takeNamed takes omitted value column.1.name result = column.2 omitted value result := by
  have distinct : ((record.fields.zip takes).map (·.1.name)).Nodup := by
    have names : ((record.fields.zip takes).map Prod.fst).map (·.name) = record.fieldNames := by
      rw [regular.map_fst_columns, fieldNames]
    rw [List.map_map] at names
    exact names ▸ regular.distinct
  rw [takeNamed, find?_of_nodup distinct member]

/-- Members with other names are ignored. -/
theorem takeNamed_of_unknown
    (regular : Regular closed defaulted Fits record takes)
    {key : String}
    (unknown : key ∉ record.fieldNames)
    (omitted : Places)
    (value result : α) :
    record.takeNamed takes omitted value key result = result := by
  have none : (record.fields.zip takes).find? (·.1.name == key) = none := by
    refine List.find?_eq_none.mpr fun column member same => unknown ?_
    rw [← beq_iff_eq.mp same, fieldNames, ← regular.map_fst_columns]
    exact List.mem_map_of_mem (List.mem_map_of_mem member)
  rw [takeNamed, none]

/-- The order in which two members are taken over makes no difference. -/
theorem takeNamed_comm
    (regular : Regular closed defaulted Fits record takes)
    (omitted : Places)
    (value : α)
    (key other : String)
    (result : α) :
    record.takeNamed takes omitted value key (record.takeNamed takes omitted value other result) =
      record.takeNamed takes omitted value other
        (record.takeNamed takes omitted value key result) := by
  have independent : ∀ first ∈ takes, ∀ second ∈ takes, Independent first second :=
    regular.independent.forall_of_forall fun _ _ _ _ _ => rfl
  have ofColumn : ∀ {column : Field α × (Places → α → α → α)},
      column ∈ record.fields.zip takes → column.2 ∈ takes := fun member =>
    regular.map_snd_columns ▸ List.mem_map_of_mem member
  unfold takeNamed
  cases found : (record.fields.zip takes).find? (·.1.name == key) with
  | none => rfl
  | some column =>
      cases foundOther : (record.fields.zip takes).find? (·.1.name == other) with
      | none => rfl
      | some another =>
          exact independent _ (ofColumn (List.mem_of_find?_eq_some found)) _
            (ofColumn (List.mem_of_find?_eq_some foundOther)) omitted value result

/-- A field that has not been left out is read and taken over. -/
theorem readMember_without
    (regular : Regular closed defaulted Fits record takes)
    {field : Field α}
    (member : field ∈ record.fields)
    {omitted : Places}
    (kept : omitted [.field field.name] = false)
    (fits : Fits value)
    (only : omitted.OnlyFields defaulted)
    (result : α) :
    record.readMember result
        (field.name, (field.write value).without (omitted.inside (.field field.name))) =
      .ok (record.takeNamed takes omitted value field.name result) := by
  rw [← regular.map_fst_columns] at member
  obtain ⟨column, memberColumn, rfl⟩ := List.mem_map.mp member
  rw [readMember, regular.find?_field (List.of_mem_zip memberColumn).1,
    regular.takeNamed_eq memberColumn]
  exact (regular.takes_of_mem memberColumn).read_without omitted value result kept fits only

/-- A field is read as it has been written. -/
theorem readMember_write
    (regular : Regular closed defaulted Fits record takes)
    {field : Field α}
    (member : field ∈ record.fields)
    (fits : Fits value)
    (result : α) :
    record.readMember result (field.name, field.write value) =
      .ok (record.takeNamed takes .nowhere value field.name result) := by
  have read := regular.readMember_without member rfl fits (Places.onlyFields_nowhere _) result
  rwa [Places.inside_nowhere, without_nowhere] at read

/-- A member with another name is refused or ignored. -/
theorem readMember_unknown
    (regular : Regular closed defaulted Fits record takes)
    {key : String}
    (unknown : key ∉ record.fieldNames)
    (added : Json)
    (result : α) :
    record.readMember result (key, added) =
      if closed then .error (.unknownField key record.fieldNames) else .ok result := by
  have none : record.fields.find? (·.name == key) = none :=
    List.find?_eq_none.mpr fun field member same =>
      unknown (beq_iff_eq.mp same ▸ List.mem_map_of_mem member)
  rw [readMember, none, regular.policy]

/-- Taking over the fields that have not been left out is taking over all fields, since the others
keep what they are. -/
theorem foldl_takeNamed
    (regular : Regular closed defaulted Fits record takes)
    {omitted : Places}
    (only : omitted.OnlyFields defaulted)
    (value result : α) :
    (record.fields.filter fun field => !omitted [.field field.name]).foldl
        (fun result field => record.takeNamed takes omitted value field.name result) result =
      takes.foldl (fun result take => take omitted value result) result := by
  suffices parts : ∀ columns : List (Field α × (Places → α → α → α)),
      (∀ column ∈ columns, column ∈ record.fields.zip takes) → ∀ result,
        ((columns.map Prod.fst).filter fun field => !omitted [.field field.name]).foldl
            (fun result field => record.takeNamed takes omitted value field.name result) result =
          (columns.map Prod.snd).foldl (fun result take => take omitted value result) result by
    have whole := parts (record.fields.zip takes) (fun _ member => member) result
    rwa [regular.map_fst_columns, regular.map_snd_columns] at whole
  intro columns within
  induction columns with
  | nil => exact fun _ => rfl
  | cons column rest inductionHypothesis =>
      obtain ⟨here, later⟩ := List.forall_mem_cons.mp within
      intro result
      rw [List.map_cons, List.map_cons, List.foldl_cons, ← inductionHypothesis later]
      cases kept : omitted [.field column.1.name] with
      | true =>
          rw [List.filter_cons_of_neg (by simp [kept]),
            (regular.takes_of_mem here).take_omitted omitted value result only kept]
      | false =>
          rw [List.filter_cons_of_pos (by simp [kept]), List.foldl_cons,
            regular.takeNamed_eq here]

/-- A record without some fields is read as if these were at their defaults. -/
theorem read_without
    (regular : Regular closed defaulted Fits record takes)
    {omitted : Places}
    (fits : Fits value)
    (only : omitted.OnlyFields defaulted) :
    record.read ((record.write value).without omitted) =
      .ok (takes.foldl (fun result take => take omitted value result) record.blank) := by
  have members : (record.write value).without omitted =
      .obj ((record.fields.filter fun field => !omitted [.field field.name]).map fun field =>
        (field.name, (field.write value).without (omitted.inside (.field field.name)))) := by
    rw [write, without, withoutMembers_eq_map_filter, List.filter_map, List.map_map]
    rfl
  rw [members,
    @read_obj_eq_ok _ _ _ fun member => record.takeNamed takes omitted value member.1,
    List.foldl_map, regular.foldl_takeNamed only]
  · intro member inside result
    obtain ⟨field, kept, rfl⟩ := List.mem_map.mp inside
    obtain ⟨memberField, present⟩ := List.mem_filter.mp kept
    exact regular.readMember_without memberField (by simpa using present) fits only result
  · exact fun member _ other _ result =>
      regular.takeNamed_comm omitted value other.1 member.1 result
  · intro field member required
    rw [← regular.map_fst_columns] at member
    obtain ⟨column, memberColumn, rfl⟩ := List.mem_map.mp member
    have kept := only.eq_false ((regular.takes_of_mem memberColumn).required required)
    rw [List.map_map]
    refine List.mem_map.mpr ⟨column.1, List.mem_filter.mpr ⟨(List.of_mem_zip memberColumn).1, ?_⟩,
      rfl⟩
    simp [kept]

/-- Unknown keys make nothing of a record. -/
theorem foldl_takeNamed_filter
    (regular : Regular closed defaulted Fits record takes)
    (omitted : Places)
    (value : α)
    (keys : List String)
    (result : α) :
    keys.foldl (fun result key => record.takeNamed takes omitted value key result) result =
      (keys.filter (record.fieldNames.contains ·)).foldl
        (fun result key => record.takeNamed takes omitted value key result) result := by
  induction keys generalizing result with
  | nil => rfl
  | cons key rest inductionHypothesis =>
      by_cases known : key ∈ record.fieldNames
      · rw [List.filter_cons_of_pos (List.contains_iff_mem.mpr known), List.foldl_cons,
          List.foldl_cons, inductionHypothesis]
      · rw [List.filter_cons_of_neg (mt List.contains_iff_mem.mp known), List.foldl_cons,
          regular.takeNamed_of_unknown known, inductionHypothesis]

/-- Members that are read as the fields of a record are, next to unknown ones, make the same as the
record itself. -/
theorem read_obj_eq_read_write
    (regular : Regular closed defaulted Fits record takes)
    (fits : Fits value)
    {members : List (String × Json)}
    (reads : ∀ member ∈ members, ∀ result, record.readMember result member =
      .ok (record.takeNamed takes .nowhere value member.1 result))
    (names : (members.map Prod.fst).filter (record.fieldNames.contains ·) = record.fieldNames) :
    record.read (.obj members) = record.read (record.write value) := by
  have present : ∀ field ∈ record.fields, field.required = true →
      field.name ∈ members.map Prod.fst := by
    intro field member _
    have known : field.name ∈ record.fieldNames := List.mem_map_of_mem member
    rw [← names] at known
    exact (List.mem_filter.mp known).1
  have read := read_obj_eq_ok reads (fun member _ other _ result =>
    regular.takeNamed_comm .nowhere value other.1 member.1 result) present
  have written := regular.read_without fits (Places.onlyFields_nowhere defaulted)
  rw [without_nowhere] at written
  have all : record.fields.filter (fun field => !Places.nowhere [.field field.name]) =
      record.fields :=
    List.filter_eq_self.mpr fun _ _ => rfl
  rw [read, written]
  refine congrArg Except.ok ?_
  calc
    members.foldl
        (fun result member => record.takeNamed takes .nowhere value member.1 result) record.blank =
        (members.map Prod.fst).foldl
          (fun result key => record.takeNamed takes .nowhere value key result) record.blank := by
      rw [List.foldl_map]
    _ = record.fieldNames.foldl
          (fun result key => record.takeNamed takes .nowhere value key result) record.blank := by
      rw [regular.foldl_takeNamed_filter, names]
    _ = (record.fields.filter fun field => !Places.nowhere [.field field.name]).foldl
          (fun result field => record.takeNamed takes .nowhere value field.name result)
          record.blank := by
      rw [fieldNames, List.foldl_map, all]
    _ = takes.foldl (fun result take => take .nowhere value result) record.blank :=
      regular.foldl_takeNamed (Places.onlyFields_nowhere _) _ _

/-- A record with an unknown member is refused or read as if it were not there. -/
theorem read_extended_here
    (regular : Regular closed defaulted Fits record takes)
    (fits : Fits value)
    {before after : List (String × Json)}
    (members : record.fields.map (fun field => (field.name, field.write value)) = before ++ after)
    {key : String}
    (unknown : key ∉ (before ++ after).map Prod.fst)
    (added : Json) :
    record.read (.obj (before ++ (key, added) :: after)) =
      if closed then
        .error (refusal key (before ++ after))
      else
        record.read (record.write value) := by
  have names : (before ++ after).map Prod.fst = record.fieldNames := by
    rw [← members, List.map_map, fieldNames]
    rfl
  have known : ∀ member ∈ before ++ (key, added) :: after, member = (key, added) ∨
      ∃ field ∈ record.fields, (field.name, field.write value) = member := by
    intro member inside
    rcases List.mem_cons.mp (List.perm_middle.mem_iff.mp inside) with same | inside
    · exact .inl same
    · exact .inr (List.mem_map.mp (members ▸ inside))
  have unknownHere := regular.readMember_unknown (names ▸ unknown) added
  cases closed with
  | true =>
      have several : (before ++ after).length ≠ 1 := by
        rw [← members, List.length_map]
        exact regular.several rfl
      rw [refusal, if_neg several, names]
      refine read_obj_eq_error (List.mem_append_right _ List.mem_cons_self) unknownHere ?_
      intro member inside
      refine (known member inside).imp_right ?_
      rintro ⟨field, memberField, rfl⟩ result
      exact ⟨_, regular.readMember_write memberField fits result⟩
  | false =>
      refine regular.read_obj_eq_read_write fits (fun member inside result => ?_) ?_
      · rcases known member inside with rfl | ⟨field, memberField, rfl⟩
        · rw [unknownHere, regular.takeNamed_of_unknown (names ▸ unknown)]
          rfl
        · exact regular.readMember_write memberField fits result
      · have absent : key ∉ record.fieldNames := names ▸ unknown
        have keys : ∀ name ∈ (before ++ after).map Prod.fst, record.fieldNames.contains name := by
          intro name inside
          exact List.contains_iff_mem.mpr (names ▸ inside)
        rw [List.map_append, List.forall_mem_append] at keys
        rw [List.map_append, List.filter_append, List.map_cons,
          List.filter_cons_of_neg (by simpa using absent), List.filter_eq_self.mpr keys.1,
          List.filter_eq_self.mpr keys.2, ← List.map_append, names]

/-- A field with an unknown member is refused or read as if it were not there. -/
theorem readMember_extended
    (regular : Regular closed defaulted Fits record takes)
    (fits : Fits value)
    {field : Field α}
    (member : field ∈ record.fields)
    {place : Path}
    {before after : List (String × Json)}
    (found : (field.write value).at? place = some (.obj (before ++ after)))
    {key : String}
    (unknown : key ∉ (before ++ after).map Prod.fst)
    (added : Json)
    (result : α) :
    record.readMember result
        (field.name,
          (field.write value).replacing place (.obj (before ++ (key, added) :: after))) =
      if closed then
        .error (refusal key (before ++ after))
      else
        .ok (record.takeNamed takes .nowhere value field.name result) := by
  have memberField := member
  rw [← regular.map_fst_columns] at member
  obtain ⟨column, memberColumn, rfl⟩ := List.mem_map.mp member
  rw [readMember, regular.find?_field memberField, regular.takeNamed_eq memberColumn]
  exact (regular.takes_of_mem memberColumn).read_extended value result place before after key added
    fits found unknown

/-- A record of which a field has an unknown member is refused or read as if it were not there. -/
theorem read_extended_below
    (regular : Regular closed defaulted Fits record takes)
    (fits : Fits value)
    {field : Field α}
    (member : field ∈ record.fields)
    {place : Path}
    {before after : List (String × Json)}
    (found : (field.write value).at? place = some (.obj (before ++ after)))
    {key : String}
    (unknown : key ∉ (before ++ after).map Prod.fst)
    (added : Json) :
    record.read ((record.write value).replacing (.field field.name :: place)
        (.obj (before ++ (key, added) :: after))) =
      if closed then
        .error (refusal key (before ++ after))
      else
        record.read (record.write value) := by
  have readHere := regular.readMember_extended fits member found unknown added
  generalize Json.obj (before ++ (key, added) :: after) = part at readHere
  rw [replacing_write]
  cases closed with
  | true =>
      refine read_obj_eq_error (List.mem_map_of_mem member) ?_ ?_
      · rw [if_pos rfl]
        exact readHere
      · intro other inside
        obtain ⟨another, memberOther, rfl⟩ := List.mem_map.mp inside
        by_cases same : another.name = field.name
        · obtain rfl := regular.eq_of_name_eq memberOther member same
          exact .inl rfl
        · rw [if_neg same]
          exact .inr fun result => ⟨_, regular.readMember_write memberOther fits result⟩
  | false =>
      refine regular.read_obj_eq_read_write fits (fun other inside result => ?_) ?_
      · obtain ⟨another, memberOther, rfl⟩ := List.mem_map.mp inside
        by_cases same : another.name = field.name
        · obtain rfl := regular.eq_of_name_eq memberOther member same
          rw [if_pos rfl]
          exact readHere result
        · rw [if_neg same]
          exact regular.readMember_write memberOther fits result
      · rw [List.map_map]
        exact List.filter_eq_self.mpr fun name inside => List.contains_iff_mem.mpr inside

/-- A regular record is lawful.  What it is read as without some fields is given by all fields taken
over one after the other. -/
theorem lawful
    (regular : Regular closed defaulted Fits record takes)
    {withDefaults : Places → α → α}
    (assembled : ∀ omitted value,
      takes.foldl (fun result take => take omitted value result) record.blank =
        withDefaults omitted value)
    (whole : ∀ value, withDefaults .nowhere value = value) :
    record.codec.Lawful closed defaulted Fits withDefaults where
  withDefaults_nowhere := whole
  read_without value omitted fits only := by
    rw [← assembled]
    exact regular.read_without fits only
  read_extended value place before after key added fits found unknown := by
    have written : record.read (record.write value) = .ok value := by
      have read := regular.read_without fits (Places.onlyFields_nowhere defaulted)
      rwa [without_nowhere, assembled, whole] at read
    rw [← written]
    rcases place with _ | ⟨name | index, rest⟩
    · exact regular.read_extended_here fits (Json.obj.inj (Option.some.inj found)) unknown added
    · obtain ⟨json, looked, foundBelow⟩ := Option.bind_eq_some_iff.mp found
      obtain ⟨earlier, later, split, _⟩ := List.lookup_eq_some_iff.mp looked
      have inside : (name, json) ∈ record.fields.map fun field => (field.name, field.write value) :=
        split ▸ List.mem_append_right _ List.mem_cons_self
      obtain ⟨field, member, same⟩ := List.mem_map.mp inside
      obtain ⟨rfl, rfl⟩ := Prod.mk.inj same
      exact regular.read_extended_below fits member foundBelow unknown added
    · cases found

end Regular

end Record

end Neurochip.Json
