import Draftboard.Package.Codec
import Draftboard.Changeset.FilterDefaults
import Draftboard.Desk.Grouping
import Draftboard.Proofs.Calendar.Text
import Draftboard.Proofs.Json.RoundTrips
/-!
# Records read back

What is written for a snapshot, a schema, a form, a filter or a group is read as the same record, the
titles of links included: as a JSON value, and as the text of that value. This holds of the records
whose numbers fit 64 bits and whose time has a text of its own. A reader gives no other record.
-/

namespace Draftboard

open Json

/-! ## Scalars -/

theorem roundTrips_date (depth : Nat) (d : Date) : RoundTrips depth d where
  exact := .str depth d.text
  ofJson?_eq := by
    have htext : d.toJson.str? = some d.text := rfl
    change Date.ofJson? d.toJson = some d
    rw [Date.ofJson?, htext, Option.bind_some, d.read?_text]

theorem roundTrips_instant (depth : Nat) {t : Instant} (h : t.IsReadable) : RoundTrips depth t where
  exact := .str depth t.text
  ofJson?_eq := by
    have htext : t.toJson.str? = some t.text := rfl
    change Instant.ofJson? t.toJson = some t
    rw [Instant.ofJson?, htext, Option.bind_some, t.read?_text h]

theorem roundTrips_id (depth : Nat) (id : PackageId) : RoundTrips depth id :=
  ⟨.str depth id.text, rfl⟩

/-! ## Values -/

theorem roundTrips_link (depth : Nat) (link : Link) : RoundTrips (depth + 1) link := by
  obtain ⟨href, title⟩ := link
  cases title with
  | none => exact ⟨.obj (by simp [Exact.str]), rfl⟩
  | some title => exact ⟨.obj (by simp [Exact.str]), rfl⟩

def AttrValue.InRange : AttrValue → Prop
  | .int n => FitsInt64 n
  | _ => True

theorem AttrValue.ofJson?_obj (kind : String) (content : Json) :
    AttrValue.ofJson? (.obj [("kind", .str kind), ("value", content)]) =
      AttrValue.ofContent? kind (some content) := by
  simp [AttrValue.ofJson?, recordFrom?, single?, choice?, isContentFirst]

theorem roundTrips_content {α : Type} [ToJson α] [FromJson α] {depth : Nat} (kind : String)
    (make : α → AttrValue) {a : α} (ha : RoundTrips (depth + 2) a)
    (hwrite : (make a).toJson = .obj [("kind", kind), ("value", toJson a)])
    (hread : ∀ j, AttrValue.ofContent? kind (some j) = (ofJson? j).map make) :
    RoundTrips (depth + 3) (make a) where
  exact := by
    change Exact (depth + 3) (make a).toJson
    rw [hwrite]
    exact .obj (by simp [(roundTrips_string _ kind).exact, ha.exact])
  ofJson?_eq := by
    have hobj : AttrValue.ofJson? (.obj [("kind", kind), ("value", toJson a)]) =
        AttrValue.ofContent? kind (some (toJson a)) := AttrValue.ofJson?_obj kind (toJson a)
    change AttrValue.ofJson? (make a).toJson = some (make a)
    rw [hwrite, hobj, hread, ha.ofJson?_eq, Option.map_some]

theorem roundTrips_value (depth : Nat) {v : AttrValue} (h : v.InRange) :
    RoundTrips (depth + 3) v := by
  cases v with
  | null => exact ⟨.obj (by simp [(roundTrips_string _ "null").exact]), rfl⟩
  | bool b => exact roundTrips_content "bool" .bool (roundTrips_bool _ b) rfl fun _ => rfl
  | int n => exact roundTrips_content "int" .int (roundTrips_int _ h) rfl fun _ => rfl
  | text s => exact roundTrips_content "text" .text (roundTrips_string _ s) rfl fun _ => rfl
  | date d => exact roundTrips_content "date" .date (roundTrips_date _ d) rfl fun _ => rfl
  | link l => exact roundTrips_content "link" .link (roundTrips_link _ l) rfl fun _ => rfl
  | links ls =>
    exact roundTrips_content "links" .links (roundTrips_list fun l _ => roundTrips_link _ l) rfl
      fun _ => rfl

def Attributes.InRange (attributes : Attributes) : Prop :=
  ∀ (name : String) (v : AttrValue), attributes[name]? = some v → v.InRange

theorem inRange_empty : Attributes.InRange ∅ := by
  intro name v h
  simp at h

theorem Attributes.InRange.insert {attributes : Attributes} (h : attributes.InRange) (name : String)
    {v : AttrValue} (hv : v.InRange) : Attributes.InRange (attributes.insert name v) := by
  intro other w hw
  simp only [Std.ExtTreeMap.getElem?_insert] at hw
  split at hw
  · exact Option.some.inj hw ▸ hv
  · exact h other w hw

theorem roundTrips_attributes (depth : Nat) {attributes : Attributes} (h : attributes.InRange) :
    RoundTrips (depth + 4) attributes :=
  roundTrips_map fun name v hv => roundTrips_value depth (h name v hv)

theorem AttrValue.inRange_of_ofContent? {kind : String} {content : Option Json} {v : AttrValue}
    (h : AttrValue.ofContent? kind content = some v) : v.InRange := by
  unfold AttrValue.ofContent? at h
  split at h
  case h_1 =>
    split at h
    case h_1 | h_2 =>
      obtain rfl := Option.some.inj h
      trivial
    case h_3 => cases h
  case h_3 =>
    obtain ⟨n, hn, rfl⟩ := Option.map_eq_some_iff.1 h
    obtain ⟨j, -, hj⟩ := Option.bind_eq_some_iff.1 hn
    exact fitsInt64_of_int64? hj
  case h_2 | h_4 | h_5 | h_6 | h_7 =>
    obtain ⟨_, -, rfl⟩ := Option.map_eq_some_iff.1 h
    trivial
  case h_8 => cases h

theorem AttrValue.inRange_of_ofJson? (j : Json) (v : AttrValue) (h : AttrValue.ofJson? j = some v) :
    v.InRange := by
  simp only [AttrValue.ofJson?, Option.bind_eq_bind, Option.bind_eq_some_iff] at h
  obtain ⟨values, -, h⟩ := h
  split at h
  case h_1 =>
    obtain ⟨kind, -, h⟩ := Option.bind_eq_some_iff.1 h
    split at h
    · obtain ⟨content, -, h⟩ := Option.bind_eq_some_iff.1 h
      exact AttrValue.inRange_of_ofContent? h
    · exact AttrValue.inRange_of_ofContent? h
  case h_2 => cases h

theorem Attributes.inRange_of_defaulted {content : Option Json} {attributes : Attributes}
    (h : defaulted ∅ content = some attributes) : attributes.InRange :=
  of_defaulted inRange_empty
    (fun _ _ hread => forall_getElem?_of_map? AttrValue.inRange_of_ofJson? hread) h

/-! ## Snapshots -/

/-- A snapshot with a lock version of 64 bits, whole numbers of 64 bits, and a time that a text can
stand for. -/
structure Snapshot.InRange (s : Snapshot) : Prop where
  lockVersion_lt : s.lockVersion < UInt64.size
  attributes : s.attributes.InRange
  updatedAt : ∀ t ∈ s.updatedAt, t.IsReadable

theorem record?_snapshot (s : Snapshot) :
    record? s.toJson
      ["id", "lockVersion", "typeHref", "attributes", "isLeaf", "readonly", "updatedAt"] =
      some [some (toJson s.id), some (toJson s.lockVersion), some (toJson s.typeHref),
        some (toJson s.attributes), some (toJson s.isLeaf), some (toJson s.readonly),
        s.updatedAt.map Instant.toJson] := by
  obtain ⟨id, lockVersion, typeHref, attributes, isLeaf, readonly, updatedAt⟩ := s
  cases updatedAt with
  | none => simp [Snapshot.toJson, record?, recordFrom?, single?]
  | some t => simp [Snapshot.toJson, record?, recordFrom?, single?]

theorem nullable_instant {t : Option Instant} (h : ∀ u ∈ t, u.IsReadable) :
    nullable (t.map Instant.toJson) = some t := by
  cases t with
  | none => rfl
  | some t =>
    have hread : ofJson? t.toJson = some t := (roundTrips_instant 0 (h t rfl)).ofJson?_eq
    have htext : t.toJson = .str t.text := rfl
    rw [htext] at hread
    rw [Option.map_some, htext, nullable, hread]
    · rfl
    · simp

theorem exact_snapshot (depth : Nat) {s : Snapshot} (h : s.InRange) :
    Exact (depth + 5) s.toJson := by
  have hid := (roundTrips_id (depth + 4) s.id).exact
  have hversion := (roundTrips_nat (depth + 4) h.lockVersion_lt).exact
  have htype := (roundTrips_string (depth + 4) s.typeHref).exact
  have hattributes := (roundTrips_attributes depth h.attributes).exact
  have hleaf := (roundTrips_bool (depth + 4) s.isLeaf).exact
  have hreadonly := (roundTrips_bool (depth + 4) s.readonly).exact
  have hupdated : ∀ t ∈ s.updatedAt, Exact (depth + 4) t.toJson := fun t ht =>
    (roundTrips_instant (depth + 4) (h.updatedAt t ht)).exact
  refine .obj fun field hfield => ?_
  rcases List.mem_append.1 hfield with hfield | hfield
  · revert field
    simp [hid, hversion, htype, hattributes, hleaf, hreadonly]
  · simp only [Option.mem_toList, Option.map_eq_some_iff] at hfield
    obtain ⟨t, ht, rfl⟩ := hfield
    exact hupdated t ht

theorem ofJson?_snapshot {j : Json} {s : Snapshot}
    {id lockVersion typeHref attributes isLeaf readonly updatedAt : Option Json}
    (hrecord : record? j
      ["id", "lockVersion", "typeHref", "attributes", "isLeaf", "readonly", "updatedAt"] =
      some [id, lockVersion, typeHref, attributes, isLeaf, readonly, updatedAt])
    (hid : required id = some s.id) (hversion : defaulted 0 lockVersion = some s.lockVersion)
    (htype : required typeHref = some s.typeHref)
    (hattributes : defaulted ∅ attributes = some s.attributes)
    (hleaf : defaulted true isLeaf = some s.isLeaf)
    (hreadonly : defaulted false readonly = some s.readonly)
    (hupdated : nullable updatedAt = some s.updatedAt) : Snapshot.ofJson? j = some s := by
  rw [Snapshot.ofJson?, hrecord]
  simp only [hid, hversion, htype, hattributes, hleaf, hreadonly, hupdated, Option.bind_eq_bind,
    Option.bind_some]

theorem roundTrips_snapshot (depth : Nat) {s : Snapshot} (h : s.InRange) :
    RoundTrips (depth + 5) s where
  exact := exact_snapshot depth h
  ofJson?_eq := ofJson?_snapshot (record?_snapshot s) (roundTrips_id 0 s.id).required_eq
    ((roundTrips_nat 0 h.lockVersion_lt).defaulted_eq 0)
    (roundTrips_string 0 s.typeHref).required_eq
    ((roundTrips_attributes 0 h.attributes).defaulted_eq ∅)
    ((roundTrips_bool 0 s.isLeaf).defaulted_eq true)
    ((roundTrips_bool 0 s.readonly).defaulted_eq false) (nullable_instant h.updatedAt)

theorem isReadable_of_nullable {content : Option Json} {updatedAt : Option Instant}
    (h : nullable content = some updatedAt) : ∀ t ∈ updatedAt, t.IsReadable := by
  unfold nullable at h
  split at h
  case h_1 | h_2 =>
    obtain rfl := Option.some.inj h
    simp
  case h_3 j _ =>
    obtain ⟨t, ht, rfl⟩ := Option.map_eq_some_iff.1 h
    change j.str?.bind Instant.read? = some t at ht
    obtain ⟨text, -, hread⟩ := Option.bind_eq_some_iff.1 ht
    intro u hu
    obtain rfl := Option.mem_some.1 hu
    exact Instant.isReadable_of_read? hread

theorem Snapshot.inRange_of_ofJson? {j : Json} {s : Snapshot} (h : Snapshot.ofJson? j = some s) :
    s.InRange := by
  simp only [Snapshot.ofJson?, Option.bind_eq_bind, Option.bind_eq_some_iff] at h
  obtain ⟨values, -, h⟩ := h
  split at h
  case h_1 =>
    simp only [Option.bind_eq_some_iff] at h
    obtain ⟨_, -, _, hversion, _, -, _, hattributes, _, -, _, -, _, hupdated, h⟩ := h
    obtain rfl := Option.some.inj h
    have hlt := of_defaulted (P := fun n : Nat => n < UInt64.size) (by decide)
      (fun _ _ => lt_size_of_nat64?) hversion
    exact ⟨hlt, Attributes.inRange_of_defaulted hattributes, isReadable_of_nullable hupdated⟩
  case h_2 => cases h

/-! ## Schemas and forms -/

theorem roundTrips_kind (depth : Nat) (kind : FieldKind) : RoundTrips depth kind where
  exact := .str depth kind.name
  ofJson?_eq := by cases kind <;> rfl

theorem roundTrips_field (depth : Nat) (f : FieldSchema) : RoundTrips (depth + 1) f := by
  have hwritable := roundTrips_bool depth f.writable
  have hmandatory := roundTrips_bool depth f.required
  have hkind := roundTrips_kind depth f.kind
  refine ⟨.obj (by simp [hwritable.exact, hmandatory.exact, hkind.exact]), ?_⟩
  change FieldSchema.ofJson? f.toJson = some f
  simp [FieldSchema.ofJson?, FieldSchema.toJson, record?, recordFrom?, single?,
    hwritable.defaulted_eq, hmandatory.defaulted_eq, hkind.defaulted_eq]

theorem roundTrips_schema (depth : Nat) (s : Schema) : RoundTrips (depth + 3) s := by
  have htype := roundTrips_string (depth + 2) s.typeHref
  have hfields : RoundTrips (depth + 2) s.fields := roundTrips_map fun _ f _ =>
    roundTrips_field depth f
  refine ⟨.obj (by simp [htype.exact, hfields.exact]), ?_⟩
  change Schema.ofJson? s.toJson = some s
  simp [Schema.ofJson?, Schema.toJson, record?, recordFrom?, single?, htype.required_eq,
    hfields.defaulted_eq]

theorem roundTrips_form (depth : Nat) {f : Form} (h : f.payload.InRange) :
    RoundTrips (depth + 5) f := by
  have hpayload := roundTrips_attributes depth h
  have herrors : RoundTrips (depth + 4) f.validationErrors := roundTrips_map fun _ messages _ =>
    roundTrips_list fun message _ => roundTrips_string (depth + 2) message
  refine ⟨.obj (by simp [hpayload.exact, herrors.exact]), ?_⟩
  change Form.ofJson? f.toJson = some f
  simp [Form.ofJson?, Form.toJson, record?, recordFrom?, single?, hpayload.defaulted_eq,
    herrors.defaulted_eq]

theorem Form.inRange_of_ofJson? {j : Json} {f : Form} (h : Form.ofJson? j = some f) :
    f.payload.InRange := by
  simp only [Form.ofJson?, Option.bind_eq_bind, Option.bind_eq_some_iff] at h
  obtain ⟨values, -, h⟩ := h
  split at h
  case h_1 =>
    simp only [Option.bind_eq_some_iff] at h
    obtain ⟨_, hpayload, _, -, h⟩ := h
    obtain rfl := Option.some.inj h
    exact Attributes.inRange_of_defaulted hpayload
  case h_2 => cases h

/-! ## Filters and groups -/

theorem roundTrips_operator (depth : Nat) (op : FilterOperator) : RoundTrips depth op where
  exact := .str depth op.symbol
  ofJson?_eq := by cases op <;> rfl

theorem roundTrips_filter (depth : Nat) {f : Filter} (h : ∀ v ∈ f.values, v.InRange) :
    RoundTrips (depth + 5) f := by
  have hname := roundTrips_string (depth + 4) f.name
  have hoperator := roundTrips_operator (depth + 4) f.operator
  have hvalues : RoundTrips (depth + 4) f.values := roundTrips_list fun v hv =>
    roundTrips_value depth (h v hv)
  refine ⟨.obj (by simp [hname.exact, hoperator.exact, hvalues.exact]), ?_⟩
  change Filter.ofJson? f.toJson = some f
  simp [Filter.ofJson?, Filter.toJson, record?, recordFrom?, single?, hname.required_eq,
    hoperator.required_eq, hvalues.defaulted_eq]

theorem roundTrips_group (depth : Nat) {g : Group} (h : g.value.InRange) :
    RoundTrips (depth + 4) g := by
  have hidentifier := roundTrips_string (depth + 3) g.identifier
  have hvalue := roundTrips_value depth h
  have hlinks : RoundTrips (depth + 3) g.valueLinks := roundTrips_list fun link _ =>
    roundTrips_link (depth + 1) link
  refine ⟨.obj (by simp [hidentifier.exact, hvalue.exact, hlinks.exact]), ?_⟩
  change Group.ofJson? g.toJson = some g
  simp [Group.ofJson?, Group.toJson, record?, recordFrom?, single?, hidentifier.required_eq,
    hvalue.defaulted_eq, hlinks.defaulted_eq]

theorem Filter.inRange_of_ofJson? {j : Json} {f : Filter} (h : Filter.ofJson? j = some f) :
    ∀ v ∈ f.values, v.InRange := by
  simp only [Filter.ofJson?, Option.bind_eq_bind, Option.bind_eq_some_iff] at h
  obtain ⟨values, -, h⟩ := h
  split at h
  case h_1 =>
    simp only [Option.bind_eq_some_iff] at h
    obtain ⟨_, -, _, -, items, hitems, h⟩ := h
    obtain rfl := Option.some.inj h
    exact of_defaulted (P := fun values : List AttrValue => ∀ v ∈ values, v.InRange) (by simp)
      (fun _ _ hread => forall_mem_of_list? AttrValue.inRange_of_ofJson? hread) hitems
  case h_2 => cases h

theorem Group.inRange_of_ofJson? {j : Json} {g : Group} (h : Group.ofJson? j = some g) :
    g.value.InRange := by
  simp only [Group.ofJson?, Option.bind_eq_bind, Option.bind_eq_some_iff] at h
  obtain ⟨values, -, h⟩ := h
  split at h
  case h_1 =>
    simp only [Option.bind_eq_some_iff] at h
    obtain ⟨_, -, _, hvalue, _, -, h⟩ := h
    obtain rfl := Option.some.inj h
    exact of_defaulted (P := AttrValue.InRange) (show AttrValue.InRange .null from trivial)
      AttrValue.inRange_of_ofJson? hvalue
  case h_2 => cases h

/-! ## All records -/

/-- Every record in range is read back as it was, from its JSON and from the text of that. The others
are not: they are no values of 64 bits, or have no time that a text can stand for. -/
theorem records_read_back :
    (∀ s : Snapshot, ReadsBack s ↔ s.InRange) ∧ (∀ s : Schema, ReadsBack s) ∧
      (∀ f : Form, ReadsBack f ↔ f.payload.InRange) ∧
      (∀ f : Filter, ReadsBack f ↔ ∀ v ∈ f.values, v.InRange) ∧
      (∀ g : Group, ReadsBack g ↔ g.value.InRange) := by
  refine ⟨fun s => ⟨fun h => Snapshot.inRange_of_ofJson? h.1, fun h => ?_⟩, fun s => ?_,
    fun f => ⟨fun h => Form.inRange_of_ofJson? h.1, fun h => ?_⟩,
    fun f => ⟨fun h => Filter.inRange_of_ofJson? h.1, fun h => ?_⟩,
    fun g => ⟨fun h => Group.inRange_of_ofJson? h.1, fun h => ?_⟩⟩
  · exact (roundTrips_snapshot 122 h).readsBack
  · exact (roundTrips_schema 124 s).readsBack
  · exact (roundTrips_form 122 h).readsBack
  · exact (roundTrips_filter 122 h).readsBack
  · exact (roundTrips_group 123 h).readsBack

def eachKind : Attributes :=
  ((((((∅ : Attributes).insert "budget" (.int (-9223372036854775808))).insert "dueDate"
    (.date { day := Calendar.lastDay })).insert "note" (.text "a \"b\" \\ c\n\x01")).insert "parent"
      .null).insert "private" (.bool true)).insert "status"
        (.link { href := "/api/v3/statuses/1", title := some "New" }) |>.insert "watchers"
          (.links [{ href := "/api/v3/users/5", title := some "" }, { href := "/api/v3/users/6" }])

theorem inRange_eachKind : eachKind.InRange := by
  have hbudget : AttrValue.InRange (.int (-9223372036854775808)) := ⟨by decide, by decide⟩
  refine ((((((inRange_empty.insert "budget" hbudget).insert "dueDate" ?_).insert "note" ?_).insert
    "parent" ?_).insert "private" ?_).insert "status" ?_).insert "watchers" ?_
  all_goals trivial

def fullSnapshot : Snapshot :=
  { id := { text := "7" }, lockVersion := 18446744073709551615, typeHref := "/api/v3/types/1"
    attributes := eachKind, isLeaf := false, readonly := true
    updatedAt := some { seconds := 1483228799, nanos := 1500000000 } }

theorem inRange_fullSnapshot : fullSnapshot.InRange where
  lockVersion_lt := by decide
  attributes := inRange_eachKind
  updatedAt t ht := by
    obtain rfl := Option.mem_some.1 ht
    exact ⟨by decide, by decide, by decide⟩

theorem records_read_back_each_kind :
    let form : Form :=
      { payload := eachKind
        validationErrors := (∅ : TextMap (List String)).insert "subject" ["can't be blank"] }
    let filter : Filter := { name := "status", operator := .none, values := [.int 3, .null] }
    let group : Group :=
      { identifier := "bug", value := .int 9223372036854775807
        valueLinks := [{ href := "/api/v3/types/1", title := some "Bug" }] }
    (fullSnapshot.InRange ∧ ReadsBack fullSnapshot) ∧
      (form.payload.InRange ∧ ReadsBack form) ∧
      ((∀ v ∈ filter.values, v.InRange) ∧ ReadsBack filter) ∧
      (group.value.InRange ∧ ReadsBack group) := by
  intro form filter group
  obtain ⟨hsnapshots, -, hforms, hfilters, hgroups⟩ := records_read_back
  have hvalues : ∀ v ∈ filter.values, v.InRange := by
    intro v hv
    simp only [filter, List.mem_cons, List.not_mem_nil, or_false] at hv
    rcases hv with rfl | rfl
    · exact ⟨by decide, by decide⟩
    · trivial
  have hvalue : group.value.InRange := ⟨by decide, by decide⟩
  exact ⟨⟨inRange_fullSnapshot, (hsnapshots _).2 inRange_fullSnapshot⟩,
    ⟨inRange_eachKind, (hforms form).2 inRange_eachKind⟩, ⟨hvalues, (hfilters filter).2 hvalues⟩,
    ⟨hvalue, (hgroups group).2 hvalue⟩⟩

end Draftboard
