import InstrumentBus.Control.Record
import InstrumentBus.Proofs.Json.Record
import InstrumentBus.Proofs.Json.RoundTrip
import InstrumentBus.Proofs.Time.Zoned

/-!
The JSON value of a request or a response says all that is in it.
-/

namespace InstrumentBus.Control

theorem nat?_integer {bound n : Nat} (h : n < bound) : (Json.integer n).nat? bound = some n := by
  rw [Json.nat?, if_pos ⟨Int.natCast_nonneg n, Int.ofNat_lt.2 h⟩, Int.toNat_natCast]

@[simp] theorem uint64?_integer64 (n : UInt64) : (integer64 n).uint64? = some n := by
  rw [integer64, Json.uint64?, nat?_integer n.toNat_lt_size, Option.map_some, UInt64.ofNat_toNat]

@[simp] theorem uint16?_integer (n : UInt16) : (Json.integer n.toNat).uint16? = some n := by
  rw [Json.uint16?, nat?_integer n.toNat_lt_size, Option.map_some, UInt16.ofNat_toNat]

@[simp] theorem string?_string (s : String) : (Json.string s).string? = some s := rfl

@[simp] theorem name?_string (s : String) : (Json.string s).name? = some s := rfl

theorem list?_map {α : Type} {toJson : α → Json} {item? : Json → Option α}
    (h : ∀ a, item? (toJson a) = some a) (as : List α) :
    (Json.array (as.map toJson)).list? item? = some as := by
  simp only [Json.list?]
  induction as with
  | nil => rfl
  | cons a as ih => simp [h, ih]

@[simp] theorem strings?_strings (xs : List String) : strings? (strings xs) = some xs :=
  list?_map string?_string xs

@[simp] theorem driverKind?_string (k : DriverKind) : driverKind? (.string k.name) = some k :=
  DriverKind.ofName?_name k

theorem variant?_ofVariant {name : String} {members : List (String × Json)}
    (h : ∀ m ∈ members, m.1 ≠ "type") :
    variant? (ofVariant name members) = some (name, .object members) := by
  have hrest : members.filter (fun m => m.1 == "type") = [] :=
    List.filter_eq_nil_iff.2 fun m hm => by simpa using h m hm
  have hall : members.filter (fun m => m.1 != "type") = members :=
    List.filter_eq_self.2 fun m hm => by simpa using h m hm
  simp [variant?, ofVariant, Json.lookup, hrest, hall]

theorem inner?_object (members : List (String × Json)) (h : (members.map Prod.fst).Nodup) :
    inner? (members.map Prod.fst) (.object members) = some (members.map fun m => some m.2) := by
  have hrecord := Json.record?_object members [] (by rwa [List.append_nil])
  rwa [List.append_nil, List.map_nil, List.append_nil] at hrecord

theorem Request.ofJson?_toJson (r : Request) : ofJson? r.toJson = some r := by
  cases r with
  | ping => rfl
  | status => rfl
  | listDevices => rfl
  | load d =>
    have hinner : inner? ["kind", "target"]
        (.object [("kind", .string d.kind.name), ("target", .string d.target)]) =
          some [some (.string d.kind.name), some (.string d.target)] :=
      inner?_object [("kind", .string d.kind.name), ("target", .string d.target)]
        (show ["kind", "target"].Nodup by decide)
    rw [toJson, ofJson?, variant?_ofVariant (by simp)]
    simp [hinner]
  | unload identifier =>
    have hrecord : Json.record? ["identifier"] (.object [("identifier", .string identifier)]) =
        some [some (.string identifier)] :=
      Json.record?_object [("identifier", .string identifier)] []
        (show ["identifier"].Nodup by decide)
    rw [toJson, ofJson?, variant?_ofVariant (by simp)]
    simp [hrecord]
  | shutdown => rfl

theorem StatusInfo.ofMembers?_members {i : StatusInfo} (h : i.startedAt.IsProper) :
    (inner? names (.object i.members)).bind ofMembers? = some i := by
  have hinner : inner? names (.object i.members) = some (i.members.map fun m => some m.2) :=
    inner?_object i.members (show names.Nodup by decide)
  rw [hinner, Option.bind_some]
  simp only [members, List.map_cons, List.map_nil, ofMembers?, uint64?_integer64, uint16?_integer,
    string?_string, Time.readZoned?_writeZoned h, Option.bind_eq_bind, Option.bind_some]

theorem DeviceInfo.ofJson?_of_record {j a b c : Json} {d : Option Json} {i : DeviceInfo}
    (hrecord : j.record? ["id", "kind", "identifiers", "devices"] = some [some a, some b, some c, d])
    (hid : a.uint64? = some i.id) (hkind : driverKind? b = some i.kind)
    (hidentifiers : strings? c = some i.identifiers)
    (hdevices : d.elim (some []) strings? = some i.devices) : ofJson? j = some i := by
  simp [ofJson?, hrecord, hid, hkind, hidentifiers, hdevices]

theorem DeviceInfo.ofJson?_toJson (i : DeviceInfo) : ofJson? i.toJson = some i := by
  obtain ⟨id, kind, identifiers, devices⟩ := i
  have hnames : ["id", "kind", "identifiers", "devices"].Nodup := by decide
  cases devices with
  | nil =>
    exact ofJson?_of_record
      (Json.record?_object
        [("id", integer64 id), ("kind", .string kind.name), ("identifiers", strings identifiers)]
        ["devices"] hnames)
      (uint64?_integer64 id) (driverKind?_string kind) (strings?_strings identifiers) rfl
  | cons device devices =>
    exact ofJson?_of_record
      (Json.record?_object
        [("id", integer64 id), ("kind", .string kind.name), ("identifiers", strings identifiers),
          ("devices", strings (device :: devices))]
        [] hnames)
      (uint64?_integer64 id) (driverKind?_string kind) (strings?_strings identifiers)
      (strings?_strings (device :: devices))

/-- A response of which the time, if it has one, can be told. There are no others among those that
are read (`isProper_of_ofJson?`). -/
def Response.IsProper (r : Response) : Prop := ∀ info, r = .status info → info.startedAt.IsProper

theorem Response.ofJson?_status {j rest : Json} {info : StatusInfo}
    (hvariant : variant? j = some ("status", rest))
    (hinfo : (inner? StatusInfo.names rest).bind StatusInfo.ofMembers? = some info) :
    ofJson? j = some (.status info) := by
  obtain ⟨members, hinner, hmembers⟩ := Option.bind_eq_some_iff.1 hinfo
  simp [ofJson?, hvariant, hinner, hmembers]

theorem Response.ofJson?_toJson {r : Response} (h : r.IsProper) : ofJson? r.toJson = some r := by
  cases r with
  | pong => rfl
  | ok => rfl
  | status info =>
    exact ofJson?_status (variant?_ofVariant (by simp [StatusInfo.members]))
      (StatusInfo.ofMembers?_members (h info rfl))
  | devices infos =>
    have hrecord : Json.record? ["devices"]
        (.object [("devices", .array (infos.map DeviceInfo.toJson))]) =
          some [some (.array (infos.map DeviceInfo.toJson))] :=
      Json.record?_object [("devices", .array (infos.map DeviceInfo.toJson))] []
        (show ["devices"].Nodup by decide)
    rw [toJson, ofJson?, variant?_ofVariant (by simp)]
    simp [hrecord, list?_map DeviceInfo.ofJson?_toJson]
  | error f =>
    have hinner : inner? ["code", "message"]
        (.object [("code", .string f.code.name), ("message", .string f.message)]) =
          some [some (.string f.code.name), some (.string f.message)] :=
      inner?_object [("code", .string f.code.name), ("message", .string f.message)]
        (show ["code", "message"].Nodup by decide)
    rw [toJson, ofJson?, variant?_ofVariant (by simp)]
    simp [hinner]

theorem StatusInfo.isProper_of_ofMembers? {members : List (Option Json)} {i : StatusInfo}
    (h : ofMembers? members = some i) : i.startedAt.IsProper := by
  unfold ofMembers? at h
  split at h
  · simp only [Option.bind_eq_bind, Option.bind_eq_some_iff] at h
    obtain ⟨_, -, _, -, startedAt, hstarted, _, -, _, -, _, -, _, -, ⟨⟩⟩ := h
    exact Time.isProper_of_readZoned? hstarted
  · cases h

theorem eq_of_alone? {α : Type} {a b : α} {j : Json} (h : alone? a j = some b) : b = a := by
  unfold alone? at h
  split at h <;> cases h <;> rfl

theorem Response.isProper_of_ofJson? {j : Json} {r : Response} (h : ofJson? j = some r) :
    r.IsProper := by
  rintro info rfl
  simp only [ofJson?, Option.bind_eq_bind, Option.bind_eq_some_iff] at h
  obtain ⟨⟨name, rest⟩, -, h⟩ := h
  split at h
  · cases eq_of_alone? h
  · cases eq_of_alone? h
  · obtain ⟨members, -, hinfo⟩ := Option.bind_eq_some_iff.1 h
    obtain ⟨i, hi, ⟨⟩⟩ := Option.map_eq_some_iff.1 hinfo
    exact StatusInfo.isProper_of_ofMembers? hi
  · obtain ⟨members, -, h⟩ := Option.bind_eq_some_iff.1 h
    split at h
    · obtain ⟨infos, -, ⟨⟩⟩ := Option.map_eq_some_iff.1 h
    · cases h
  · obtain ⟨members, -, h⟩ := Option.bind_eq_some_iff.1 h
    split at h
    · simp only [Option.bind_eq_some_iff] at h
      obtain ⟨_, -, _, -, ⟨⟩⟩ := h
    · cases h
  · cases h

theorem kept_integer {limit n : Nat} (h : n < 2 ^ 64) : Json.Kept limit (.integer n) := by
  refine .integer ?_
  rw [Int.natAbs_natCast]
  by_cases hn : n = 0
  · subst hn
    decide
  · exact Nat.lt_trans ((Nat.log2_lt hn).2 h) (by decide)

theorem kept_integer64 {limit : Nat} (n : UInt64) : (integer64 n).Kept limit :=
  kept_integer n.toNat_lt_size

theorem kept_strings {limit : Nat} (xs : List String) : (strings xs).Kept (limit + 1) := by
  refine .array fun item hitem => ?_
  obtain ⟨x, -, rfl⟩ := List.mem_map.1 hitem
  exact .string x

theorem kept_ofVariant {limit : Nat} (name : String) {members : List (String × Json)}
    (h : ∀ m ∈ members, m.2.Kept limit) : (ofVariant name members).Kept (limit + 1) :=
  .object (List.forall_mem_cons.2 ⟨.string name, h⟩)

theorem Request.kept_toJson {limit : Nat} (r : Request) : r.toJson.Kept (limit + 1) := by
  cases r with
  | ping => exact kept_ofVariant _ (by simp)
  | status => exact kept_ofVariant _ (by simp)
  | listDevices => exact kept_ofVariant _ (by simp)
  | load d => exact kept_ofVariant _ (by simp [Json.Kept.string])
  | unload identifier => exact kept_ofVariant _ (by simp [Json.Kept.string])
  | shutdown => exact kept_ofVariant _ (by simp)

theorem DeviceInfo.kept_toJson {limit : Nat} (i : DeviceInfo) : i.toJson.Kept (limit + 2) := by
  have hfirst : ∀ m ∈ [("id", integer64 i.id), ("kind", .string i.kind.name),
      ("identifiers", strings i.identifiers)], m.2.Kept (limit + 1) := by
    simp [kept_integer64, Json.Kept.string, kept_strings]
  have hdevices : ∀ m ∈ if i.devices.isEmpty then [] else [("devices", strings i.devices)],
      m.2.Kept (limit + 1) := by
    split <;> simp [kept_strings]
  exact .object (List.forall_mem_append.2 ⟨hfirst, hdevices⟩)

theorem Response.kept_toJson {limit : Nat} (r : Response) : r.toJson.Kept (limit + 4) := by
  cases r with
  | pong => exact kept_ofVariant _ (by simp)
  | ok => exact kept_ofVariant _ (by simp)
  | status info =>
    have hport : (Json.integer info.port.toNat).Kept (limit + 3) :=
      kept_integer (Nat.lt_trans info.port.toNat_lt_size (by decide))
    exact kept_ofVariant _ (by simp [StatusInfo.members, kept_integer64, Json.Kept.string, hport])
  | devices infos =>
    have hinfos : (Json.array (infos.map DeviceInfo.toJson)).Kept (limit + 3) :=
      .array (List.forall_mem_map.2 fun i _ => i.kept_toJson)
    exact kept_ofVariant _ (by simp [hinfos])
  | error f => exact kept_ofVariant _ (by simp [Json.Kept.string])

end InstrumentBus.Control
