import InstrumentBus.Driver.Launch
import InstrumentBus.Proofs.Decimal.Digits
import InstrumentBus.Proofs.Except
import InstrumentBus.Proofs.Text.Cut

/-!
Which driver a text stands for, however it is spelled. Two drivers of a kind are loaded under a
common identifier if and only if they are the same.
-/

namespace InstrumentBus

open Text (isBlank)

/-- What tells a driver from others of its kind: its id, its executable whatever the arguments, or
the broker that it is. -/
inductive DriverIdentity
  | builtin (id : String) : DriverIdentity
  | process (path : String) : DriverIdentity
  | network (host : String) (port : UInt16) : DriverIdentity
deriving DecidableEq

inductive Launch.IsAddress : String → String → UInt16 → Prop
  | port {address front spelling : String} {port : UInt16} (h : address = front ++ ":" ++ spelling)
      (hport : Decimal.Spells port.toNat spelling.toList) (hne : Text.trim front ≠ "") :
      IsAddress address (Text.trim front) port
  | host {address : String} (hcolon : ':' ∉ address.toList) (hne : Text.trim address ≠ "") :
      IsAddress address (Text.trim address) defaultPort

/-- The driver that a target stands for. Blanks around it say nothing, nor does the class mark
before an id, what follows the first word of a command line, or how a port is spelled. -/
inductive DriverSpec.Denotes (builtins : List String) : DriverSpec → DriverIdentity → Prop
  | plain {target id : String} (hid : id ∈ builtins) (hne : id ≠ "")
      (htarget : Text.trim target = id) : Denotes builtins ⟨.builtin, target⟩ (.builtin id)
  | marked {target id : String} (hid : id ∈ builtins)
      (htarget : Text.trim target = Launch.classMark ++ id) :
      Denotes builtins ⟨.builtin, target⟩ (.builtin id)
  | process {target path arguments : String} (hne : path ≠ "")
      (htarget : Text.trim target = path ++ arguments)
      (hpath : ∀ c ∈ path.toList, isBlank c = false)
      (harguments : ∀ c ∈ arguments.toList.head?, isBlank c = true) :
      Denotes builtins ⟨.process, target⟩ (.process path)
  | network {target host : String} {port : UInt16} (h : Launch.IsAddress (Text.trim target) host port) :
      Denotes builtins ⟨.network, target⟩ (.network host port)

namespace Launch

variable {builtins : List String} {target : String} {launch : Launch}

def identity : Launch → DriverIdentity
  | .builtin id => .builtin id
  | .process path _ => .process path
  | .network host port => .network host port

theorem plainId_append (id : String) : plainId (classMark ++ id) = id := by
  have hafter : Text.afterStart? classMark.toList (classMark ++ id).toList = some id.toList :=
    Text.afterStart?_eq_some_iff.2 String.toList_append
  simp only [plainId, hafter, String.ofList_toList]

theorem plainId_of_unmarked (h : ¬classMark.toList <+: target.toList) : plainId target = target := by
  unfold plainId
  split
  · rename_i rest hafter
    exact absurd ⟨rest, (Text.afterStart?_eq_some_iff.1 hafter).symm⟩ h
  · rfl

theorem append_plainId (h : classMark.toList <+: target.toList) :
    classMark ++ plainId target = target := by
  obtain ⟨rest, hrest⟩ := h
  have htarget : target = classMark ++ String.ofList rest := by
    rw [← String.toList_inj, String.toList_append, String.toList_ofList, hrest]
  rw [htarget, plainId_append]

theorem ofSpec_builtin_iff :
    ofSpec builtins ⟨.builtin, target⟩ = .ok launch ↔
      Text.trim target ≠ "" ∧ plainId (Text.trim target) ∈ builtins ∧
        launch = .builtin (plainId (Text.trim target)) := by
  by_cases hempty : Text.trim target = ""
  · simp [ofSpec, hempty]
  · by_cases hid : plainId (Text.trim target) ∈ builtins
    · simp only [ofSpec, String.isEmpty_iff, hempty, ↓reduceIte, List.contains_iff_mem, hid,
        Except.ok.injEq, ne_eq, not_false_eq_true, true_and]
      exact eq_comm
    · simp [ofSpec, hempty, hid]

theorem denotes_builtin_iff (hbuiltins : ∀ id ∈ builtins, ¬classMark.toList <+: id.toList)
    {d : DriverIdentity} :
    DriverSpec.Denotes builtins ⟨.builtin, target⟩ d ↔
      Text.trim target ≠ "" ∧ plainId (Text.trim target) ∈ builtins ∧
        d = .builtin (plainId (Text.trim target)) := by
  constructor
  · intro h
    cases h with
    | plain hid hne htarget =>
      have hplain := plainId_of_unmarked (hbuiltins _ hid)
      rw [htarget, hplain]
      exact ⟨hne, hid, rfl⟩
    | marked hid htarget =>
      rw [htarget, plainId_append]
      exact ⟨by simp [classMark], hid, rfl⟩
  · rintro ⟨hne, hid, rfl⟩
    by_cases hmark : classMark.toList <+: (Text.trim target).toList
    · exact .marked hid (append_plainId hmark).symm
    · have hplain := plainId_of_unmarked hmark
      rw [hplain] at hid ⊢
      exact .plain hid hne rfl

theorem ofSpec_process_iff :
    ofSpec builtins ⟨.process, target⟩ = .ok launch ↔
      Text.trim target ≠ "" ∧ ∃ path arguments,
        words (Text.trim target) = path :: arguments ∧ launch = .process path arguments := by
  by_cases hempty : Text.trim target = ""
  · simp [ofSpec, hempty]
  · cases hwords : words (Text.trim target) with
    | nil => simp [ofSpec, hempty, hwords]
    | cons path arguments =>
      simp only [ofSpec, String.isEmpty_iff, hempty, ↓reduceIte, hwords, Except.ok.injEq, ne_eq,
        not_false_eq_true, true_and, List.cons.injEq]
      constructor
      · intro h
        exact ⟨path, arguments, ⟨rfl, rfl⟩, h.symm⟩
      · rintro ⟨_, _, ⟨rfl, rfl⟩, rfl⟩
        rfl

theorem exists_words {path rest : String} (hne : path ≠ "") (htarget : target = path ++ rest)
    (hpath : ∀ c ∈ path.toList, isBlank c = false)
    (hrest : ∀ c ∈ rest.toList.head?, isBlank c = true) :
    ∃ arguments, words target = path :: arguments := by
  have hfull : path.toList.isEmpty = false := by simp [hne]
  obtain ⟨pieces, hpieces⟩ : ∃ pieces, Text.splitAt isBlank target.toList = path.toList :: pieces := by
    rw [htarget, String.toList_append]
    cases hcs : rest.toList with
    | nil => exact ⟨[], by rw [List.append_nil, Text.splitAt_of_forall hpath]⟩
    | cons c cs => exact ⟨_, Text.splitAt_append_cons (hrest c (by simp [hcs])) hpath⟩
  simp [words, hpieces, hfull]

theorem exists_path (hne : target ≠ "")
    (htrimmed : target.toList.dropWhile isBlank = target.toList) :
    ∃ path rest : String, path ≠ "" ∧ target = path ++ rest ∧
      (∀ c ∈ path.toList, isBlank c = false) ∧ ∀ c ∈ rest.toList.head?, isBlank c = true := by
  refine ⟨.ofList (target.toList.takeWhile (!isBlank ·)), .ofList (target.toList.dropWhile (!isBlank ·)),
    ?_, ?_, ?_, ?_⟩
  · obtain ⟨c, cs, hcs⟩ := List.exists_cons_of_ne_nil (mt String.toList_eq_nil_iff.1 hne)
    have hc : isBlank c = false := by
      simpa [hcs] using List.dropWhile_eq_self_iff.1 htrimmed
    simp [hcs, hc]
  · rw [← String.ofList_append, List.takeWhile_append_dropWhile, String.ofList_toList]
  · intro c hc
    rw [String.toList_ofList] at hc
    simpa using List.mem_takeWhile_imp hc
  · intro c hc
    rw [String.toList_ofList] at hc
    have hhead := List.head?_dropWhile_not (!isBlank ·) target.toList
    rw [Option.mem_def.1 hc] at hhead
    simpa using hhead

theorem denotes_process_iff {d : DriverIdentity} :
    DriverSpec.Denotes builtins ⟨.process, target⟩ d ↔
      Text.trim target ≠ "" ∧ ∃ path arguments,
        words (Text.trim target) = path :: arguments ∧ d = .process path := by
  constructor
  · intro h
    cases h with
    | process hne htarget hpath harguments =>
      obtain ⟨arguments, hwords⟩ := exists_words hne htarget hpath harguments
      exact ⟨by simp [htarget, hne], _, arguments, hwords, rfl⟩
  · rintro ⟨hne, path, arguments, hwords, rfl⟩
    have htrimmed := Text.dropWhile_trimChars target.toList
    obtain ⟨path', rest, hne', htarget, hpath, hrest⟩ :=
      exists_path hne (by rwa [Text.trim, String.toList_ofList])
    obtain ⟨arguments', hwords'⟩ := exists_words hne' htarget hpath hrest
    obtain ⟨rfl, -⟩ := List.cons.inj (hwords.symm.trans hwords')
    exact .process hne' htarget hpath hrest

theorem ofSpec_network_iff :
    ofSpec builtins ⟨.network, target⟩ = .ok launch ↔
      Text.trim target ≠ "" ∧ readAddress (Text.trim target) = .ok launch := by
  by_cases hempty : Text.trim target = ""
  · simp [ofSpec, hempty]
  · simp [ofSpec, hempty]

theorem denotes_network_iff {d : DriverIdentity} :
    DriverSpec.Denotes builtins ⟨.network, target⟩ d ↔
      ∃ host port, IsAddress (Text.trim target) host port ∧ d = .network host port := by
  constructor
  · intro h
    cases h with
    | network h => exact ⟨_, _, h, rfl⟩
  · rintro ⟨host, port, h, rfl⟩
    exact .network h

section

variable {address host : String} {port : UInt16} {front spelling : List Char}

theorem IsAddress.ne_empty (h : IsAddress address host port) : address ≠ "" := by
  rintro rfl
  cases h with
  | port h => simp at h
  | host _ hne => exact hne rfl

theorem isAddress_of_none (h : Text.cutLast? ':' address.toList = none) :
    IsAddress address host port ↔
      host = Text.trim address ∧ port = defaultPort ∧ Text.trim address ≠ "" := by
  have hcolon := Text.cutLast?_eq_none_iff.1 h
  constructor
  · intro haddress
    cases haddress with
    | port haddress => simp [haddress] at hcolon
    | host _ hne => exact ⟨rfl, rfl, hne⟩
  · rintro ⟨rfl, rfl, hne⟩
    exact .host hcolon hne

theorem isAddress_of_some (h : Text.cutLast? ':' address.toList = some (front, spelling)) :
    IsAddress address host port ↔
      Decimal.Spells port.toNat spelling ∧ host = Text.trim (.ofList front) ∧
        Text.trim (.ofList front) ≠ "" := by
  constructor
  · intro haddress
    cases haddress with
    | @port front' spelling' _ haddress hport hne =>
      have hcut : Text.cutLast? ':' address.toList = some (front'.toList, spelling'.toList) := by
        rw [Text.cutLast?_eq_some_iff, haddress]
        exact ⟨by simp, hport.not_mem (by decide) (by decide)⟩
      obtain ⟨rfl, rfl⟩ := Prod.mk.inj (Option.some.inj (h.symm.trans hcut))
      rw [String.ofList_toList]
      exact ⟨hport, rfl, hne⟩
    | host hcolon =>
      rw [Text.cutLast?_eq_none_iff.2 hcolon] at h
      cases h
  · rintro ⟨hport, rfl, hne⟩
    obtain ⟨haddress, -⟩ := Text.cutLast?_eq_some_iff.1 h
    have hcolon : address = .ofList front ++ ":" ++ .ofList spelling := by
      rw [← String.toList_inj, haddress]
      simp
    exact .port hcolon (by rwa [String.toList_ofList]) hne

theorem all_isBlank_iff {cs : List Char} :
    cs.all isBlank = true ↔ Text.trim (.ofList cs) = "" := by
  rw [List.all_eq_true, ← Text.trimChars_eq_nil_iff, Text.trim, String.toList_ofList,
    String.ofList_eq_empty_iff]

theorem host_eq_ok_iff {e : BrokerError} :
    (if front.all isBlank then .error e else .ok (.network (.ofList (Text.trimChars front)) port)) =
        Except.ok launch ↔
      Text.trim (.ofList front) ≠ "" ∧ launch = .network (Text.trim (.ofList front)) port := by
  have htrim : Text.trim (.ofList front) = .ofList (Text.trimChars front) := by
    rw [Text.trim, String.toList_ofList]
  rw [← htrim]
  by_cases hblank : Text.trim (.ofList front) = ""
  · rw [if_pos (all_isBlank_iff.2 hblank)]
    simp [hblank]
  · rw [if_neg (mt all_isBlank_iff.1 hblank), Except.ok.injEq, and_iff_right hblank, eq_comm]

theorem readAddress_eq_ok_iff :
    readAddress address = .ok launch ↔
      ∃ host port, IsAddress address host port ∧ launch = .network host port := by
  unfold readAddress
  cases hcut : Text.cutLast? ':' address.toList with
  | none =>
    simp only [isAddress_of_none hcut]
    refine host_eq_ok_iff.trans ?_
    rw [String.ofList_toList]
    constructor
    · rintro ⟨hne, rfl⟩
      exact ⟨_, _, ⟨rfl, rfl, hne⟩, rfl⟩
    · rintro ⟨_, _, ⟨rfl, rfl, hne⟩, rfl⟩
      exact ⟨hne, rfl⟩
  | some parts =>
    obtain ⟨front, spelling⟩ := parts
    simp only [isAddress_of_some hcut]
    cases hport : Decimal.natural? UInt16.size spelling with
    | none =>
      constructor
      · intro h
        cases h
      · rintro ⟨_, port, ⟨hspelling, -⟩, -⟩
        rw [Decimal.natural?_eq_some_iff.2 ⟨port.toNat_lt, hspelling⟩] at hport
        cases hport
    | some n =>
      obtain ⟨hn, hspelling⟩ := Decimal.natural?_eq_some_iff.1 hport
      refine host_eq_ok_iff.trans ?_
      constructor
      · rintro ⟨hne, rfl⟩
        rw [← UInt16.toNat_ofNat_of_lt hn] at hspelling
        exact ⟨_, _, ⟨hspelling, rfl, hne⟩, rfl⟩
      · rintro ⟨_, port, ⟨hspelling', rfl, hne⟩, rfl⟩
        rw [Decimal.natural?_eq_some_iff.2 ⟨port.toNat_lt, hspelling'⟩] at hport
        cases hport
        exact ⟨hne, by rw [Nat.toUInt16_eq, UInt16.ofNat_toNat]⟩

end

theorem denotes_iff (hbuiltins : ∀ id ∈ builtins, ¬classMark.toList <+: id.toList)
    {spec : DriverSpec} {d : DriverIdentity} :
    spec.Denotes builtins d ↔ ∃ launch, ofSpec builtins spec = .ok launch ∧ launch.identity = d := by
  obtain ⟨kind, target⟩ := spec
  cases kind with
  | builtin =>
    simp only [denotes_builtin_iff hbuiltins, ofSpec_builtin_iff]
    constructor
    · rintro ⟨hne, hid, rfl⟩
      exact ⟨_, ⟨hne, hid, rfl⟩, rfl⟩
    · rintro ⟨_, ⟨hne, hid, rfl⟩, rfl⟩
      exact ⟨hne, hid, rfl⟩
  | process =>
    simp only [denotes_process_iff, ofSpec_process_iff]
    constructor
    · rintro ⟨hne, path, arguments, hwords, rfl⟩
      exact ⟨_, ⟨hne, path, arguments, hwords, rfl⟩, rfl⟩
    · rintro ⟨_, ⟨hne, path, arguments, hwords, rfl⟩, rfl⟩
      exact ⟨hne, path, arguments, hwords, rfl⟩
  | network =>
    simp only [denotes_network_iff, ofSpec_network_iff, readAddress_eq_ok_iff]
    constructor
    · rintro ⟨host, port, haddress, rfl⟩
      exact ⟨_, ⟨haddress.ne_empty, host, port, haddress, rfl⟩, rfl⟩
    · rintro ⟨_, ⟨-, host, port, haddress, rfl⟩, rfl⟩
      exact ⟨host, port, haddress, rfl⟩

section

variable {address host host' : String} {port port' : UInt16}

theorem cutLast?_writeAddress (host : String) (port : UInt16) :
    Text.cutLast? ':' (writeAddress host port).toList =
      some (host.toList, Nat.toDigits 10 port.toNat) := by
  rw [Text.cutLast?_eq_some_iff]
  constructor
  · simp [writeAddress]
  · exact (Decimal.Spells.plain 0).not_mem (by decide) (by decide)

theorem writeAddress_inj :
    writeAddress host port = writeAddress host' port' ↔ host = host' ∧ port = port' := by
  constructor
  · intro h
    have hcut := cutLast?_writeAddress host port
    rw [h, cutLast?_writeAddress] at hcut
    obtain ⟨hhost, hport⟩ := Prod.mk.inj (Option.some.inj hcut)
    have hvalue := congrArg Decimal.ofDigits hport
    rw [Decimal.ofDigits_toDigits, Decimal.ofDigits_toDigits] at hvalue
    exact ⟨String.toList_inj.1 hhost.symm, UInt16.toNat_inj.1 hvalue.symm⟩
  · rintro ⟨rfl, rfl⟩
    rfl

theorem IsAddress.writeAddress (h : IsAddress address host port) :
    IsAddress (writeAddress host port) host port := by
  obtain ⟨hne, htrim⟩ : host ≠ "" ∧ Text.trim host = host := by
    cases h with
    | port _ _ hne => exact ⟨hne, Text.trim_trim _⟩
    | host _ hne => exact ⟨hne, Text.trim_trim _⟩
  rw [isAddress_of_some (cutLast?_writeAddress host port), String.ofList_toList, htrim]
  exact ⟨.plain 0, rfl, hne⟩

end

section

variable {spec : DriverSpec}

theorem ofSpec_cases (h : ofSpec builtins spec = .ok launch) :
    launch.kind = spec.kind ∧ (∀ id, launch = .builtin id → id ∈ builtins) ∧
      ∀ host port, launch = .network host port → IsAddress (Text.trim spec.target) host port := by
  obtain ⟨kind, target⟩ := spec
  cases kind with
  | builtin =>
    obtain ⟨-, hid, rfl⟩ := ofSpec_builtin_iff.1 h
    exact ⟨rfl, by simpa using hid, by simp⟩
  | process =>
    obtain ⟨-, path, arguments, -, rfl⟩ := ofSpec_process_iff.1 h
    exact ⟨rfl, by simp, by simp⟩
  | network =>
    obtain ⟨-, hread⟩ := ofSpec_network_iff.1 h
    obtain ⟨host, port, haddress, rfl⟩ := readAddress_eq_ok_iff.1 hread
    refine ⟨rfl, by simp, fun _ _ h => ?_⟩
    cases h
    exact haddress

end

theorem shares_identifier_iff {x y : Launch} (hkind : x.kind = y.kind)
    (hx : ∀ id, x = .builtin id → ¬classMark.toList <+: id.toList)
    (hy : ∀ id, y = .builtin id → ¬classMark.toList <+: id.toList) :
    (∃ i ∈ x.identifiers, i ∈ y.identifiers) ↔ x.identity = y.identity := by
  have hmarked (id : String) : classMark.toList <+: (classMark ++ id).toList :=
    ⟨id.toList, String.toList_append.symm⟩
  cases x with
  | builtin id =>
    cases y with
    | builtin id' =>
      have hid : id ≠ classMark ++ id' := fun h => hx id rfl (h ▸ hmarked id')
      have hid' : classMark ++ id ≠ id' := fun h => hy id' rfl (h ▸ hmarked id)
      simp [identifiers, identity, hid, hid']
    | process path arguments => cases hkind
    | network host port => cases hkind
  | process path arguments =>
    cases y with
    | builtin id => cases hkind
    | process path' arguments' => simp [identifiers, identity]
    | network host port => cases hkind
  | network host port =>
    cases y with
    | builtin id => cases hkind
    | process path arguments => cases hkind
    | network host' port' => simp [identifiers, identity, writeAddress_inj]

/-- Two accepted specifications of one kind lead to a common identifier if and only if they denote
the same driver, and the identifier of another broker is an address that names it again. -/
theorem common_identifier_iff_same_driver (builtins : List String)
    (hbuiltins : ∀ id ∈ builtins, ¬classMark.toList <+: id.toList) (a b : DriverSpec) (x y : Launch)
    (hkind : a.kind = b.kind) (hx : ofSpec builtins a = .ok x) (hy : ofSpec builtins b = .ok y) :
    ((∃ i ∈ x.identifiers, i ∈ y.identifiers) ↔
        ∃ d, a.Denotes builtins d ∧ b.Denotes builtins d) ∧
      ∀ host port, x = .network host port → readAddress (writeAddress host port) = .ok x := by
  obtain ⟨hxkind, hxid, hxaddress⟩ := ofSpec_cases hx
  obtain ⟨hykind, hyid, -⟩ := ofSpec_cases hy
  have hsame : (∃ i ∈ x.identifiers, i ∈ y.identifiers) ↔ x.identity = y.identity :=
    shares_identifier_iff (hxkind.trans (hkind.trans hykind.symm))
      (fun id h => hbuiltins id (hxid id h)) fun id h => hbuiltins id (hyid id h)
  constructor
  · rw [hsame]
    constructor
    · intro h
      exact ⟨x.identity, (denotes_iff hbuiltins).2 ⟨x, hx, rfl⟩,
        (denotes_iff hbuiltins).2 ⟨y, hy, h.symm⟩⟩
    · rintro ⟨d, ha, hb⟩
      obtain ⟨x', hx', rfl⟩ := (denotes_iff hbuiltins).1 ha
      obtain ⟨y', hy', hd⟩ := (denotes_iff hbuiltins).1 hb
      cases hx.symm.trans hx'
      cases hy.symm.trans hy'
      exact hd.symm
  · rintro host port rfl
    exact readAddress_eq_ok_iff.2 ⟨host, port, (hxaddress host port rfl).writeAddress, rfl⟩

theorem spellings_of_one_address :
    (∀ id ∈ ["demo_camera"], ¬classMark.toList <+: id.toList) ∧
      ofSpec ["demo_camera"] ⟨.network, " ::1 :+07624\t"⟩ = .ok (.network "::1" 7624) ∧
      ofSpec ["demo_camera"] ⟨.network, "::1:7624"⟩ = .ok (.network "::1" 7624) ∧
      (∃ d, DriverSpec.Denotes ["demo_camera"] ⟨.network, " ::1 :+07624\t"⟩ d ∧
        DriverSpec.Denotes ["demo_camera"] ⟨.network, "::1:7624"⟩ d) ∧
      readAddress (writeAddress "::1" 7624) = .ok (.network "::1" 7624) := by
  have hbuiltins : ∀ id ∈ ["demo_camera"], ¬classMark.toList <+: id.toList := by decide +kernel
  have hx : ofSpec ["demo_camera"] ⟨.network, " ::1 :+07624\t"⟩ = .ok (.network "::1" 7624) := by
    decide +kernel
  have hy : ofSpec ["demo_camera"] ⟨.network, "::1:7624"⟩ = .ok (.network "::1" 7624) := by
    decide +kernel
  obtain ⟨hsame, haddress⟩ :=
    common_identifier_iff_same_driver ["demo_camera"] hbuiltins ⟨.network, " ::1 :+07624\t"⟩
      ⟨.network, "::1:7624"⟩ _ _ rfl hx hy
  exact ⟨hbuiltins, hx, hy, hsame.1 ⟨"::1:7624", by decide +kernel, by decide +kernel⟩,
    haddress _ _ rfl⟩

end Launch

end InstrumentBus
