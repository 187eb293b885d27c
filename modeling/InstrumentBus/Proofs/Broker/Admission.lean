import InstrumentBus.Broker.Hosts
import InstrumentBus.Proofs.Except
import InstrumentBus.Proofs.Network.Literal
import InstrumentBus.Proofs.Property.Accept

/-!
Who is admitted by a list of hosts. A peer counts by the shortest address of its host, an entry by
the address that it denotes; so an entry that denotes four bytes behind `::ffff:` admits nobody.
-/

namespace InstrumentBus

namespace Network.Address

section

variable (a b : UInt8) (g : UInt16)

theorem toNat_joinBytes : (joinBytes a b).toNat = a.toNat * 256 + b.toNat := by
  have ha := a.toNat_lt
  have hb := b.toNat_lt
  have height : (8 : UInt16).toNat % 16 = 8 := rfl
  have hlt : a.toNat <<< 8 < 2 ^ 16 := by
    rw [Nat.shiftLeft_eq]
    omega
  simp only [joinBytes, UInt16.toNat_or, UInt16.toNat_shiftLeft, UInt8.toNat_toUInt16]
  rw [height, Nat.mod_eq_of_lt hlt, ← Nat.shiftLeft_add_eq_or_of_lt hb, Nat.shiftLeft_eq]

theorem toNat_high : (g >>> 8).toUInt8.toNat = g.toNat / 256 := by
  have hg := g.toNat_lt
  have height : (8 : UInt16).toNat % 16 = 8 := rfl
  rw [UInt16.toNat_toUInt8, UInt16.toNat_shiftRight, height, Nat.shiftRight_eq_div_pow]
  omega

theorem joinBytes_split : joinBytes (g >>> 8).toUInt8 g.toUInt8 = g := by
  rw [← UInt16.toNat_inj, toNat_joinBytes, toNat_high, UInt16.toNat_toUInt8]
  omega

theorem high_joinBytes : (joinBytes a b >>> 8).toUInt8 = a := by
  have hb := b.toNat_lt
  rw [← UInt8.toNat_inj, toNat_high, toNat_joinBytes]
  omega

theorem low_joinBytes : (joinBytes a b).toUInt8 = b := by
  have hb := b.toNat_lt
  rw [← UInt8.toNat_inj, UInt16.toNat_toUInt8, toNat_joinBytes]
  omega

end

def ofBytes (p q r s : UInt8) : Address := .v6 0 0 0 0 0 0xFFFF (joinBytes p q) (joinBytes r s)

section

variable {a b : Address}

theorem mapped?_eq_some_iff :
    a.mapped? = some b ↔ ∃ p q r s, a = ofBytes p q r s ∧ b = .v4 p q r s := by
  constructor
  · intro h
    unfold mapped? at h
    split at h
    · rename_i g h'
      cases h
      refine ⟨_, _, _, _, ?_, rfl⟩
      rw [ofBytes, joinBytes_split, joinBytes_split]
    · cases h
  · rintro ⟨p, q, r, s, rfl, rfl⟩
    simp only [ofBytes, mapped?, high_joinBytes, low_joinBytes]

theorem unmapped_ofBytes (p q r s : UInt8) : (ofBytes p q r s).unmapped = .v4 p q r s := by
  rw [unmapped, mapped?_eq_some_iff.2 ⟨p, q, r, s, rfl, rfl⟩, Option.getD_some]

theorem unmapped_cases (a : Address) :
    a.unmapped = a ∨ ∃ p q r s, a = ofBytes p q r s ∧ a.unmapped = .v4 p q r s := by
  cases h : a.mapped? with
  | none =>
    rw [unmapped, h]
    exact .inl rfl
  | some b =>
    obtain ⟨p, q, r, s, rfl, -⟩ := mapped?_eq_some_iff.1 h
    exact .inr ⟨p, q, r, s, rfl, unmapped_ofBytes p q r s⟩

@[simp] theorem unmapped_unmapped (a : Address) : a.unmapped.unmapped = a.unmapped := by
  obtain h | ⟨p, q, r, s, -, h⟩ := a.unmapped_cases
  · rw [h, h]
  · rw [h]
    rfl

end

end Network.Address

open Network (Address)
open Network.Address (IsLiteral ofBytes)

def IsLocalhost (s : String) : Prop := Text.eqIgnoringCase (Text.trim s) "localhost" = true

theorem eq_of_toLower {c : Char} (h : c.toLower = 'l') : c = 'l' ∨ c = 'L' := by
  unfold Char.toLower at h
  split at h
  · refine .inr (Char.ext ?_)
    have hval : c.val + ('a'.val - 'A'.val) = 'l'.val := congrArg Char.val h
    have hL : 'L'.val + ('a'.val - 'A'.val) = 'l'.val := rfl
    exact (UInt32.add_left_inj _).1 (hval.trans hL.symm)
  · exact .inl h

theorem not_isLiteral_of_isLocalhost {s : String} (h : IsLocalhost s) (a : Address) :
    ¬IsLiteral (Text.trim s) a := by
  intro hliteral
  have hchars := hliteral.forall_mem
  have hlower : (Text.trim s).toList.map Char.toLower = "localhost".toList.map Char.toLower :=
    beq_iff_eq.1 h
  cases hs : (Text.trim s).toList with
  | nil =>
    rw [hs] at hlower
    cases hlower
  | cons c cs =>
    rw [hs] at hlower hchars
    have hc : c.toLower = 'l' := (List.cons.inj hlower).1
    have hliteral := hchars c List.mem_cons_self
    obtain rfl | rfl := eq_of_toLower hc
    · cases hliteral
    · cases hliteral

namespace AllowedHost

theorem read_eq_ok_iff {s : String} {host : AllowedHost} :
    read s = .ok host ↔
      IsLocalhost s ∧ host = .loopback ∨ ∃ a, IsLiteral (Text.trim s) a ∧ host = .address a := by
  unfold read
  dsimp only
  split
  · rename_i hlocal
    have hno := not_isLiteral_of_isLocalhost hlocal
    have hlocal : IsLocalhost s := hlocal
    simp [hlocal, hno, eq_comm]
  · rename_i hlocal
    have hlocal : ¬IsLocalhost s := hlocal
    simp only [hlocal, false_and, false_or, ← Address.read?_eq_some_iff]
    cases Address.read? (Text.trim s) with
    | none => simp
    | some a => simp [eq_comm]

end AllowedHost

namespace AcceptPolicy

/-- What a list of hosts says of an address: that it is the broker's own and `localhost` is listed,
or that some entry denotes the same host. -/
def Names (hosts : List String) (a : Address) : Prop :=
  (∃ s ∈ hosts, IsLocalhost s) ∧ a.unmapped.isLoopback = true ∨
    ∃ s ∈ hosts, ∃ b, IsLiteral (Text.trim s) b ∧ b.unmapped = a.unmapped

section

variable {hosts : List String} {policy : AcceptPolicy}

theorem readHosts_eq_ok_iff :
    readHosts hosts = .ok policy ↔
      ∃ entries, List.Forall₂ (fun s host => AllowedHost.read s = .ok host) hosts entries ∧
        policy = ofHosts entries := by
  simp only [readHosts, map_eq_ok_iff, mapM_eq_ok_iff, eq_comm (a := policy)]

theorem exists_readHosts_iff :
    (∃ policy, readHosts hosts = .ok policy) ↔
      ∀ s ∈ hosts, IsLocalhost s ∨ ∃ a, IsLiteral (Text.trim s) a := by
  simp only [readHosts_eq_ok_iff]
  constructor
  · rintro ⟨-, entries, hentries, -⟩ s hs
    obtain ⟨host, -, hread⟩ := exists_of_forall₂ hentries.flip s hs
    obtain ⟨hlocal, -⟩ | ⟨a, ha, -⟩ := AllowedHost.read_eq_ok_iff.1 hread
    · exact .inl hlocal
    · exact .inr ⟨a, ha⟩
  · intro h
    have hread : ∀ s ∈ hosts, ∃ host, AllowedHost.read s = .ok host := by
      intro s hs
      obtain hlocal | ⟨a, ha⟩ := h s hs
      · exact ⟨_, AllowedHost.read_eq_ok_iff.2 (.inl ⟨hlocal, rfl⟩)⟩
      · exact ⟨_, AllowedHost.read_eq_ok_iff.2 (.inr ⟨a, ha, rfl⟩)⟩
    obtain ⟨entries, hentries⟩ := exists_forall₂ hread
    exact ⟨_, entries, hentries, rfl⟩

theorem accepts_iff (h : readHosts hosts = .ok policy) (e : Network.Endpoint) :
    policy.accepts e = true ↔
      (∃ s ∈ hosts, IsLocalhost s) ∧ e.address.unmapped.isLoopback = true ∨
        ∃ s ∈ hosts, IsLiteral (Text.trim s) e.address.unmapped := by
  obtain ⟨entries, hentries, rfl⟩ := readHosts_eq_ok_iff.1 h
  refine List.any_eq_true.trans ?_
  constructor
  · rintro ⟨host, hhost, hallows⟩
    obtain ⟨s, hs, hread⟩ := exists_of_forall₂ hentries host hhost
    obtain ⟨hlocal, rfl⟩ | ⟨a, ha, rfl⟩ := AllowedHost.read_eq_ok_iff.1 hread
    · exact .inl ⟨⟨s, hs, hlocal⟩, hallows⟩
    · have hsame : a = e.address.unmapped := beq_iff_eq.1 hallows
      exact .inr ⟨s, hs, hsame ▸ ha⟩
  · rintro (⟨⟨s, hs, hlocal⟩, hloopback⟩ | ⟨s, hs, ha⟩)
    · obtain ⟨host, hhost, hread⟩ := exists_of_forall₂ hentries.flip s hs
      obtain rfl := Except.ok.inj
        (hread.symm.trans (AllowedHost.read_eq_ok_iff.2 (.inl ⟨hlocal, rfl⟩)))
      exact ⟨_, hhost, hloopback⟩
    · obtain ⟨host, hhost, hread⟩ := exists_of_forall₂ hentries.flip s hs
      obtain rfl := Except.ok.inj
        (hread.symm.trans (AllowedHost.read_eq_ok_iff.2 (.inr ⟨_, ha, rfl⟩)))
      exact ⟨_, hhost, beq_self_eq_true _⟩

theorem accepts_iff_names_iff (h : readHosts hosts = .ok policy) :
    (∀ e, policy.accepts e = true ↔ Names hosts e.address) ↔
      ∀ s ∈ hosts, ∀ p q r t, IsLiteral (Text.trim s) (ofBytes p q r t) →
        (∃ s ∈ hosts, IsLiteral (Text.trim s) (.v4 p q r t)) ∨
          (∃ s ∈ hosts, IsLocalhost s) ∧ p = 127 := by
  have hloopback (p q r t : UInt8) : (Address.v4 p q r t).isLoopback = true ↔ p = 127 := beq_iff_eq
  simp only [accepts_iff h]
  constructor
  · intro hall s hs p q r t hliteral
    have hnames : Names hosts (.v4 p q r t) :=
      .inr ⟨s, hs, _, hliteral, Address.unmapped_ofBytes p q r t⟩
    rw [← hloopback p q r t, or_comm]
    exact (hall ⟨.v4 p q r t, 0⟩).2 hnames
  · intro hlisted e
    constructor
    · rintro (hlocal | ⟨s, hs, hliteral⟩)
      · exact .inl hlocal
      · exact .inr ⟨s, hs, _, hliteral, Address.unmapped_unmapped _⟩
    · rintro (hlocal | ⟨s, hs, b, hliteral, hsame⟩)
      · exact .inl hlocal
      · rw [← hsame]
        obtain hb | ⟨p, q, r, t, rfl, hb⟩ := b.unmapped_cases
        · rw [hb]
          exact .inr ⟨s, hs, hliteral⟩
        · rw [hb, hloopback, or_comm]
          exact hlisted s hs p q r t hliteral

end

/-- A list is accepted if each entry is `localhost` or an address. Then a peer is admitted if it is
on the broker's own host and `localhost` is listed, or if some entry denotes the shortest address of
its host. So the peers that are admitted are those whose host is listed, just if each entry that
denotes four bytes behind `::ffff:` is listed as the four bytes, too, or stands for the broker's own
host and `localhost` is listed. -/
theorem shortest_addresses_are_admitted (hosts : List String) :
    ((∃ policy, readHosts hosts = .ok policy) ↔
      ∀ s ∈ hosts, IsLocalhost s ∨ ∃ a, IsLiteral (Text.trim s) a) ∧
    ∀ policy, readHosts hosts = .ok policy →
      (∀ e, policy.accepts e = true ↔
        (∃ s ∈ hosts, IsLocalhost s) ∧ e.address.unmapped.isLoopback = true ∨
          ∃ s ∈ hosts, IsLiteral (Text.trim s) e.address.unmapped) ∧
      ((∀ e, policy.accepts e = true ↔ Names hosts e.address) ↔
        ∀ s ∈ hosts, ∀ p q r t, IsLiteral (Text.trim s) (ofBytes p q r t) →
          (∃ s ∈ hosts, IsLiteral (Text.trim s) (.v4 p q r t)) ∨
            (∃ s ∈ hosts, IsLocalhost s) ∧ p = 127) :=
  ⟨exists_readHosts_iff, fun _ h => ⟨accepts_iff h, accepts_iff_names_iff h⟩⟩

theorem both_addresses_are_admitted :
    let hosts := ["::ffff:10.0.0.5", "10.0.0.5"]
    ∃ policy, readHosts hosts = .ok policy ∧
      (∀ e, policy.accepts e = true ↔ Names hosts e.address) ∧
      policy.accepts ⟨.v4 10 0 0 5, 40000⟩ = true ∧
      policy.accepts ⟨ofBytes 10 0 0 5, 40000⟩ = true := by
  intro hosts
  obtain ⟨hreads, hpolicy⟩ := shortest_addresses_are_admitted hosts
  have hmapped : IsLiteral (Text.trim "::ffff:10.0.0.5") (ofBytes 10 0 0 5) :=
    Address.read?_eq_some_iff.1 (by decide +kernel)
  have hshort : IsLiteral (Text.trim "10.0.0.5") (.v4 10 0 0 5) :=
    Address.read?_eq_some_iff.1 (by decide +kernel)
  obtain ⟨policy, hread⟩ := hreads.2 (by
    simp only [hosts, List.forall_mem_cons]
    exact ⟨.inr ⟨_, hmapped⟩, .inr ⟨_, hshort⟩, by simp⟩)
  obtain ⟨haccepts, hnames⟩ := hpolicy policy hread
  have hlisted : ∃ s ∈ hosts, IsLiteral (Text.trim s) (.v4 10 0 0 5) := ⟨_, by simp [hosts], hshort⟩
  refine ⟨policy, hread, hnames.2 ?_, (haccepts _).2 (.inr hlisted), (haccepts _).2 (.inr ?_)⟩
  · intro s hs p q r t hliteral
    simp only [hosts, List.mem_cons, List.not_mem_nil, or_false] at hs
    obtain rfl | rfl := hs
    · have hsame := congrArg Address.unmapped (hliteral.unique hmapped)
      rw [Address.unmapped_ofBytes, Address.unmapped_ofBytes] at hsame
      exact .inl (hsame ▸ hlisted)
    · cases hliteral.unique hshort
  · rw [Address.unmapped_ofBytes]
    exact hlisted

/-- A host that is listed with four bytes behind `::ffff:` only is refused under this very
address. -/
theorem mapped_address_is_refused :
    ∃ (policy : AcceptPolicy) (e : Network.Endpoint),
      readHosts ["::ffff:10.0.0.5"] = .ok policy ∧
        Network.Endpoint.read? "[::ffff:10.0.0.5]:40000" = some e ∧
        IsLiteral (Text.trim "::ffff:10.0.0.5") e.address ∧
        Names ["::ffff:10.0.0.5"] e.address ∧ policy.accepts e = false := by
  have hliteral : IsLiteral (Text.trim "::ffff:10.0.0.5") (ofBytes 10 0 0 5) :=
    Address.read?_eq_some_iff.1 (by decide +kernel)
  have hread : AllowedHost.read "::ffff:10.0.0.5" = .ok (.address (ofBytes 10 0 0 5)) :=
    AllowedHost.read_eq_ok_iff.2 (.inr ⟨_, hliteral, rfl⟩)
  refine ⟨ofHosts [.address (ofBytes 10 0 0 5)], ⟨ofBytes 10 0 0 5, 40000⟩,
    readHosts_eq_ok_iff.2 ⟨_, .cons hread .nil, rfl⟩, by decide +kernel, hliteral, ?_,
    by decide +kernel⟩
  exact .inr ⟨_, List.mem_singleton_self _, _, hliteral, rfl⟩

end AcceptPolicy

end InstrumentBus
