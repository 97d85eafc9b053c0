import JammVpn.Core.Geo.Dat
import JammVpn.Core.Theorems.Entries

-- What a database says of an address is what the messages in it say.
namespace JammVpn.Geo

open Cursor Protobuf

section Messages

structure CidrMessage where
  ip        : Option (List UInt8)
  prefixLen : Option Nat

structure GeoIpMessage where
  countryCode : String
  cidr        : List CidrMessage

def CidrMessage.Text (m : CidrMessage) (bs : List UInt8) : Prop :=
  ∃ fs, MessageText fs bs ∧ last (Field.bytes 1) fs = m.ip ∧ last (Field.number? 2) fs = m.prefixLen

def GeoIpMessage.Text (m : GeoIpMessage) (bs : List UInt8) : Prop :=
  CodedText CidrMessage.Text m.countryCode m.cidr bs

def ListText (l : List GeoIpMessage) (bs : List UInt8) : Prop :=
  EntriesText GeoIpMessage.Text l bs

-- The bytes are an address of this family, and the first bits are those of the address.
def SameFront (b : List UInt8) (p : Nat) : Ip.IpAddr → Prop
  | .v4 a => b.length = 4 ∧ p ≤ 32 ∧ ∀ i < p, (BitVec.ofNat 32 (Bytes.ofBe b)).getMsbD i = a.getMsbD i
  | .v6 a => b.length = 16 ∧ p ≤ 128 ∧ ∀ i < p, (BitVec.ofNat 128 (Bytes.ofBe b)).getMsbD i = a.getMsbD i

def CidrMessage.Covers (m : CidrMessage) (ip : Ip.IpAddr) : Prop :=
  ∃ b p, m.ip = some b ∧ m.prefixLen = some p ∧ SameFront b p ip

-- The last entry for the country counts.
def Covers (l : List GeoIpMessage) (code : String) (ip : Ip.IpAddr) : Prop :=
  ∃ m, lastFor GeoIpMessage.countryCode l code = some m ∧ ∃ c ∈ m.cidr, c.Covers ip

end Messages

section Cidr

variable {r : Option (List UInt8) × Option Nat} {f : Field} {bs : List UInt8} {m : CidrMessage} {ip : Ip.IpAddr}

theorem ofFields_cidrField : Reader.OfFields cidrField :=
  Reader.ofFields_readTag fun _ _ _ =>
    .ite (Reader.sound_readBytes.bind fun _ => sound_pure _) <|
    .ite (Reader.sound_readVarint.bind fun _ => sound_pure _) <|
    (Reader.sound_skip _).bind fun _ => sound_pure _

theorem sound_parseCidr (n : Nat) : Sound parseCidr n :=
  (ofFields_cidrField.message _).bind fun _ => sound_pure _

theorem reads_cidrField (h : FieldText f bs) :
    Reads (cidrField r) bs ((f.bytes 1).or r.1, (f.number? 2).or r.2) := by
  refine Reader.reads_twoFields h (fun h1 body hb => ?ip) (fun h1 h2 body hb => ?prefixLen) fun h1 h2 => ?other
  case ip =>
    obtain ⟨v, b, hbytes, hv, rfl⟩ := len_of_wire h1.2 hb
    have hnum : f.number? 2 = none := number_eq_none fun hn => absurd (h1.1.symm.trans hn.1) (by decide)
    rw [h1.1] at hbytes
    rw [hbytes, hnum]
    exact (Reader.reads_bytes hv).last rfl
  case prefixLen =>
    obtain ⟨v, hnum, hv⟩ := varint_of_wire h2.2 hb
    rw [h2.1] at hnum
    rw [bytes_eq_none h1, hnum]
    exact (Reader.reads_varint hv).last rfl
  case other => rw [bytes_eq_none h1, number_eq_none h2, Option.none_or, Option.none_or]

theorem foldl_cidr (fs : List Field) (r : Option (List UInt8) × Option Nat) :
    fs.foldl (fun r f => ((f.bytes 1).or r.1, (f.number? 2).or r.2)) r =
      ((last (Field.bytes 1) fs).or r.1, (last (Field.number? 2) fs).or r.2) := by
  induction fs generalizing r
  case nil          => rfl
  case cons f fs hi => rw [List.foldl_cons, hi, last_cons, last_cons, Option.or_assoc, Option.or_assoc]

theorem parseCidr_text (h : m.Text bs) : (parseCidr bs).1 = .ok (cidrOf m.ip m.prefixLen) := by
  obtain ⟨fs, ht, hip, hprefix⟩ := h
  have hr := Reader.reads_message ofFields_cidrField.eats (fun f _ bs r hf => reads_cidrField hf) ht (none, none)
  rw [foldl_cidr, Option.or_none, Option.or_none, hip, hprefix] at hr
  rw [parseCidr, bind_eq hr]
  rfl

variable {b : List UInt8} {p : Nat} {base : Ip.IpAddr} {c : IpCidr}

theorem cidrOf_eq_some_iff {o : Option (List UInt8)} {q : Option Nat} :
    cidrOf o q = some c ↔ ∃ b, o = some b ∧ ipOf b = some c.base ∧ q = some c.prefixLen := by
  have hnew : ∀ base p, (if p ≤ base.width then (IpCidr.new base (p % 256)).toOption else none) = some c ↔
      base = c.base ∧ p = c.prefixLen := by
    intro base p
    by_cases hp : p ≤ base.width
    case neg =>
      rw [if_neg hp]
      refine iff_of_false (fun h => by cases h) fun h => ?_
      rw [h.1, h.2] at hp
      exact hp c.le_width
    case pos =>
      have hwidth : base.width < 256 := by cases base <;> simp [Ip.IpAddr.width]
      have hmod : p % 256 = p := Nat.mod_eq_of_lt (Nat.lt_of_le_of_lt hp hwidth)
      rw [if_pos hp, IpCidr.new, hmod, IpCidr.mk?, dif_pos hp]
      obtain ⟨base', p', _⟩ := c
      simp [Except.toOption]
  cases o
  case none => simp [cidrOf]
  case some b =>
    cases hb : ipOf b
    case none => simp [cidrOf, hb]
    case some base =>
      cases q
      case none   => simp [cidrOf, hb]
      case some p => simpa [cidrOf, hb] using hnew base p

theorem contains_iff_sameFront (hb : ipOf b = some base) (h : p ≤ base.width) :
    (IpCidr.mk base p h).contains ip = true ↔ SameFront b p ip := by
  rw [ipOf] at hb
  by_cases h4 : b.length = 4
  case pos =>
    rw [if_pos h4] at hb
    cases hb
    cases ip
    case v6 a => simp [IpCidr.contains, SameFront, h4]
    case v4 a =>
      show IpCidr.v4Match (.ofNat 32 (Bytes.ofBe b)) a p = true ↔ _
      rw [IpCidr.v4Match, beq_iff_eq, @IpCidr.and_mask_eq_iff_getMsbD 32 p h, SameFront]
      exact ⟨fun hbits => ⟨h4, h, hbits⟩, fun hs => hs.2.2⟩
  case neg =>
    by_cases h16 : b.length = 16
    case neg =>
      rw [if_neg h4, if_neg h16] at hb
      cases hb
    case pos =>
      rw [if_neg h4, if_pos h16] at hb
      cases hb
      cases ip
      case v4 a => simp [IpCidr.contains, SameFront, h4]
      case v6 a =>
        show IpCidr.v6Match (.ofNat 128 (Bytes.ofBe b)) a p = true ↔ _
        rw [IpCidr.v6Match, beq_iff_eq, @IpCidr.and_mask_eq_iff_getMsbD 128 p h, SameFront]
        exact ⟨fun hbits => ⟨h16, h, hbits⟩, fun hs => hs.2.2⟩

theorem SameFront.ipOf (h : SameFront b p ip) : ∃ base, Geo.ipOf b = some base ∧ p ≤ base.width := by
  cases ip
  case v4 a => exact ⟨.v4 (.ofNat 32 (Bytes.ofBe b)), if_pos h.1, h.2.1⟩
  case v6 a =>
    have h4 : ¬b.length = 4 := by rw [h.1]; decide
    exact ⟨.v6 (.ofNat 128 (Bytes.ofBe b)), (if_neg h4).trans (if_pos h.1), h.2.1⟩

-- A range counts if it has an address and a prefix that fits it.
theorem cidrOf_contains_iff : (∃ c, cidrOf m.ip m.prefixLen = some c ∧ c.contains ip = true) ↔ m.Covers ip := by
  constructor
  case mp =>
    rintro ⟨c, hc, hin⟩
    obtain ⟨b, hb, hbase, hp⟩ := cidrOf_eq_some_iff.mp hc
    exact ⟨b, c.prefixLen, hb, hp, (contains_iff_sameFront hbase c.le_width).mp hin⟩
  case mpr =>
    rintro ⟨b, p, hb, hp, hs⟩
    obtain ⟨base, hbase, hle⟩ := hs.ipOf
    exact ⟨⟨base, p, hle⟩, cidrOf_eq_some_iff.mpr ⟨b, hb, hbase, hp⟩, (contains_iff_sameFront hbase hle).mpr hs⟩

end Cidr

section GeoIp

variable {bs : List UInt8} {m : GeoIpMessage}

theorem sound_parseGeoIp (n : Nat) : Sound parseGeoIp n :=
  (ofFields_codedField sound_parseCidr).message _

-- The ranges of a country, as the database has them.
def GeoIpMessage.cidrs (m : GeoIpMessage) : List IpCidr :=
  m.cidr.filterMap fun c => cidrOf c.ip c.prefixLen

theorem foldl_cidrs (cs : List CidrMessage) (cidrs : List IpCidr) :
    cs.foldl (fun cidrs c => cidrs ++ (cidrOf c.ip c.prefixLen).toList) cidrs =
      cidrs ++ cs.filterMap fun c => cidrOf c.ip c.prefixLen := by
  induction cs generalizing cidrs
  case nil => exact (List.append_nil cidrs).symm
  case cons c cs hi =>
    rw [List.foldl_cons, hi, List.append_assoc, List.filterMap_cons]
    cases cidrOf c.ip c.prefixLen <;> rfl

theorem parseGeoIp_text (h : m.Text bs) : (parseGeoIp bs).1 = .ok (Text.asciiLower m.countryCode, m.cidrs) := by
  rw [parseGeoIp, geoIpField, coded_text sound_parseCidr (fun _ _ hc => parseCidr_text hc) h, foldl_cidrs]
  rfl

end GeoIp

section List

variable {bs : List UInt8} {l : List GeoIpMessage}

def withCountry (db : GeoIpDb) (entry : String × List IpCidr) : GeoIpDb where
  countries := db.countries.insert entry.1 entry.2

-- Whatever the bytes are, all that can go wrong is in the bytes.
theorem exists_of_parse_error {bytes : List UInt8} {e : Fault GeoError} (h : GeoIpDb.parse bytes = .error e) :
    ∃ e', e = .error e' := by
  exact ((ofFields_entriesField sound_parseGeoIp).message _).safe bytes (Nat.lt_succ_self bytes.length) e h

theorem parse_text (h : ListText l bs) :
    GeoIpDb.parse bs = .ok (l.foldl (fun db m => addEntry withCountry db (Text.asciiLower m.countryCode, m.cidrs))
      { countries := .empty }) := by
  rw [GeoIpDb.parse, show GeoIpDb.entryField = Reader.entriesField parseGeoIp withCountry from rfl,
    entries_text sound_parseGeoIp (fun _ _ hm => parseGeoIp_text hm) h]

theorem any_cidrs_iff {m : GeoIpMessage} {ip : Ip.IpAddr} :
    m.cidrs.any (·.contains ip) = true ↔ ∃ c ∈ m.cidr, c.Covers ip := by
  rw [List.any_eq_true]
  constructor
  case mp =>
    rintro ⟨c, hc, hin⟩
    obtain ⟨msg, hm, hcidr⟩ := List.mem_filterMap.mp hc
    exact ⟨msg, hm, cidrOf_contains_iff.mp ⟨c, hcidr, hin⟩⟩
  case mpr =>
    rintro ⟨msg, hm, hcovers⟩
    obtain ⟨c, hcidr, hin⟩ := cidrOf_contains_iff.mpr hcovers
    exact ⟨c, List.mem_filterMap.mpr ⟨msg, hm, hcidr⟩, hin⟩

-- A database in which every entry is read answers by the entries. Whatever the bytes are, the reader comes to
-- an end and does not leave them.
theorem geoIp_lookup (bytes : List UInt8) :
    (∀ l, ListText l bytes → ∃ db, GeoIpDb.parse bytes = .ok db ∧
      ∀ code ip, code ≠ "" → (db.matchesIp code ip = true ↔ Covers l code ip)) ∧
    GeoIpDb.parse bytes ≠ .error .outOfFuel ∧ GeoIpDb.parse bytes ≠ .error .outOfBounds := by
  refine ⟨fun l h => ⟨_, parse_text h, fun code ip hc => ?_⟩, fun h => ?_, fun h => ?_⟩
  · rw [GeoIpDb.matchesIp, get_entries (fun _ _ => rfl) (asciiLower_ne hc), PartialMap.get_empty, Option.or_none,
      Covers]
    cases lastFor GeoIpMessage.countryCode l code
    case none   => simp
    case some m => simpa using any_cidrs_iff
  · obtain ⟨e, he⟩ := exists_of_parse_error h
    cases he
  · obtain ⟨e, he⟩ := exists_of_parse_error h
    cases he

def smallCidr : CidrMessage where
  ip := some [1, 1, 1, 0]
  prefixLen := some 24

def smallEntry : GeoIpMessage where
  countryCode := "RU"
  cidr := [smallCidr]

-- The prefix is given twice, the second time with more bytes than it has to have, and there is a field
-- that nobody knows.
theorem smallCidr_text : smallCidr.Text
    [0x10, 0x08, 0x0a, 0x04, 1, 1, 1, 0, 0x10, 0x98, 0x80, 0x00, 0x1d, 9, 9, 9, 9] := by
  have hmore : ∀ b ∈ [(0x98 : UInt8), 0x80], 128 ≤ b.toNat :=
    List.forall_mem_cons.mpr ⟨by decide, List.forall_mem_cons.mpr ⟨by decide, List.forall_mem_nil _⟩⟩
  have h24 : Varint [0x98, 0x80, 0x00] 24 := ⟨⟨[0x98, 0x80], 0x00, rfl, hmore, by decide⟩, by decide, by decide⟩
  have hold : FieldText ⟨2, .varint 8⟩ ([0x10] ++ [0x08]) :=
    .mk (by decide) (varint_byte 0x10 (by decide)) (.varint (varint_byte 0x08 (by decide)))
  have hip : FieldText ⟨1, .len [1, 1, 1, 0]⟩ ([0x0a] ++ ([0x04] ++ [1, 1, 1, 0])) :=
    .mk (by decide) (varint_byte 0x0a (by decide)) (.len (varint_byte 0x04 (by decide)))
  have hnew : FieldText ⟨2, .varint 24⟩ ([0x10] ++ [0x98, 0x80, 0x00]) :=
    .mk (by decide) (varint_byte 0x10 (by decide)) (.varint h24)
  have hother : FieldText ⟨3, .i32 [9, 9, 9, 9]⟩ ([0x1d] ++ [9, 9, 9, 9]) :=
    .mk (by decide) (varint_byte 0x1d (by decide)) (.i32 rfl)
  have ht := MessageText.cons hold (.cons hip (.cons hnew (.cons hother .nil)))
  exact ⟨_, ht, rfl, rfl⟩

def smallEntryBytes : List UInt8 :=
  [0x0a, 0x02, 0x52, 0x55, 0x12, 0x11, 0x10, 0x08, 0x0a, 0x04, 1, 1, 1, 0, 0x10, 0x98, 0x80, 0x00, 0x1d, 9, 9,
    9, 9]

theorem smallEntry_text : smallEntry.Text smallEntryBytes := by
  have hcode : FieldText ⟨1, .len [0x52, 0x55]⟩ ([0x0a] ++ ([0x02] ++ [0x52, 0x55])) :=
    .mk (by decide) (varint_byte 0x0a (by decide)) (.len (varint_byte 0x02 (by decide)))
  have hcidr : FieldText ⟨2, .len (smallEntryBytes.drop 6)⟩ ([0x12] ++ ([0x11] ++ smallEntryBytes.drop 6)) :=
    .mk (by decide) (varint_byte 0x12 (by decide)) (.len (varint_byte 0x11 (by decide)))
  have ht := MessageText.cons hcode (.cons hcidr .nil)
  exact ⟨_, ht, by decide, .cons smallCidr_text .nil⟩

theorem geoIp_lookup_smallEntry : ∃ db, GeoIpDb.parse ([0x0a] ++ ([0x17] ++ smallEntryBytes)) = .ok db ∧
    (db.matchesIp "ru" (.v4 0x01010137) = true ↔ Covers [smallEntry] "ru" (.v4 0x01010137)) := by
  have hentry : FieldText ⟨1, .len smallEntryBytes⟩ ([0x0a] ++ ([0x17] ++ smallEntryBytes)) :=
    .mk (by decide) (varint_byte 0x0a (by decide)) (.len (varint_byte 0x17 (by decide)))
  have hm := MessageText.cons hentry .nil
  have ht : ListText [smallEntry] ([0x0a] ++ ([0x17] ++ smallEntryBytes)) :=
    ⟨_, hm, .cons smallEntry_text .nil⟩
  obtain ⟨db, hdb, hin⟩ := (geoIp_lookup _).1 _ ht
  exact ⟨db, hdb, hin "ru" _ (by decide)⟩

end List
end JammVpn.Geo
