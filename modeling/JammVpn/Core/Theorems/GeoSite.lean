import JammVpn.Core.Geo.Dat
import JammVpn.Core.Theorems.Entries

-- What a database says of a host is what the rules say that its messages stand for.
namespace JammVpn

open Text

section Domains

variable {s p : List Char} {h host value : String}

theorem mem_parents_iff : p ∈ DomainSet.parents s ↔ ('.' :: p) <:+ s := by
  induction s
  case nil => simp [DomainSet.parents]
  case cons c s hi =>
    rw [DomainSet.parents, List.suffix_cons_iff]
    split
    case isTrue hc  => rw [List.mem_cons, hi, hc, List.cons.injEq, eq_self_iff_true, true_and]
    case isFalse hc =>
      rw [hi, List.cons.injEq]
      exact (or_iff_right fun h => hc h.1.symm).symm

theorem dropWhile_of_head? {c : Char} (h : s.head? ≠ some c) : s.dropWhile (· == c) = s := by
  cases s
  case nil      => rfl
  case cons d s =>
    have hd : ¬(d == c) = true := fun he => h (congrArg some (beq_iff_eq.mp he))
    exact List.dropWhile_cons_of_neg hd

-- A name that has no dot at either end, and is not empty.
structure Bare (value : String) : Prop where
  ne    : value ≠ ""
  first : value.toList.head? ≠ some '.'
  last  : value.toList.getLast? ≠ some '.'

theorem Bare.normalize (h : Bare value) : DomainRule.normalize value = value.toList.map toAsciiLowercase := by
  rw [DomainRule.normalize, trimEndMatches, dropWhile_of_head? (by rw [List.head?_reverse]; exact h.last),
    List.reverse_reverse]

theorem Bare.ofList_normalize_ne (h : Bare value) : String.ofList (DomainRule.normalize value) ≠ "" := by
  intro he
  have hnil := congrArg String.toList he
  rw [String.toList_ofList, h.normalize] at hnil
  exact h.ne (String.toList_eq_nil_iff.mp (List.map_eq_nil_iff.mp hnil))

-- The rule that an entry of a category stands for.
def ruleOf (dtype : Nat) (value : String) : Option DomainRule :=
  if dtype = Geo.typeFull then some (.full value)
  else if dtype = Geo.typeDomain then some (.suffix value)
  else if dtype = Geo.typePlain then some (.keyword value)
  else none

theorem full_matchesHost_iff (h : Bare value) :
    (DomainRule.full value).matchesHost host = true ↔ DomainRule.normalize value = DomainRule.normalize host := by
  rw [h.normalize]
  simp only [DomainRule.matchesHost, beq_iff_eq, asciiLower, String.toList_ofList]
  exact eq_comm

theorem suffix_matchesHost_iff (h : Bare value) :
    (DomainRule.suffix value).matchesHost host = true ↔
      DomainRule.normalize value = DomainRule.normalize host ∨
        ('.' :: DomainRule.normalize value) <:+ DomainRule.normalize host := by
  rw [h.normalize]
  simp only [DomainRule.matchesHost, trimStartMatches, dropWhile_of_head? h.first, Bool.or_eq_true, beq_iff_eq,
    List.isSuffixOf_iff_suffix]
  exact or_congr_left eq_comm

theorem keyword_matchesHost_iff (h : Bare value) :
    (DomainRule.keyword value).matchesHost host = true ↔
      DomainRule.normalize value <:+: DomainRule.normalize host := by
  rw [h.normalize]
  simp only [DomainRule.matchesHost, decide_eq_true_eq, asciiLower, String.toList_ofList]

namespace DomainSet

variable {set : DomainSet}

theorem contains_ofList_iff {names : List String} : names.contains (.ofList s) = true ↔ ∃ d ∈ names, d.toList = s := by
  rw [List.contains_iff_mem]
  constructor
  case mp  => exact fun hm => ⟨_, hm, String.toList_ofList⟩
  case mpr =>
    rintro ⟨d, hd, rfl⟩
    rwa [String.ofList_toList]

-- The names under which a host is found. Without a suffix there is no need to look at the parents.
theorem matchesHost_iff : set.matchesHost host = true ↔
    (∃ d ∈ set.full, d.toList = DomainRule.normalize host) ∨
    (∃ d ∈ set.suffix, d.toList = DomainRule.normalize host ∨ ('.' :: d.toList) <:+ DomainRule.normalize host) ∨
    ∃ k ∈ set.keyword, k.toList <:+: DomainRule.normalize host := by
  have hwalk : (!set.suffix.isEmpty && (set.suffix.contains (.ofList (DomainRule.normalize host)) ||
      (parents (DomainRule.normalize host)).any fun p => set.suffix.contains (.ofList p))) = true ↔
      ∃ d ∈ set.suffix, d.toList = DomainRule.normalize host ∨ ('.' :: d.toList) <:+ DomainRule.normalize host := by
    rw [Bool.and_eq_true, Bool.or_eq_true, contains_ofList_iff, List.any_eq_true]
    constructor
    case mp =>
      rintro ⟨-, ⟨d, hd, he⟩ | ⟨p, hp, hc⟩⟩
      · exact ⟨d, hd, .inl he⟩
      · obtain ⟨d, hd, rfl⟩ := contains_ofList_iff.mp hc
        exact ⟨d, hd, .inr (mem_parents_iff.mp hp)⟩
    case mpr =>
      rintro ⟨d, hd, hm⟩
      have hne : (!set.suffix.isEmpty) = true := by
        rw [Bool.not_eq_true', List.isEmpty_eq_false_iff]
        exact List.ne_nil_of_mem hd
      refine ⟨hne, hm.imp (fun he => ⟨d, hd, he⟩) fun hp => ?_⟩
      exact ⟨_, mem_parents_iff.mpr hp, contains_ofList_iff.mpr ⟨d, hd, rfl⟩⟩
  rw [matchesHost, Bool.or_eq_true, Bool.or_eq_true, contains_ofList_iff, hwalk, List.any_eq_true, or_assoc]
  simp only [decide_eq_true_eq]

theorem exists_mem_or {α : Type} {l l' : List α} {a : α} {q : α → Prop} (h : ∀ x, x ∈ l' ↔ x ∈ l ∨ x = a) :
    (∃ x ∈ l', q x) ↔ (∃ x ∈ l, q x) ∨ q a := by
  simp only [h, or_and_right, exists_or, exists_eq_left]

-- One entry more is one rule more.
theorem matchesHost_add (h : Bare value) (dtype : Nat) :
    (set.add dtype value).matchesHost host = true ↔
      set.matchesHost host = true ∨ ∃ r, ruleOf dtype value = some r ∧ r.matchesHost host = true := by
  have hlist : (String.ofList (DomainRule.normalize value)).toList = DomainRule.normalize value :=
    String.toList_ofList
  rw [add, if_neg h.ofList_normalize_ne, ruleOf, matchesHost_iff, matchesHost_iff]
  split
  case isTrue =>
    rw [exists_mem_or fun x => List.mem_insert_iff.trans or_comm, hlist, or_right_comm]
    simp only [Option.some.injEq, exists_eq_left', full_matchesHost_iff h]
  case isFalse =>
    split
    case isTrue =>
      rw [@exists_mem_or _ set.suffix _ _ _ fun x => List.mem_insert_iff.trans or_comm, hlist,
        or_right_comm (b := _ ∨ _), ← or_assoc]
      simp only [Option.some.injEq, exists_eq_left', suffix_matchesHost_iff h]
    case isFalse =>
      split
      case isTrue =>
        rw [@exists_mem_or _ set.keyword _ _ _ fun x => List.mem_append.trans (or_congr_right List.mem_singleton),
          hlist, ← or_assoc, ← or_assoc, or_assoc (a := ∃ d ∈ set.full, _)]
        simp only [Option.some.injEq, exists_eq_left', keyword_matchesHost_iff h]
      case isFalse => split <;> simp only [reduceCtorEq, false_and, exists_false, or_false]

end DomainSet

end Domains

namespace Geo

open Cursor Protobuf

section Messages

structure DomainMessage where
  dtype : Option Nat
  value : String

structure GeoSiteMessage where
  countryCode : String
  domain      : List DomainMessage

-- A text that is not there is empty.
def DomainMessage.Text (m : DomainMessage) (bs : List UInt8) : Prop :=
  ∃ fs, MessageText fs bs ∧ last (Field.number? 1) fs = m.dtype ∧
    (last (Field.bytes 2) fs).getD [] = Utf8.encode m.value.toList

def GeoSiteMessage.Text (m : GeoSiteMessage) (bs : List UInt8) : Prop :=
  CodedText DomainMessage.Text m.countryCode m.domain bs

def SiteListText (l : List GeoSiteMessage) (bs : List UInt8) : Prop :=
  EntriesText GeoSiteMessage.Text l bs

-- Without a type a domain is a plain one.
def DomainMessage.rule (m : DomainMessage) : Option DomainRule :=
  ruleOf (m.dtype.getD typePlain) m.value

-- The last entry for the category counts.
def SiteMatches (l : List GeoSiteMessage) (category host : String) : Prop :=
  ∃ m, lastFor GeoSiteMessage.countryCode l category = some m ∧
    ∃ d ∈ m.domain, ∃ r, d.rule = some r ∧ r.matchesHost host = true

end Messages

section Domain

variable {r : Nat × String} {f : Field} {bs : List UInt8} {m : DomainMessage}

theorem ofFields_domainField : Reader.OfFields domainField :=
  Reader.ofFields_readTag fun _ _ _ =>
    .ite (Reader.sound_readVarint.bind fun _ => sound_pure _) <|
    .ite (Reader.sound_readString.bind fun _ => sound_pure _) <|
    (Reader.sound_skip _).bind fun _ => sound_pure _

theorem sound_parseDomain (n : Nat) : Sound parseDomain n :=
  ofFields_domainField.message _

def stringOf (b : List UInt8) : String :=
  .ofList (Utf8.decodeLossy b)

def domainStep (r : Nat × String) (f : Field) : Nat × String :=
  ((f.number? 1).getD r.1, ((f.bytes 2).map stringOf).getD r.2)

theorem reads_domainField (h : FieldText f bs) : Reads (domainField r) bs (domainStep r f) := by
  refine Reader.reads_twoFields h (fun h1 body hb => ?dtype) (fun h1 h2 body hb => ?value) fun h1 h2 => ?other
  case dtype =>
    obtain ⟨v, hnum, hv⟩ := varint_of_wire h1.2 hb
    have hbytes : f.bytes 2 = none := bytes_eq_none fun hn => absurd (h1.1.symm.trans hn.1) (by decide)
    rw [h1.1] at hnum
    rw [domainStep, hnum, hbytes]
    exact (Reader.reads_varint hv).last rfl
  case value =>
    obtain ⟨v, b, hbytes, hv, rfl⟩ := len_of_wire h2.2 hb
    rw [h2.1] at hbytes
    rw [domainStep, number_eq_none h1, hbytes]
    exact (Reader.reads_string hv).last rfl
  case other => rw [domainStep, number_eq_none h1, bytes_eq_none h2]; rfl

theorem foldl_domainStep (fs : List Field) (r : Nat × String) :
    fs.foldl domainStep r =
      ((last (Field.number? 1) fs).getD r.1, ((last (Field.bytes 2) fs).map stringOf).getD r.2) := by
  induction fs generalizing r
  case nil => rfl
  case cons f fs hi =>
    rw [List.foldl_cons, hi, last_cons, last_cons, domainStep]
    cases last (Field.number? 1) fs <;> cases last (Field.bytes 2) fs <;> rfl

theorem parseDomain_text (h : m.Text bs) : (parseDomain bs).1 = .ok (m.dtype.getD typePlain, m.value) := by
  obtain ⟨fs, ht, htype, hvalue⟩ := h
  have hstring : ((last (Field.bytes 2) fs).map stringOf).getD "" = m.value := by
    have hdecode : stringOf ((last (Field.bytes 2) fs).getD []) = m.value := by
      rw [hvalue, stringOf, Utf8.decodeLossy_encode, String.ofList_toList]
    rw [← hdecode]
    cases last (Field.bytes 2) fs <;> rfl
  rw [parseDomain, Reader.reads_message ofFields_domainField.eats (fun f _ bs r hf => reads_domainField hf) ht,
    foldl_domainStep, htype, hstring]

end Domain

section GeoSite

variable {bs : List UInt8} {l : List GeoSiteMessage}

def addDomain (set : DomainSet) (m : DomainMessage) : DomainSet :=
  set.add (m.dtype.getD typePlain) m.value

-- The domains of a category, as the database has them.
def GeoSiteMessage.domains (m : GeoSiteMessage) : DomainSet :=
  m.domain.foldl addDomain {}

theorem sound_parseGeoSite (n : Nat) : Sound parseGeoSite n :=
  (ofFields_codedField sound_parseDomain).message _

theorem parseGeoSite_text {m : GeoSiteMessage} (h : m.Text bs) :
    (parseGeoSite bs).1 = .ok (Text.asciiLower m.countryCode, m.domains) := by
  rw [parseGeoSite, geoSiteField, coded_text sound_parseDomain (fun _ _ hd => parseDomain_text hd) h]
  rfl

theorem matchesHost_domains {ms : List DomainMessage} (h : ∀ m ∈ ms, Bare m.value) (set : DomainSet) (host : String) :
    (ms.foldl addDomain set).matchesHost host = true ↔
      set.matchesHost host = true ∨ ∃ m ∈ ms, ∃ r, m.rule = some r ∧ r.matchesHost host = true := by
  induction ms generalizing set
  case nil => simp
  case cons m ms hi =>
    obtain ⟨hm, hms⟩ := List.forall_mem_cons.mp h
    rw [List.foldl_cons, hi hms, addDomain, DomainSet.matchesHost_add hm, or_assoc, List.exists_mem_cons_iff]
    rfl

def withCategory (db : GeoSiteDb) (entry : String × DomainSet) : GeoSiteDb where
  categories := db.categories.insert entry.1 entry.2

theorem parse_siteText (h : SiteListText l bs) :
    GeoSiteDb.parse bs = .ok (l.foldl
      (fun db m => addEntry withCategory db (Text.asciiLower m.countryCode, m.domains)) { categories := .empty }) := by
  rw [GeoSiteDb.parse, show GeoSiteDb.entryField = Reader.entriesField parseGeoSite withCategory from rfl,
    entries_text sound_parseGeoSite (fun _ _ hm => parseGeoSite_text hm) h]

-- The database finds a host where a rule does, and looking up the parents of a host is the test whether it
-- ends in one of the names.
theorem geoSite_lookup (l : List GeoSiteMessage) (bytes : List UInt8) (h : SiteListText l bytes)
    (hbare : ∀ m ∈ l, ∀ d ∈ m.domain, Bare d.value) :
    (∃ db, GeoSiteDb.parse bytes = .ok db ∧
      ∀ category host, category ≠ "" → (db.matchesHost category host = true ↔ SiteMatches l category host)) ∧
    ∀ (names : List String) (host : String), (∀ d ∈ names, Bare d) →
      (DomainSet.matchesHost { suffix := names.map Text.asciiLower } host = true ↔
        ∃ d ∈ names, (DomainRule.suffix d).matchesHost host = true) := by
  refine ⟨⟨_, parse_siteText h, fun category host hc => ?_⟩, fun names host hn => ?_⟩
  · rw [GeoSiteDb.matchesHost, get_entries (fun _ _ => rfl) (asciiLower_ne hc), PartialMap.get_empty,
      Option.or_none, SiteMatches]
    cases hm : lastFor GeoSiteMessage.countryCode l category
    case none => simp
    case some m =>
      have hmem : m ∈ l := List.mem_of_mem_filter (List.mem_of_getLast? hm)
      have hset := matchesHost_domains (hbare m hmem) {} host
      simp only [Option.map_some, Option.any_some, Option.some.injEq, exists_eq_left']
      refine hset.trans (or_iff_right fun hno => ?_)
      exact absurd hno (by simp [DomainSet.matchesHost])
  · rw [DomainSet.matchesHost_iff]
    have hlower : ∀ d ∈ names, (Text.asciiLower d).toList = DomainRule.normalize d := fun d hd => by
      rw [(hn d hd).normalize, Text.asciiLower, String.toList_ofList]
    constructor
    case mp =>
      rintro (⟨_, hd, _⟩ | ⟨_, hd, hm⟩ | ⟨_, hd, _⟩)
      · exact absurd hd List.not_mem_nil
      · obtain ⟨d, hmem, rfl⟩ := List.mem_map.mp hd
        rw [hlower d hmem] at hm
        exact ⟨d, hmem, (suffix_matchesHost_iff (hn d hmem)).mpr hm⟩
      · exact absurd hd List.not_mem_nil
    case mpr =>
      rintro ⟨d, hd, hm⟩
      refine .inr (.inl ⟨Text.asciiLower d, List.mem_map_of_mem hd, ?_⟩)
      rw [hlower d hd]
      exact (suffix_matchesHost_iff (hn d hd)).mp hm

def smallDomain : DomainMessage where
  dtype := some 2
  value := "a.b"

def smallSite : GeoSiteMessage where
  countryCode := "X"
  domain := [smallDomain]

def smallSiteBytes : List UInt8 :=
  [0x12, 0x0c, 0x12, 0x03, 0x61, 0x2e, 0x62, 0x1d, 9, 9, 9, 9, 0x08, 0x02, 0x0a, 0x01, 0x58]

-- The value comes before the type, with a field between them that nobody knows, and the domain before the code.
theorem smallSite_text : smallSite.Text smallSiteBytes := by
  have hvalue : FieldText ⟨2, .len [0x61, 0x2e, 0x62]⟩ ([0x12] ++ ([0x03] ++ [0x61, 0x2e, 0x62])) :=
    .mk (by decide) (varint_byte 0x12 (by decide)) (.len (varint_byte 0x03 (by decide)))
  have hother : FieldText ⟨3, .i32 [9, 9, 9, 9]⟩ ([0x1d] ++ [9, 9, 9, 9]) :=
    .mk (by decide) (varint_byte 0x1d (by decide)) (.i32 rfl)
  have htype : FieldText ⟨1, .varint 2⟩ ([0x08] ++ [0x02]) :=
    .mk (by decide) (varint_byte 0x08 (by decide)) (.varint (varint_byte 0x02 (by decide)))
  have hd : smallDomain.Text [0x12, 0x03, 0x61, 0x2e, 0x62, 0x1d, 9, 9, 9, 9, 0x08, 0x02] :=
    ⟨_, MessageText.cons hvalue (.cons hother (.cons htype .nil)), rfl, by decide⟩
  have hdomain : FieldText ⟨2, .len [0x12, 0x03, 0x61, 0x2e, 0x62, 0x1d, 9, 9, 9, 9, 0x08, 0x02]⟩
      ([0x12] ++ ([0x0c] ++ [0x12, 0x03, 0x61, 0x2e, 0x62, 0x1d, 9, 9, 9, 9, 0x08, 0x02])) :=
    .mk (by decide) (varint_byte 0x12 (by decide)) (.len (varint_byte 0x0c (by decide)))
  have hcode : FieldText ⟨1, .len [0x58]⟩ ([0x0a] ++ ([0x01] ++ [0x58])) :=
    .mk (by decide) (varint_byte 0x0a (by decide)) (.len (varint_byte 0x01 (by decide)))
  exact ⟨_, MessageText.cons hdomain (.cons hcode .nil), by decide, .cons hd .nil⟩

theorem geoSite_lookup_smallSite : ∃ db, GeoSiteDb.parse ([0x0a] ++ ([0x11] ++ smallSiteBytes)) = .ok db ∧
    (db.matchesHost "x" "www.A.b." = true ↔ SiteMatches [smallSite] "x" "www.A.b.") := by
  have hentry : FieldText ⟨1, .len smallSiteBytes⟩ ([0x0a] ++ ([0x11] ++ smallSiteBytes)) :=
    .mk (by decide) (varint_byte 0x0a (by decide)) (.len (varint_byte 0x11 (by decide)))
  have hm := MessageText.cons hentry .nil
  have ht : SiteListText [smallSite] ([0x0a] ++ ([0x11] ++ smallSiteBytes)) := ⟨_, hm, .cons smallSite_text .nil⟩
  have hbare : ∀ m ∈ [smallSite], ∀ d ∈ m.domain, Bare d.value := by
    intro m hm d hd
    cases List.mem_singleton.mp hm
    cases List.mem_singleton.mp hd
    exact ⟨by decide, by decide, by decide⟩
  obtain ⟨db, hdb, hin⟩ := (geoSite_lookup _ _ ht hbare).1
  exact ⟨db, hdb, hin "x" _ (by decide)⟩

end GeoSite
end Geo
end JammVpn
