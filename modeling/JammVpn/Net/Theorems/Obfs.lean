import JammVpn.Net.Obfs

-- What comes out of the obfuscation at the other end.
namespace JammVpn.Obfs

open Bytes

-- The kinds of messages, with their numbers and lengths.
inductive Kind
  | init
  | resp
  | cookie
  | data
  deriving DecidableEq

namespace Kind

def type : Kind → Nat
  | init   => tInit
  | resp   => tResp
  | cookie => tCookie
  | data   => tData

def HasSize : Kind → Nat → Prop
  | init, n   => n = lenInit
  | resp, n   => n = lenResp
  | cookie, n => n = lenCookie
  | data, n   => dataMin ≤ n

-- The messages of the handshake have a checksum.
def hasMac1 : Kind → Bool
  | init | resp   => true
  | cookie | data => false

end Kind

structure Canonical (k : Kind) (p : List UInt8) : Prop where
  type : p.take 4 = toLe 4 k.type
  size : k.HasSize p.length

-- The headers tell the types apart, and the lengths those of the handshake.
structure Separable (a : AwgObfuscation) : Prop where
  bound    : a.h1 < 2 ^ 32 ∧ a.h2 < 2 ^ 32 ∧ a.h3 < 2 ^ 32 ∧ a.h4 < 2 ^ 32
  distinct : [a.h1, a.h2, a.h3, a.h4].Nodup
  lengths  : a.s2 ≠ a.s1 + 56

-- What is sent without parameters.
def plain : AwgObfuscation where
  jc := 0
  jmin := 0
  jmax := 0
  s1 := 0
  s2 := 0
  h1 := 1
  h2 := 2
  h3 := 3
  h4 := 4

-- A datagram with the length and the header of the messages of a type.
def LooksLike (a : AwgObfuscation) (t len : Nat) (dg : List UInt8) : Prop :=
  dg.length = sFor a t + len ∧ typeAt dg (sFor a t) = hFor a t

-- Messages that may only differ in their first checksum, which is in front of the last 16 bytes.
def SameButMac1 (p q : List UInt8) : Prop :=
  ∃ u m m' n, p = u ++ (m ++ n) ∧ q = u ++ (m' ++ n) ∧ m.length = 16 ∧ m'.length = 16 ∧ n.length = 16

def ValidMac1 (b : Blake2s) (receiverPub p : List UInt8) : Prop :=
  ∃ u n, p = u ++ (b.mac (mac1Key b receiverPub) u ++ n) ∧ n.length = 16

instance (a : AwgObfuscation) (t len : Nat) (dg : List UInt8) : Decidable (LooksLike a t len dg) :=
  inferInstanceAs (Decidable (_ ∧ _))

section Mac1

variable {b : Blake2s} {u m n pub pub' msg : List UInt8}

theorem fixMac1_append (hl : (u ++ (m ++ n)).length = lenInit ∨ (u ++ (m ++ n)).length = lenResp)
    (hm : m.length = 16) (hn : n.length = 16) :
    fixMac1 b (u ++ (m ++ n)) pub = u ++ (b.mac (mac1Key b pub) u ++ n) := by
  have hoff : (u ++ (m ++ n)).length - 32 = u.length := by
    simp only [List.length_append]
    omega
  have hcond : ¬((u ++ (m ++ n)).length ≠ lenInit ∧ (u ++ (m ++ n)).length ≠ lenResp) := by tauto
  simp only [fixMac1, if_neg hcond, hoff]
  rw [List.take_left, List.append_assoc, ← List.drop_drop, List.drop_left, List.drop_left' hm]

theorem take_fixMac1 (b : Blake2s) (msg pub : List UInt8) : (fixMac1 b msg pub).take 4 = msg.take 4 := by
  rw [fixMac1]
  split
  case isTrue  => rfl
  case isFalse h =>
    have hl : 4 ≤ msg.length - 32 := by
      simp only [lenInit, lenResp] at h
      omega
    dsimp only
    rw [List.append_assoc, List.take_append_of_le_length, List.take_take, Nat.min_eq_left hl]
    rw [List.length_take]
    omega

end Mac1

section Types

variable {a : AwgObfuscation} {k : Kind} {p pre rest : List UInt8} {s v : Nat}

theorem typeAt_append (pre : List UInt8) (hp : pre.length = s) (hv : v < 2 ^ 32) (rest : List UInt8) :
    typeAt (pre ++ (toLe 4 v ++ rest)) s = v := by
  rw [typeAt, List.drop_left' hp, List.take_left' (length_toLe 4 v), ofLe_toLe_of_lt hv]

theorem setType_append (v t : Nat) (rest : List UInt8) : setType t (toLe 4 v ++ rest) = toLe 4 t ++ rest := by
  rw [setType, List.drop_left' (length_toLe 4 v)]

theorem Kind.type_lt (k : Kind) : k.type < 2 ^ 32 := by
  cases k <;> decide

theorem Canonical.eq_append (h : Canonical k p) : p = toLe 4 k.type ++ p.drop 4 := by
  rw [← h.type, List.take_append_drop]

theorem Canonical.typeAt (h : Canonical k p) : typeAt p 0 = k.type := by
  rw [h.eq_append]
  exact typeAt_append [] rfl k.type_lt _

theorem Canonical.length_le (h : Canonical k p) : 32 ≤ p.length := by
  have hs := h.size
  cases k
  case data => exact hs
  all_goals exact hs ▸ by decide

-- The types that have a checksum are the first two.
theorem Kind.hasMac1_iff (k : Kind) : k.hasMac1 = true ↔ k.type = tInit ∨ k.type = tResp := by
  cases k <;> decide

-- A message of the handshake around its checksum.
theorem Canonical.parts (h : Canonical k p) (hk : k.hasMac1 = true) :
    (p.length = lenInit ∨ p.length = lenResp) ∧
      ∃ y m n, p = toLe 4 k.type ++ (y ++ (m ++ n)) ∧ m.length = 16 ∧ n.length = 16 := by
  have hlen : p.length = lenInit ∨ p.length = lenResp := by
    have hs := h.size
    cases k
    case init   => exact .inl hs
    case resp   => exact .inr hs
    case cookie => cases hk
    case data   => cases hk
  refine ⟨hlen, (p.drop 4).take (p.length - 36), ((p.drop 4).drop (p.length - 36)).take 16,
    ((p.drop 4).drop (p.length - 36)).drop 16, ?_, ?_, ?_⟩
  case refine_1 => rw [List.take_append_drop, List.take_append_drop, ← h.eq_append]
  all_goals
    simp only [lenInit, lenResp] at hlen
    simp only [List.length_take, List.length_drop]
    omega

end Types

section Wrap

variable {b : Blake2s} {rng : Rng} {o : AwgObfs} {a : AwgObfuscation} {k : Kind} {p dg : List UInt8} {t len : Nat}

-- The datagram of a message, behind the padding.
def AwgObfs.obfuscated (o : AwgObfs) (b : Blake2s) (a : AwgObfuscation) (k : Kind) (p : List UInt8) : List UInt8 :=
  let dg := toLe 4 (hFor a k.type) ++ p.drop 4
  if k.hasMac1 then fixMac1 b dg o.peerPublic.toList else dg

theorem wrap_getLast? (ho : o.params = some a) (h : Canonical k p) :
    (o.wrap b rng p).getLast? = some (rng.fill a.jc (sFor a k.type) ++ o.obfuscated b a k p) := by
  have hl := h.length_le
  rw [AwgObfs.wrap, ho]
  dsimp only
  rw [if_neg (by omega), h.typeAt, List.getLast?_append, AwgObfs.obfuscated]
  simp only [setType, Kind.hasMac1_iff, List.getLast?_singleton, Option.some_or]

-- A message with its type and its checksum as they were.
def AwgObfs.restored (o : AwgObfs) (b : Blake2s) (t : Nat) (dg : List UInt8) : List UInt8 :=
  if t = tInit ∨ t = tResp then fixMac1 b (setType t dg) o.ourPublic.toList else setType t dg

theorem unwrapAs_fixed (hl : 4 ≤ len) : o.unwrapAs b a dg (t, len, false) =
    if LooksLike a t len dg then some (o.restored b t (dg.drop (sFor a t))) else none := by
  rw [AwgObfs.unwrapAs]
  simp only [Bool.false_eq_true, if_false]
  by_cases h : LooksLike a t len dg
  case pos =>
    have hlong : ¬dg.length < sFor a t + 4 := by
      have := h.1
      omega
    rw [if_pos h, if_neg hlong, if_neg (not_not.mpr h.1), if_neg (not_not.mpr h.2)]
    rfl
  case neg =>
    rw [if_neg h]
    split
    case isTrue => rfl
    case isFalse =>
      split
      case isTrue => rfl
      case isFalse hs =>
        split
        case isTrue     => rfl
        case isFalse ht => exact absurd ⟨not_not.mp hs, not_not.mp ht⟩ h

theorem unwrapAs_transport (a : AwgObfuscation) (dg : List UInt8) : o.unwrapAs b a dg (tData, dataMin, true) =
    if dataMin ≤ dg.length ∧ typeAt dg 0 = a.h4 then some (o.restored b tData dg) else none := by
  have hh : hFor a tData = a.h4 := rfl
  rw [AwgObfs.unwrapAs]
  simp only [show sFor a tData = 0 from rfl, hh, if_true, Nat.zero_add, List.drop_zero]
  by_cases h : dataMin ≤ dg.length ∧ typeAt dg 0 = a.h4
  case pos =>
    have hlong : ¬dg.length < 4 := Nat.not_lt_of_le (Nat.le_trans (by decide) h.1)
    rw [if_pos h, if_neg hlong, if_neg (not_not.mpr h.1), if_neg (not_not.mpr h.2)]
    rfl
  case neg =>
    rw [if_neg h]
    split
    case isTrue => rfl
    case isFalse =>
      split
      case isTrue => rfl
      case isFalse hs =>
        split
        case isTrue     => rfl
        case isFalse ht => exact absurd ⟨not_not.mp hs, not_not.mp ht⟩ h

theorem unwrap_eq (ho : o.params = some a) : o.unwrap b dg =
    if LooksLike a tInit lenInit dg then some (o.restored b tInit (dg.drop a.s1))
    else if LooksLike a tResp lenResp dg then some (o.restored b tResp (dg.drop a.s2))
    else if LooksLike a tCookie lenCookie dg then some (o.restored b tCookie dg)
    else if dataMin ≤ dg.length ∧ typeAt dg 0 = a.h4 then some (o.restored b tData dg)
    else none := by
  rw [AwgObfs.unwrap, ho]
  simp only [kinds, List.findSome?_cons, List.findSome?_nil, unwrapAs_transport,
    unwrapAs_fixed (by decide : 4 ≤ lenInit), unwrapAs_fixed (by decide : 4 ≤ lenResp),
    unwrapAs_fixed (by decide : 4 ≤ lenCookie)]
  split_ifs <;> rfl

end Wrap

section RoundTrip

variable {b : Blake2s} {rng : Rng} {o o' : AwgObfs} {a : AwgObfuscation} {k : Kind} {p pub : List UInt8}

theorem length_fixMac1 (b : Blake2s) (msg pub : List UInt8) : (fixMac1 b msg pub).length = msg.length := by
  rw [fixMac1]
  split
  case isTrue => rfl
  case isFalse h =>
    simp only [lenInit, lenResp] at h
    simp only [List.length_append, List.length_take, List.length_drop, b.length_mac]
    omega

theorem Separable.hFor_lt (h : Separable a) (k : Kind) : hFor a k.type < 2 ^ 32 := by
  cases k
  case init   => exact h.bound.1
  case resp   => exact h.bound.2.1
  case cookie => exact h.bound.2.2.1
  case data   => exact h.bound.2.2.2

theorem Separable.hFor_injective (h : Separable a) {k k' : Kind} (he : hFor a k.type = hFor a k'.type) : k = k' := by
  have hd := h.distinct
  simp only [List.nodup_cons, List.mem_cons, List.not_mem_nil, or_false, not_or] at hd
  obtain ⟨⟨h12, h13, h14⟩, ⟨h23, h24⟩, h34, -⟩ := hd
  cases k <;> cases k'
  case init.init     => rfl
  case resp.resp     => rfl
  case cookie.cookie => rfl
  case data.data     => rfl
  case init.resp     => exact absurd he h12
  case init.cookie   => exact absurd he h13
  case init.data     => exact absurd he h14
  case resp.init     => exact absurd he.symm h12
  case resp.cookie   => exact absurd he h23
  case resp.data     => exact absurd he h24
  case cookie.init   => exact absurd he.symm h13
  case cookie.resp   => exact absurd he.symm h23
  case cookie.data   => exact absurd he h34
  case data.init     => exact absurd he.symm h14
  case data.resp     => exact absurd he.symm h24
  case data.cookie   => exact absurd he.symm h34

-- A datagram as it is sent: the padding, the header, and what follows it.
def sent (rng : Rng) (o : AwgObfs) (b : Blake2s) (a : AwgObfuscation) (k : Kind) (p : List UInt8) : List UInt8 :=
  rng.fill a.jc (sFor a k.type) ++ o.obfuscated b a k p

theorem obfuscated_eq (o : AwgObfs) (b : Blake2s) (a : AwgObfuscation) (k : Kind) (p : List UInt8) :
    ∃ rest, o.obfuscated b a k p = toLe 4 (hFor a k.type) ++ rest := by
  have ht : (o.obfuscated b a k p).take 4 = toLe 4 (hFor a k.type) := by
    rw [AwgObfs.obfuscated]
    split
    case isTrue  => rw [take_fixMac1, List.take_left' (length_toLe 4 _)]
    case isFalse => rw [List.take_left' (length_toLe 4 _)]
  exact ⟨(o.obfuscated b a k p).drop 4, by rw [← ht, List.take_append_drop]⟩

theorem length_sent (h : Canonical k p) : (sent rng o b a k p).length = sFor a k.type + p.length := by
  have hl := h.length_le
  rw [sent, List.length_append, rng.length_fill, AwgObfs.obfuscated]
  split
  case isTrue =>
    rw [length_fixMac1, List.length_append, length_toLe, List.length_drop]
    omega
  case isFalse =>
    rw [List.length_append, length_toLe, List.length_drop]
    omega

theorem typeAt_sent (hs : Separable a) : typeAt (sent rng o b a k p) (sFor a k.type) = hFor a k.type := by
  obtain ⟨rest, hr⟩ := obfuscated_eq o b a k p
  rw [sent, hr]
  exact typeAt_append _ (rng.length_fill _ _) (hs.hFor_lt k) rest

theorem drop_sent : (sent rng o b a k p).drop (sFor a k.type) = o.obfuscated b a k p :=
  List.drop_left' (rng.length_fill _ _)

-- The other end restores the type, and computes the checksum for its own key.
theorem restored_obfuscated (h : Canonical k p) : o'.restored b k.type (o.obfuscated b a k p) =
    if k.hasMac1 then fixMac1 b p o'.ourPublic.toList else p := by
  cases hk : k.hasMac1
  case false =>
    have ht : ¬(k.type = tInit ∨ k.type = tResp) := fun ht => by
      rw [k.hasMac1_iff.mpr ht] at hk
      cases hk
    rw [AwgObfs.restored, if_neg ht, AwgObfs.obfuscated]
    simp only [hk, Bool.false_eq_true, if_false]
    rw [setType_append, ← h.eq_append]
  case true =>
    obtain ⟨hl, y, m, n, hp, hm, hn⟩ := h.parts hk
    have hlen : ∀ v, (toLe 4 v ++ y ++ (m ++ n)).length = p.length := fun v => by
      rw [hp]
      simp only [List.length_append, length_toLe, Nat.add_assoc]
    rw [AwgObfs.restored, if_pos (k.hasMac1_iff.mp hk), AwgObfs.obfuscated]
    simp only [hk, if_true]
    rw [hp, List.drop_left' (length_toLe 4 _)]
    simp only [← List.append_assoc (toLe 4 _)]
    rw [fixMac1_append (by rwa [hlen]) hm hn, fixMac1_append (by rwa [hlen]) hm hn, List.append_assoc,
      setType_append, ← List.append_assoc, fixMac1_append _ (b.length_mac _ _) hn]
    simp only [List.length_append, b.length_mac, ← hm]
    simp only [List.length_append] at hlen
    rwa [hlen]

-- A message of the handshake is taken for what it is, since no other kind comes before it.
theorem unwrap_sent (ho : o'.params = some a) (hs : Separable a) (h : Canonical k p) (hk : k ≠ .data) :
    o'.unwrap b (sent rng o b a k p) = some (if k.hasMac1 then fixMac1 b p o'.ourPublic.toList else p) := by
  have hlen := @length_sent b rng o a k p h
  have hsize := h.size
  have hdrop := @drop_sent b rng o a k p
  have hres := @restored_obfuscated b o o' a k p h
  have htype := @typeAt_sent b rng o a k p hs
  have hlooks {t len : Nat} (ht : t = k.type) (hn : p.length = len) :
      LooksLike a t len (sent rng o b a k p) := by
    subst ht hn
    exact ⟨hlen, htype⟩
  have hnot {t len : Nat} (hn : sFor a k.type + p.length ≠ sFor a t + len) :
      ¬LooksLike a t len (sent rng o b a k p) := fun hl => hn (hlen.symm.trans hl.1)
  have hlengths := hs.lengths
  rw [unwrap_eq ho]
  cases k
  case data => exact absurd rfl hk
  case init =>
    rw [if_pos (hlooks (t := tInit) rfl hsize), ← hres]
    exact congrArg _ (congrArg _ hdrop)
  case resp =>
    have hne : ¬LooksLike a tInit lenInit (sent rng o b a .resp p) := by
      refine hnot fun he => hlengths ?_
      have he : a.s2 + p.length = a.s1 + 148 := he
      have hsize : p.length = 92 := hsize
      omega
    rw [if_neg hne, if_pos (hlooks (t := tResp) rfl hsize), ← hres]
    exact congrArg _ (congrArg _ hdrop)
  case cookie =>
    have hshort {t len : Nat} (hl : 64 < len) : ¬LooksLike a t len (sent rng o b a .cookie p) := by
      refine hnot fun he => ?_
      have he : 0 + p.length = sFor a t + len := he
      have hsize : p.length = 64 := hsize
      omega
    rw [if_neg (hshort (by decide)), if_neg (hshort (by decide)), if_pos (hlooks (t := tCookie) rfl hsize), ← hres]
    exact congrArg _ (congrArg _ hdrop)

theorem take_restored (o : AwgObfs) (b : Blake2s) (t : Nat) (dg : List UInt8) :
    (o.restored b t dg).take 4 = toLe 4 t := by
  rw [AwgObfs.restored]
  split
  case isTrue  => rw [take_fixMac1, setType, List.take_left' (length_toLe 4 t)]
  case isFalse => rw [setType, List.take_left' (length_toLe 4 t)]

-- What is taken for a message of another type is not this one.
theorem restored_ne (h : Canonical k p) {t : Nat} (ht : t < 2 ^ 32) (hn : t ≠ k.type) (dg : List UInt8) :
    some (o.restored b t dg) ≠ some p := by
  intro he
  have htake := (take_restored o b t dg).symm.trans ((congrArg (List.take 4) (Option.some.inj he)).trans h.type)
  exact hn (toLe_inj ht k.type_lt htake)

-- Data is only taken for what it is if it does not look like a message of the handshake.
theorem unwrap_sent_data (ho : o'.params = some a) (hs : Separable a) (h : Canonical .data p) :
    o'.unwrap b (sent rng o b a .data p) = some p ↔
      ¬LooksLike a tInit lenInit (sent rng o b a .data p) ∧ ¬LooksLike a tResp lenResp (sent rng o b a .data p) := by
  have hlen : (sent rng o b a .data p).length = p.length := (length_sent h).trans (Nat.zero_add _)
  have htype : typeAt (sent rng o b a .data p) 0 = a.h4 := typeAt_sent hs
  have hres : o'.restored b tData (sent rng o b a .data p) = p := by
    have hpad : sent rng o b a .data p = o.obfuscated b a .data p := drop_sent (k := .data)
    rw [hpad]
    exact restored_obfuscated h
  have hcookie : ¬LooksLike a tCookie lenCookie (sent rng o b a .data p) := fun hl => by
    have he : hFor a Kind.data.type = hFor a Kind.cookie.type := htype.symm.trans hl.2
    cases hs.hFor_injective he
  rw [unwrap_eq ho]
  by_cases hi : LooksLike a tInit lenInit (sent rng o b a .data p)
  case pos =>
    rw [if_pos hi]
    exact iff_of_false (restored_ne h (by decide) (by decide) _) fun hn => hn.1 hi
  case neg =>
    rw [if_neg hi]
    by_cases hr : LooksLike a tResp lenResp (sent rng o b a .data p)
    case pos =>
      rw [if_pos hr]
      exact iff_of_false (restored_ne h (by decide) (by decide) _) fun hn => hn.2 hr
    case neg =>
      rw [if_neg hr, if_neg hcookie, if_pos ⟨hlen ▸ h.size, htype⟩, hres]
      exact iff_of_true rfl ⟨hi, hr⟩

theorem sameButMac1_fixMac1 (h : Canonical k p) (hk : k.hasMac1 = true) (b : Blake2s) (pub : List UInt8) :
    SameButMac1 p (fixMac1 b p pub) := by
  obtain ⟨hl, y, m, n, hp, hm, hn⟩ := h.parts hk
  rw [← List.append_assoc] at hp
  refine ⟨_, m, b.mac (mac1Key b pub) (toLe 4 k.type ++ y), n, hp, ?_, hm, b.length_mac _ _, hn⟩
  rw [hp] at hl ⊢
  exact fixMac1_append hl hm hn

theorem fixMac1_of_valid (h : Canonical k p) (hk : k.hasMac1 = true) (hv : ValidMac1 b pub p) :
    fixMac1 b p pub = p := by
  obtain ⟨u, n, rfl, hn⟩ := hv
  exact fixMac1_append (h.parts hk).1 (b.length_mac _ _) hn

theorem new_params (params : Option AwgObfuscation) (our peer : List.Vector UInt8 32) :
    (∃ a, (AwgObfs.new params our peer).params = some a ∧ params.getD plain = a) ∨
      (AwgObfs.new params our peer).params = none ∧ isIdentity (params.getD plain) = true := by
  cases params
  case none => exact .inr ⟨rfl, rfl⟩
  case some a =>
    cases ha : isIdentity a
    case false => exact .inl ⟨a, by simp [AwgObfs.new, ha], rfl⟩
    case true  => exact .inr ⟨by simp [AwgObfs.new, ha], ha⟩

-- Without padding and with the types as they are, data does not look like a message of the handshake.
theorem not_looksLike_of_isIdentity (ha : isIdentity a = true) (h : Canonical .data p) :
    ¬LooksLike a tInit lenInit p ∧ ¬LooksLike a tResp lenResp p := by
  simp only [isIdentity, decide_eq_true_eq] at ha
  obtain ⟨-, hs1, hs2, hh1, hh2, -, -⟩ := ha
  have htype : typeAt p 0 = 4 := h.typeAt
  constructor
  case left =>
    rintro ⟨-, ht⟩
    have ht : typeAt p a.s1 = a.h1 := ht
    rw [hs1, hh1, htype] at ht
    cases ht
  case right =>
    rintro ⟨-, ht⟩
    have ht : typeAt p a.s2 = a.h2 := ht
    rw [hs2, hh2, htype] at ht
    cases ht

end RoundTrip

-- The datagram that ends what is sent for a message, and what the other end makes of it.
theorem unwrap_wrap (b : Blake2s) (rng : Rng) (params : Option AwgObfuscation) (hs : Separable (params.getD plain))
    (our peer our' peer' : List.Vector UInt8 32) (k : Kind) (p : List UInt8) (h : Canonical k p) :
    ∃ dg, ((AwgObfs.new params our peer).wrap b rng p).getLast? = some dg ∧
      (k.hasMac1 = true → ∃ q, (AwgObfs.new params our' peer').unwrap b dg = some q ∧ SameButMac1 p q) ∧
      (k = .cookie → (AwgObfs.new params our' peer').unwrap b dg = some p) ∧
      (k = .data → ((AwgObfs.new params our' peer').unwrap b dg = some p ↔
        ¬LooksLike (params.getD plain) tInit lenInit dg ∧ ¬LooksLike (params.getD plain) tResp lenResp dg)) ∧
      (k.hasMac1 = true → our' = peer → ValidMac1 b peer.toList p →
        (AwgObfs.new params our' peer').unwrap b dg = some p) := by
  obtain ⟨a, ho, ha⟩ | ⟨ho, ha⟩ := new_params params our peer
  case inl =>
    have ho' : (AwgObfs.new params our' peer').params = some a := ho
    rw [ha] at hs ⊢
    refine ⟨_, wrap_getLast? ho h, fun hk => ?_, fun hk => ?_, fun hk => ?_, fun hk hm hv => ?_⟩
    case refine_1 =>
      refine ⟨_, unwrap_sent ho' hs h (by rintro rfl; cases hk), ?_⟩
      rw [if_pos hk]
      exact sameButMac1_fixMac1 h hk b _
    case refine_2 =>
      subst hk
      exact unwrap_sent ho' hs h (by decide)
    case refine_3 =>
      subst hk
      exact unwrap_sent_data ho' hs h
    case refine_4 =>
      subst hm
      have hne : k ≠ .data := by
        rintro rfl
        cases hk
      have hu := @unwrap_sent b rng (AwgObfs.new params our our') _ a k p ho' hs h hne
      rw [if_pos hk] at hu
      exact hu.trans (congrArg some (fixMac1_of_valid h hk hv))
  case inr =>
    have hw : (AwgObfs.new params our peer).wrap b rng p = [p] := by rw [AwgObfs.wrap, ho]
    have hu : (AwgObfs.new params our' peer').unwrap b p = some p := by
      have ho' : (AwgObfs.new params our' peer').params = none := ho
      rw [AwgObfs.unwrap, ho']
    rw [hw]
    refine ⟨p, rfl, fun hk => ⟨p, hu, ?_⟩, fun _ => hu, fun hk => iff_of_true hu ?_, fun _ _ _ => hu⟩
    case refine_1 =>
      obtain ⟨-, y, m, n, hp, hm, hn⟩ := h.parts hk
      rw [← List.append_assoc] at hp
      exact ⟨_, m, m, n, hp, hp, hm, hm, hn⟩
    case refine_2 =>
      subst hk
      exact not_looksLike_of_isIdentity ha h

-- A hash and a generator that only give zeros.
def Blake2s.zero : Blake2s where
  hash _ := List.replicate 32 0
  mac _ _ := List.replicate 16 0
  length_mac _ _ := List.length_replicate

def Rng.zero : Rng where
  range _ lo _ := lo
  fill _ n := List.replicate n 0
  mem_range _ _ _ h := ⟨Nat.le_refl _, h⟩
  length_fill _ _ := List.length_replicate

def amnezia : AwgObfuscation where
  jc := 3
  jmin := 10
  jmax := 20
  s1 := 8
  s2 := 12
  h1 := 0x11111111
  h2 := 0x22222222
  h3 := 0x33333333
  h4 := 0x44444444

-- A handshake initiation between two ends that know each other.
theorem unwrap_wrap_initiation :
    let our := List.Vector.replicate 32 7
    let peer := List.Vector.replicate 32 9
    let p := toLe 4 tInit ++ List.replicate 144 0
    ∃ dg, ((AwgObfs.new (some amnezia) our peer).wrap .zero .zero p).getLast? = some dg ∧
      (AwgObfs.new (some amnezia) peer our).unwrap .zero dg = some p := by
  intro our peer p
  have hs : Separable amnezia := ⟨by decide, by decide, by decide⟩
  have hp : Canonical .init p := ⟨by decide, rfl⟩
  have hv : ValidMac1 .zero peer.toList p :=
    ⟨toLe 4 tInit ++ List.replicate 112 0, List.replicate 16 0, rfl, List.length_replicate⟩
  obtain ⟨dg, hl, -, -, -, hu⟩ := unwrap_wrap .zero .zero (some amnezia) hs our peer peer our .init p hp
  exact ⟨dg, hl, hu rfl rfl hv⟩

end JammVpn.Obfs
