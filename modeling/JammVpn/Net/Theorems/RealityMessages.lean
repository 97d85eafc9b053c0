import JammVpn.Net.RealityMessages

-- The keys have the lengths that they need, and what a side writes into a message the other one reads there.
namespace JammVpn.Reality

open Bytes

section Keys

variable {C : Crypto} {suite : CipherSuite} {prk info secret context out : List UInt8} {n : Nat} {label : String}

theorem hashLen_pos (suite : CipherSuite) : 0 < suite.hashLen := by
  cases suite <;> decide

theorem length_hkdfBlocks (count i : Nat) (prev : List UInt8) :
    (hkdfBlocks C suite prk info count i prev).length = count * suite.hashLen := by
  induction count generalizing i prev
  case zero => rw [hkdfBlocks, List.length_nil, Nat.zero_mul]
  case succ count hi => rw [hkdfBlocks, List.length_append, hi, C.length_hmac, Nat.succ_mul, Nat.add_comm]

-- As many bytes as are asked for, if there are enough blocks.
theorem hkdfExpand_ok (h : n ≤ 255 * suite.hashLen) : ∃ out, hkdfExpand C suite prk info n = .ok out ∧ out.length = n := by
  have hpos := hashLen_pos suite
  have hle : divCeil n suite.hashLen ≤ 255 := by
    rw [divCeil, Nat.div_le_iff_le_mul hpos]
    omega
  refine ⟨_, if_neg (Nat.not_lt_of_le hle), ?_⟩
  rw [List.length_take, length_hkdfBlocks]
  exact Nat.min_eq_left (le_divCeil_mul hpos)

theorem deriveSecret_ok (label : String) : ∃ out, deriveSecret C suite secret label context = .ok out ∧
    out.length = suite.hashLen :=
  hkdfExpand_ok (Nat.le_mul_of_pos_left _ (by decide))

theorem deriveTrafficKeys_ok (C : Crypto) (secret : List UInt8) (suite : CipherSuite) :
    ∃ key iv, deriveTrafficKeys C secret suite = .ok (key, iv) ∧ key.length = suite.keyLen ∧ iv.length = 12 := by
  have hkey : suite.keyLen ≤ 255 * suite.hashLen := by cases suite <;> decide
  have hiv : suite.nonceLen ≤ 255 * suite.hashLen := by cases suite <;> decide
  obtain ⟨key, hk, hkl⟩ := @hkdfExpand_ok C suite secret
    (toBe 2 suite.keyLen ++ field (Utf8.encode ("tls13 " ++ "key").toList) ++ field []) _ hkey
  obtain ⟨iv, hi, hil⟩ := @hkdfExpand_ok C suite secret
    (toBe 2 suite.nonceLen ++ field (Utf8.encode ("tls13 " ++ "iv").toList) ++ field []) _ hiv
  exact ⟨key, iv, by simp only [deriveTrafficKeys, hkdfExpandLabel, hk, hi, bind, Except.bind, pure, Except.pure], hkl, hil⟩

theorem computeFinishedVerifyData_ok (C : Crypto) (suite : CipherSuite) (baseKey hash : List UInt8) :
    ∃ out, computeFinishedVerifyData C suite baseKey hash = .ok out ∧ out.length = suite.hashLen := by
  have hlen : suite.hashLen ≤ 255 * suite.hashLen := Nat.le_mul_of_pos_left _ (by decide)
  obtain ⟨key, hk, _⟩ := @hkdfExpand_ok C suite baseKey
    (toBe 2 suite.hashLen ++ field (Utf8.encode ("tls13 " ++ "finished").toList) ++ field []) _ hlen
  refine ⟨C.hmac suite key hash, ?_, C.length_hmac _ _ _⟩
  simp only [computeFinishedVerifyData, hkdfExpandLabel, hk, bind, Except.bind, pure, Except.pure]

theorem deriveHandshakeKeys_ok {shared hash : List UInt8} (hs : shared.length = 32) (hh : hash.length = suite.hashLen) :
    ∃ keys, deriveHandshakeKeys C suite shared hash = .ok keys ∧ keys.masterSecret.length = suite.hashLen := by
  obtain ⟨derived, hd, _⟩ := @deriveSecret_ok C suite
    (hkdfExtract C suite (List.replicate suite.hashLen 0) (List.replicate suite.hashLen 0)) (C.digest suite []) "derived"
  obtain ⟨client, hc, _⟩ := @deriveSecret_ok C suite (hkdfExtract C suite derived shared) hash "c hs traffic"
  obtain ⟨server, hv, _⟩ := @deriveSecret_ok C suite (hkdfExtract C suite derived shared) hash "s hs traffic"
  obtain ⟨derived₂, hd₂, _⟩ := @deriveSecret_ok C suite (hkdfExtract C suite derived shared) (C.digest suite []) "derived"
  simp only [deriveHandshakeKeys, hs, hh, ne_eq, not_true_eq_false, if_false, bind, Except.bind, pure, Except.pure, hd, hc,
    hv, hd₂]
  exact ⟨_, rfl, C.length_hmac _ _ _⟩

theorem deriveApplicationSecrets_ok {master hash : List UInt8} (hm : master.length = suite.hashLen)
    (hh : hash.length = suite.hashLen) : ∃ secrets, deriveApplicationSecrets C suite master hash = .ok secrets := by
  obtain ⟨client, hc, _⟩ := @deriveSecret_ok C suite master hash "c ap traffic"
  obtain ⟨server, hs, _⟩ := @deriveSecret_ok C suite master hash "s ap traffic"
  refine ⟨(client, server), ?_⟩
  simp only [deriveApplicationSecrets, hm, hh, ne_eq, not_true_eq_false, or_self, if_false, bind, Except.bind, pure,
    Except.pure, hc, hs]

end Keys

section Messages

open Cursor BufReader

theorem reads_readU8 (b : UInt8) : Reads readU8 [b] b.toNat := by
  have hb : ofBe [b] = b.toNat := by simp [ofBe]
  have htake : Reads (Cursor.take pastEnd 1) [b] [b] := reads_take (by rfl) pastEnd
  exact Reads.last (f := fun bs => pure (ofBe bs)) htake (congrArg pure hb)

theorem reads_readU16Be {n : Nat} (h : n < 65536) : Reads readU16Be (toBe 2 n) n :=
  Reads.last (f := fun bs => pure (ofBe bs)) (reads_take (length_toBe 2 n) pastEnd) (congrArg pure (ofBe_toBe_of_lt h))

theorem reads_readU24Be {n : Nat} (h : n < 16777216) : Reads readU24Be (toBe 3 n) n :=
  Reads.last (f := fun bs => pure (ofBe bs)) (reads_take (length_toBe 3 n) pastEnd) (congrArg pure (ofBe_toBe_of_lt h))

theorem reads_readSlice {bs : List UInt8} {n : Nat} (h : bs.length = n) : Reads (readSlice n) bs bs :=
  reads_take h _

theorem reads_skip {bs : List UInt8} {n : Nat} (h : bs.length = n) : Reads (skip n) bs () :=
  (reads_take h pastEnd).last rfl

theorem run_eq {α : Type} {m : BufReader α} {ts : List UInt8} {a : α} (h : Reads m ts a) (rest : List UInt8) :
    BufReader.run m (ts ++ rest) = .ok a := by
  rw [BufReader.run, h rest]

theorem reads_skipToSuites {random sid : List UInt8} {n : Nat} (kind : UInt8) (hn : n < 16777216)
    (hr : random.length = 32) (hs : sid.length < 256) :
    Reads skipToSuites ([kind] ++ (toBe 3 n ++ (version ++ (random ++ field sid)))) () := by
  have hlen : (UInt8.ofNat sid.length).toNat = sid.length := by
    rw [UInt8.toNat_ofNat']
    exact Nat.mod_eq_of_lt hs
  refine (reads_readU8 kind).bind ((reads_readU24Be hn).bind ?_)
  have hv : Reads readU16Be version 0x0303 := reads_readU16Be (n := 0x0303) (by decide)
  refine hv.bind ((reads_skip hr).bind ?_)
  have hskip : Reads (skip (UInt8.ofNat sid.length).toNat) sid () := reads_skip hlen.symm
  exact (reads_readU8 (.ofNat sid.length)).bind hskip

theorem length_extension (kind : Nat) (data : List UInt8) : (extension kind data).length = 4 + data.length := by
  simp only [extension, List.length_append, length_toBe]

-- An extension that is not the one that is looked for.
theorem reads_findKeyShare_skip {kind left : Nat} {data ts : List UInt8} {r : Option (List UInt8)} (hk : kind < 65536)
    (hne : kind ≠ 51) (hd : data.length < 65536) (hleft : left ≠ 0)
    (h : Reads (findKeyShare (left - (4 + data.length))) ts r) :
    Reads (findKeyShare left) (extension kind data ++ ts) r := by
  rw [findKeyShare, if_neg hleft, extension, List.append_assoc, List.append_assoc]
  refine (reads_readU16Be hk).bind ((reads_readU16Be hd).bind ?_)
  rw [if_neg hne]
  exact (reads_skip rfl).bind h

theorem reads_findKeyShare {left : Nat} {data : List UInt8} (hd : data.length < 65536) (hleft : left ≠ 0) :
    Reads (findKeyShare left) (extension 51 data) (some data) := by
  rw [findKeyShare, if_neg hleft, extension, List.append_assoc]
  refine (reads_readU16Be (by decide)).bind ((reads_readU16Be hd).bind ?_)
  exact (reads_readSlice rfl).last rfl

end Messages

section ServerHello

open Cursor BufReader

variable {random sid pub : List UInt8} {suite n : Nat}

theorem length_writeRecordHeader (contentType : UInt8) (n : Nat) : (writeRecordHeader contentType n).length = 5 := by
  simp only [writeRecordHeader, version, List.length_cons, List.length_append, length_toBe, List.length_nil]

theorem length_message (kind : UInt8) (payload : List UInt8) : (message kind payload).length = 4 + payload.length := by
  simp only [message, List.length_cons, List.length_append, length_toBe]
  omega

def serverExtensions (pub : List UInt8) : List UInt8 :=
  extension 43 [0x03, 0x04] ++ extension 51 (toBe 2 0x001d ++ toBe 2 pub.length ++ pub)

theorem length_serverExtensions (hp : pub.length = 32) : (serverExtensions pub).length = 46 := by
  simp only [serverExtensions, List.length_append, length_extension, length_toBe, hp, List.length_cons,
    List.length_nil]

-- The message up to its suite, and the rest.
theorem constructServerHello_eq (hr : random.length = 32) (hs : sid.length < 256) (hp : pub.length = 32) (suite : Nat) :
    ∃ n < 16777216, constructServerHello random sid suite pub =
      [handshakeTypeServerHello] ++ (toBe 3 n ++ (version ++ (random ++ field sid))) ++
        (toBe 2 suite ++ ([0x00] ++ (toBe 2 (serverExtensions pub).length ++ serverExtensions pub))) := by
  refine ⟨(version ++ random ++ field sid ++ toBe 2 suite ++ [0x00] ++ toBe 2 (serverExtensions pub).length ++
    serverExtensions pub).length, ?_, ?_⟩
  case refine_2 =>
    simp only [constructServerHello, message, serverExtensions, List.append_assoc, List.cons_append, List.nil_append]
  case refine_1 =>
    rw [List.length_append, length_serverExtensions hp]
    simp only [List.length_append, length_toBe, hr, field, List.length_cons, version, List.length_nil]
    omega

theorem reads_serverExtensions (hp : pub.length = 32) : Reads (findKeyShare (serverExtensions pub).length)
    (serverExtensions pub) (some (toBe 2 0x001d ++ toBe 2 pub.length ++ pub)) := by
  rw [length_serverExtensions hp]
  refine reads_findKeyShare_skip (by decide) (by decide) (by decide) (by decide) ?_
  refine reads_findKeyShare ?_ (by decide)
  rw [List.length_append, List.length_append, length_toBe, length_toBe, hp]
  decide

-- What is behind the header of a record.
theorem drop_writeRecordHeader (contentType : UInt8) (n : Nat) (payload : List UInt8) :
    (writeRecordHeader contentType n ++ payload).drop tlsRecordHeaderSize = payload :=
  List.drop_left' (length_writeRecordHeader _ _)

theorem not_short (contentType : UInt8) (n : Nat) (payload : List UInt8) :
    ¬(writeRecordHeader contentType n ++ payload).length < tlsRecordHeaderSize := by
  rw [List.length_append, length_writeRecordHeader, tlsRecordHeaderSize]
  omega

theorem reads_parseServerKeyshare (hp : pub.length = 32) :
    Reads serverKeyShare (toBe 2 0x001d ++ (toBe 2 pub.length ++ pub)) pub := by
  refine (reads_readU16Be (by decide)).bind ((reads_readU16Be (by omega)).bind ?_)
  rw [if_pos rfl, readKey, if_neg (not_not_intro hp)]
  exact reads_readSlice hp

-- The client reads the key of the server out of its hello.
theorem extractServerPublicKey_constructServerHello (hr : random.length = 32) (hs : sid.length < 256)
    (hp : pub.length = 32) (suite : Nat) (contentType : UInt8) (n : Nat) :
    extractServerPublicKey (writeRecordHeader contentType n ++ constructServerHello random sid suite pub) = .ok pub := by
  obtain ⟨m, hm, he⟩ := constructServerHello_eq hr hs hp suite
  have hext : (serverExtensions pub).length < 65536 := by
    rw [length_serverExtensions hp]
    decide
  have hreads := (reads_skipToSuites handshakeTypeServerHello hm hr hs).bind (f := fun _ => do
    skip 2
    skip 1
    findKeyShare (← readU16Be)) ((reads_skip (length_toBe 2 suite)).bind ((@reads_skip [0x00] 1 rfl).bind
      ((reads_readU16Be hext).bind (reads_serverExtensions hp))))
  have hrun := run_eq hreads []
  have hshare := run_eq (reads_parseServerKeyshare hp) []
  rw [List.append_nil] at hrun hshare
  simp only [extractServerPublicKey, if_neg (not_short _ _ _), drop_writeRecordHeader, he]
  rw [hrun]
  show serverKeyShare.run _ = _
  rw [List.append_assoc]
  exact hshare

theorem extractServerCipherSuite_constructServerHello (hr : random.length = 32) (hs : sid.length < 256)
    (hp : pub.length = 32) (hsuite : suite < 65536) (contentType : UInt8) (n : Nat) :
    extractServerCipherSuite (writeRecordHeader contentType n ++ constructServerHello random sid suite pub) =
      .ok suite := by
  obtain ⟨m, hm, he⟩ := constructServerHello_eq hr hs hp suite
  have hrun := run_eq ((reads_skipToSuites handshakeTypeServerHello hm hr hs).bind (f := fun _ => readU16Be)
    (reads_readU16Be hsuite)) ([0x00] ++ (toBe 2 (serverExtensions pub).length ++ serverExtensions pub))
  rw [List.append_assoc] at hrun
  simp only [extractServerCipherSuite, if_neg (not_short _ _ _), drop_writeRecordHeader, he]
  exact hrun

end ServerHello

section Certificates

variable {C : Crypto} {der signingKey hash : List UInt8}

theorem drop_message (kind : UInt8) (payload : List UInt8) (n : Nat) :
    (message kind payload).drop (4 + n) = payload.drop n := by
  have h4 : (kind :: toBe 3 payload.length).length = 4 := by rw [List.length_cons, length_toBe]
  rw [message, ← List.cons_append, ← h4, List.drop_length_add_append]

-- The certificate list of a message, whose context is empty.
theorem constructCertificate_eq (der : List UInt8) : ∃ n, constructCertificate der =
    message handshakeTypeCertificate ([0x00] ++ toBe 3 n ++ (toBe 3 der.length ++ (der ++ [0x00, 0x00]))) := by
  refine ⟨(toBe 3 der.length ++ (der ++ [0x00, 0x00])).length, ?_⟩
  rw [constructCertificate, List.append_assoc (toBe 3 der.length)]

theorem extractCertificateDer_constructCertificate (h : der.length < 16777216) :
    extractCertificateDer (constructCertificate der) = .ok der := by
  obtain ⟨n, he⟩ := constructCertificate_eq der
  have hlen : (constructCertificate der).length = 13 + der.length := by
    simp only [he, length_message, List.length_append, length_toBe, List.length_cons, List.length_nil]
    omega
  have hcontext : ((constructCertificate der).drop 4).take 1 = [0x00] := by
    rw [he, drop_message _ _ 0]
    rfl
  have hlist : (constructCertificate der).drop 8 = toBe 3 der.length ++ (der ++ [0x00, 0x00]) := by
    rw [he, drop_message _ _ 4]
    exact List.drop_left' (by rw [List.length_append, length_toBe]; rfl)
  have hcert : ofBe (((constructCertificate der).drop 8).take 3) = der.length := by
    rw [hlist, List.take_left' (length_toBe 3 _), ofBe_toBe_of_lt h]
  have hder : ((constructCertificate der).drop 11).take der.length = der := by
    rw [← List.drop_drop (i := 3) (j := 8), hlist, List.drop_left' (length_toBe 3 _), List.take_left]
  rw [extractCertificateDer, hcontext]
  simp only [hlen, show 4 + 1 + ofBe [0x00] + 3 = 8 by rfl, hcert, hder]
  rw [if_neg (by omega), if_neg (by omega), if_neg (by omega), if_neg (by omega), if_neg (by omega)]

theorem extractCertificateVerifySignature_constructCertificateVerify
    (h : (C.signEd25519 signingKey (signedContent hash)).length = 64) :
    extractCertificateVerifySignature (constructCertificateVerify C signingKey hash) =
      .ok (C.signEd25519 signingKey (signedContent hash)) := by
  have he : constructCertificateVerify C signingKey hash = message handshakeTypeCertificateVerify
      ([0x08, 0x07] ++ (toBe 2 64 ++ C.signEd25519 signingKey (signedContent hash))) := by
    simp only [constructCertificateVerify, h, List.append_assoc]
  have hlen : (constructCertificateVerify C signingKey hash).length = 72 := by
    simp only [he, length_message, List.length_append, length_toBe, h, List.length_cons, List.length_nil]
  have halg : ((constructCertificateVerify C signingKey hash).drop 4).take 2 = [0x08, 0x07] := by
    rw [he, drop_message _ _ 0]
    rfl
  have hsigLen : ((constructCertificateVerify C signingKey hash).drop 6).take 2 = toBe 2 64 := by
    rw [he, drop_message _ _ 2]
    exact List.take_left' (length_toBe 2 64)
  have hsig : ((constructCertificateVerify C signingKey hash).drop 8).take 64 =
      C.signEd25519 signingKey (signedContent hash) := by
    rw [he, drop_message _ _ 4]
    exact List.take_of_length_le (Nat.le_of_eq h)
  have hkind : (constructCertificateVerify C signingKey hash).headD 0 = 0x0f := by
    rw [he]
    rfl
  have h64 : ofBe (toBe 2 64) = 64 := ofBe_toBe_of_lt (by decide)
  simp only [extractCertificateVerifySignature, hlen, halg, hsigLen, hkind, h64, hsig]
  rfl

end Certificates
end JammVpn.Reality
