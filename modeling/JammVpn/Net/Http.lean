import JammVpn.Lib.Text
import JammVpn.Lib.Utf8
import JammVpn.Net.Conn

namespace JammVpn
namespace Http

open Text Timed

def crlf : List UInt8 :=
  [0x0d, 0x0a]

def ascii (s : String) : List UInt8 :=
  Utf8.encode s.toList

-- The bytes that are read one by one until the empty line; the head may have one byte more than the
-- limit if it ends there.
def readHttpHeadFrom (buf : List UInt8) : Nat → Task (Option (List UInt8))
  | 0     => return none
  | n + 1 => do
    match ← Conn.readByte with
    | none   => return none
    | some b =>
      if crlf ++ crlf <:+ buf ++ [b] then return some (buf ++ [b])
      else readHttpHeadFrom (buf ++ [b]) n

def readHttpHead : Task (Option (List UInt8)) :=
  readHttpHeadFrom [] 16385

def parsePort (s : List Char) (default : Nat) : Nat :=
  (parseUnsigned 65536 s).getD default

-- A bracket that is not closed is read as part of a name.
def splitHostPort (s : List Char) (default : Nat) : List Char × Nat :=
  let bracketed := (stripPrefix ['['] s).bind fun rest =>
    match splitOnceOn "]:".toList rest with
    | some (h, p) => some (h, parsePort p default)
    | none        => (stripSuffix [']'] rest).map fun h => (h, default)
  match bracketed with
  | some r => r
  | none   =>
    match rsplitOnce ':' s with
    | some (h, p) => if h.isEmpty then (s, default) else (h, parsePort p default)
    | none        => (s, default)

def parseAbsoluteUri (uri : List Char) : Option (List Char × Nat × List Char) := do
  let rest ← (stripPrefix "http://".toList uri).or (stripPrefix "https://".toList uri)
  let path := rest.dropWhile (· != '/')
  let (host, port) := splitHostPort (rest.takeWhile (· != '/')) 80
  if host.isEmpty then none
  else return (host, port, if path.isEmpty then ['/'] else path)

def eqIgnoreAsciiCase (a b : List Char) : Bool :=
  a.map toAsciiLowercase == b.map toAsciiLowercase

-- The first two words of the first line.
def parseHead (head : List UInt8) : List Char × List Char :=
  let line := (splitOn "\r\n".toList (Utf8.decodeLossy head)).head?.getD []
  let parts := splitWhitespace line
  (parts[0]?.getD [], parts[1]?.getD [])

-- What follows the first line.
def headersBlock : List UInt8 → List UInt8
  | []      => []
  | b :: bs => if crlf <+: b :: bs then bs.drop 1 else headersBlock bs

-- The head with the path instead of the whole address.
def originForm (method path : List Char) (head : List UInt8) : List UInt8 :=
  Utf8.encode (method ++ ' ' :: path ++ " HTTP/1.1\r\n".toList) ++ headersBlock head

inductive Request
  | connect (host : List Char) (port : Nat)
  | forward (host : List Char) (port : Nat) (head : List UInt8)
  | malformed
  deriving DecidableEq

-- What a head asks for.
def request (head : List UInt8) : Request :=
  let (method, target) := parseHead head
  if eqIgnoreAsciiCase method "CONNECT".toList then
    let (host, port) := splitHostPort target 443
    .connect host port
  else match parseAbsoluteUri target with
    | none                    => .malformed
    | some (host, port, path) => .forward host port (originForm method path head)

-- Bytes from the client at the front of a script.
def arrivals (bs : List (Nat × UInt8)) : Script :=
  bs.map fun x => (x.1, .client x.2)

def lastArrival (now : Nat) (bs : List (Nat × UInt8)) : Nat :=
  bs.foldl (fun now x => max now x.1) now

-- The empty line ends the head, and comes nowhere else.
def IsHead (head : List UInt8) : Prop :=
  crlf ++ crlf <:+ head ∧ ∀ p, p <+: head → crlf ++ crlf <:+ p → p = head

section Read

variable {es : Script} {now n : Nat} {bs : List (Nat × UInt8)} {buf : List UInt8}

theorem readByte_client (t : Nat) (b : UInt8) :
    Conn.readByte ((t, .client b) :: es) now = { trace := [], done := some (some b, es, max now t) } :=
  rfl

theorem readHttpHeadFrom_cons (t : Nat) (b : UInt8) :
    readHttpHeadFrom buf (n + 1) ((t, .client b) :: es) now =
      if crlf ++ crlf <:+ buf ++ [b] then
        { trace := [], done := some (some (buf ++ [b]), es, max now t) }
      else readHttpHeadFrom (buf ++ [b]) n es (max now t) := by
  have hb : (Conn.readByte ((t, .client b) :: es) now).done = some (some b, es, max now t) := rfl
  rw [readHttpHeadFrom, Proc.bind_of_done hb]
  simp only [readByte_client, List.nil_append]
  split <;> rfl

theorem readHttpHeadFrom_isHead (h : IsHead (buf ++ bs.map (·.2))) (hb : bs ≠ [])
    (hn : bs.length ≤ n) :
    readHttpHeadFrom buf n (arrivals bs ++ es) now =
      { trace := [], done := some (some (buf ++ bs.map (·.2)), es, lastArrival now bs) } := by
  induction bs generalizing buf n now
  case nil => exact absurd rfl hb
  case cons x bs hi =>
    cases n
    case zero   => simp at hn
    case succ n =>
      have he : buf ++ (x :: bs).map (·.2) = buf ++ [x.2] ++ bs.map (·.2) := by simp
      rw [he] at h ⊢
      apply (readHttpHeadFrom_cons x.1 x.2).trans
      split
      case isTrue hs =>
        have hp := h.2 _ (List.prefix_append _ _) hs
        have hnil : bs = [] := by simpa using hp
        simp [hnil, lastArrival]
      case isFalse hs =>
        cases bs
        case nil => exact absurd h.1 (by simpa using hs)
        case cons y bs => exact hi h (by simp) (by simpa using hn)

-- A head that is too long is not read to its end.
theorem readHttpHeadFrom_long
    (h : ∀ p, p <+: bs.map (·.2) → p.length ≤ n → ¬crlf ++ crlf <:+ buf ++ p) (hn : n ≤ bs.length) :
    ∃ es' t, readHttpHeadFrom buf n (arrivals bs ++ es) now =
      { trace := [], done := some (none, es', t) } := by
  induction n generalizing buf bs now
  case zero => exact ⟨_, _, rfl⟩
  case succ n hi =>
    cases bs
    case nil => simp at hn
    case cons x bs =>
      have hs : ¬crlf ++ crlf <:+ buf ++ [x.2] := h [x.2] (by simp) (by simp)
      have ⟨es', t, he⟩ := @hi (max now x.1) bs (buf ++ [x.2])
        (fun p hp hl => by simpa using h (x.2 :: p) (by simpa using hp) (by simpa using hl))
        (by simpa using hn)
      exact ⟨es', t, (readHttpHeadFrom_cons x.1 x.2).trans ((if_neg hs).trans he)⟩

end Read

-- Lines, and the empty line behind them.
def headOf (lines : List (List UInt8)) : List UInt8 :=
  lines.flatMap (· ++ crlf) ++ crlf

section Lines

variable {l : List UInt8} {ls : List (List UInt8)}

theorem headOf_cons : headOf (l :: ls) = l ++ (crlf ++ headOf ls) := by
  simp [headOf]

theorem suffix_headOf (h : ls ≠ []) : crlf ++ crlf <:+ headOf ls := by
  induction ls
  case nil => exact absurd rfl h
  case cons l ls hi =>
    rw [headOf_cons]
    cases ls
    case nil => exact List.suffix_append l _
    case cons l' ls =>
      exact (hi (by simp)).trans ((List.suffix_append crlf _).trans (List.suffix_append l _))

-- A line is not empty and has no carriage return: two ends of lines only meet at the end.
theorem headOf_crlf (h : ∀ l ∈ ls, l ≠ [] ∧ 0x0d ∉ l) {r : List UInt8}
    (hr : crlf ++ r = headOf ls) : r = [] := by
  cases ls
  case nil => simpa [headOf] using hr
  case cons l ls =>
    have ⟨hne, hcr⟩ := h l (by simp)
    cases l
    case nil => exact absurd rfl hne
    case cons b l =>
      rw [headOf_cons] at hr
      have hb : 0x0d = b := (List.cons.inj hr).1
      exact absurd (by simp [hb]) hcr

theorem headOf_ends (h : ∀ l ∈ ls, l ≠ [] ∧ 0x0d ∉ l) {x r : List UInt8}
    (he : x ++ (crlf ++ crlf ++ r) = headOf ls) : r = [] := by
  induction ls generalizing x
  case nil =>
    have := congrArg List.length he
    simp [headOf, crlf] at this
    omega
  case cons l ls hi =>
    have ⟨hl, hls⟩ := List.forall_mem_cons.mp h
    rw [headOf_cons, List.append_eq_append_iff] at he
    obtain ⟨a, hx, hc⟩ | ⟨c, hx, hc⟩ := he
    case inl =>
      cases a
      case nil      => exact headOf_crlf hls (by simpa [crlf] using hc)
      case cons b a =>
        have hb : b = 0x0d := by simpa [crlf, eq_comm] using (List.cons.inj hc).1
        exact absurd (by simp [hx, hb]) hl.2
    case inr =>
      match c with
      | []           => exact headOf_crlf hls (by simpa [crlf] using hc.symm)
      | [b]          => simp [crlf] at hc
      | b :: b' :: c =>
        have ⟨_, hc⟩ := List.cons.inj hc
        exact hi hls (List.cons.inj hc).2.symm

theorem isHead_headOf (hn : ls ≠ []) (h : ∀ l ∈ ls, l ≠ [] ∧ 0x0d ∉ l) : IsHead (headOf ls) := by
  refine ⟨suffix_headOf hn, ?_⟩
  rintro p ⟨r, hr⟩ ⟨x, rfl⟩
  have hn : r = [] := headOf_ends h (by simpa using hr)
  simpa [hn] using hr

end Lines
end Http
end JammVpn
