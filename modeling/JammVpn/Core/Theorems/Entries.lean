import JammVpn.Core.Theorems.Protobuf
import JammVpn.Lib.Maps

-- Databases whose entries have codes, and what the messages in them say.
namespace JammVpn.Geo

open Cursor Protobuf Reader

-- A text that is not there is empty.
def CodedText {μ : Type} (Element : μ → List UInt8 → Prop) (code : String) (elements : List μ)
    (bs : List UInt8) : Prop :=
  ∃ fs, MessageText fs bs ∧ (last (Field.bytes 1) fs).getD [] = Utf8.encode code.toList ∧
    List.Forall₂ Element elements (all (Field.bytes 2) fs)

def EntriesText {μ : Type} (Entry : μ → List UInt8 → Prop) (entries : List μ) (bs : List UInt8) : Prop :=
  ∃ fs, MessageText fs bs ∧ List.Forall₂ Entry entries (all (Field.bytes 1) fs)

-- Of the entries with a code the last one counts.
def lastFor {μ : Type} (codeOf : μ → String) (entries : List μ) (code : String) : Option μ :=
  (entries.filter fun m => Text.asciiLower (codeOf m) == Text.asciiLower code).getLast?

theorem asciiLower_ne {code : String} (h : code ≠ "") : Text.asciiLower code ≠ "" := by
  intro he
  have hnil := congrArg String.toList he
  rw [Text.asciiLower, String.toList_ofList] at hnil
  exact h (String.toList_eq_nil_iff.mp (List.map_eq_nil_iff.mp hnil))

theorem exists_of_forall₂ {α β : Type} {R : α → β → Prop} {l : List α} {l' : List β} (h : List.Forall₂ R l l')
    {b : β} (hb : b ∈ l') : ∃ a, R a b := by
  induction h
  case nil => cases hb
  case cons a b' l l' hab _ hi =>
    rcases List.mem_cons.mp hb with rfl | hb
    · exact ⟨a, hab⟩
    · exact hi hb

section Coded

variable {α β μ : Type} {element : Reader α} {add : β → α → β} {r : String × β} {f : Field} {bs : List UInt8}

theorem ofFields_codedField (h : ∀ k, Sound element k) : OfFields (codedField element add) :=
  ofFields_readTag fun _ _ _ =>
    .ite (sound_readString.bind fun _ => sound_pure _) <|
    .ite (sound_readBytes.bind fun _ => (sound_nested h _).bind fun _ => sound_pure _) <|
    (sound_skip _).bind fun _ => sound_pure _

def lowerCode (b : List UInt8) : String :=
  Text.asciiLower (.ofList (Utf8.decodeLossy b))

-- The element that is read from bytes, added to those that there are.
def addAt (element : Reader α) (add : β → α → β) (x : β) (b : List UInt8) : β :=
  match (element b).1 with
  | .ok a    => add x a
  | .error _ => x

def codedStep (element : Reader α) (add : β → α → β) (r : String × β) (f : Field) : String × β :=
  (((f.bytes 1).map lowerCode).getD r.1, (f.bytes 2).toList.foldl (addAt element add) r.2)

theorem reads_codedField (h : FieldText f bs) (he : ∀ b, f.bytes 2 = some b → ∃ a, (element b).1 = .ok a) :
    Reads (codedField element add r) bs (codedStep element add r f) := by
  refine reads_twoFields h (fun h1 body hb => ?code) (fun h1 h2 body hb => ?element) fun h1 h2 => ?other
  case code =>
    obtain ⟨v, b, hbytes, hv, rfl⟩ := len_of_wire h1.2 hb
    have hnone : f.bytes 2 = none := bytes_eq_none fun hn => absurd (h1.1.symm.trans hn.1) (by decide)
    rw [h1.1] at hbytes
    rw [codedStep, hbytes, hnone]
    exact (reads_string hv).last rfl
  case element =>
    obtain ⟨v, b, hbytes, hv, rfl⟩ := len_of_wire h2.2 hb
    rw [h2.1] at hbytes
    obtain ⟨a, ha⟩ := he b hbytes
    rw [codedStep, bytes_eq_none h1, hbytes]
    refine (reads_bytes hv).last ?_
    funext s
    rw [bind_eq (show nested element b s = (.ok a, s) from Prod.ext ha rfl)]
    simp [addAt, ha]
  case other => rw [codedStep, bytes_eq_none h1, bytes_eq_none h2]; rfl

theorem foldl_codedStep (fs : List Field) (r : String × β) :
    fs.foldl (codedStep element add) r =
      (((last (Field.bytes 1) fs).map lowerCode).getD r.1,
        (all (Field.bytes 2) fs).foldl (addAt element add) r.2) := by
  induction fs generalizing r
  case nil => rfl
  case cons f fs hi =>
    rw [List.foldl_cons, hi, last_cons, codedStep, all_cons, List.foldl_append]
    congr 1
    cases last (Field.bytes 1) fs <;> rfl

variable {Element : μ → List UInt8 → Prop} {value : μ → α} {code : String} {elements : List μ}

theorem foldl_addAt {bss : List (List UInt8)} (he : ∀ m b, Element m b → (element b).1 = .ok (value m))
    (h : List.Forall₂ Element elements bss) (x : β) :
    bss.foldl (addAt element add) x = elements.foldl (fun x m => add x (value m)) x := by
  induction h generalizing x
  case nil => rfl
  case cons m b elements bss hm _ hi => rw [List.foldl_cons, List.foldl_cons, hi, addAt, he m b hm]

theorem coded_text (hs : ∀ k, Sound element k) (he : ∀ m b, Element m b → (element b).1 = .ok (value m))
    (h : CodedText Element code elements bs) (x : β) :
    (untilEof (codedField element add) ("", x) bs).1 =
      .ok (Text.asciiLower code, elements.foldl (fun x m => add x (value m)) x) := by
  obtain ⟨fs, ht, hcode, hall⟩ := h
  have hread : ∀ f ∈ fs, ∀ bs x, FieldText f bs →
      Reads (codedField element add x) bs (codedStep element add x f) := by
    refine fun f hf bs x ht => reads_codedField ht fun b hb => ?_
    obtain ⟨m, hm⟩ := exists_of_forall₂ hall (mem_all hf hb)
    exact ⟨_, he m b hm⟩
  have hlower : ((last (Field.bytes 1) fs).map lowerCode).getD "" = Text.asciiLower code := by
    have hdecode : lowerCode ((last (Field.bytes 1) fs).getD []) = Text.asciiLower code := by
      rw [hcode, lowerCode, Utf8.decodeLossy_encode, String.ofList_toList]
    rw [← hdecode]
    cases last (Field.bytes 1) fs <;> rfl
  rw [reads_message (ofFields_codedField hs).eats hread ht, foldl_codedStep, foldl_addAt he hall, hlower]

end Coded

section Entries

variable {β δ μ : Type} {entry : Reader (String × β)} {insert : δ → String × β → δ} {db : δ} {f : Field}
variable {bs : List UInt8}

theorem ofFields_entriesField (h : ∀ k, Sound entry k) : OfFields (entriesField entry insert) :=
  ofFields_readTag fun _ _ _ =>
    .ite (sound_readBytes.bind fun _ => (sound_nested h _).bind fun _ => .ite (sound_pure _) (sound_pure _)) <|
    (sound_skip _).bind fun _ => sound_pure _

def addEntry (insert : δ → String × β → δ) (db : δ) (e : String × β) : δ :=
  if e.1 = "" then db else insert db e

def entriesStep (entry : Reader (String × β)) (insert : δ → String × β → δ) (db : δ) (f : Field) : δ :=
  (f.bytes 1).toList.foldl (addAt entry (addEntry insert)) db

theorem reads_entriesField (h : FieldText f bs) (he : ∀ b, f.bytes 1 = some b → ∃ e, (entry b).1 = .ok e) :
    Reads (entriesField entry insert db) bs (entriesStep entry insert db f) := by
  refine reads_field h fun body hb => ?_
  by_cases h1 : f.number = 1 ∧ f.payload.wire = 2
  case pos =>
    obtain ⟨v, b, hbytes, hv, rfl⟩ := len_of_wire h1.2 hb
    rw [h1.1] at hbytes
    obtain ⟨e, he⟩ := he b hbytes
    rw [entriesStep, hbytes, if_pos (Prod.ext h1.1 h1.2)]
    refine (reads_bytes hv).last ?_
    funext s
    rw [bind_eq (show nested entry b s = (.ok e, s) from Prod.ext he rfl)]
    simp only [Option.toList_some, List.foldl_cons, List.foldl_nil, addAt, he, addEntry]
    split <;> rfl
  case neg =>
    rw [if_neg fun he => h1 ⟨congrArg Prod.fst he, congrArg Prod.snd he⟩, entriesStep, bytes_eq_none h1]
    exact (reads_skip hb).last rfl

theorem foldl_entriesStep (fs : List Field) (db : δ) :
    fs.foldl (entriesStep entry insert) db =
      (all (Field.bytes 1) fs).foldl (addAt entry (addEntry insert)) db := by
  induction fs generalizing db
  case nil          => rfl
  case cons f fs hi => rw [List.foldl_cons, hi, entriesStep, all_cons, List.foldl_append]

variable {Entry : μ → List UInt8 → Prop} {value : μ → String × β} {entries : List μ}

theorem entries_text (hs : ∀ k, Sound entry k) (he : ∀ m b, Entry m b → (entry b).1 = .ok (value m))
    (h : EntriesText Entry entries bs) (db : δ) :
    (untilEof (entriesField entry insert) db bs).1 =
      .ok (entries.foldl (fun db m => addEntry insert db (value m)) db) := by
  obtain ⟨fs, ht, hall⟩ := h
  have hread : ∀ f ∈ fs, ∀ bs x, FieldText f bs →
      Reads (entriesField entry insert x) bs (entriesStep entry insert x f) := by
    refine fun f hf bs x ht => reads_entriesField ht fun b hb => ?_
    obtain ⟨m, hm⟩ := exists_of_forall₂ hall (mem_all hf hb)
    exact ⟨_, he m b hm⟩
  rw [reads_message (ofFields_entriesField hs).eats hread ht, foldl_entriesStep, foldl_addAt he hall]

-- Under a code there is what the last entry with it says.
theorem get_entries {maps : δ → PartialMap String β} {codeOf : μ → String} {rest : μ → β} {code : String}
    (hins : ∀ db e, maps (insert db e) = (maps db).insert e.1 e.2) (h : Text.asciiLower code ≠ "")
    (entries : List μ) (db : δ) :
    (maps (entries.foldl (fun db m => addEntry insert db (Text.asciiLower (codeOf m), rest m)) db)).get
        (Text.asciiLower code) =
      ((lastFor codeOf entries code).map rest).or ((maps db).get (Text.asciiLower code)) := by
  induction entries generalizing db
  case nil => rfl
  case cons m entries hi =>
    rw [List.foldl_cons, hi, lastFor, lastFor, List.filter_cons, addEntry]
    by_cases hm : Text.asciiLower (codeOf m) = Text.asciiLower code
    case pos =>
      have hne : ¬Text.asciiLower (codeOf m) = "" := hm ▸ h
      rw [if_neg hne, if_pos (beq_iff_eq.mpr hm), List.getLast?_cons, hins, hm, PartialMap.get_insert_self]
      cases (entries.filter fun m => Text.asciiLower (codeOf m) == Text.asciiLower code).getLast? <;> rfl
    case neg =>
      rw [if_neg (mt beq_iff_eq.mp hm)]
      split
      case isTrue  => rfl
      case isFalse => rw [hins, PartialMap.get_insert_of_ne _ _ fun he => hm he.symm]

end Entries
end JammVpn.Geo
