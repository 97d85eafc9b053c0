import JammVpn.Wfp.Theorems.Decide

namespace JammVpn.Wfp

open Text

-- A character of ASCII as the kernel has it.
def unit (c : Char) : UInt16 :=
  .ofNat c.toNat

def IsAscii (s : List Char) : Prop :=
  ∀ c ∈ s, c.toNat < 128

instance {s : List Char} : Decidable (IsAscii s) :=
  List.decidableBAll (fun c : Char => c.toNat < 128) s

def isSeparator (c : Char) : Bool :=
  c == '\\' || c == '/'

def isSeparatorUnit (u : UInt16) : Bool :=
  u == backslash || u == slash

theorem unit_inj {a b : Char} (ha : a.toNat < 128) (hb : b.toNat < 128) (h : unit a = unit b) : a = b := by
  have := congrArg UInt16.toNat h
  simp only [unit, UInt16.toNat_ofNat'] at this
  exact Char.toNat_inj.mp (by omega)

theorem map_unit_inj {s t : List Char} (hs : IsAscii s) (ht : IsAscii t) (h : s.map unit = t.map unit) :
    s = t := by
  induction s generalizing t
  case nil => exact (List.map_eq_nil_iff.mp h.symm).symm
  case cons a s hi =>
    cases t
    case nil => simp at h
    case cons b t =>
      have ⟨hu, hr⟩ := List.cons.inj h
      have ⟨ha, hs⟩ := List.forall_mem_cons.mp hs
      have ⟨hb, ht⟩ := List.forall_mem_cons.mp ht
      rw [unit_inj ha hb hu, hi hs ht hr]

theorem isSeparatorUnit_unit {c : Char} (h : c.toNat < 128) : isSeparatorUnit (unit c) = isSeparator c := by
  have hb : unit c = backslash ↔ c = '\\' := ⟨@unit_inj c '\\' h (by decide), fun h => h ▸ rfl⟩
  have hs : unit c = slash ↔ c = '/' := ⟨@unit_inj c '/' h (by decide), fun h => h ▸ rfl⟩
  rw [Bool.eq_iff_iff]
  simp [isSeparatorUnit, isSeparator, hb, hs]

theorem toNat_toAsciiLowercase (c : Char) :
    (toAsciiLowercase c).toNat = if 65 ≤ c.toNat ∧ c.toNat ≤ 90 then c.toNat + 32 else c.toNat := by
  have hA : 'A' ≤ c ↔ 65 ≤ c.toNat := Iff.rfl
  have hZ : c ≤ 'Z' ↔ c.toNat ≤ 90 := Iff.rfl
  simp only [toAsciiLowercase, hA, hZ]
  split
  case isTrue h =>
    rw [Char.ofNat, dif_pos (.inl (by omega))]
    rfl
  case isFalse => rfl

theorem toAsciiLowercase_ascii {c : Char} : (toAsciiLowercase c).toNat < 128 ↔ c.toNat < 128 := by
  rw [toNat_toAsciiLowercase]
  split <;> omega

theorem isSeparator_toAsciiLowercase (c : Char) : isSeparator (toAsciiLowercase c) = isSeparator c := by
  have hb : ∀ c : Char, c = '\\' ↔ c.toNat = 92 := fun c => Char.toNat_inj.symm
  have hs : ∀ c : Char, c = '/' ↔ c.toNat = 47 := fun c => Char.toNat_inj.symm
  rw [Bool.eq_iff_iff]
  simp only [isSeparator, Bool.or_eq_true, beq_iff_eq, hb, hs, toNat_toAsciiLowercase]
  split <;> omega

theorem utf16_ascii {s : List Char} (h : IsAscii s) : Utf8.utf16 s = s.map unit := by
  induction s
  case nil => rfl
  case cons c s hi =>
    have ⟨hc, hs⟩ := List.forall_mem_cons.mp h
    have hu : Utf8.utf16Char c = [unit c] := if_pos (Nat.lt_trans hc (by decide))
    rw [Utf8.utf16] at hi ⊢
    rw [List.flatMap_cons, hu, hi hs]
    rfl

theorem map_downcase_ascii (rtl : Rtl) {s : List Char} (h : IsAscii s) :
    (s.map unit).map rtl.downcaseUnicodeChar = (s.map toAsciiLowercase).map unit := by
  rw [List.map_map, List.map_map]
  exact List.map_congr_left fun c hc => rtl.downcase_ascii c (h c hc)

theorem unicodeString_of_length {wide : List UInt16} (h : wide.length < 32768) :
    unicodeString wide = wide := by
  rw [unicodeString, List.take_of_length_le (by omega)]

-- How the driver finds an application: by the tail of its id. A path is looked for without its drive.
def dropDrive (v : List UInt16) : List UInt16 :=
  if 2 ≤ v.length ∧ v.getD 1 0 = colon then v.drop 2 else v

def TailMatches (rtl : Rtl) (appId : List UInt16) : AppMatcher → Prop
  | .exePath p     => dropDrive (jammText rtl p) ≠ [] ∧ dropDrive (jammText rtl p) <:+ appId
  | .processName n => appId = jammText rtl n ∨ (jammText rtl n ≠ [] ∧
      ∃ a sep, isSeparatorUnit sep = true ∧ appId = a ++ sep :: jammText rtl n)

theorem jammEndsWithCi_iff {hay suffix : List UInt16} :
    jammEndsWithCi hay suffix = true ↔ suffix ≠ [] ∧ suffix <:+ hay := by
  rw [jammEndsWithCi, List.suffix_iff_eq_drop, ← List.length_pos_iff]
  split
  case isTrue h =>
    constructor
    case mp  => exact fun h => absurd h Bool.false_ne_true
    case mpr =>
      intro ⟨hp, he⟩
      have hl := congrArg List.length he
      rw [List.length_drop] at hl
      omega
  case isFalse h =>
    rw [beq_iff_eq, eq_comm]
    exact ⟨fun he => ⟨by omega, he⟩, fun he => he.2⟩

theorem jammAppMatches_byName {t appId : List UInt16} :
    jammAppMatches { byName := true, value := t } appId = true ↔
      appId = t ∨ (t ≠ [] ∧ ∃ a sep, isSeparatorUnit sep = true ∧ appId = a ++ sep :: t) := by
  simp only [jammAppMatches, if_true]
  by_cases he : appId = t
  case pos => simp [he]
  case neg =>
    simp only [beq_iff_eq, he, if_false, false_or]
    split
    case isFalse hl =>
      constructor
      case mp  => exact fun h => absurd h Bool.false_ne_true
      case mpr =>
        intro ⟨_, a, sep, _, hs⟩
        rw [hs, List.length_append, List.length_cons] at hl
        omega
    case isTrue hl =>
      rw [if_pos (by omega), Bool.and_eq_true, jammEndsWithCi_iff]
      constructor
      case mp =>
        intro ⟨hsep, hne, pre, hpre⟩
        have hp : pre ≠ [] := fun h => he (by rw [← hpre, h, List.nil_append])
        have hlast := List.dropLast_append_getLast hp
        have hoff : appId.length - t.length - 1 = pre.dropLast.length := by
          rw [← hpre, List.length_append, List.length_dropLast]
          omega
        have hs : appId = pre.dropLast ++ pre.getLast hp :: t := by
          rw [← hpre]
          nth_rewrite 1 [← hlast]
          rw [List.append_assoc, List.singleton_append]
        refine ⟨hne, _, _, ?_, hs⟩
        rw [hoff, hs, List.getD_eq_getElem?_getD, List.getElem?_append_right (Nat.le_refl _),
          Nat.sub_self] at hsep
        exact hsep
      case mpr =>
        intro ⟨hne, a, sep, hsep, hs⟩
        have hoff : appId.length - t.length - 1 = a.length := by
          rw [hs, List.length_append, List.length_cons]
          omega
        refine ⟨?_, hne, a ++ [sep], by rw [hs, List.append_assoc]; rfl⟩
        rw [hoff, hs, List.getD_eq_getElem?_getD, List.getElem?_append_right (Nat.le_refl _), Nat.sub_self]
        exact hsep

theorem jammAppMatches_iff (rtl : Rtl) (appId : List UInt16) (m : AppMatcher) :
    jammAppMatches (jammApp rtl (appEntry m)) appId = true ↔ TailMatches rtl appId m := by
  cases m
  case exePath p     => exact jammEndsWithCi_iff
  case processName n => exact jammAppMatches_byName

theorem jammText_ascii (rtl : Rtl) {s : String} (h : IsAscii s.toList) (hl : s.toList.length < 32768) :
    jammText rtl s = (s.toList.map toAsciiLowercase).map unit := by
  rw [jammText, utf16_ascii h, unicodeString_of_length (by rwa [List.length_map]), map_downcase_ascii rtl h]

theorem isAscii_map_lower {s : List Char} : IsAscii (s.map toAsciiLowercase) ↔ IsAscii s := by
  simp only [IsAscii, List.forall_mem_map, toAsciiLowercase_ascii]

theorem eqIgnoreAsciiCase_iff {a b : String} :
    AppMatcher.eqIgnoreAsciiCase a b = true ↔
      a.toList.map toAsciiLowercase = b.toList.map toAsciiLowercase := by
  rw [AppMatcher.eqIgnoreAsciiCase, beq_iff_eq, asciiLower, asciiLower]
  exact ⟨fun h => by simpa using congrArg String.toList h, fun h => by rw [h]⟩

-- The image of a process on a drive, and the id that it has there.
def image (drive : Char) (path : List Char) : ConnApp where
  exePath := some (.ofList (drive :: ':' :: '\\' :: path))

def hardDisk : List Char :=
  "\\device\\harddiskvolume".toList

def device (volume : Nat) : List Char :=
  hardDisk ++ decimal volume

def ntPath (volume : Nat) (path : List Char) : List Char :=
  device volume ++ '\\' :: path

def appIdLower (rtl : Rtl) (volume : Nat) (path : List Char) : List UInt16 :=
  (Utf8.utf16 (ntPath volume path)).map rtl.downcaseUnicodeChar

-- The names that a file can have.
def PlainName : AppMatcher → Prop
  | .exePath _     => False
  | .processName n =>
    IsAscii n.toList ∧ (∀ c ∈ n.toList, isSeparator c = false) ∧ n.toList.length < 32768

theorem isAscii_decimal (n : Nat) : IsAscii (decimal n) := by
  intro c hc
  have hd := Nat.isDigit_of_mem_toDigits (by decide) (by decide) hc
  rw [Char.isDigit, Bool.and_eq_true, decide_eq_true_eq, decide_eq_true_eq] at hd
  exact Nat.lt_of_le_of_lt hd.2 (by decide)

theorem isAscii_ntPath (volume : Nat) {path : List Char} (h : IsAscii path) : IsAscii (ntPath volume path) := by
  have hd : IsAscii hardDisk := by decide +kernel
  exact List.forall_mem_append.mpr ⟨List.forall_mem_append.mpr ⟨hd, isAscii_decimal volume⟩,
    List.forall_mem_cons.mpr ⟨by decide, h⟩⟩

theorem appIdLower_eq (rtl : Rtl) (volume : Nat) {path : List Char} (h : IsAscii path) :
    appIdLower rtl volume path = ((ntPath volume path).map toAsciiLowercase).map unit := by
  rw [appIdLower, utf16_ascii (isAscii_ntPath volume h), map_downcase_ascii rtl (isAscii_ntPath volume h)]

section

variable {drive : Char} {path : List Char}

theorem matches_exePath {p : String} :
    (AppMatcher.exePath p).matchesApp (image drive path) = true ↔
      (drive :: ':' :: '\\' :: path).map toAsciiLowercase = p.toList.map toAsciiLowercase := by
  rw [AppMatcher.matchesApp, image, Option.any_some, eqIgnoreAsciiCase_iff, String.toList_ofList]

theorem fileName_image :
    AppMatcher.fileName (.ofList (drive :: ':' :: '\\' :: path)) =
      .ofList (afterLast isSeparator ('\\' :: path)) := by
  have hl := @afterLast_append_of_mem _ isSeparator ('\\' :: path) _ List.mem_cons_self rfl [drive, ':']
  rw [AppMatcher.fileName, String.toList_ofList, ← hl, afterLast]
  congr 3
  funext c
  simp [isSeparator, bne]

theorem matches_processName {n : String} :
    (AppMatcher.processName n).matchesApp (image drive path) = true ↔
      (afterLast isSeparator ('\\' :: path)).map toAsciiLowercase = n.toList.map toAsciiLowercase := by
  rw [AppMatcher.matchesApp, image, AppMatcher.effectiveName, Option.map_some, Option.any_some,
    fileName_image, eqIgnoreAsciiCase_iff, String.toList_ofList]

theorem isAscii_fileName (hp : IsAscii path) : IsAscii (afterLast isSeparator ('\\' :: path)) := by
  intro c hc
  have hpath : IsAscii ('\\' :: path) := List.forall_mem_cons.mpr ⟨by decide, hp⟩
  exact hpath c (List.mem_reverse.mp ((List.takeWhile_sublist _).subset (List.mem_reverse.mp hc)))

-- What the core finds by name has a name that a file can have.
theorem plainName_of_matches {n : String} (hp : IsAscii path) (hl : path.length + 1 < 32768)
    (h : (AppMatcher.processName n).matchesApp (image drive path) = true) : PlainName (.processName n) := by
  have h := matches_processName.mp h
  refine ⟨?_, fun c hc => ?_, ?_⟩
  case refine_1 =>
    rw [← isAscii_map_lower, ← h, isAscii_map_lower]
    exact isAscii_fileName hp
  case refine_2 =>
    have hm : toAsciiLowercase c ∈ n.toList.map toAsciiLowercase := List.mem_map_of_mem hc
    rw [← h] at hm
    have ⟨d, hd, he⟩ := List.mem_map.mp hm
    rw [← isSeparator_toAsciiLowercase, ← he, isSeparator_toAsciiLowercase]
    exact not_of_mem_afterLast hd
  case refine_3 =>
    have hlen := congrArg List.length h
    have hle := (List.takeWhile_sublist (p := fun c => !isSeparator c) (l := ('\\' :: path).reverse)).length_le
    rw [List.length_map, List.length_map, afterLast, List.length_reverse] at hlen
    rw [List.length_reverse, List.length_cons] at hle
    omega

theorem isSeparatorUnit_lower {s : List Char} (h : IsAscii s) (hs : ∀ c ∈ s, isSeparator c = false) :
    ∀ u ∈ (s.map toAsciiLowercase).map unit, isSeparatorUnit u = false := by
  rw [List.forall_mem_map, List.forall_mem_map]
  intro c hc
  rw [isSeparatorUnit_unit (toAsciiLowercase_ascii.mpr (h c hc)), isSeparator_toAsciiLowercase, hs c hc]

-- The id ends with a separator and the name of the file.
theorem appIdLower_split (rtl : Rtl) (volume : Nat) (hp : IsAscii path) :
    ∃ a sep, isSeparatorUnit sep = true ∧ appIdLower rtl volume path =
      a ++ sep :: ((afterLast isSeparator ('\\' :: path)).map toAsciiLowercase).map unit := by
  have ⟨a, x, hx, hs⟩ := @exists_afterLast _ isSeparator ('\\' :: path) _ List.mem_cons_self rfl
  have hxa : x.toNat < 128 := by
    have hpath : IsAscii ('\\' :: path) := List.forall_mem_cons.mpr ⟨by decide, hp⟩
    exact hpath x (hs ▸ List.mem_append_right a List.mem_cons_self)
  refine ⟨((device volume ++ a).map toAsciiLowercase).map unit, unit (toAsciiLowercase x), ?_, ?_⟩
  case refine_1 =>
    rw [isSeparatorUnit_unit (toAsciiLowercase_ascii.mpr hxa), isSeparator_toAsciiLowercase, hx]
  case refine_2 =>
    rw [appIdLower_eq rtl volume hp, ntPath]
    nth_rewrite 1 [hs]
    simp only [List.map_append, List.map_cons, List.append_assoc]

theorem tailMatches_plainName (rtl : Rtl) (volume : Nat) {n : String} (hp : IsAscii path)
    (hf : afterLast isSeparator ('\\' :: path) ≠ []) (hn : PlainName (.processName n)) :
    TailMatches rtl (appIdLower rtl volume path) (.processName n) ↔
      (AppMatcher.processName n).matchesApp (image drive path) = true := by
  have ⟨hna, hns, hnl⟩ := hn
  have ⟨a, sep, hsep, hid⟩ := appIdLower_split rtl volume hp
  have hfile := isAscii_fileName hp
  have hfree := isSeparatorUnit_lower hna hns
  have hlast : afterLast isSeparatorUnit (appIdLower rtl volume path) =
      ((afterLast isSeparator ('\\' :: path)).map toAsciiLowercase).map unit := by
    rw [hid]
    exact afterLast_append hsep (isSeparatorUnit_lower hfile fun _ => not_of_mem_afterLast)
  rw [matches_processName, TailMatches, jammText_ascii rtl hna hnl]
  constructor
  case mp =>
    rintro (he | ⟨_, a', sep', hsep', he⟩)
    case inl =>
      have hmem : sep ∈ appIdLower rtl volume path := hid ▸ List.mem_append_right a List.mem_cons_self
      exact absurd hsep (by rw [hfree sep (he ▸ hmem)]; exact Bool.false_ne_true)
    case inr =>
      have hl := @afterLast_append _ isSeparatorUnit a' _ sep' hsep' hfree
      rw [← he, hlast] at hl
      exact map_unit_inj (isAscii_map_lower.mpr hfile) (isAscii_map_lower.mpr hna) hl
  case mpr =>
    intro h
    rw [← h]
    exact .inr ⟨by simpa using hf, a, sep, hsep, hid⟩

theorem tailMatches_exePath (rtl : Rtl) (volume : Nat) {p : String} (hp : IsAscii path)
    (hd : drive.toNat < 128) (hl : path.length + 3 < 32768)
    (h : (AppMatcher.exePath p).matchesApp (image drive path) = true) :
    TailMatches rtl (appIdLower rtl volume path) (.exePath p) := by
  have h := matches_exePath.mp h
  have hpath : IsAscii (drive :: ':' :: '\\' :: path) :=
    List.forall_mem_cons.mpr ⟨hd, List.forall_mem_cons.mpr ⟨by decide, List.forall_mem_cons.mpr ⟨by decide, hp⟩⟩⟩
  have hascii : IsAscii p.toList := by rwa [← isAscii_map_lower, ← h, isAscii_map_lower]
  have hlen : p.toList.length = path.length + 3 := by
    rw [← List.length_map toAsciiLowercase, ← h, List.length_map]
    rfl
  have ht : jammText rtl p = unit (toAsciiLowercase drive) :: colon ::
      (('\\' :: path).map toAsciiLowercase).map unit := by
    rw [jammText_ascii rtl hascii (hlen ▸ hl), ← h]
    rfl
  have hdrop : dropDrive (jammText rtl p) = (('\\' :: path).map toAsciiLowercase).map unit := by
    rw [ht, dropDrive, if_pos ⟨by simp, rfl⟩]
    rfl
  refine ⟨hdrop ▸ List.cons_ne_nil _ _, ?_⟩
  rw [hdrop, appIdLower_eq rtl volume hp]
  exact ((List.suffix_append (device volume) ('\\' :: path)).map _).map _

theorem jammAppSelected_iff (rtl : Rtl) {cfg : SplitConfig} {c : JammConfig} {appId : List UInt16}
    (hc : c.apps = (cfg.apps.map appEntry).map (jammApp rtl)) :
    jammAppSelected c appId = true ↔ ∃ m ∈ cfg.apps, TailMatches rtl appId m := by
  simp only [jammAppSelected, hc, List.any_map, List.any_eq_true, Function.comp_apply, jammAppMatches_iff]

end

theorem length_of_ntPath {volume : Nat} {path : List Char} (h : (ntPath volume path).length < 32768) :
    path.length + 3 < 32768 := by
  have h2 : 2 ≤ hardDisk.length := by decide +kernel
  rw [ntPath, device, List.length_append, List.length_append, List.length_cons] at h
  omega

theorem driver_selects_core_or_tail (rtl : Rtl) (cfg : SplitConfig) (c : JammConfig)
    (hc : c.apps = (cfg.apps.map appEntry).map (jammApp rtl)) (drive : Char) (volume : Nat)
    (path : List Char) (hd : drive.toNat < 128) (hp : IsAscii path)
    (hf : afterLast isSeparator ('\\' :: path) ≠ []) (hl : (ntPath volume path).length < 32768) :
    jammAppSelected c (appIdLower rtl volume path) = true ↔
      Split.appSelected cfg (image drive path) = true ∨
        ∃ m ∈ cfg.apps, ¬PlainName m ∧ TailMatches rtl (appIdLower rtl volume path) m := by
  have hlen := length_of_ntPath hl
  rw [jammAppSelected_iff rtl hc, Split.appSelected, List.any_eq_true]
  constructor
  case mp =>
    intro ⟨m, hm, ht⟩
    by_cases hn : PlainName m
    case neg => exact .inr ⟨m, hm, hn, ht⟩
    case pos =>
      cases m
      case exePath p     => exact absurd hn id
      case processName n => exact .inl ⟨_, hm, (tailMatches_plainName rtl volume hp hf hn).mp ht⟩
  case mpr =>
    rintro (⟨m, hm, h⟩ | ⟨m, hm, _, ht⟩)
    case inr => exact ⟨m, hm, ht⟩
    case inl =>
      refine ⟨m, hm, ?_⟩
      cases m
      case exePath p => exact tailMatches_exePath rtl volume hp hd hlen h
      case processName n =>
        have hn := plainName_of_matches hp (by omega) h
        exact (tailMatches_plainName rtl volume hp hf hn).mpr h

-- The application on the drive `D:` is in the list.
def onDriveD : SplitConfig where
  apps := [.exePath "D:\\app.exe"]

def loaded (cfg : SplitConfig) : JammConfig where
  mode := 0
  killSwitch := false
  redirectPort := 0
  redirectPid := 0
  apps := (cfg.apps.map appEntry).map (jammApp .ascii)
  bypass := []
  forceDirect := []
  forceTunnel := []
  endpoints := []

theorem driver_selects_core_or_tail_onDriveD :
    jammAppSelected (loaded onDriveD) (appIdLower .ascii 3 "app.exe".toList) = true ↔
      Split.appSelected onDriveD (image 'C' "app.exe".toList) = true ∨
        ∃ m ∈ onDriveD.apps, ¬PlainName m ∧ TailMatches .ascii (appIdLower .ascii 3 "app.exe".toList) m :=
  driver_selects_core_or_tail .ascii onDriveD (loaded onDriveD) rfl 'C' 3 "app.exe".toList (by decide)
    (by decide +kernel) (by decide +kernel) (by decide +kernel)

theorem other_drive_selected :
    jammAppSelected (loaded onDriveD) (appIdLower .ascii 3 "app.exe".toList) = true ∧
      Split.appSelected onDriveD (image 'C' "app.exe".toList) = false := by
  decide +kernel

end JammVpn.Wfp
