import Passalong.Record

/-!
# Identifiers as text (`ids.rs`)

What `as_str` gives and `parse` accepts. Identifiers are modelled by numbers and lists
of digits; their texts are what requests, paths and the control database hold. Every
text that `asStr` gives is parsed back (`parse_asStr`).
-/

namespace Passalong

/-! ## Hex digits -/

/-- A lower-case hex digit. -/
def hexChar (d : Fin 16) : Char := Nat.digitChar d

/-- The value of a lower-case hex digit; nothing else is one. -/
def hexValue (c : Char) : Option (Fin 16) := (List.finRange 16).find? fun d => hexChar d = c

theorem hexValue_hexChar (d : Fin 16) : hexValue (hexChar d) = some d := by
  revert d
  decide

/-- The digits of a number, the highest first. -/
def hexDigits : Nat → Nat → List (Fin 16)
  | 0, _ => []
  | width + 1, n => hexDigits width (n / 16) ++ [⟨n % 16, Nat.mod_lt _ (by decide)⟩]

/-- The number some digits spell. -/
def ofHexDigits (ds : List (Fin 16)) : Nat :=
  ds.foldl (fun (n : Nat) (d : Fin 16) => 16 * n + d.val) 0

@[simp] theorem length_hexDigits (width n : Nat) : (hexDigits width n).length = width := by
  induction width generalizing n with
  | zero => rfl
  | succ width ih => simp [hexDigits, ih]

/-- Digits enough spell the number. -/
theorem ofHexDigits_hexDigits {width n : Nat} (h : n < 16 ^ width) :
    ofHexDigits (hexDigits width n) = n := by
  induction width generalizing n with
  | zero =>
    simp only [pow_zero] at h
    obtain rfl : n = 0 := by omega
    rfl
  | succ width ih =>
    have hdiv : n / 16 < 16 ^ width := by
      rw [pow_succ] at h
      omega
    have hprefix := ih hdiv
    unfold ofHexDigits at hprefix ⊢
    rw [hexDigits, List.foldl_append, hprefix]
    show 16 * (n / 16) + n % 16 = n
    omega

/-- Digits spell no more than their count allows. -/
theorem ofHexDigits_lt (ds : List (Fin 16)) : ofHexDigits ds < 16 ^ ds.length := by
  induction ds using List.reverseRecOn with
  | nil => decide
  | append_singleton ds d ih =>
    have hd := d.isLt
    unfold ofHexDigits at ih ⊢
    rw [List.foldl_append, List.length_append, List.length_singleton, pow_succ]
    show 16 * ds.foldl (fun (n : Nat) (d : Fin 16) => 16 * n + d.val) 0 + d < _
    omega

/-- `is_lower_hex`, with the digits it saw; of nothing there are none. -/
def parseHex (cs : List Char) : Option (List (Fin 16)) := cs.mapM hexValue

theorem parseHex_hexChar (ds : List (Fin 16)) : parseHex (ds.map hexChar) = some ds := by
  induction ds with
  | nil => rfl
  | cons d ds ih =>
    unfold parseHex at ih ⊢
    rw [List.map_cons, List.mapM_cons, hexValue_hexChar, ih]
    rfl

theorem hexChar_of_hexValue {c : Char} {d : Fin 16} (h : hexValue c = some d) : hexChar d = c := by
  have hfound := List.find?_some h
  simpa using hfound

/-- Nothing but the digits themselves is read as them. -/
theorem of_parseHex {cs : List Char} {ds : List (Fin 16)} (h : parseHex cs = some ds) :
    ds.map hexChar = cs := by
  unfold parseHex at h
  induction cs generalizing ds with
  | nil =>
    cases h
    rfl
  | cons c cs ih =>
    rw [List.mapM_cons] at h
    cases hc : hexValue c with
    | none =>
      rw [hc] at h
      cases h
    | some d =>
      cases hcs : cs.mapM hexValue with
      | none =>
        rw [hc, hcs] at h
        cases h
      | some rest =>
        rw [hc, hcs] at h
        cases h
        rw [List.map_cons, hexChar_of_hexValue hc, ih hcs]

/-- A number's digits are the ones that spelled it. -/
theorem hexDigits_ofHexDigits (ds : List (Fin 16)) :
    hexDigits ds.length (ofHexDigits ds) = ds := by
  induction ds using List.reverseRecOn with
  | nil => rfl
  | append_singleton ds d ih =>
    have hd := d.isLt
    have hsnoc : ofHexDigits (ds ++ [d]) = 16 * ofHexDigits ds + d := by
      unfold ofHexDigits
      rw [List.foldl_append]
      rfl
    have hdiv : (16 * ofHexDigits ds + d) / 16 = ofHexDigits ds := by omega
    have hmod : (16 * ofHexDigits ds + d) % 16 = d := by omega
    rw [List.length_append, List.length_singleton, hexDigits, hsnoc, hdiv, ih]
    simp [hmod]

/-- Exactly so many digits, as a number. -/
def parseNumber (width : Nat) (cs : List Char) : Option (Fin (16 ^ width)) :=
  match parseHex cs with
  | none => none
  | some ds =>
    if h : ds.length = width then some ⟨ofHexDigits ds, h ▸ ofHexDigits_lt ds⟩ else none

/-- A number in so many digits. -/
def numberText (width n : Nat) : List Char := (hexDigits width n).map hexChar

theorem parseNumber_numberText {width : Nat} (n : Fin (16 ^ width)) :
    parseNumber width (numberText width n) = some n := by
  unfold parseNumber numberText
  rw [parseHex_hexChar]
  simp [ofHexDigits_hexDigits n.isLt]

/-- Nothing but a number's text is read as it. -/
theorem of_parseNumber {width : Nat} {cs : List Char} {n : Fin (16 ^ width)}
    (h : parseNumber width cs = some n) : numberText width n = cs := by
  unfold parseNumber at h
  split at h
  · cases h
  · rename_i ds hds
    split at h
    · rename_i hlen
      cases h
      show (hexDigits width (ofHexDigits ds)).map hexChar = cs
      rw [← hlen, hexDigits_ofHexDigits, of_parseHex hds]
    · cases h

@[simp] theorem length_numberText (width n : Nat) : (numberText width n).length = width := by
  simp [numberText]

/-! ## Decimal numbers -/

/-- `parse::<u64>`: decimal digits, which a plus sign may precede. -/
def parseU64 (s : List Char) : Option Nat :=
  let digits := if s.head? = some '+' then s.tail else s
  if digits = [] then none
  else if digits.all Char.isDigit then
    let n := digits.foldl (fun n c => 10 * n + (c.toNat - '0'.toNat)) 0
    if n < u64Bound then some n else none
  else none

/-- The digits of a number spell it. -/
theorem parseU64_toDigits {n : Nat} (h : n < u64Bound) : parseU64 (Nat.toDigits 10 n) = some n := by
  have hdigits : ∀ c ∈ Nat.toDigits 10 n, c.isDigit := fun c hc =>
    Nat.isDigit_of_mem_toDigits (by decide) (by decide) hc
  have hplus : (Nat.toDigits 10 n).head? ≠ some '+' := by
    intro hhead
    have hplus := hdigits '+' (List.mem_of_mem_head? hhead)
    revert hplus
    decide
  have hvalue : (Nat.toDigits 10 n).foldl (fun n c => 10 * n + (c.toNat - '0'.toNat)) 0 = n := by
    rw [← Nat.ofDigitChars_eq_foldl, Nat.ofDigitChars_ten_toDigits]
  unfold parseU64
  rw [if_neg hplus]
  simp only [if_neg Nat.toDigits_ne_nil, if_pos (List.all_eq_true.mpr hdigits), hvalue, if_pos h]

/-! ## Trimming and splitting -/

/-- The characters with the Unicode property `White_Space`. -/
def isWhitespace (c : Char) : Bool :=
  let n := c.toNat
  (9 ≤ n && n ≤ 13) || n = 0x20 || n = 0x85 || n = 0xa0 || n = 0x1680 ||
    (0x2000 ≤ n && n ≤ 0x200a) || n = 0x2028 || n = 0x2029 || n = 0x202f || n = 0x205f ||
    n = 0x3000

/-- `str::trim`. -/
def trim (s : List Char) : List Char := (s.dropWhile isWhitespace).rdropWhile isWhitespace

/-- `str::split_once`: what stands before and after the first `c`. -/
def splitOnce (c : Char) (s : List Char) : Option (List Char × List Char) :=
  match s.dropWhile (· ≠ c) with
  | [] => none
  | _ :: rest => some (s.takeWhile (· ≠ c), rest)

/-- Trimming takes the white space around a text. -/
theorem trim_around {before s after : List Char} (hbefore : ∀ c ∈ before, isWhitespace c)
    (hafter : ∀ c ∈ after, isWhitespace c) : trim (before ++ s ++ after) = trim s := by
  unfold trim
  rw [List.append_assoc, List.dropWhile_append_of_pos hbefore]
  by_cases hs : ∀ c ∈ s, isWhitespace c
  · have hall : ∀ c ∈ s ++ after, isWhitespace c := by
      intro c hc
      exact (List.mem_append.mp hc).elim (hs c) (hafter c)
    rw [List.dropWhile_eq_nil_iff.mpr hall, List.dropWhile_eq_nil_iff.mpr hs]
  · rw [List.dropWhile_append, if_neg (by simpa using hs)]
    unfold List.rdropWhile
    rw [List.reverse_append, List.dropWhile_append_of_pos (by simpa using hafter)]

/-- Nothing is taken from a text that begins and ends with something else. -/
theorem trim_eq {s : List Char} (hhead : ∀ c ∈ s.head?, isWhitespace c = false)
    (hlast : ∀ c ∈ s.getLast?, isWhitespace c = false) : trim s = s := by
  unfold trim
  have hdrop : s.dropWhile isWhitespace = s := by
    cases s with
    | nil => rfl
    | cons c s => exact List.dropWhile_cons_of_neg (by simpa using hhead c rfl)
  rw [hdrop, List.rdropWhile_eq_self_iff]
  intro hs
  simpa using hlast _ (List.getLast?_eq_some_getLast hs)

/-- The first mark splits. -/
theorem splitOnce_append {c : Char} {before after : List Char} (h : c ∉ before) :
    splitOnce c (before ++ c :: after) = some (before, after) := by
  have hall : ∀ a ∈ before, decide (a ≠ c) = true := by
    intro a ha
    refine decide_eq_true fun hac => h ?_
    rw [← hac]
    exact ha
  have hstop : decide (c ≠ c) = false := decide_eq_false (not_not_intro rfl)
  unfold splitOnce
  rw [List.dropWhile_append_of_pos hall, List.takeWhile_append_of_pos hall,
    List.dropWhile_cons_of_neg (by rw [hstop]; exact Bool.false_ne_true),
    List.takeWhile_cons_of_neg (by rw [hstop]; exact Bool.false_ne_true), List.append_nil]

theorem of_splitOnce {c : Char} {s before after : List Char}
    (h : splitOnce c s = some (before, after)) : s = before ++ c :: after := by
  have happend := @List.takeWhile_append_dropWhile _ (fun a => decide (a ≠ c)) s
  unfold splitOnce at h
  cases hdrop : s.dropWhile fun a => decide (a ≠ c) with
  | nil =>
    rw [hdrop] at h
    cases h
  | cons mark rest =>
    have hmark : mark = c := by
      have hhead := List.head?_dropWhile_not (fun a => decide (a ≠ c)) s
      rw [hdrop] at hhead
      simpa using hhead
    rw [hdrop] at h happend
    cases h
    rw [hmark] at happend
    exact happend.symm

/-! ## The identifiers -/

/-- Texts that are all parsed back are all different. -/
theorem injective_of_parse {α : Type} {asStr : α → String} {parse : String → Except ApiError α}
    (h : ∀ id, parse (asStr id) = .ok id) : Function.Injective asStr := by
  intro a b heq
  have hparse := congrArg parse heq
  rw [h, h] at hparse
  exact Except.ok.inj hparse

namespace ItemId

def contentKeyStr (id : ItemId) : String := String.ofList (numberText 12 id.contentKey)

def asStr (id : ItemId) : String :=
  String.ofList (numberText 8 id.ts ++ '-' :: numberText 12 id.contentKey)

def parse (text : String) : Except ApiError ItemId :=
  let cs := text.toList
  match cs[8]?, parseNumber 8 (cs.take 8), parseNumber 12 (cs.drop 9) with
  | some '-', some ts, some contentKey => .ok ⟨ts, contentKey⟩
  | _, _, _ => .error (.invalidId ("`" ++ text ++ "` is not an item id"))

/-- **The text of an item id is one.** -/
theorem parse_asStr (id : ItemId) : parse id.asStr = .ok id := by
  have hdash : (numberText 8 id.ts ++ '-' :: numberText 12 id.contentKey)[8]? = some '-' := by
    rw [List.getElem?_append_right (by simp)]
    simp
  have htake : (numberText 8 id.ts ++ '-' :: numberText 12 id.contentKey).take 8 =
      numberText 8 id.ts := List.take_left' (by simp)
  have hdrop : (numberText 8 id.ts ++ '-' :: numberText 12 id.contentKey).drop 9 =
      numberText 12 id.contentKey := by
    rw [List.drop_append, length_numberText, List.drop_of_length_le (by simp)]
    rfl
  have hts := @parseNumber_numberText 8 id.ts
  have hkey := @parseNumber_numberText 12 id.contentKey
  unfold parse asStr
  simp only [String.toList_ofList]
  rw [hdash, htake, hdrop, hts, hkey]
  rfl

/-- **Nothing but its text is read as an item id.** -/
theorem of_parse {text : String} {id : ItemId} (h : parse text = .ok id) : id.asStr = text := by
  unfold parse at h
  simp only at h
  split at h
  · rename_i ts contentKey hdash hts hkey
    cases h
    have hdrop : text.toList.drop 8 = '-' :: text.toList.drop 9 := by
      obtain ⟨hlt, hget⟩ := List.getElem?_eq_some_iff.mp hdash
      rw [List.drop_eq_getElem_cons hlt, hget]
    show String.ofList (numberText 8 ts ++ '-' :: numberText 12 contentKey) = text
    have htake := @of_parseNumber 8 _ _ hts
    have hrest := @of_parseNumber 12 _ _ hkey
    rw [htake, hrest, ← hdrop, List.take_append_drop, String.ofList_toList]
  · cases h

theorem asStr_injective : Function.Injective asStr := injective_of_parse parse_asStr

end ItemId

namespace KeyId

def asStr (id : KeyId) : String := String.ofList (id.digits.map hexChar)

def parse (text : String) : Except ApiError KeyId :=
  match parseHex text.toList with
  | some ds =>
    if h : 0 < ds.length ∧ ds.length ≤ 64 then .ok ⟨ds, h⟩
    else .error (.invalidId "not a key id")
  | none => .error (.invalidId "not a key id")

/-- **The text of a key id is one.** -/
theorem parse_asStr (id : KeyId) : parse id.asStr = .ok id := by
  unfold parse asStr
  rw [String.toList_ofList, parseHex_hexChar]
  exact dif_pos id.bounded

theorem asStr_injective : Function.Injective asStr := injective_of_parse parse_asStr

/-- Key ids sort as their texts do. -/
instance : LinearOrder KeyId :=
  LinearOrder.lift' KeyId.digits fun a b h => by
    cases a
    cases b
    cases h
    rfl

end KeyId

namespace UploadId

def asStr (id : UploadId) : String := String.ofList (numberText 32 id.bits)

def parse (text : String) : Except ApiError UploadId :=
  match parseNumber 32 text.toList with
  | some bits => .ok ⟨bits⟩
  | none => .error (.invalidId "not an upload id")

/-- **The text of an upload id is one.** -/
theorem parse_asStr (id : UploadId) : parse id.asStr = .ok id := by
  have hbits := @parseNumber_numberText 32 id.bits
  unfold parse asStr
  rw [String.toList_ofList, hbits]

theorem asStr_injective : Function.Injective asStr := injective_of_parse parse_asStr

/-- **Nothing but its text is read as an upload id.** -/
theorem of_parse {text : String} {id : UploadId} (h : parse text = .ok id) : id.asStr = text := by
  unfold parse at h
  split at h
  · rename_i bits hbits
    cases h
    show String.ofList (numberText 32 bits) = text
    have hnumber := @of_parseNumber 32 _ _ hbits
    rw [hnumber, String.ofList_toList]
  · cases h

end UploadId

/-- A workspace's id, sixteen digits: it names the workspace's directory and its rows in
the control database. -/
structure WorkspaceId where
  bits : Fin (2 ^ 64)
  deriving DecidableEq, Repr

instance : LinearOrder WorkspaceId :=
  LinearOrder.lift' WorkspaceId.bits fun a b h => by
    cases a
    cases b
    exact congrArg _ h

instance : Std.LawfulEqOrd WorkspaceId where
  eq_of_compare := compare_eq_iff_eq.mp

instance : Std.TransOrd WorkspaceId := inferInstance

namespace WorkspaceId

def asStr (id : WorkspaceId) : String := String.ofList (numberText 16 id.bits)

def parse (text : String) : Except ApiError WorkspaceId :=
  match parseNumber 16 text.toList with
  | some bits => .ok ⟨bits⟩
  | none => .error (.invalidId "not a workspace id")

/-- **The text of a workspace id is one.** -/
theorem parse_asStr (id : WorkspaceId) : parse id.asStr = .ok id := by
  have hbits := @parseNumber_numberText 16 id.bits
  unfold parse asStr
  rw [String.toList_ofList, hbits]

theorem asStr_injective : Function.Injective asStr := injective_of_parse parse_asStr

end WorkspaceId

end Passalong
