import Mathlib.Order.Interval.Set.Basic
import Passalong.ContentRead

/-!
# Range requests (`bridge.rs`, `handlers/items.rs`)

`one_range` names positions of a content: those that the header asks for and the content
has. Read from below, every way to write a range is one interval cut by the content's
size (`oneRange_within`, `oneRange_from`, `oneRange_suffix`); read from above, whatever is
answered lies in the content (`oneRange_part`), so the length that `get_item_content`
computes from it is in range, and a reader that does not fail gives the body that long
(`streamOut_some`).
-/

namespace Passalong

open Lib

/-! ## What a header names -/

/-- The positions of a content that a set has are answered: as a range, or as beyond the
content if there are none. -/
def Ranged.Answers (ranged : Ranged) (size : Nat) (asked : Set Nat) : Prop :=
  match ranged with
  | .whole => False
  | .part first last => first ≤ last ∧ Set.Icc first last = Set.Iio size ∩ asked
  | .beyond => Set.Iio size ∩ asked = ∅

/-- White space. -/
def Blank (s : List Char) : Prop := ∀ c ∈ s, isWhitespace c

/-- A decimal numeral with white space around it, of a value that a `u64` holds. -/
def Numeral (s : List Char) (n : Nat) : Prop :=
  ∃ before digits after, s = before ++ digits ++ after ∧ Blank before ∧ Blank after ∧
    digits ≠ [] ∧ (∀ c ∈ digits, c.isDigit) ∧ Nat.ofDigitChars 10 digits 0 = n ∧ n < u64Bound

theorem not_whitespace_of_digit {c : Char} (h : c.isDigit = true) : isWhitespace c = false := by
  unfold Char.isDigit at h
  simp only [ge_iff_le, Bool.and_eq_true, decide_eq_true_eq] at h
  have hlow : 48 ≤ c.toNat := h.1
  have hhigh : c.toNat ≤ 57 := h.2
  unfold isWhitespace
  simp
  omega

theorem parseU64_digits {s : List Char} {n : Nat} (hne : s ≠ []) (hdigits : ∀ c ∈ s, c.isDigit)
    (hvalue : Nat.ofDigitChars 10 s 0 = n) (hn : n < u64Bound) : parseU64 s = some n := by
  have hplus : s.head? ≠ some '+' := by
    intro hhead
    have hplus := hdigits '+' (List.mem_of_mem_head? hhead)
    revert hplus
    decide
  rw [Nat.ofDigitChars_eq_foldl] at hvalue
  unfold parseU64
  rw [if_neg hplus]
  simp only [if_neg hne, if_pos (List.all_eq_true.mpr hdigits), hvalue, if_pos hn]

theorem Numeral.parse {s : List Char} {n : Nat} (h : Numeral s n) :
    parseU64 (trim s) = some n ∧ trim s ≠ [] := by
  obtain ⟨before, digits, after, rfl, hbefore, hafter, hne, hdigits, hvalue, hn⟩ := h
  have htrim : trim (before ++ digits ++ after) = digits := by
    rw [trim_around hbefore hafter]
    exact trim_eq (fun c hc => not_whitespace_of_digit (hdigits c (List.mem_of_mem_head? hc)))
      (fun c hc => not_whitespace_of_digit (hdigits c (List.mem_of_getLast? hc)))
  rw [htrim]
  exact ⟨parseU64_digits hne hdigits hvalue hn, hne⟩

/-- The end of `one_range`: a first and a last position, read against the size. -/
theorem answers_of {size first last : Nat} {asked : Set Nat}
    (hin : first < size → first ≤ last ∧ last < size)
    (hasked : ∀ i < size, i ∈ asked ↔ first ≤ i ∧ i ≤ last) :
    Ranged.Answers (if size = 0 ∨ size ≤ first then .beyond else .part first last) size asked := by
  split
  · next hbeyond =>
    refine Set.eq_empty_iff_forall_notMem.mpr fun i hi => ?_
    have hfirst := ((hasked i hi.1).mp hi.2).1
    have hlt : i < size := hi.1
    omega
  · next hwithin =>
    have hlast := hin (by omega)
    refine ⟨hlast.1, Set.ext fun i => ?_⟩
    constructor
    · rintro ⟨hfirst, hle⟩
      have hlt : i < size := Nat.lt_of_le_of_lt hle hlast.2
      exact ⟨hlt, (hasked i hlt).mpr ⟨hfirst, hle⟩⟩
    · rintro ⟨hlt, hmem⟩
      exact (hasked i hlt).mp hmem

theorem digit_ne {c : Char} (h : c.isDigit = true) : c ≠ ',' ∧ c ≠ '-' := by
  constructor
  · rintro rfl
    revert h
    decide
  · rintro rfl
    revert h
    decide

theorem blank_ne {c : Char} (h : isWhitespace c = true) : c ≠ ',' ∧ c ≠ '-' := by
  constructor
  · rintro rfl
    revert h
    decide
  · rintro rfl
    revert h
    decide

/-- A numeral after the white space before it. -/
theorem Numeral.front {s : List Char} {n : Nat} (h : Numeral s n) :
    ∃ blank rest, s = blank ++ rest ∧ Blank blank ∧ parseU64 (trim rest) = some n ∧
      rest ≠ [] ∧ (∀ c ∈ rest.head?, isWhitespace c = false) ∧ ∀ c ∈ rest, c ≠ ',' ∧ c ≠ '-' := by
  obtain ⟨before, digits, after, rfl, hbefore, hafter, hne, hdigits, hvalue, hn⟩ := h
  refine ⟨before, digits ++ after, List.append_assoc .., hbefore,
    (Numeral.parse ⟨[], digits, after, rfl, by simp [Blank], hafter, hne, hdigits, hvalue, hn⟩).1,
    by simp [hne], fun c hc => ?_, fun c hc => ?_⟩
  · obtain ⟨d, ds, rfl⟩ := List.exists_cons_of_ne_nil hne
    cases hc
    exact not_whitespace_of_digit (hdigits _ List.mem_cons_self)
  · rcases List.mem_append.mp hc with hc | hc
    · exact digit_ne (hdigits c hc)
    · exact blank_ne (hafter c hc)

/-- A numeral up to the white space after it. -/
theorem Numeral.back {s : List Char} {n : Nat} (h : Numeral s n) :
    ∃ rest blank, s = rest ++ blank ∧ Blank blank ∧ parseU64 (trim rest) = some n ∧
      rest ≠ [] ∧ (∀ c ∈ rest.getLast?, isWhitespace c = false) ∧ ∀ c ∈ rest, c ≠ ',' := by
  obtain ⟨before, digits, after, rfl, hbefore, hafter, hne, hdigits, hvalue, hn⟩ := h
  refine ⟨before ++ digits, after, rfl, hafter,
    (Numeral.parse
      ⟨before, digits, [], by simp, hbefore, by simp [Blank], hne, hdigits, hvalue, hn⟩).1,
    by simp [hne], fun c hc => ?_, fun c hc => ?_⟩
  · rw [List.getLast?_append_of_ne_nil _ hne] at hc
    exact not_whitespace_of_digit (hdigits c (List.mem_of_getLast? hc))
  · rcases List.mem_append.mp hc with hc | hc
    · exact (blank_ne (hbefore c hc)).1
    · exact (digit_ne (hdigits c hc)).1

/-- How a header is understood whose range is `first-last`, with white space around it. -/
theorem oneRange_spec {before front first last after : List Char} (size : Nat)
    (hbefore : Blank before) (hfront : Blank front) (hafter : Blank after)
    (hhead : ∀ c ∈ (first ++ '-' :: last).head?, isWhitespace c = false)
    (hend : ∀ c ∈ ('-' :: last).getLast?, isWhitespace c = false)
    (hfirst : ∀ c ∈ first, c ≠ ',' ∧ c ≠ '-') (hlast : ∀ c ∈ last, c ≠ ',') :
    oneRange (some (before ++ ("bytes=".toList ++ (front ++ (first ++ '-' :: last))) ++ after))
        size =
      match rangeOf first last size with
      | none => .whole
      | some range => if size = 0 ∨ size ≤ range.1 then .beyond else .part range.1 range.2 := by
  have hend' : ∀ s : List Char, ∀ c ∈ (s ++ (first ++ '-' :: last)).getLast?,
      isWhitespace c = false := by
    intro s c hc
    rw [← List.append_assoc, List.getLast?_append_of_ne_nil _ (by simp)] at hc
    exact hend c hc
  have htrim : trim ("bytes=".toList ++ (front ++ (first ++ '-' :: last))) =
      "bytes=".toList ++ (front ++ (first ++ '-' :: last)) := by
    refine trim_eq (fun c hc => ?_) (by simpa only [List.append_assoc] using hend' (_ ++ front))
    cases hc
    decide
  have hdrop : ("bytes=".toList ++ (front ++ (first ++ '-' :: last))).dropPrefix?
      "bytes=".toList = some (front ++ (first ++ '-' :: last)) :=
    List.dropPrefix?_eq_some_iff.mpr ⟨_, rfl, beq_self_eq_true _⟩
  have hcomma : ',' ∉ front ++ (first ++ '-' :: last) := by
    intro hmem
    rcases List.mem_append.mp hmem with hmem | hmem
    · exact (blank_ne (hfront _ hmem)).1 rfl
    rcases List.mem_append.mp hmem with hmem | hmem
    · exact (hfirst _ hmem).1 rfl
    rcases List.mem_cons.mp hmem with heq | hmem
    · exact absurd heq (by decide)
    · exact hlast _ hmem rfl
  have hinner : trim (front ++ (first ++ '-' :: last)) = first ++ '-' :: last := by
    have haround := @trim_around front (first ++ '-' :: last) [] hfront (by simp)
    rw [List.append_nil] at haround
    rw [haround, trim_eq hhead (by simpa using hend' [])]
  have hdash : '-' ∉ first := fun hmem => (hfirst _ hmem).2 rfl
  unfold oneRange
  cases hrange : rangeOf first last size with
  | none =>
    simp only [Option.bind_some, trim_around hbefore hafter, htrim, hdrop, if_neg hcomma, hinner,
      splitOnce_append hdash, hrange]
  | some range =>
    simp only [Option.bind_some, trim_around hbefore hafter, htrim, hdrop, if_neg hcomma, hinner,
      splitOnce_append hdash, hrange]

/-! ## The three ways to name a range -/

variable {before after x y : List Char} {a b n : Nat}

/-- `bytes=a-b`. -/
theorem oneRange_within (size : Nat) (hbefore : Blank before) (hx : Numeral x a)
    (hy : Numeral y b) (hab : a ≤ b) :
    (oneRange (some (before ++ ("bytes=".toList ++ (x ++ '-' :: y)))) size).Answers size
      (Set.Icc a b) := by
  obtain ⟨front, first, rfl, hfront, hfirst, hne, hhead, hplain⟩ := hx.front
  obtain ⟨last, back, rfl, hback, hlast, hne', hend, hplain'⟩ := hy.back
  have hspec := oneRange_spec size hbefore hfront hback
    (by rwa [List.head?_append_of_ne_nil _ hne])
    (by rwa [← List.singleton_append, List.getLast?_append_of_ne_nil _ hne']) hplain hplain'
  have hrange : rangeOf first last size = some (a, min b (size - 1)) := by
    unfold rangeOf
    rw [hfirst, hlast]
    exact if_pos hab
  rw [hrange] at hspec
  simp only [List.append_assoc, List.cons_append] at hspec ⊢
  rw [hspec]
  exact answers_of (by omega) fun i hi => by simp only [Set.mem_Icc]; omega

/-- `bytes=a-`. -/
theorem oneRange_from (size : Nat) (hbefore : Blank before) (hx : Numeral x a)
    (hafter : Blank after) :
    (oneRange (some (before ++ ("bytes=".toList ++ (x ++ '-' :: after)))) size).Answers size
      (Set.Ici a) := by
  obtain ⟨front, first, rfl, hfront, hfirst, hne, hhead, hplain⟩ := hx.front
  have hspec := @oneRange_spec before front first [] after size hbefore hfront hafter
    (by rwa [List.head?_append_of_ne_nil _ hne])
    (by simp; decide) hplain (by simp)
  have hrange : rangeOf first [] size = some (a, size - 1) := by
    unfold rangeOf
    rw [hfirst]
    rfl
  rw [hrange] at hspec
  simp only [List.append_assoc, List.cons_append, List.nil_append] at hspec ⊢
  rw [hspec]
  exact answers_of (by omega) fun i hi => by simp only [Set.mem_Ici]; omega

/-- `bytes=-n`: the last `n` positions. -/
theorem oneRange_suffix (size : Nat) (hbefore : Blank before) (hfront : Blank x)
    (hy : Numeral y n) (hn : 0 < n) :
    (oneRange (some (before ++ ("bytes=".toList ++ (x ++ '-' :: y)))) size).Answers size
      { i | size ≤ i + n } := by
  obtain ⟨last, back, rfl, hback, hlast, hne', hend, hplain'⟩ := hy.back
  have hspec := @oneRange_spec before x [] last back size hbefore hfront hback
    (fun c hc => by
      cases hc
      decide)
    (by rwa [← List.singleton_append, List.getLast?_append_of_ne_nil _ hne']) (by simp) hplain'
  have hrange : rangeOf [] last size = some (size - n, size - 1) := by
    unfold rangeOf
    rw [hlast]
    exact if_pos ⟨rfl, hn⟩
  rw [hrange] at hspec
  simp only [List.append_assoc, List.cons_append, List.nil_append] at hspec ⊢
  rw [hspec]
  exact answers_of (by omega) fun i hi => by simp only [Set.mem_ofPred_eq]; omega

/-! ## What is sent -/

/-- A reader that does not fail gives all that is asked of it: each read, a byte at
least. -/
theorem streamOut_some {content : Bytes} {left : Nat} {reads : List Took}
    (hleft : left ≤ content.length) (hfails : .failed ∉ reads)
    (hreads : left ≤ (reads.filter (· ≠ .interrupted)).length) :
    ∃ body, streamOut content left reads = some body := by
  induction reads generalizing content left with
  | nil =>
    have hzero : left = 0 := Nat.le_zero.mp hreads
    rw [hzero]
    exact ⟨[], rfl⟩
  | cons read reads ih =>
    have hfails' : .failed ∉ reads := fun h => hfails (List.mem_cons_of_mem _ h)
    cases left with
    | zero => exact ⟨[], rfl⟩
    | succ left =>
      cases read with
      | interrupted => exact ih hleft hfails' (by simpa using hreads)
      | failed => exact absurd List.mem_cons_self hfails
      | bytes more =>
        have hcount : left ≤ (reads.filter (· ≠ .interrupted)).length := by
          simpa using hreads
        simp only [streamOut]
        generalize hp : content.take (min (more + 1) (min (left + 1) pieceSize)) = piece
        have hlength : piece.length = min (min (more + 1) (min (left + 1) pieceSize))
            content.length := by rw [← hp, List.length_take]
        have hpos : 0 < piece.length := by
          rw [hlength, pieceSize]
          omega
        have hne : piece ≠ [] := List.ne_nil_of_length_pos hpos
        obtain ⟨rest, hrest⟩ := @ih (content.drop piece.length) (left + 1 - piece.length)
          (by rw [List.length_drop]; omega) hfails' (by omega)
        exact ⟨piece ++ rest, by rw [if_neg hne, hrest]; rfl⟩

/-- **An unchanging item is answered as asked.** -/
theorem getItemContent_eq {r₁ r₂ : Rules} {asked : Asked} {item : Item}
    (h₁ : r₁.itemAsked asked = some item) (h₂ : r₂.itemAsked asked = some item) :
    getItemContent r₁ r₂ asked =
      .ok (match oneRange asked.header item.content.length with
        | .beyond => .unsatisfiable item.content.length
        | .part first last =>
          .content (item.content.drop first) item.content.length (some (first, last))
            (last - first + 1)
        | .whole => .content item.content item.content.length none item.content.length) := by
  have hlook := r₁.look_eq asked
  rw [h₁, Option.map_some] at hlook
  have hopen : ∀ first, r₂.openFrom asked first = .ok (item.content.drop first) := by
    intro first
    have heq := r₂.openFrom_eq asked first
    rw [h₂, Option.map_some] at heq
    cases hr : r₂.openFrom asked first with
    | error e =>
      rw [hr] at heq
      cases heq
    | ok content =>
      rw [hr] at heq
      exact congrArg Except.ok (Option.some.inj heq)
  have hseen : r₁.look asked = .ok item.stored := by
    cases hr : r₁.look asked with
    | error e =>
      rw [hr] at hlook
      cases hlook
    | ok seen =>
      rw [hr] at hlook
      exact congrArg Except.ok (Option.some.inj hlook)
  have hsize : item.stored.size = item.content.length := rfl
  unfold getItemContent
  rw [hseen]
  simp only [hsize, hopen]
  cases hrange : oneRange asked.header item.content.length with
  | beyond => rfl
  | part first last =>
    have hin := oneRange_part hrange
    simp only
    rw [if_neg (by omega)]
  | whole =>
    simp only [List.drop_zero]
    congr 2
    split <;> omega

/-- A length that is announced is one that a `u64` holds, and the body's. -/
theorem served_eq {r₁ r₂ : Rules} {asked : Asked} {item : Item} {reads : List Took}
    (h₁ : r₁.itemAsked asked = some item) (h₂ : r₂.itemAsked asked = some item)
    (hsize : item.content.length < u64Bound)
    (hrange : oneRange asked.header item.content.length ≠ .beyond) :
    ∃ opened s, getItemContent r₁ r₂ asked = .ok opened ∧ served reads opened = some s ∧
      s.contentLength < u64Bound ∧
      (∀ body, s.body = some body →
        s.IsOf asked.header item.content body ∧ body.length = s.contentLength) ∧
      (.failed ∉ reads → s.contentLength ≤ (reads.filter (· ≠ .interrupted)).length →
        s.body.isSome) := by
  have hopened := getItemContent_eq h₁ h₂
  have hsame : SameSize r₁ r₂ asked := by
    refine .of_eq fun item₁ item₂ hitem₁ hitem₂ => ?_
    rw [h₁] at hitem₁
    rw [h₂] at hitem₂
    cases hitem₁
    cases hitem₂
    rfl
  -- the two looks find the same item, so what is sent is the range of it
  have hisOf : ∀ {opened s body}, getItemContent r₁ r₂ asked = .ok opened →
      served reads opened = some s → s.body = some body →
      s.IsOf asked.header item.content body := by
    intro opened s body hget hserved hbody
    obtain ⟨item', hitem', hof⟩ := served_isOf hsame hget hserved hbody
    rw [h₂] at hitem'
    cases hitem'
    exact hof
  -- a body is as long as was announced, and is sent where the reads last
  have hlength : ∀ {reader : Bytes} {size length : Nat} {range : Option (Nat × Nat)},
      length ≤ reader.length →
      ∃ s, served reads (.content reader size range length) = some s ∧
        s.contentLength = length ∧ (∀ body, s.body = some body → body.length = length) ∧
        (.failed ∉ reads → length ≤ (reads.filter (· ≠ .interrupted)).length →
          s.body.isSome) := by
    intro reader size length range hle
    refine ⟨_, rfl, rfl, fun body hbody => ?_, fun hfails hreads => ?_⟩
    · simp only at hbody
      split at hbody
      · next hzero =>
        cases hbody
        exact hzero.symm
      · exact (streamOut_eq hbody).2
    · simp only
      split
      · rfl
      · obtain ⟨body, hbody⟩ := streamOut_some hle hfails hreads
        rw [hbody]
        rfl
  cases hr : oneRange asked.header item.content.length with
  | beyond => exact absurd hr hrange
  | part first last =>
    have hin := oneRange_part hr
    rw [hr] at hopened
    obtain ⟨s, hserved, hannounced, hbody, hall⟩ := @hlength (item.content.drop first)
      item.content.length (last - first + 1) (some (first, last))
      (by rw [List.length_drop]; omega)
    refine ⟨_, s, hopened, hserved, by omega, fun body hb => ⟨hisOf hopened hserved hb, ?_⟩, ?_⟩
    · rw [hannounced]
      exact hbody body hb
    · rw [hannounced]
      exact hall
  | whole =>
    rw [hr] at hopened
    obtain ⟨s, hserved, hannounced, hbody, hall⟩ := @hlength item.content
      item.content.length item.content.length none le_rfl
    refine ⟨_, s, hopened, hserved, by omega, fun body hb => ⟨hisOf hopened hserved hb, ?_⟩, ?_⟩
    · rw [hannounced]
      exact hbody body hb
    · rw [hannounced]
      exact hall

/-- **Range requests**: each way to name a range is answered with the positions of the
content that it names; whatever is answered lies in the content, so that its length is one
that a `u64` holds; and of an unchanging item the body is that range, as long as it was
announced to be. -/
theorem rangeRequests :
    (∀ (size : Nat) (before x y : List Char) (a b : Nat), Blank before → Numeral x a →
      Numeral y b → a ≤ b →
      (oneRange (some (before ++ ("bytes=".toList ++ (x ++ '-' :: y)))) size).Answers size
        (Set.Icc a b)) ∧
    (∀ (size : Nat) (before x after : List Char) (a : Nat), Blank before → Numeral x a →
      Blank after →
      (oneRange (some (before ++ ("bytes=".toList ++ (x ++ '-' :: after)))) size).Answers size
        (Set.Ici a)) ∧
    (∀ (size : Nat) (before x y : List Char) (n : Nat), Blank before → Blank x → Numeral y n →
      0 < n →
      (oneRange (some (before ++ ("bytes=".toList ++ (x ++ '-' :: y)))) size).Answers size
        { i | size ≤ i + n }) ∧
    (∀ (header : Option (List Char)) (size first last : Nat),
      oneRange header size = .part first last →
      first ≤ last ∧ last < size ∧ last - first + 1 ≤ size) ∧
    ∀ (r₁ r₂ : Rules) (asked : Asked) (item : Item) (reads : List Took),
      r₁.itemAsked asked = some item → r₂.itemAsked asked = some item →
      item.content.length < u64Bound →
      match oneRange asked.header item.content.length with
      | .beyond => getItemContent r₁ r₂ asked = .ok (.unsatisfiable item.content.length)
      | _ => ∃ opened s, getItemContent r₁ r₂ asked = .ok opened ∧
          served reads opened = some s ∧ s.contentLength < u64Bound ∧
          (∀ body, s.body = some body →
            s.IsOf asked.header item.content body ∧ body.length = s.contentLength) ∧
          (.failed ∉ reads → s.contentLength ≤ (reads.filter (· ≠ .interrupted)).length →
            s.body.isSome) := by
  refine ⟨fun size _ _ _ _ _ hbefore hx hy hab => oneRange_within size hbefore hx hy hab,
    fun size _ _ _ _ hbefore hx hafter => oneRange_from size hbefore hx hafter,
    fun size _ _ _ _ hbefore hx hy hn => oneRange_suffix size hbefore hx hy hn, ?_, ?_⟩
  · intro header size first last h
    have hin := oneRange_part h
    omega
  · intro r₁ r₂ asked item reads h₁ h₂ hsize
    have hopened := getItemContent_eq h₁ h₂
    have hserved := @served_eq _ _ _ _ reads h₁ h₂ hsize
    cases hrange : oneRange asked.header item.content.length with
    | beyond =>
      rw [hrange] at hopened
      exact hopened
    | part first last => exact hserved (by rw [hrange]; exact Ranged.noConfusion)
    | whole => exact hserved (by rw [hrange]; exact Ranged.noConfusion)

/-- Positions 8 to 99 of ten, and a note that is read as it was stored. -/
theorem rangeRequests_sample :
    (oneRange (some (" ".toList ++ ("bytes=".toList ++ ("8 ".toList ++ '-' :: "99".toList))))
      10).Answers 10 (Set.Icc 8 99) ∧
    let r := @World.firstLook Sample.crates Sample.limits (Sample.call 0 [])
      (Sample.switching [3, 4])
    ∃ opened s, getItemContent r r Sample.asked = .ok opened ∧
      served [.bytes 0, .interrupted, .bytes 0] opened = some s ∧
      ∀ body, s.body = some body → body.length = s.contentLength := by
  refine ⟨rangeRequests.1 10 _ _ _ 8 99 (by simp [Blank]; decide)
    ⟨[], ['8'], [' '], rfl, by simp [Blank], by simp [Blank]; decide, by simp, by simp,
      by decide, by decide +kernel⟩
    ⟨[], ['9', '9'], [], rfl, by simp [Blank], by simp [Blank], by simp, by simp,
      by decide, by decide +kernel⟩ (by decide), ?_⟩
  intro r
  obtain ⟨opened, s, hopened, hserved, -, hbody, -⟩ := rangeRequests.2.2.2.2 r r
    Sample.asked ⟨[1, 2], ⟨[], some Sample.keyA, 0⟩⟩ [.bytes 0, .interrupted, .bytes 0]
    (by decide +kernel) (by decide +kernel) (by decide)
  exact ⟨opened, s, hopened, hserved, fun body hb => (hbody body hb).2⟩

end Passalong
