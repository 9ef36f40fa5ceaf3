import Passalong.Lib.Except
import Passalong.Lib.Utf8
import Passalong.Shelf
import Passalong.Texts

/-!
# Answers, as the client reads them (`client.rs`)

`parse` and `unchunk` cut the bytes of an answer where the answer says. Every cut and every
addition that could be a panic is written as one that can fail, so that what is never out of
range is proved, not assumed.

One turn of `unchunk` is `chunk`, and `chunk_cases` says all that it can do. No cut is out of
range; one addition can overflow, two bytes behind a chunk whose size no memory holds, so
that the answers that are a panic are those that go on to such a size (`unchunk_panics_iff`,
`parse_panics_iff`). Whatever was written in chunks is read back, as long as the lines
between them are text (`unchunk_encoding`).
-/

namespace Passalong

namespace Client

open Lib Lib.Utf8

/-! ## What can go wrong -/

/-- What is given instead of an answer. -/
inductive Failed where
  /-- An error, of the kind `InvalidData`. -/
  | invalid (what : String)
  /-- A panic: an addition that `usize` does not hold. Without overflow checks it wraps, to 0
  or 1, and the slice after it is the panic: but where nothing stands behind the line of a size
  that wraps to 1, the answer is then "a chunk cut short". -/
  | overflow
  /-- A panic: a slice that goes beyond its end. -/
  | outOfRange
  deriving DecidableEq, Repr

def Failed.panics : Failed → Bool
  | .invalid _ => false
  | .overflow | .outOfRange => true

/-- `a + b` -/
def add (a b : Nat) : Except Failed Nat :=
  if a + b < u64Bound then .ok (a + b) else .error .overflow

/-- `&bytes[..n]` -/
def takeTo (bytes : Bytes) (n : Nat) : Except Failed Bytes :=
  if n ≤ bytes.length then .ok (bytes.take n) else .error .outOfRange

/-- `&bytes[n..]` -/
def dropFrom (bytes : Bytes) (n : Nat) : Except Failed Bytes :=
  if n ≤ bytes.length then .ok (bytes.drop n) else .error .outOfRange

def orInvalid {α : Type} (what : String) : Option α → Except Failed α
  | some a => .ok a
  | none => .error (.invalid what)

/-- `windows(n).position(..)`, for a pattern of `n` bytes. -/
def position (pattern : Bytes) : Bytes → Option Nat
  | [] => if pattern.isPrefixOf [] then some 0 else none
  | b :: bytes =>
    if pattern.isPrefixOf (b :: bytes) then some 0 else (position pattern bytes).map (· + 1)

def crlf : Bytes := [13, 10]

/-! ## `unchunk` -/

/-- A digit of `from_str_radix(.., 16)`. -/
def radixDigit (c : Char) : Option (Fin 16) := hexValue c.toLower

/-- `usize::from_str_radix(.., 16)` -/
def fromHex (text : List Char) : Option Nat :=
  let digits := if text.head? = some '+' then text.tail else text
  if digits = [] then none
  else ((digits.mapM radixDigit).map ofHexDigits).filter (· < u64Bound)

/-- The size that a line says. -/
def chunkSize (line : Bytes) : Except Failed Nat := do
  let sizeText ← orInvalid "a chunk size that is not text" (decode line)
  orInvalid "a chunk size that is not hex" (fromHex (trim (sizeText.takeWhile (· ≠ ';'))))

/-- One turn of the loop: a chunk and what is behind it, or nothing after the last. -/
def chunk (rest : Bytes) : Except Failed (Option (Bytes × Bytes)) := do
  let lineEnd ← orInvalid "a chunk without a size" (position crlf rest)
  let size ← chunkSize (← takeTo rest lineEnd)
  let rest ← dropFrom rest (← add lineEnd 2)
  if size = 0 then return none
  let next ← add size 2
  if rest.length < next then throw (.invalid "a chunk cut short")
  return some (← takeTo rest size, ← dropFrom rest next)

theorem of_dropFrom {bytes after : Bytes} {n : Nat} (h : dropFrom bytes n = .ok after) :
    after.length + n = bytes.length := by
  unfold dropFrom at h
  split_ifs at h with hn
  cases h
  rw [List.length_drop]
  omega

/-- A turn leaves less. -/
theorem length_lt_of_chunk {rest data after : Bytes} (h : chunk rest = .ok (some (data, after))) :
    after.length < rest.length := by
  unfold chunk at h
  obtain ⟨lineEnd, -, h⟩ := bind_eq_ok h
  obtain ⟨line, -, h⟩ := bind_eq_ok h
  obtain ⟨size, -, h⟩ := bind_eq_ok h
  obtain ⟨start, hstart, h⟩ := bind_eq_ok h
  obtain ⟨behind, hbehind, h⟩ := bind_eq_ok h
  split_ifs at h
  · cases h
  obtain ⟨next, -, h⟩ := bind_eq_ok h
  split_ifs at h
  · cases h
  obtain ⟨data', -, h⟩ := bind_eq_ok h
  obtain ⟨after', hafter, h⟩ := bind_eq_ok h
  cases h
  have hfirst := of_dropFrom hbehind
  have hsecond := of_dropFrom hafter
  unfold add at hstart
  split_ifs at hstart
  cases hstart
  omega

/-- `unchunk`, with what it has of the body. -/
def unchunkFrom (body rest : Bytes) : Except Failed Bytes :=
  match _h : chunk rest with
  | .error failed => .error failed
  | .ok none => .ok body
  | .ok (some (data, after)) => unchunkFrom (body ++ data) after
termination_by rest.length
decreasing_by exact length_lt_of_chunk _h

def unchunk (rest : Bytes) : Except Failed Bytes := unchunkFrom [] rest

/-! ## `parse` -/

/-- An answer, whole. -/
structure Response where
  status : Nat
  /-- The headers, names in lower case. -/
  headers : List (List Char × List Char)
  body : Bytes
  deriving DecidableEq, Repr

/-- `str::split("\r\n")` -/
def splitLines : List Char → List (List Char)
  | [] => [[]]
  | c :: text =>
    match c, text with
    | '\r', '\n' :: rest => [] :: splitLines rest
    | c, text =>
      match splitLines text with
      | [] => [[c]]
      | line :: lines => (c :: line) :: lines

/-- The status of a status line. -/
def statusOf (line : List Char) : Option Nat :=
  ((line.splitOn ' ')[1]?.bind parseU64).filter (· < 2 ^ 16)

def headerOf (line : List Char) : Option (List Char × List Char) :=
  (splitOnce ':' line).map fun (name, value) => ((trim name).map Char.toLower, trim value)

def isChunked (headers : List (List Char × List Char)) : Bool :=
  headers.any fun (name, value) =>
    name = "transfer-encoding".toList && value.map Char.toLower = "chunked".toList

/-- What stands before the body: the status, the headers and where the body begins. -/
def parseHead (raw : Bytes) : Except Failed (Nat × List (List Char × List Char) × Bytes) := do
  let split ← orInvalid "no end of headers" (position (crlf ++ crlf) raw)
  let head ← orInvalid "headers that are not text" (decode (← takeTo raw split))
  let lines := splitLines head
  let status ← orInvalid "no status line" (lines.head?.bind statusOf)
  let headers := lines.tail.filterMap headerOf
  let rest ← dropFrom raw (← add split 4)
  return (status, headers, rest)

def parse (raw : Bytes) : Except Failed Response := do
  let (status, headers, rest) ← parseHead raw
  let body ← if isChunked headers then unchunk rest else pure rest
  return ⟨status, headers, body⟩

/-! ## Where a pattern stands -/

/-- A pattern stands where it is found, and nowhere before. -/
theorem of_position {pattern bytes : Bytes} {i : Nat} (hne : pattern ≠ [])
    (h : position pattern bytes = some i) :
    ∃ front back, bytes = front ++ (pattern ++ back) ∧ front.length = i ∧ ¬pattern <:+: front := by
  have hnil : ¬pattern <:+: [] := fun h => hne (List.infix_nil.mp h)
  induction bytes generalizing i with
  | nil =>
    unfold position at h
    split_ifs at h with hprefix
    exact absurd (List.prefix_nil.mp (List.isPrefixOf_iff_prefix.mp hprefix)) hne
  | cons b bytes ih =>
    unfold position at h
    split_ifs at h with hprefix
    · cases h
      obtain ⟨back, hback⟩ := List.isPrefixOf_iff_prefix.mp hprefix
      exact ⟨[], back, hback.symm, rfl, hnil⟩
    · obtain ⟨j, hj, rfl⟩ := Option.map_eq_some_iff.mp h
      obtain ⟨front, back, rfl, hlength, hfront⟩ := ih hj
      refine ⟨b :: front, back, rfl, by rw [List.length_cons, hlength], fun hinfix => ?_⟩
      rcases List.infix_cons_iff.mp hinfix with hstart | hinfix
      · refine hprefix (List.isPrefixOf_iff_prefix.mpr (hstart.trans ?_))
        exact (List.prefix_append (b :: front) (pattern ++ back))
      · exact hfront hinfix

/-- A line ends at its first line ending. -/
theorem position_crlf {line : Bytes} (tail : Bytes) (h : ¬crlf <:+: line) :
    position crlf (line ++ (crlf ++ tail)) = some line.length := by
  induction line with
  | nil => rfl
  | cons b line ih =>
    have hline : ¬crlf <:+: line := fun hinfix => h (List.infix_cons_iff.mpr (.inr hinfix))
    have hstart : ¬crlf.isPrefixOf (b :: (line ++ (crlf ++ tail))) = true := by
      intro hprefix
      have hmem := List.isPrefixOf_iff_prefix.mp hprefix
      cases line with
      | nil =>
        obtain ⟨rest, hrest⟩ := hmem
        cases hrest
      | cons d line =>
        obtain ⟨rest, hrest⟩ := hmem
        cases hrest
        exact h ⟨[], line, rfl⟩
    rw [List.cons_append, position, if_neg hstart, ih hline, Option.map_some, List.length_cons]

/-! ## One turn -/

theorem chunkSize_panics {line : Bytes} {failed : Failed} (h : chunkSize line = .error failed) :
    ∃ what, failed = .invalid what := by
  have horInvalid : ∀ {α : Type} {what : String} {o : Option α},
      orInvalid what o = .error failed → ∃ what, failed = .invalid what := by
    intro α what o ho
    cases o with
    | some a => cases ho
    | none =>
      cases ho
      exact ⟨what, rfl⟩
  rcases bind_eq_error h with h | ⟨sizeText, -, h⟩
  · exact horInvalid h
  · exact horInvalid h

/-- What a turn makes of a line and what is behind it. -/
def chunkAt (line tail : Bytes) : Except Failed (Option (Bytes × Bytes)) :=
  chunkSize line >>= fun size =>
    if size = 0 then .ok none
    else if u64Bound ≤ size + 2 then .error .overflow
    else if tail.length < size + 2 then .error (.invalid "a chunk cut short")
    else .ok (some (tail.take size, tail.drop (size + 2)))

/-- No cut of a turn is out of range, and the line's end is no overflow. -/
theorem chunk_eq {line tail : Bytes} (hline : ¬crlf <:+: line)
    (hlength : (line ++ (crlf ++ tail)).length < 2 ^ 63) :
    chunk (line ++ (crlf ++ tail)) = chunkAt line tail := by
  have hle : line.length ≤ (line ++ (crlf ++ tail)).length := by simp
  have htake : takeTo (line ++ (crlf ++ tail)) line.length = .ok line := by
    unfold takeTo
    rw [if_pos hle, List.take_left]
  have hlong : line.length + 2 ≤ (line ++ (crlf ++ tail)).length := by
    simp [crlf]
  have hadd : add line.length 2 = .ok (line.length + 2) := by
    refine if_pos ?_
    unfold u64Bound
    omega
  have hdrop : dropFrom (line ++ (crlf ++ tail)) (line.length + 2) = .ok tail := by
    have hboth : (line ++ crlf).length = line.length + 2 := List.length_append
    unfold dropFrom
    rw [if_pos hlong, ← List.append_assoc, List.drop_left' hboth]
  -- one step of the source at a time, on both sides
  unfold chunk chunkAt
  rw [position_crlf tail hline]
  show (takeTo _ line.length >>= fun line' => chunkSize line' >>= _) = _
  rw [htake]
  show (chunkSize line >>= _) = _
  cases chunkSize line with
  | error failed => rfl
  | ok size =>
    show (add line.length 2 >>= _) = (if size = 0 then _ else _)
    rw [hadd]
    show (dropFrom _ (line.length + 2) >>= _) = _
    rw [hdrop]
    show (if size = 0 then _ else _) = _
    by_cases hzero : size = 0
    · rw [if_pos hzero, if_pos hzero]
      rfl
    rw [if_neg hzero, if_neg hzero]
    show (add size 2 >>= _) = _
    by_cases hover : u64Bound ≤ size + 2
    · have hover' : add size 2 = .error .overflow := if_neg (Nat.not_lt.mpr hover)
      rw [if_pos hover, hover']
      rfl
    have hnext : add size 2 = .ok (size + 2) := if_pos (Nat.lt_of_not_le hover)
    rw [if_neg hover, hnext]
    show (if tail.length < size + 2 then _ else _) = _
    by_cases hshort : tail.length < size + 2
    · rw [if_pos hshort, if_pos hshort]
      rfl
    have hdata : takeTo tail size = .ok (tail.take size) := if_pos (by omega)
    have hafter : dropFrom tail (size + 2) = .ok (tail.drop (size + 2)) := if_pos (by omega)
    rw [if_neg hshort, if_neg hshort]
    show (takeTo tail size >>= _) = _
    rw [hdata]
    show (dropFrom tail (size + 2) >>= _) = _
    rw [hafter]
    rfl

/-- A chunk as far as `unchunk` looks: a line that says how long the data is, the data, and
two bytes that nothing is asked of. -/
structure Frame where
  line : Bytes
  data : Bytes
  after : Bytes
  noCrlf : ¬crlf <:+: line
  size : chunkSize line = .ok data.length
  nonempty : data ≠ []
  two : after.length = 2

def Frame.wire (f : Frame) : Bytes := f.line ++ (crlf ++ (f.data ++ f.after))

/-- All that a turn can do. -/
inductive Turn (rest : Bytes) : Except Failed (Option (Bytes × Bytes)) → Prop
  | invalid (what : String) : Turn rest (.error (.invalid what))
  | last {line tail : Bytes} (hrest : rest = line ++ (crlf ++ tail)) (hline : ¬crlf <:+: line)
    (hsize : chunkSize line = .ok 0) : Turn rest (.ok none)
  | next (f : Frame) {tail : Bytes} (hrest : rest = f.wire ++ tail) :
    Turn rest (.ok (some (f.data, tail)))
  | overflow {line tail : Bytes} {size : Nat} (hrest : rest = line ++ (crlf ++ tail))
    (hline : ¬crlf <:+: line) (hsize : chunkSize line = .ok size) (hover : u64Bound ≤ size + 2) :
    Turn rest (.error .overflow)

theorem chunk_cases {rest : Bytes} (hlength : rest.length < 2 ^ 63) : Turn rest (chunk rest) := by
  cases hposition : position crlf rest with
  | none =>
    have hnone : chunk rest = .error (.invalid "a chunk without a size") := by
      unfold chunk
      rw [hposition]
      rfl
    rw [hnone]
    exact .invalid _
  | some lineEnd =>
    obtain ⟨line, tail, rfl, -, hline⟩ :=
      @of_position crlf rest lineEnd (List.cons_ne_nil _ _) hposition
    rw [chunk_eq hline hlength]
    unfold chunkAt
    cases hsize : chunkSize line with
    | error failed =>
      obtain ⟨what, rfl⟩ := chunkSize_panics hsize
      exact .invalid what
    | ok size =>
      show Turn _ (if size = 0 then _ else _)
      split_ifs with hzero hover hshort
      · exact .last rfl hline (hzero ▸ hsize)
      · exact .overflow rfl hline hsize hover
      · exact .invalid _
      · have htake : (tail.take size).length = size := by
          rw [List.length_take]
          omega
        have hsplit : tail =
            tail.take size ++ ((tail.drop size).take 2 ++ tail.drop (size + 2)) := by
          rw [← List.drop_drop, List.take_append_drop, List.take_append_drop]
        refine .next ⟨line, tail.take size, (tail.drop size).take 2, hline, by rw [htake, hsize],
          ?_, ?_⟩ ?_
        · intro hnil
          rw [hnil] at htake
          exact hzero htake.symm
        · rw [List.length_take, List.length_drop]
          omega
        · conv_lhs => rw [hsplit]
          simp only [Frame.wire, List.append_assoc]

theorem chunk_next (f : Frame) {tail : Bytes} (hlength : (f.wire ++ tail).length < 2 ^ 63) :
    chunk (f.wire ++ tail) = .ok (some (f.data, tail)) := by
  have hshape : f.wire ++ tail = f.line ++ (crlf ++ (f.data ++ (f.after ++ tail))) := by
    simp only [Frame.wire, List.append_assoc]
  have hpos := List.length_pos_iff.mpr f.nonempty
  have hdata : f.data.length < 2 ^ 63 := by
    rw [hshape] at hlength
    simp only [List.length_append] at hlength
    omega
  have htail : ¬(f.data ++ (f.after ++ tail)).length < f.data.length + 2 := by
    simp only [List.length_append, f.two]
    omega
  have hover : ¬u64Bound ≤ f.data.length + 2 := by
    unfold u64Bound
    omega
  have hboth : (f.data ++ f.after).length = f.data.length + 2 := by
    rw [List.length_append, f.two]
  rw [hshape, chunk_eq f.noCrlf (hshape ▸ hlength)]
  unfold chunkAt
  rw [f.size]
  show (if f.data.length = 0 then _ else _) = _
  rw [if_neg (by omega), if_neg hover, if_neg htail, List.take_left, ← List.append_assoc,
    List.drop_left' hboth]

theorem chunk_overflow {line tail : Bytes} {size : Nat} (hline : ¬crlf <:+: line)
    (hlength : (line ++ (crlf ++ tail)).length < 2 ^ 63) (hsize : chunkSize line = .ok size)
    (hover : u64Bound ≤ size + 2) : chunk (line ++ (crlf ++ tail)) = .error .overflow := by
  have hzero : ¬size = 0 := by
    unfold u64Bound at hover
    omega
  rw [chunk_eq hline hlength]
  unfold chunkAt
  rw [hsize]
  show (if size = 0 then _ else _) = _
  rw [if_neg hzero, if_pos hover]

/-! ## All the turns -/

/-- The call does not return. -/
def Panics {α : Type} (r : Except Failed α) : Prop := ∃ failed, r = .error failed ∧ failed.panics

section Turns

variable {body rest : Bytes}

theorem unchunkFrom_error {failed : Failed} (h : chunk rest = .error failed) :
    unchunkFrom body rest = .error failed := by
  unfold unchunkFrom
  split
  · next h' =>
    rw [h] at h'
    cases h'
    rfl
  · next h' =>
    rw [h] at h'
    cases h'
  · next h' =>
    rw [h] at h'
    cases h'

theorem unchunkFrom_none (h : chunk rest = .ok none) : unchunkFrom body rest = .ok body := by
  unfold unchunkFrom
  split
  · next h' =>
    rw [h] at h'
    cases h'
  · rfl
  · next h' =>
    rw [h] at h'
    cases h'

theorem unchunkFrom_some {data after : Bytes} (h : chunk rest = .ok (some (data, after))) :
    unchunkFrom body rest = unchunkFrom (body ++ data) after := by
  rw [unchunkFrom.eq_def]
  split
  · next h' =>
    rw [h] at h'
    cases h'
  · next h' =>
    rw [h] at h'
    cases h'
  · next h' =>
    rw [h] at h'
    cases h'
    rfl

end Turns

/-- The chunks go on to one whose size no memory holds. -/
def Oversized (rest : Bytes) : Prop :=
  ∃ (frames : List Frame) (line tail : Bytes) (size : Nat),
    rest = frames.flatMap Frame.wire ++ (line ++ (crlf ++ tail)) ∧ ¬crlf <:+: line ∧
      chunkSize line = .ok size ∧ u64Bound ≤ size + 2

theorem oversized_of_panics {body rest : Bytes} (hlength : rest.length < 2 ^ 63)
    (h : Panics (unchunkFrom body rest)) : Oversized rest := by
  induction body, rest using unchunkFrom.induct with
  | case1 body rest failed hchunk =>
    rw [unchunkFrom_error hchunk] at h
    obtain ⟨_, heq, hpanics⟩ := h
    cases heq
    have hturn := chunk_cases hlength
    rw [hchunk] at hturn
    cases hturn with
    | invalid what => cases hpanics
    | overflow hrest hline hsize hover => exact ⟨[], _, _, _, hrest, hline, hsize, hover⟩
  | case2 body rest hchunk =>
    rw [unchunkFrom_none hchunk] at h
    obtain ⟨_, heq, -⟩ := h
    cases heq
  | case3 body rest data after hchunk ih =>
    rw [unchunkFrom_some hchunk] at h
    have hless := length_lt_of_chunk hchunk
    obtain ⟨frames, line, tail, size, hafter, hline, hsize, hover⟩ := ih (by omega) h
    have hturn := chunk_cases hlength
    rw [hchunk] at hturn
    cases hturn with
    | next f hrest =>
      refine ⟨f :: frames, line, tail, size, ?_, hline, hsize, hover⟩
      rw [hrest, hafter, List.flatMap_cons, List.append_assoc]

theorem panics_of_oversized {body rest : Bytes} (hlength : rest.length < 2 ^ 63)
    (h : Oversized rest) : Panics (unchunkFrom body rest) := by
  obtain ⟨frames, line, tail, size, rfl, hline, hsize, hover⟩ := h
  induction frames generalizing body with
  | nil =>
    have hchunk := chunk_overflow hline hlength hsize hover
    exact ⟨.overflow, unchunkFrom_error hchunk, rfl⟩
  | cons f frames ih =>
    rw [List.flatMap_cons, List.append_assoc] at hlength ⊢
    rw [unchunkFrom_some (chunk_next f hlength)]
    refine ih ?_
    rw [List.length_append] at hlength
    omega

/-- A slice of memory is no longer than `isize::MAX`. -/
structure Slice where
  bytes : Bytes
  fits : bytes.length < 2 ^ 63

theorem unchunk_panics_iff (rest : Slice) : Panics (unchunk rest.bytes) ↔ Oversized rest.bytes :=
  ⟨oversized_of_panics rest.fits, panics_of_oversized rest.fits⟩

/-- No cut of the head is out of range. -/
theorem parseHead_eq {front back : Bytes}
    (hlength : (front ++ (crlf ++ crlf ++ back)).length < 2 ^ 63)
    (hposition : position (crlf ++ crlf) (front ++ (crlf ++ crlf ++ back)) = some front.length) :
    parseHead (front ++ (crlf ++ crlf ++ back)) =
      match decode front with
      | none => .error (.invalid "headers that are not text")
      | some head =>
        match (splitLines head).head?.bind statusOf with
        | none => .error (.invalid "no status line")
        | some status => .ok (status, (splitLines head).tail.filterMap headerOf, back) := by
  have hboth : (front ++ (crlf ++ crlf)).length = front.length + 4 := List.length_append
  have hlong : front.length + 4 ≤ (front ++ (crlf ++ crlf ++ back)).length := by
    rw [← List.append_assoc, List.length_append, hboth]
    omega
  have htake : takeTo (front ++ (crlf ++ crlf ++ back)) front.length = .ok front := by
    unfold takeTo
    rw [if_pos (by omega), List.take_left]
  have hadd : add front.length 4 = .ok (front.length + 4) := by
    refine if_pos ?_
    unfold u64Bound
    omega
  have hdrop : dropFrom (front ++ (crlf ++ crlf ++ back)) (front.length + 4) = .ok back := by
    unfold dropFrom
    rw [if_pos hlong, ← List.append_assoc, List.drop_left' hboth]
  unfold parseHead
  rw [hposition]
  show (takeTo _ front.length >>= fun bytes => orInvalid _ (decode bytes) >>= _) = _
  rw [htake]
  show (orInvalid _ (decode front) >>= fun head => orInvalid _
    ((splitLines head).head?.bind statusOf) >>= _) = _
  cases decode front with
  | none => rfl
  | some head =>
    show (orInvalid _ ((splitLines head).head?.bind statusOf) >>= fun status =>
      add front.length 4 >>= fun start => dropFrom _ start >>= _) = _
    rw [hadd]
    show (orInvalid _ ((splitLines head).head?.bind statusOf) >>= fun status =>
      dropFrom _ (front.length + 4) >>= _) = _
    rw [hdrop]
    dsimp only
    cases (splitLines head).head?.bind statusOf with
    | none => rfl
    | some status => rfl

/-- What stands before the body is found, or there is an error. -/
theorem parseHead_cases {raw : Bytes} (hlength : raw.length < 2 ^ 63) :
    (∃ what, parseHead raw = .error (.invalid what)) ∨
      ∃ status headers rest, parseHead raw = .ok (status, headers, rest) ∧
        rest.length < 2 ^ 63 := by
  cases hposition : position (crlf ++ crlf) raw with
  | none =>
    refine .inl ⟨"no end of headers", ?_⟩
    unfold parseHead
    rw [hposition]
    rfl
  | some split =>
    obtain ⟨front, back, rfl, rfl, -⟩ :=
      @of_position (crlf ++ crlf) raw split (List.cons_ne_nil _ _) hposition
    rw [parseHead_eq hlength hposition]
    cases decode front with
    | none => exact .inl ⟨_, rfl⟩
    | some head =>
      dsimp only
      cases (splitLines head).head?.bind statusOf with
      | none => exact .inl ⟨_, rfl⟩
      | some status =>
        refine .inr ⟨_, _, back, rfl, ?_⟩
        simp only [List.length_append] at hlength
        omega

theorem panics_bind_ok {α β : Type} (r : Except Failed α) (f : α → β) :
    Panics (r >>= fun a => .ok (f a)) ↔ Panics r := by
  cases r with
  | error failed =>
    constructor
    · rintro ⟨_, heq, hpanics⟩
      cases heq
      exact ⟨failed, rfl, hpanics⟩
    · rintro ⟨_, heq, hpanics⟩
      cases heq
      exact ⟨failed, rfl, hpanics⟩
  | ok a =>
    constructor
    · rintro ⟨_, heq, -⟩
      cases heq
    · rintro ⟨_, heq, -⟩
      cases heq

theorem parse_panics_iff (raw : Slice) :
    Panics (parse raw.bytes) ↔ ∃ status headers rest,
      parseHead raw.bytes = .ok (status, headers, rest) ∧ isChunked headers ∧
        Oversized rest := by
  unfold parse
  rcases parseHead_cases raw.fits with ⟨what, hhead⟩ | ⟨status, headers, rest, hhead, hlength⟩
  · rw [hhead]
    constructor
    · rintro ⟨_, heq, hpanics⟩
      cases heq
      cases hpanics
    · rintro ⟨status, headers, rest, heq, -⟩
      cases heq
  · rw [hhead]
    show Panics (if isChunked headers = true then
        unchunk rest >>= fun body => .ok (⟨status, headers, body⟩ : Response)
      else .ok ⟨status, headers, rest⟩) ↔ _
    cases hchunked : isChunked headers with
    | true =>
      rw [if_pos rfl, panics_bind_ok, unchunk_panics_iff ⟨rest, hlength⟩]
      constructor
      · exact fun h => ⟨status, headers, rest, rfl, hchunked, h⟩
      · rintro ⟨_, _, _, heq, -, h⟩
        cases heq
        exact h
    | false =>
      rw [if_neg Bool.false_ne_true]
      constructor
      · rintro ⟨_, heq, -⟩
        cases heq
      · rintro ⟨_, _, _, heq, hchunked', -⟩
        cases heq
        rw [hchunked] at hchunked'
        cases hchunked'

/-! ## What was written in chunks -/

/-- A number as it may be written: hex digits of either case, with zeros in front or not. -/
structure Writes (digits : List Char) (n : Nat) : Prop where
  nonempty : digits ≠ []
  value : (digits.mapM radixDigit).map ofHexDigits = some n

/-- The line before a chunk of a length. -/
structure SizeLine (n : Nat) where
  digits : List Char
  /-- The white space that an extension may have before it. -/
  blank : List Char
  /-- Chunk extensions: nothing, or what begins with a semicolon. -/
  ext : Bytes
  writes : Writes digits n
  blank_eq : ∀ c ∈ blank, c = ' ' ∨ c = '\t'
  ext_head : ext = [] ∨ ∃ more, ext = 59 :: more
  noCrlf : ¬crlf <:+: ext

def SizeLine.bytes {n : Nat} (line : SizeLine n) : Bytes :=
  encode (line.digits ++ line.blank) ++ line.ext

/-- A chunk as it is written. -/
structure Chunk where
  data : Bytes
  line : SizeLine data.length
  nonempty : data ≠ []

def Chunk.wire (c : Chunk) : Bytes := c.line.bytes ++ (crlf ++ (c.data ++ crlf))

/-- A body in chunks: all of them, the one that ends it, and what follows. -/
structure Encoding where
  chunks : List Chunk
  last : SizeLine 0
  trailers : Bytes

namespace Encoding

def body (e : Encoding) : Bytes := e.chunks.flatMap Chunk.data

def wire (e : Encoding) : Bytes :=
  e.chunks.flatMap Chunk.wire ++ (e.last.bytes ++ (crlf ++ e.trailers))

/-- The lines between the data. -/
def lines (e : Encoding) : List Bytes := (e.chunks.map fun c => c.line.bytes) ++ [e.last.bytes]

end Encoding

/-- What is a hex digit is none of the other characters that are looked for. -/
theorem of_radixDigit {c : Char} {d : Fin 16} (h : radixDigit c = some d) :
    isAscii c ∧ isWhitespace c = false ∧ c ≠ ';' ∧ c ≠ '+' ∧ c.toNat ≠ 13 := by
  have hlower : c.toLower = hexChar d := (hexChar_of_hexValue h).symm
  have hdigit : ∀ d : Fin 16, 48 ≤ (hexChar d).toNat ∧ (hexChar d).toNat ≤ 57 ∨
      97 ≤ (hexChar d).toNat ∧ (hexChar d).toNat ≤ 102 := by decide
  have hnat : 48 ≤ c.toNat ∧ c.toNat ≤ 57 ∨ 65 ≤ c.toNat ∧ c.toNat ≤ 70 ∨
      97 ≤ c.toNat ∧ c.toNat ≤ 102 := by
    have hd := hdigit d
    rw [← hlower] at hd
    by_cases hupper : c.isUpper
    · have hrange : 65 ≤ c.toNat ∧ c.toNat ≤ 90 := by
        simpa [Char.isUpper, UInt32.le_iff_toNat_le] using hupper
      have hvalid : (c.toNat + 32).isValidChar := .inl (by omega)
      rw [Char.toLower_eq_of_isUpper hupper, Char.toNat_ofNat, if_pos hvalid] at hd
      omega
    · rw [Char.toLower_eq_of_not_isUpper hupper] at hd
      omega
  have hne : ∀ e : Char, e.toNat < 48 ∨ 57 < e.toNat ∧ e.toNat < 65 → c ≠ e := by
    rintro e he rfl
    omega
  refine ⟨decide_eq_true (by omega), ?_, hne _ (by decide), hne _ (by decide), by omega⟩
  unfold isWhitespace
  simp
  omega

theorem digits_of_mapM {digits : List Char} {ds : List (Fin 16)}
    (h : digits.mapM radixDigit = some ds) : ∀ c ∈ digits, ∃ d, radixDigit c = some d := by
  induction digits generalizing ds with
  | nil => exact fun c hc => absurd hc List.not_mem_nil
  | cons c digits ih =>
    rw [List.mapM_cons] at h
    obtain ⟨d, hd, h⟩ := Option.bind_eq_some_iff.mp h
    obtain ⟨ds', hds, -⟩ := Option.bind_eq_some_iff.mp h
    rintro e (_ | ⟨_, he⟩)
    · exact ⟨d, hd⟩
    · exact ih hds e he

theorem Writes.digit {digits : List Char} {n : Nat} (h : Writes digits n) :
    ∀ c ∈ digits, ∃ d, radixDigit c = some d := by
  obtain ⟨ds, hds, -⟩ := Option.map_eq_some_iff.mp h.value
  exact digits_of_mapM hds

theorem fromHex_of_writes {digits : List Char} {n : Nat} (h : Writes digits n)
    (hn : n < u64Bound) : fromHex digits = some n := by
  have hplus : digits.head? ≠ some '+' := by
    intro hhead
    obtain ⟨d, hd⟩ := h.digit '+' (List.mem_of_mem_head? hhead)
    exact (of_radixDigit hd).2.2.2.1 rfl
  unfold fromHex
  rw [if_neg hplus]
  dsimp only
  rw [if_neg h.nonempty, h.value, Option.filter_some, if_pos (decide_eq_true hn)]

/-- What stands before the extensions. -/
theorem SizeLine.front {n : Nat} (line : SizeLine n) :
    ∀ c ∈ line.digits ++ line.blank, isAscii c ∧ c ≠ ';' ∧ c.toNat ≠ 13 := by
  intro c hc
  rcases List.mem_append.mp hc with hc | hc
  · obtain ⟨d, hd⟩ := line.writes.digit c hc
    obtain ⟨hascii, -, hsemicolon, -, hreturn⟩ := of_radixDigit hd
    exact ⟨hascii, hsemicolon, hreturn⟩
  · rcases line.blank_eq c hc with rfl | rfl
    · decide
    · decide

/-- The size is what stands before the extensions, without the white space. -/
theorem SizeLine.trim_front {n : Nat} (line : SizeLine n) :
    trim (line.digits ++ line.blank) = line.digits := by
  have hblank : ∀ c ∈ line.blank, isWhitespace c := by
    intro c hc
    rcases line.blank_eq c hc with rfl | rfl <;> rfl
  have hdigit : ∀ c ∈ line.digits, isWhitespace c = false := fun c hc => by
    obtain ⟨d, hd⟩ := line.writes.digit c hc
    exact (of_radixDigit hd).2.1
  have haround := @trim_around [] line.digits line.blank (by simp) hblank
  rw [List.nil_append] at haround
  rw [haround]
  exact trim_eq (fun c hc => hdigit c (List.mem_of_mem_head? hc))
    fun c hc => hdigit c (List.mem_of_getLast? hc)

/-- A line that is text says how long its chunk is, and one that is not is refused. -/
theorem chunkSize_of_line {n : Nat} (line : SizeLine n) (hn : n < u64Bound) :
    chunkSize line.bytes =
      if (decode line.bytes).isSome then .ok n
      else .error (.invalid "a chunk size that is not text") := by
  unfold chunkSize
  cases hdecode : decode line.bytes with
  | none => rfl
  | some text =>
    obtain ⟨back, rfl, hback⟩ := of_encode_eq_append (fun c hc => (line.front c hc).1)
      (decode_eq_some.mp hdecode)
    have hsize : (line.digits ++ line.blank ++ back).takeWhile (· ≠ ';') =
        line.digits ++ line.blank := by
      rw [List.takeWhile_append_of_pos fun c hc => decide_eq_true (line.front c hc).2.1]
      rcases line.ext_head with hext | ⟨more, hext⟩
      · rw [hext] at hback
        obtain rfl : back = [] := encode_injective hback
        exact List.append_nil _
      · have hascii : ∀ c ∈ [';'], isAscii c := by simp [isAscii]
        obtain ⟨back', rfl, -⟩ := @of_encode_eq_append [';'] back more hascii (hback.trans hext)
        simp
    show orInvalid _ (fromHex (trim ((line.digits ++ line.blank ++ back).takeWhile (· ≠ ';')))) = _
    rw [hsize, line.trim_front, fromHex_of_writes line.writes hn]
    rfl

theorem noCrlf_append {front back : Bytes} (hfront : 13 ∉ front) (hback : ¬crlf <:+: back) :
    ¬crlf <:+: front ++ back := by
  induction front with
  | nil => exact hback
  | cons b front ih =>
    intro h
    rcases List.infix_cons_iff.mp h with hstart | h
    · obtain ⟨rest, hrest⟩ := hstart
      have hb : 13 = b := (List.cons.inj hrest).1
      exact hfront (hb ▸ List.mem_cons_self)
    · exact ih (fun hmem => hfront (List.mem_cons_of_mem b hmem)) h

/-- Neither the size nor the extensions end the line. -/
theorem noCrlf_line {n : Nat} (line : SizeLine n) : ¬crlf <:+: line.bytes := by
  refine noCrlf_append (fun hmem => ?_) line.noCrlf
  rw [encode_ascii fun c hc => (line.front c hc).1] at hmem
  obtain ⟨c, hc, hbyte⟩ := List.mem_map.mp hmem
  obtain ⟨hascii, -, hreturn⟩ := line.front c hc
  have hlow : c.toNat < 0x80 := by simpa [isAscii] using hascii
  have hnat := congrArg UInt8.toNat hbyte
  simp only [Nat.toUInt8, UInt8.toNat_ofNat'] at hnat
  have hval : UInt8.toNat 13 = 13 := rfl
  omega

/-- A chunk whose line is text is one that `unchunk` knows. -/
def Chunk.frame (c : Chunk) (hn : c.data.length < u64Bound)
    (htext : (decode c.line.bytes).isSome) : Frame where
  line := c.line.bytes
  data := c.data
  after := crlf
  noCrlf := noCrlf_line c.line
  size := by rw [chunkSize_of_line c.line hn, if_pos htext]
  nonempty := c.nonempty
  two := rfl

/-- A line that is no text is the end. -/
theorem chunk_noText {n : Nat} (line : SizeLine n) {tail : Bytes} (hn : n < u64Bound)
    (hlength : (line.bytes ++ (crlf ++ tail)).length < 2 ^ 63)
    (htext : ¬(decode line.bytes).isSome = true) :
    chunk (line.bytes ++ (crlf ++ tail)) =
      .error (.invalid "a chunk size that is not text") := by
  rw [chunk_eq (noCrlf_line line) hlength]
  unfold chunkAt
  rw [chunkSize_of_line line hn, if_neg htext]
  rfl

theorem chunk_last (line : SizeLine 0) {tail : Bytes}
    (hlength : (line.bytes ++ (crlf ++ tail)).length < 2 ^ 63)
    (htext : (decode line.bytes).isSome) : chunk (line.bytes ++ (crlf ++ tail)) = .ok none := by
  rw [chunk_eq (noCrlf_line line) hlength]
  unfold chunkAt
  rw [chunkSize_of_line line (by decide), if_pos htext]
  rfl

/-- One chunk after the other is read back. -/
theorem unchunkFrom_wire {chunks : List Chunk} {last : SizeLine 0} {trailers body : Bytes}
    (hlength : (Encoding.wire ⟨chunks, last, trailers⟩).length < 2 ^ 63) :
    unchunkFrom body (Encoding.wire ⟨chunks, last, trailers⟩) =
      if ∀ line ∈ Encoding.lines ⟨chunks, last, trailers⟩, (decode line).isSome then
        .ok (body ++ Encoding.body ⟨chunks, last, trailers⟩)
      else .error (.invalid "a chunk size that is not text") := by
  induction chunks generalizing body with
  | nil =>
    have hlines : (∀ line ∈ Encoding.lines ⟨[], last, trailers⟩, (decode line).isSome) ↔
        (decode last.bytes).isSome := List.forall_mem_singleton
    -- the last size line ends the body if it is text
    by_cases htext : (decode last.bytes).isSome
    · rw [if_pos (hlines.mpr htext)]
      exact (unchunkFrom_none (chunk_last last hlength htext)).trans
        (congrArg _ (List.append_nil body).symm)
    · rw [if_neg (hlines.not.mpr htext)]
      exact unchunkFrom_error (chunk_noText last (by decide) hlength htext)
  | cons c chunks ih =>
    have hlines : (∀ line ∈ Encoding.lines ⟨c :: chunks, last, trailers⟩, (decode line).isSome) ↔
        (decode c.line.bytes).isSome ∧
          ∀ line ∈ Encoding.lines ⟨chunks, last, trailers⟩, (decode line).isSome :=
      List.forall_mem_cons
    -- one chunk, then the induction from the body with its data
    have hwire : Encoding.wire ⟨c :: chunks, last, trailers⟩ =
        c.wire ++ Encoding.wire ⟨chunks, last, trailers⟩ := by
      simp only [Encoding.wire, List.flatMap_cons, List.append_assoc]
    have hn : c.data.length < u64Bound := by
      rw [hwire] at hlength
      simp only [Chunk.wire, List.length_append] at hlength
      unfold u64Bound
      omega
    rw [hwire] at hlength ⊢
    by_cases htext : (decode c.line.bytes).isSome
    · have hchunk := chunk_next (c.frame hn htext) hlength
      have hrest : (Encoding.wire ⟨chunks, last, trailers⟩).length < 2 ^ 63 := by
        rw [List.length_append] at hlength
        omega
      have hbody : body ++ Encoding.body ⟨c :: chunks, last, trailers⟩ =
          body ++ c.data ++ Encoding.body ⟨chunks, last, trailers⟩ := by
        simp only [Encoding.body, List.flatMap_cons, List.append_assoc]
      refine (unchunkFrom_some hchunk).trans ((ih hrest).trans ?_)
      rw [hbody]
      exact if_congr (hlines.trans (and_iff_right htext)).symm rfl rfl
    · have hshape : c.wire ++ Encoding.wire ⟨chunks, last, trailers⟩ =
          c.line.bytes ++ (crlf ++ (c.data ++ (crlf ++
            Encoding.wire ⟨chunks, last, trailers⟩))) := by
        simp only [Chunk.wire, List.append_assoc]
      rw [if_neg fun hall => htext (hlines.mp hall).1, hshape]
      exact unchunkFrom_error (chunk_noText c.line hn (hshape ▸ hlength) htext)

/-- A body in chunks that memory holds. -/
structure Held extends Encoding where
  fits : toEncoding.wire.length < 2 ^ 63

/-- **What was written in chunks is read back if its lines are text.** -/
theorem unchunk_encoding (e : Held) :
    unchunk e.wire = .ok e.body ↔ ∀ line ∈ e.lines, (decode line).isSome := by
  have hwire := @unchunkFrom_wire e.chunks e.last e.trailers [] e.fits
  constructor
  · intro h
    by_contra htext
    rw [if_neg htext] at hwire
    have hsame := hwire.symm.trans h
    cases hsame
  · intro htext
    rw [if_pos htext] at hwire
    exact hwire

/-- Two chunks, the second with an extension, and a trailer. -/
def twoChunks : Held where
  chunks :=
    [{ data := encode "Wiki".toList
       line := {
        digits := ['4'], blank := [], ext := []
        writes := ⟨by decide, by decide⟩
        blank_eq := by simp
        ext_head := .inl rfl
        noCrlf := by decide }
       nonempty := by decide },
     { data := encode "pedia".toList
       line := {
        digits := ['0', '5'], blank := [' '], ext := encode ";part=2".toList
        writes := ⟨by decide, by decide⟩
        blank_eq := by simp
        ext_head := .inr ⟨encode "part=2".toList, by decide⟩
        noCrlf := by decide }
       nonempty := by decide }]
  last := {
    digits := ['0'], blank := [], ext := []
    writes := ⟨by decide, by decide⟩
    blank_eq := by simp
    ext_head := .inl rfl
    noCrlf := by decide }
  trailers := encode "Expires: never\r\n\r\n".toList
  fits := by decide +kernel

example : unchunk twoChunks.wire = .ok (encode "Wikipedia".toList) :=
  (unchunk_encoding twoChunks).mpr (by decide +kernel)

/-- **The reader of answers returns, unless a chunk is said to be longer than memory can
be**, and undoes chunking as long as the lines are text. -/
theorem answers_iff (raw rest : Slice) (e : Held) :
    (¬Panics (parse raw.bytes) ↔ ¬∃ status headers body,
      parseHead raw.bytes = .ok (status, headers, body) ∧ isChunked headers ∧ Oversized body) ∧
      (¬Panics (unchunk rest.bytes) ↔ ¬Oversized rest.bytes) ∧
      (unchunk e.wire = .ok e.body ↔ ∀ line ∈ e.lines, (decode line).isSome) :=
  ⟨(parse_panics_iff raw).not, (unchunk_panics_iff rest).not, unchunk_encoding e⟩

def answerHead : List Char := "HTTP/1.1 200 OK\r\nTransfer-Encoding: chunked".toList

/-- A chunk of 2^64 - 1 bytes, of which one is there. -/
def hugeChunk : Bytes := List.replicate 16 102 ++ (crlf ++ [120])

def hugeAnswer : Slice where
  bytes := encode answerHead ++ (crlf ++ crlf ++ hugeChunk)
  fits := by decide +kernel

/-- **The size that a chunk is said to have can be a panic.** -/
theorem answers_hugeAnswer : Panics (parse hugeAnswer.bytes) := by
  have hposition : position (crlf ++ crlf) hugeAnswer.bytes = some (encode answerHead).length := by
    decide +kernel
  have hhead : (splitLines answerHead).head?.bind statusOf = some 200 := by decide +kernel
  have hchunked : isChunked ((splitLines answerHead).tail.filterMap headerOf) := by
    decide +kernel
  have hparse : parseHead hugeAnswer.bytes =
      .ok (200, (splitLines answerHead).tail.filterMap headerOf, hugeChunk) := by
    refine (parseHead_eq hugeAnswer.fits hposition).trans ?_
    rw [decode_encode]
    dsimp only
    rw [hhead]
  have hsize : chunkSize (encode (List.replicate 16 'f')) = .ok (2 ^ 64 - 1) := by
    unfold chunkSize
    rw [decode_encode]
    decide +kernel
  have hline : encode (List.replicate 16 'f') = List.replicate 16 102 := by decide
  refine (parse_panics_iff hugeAnswer).mpr ⟨_, _, _, hparse, hchunked, ?_⟩
  refine ⟨[], List.replicate 16 102, [120], 2 ^ 64 - 1, rfl, by decide, hline ▸ hsize, ?_⟩
  decide

end Client

end Passalong
