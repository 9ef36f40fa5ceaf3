import Mathlib.Data.Stream.Init
import Passalong.ContentRead

/-!
# The sending of a content (`stream_out`)

`stream_out` reads and sends until nothing is left to send, or until the client went away.
An error is sent too, and after it the loop goes on: what is left has not become less. So
the loop ends if the reader has the bytes that are owed (`Producer.ends_of_le`), and sends
errors for ever if it does not (`Producer.endsAsPromised_iff`). Before its first error it
sends what `streamOut` says (`Producer.body_after`).
-/

namespace Passalong

open Lib

/-! ## Readers -/

/-- What a reader has for one read. No bytes are the end of the content; more bytes than
are asked for stay for the next read. -/
inductive Offer where
  | bytes (data : Bytes)
  | interrupted
  | failed
  deriving DecidableEq, Repr

/-- A reader: what it has for each read, one after the other. -/
abbrev Reader : Type := Stream' Offer

namespace Offer

/-- The reader goes on after this. -/
def goesOn : Offer → Bool
  | .bytes data => data ≠ []
  | .interrupted => true
  | .failed => false

def data : Offer → Bytes
  | .bytes data => data
  | .interrupted | .failed => []

end Offer

/-- All the bytes of some offers. -/
def yielded (offers : List Offer) : Bytes := offers.flatMap Offer.data

/-- What one `read` gives. -/
inductive Gave where
  | bytes (piece : Bytes)
  | interrupted
  | failed
  deriving DecidableEq, Repr

/-- A `read` into a buffer of so many bytes. -/
def Reader.read (r : Reader) (want : Nat) : Gave × Reader :=
  match r.head with
  | .bytes data =>
    if data.length ≤ want then (.bytes data, r.tail)
    else (.bytes (data.take want), Stream'.cons (.bytes (data.drop want)) r.tail)
  | .interrupted => (.interrupted, r.tail)
  | .failed => (.failed, r.tail)

/-- What goes wrong in a read. -/
inductive Fault where
  | endedEarly
  | reading
  deriving DecidableEq, Repr

/-- What is sent to the client. -/
abbrev Piece : Type := Except Fault Bytes

/-! ## The loop -/

/-- The task that reads and sends. -/
structure Producer where
  left : Nat
  reader : Reader
  /-- The pieces that were sent, in order. -/
  sent : List Piece
  /-- The client went away. -/
  gone : Bool

namespace Producer

def start (reader : Reader) (length : Nat) : Producer := ⟨length, reader, [], false⟩

/-- The loop has ended. -/
def Done (p : Producer) : Prop := p.left = 0 ∨ p.gone = true

instance (p : Producer) : Decidable p.Done := inferInstanceAs (Decidable (_ ∨ _))

/-- `blocking_send`, to a client that takes the piece or went away. -/
def send (p : Producer) (takes : Bool) (piece : Piece) : Producer :=
  if takes then { p with sent := p.sent ++ [piece] } else { p with gone := true }

/-- One turn of the loop. -/
def step (takes : Bool) (p : Producer) : Producer :=
  if p.Done then p
  else
    match p.reader.read (min p.left pieceSize) with
    -- shorter than its size said: the item changed under us
    | (.bytes [], r) => { p with reader := r }.send takes (.error .endedEarly)
    | (.bytes (b :: bs), r) =>
      { p with reader := r, left := p.left - (b :: bs).length }.send takes (.ok (b :: bs))
    | (.interrupted, r) => { p with reader := r }
    | (.failed, r) => { p with reader := r }.send takes (.error .reading)

/-- The loop after so many turns, with a client that takes every piece. -/
def after (p : Producer) (turns : Nat) : Producer := (step true)^[turns] p

variable {p : Producer}

theorem after_add (p : Producer) (m n : Nat) : p.after (m + n) = (p.after m).after n := by
  unfold after
  rw [Nat.add_comm, Function.iterate_add_apply]

theorem after_one (p : Producer) : p.after 1 = p.step true := rfl

theorem step_done {takes : Bool} (h : p.Done) : p.step takes = p := if_pos h

/-- Once ended, it stays so. -/
theorem after_done (h : p.Done) (n : Nat) : p.after n = p := by
  induction n with
  | zero => rfl
  | succ n ih => rw [after_add, ih, after_one, step_done h]

/-! ## As long as the reader has bytes -/

/-- How many turns some offers can take at most. -/
def weight (offers : List Offer) : Nat := (offers.map fun o => o.data.length + 1).sum

/-- Every byte of some offers is sent, or so many as are left to send. -/
structure Sent (p : Producer) (offers : List Offer) (p' : Producer) (offers' : List Offer)
    (pieces : List Bytes) : Prop where
  left_eq : p'.left + pieces.flatten.length = p.left
  sent_eq : p'.sent = p.sent ++ pieces.map .ok
  gone_eq : p'.gone = p.gone
  yielded_eq : yielded offers = pieces.flatten ++ yielded offers'

/-- One turn over an offer the reader goes on after. -/
theorem step_goesOn {rest : Reader} {o : Offer} {offers : List Offer}
    (hreader : p.reader = (o :: offers) ++ₛ rest) (hgoes : o.goesOn = true) (h : ¬p.Done) :
    ∃ offers' pieces, (p.step true).reader = offers' ++ₛ rest ∧
      weight offers' < weight (o :: offers) ∧
      (∀ o' ∈ offers', o'.goesOn = true ∨ o' ∈ offers) ∧
      Sent p (o :: offers) (p.step true) offers' pieces := by
  have hwant : 0 < min p.left pieceSize := by
    have hleft : p.left ≠ 0 := fun h0 => h (.inl h0)
    rw [pieceSize]
    omega
  have hhead : p.reader.head = o := by rw [hreader]; rfl
  have htail : p.reader.tail = offers ++ₛ rest := by rw [hreader]; rfl
  unfold step Reader.read
  rw [if_neg h, hhead, htail]
  cases o with
  | failed => cases hgoes
  | interrupted =>
    exact ⟨offers, [], rfl, by simp [weight], fun o' ho' => .inr ho', rfl, by simp, rfl, rfl⟩
  | bytes data =>
    have hne : data ≠ [] := by simpa [Offer.goesOn] using hgoes
    simp only
    -- an offer that is longer than what is asked for is taken in two reads
    by_cases hfits : data.length ≤ min p.left pieceSize
    · rw [if_pos hfits]
      obtain ⟨b, bs, rfl⟩ := List.exists_cons_of_ne_nil hne
      refine ⟨offers, [b :: bs], rfl, by simp [weight, Offer.data], fun o' ho' => .inr ho', ?_,
        rfl, rfl, by simp [yielded, Offer.data]⟩
      have hle : (b :: bs).length ≤ p.left := by omega
      simpa [send] using Nat.sub_add_cancel hle
    · rw [if_neg hfits]
      have hpiece : data.take (min p.left pieceSize) ≠ [] := by
        simp only [ne_eq, List.take_eq_nil_iff, hne, or_false]
        omega
      have hlength : (data.take (min p.left pieceSize)).length = min p.left pieceSize := by
        rw [List.length_take]
        omega
      have hsplit := List.take_append_drop (min p.left pieceSize) data
      have hdrop : (data.drop (min p.left pieceSize)).length < data.length := by
        rw [List.length_drop]
        omega
      have hrest : data.drop (min p.left pieceSize) ≠ [] := by
        simp only [ne_eq, List.drop_eq_nil_iff]
        omega
      generalize data.take (min p.left pieceSize) = piece at *
      generalize data.drop (min p.left pieceSize) = back at *
      obtain ⟨b, bs, rfl⟩ := List.exists_cons_of_ne_nil hpiece
      refine ⟨.bytes back :: offers, [b :: bs], rfl, ?_, ?_, ?_, rfl, rfl, ?_⟩
      · simp only [weight, List.map_cons, List.sum_cons, Offer.data]
        omega
      · intro o' ho'
        rcases List.mem_cons.mp ho' with rfl | ho'
        · exact .inl (by simpa [Offer.goesOn] using hrest)
        · exact .inr ho'
      · have hle : (b :: bs).length ≤ p.left := by omega
        simpa [send] using Nat.sub_add_cancel hle
      · simp [yielded, Offer.data, ← hsplit]

/-- So the loop gets through all of them, unless it has sent enough before. -/
theorem drains {rest : Reader} {offers : List Offer} (hreader : p.reader = offers ++ₛ rest)
    (hgoes : ∀ o ∈ offers, o.goesOn = true) :
    ∃ turns offers' pieces, (p.after turns).reader = offers' ++ₛ rest ∧
      Sent p offers (p.after turns) offers' pieces ∧ ((p.after turns).Done ∨ offers' = []) := by
  induction hn : weight offers using Nat.strong_induction_on generalizing p offers with
  | _ n ih =>
    by_cases hdone : p.Done
    · exact ⟨0, offers, [], hreader, ⟨rfl, by simp [after], rfl, rfl⟩, .inl hdone⟩
    cases offers with
    | nil => exact ⟨0, [], [], hreader, ⟨rfl, by simp [after], rfl, rfl⟩, .inr rfl⟩
    | cons o offers =>
      obtain ⟨hgoes_o, hgoes'⟩ := List.forall_mem_cons.mp hgoes
      obtain ⟨offers₁, pieces₁, hreader₁, hweight, hgoes₁, hsent₁⟩ :=
        step_goesOn hreader hgoes_o hdone
      obtain ⟨turns, offers₂, pieces₂, hreader₂, hsent₂, hend⟩ :=
        ih (weight offers₁) (hn ▸ hweight) hreader₁
          (fun o' ho' => (hgoes₁ o' ho').elim id (hgoes' o')) rfl
      have hafter : p.after (1 + turns) = (p.step true).after turns := by
        rw [after_add, after_one]
      refine ⟨1 + turns, offers₂, pieces₁ ++ pieces₂, ?_⟩
      rw [hafter]
      refine ⟨hreader₂, ⟨?_, ?_, hsent₂.gone_eq.trans hsent₁.gone_eq, ?_⟩, hend⟩
      · have h1 := hsent₁.left_eq
        have h2 := hsent₂.left_eq
        simp only [List.flatten_append, List.length_append]
        omega
      · rw [hsent₂.sent_eq, hsent₁.sent_eq]
        simp
      · rw [hsent₁.yielded_eq, hsent₂.yielded_eq]
        simp

/-- A turn sends a piece, or leaves what is left. -/
theorem step_sent (p : Producer) :
    ∃ more, (p.step true).sent = p.sent ++ more ∧ (p.step true).gone = p.gone ∧
      (more = [] → (p.step true).left = p.left) := by
  unfold step
  split
  · exact ⟨[], by simp, rfl, fun _ => rfl⟩
  split
  · exact ⟨[.error .endedEarly], rfl, rfl, by simp⟩
  · exact ⟨[.ok _], rfl, rfl, by simp⟩
  · exact ⟨[], by simp, rfl, fun _ => rfl⟩
  · exact ⟨[.error .reading], rfl, rfl, by simp⟩

theorem after_sent (p : Producer) (turns : Nat) :
    ∃ more, (p.after turns).sent = p.sent ++ more ∧ (p.after turns).gone = p.gone ∧
      (more = [] → (p.after turns).left = p.left) := by
  induction turns with
  | zero => exact ⟨[], by simp [after], rfl, fun _ => rfl⟩
  | succ turns ih =>
    obtain ⟨more, hsent, hgone, hleft⟩ := ih
    obtain ⟨more', hsent', hgone', hleft'⟩ := (p.after turns).step_sent
    rw [after_add, after_one]
    refine ⟨more ++ more', by rw [hsent', hsent, List.append_assoc], hgone'.trans hgone, ?_⟩
    intro hnil
    obtain ⟨h, h'⟩ := List.append_eq_nil_iff.mp hnil
    exact (hleft' h').trans (hleft h)

/-- At the end of what the reader has, an error is sent, and no less is left. -/
theorem step_ends (h : ¬p.Done) (hend : p.reader.head.goesOn = false) :
    ∃ fault, (p.step true).sent = p.sent ++ [.error fault] ∧ (p.step true).left = p.left ∧
      (p.step true).gone = p.gone := by
  unfold step Reader.read
  rw [if_neg h]
  cases hhead : p.reader.head with
  | interrupted =>
    rw [hhead] at hend
    cases hend
  | failed => exact ⟨.reading, rfl, rfl, rfl⟩
  | bytes data =>
    have hnil : data = [] := by
      rw [hhead] at hend
      simpa [Offer.goesOn] using hend
    rw [hnil]
    exact ⟨.endedEarly, rfl, rfl, rfl⟩

/-! ## What a client makes of it -/

/-- The body, if it ended without an error. -/
def body (p : Producer) : Option Bytes :=
  if p.left = 0 then (p.sent.mapM Except.toOption).map List.flatten else none

/-- An opened content as a reader. -/
def offersOf : Bytes → Nat → List Took → List Offer
  | _, _, [] => []
  | content, left, .interrupted :: reads => .interrupted :: offersOf content left reads
  | content, left, .failed :: reads => .failed :: offersOf content left reads
  | content, left, .bytes more :: reads =>
    let piece := content.take (min (more + 1) (min left pieceSize))
    .bytes piece :: offersOf (content.drop piece.length) (left - piece.length) reads

/-- Once there was an error, there is no body. -/
theorem body_error {turns : Nat} {fault : Fault} {sent : List Piece}
    (h : p.sent = sent ++ [.error fault]) : (p.after turns).body = none := by
  obtain ⟨more, hmore, -⟩ := p.after_sent turns
  have hnone : (p.after turns).sent.mapM Except.toOption = none := by
    rw [hmore, h, List.append_assoc, List.mapM_append]
    cases sent.mapM (Except.toOption (ε := Fault) (α := Bytes)) <;> rfl
  unfold body
  rw [hnone]
  split <;> rfl

theorem body_after_aux {content sofar : Bytes} {reads : List Took} {rest : Reader}
    (hreader : p.reader = offersOf content p.left reads ++ₛ rest) (hgone : p.gone = false)
    (hsent : (p.sent.mapM Except.toOption).map List.flatten = some sofar) :
    (p.after reads.length).body = (streamOut content p.left reads).map (sofar ++ ·) := by
  induction reads generalizing p content sofar with
  | nil =>
    show p.body = _
    unfold body
    rw [hsent]
    cases p.left with
    | zero => simp [streamOut]
    | succ left => rfl
  | cons read reads ih =>
    -- nothing is left to send: the loop does not read any more
    by_cases hzero : p.left = 0
    · rw [after_done (.inl hzero)]
      unfold body
      rw [if_pos hzero, hsent, hzero]
      cases read <;> simp [streamOut]
    have hdone : ¬p.Done := by
      rintro (h | h)
      · exact hzero h
      · rw [hgone] at h
        cases h
    obtain ⟨left, hleft⟩ : ∃ left, p.left = left + 1 := ⟨p.left - 1, by omega⟩
    rw [List.length_cons, Nat.add_comm, after_add, after_one]
    cases read with
    | interrupted =>
      -- an interrupted read is read again, with the same left
      have hstep : p.step true = { p with reader := offersOf content p.left reads ++ₛ rest } := by
        unfold step Reader.read
        rw [if_neg hdone, hreader]
        rfl
      have hnext := ih (p := { p with reader := offersOf content p.left reads ++ₛ rest })
        rfl hgone hsent
      rw [hstep]
      refine hnext.trans ?_
      rw [hleft]
      rfl
    | failed =>
      -- a failed read is the last thing the loop sends
      have hend : p.reader.head.goesOn = false := by rw [hreader]; rfl
      obtain ⟨fault, hfault, -⟩ := step_ends hdone hend
      rw [body_error hfault, hleft]
      rfl
    | bytes more =>
      generalize hp : content.take (min (more + 1) (min p.left pieceSize)) = piece
      have hhead : p.reader.head = .bytes piece := by rw [hreader, ← hp]; rfl
      have htail : p.reader.tail =
          offersOf (content.drop piece.length) (p.left - piece.length) reads ++ₛ rest := by
        rw [hreader, ← hp]
        rfl
      have hlength : piece.length ≤ min p.left pieceSize := by
        rw [← hp, List.length_take]
        omega
      have hout : streamOut content p.left (.bytes more :: reads) =
          if piece = [] then none
          else (streamOut (content.drop piece.length) (p.left - piece.length) reads).map
            (piece ++ ·) := by
        rw [← hp, hleft]
        rfl
      rw [hout]
      -- an empty piece is the end of the content, before all was sent
      by_cases hnil : piece = []
      · have hend : p.reader.head.goesOn = false := by rw [hhead, hnil]; rfl
        obtain ⟨fault, hfault, -⟩ := step_ends hdone hend
        rw [body_error hfault, if_pos hnil]
        rfl
      · have hstep : p.step true = { p with
            reader := p.reader.tail
            left := p.left - piece.length
            sent := p.sent ++ [.ok piece] } := by
          unfold step Reader.read
          rw [if_neg hdone, hhead]
          simp only
          rw [if_pos hlength]
          obtain ⟨b, bs, rfl⟩ := List.exists_cons_of_ne_nil hnil
          rfl
        -- the piece joins what was sent, and the rest is the induction's
        have hsent' : ((p.sent ++ [Except.ok piece]).mapM Except.toOption).map List.flatten =
            some (sofar ++ piece) := by
          obtain ⟨pieces, hpieces, rfl⟩ := Option.map_eq_some_iff.mp hsent
          simp only [List.mapM_append, hpieces]
          simp [Except.toOption]
        have hnext := ih (p := { p with
          reader := p.reader.tail
          left := p.left - piece.length
          sent := p.sent ++ [.ok piece] }) htail hgone hsent'
        rw [hstep, if_neg hnil, Option.map_map]
        refine hnext.trans ?_
        congr 1
        funext tail
        simp

/-- **Before its first error the loop sends what `streamOut` says.** -/
theorem body_after (content : Bytes) (length : Nat) (reads : List Took) (rest : Reader) :
    ((start (offersOf content length reads ++ₛ rest) length).after reads.length).body =
      streamOut content length reads := by
  have h := @body_after_aux (start (offersOf content length reads ++ₛ rest) length) content [] reads
    rest rfl rfl rfl
  refine h.trans ?_
  simp [start]

/-! ## What is promised, and when it is kept -/

/-- The loop ends, and the pieces are the first `length` bytes of what the reader gives; or
all that it gives, and one error after them. -/
def EndsAsPromised (reader : Reader) (length : Nat) (gives : Bytes) : Prop :=
  ∃ (turns : Nat) (pieces : List Bytes), ((start reader length).after turns).Done ∧
    if length ≤ gives.length then
      ((start reader length).after turns).sent = pieces.map .ok ∧
        pieces.flatten = gives.take length
    else
      ∃ fault, ((start reader length).after turns).sent = pieces.map .ok ++ [.error fault] ∧
        pieces.flatten = gives

/-- A list of pieces with an error before its end is no list of bytes and one error. -/
theorem error_last {pieces pieces' : List Bytes} {fault fault' : Fault} {more : List Piece}
    (h : (pieces.map .ok ++ [.error fault]) ++ more = pieces'.map .ok ++ [.error fault']) :
    more = [] := by
  by_contra hmore
  obtain ⟨front, last, rfl⟩ := (List.eq_nil_or_concat more).resolve_left hmore
  rw [List.concat_eq_append, ← List.append_assoc] at h
  have hfront := (List.append_inj' h rfl).1
  have hmem : (.error fault : Piece) ∈ pieces'.map .ok := by
    rw [← hfront]
    simp
  obtain ⟨piece, -, hpiece⟩ := List.mem_map.mp hmem
  cases hpiece

variable {offers : List Offer} {ending : Offer} {rest : Reader} {length : Nat}

/-- A reader with enough bytes is read to the end of what is owed. -/
theorem ends_of_le (hgoes : ∀ o ∈ offers, o.goesOn = true)
    (hle : length ≤ (yielded offers).length) :
    EndsAsPromised (offers ++ₛ rest) length (yielded offers) := by
  obtain ⟨turns, offers', pieces, -, hsent, hend⟩ :=
    drains (p := start (offers ++ₛ rest) length) rfl hgoes
  have hleft : ((start (offers ++ₛ rest) length).after turns).left + pieces.flatten.length =
      length := hsent.left_eq
  have hyielded := hsent.yielded_eq
  have hzero : ((start (offers ++ₛ rest) length).after turns).left = 0 := by
    rcases hend with (hzero | hgone) | hnil
    · exact hzero
    · rw [hsent.gone_eq] at hgone
      cases hgone
    · rw [hnil] at hyielded
      have hall : yielded offers = pieces.flatten := by simpa [yielded] using hyielded
      rw [hall] at hle
      omega
  refine ⟨turns, pieces, .inl hzero, ?_⟩
  rw [if_pos hle]
  refine ⟨by simpa [start] using hsent.sent_eq, ?_⟩
  have hlength : length = pieces.flatten.length := by omega
  rw [hyielded, hlength]
  simp

/-- **The stream ends as promised exactly if the reader has the bytes that are owed.** -/
theorem endsAsPromised_iff (hgoes : ∀ o ∈ offers, o.goesOn = true)
    (hending : ending.goesOn = false) :
    EndsAsPromised (offers ++ₛ Stream'.cons ending rest) length (yielded offers) ↔
      length ≤ (yielded offers).length := by
  refine ⟨fun hpromised => ?_, ends_of_le hgoes⟩
  by_contra hshort
  obtain ⟨turns, pieces, hdone, hpieces⟩ := hpromised
  rw [if_neg hshort] at hpieces
  obtain ⟨fault, hsent, -⟩ := hpieces
  -- the reader comes to its end with bytes left to send, and an error is sent
  obtain ⟨turns₁, offers₁, pieces₁, hreader₁, hsent₁, hend₁⟩ :=
    drains (p := start (offers ++ₛ Stream'.cons ending rest) length) rfl hgoes
  generalize hp₁ : (start (offers ++ₛ Stream'.cons ending rest) length).after turns₁ = p₁ at *
  have hleft₁ : p₁.left + pieces₁.flatten.length = length := hsent₁.left_eq
  have hgone₁ : p₁.gone = false := hsent₁.gone_eq
  have hyielded := congrArg List.length hsent₁.yielded_eq
  rw [List.length_append] at hyielded
  have hdone₁ : ¬p₁.Done := by
    rintro (hzero | hgone)
    · omega
    · rw [hgone₁] at hgone
      cases hgone
  rw [hend₁.resolve_left hdone₁] at hreader₁
  have hhead : p₁.reader.head.goesOn = false := by
    rw [hreader₁]
    exact hending
  obtain ⟨fault₂, hsent₂, hleft₂, hgone₂⟩ := step_ends hdone₁ hhead
  have hafter : (start (offers ++ₛ Stream'.cons ending rest) length).after (turns₁ + 1) =
      p₁.step true := by rw [after_add, hp₁, after_one]
  have hdone₂ : ¬(p₁.step true).Done := by
    rintro (hzero | hgone)
    · exact hdone₁ (.inl (hleft₂.symm.trans hzero))
    · exact hdone₁ (.inr (hgone₂.symm.trans hgone))
  -- so the loop did not end before that
  have hlater : turns₁ + 1 ≤ turns := by
    by_contra hearlier
    refine hdone₂ ?_
    rw [← hafter, show turns₁ + 1 = turns + (turns₁ + 1 - turns) by omega, after_add,
      after_done hdone]
    exact hdone
  -- nor after it without another piece
  obtain ⟨more, hmore, hgone, hleft⟩ := (p₁.step true).after_sent (turns - (turns₁ + 1))
  rw [← hafter, ← after_add, Nat.add_sub_cancel' hlater, hafter] at hmore hgone hleft
  have hnil : more = [] := by
    refine @error_last pieces₁ pieces fault₂ fault more ?_
    rw [← hsent, hmore, hsent₂, hsent₁.sent_eq]
    simp [start]
  rcases hdone with hzero | hgone'
  · exact hdone₂ (.inl ((hleft hnil).symm.trans hzero))
  · exact hdone₂ (.inr (hgone.symm.trans hgone'))

/-- A content of two bytes of which three were announced. -/
def shortened : Reader := [Offer.bytes [1, 2]] ++ₛ Stream'.const (.bytes [])

theorem after_shortened (turns : Nat) :
    (start shortened 3).after (turns + 1) =
      ⟨1, Stream'.const (.bytes []),
        .ok [1, 2] :: List.replicate turns (.error .endedEarly), false⟩ := by
  induction turns with
  | zero => rfl
  | succ turns ih =>
    rw [after_add, ih, after_one]
    show (⟨1, _, _, false⟩ : Producer) = _
    congr 1
    rw [List.replicate_succ']
    rfl

/-- It is sent, and errors after it without an end. -/
theorem endsAsPromised_shortened :
    ¬EndsAsPromised shortened 3 [1, 2] ∧
      ∀ turns, ((start shortened 3).after (turns + 1)).sent =
        .ok [1, 2] :: List.replicate turns (.error .endedEarly) := by
  refine ⟨?_, fun turns => by rw [after_shortened]⟩
  rintro ⟨turns, pieces, hdone, -⟩
  cases turns with
  | zero => exact absurd hdone (by decide)
  | succ turns =>
    rw [after_shortened] at hdone
    rcases hdone with h | h
    · cases h
    · cases h

/-- Of two bytes that were announced, two are sent. -/
theorem endsAsPromised_whole :
    EndsAsPromised ([.bytes [1], .interrupted, .bytes [2]] ++ₛ
      Stream'.cons (.bytes []) (Stream'.const .failed)) 2
      (yielded [.bytes [1], .interrupted, .bytes [2]]) :=
  (endsAsPromised_iff (by decide) (by decide)).mpr (by decide)

end Producer

end Passalong
